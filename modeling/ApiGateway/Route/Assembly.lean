import ApiGateway.Discovery.Collector
import ApiGateway.Route.Processor
import ApiGateway.Route.Table

/-!
# Assembly

The table follows the endpoints: a route is made and inserted for each endpoint found, and removed for
each endpoint lost.  A route that cannot be made or inserted is left out.
-/

namespace ApiGateway.Route

def Table.follow (processors : List Processor) (table : Table) (event : Discovery.EndpointEvent) : Table :=
  match event with
  | .found endpoint =>
    match assemble processors endpoint with
    | .ok route => (table.insert route).1
    | .error _ => table
  | .lost key => (table.remove key).1

end ApiGateway.Route
