import ApiGateway.Endpoint
import ApiGateway.Query

/-!
# Injected query parameters

Values of an authentication are put into the query under a parameter name.  Four strategies say what
becomes of the values that the caller sent under that name; pairs of other names stay as they are.
-/

namespace ApiGateway.Route

/-- The part of an authentication that is injected. -/
inductive ClaimSource where
  | principal
  | authorities
  deriving DecidableEq, Inhabited, Repr

def ClaimSource.values (source : ClaimSource) (authentication : Authentication) : List String :=
  match source with
  | .principal => [authentication.principal]
  | .authorities => authentication.authorities

inductive InjectionStrategy where
  /-- The given values take the place of the caller's. -/
  | replaceAlways
  /-- The given values are used if the caller sent none. -/
  | replaceIfAbsent
  /-- The given values follow the caller's. -/
  | appendAlways
  /-- Each given value that is not there yet follows. -/
  | appendIfAbsent
  deriving DecidableEq, Inhabited, Repr

/-- Add a pair unless the query has it. -/
def addMissing (name : String) (query : Query) (value : String) : Query :=
  if query.contains (name, value) then query else query ++ [(name, value)]

namespace InjectionStrategy

def apply (strategy : InjectionStrategy) (query : Query) (name : String) (values : List String) :
    Query :=
  let given := values.map fun value => (name, value)
  match strategy with
  | replaceAlways => query.filter (·.1 != name) ++ given
  | replaceIfAbsent => if query.any (·.1 == name) then query else query ++ given
  | appendAlways => query ++ given
  | appendIfAbsent => values.foldl (addMissing name) query

end InjectionStrategy

end ApiGateway.Route
