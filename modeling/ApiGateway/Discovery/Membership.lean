import ApiGateway.Endpoint
import ApiGateway.Http.Exchange
import ApiGateway.Json.Read
import ApiGateway.Text.Utf8

/-!
# Membership

The members of a registry are held in the order of their registration, or asked for at an address.
-/

namespace ApiGateway.Discovery

abbrev Membership := List Member

namespace Membership

/-- Add a member, unless it is there; tell whether something changed. -/
def register (members : Membership) (member : Member) : Membership × Bool :=
  if members.contains member then (members, false) else (members ++ [member], true)

/-- Remove all members of a name; tell whether something changed. -/
def deregister (members : Membership) (name : String) : Membership × Bool :=
  (members.filter (·.name != name), members.any (·.name == name))

/-- A member in a response: an object, or the list of its two texts. -/
def ofItem? : Json → Option Member
  | .object fields =>
    match fields.filter (·.1 == "name"), fields.filter (·.1 == "address") with
    | [(_, .string name)], [(_, .string address)] => some ⟨name, address⟩
    | _, _ => none
  | .array [.string name, .string address] => some ⟨name, address⟩
  | _ => none

/-- The members in the body of a response. -/
def ofBody? (body : List UInt8) : Option Membership :=
  match (Text.ofUtf8? body).bind Json.readRaw? with
  | some (.array items) => items.mapM ofItem?
  | _ => none

/-- The members that a registry has answered with. -/
def ofExchange (exchange : Http.Exchange) : Except Failure Membership :=
  match exchange.success? with
  | none => .error (.serviceDiscovery ("Registry request failed: " ++ exchange.reason))
  | some response =>
    match ofBody? response.body.toList with
    | some members => .ok members
    | none => .error (.serviceDiscovery "Invalid registry response: not a list of members")

end Membership

end ApiGateway.Discovery
