import ApiGateway.Endpoint

/-!
# Collisions

Two routes collide if they claim the same external method and path.
-/

namespace ApiGateway.Route

/-- Which of two routes of one key serves. -/
inductive CollisionPolicy where
  /-- The route that was there first. -/
  | reject
  /-- The route that came last. -/
  | replace
  deriving DecidableEq, Inhabited, Repr

structure Collision where
  method : Http.Method
  path : String
  kept : EndpointKey
  discarded : EndpointKey
  policy : CollisionPolicy
  deriving DecidableEq, Repr

inductive Insertion where
  | inserted
  | rejected
  | replaced
  deriving DecidableEq, Repr

end ApiGateway.Route
