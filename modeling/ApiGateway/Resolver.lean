import ApiGateway.Failure
import ApiGateway.Url

/-!
# Resolving logical addresses

A logical address is a scheme followed by an application's name.  It resolves to an instance of the
application, the instances taking turns; other addresses have to be URLs of the web.
-/

namespace ApiGateway

/-- Turns over a list.  The counter has 64 bits. -/
structure Rotation where
  turns : Nat := 0
  deriving DecidableEq, Inhabited, Repr

namespace Rotation

def turnLimit : Nat := Nat.pow 2 64

/-- The item whose turn it is; an empty list takes no turn. -/
def select (rotation : Rotation) (items : List α) : Rotation × Option α :=
  match items with
  | [] => (rotation, none)
  | items => (⟨(rotation.turns + 1) % turnLimit⟩, items[rotation.turns % items.length]?)

end Rotation

/-- One rotation for each application that has been resolved. -/
structure Resolver where
  scheme : String
  rotations : List (String × Rotation) := []
  deriving Repr

namespace Resolver

/-- Why an address cannot be resolved. -/
inductive Problem where
  | noInstances
  | invalidInstance (problem : Url.Problem)
  | invalidUrl (problem : Url.Problem)
  | unsupportedScheme (scheme : String)
  deriving DecidableEq, Repr

def Problem.message : Problem → String
  | .noInstances => "no live instances"
  | .invalidInstance problem => "invalid instance address: " ++ problem.message
  | .invalidUrl problem => problem.message
  | .unsupportedScheme scheme => "unsupported scheme '" ++ scheme ++ "'"

def Problem.failure (problem : Problem) (uri : String) : Failure :=
  .unresolvable uri problem.message

/-- The application that a logical address names. -/
def application? (resolver : Resolver) (uri : String) : Option String :=
  (Text.strip? resolver.scheme.toList uri.toList).map String.ofList

def rotation (resolver : Resolver) (application : String) : Rotation :=
  (resolver.rotations.lookup application).getD {}

def setRotation (resolver : Resolver) (application : String) (rotation : Rotation) : Resolver :=
  { resolver with
    rotations := (application, rotation) :: resolver.rotations.filter (·.1 != application) }

/-- The next instance of an application. -/
def next (resolver : Resolver) (application : String) (instances : List String) :
    Resolver × Option String :=
  let (rotation, address) := (resolver.rotation application).select instances
  (resolver.setRotation application rotation, address)

/-- An address of the web itself. -/
def direct (uri : String) : Except Problem Url :=
  match Url.parse uri with
  | .error problem => .error (.invalidUrl problem)
  | .ok url =>
    if url.scheme = "http".toList ∨ url.scheme = "https".toList then .ok url
    else .error (.unsupportedScheme (.ofList url.scheme))

def resolve (resolver : Resolver) (instances : String → List String) (uri : String) :
    Resolver × Except Problem Url :=
  match resolver.application? uri with
  | none => (resolver, direct uri)
  | some application =>
    match resolver.next application (instances application) with
    | (resolver, none) => (resolver, .error .noInstances)
    | (resolver, some address) => (resolver, (Url.parse address).mapError .invalidInstance)

/-- Forget the turns of an application. -/
def evict (resolver : Resolver) (application : String) : Resolver :=
  { resolver with rotations := resolver.rotations.filter (·.1 != application) }

end Resolver

end ApiGateway
