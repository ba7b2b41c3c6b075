import ApiGateway.Breaker

/-!
# Breakers by name

Every breaker that was ever made keeps its number, under which it can still be used after its name has
been given to another.
-/

namespace ApiGateway.Breaker

structure Registry where
  settings : Settings.Breaker := {}
  /-- All breakers, by number. -/
  made : List Breaker := []
  /-- The numbers of the current breakers, in the order of their names. -/
  current : List (String × Nat) := []
  deriving Repr

namespace Registry

def get? (registry : Registry) (number : Nat) : Option Breaker :=
  registry.made[number]?

/-- Set a number among names in order. -/
def enter (name : String) (number : Nat) : List (String × Nat) → List (String × Nat)
  | [] => [(name, number)]
  | (other, known) :: rest =>
    if name < other then (name, number) :: (other, known) :: rest
    else (other, known) :: enter name number rest

/-- The number of the breaker of a name, which is made if there is none. -/
def getOrCreate (registry : Registry) (name : String) : Registry × Nat :=
  match registry.current.lookup name with
  | some number => (registry, number)
  | none =>
    let number := registry.made.length
    ({ registry with
      made := registry.made ++ [{ name, settings := registry.settings }]
      current := enter name number registry.current }, number)

/-- Forget the breaker of a name. -/
def remove (registry : Registry) (name : String) : Registry × Option Nat :=
  ({ registry with current := registry.current.filter (·.1 != name) }, registry.current.lookup name)

/-- Use a breaker by its number. -/
def act (registry : Registry) (number now : Nat) (action : Action) : Registry × Option Bool :=
  match registry.made[number]? with
  | none => (registry, none)
  | some breaker =>
    let (breaker, answer) := breaker.act now action
    ({ registry with made := registry.made.set number breaker }, answer)

def size (registry : Registry) : Nat :=
  registry.current.length

/-- The names whose current breaker is open, in order. -/
def openNames (registry : Registry) : List String :=
  (registry.current.filter fun (_, number) => (registry.made[number]?).any (·.isOpen)).map (·.1)

end Registry

end ApiGateway.Breaker
