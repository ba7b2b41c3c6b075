import ApiGateway.Endpoint
import ApiGateway.Path.Pattern
import ApiGateway.Text.Case

/-!
# Sieves

A sieve lets candidates through or not.  Through several sieves passes what each of them lets through.
-/

namespace ApiGateway.Discovery

structure Sieves (α : Type) where
  sieves : List (α → Bool) := []

namespace Sieves

def allows (sieves : Sieves α) (candidate : α) : Bool :=
  sieves.sieves.all (· candidate)

theorem allows_iff {sieves : Sieves α} {candidate : α} :
    sieves.allows candidate = true ↔ ∀ sieve ∈ sieves.sieves, sieve candidate = true := by
  simp [allows]

def size (sieves : Sieves α) : Nat :=
  sieves.sieves.length

/-- The sieves as one line. -/
def describe (sieves : Sieves α) : String :=
  "Sieves \x7b len: " ++ toString sieves.size ++ " \x7d"

end Sieves

/-- Holds back the application of a name; the case of ASCII letters does not matter. -/
def excludeSelf (name : String) (application : Application) : Bool :=
  Text.lowerAscii application.name.toList != Text.lowerAscii name.toList

/-- Holds back endpoints with a path that a pattern accepts. -/
def excludePaths (patterns : Path.Patterns) (endpoint : Endpoint) : Bool :=
  !patterns.accept endpoint.path

end ApiGateway.Discovery
