import ApiGateway.Discovery.Membership
import ApiGateway.Discovery.Sieve

/-!
# Known applications

A refresh takes over the members of the registry: it tells which applications have been found and
which lost since the last one, and remembers the addresses of all.
-/

namespace ApiGateway.Discovery

/-- What is told of the applications. -/
inductive Event where
  | found (application : Application)
  | lost (application : Application)
  /-- A refresh is complete; these applications are known now. -/
  | refreshed (applications : List Application)
  deriving DecidableEq, Repr

structure Cache where
  scheme : String
  /-- The known applications, in the order of their names. -/
  known : List Application := []
  /-- The addresses of the instances by application. -/
  instances : List (String × List String) := []
  deriving DecidableEq, Repr

/-- What a refresh has changed. -/
structure Outcome where
  found : List Application
  lost : List Application
  deriving DecidableEq, Repr

namespace Outcome

def isUnchanged (outcome : Outcome) : Bool :=
  outcome.found.isEmpty && outcome.lost.isEmpty

/-- What is told after a refresh, in this order. -/
def events (outcome : Outcome) (known : List Application) : List Event :=
  outcome.found.map .found ++ outcome.lost.map .lost ++ [.refreshed known]

end Outcome

namespace Cache

/-- Put an application among others in the order of their names, unless it is there. -/
def enter (application : Application) : List Application → List Application
  | [] => [application]
  | other :: rest =>
    if application.name = other.name then other :: rest
    else if application.name < other.name then application :: other :: rest
    else other :: enter application rest

/-- Put an address behind those of its application, unless it is there. -/
def addAddress (name address : String) : List (String × List String) → List (String × List String)
  | [] => [(name, [address])]
  | (other, addresses) :: rest =>
    if name = other then
      (other, if addresses.contains address then addresses else addresses ++ [address]) :: rest
    else (other, addresses) :: addAddress name address rest

/-- The members that pass the sieves. -/
def admitted (cache : Cache) (sieves : Sieves Application) (members : Membership) : Membership :=
  members.filter fun member => sieves.allows ⟨member.name, cache.scheme⟩

/-- The applications that members stand for, in the order of their names. -/
def applicationsOf (cache : Cache) (members : Membership) : List Application :=
  members.foldl (fun known member => enter ⟨member.name, cache.scheme⟩ known) []

def addressesOf (members : Membership) : List (String × List String) :=
  members.foldl (fun known member => addAddress member.name member.address known) []

def knows (applications : List Application) (application : Application) : Bool :=
  applications.any (·.same application)

/-- Take over the members of the registry. -/
def refresh (cache : Cache) (sieves : Sieves Application) (members : Membership) : Cache × Outcome :=
  let admitted := cache.admitted sieves members
  let retained := cache.applicationsOf admitted
  let outcome : Outcome := {
    found := retained.filter (!knows cache.known ·)
    lost := cache.known.filter (!knows retained ·) }
  ({ cache with known := retained, instances := addressesOf admitted }, outcome)

/-- The addresses of the instances of an application. -/
def addresses (cache : Cache) (application : String) : List String :=
  (cache.instances.lookup application).getD []

end Cache

end ApiGateway.Discovery
