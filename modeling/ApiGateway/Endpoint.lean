import ApiGateway.Http.Method

/-!
# Applications and their documented endpoints

An application is identified by its name and an endpoint by its key.  What else is known of them may
differ from one discovery or documentation fetch to the next.
-/

namespace ApiGateway

/-- A discovered application, with the scheme under which its instances are addressed. -/
structure Application where
  name : String
  scheme : String
  deriving DecidableEq, Inhabited, Repr

namespace Application

/-- The logical address of the application. -/
def uri (application : Application) : String :=
  application.scheme ++ application.name

/-- Two records of one application. -/
def same (left right : Application) : Bool :=
  left.name == right.name

theorem same_iff {left right : Application} : left.same right = true ↔ left.name = right.name := by
  simp [same]

end Application

/-- One instance listed by the registry. -/
structure Member where
  name : String
  address : String
  deriving DecidableEq, Inhabited, Repr

structure Parameter where
  name : String
  required : Bool
  deriving DecidableEq, Inhabited, Repr

structure EndpointKey where
  application : String
  method : Http.Method
  path : String
  deriving DecidableEq, Inhabited, Repr

/-- The key as text, parted by blanks. -/
def EndpointKey.text (key : EndpointKey) : String :=
  key.application ++ " " ++ key.method.token ++ " " ++ key.path

/-- One documented operation.  `bodyRequired` is absent if no request body is documented. -/
structure Endpoint where
  application : Application
  method : Http.Method
  path : String
  tags : List String := []
  parameters : List Parameter := []
  bodyRequired : Option Bool := none
  deriving DecidableEq, Inhabited, Repr

namespace Endpoint

def key (endpoint : Endpoint) : EndpointKey :=
  ⟨endpoint.application.name, endpoint.method, endpoint.path⟩

/-- Two records of one endpoint. -/
def same (left right : Endpoint) : Bool :=
  left.key == right.key

theorem same_iff {left right : Endpoint} : left.same right = true ↔ left.key = right.key := by
  simp [same]

def hasTag (endpoint : Endpoint) (tag : String) : Bool :=
  endpoint.tags.contains tag

def declares (endpoint : Endpoint) (parameter : String) : Bool :=
  endpoint.parameters.any (·.name == parameter)

end Endpoint

/-- The identity established for one request. -/
structure Authentication where
  principal : String
  authorities : List String
  deriving DecidableEq, Inhabited, Repr

def Authentication.holds (authentication : Authentication) (authority : String) : Bool :=
  authentication.authorities.contains authority

end ApiGateway
