import ApiGateway.Failure
import ApiGateway.Json.Write

/-!
# Responses

A response has a status, headers in order, and a body of bytes.
-/

namespace ApiGateway.Http

abbrev Headers := List (String × String)

structure Response where
  status : Nat
  headers : Headers
  body : ByteArray

namespace Response

def text (status : Nat) (body : String) : Response :=
  ⟨status, [("content-type", "text/plain; charset=utf-8")], body.toUTF8⟩

def json (status : Nat) (body : Json) : Response :=
  ⟨status, [("content-type", "application/json")], body.write.toUTF8⟩

end Response

end ApiGateway.Http

namespace ApiGateway

/-- What a client is told about a failure. -/
def Failure.body (failure : Failure) : Json :=
  .object [("error", .object [("code", .natural failure.status),
    ("message", .string failure.message), ("type", .string failure.kind)])]

def Failure.response (failure : Failure) : Http.Response :=
  .json failure.status failure.body

end ApiGateway
