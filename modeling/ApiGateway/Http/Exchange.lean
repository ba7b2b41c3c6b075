import ApiGateway.Http.Method
import ApiGateway.Http.Response

/-!
# Requests and exchanges

A request is sent to a server, which answers it or does not.
-/

namespace ApiGateway.Http

structure Request where
  method : Method
  path : String
  /-- The text behind the question mark, if there is one. -/
  query : Option String := none
  headers : Headers := []
  body : ByteArray := .empty

/-- A request on its way to the server that its address names. -/
structure Outgoing where
  method : Method
  url : String
  headers : Headers
  body : ByteArray

/-- What comes of sending a request. -/
inductive Exchange where
  | answered (response : Response)
  /-- No complete response came back. -/
  | failed (reason : String)
  /-- No response came back in time. -/
  | late

namespace Exchange

/-- The response, unless its status tells of an error. -/
def success? : Exchange → Option Response
  | answered response => if 400 ≤ response.status ∧ response.status < 600 then none else some response
  | failed _ | late => none

/-- Why there is no success. -/
def reason : Exchange → String
  | answered response => "status " ++ toString response.status
  | failed reason => reason
  | late => "operation timed out"

end Exchange

end ApiGateway.Http
