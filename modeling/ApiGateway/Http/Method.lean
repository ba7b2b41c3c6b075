/-!
# Request methods

A method is its exact, case-sensitive token.
-/

namespace ApiGateway.Http

structure Method where
  token : String
  deriving DecidableEq, Inhabited, Repr, Hashable

namespace Method

def get : Method := ⟨"GET"⟩
def head : Method := ⟨"HEAD"⟩
def put : Method := ⟨"PUT"⟩
def post : Method := ⟨"POST"⟩
def delete : Method := ⟨"DELETE"⟩
def options : Method := ⟨"OPTIONS"⟩
def patch : Method := ⟨"PATCH"⟩
def trace : Method := ⟨"TRACE"⟩

end Method

end ApiGateway.Http
