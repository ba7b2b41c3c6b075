import ApiGateway.Proxy
import ApiGateway.Settings.Basic

/-!
# Fetching documents

The document of an application is asked for at the instance whose turn it is.
-/

namespace ApiGateway.Discovery

/-- The address of a document. -/
def documentUrl (base : Url) (path : String) : String :=
  Proxy.join base path

/-- The request for the document of an application. -/
def documentRequest (resolver : Resolver) (instances : String → List String) (path : String)
    (application : Application) : Resolver × Except Failure Http.Outgoing :=
  let (resolver, base) := resolver.resolve instances application.uri
  (resolver,
    match base with
    | .error problem =>
      .error (.documentFetch application.name (problem.failure application.uri).message)
    | .ok base => .ok ⟨.get, documentUrl base path, [], .empty⟩)

/-- Fetch the document of an application. -/
def fetchDocument (resolver : Resolver) (instances : String → List String)
    (send : Http.Outgoing → Http.Exchange) (path : String) (application : Application) :
    Resolver × Except Failure (List UInt8) :=
  let (resolver, request) := documentRequest resolver instances path application
  (resolver, request.bind fun outgoing =>
    let exchange := send outgoing
    match exchange.success? with
    | some response => .ok response.body.toList
    | none => .error (.documentFetch application.name exchange.reason))

end ApiGateway.Discovery
