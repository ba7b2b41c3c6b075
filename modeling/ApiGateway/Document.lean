import ApiGateway.Endpoint
import ApiGateway.Failure
import ApiGateway.Json.Read
import ApiGateway.Text.Utf8
import ApiGateway.Yaml.Value

/-!
# API documents

An application documents its operations in an OpenAPI document, written as JSON or YAML.  What is needed
of it has to have its form; all else is passed over.  Where an object is expected, the list of its
fields in their fixed order can stand.
-/

namespace ApiGateway

/-- One operation of a document. -/
structure Operation where
  method : Http.Method
  path : String
  tags : List String
  parameters : List Parameter
  /-- Whether the request body is required, if there is one. -/
  bodyRequired : Option Bool
  deriving DecidableEq, Repr

structure Document where
  description : Option String
  operations : List Operation
  /-- The document as it was written. -/
  native : Json

namespace Document

/-! ## Forms -/

/-- The fields of an object; in a list they come in the order of the names and may be missing at the
end. -/
def fields? (names : List String) : Json → Option (List (String × Json))
  | .object members => some members
  | .array items => if items.length ≤ names.length then some (names.zip items) else none
  | _ => none

/-- Read a field; if it is absent, a value stands in for it. -/
def optional (fields : List (String × Json)) (name : String) (read : Json → Option α) (absent : α) :
    Option α :=
  match fields.lookup name with
  | some json => read json
  | none => some absent

def text? : Json → Option String
  | .string text => some text
  | _ => none

def flag? : Json → Option Bool
  | .bool flag => some flag
  | _ => none

def list? (read : Json → Option α) : Json → Option (List α)
  | .array items => items.mapM read
  | _ => none

/-- A value that may be missing, and then is null. -/
def unlessNull? (read : Json → Option α) : Json → Option (Option α)
  | .null => some none
  | json => (read json).map some

/-! ## Parameters -/

/-- A parameter as it is documented.  One without a name only refers to another place. -/
structure Mention where
  name : Option String
  location : Option String
  required : Bool
  deriving DecidableEq, Repr

def Mention.read? (json : Json) : Option Mention := do
  let fields ← fields? ["name", "in", "required"] json
  return {
    name := ← optional fields "name" (unlessNull? text?) none
    location := ← optional fields "in" (unlessNull? text?) none
    required := ← optional fields "required" flag? false }

/-- Two mentions of one parameter. -/
def Mention.same (left right : Mention) : Bool :=
  left.name == right.name && left.location == right.location

def Mention.parameter? (mention : Mention) : Option Parameter :=
  mention.name.map (⟨·, mention.required⟩)

/-- The parameters of an operation: those of its path that it does not mention itself, and its own. -/
def mergeParameters (path own : List Mention) : List Parameter :=
  (path.filter (fun mention => !own.any mention.same) ++ own).filterMap Mention.parameter?

/-! ## Operations -/

/-- What a path item says of one method. -/
structure MethodItem where
  tags : List String
  parameters : List Mention
  bodyRequired : Option Bool
  deriving DecidableEq, Repr

def body? (json : Json) : Option Bool := do
  optional (← fields? ["required"] json) "required" flag? false

def MethodItem.read? (json : Json) : Option MethodItem := do
  let fields ← fields? ["tags", "parameters", "requestBody"] json
  return {
    tags := ← optional fields "tags" (list? text?) []
    parameters := ← optional fields "parameters" (list? Mention.read?) []
    bodyRequired := ← optional fields "requestBody" (unlessNull? body?) none }

/-- The methods that a path item can document, in the order of the operations. -/
def documentable : List (String × Http.Method) :=
  [("get", .get), ("put", .put), ("post", .post), ("delete", .delete), ("options", .options),
    ("head", .head), ("patch", .patch), ("trace", .trace)]

structure PathItem where
  parameters : List Mention
  methods : List (Http.Method × MethodItem)
  deriving DecidableEq, Repr

def PathItem.read? (json : Json) : Option PathItem := do
  let fields ← fields? ("parameters" :: documentable.map (·.1)) json
  let parameters ← optional fields "parameters" (list? Mention.read?) []
  let found ← documentable.mapM fun (name, method) =>
    (optional fields name (unlessNull? MethodItem.read?) none).map fun item => item.map (method, ·)
  return ⟨parameters, found.filterMap id⟩

def PathItem.operations (path : String) (item : PathItem) : List Operation :=
  item.methods.map fun (method, found) =>
    ⟨method, path, found.tags, mergeParameters item.parameters found.parameters, found.bodyRequired⟩

/-! ## Documents -/

def info? (json : Json) : Option (Option String) := do
  optional (← fields? ["description"] json) "description" (unlessNull? text?) none

/-- The path items, in the order of their paths. -/
def paths? : Json → Option (List (String × PathItem))
  | .object members => members.mapM fun (path, json) => (PathItem.read? json).map (path, ·)
  | _ => none

/-- The document in a value.  Paths that do not start with a slash document nothing. -/
def ofJson? (json : Json) : Option Document := do
  let fields ← fields? ["info", "paths"] json
  let info ← optional fields "info" (unlessNull? info?) none
  let paths ← (fields.lookup "paths").bind paths?
  let served := paths.filter fun (path, _) => path.toList.head? = some '/'
  return ⟨info.bind id, served.flatMap fun (path, item) => item.operations path, json⟩

inductive Problem where
  | unreadable
  | malformed
  deriving DecidableEq, Repr

def Problem.message : Problem → String
  | unreadable => "neither JSON nor YAML: the text has no value"
  | malformed => "not an OpenAPI document: a part of it does not have its form"

def Problem.failure (problem : Problem) : Failure :=
  .documentParse problem.message

/-- The value of a text that is JSON, or else YAML. -/
def valueOf? (text : List Char) : Option Json :=
  (Json.read? text).orElse fun _ => (Yaml.Node.readAll? text).bind (·.value?)

/-- Read a document. -/
def read (bytes : List UInt8) : Except Problem Document :=
  match (Text.ofUtf8? bytes).bind valueOf? with
  | none => .error .unreadable
  | some json =>
    match ofJson? json with
    | some document => .ok document
    | none => .error .malformed

end Document

/-- The endpoint that an operation of an application is. -/
def Operation.endpoint (application : Application) (operation : Operation) : Endpoint :=
  ⟨application, operation.method, operation.path, operation.tags, operation.parameters,
    operation.bodyRequired⟩

/-- The endpoints that a document gives an application. -/
def Document.endpoints (document : Document) (application : Application) : List Endpoint :=
  document.operations.map (·.endpoint application)

end ApiGateway
