import ApiGateway.Duration.Text
import ApiGateway.Failure
import ApiGateway.Settings.Names
import ApiGateway.Yaml.Value

/-!
# Reading settings

Settings are read from a node by the kind of each setting.  What is absent keeps its value; what has no
meaning is passed over; what is given twice or has the wrong form makes the whole unreadable.
-/

namespace ApiGateway.Settings

open Yaml (Node)

/-! ## Kinds of settings -/

/-- A node that stands for nothing has nothing set in it. -/
def isEmptyNode : Node → Bool
  | .scalar leaf => leaf.style == .plain && leaf.text == ""
  | _ => false

/-- Names of the entries of a mapping, which have to be scalars. -/
def named? (entries : List (Node × Node)) : Option (List (String × Node)) :=
  entries.mapM fun (key, node) =>
    match key with
    | .scalar leaf => some (leaf.text, node)
    | _ => none

/-- No known name occurs twice. -/
def areDistinct (known : List String) (entries : List (String × Node)) : Bool :=
  known.all fun name => (entries.filter (·.1 == name)).length ≤ 1

/-- The entries of a section with the known names. -/
def section? (known : List String) (node : Node) : Option (List (String × Node)) :=
  match node with
  | .mapping _ entries => (named? entries).filter (areDistinct known)
  | node => if isEmptyNode node then some [] else none

/-- Read an entry; if it is absent, a value stands in for it. -/
def optional (entries : List (String × Node)) (name : String) (read : Node → Option α) (absent : α) :
    Option α :=
  match entries.lookup name with
  | some node => read node
  | none => some absent

/-- Read an entry that has to be there. -/
def required (entries : List (String × Node)) (name : String) (read : Node → Option α) : Option α :=
  (entries.lookup name).bind read

def text? : Node → Option String
  | .scalar leaf => some leaf.text
  | _ => none

def list? (read : Node → Option α) : Node → Option (List α)
  | .sequence _ items => items.mapM read
  | node => if isEmptyNode node then some [] else none

def flag? : Node → Option Bool
  | .scalar leaf => if leaf.looksLike "bool" then Yaml.bool? leaf.text else none
  | _ => none

/-- A natural number of so many bits. -/
def natural? (bits : Nat) : Node → Option Nat
  | .scalar leaf =>
    if leaf.looksLike "int" ∧ leaf.text.toList.head? ≠ some '-' then
      match Yaml.integer? leaf.text.toList with
      | some value => if value.toNat < Nat.pow 2 bits then some value.toNat else none
      | none => none
    else none
  | _ => none

def duration? (node : Node) : Option Duration :=
  (text? node).bind fun text => (Duration.parse text).toOption

/-- One of several choices, given by its name, or by a tag of that name on nothing. -/
def choice? (names : List (String × α)) : Node → Option α
  | .scalar leaf =>
    match Yaml.localTag? leaf.tag with
    | some name => if Yaml.Scalar.isNone { leaf with tag := none } then names.lookup name else none
    | none => names.lookup leaf.text
  | _ => none

/-- A section that may be left out as a whole. -/
def unlessNone? (read : Node → Option α) (node : Node) : Option (Option α) :=
  match node with
  | .scalar leaf => if leaf.isNone then some none else (read node).map some
  | node => (read node).map some

/-! ## The registry

The registry is told apart by an entry of its own.  Its texts have to be texts, and a list can stand for
a section. -/

def exactText? : Node → Option String
  | .scalar leaf =>
    match leaf.value? with
    | some (.string text) => some text
    | _ => none
  | _ => none

/-- The name an entry is known by: a text, or the place of a name among the known ones. -/
def exactName? (known : List String) : Node → Option String
  | .scalar leaf =>
    match leaf.value? with
    | some (.string name) => some name
    | some (.natural place) => some ((known[place]?).getD "")
    | _ => none
  | _ => none

/-- The entries of a section, or the items of a list in the order of the known names. -/
def exactSection? (known : List String) : Node → Option (List (String × Node))
  | .mapping _ entries =>
    (entries.mapM fun entry => (exactName? known entry.1).map (·, entry.2)).filter (areDistinct known)
  | .sequence _ items => if items.length ≤ known.length then some (known.zip items) else none
  | _ => none

def exactList? (read : Node → Option α) : Node → Option (List α)
  | .sequence _ items => items.mapM read
  | _ => none

def member? (node : Node) : Option Member := do
  let entries ← exactSection? ["name", "address"] node
  return { name := ← required entries "name" exactText?, address := ← required entries "address" exactText? }

/-- The kind of a registry and the node without it. -/
def kind? : Node → Option (String × Node)
  | .mapping tag entries => do
    let [(_, kind)] := entries.filter fun (key, _) => exactText? key = some "type" | none
    return (← text? kind, .mapping tag (entries.filter fun (key, _) => exactText? key ≠ some "type"))
  | .sequence tag (kind :: items) => (text? kind).map (·, .sequence tag items)
  | _ => none

def registry? (node : Node) : Option Registry := do
  let (kind, node) ← kind? node
  let _ ← node.valueWithin? (Node.depthLimit - 2)
  match kind with
  | "static" =>
    let entries ← exactSection? ["members"] node
    return .fixed (← optional entries "members" (exactList? member?) [])
  | "http" =>
    let entries ← exactSection? ["url", "timeout"] node
    return .http (← required entries "url" exactText?)
      (← optional entries "timeout" (fun node => (exactText? node).bind fun _ => duration? node)
        (.ofSeconds 5))
  | _ => none

/-! ## Sections -/

def server? (node : Node) : Option Server := do
  let entries ← section? ["bind_address", "port"] node
  let default : Server := {}
  return {
    bindAddress := ← optional entries "bind_address" text? default.bindAddress
    port := ← optional entries "port" (natural? 16) default.port }

def serverEntry? (node : Node) : Option ServerEntry := do
  let entries ← section? ["url", "description"] node
  return {
    url := ← required entries "url" text?
    description := ← optional entries "description" text? "" }

def gateway? (node : Node) : Option Gateway := do
  let entries ← section? ["version_prefix", "ignored_path_prefixes", "public_path_patterns",
    "error_path_patterns", "circuit_breaker_timeout", "servers"] node
  let default : Gateway := {}
  let texts (name : String) := optional entries name (list? text?)
  return {
    versionPrefix := ← optional entries "version_prefix" text? default.versionPrefix
    ignoredPathPrefixes := ← texts "ignored_path_prefixes" default.ignoredPathPrefixes
    publicPathPatterns := ← texts "public_path_patterns" default.publicPathPatterns
    errorPathPatterns := ← texts "error_path_patterns" default.errorPathPatterns
    breakerTimeout := ← optional entries "circuit_breaker_timeout" duration? default.breakerTimeout
    servers := ← optional entries "servers" (list? serverEntry?) default.servers }

def discovery? (node : Node) : Option Discovery := do
  let entries ← section? ["self_name", "scheme", "doc_path", "refresh_interval", "registry"] node
  let default : Discovery := {}
  return {
    selfName := ← optional entries "self_name" text? default.selfName
    scheme := ← optional entries "scheme" text? default.scheme
    docPath := ← optional entries "doc_path" text? default.docPath
    refreshInterval := ← optional entries "refresh_interval" duration? default.refreshInterval
    registry := ← optional entries "registry" registry? default.registry }

def jwt? (node : Node) : Option Jwt := do
  let entries ← section? ["secret", "leeway"] node
  let default : Jwt := {}
  return {
    secret := ← optional entries "secret" text? default.secret
    leeway := ← optional entries "leeway" duration? default.leeway }

def auth? (node : Node) : Option Auth := do
  let entries ← section? ["jwt"] node
  return { jwt := ← optional entries "jwt" (unlessNone? jwt?) none }

def initializer? (node : Node) : Option Initializer := do
  let entries ← section? ["parameter", "source", "strategy"] node
  return {
    parameter := ← required entries "parameter" text?
    source := ← required entries "source" (choice? Route.ClaimSource.names)
    strategy := ← required entries "strategy" (choice? Route.InjectionStrategy.names) }

def routing? (node : Node) : Option Routing := do
  let entries ← section? ["collision_policy", "identity_prefix", "principal_parameter",
    "authenticated_tag", "parameter_initializers"] node
  let default : Routing := {}
  return {
    collisionPolicy := ←
      optional entries "collision_policy" (choice? Route.CollisionPolicy.names) default.collisionPolicy
    identityPrefix := ← optional entries "identity_prefix" text? default.identityPrefix
    principalParameter := ← optional entries "principal_parameter" text? default.principalParameter
    authenticatedTag := ← optional entries "authenticated_tag" text? default.authenticatedTag
    initializers := ←
      optional entries "parameter_initializers" (list? initializer?) default.initializers }

def breaker? (node : Node) : Option Breaker := do
  let entries ← section? ["failure_threshold", "open_duration", "success_threshold",
    "half_open_max_requests"] node
  let default : Breaker := {}
  return {
    failureThreshold := ← optional entries "failure_threshold" (natural? 32) default.failureThreshold
    openDuration := ← optional entries "open_duration" duration? default.openDuration
    successThreshold := ← optional entries "success_threshold" (natural? 32) default.successThreshold
    trialLimit := ← optional entries "half_open_max_requests" (natural? 32) default.trialLimit }

def logging? (node : Node) : Option Logging := do
  let entries ← section? ["level", "format"] node
  let default : Logging := {}
  return {
    level := ← optional entries "level" text? default.level
    format := ← optional entries "format" text? default.format }

def metrics? (node : Node) : Option Metrics := do
  let entries ← section? ["enabled", "listen_address"] node
  let default : Metrics := {}
  return {
    enabled := ← optional entries "enabled" flag? default.enabled
    listenAddress := ← optional entries "listen_address" text? default.listenAddress }

/-- Read the settings in a node. -/
def ofNode? (node : Node) : Option Settings := do
  let entries ← section? ["server", "gateway", "discovery", "auth", "routing", "circuit_breaker",
    "logging", "metrics"] node
  return {
    server := ← optional entries "server" server? {}
    gateway := ← optional entries "gateway" gateway? {}
    discovery := ← optional entries "discovery" discovery? {}
    auth := ← optional entries "auth" auth? {}
    routing := ← optional entries "routing" routing? {}
    breaker := ← optional entries "circuit_breaker" breaker? {}
    logging := ← optional entries "logging" logging? {}
    metrics := ← optional entries "metrics" metrics? {} }

end ApiGateway.Settings

namespace ApiGateway

/-- Read the settings in a text. -/
def Settings.read (text : String) : Except Failure Settings :=
  match (Yaml.Node.read? text.toList).bind Settings.ofNode? with
  | some settings => .ok settings
  | none => .error (.configuration "Failed to parse config: not the settings of a gateway")

end ApiGateway
