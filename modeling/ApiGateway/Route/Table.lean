import ApiGateway.Failure
import ApiGateway.Path.Template
import ApiGateway.Route.Basic
import ApiGateway.Route.Collision
import ApiGateway.Route.Tree

/-!
# The route table

Routes are held in slots, one for each method and template key.  The serving route of a slot answers
requests; the others wait on standby in the order in which they came to it.  Serving routes are found
through one index for each method, which grows with new slots and is rebuilt when a serving route
goes or is displaced.
-/

namespace ApiGateway.Route

/-- A serving route, with the template's variables and the path segments they stand for. -/
structure Match where
  route : Route
  params : List (String × String)
  deriving DecidableEq, Repr

structure SlotKey where
  method : Http.Method
  template : List Char
  deriving DecidableEq, Repr

structure Slot where
  key : SlotKey
  serving : Route
  standby : List Route
  deriving DecidableEq, Repr

/-- One tree for each method that has been indexed. -/
abbrev Index := List (Http.Method × Tree Route)

namespace Index

def tree (index : Index) (method : Http.Method) : Tree Route :=
  (index.lookup method).getD .empty

def setTree (index : Index) (method : Http.Method) (tree : Tree Route) : Index :=
  match index with
  | [] => [(method, tree)]
  | (other, old) :: rest =>
    if other = method then (method, tree) :: rest else (other, old) :: setTree rest method tree

end Index

/-- The method under which a route is indexed; a route open to any method stands under one. -/
def indexMethod (route : Route) : Http.Method :=
  route.method?.getD .get

def slotKey (route : Route) : SlotKey :=
  ⟨indexMethod route, Path.Template.key route.template.toList⟩

def indexText (route : Route) : List Char :=
  Path.Template.indexText route.template.toList

/-- Add a route to the index, or say why its template does not fit. -/
def Index.add (index : Index) (route : Route) : Index × Option Refusal :=
  let (tree, refusal) := (index.tree (indexMethod route)).insert (indexText route) route
  (index.setTree (indexMethod route) tree, refusal)

def Index.ofRoutes (routes : List Route) : Index :=
  routes.foldl (fun index route => (index.add route).1) []

/-- The slots stand in the order in which they were opened. -/
structure Table where
  policy : CollisionPolicy := .reject
  slots : List Slot := []
  index : Index := []
  collisions : List Collision := []

/-- What the policy makes of a slot that a further route comes to, and the routes kept and not. -/
def Slot.receive (slot : Slot) (policy : CollisionPolicy) (route : Route) : Slot × Route × Route :=
  match policy with
  | .reject => ({ slot with standby := slot.standby ++ [route] }, slot.serving, route)
  | .replace =>
    ({ slot with serving := route, standby := slot.standby ++ [slot.serving] }, route, slot.serving)

/-- Take the routes of an endpoint out of a slot.  The first on standby follows a serving route; a
slot without one is gone. -/
def Slot.discard (endpoint : EndpointKey) (slot : Slot) : Option Slot :=
  let standby := slot.standby.filter (·.endpoint != endpoint)
  if slot.serving.endpoint = endpoint then
    match standby with
    | [] => none
    | next :: rest => some { slot with serving := next, standby := rest }
  else some { slot with standby := standby }

namespace Table

def empty (policy : CollisionPolicy) : Table :=
  { policy }

/-- The serving routes, in the order of their slots. -/
def routes (table : Table) : List Route :=
  table.slots.map (·.serving)

def reindex (table : Table) : Table :=
  { table with index := Index.ofRoutes table.routes }

/-- The endpoint serving the slot whose template reads like this in the index. -/
def servingText? (table : Table) (method : Http.Method) (text : List Char) : Option EndpointKey :=
  (table.slots.find? fun slot =>
    slot.key.method = method ∧ Path.Template.indexText slot.key.template = text).map
      (·.serving.endpoint)

/-- Settle a collision inside a slot. -/
def collide (table : Table) (slot : Slot) (route : Route) : Table × Insertion :=
  let (settled, kept, discarded) := slot.receive table.policy route
  let collision : Collision :=
    ⟨slot.key.method, route.template, kept.endpoint, discarded.endpoint, table.policy⟩
  let slots := table.slots.map fun other : Slot => if other.key = slot.key then settled else other
  let table := { table with slots, collisions := table.collisions ++ [collision] }
  match table.policy with
  | .reject => (table, .rejected)
  | .replace => (table.reindex, .replaced)

/-- Open a slot for a route of a new key.  A route that conflicts with others in the index is
rejected, and a template that the index cannot hold is an error. -/
def openSlot (table : Table) (route : Route) : Table × Except Refusal Insertion :=
  let (index, refusal) := table.index.add route
  let table := { table with index }
  match refusal with
  | none => ({ table with slots := table.slots ++ [⟨slotKey route, route, []⟩] }, .ok .inserted)
  | some .conflict =>
    let kept := table.servingText? (indexMethod route) (indexText route)
    let collision : Collision :=
      ⟨indexMethod route, route.template, kept.getD route.endpoint, route.endpoint, .reject⟩
    ({ table with collisions := table.collisions ++ [collision] }, .ok .rejected)
  | some refusal => (table, .error refusal)

def insert (table : Table) (route : Route) : Table × Except Refusal Insertion :=
  match table.slots.find? (·.key = slotKey route) with
  | some slot =>
    let (table, insertion) := table.collide slot route
    (table, .ok insertion)
  | none => table.openSlot route

/-- Remove the routes of an endpoint, wherever they are held; tells whether one was serving. -/
def remove (table : Table) (endpoint : EndpointKey) : Table × Bool :=
  let table' := { table with slots := table.slots.filterMap (Slot.discard endpoint) }
  if table.slots.any (·.serving.endpoint = endpoint) then (table'.reindex, true) else (table', false)

/-- The value of the parameter that stands for a variable, by its position. -/
def valueAt? (captured : List (List Char × List Char)) (position : Nat) : Option (List Char) :=
  captured.lookup (Path.Template.indexName position)

/-- The serving route for a request, with the template's variables in order. -/
def find? (table : Table) (method : Http.Method) (path : String) : Option Match :=
  ((table.index.tree method).find? path.toList).map fun (route, captured) =>
    { route
      params := (Path.Template.names route.template.toList).zipIdx.filterMap fun (name, position) =>
        (valueAt? captured position).map fun value => (.ofList name, .ofList value) }

end Table

/-- A template that the index cannot hold, as a failure of the route's endpoint. -/
def Refusal.failure (refusal : Refusal) (route : Route) : Failure :=
  .routeAssembly route.endpoint.text
    ("path template '" ++ route.template ++ "' cannot be routed: " ++ refusal.message)

end ApiGateway.Route
