import ApiGateway.Document
import ApiGateway.Proofs.Named
import Mathlib.Data.List.Basic

/-!
# The forms of documents

What a document has to look like is said here of its value alone, without the readers, and so is what the
parts of such a value say.  Every reader takes exactly the values of its form and reads them for what they
say.
-/

namespace ApiGateway

namespace Json

def isNull : Json → Bool
  | .null => true
  | _ => false

def items : Json → List Json
  | .array items => items
  | _ => []

end Json

namespace Document

/-! ## Leaves and lists -/

def IsText (json : Json) : Prop :=
  ∃ text, json = .string text

def IsFlag (json : Json) : Prop :=
  ∃ flag, json = .bool flag

def IsNullOr (Form : Json → Prop) (json : Json) : Prop :=
  json = .null ∨ Form json

def IsList (Form : Json → Prop) (json : Json) : Prop :=
  ∃ items, json = .array items ∧ ∀ item ∈ items, Form item

/-! ## Fields -/

/-- An object, or a list of no more items than there are fields. -/
def IsRecord (names : List String) : Json → Prop
  | .object _ => True
  | .array items => items.length ≤ names.length
  | _ => False

/-- A field: in an object the member of its name, in a list the item at its place. -/
def field? (names : List String) (name : String) : Json → Option Json
  | .object members => members.lookup name
  | .array items => items[names.idxOf name]?
  | _ => none

/-- A field that is there and not null. -/
def present? (names : List String) (name : String) (json : Json) : Option Json :=
  (field? names name json).filter fun value => !value.isNull

def MayHave (names : List String) (name : String) (Form : Json → Prop) (json : Json) : Prop :=
  ∀ value, field? names name json = some value → Form value

def textIn? (names : List String) (name : String) (json : Json) : Option String :=
  (field? names name json).bind text?

/-- A flag that is not there is not set. -/
def flagIn (names : List String) (name : String) (json : Json) : Bool :=
  ((field? names name json).bind flag?).getD false

/-- A list that is not there is empty. -/
def itemsIn (names : List String) (name : String) (json : Json) : List Json :=
  ((field? names name json).map Json.items).getD []

/-! ## Parts of documents -/

def parameterFields : List String := ["name", "in", "required"]

structure IsParameter (json : Json) : Prop where
  record : IsRecord parameterFields json
  name : MayHave parameterFields "name" (IsNullOr IsText) json
  location : MayHave parameterFields "in" (IsNullOr IsText) json
  required : MayHave parameterFields "required" IsFlag json

def parameterName? (json : Json) : Option String :=
  textIn? parameterFields "name" json

def parameterLocation? (json : Json) : Option String :=
  textIn? parameterFields "in" json

def parameter? (json : Json) : Option Parameter :=
  (parameterName? json).map (⟨·, flagIn parameterFields "required" json⟩)

def bodyFields : List String := ["required"]

structure IsBody (json : Json) : Prop where
  record : IsRecord bodyFields json
  required : MayHave bodyFields "required" IsFlag json

def operationFields : List String := ["tags", "parameters", "requestBody"]

structure IsOperation (json : Json) : Prop where
  record : IsRecord operationFields json
  tags : MayHave operationFields "tags" (IsList IsText) json
  parameters : MayHave operationFields "parameters" (IsList IsParameter) json
  body : MayHave operationFields "requestBody" (IsNullOr IsBody) json

def operationTags (json : Json) : List String :=
  (itemsIn operationFields "tags" json).filterMap text?

def operationParameters (json : Json) : List Json :=
  itemsIn operationFields "parameters" json

def operationBody? (json : Json) : Option Bool :=
  (present? operationFields "requestBody" json).map (flagIn bodyFields "required")

def pathFields : List String := "parameters" :: documentable.map Prod.fst

structure IsPathItem (json : Json) : Prop where
  record : IsRecord pathFields json
  parameters : MayHave pathFields "parameters" (IsList IsParameter) json
  operations : ∀ method ∈ documentable, MayHave pathFields method.1 (IsNullOr IsOperation) json

def pathParameters (json : Json) : List Json :=
  itemsIn pathFields "parameters" json

def infoFields : List String := ["description"]

structure IsInfo (json : Json) : Prop where
  record : IsRecord infoFields json
  description : MayHave infoFields "description" (IsNullOr IsText) json

def documentFields : List String := ["info", "paths"]

/-- The document names its paths, and all of them are path items, whether they start with a slash or not. -/
structure IsDocument (json : Json) (paths : List (String × Json)) : Prop where
  record : IsRecord documentFields json
  info : MayHave documentFields "info" (IsNullOr IsInfo) json
  named : field? documentFields "paths" json = some (.object paths)
  items : ∀ entry ∈ paths, IsPathItem entry.2

/-! ## Parts that are read -/

section Readers

variable {α : Type}

/-- The reader takes the values of the form and reads each for what the view makes of it. -/
def Reads (read : Json → Option α) (Form : Json → Prop) (view : Json → α) : Prop :=
  ∀ (json : Json) (value : α), read json = some value ↔ Form json ∧ value = view json

/-- A list is read item by item. -/
theorem mapM_eq_some_iff {β : Type} {read : β → Option α} {Form : β → Prop} {view : β → α} {items : List β}
    (hread : ∀ item ∈ items, ∀ value, read item = some value ↔ Form item ∧ value = view item)
    {values : List α} :
    items.mapM read = some values ↔ (∀ item ∈ items, Form item) ∧ values = items.map view := by
  induction items generalizing values with
  | nil => simp [eq_comm]
  | cons item rest ih =>
      obtain ⟨hitem, hrest⟩ := List.forall_mem_cons.mp hread
      simp only [List.mapM_cons, Option.bind_eq_bind, Option.bind_eq_some_iff, hitem, ih hrest,
        Option.pure_def, Option.some.injEq, List.forall_mem_cons, List.map_cons]
      constructor
      · rintro ⟨_, ⟨hform, rfl⟩, _, ⟨hforms, rfl⟩, rfl⟩
        exact ⟨⟨hform, hforms⟩, rfl⟩
      · rintro ⟨⟨hform, hforms⟩, rfl⟩
        exact ⟨_, ⟨hform, rfl⟩, _, ⟨hforms, rfl⟩, rfl⟩

variable {read : Json → Option α} {Form : Json → Prop} {view : Json → α}

theorem reads_list (hread : Reads read Form view) :
    Reads (list? read) (IsList Form) (fun json => json.items.map view) := by
  intro json values
  cases json with
  | array items =>
      rw [list?, mapM_eq_some_iff fun item _ => hread item]
      simp [IsList, Json.items]
  | null | bool | natural | negative | fraction | string | object => simp [list?, IsList]

theorem reads_text : Reads (unlessNull? text?) (IsNullOr IsText) text? := by
  intro json value
  cases json <;> simp [unlessNull?, text?, IsNullOr, IsText, eq_comm]

theorem reads_flag : Reads flag? IsFlag (fun json => (flag? json).getD false) := by
  intro json value
  cases json <;> simp [flag?, IsFlag, eq_comm]

theorem reads_unlessNull (hread : Reads read Form view) :
    Reads (unlessNull? read) (IsNullOr Form)
      (fun json => if json.isNull then none else some (view json)) := by
  intro json value
  have hunless : unlessNull? read json = if json.isNull then some none else (read json).map some := by
    cases json <;> rfl
  dsimp only
  by_cases hnull : json.isNull = true
  · obtain rfl : json = .null := by
      cases json <;> first | rfl | cases hnull
    rw [hunless, if_pos hnull, if_pos hnull, Option.some.injEq, eq_comm]
    exact (and_iff_right (Or.inl rfl)).symm
  · have hpresent : json ≠ .null := by
      rintro rfl
      exact hnull rfl
    rw [hunless, if_neg hnull, if_neg hnull, IsNullOr, or_iff_right hpresent, Option.map_eq_some_iff]
    constructor
    · rintro ⟨inner, hinner, rfl⟩
      obtain ⟨hform, rfl⟩ := (hread json inner).mp hinner
      exact ⟨hform, rfl⟩
    · rintro ⟨hform, rfl⟩
      exact ⟨view json, (hread json _).mpr ⟨hform, rfl⟩, rfl⟩

variable {names : List String} {json : Json} {fields : List (String × Json)}

theorem lookup_zip_eq {names : List String} {items : List Json} (hlength : items.length ≤ names.length)
    (name : String) : (names.zip items).lookup name = items[names.idxOf name]? := by
  induction names generalizing items with
  | nil =>
      obtain rfl := List.length_eq_zero_iff.mp (Nat.le_zero.mp hlength)
      rfl
  | cons first names ih =>
      cases items with
      | nil => rfl
      | cons item items =>
          -- Of equal names both take the first.
          rw [List.zip_cons_cons, lookup_cons_eq_ite, List.idxOf_cons]
          by_cases hname : name = first
          · simp [hname]
          · have hfirst : (first == name) = false := beq_eq_false_iff_ne.mpr (Ne.symm hname)
            simp [hname, hfirst, ih (Nat.le_of_succ_le_succ hlength)]

theorem lookup_eq_field? (hfields : fields? names json = some fields) (name : String) :
    fields.lookup name = field? names name json := by
  cases json with
  | object members =>
      cases hfields
      rfl
  | array items =>
      rw [fields?] at hfields
      split at hfields
      · next hlength =>
        cases hfields
        exact lookup_zip_eq hlength name
      · cases hfields
  | null | bool | natural | negative | fraction | string => cases hfields

theorem exists_fields?_iff : (∃ fields, fields? names json = some fields) ↔ IsRecord names json := by
  cases json <;> simp [fields?, IsRecord]

/-- A record is read by its fields. -/
theorem bind_fields?_iff {build : List (String × Json) → Option α} {value : α} {Says : Prop}
    (hbuild : ∀ fields, fields? names json = some fields → (build fields = some value ↔ Says)) :
    (fields? names json).bind build = some value ↔ IsRecord names json ∧ Says := by
  rw [Option.bind_eq_some_iff, ← exists_fields?_iff]
  constructor
  · rintro ⟨fields, hfields, hvalue⟩
    exact ⟨⟨fields, hfields⟩, (hbuild fields hfields).mp hvalue⟩
  · rintro ⟨⟨fields, hfields⟩, hsays⟩
    exact ⟨fields, hfields, (hbuild fields hfields).mpr hsays⟩

theorem optional_eq_some_iff (hfields : fields? names json = some fields) (hread : Reads read Form view)
    {name : String} {absent value : α} :
    optional fields name read absent = some value ↔
      MayHave names name Form json ∧ value = ((field? names name json).map view).getD absent := by
  rw [optional, lookup_eq_field? hfields, MayHave]
  cases field? names name json with
  | none => simp [eq_comm]
  | some field => simpa using hread field value

theorem optional_text_iff (hfields : fields? names json = some fields) {name : String}
    {value : Option String} :
    optional fields name (unlessNull? text?) none = some value ↔
      MayHave names name (IsNullOr IsText) json ∧ value = textIn? names name json := by
  rw [optional_eq_some_iff hfields reads_text, textIn?]
  cases field? names name json <;> rfl

theorem optional_flag_iff (hfields : fields? names json = some fields) {name : String} {value : Bool} :
    optional fields name flag? false = some value ↔
      MayHave names name IsFlag json ∧ value = flagIn names name json := by
  rw [optional_eq_some_iff hfields reads_flag, flagIn]
  cases field? names name json <;> rfl

theorem optional_list_iff (hfields : fields? names json = some fields) (hread : Reads read Form view)
    {name : String} {values : List α} :
    optional fields name (list? read) [] = some values ↔
      MayHave names name (IsList Form) json ∧ values = (itemsIn names name json).map view := by
  rw [optional_eq_some_iff hfields (reads_list hread), itemsIn]
  cases field? names name json <;> rfl

theorem forall_mem_itemsIn {name : String} (hlist : MayHave names name (IsList Form) json) :
    ∀ item ∈ itemsIn names name json, Form item := by
  intro item hitem
  rw [itemsIn] at hitem
  cases hfield : field? names name json with
  | none =>
      rw [hfield] at hitem
      exact absurd hitem List.not_mem_nil
  | some field =>
      rw [hfield] at hitem
      obtain ⟨items, rfl, hforms⟩ := hlist field hfield
      exact hforms item hitem

theorem reads_tag : Reads text? IsText (fun json => (text? json).getD "") := by
  intro json value
  cases json <;> simp [text?, IsText, eq_comm]

theorem optional_texts_iff (hfields : fields? names json = some fields) {name : String}
    {values : List String} :
    optional fields name (list? text?) [] = some values ↔
      MayHave names name (IsList IsText) json ∧ values = (itemsIn names name json).filterMap text? := by
  rw [optional_list_iff hfields reads_tag]
  refine and_congr_right fun htexts => ?_
  have hsame : (itemsIn names name json).map (fun item => (text? item).getD "") =
      (itemsIn names name json).filterMap text? := by
    rw [← List.filterMap_eq_map]
    refine List.filterMap_congr fun item hitem => ?_
    obtain ⟨text, rfl⟩ := forall_mem_itemsIn htexts item hitem
    rfl
  rw [hsame]

theorem optional_unlessNull_iff (hfields : fields? names json = some fields) (hread : Reads read Form view)
    {name : String} {value : Option α} :
    optional fields name (unlessNull? read) none = some value ↔
      MayHave names name (IsNullOr Form) json ∧ value = (present? names name json).map view := by
  rw [optional_eq_some_iff hfields (reads_unlessNull hread), present?]
  cases field? names name json with
  | none => rfl
  | some field => cases hnull : field.isNull <;> simp [Option.filter, hnull]

end Readers

/-! ## The readers of the parts -/

def mentionOf (json : Json) : Mention :=
  ⟨parameterName? json, parameterLocation? json, flagIn parameterFields "required" json⟩

theorem reads_mention : Reads Mention.read? IsParameter mentionOf := by
  intro json mention
  rw [Mention.read?, Option.bind_eq_bind, bind_fields?_iff fun fields hfields => by
    simp only [Option.bind_eq_bind, Option.bind_eq_some_iff, optional_text_iff hfields,
      optional_flag_iff hfields, Option.pure_def, Option.some.injEq]
    rfl]
  constructor
  · rintro ⟨hrecord, _, ⟨hname, rfl⟩, _, ⟨hlocation, rfl⟩, _, ⟨hrequired, rfl⟩, rfl⟩
    exact ⟨⟨hrecord, hname, hlocation, hrequired⟩, rfl⟩
  · rintro ⟨⟨hrecord, hname, hlocation, hrequired⟩, rfl⟩
    exact ⟨hrecord, _, ⟨hname, rfl⟩, _, ⟨hlocation, rfl⟩, _, ⟨hrequired, rfl⟩, rfl⟩

theorem reads_body : Reads body? IsBody (flagIn bodyFields "required") := by
  intro json required
  rw [body?, Option.bind_eq_bind, bind_fields?_iff fun fields hfields => optional_flag_iff hfields]
  constructor
  · rintro ⟨hrecord, hrequired, rfl⟩
    exact ⟨⟨hrecord, hrequired⟩, rfl⟩
  · rintro ⟨⟨hrecord, hrequired⟩, rfl⟩
    exact ⟨hrecord, hrequired, rfl⟩

def methodItemOf (json : Json) : MethodItem :=
  ⟨operationTags json, (operationParameters json).map mentionOf, operationBody? json⟩

theorem reads_methodItem : Reads MethodItem.read? IsOperation methodItemOf := by
  intro json item
  rw [MethodItem.read?, Option.bind_eq_bind, bind_fields?_iff fun fields hfields => by
    simp only [Option.bind_eq_bind, Option.bind_eq_some_iff, optional_texts_iff hfields,
      optional_list_iff hfields reads_mention, optional_unlessNull_iff hfields reads_body,
      Option.pure_def, Option.some.injEq]
    rfl]
  constructor
  · rintro ⟨hrecord, _, ⟨htags, rfl⟩, _, ⟨hparameters, rfl⟩, _, ⟨hbody, rfl⟩, rfl⟩
    exact ⟨⟨hrecord, htags, hparameters, hbody⟩, rfl⟩
  · rintro ⟨⟨hrecord, htags, hparameters, hbody⟩, rfl⟩
    exact ⟨hrecord, _, ⟨htags, rfl⟩, _, ⟨hparameters, rfl⟩, _, ⟨hbody, rfl⟩, rfl⟩

theorem reads_info : Reads info? IsInfo (textIn? infoFields "description") := by
  intro json description
  rw [info?, Option.bind_eq_bind, bind_fields?_iff fun fields hfields => optional_text_iff hfields]
  constructor
  · rintro ⟨hrecord, hdescription, rfl⟩
    exact ⟨⟨hrecord, hdescription⟩, rfl⟩
  · rintro ⟨⟨hrecord, hdescription⟩, rfl⟩
    exact ⟨hrecord, hdescription, rfl⟩

def documentedMethod? (json : Json) (method : String × Http.Method) : Option (Http.Method × MethodItem) :=
  (present? pathFields method.1 json).map fun operation => (method.2, methodItemOf operation)

def pathItemOf (json : Json) : PathItem :=
  ⟨(pathParameters json).map mentionOf, documentable.filterMap (documentedMethod? json)⟩

theorem optional_method_iff {json : Json} {fields : List (String × Json)}
    (hfields : fields? pathFields json = some fields) (method : String × Http.Method)
    (found : Option (Http.Method × MethodItem)) :
    (optional fields method.1 (unlessNull? MethodItem.read?) none).map (fun item => item.map (method.2, ·)) =
        some found ↔
      MayHave pathFields method.1 (IsNullOr IsOperation) json ∧ found = documentedMethod? json method := by
  simp only [Option.map_eq_some_iff, optional_unlessNull_iff hfields reads_methodItem, documentedMethod?]
  constructor
  · rintro ⟨_, ⟨hform, rfl⟩, rfl⟩
    exact ⟨hform, Option.map_map ..⟩
  · rintro ⟨hform, rfl⟩
    exact ⟨_, ⟨hform, rfl⟩, Option.map_map ..⟩

theorem reads_pathItem : Reads PathItem.read? IsPathItem pathItemOf := by
  intro json item
  have hmethods {fields : List (String × Json)} (hfields : fields? pathFields json = some fields)
      (found : List (Option (Http.Method × MethodItem))) :
      (documentable.mapM fun method => (optional fields method.1 (unlessNull? MethodItem.read?) none).map
        fun item => item.map (method.2, ·)) = some found ↔
          (∀ method ∈ documentable, MayHave pathFields method.1 (IsNullOr IsOperation) json) ∧
            found = documentable.map (documentedMethod? json) :=
    mapM_eq_some_iff fun method _ => optional_method_iff hfields method
  rw [PathItem.read?, Option.bind_eq_bind, bind_fields?_iff fun fields hfields => by
    simp only [Option.bind_eq_bind, Option.bind_eq_some_iff, optional_list_iff hfields reads_mention,
      hmethods hfields, Option.pure_def, Option.some.injEq]
    rfl]
  constructor
  · rintro ⟨hrecord, _, ⟨hparameters, rfl⟩, _, ⟨hoperations, rfl⟩, rfl⟩
    exact ⟨⟨hrecord, hparameters, hoperations⟩, by rw [pathItemOf, List.filterMap_map]; rfl⟩
  · rintro ⟨⟨hrecord, hparameters, hoperations⟩, rfl⟩
    exact ⟨hrecord, _, ⟨hparameters, rfl⟩, _, ⟨hoperations, rfl⟩, by rw [pathItemOf, List.filterMap_map]; rfl⟩

/-! ## The reader of documents -/

/-- Two mentions of one parameter: they agree in name and place. -/
def isSameParameter (left right : Json) : Bool :=
  parameterName? left == parameterName? right && parameterLocation? left == parameterLocation? right

/-- The parameters of an operation: those of its path with a name that it does not mention itself, and its own
with a name. -/
def parametersOf (item operation : Json) : List Parameter :=
  ((pathParameters item).filter fun parameter =>
      !(operationParameters operation).any (isSameParameter parameter)).filterMap parameter? ++
    (operationParameters operation).filterMap parameter?

def operationOf (path : String) (item : Json) (method : Http.Method) (operation : Json) : Operation :=
  ⟨method, path, operationTags operation, parametersOf item operation, operationBody? operation⟩

/-- The operations of a path: those of the methods that are there and not null. -/
def operationsAt (entry : String × Json) : List Operation :=
  documentable.filterMap fun (name, method) =>
    (present? pathFields name entry.2).map (operationOf entry.1 entry.2 method)

def isServed (entry : String × Json) : Bool :=
  entry.1.toList.head? = some '/'

def documentOf (json : Json) (paths : List (String × Json)) : Document where
  description := (present? documentFields "info" json).bind (textIn? infoFields "description")
  operations := (paths.filter isServed).flatMap operationsAt
  native := json

theorem filterMap_mentionOf (parameters : List Json) :
    (parameters.map mentionOf).filterMap Mention.parameter? = parameters.filterMap parameter? := by
  rw [List.filterMap_map]
  rfl

theorem mergeParameters_eq (item operation : Json) :
    mergeParameters ((pathParameters item).map mentionOf) ((operationParameters operation).map mentionOf) =
      parametersOf item operation := by
  have hsame (parameter : Json) :
      ((operationParameters operation).map mentionOf).any (mentionOf parameter).same =
        (operationParameters operation).any (isSameParameter parameter) := by
    rw [List.any_map]
    rfl
  rw [mergeParameters, List.filterMap_append, filterMap_mentionOf, List.filter_map, filterMap_mentionOf,
    parametersOf]
  simp only [Function.comp_def, hsame]

theorem operations_pathItemOf (path : String) (json : Json) :
    (pathItemOf json).operations path = operationsAt (path, json) := by
  rw [PathItem.operations, pathItemOf, List.map_filterMap, operationsAt]
  refine List.filterMap_congr fun method _ => ?_
  rw [documentedMethod?, Option.map_map]
  refine congrArg (Option.map · _) (funext fun operation => ?_)
  rw [Function.comp_apply, operationOf, ← mergeParameters_eq]
  rfl

theorem paths?_eq_some_iff {json : Json} {items : List (String × PathItem)} :
    paths? json = some items ↔ ∃ paths, json = .object paths ∧ (∀ entry ∈ paths, IsPathItem entry.2) ∧
      items = paths.map fun entry => (entry.1, pathItemOf entry.2) := by
  cases json with
  | object paths =>
      have hread (entry : String × Json) (_ : entry ∈ paths) (value : String × PathItem) :
          (PathItem.read? entry.2).map (entry.1, ·) = some value ↔
            IsPathItem entry.2 ∧ value = (entry.1, pathItemOf entry.2) := by
        simp only [Option.map_eq_some_iff, reads_pathItem entry.2]
        constructor
        · rintro ⟨_, ⟨hitem, rfl⟩, rfl⟩
          exact ⟨hitem, rfl⟩
        · rintro ⟨hitem, rfl⟩
          exact ⟨_, ⟨hitem, rfl⟩, rfl⟩
      rw [paths?, mapM_eq_some_iff hread]
      simp
  | null | bool | natural | negative | fraction | string | array => simp [paths?]

theorem operations_served (paths : List (String × Json)) :
    ((paths.map fun entry => (entry.1, pathItemOf entry.2)).filter fun (path, _) =>
        path.toList.head? = some '/').flatMap (fun (path, item) => item.operations path) =
      (paths.filter isServed).flatMap operationsAt := by
  rw [List.filter_map, List.flatMap_map]
  simp only [operations_pathItemOf]
  rfl

/-- A value is read as a document exactly if it has the form of one, and is read for what it says. -/
theorem ofJson?_eq_some_iff {json : Json} {document : Document} :
    ofJson? json = some document ↔ ∃ paths, IsDocument json paths ∧ document = documentOf json paths := by
  rw [ofJson?, Option.bind_eq_bind, bind_fields?_iff fun fields hfields => by
    simp only [Option.bind_eq_bind, Option.bind_eq_some_iff, optional_unlessNull_iff hfields reads_info,
      lookup_eq_field? hfields, paths?_eq_some_iff, Option.pure_def, Option.some.injEq]
    rfl]
  constructor
  · rintro ⟨hrecord, _, ⟨hinfo, rfl⟩, _, ⟨_, hnamed, paths, rfl, hitems, rfl⟩, rfl⟩
    refine ⟨paths, ⟨hrecord, hinfo, hnamed, hitems⟩, ?_⟩
    rw [operations_served, Option.bind_map]
    rfl
  · rintro ⟨paths, ⟨hrecord, hinfo, hnamed, hitems⟩, rfl⟩
    refine ⟨hrecord, _, ⟨hinfo, rfl⟩, _, ⟨_, hnamed, paths, rfl, hitems, rfl⟩, ?_⟩
    rw [operations_served, Option.bind_map]
    rfl

end Document

end ApiGateway
