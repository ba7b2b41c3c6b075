import ApiGateway.Proofs.Document.Forms
import ApiGateway.Proofs.Json.Order
import ApiGateway.Proofs.Text.Utf8Reading

/-!
# The operations of a document

A document that is read has one operation for each method that one of its served paths documents, in the
order of the paths and then of the methods.  So its operations differ in method or path, and so do the
endpoints that it gives an application.  A single path item that does not have its form, and be it one of a
path that is not served, leaves nothing of the document.
-/

namespace ApiGateway.Document

/-! ## What is read -/

theorem read_eq_ok_iff {bytes : List UInt8} {document : Document} :
    read bytes = .ok document ↔ ∃ json paths, (Text.ofUtf8? bytes).bind valueOf? = some json ∧
      IsDocument json paths ∧ document = documentOf json paths := by
  rw [read]
  cases (Text.ofUtf8? bytes).bind valueOf? with
  | none => simp
  | some json =>
      simp only [Option.some.injEq, exists_and_left, exists_eq_left', ← ofJson?_eq_some_iff]
      cases ofJson? json <;> simp

/-- A value that does not have the form of a document leaves nothing of it. -/
theorem read_eq_malformed {bytes : List UInt8} {json : Json}
    (hvalue : (Text.ofUtf8? bytes).bind valueOf? = some json) (hform : ∀ paths, ¬IsDocument json paths) :
    read bytes = .error .malformed := by
  have hnone : ofJson? json = none := Option.eq_none_iff_forall_ne_some.mpr fun document hread => by
    obtain ⟨paths, hdocument, -⟩ := ofJson?_eq_some_iff.mp hread
    exact hform paths hdocument
  rw [read, hvalue]
  simp only [hnone]

theorem isOrdered_valueOf? {text : List Char} {json : Json} (hvalue : valueOf? text = some json) :
    json.IsOrdered := by
  rw [valueOf?] at hvalue
  cases hread : Json.read? text with
  | some value =>
      rw [hread] at hvalue
      cases hvalue
      exact Json.isOrdered_read? hread
  | none =>
      rw [hread] at hvalue
      obtain ⟨node, -, hnode⟩ := Option.bind_eq_some_iff.mp hvalue
      exact Yaml.Node.isOrdered_value? hnode

theorem isOrdered_field? {names : List String} {name : String} {json value : Json} (hordered : json.IsOrdered)
    (hfield : field? names name json = some value) : value.IsOrdered := by
  cases hordered with
  | object hsorted hmembers =>
      exact hmembers _ ((mem_iff_lookup_eq_some (nodup_of_sorted hsorted)).mpr hfield)
  | array hitems => exact hitems _ (List.mem_of_getElem? hfield)
  | null | bool | natural | negative | fraction | string => cases hfield

/-! ## The order of operations -/

def methodPlace (method : Http.Method) : Nat :=
  (documentable.map Prod.snd).idxOf method

/-- The order of operations: that of their paths, and of their methods on one path. -/
def Precedes (left right : Operation) : Prop :=
  left.path < right.path ∨ left.path = right.path ∧ methodPlace left.method < methodPlace right.method

theorem isNull_eq_true_iff {json : Json} : json.isNull = true ↔ json = .null := by
  cases json <;> simp [Json.isNull]

theorem present?_eq_some_iff {names : List String} {name : String} {json value : Json} :
    present? names name json = some value ↔ field? names name json = some value ∧ value ≠ .null := by
  rw [present?, Option.filter_eq_some_iff, Bool.not_eq_true', ← Bool.not_eq_true, isNull_eq_true_iff]

theorem mem_operationsAt_iff {entry : String × Json} {operation : Operation} :
    operation ∈ operationsAt entry ↔ ∃ name method value, (name, method) ∈ documentable ∧
      (field? pathFields name entry.2 = some value ∧ value ≠ .null) ∧
      operationOf entry.1 entry.2 method value = operation := by
  simp only [operationsAt, List.mem_filterMap, Prod.exists, Option.map_eq_some_iff, present?_eq_some_iff,
    exists_and_left]

/-- All operations of a path have its path. -/
theorem path_of_mem_operationsAt {entry : String × Json} {operation : Operation}
    (hmem : operation ∈ operationsAt entry) : operation.path = entry.1 := by
  obtain ⟨name, method, value, -, -, rfl⟩ := mem_operationsAt_iff.mp hmem
  rfl

theorem pairwise_operationsAt (entry : String × Json) : (operationsAt entry).Pairwise Precedes := by
  have hplaces : documentable.Pairwise fun left right => methodPlace left.2 < methodPlace right.2 := by decide
  refine hplaces.filterMap _ ?_
  intro left right hless before hbefore after hafter
  obtain ⟨-, -, rfl⟩ := Option.map_eq_some_iff.mp hbefore
  obtain ⟨-, -, rfl⟩ := Option.map_eq_some_iff.mp hafter
  exact Or.inr ⟨rfl, hless⟩

/-- The operations of paths in order are in order. -/
theorem pairwise_operations {paths : List (String × Json)} (hsorted : Json.AreSorted paths) :
    ((paths.filter isServed).flatMap operationsAt).Pairwise Precedes := by
  have hserved : (paths.filter isServed).Pairwise fun left right => left.1 < right.1 :=
    (List.pairwise_map.mp hsorted).filter _
  -- On one path the methods decide, between two the paths.
  refine List.pairwise_flatMap.mpr ⟨fun entry _ => pairwise_operationsAt entry, ?_⟩
  refine hserved.imp fun hless before hbefore after hafter => Or.inl ?_
  rwa [path_of_mem_operationsAt hbefore, path_of_mem_operationsAt hafter]

theorem Precedes.ne {left right : Operation} (hprecedes : Precedes left right) :
    (left.method, left.path) ≠ (right.method, right.path) := by
  intro hsame
  obtain ⟨hmethod, hpath⟩ := Prod.mk.inj hsame
  rcases hprecedes with hless | ⟨-, hless⟩
  · exact String.lt_irrefl right.path (hpath ▸ hless)
  · exact Nat.lt_irrefl _ (hmethod ▸ hless)

/-- Operations in order differ in method or path. -/
theorem nodup_of_ordered {operations : List Operation} (hordered : operations.Pairwise Precedes) :
    (operations.map fun operation => (operation.method, operation.path)).Nodup :=
  List.pairwise_map.mpr (hordered.imp Precedes.ne)

theorem nodup_keys {document : Document} (application : Application)
    (hordered : document.operations.Pairwise Precedes) :
    ((document.endpoints application).map Endpoint.key).Nodup := by
  rw [endpoints, List.map_map]
  refine List.pairwise_map.mpr (hordered.imp fun hprecedes hsame => hprecedes.ne ?_)
  obtain ⟨-, hmethod, hpath⟩ := EndpointKey.mk.inj hsame
  exact Prod.ext hmethod hpath

/-! ## Documents that are read -/

theorem areSorted_paths {bytes : List UInt8} {json : Json} {paths : List (String × Json)}
    (hvalue : (Text.ofUtf8? bytes).bind valueOf? = some json)
    (hnamed : field? documentFields "paths" json = some (.object paths)) : Json.AreSorted paths := by
  obtain ⟨text, -, htext⟩ := Option.bind_eq_some_iff.mp hvalue
  cases isOrdered_field? (isOrdered_valueOf? htext) hnamed with
  | object hsorted hmembers => exact hsorted

theorem mem_operations_iff {json : Json} {paths : List (String × Json)} {operation : Operation} :
    operation ∈ (documentOf json paths).operations ↔
      ∃ path item name method value, (path, item) ∈ paths ∧ path.toList.head? = some '/' ∧
        (name, method) ∈ documentable ∧ (field? pathFields name item = some value ∧ value ≠ .null) ∧
        operationOf path item method value = operation := by
  simp only [documentOf, List.mem_flatMap, List.mem_filter, isServed, decide_eq_true_eq, mem_operationsAt_iff,
    Prod.exists, exists_and_left, and_assoc]

/-- A document that is read has exactly the operations of the methods that are there, and not null, in the
items of paths with a leading slash, in the order of the paths and then of the methods; each has the
parameters of its path that it does not mention itself, and then its own.  Any two differ in method or path,
and so do the endpoints of an application in their keys.  What has the form of a document is read, but one
item that has not the form of a path item makes the whole document fail. -/
theorem read_operations (bytes : List UInt8) :
    (∀ document, read bytes = .ok document →
      ∃ json paths, (Text.ofUtf8? bytes).bind valueOf? = some json ∧ IsDocument json paths ∧
        Json.AreSorted paths ∧
        (∀ operation, operation ∈ document.operations ↔
          ∃ path item name method value, (path, item) ∈ paths ∧ path.toList.head? = some '/' ∧
            (name, method) ∈ documentable ∧ (field? pathFields name item = some value ∧ value ≠ .null) ∧
            operationOf path item method value = operation) ∧
        document.operations.Pairwise Precedes ∧
        (document.operations.map fun operation => (operation.method, operation.path)).Nodup ∧
        ∀ application, ((document.endpoints application).map Endpoint.key).Nodup) ∧
      (∀ json paths, (Text.ofUtf8? bytes).bind valueOf? = some json → IsDocument json paths →
        ∃ document, read bytes = .ok document) ∧
      ∀ json paths, (Text.ofUtf8? bytes).bind valueOf? = some json →
        field? documentFields "paths" json = some (.object paths) → (∃ entry ∈ paths, ¬IsPathItem entry.2) →
        (read bytes).mapError Problem.failure = .error (.documentParse Problem.malformed.message) := by
  refine ⟨?_, ?_, ?_⟩
  · intro document hread
    obtain ⟨json, paths, hvalue, hdocument, rfl⟩ := read_eq_ok_iff.mp hread
    have hsorted : Json.AreSorted paths := areSorted_paths hvalue hdocument.named
    have hordered := pairwise_operations hsorted
    exact ⟨json, paths, hvalue, hdocument, hsorted, fun _ => mem_operations_iff, hordered,
      nodup_of_ordered hordered, fun application => nodup_keys application hordered⟩
  · intro json paths hvalue hdocument
    exact ⟨documentOf json paths, read_eq_ok_iff.mpr ⟨json, paths, hvalue, hdocument, rfl⟩⟩
  · rintro json paths hvalue hnamed ⟨entry, hentry, hform⟩
    have hnone (others : List (String × Json)) : ¬IsDocument json others := by
      intro hdocument
      obtain rfl : paths = others := by
        rw [hdocument.named, Option.some.injEq, Json.object.injEq] at hnamed
        exact hnamed.symm
      exact hform (hdocument.items entry hentry)
    rw [read_eq_malformed hvalue hnone]
    rfl

theorem bind_valueOf?_utf8 {text : List Char} {json : Json} (hread : Json.readRaw? text = some json) :
    (Text.ofUtf8? (Text.utf8 text)).bind valueOf? = some json.normal := by
  rw [Text.ofUtf8?_utf8, Option.bind_some, valueOf?, Json.read?, hread]
  rfl

/-- A path with two parameters, of which its one operation mentions the first; the records are lists. -/
def ordersText : String :=
  "\x7b\"paths\":\x7b\"/a\":[[[\"b\"],[\"c\"]],[[],[[\"b\"]]],null]\x7d\x7d"

/-- A tag that is no text, in a path that is not served. -/
def faultyText : String :=
  "\x7b\"paths\":\x7b\"a\":[[],[[1]]]\x7d\x7d"

theorem readRaw?_ordersText : Json.readRaw? ordersText.toList =
    some (.object [("paths", .object [("/a", .array [.array [.array [.string "b"], .array [.string "c"]],
      .array [.array [], .array [.array [.string "b"]]], .null])])]) := by
  with_unfolding_all rfl

theorem readRaw?_faultyText : Json.readRaw? faultyText.toList =
    some (.object [("paths", .object [("a", .array [.array [], .array [.array [.natural 1]]])])]) := by
  with_unfolding_all rfl

theorem read_operations_orders :
    (∃ document, read (Text.utf8 ordersText.toList) = .ok document ∧
      document.operations = [⟨.get, "/a", [], [⟨"c", false⟩, ⟨"b", false⟩], none⟩] ∧
      ((document.endpoints default).map Endpoint.key).Nodup) ∧
    (read (Text.utf8 faultyText.toList)).mapError Problem.failure =
      .error (.documentParse Problem.malformed.message) := by
  constructor
  · obtain ⟨document, hread, hoperations⟩ : ∃ document, read (Text.utf8 ordersText.toList) = .ok document ∧
        document.operations = [⟨.get, "/a", [], [⟨"c", false⟩, ⟨"b", false⟩], none⟩] := by
      rw [read, bind_valueOf?_utf8 readRaw?_ordersText]
      exact ⟨_, rfl, rfl⟩
    obtain ⟨_, _, -, -, -, -, -, -, hkeys⟩ := (read_operations _).1 document hread
    exact ⟨document, hread, hoperations, hkeys default⟩
  · refine (read_operations _).2.2 _ _ (bind_valueOf?_utf8 readRaw?_faultyText) rfl
      ⟨_, .head _, fun hitem => ?_⟩
    have hget := hitem.operations ("get", .get) (.head _) (.array [.array [.natural 1]]) rfl
    obtain hnull | hoperation := hget
    · cases hnull
    · obtain ⟨tags, htags, htexts⟩ := hoperation.tags (.array [.natural 1]) rfl
      cases htags
      obtain ⟨text, htext⟩ := htexts (.natural 1) (.head _)
      cases htext

end ApiGateway.Document
