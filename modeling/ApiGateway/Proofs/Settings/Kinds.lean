import ApiGateway.Proofs.Duration.Text
import ApiGateway.Proofs.Json.Members
import ApiGateway.Settings.Read
import ApiGateway.Settings.Write
import ApiGateway.Yaml.OfJson
import Mathlib.Data.List.Nodup

/-!
# Values read back

Each kind of setting is read from the node of the value that it is written as.
-/

namespace ApiGateway

/-! ## Numbers -/

namespace Yaml

theorem hexValue?_digitChar {digit : Nat} (hdigit : digit < 10) :
    Json.hexValue? (Nat.digitChar digit) = some digit := by
  have hrange : '0' ≤ Nat.digitChar digit ∧ Nat.digitChar digit ≤ '9' := by
    have hc : Json.isDigit (Nat.digitChar digit) = true := Text.isDigit_digitChar hdigit
    simpa [Json.isDigit] using hc
  rw [Json.hexValue?, if_pos hrange, Nat.toNat_digitChar_sub_48_of_lt_ten hdigit]

theorem digits?_toDigits (number : Nat) : digits? 10 (Nat.toDigits 10 number) = some number := by
  rw [digits?, if_neg Nat.toDigits_ne_nil]
  induction number using Text.decimal_induction with
  | single digit hdigit => simp [hexValue?_digitChar hdigit, hdigit]
  | longer tenth digit htenth hdigit ih =>
      rw [List.foldlM_append, ih]
      simp [hexValue?_digitChar hdigit, hdigit]

/-- A written number is read as an integer. -/
theorem integer?_toDigits (number : Nat) : integer? (Nat.toDigits 10 number) = some (number : Int) := by
  rcases Nat.eq_zero_or_pos number with rfl | hpositive
  · rfl
  · have hvalue := digits?_toDigits number
    obtain ⟨first, rest, hdigits, hfirst, hdigit⟩ := Text.exists_head_toDigits hpositive
    rw [hdigits] at hvalue ⊢
    have hplus : first ≠ '+' := fun heq => by rw [heq] at hdigit; cases hdigit
    have hminus : first ≠ '-' := fun heq => by rw [heq] at hdigit; cases hdigit
    have hled : isZeroLed (first :: rest) = false := by
      simp [isZeroLed, unsigned, hplus, hminus, hfirst]
    simp [integer?, natural?, hplus, hminus, hfirst, hled, hvalue]

namespace Node

theorem ofItems_eq_map (items : List Json) : ofItems items = items.map ofJson := by
  induction items with
  | nil => rfl
  | cons item rest ih => rw [ofItems, ih, List.map_cons]

theorem ofMembers_eq_map (members : List (String × Json)) :
    ofMembers members = members.map fun member => (quoted member.1, ofJson member.2) := by
  induction members with
  | nil => rfl
  | cons member rest ih => rw [ofMembers, ih, List.map_cons]

end Node

end Yaml

namespace Settings

open Yaml (Node)

/-! ## Scalars -/

@[simp]
theorem text?_ofJson (text : String) : text? (.ofJson (.string text)) = some text := by
  rw [Node.ofJson]
  rfl

@[simp]
theorem exactText?_ofJson (text : String) : exactText? (.ofJson (.string text)) = some text := by
  rw [Node.ofJson]
  rfl

@[simp]
theorem flag?_ofJson (value : Bool) : flag? (.ofJson (.bool value)) = some value := by
  cases value <;> decide

theorem natural?_ofJson {bits value : Nat} (hvalue : value < Nat.pow 2 bits) :
    natural? bits (.ofJson (.natural value)) = some value := by
  have htext : (toString value).toList = Nat.toDigits 10 value := String.toList_ofList
  have hhead : (Nat.toDigits 10 value).head? ≠ some '-' := by
    intro hminus
    have hdigit := Nat.isDigit_of_mem_toDigits (by decide) (by decide) (List.mem_of_mem_head? hminus)
    cases hdigit
  have hplain : Yaml.Scalar.looksLike ⟨toString value, .plain, none⟩ "int" = true := rfl
  have hnode : Node.ofJson (.natural value) = .plain (toString value) := by
    simp only [Node.ofJson, Json.write]
  rw [hnode, Node.plain, natural?, htext, if_pos ⟨hplain, hhead⟩, Yaml.integer?_toDigits]
  exact if_pos hvalue

theorem duration?_toJson {duration : Duration} (hfits : duration.seconds < Duration.wordLimit) :
    duration? (.ofJson duration.toJson) = some duration := by
  rw [Duration.toJson, duration?, text?_ofJson, Option.bind_some, Duration.parse_text hfits]
  rfl

/-- A choice is read under its name. -/
theorem choice?_ofJson {α : Type} (names : List (String × α)) (name : String) :
    choice? names (.ofJson (.string name)) = names.lookup name := by
  rw [Node.ofJson]
  rfl

/-! ## Lists -/

theorem mapM_ofJson {α : Type} {read : Node → Option α} {write : α → Json} {items : List α}
    (hread : ∀ item ∈ items, read (.ofJson (write item)) = some item) :
    (Node.ofItems (items.map write)).mapM read = some items := by
  rw [Node.ofItems_eq_map]
  induction items with
  | nil => rfl
  | cons item rest ih =>
      obtain ⟨hitem, hrest⟩ := List.forall_mem_cons.mp hread
      rw [List.map_cons, List.map_cons, List.mapM_cons, hitem, ih hrest]
      rfl

theorem list?_ofJson {α : Type} {read : Node → Option α} {write : α → Json} {items : List α}
    (hread : ∀ item ∈ items, read (.ofJson (write item)) = some item) :
    list? read (.ofJson (.array (items.map write))) = some items := by
  rw [Node.ofJson, list?, mapM_ofJson hread]

theorem exactList?_ofJson {α : Type} {read : Node → Option α} {write : α → Json} {items : List α}
    (hread : ∀ item ∈ items, read (.ofJson (write item)) = some item) :
    exactList? read (.ofJson (.array (items.map write))) = some items := by
  rw [Node.ofJson, exactList?, mapM_ofJson hread]

theorem texts?_ofJson (texts : List String) : list? text? (.ofJson (.strings texts)) = some texts :=
  list?_ofJson fun text _ => text?_ofJson text

/-! ## Sections -/

def entriesOf (members : List (String × Json)) : List (String × Node) :=
  members.map fun member => (member.1, .ofJson member.2)

theorem lookup_entriesOf (members : List (String × Json)) (name : String) :
    (entriesOf members).lookup name = (members.lookup name).map Node.ofJson := by
  induction members with
  | nil => rfl
  | cons member rest ih =>
      obtain ⟨other, value⟩ := member
      rw [entriesOf, List.map_cons, lookup_cons_eq_ite, lookup_cons_eq_ite, ← entriesOf, ih]
      split <;> rfl

theorem areDistinct_of_nodup (known : List String) {entries : List (String × Node)}
    (hdistinct : (entries.map Prod.fst).Nodup) : areDistinct known entries = true := by
  rw [areDistinct, List.all_eq_true]
  intro name _
  have hcount := List.nodup_iff_count_le_one.mp hdistinct name
  rw [List.count, List.countP_map, List.countP_eq_length_filter] at hcount
  exact decide_eq_true hcount

theorem names_entriesOf (members : List (String × Json)) :
    (entriesOf members).map Prod.fst = members.map Prod.fst := by
  rw [entriesOf, List.map_map]
  rfl

theorem named?_ofMembers (members : List (String × Json)) :
    named? (Node.ofMembers members) = some (entriesOf members) := by
  rw [Node.ofMembers_eq_map, named?]
  induction members with
  | nil => rfl
  | cons member rest ih =>
      rw [List.map_cons, List.mapM_cons, ih]
      rfl

theorem nodup_names_of_perm {written members : List (String × Json)} (hperm : written.Perm members)
    (hdistinct : (members.map Prod.fst).Nodup) : (written.map Prod.fst).Nodup :=
  (hperm.map Prod.fst).nodup_iff.mpr hdistinct

/-- The entries are those of the members. -/
theorem lookup_entriesOf_of_perm {written members : List (String × Json)} (hperm : written.Perm members)
    (hdistinct : (members.map Prod.fst).Nodup) (name : String) :
    (entriesOf written).lookup name = (members.lookup name).map Node.ofJson := by
  rw [lookup_entriesOf, lookup_eq_of_perm hperm hdistinct]

/-- What is written as an object of members of different names is read as entries of these names. -/
theorem section?_ofMembers {json : Json} {members : List (String × Json)}
    (hjson : json = .ofMembers members) (hdistinct : (members.map Prod.fst).Nodup) :
    ∃ entries, (∀ known {α : Type} (read : List (String × Node) → Option α),
        (section? known (.ofJson json) >>= read) = read entries) ∧
      ∀ name, entries.lookup name = (members.lookup name).map Node.ofJson := by
  obtain ⟨written, hwritten, hperm⟩ := Json.exists_ofMembers_eq hdistinct
  refine ⟨entriesOf written, fun known α read => ?_, lookup_entriesOf_of_perm hperm hdistinct⟩
  have hentries : areDistinct known (entriesOf written) = true := by
    refine areDistinct_of_nodup known ?_
    rw [names_entriesOf]
    exact nodup_names_of_perm hperm hdistinct
  rw [hjson, hwritten, Node.ofJson, section?, named?_ofMembers, Option.filter_some_pos hentries]
  rfl

/-- A setting that is written is read. -/
theorem optional_eq {α : Type} {entries : List (String × Node)} {name : String} {read : Node → Option α}
    {absent value : α} {node : Node} (hlookup : entries.lookup name = some node)
    (hread : read node = some value) : optional entries name read absent = some value := by
  rw [optional, hlookup]
  exact hread

theorem required_eq {α : Type} {entries : List (String × Node)} {name : String} {read : Node → Option α}
    {value : α} {node : Node} (hlookup : entries.lookup name = some node)
    (hread : read node = some value) : required entries name read = some value := by
  rw [required, hlookup]
  exact hread

/-- A section that may be left out is read as nothing, or as the section. -/
theorem unlessNone?_ofJson {α : Type} {read : Node → Option α} {write : α → Json} {given : Option α}
    (hwrite : ∀ value, given = some value → ∃ members, write value = .ofMembers members)
    (hread : ∀ value, given = some value → read (.ofJson (write value)) = some value) :
    unlessNone? read (.ofJson ((given.map write).getD .null)) = some given := by
  cases given with
  | none =>
      have hnull : Node.ofJson .null = .plain "null" := by simp only [Node.ofJson, Json.write]
      rw [Option.map_none, Option.getD_none, hnull]
      rfl
  | some value =>
      obtain ⟨members, hmembers⟩ := hwrite value rfl
      have hsection : unlessNone? read (.ofJson (write value)) =
          (read (.ofJson (write value))).map some := by
        rw [hmembers, Json.ofMembers, Node.ofJson]
        rfl
      rw [Option.map_some, Option.getD_some, hsection, hread value rfl, Option.map_some]

/-! ## Exact sections -/

theorem exactSection?_object (known : List String) {members : List (String × Json)}
    (hdistinct : (members.map Prod.fst).Nodup) :
    exactSection? known (.ofJson (.object members)) = some (entriesOf members) := by
  have hentries : ((Node.ofMembers members).mapM fun entry =>
      (exactName? known entry.1).map (·, entry.2)) = some (entriesOf members) := by
    clear hdistinct
    rw [Node.ofMembers_eq_map]
    induction members with
    | nil => rfl
    | cons member rest ih =>
        rw [List.map_cons, List.mapM_cons, ih]
        rfl
  rw [Node.ofJson, exactSection?, hentries]
  exact Option.filter_some_pos (areDistinct_of_nodup known (by rwa [names_entriesOf]))

/-! ## Depth -/

/-- The node of the value has a value of its own, so deep at most. -/
def IsWithin (depth : Nat) (json : Json) : Prop :=
  ∃ value, (Node.ofJson json).valueWithin? depth = some value

theorem isWithin_string (depth : Nat) (text : String) : IsWithin depth (.string text) :=
  ⟨.string text, by rw [Node.ofJson, Node.quoted, Node.valueWithin?]; rfl⟩

theorem isWithin_array {depth : Nat} {items : List Json} (hitems : ∀ item ∈ items, IsWithin depth item) :
    IsWithin (depth + 1) (.array items) := by
  have hvalues : ∃ values, Node.itemValues? depth (Node.ofItems items) = some values := by
    induction items with
    | nil => exact ⟨[], rfl⟩
    | cons item rest ih =>
        obtain ⟨⟨value, hvalue⟩, hrest⟩ := List.forall_mem_cons.mp hitems
        obtain ⟨values, hvalues⟩ := ih hrest
        exact ⟨value :: values, by rw [Node.ofItems, Node.itemValues?, hvalue, hvalues]; rfl⟩
  obtain ⟨values, hvalues⟩ := hvalues
  refine ⟨.array values, ?_⟩
  rw [Node.ofJson, Node.valueWithin?, if_neg (by simp [Yaml.localTag?]), Nat.add_sub_cancel, hvalues]
  rfl

theorem isWithin_object {depth : Nat} {members : List (String × Json)}
    (hmembers : ∀ member ∈ members, IsWithin depth member.2) : IsWithin (depth + 1) (.object members) := by
  have hvalues : ∃ values, Node.entryValues? depth (Node.ofMembers members) = some values := by
    induction members with
    | nil => exact ⟨[], rfl⟩
    | cons member rest ih =>
        obtain ⟨⟨value, hvalue⟩, hrest⟩ := List.forall_mem_cons.mp hmembers
        obtain ⟨values, hvalues⟩ := ih hrest
        refine ⟨(member.1, value) :: values, ?_⟩
        rw [Node.ofMembers, Node.quoted, Node.entryValues?, hvalue, hvalues]
        rfl
  obtain ⟨values, hvalues⟩ := hvalues
  refine ⟨.ofMembers values, ?_⟩
  rw [Node.ofJson, Node.valueWithin?, if_neg (by simp [Yaml.localTag?]), Nat.add_sub_cancel, hvalues]
  rfl

theorem isWithin_ofMembers {depth : Nat} {members : List (String × Json)}
    (hdistinct : (members.map Prod.fst).Nodup) (hmembers : ∀ member ∈ members, IsWithin depth member.2) :
    IsWithin (depth + 1) (.ofMembers members) := by
  obtain ⟨written, hwritten, hperm⟩ := Json.exists_ofMembers_eq hdistinct
  rw [hwritten]
  exact isWithin_object fun member hmember => hmembers member (hperm.mem_iff.mp hmember)

/-! ## Kinds of registries -/

@[simp]
theorem exactText?_quoted (name : String) : exactText? (.quoted name) = some name := rfl

/-- A test of names picks the same entries as members. -/
theorem filter_ofMembers {test : Node × Node → Bool} (keeps : String → Bool)
    (htest : ∀ name node, test (.quoted name, node) = keeps name) (members : List (String × Json)) :
    (Node.ofMembers members).filter test = Node.ofMembers (members.filter (keeps ·.1)) := by
  rw [Node.ofMembers_eq_map, Node.ofMembers_eq_map, List.filter_map]
  exact congrArg _ (List.filter_congr fun member _ => htest member.1 _)

/-- The kind of an object is its member of that name, and the others stay. -/
theorem kind?_object {members : List (String × Json)} {kind : String}
    (hdistinct : (members.map Prod.fst).Nodup) (hkind : members.lookup "type" = some (.string kind)) :
    kind? (.ofJson (.object members)) =
      some (kind, .ofJson (.object (members.filter (·.1 != "type")))) := by
  simp only [Node.ofJson, kind?]
  rw [filter_ofMembers (· == "type"), filter_ofMembers (· != "type"),
    filter_eq_singleton hdistinct hkind]
  · rfl
  all_goals
    intro name node
    rw [exactText?_quoted, Bool.eq_iff_iff]
    simp

/-- What is written as an object is read as an exact section. -/
theorem exactSection?_ofMembers {json : Json} {members : List (String × Json)}
    (hjson : json = .ofMembers members) (hdistinct : (members.map Prod.fst).Nodup) :
    ∃ entries, (∀ known, exactSection? known (.ofJson json) = some entries) ∧
      ∀ name, entries.lookup name = (members.lookup name).map Node.ofJson := by
  obtain ⟨written, hwritten, hperm⟩ := Json.exists_ofMembers_eq hdistinct
  refine ⟨entriesOf written, fun known => ?_, lookup_entriesOf_of_perm hperm hdistinct⟩
  rw [hjson, hwritten]
  exact exactSection?_object known (nodup_names_of_perm hperm hdistinct)

/-- An object with a kind is read as the kind and an exact section of all else. -/
theorem kind?_ofMembers {json : Json} {kind : String} {members : List (String × Json)} {depth : Nat}
    (hjson : json = .ofMembers (("type", .string kind) :: members))
    (hdistinct : ((("type", Json.string kind) :: members).map Prod.fst).Nodup)
    (hwithin : ∀ member ∈ members, IsWithin depth member.2) :
    ∃ node entries value, kind? (.ofJson json) = some (kind, node) ∧
      node.valueWithin? (depth + 1) = some value ∧ (∀ known, exactSection? known node = some entries) ∧
      ∀ name, entries.lookup name = (members.lookup name).map Node.ofJson := by
  obtain ⟨written, hwritten, hperm⟩ := Json.exists_ofMembers_eq hdistinct
  obtain ⟨hnew, hmembers⟩ := List.nodup_cons.mp hdistinct
  have hrest : (written.filter (·.1 != "type")).Perm members := by
    have hothers : members.filter (·.1 != "type") = members :=
      List.filter_eq_self.mpr fun member hmember => bne_iff_ne.mpr fun heq =>
        hnew (List.mem_map.mpr ⟨member, hmember, heq⟩)
    simpa [hothers] using hperm.filter (·.1 != "type")
  have hkind : written.lookup "type" = some (.string kind) := by
    rw [lookup_eq_of_perm hperm hdistinct, List.lookup_cons_self]
  obtain ⟨value, hvalue⟩ := isWithin_object fun member hmember =>
    hwithin member (hrest.mem_iff.mp hmember)
  refine ⟨_, _, value, ?_, hvalue, fun known => exactSection?_object known
    (nodup_names_of_perm hrest hmembers), lookup_entriesOf_of_perm hrest hmembers⟩
  rw [hjson, hwritten]
  exact kind?_object (nodup_names_of_perm hperm hdistinct) hkind

end Settings

end ApiGateway
