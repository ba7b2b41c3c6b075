import ApiGateway.Path.Template
import ApiGateway.Route.Tree
import Mathlib.Data.List.Forall2

/-!
# Segments

A path is read as the list of the texts between its slashes, a template as the list of its segments.
A template fits a path if they agree segment by segment; of several templates that fit one path,
the one that leads has literal text at the leftmost segment at which they differ.
-/

namespace ApiGateway.Path

def segments (path : List Char) : List (List Char) :=
  (Text.splitAll '/' path).tail

/-- The path starts with a slash and has no empty segment. -/
def IsRegular (path : List Char) : Prop :=
  path.head? = some '/' ∧ ∀ segment ∈ segments path, segment ≠ []

instance (path : List Char) : Decidable (IsRegular path) :=
  inferInstanceAs (Decidable (_ ∧ _))

def joined (segments : List (List Char)) : List Char :=
  segments.flatMap ('/' :: ·)

@[simp]
theorem joined_nil : joined [] = [] := rfl

@[simp]
theorem joined_cons (segment : List Char) (rest : List (List Char)) :
    joined (segment :: rest) = '/' :: segment ++ joined rest := rfl

/-- No piece of a split text contains the mark. -/
theorem not_mem_of_mem_splitAll {mark : Char} {text piece : List Char}
    (hpiece : piece ∈ Text.splitAll mark text) : mark ∉ piece := by
  induction text generalizing piece with
  | nil =>
      simp only [Text.splitAll, List.mem_singleton] at hpiece
      simp [hpiece]
  | cons c text ih =>
      rw [Text.splitAll] at hpiece
      split at hpiece
      · rcases List.mem_cons.mp hpiece with rfl | hrest
        · simp
        · exact ih hrest
      · next hne =>
        cases hsplit : Text.splitAll mark text with
        | nil => exact absurd hsplit (Text.splitAll_ne_nil mark text)
        | cons first rest =>
            rw [hsplit] at hpiece ih
            rcases List.mem_cons.mp hpiece with rfl | hrest
            · rw [List.mem_cons, not_or]
              exact ⟨Ne.symm hne, ih (.head rest)⟩
            · exact ih (.tail first hrest)

theorem slash_not_mem_of_mem_segments {path segment : List Char}
    (hsegment : segment ∈ segments path) : '/' ∉ segment :=
  not_mem_of_mem_splitAll (List.mem_of_mem_tail hsegment)

/-- Joining behind slashes is separating by slashes, with one slash in front. -/
theorem joined_eq_cons_intercalate {pieces : List (List Char)} (hne : pieces ≠ []) :
    joined pieces = '/' :: ['/'].intercalate pieces := by
  induction pieces with
  | nil => exact absurd rfl hne
  | cons piece rest ih =>
      cases rest with
      | nil => simp
      | cons next rest =>
          rw [joined_cons, ih (List.cons_ne_nil next rest)]
          simp

/-- A path that starts with a slash is made of its segments. -/
theorem joined_segments {path : List Char} (hhead : path.head? = some '/') :
    joined (segments path) = path := by
  cases path with
  | nil => cases hhead
  | cons c rest =>
      simp only [List.head?_cons, Option.some.injEq] at hhead
      subst hhead
      have hsegments : segments ('/' :: rest) = Text.splitAll '/' rest := by
        simp [segments, Text.splitAll]
      rw [hsegments, joined_eq_cons_intercalate (Text.splitAll_ne_nil '/' rest),
        Text.intercalate_splitAll]

/-- What is left of a joined path is empty or starts with a slash. -/
theorem joined_eq_nil_or_cons (segments : List (List Char)) :
    joined segments = [] ∨ ∃ rest, joined segments = '/' :: rest := by
  cases segments with
  | nil => exact Or.inl rfl
  | cons segment rest => exact Or.inr ⟨segment ++ joined rest, rfl⟩

/-- A path without empty segments does not end in a slash. -/
theorem joined_getLast?_ne_slash {segments : List (List Char)}
    (hregular : ∀ segment ∈ segments, segment ≠ [] ∧ '/' ∉ segment) :
    (joined segments).getLast? ≠ some '/' := by
  induction segments with
  | nil => simp
  | cons segment rest ih =>
      obtain ⟨hne, hslash⟩ := hregular segment (.head rest)
      have htail := ih fun other hother => hregular other (.tail segment hother)
      rw [joined_cons, List.getLast?_append]
      cases hlast : (joined rest).getLast? with
      | some last => simpa [hlast] using htail
      | none =>
          intro hends
          have hmem : '/' ∈ segment := by
            rw [Option.none_or, List.getLast?_cons_of_ne_nil hne] at hends
            exact List.mem_of_getLast? hends
          exact hslash hmem

namespace Template

inductive Segment where
  | literal (text : List Char)
  | named (name : List Char)
  deriving DecidableEq, Repr

namespace Segment

/-- A segment that is one pair of braces is a variable. -/
def ofText (text : List Char) : Segment :=
  match text with
  | '{' :: rest =>
    match Text.cut? '}' rest with
    | some (name, []) => .named name
    | _ => .literal text
  | _ => .literal text

/-- Characters that mean something in a template or in the route index. -/
def marks : List Char :=
  ['{', '}', ':', '*']

/-- Literal text has no marks and is not empty; a variable's name has no braces. -/
def IsWellFormed : Segment → Prop
  | .literal text => text ≠ [] ∧ ∀ c ∈ text, c ∉ marks
  | .named name => '{' ∉ name ∧ '}' ∉ name

instance : (segment : Segment) → Decidable segment.IsWellFormed
  | .literal text => @instDecidableAnd _ _ inferInstance (List.decidableBAll _ text)
  | .named _ => inferInstanceAs (Decidable (_ ∧ _))

def Accepts : Segment → List Char → Prop
  | .literal text, segment => segment = text
  | .named _, _ => True

instance : (segment : Segment) → (text : List Char) → Decidable (segment.Accepts text)
  | .literal own, text => inferInstanceAs (Decidable (text = own))
  | .named _, _ => inferInstanceAs (Decidable True)

def name? : Segment → Option (List Char)
  | .literal _ => none
  | .named name => some name

def text : Segment → List Char
  | .literal text => text
  | .named name => '{' :: name ++ ['}']

theorem text_ofText (source : List Char) : (ofText source).text = source := by
  unfold ofText
  split
  · next rest =>
    split
    · next name hcut =>
      rw [Text.cut?_eq_some_iff] at hcut
      simp [text, hcut.2]
    · rfl
  · rfl

end Segment

def segments (template : List Char) : List Segment :=
  (Path.segments template).map Segment.ofText

/-- The template has no empty segment, and each is literal text or one variable. -/
def IsSegmented (template : List Char) : Prop :=
  IsRegular template ∧ ∀ segment ∈ segments template, segment.IsWellFormed

instance (template : List Char) : Decidable (IsSegmented template) :=
  inferInstanceAs (Decidable (_ ∧ _))

/-- The template has no empty segment, each is literal text or one variable, and there are no more
variables than the route index can hold. -/
def IsWellFormed (template : List Char) : Prop :=
  IsRegular template ∧ (∀ segment ∈ segments template, segment.IsWellFormed) ∧
    ((segments template).filterMap Segment.name?).length ≤ Route.parameterLimit

instance (template : List Char) : Decidable (IsWellFormed template) :=
  inferInstanceAs (Decidable (_ ∧ _))

theorem IsWellFormed.isSegmented {template : List Char} (hwell : IsWellFormed template) :
    IsSegmented template := ⟨hwell.1, hwell.2.1⟩

def Fits (template path : List Char) : Prop :=
  List.Forall₂ Segment.Accepts (segments template) (Path.segments path)

instance (template path : List Char) : Decidable (Fits template path) :=
  inferInstanceAs (Decidable (List.Forall₂ _ _ _))

def capture? (segment : Segment) (text : List Char) : Option (String × String) :=
  segment.name?.map fun name => (.ofList name, .ofList text)

/-- The variables of a template, in order, with the segments of a path in their places. -/
def captures (template path : List Char) : List (String × String) :=
  ((segments template).zip (Path.segments path)).filterMap fun pair => capture? pair.1 pair.2

/-- Where two lists of segments differ first, names of variables apart, the left has literal text
and the right a variable. -/
def Leads : List Segment → List Segment → Prop
  | .literal _ :: _, .named _ :: _ => True
  | .literal text :: left, .literal other :: right => text = other ∧ Leads left right
  | .named _ :: left, .named _ :: right => Leads left right
  | _, _ => False

/-- A template is made of its segments. -/
theorem joined_text_segments {template : List Char} (hhead : template.head? = some '/') :
    joined ((segments template).map Segment.text) = template := by
  have hid : (Segment.text ∘ Segment.ofText) = id := funext Segment.text_ofText
  rw [segments, List.map_map, hid, List.map_id, joined_segments hhead]

end Template

end ApiGateway.Path
