import ApiGateway.Proofs.Path.Leads
import ApiGateway.Proofs.Url.Segments
import Mathlib.Data.List.Induction

/-!
# Where a joined path leads

A path that is put behind a settled one, the slashes at its end taken off, leads to the path that is written
there, escaped, exactly if it has no backslash and no segment that stands for dots.
-/

namespace ApiGateway

namespace Path

theorem joined_append (left right : List (List Char)) :
    joined (left ++ right) = joined left ++ joined right :=
  List.flatMap_append

theorem segments_cons_slash (rest : List Char) : segments ('/' :: rest) = Text.splitAll '/' rest := by
  simp [segments, Text.splitAll]

theorem segments_ne_nil {path : List Char} (hpath : path.head? = some '/') : segments path ≠ [] := by
  intro hnil
  have hjoined := joined_segments hpath
  rw [hnil, joined_nil] at hjoined
  rw [← hjoined] at hpath
  cases hpath

theorem mem_of_mem_segments {path segment : List Char} {c : Char} (hpath : path.head? = some '/')
    (hsegment : segment ∈ segments path) (hmem : c ∈ segment) : c ∈ path := by
  rw [← joined_segments hpath]
  exact List.mem_flatMap.mpr ⟨segment, hsegment, .tail '/' hmem⟩

theorem joined_append_eq_cons (front : List (List Char)) {path : List Char}
    (hpath : path.head? = some '/') : ∃ rest, joined front ++ path = '/' :: rest := by
  rcases joined_eq_nil_or_cons front with hnil | ⟨rest, heq⟩
  · cases path with
    | nil => cases hpath
    | cons c path =>
        cases hpath
        exact ⟨path, by rw [hnil, List.nil_append]⟩
  · exact ⟨rest ++ path, by rw [heq, List.cons_append]⟩

/-- The segments of a path behind others are found behind them. -/
theorem segments_joined_append {front : List (List Char)} {path : List Char}
    (hfront : ∀ segment ∈ front, '/' ∉ segment) (hpath : path.head? = some '/') :
    segments (joined front ++ path) = front ++ segments path := by
  induction front with
  | nil => rfl
  | cons segment rest ih =>
      have hrest := ih fun other hother => hfront other (.tail segment hother)
      obtain ⟨tail, htail⟩ := joined_append_eq_cons rest hpath
      rw [htail, segments_cons_slash] at hrest
      rw [joined_cons, List.append_assoc, htail, List.cons_append, segments_cons_slash,
        Text.splitAll_append_cons tail (hfront segment (.head rest)), hrest]
      rfl

/-- Slashes at the end of a joined path belong to empty segments. -/
theorem trimEnd_joined {source : List (List Char)} (hslash : ∀ segment ∈ source, '/' ∉ segment) :
    ∃ front, front <+: source ∧ Text.trimEnd (· == '/') (joined source) = joined front := by
  induction source using List.reverseRecOn with
  | nil => exact ⟨[], List.prefix_refl _, rfl⟩
  | append_singleton source segment ih =>
      cases hlast : segment.getLast? with
      | none =>
          obtain ⟨front, hfront, htrim⟩ :=
            ih fun other hother => hslash other (List.mem_append_left _ hother)
          obtain rfl : segment = [] := List.getLast?_eq_none_iff.mp hlast
          refine ⟨front, hfront.trans (List.prefix_append _ _), ?_⟩
          rw [← htrim, joined_append, Text.trimEnd, Text.trimEnd]
          simp
      | some last =>
          refine ⟨source ++ [segment], List.prefix_refl _, ?_⟩
          refine withoutTrailingSlashes_eq_self fun hends => ?_
          have hne : segment ≠ [] := by
            rintro rfl
            cases hlast
          rw [joined_append, joined_cons, joined_nil, List.append_nil,
            List.getLast?_append_of_ne_nil _ (List.cons_ne_nil _ _),
            List.getLast?_cons_of_ne_nil hne] at hends
          exact hslash segment (by simp) (List.mem_of_getLast? hends)

end Path

namespace Url

open ApiGateway.Path (joined joined_append joined_cons joined_nil)

/-! ## Lengths -/

theorem length_joined_reverse (source : List (List Char)) :
    (joined source.reverse).length = (joined source).length := by
  induction source with
  | nil => rfl
  | cons segment rest ih =>
      rw [List.reverse_cons, joined_append, List.length_append, ih, joined_cons, joined_cons, joined_nil,
        List.append_nil, List.length_append, Nat.add_comm]

theorem length_joined_of_suffix {kept source : List (List Char)} (hsuffix : kept <:+ source) :
    (joined kept).length ≤ (joined source).length := by
  obtain ⟨front, rfl⟩ := hsuffix
  rw [joined_append, List.length_append]
  omega

/-- A segment adds at most its escaped text, and less if it stands for dots. -/
theorem length_pushSegment (segments : List (List Char)) (segment : List Char) (last : Bool) :
    (joined (pushSegment segments segment last)).length ≤
        (joined segments).length + (1 + (escapeWith keptInPath segment).length) ∧
      (IsDots segment → (joined (pushSegment segments segment last)).length <
        (joined segments).length + (1 + (escapeWith keptInPath segment).length)) := by
  rcases pushSegment_cases segments segment last with ⟨hdots, kept, hsuffix, heq⟩ | ⟨hdots, heq⟩
  · have hkept := length_joined_of_suffix hsuffix
    have hlength : 1 ≤ (escapeWith keptInPath segment).length := by
      cases segment with
      | nil => exact absurd hdots (by decide)
      | cons c rest =>
          rw [escapeWith_cons, List.length_append]
          have := length_escapeWith keepsEscapes_keptInPath.ascii c
          omega
    have hless : (joined (pushSegment segments segment last)).length ≤ 1 + (joined kept).length := by
      rcases heq with heq | heq
      · rw [heq]
        omega
      · rw [heq]
        exact Nat.le_of_eq (Nat.add_comm (joined kept).length 1)
    exact ⟨by omega, fun _ => by omega⟩
  · refine ⟨?_, fun hother => absurd hother hdots⟩
    rw [heq, joined_cons, List.length_append, List.length_cons]
    omega

theorem length_pushSegments (segments source : List (List Char)) :
    (joined (pushSegments segments source)).length ≤
        (joined segments).length + (joined (source.map (escapeWith keptInPath))).length ∧
      ((∃ segment ∈ source, IsDots segment) → (joined (pushSegments segments source)).length <
        (joined segments).length + (joined (source.map (escapeWith keptInPath))).length) := by
  induction source generalizing segments with
  | nil =>
      refine ⟨Nat.le_refl _, ?_⟩
      rintro ⟨segment, hsegment, -⟩
      cases hsegment
  | cons segment rest ih =>
      have hmap : (joined ((segment :: rest).map (escapeWith keptInPath))).length =
          1 + (escapeWith keptInPath segment).length +
            (joined (rest.map (escapeWith keptInPath))).length := by
        rw [List.map_cons, joined_cons, List.length_append, List.length_cons, Nat.add_comm 1]
      rw [hmap, List.exists_mem_cons_iff]
      cases rest with
      | nil =>
          obtain ⟨hle, hlt⟩ := length_pushSegment segments segment true
          refine ⟨Nat.le_trans hle (by omega), fun hdots => ?_⟩
          rcases hdots with hdots | ⟨other, hother, -⟩
          · exact Nat.lt_of_lt_of_le (hlt hdots) (by omega)
          · cases hother
      | cons next rest =>
          obtain ⟨hle, hlt⟩ := length_pushSegment segments segment false
          obtain ⟨hleRest, hltRest⟩ := ih (pushSegment segments segment false)
          rw [pushSegments_cons _ _ (List.cons_ne_nil next rest)]
          refine ⟨by omega, fun hdots => ?_⟩
          rcases hdots with hdots | hdots
          · have := hlt hdots
            omega
          · have := hltRest hdots
            omega

theorem escapeWith_joined (source : List (List Char)) :
    escapeWith keptInPath (joined source) = joined (source.map (escapeWith keptInPath)) := by
  induction source with
  | nil => rfl
  | cons segment rest ih =>
      rw [joined_cons, escapeWith_append, escapeWith_cons, ih, List.map_cons, joined_cons,
        escapeWith_of_isKept (by decide : IsKept keptInPath '/')]
      rfl

/-! ## Backslashes -/

/-- The path as it is read where backslashes are slashes. -/
def straightened (path : List Char) : List Char :=
  path.map fun c => if c = '\\' then '/' else c

theorem straightened_eq_self {path : List Char} (hback : '\\' ∉ path) : straightened path = path := by
  refine (List.map_congr_left fun c hc => ?_).trans (List.map_id path)
  rw [if_neg (ne_of_mem_of_not_mem hc hback), id]

theorem head?_straightened {path : List Char} (hpath : path.head? = some '/') :
    (straightened path).head? = some '/' := by
  rw [straightened, List.head?_map, hpath]
  rfl

theorem backslash_not_mem_straightened (path : List Char) : '\\' ∉ straightened path := by
  intro hmem
  obtain ⟨c, -, hc⟩ := List.mem_map.mp hmem
  split at hc
  · exact absurd hc (by decide)
  · next hne => exact hne hc

theorem slashless_of_mem_segments_straightened {path segment : List Char}
    (hpath : path.head? = some '/') (hsegment : segment ∈ Path.segments (straightened path)) :
    '/' ∉ segment ∧ '\\' ∉ segment := by
  refine ⟨Path.slash_not_mem_of_mem_segments hsegment, fun hmem => ?_⟩
  have hwhole := Path.mem_of_mem_segments (head?_straightened hpath) hsegment hmem
  exact backslash_not_mem_straightened path hwhole

/-- Slashes are as long as backslashes. -/
theorem length_escapeWith_straightened (path : List Char) :
    (escapeWith keptInPath (straightened path)).length = (escapeWith keptInPath path).length := by
  induction path with
  | nil => rfl
  | cons c path ih =>
      rw [straightened, List.map_cons, ← straightened, escapeWith_cons, List.length_append, ih,
        escapeWith_cons _ c, List.length_append]
      split
      · next hback =>
        subst hback
        rfl
      · rfl

/-! ## Paths behind settled paths -/

theorem mem_joined {source : List (List Char)} {c : Char} (hmem : c ∈ joined source) :
    c = '/' ∨ ∃ segment ∈ source, c ∈ segment := by
  obtain ⟨segment, hsegment, hmem⟩ := List.mem_flatMap.mp hmem
  rcases List.mem_cons.mp hmem with heq | hmem
  · exact Or.inl heq
  · exact Or.inr ⟨segment, hsegment, hmem⟩

section

variable {settled : List (List Char)} {path : List Char}

theorem backslash_not_mem_joined (hsettled : ∀ segment ∈ settled, IsSettled segment) :
    '\\' ∉ joined settled := by
  intro hmem
  rcases mem_joined hmem with heq | ⟨segment, hsegment, hmem⟩
  · exact absurd heq (by decide)
  · exact (hsettled segment hsegment).slashes.2 hmem

theorem isKept_of_mem_joined (hsettled : ∀ segment ∈ settled, IsSettled segment) :
    ∀ c ∈ joined settled, IsKept keptInPath c := by
  intro c hmem
  rcases mem_joined hmem with rfl | ⟨segment, hsegment, hmem⟩
  · decide
  · exact (hsettled segment hsegment).kept c hmem

theorem segmentsOf_eq (rest : List Char) :
    segmentsOf true rest = (pushSegments [] (Path.segments (straightened ('/' :: rest)))).reverse := by
  rw [segmentsOf, if_pos rfl]
  exact congrArg (fun source => (pushSegments [] source).reverse) (Path.segments_cons_slash _).symm

/-- A path behind settled segments leads to what is left when its own segments are pushed onto them. -/
theorem locationBehind_joined_append (hsettled : ∀ segment ∈ settled, IsSettled segment)
    (hpath : path.head? = some '/') :
    locationBehind true (joined settled ++ path) =
      .segments (pushSegments settled.reverse (Path.segments (straightened path))).reverse := by
  have hstraight : straightened (joined settled ++ path) = joined settled ++ straightened path := by
    have hfront := straightened_eq_self (backslash_not_mem_joined hsettled)
    rw [straightened, List.map_append, ← straightened, ← straightened, hfront]
  have hsegments := Path.segments_joined_append (fun segment hsegment =>
    (hsettled segment hsegment).slashes.1) (head?_straightened hpath)
  obtain ⟨rest, hrest⟩ := Path.joined_append_eq_cons settled hpath
  rw [hrest] at hstraight ⊢
  rw [locationBehind, if_pos (by rfl), segmentsOf_eq, hstraight, hsegments,
    pushSegments_append [] hsettled (Path.segments_ne_nil (head?_straightened hpath)), List.append_nil]

/-- What is left when a path is pushed onto settled segments is settled. -/
theorem isSettled_of_mem_pushed (hsettled : ∀ segment ∈ settled, IsSettled segment)
    (hpath : path.head? = some '/') :
    ∀ segment ∈ (pushSegments settled.reverse (Path.segments (straightened path))).reverse,
      IsSettled segment := by
  intro segment hsegment
  refine isSettled_of_mem_pushSegments (fun other hother => ?_) (fun other hother => ?_) segment
    (List.mem_reverse.mp hsegment)
  · exact hsettled other (List.mem_reverse.mp hother)
  · exact slashless_of_mem_segments_straightened hpath hother

/-- A path is found behind a settled one, some of its characters escaped, exactly if it has no backslash and
no segment that stands for dots. -/
theorem escapesTo_locationBehind_iff (hsettled : ∀ segment ∈ settled, IsSettled segment)
    (hpath : path.head? = some '/') :
    EscapesTo (joined settled ++ path) (locationBehind true (joined settled ++ path)).text ↔
      '\\' ∉ path ∧ ∀ segment ∈ Path.segments path, ¬ IsDots segment := by
  have hascii := keepsEscapes_keptInPath.ascii
  have hself := escapeWith_eq_self (isKept_of_mem_joined hsettled)
  have hwhole : escapeWith keptInPath (joined settled ++ path) =
      joined settled ++ escapeWith keptInPath path := by
    rw [escapeWith_append, hself]
  rw [locationBehind_joined_append hsettled hpath]
  change EscapesTo _ (joined (pushSegments settled.reverse (Path.segments (straightened path))).reverse) ↔ _
  constructor
  · intro hescapes
    -- What is found is at least as long as the path escaped where it has to be, but dots make it shorter.
    have hfound := isSettled_of_mem_pushed hsettled hpath
    obtain ⟨hle, hshort⟩ := hescapes.length_le hascii (isKept_of_mem_joined hfound)
    obtain ⟨hpushed, hless⟩ := length_pushSegments settled.reverse (Path.segments (straightened path))
    rw [length_joined_reverse, ← escapeWith_joined, Path.joined_segments (head?_straightened hpath),
      length_escapeWith_straightened] at hpushed hless
    rw [length_joined_reverse, hwhole, List.length_append] at hle hshort
    have hback : '\\' ∉ path := fun hmem => backslash_not_mem_joined hfound
      (hshort hpushed _ (List.mem_append_right _ hmem) (by decide))
    refine ⟨hback, fun segment hsegment hdots => ?_⟩
    rw [straightened_eq_self hback] at hle hless
    have := hless ⟨segment, hsegment, hdots⟩
    omega
  · rintro ⟨hback, hdots⟩
    rw [straightened_eq_self hback, pushSegments_of_not_isDots _ hdots, List.reverse_append,
      List.reverse_reverse, List.reverse_reverse, joined_append, ← escapeWith_joined,
      Path.joined_segments hpath, ← hwhole]
    exact escapesTo_escapeWith hascii _

end

end Url

end ApiGateway
