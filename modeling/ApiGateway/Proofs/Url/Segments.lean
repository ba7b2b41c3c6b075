import ApiGateway.Proofs.Path.Segments
import ApiGateway.Proofs.Query
import ApiGateway.Proofs.Url.Escaping

/-!
# Paths put behind settled paths

What reading a URL leaves of a path is settled: reading it again changes nothing.  A path that is put behind a
settled one is read segment by segment, and stays what it is, escaped, exactly if it has no backslash and no
segment that stands for dots.
-/

namespace ApiGateway.Url

open ApiGateway.Path (joined)
open ApiGateway.Text.Percent (digit digitValue? escape digitValue?_digit)

/-! ## Dots -/

/-- The segment stands for the same or the upper directory. -/
def IsDots (segment : List Char) : Prop :=
  dots segment = ['.'] ∨ dots segment = ['.', '.']

instance (segment : List Char) : Decidable (IsDots segment) :=
  inferInstanceAs (Decidable (_ ∨ _))

/-- Only an escaped dot is resolved. -/
theorem dots_cons {c : Char} {rest : List Char}
    (hdot : ∀ e tail, c = '%' → rest = '2' :: e :: tail → e ≠ 'e' ∧ e ≠ 'E') :
    dots (c :: rest) = c :: dots rest := by
  rw [dots.eq_def]
  split
  · next tail heq =>
    cases heq
    exact absurd rfl (hdot 'e' tail rfl rfl).1
  · next tail heq =>
    cases heq
    exact absurd rfl (hdot 'E' tail rfl rfl).2
  · next heq =>
    cases heq
    rfl
  · next heq => cases heq

theorem dots_cons_of_ne {c : Char} (hne : c ≠ '%') (rest : List Char) :
    dots (c :: rest) = c :: dots rest :=
  dots_cons fun _ _ hpercent => absurd hpercent hne

/-- The value of a digit that has been written. -/
theorem value_of_digit {value known : UInt8} {c : Char} (hvalue : value < 16) (hdigit : digit value = c)
    (hknown : digitValue? (UInt8.ofNat c.toNat) = some known) : value = known := by
  have hread := digitValue?_digit value hvalue
  rw [hdigit, hknown, Option.some.injEq] at hread
  exact hread.symm

theorem digit_ne_percent {value : UInt8} (hvalue : value < 16) : digit value ≠ '%' := by
  intro heq
  have hdigit := isDigit_digit hvalue
  rw [heq] at hdigit
  exact absurd hdigit (by unfold IsDigit; decide)

/-- The escape of a byte that is no dot is left alone. -/
theorem dots_escape {byte : UInt8} (hbyte : byte ≠ 46) (rest : List Char) :
    dots (escape byte ++ rest) = escape byte ++ dots rest := by
  obtain ⟨hhigh, hlow, hwhole⟩ := Text.Percent.halves byte
  have hnot : digit (byte / 16) = '2' → byte % 16 ≠ 14 := by
    intro htwo hlast
    rw [value_of_digit hhigh htwo (show _ = some 2 by decide), hlast] at hwhole
    exact hbyte hwhole.symm
  have hfirst : ∀ e tail, digit (byte / 16) :: digit (byte % 16) :: rest = '2' :: e :: tail →
      e ≠ 'e' ∧ e ≠ 'E' := by
    intro e tail heq
    simp only [List.cons.injEq] at heq
    obtain ⟨htwo, he, -⟩ := heq
    constructor
    · rintro rfl
      exact hnot htwo (value_of_digit hlow he (by decide))
    · rintro rfl
      exact hnot htwo (value_of_digit hlow he (by decide))
  rw [escape, List.cons_append, List.cons_append, List.cons_append, List.nil_append,
    dots_cons fun e tail _ heq => hfirst e tail heq, dots_cons_of_ne (digit_ne_percent hhigh),
    dots_cons_of_ne (digit_ne_percent hlow)]
  rfl

theorem dots_flatMap_escape {bytes : List UInt8} (hbytes : ∀ byte ∈ bytes, byte ≠ 46)
    (rest : List Char) : dots (bytes.flatMap escape ++ rest) = bytes.flatMap escape ++ dots rest := by
  induction bytes with
  | nil => rfl
  | cons byte bytes ih =>
      rw [List.flatMap_cons, List.append_assoc, dots_escape (hbytes byte (.head bytes)),
        ih fun other hother => hbytes other (.tail byte hother), List.append_assoc]

/-- An escaped text starts with a character other than a percent sign only if the text does. -/
theorem escapeWith_eq_cons {kept : UInt8 → Bool} (hascii : KeepsAscii kept) {text tail : List Char}
    {d : Char} (hne : d ≠ '%') (heq : escapeWith kept text = d :: tail) :
    ∃ rest, text = d :: rest ∧ tail = escapeWith kept rest := by
  cases text with
  | nil => cases heq
  | cons c rest =>
      rw [escapeWith_cons] at heq
      by_cases hkept : IsKept kept c
      · rw [escapeWith_of_isKept hkept] at heq
        cases heq
        exact ⟨rest, rfl, rfl⟩
      · rw [(escapeWith_of_not_isKept hascii hkept).2] at heq
        cases hbytes : String.utf8EncodeChar c with
        | nil => exact absurd hbytes (utf8EncodeChar_ne_nil c)
        | cons byte bytes =>
            rw [hbytes, List.flatMap_cons, escape] at heq
            exact absurd (List.cons.inj heq).1.symm hne

theorem escapeWith_eq_nil {kept : UInt8 → Bool} (hascii : KeepsAscii kept) {text : List Char}
    (heq : escapeWith kept text = []) : text = [] := by
  cases text with
  | nil => rfl
  | cons c rest =>
      have hlength := length_escapeWith hascii c
      rw [escapeWith_cons, List.append_eq_nil_iff] at heq
      rw [heq.1] at hlength
      exact absurd hlength (by decide)

/-- Escaping makes no dots and hides none. -/
theorem dots_escapeWith (segment : List Char) :
    dots (escapeWith keptInPath segment) = escapeWith keptInPath (dots segment) := by
  have hascii := keepsEscapes_keptInPath.ascii
  fun_induction dots segment with
  | case1 rest ih =>
      have hsplit := escapeWith_append keptInPath ['%', '2', 'e'] rest
      rw [escapeWith_cons _ '.', ← ih]
      exact congrArg dots hsplit
  | case2 rest ih =>
      have hsplit := escapeWith_append keptInPath ['%', '2', 'E'] rest
      rw [escapeWith_cons _ '.', ← ih]
      exact congrArg dots hsplit
  | case3 c rest hsmall hlarge ih =>
      rw [escapeWith_cons _ c rest, escapeWith_cons _ c (dots rest), ← ih]
      by_cases hkept : IsKept keptInPath c
      · rw [escapeWith_of_isKept hkept]
        refine dots_cons fun e tail hpercent heq => ?_
        obtain ⟨after, rfl, htail⟩ := escapeWith_eq_cons hascii (by decide) heq
        constructor
        · rintro rfl
          obtain ⟨last, rfl, -⟩ := escapeWith_eq_cons hascii (by decide) htail.symm
          exact hsmall last hpercent rfl
        · rintro rfl
          obtain ⟨last, rfl, -⟩ := escapeWith_eq_cons hascii (by decide) htail.symm
          exact hlarge last hpercent rfl
      · obtain ⟨hbytes, hescaped⟩ := escapeWith_of_not_isKept hascii hkept
        rw [hescaped]
        refine dots_flatMap_escape (fun byte hbyte hdot => ?_) _
        have hlost := hbytes byte hbyte
        rw [hdot] at hlost
        exact absurd hlost (by decide)
  | case4 => rfl

theorem isDots_escapeWith {segment : List Char} :
    IsDots (escapeWith keptInPath segment) ↔ IsDots segment := by
  have hascii := keepsEscapes_keptInPath.ascii
  rw [IsDots, IsDots, dots_escapeWith]
  refine or_congr ⟨fun heq => ?_, fun heq => by rw [heq]; rfl⟩
    ⟨fun heq => ?_, fun heq => by rw [heq]; rfl⟩
  · obtain ⟨rest, hdots, hrest⟩ := escapeWith_eq_cons hascii (by decide) heq
    rw [hdots, escapeWith_eq_nil hascii hrest.symm]
  · obtain ⟨rest, hdots, hrest⟩ := escapeWith_eq_cons hascii (by decide) heq
    obtain ⟨last, rfl, hlast⟩ := escapeWith_eq_cons hascii (by decide) hrest.symm
    rw [hdots, escapeWith_eq_nil hascii hlast.symm]

/-! ## Settled paths -/

/-- What reading a URL makes of a segment. -/
structure IsSettled (segment : List Char) : Prop where
  kept : ∀ c ∈ segment, IsKept keptInPath c
  slashes : '/' ∉ segment ∧ '\\' ∉ segment
  notDots : ¬ IsDots segment

theorem isSettled_nil : IsSettled [] where
  kept := by simp
  slashes := by simp
  notDots := by decide

theorem isSettled_escapeWith {segment : List Char} (hslashes : '/' ∉ segment ∧ '\\' ∉ segment)
    (hdots : ¬ IsDots segment) : IsSettled (escapeWith keptInPath segment) where
  kept _ hmem := keepsEscapes_keptInPath.isKept_of_mem hmem
  slashes := by
    have hascii := keepsEscapes_keptInPath.ascii
    constructor
    · intro hmem
      rcases mem_escapeWith hascii hmem with ⟨hslash, -⟩ | hpercent | hdigit
      · exact hslashes.1 hslash
      · exact absurd hpercent (by decide)
      · exact absurd hdigit (by unfold IsDigit; decide)
    · intro hmem
      rcases mem_escapeWith hascii hmem with ⟨hslash, -⟩ | hpercent | hdigit
      · exact hslashes.2 hslash
      · exact absurd hpercent (by decide)
      · exact absurd hdigit (by unfold IsDigit; decide)
  notDots := isDots_escapeWith.not.mpr hdots

theorem IsSettled.escapeWith_eq {segment : List Char} (hsettled : IsSettled segment) :
    escapeWith keptInPath segment = segment :=
  escapeWith_eq_self hsettled.kept

/-- A segment that is not dots is put to the others. -/
theorem pushSegment_of_not_isDots {segment : List Char} (hdots : ¬ IsDots segment)
    (segments : List (List Char)) (last : Bool) :
    pushSegment segments segment last = escapeWith keptInPath segment :: segments := by
  rw [IsDots, not_or] at hdots
  rw [pushSegment]
  split
  · next heq => exact absurd heq hdots.2
  · next heq => exact absurd heq hdots.1
  · rfl

theorem pushSegments_cons (segments : List (List Char)) (segment : List Char)
    {rest : List (List Char)} (hne : rest ≠ []) :
    pushSegments segments (segment :: rest) =
      pushSegments (pushSegment segments segment false) rest := by
  cases rest with
  | nil => exact absurd rfl hne
  | cons next rest => rfl

/-- Dots leave fewer segments or an empty one, and anything else is escaped. -/
theorem pushSegment_cases (segments : List (List Char)) (segment : List Char) (last : Bool) :
    (IsDots segment ∧ ∃ kept, kept <:+ segments ∧
      (pushSegment segments segment last = kept ∨ pushSegment segments segment last = [] :: kept)) ∨
    ¬ IsDots segment ∧
      pushSegment segments segment last = escapeWith keptInPath segment :: segments := by
  by_cases hdots : IsDots segment
  · refine Or.inl ⟨hdots, ?_⟩
    rw [pushSegment]
    rcases hdots with hdots | hdots
    · rw [hdots]
      refine ⟨segments, List.suffix_refl _, ?_⟩
      cases last
      · exact Or.inl rfl
      · exact Or.inr rfl
    · rw [hdots]
      refine ⟨segments.tail, List.tail_suffix _, ?_⟩
      cases last
      · exact Or.inl rfl
      · exact Or.inr rfl
  · exact Or.inr ⟨hdots, pushSegment_of_not_isDots hdots segments last⟩

/-- Segments that are pushed onto settled ones are settled. -/
theorem isSettled_of_mem_pushSegments {segments source : List (List Char)}
    (hsettled : ∀ segment ∈ segments, IsSettled segment)
    (hsource : ∀ segment ∈ source, '/' ∉ segment ∧ '\\' ∉ segment) :
    ∀ segment ∈ pushSegments segments source, IsSettled segment := by
  have hpush : ∀ segments : List (List Char), (∀ segment ∈ segments, IsSettled segment) →
      ∀ segment, '/' ∉ segment ∧ '\\' ∉ segment → ∀ last,
      ∀ other ∈ pushSegment segments segment last, IsSettled other := by
    intro segments hsettled segment hslashes last other hother
    rcases pushSegment_cases segments segment last with
      ⟨-, kept, hsuffix, heq | heq⟩ | ⟨hdots, heq⟩ <;> rw [heq] at hother
    · exact hsettled other (hsuffix.subset hother)
    · rcases List.mem_cons.mp hother with rfl | hkept
      · exact isSettled_nil
      · exact hsettled other (hsuffix.subset hkept)
    · rcases List.mem_cons.mp hother with rfl | hkept
      · exact isSettled_escapeWith hslashes hdots
      · exact hsettled other hkept
  induction source generalizing segments with
  | nil => exact hsettled
  | cons segment rest ih =>
      have hfirst := hpush segments hsettled segment (hsource segment (.head rest))
      cases rest with
      | nil => exact hfirst true
      | cons next rest =>
          exact ih (hfirst false) fun other hother => hsource other (.tail segment hother)

/-- Settled segments are pushed as they are. -/
theorem pushSegments_append {settled source : List (List Char)} (segments : List (List Char))
    (hsettled : ∀ segment ∈ settled, IsSettled segment) (hne : source ≠ []) :
    pushSegments segments (settled ++ source) = pushSegments (settled.reverse ++ segments) source := by
  induction settled generalizing segments with
  | nil => rfl
  | cons segment rest ih =>
      have hfirst := hsettled segment (.head rest)
      have hrest : rest ++ source ≠ [] := fun heq => hne (List.append_eq_nil_iff.mp heq).2
      rw [List.cons_append, pushSegments_cons segments segment hrest,
        pushSegment_of_not_isDots hfirst.notDots, hfirst.escapeWith_eq,
        ih _ fun other hother => hsettled other (.tail segment hother), List.reverse_cons,
        List.append_assoc]
      rfl

/-- Without dots nothing is lost. -/
theorem pushSegments_of_not_isDots {source : List (List Char)} (segments : List (List Char))
    (hdots : ∀ segment ∈ source, ¬ IsDots segment) :
    pushSegments segments source = (source.map (escapeWith keptInPath)).reverse ++ segments := by
  induction source generalizing segments with
  | nil => rfl
  | cons segment rest ih =>
      have hfirst := pushSegment_of_not_isDots (hdots segment (.head rest)) segments
      cases rest with
      | nil => exact hfirst true
      | cons next rest =>
          rw [pushSegments_cons _ _ (List.cons_ne_nil next rest), hfirst false,
            ih _ fun other hother => hdots other (.tail segment hother)]
          simp only [List.map_cons, List.reverse_cons, List.append_assoc, List.cons_append,
            List.nil_append]

end ApiGateway.Url
