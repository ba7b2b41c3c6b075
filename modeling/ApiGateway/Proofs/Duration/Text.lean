import ApiGateway.Duration.Text
import ApiGateway.Proofs.Text.Decimal

/-!
# Durations read back

Reading the text of a duration gives the duration, whatever its seconds and nanoseconds: each unit that is
written is known, no sum on the way is too large, and the sum of all is the duration.
-/

namespace ApiGateway.Duration

/-! ## Steps of reading -/

/-- From one phase and total, a text is read to another phase and total. -/
def Reads (text : List Char) (phase : Phase) (total : Nat) (phase' : Phase) (total' : Nat) : Prop :=
  ∀ offset, ∃ offset', text.foldlM step ⟨phase, total, offset⟩ = .ok ⟨phase', total', offset'⟩

theorem Reads.nil (phase : Phase) (total : Nat) : Reads [] phase total phase total :=
  fun offset => ⟨offset, rfl⟩

theorem Reads.append {left right : List Char} {first second third : Phase} {before between after : Nat}
    (hleft : Reads left first before second between) (hright : Reads right second between third after) :
    Reads (left ++ right) first before third after := by
  intro offset
  obtain ⟨middle, hmiddle⟩ := hleft offset
  obtain ⟨last, hlast⟩ := hright middle
  exact ⟨last, by rw [List.foldlM_append, hmiddle]; exact hlast⟩

/-- One character, which leads to the same phase wherever it stands. -/
theorem Reads.single {c : Char} {phase phase' : Phase} {total total' : Nat}
    (hadvance : ∀ offset, advance ⟨phase, total, offset⟩ c = .ok (phase', total')) :
    Reads [c] phase total phase' total' := by
  intro offset
  refine ⟨offset + c.utf8Size, ?_⟩
  rw [List.foldlM_cons, step, hadvance offset]
  rfl

/-! ## Numbers -/

theorem word_of_lt {value : Nat} (hvalue : value < wordLimit) : word value = .ok value :=
  if_pos hvalue

theorem digitOf_digitChar {digit : Nat} (hdigit : digit < 10) : digitOf (Nat.digitChar digit) = digit :=
  Nat.toNat_digitChar_sub_48_of_lt_ten hdigit

/-- The digits of a number are read as the number. -/
theorem reads_digits {number : Nat} (hnumber : number < wordLimit) (total : Nat) :
    Reads (Nat.toDigits 10 number) .start total (.whole number) total := by
  induction number using Text.decimal_induction with
  | single digit hdigit =>
      refine .single fun offset => ?_
      have hc : isDigit (Nat.digitChar digit) = true := Text.isDigit_digitChar hdigit
      simp only [advance, hc, if_true, digitOf_digitChar hdigit]
      rfl
  | longer tenth digit htenth hdigit ih =>
      refine (ih (by omega)).append (.single fun offset => ?_)
      have hc : isDigit (Nat.digitChar digit) = true := Text.isDigit_digitChar hdigit
      simp only [advance, hc, if_true, digitOf_digitChar hdigit, word_of_lt hnumber]
      rfl

/-! ## Units -/

def IsLetter (c : Char) : Prop :=
  isUnitLetter c = true ∧ isDigit c = false ∧ Text.isBlank c = false

instance (c : Char) : Decidable (IsLetter c) :=
  inferInstanceAs (Decidable (_ ∧ _ ∧ _))

theorem reads_letters {letters : List Char} (hletters : ∀ c ∈ letters, IsLetter c) (value : Nat)
    (places : Option Places) (read : List Char) (total : Nat) :
    Reads letters (.unit value places read) total (.unit value places (letters.reverse ++ read)) total := by
  induction letters generalizing read with
  | nil => exact .nil _ _
  | cons c rest ih =>
      obtain ⟨⟨hletter, hdigit, hblank⟩, hrest⟩ := List.forall_mem_cons.mp hletters
      rw [List.reverse_cons, List.append_assoc]
      have hfirst : Reads [c] (.unit value places read) total (.unit value places (c :: read)) total := by
        refine .single fun offset => ?_
        simp only [advance, hletter, hdigit, hblank, if_true]
        rfl
      exact hfirst.append (ih hrest (c :: read))

/-- Adding steps succeeds while the sum fits. -/
theorem addSteps_eq {total count step : Nat} (hcount : count < wordLimit)
    (hfine : step = 1 → total % 1000000000 + count < wordLimit)
    (hsum : (total + count * step) / 1000000000 < wordLimit) :
    addSteps total count step = .ok (total + count * step) := by
  simp only [addSteps, word_of_lt hcount, bind, Except.bind]
  by_cases hstep : step = 1
  · simp only [if_pos hstep, word_of_lt (hfine hstep)]
    exact if_pos hsum
  · simp only [if_neg hstep]
    exact if_pos hsum

namespace TimeUnit

theorem step_cases (unit : TimeUnit) : unit.step = 1 ∨ unit.step = 1000000000 := by
  cases unit <;> decide

/-- A unit is a whole number of its steps. -/
theorem steps_mul_step (unit : TimeUnit) : unit.nanoseconds / unit.step * unit.step = unit.nanoseconds := by
  cases unit <;> rfl

theorem one_le_steps (unit : TimeUnit) : 1 ≤ unit.nanoseconds / unit.step := by
  cases unit <;> decide

/-- Units are spelled with letters. -/
theorem isLetter_of_ofSpelling? {unit : TimeUnit} {spelling : String}
    (hunit : ofSpelling? spelling = some unit) : ∀ c ∈ spelling.toList, IsLetter c := by
  -- as a test over the lists, since a quantifier over characters would be decided for each character
  have hall : spellings.all (fun entry =>
      entry.2.all fun spelling => spelling.toList.all fun c => decide (IsLetter c)) = true := by
    decide
  simp only [List.all_eq_true, decide_eq_true_eq] at hall
  obtain ⟨entry, hfind, -⟩ := Option.map_eq_some_iff.mp hunit
  have hspelled := List.find?_some hfind
  exact hall entry (List.mem_of_find?_eq_some hfind) spelling (List.contains_iff_mem.mp hspelled)

end TimeUnit

/-! ## Parts -/

structure Part where
  count : Nat
  unit : TimeUnit
  spelling : String

namespace Part

def text (part : Part) : String :=
  toString part.count ++ part.spelling

def nanoseconds (part : Part) : Nat :=
  part.count * part.unit.nanoseconds

def total : List Part → Nat
  | [] => 0
  | part :: rest => part.nanoseconds + total rest

@[simp]
theorem total_nil : total [] = 0 := rfl

@[simp]
theorem total_cons (part : Part) (rest : List Part) : total (part :: rest) = part.nanoseconds + total rest :=
  rfl

/-- The spelling is one of the unit, and the fine units stay below a second. -/
structure IsSound (part : Part) : Prop where
  unit : TimeUnit.ofSpelling? part.spelling = some part.unit
  fine : part.unit.step = 1 → part.nanoseconds < 1000000000

variable {part : Part} {total : Nat}

theorem steps_mul_step (part : Part) :
    part.count * (part.unit.nanoseconds / part.unit.step) * part.unit.step = part.nanoseconds := by
  rw [Nat.mul_assoc, part.unit.steps_mul_step, nanoseconds]

/-- The steps of a part fit if the sum does. -/
theorem IsSound.steps_lt (hsound : part.IsSound)
    (hsum : (total + part.nanoseconds) / 1000000000 < wordLimit) :
    part.count * (part.unit.nanoseconds / part.unit.step) < wordLimit := by
  have hsteps := part.steps_mul_step
  rcases part.unit.step_cases with hstep | hstep
  · have hfine := hsound.fine hstep
    rw [hstep, Nat.mul_one] at hsteps
    rw [hstep, hsteps]
    exact Nat.lt_trans hfine (by decide)
  · rw [hstep] at hsteps ⊢
    omega

theorem IsSound.count_lt (hsound : part.IsSound)
    (hsum : (total + part.nanoseconds) / 1000000000 < wordLimit) : part.count < wordLimit :=
  Nat.lt_of_le_of_lt (Nat.le_mul_of_pos_right part.count part.unit.one_le_steps) (hsound.steps_lt hsum)

/-- A part that has been read is added. -/
theorem IsSound.addUnit_eq (hsound : part.IsSound)
    (hsum : (total + part.nanoseconds) / 1000000000 < wordLimit) :
    addUnit total part.count none part.spelling.toList.reverse = .ok (total + part.nanoseconds) := by
  have hadded : addSteps total (part.count * (part.unit.nanoseconds / part.unit.step)) part.unit.step =
      .ok (total + part.nanoseconds) := by
    have hsteps := part.steps_mul_step
    rw [addSteps_eq (hsound.steps_lt hsum) ?_ (by rw [hsteps]; exact hsum), hsteps]
    intro hstep
    have hfine := hsound.fine hstep
    rw [hstep, Nat.mul_one] at hsteps
    rw [hstep, hsteps]
    have hlimit : 2000000000 < wordLimit := by decide
    omega
  unfold addUnit
  simp only [List.reverse_reverse, String.ofList_toList, hsound.unit, hadded]
  rfl

theorem toList_text (part : Part) :
    part.text.toList = Nat.toDigits 10 part.count ++ part.spelling.toList := by
  rw [text, String.toList_append]
  exact congrArg (· ++ part.spelling.toList) String.toList_ofList

/-- A part is read up to its last letter. -/
theorem IsSound.reads (hsound : part.IsSound) (hcount : part.count < wordLimit) :
    Reads part.text.toList .start total (.unit part.count none part.spelling.toList.reverse) total := by
  rw [toList_text]
  refine (reads_digits hcount total).append ?_
  cases hletters : part.spelling.toList with
  | nil =>
      have hunit := hsound.unit
      rw [String.toList_eq_nil_iff.mp hletters] at hunit
      cases hunit
  | cons c rest =>
      have hall := TimeUnit.isLetter_of_ofSpelling? hsound.unit
      rw [hletters, List.forall_mem_cons] at hall
      obtain ⟨⟨hletter, hdigit, hblank⟩, hrest⟩ := hall
      have hfirst : Reads [c] (.whole part.count) total (.unit part.count none [c]) total := by
        refine .single fun offset => ?_
        simp only [advance, hletter, hdigit, hblank, if_true]
        rfl
      rw [List.reverse_cons]
      exact hfirst.append (reads_letters hrest part.count none [c] total)

end Part

/-- Parts with blanks between are read up to the last letter of the last one, which completes the sum. -/
theorem reads_parts {part : Part} {rest : List Part} {total : Nat}
    (hsound : ∀ other ∈ part :: rest, other.IsSound)
    (hsum : (total + Part.total (part :: rest)) / 1000000000 < wordLimit) :
    ∃ (last : Part) (before : Nat), last.IsSound ∧
      before + last.nanoseconds = total + Part.total (part :: rest) ∧
      Reads ([' '].intercalate ((part :: rest).map (·.text.toList))) .start total
        (.unit last.count none last.spelling.toList.reverse) before := by
  induction rest generalizing part total with
  | nil =>
      have hpart := hsound part (.head [])
      rw [Part.total_cons, Part.total_nil, Nat.add_zero] at hsum ⊢
      refine ⟨part, total, hpart, rfl, ?_⟩
      simpa using hpart.reads (hpart.count_lt hsum)
  | cons next rest ih =>
      have hpart := hsound part (.head _)
      rw [Part.total_cons, ← Nat.add_assoc] at hsum ⊢
      have hfirst : (total + part.nanoseconds) / 1000000000 < wordLimit :=
        Nat.lt_of_le_of_lt (Nat.div_le_div_right (Nat.le_add_right _ _)) hsum
      obtain ⟨last, before, hlast, hbefore, hreads⟩ :=
        ih (fun other hother => hsound other (.tail part hother)) hsum
      have hblank : Reads [' '] (.unit part.count none part.spelling.toList.reverse) total .start
          (total + part.nanoseconds) := by
        refine .single fun offset => ?_
        simp only [advance, hpart.addUnit_eq hfirst]
        rfl
      refine ⟨last, before, hlast, hbefore, ?_⟩
      rw [List.map_cons, List.map_cons, List.intercalate_cons_cons]
      exact ((hpart.reads (hpart.count_lt hfirst)).append hblank).append hreads

/-! ## The parts of a duration -/

def pluralPart (count : Nat) (unit : TimeUnit) (spelling : String) : Part :=
  ⟨count, unit, if 1 < count then spelling ++ "s" else spelling⟩

/-- The parts of a duration, those that are zero among them. -/
def parts (duration : Duration) : List Part :=
  let inYear := duration.seconds % 31557600
  let inMonth := inYear % 2630016
  let inDay := inMonth % 86400
  [ pluralPart (duration.seconds / 31557600) .year "year",
    pluralPart (inYear / 2630016) .month "month",
    pluralPart (inMonth / 86400) .day "day",
    ⟨inDay / 3600, .hour, "h"⟩,
    ⟨inDay % 3600 / 60, .minute, "m"⟩,
    ⟨inDay % 60, .second, "s"⟩,
    ⟨duration.fraction / 1000000, .millisecond, "ms"⟩,
    ⟨duration.fraction / 1000 % 1000, .microsecond, "us"⟩,
    ⟨duration.fraction % 1000, .nanosecond, "ns"⟩ ]

theorem isSound_pluralPart {unit : TimeUnit} {spelling : String} (count : Nat)
    (hunit : TimeUnit.ofSpelling? spelling = some unit)
    (hunits : TimeUnit.ofSpelling? (spelling ++ "s") = some unit) (hstep : unit.step ≠ 1) :
    (pluralPart count unit spelling).IsSound := by
  refine ⟨?_, fun hfine => absurd hfine hstep⟩
  simp only [pluralPart]
  split
  · exact hunits
  · exact hunit

theorem fraction_lt (duration : Duration) : duration.fraction < 1000000000 :=
  Nat.mod_lt _ (by decide)

/-- Each part is spelled as its unit is. -/
theorem isSound_of_mem_parts {duration : Duration} {part : Part} (hpart : part ∈ duration.parts) :
    part.IsSound := by
  have hfraction := duration.fraction_lt
  simp only [parts, List.mem_cons, List.not_mem_nil, or_false] at hpart
  rcases hpart with rfl | rfl | rfl | rfl | rfl | rfl | rfl | rfl | rfl
  · exact isSound_pluralPart _ (by decide) (by decide) (by decide)
  · exact isSound_pluralPart _ (by decide) (by decide) (by decide)
  · exact isSound_pluralPart _ (by decide) (by decide) (by decide)
  · exact ⟨rfl, fun hfine => nomatch hfine⟩
  · exact ⟨rfl, fun hfine => nomatch hfine⟩
  · exact ⟨rfl, fun hfine => nomatch hfine⟩
  all_goals
    refine ⟨rfl, fun _ => ?_⟩
    simp only [Part.nanoseconds, TimeUnit.nanoseconds]
    omega

theorem sum_seconds (seconds : Nat) :
    seconds / 31557600 * 31557600 + (seconds % 31557600 / 2630016 * 2630016 +
      (seconds % 31557600 % 2630016 / 86400 * 86400 +
        (seconds % 31557600 % 2630016 % 86400 / 3600 * 3600 +
          (seconds % 31557600 % 2630016 % 86400 % 3600 / 60 * 60 +
            seconds % 31557600 % 2630016 % 86400 % 60)))) = seconds := by
  omega

theorem sum_fraction (fraction : Nat) :
    fraction / 1000000 * 1000000 + (fraction / 1000 % 1000 * 1000 + fraction % 1000) = fraction := by
  omega

/-- The parts add up to the duration. -/
theorem total_parts (duration : Duration) : Part.total duration.parts = duration.nanoseconds := by
  have hwhole := duration.seconds_fraction
  rw [← sum_seconds duration.seconds, ← sum_fraction duration.fraction] at hwhole
  simp only [Nat.add_mul, Nat.mul_assoc, Nat.add_assoc] at hwhole
  simp only [parts, pluralPart, Part.total_cons, Part.total_nil, Part.nanoseconds, TimeUnit.nanoseconds,
    Nat.mul_one, Nat.add_zero]
  exact hwhole

/-- Parts that are zero add nothing. -/
theorem Part.total_filter (given : List Part) :
    total (given.filter (·.count ≠ 0)) = total given := by
  induction given with
  | nil => rfl
  | cons part rest ih =>
      by_cases hcount : part.count = 0
      · rw [List.filter_cons_of_neg (by simpa using hcount), ih, total_cons, nanoseconds, hcount,
          Nat.zero_mul, Nat.zero_add]
      · rw [List.filter_cons_of_pos (by simpa using hcount), total_cons, ih, total_cons]

/-- A duration is written part by part, without those that are zero. -/
theorem items_eq (duration : Duration) :
    duration.items = (duration.parts.filter (·.count ≠ 0)).map Part.text := by
  have hcons : ∀ (part : Part) (rest : List Part),
      ((part :: rest).filter (·.count ≠ 0)).map Part.text =
        item part.count part.spelling ++ (rest.filter (·.count ≠ 0)).map Part.text := by
    intro part rest
    by_cases hcount : part.count = 0
    · rw [List.filter_cons_of_neg (by simpa using hcount), item, if_pos hcount, List.nil_append]
    · rw [List.filter_cons_of_pos (by simpa using hcount), item, if_neg hcount]
      rfl
  simp only [parts, hcons, List.filter_nil, List.map_nil, List.append_nil, items, pluralItem, pluralPart,
    List.append_assoc]

/-! ## Texts -/

/-- A text with a number and its unit is not a zero alone. -/
theorem intercalate_ne_zero {part : Part} (rest : List Part) (hpart : part.IsSound) :
    [' '].intercalate ((part :: rest).map (·.text.toList)) ≠ ['0'] := by
  intro hzero
  have hunit := hpart.unit
  have hlength : 1 < part.text.toList.length := by
    rw [Part.toList_text, List.length_append]
    have hdigits := List.length_pos_iff.mpr (@Nat.toDigits_ne_nil part.count 10)
    have hspelling : 0 < part.spelling.toList.length := by
      rw [List.length_pos_iff]
      intro hnil
      rw [String.toList_eq_nil_iff.mp hnil] at hunit
      cases hunit
    omega
  have hone := congrArg List.length hzero
  cases rest with
  | nil =>
      rw [List.map_singleton, List.intercalate_singleton, List.length_singleton] at hone
      omega
  | cons next rest =>
      rw [List.map_cons, List.map_cons, List.intercalate_cons_cons, List.length_append,
        List.length_append, List.length_singleton, List.length_singleton] at hone
      omega

/-- Reading parts adds them up. -/
theorem parse_join {part : Part} {rest : List Part} (hsound : ∀ other ∈ part :: rest, other.IsSound)
    (hfits : Part.total (part :: rest) / 1000000000 < wordLimit) :
    parse (Text.join " " ((part :: rest).map Part.text)) = .ok ⟨Part.total (part :: rest)⟩ := by
  rw [← Nat.zero_add (Part.total (part :: rest))] at hfits
  obtain ⟨last, before, hlast, hbefore, hreads⟩ := reads_parts hsound hfits
  obtain ⟨offset, hread⟩ := hreads 0
  rw [← hbefore] at hfits
  have hadded : addUnit before last.count none last.spelling.toList.reverse =
      .ok (Part.total (part :: rest)) := by
    rw [hlast.addUnit_eq hfits, hbefore, Nat.zero_add]
  have htext : (Text.join " " ((part :: rest).map Part.text)).toList =
      [' '].intercalate ((part :: rest).map (·.text.toList)) := by
    rw [Text.join, String.toList_ofList, List.map_map]
    rfl
  have hnotZero : Text.join " " ((part :: rest).map Part.text) ≠ "0" := by
    intro hzero
    rw [hzero] at htext
    exact intercalate_ne_zero rest (hsound part (.head rest)) htext.symm
  rw [parse, if_neg hnotZero, htext, hread]
  exact congrArg (Except.map Duration.mk) hadded

/-- Reading the text of a duration gives the duration, as long as its seconds fit. -/
theorem parse_text {duration : Duration} (hfits : duration.seconds < wordLimit) :
    parse duration.text = .ok duration := by
  have htotal : Part.total (duration.parts.filter (·.count ≠ 0)) = duration.nanoseconds := by
    rw [Part.total_filter, total_parts]
  rw [text, items_eq]
  cases hparts : duration.parts.filter (·.count ≠ 0) with
  | nil =>
      rw [hparts] at htotal
      have hzero : duration = zero := congrArg Duration.mk htotal.symm
      rw [hzero]
      rfl
  | cons part rest =>
      rw [hparts] at htotal
      have hsound : ∀ other ∈ part :: rest, other.IsSound := fun other hother =>
        isSound_of_mem_parts (List.mem_filter.mp (hparts ▸ hother)).1
      refine (parse_join hsound ?_).trans (by rw [htotal])
      rw [htotal]
      exact hfits

end ApiGateway.Duration
