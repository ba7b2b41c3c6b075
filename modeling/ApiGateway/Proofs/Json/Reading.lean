import ApiGateway.Json.Read

/-!
# What reading JSON yields

A property of values is one of all values that are read if it holds of the single tokens and passes from
parts to wholes.  So every natural number that is read, at whatever depth, has 64 bits.
-/

namespace ApiGateway.Json

/-- A property that passes from parts to wholes. -/
structure Composes (Holds : Json → Prop) : Prop where
  null : Holds .null
  array : ∀ {items}, (∀ item ∈ items, Holds item) → Holds (.array items)
  object : ∀ {members}, (∀ member ∈ members, Holds member.2) → Holds (.object members)

section Invariant

variable {Holds : Json → Prop}

def Token.All (Holds : Json → Prop) : Token → Prop
  | .value json => Holds json
  | _ => True

def Frame.All (Holds : Json → Prop) : Frame → Prop
  | .array items => ∀ item ∈ items, Holds item
  | .object members => ∀ member ∈ members, Holds member.2
  | .named members _ => ∀ member ∈ members, Holds member.2

structure Progress.All (Holds : Json → Prop) (progress : Progress) : Prop where
  open_ : ∀ frame ∈ progress.open_, frame.All Holds
  result : Holds progress.result

namespace Progress

theorem all_complete (hcomposes : Composes Holds) {frames : List Frame} {value : Json} {after : Progress}
    (hframes : ∀ frame ∈ frames, frame.All Holds) (hvalue : Holds value)
    (hcomplete : complete frames value = some after) : after.All Holds := by
  cases frames with
  | nil =>
      cases hcomplete
      exact ⟨fun _ hnone => absurd hnone List.not_mem_nil, hvalue⟩
  | cons frame outer =>
      obtain ⟨hframe, houter⟩ := List.forall_mem_cons.mp hframes
      cases frame with
      | array items =>
          cases hcomplete
          exact ⟨List.forall_mem_cons.mpr ⟨List.forall_mem_cons.mpr ⟨hvalue, hframe⟩, houter⟩, hcomposes.null⟩
      | object members => cases hcomplete
      | named members name =>
          cases hcomplete
          exact ⟨List.forall_mem_cons.mpr ⟨List.forall_mem_cons.mpr ⟨hvalue, hframe⟩, houter⟩, hcomposes.null⟩

theorem all_push (hcomposes : Composes Holds) {progress after : Progress} (hprogress : progress.All Holds)
    {frame : Frame} (hframe : frame.All Holds) {expect : Expect}
    (hpush : progress.push frame expect = some after) : after.All Holds := by
  rw [push] at hpush
  split at hpush
  · cases hpush
    exact ⟨List.forall_mem_cons.mpr ⟨hframe, hprogress.open_⟩, hcomposes.null⟩
  · cases hpush

theorem all_step (hcomposes : Composes Holds) {progress after : Progress} (hprogress : progress.All Holds)
    {token : Token} (htoken : token.All Holds) (hstep : progress.step token = some after) :
    after.All Holds := by
  unfold step at hstep
  split at hstep
  -- A close hands what has been read to what was open before.
  case h_1 _ hopen | h_2 _ hopen =>
      obtain ⟨hitems, houter⟩ := List.forall_mem_cons.mp (hopen ▸ hprogress.open_)
      exact all_complete hcomposes houter
        (hcomposes.array fun item hitem => hitems item (List.mem_reverse.mp hitem)) hstep
  case h_3 _ hopen | h_4 _ hopen =>
      obtain ⟨hmembers, houter⟩ := List.forall_mem_cons.mp (hopen ▸ hprogress.open_)
      exact all_complete hcomposes houter
        (hcomposes.object fun member hmember => hmembers member (List.mem_reverse.mp hmember)) hstep
  case h_5 | h_6 => exact all_complete hcomposes hprogress.open_ htoken hstep
  case h_7 | h_8 | h_9 | h_10 =>
      refine all_push hcomposes hprogress ?_ hstep
      exact fun _ hnone => absurd hnone List.not_mem_nil
  -- A name, a colon or a comma leaves what has been read as it is.
  case h_11 _ hopen | h_12 _ hopen | h_14 _ hopen | h_15 _ hopen =>
      obtain ⟨hframe, houter⟩ := List.forall_mem_cons.mp (hopen ▸ hprogress.open_)
      cases hstep
      exact ⟨List.forall_mem_cons.mpr ⟨hframe, houter⟩, hcomposes.null⟩
  case h_13 =>
      cases hstep
      exact ⟨hprogress.open_, hcomposes.null⟩
  case h_16 => cases hstep

theorem all_foldlM (hcomposes : Composes Holds) {tokens : List Token}
    (htokens : ∀ token ∈ tokens, token.All Holds) {progress after : Progress} (hprogress : progress.All Holds)
    (hrun : tokens.foldlM step progress = some after) : after.All Holds := by
  induction tokens generalizing progress with
  | nil =>
      cases hrun
      exact hprogress
  | cons token tokens ih =>
      rw [List.foldlM_cons, Option.bind_eq_bind, Option.bind_eq_some_iff] at hrun
      obtain ⟨next, hstep, hrest⟩ := hrun
      obtain ⟨htoken, hlater⟩ := List.forall_mem_cons.mp htokens
      exact ih hlater (all_step hcomposes hprogress htoken hstep) hrest

end Progress

structure HoldsOfTokens (Holds : Json → Prop) : Prop where
  string : ∀ text, Holds (.string text)
  keyword : ∀ {word value}, keyword? word = some value → Holds value
  number : ∀ {text value}, number? text = some value → Holds value

theorem all_mark? {c : Char} {token : Token} (hmark : mark? c = some token) : token.All Holds := by
  unfold mark? at hmark
  split at hmark
  case h_7 => cases hmark
  all_goals
    cases hmark
    exact trivial

theorem all_tokens? (hbase : HoldsOfTokens Holds) {text : List Char} {tokens : List Token}
    (htokens : tokens? text = some tokens) : ∀ token ∈ tokens, token.All Holds := by
  fun_induction tokens? text generalizing tokens with
  | case1 =>
      cases htokens
      exact fun _ hnone => absurd hnone List.not_mem_nil
  | case2 c rest hblank ih => exact ih htokens
  | case3 rest text after hstring hquote ih =>
      obtain ⟨later, hlater, rfl⟩ := Option.map_eq_some_iff.mp htokens
      exact List.forall_mem_cons.mpr ⟨hbase.string text, ih hlater⟩
  | case5 c rest hblank hquote hletter value hkeyword ih =>
      obtain ⟨later, hlater, rfl⟩ := Option.map_eq_some_iff.mp htokens
      exact List.forall_mem_cons.mpr ⟨hbase.keyword hkeyword, ih hlater⟩
  | case7 c rest hblank hquote hletter token hmark ih =>
      obtain ⟨later, hlater, rfl⟩ := Option.map_eq_some_iff.mp htokens
      exact List.forall_mem_cons.mpr ⟨all_mark? hmark, ih hlater⟩
  | case8 c rest hblank hquote hletter hmark value hnumber ih =>
      obtain ⟨later, hlater, rfl⟩ := Option.map_eq_some_iff.mp htokens
      exact List.forall_mem_cons.mpr ⟨hbase.number hnumber, ih hlater⟩
  | case4 | case6 | case9 => cases htokens

/-- A property of the single tokens that passes from parts to wholes is one of all that is read. -/
theorem holds_readRaw? (hbase : HoldsOfTokens Holds) (hcomposes : Composes Holds) {text : List Char}
    {value : Json} (hread : readRaw? text = some value) : Holds value := by
  rw [readRaw?] at hread
  split at hread
  · next hrun =>
    cases hread
    obtain ⟨tokens, htokens, hsteps⟩ := Option.bind_eq_some_iff.mp hrun
    have hstart : (Progress.mk [] .value .null).All Holds :=
      ⟨fun _ hnone => absurd hnone List.not_mem_nil, hcomposes.null⟩
    exact (Progress.all_foldlM hcomposes (all_tokens? hbase htokens) hstart hsteps).result
  · cases hread

end Invariant

/-! ## Numbers of 64 bits -/

/-- Every natural number in the value, at whatever depth, has 64 bits. -/
inductive IsBounded : Json → Prop where
  | null : IsBounded .null
  | bool (value : Bool) : IsBounded (.bool value)
  | natural {value : Nat} (hvalue : value < naturalLimit) : IsBounded (.natural value)
  | negative (magnitude : Nat) : IsBounded (.negative magnitude)
  | fraction (value : Decimal.Binary64) : IsBounded (.fraction value)
  | string (value : String) : IsBounded (.string value)
  | array {items : List Json} (hitems : ∀ item ∈ items, IsBounded item) : IsBounded (.array items)
  | object {members : List (String × Json)} (hmembers : ∀ member ∈ members, IsBounded member.2) :
      IsBounded (.object members)

/-- Digits are taken into the significand only as long as it has 64 bits. -/
theorem significand_integerDigits {scaled after : Scaled} {full afterFull : Bool} {digits : List Char}
    (hscaled : scaled.significand < naturalLimit)
    (hdigits : integerDigits scaled full digits = (after, afterFull)) : after.significand < naturalLimit := by
  fun_induction integerDigits scaled full digits with
  | case1 scaled full =>
      cases hdigits
      exact hscaled
  | case2 scaled full c rest next hfull ih => exact ih hscaled hdigits
  | case3 scaled full c rest next hroom ih =>
      refine ih ?_ hdigits
      exact Nat.lt_of_not_le fun hlarge => hroom (Or.inr hlarge)

theorem isBounded_ofScaled? {negated : Bool} {scaled : Scaled} {value : Json}
    (hscaled : ofScaled? negated scaled = some value) : value.IsBounded := by
  obtain ⟨magnitude, -, rfl⟩ := Option.map_eq_some_iff.mp hscaled
  exact .fraction _

theorem isBounded_unsigned? {negated : Bool} {text : List Char} {value : Json}
    (hvalue : unsigned? negated text = some value) : value.IsBounded := by
  rw [unsigned?] at hvalue
  rcases hdigits : integerDigits ⟨0, 0⟩ false (text.takeWhile isDigit) with ⟨scaled, full⟩
  have hsignificand : scaled.significand < naturalLimit :=
    significand_integerDigits (by decide) hdigits
  simp only [hdigits] at hvalue
  split at hvalue
  · cases hvalue
  split at hvalue
  · split at hvalue
    · cases hvalue
    · split at hvalue
      · exact isBounded_ofScaled? hvalue
      · cases hvalue
  · split at hvalue
    · exact isBounded_ofScaled? hvalue
    · cases hvalue
  · split at hvalue
    · exact isBounded_ofScaled? hvalue
    split at hvalue
    · cases hvalue
      exact .natural hsignificand
    split at hvalue
    · cases hvalue
      exact .negative _
    · exact isBounded_ofScaled? hvalue

theorem isBounded_number? {text : List Char} {value : Json} (hvalue : number? text = some value) :
    value.IsBounded := by
  unfold number? at hvalue
  split at hvalue
  · exact isBounded_unsigned? hvalue
  · exact isBounded_unsigned? hvalue

theorem isBounded_keyword? {word : List Char} {value : Json} (hvalue : keyword? word = some value) :
    value.IsBounded := by
  unfold keyword? at hvalue
  split at hvalue
  · cases hvalue
    exact .null
  · cases hvalue
    exact .bool true
  · cases hvalue
    exact .bool false
  · cases hvalue

theorem isBounded_readRaw? {text : List Char} {value : Json} (hread : readRaw? text = some value) :
    value.IsBounded :=
  holds_readRaw? ⟨.string, isBounded_keyword?, isBounded_number?⟩ ⟨.null, .array, .object⟩ hread

end ApiGateway.Json
