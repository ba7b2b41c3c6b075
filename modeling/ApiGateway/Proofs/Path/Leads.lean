import ApiGateway.Path.Boundary

/-!
# Leads taken off and put back

The longest lead of a path is one of the leads that are asked for, and the path has it up to a segment
boundary.  A lead that a path has up to a boundary is exchanged for another one without a slash at its
end by putting the other one in its place.
-/

namespace ApiGateway.Path

/-! ## The longest lead -/

theorem prefix_of_continues {path lead : List Char} (hcontinues : continues path lead = true) :
    lead <+: path := by
  rcases continues_iff.mp hcontinues with rfl | ⟨rest, rfl⟩
  · exact List.prefix_refl path
  · exact List.prefix_append lead _

/-- The best lead is the longest of those that the path continues, or there is none. -/
def IsBest (path : List Char) (leads : List (List Char)) : Option (List Char) → Prop
  | none => ∀ lead ∈ leads, continues path lead = false
  | some best => best ∈ leads ∧ continues path best = true ∧
      ∀ lead ∈ leads, continues path lead = true → lead.length ≤ best.length

namespace IsBest

variable {path : List Char} {leads : List (List Char)}

theorem concat {best lead : List Char} (hmem : best ∈ leads ++ [lead]) (hbest : continues path best = true)
    (hearlier : ∀ other ∈ leads, continues path other = true → other.length ≤ best.length)
    (hlead : continues path lead = true → lead.length ≤ best.length) :
    IsBest path (leads ++ [lead]) (some best) :=
  ⟨hmem, hbest, List.forall_mem_append.mpr ⟨hearlier, List.forall_mem_singleton.mpr hlead⟩⟩

/-- One more lead is compared with the best one so far. -/
theorem step {best : Option (List Char)} (hbest : IsBest path leads best) (lead : List Char) :
    IsBest path (leads ++ [lead]) (if continues path lead then longer best lead else best) := by
  have hlast : lead ∈ leads ++ [lead] := List.mem_append_right leads (.head [])
  cases hcontinues : continues path lead with
  | false =>
      rw [if_neg Bool.false_ne_true]
      cases best with
      | none => exact List.forall_mem_append.mpr ⟨hbest, List.forall_mem_singleton.mpr hcontinues⟩
      | some known =>
          refine concat (List.mem_append_left [lead] hbest.1) hbest.2.1 hbest.2.2 fun hyes => ?_
          rw [hcontinues] at hyes
          cases hyes
  | true =>
      rw [if_pos rfl]
      cases best with
      | none =>
          refine concat hlast hcontinues (fun other hother hyes => ?_) fun _ => Nat.le_refl _
          rw [hbest other hother] at hyes
          cases hyes
      | some known =>
          obtain ⟨hknown, hyes, hlongest⟩ := hbest
          rw [longer]
          split
          · next hle =>
            refine concat hlast hcontinues (fun other hother hother' => ?_) fun _ => Nat.le_refl _
            exact Nat.le_trans (hlongest other hother hother') hle
          · next hlt =>
            exact concat (List.mem_append_left [lead] hknown) hyes hlongest fun _ => Nat.le_of_not_le hlt

/-- Of two leads of a path, the longer one starts with the other. -/
theorem unique {left right : Option (List Char)} (hleft : IsBest path leads left)
    (hright : IsBest path leads right) : left = right := by
  cases left with
  | none =>
      cases right with
      | none => rfl
      | some right => exact absurd (hright.2.1.symm.trans (hleft right hright.1)) Bool.noConfusion
  | some left =>
      cases right with
      | none => exact absurd (hleft.2.1.symm.trans (hright left hleft.1)) Bool.noConfusion
      | some right =>
          have hle := hright.2.2 left hleft.1 hleft.2.1
          have hge := hleft.2.2 right hright.1 hright.2.1
          have hstarts := List.prefix_of_prefix_length_le (prefix_of_continues hleft.2.1)
            (prefix_of_continues hright.2.1) hle
          rw [hstarts.eq_of_length (Nat.le_antisymm hle hge)]

/-- Only which leads are listed counts, and not where or how often. -/
theorem congr {listed : List (List Char)} (hmem : ∀ lead, lead ∈ listed ↔ lead ∈ leads)
    {best : Option (List Char)} (hbest : IsBest path leads best) : IsBest path listed best := by
  cases best with
  | none => exact fun lead hlead => hbest lead ((hmem lead).mp hlead)
  | some best =>
      obtain ⟨hbest, hcontinues, hlongest⟩ := hbest
      exact ⟨(hmem best).mpr hbest, hcontinues, fun lead hlead => hlongest lead ((hmem lead).mp hlead)⟩

end IsBest

theorem isBest_longest? (leads : List (List Char)) (path : List Char) :
    IsBest path leads (longest? leads path) := by
  -- The leads that have been looked at are generalized over, with the best of them.
  have hfold : ∀ (rest earlier : List (List Char)) (best : Option (List Char)), IsBest path earlier best →
      IsBest path (earlier ++ rest)
        (rest.foldl (fun best lead => if continues path lead then longer best lead else best) best) := by
    intro rest
    induction rest with
    | nil =>
        intro earlier best hbest
        rwa [List.append_nil]
    | cons lead rest ih =>
        intro earlier best hbest
        rw [List.append_cons]
        exact ih _ _ (hbest.step lead)
  exact hfold leads [] none fun lead hlead => by cases hlead

theorem longest?_eq_iff {leads : List (List Char)} {path : List Char} {best : Option (List Char)} :
    longest? leads path = best ↔ IsBest path leads best :=
  ⟨fun heq => heq ▸ isBest_longest? leads path, (isBest_longest? leads path).unique⟩

/-- The longest lead is one of the leads, and the path continues it. -/
theorem longest?_eq_some {leads : List (List Char)} {path lead : List Char}
    (hlongest : longest? leads path = some lead) : lead ∈ leads ∧ continues path lead = true := by
  obtain ⟨hmem, hcontinues, -⟩ := longest?_eq_iff.mp hlongest
  exact ⟨hmem, hcontinues⟩

/-! ## Exchange -/

/-- A text that is empty or starts with a slash, as it is found behind a lead. -/
def IsRest (text : List Char) : Prop :=
  text = [] ∨ text.head? = some '/'

theorem IsRest.slashed_eq {rest : List Char} (hrest : IsRest rest) : slashed rest = rest := by
  cases rest with
  | nil => rfl
  | cons c rest =>
      rcases hrest with hnil | hhead
      · cases hnil
      · rw [slashed, if_pos (Option.some.inj hhead)]

theorem withoutTrailingSlashes_eq_self {path : List Char} (hlast : path.getLast? ≠ some '/') :
    withoutTrailingSlashes path = path := by
  unfold withoutTrailingSlashes Text.trimEnd
  cases hreverse : path.reverse with
  | nil => rw [List.reverse_eq_nil_iff.mp hreverse]; rfl
  | cons c rest =>
      have hpath : path = (c :: rest).reverse := by rw [← hreverse, List.reverse_reverse]
      have hne : (c == '/') = false := by
        rw [beq_eq_false_iff_ne]
        rintro rfl
        exact hlast (by rw [hpath]; simp)
      rw [List.dropWhile_cons_of_neg (by simp [hne]), ← hpath]

/-- The path of a rest under a lead, without the slashes at the end of the lead. -/
def under (lead rest : List Char) : List Char :=
  match withoutTrailingSlashes lead ++ rest with
  | [] => ['/']
  | path => path

theorem under_eq_append {lead rest : List Char} (hne : withoutTrailingSlashes lead ++ rest ≠ []) :
    under lead rest = withoutTrailingSlashes lead ++ rest := by
  unfold under
  split
  · next hnil => exact absurd hnil hne
  · rfl

theorem under_eq_slash {lead rest : List Char} (hnil : withoutTrailingSlashes lead ++ rest = []) :
    under lead rest = ['/'] := by
  unfold under
  rw [hnil]

/-- A lead that ends at a segment boundary gives way to another. -/
theorem exchange?_append_eq_under (source target : List Char) {rest : List Char} (hrest : IsRest rest) :
    exchange? (source ++ rest) source target = some (under target rest) := by
  have hboundary : rest = [] ∨ rest.head? = some '/' ∨ source.getLast? = some '/' :=
    hrest.imp_right Or.inl
  unfold exchange?
  simp only [Text.strip?_append, if_pos hboundary, hrest.slashed_eq]
  cases hwhole : withoutTrailingSlashes target ++ rest with
  | nil => rw [under_eq_slash hwhole]
  | cons c path =>
      have hne : withoutTrailingSlashes target ++ rest ≠ [] := hwhole ▸ List.cons_ne_nil c path
      rw [under_eq_append hne, hwhole]

/-- A lead without a slash at its end is put in the other's place as it is. -/
theorem exchange?_append (source : List Char) {target rest : List Char} (hrest : IsRest rest)
    (hlast : target.getLast? ≠ some '/') (hne : target ++ rest ≠ []) :
    exchange? (source ++ rest) source target = some (target ++ rest) := by
  have hsame := withoutTrailingSlashes_eq_self hlast
  rw [exchange?_append_eq_under source target hrest, under_eq_append (hsame.symm ▸ hne), hsame]

theorem isRest_withoutTrailingSlashes {path : List Char} (hpath : IsRest path) :
    IsRest (withoutTrailingSlashes path) := by
  have hwhole := Text.trimEnd_append_dropped (· == '/') path
  cases htrim : withoutTrailingSlashes path with
  | nil => exact Or.inl rfl
  | cons c rest =>
      rcases hpath with rfl | hhead
      · cases htrim
      · rw [withoutTrailingSlashes] at htrim
        rw [htrim] at hwhole
        rw [← hwhole] at hhead
        exact Or.inr hhead

theorem isRest_slashed (path : List Char) : IsRest (slashed path) := by
  cases path with
  | nil => exact Or.inl rfl
  | cons c rest =>
      rw [slashed]
      split
      · next hslash => exact Or.inr (congrArg some hslash)
      · exact Or.inr rfl

theorem IsRest.append {left right : List Char} (hleft : IsRest left) (hright : IsRest right) :
    IsRest (left ++ right) := by
  cases left with
  | nil => exact hright
  | cons c left => exact Or.inr (hleft.resolve_left (List.cons_ne_nil c left))

theorem mem_withoutTrailingSlashes {path : List Char} {c : Char}
    (hmem : c ∈ withoutTrailingSlashes path) : c ∈ path := by
  rw [← Text.trimEnd_append_dropped (· == '/') path]
  exact List.mem_append_left _ hmem

theorem mem_slashed {path : List Char} {c : Char} (hmem : c ∈ slashed path) : c = '/' ∨ c ∈ path := by
  cases path with
  | nil => cases hmem
  | cons first rest =>
      rw [slashed] at hmem
      split at hmem
      · exact Or.inr hmem
      · exact List.mem_cons.mp hmem

/-- A path under a lead has only characters of the two, and slashes. -/
theorem mem_under {lead rest : List Char} {c : Char} (hmem : c ∈ under lead rest) :
    c = '/' ∨ c ∈ lead ∨ c ∈ rest := by
  by_cases hnil : withoutTrailingSlashes lead ++ rest = []
  · rw [under_eq_slash hnil] at hmem
    exact Or.inl (List.mem_singleton.mp hmem)
  · rw [under_eq_append hnil] at hmem
    exact Or.inr ((List.mem_append.mp hmem).imp_left mem_withoutTrailingSlashes)

theorem head?_under {lead rest : List Char} (hlead : IsRest lead) (hrest : IsRest rest) :
    (under lead rest).head? = some '/' := by
  by_cases hnil : withoutTrailingSlashes lead ++ rest = []
  · rw [under_eq_slash hnil]
    rfl
  · rw [under_eq_append hnil]
    exact ((isRest_withoutTrailingSlashes hlead).append hrest).resolve_left hnil

/-- An exchange puts what follows the source under the target, behind a slash. -/
theorem exists_of_exchange? {path source target moved : List Char}
    (hexchange : exchange? path source target = some moved) :
    ∃ rest, path = source ++ rest ∧ moved = under target (slashed rest) := by
  unfold exchange? at hexchange
  split at hexchange
  · cases hexchange
  · next rest hstrip =>
    refine ⟨rest, Text.strip?_eq_some_iff.mp hstrip, ?_⟩
    split at hexchange
    · split at hexchange
      · next hnil =>
        cases hexchange
        rw [under_eq_slash hnil]
      · next hne =>
        cases hexchange
        rw [under_eq_append hne]
    · cases hexchange

/-- An exchanged path has only characters of the path and of the new lead, and slashes. -/
theorem mem_exchange? {path source target moved : List Char} {c : Char}
    (hexchange : exchange? path source target = some moved) (hmem : c ∈ moved) :
    c = '/' ∨ c ∈ path ∨ c ∈ target := by
  obtain ⟨rest, rfl, rfl⟩ := exists_of_exchange? hexchange
  rcases mem_under hmem with hslash | htarget | hbehind
  · exact Or.inl hslash
  · exact Or.inr (Or.inr htarget)
  · exact (mem_slashed hbehind).imp_right fun hrest => Or.inl (List.mem_append_right source hrest)

/-- What a lead is exchanged for starts with a slash if the other lead does, or is empty. -/
theorem head?_exchange? {path source target moved : List Char} (htarget : IsRest target)
    (hexchange : exchange? path source target = some moved) : moved.head? = some '/' := by
  obtain ⟨rest, -, rfl⟩ := exists_of_exchange? hexchange
  exact head?_under htarget (isRest_slashed rest)

/-! ## A second exchange -/

theorem continues_iff_isRest {path lead : List Char} :
    continues path lead = true ↔ ∃ rest, IsRest rest ∧ path = lead ++ rest := by
  rw [continues_iff]
  constructor
  · rintro (rfl | ⟨rest, rfl⟩)
    · exact ⟨[], Or.inl rfl, (List.append_nil path).symm⟩
    · exact ⟨'/' :: rest, Or.inr rfl, rfl⟩
  · rintro ⟨rest, hnil | hhead, rfl⟩
    · exact Or.inl (by rw [hnil, List.append_nil])
    · cases rest with
      | nil => cases hhead
      | cons c rest =>
          cases Option.some.inj hhead
          exact Or.inr ⟨rest, rfl⟩

/-- A path of two parts has a lead up to a boundary if the front has it, or if the lead goes beyond the
front and the rest has what goes beyond. -/
theorem continues_append_iff {front rest lead : List Char} (hrest : IsRest rest) :
    continues (front ++ rest) lead = true ↔
      continues front lead = true ∨ ∃ below, lead = front ++ below ∧ continues rest below = true := by
  simp only [continues_iff_isRest]
  constructor
  · rintro ⟨after, hafter, hwhole⟩
    rcases List.append_eq_append_iff.mp hwhole with ⟨below, hlead, hbelow⟩ | ⟨middle, hfront, hmiddle⟩
    · exact Or.inr ⟨below, hlead, after, hafter, hbelow⟩
    · refine Or.inl ⟨middle, ?_, hfront⟩
      cases middle with
      | nil => exact Or.inl rfl
      | cons c middle =>
          rw [hmiddle] at hafter
          exact Or.inr (hafter.resolve_left (List.cons_ne_nil c _))
  · rintro (⟨middle, hmiddle, rfl⟩ | ⟨below, rfl, after, hafter, rfl⟩)
    · exact ⟨middle ++ rest, hmiddle.append hrest, List.append_assoc _ _ _⟩
    · exact ⟨after, hafter, (List.append_assoc _ _ _).symm⟩

section

variable {source : List Char} (hsource : source ≠ [] ∧ source.getLast? ≠ some '/')

include hsource

/-- A lead that does not end in a slash is exchanged up to a segment boundary only. -/
theorem exchange?_eq_none_of_continues {path target : List Char}
    (hcontinues : continues path source = false) : exchange? path source target = none := by
  unfold exchange?
  split
  · rfl
  · next rest hstrip =>
    rw [if_neg]
    rintro (hnil | hhead | hlast)
    · have hyes := continues_iff_isRest.mpr ⟨rest, Or.inl hnil, Text.strip?_eq_some_iff.mp hstrip⟩
      rw [hcontinues] at hyes
      cases hyes
    · have hyes := continues_iff_isRest.mpr ⟨rest, Or.inr hhead, Text.strip?_eq_some_iff.mp hstrip⟩
      rw [hcontinues] at hyes
      cases hyes
    · exact hsource.2 hlast

theorem append_ne_slash (rest : List Char) : source ++ rest ≠ ['/'] := by
  intro hslash
  rcases List.append_eq_singleton_iff.mp hslash with ⟨hnil, -⟩ | ⟨hone, -⟩
  · exact hsource.1 hnil
  · exact hsource.2 (by rw [hone]; rfl)

/-- A path under a lead has the source up to a boundary if the lead without slashes at its end has it, or
if the source goes beyond that and the rest has what goes beyond. -/
theorem continues_under_iff (lead : List Char) {rest : List Char} (hrest : IsRest rest) :
    continues (under lead rest) source = true ↔
      continues (withoutTrailingSlashes lead) source = true ∨
        ∃ below, source = withoutTrailingSlashes lead ++ below ∧ continues rest below = true := by
  by_cases hnil : withoutTrailingSlashes lead ++ rest = []
  · -- The path is a slash, and the source is longer.
    have hslash : continues ['/'] source = false := by
      rw [← Bool.not_eq_true, continues_iff_isRest]
      rintro ⟨after, -, hafter⟩
      exact append_ne_slash hsource after hafter.symm
    have hempty : continues [] source = false := by
      rw [← Bool.not_eq_true, continues_iff_isRest]
      rintro ⟨after, -, hafter⟩
      exact hsource.1 (List.append_eq_nil_iff.mp hafter.symm).1
    have hwhole : continues (withoutTrailingSlashes lead ++ rest) source = true ↔ _ :=
      continues_append_iff hrest
    rw [hnil] at hwhole
    rw [← hwhole, under_eq_slash hnil, hslash, hempty]
  · rw [under_eq_append hnil]
    exact continues_append_iff hrest

/-- What is put in the place of the source gives the same path only if it is the source. -/
theorem under_eq_append_iff {target rest : List Char} :
    under target rest = source ++ rest ↔ withoutTrailingSlashes target = source := by
  by_cases hnil : withoutTrailingSlashes target ++ rest = []
  · rw [under_eq_slash hnil]
    constructor
    · exact fun hslash => absurd hslash.symm (append_ne_slash hsource rest)
    · exact fun heq => absurd (heq ▸ (List.append_eq_nil_iff.mp hnil).1) hsource.1
  · rw [under_eq_append hnil]
    exact List.append_left_inj rest

/-- An exchange changes nothing if and only if the path does not have the source up to a boundary, or the
target is the source. -/
theorem exchange?_getD_eq_self_iff {path target : List Char} :
    (exchange? path source target).getD path = path ↔
      withoutTrailingSlashes target = source ∨ continues path source = false := by
  cases hcontinues : continues path source with
  | false =>
      rw [exchange?_eq_none_of_continues hsource hcontinues]
      exact ⟨fun _ => Or.inr rfl, fun _ => rfl⟩
  | true =>
      obtain ⟨rest, hrest, rfl⟩ := continues_iff_isRest.mp hcontinues
      rw [exchange?_append_eq_under source target hrest, Option.getD_some, under_eq_append_iff hsource]
      exact ⟨Or.inl, fun hor => hor.resolve_right Bool.noConfusion⟩

end

end ApiGateway.Path
