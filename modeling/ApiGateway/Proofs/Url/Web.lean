import ApiGateway.Proofs.Url.Authority
import ApiGateway.Proofs.Url.Location

/-!
# Addresses of the web

What reading leaves of an address of the web is its scheme, an authority without blanks and marks, and a
settled path.  The same text with another path is read with the same authority.
-/

namespace ApiGateway

namespace Text

/-- A character that stays keeps all before it from being dropped. -/
theorem trimEnd_append {drop : Char → Bool} {left : List Char} (right : List Char) {last : Char}
    (hlast : left.getLast? = some last) (hstays : drop last = false) :
    trimEnd drop (left ++ right) = left ++ trimEnd drop right := by
  have hleft : left.reverse.dropWhile drop = left.reverse := by
    cases hreverse : left.reverse with
    | nil => rfl
    | cons c rest =>
        rw [← List.head?_reverse, hreverse] at hlast
        cases hlast
        rw [List.dropWhile_cons_of_neg (by rw [hstays]; exact Bool.false_ne_true)]
  rw [trimEnd, trimEnd, List.reverse_append, List.dropWhile_append, hleft]
  split
  · next hempty =>
    rw [List.isEmpty_iff] at hempty
    rw [hempty, List.reverse_nil, List.reverse_reverse, List.append_nil]
  · rw [List.reverse_append, List.reverse_reverse]

end Text

namespace Url

open ApiGateway.Path (joined)

/-! ## Addresses that have been read -/

def IsWebScheme (scheme : List Char) : Prop :=
  scheme = "http".toList ∨ scheme = "https".toList

theorem IsWebScheme.isSpecial {scheme : List Char} (hweb : IsWebScheme scheme) :
    isSpecial scheme = true ∧ scheme ≠ "file".toList := by
  rcases hweb with rfl | rfl <;> decide

theorem isSettled_of_mem_segmentsOf {rest segment : List Char}
    (hsegment : segment ∈ segmentsOf true rest) : IsSettled segment := by
  rw [segmentsOf_eq, List.mem_reverse] at hsegment
  exact isSettled_of_mem_pushSegments (by simp)
    (fun other => slashless_of_mem_segments_straightened rfl) segment hsegment

theorem exists_settled_locationBehind (text : List Char) :
    ∃ settled, locationBehind true text = .segments settled ∧
      ∀ segment ∈ settled, IsSettled segment := by
  unfold locationBehind
  split
  · exact ⟨[[]], rfl, fun segment hsegment => List.mem_singleton.mp hsegment ▸ isSettled_nil⟩
  · split
    · exact ⟨_, rfl, fun segment => isSettled_of_mem_segmentsOf⟩
    · exact ⟨_, rfl, fun segment => isSettled_of_mem_segmentsOf⟩

/-- What is read as an address of the web has an authority of inner characters and a settled path. -/
theorem web_of_parse {text : String} {base : Url} (hparse : Url.parse text = .ok base)
    (hweb : IsWebScheme base.scheme) :
    ∃ authority settled, base.authority = some authority ∧ base.location = .segments settled ∧
      (authority.text ≠ [] ∧ ∀ c ∈ authority.text, IsInner c) ∧
      ∀ segment ∈ settled, IsSettled segment := by
  unfold Url.parse at hparse
  split at hparse
  · cases hparse
  · next scheme rest _ =>
    simp only [bind, Except.bind] at hparse
    split at hparse
    · cases hparse
    · next found hfound =>
      cases hparse
      obtain ⟨hspecial, hfile⟩ := hweb.isSpecial
      simp only [parseHierarchy, hspecial, if_neg hfile, true_or, if_true, bind, Except.bind] at hfound
      split at hfound
      · cases hfound
      · next authority hauthority =>
        cases hfound
        obtain ⟨settled, hlocation, hsettled⟩ := exists_settled_locationBehind _
        exact ⟨authority, settled, rfl, hlocation, authority_text hspecial hauthority, hsettled⟩

/-! ## Reading what is written -/

def IsTarget (c : Char) : Prop :=
  32 < c.toNat ∧ c ≠ '?' ∧ c ≠ '#'

instance (c : Char) : Decidable (IsTarget c) :=
  inferInstanceAs (Decidable (_ ∧ _))

theorem IsInner.isTarget {c : Char} (hinner : IsInner c) : IsTarget c := by
  obtain ⟨hblank, hends⟩ := hinner
  simp only [endsAuthority, Bool.or_eq_false_iff, beq_eq_false_iff_ne] at hends
  exact ⟨hblank, hends.1.2, hends.2⟩

/-- Nothing is cleaned away from a text without blanks. -/
theorem clean_eq_self {text : List Char} (hblank : ∀ c ∈ text, 32 < c.toNat) : clean text = text := by
  have hstays : ∀ text : List Char, (∀ c ∈ text, 32 < c.toNat) →
      text.dropWhile (·.toNat ≤ 32) = text := by
    intro text hblank
    cases text with
    | nil => rfl
    | cons c rest =>
        have hc := hblank c (.head rest)
        rw [List.dropWhile_cons_of_neg (by simpa using hc)]
  have htrim : Text.trim (·.toNat ≤ 32) text = text := by
    rw [Text.trim, Text.trimEnd, hstays text hblank,
      hstays text.reverse fun c hc => hblank c (List.mem_reverse.mp hc), List.reverse_reverse]
  rw [clean, htrim, List.filter_eq_self]
  intro c hc
  have hmark : ∀ mark ∈ ['\t', '\n', '\r'], c ≠ mark := by
    rintro mark hmark rfl
    have hlow : ∀ mark ∈ ['\t', '\n', '\r'], mark.toNat ≤ 32 := Text.forall_mem_of_all (by decide)
    exact absurd (hblank c hc) (Nat.not_lt_of_le (hlow c hmark))
  simpa [and_assoc] using hmark

theorem splitAt_of_not_mem {mark : Char} {text : List Char} (hmark : mark ∉ text) :
    splitAt mark text = (text, none) := by
  rw [splitAt, Text.cut?_eq_none_iff.mpr hmark]

theorem splitAt_append {mark : Char} {before : List Char} (after : List Char) (hmark : mark ∉ before) :
    splitAt mark (before ++ mark :: after) = (before, some after) := by
  rw [splitAt, Text.cut?_eq_some_iff.mpr ⟨hmark, rfl⟩]

theorem splitScheme?_web {scheme : List Char} (hweb : IsWebScheme scheme) (rest : List Char) :
    splitScheme? (scheme ++ ':' :: rest) = some (scheme, rest) := by
  have hmark : ':' ∉ scheme := by
    rcases hweb with rfl | rfl <;> decide
  rw [splitScheme?, Text.cut?_eq_some_iff.mpr ⟨hmark, rfl⟩]
  rcases hweb with rfl | rfl
  · rfl
  · rfl

/-- An authority ends where a path starts. -/
theorem takeWhile_authority {authority path : List Char} (hauthority : ∀ c ∈ authority, IsInner c)
    (hpath : Path.IsRest path) :
    (authority ++ path).takeWhile (fun c => !endsAuthority true c) = authority ∧
      (authority ++ path).dropWhile (fun c => !endsAuthority true c) = path := by
  have hinner : ∀ c ∈ authority, (!endsAuthority true c) = true := fun c hc => by
    rw [(hauthority c hc).2]
    rfl
  rw [List.takeWhile_append_of_pos hinner, List.dropWhile_append_of_pos hinner]
  rcases hpath with rfl | hhead
  · exact ⟨List.append_nil _, rfl⟩
  · cases path with
    | nil => cases hhead
    | cons c path =>
        cases hhead
        exact ⟨List.append_nil _, rfl⟩

theorem parseHierarchy_web {scheme authority path : List Char} (hweb : IsWebScheme scheme)
    (hauthority : authority ≠ [] ∧ ∀ c ∈ authority, IsInner c) (hpath : Path.IsRest path) :
    parseHierarchy scheme ('/' :: '/' :: (authority ++ path)) =
      (parseAuthority scheme authority).map fun own => (some own, locationBehind true path) := by
  obtain ⟨hspecial, hfile⟩ := hweb.isSpecial
  obtain ⟨htake, hdrop⟩ := takeWhile_authority hauthority.2 hpath
  have hslashes : ('/' :: '/' :: (authority ++ path)).dropWhile (isSlash true) = authority ++ path := by
    cases authority with
    | nil => exact absurd rfl hauthority.1
    | cons c rest =>
        have hends := (hauthority.2 c (.head rest)).2
        simp only [endsAuthority, Bool.or_eq_false_iff] at hends
        rw [List.dropWhile_cons_of_pos (by rfl), List.dropWhile_cons_of_pos (by rfl), List.cons_append,
          List.dropWhile_cons_of_neg (by rw [hends.1.1]; exact Bool.false_ne_true)]
  simp only [parseHierarchy, hspecial, if_neg hfile, true_or, if_true, hslashes, htake, hdrop]
  cases parseAuthority scheme authority <;> rfl

/-! A query stands behind its mark, if there is one. -/

theorem visible_of_mem_suffix {query : Option (List Char)}
    (hquery : ∀ raw ∈ query, ∀ c ∈ raw, 32 < c.toNat ∧ c ≠ '#') :
    ∀ c ∈ (query.map ('?' :: ·)).getD [], 32 < c.toNat ∧ c ≠ '#' := by
  intro c hc
  cases query with
  | none => cases hc
  | some raw =>
      rcases List.mem_cons.mp hc with rfl | hc
      · decide
      · exact hquery raw rfl c hc

theorem splitAt_suffix {body : List Char} (hmark : '?' ∉ body) (query : Option (List Char)) :
    splitAt '?' (body ++ (query.map ('?' :: ·)).getD []) = (body, query) := by
  cases query with
  | none => exact (congrArg _ (List.append_nil body)).trans (splitAt_of_not_mem hmark)
  | some raw => exact splitAt_append raw hmark

theorem clean_web {scheme rest : List Char} (hweb : IsWebScheme scheme)
    (hrest : ∀ c ∈ rest, 32 < c.toNat) : clean (scheme ++ ':' :: rest) = scheme ++ ':' :: rest := by
  have hscheme : ∀ c ∈ scheme, 32 < c.toNat := by
    rcases hweb with rfl | rfl <;> exact Text.forall_mem_of_all (by decide)
  refine clean_eq_self fun c hc => ?_
  rcases List.mem_append.mp hc with hc | hc
  · exact hscheme c hc
  · rcases List.mem_cons.mp hc with rfl | hc
    · decide
    · exact hrest c hc

/-- An address that is written without blanks is read as it is written, but for its authority, which may not be
one, and its path, the segments of which are taken in one by one. -/
theorem parse_web {scheme authority path : List Char} {query : Option (List Char)}
    (hweb : IsWebScheme scheme) (hauthority : authority ≠ [] ∧ ∀ c ∈ authority, IsInner c)
    (hpath : Path.IsRest path ∧ ∀ c ∈ path, IsTarget c)
    (hquery : ∀ raw ∈ query, ∀ c ∈ raw, 32 < c.toNat ∧ c ≠ '#') :
    Url.parse (.ofList (scheme ++ ':' :: ('/' :: '/' :: (authority ++ path) ++
        (query.map ('?' :: ·)).getD []))) =
      (parseAuthority scheme authority).map fun own =>
        { scheme, authority := some own, location := locationBehind true path
          query := query.map (escapeWith keptInSpecialQuery), fragment := none } := by
  have hinner : ∀ c ∈ '/' :: '/' :: (authority ++ path), IsTarget c := by
    intro c hc
    simp only [List.mem_cons, List.mem_append] at hc
    rcases hc with rfl | rfl | hc | hc
    · decide
    · decide
    · exact (hauthority.2 c hc).isTarget
    · exact hpath.2 c hc
  have hhierarchy := parseHierarchy_web hweb hauthority hpath.1
  generalize '/' :: '/' :: (authority ++ path) = body at hinner hhierarchy ⊢
  have hsuffix := visible_of_mem_suffix hquery
  have hvisible : ∀ c ∈ body ++ (query.map ('?' :: ·)).getD [], 32 < c.toNat ∧ c ≠ '#' := by
    intro c hc
    rcases List.mem_append.mp hc with hc | hc
    · exact ⟨(hinner c hc).1, (hinner c hc).2.2⟩
    · exact hsuffix c hc
  have hclean := clean_web hweb fun c hc => (hvisible c hc).1
  have hfragment := splitAt_of_not_mem fun hmem => (hvisible '#' hmem).2 rfl
  have hsplit := splitAt_suffix (fun hmem => (hinner '?' hmem).2.1 rfl) query
  simp only [Url.parse, String.toList_ofList, hclean, splitScheme?_web hweb, hfragment, hsplit, hhierarchy,
    hweb.isSpecial.1, if_true]
  cases parseAuthority scheme authority <;> rfl

theorem isTarget_of_mem_joined {settled : List (List Char)}
    (hsettled : ∀ segment ∈ settled, IsSettled segment) : ∀ c ∈ joined settled, IsTarget c := by
  intro c hmem
  have hkept := isKept_of_mem_joined hsettled c hmem
  exact Text.of_ascii (P := fun c => IsKept keptInPath c → IsTarget c) (by decide) hkept.1 hkept

theorem isRest_joined (source : List (List Char)) : Path.IsRest (joined source) := by
  rcases Path.joined_eq_nil_or_cons source with hnil | ⟨rest, heq⟩
  · exact Or.inl hnil
  · exact Or.inr (by rw [heq]; rfl)

/-- Slashes are only taken off the path, since an authority has none. -/
theorem trimEnd_web (scheme : List Char) {authority : List Char}
    (hauthority : authority ≠ [] ∧ ∀ c ∈ authority, IsInner c) (path : List Char) :
    Text.trimEnd (· == '/') (scheme ++ ':' :: '/' :: '/' :: (authority ++ path)) =
      scheme ++ ':' :: '/' :: '/' :: (authority ++ Text.trimEnd (· == '/') path) := by
  cases hlast : authority.getLast? with
  | none => exact absurd (List.getLast?_eq_none_iff.mp hlast) hauthority.1
  | some last =>
      have hends := (hauthority.2 last (List.mem_of_getLast? hlast)).2
      simp only [endsAuthority, isSlash, Bool.or_eq_false_iff] at hends
      have hfront : (scheme ++ ':' :: '/' :: '/' :: authority).getLast? = some last := by
        rw [List.getLast?_append_of_ne_nil _ (List.cons_ne_nil _ _), List.getLast?_cons_of_ne_nil (by simp),
          List.getLast?_cons_of_ne_nil (by simp), List.getLast?_cons_of_ne_nil hauthority.1, hlast]
      have htrim := @Text.trimEnd_append (· == '/') _ path _ hfront hends.1.1.1
      simpa using htrim

end Url

end ApiGateway
