import ApiGateway.Proofs.Url.Escaping

/-!
# Written authorities

The authority of a special scheme is written with no blank and with nothing that ends an authority: its user is
escaped, and its host is an address or a domain without forbidden characters.
-/

namespace ApiGateway

namespace Text

theorem mem_intercalate {separator : List Char} {pieces : List (List Char)} {c : Char}
    (hmem : c ∈ separator.intercalate pieces) : c ∈ separator ∨ ∃ piece ∈ pieces, c ∈ piece := by
  induction pieces with
  | nil => cases hmem
  | cons piece rest ih =>
      cases rest with
      | nil => exact Or.inr ⟨piece, .head [], by simpa using hmem⟩
      | cons next rest =>
          have hjoin : separator.intercalate (piece :: next :: rest) =
              piece ++ separator ++ separator.intercalate (next :: rest) := by
            simp
          rw [hjoin, List.mem_append, List.mem_append] at hmem
          rcases hmem with (hpiece | hseparator) | hrest
          · exact Or.inr ⟨piece, .head _, hpiece⟩
          · exact Or.inl hseparator
          · rcases ih hrest with hseparator | ⟨other, hother, hmem⟩
            · exact Or.inl hseparator
            · exact Or.inr ⟨other, .tail piece hother, hmem⟩

theorem mem_join {separator : String} {pieces : List String} {c : Char}
    (hmem : c ∈ (join separator pieces).toList) :
    c ∈ separator.toList ∨ ∃ piece ∈ pieces, c ∈ piece.toList := by
  rw [join, String.toList_ofList] at hmem
  rcases mem_intercalate hmem with hseparator | ⟨piece, hpiece, hmem⟩
  · exact Or.inl hseparator
  · obtain ⟨text, htext, rfl⟩ := List.mem_map.mp hpiece
    exact Or.inr ⟨text, htext, hmem⟩

end Text

namespace Url

/-! ## Hosts -/

/-- No blank and nothing that ends an authority. -/
def IsInner (c : Char) : Prop :=
  32 < c.toNat ∧ endsAuthority true c = false

instance (c : Char) : Decidable (IsInner c) :=
  inferInstanceAs (Decidable (_ ∧ _))

theorem isInner_of_mem_toDigits {base n : Nat} (hbase : 1 < base ∧ base ≤ 16) {c : Char}
    (hmem : c ∈ Nat.toDigits base n) : IsInner c := by
  have hdigit : ∀ digit : Fin 16, IsInner (Nat.digitChar digit) := by decide
  induction n using Nat.strongRecOn with
  | ind n ih =>
      by_cases hsmall : n < base
      · rw [Nat.toDigits_of_lt_base hsmall, List.mem_singleton] at hmem
        exact hmem ▸ hdigit ⟨n, by omega⟩
      · rw [Nat.toDigits_of_base_le hbase.1 (Nat.le_of_not_lt hsmall), List.mem_append,
          List.mem_singleton] at hmem
        rcases hmem with hfront | rfl
        · exact ih (n / base) (Nat.div_lt_self (by omega) hbase.1) hfront
        · have hrest := Nat.mod_lt n (Nat.zero_lt_of_lt hbase.1)
          exact hdigit ⟨n % base, by omega⟩

theorem isInner_of_mem_toString {n : Nat} {c : Char} (hmem : c ∈ (toString n).toList) : IsInner c := by
  have hdigits : toString n = .ofList (Nat.toDigits 10 n) := rfl
  rw [hdigits, String.toList_ofList] at hmem
  exact isInner_of_mem_toDigits (by decide) hmem

theorem isInner_of_mem_v4Text {address : Nat} {c : Char} (hmem : c ∈ (Net.v4Text address).toList) :
    IsInner c := by
  have hdot : ∀ c ∈ ".".toList, IsInner c := Text.forall_mem_of_all (by decide)
  rcases Text.mem_join hmem with hmem | ⟨piece, hpiece, hmem⟩
  · exact hdot c hmem
  · obtain ⟨number, -, rfl⟩ := List.mem_map.mp hpiece
    exact isInner_of_mem_toString hmem

theorem isInner_of_mem_join_hexText {pieces : List Nat} {c : Char}
    (hmem : c ∈ (Text.join ":" (pieces.map Net.hexText)).toList) : IsInner c := by
  have hcolon : ∀ c ∈ ":".toList, IsInner c := Text.forall_mem_of_all (by decide)
  rcases Text.mem_join hmem with hmem | ⟨piece, hpiece, hmem⟩
  · exact hcolon c hmem
  · obtain ⟨number, -, rfl⟩ := List.mem_map.mp hpiece
    rw [Net.hexText, String.toList_ofList] at hmem
    exact isInner_of_mem_toDigits (by decide) hmem

theorem isInner_of_mem_v6Text {pieces : List Nat} {c : Char} (hmem : c ∈ (Net.v6Text pieces).toList) :
    IsInner c := by
  have hcolons : ∀ c ∈ "::".toList, IsInner c := Text.forall_mem_of_all (by decide)
  rw [Net.v6Text] at hmem
  generalize Net.longestZeroRun 0 pieces = run at hmem
  obtain ⟨start, length⟩ := run
  simp only at hmem
  split at hmem
  · exact isInner_of_mem_join_hexText hmem
  · rw [String.toList_append, String.toList_append, List.mem_append, List.mem_append] at hmem
    rcases hmem with (hfront | hmiddle) | hback
    · exact isInner_of_mem_join_hexText hfront
    · exact hcolons c hmiddle
    · exact isInner_of_mem_join_hexText hback

theorem isInner_of_not_isForbidden {c : Char} (hallowed : Host.isForbidden c = false) : IsInner c := by
  simp only [Host.isForbidden, Bool.or_eq_false_iff, decide_eq_false_iff_not, Nat.not_le] at hallowed
  obtain ⟨⟨hblank, -⟩, hmarks⟩ := hallowed
  refine ⟨hblank, Bool.eq_false_iff.mpr fun hends => ?_⟩
  have hall : ∀ c ∈ ['/', '\\', '?', '#'], "%#/:<>?@[\\]^|".toList.contains c = true :=
    Text.forall_mem_of_all (by decide)
  have hmem : c ∈ ['/', '\\', '?', '#'] := by
    simpa [endsAuthority, isSlash, or_assoc] using hends
  rw [hall c hmem] at hmarks
  cases hmarks

theorem asciiDomain?_eq_some {name domain : List Char} (hdomain : Host.asciiDomain? name = some domain) :
    ∀ c ∈ domain, Host.isForbidden c = false := by
  unfold Host.asciiDomain? at hdomain
  rw [Option.bind_eq_bind, Option.bind_eq_some_iff] at hdomain
  obtain ⟨labels, -, hdomain⟩ := hdomain
  simp only at hdomain
  split at hdomain
  · cases hdomain
  · next hallowed =>
    cases hdomain
    simpa using hallowed

/-- What is read as a host is an address or a domain without forbidden characters. -/
theorem parse_host_cases {text : List Char} {host : Host} (hparse : Host.parse text = .ok host) :
    (∃ pieces, host = .v6 pieces) ∨ (∃ address, host = .v4 address) ∨
      ∃ name, host = .domain name ∧ name ≠ [] ∧ ∀ c ∈ name, Host.isForbidden c = false := by
  unfold Host.parse at hparse
  split at hparse
  · next inner _ =>
    cases inner with
    | error problem => cases hparse
    | ok inner =>
        unfold Host.ofBracketed at hparse
        simp only [bind, Except.bind] at hparse
        split at hparse
        · next pieces _ =>
          cases hparse
          exact Or.inl ⟨pieces, rfl⟩
        · cases hparse
  · split at hparse
    · cases hparse
    · cases hparse
    · next name hne hname =>
      split at hparse
      · split at hparse
        · next address _ =>
          cases hparse
          exact Or.inr (Or.inl ⟨address, rfl⟩)
        · cases hparse
      · cases hparse
        obtain ⟨decoded, -, hdomain⟩ := Option.bind_eq_some_iff.mp hname
        refine Or.inr (Or.inr ⟨name, rfl, ?_, asciiDomain?_eq_some hdomain⟩)
        rintro rfl
        exact hne rfl

/-- A host that has been read is written with inner characters, and with at least one. -/
theorem host_text {text : List Char} {host : Host} (hparse : Host.parse text = .ok host) :
    host.text.toList ≠ [] ∧ ∀ c ∈ host.text.toList, IsInner c := by
  rcases parse_host_cases hparse with ⟨pieces, rfl⟩ | ⟨address, rfl⟩ | ⟨name, rfl, hne, hname⟩
  · have hbrackets : ∀ c ∈ ['[', ']'], IsInner c := Text.forall_mem_of_all (by decide)
    have htext : (Host.v6 pieces).text.toList = '[' :: (Net.v6Text pieces).toList ++ [']'] := by
      simp [Host.text]
    rw [htext]
    refine ⟨List.cons_ne_nil _ _, fun c hmem => ?_⟩
    rw [List.mem_append, List.mem_cons] at hmem
    rcases hmem with (rfl | hmem) | hmem
    · decide
    · exact isInner_of_mem_v6Text hmem
    · exact hbrackets c (.tail _ hmem)
  · refine ⟨fun hnil => ?_, fun c => isInner_of_mem_v4Text⟩
    simp [Host.text, Net.v4Text, Text.join] at hnil
  · rw [Host.text, String.toList_ofList]
    exact ⟨hne, fun c hmem => isInner_of_not_isForbidden (hname c hmem)⟩

/-! ## Authorities -/

theorem isInner_of_isKept {c : Char} (hkept : IsKept keptInUser c) : IsInner c :=
  Text.of_ascii (P := fun c => IsKept keptInUser c → IsInner c) (by decide) hkept.1 hkept

/-- An authority of a special scheme has a host, and its user is escaped. -/
theorem parseAuthority_eq_ok {scheme text : List Char} {authority : Authority}
    (hspecial : isSpecial scheme = true) (hparse : parseAuthority scheme text = .ok authority) :
    ∃ user password hostText host port, Host.parse hostText = .ok host ∧
      authority = ⟨escapeWith keptInUser user, escapeWith keptInUser password, some host, port⟩ := by
  unfold parseAuthority at hparse
  simp only [hspecial, true_and, if_true] at hparse
  generalize (splitUser text).fst = user at hparse
  generalize (splitUser text).snd = rest at hparse
  generalize hhost : (splitHost false rest).fst = hostText at hparse
  generalize (splitHost false rest).snd = behind at hparse
  generalize (Text.cut? ':' (user.getD [])).getD (user.getD [], []) = names at hparse
  by_cases hempty : user = some [] ∧ rest = []
  · rw [if_pos hempty] at hparse
    cases hparse
  by_cases hmissing : hostText = []
  · rw [if_neg hempty, if_pos hmissing] at hparse
    cases hparse
  simp only [if_neg hempty, hmissing, false_and, if_false] at hparse
  cases hparsed : Host.parse hostText with
  | error problem =>
      rw [hparsed] at hparse
      cases hparse
  | ok host =>
      rw [hparsed] at hparse
      cases hport : parsePort scheme (behind.drop 1) with
      | error problem =>
          rw [hport] at hparse
          cases hparse
      | ok port =>
          rw [hport] at hparse
          cases hparse
          exact ⟨_, _, hostText, host, port, hparsed, rfl⟩

theorem isInner_of_mem_port {port : Option Nat} {c : Char}
    (hmem : c ∈ (port.map fun port => ':' :: (toString port).toList).getD []) : IsInner c := by
  cases port with
  | none => cases hmem
  | some port =>
      rcases List.mem_cons.mp hmem with rfl | hmem
      · decide
      · exact isInner_of_mem_toString hmem

/-- The authority of a special scheme is written with inner characters, and with at least one. -/
theorem authority_text {scheme text : List Char} {authority : Authority}
    (hspecial : isSpecial scheme = true) (hparse : parseAuthority scheme text = .ok authority) :
    authority.text ≠ [] ∧ ∀ c ∈ authority.text, IsInner c := by
  obtain ⟨user, password, hostText, host, port, hhost, rfl⟩ := parseAuthority_eq_ok hspecial hparse
  obtain ⟨hne, hinner⟩ := host_text hhost
  have huser : ∀ text, ∀ c ∈ escapeWith keptInUser text, IsInner c := fun text c hmem =>
    isInner_of_isKept (keepsEscapes_keptInUser.isKept_of_mem hmem)
  have hpassword : ∀ c ∈ (if escapeWith keptInUser password = [] then []
      else ':' :: escapeWith keptInUser password), IsInner c := by
    intro c hmem
    split at hmem
    · cases hmem
    · rcases List.mem_cons.mp hmem with rfl | hmem
      · decide
      · exact huser password c hmem
  constructor
  · simp [Authority.text, hne]
  · intro c hmem
    simp only [Authority.text] at hmem
    generalize (if escapeWith keptInUser password = [] then [] else ':' :: escapeWith keptInUser password) =
      secret at hpassword hmem
    rw [List.mem_append, List.mem_append] at hmem
    rcases hmem with (hmem | hmem) | hmem
    · split at hmem
      · cases hmem
      · rcases List.mem_append.mp hmem with hmem | hmem
        · rcases List.mem_append.mp hmem with hmem | hmem
          · exact huser user c hmem
          · exact hpassword c hmem
        · rw [List.mem_singleton] at hmem
          subst hmem
          decide
    · exact hinner c hmem
    · exact isInner_of_mem_port hmem

end Url

end ApiGateway
