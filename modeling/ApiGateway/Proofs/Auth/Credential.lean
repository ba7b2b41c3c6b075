import ApiGateway.Auth.Credential

/-!
# Reading credentials

An authorization value is read unless it is malformed, and what is read from it never has the empty
scheme.  So the empty scheme tells of a request without the header.
-/

namespace ApiGateway.Auth.Credential

/-- No blank follows a scheme, or a character is not visible ASCII. -/
def IsMalformed (value : String) : Prop :=
  value.toList.all isVisible = false ∨
    ∀ c ∈ value.toList.dropWhile Text.isBlank, Text.isBlank c = false

instance (value : String) : Decidable (IsMalformed value) :=
  @instDecidableOr _ _ inferInstance (List.decidableBAll _ (value.toList.dropWhile Text.isBlank))

theorem cutBlank?_eq_none_iff {text : List Char} :
    cutBlank? text = none ↔ ∀ c ∈ text, Text.isBlank c = false := by
  induction text with
  | nil => simp [cutBlank?]
  | cons c text ih =>
      rw [cutBlank?, List.forall_mem_cons]
      cases hblank : Text.isBlank c with
      | true => simp
      | false => simp [ih]

/-- The text before the cut is what stands in front of the first blank. -/
theorem cutBlank?_eq_some {text before after : List Char}
    (hcut : cutBlank? text = some (before, after)) :
    ∃ blank, text = before ++ blank :: after ∧ Text.isBlank blank = true := by
  induction text generalizing before with
  | nil => cases hcut
  | cons c text ih =>
      rw [cutBlank?] at hcut
      cases hblank : Text.isBlank c with
      | true =>
          rw [hblank, if_pos rfl] at hcut
          cases hcut
          exact ⟨c, rfl, hblank⟩
      | false =>
          rw [hblank, if_neg Bool.false_ne_true, Option.map_eq_some_iff] at hcut
          obtain ⟨⟨inner, rest⟩, hinner, heq⟩ := hcut
          cases heq
          obtain ⟨blank, rfl, hends⟩ := ih hinner
          exact ⟨blank, rfl, hends⟩

/-- A value that is there gives no empty scheme. -/
theorem scheme_ne_empty {value : String} {credential : Credential}
    (hparse : parse (some value) = .ok credential) : credential.scheme ≠ "" := by
  rw [parse] at hparse
  cases hcut : cutBlank? (value.toList.dropWhile Text.isBlank) with
  | none =>
      simp only [hcut] at hparse
      cases hparse
  | some pieces =>
      obtain ⟨scheme, credentials⟩ := pieces
      simp only [hcut] at hparse
      cases hparse
      obtain ⟨blank, htext, hblank⟩ := cutBlank?_eq_some hcut
      intro hempty
      have hscheme : scheme = [] := by
        have htoList := congrArg String.toList hempty
        simpa [make, Text.lowerAscii] using htoList
      rw [hscheme, List.nil_append] at htext
      -- What is left starts with no blank.
      have hhead : Text.isBlank blank = false := by
        have hnot := List.head?_dropWhile_not Text.isBlank value.toList
        rw [htext] at hnot
        simpa using hnot
      rw [hhead] at hblank
      cases hblank

/-- The credential of a request has no scheme exactly if the request has no authorization value. -/
theorem ofHeaders_scheme {headers : Http.Headers} {credential : Credential}
    (hread : ofHeaders headers = .ok credential) :
    credential.scheme = "" ↔ headers.lookup "authorization" = none := by
  rw [ofHeaders] at hread
  cases hvalue : headers.lookup "authorization" with
  | none =>
      simp only [hvalue] at hread
      cases hread
      simp
  | some value =>
      simp only [hvalue] at hread
      split at hread
      · simp [scheme_ne_empty hread]
      · cases hread

/-- A malformed authorization value, and nothing else, is refused for want of a scheme. -/
theorem ofHeaders_eq_error_iff {headers : Http.Headers} {problem : Problem} :
    ofHeaders headers = .error problem ↔ problem = .schemeNotFound ∧
      ∃ value, headers.lookup "authorization" = some value ∧ IsMalformed value := by
  rw [ofHeaders]
  cases hvalue : headers.lookup "authorization" with
  | none => simp
  | some value =>
      simp only [Option.some.injEq, exists_eq_left']
      cases hvisible : value.toList.all isVisible with
      | false =>
          simp only [IsMalformed, hvisible, Bool.false_eq_true, if_false, Except.error.injEq, true_or,
            and_true]
          exact eq_comm
      | true =>
          simp only [if_true, parse, IsMalformed, hvisible, Bool.true_eq_false, false_or]
          rw [← cutBlank?_eq_none_iff]
          cases hcut : cutBlank? (value.toList.dropWhile Text.isBlank) with
          | none => simp [eq_comm]
          | some pieces => simp

end ApiGateway.Auth.Credential
