import ApiGateway.Auth.Filter
import ApiGateway.Proofs.Auth.Credential

/-!
# What the filter lets through

A request passes with an identity exactly if its authorization value can be read and the first extractor
that claims it establishes that identity.  It passes without one exactly if it has no authorization
value, no extractor takes it on, and neither its path nor its route asks for an identity.
-/

namespace ApiGateway.Auth

namespace Extractor

/-- The first extractor that claims the request establishes this identity. -/
def Establishes (extractors : List Extractor) (headers : Http.Headers)
    (authentication : Authentication) : Prop :=
  ∃ earlier extractor later, extractors = earlier ++ extractor :: later ∧
    (∀ other ∈ earlier, other.claims headers = false) ∧ extractor.claims headers = true ∧
      extractor.extract headers = .established authentication

theorem extractFirst_eq_established_iff {extractors : List Extractor} {headers : Http.Headers}
    {authentication : Authentication} :
    extractFirst extractors headers = .established authentication ↔
      Establishes extractors headers authentication := by
  have hfound : ∀ extractor, extractors.find? (·.claims headers) = some extractor →
      (extractFirst extractors headers = .established authentication ↔
        extractor.extract headers = .established authentication) := by
    intro extractor hfind
    rw [extractFirst, hfind]
    cases hextract : extractor.extract headers with
    | established other => simp [hextract]
    | refused problem => simp [hextract]
    | broken reason => simp [hextract]
    | stalled => simp [hextract]
  constructor
  · intro hestablished
    cases hfind : extractors.find? (·.claims headers) with
    | none =>
        rw [extractFirst, hfind] at hestablished
        cases hestablished
    | some extractor =>
        rw [hfound extractor hfind] at hestablished
        obtain ⟨hclaims, earlier, later, hsplit, hearlier⟩ :=
          List.find?_eq_some_iff_append.mp hfind
        exact ⟨earlier, extractor, later, hsplit, by simpa using hearlier, hclaims, hestablished⟩
  · rintro ⟨earlier, extractor, later, hsplit, hearlier, hclaims, hextract⟩
    refine (hfound extractor ?_).mpr hextract
    exact List.find?_eq_some_iff_append.mpr ⟨hclaims, earlier, later, hsplit, by simpa using hearlier⟩

end Extractor

namespace Filter

variable {filter : Filter} {headers : Http.Headers} {path : String} {required : Bool}

/-- The answer to a malformed authorization value does not depend on anything else. -/
theorem authenticate_of_malformed {value : String}
    (hvalue : headers.lookup "authorization" = some value) (hmalformed : Credential.IsMalformed value) :
    filter.authenticate headers path required = .error .schemeNotFound := by
  have herror : Credential.ofHeaders headers = .error .schemeNotFound :=
    Credential.ofHeaders_eq_error_iff.mpr ⟨rfl, value, hvalue, hmalformed⟩
  rw [authenticate, herror]
  rfl

/-- The filter passes on the identity that was established, and lets a request without one pass only
if nobody takes it on. -/
theorem authenticate_of_readable {credential : Credential}
    (hread : Credential.ofHeaders headers = .ok credential) :
    filter.authenticate headers path required =
      match filter.attempt headers with
      | .ok authentication => .ok (some authentication)
      | .error .unsupportedSource =>
          if credential.scheme ≠ "" then .error (.unsupportedScheme credential.scheme)
          else if !required ∧ filter.isPublic path then .ok none
          else .error .unsupportedSource
      | .error problem => .error problem := by
  rw [authenticate, hread]
  cases filter.attempt headers with
  | ok authentication => rfl
  | error problem => cases problem <;> rfl

theorem attempt_eq_ok_iff {authentication : Authentication} :
    filter.attempt headers = .ok authentication ↔
      Extractor.Establishes filter.extractors headers authentication := by
  rw [← Extractor.extractFirst_eq_established_iff, attempt]
  cases Extractor.extractFirst filter.extractors headers with
  | established other => simp
  | refused problem => simp
  | broken reason => simp
  | stalled => simp

theorem authenticate_eq_ok_some_iff {authentication : Authentication} :
    filter.authenticate headers path required = .ok (some authentication) ↔
      (∃ credential, Credential.ofHeaders headers = .ok credential) ∧
        Extractor.Establishes filter.extractors headers authentication := by
  rw [← attempt_eq_ok_iff]
  cases hread : Credential.ofHeaders headers with
  | error problem =>
      rw [authenticate, hread]
      simp [bind, Except.bind]
  | ok credential =>
      rw [authenticate_of_readable hread]
      cases filter.attempt headers with
      | ok other => simp
      | error problem =>
          cases problem with
          | unsupportedSource =>
              simp only [Except.ok.injEq, exists_eq', true_and, reduceCtorEq, iff_false]
              split
              · simp
              · split <;> simp
          | schemeNotFound => simp
          | unsupportedScheme scheme => simp
          | invalidCredentials reason => simp
          | extraction reason => simp

theorem authenticate_eq_ok_none_iff :
    filter.authenticate headers path required = .ok none ↔
      headers.lookup "authorization" = none ∧ filter.attempt headers = .error .unsupportedSource ∧
        required = false ∧ filter.isPublic path = true := by
  cases hread : Credential.ofHeaders headers with
  | error problem =>
      obtain ⟨-, value, hvalue, -⟩ := Credential.ofHeaders_eq_error_iff.mp hread
      rw [authenticate, hread, hvalue]
      simp [bind, Except.bind]
  | ok credential =>
      rw [authenticate_of_readable hread, ← Credential.ofHeaders_scheme hread]
      cases filter.attempt headers with
      | ok other => simp
      | error problem =>
          cases problem with
          | unsupportedSource =>
              by_cases hscheme : credential.scheme = ""
              · by_cases hpublic : required = false ∧ filter.isPublic path = true
                · simp [hscheme, hpublic]
                · simp [hscheme, hpublic]
              · simp [hscheme]
          | schemeNotFound => simp
          | unsupportedScheme scheme => simp
          | invalidCredentials reason => simp
          | extraction reason => simp

end Filter

end ApiGateway.Auth
