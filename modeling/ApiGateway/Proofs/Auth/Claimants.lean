import ApiGateway.Proofs.Auth.Filter

/-!
# Claimed requests

A request that an extractor claims passes with the identity that the first such extractor establishes, or
it does not pass.  There is one gap: a claimant that tells of its own request that nobody claims it is
taken at its word, and the request may pass without an identity.  Neither the header extractor nor a
composite of extractors opens this gap by itself.
-/

namespace ApiGateway.Auth

namespace Extractor

variable {headers : Http.Headers}

inductive FirstClaims (headers : Http.Headers) : List Extractor → Extractor → Prop where
  | here {extractor : Extractor} {later : List Extractor} (hclaims : extractor.claims headers = true) :
      FirstClaims headers (extractor :: later) extractor
  | there {other extractor : Extractor} {later : List Extractor} (hpasses : other.claims headers = false)
      (hlater : FirstClaims headers later extractor) : FirstClaims headers (other :: later) extractor

theorem exists_firstClaims {extractors : List Extractor}
    (hclaimed : ∃ extractor ∈ extractors, extractor.claims headers = true) :
    ∃ extractor, FirstClaims headers extractors extractor := by
  induction extractors with
  | nil =>
      obtain ⟨extractor, hmem, -⟩ := hclaimed
      cases hmem
  | cons other later ih =>
      cases hother : other.claims headers with
      | true => exact ⟨other, .here hother⟩
      | false =>
          obtain ⟨extractor, hmem, hclaims⟩ := hclaimed
          rcases List.mem_cons.mp hmem with rfl | hlater
          · rw [hother] at hclaims
            cases hclaims
          · obtain ⟨first, hfirst⟩ := ih ⟨extractor, hlater, hclaims⟩
            exact ⟨first, .there hother hfirst⟩

namespace FirstClaims

variable {extractors : List Extractor} {extractor : Extractor}

theorem mem (hfirst : FirstClaims headers extractors extractor) : extractor ∈ extractors := by
  induction hfirst with
  | here hclaims => exact .head _
  | there hpasses hlater ih => exact .tail _ ih

theorem claims (hfirst : FirstClaims headers extractors extractor) :
    extractor.claims headers = true := by
  induction hfirst with
  | here hclaims => exact hclaims
  | there hpasses hlater ih => exact ih

theorem find? (hfirst : FirstClaims headers extractors extractor) :
    extractors.find? (·.claims headers) = some extractor := by
  induction hfirst with
  | here hclaims => exact List.find?_cons_of_pos hclaims
  | there hpasses hlater ih =>
      rw [← ih]
      exact List.find?_cons_of_neg (by simp [hpasses])

/-- Of the claimant's own result, only a failure of another kind is told in other words. -/
theorem extractFirst (hfirst : FirstClaims headers extractors extractor) :
    extractFirst extractors headers =
      match extractor.extract headers with
      | .broken reason => .refused (.extraction reason)
      | attempt => attempt := by
  rewrite [Extractor.extractFirst, hfirst.find?]
  rfl

end FirstClaims

/-- Of a request without an authorization value that it claims, the extractor never tells that nobody
claims it. -/
def IsSteadfast (extractor : Extractor) : Prop :=
  ∀ headers : Http.Headers, headers.lookup "authorization" = none → extractor.claims headers = true →
    extractor.extract headers ≠ .refused .unsupportedSource

/-- Whatever is done with the credentials of its schemes, the header extractor claims no request without
an authorization value. -/
theorem isSteadfast_header (schemes : Schemes) : (header schemes).IsSteadfast := by
  intro headers habsent hclaims
  have hcredential : Credential.ofHeaders headers = .ok {} := by
    rw [Credential.ofHeaders, habsent]
  simp only [header, hcredential] at hclaims
  cases hclaims

/-- A composite of steadfast extractors is steadfast, however deep they are nested. -/
theorem isSteadfast_composite {parts : List Extractor} (hparts : ∀ part ∈ parts, part.IsSteadfast) :
    (composite parts).IsSteadfast := by
  intro headers habsent hclaims
  obtain ⟨first, hfirst⟩ := exists_firstClaims (List.any_eq_true.mp hclaims)
  have hnot := hparts first hfirst.mem headers habsent hfirst.claims
  have hextract : (composite parts).extract headers = Extractor.extractFirst parts headers := rfl
  rw [hextract, hfirst.extractFirst]
  intro hrefused
  cases hresult : first.extract headers with
  | established authentication => simp [hresult] at hrefused
  | refused problem =>
      simp only [hresult] at hrefused hnot
      exact hnot hrefused
  | broken reason => simp [hresult] at hrefused
  | stalled => simp [hresult] at hrefused

end Extractor

namespace Filter

open Extractor (FirstClaims)

variable {filter : Filter} {headers : Http.Headers} {path : String} {required : Bool}

/-- The filter takes a request as one that nobody claims exactly if the claimant says so. -/
theorem attempt_eq_unsupportedSource_iff {extractor : Extractor}
    (hfirst : FirstClaims headers filter.extractors extractor) :
    filter.attempt headers = .error .unsupportedSource ↔
      extractor.extract headers = .refused .unsupportedSource := by
  rw [attempt, hfirst.extractFirst]
  cases extractor.extract headers with
  | established authentication => simp
  | refused problem => simp
  | broken reason => simp
  | stalled => simp

/-- The identity of a claimed request is the one that the first claimant establishes.  A claimed request
passes without one only if the first claimant tells that nobody claims it, and then under the conditions
for a request that is not claimed at all; in every other case it does not pass. -/
theorem authenticate_of_claimed (filter : Filter) (headers : Http.Headers) (path : String)
    (required : Bool) (hclaimed : ∃ extractor ∈ filter.extractors, extractor.claims headers = true) :
    ∃ extractor, FirstClaims headers filter.extractors extractor ∧
      (∀ authentication, filter.authenticate headers path required = .ok (some authentication) →
        extractor.extract headers = .established authentication) ∧
      (filter.authenticate headers path required = .ok none ↔
        extractor.extract headers = .refused .unsupportedSource ∧
          headers.lookup "authorization" = none ∧ required = false ∧ filter.isPublic path = true) := by
  obtain ⟨extractor, hfirst⟩ := Extractor.exists_firstClaims hclaimed
  refine ⟨extractor, hfirst, ?_, ?_⟩
  · intro authentication hauthenticate
    obtain ⟨-, hestablishes⟩ := authenticate_eq_ok_some_iff.mp hauthenticate
    rw [← Extractor.extractFirst_eq_established_iff, hfirst.extractFirst] at hestablishes
    cases hresult : extractor.extract headers with
    | established other =>
        rw [hresult] at hestablishes
        exact hestablishes
    | refused problem => simp [hresult] at hestablishes
    | broken reason => simp [hresult] at hestablishes
    | stalled => simp [hresult] at hestablishes
  · rw [authenticate_eq_ok_none_iff, attempt_eq_unsupportedSource_iff hfirst, and_left_comm]

/-- A claimed request never passes without an identity if every extractor is steadfast. -/
theorem authenticate_ne_ok_none {filter : Filter}
    (hsteadfast : ∀ extractor ∈ filter.extractors, extractor.IsSteadfast)
    (hclaimed : ∃ extractor ∈ filter.extractors, extractor.claims headers = true) :
    filter.authenticate headers path required ≠ .ok none := by
  intro hanonymous
  obtain ⟨hheader, hattempt, -⟩ := authenticate_eq_ok_none_iff.mp hanonymous
  obtain ⟨extractor, hfirst⟩ := Extractor.exists_firstClaims hclaimed
  rw [attempt_eq_unsupportedSource_iff hfirst] at hattempt
  exact hsteadfast extractor hfirst.mem headers hheader hfirst.claims hattempt

/-- Goes by a key in the headers; a key that is not known is nobody's. -/
def keyExtractor : Extractor where
  claims headers := (headers.lookup "x-api-key").isSome
  extract headers :=
    if headers.lookup "x-api-key" = some "clara" then .established ⟨"clara", ["user"]⟩
    else .refused .unsupportedSource

/-- All paths are public. -/
def keyFilter : Filter :=
  ⟨[Extractor.header {}, keyExtractor], ⟨["/**"], [[.below]]⟩, .ofSeconds 1⟩

/-- A known key passes with its identity and not without one, although the path is public. -/
theorem authenticate_of_claimed_key :
    keyFilter.authenticate [("x-api-key", "clara")] "/catalog" false ≠ .ok none := by
  have hclaimed : ∃ extractor ∈ keyFilter.extractors,
      extractor.claims [("x-api-key", "clara")] = true :=
    ⟨keyExtractor, by simp [keyFilter], rfl⟩
  obtain ⟨extractor, hfirst, -, hnone⟩ :=
    authenticate_of_claimed keyFilter [("x-api-key", "clara")] "/catalog" false hclaimed
  rw [Ne, hnone]
  rintro ⟨hrefused, -⟩
  cases hfirst with
  | here hclaims => cases hclaims
  | there hpasses hlater =>
      cases hlater with
      | here hclaims => cases hrefused
      | there hpasses hlater => cases hlater

/-- A claimed request may pass without an identity: the claimant refuses it as nobody's, and the path is
public. -/
theorem not_authenticated_of_claimed : ¬ ∀ (filter : Filter) (headers : Http.Headers) (path : String)
    (required : Bool), (∃ extractor ∈ filter.extractors, extractor.claims headers = true) →
    filter.authenticate headers path required ≠ .ok none := by
  intro hnever
  refine hnever keyFilter [("x-api-key", "stranger")] "/catalog" false
    ⟨keyExtractor, by simp [keyFilter], rfl⟩ ?_
  rw [authenticate_eq_ok_none_iff]
  exact ⟨rfl, rfl, rfl, by decide⟩

end Filter

end ApiGateway.Auth
