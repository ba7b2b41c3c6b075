import ApiGateway.Settings.Validation

/-!
# Settings that are accepted

What is known of settings in which validation finds no problem, section by section.
-/

namespace ApiGateway.Settings

theorem startsWithSlash_iff {text : String} :
    startsWithSlash text = true ↔ text.toList.head? = some '/' := by
  rw [startsWithSlash, beq_iff_eq]

theorem endsWithSlash_iff {text : String} :
    endsWithSlash text = true ↔ text.toList.getLast? = some '/' := by
  rw [endsWithSlash, beq_iff_eq]

/-- Nothing is found if none of the conditions holds. -/
theorem found_eq_nil_iff {problems : List (Bool × Problem)} :
    found problems = [] ↔ ∀ entry ∈ problems, entry.1 = false := by
  simp only [found, List.map_eq_nil_iff, List.filter_eq_nil_iff, Bool.not_eq_true]

theorem exists_parse_of_patternProblems {problem : Path.Pattern.Problem → Problem}
    {patterns : List String} (hnone : patternProblems problem patterns = []) :
    ∃ parsed, Path.Patterns.parse patterns = .ok parsed := by
  unfold patternProblems at hnone
  split at hnone
  · next parsed hparse => exact ⟨parsed, hparse⟩
  · cases hnone

/-- The settings that hold where nothing is given are accepted. -/
theorem validate_default : Settings.validate {} = .ok () := by
  rw [validate_eq_ok_iff]
  decide +kernel

/-! ## Sections -/

section

variable {settings : Settings}

structure IsAccepted (settings : Settings) : Prop where
  server : settings.server.bindAddress ≠ ""
  gateway : settings.gateway.problems = []
  discovery : settings.discovery.problems = []
  auth : settings.auth.problems = []
  routing : settings.routing.problems = []
  breaker : settings.breaker.problems = []
  logging : settings.logging.problems = []
  metrics : settings.metrics.problems = []

theorem isAccepted_of_validate (hvalid : settings.validate = .ok ()) : settings.IsAccepted := by
  rw [validate_eq_ok_iff, problems] at hvalid
  simp only [List.append_eq_nil_iff, found_eq_nil_iff, List.mem_singleton, forall_eq,
    beq_eq_false_iff_ne] at hvalid
  obtain ⟨⟨⟨⟨⟨⟨⟨hserver, hgateway⟩, hdiscovery⟩, hauth⟩, hrouting⟩, hbreaker⟩, hlogging⟩, hmetrics⟩ :=
    hvalid
  exact ⟨hserver, hgateway, hdiscovery, hauth, hrouting, hbreaker, hlogging, hmetrics⟩

/-! ## Leads -/

/-- The version prefix of accepted settings starts with a slash and does not end in one. -/
theorem versionPrefix_of_validate (hvalid : settings.validate = .ok ()) :
    settings.gateway.versionPrefix.toList.head? = some '/' ∧
      settings.gateway.versionPrefix.toList.getLast? ≠ some '/' := by
  have hproblems := (isAccepted_of_validate hvalid).gateway
  simp only [Gateway.problems, List.append_eq_nil_iff, found_eq_nil_iff, List.mem_singleton,
    forall_eq, Bool.or_eq_false_iff, Bool.not_eq_false'] at hproblems
  obtain ⟨⟨⟨⟨⟨⟨hstart, hend⟩, -⟩, -⟩, -⟩, -⟩, -⟩ := hproblems
  refine ⟨startsWithSlash_iff.mp hstart, fun hlast => ?_⟩
  rw [← endsWithSlash_iff, hend] at hlast
  cases hlast

/-- The ignored leads of accepted settings start with slashes and are more than that. -/
theorem ignored_of_validate (hvalid : settings.validate = .ok ()) :
    ∀ lead ∈ settings.gateway.ignoredPathPrefixes, lead.toList.head? = some '/' ∧ lead ≠ "/" := by
  have hproblems := (isAccepted_of_validate hvalid).gateway
  simp only [Gateway.problems, List.append_eq_nil_iff, List.map_eq_nil_iff, List.filter_eq_nil_iff]
    at hproblems
  obtain ⟨⟨⟨⟨⟨-, hignored⟩, -⟩, -⟩, -⟩, -⟩ := hproblems
  intro lead hlead
  have hfits := hignored lead hlead
  simp only [Bool.or_eq_true, not_or, Bool.not_eq_true, Bool.not_eq_false'] at hfits
  refine ⟨startsWithSlash_iff.mp hfits.1, ?_⟩
  rintro rfl
  exact absurd hfits.2 (by decide)

/-- The version prefix and the ignored leads of accepted settings start with slashes. -/
theorem rooted_of_validate (hvalid : settings.validate = .ok ()) :
    settings.gateway.versionPrefix.toList.head? = some '/' ∧
      ∀ lead ∈ settings.gateway.ignoredPathPrefixes, lead.toList.head? = some '/' :=
  ⟨(versionPrefix_of_validate hvalid).1, fun lead hlead => (ignored_of_validate hvalid lead hlead).1⟩

/-- Both lists of patterns of accepted settings can be read. -/
theorem patterns_of_validate (hvalid : settings.validate = .ok ()) :
    (∃ parsed, Path.Patterns.parse settings.gateway.publicPathPatterns = .ok parsed) ∧
      ∃ parsed, Path.Patterns.parse settings.gateway.errorPathPatterns = .ok parsed := by
  have hproblems := (isAccepted_of_validate hvalid).gateway
  simp only [Gateway.problems, List.append_eq_nil_iff] at hproblems
  obtain ⟨⟨⟨⟨-, hopen⟩, herror⟩, -⟩, -⟩ := hproblems
  exact ⟨exists_parse_of_patternProblems hopen, exists_parse_of_patternProblems herror⟩

end

end ApiGateway.Settings
