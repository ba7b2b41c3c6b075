import ApiGateway.Proofs.Route.RoundTrip
import ApiGateway.Proofs.Settings.Validity

/-!
# Leads that come back

Which ignored lead is taken off a documented path does not depend on the order of the leads: it is the
longest one that the path is under.  Exchanging the version prefix for it gives back the documented
path, unless the lead ends in a slash: the slashes at its end are lost.
-/

namespace ApiGateway

namespace Path

/-! ## Slashes at the end of a lead -/

theorem length_withoutTrailingSlashes_lt {lead : List Char} (hslash : lead.getLast? = some '/') :
    (withoutTrailingSlashes lead).length < lead.length := by
  obtain ⟨front, rfl⟩ := List.getLast?_eq_some_iff.mp hslash
  have hdropped : (front.reverse.dropWhile (· == '/')).length ≤ front.reverse.length :=
    (List.dropWhile_suffix _).length_le
  unfold withoutTrailingSlashes Text.trimEnd
  rw [List.reverse_append, List.reverse_singleton, List.singleton_append,
    List.dropWhile_cons_of_pos (by decide), List.length_reverse, List.length_append]
  rw [List.length_reverse] at hdropped
  exact Nat.lt_succ_of_le hdropped

/-- A lead that ends in a slash comes back shorter. -/
theorem length_under_lt {lead : List Char} (rest : List Char) (hslash : lead.getLast? = some '/')
    (hlong : lead ≠ ['/']) : (under lead rest).length < (lead ++ rest).length := by
  have htrimmed := length_withoutTrailingSlashes_lt hslash
  by_cases hnil : withoutTrailingSlashes lead ++ rest = []
  · rw [under_eq_slash hnil, List.length_singleton, List.length_append]
    obtain ⟨front, rfl⟩ := List.getLast?_eq_some_iff.mp hslash
    have hfront : front ≠ [] := by
      rintro rfl
      exact hlong rfl
    have hpos := List.length_pos_iff.mpr hfront
    rw [List.length_append, List.length_singleton]
    omega
  · rw [under_eq_append hnil, List.length_append, List.length_append]
    omega

/-- What is put behind a lead is the path again if and only if the lead does not end in a slash. -/
theorem under_eq_append_iff_getLast? {lead rest : List Char} (hne : lead ++ rest ≠ []) (hlong : lead ≠ ['/']) :
    under lead rest = lead ++ rest ↔ lead.getLast? ≠ some '/' := by
  constructor
  · intro heq hslash
    have hlt := length_under_lt rest hslash hlong
    rw [heq] at hlt
    exact Nat.lt_irrefl _ hlt
  · intro hlast
    have hsame := withoutTrailingSlashes_eq_self hlast
    rw [under_eq_append (hsame.symm ▸ hne), hsame]

end Path

namespace Route

/-! ## The longest lead -/

def IsUnder (path lead : String) : Prop :=
  path = lead ∨ ∃ rest, path = lead ++ "/" ++ rest

theorem continues_iff_isUnder {path lead : String} :
    Path.continues path.toList lead.toList = true ↔ IsUnder path lead := by
  rw [Path.continues_iff]
  refine or_congr String.toList_inj ?_
  constructor
  · rintro ⟨rest, hwhole⟩
    exact ⟨.ofList rest, String.toList_inj.mp (by simpa using hwhole)⟩
  · rintro ⟨rest, rfl⟩
    exact ⟨rest.toList, by simp⟩

/-- The lead that is taken off is the longest one that the path is under. -/
theorem longestLead?_eq_some_iff {ignored : List String} {path lead : String} :
    longestLead? ignored path = some lead ↔
      lead ∈ ignored ∧ IsUnder path lead ∧
        ∀ other ∈ ignored, IsUnder path other → other.length ≤ lead.length := by
  have htext : ∀ text, String.ofList text = lead ↔ text = lead.toList := fun text => by
    rw [← String.toList_inj, String.toList_ofList]
  have hmem : lead.toList ∈ ignored.map String.toList ↔ lead ∈ ignored := by
    simp [String.toList_inj]
  simp only [longestLead?, Option.map_eq_some_iff, htext, exists_eq_right, Path.longest?_eq_iff,
    Path.IsBest, List.forall_mem_map, hmem, continues_iff_isUnder, String.length_toList]

theorem longestLead?_perm {ignored listed : List String} (hperm : listed.Perm ignored) (path : String) :
    longestLead? listed path = longestLead? ignored path := by
  have hbest := Path.isBest_longest? (ignored.map String.toList) path.toList
  have hmem := fun lead => (hperm.map String.toList).mem_iff (a := lead)
  rw [longestLead?, Path.longest?_eq_iff.mpr (hbest.congr hmem), longestLead?]

/-! ## Restoration -/

theorem lead_strippedPath (ignored : List String) (path : String) :
    (strippedPath ignored path).lead = longestLead? ignored path := by
  unfold strippedPath
  cases longestLead? ignored path <;> rfl

section

variable {settings : Settings} (hvalid : settings.validate = .ok ()) (path : String)

include hvalid

theorem lead_strippedPath_ne_slash :
    (strippedPath settings.gateway.ignoredPathPrefixes path).lead.getD "" ≠ "/" := by
  rcases strippedPath_cases settings.gateway.ignoredPathPrefixes path with
    hnone | ⟨lead, hlead, _rest, -, -, hsome⟩
  · rw [hnone]
    exact (by decide : "" ≠ "/")
  · rw [hsome]
    exact (Settings.ignored_of_validate hvalid lead hlead).2

/-- The version prefix is exchanged for the lead, and that gives the documented path if and only if the
lead does not end in a slash. -/
theorem exists_restored (hpath : path.toList.head? = some '/') :
    let stripped := strippedPath settings.gateway.ignoredPathPrefixes path
    let lead := stripped.lead.getD ""
    path = lead ++ stripped.path ∧
      ∃ restored, Path.exchange? (settings.gateway.versionPrefix ++ stripped.path).toList
          settings.gateway.versionPrefix.toList lead.toList = some restored ∧
        (restored = path.toList ↔ lead.toList.getLast? ≠ some '/') := by
  intro stripped lead
  obtain ⟨rest, hoffered, hrest, hwhole⟩ :=
    exists_lead_append_rest settings.gateway.ignoredPathPrefixes hpath
  have hlong : lead.toList ≠ ['/'] := fun hslash =>
    lead_strippedPath_ne_slash hvalid path (String.toList_inj.mp hslash)
  have hne : lead.toList ++ rest ≠ [] := by
    intro hnil
    rw [hwhole, hnil] at hpath
    cases hpath
  refine ⟨String.toList_inj.mp ?_, Path.under lead.toList rest, ?_, ?_⟩
  · rw [String.toList_append, hoffered, String.toList_ofList, hwhole]
  · rw [String.toList_append, hoffered, String.toList_ofList]
    exact Path.exchange?_append_eq_under _ _ hrest
  · rw [hwhole]
    exact Path.under_eq_append_iff_getLast? hne hlong

end

/-- Under accepted settings, the lead that is taken off a rooted path is the longest one that the path is
under, in whatever order the leads are listed.  The path comes back when the version prefix is exchanged
for the lead if and only if the lead does not end in a slash. -/
theorem lead_restored_iff (settings : Settings) (hvalid : settings.validate = .ok ()) (path : String)
    (hpath : path.toList.head? = some '/') :
    let ignored := settings.gateway.ignoredPathPrefixes
    let version := settings.gateway.versionPrefix
    let stripped := strippedPath ignored path
    let lead := stripped.lead.getD ""
    (∀ listed, listed.Perm ignored → longestLead? listed path = longestLead? ignored path) ∧
      (∀ longest, longestLead? ignored path = some longest ↔
        longest ∈ ignored ∧ IsUnder path longest ∧
          ∀ other ∈ ignored, IsUnder path other → other.length ≤ longest.length) ∧
      stripped.lead = longestLead? ignored path ∧ path = lead ++ stripped.path ∧
      ∃ restored, Path.exchange? (version ++ stripped.path).toList version.toList lead.toList =
          some restored ∧
        (restored = path.toList ↔ lead.toList.getLast? ≠ some '/') := by
  intro ignored version stripped lead
  exact ⟨fun listed hperm => longestLead?_perm hperm path, fun longest => longestLead?_eq_some_iff,
    lead_strippedPath ignored path, exists_restored hvalid path hpath⟩

/-- Of nested leads the longest is taken off, and comes back. -/
theorem lead_restored_iff_internal :
    let settings : Settings :=
      { gateway := { ignoredPathPrefixes := ["/internal", "/internal/api", "/internal"] } }
    let stripped := strippedPath settings.gateway.ignoredPathPrefixes "/internal/api/orders"
    settings.validate = .ok () ∧
      longestLead? ["/internal/api", "/internal", "/internal"] "/internal/api/orders" =
        some "/internal/api" ∧
      Path.exchange? ("/api/v1" ++ stripped.path).toList "/api/v1".toList "/internal/api".toList =
        some "/internal/api/orders".toList := by
  intro settings stripped
  have hvalid : settings.validate = .ok () := by
    rw [Settings.validate_eq_ok_iff]
    decide +kernel
  obtain ⟨hperm, hlongest, hlead, -, restored, hexchange, hrestored⟩ :=
    lead_restored_iff settings hvalid "/internal/api/orders" (by decide)
  have hshorter : ∀ other ∈ settings.gateway.ignoredPathPrefixes,
      other.length ≤ "/internal/api".length := by decide
  have hfound := (hlongest "/internal/api").mpr
    ⟨by decide, Or.inr ⟨"orders", rfl⟩, fun other hother _ => hshorter other hother⟩
  rw [hlead, hfound] at hexchange hrestored
  refine ⟨hvalid, (hperm _ (by decide)).trans hfound, hexchange.trans ?_⟩
  exact congrArg some (hrestored.mpr (by decide))

/-- A lead that ends in a slash is taken off with it and comes back without. -/
theorem not_restored_of_validate :
    ¬ ∀ settings : Settings, settings.validate = .ok () →
      ∀ path : String, path.toList.head? = some '/' →
        let stripped := strippedPath settings.gateway.ignoredPathPrefixes path
        Path.exchange? (settings.gateway.versionPrefix ++ stripped.path).toList
          settings.gateway.versionPrefix.toList (stripped.lead.getD "").toList = some path.toList := by
  intro hall
  have hvalid : Settings.validate { gateway := { ignoredPathPrefixes := ["/internal/"] } } = .ok () := by
    rw [Settings.validate_eq_ok_iff]
    decide +kernel
  exact absurd (hall _ hvalid "/internal/" (by decide)) (by decide +kernel)

end Route

end ApiGateway
