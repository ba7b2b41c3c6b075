import ApiGateway.Proofs.Auth.Filter
import ApiGateway.Proofs.Named
import ApiGateway.Proofs.Text.Blanks
import ApiGateway.Proofs.Url.Escaping
import Mathlib.Data.List.Induction

/-!
# Spellings of an authorization value

The letter case of a scheme and the blanks and tabs around and between the parts of an authorization value
make no difference: not to the credential that is read, not to the authenticator that is found for it, and
not to what the filter answers.  What has been read is in a form that reads back as itself.
-/

namespace ApiGateway.Auth

namespace Credential

/-! ## Parts of a value -/

/-- The blanks of a value that can be read. -/
def isGap (c : Char) : Bool :=
  c == ' ' || c == '\t'

/-- A value has these parts, with gaps around them and at least one gap between them. -/
structure Spells (gap : Char → Bool) (value : String) (scheme credentials : List Char) : Prop where
  named : scheme ≠ []
  solid : ∀ c ∈ scheme, gap c = false
  parts : ∃ before between after : List Char,
    value.toList = before ++ scheme ++ between ++ credentials ++ after ∧ between ≠ [] ∧
      ∀ c ∈ before ++ between ++ after, gap c = true

/-- Two values with the same credentials that differ in the letter case of the scheme and in gaps only. -/
def Alike (gap : Char → Bool) (credentials : List Char) (value other : String) : Prop :=
  ∃ scheme otherScheme : List Char, Text.lowerAscii scheme = Text.lowerAscii otherScheme ∧
    Spells gap value scheme credentials ∧ Spells gap other otherScheme credentials

theorem isVisible_of_isGap {c : Char} (hgap : isGap c = true) : isVisible c = true := by
  simp only [isGap, Bool.or_eq_true, beq_iff_eq] at hgap
  rcases hgap with rfl | rfl <;> rfl

theorem isBlank_of_isGap {c : Char} (hgap : isGap c = true) : Text.isBlank c = true := by
  simp only [isGap, Bool.or_eq_true, beq_iff_eq] at hgap
  rcases hgap with rfl | rfl <;> rfl

/-- Among visible characters only blanks and tabs are blanks. -/
theorem isGap_of_isBlank {c : Char} (hvisible : isVisible c = true) (hblank : Text.isBlank c = true) :
    isGap c = true := by
  simp only [isVisible, Text.isBlank, isGap, Bool.or_eq_true, Bool.and_eq_true, decide_eq_true_eq,
    beq_iff_eq, ← Char.toNat_inj, Char.reduceToNat] at *
  omega

theorem isVisible_toLower (c : Char) : isVisible c.toLower = isVisible c := by
  rw [Bool.eq_iff_iff]
  simp only [isVisible, Bool.or_eq_true, Bool.and_eq_true, decide_eq_true_eq, beq_iff_eq,
    ← Char.toNat_inj, Char.reduceToNat, Text.toNat_toLower]
  split <;> omega

theorem all_isVisible_lowerAscii (text : List Char) :
    (Text.lowerAscii text).all isVisible = text.all isVisible := by
  rw [Text.lowerAscii, List.all_map]
  exact congrArg text.all (funext isVisible_toLower)

/-! ## Reading the parts -/

theorem cutBlank?_append {scheme : List Char} (hsolid : ∀ c ∈ scheme, Text.isBlank c = false) {blank : Char}
    (hblank : Text.isBlank blank = true) (rest : List Char) :
    cutBlank? (scheme ++ blank :: rest) = some (scheme, rest) := by
  induction scheme with
  | nil => rw [List.nil_append, cutBlank?, if_pos hblank]
  | cons c scheme ih =>
      rw [List.forall_mem_cons] at hsolid
      rw [List.cons_append, cutBlank?, hsolid.1, if_neg Bool.false_ne_true, ih hsolid.2, Option.map_some]

theorem parse_of_parts {value : String} {before scheme rest : List Char} {blank : Char}
    (hbefore : ∀ c ∈ before, Text.isBlank c = true) (hnamed : scheme ≠ [])
    (hsolid : ∀ c ∈ scheme, Text.isBlank c = false) (hblank : Text.isBlank blank = true)
    (hvalue : value.toList = before ++ (scheme ++ blank :: rest)) :
    parse (some value) = .ok (make (.ofList scheme) (.ofList rest)) := by
  have hstart : value.toList.dropWhile Text.isBlank = scheme ++ blank :: rest := by
    rw [hvalue, List.dropWhile_append_of_pos hbefore]
    cases scheme with
    | nil => exact absurd rfl hnamed
    | cons c scheme => exact List.dropWhile_cons_of_neg (by simp [hsolid c (.head _)])
  rw [parse, hstart, cutBlank?_append hsolid hblank]

/-- Of a value whose parts are visible a credential is read, which is the same for all ways to spell it. -/
theorem ofHeaders_of_spells {headers : Http.Headers} {value : String} {scheme credentials : List Char}
    (hvalue : headers.lookup "authorization" = some value) (hspells : Spells isGap value scheme credentials) :
    ofHeaders headers =
      if (Text.lowerAscii scheme ++ credentials).all isVisible then
        .ok ⟨.ofList (Text.lowerAscii scheme), .ofList (Text.trim Text.isBlank credentials)⟩
      else .error .schemeNotFound := by
  obtain ⟨before, between, after, htext, hapart, hgaps⟩ := hspells.parts
  simp only [List.forall_mem_append] at hgaps
  obtain ⟨⟨hbefore, hbetween⟩, hafter⟩ := hgaps
  have hvisible : value.toList.all isVisible = (Text.lowerAscii scheme ++ credentials).all isVisible := by
    have hshown : ∀ gaps : List Char, (∀ c ∈ gaps, isGap c = true) → gaps.all isVisible = true :=
      fun gaps hgaps => List.all_eq_true.mpr fun c hc => isVisible_of_isGap (hgaps c hc)
    simp only [htext, List.all_append, all_isVisible_lowerAscii, hshown before hbefore,
      hshown between hbetween, hshown after hafter, Bool.true_and, Bool.and_true]
  rw [ofHeaders, hvalue]
  dsimp only
  rw [hvisible]
  cases hshown : (Text.lowerAscii scheme ++ credentials).all isVisible with
  | false => rfl
  | true =>
      rw [if_pos rfl, if_pos rfl]
      obtain ⟨blank, gaps, rfl⟩ := List.exists_cons_of_ne_nil hapart
      have hsolid : ∀ c ∈ scheme, Text.isBlank c = false := by
        intro c hc
        rw [List.all_append, all_isVisible_lowerAscii, Bool.and_eq_true, List.all_eq_true] at hshown
        by_contra hblank
        have hgap := isGap_of_isBlank (hshown.1 c hc) (by simpa using hblank)
        rw [hspells.solid c hc] at hgap
        cases hgap
      rw [List.forall_mem_cons] at hbetween
      have hread := @parse_of_parts value before scheme (gaps ++ credentials ++ after) blank
        (fun c hc => isBlank_of_isGap (hbefore c hc)) hspells.named hsolid (isBlank_of_isGap hbetween.1)
        (by simp [htext])
      rw [hread, make, String.toList_ofList, String.toList_ofList, List.append_assoc,
        Text.trim_append_left fun c hc => isBlank_of_isGap (hbetween.2 c hc),
        Text.trim_append_right fun c hc => isBlank_of_isGap (hafter c hc)]

/-! ## What has been read -/

/-- The scheme has neither blanks nor capital letters, and the credentials are trimmed. -/
structure IsPlain (credential : Credential) : Prop where
  scheme : ∀ c ∈ credential.scheme.toList, Text.isBlank c = false ∧ c.isUpper = false
  credentials : Text.trim Text.isBlank credential.credentials.toList = credential.credentials.toList

def text (credential : Credential) : String :=
  credential.scheme ++ " " ++ credential.credentials

theorem solid_of_cutBlank? {text before after : List Char} (hcut : cutBlank? text = some (before, after)) :
    ∀ c ∈ before, Text.isBlank c = false := by
  induction text generalizing before with
  | nil => cases hcut
  | cons c text ih =>
      rw [cutBlank?] at hcut
      cases hblank : Text.isBlank c with
      | true =>
          rw [hblank, if_pos rfl] at hcut
          cases hcut
          exact fun _ hnone => absurd hnone List.not_mem_nil
      | false =>
          rw [hblank, if_neg Bool.false_ne_true, Option.map_eq_some_iff] at hcut
          obtain ⟨⟨inner, rest⟩, hinner, heq⟩ := hcut
          cases heq
          exact List.forall_mem_cons.mpr ⟨hblank, ih hinner⟩

theorem isPlain_make {scheme credentials : List Char} (hsolid : ∀ c ∈ scheme, Text.isBlank c = false) :
    IsPlain (make (.ofList scheme) (.ofList credentials)) := by
  refine ⟨?_, ?_⟩
  · simp only [make, String.toList_ofList, Text.lowerAscii, List.forall_mem_map]
    exact fun c hc => ⟨(Text.isBlank_toLower c).trans (hsolid c hc), Text.isUpper_toLower c⟩
  · simp only [make, String.toList_ofList, Text.trim_trim]

theorem isPlain_of_parse {value : Option String} {credential : Credential}
    (hparse : parse value = .ok credential) : credential.IsPlain := by
  cases value with
  | none =>
      cases hparse
      exact ⟨fun c hc => absurd hc List.not_mem_nil, rfl⟩
  | some value =>
      rw [parse] at hparse
      cases hcut : cutBlank? (value.toList.dropWhile Text.isBlank) with
      | none =>
          simp only [hcut] at hparse
          cases hparse
      | some pieces =>
          obtain ⟨scheme, credentials⟩ := pieces
          simp only [hcut] at hparse
          cases hparse
          exact isPlain_make (solid_of_cutBlank? hcut)

/-- A plain credential with a scheme reads back as itself. -/
theorem parse_text {credential : Credential} (hplain : credential.IsPlain) (hnamed : credential.scheme ≠ "") :
    parse (some credential.text) = .ok credential := by
  have hscheme : credential.scheme.toList ≠ [] := fun hnone => hnamed (String.toList_eq_nil_iff.mp hnone)
  have hread := @parse_of_parts credential.text [] credential.scheme.toList credential.credentials.toList ' '
    (fun c hc => absurd hc List.not_mem_nil) hscheme (fun c hc => (hplain.scheme c hc).1) rfl
    (by simp [text, String.toList_append])
  rw [hread, make, String.toList_ofList, String.toList_ofList,
    Text.lowerAscii_eq_self fun c hc => (hplain.scheme c hc).2, hplain.credentials,
    String.ofList_toList, String.ofList_toList]

end Credential

/-! ## Registered schemes -/

namespace Schemes

def registerAll (registrations : List (String × Authenticator)) : Schemes :=
  registrations.foldl (fun schemes (scheme, authenticator) => schemes.register scheme authenticator) {}

/-- The authenticator that was last registered for a scheme in whatever letter case. -/
def registered? (registrations : List (String × Authenticator)) (scheme : String) : Option Authenticator :=
  (registrations.reverse.find? fun registration => lowerScheme registration.1 = lowerScheme scheme).map
    Prod.snd

theorem lookup_enter (scheme : String) (authenticator : Authenticator)
    (entries : List (String × Authenticator)) (other : String) :
    (enter scheme authenticator entries).lookup other =
      if other = scheme then some authenticator else entries.lookup other := by
  induction entries with
  | nil => exact lookup_cons_eq_ite [] scheme authenticator other
  | cons entry rest ih =>
      obtain ⟨first, known⟩ := entry
      unfold enter
      split
      · next hfirst =>
        subst hfirst
        rw [lookup_cons_eq_ite, lookup_cons_eq_ite]
        split <;> rfl
      · next hfirst =>
        split
        · exact lookup_cons_eq_ite _ scheme authenticator other
        · rw [lookup_cons_eq_ite, lookup_cons_eq_ite, ih]
          by_cases hother : other = first
          · rw [if_pos hother, if_neg (hother ▸ Ne.symm hfirst), if_pos hother]
          · rw [if_neg hother, if_neg hother]

theorem lookup_registerAll (registrations : List (String × Authenticator)) (scheme : String) :
    (registerAll registrations).entries.lookup (lowerScheme scheme) = registered? registrations scheme := by
  induction registrations using List.reverseRecOn with
  | nil => rfl
  | append_singleton registrations registration ih =>
      obtain ⟨name, authenticator⟩ := registration
      rw [registerAll, List.foldl_append, ← registerAll]
      show (enter (lowerScheme name) authenticator _).lookup _ = _
      rw [lookup_enter, ih, registered?, registered?, List.reverse_append]
      by_cases hname : lowerScheme scheme = lowerScheme name
      · rw [if_pos hname]
        simp [hname]
      · rw [if_neg hname]
        simp [Ne.symm hname]

end Schemes

/-- The header extractor claims what has a registered scheme and hands the credentials to its authenticator. -/
theorem Extractor.header_of_spells (registrations : List (String × Authenticator)) {headers : Http.Headers}
    {value : String} {scheme credentials : List Char} (hvalue : headers.lookup "authorization" = some value)
    (hspells : Credential.Spells Credential.isGap value scheme credentials)
    (hvisible : (scheme ++ credentials).all Credential.isVisible = true) :
    (header (Schemes.registerAll registrations)).claims headers =
        (Schemes.registered? registrations (.ofList scheme)).isSome ∧
      ∀ authenticator, Schemes.registered? registrations (.ofList scheme) = some authenticator →
        (header (Schemes.registerAll registrations)).extract headers =
          authenticator (.ofList (Text.trim Text.isBlank credentials)) := by
  have hread := Credential.ofHeaders_of_spells hvalue hspells
  rw [List.all_append, Credential.all_isVisible_lowerAscii, ← List.all_append, if_pos hvisible] at hread
  have hlowered : Schemes.lowerScheme (.ofList scheme) = .ofList (Text.lowerAscii scheme) := by
    rw [Schemes.lowerScheme, String.toList_ofList]
  have hlookup := Schemes.lookup_registerAll registrations (.ofList scheme)
  rw [hlowered] at hlookup
  have hsmall : Text.lowerAscii (Text.lowerAscii scheme) = Text.lowerAscii scheme :=
    Text.lowerAscii_eq_self (by
      rw [Text.lowerAscii, List.forall_mem_map]
      exact fun c _ => Text.isUpper_toLower c)
  have hnamed : String.ofList (Text.lowerAscii scheme) ≠ "" := by
    intro hempty
    have hnone := congrArg String.toList hempty
    rw [String.toList_ofList, Text.lowerAscii] at hnone
    exact hspells.named (List.map_eq_nil_iff.mp hnone)
  constructor
  · simp only [header, hread, Schemes.supports, Schemes.lowerScheme, String.toList_ofList, hsmall, hlookup]
    simp [hnamed]
  · intro authenticator hregistered
    simp only [header, hread, Schemes.authenticator, hlookup, hregistered]

namespace Filter

/-- With the header extractor alone, the filter goes by the credential of a request. -/
theorem authenticate_congr {schemes : Schemes} {publicPaths : Path.Patterns} {timeout : Duration}
    {headers others : Http.Headers} (hread : Credential.ofHeaders headers = Credential.ofHeaders others)
    (path : String) (required : Bool) :
    (⟨[Extractor.header schemes], publicPaths, timeout⟩ : Filter).authenticate headers path required =
      (⟨[Extractor.header schemes], publicPaths, timeout⟩ : Filter).authenticate others path required := by
  have hclaims : (Extractor.header schemes).claims headers = (Extractor.header schemes).claims others := by
    simp only [Extractor.header, hread]
  have hextract : (Extractor.header schemes).extract headers = (Extractor.header schemes).extract others := by
    simp only [Extractor.header, hread]
  have hfirst : Extractor.extractFirst [Extractor.header schemes] headers =
      Extractor.extractFirst [Extractor.header schemes] others := by
    rw [Extractor.extractFirst, Extractor.extractFirst, List.find?_singleton, List.find?_singleton, hclaims]
    cases (Extractor.header schemes).claims others with
    | false => rfl
    | true => simp only [if_true, hextract]
  simp only [authenticate, attempt, hfirst, hread]

/-- Whatever schemes are registered in whatever letter case, the filter answers two requests alike whose
authorization values differ in the letter case of the scheme, and in blanks and tabs around and between the
parts; and the scheme counts as the last one that was registered for it.  What is read of a value that is
there has a scheme, is plain, and reads back as itself. -/
theorem authenticate_of_alike (registrations : List (String × Authenticator)) (publicPaths : Path.Patterns)
    (timeout : Duration) :
    let schemes := Schemes.registerAll registrations
    let filter : Filter := ⟨[Extractor.header schemes], publicPaths, timeout⟩
    (∀ (headers others : Http.Headers) (value other : String) (credentials : List Char),
      headers.lookup "authorization" = some value → others.lookup "authorization" = some other →
      Credential.Alike Credential.isGap credentials value other → ∀ path required,
        filter.authenticate headers path required = filter.authenticate others path required) ∧
    (∀ (headers : Http.Headers) (value : String) (scheme credentials : List Char),
      headers.lookup "authorization" = some value →
      Credential.Spells Credential.isGap value scheme credentials →
      (scheme ++ credentials).all Credential.isVisible = true →
        (Extractor.header schemes).claims headers =
            (Schemes.registered? registrations (.ofList scheme)).isSome ∧
          ∀ authenticator, Schemes.registered? registrations (.ofList scheme) = some authenticator →
            (Extractor.header schemes).extract headers =
              authenticator (.ofList (Text.trim Text.isBlank credentials))) ∧
    ∀ (value : Option String) (credential : Credential), Credential.parse value = .ok credential →
      credential.IsPlain ∧ (value ≠ none → credential.scheme ≠ "" ∧
        Credential.parse (some credential.text) = .ok credential) := by
  intro schemes filter
  refine ⟨fun headers others value other credentials hvalue hother halike path required => ?_,
    fun headers value scheme credentials hvalue hspells hvisible =>
      Extractor.header_of_spells registrations hvalue hspells hvisible,
    fun value credential hparse => ?_⟩
  · obtain ⟨scheme, otherScheme, hsame, hspells, hothers⟩ := halike
    refine authenticate_congr ?_ path required
    rw [Credential.ofHeaders_of_spells hvalue hspells, Credential.ofHeaders_of_spells hother hothers, hsame]
  · have hplain := Credential.isPlain_of_parse hparse
    refine ⟨hplain, fun hpresent => ?_⟩
    obtain ⟨text, rfl⟩ := Option.ne_none_iff_exists'.mp hpresent
    have hnamed := Credential.scheme_ne_empty hparse
    exact ⟨hnamed, Credential.parse_text hplain hnamed⟩

def nameAuthenticator : Authenticator :=
  fun name => .established ⟨name, []⟩

/-- Capital letters, other gaps and tabs in front make no difference to the filter, and alice is found. -/
theorem authenticate_of_alike_alice :
    (⟨[Extractor.header (Schemes.registerAll [("Name", nameAuthenticator)])], ⟨[], []⟩, .ofSeconds 1⟩ :
        Filter).authenticate [("authorization", "name alice")] "/orders" true =
      (⟨[Extractor.header (Schemes.registerAll [("Name", nameAuthenticator)])], ⟨[], []⟩, .ofSeconds 1⟩ :
        Filter).authenticate [("authorization", "\tNAME \t alice ")] "/orders" true ∧
    (Extractor.header (Schemes.registerAll [("Name", nameAuthenticator)])).extract
        [("authorization", "name alice")] = .established ⟨"alice", []⟩ ∧
    Credential.parse (some (Credential.make "NAME" " alice ").text) = .ok (Credential.make "NAME" "alice") := by
  obtain ⟨halike, hfound, hback⟩ :=
    authenticate_of_alike [("Name", nameAuthenticator)] ⟨[], []⟩ (.ofSeconds 1)
  have hplain : Credential.Spells Credential.isGap "name alice" "name".toList "alice".toList :=
    ⟨by decide, Text.forall_mem_of_all (by decide), [], [' '], [], by decide, by decide,
      Text.forall_mem_of_all (by decide)⟩
  have hother : Credential.Spells Credential.isGap "\tNAME \t alice " "NAME".toList "alice".toList :=
    ⟨by decide, Text.forall_mem_of_all (by decide), ['\t'], [' ', '\t', ' '], [' '], by decide, by decide,
      Text.forall_mem_of_all (by decide)⟩
  refine ⟨halike _ _ _ _ "alice".toList rfl rfl ⟨_, _, by decide, hplain, hother⟩ "/orders" true, ?_, ?_⟩
  · exact (hfound _ _ _ _ rfl hplain (by decide)).2 nameAuthenticator rfl
  · exact ((hback (some "NAME  alice ") _ rfl).2 (by simp)).2

/-- Other blanks make a difference, since a value that holds them cannot be read; and the credential of a
request without an authorization value does not read back as itself. -/
theorem not_alike_of_any_blank :
    (¬ ∀ (registrations : List (String × Authenticator)) (publicPaths : Path.Patterns) (timeout : Duration)
      (headers others : Http.Headers) (value other : String) (credentials : List Char) (path : String)
      (required : Bool), credentials ≠ [] → Text.trim Text.isBlank credentials = credentials →
      headers.lookup "authorization" = some value → others.lookup "authorization" = some other →
      Credential.Alike Text.isBlank credentials value other →
      let filter : Filter := ⟨[Extractor.header (Schemes.registerAll registrations)], publicPaths, timeout⟩
      filter.authenticate headers path required = filter.authenticate others path required) ∧
    ¬ ∀ (value : Option String) (credential : Credential), Credential.parse value = .ok credential →
      Credential.parse (some credential.text) = .ok credential := by
  constructor
  · intro hsame
    have hplain : Credential.Spells Text.isBlank "name alice" "name".toList "alice".toList :=
      ⟨by decide, Text.forall_mem_of_all (by decide), [], [' '], [], by decide, by decide,
        Text.forall_mem_of_all (by decide)⟩
    have hother : Credential.Spells Text.isBlank "name\u00A0alice" "name".toList "alice".toList :=
      ⟨by decide, Text.forall_mem_of_all (by decide), [], ['\u00A0'], [], by decide, by decide,
        Text.forall_mem_of_all (by decide)⟩
    have hequal := hsame [("Name", nameAuthenticator)] ⟨[], []⟩ (.ofSeconds 1)
      [("authorization", "name alice")] [("authorization", "name\u00A0alice")] _ _ "alice".toList
      "/orders" true (by decide) (by decide) rfl rfl ⟨_, _, rfl, hplain, hother⟩
    have hrefused := @authenticate_of_malformed
      ⟨[Extractor.header (Schemes.registerAll [("Name", nameAuthenticator)])], ⟨[], []⟩, .ofSeconds 1⟩
      [("authorization", "name\u00A0alice")] "/orders" true _ rfl (Or.inl (by decide))
    have haccepted : (⟨[Extractor.header (Schemes.registerAll [("Name", nameAuthenticator)])], ⟨[], []⟩,
        .ofSeconds 1⟩ : Filter).authenticate [("authorization", "name alice")] "/orders" true =
          .ok (some ⟨"alice", []⟩) := rfl
    cases haccepted.symm.trans (hequal.trans hrefused)
  · intro hback
    have hagain := hback none {} rfl
    cases hagain

end Filter

end ApiGateway.Auth
