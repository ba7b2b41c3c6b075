import ApiGateway.Proofs.Auth.Times
import ApiGateway.Proofs.Named
import ApiGateway.Proofs.Text.Base64Url
import ApiGateway.Proofs.Text.Utf8Reading

/-!
# Accepted tokens

A token is accepted exactly if it is put together from a header that names the algorithm, claims that name
a subject and a time of expiry which has not passed, and the signature of the two as they stand.  Each of
the claims that are checked has to be there once at most.  Every other token is refused in the same way.
-/

namespace ApiGateway

namespace Auth

namespace Token

open Text.Base64Url (encode decode?_encode decode?_eq_some_iff dot_not_mem_encode)

/-! ## Claims -/

def checkedNames : List String :=
  ["exp", "nbf", "sub", "iss", "aud"]

/-- None of these claims occurs twice, and the time before which the token does not count is no list or
object with anything in it. -/
structure AreReadable (claims : List (String × Json)) : Prop where
  once : ∀ name ∈ checkedNames, (claims.filter (·.1 == name)).length ≤ 1
  flat : ∀ value, member? claims "nbf" = some value → isNestedFull value = false

/-- The claims name a time of expiry and a subject, and the roles are the texts in a list of this name. -/
structure Grant (claims : List (String × Json)) (expiry : Nat) (authentication : Authentication) : Prop where
  expiry : ∃ value, member? claims "exp" = some value ∧ IsTime value expiry
  subject : member? claims "sub" = some (.string authentication.principal)
  listed : ∀ items, member? claims "roles" = some (.array items) →
    authentication.authorities = items.filterMap textItem?
  unlisted : (∀ items, member? claims "roles" ≠ some (.array items)) → authentication.authorities = []

section Claims

variable {claims : List (String × Json)}

theorem lookup_eq_head?_filter (entries : List (String × Json)) (name : String) :
    entries.lookup name = (entries.filter (·.1 == name)).head?.map Prod.snd := by
  induction entries with
  | nil => rfl
  | cons entry rest ih =>
      obtain ⟨other, value⟩ := entry
      rw [lookup_cons_eq_ite, List.filter_cons, ih]
      by_cases hname : name = other
      · simp [hname]
      · simp [hname, Ne.symm hname]

/-- The value of a claim is that of its last occurrence. -/
theorem member?_eq (claims : List (String × Json)) (name : String) :
    member? claims name = (claims.filter (·.1 == name)).getLast?.map Prod.snd := by
  rw [member?, lookup_eq_head?_filter, List.filter_reverse, List.head?_reverse]

/-- A claim can be read as a field exactly if it does not occur twice. -/
theorem field?_eq (claims : List (String × Json)) (name : String) :
    TokenHeader.field? claims name =
      if (claims.filter (·.1 == name)).length ≤ 1 then some ((member? claims name).getD .null) else none := by
  rw [member?_eq, TokenHeader.field?]
  generalize claims.filter (·.1 == name) = found
  match found with
  | [] => rfl
  | [(_, value)] => rfl
  | _ :: _ :: _ => rfl

theorem grant_roles (expiry : Nat) (principal : String) {value : Json}
    (hexpiry : member? claims "exp" = some value) (htime : IsTime value expiry)
    (hsubject : member? claims "sub" = some (.string principal)) :
    Grant claims expiry ⟨principal, roles claims⟩ := by
  refine ⟨⟨value, hexpiry, htime⟩, hsubject, fun items hitems => ?_, fun hnone => ?_⟩
  · simp only [roles, hitems]
  · rw [roles]
    split
    · next items hitems => exact absurd hitems (hnone items)
    · rfl

theorem Grant.authorities_eq {expiry : Nat} {authentication : Authentication}
    (hgrant : Grant claims expiry authentication) : authentication.authorities = roles claims := by
  rw [roles]
  split
  · next items hitems => exact hgrant.listed items hitems
  · next hnone => exact hgrant.unlisted hnone

theorem isNested_of_isTime {value : Json} {seconds : Nat} (htime : IsTime value seconds) :
    isNestedFull value = false := by
  cases htime <;> rfl

/-- Claims with a time of expiry and a subject pass the reading of all checked claims exactly if they are
readable. -/
theorem readable_iff {value : Json} {seconds : Nat} {principal : String}
    (hexpiry : member? claims "exp" = some value) (htime : IsTime value seconds)
    (hsubject : member? claims "sub" = some (.string principal)) :
    readable claims = true ↔ AreReadable claims := by
  have honce : (checkedNames.all fun name => (TokenHeader.field? claims name).isSome) = true ↔
      ∀ name ∈ checkedNames, (claims.filter (·.1 == name)).length ≤ 1 := by
    simp only [List.all_eq_true, field?_eq, Option.isSome_ite]
  have hread : readable claims =
      ((checkedNames.all fun name => (TokenHeader.field? claims name).isSome) &&
        (["exp", "nbf"].all fun name => !(TokenHeader.field? claims name).any isNestedFull) &&
        !(TokenHeader.field? claims "sub").any isNested) := rfl
  constructor
  · intro hreadable
    rw [hread, Bool.and_eq_true, Bool.and_eq_true, honce] at hreadable
    obtain ⟨⟨hsingle, hflat⟩, -⟩ := hreadable
    refine ⟨hsingle, fun before hbefore => ?_⟩
    have hnbf := List.all_eq_true.mp hflat "nbf" (by decide)
    rw [field?_eq, if_pos (hsingle "nbf" (by decide)), hbefore] at hnbf
    simpa using hnbf
  · rintro ⟨hsingle, hflat⟩
    rw [hread, Bool.and_eq_true, Bool.and_eq_true, honce]
    refine ⟨⟨hsingle, ?_⟩, ?_⟩
    · have hexp : isNestedFull value = false := isNested_of_isTime htime
      have hnbf : isNestedFull ((member? claims "nbf").getD .null) = false := by
        cases hbefore : member? claims "nbf" with
        | none => rfl
        | some before => exact hflat before hbefore
      simp [field?_eq, hsingle "exp" (by decide), hsingle "nbf" (by decide), hexpiry, hexp, hnbf]
    · simp [field?_eq, hsingle "sub" (by decide), hsubject, isNested]

theorem mem_of_member? {name : String} {value : Json} (hmember : member? claims name = some value) :
    (name, value) ∈ claims := by
  rw [member?_eq, Option.map_eq_some_iff] at hmember
  obtain ⟨⟨other, _⟩, hlast, rfl⟩ := hmember
  obtain ⟨hentry, hother⟩ := List.mem_filter.mp (List.mem_of_getLast? hlast)
  exact beq_iff_eq.mp hother ▸ hentry

/-- Claims establish an identity exactly if they are readable and grant it, with an expiry that lies at most
the leeway in the past. -/
theorem checkClaims_object_eq_ok_iff {leeway now : Nat} (hleeway : leeway ≤ now)
    (hbounded : ∀ claim ∈ claims, claim.2.IsBounded) {authentication : Authentication} :
    checkClaims leeway now (.object claims) = .ok authentication ↔
      ∃ expiry, AreReadable claims ∧ Grant claims expiry authentication ∧ now ≤ expiry + leeway := by
  have hearliest : earliest leeway now = now - leeway := if_pos hleeway
  rw [checkClaims, hearliest]
  constructor
  · intro hchecked
    split at hchecked
    · cases hchecked
    next hunreadable =>
    split at hchecked
    · cases hchecked
    next expiry hexpiry =>
    split at hchecked
    · cases hchecked
    next hcurrent =>
    split at hchecked
    case h_2 => cases hchecked
    next principal hprincipal =>
    cases hchecked
    obtain ⟨value, hvalue, htime⟩ := Option.bind_eq_some_iff.mp hexpiry
    obtain ⟨subject, hsubject, htext⟩ := Option.bind_eq_some_iff.mp hprincipal
    rw [time?_eq_some_iff (hbounded _ (mem_of_member? hvalue))] at htime
    obtain rfl : subject = .string principal := by
      cases subject <;> cases htext
      rfl
    have hreadable : readable claims = true := by simpa using hunreadable
    exact ⟨expiry, (readable_iff hvalue htime hsubject).mp hreadable,
      grant_roles expiry principal hvalue htime hsubject, by omega⟩
  · rintro ⟨expiry, hreadable, hgrant, hcurrent⟩
    obtain ⟨value, hvalue, htime⟩ := hgrant.expiry
    have hread := (readable_iff hvalue htime hgrant.subject).mpr hreadable
    rw [← time?_eq_some_iff (hbounded _ (mem_of_member? hvalue))] at htime
    have hroles : Authentication.mk authentication.principal (roles claims) = authentication := by
      rw [← hgrant.authorities_eq]
    simp [hread, hvalue, htime, hgrant.subject, textItem?, hroles, show ¬expiry < now - leeway by omega]

end Claims

/-! ## Parts -/

/-- The part is the text of the bytes of a text that reads as the value. -/
def Encodes (part : List Char) (value : Json) : Prop :=
  ∃ text, part = encode (Text.utf8 text) ∧ Json.readRaw? text = some value

theorem readPart_eq_ok_iff {part : List Char} {value : Json} :
    readPart part = .ok value ↔ Encodes part value := by
  constructor
  · intro hread
    rw [readPart] at hread
    split at hread
    · cases hread
    next bytes hbytes =>
    split at hread
    case h_2 => cases hread
    next read hvalue =>
    cases hread
    obtain ⟨text, htext, hjson⟩ := Option.bind_eq_some_iff.mp hvalue
    rw [decode?_eq_some_iff] at hbytes
    rw [Text.ofUtf8?_eq_some_iff] at htext
    exact ⟨text, htext ▸ hbytes, hjson⟩
  · rintro ⟨text, rfl, hjson⟩
    rw [readPart, decode?_encode]
    simp [Text.ofUtf8?_utf8, hjson]

theorem Encodes.isBounded {part : List Char} {value : Json} (hencodes : Encodes part value) :
    value.IsBounded := by
  obtain ⟨text, -, hjson⟩ := hencodes
  exact Json.isBounded_readRaw? hjson

theorem Encodes.dot_not_mem {part : List Char} {value : Json} (hencodes : Encodes part value) :
    '.' ∉ part := by
  obtain ⟨text, rfl, -⟩ := hencodes
  exact dot_not_mem_encode _

/-! ## Tokens -/

def joined (header claims mac : List Char) : List Char :=
  (header ++ '.' :: claims) ++ '.' :: mac

def assembled (secret : String) (header claims : List Char) : List Char :=
  joined header claims (signature secret (header ++ '.' :: claims))

theorem cutLastDot?_append {before after : List Char} (hafter : '.' ∉ after) :
    cutLastDot? (before ++ '.' :: after) = some (before, after) :=
  cutLastDot?_eq_some_iff.mpr ⟨hafter, rfl⟩

theorem dot_not_mem_signature (secret : String) (signed : List Char) : '.' ∉ signature secret signed :=
  dot_not_mem_encode _

/-- What makes a token of three parts pass: the order of the checks only decides how it fails. -/
theorem check_joined_eq_ok_iff {verifier : Verifier} {now : Nat} {header claims mac : List Char}
    (hclaims : '.' ∉ claims) (hmac : '.' ∉ mac) {authentication : Authentication} :
    check verifier now (joined header claims mac) = .ok authentication ↔
      (∃ value, readPart header = .ok value ∧ TokenHeader.read? value = some "HS256") ∧
        mac = signature verifier.secret (header ++ '.' :: claims) ∧
        ∃ value, readPart claims = .ok value ∧ checkClaims verifier.leeway now value = .ok authentication := by
  simp only [check, joined, cutLastDot?_append hmac, cutLastDot?_append hclaims]
  -- The cases are those of the checks in their order; each way out but the last is an error.
  cases readPart header with
  | error problem => simp [bind, Except.bind]
  | ok headerValue =>
      cases halgorithm : TokenHeader.read? headerValue with
      | none => simp [bind, Except.bind, halgorithm]
      | some algorithm =>
          by_cases hname : algorithm = "HS256"
          · by_cases hsigned : mac = signature verifier.secret (header ++ '.' :: claims)
            · cases readPart claims <;> simp [bind, Except.bind, halgorithm, hname, hsigned]
            · simp [bind, Except.bind, halgorithm, hname, hsigned]
          · simp [bind, Except.bind, halgorithm, hname]

theorem exists_joined_of_check_eq_ok {verifier : Verifier} {now : Nat} {token : List Char}
    {authentication : Authentication} (hchecked : check verifier now token = .ok authentication) :
    ∃ header claims mac, token = joined header claims mac ∧ '.' ∉ claims ∧ '.' ∉ mac := by
  cases houter : cutLastDot? token with
  | none =>
      rw [check, houter] at hchecked
      cases hchecked
  | some parts =>
      obtain ⟨signed, mac⟩ := parts
      obtain ⟨hmac, rfl⟩ := cutLastDot?_eq_some_iff.mp houter
      cases hinner : cutLastDot? signed with
      | none =>
          simp only [check, houter, hinner] at hchecked
          cases hchecked
      | some inner =>
          obtain ⟨header, claims⟩ := inner
          obtain ⟨hclaims, rfl⟩ := cutLastDot?_eq_some_iff.mp hinner
          exact ⟨header, claims, mac, rfl, hclaims, hmac⟩

/-- A header that names the one algorithm tokens are signed with. -/
def IsHeader (header : List Char) : Prop :=
  ∃ value, Encodes header value ∧ TokenHeader.read? value = some "HS256"

/-- Claims that establish the identity, at a time that lies at most the leeway after their expiry. -/
def Establish (leeway now : Nat) (claims : List Char) (authentication : Authentication) : Prop :=
  ∃ members expiry, Encodes claims (.object members) ∧ AreReadable members ∧
    Grant members expiry authentication ∧ now ≤ expiry + leeway

theorem checkClaims_eq_ok_iff {leeway now : Nat} (hleeway : leeway ≤ now) {value : Json}
    (hbounded : value.IsBounded) {authentication : Authentication} :
    checkClaims leeway now value = .ok authentication ↔
      ∃ members expiry, value = .object members ∧ AreReadable members ∧
        Grant members expiry authentication ∧ now ≤ expiry + leeway := by
  cases hbounded with
  | object hmembers =>
      rw [checkClaims_object_eq_ok_iff hleeway hmembers]
      simp
  | null | bool | natural | negative | fraction | string | array => simp [checkClaims]

theorem exists_header_iff {header : List Char} :
    (∃ value, readPart header = .ok value ∧ TokenHeader.read? value = some "HS256") ↔ IsHeader header := by
  simp only [IsHeader, readPart_eq_ok_iff]

theorem exists_claims_iff {leeway now : Nat} (hleeway : leeway ≤ now) {claims : List Char}
    {authentication : Authentication} :
    (∃ value, readPart claims = .ok value ∧ checkClaims leeway now value = .ok authentication) ↔
      Establish leeway now claims authentication := by
  constructor
  · rintro ⟨value, hread, hchecked⟩
    have hencodes := readPart_eq_ok_iff.mp hread
    obtain ⟨members, expiry, rfl, hgranted⟩ := (checkClaims_eq_ok_iff hleeway hencodes.isBounded).mp hchecked
    exact ⟨members, expiry, hencodes, hgranted⟩
  · rintro ⟨members, expiry, hencodes, hgranted⟩
    exact ⟨.object members, readPart_eq_ok_iff.mpr hencodes,
      (checkClaims_eq_ok_iff hleeway hencodes.isBounded).mpr ⟨members, expiry, rfl, hgranted⟩⟩

/-- A token passes exactly if it is assembled from a header and claims that establish the identity. -/
theorem check_eq_ok_iff {verifier : Verifier} {now : Nat} (hleeway : verifier.leeway ≤ now)
    {token : List Char} {authentication : Authentication} :
    check verifier now token = .ok authentication ↔
      ∃ header claims, token = assembled verifier.secret header claims ∧ IsHeader header ∧
        Establish verifier.leeway now claims authentication := by
  constructor
  · intro hchecked
    obtain ⟨header, claims, mac, rfl, hclaims, hmac⟩ := exists_joined_of_check_eq_ok hchecked
    obtain ⟨hheader, hsigned, hestablish⟩ := (check_joined_eq_ok_iff hclaims hmac).mp hchecked
    rw [exists_header_iff] at hheader
    rw [exists_claims_iff hleeway] at hestablish
    exact ⟨header, claims, by rw [hsigned, assembled], hheader, hestablish⟩
  · rintro ⟨header, claims, rfl, hheader, hestablish⟩
    obtain ⟨members, expiry, hencodes, hgranted⟩ := hestablish
    refine (check_joined_eq_ok_iff hencodes.dot_not_mem (dot_not_mem_signature _ _)).mpr
      ⟨exists_header_iff.mpr hheader, rfl, ?_⟩
    exact (exists_claims_iff hleeway).mpr ⟨members, expiry, hencodes, hgranted⟩

end Token

namespace Verifier

open Token
open Text.Base64Url (encode)

theorem verify_eq_ok {verifier : Verifier} {now : Nat} {token : String} {authentication : Authentication} :
    verifier.verify now token = .ok authentication ↔
      check verifier now token.toList = .ok authentication := by
  rw [verify]
  cases check verifier now token.toList with
  | ok found =>
      constructor
      · intro haccepted
        cases haccepted
        rfl
      · intro hchecked
        cases hchecked
        rfl
  | error problem =>
      constructor
      · intro haccepted
        cases haccepted
      · intro hchecked
        cases hchecked

/-- Whatever keeps a token from passing, its credentials are invalid. -/
theorem verify_eq_error {verifier : Verifier} {now : Nat} {token : String}
    (hrefused : ∀ authentication, verifier.verify now token ≠ .ok authentication) :
    ∃ reason, verifier.verify now token = .error (.invalidCredentials reason) := by
  rw [verify] at hrefused ⊢
  cases hcheck : check verifier now token.toList with
  | ok authentication => exact absurd (by rw [hcheck]; rfl) (hrefused authentication)
  | error problem => exact ⟨problem.message, rfl⟩

/-- A verifier whose leeway does not reach beyond the beginning of time accepts exactly the tokens that are
assembled from a header and claims that establish an identity, and that is the identity of the token.  So all
texts of such headers and claims make a token that is accepted.  Any other token has invalid credentials, and
such is a token with another header or another third part. -/
theorem verify_eq_ok_iff (verifier : Verifier) (now : Nat) :
    (verifier.leeway ≤ now → ∀ (token : String) (authentication : Authentication),
      verifier.verify now token = .ok authentication ↔
        ∃ header claims, token.toList = assembled verifier.secret header claims ∧ IsHeader header ∧
          Establish verifier.leeway now claims authentication) ∧
      (verifier.leeway ≤ now → ∀ (headerText claimsText : List Char) (header : Json)
        (members : List (String × Json)) (expiry : Nat) (authentication : Authentication),
        Json.readRaw? headerText = some header → TokenHeader.read? header = some "HS256" →
        Json.readRaw? claimsText = some (.object members) →
        AreReadable members → Grant members expiry authentication → now ≤ expiry + verifier.leeway →
        verifier.verify now (.ofList (assembled verifier.secret (encode (Text.utf8 headerText))
          (encode (Text.utf8 claimsText)))) = .ok authentication) ∧
      (∀ token : String, (∀ authentication, verifier.verify now token ≠ .ok authentication) →
        ∃ reason, verifier.verify now token = .error (.invalidCredentials reason)) ∧
      ∀ header claims mac, '.' ∉ claims → '.' ∉ mac →
        ¬IsHeader header ∨ mac ≠ signature verifier.secret (header ++ '.' :: claims) →
        ∃ reason, verifier.verify now (.ofList (joined header claims mac)) =
          .error (.invalidCredentials reason) := by
  have haccepts (hleeway : verifier.leeway ≤ now) (token : String) (authentication : Authentication) :
      verifier.verify now token = .ok authentication ↔
        ∃ header claims, token.toList = assembled verifier.secret header claims ∧ IsHeader header ∧
          Establish verifier.leeway now claims authentication :=
    verify_eq_ok.trans (check_eq_ok_iff hleeway)
  refine ⟨haccepts, ?_, fun _ => verify_eq_error, ?_⟩
  · intro hleeway headerText claimsText header members expiry authentication hheader halgorithm hclaims
      hreadable hgrant hcurrent
    refine (haccepts hleeway _ authentication).mpr ⟨_, _, String.toList_ofList, ?_, ?_⟩
    · exact ⟨header, ⟨headerText, rfl, hheader⟩, halgorithm⟩
    · exact ⟨members, expiry, ⟨claimsText, rfl, hclaims⟩, hreadable, hgrant, hcurrent⟩
  · intro header claims mac hclaims hmac hother
    refine verify_eq_error fun authentication haccepted => ?_
    rw [verify_eq_ok, String.toList_ofList, check_joined_eq_ok_iff hclaims hmac,
      exists_header_iff] at haccepted
    obtain ⟨hheader, hsigned, -⟩ := haccepted
    exact hother.elim (fun hnone => hnone hheader) (fun hforged => hforged hsigned)

def plainHeader : String :=
  "\x7b\"alg\":\"HS256\"\x7d"

theorem readRaw?_plainHeader :
    Json.readRaw? plainHeader.toList = some (.object [("alg", .string "HS256")]) := by
  with_unfolding_all rfl

theorem not_isHeader_nil : ¬IsHeader [] := by
  have hread : readPart [] = .error .json := by
    simp [readPart, Text.Base64Url.decode?, Text.ofUtf8?, Text.decodeParts, Json.readRaw?, Json.tokens?]
  rw [← exists_header_iff, hread]
  rintro ⟨value, hvalue, -⟩
  cases hvalue

/-- A token with an expiry, a subject and roles, of which one is no text; and one with nothing in its
parts. -/
theorem verify_alice_and_empty :
    (30 ≤ 1700000000 ∧ Verifier.verify ⟨"secret", 30⟩ 1700000000 (.ofList (assembled "secret"
      (encode (Text.utf8 plainHeader.toList))
      (encode (Text.utf8 "\x7b\"sub\":\"alice\",\"exp\":1700000000,\"roles\":[\"ADMIN\",7]\x7d".toList)))) =
        .ok ⟨"alice", ["ADMIN"]⟩) ∧
      ∃ reason, Verifier.verify ⟨"secret", 30⟩ 1700000000 ".." = .error (.invalidCredentials reason) := by
  refine ⟨⟨by decide, ?_⟩, (verify_eq_ok_iff ⟨"secret", 30⟩ 1700000000).2.2.2 [] [] [] (by decide)
    (by decide) (Or.inl not_isHeader_nil)⟩
  refine (verify_eq_ok_iff ⟨"secret", 30⟩ 1700000000).2.1 (by decide) _ _ _
    [("sub", .string "alice"), ("exp", .natural 1700000000), ("roles", .array [.string "ADMIN", .natural 7])]
    1700000000 _ readRaw?_plainHeader (by decide) ?_ ?_ ?_ (by decide)
  · with_unfolding_all rfl
  · exact ⟨by decide, fun value hvalue => by cases hvalue⟩
  · refine ⟨⟨_, rfl, .natural (by decide)⟩, rfl, fun items hitems => ?_, fun hnone => ?_⟩
    · cases hitems
      rfl
    · exact absurd rfl (hnone _)

/-- All tokens are accepted that are assembled from claims of this kind that grant an identity in time. -/
def AcceptsGranted (verifier : Verifier) (now : Nat) (OfKind : List (String × Json) → Prop) : Prop :=
  ∀ header claims members expiry authentication, IsHeader header → Encodes claims (.object members) →
    OfKind members → Grant members expiry authentication → now ≤ expiry + verifier.leeway →
    verifier.verify now (.ofList (assembled verifier.secret header claims)) = .ok authentication

theorem not_acceptsGranted {verifier : Verifier} {now : Nat} {OfKind : List (String × Json) → Prop}
    {text : List Char} {members : List (String × Json)} (hread : Json.readRaw? text = some (.object members))
    (hkind : OfKind members) {expiry : Nat} {authentication : Authentication}
    (hgrant : Grant members expiry authentication) (hcurrent : now ≤ expiry + verifier.leeway)
    {problem : Token.Problem}
    (hrefused : checkClaims verifier.leeway now (.object members) = .error problem) :
    ¬AcceptsGranted verifier now OfKind := by
  intro haccepts
  have hencodes : Encodes (encode (Text.utf8 text)) (.object members) := ⟨text, rfl, hread⟩
  have haccepted := haccepts (encode (Text.utf8 plainHeader.toList)) _ members expiry authentication
    ⟨_, ⟨_, rfl, readRaw?_plainHeader⟩, by decide⟩ hencodes hkind hgrant hcurrent
  rw [verify_eq_ok, String.toList_ofList, assembled,
    check_joined_eq_ok_iff hencodes.dot_not_mem (dot_not_mem_signature _ _)] at haccepted
  obtain ⟨-, -, value, hvalue, hchecked⟩ := haccepted
  obtain rfl : value = .object members := by
    have hsame : Except.ok value = Except.ok (.object members) :=
      hvalue.symm.trans (readPart_eq_ok_iff.mpr hencodes)
    exact Except.ok.inj hsame
  rw [hrefused] at hchecked
  cases hchecked

/-- It does not do that claims grant an identity in time.  Claims with two subjects are refused, and claims
with a list as the time before which they do not count; and a leeway beyond the present time takes the
earliest expiry that counts round to the end of time. -/
theorem not_acceptsGranted_of_any_claims :
    ¬AcceptsGranted ⟨"secret", 30⟩ 1700000000
        (fun members => ∀ value, member? members "nbf" = some value → isNestedFull value = false) ∧
      ¬AcceptsGranted ⟨"secret", 30⟩ 1700000000
        (fun members => ∀ name ∈ checkedNames, (members.filter (·.1 == name)).length ≤ 1) ∧
      ¬AcceptsGranted ⟨"secret", 3153600000⟩ 1700000000 AreReadable := by
  have htwice : Json.readRaw? "\x7b\"sub\":\"a\",\"sub\":\"b\",\"exp\":4102444800\x7d".toList =
      some (.object [("sub", .string "a"), ("sub", .string "b"), ("exp", .natural 4102444800)]) := by
    with_unfolding_all rfl
  have hlist : Json.readRaw? "\x7b\"sub\":\"a\",\"nbf\":[1],\"exp\":4102444800\x7d".toList =
      some (.object [("sub", .string "a"), ("nbf", .array [.natural 1]), ("exp", .natural 4102444800)]) := by
    with_unfolding_all rfl
  have hplain : Json.readRaw? "\x7b\"sub\":\"a\",\"exp\":4102444800\x7d".toList =
      some (.object [("sub", .string "a"), ("exp", .natural 4102444800)]) := by
    with_unfolding_all rfl
  have hgrant (members : List (String × Json)) (principal : String)
      (hexpiry : member? members "exp" = some (.natural 4102444800))
      (hsubject : member? members "sub" = some (.string principal)) :
      Grant members 4102444800 ⟨principal, roles members⟩ :=
    grant_roles 4102444800 principal hexpiry (.natural (by decide)) hsubject
  refine ⟨?_, ?_, ?_⟩
  · exact not_acceptsGranted htwice (fun value hvalue => by cases hvalue) (hgrant _ "b" rfl rfl)
      (by decide) rfl
  · exact not_acceptsGranted hlist (by decide) (hgrant _ "a" rfl rfl) (by decide) rfl
  · exact not_acceptsGranted hplain ⟨by decide, fun value hvalue => by cases hvalue⟩ (hgrant _ "a" rfl rfl)
      (by decide) rfl

end Verifier

end Auth

end ApiGateway
