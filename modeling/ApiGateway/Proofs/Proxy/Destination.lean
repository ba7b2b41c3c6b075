import ApiGateway.Proofs.Route.Captures
import ApiGateway.Proofs.Route.RoundTrip
import ApiGateway.Proofs.Settings.Validity
import ApiGateway.Proofs.Url.Web
import ApiGateway.Proxy

/-!
# Where a request is sent

The gateway puts the path of a route behind the address of an instance, and the client that sends the request
reads the whole as an address again.  The request reaches the path that was put there exactly if that has no
backslash and no segment that stands for dots.
-/

namespace ApiGateway

/-! ## Queries behind paths -/

namespace Route

def Outbound.rawQuery? (outbound : Outbound) : Option (List Char) :=
  match outbound.query with
  | [] => none
  | query => some (Query.encode query).toList

theorem Outbound.target_toList (outbound : Outbound) :
    outbound.target.toList =
      outbound.path.toList ++ (outbound.rawQuery?.map ('?' :: ·)).getD [] := by
  rw [target, rawQuery?]
  cases outbound.query with
  | nil => exact (List.append_nil _).symm
  | cons first rest =>
      simp only [String.toList_append, List.append_assoc]
      rfl

end Route

/-- A query is written with what is kept in queries. -/
theorem Query.isKept_of_mem_encode {query : Query} {c : Char} (hmem : c ∈ (encode query).toList) :
    Url.IsKept Url.keptInSpecialQuery c := by
  rw [encode, String.toList_ofList] at hmem
  have hall : ∀ n : Fin 128, Text.Percent.IsEscaped (Char.ofNat n) →
      Url.IsKept Url.keptInSpecialQuery (Char.ofNat n) := by
    unfold Text.Percent.IsEscaped
    decide
  have hencode : ∀ text, c ∈ Text.Percent.encode text → Url.IsKept Url.keptInSpecialQuery c := by
    intro text hc
    have hescaped := Text.Percent.isEscaped_of_mem_encode hc
    exact Text.of_ascii (P := fun c => Text.Percent.IsEscaped c → Url.IsKept Url.keptInSpecialQuery c)
      hall hescaped.lt hescaped
  rcases Text.mem_intercalate hmem with hseparator | ⟨piece, hpiece, hmem⟩
  · cases List.mem_singleton.mp hseparator
    decide
  · obtain ⟨pair, -, rfl⟩ := List.mem_map.mp hpiece
    rcases List.mem_append.mp hmem with hmem | hmem
    · exact hencode _ hmem
    · rcases List.mem_cons.mp hmem with rfl | hmem
      · decide
      · exact hencode _ hmem

theorem Url.visible_of_isKept {c : Char} (hkept : IsKept keptInSpecialQuery c) :
    32 < c.toNat ∧ c ≠ '#' :=
  Text.of_ascii (P := fun c => IsKept keptInSpecialQuery c → 32 < c.toNat ∧ c ≠ '#') (by decide)
    hkept.1 hkept

namespace Route.Outbound

theorem isKept_of_mem_rawQuery? (outbound : Outbound) {raw : List Char}
    (hraw : raw ∈ outbound.rawQuery?) : ∀ c ∈ raw, Url.IsKept Url.keptInSpecialQuery c := by
  rw [rawQuery?] at hraw
  split at hraw
  · cases hraw
  · cases hraw
    exact fun c => Query.isKept_of_mem_encode

/-- A query that has been written is not escaped again. -/
theorem map_escapeWith_rawQuery? (outbound : Outbound) :
    outbound.rawQuery?.map (Url.escapeWith Url.keptInSpecialQuery) = outbound.rawQuery? := by
  cases hraw : outbound.rawQuery? with
  | none => rfl
  | some raw => exact congrArg some (Url.escapeWith_eq_self (outbound.isKept_of_mem_rawQuery? hraw))

end Route.Outbound

namespace Proxy

/-! ## Addresses of requests -/

theorem exists_text_of_resolve {resolver : Resolver} {instances : String → List String} {uri : String}
    {base : Url} (hresolve : (resolver.resolve instances uri).2 = .ok base) :
    ∃ text, Url.parse text = .ok base := by
  unfold Resolver.resolve at hresolve
  split at hresolve
  · unfold Resolver.direct at hresolve
    simp only at hresolve
    split at hresolve
    · cases hresolve
    · next url hparse =>
      split at hresolve
      · cases hresolve
        exact ⟨uri, hparse⟩
      · cases hresolve
  · split at hresolve
    · cases hresolve
    · next address _ =>
      cases hparse : Url.parse address with
      | error problem =>
          simp only [hparse] at hresolve
          cases hresolve
      | ok url =>
          simp only [hparse] at hresolve
          cases hresolve
          exact ⟨address, hparse⟩

section

variable {base : Url} {authority : Url.Authority} {settled : List (List Char)}

theorem text_of_web (hauthority : base.authority = some authority)
    (hlocation : base.location = .segments settled) (hbare : base.query = none ∧ base.fragment = none) :
    base.text =
      .ofList (base.scheme ++ ':' :: '/' :: '/' :: (authority.text ++ Path.joined settled)) := by
  simp [Url.text, Url.hierarchy, hauthority, hlocation, hbare.1, hbare.2, Url.guard, Url.Location.text,
    Path.joined]

theorem join_of_web (hauthority : base.authority = some authority)
    (hlocation : base.location = .segments settled) (hbare : base.query = none ∧ base.fragment = none)
    (hinner : authority.text ≠ [] ∧ ∀ c ∈ authority.text, Url.IsInner c) {front : List (List Char)}
    (htrim : Text.trimEnd (· == '/') (Path.joined settled) = Path.joined front)
    (outbound : Route.Outbound) :
    join base outbound.target = .ofList (base.scheme ++ ':' :: ('/' :: '/' ::
      (authority.text ++ (Path.joined front ++ outbound.path.toList)) ++
        (outbound.rawQuery?.map ('?' :: ·)).getD [])) := by
  rw [← String.toList_inj, join, text_of_web hauthority hlocation hbare, String.toList_append,
    String.toList_ofList, String.toList_ofList, String.toList_ofList, Url.trimEnd_web _ hinner, htrim,
    Route.Outbound.target_toList]
  simp

end

/-- What is put behind an address of the web is read with its scheme and authority, and the path that is
requested is the one that was put there, some characters escaped, exactly if that has no backslash and no
segment that stands for dots.  The query stays as it was written. -/
theorem parse_join {text : String} {base : Url} (hparse : Url.parse text = .ok base)
    (hweb : Url.IsWebScheme base.scheme) (hbare : base.query = none ∧ base.fragment = none)
    {outbound : Route.Outbound} (hpath : outbound.path.toList.head? = some '/')
    (htarget : ∀ c ∈ outbound.path.toList, Url.IsTarget c) :
    ∃ location, Url.parse (join base outbound.target) =
        (Url.parse base.text).map (fun own => { own with location, query := outbound.rawQuery? }) ∧
      (Url.EscapesTo (Text.trimEnd (· == '/') base.location.text ++ outbound.path.toList)
          location.text ↔
        '\\' ∉ outbound.path.toList ∧
          ∀ segment ∈ Path.segments outbound.path.toList, ¬ Url.IsDots segment) := by
  obtain ⟨authority, settled, hauthority, hlocation, hinner, hsettled⟩ := Url.web_of_parse hparse hweb
  obtain ⟨front, hfront, htrim⟩ := Path.trimEnd_joined fun segment hsegment =>
    (hsettled segment hsegment).slashes.1
  have hfrontSettled : ∀ segment ∈ front, Url.IsSettled segment := fun segment hsegment =>
    hsettled segment (hfront.subset hsegment)
  have hwhole : Path.IsRest (Path.joined front ++ outbound.path.toList) :=
    (Url.isRest_joined front).append (Or.inr hpath)
  have hchars : ∀ c ∈ Path.joined front ++ outbound.path.toList, Url.IsTarget c := by
    intro c hc
    rcases List.mem_append.mp hc with hc | hc
    · exact Url.isTarget_of_mem_joined hfrontSettled c hc
    · exact htarget c hc
  have hown := @Url.parse_web _ _ (Path.joined settled) none hweb hinner
    ⟨Url.isRest_joined settled, Url.isTarget_of_mem_joined hsettled⟩ (by simp)
  have hsent := Url.parse_web hweb hinner ⟨hwhole, hchars⟩ fun raw hraw c hc =>
    Url.visible_of_isKept (outbound.isKept_of_mem_rawQuery? hraw c hc)
  rw [Option.map_none, Option.getD_none, List.append_nil, ← text_of_web hauthority hlocation hbare]
    at hown
  rw [← join_of_web hauthority hlocation hbare hinner htrim, outbound.map_escapeWith_rawQuery?] at hsent
  refine ⟨Url.locationBehind true (Path.joined front ++ outbound.path.toList), ?_, ?_⟩
  · rw [hsent, hown]
    cases Url.parseAuthority base.scheme authority.text <;> rfl
  · have htrimmed : Text.trimEnd (· == '/') base.location.text = Path.joined front := by
      rw [hlocation]
      exact htrim
    rw [htrimmed]
    exact Url.escapesTo_locationBehind_iff hfrontSettled hpath

/-- What is prepared is what is sent. -/
theorem exchange_of_prepare {proxy : Proxy} {instances : String → List String} {route : Route}
    {request : Http.Request} {authentication : Option Authentication} {outgoing : Http.Outgoing}
    (hprepare : (proxy.prepare instances route request authentication).2 = .ok outgoing)
    (send : Http.Outgoing → Http.Exchange) (limit : Duration) :
    (proxy.exchange instances send route limit request authentication).2 =
      outcome route.application limit (send outgoing) := by
  rw [exchange]
  simp only [hprepare]
  rfl

theorem prepare_of_resolve {proxy : Proxy} {instances : String → List String} {route : Route} {base : Url}
    (hresolve : (proxy.resolver.resolve instances route.uri).2 = .ok base) (request : Http.Request)
    (authentication : Option Authentication) :
    (proxy.prepare instances route request authentication).2 =
      .ok ⟨request.method, join base (outbound route request authentication).target,
        outgoingHeaders request.headers, request.body⟩ := by
  rw [prepare]
  simp only [hresolve]

/-- Under accepted settings, a request has found the route of an endpoint without an identity, whatever was
inserted and removed before, and it is the turn of an instance at an address of the web, without query and
fragment. -/
structure IsDelivery (settings : Settings) (changes : List Route.Change) (id : String) (endpoint : Endpoint)
    (request : Http.Request) (found : Route.Match) (proxy : Proxy) (instances : String → List String)
    (base : Url) : Prop where
  valid : settings.validate = .ok ()
  slashed : ∀ route, .insert route ∈ changes → route.template.toList.head? = some '/'
  untagged : endpoint.hasTag settings.routing.authenticatedTag = false
  assembled : Route.assemble (Route.standardPipeline settings.gateway settings.routing id) endpoint =
    .ok found.route
  matched : ((Route.Table.empty settings.routing.collisionPolicy).run changes).find? request.method
    request.path = some found
  resolved : (proxy.resolver.resolve instances found.route.uri).2 = .ok base
  web : Url.IsWebScheme base.scheme
  bare : base.query = none ∧ base.fragment = none

section

variable {settings : Settings} {changes : List Route.Change} {id : String} {endpoint : Endpoint}
  {request : Http.Request} {found : Route.Match} {proxy : Proxy} {instances : String → List String}
  {base : Url}

/-- The path that the route makes of the request is rooted, and can be the path of an address. -/
theorem IsDelivery.path_outbound
    (hdelivery : IsDelivery settings changes id endpoint request found proxy instances base)
    (htarget : ∀ c ∈ request.path.toList, Url.IsTarget c)
    (hleads : ∀ lead ∈ settings.gateway.ignoredPathPrefixes, ∀ c ∈ lead.toList, Url.IsTarget c)
    (authentication : Option Authentication) :
    (outbound found.route request authentication).path.toList.head? = some '/' ∧
      ∀ c ∈ (outbound found.route request authentication).path.toList, Url.IsTarget c := by
  obtain ⟨hversion, hignored⟩ := Settings.rooted_of_validate hdelivery.valid
  have hstandard := hdelivery.assembled
  rw [Route.assemble_standardPipeline, Except.ok.injEq] at hstandard
  have htemplate : found.route.template.toList.head? = some '/' := by
    rw [← hstandard]
    exact Route.head?_externalTemplate hversion
  have hfaithful := (Route.Table.isFaithful_empty settings.routing.collisionPolicy).run hdelivery.slashed
  have hpath := hfaithful.head?_of_find? hdelivery.matched htemplate
  obtain ⟨hrooted, hmem⟩ := Route.path_outbound_rooted settings.routing id hignored hdelivery.untagged
    hpath request.query authentication
  rw [hstandard] at hrooted hmem
  refine ⟨hrooted, fun c hc => ?_⟩
  rcases hmem c hc with rfl | hc | ⟨lead, hlead, hc⟩
  · decide
  · exact htarget c hc
  · exact hleads lead hlead c hc

end

/-- A delivered request is sent to the address of the instance with another path, and the query as it was
written.  That path is the path of the instance, without slashes at its end, and behind it the path that the
route makes of the request, some characters escaped, exactly if the latter has no backslash and no segment that
stands for dots. -/
theorem exchange_destination (settings : Settings) (changes : List Route.Change) (id : String)
    (endpoint : Endpoint) (request : Http.Request) (found : Route.Match) (proxy : Proxy)
    (instances : String → List String) (base : Url)
    (hdelivery : IsDelivery settings changes id endpoint request found proxy instances base)
    (htarget : ∀ c ∈ request.path.toList, Url.IsTarget c)
    (hleads : ∀ lead ∈ settings.gateway.ignoredPathPrefixes, ∀ c ∈ lead.toList, Url.IsTarget c)
    (authentication : Option Authentication) :
    let rewritten := outbound found.route request authentication
    ∃ outgoing location,
      (∀ send limit, (proxy.exchange instances send found.route limit request authentication).2 =
        outcome found.route.application limit (send outgoing)) ∧
      Url.parse outgoing.url = (Url.parse base.text).map (fun own =>
        { own with location, query := rewritten.rawQuery? }) ∧
      (Url.EscapesTo (Text.trimEnd (· == '/') base.location.text ++ rewritten.path.toList) location.text ↔
        '\\' ∉ rewritten.path.toList ∧
          ∀ segment ∈ Path.segments rewritten.path.toList, ¬ Url.IsDots segment) := by
  intro rewritten
  obtain ⟨text, hparse⟩ := exists_text_of_resolve hdelivery.resolved
  obtain ⟨hrooted, hchars⟩ := hdelivery.path_outbound htarget hleads authentication
  have hprepare := prepare_of_resolve hdelivery.resolved request authentication
  obtain ⟨location, hsent, hescapes⟩ :=
    parse_join hparse hdelivery.web hdelivery.bare hrooted hchars
  exact ⟨_, location, exchange_of_prepare hprepare, hsent, hescapes⟩

def filesEndpoint : Endpoint where
  application := ⟨"files", "lb://"⟩
  method := .get
  path := "/files/{name}"
  parameters := [⟨"name", true⟩]

def filesRoute : Route :=
  Route.standardRoute {} {} "r1" filesEndpoint

def filesProxy : Proxy where
  resolver := { scheme := "lb://" }

def filesInstance : Url where
  scheme := "http".toList
  authority := some { host := some (.v4 167772161), port := some 8080 }
  location := .segments ["base".toList, []]
  query := none
  fragment := none

/-- A file is asked for by its name. -/
theorem isDelivery_files {path name : String}
    (hmatched : ((Route.Table.empty .reject).run [.insert filesRoute]).find? .get path =
      some ⟨filesRoute, [("name", name)]⟩) :
    IsDelivery {} [.insert filesRoute] "r1" filesEndpoint { method := .get, path }
      ⟨filesRoute, [("name", name)]⟩ filesProxy (fun _ => ["http://10.0.0.1:8080/base/"])
      filesInstance where
  valid := by
    rw [Settings.validate_eq_ok_iff]
    decide +kernel
  slashed route hroute := by
    rw [List.mem_singleton, Route.Change.insert.injEq] at hroute
    rw [hroute]
    decide +kernel
  untagged := rfl
  assembled := Route.assemble_standardPipeline {} {} "r1" filesEndpoint
  matched := hmatched
  resolved := by
    have hresolve : (filesProxy.resolver.resolve (fun _ => ["http://10.0.0.1:8080/base/"])
        filesRoute.uri).2 = .ok filesInstance := by
      decide +kernel
    exact hresolve
  web := Or.inl rfl
  bare := ⟨rfl, rfl⟩

theorem exchange_destination_report :
    ∃ (outgoing : Http.Outgoing) (location : Url.Location),
      Url.parse outgoing.url = .ok { filesInstance with location } ∧
      Url.EscapesTo "/base/files/report.txt".toList location.text := by
  have hmatched : ((Route.Table.empty .reject).run [.insert filesRoute]).find? .get
      "/api/v1/files/report.txt" = some ⟨filesRoute, [("name", "report.txt")]⟩ := by
    decide +kernel
  have hleads : ∀ lead ∈ ["/auth"], ∀ c ∈ lead.toList, Url.IsTarget c := by
    intro lead hlead
    rw [List.mem_singleton.mp hlead]
    exact Text.forall_mem_of_all (by decide +kernel)
  obtain ⟨outgoing, location, -, hsent, hescapes⟩ := exchange_destination {} [.insert filesRoute] "r1"
    filesEndpoint { method := .get, path := "/api/v1/files/report.txt" }
    ⟨filesRoute, [("name", "report.txt")]⟩ filesProxy (fun _ => ["http://10.0.0.1:8080/base/"])
    filesInstance (isDelivery_files hmatched) (Text.forall_mem_of_all (by decide +kernel)) hleads none
  have hown : Url.parse filesInstance.text = .ok filesInstance := by decide +kernel
  rw [hown] at hsent
  exact ⟨outgoing, location, hsent, hescapes.mpr (by decide +kernel)⟩

/-- A variable that stands for dots takes the request to another path: nothing is left of `/files/..` behind the
path of the instance. -/
theorem not_sent_to_path : ¬ ∀ (settings : Settings) (changes : List Route.Change) (id : String)
    (endpoint : Endpoint) (request : Http.Request) (found : Route.Match) (proxy : Proxy)
    (instances : String → List String) (base : Url),
    IsDelivery settings changes id endpoint request found proxy instances base →
    ∀ (authentication : Option Authentication) (outgoing : Http.Outgoing),
      (proxy.prepare instances found.route request authentication).2 = .ok outgoing →
      ∃ sent, Url.parse outgoing.url = .ok sent ∧
        Url.EscapesTo (Text.trimEnd (· == '/') base.location.text ++
          (outbound found.route request authentication).path.toList) sent.location.text := by
  intro hsent
  have hmatched : ((Route.Table.empty .reject).run [.insert filesRoute]).find? .get
      "/api/v1/files/.." = some ⟨filesRoute, [("name", "..")]⟩ := by
    decide +kernel
  have hdelivery := isDelivery_files hmatched
  obtain ⟨sent, hparse, hescapes⟩ := hsent _ _ _ _ _ _ _ _ _ hdelivery none _
    (prepare_of_resolve hdelivery.resolved _ none)
  have hpath : (outbound filesRoute { method := .get, path := "/api/v1/files/.." } none).path =
      "/files/.." := by
    decide +kernel
  have hread : Url.parse (join filesInstance
      (outbound filesRoute { method := .get, path := "/api/v1/files/.." } none).target) =
      .ok { filesInstance with location := .segments ["base".toList, []] } := by
    decide +kernel
  obtain rfl := Except.ok.inj (hparse.symm.trans hread)
  have hshort := (hescapes.length_le Url.keepsEscapes_keptInPath.ascii
    (Text.forall_mem_of_all (by decide +kernel))).1
  rw [hpath] at hshort
  revert hshort
  decide +kernel

end Proxy

end ApiGateway
