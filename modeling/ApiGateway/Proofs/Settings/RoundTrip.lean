import ApiGateway.Proofs.Settings.Kinds

/-!
# Settings read back

Settings that are written and read again are the same, section by section: whatever the texts and lists,
with or without the parts that can be left out, and for every duration.
-/

namespace ApiGateway.Settings

open Yaml (Node)

/-! ## Settings within their bits -/

def Registry.Fits : Registry → Prop
  | .fixed _ => True
  | .http _ timeout => timeout.seconds < Duration.wordLimit

/-- Each number and each duration is within the bits that there are for it. -/
structure Fits (settings : Settings) : Prop where
  port : settings.server.port < Nat.pow 2 16
  breakerTimeout : settings.gateway.breakerTimeout.seconds < Duration.wordLimit
  refreshInterval : settings.discovery.refreshInterval.seconds < Duration.wordLimit
  registry : settings.discovery.registry.Fits
  leeway : ∀ jwt, settings.auth.jwt = some jwt → jwt.leeway.seconds < Duration.wordLimit
  failureThreshold : settings.breaker.failureThreshold < Nat.pow 2 32
  openDuration : settings.breaker.openDuration.seconds < Duration.wordLimit
  successThreshold : settings.breaker.successThreshold < Nat.pow 2 32
  trialLimit : settings.breaker.trialLimit < Nat.pow 2 32

/-! ## Sections -/

theorem server?_toJson {server : Server} (hport : server.port < Nat.pow 2 16) :
    server? (.ofJson server.toJson) = some server := by
  obtain ⟨entries, hsection, hlookup⟩ := section?_ofMembers (rfl : server.toJson = _) (by simp)
  simp only [server?, hsection, optional_eq (hlookup "bind_address") (text?_ofJson server.bindAddress),
    optional_eq (hlookup "port") (natural?_ofJson hport)]
  rfl

theorem serverEntry?_toJson (entry : ServerEntry) : serverEntry? (.ofJson entry.toJson) = some entry := by
  obtain ⟨entries, hsection, hlookup⟩ := section?_ofMembers (rfl : entry.toJson = _) (by simp)
  simp only [hsection, serverEntry?, required_eq (hlookup "url") (text?_ofJson entry.url),
    optional_eq (hlookup "description") (text?_ofJson entry.description)]
  rfl

theorem gateway?_toJson {gateway : Gateway} (htimeout : gateway.breakerTimeout.seconds < Duration.wordLimit) :
    gateway? (.ofJson gateway.toJson) = some gateway := by
  obtain ⟨entries, hsection, hlookup⟩ := section?_ofMembers (rfl : gateway.toJson = _) (by simp)
  simp only [gateway?, hsection, optional_eq (hlookup "version_prefix") (text?_ofJson gateway.versionPrefix),
    optional_eq (hlookup "ignored_path_prefixes") (texts?_ofJson gateway.ignoredPathPrefixes),
    optional_eq (hlookup "public_path_patterns") (texts?_ofJson gateway.publicPathPatterns),
    optional_eq (hlookup "error_path_patterns") (texts?_ofJson gateway.errorPathPatterns),
    optional_eq (hlookup "circuit_breaker_timeout") (duration?_toJson htimeout),
    optional_eq (hlookup "servers") (list?_ofJson fun entry _ => serverEntry?_toJson entry)]
  rfl

theorem jwt?_toJson {jwt : Jwt} (hleeway : jwt.leeway.seconds < Duration.wordLimit) :
    jwt? (.ofJson jwt.toJson) = some jwt := by
  obtain ⟨entries, hsection, hlookup⟩ := section?_ofMembers (rfl : jwt.toJson = _) (by simp)
  simp only [jwt?, hsection, optional_eq (hlookup "secret") (text?_ofJson jwt.secret),
    optional_eq (hlookup "leeway") (duration?_toJson hleeway)]
  rfl

theorem auth?_toJson {auth : Auth}
    (hleeway : ∀ jwt, auth.jwt = some jwt → jwt.leeway.seconds < Duration.wordLimit) :
    auth? (.ofJson auth.toJson) = some auth := by
  obtain ⟨entries, hsection, hlookup⟩ := section?_ofMembers (rfl : auth.toJson = _) (by simp)
  have hjwt : unlessNone? jwt? (.ofJson ((auth.jwt.map Jwt.toJson).getD .null)) = some auth.jwt :=
    unlessNone?_ofJson (fun _ _ => ⟨_, rfl⟩) fun jwt hgiven => jwt?_toJson (hleeway jwt hgiven)
  simp only [auth?, hsection, optional_eq (hlookup "jwt") hjwt]
  rfl

theorem initializer?_toJson (initializer : Initializer) :
    initializer? (.ofJson initializer.toJson) = some initializer := by
  obtain ⟨entries, hsection, hlookup⟩ := section?_ofMembers (rfl : initializer.toJson = _) (by simp)
  simp only [initializer?, hsection, required_eq (hlookup "parameter") (text?_ofJson initializer.parameter),
    required_eq (hlookup "source") ((choice?_ofJson _ _).trans initializer.source.lookup_name),
    required_eq (hlookup "strategy") ((choice?_ofJson _ _).trans initializer.strategy.lookup_name)]
  rfl

theorem routing?_toJson (routing : Routing) : routing? (.ofJson routing.toJson) = some routing := by
  obtain ⟨entries, hsection, hlookup⟩ := section?_ofMembers (rfl : routing.toJson = _) (by simp)
  simp only [routing?, hsection, optional_eq (hlookup "collision_policy")
      ((choice?_ofJson _ _).trans routing.collisionPolicy.lookup_name),
    optional_eq (hlookup "identity_prefix") (text?_ofJson routing.identityPrefix),
    optional_eq (hlookup "principal_parameter") (text?_ofJson routing.principalParameter),
    optional_eq (hlookup "authenticated_tag") (text?_ofJson routing.authenticatedTag),
    optional_eq (hlookup "parameter_initializers")
      (list?_ofJson fun initializer _ => initializer?_toJson initializer)]
  rfl

theorem breaker?_toJson {breaker : Breaker} (hfailures : breaker.failureThreshold < Nat.pow 2 32)
    (hopen : breaker.openDuration.seconds < Duration.wordLimit)
    (hsuccesses : breaker.successThreshold < Nat.pow 2 32) (htrials : breaker.trialLimit < Nat.pow 2 32) :
    breaker? (.ofJson breaker.toJson) = some breaker := by
  obtain ⟨entries, hsection, hlookup⟩ := section?_ofMembers (rfl : breaker.toJson = _) (by simp)
  simp only [breaker?, hsection, optional_eq (hlookup "failure_threshold") (natural?_ofJson hfailures),
    optional_eq (hlookup "open_duration") (duration?_toJson hopen),
    optional_eq (hlookup "success_threshold") (natural?_ofJson hsuccesses),
    optional_eq (hlookup "half_open_max_requests") (natural?_ofJson htrials)]
  rfl

theorem logging?_toJson (logging : Logging) : logging? (.ofJson logging.toJson) = some logging := by
  obtain ⟨entries, hsection, hlookup⟩ := section?_ofMembers (rfl : logging.toJson = _) (by simp)
  simp only [logging?, hsection, optional_eq (hlookup "level") (text?_ofJson logging.level),
    optional_eq (hlookup "format") (text?_ofJson logging.format)]
  rfl

theorem metrics?_toJson (metrics : Metrics) : metrics? (.ofJson metrics.toJson) = some metrics := by
  obtain ⟨entries, hsection, hlookup⟩ := section?_ofMembers (rfl : metrics.toJson = _) (by simp)
  simp only [metrics?, hsection, optional_eq (hlookup "enabled") (flag?_ofJson metrics.enabled),
    optional_eq (hlookup "listen_address") (text?_ofJson metrics.listenAddress)]
  rfl

/-! ## Registries -/

theorem member?_toJson (member : Member) : member? (.ofJson member.toJson) = some member := by
  obtain ⟨entries, hsection, hlookup⟩ := exactSection?_ofMembers (rfl : member.toJson = _) (by simp)
  rw [member?, hsection]
  simp only [Option.bind_eq_bind, Option.bind_some,
    required_eq (hlookup "name") (exactText?_ofJson member.name),
    required_eq (hlookup "address") (exactText?_ofJson member.address)]
  rfl

theorem isWithin_member {depth : Nat} (member : Member) : IsWithin (depth + 1) member.toJson := by
  refine isWithin_ofMembers (by simp) fun entry hentry => ?_
  simp only [List.mem_cons, List.not_mem_nil, or_false] at hentry
  rcases hentry with rfl | rfl
  · exact isWithin_string _ _
  · exact isWithin_string _ _

/-- The registry is read by its kind. -/
theorem registry?_toJson {registry : Registry} (hfits : registry.Fits) :
    registry? (.ofJson registry.toJson) = some registry := by
  have hdepth : Node.depthLimit - 2 = 125 + 1 := rfl
  cases registry with
  | fixed members =>
      have hwithin : ∀ entry ∈ [("members", Json.array (members.map Member.toJson))],
          IsWithin 125 entry.2 := by
        intro entry hentry
        rw [List.mem_singleton.mp hentry]
        refine isWithin_array fun item hitem => ?_
        obtain ⟨member, -, rfl⟩ := List.mem_map.mp hitem
        exact isWithin_member member
      obtain ⟨node, entries, value, hkind, hvalue, hsection, hlookup⟩ :=
        kind?_ofMembers (rfl : (Registry.fixed members).toJson = _) (by simp) hwithin
      have hmembers : optional entries "members" (exactList? member?) [] = some members :=
        optional_eq (hlookup "members") (exactList?_ofJson fun member _ => member?_toJson member)
      simp only [hkind, registry?, hdepth, hvalue, hsection, Option.bind_eq_bind, Option.bind_some,
        hmembers]
      rfl
  | http url timeout =>
      have hwithin : ∀ entry ∈ [("url", Json.string url), ("timeout", timeout.toJson)],
          IsWithin 125 entry.2 := by
        intro entry hentry
        simp only [List.mem_cons, List.not_mem_nil, or_false] at hentry
        rcases hentry with rfl | rfl
        · exact isWithin_string _ _
        · exact isWithin_string _ _
      obtain ⟨node, entries, value, hkind, hvalue, hsection, hlookup⟩ :=
        kind?_ofMembers (rfl : (Registry.http url timeout).toJson = _) (by simp) hwithin
      have htimeout : optional entries "timeout" (fun node => (exactText? node).bind fun _ =>
          duration? node) (.ofSeconds 5) = some timeout := by
        refine optional_eq (hlookup "timeout") ?_
        rw [duration?_toJson hfits, Duration.toJson, exactText?_ofJson]
        rfl
      simp only [hkind, registry?, hdepth, hvalue, hsection, Option.bind_eq_bind, Option.bind_some,
        required_eq (hlookup "url") (exactText?_ofJson url), htimeout]
      rfl

/-! ## Settings as a whole -/

theorem discovery?_toJson {discovery : Discovery}
    (hinterval : discovery.refreshInterval.seconds < Duration.wordLimit)
    (hregistry : discovery.registry.Fits) : discovery? (.ofJson discovery.toJson) = some discovery := by
  obtain ⟨entries, hsection, hlookup⟩ := section?_ofMembers (rfl : discovery.toJson = _) (by simp)
  simp only [discovery?, hsection, optional_eq (hlookup "self_name") (text?_ofJson discovery.selfName),
    optional_eq (hlookup "scheme") (text?_ofJson discovery.scheme),
    optional_eq (hlookup "doc_path") (text?_ofJson discovery.docPath),
    optional_eq (hlookup "refresh_interval") (duration?_toJson hinterval),
    optional_eq (hlookup "registry") (registry?_toJson hregistry)]
  rfl

theorem read_toJson {settings : Settings} (hfits : settings.Fits) :
    ofNode? (.ofJson settings.toJson) = some settings := by
  obtain ⟨entries, hsection, hlookup⟩ := section?_ofMembers (rfl : settings.toJson = _) (by simp)
  simp only [ofNode?, hsection, optional_eq (hlookup "server") (server?_toJson hfits.port),
    optional_eq (hlookup "gateway") (gateway?_toJson hfits.breakerTimeout),
    optional_eq (hlookup "discovery") (discovery?_toJson hfits.refreshInterval hfits.registry),
    optional_eq (hlookup "auth") (auth?_toJson hfits.leeway),
    optional_eq (hlookup "routing") (routing?_toJson settings.routing),
    optional_eq (hlookup "circuit_breaker") (breaker?_toJson hfits.failureThreshold hfits.openDuration
      hfits.successThreshold hfits.trialLimit),
    optional_eq (hlookup "logging") (logging?_toJson settings.logging),
    optional_eq (hlookup "metrics") (metrics?_toJson settings.metrics)]
  rfl

/-- Settings that are written are read back as they were: whatever the kind of the registry, with or
without the settings of tokens, with all texts, lists and choices.  So is every duration from its text. -/
theorem ofNode?_toJson :
    (∀ settings : Settings, settings.Fits → ofNode? (.ofJson settings.toJson) = some settings) ∧
      ∀ duration : Duration, duration.seconds < Duration.wordLimit →
        Duration.parse duration.text = .ok duration :=
  ⟨fun _ hfits => read_toJson hfits, fun _ hfits => Duration.parse_text hfits⟩

/-- Settings with a remote registry and with tokens, and the longest duration of all. -/
theorem ofNode?_toJson_remote :
    let settings : Settings :=
      { discovery := { registry := .http "http://registry:8500" ⟨1500000001⟩ }
        auth := { jwt := some ⟨"secret", ⟨2719976000000000⟩⟩ } }
    settings.Fits ∧ ofNode? (.ofJson settings.toJson) = some settings ∧
      Duration.parse (Duration.text ⟨18446744073709551615999999999⟩) =
        .ok ⟨18446744073709551615999999999⟩ := by
  intro settings
  have hfits : settings.Fits :=
    { port := by decide
      breakerTimeout := by decide
      refreshInterval := by decide
      registry := by unfold Registry.Fits; decide
      leeway := fun jwt hjwt => by cases hjwt; decide
      failureThreshold := by decide
      openDuration := by decide
      successThreshold := by decide
      trialLimit := by decide }
  exact ⟨hfits, ofNode?_toJson.1 settings hfits, ofNode?_toJson.2 _ (by decide)⟩

end ApiGateway.Settings
