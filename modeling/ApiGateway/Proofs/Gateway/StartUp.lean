import ApiGateway.Gateway.Basic
import ApiGateway.Metrics
import ApiGateway.Proofs.Net.Host
import ApiGateway.Proofs.Settings.Validity

/-!
# Starting a gateway

Settings are read once more when a gateway starts: the patterns of its paths, the level and the format of
its logs, the address of its counters, and the address at which it is to be reached.  What validation has
accepted is read there without failure, but for the last: of the host validation asks only that there is
one.
-/

namespace ApiGateway

namespace Logging

/-- A level is a filter for all targets. -/
theorem checkFilters_of_isLevel {name : String} (hlevel : isLevel name = true) :
    checkFilters (Text.lower name.toList) = .ok () := by
  have hlevels : ∀ level ∈ levels, checkFilters level.toList = .ok () := by decide +kernel
  rw [isLevel, List.contains_iff_mem] at hlevel
  have hfilter := hlevels (lower name) hlevel
  rwa [lower, String.toList_ofList] at hfilter

theorem exists_check {settings : Settings.Logging} (hproblems : settings.problems = []) :
    ∃ format, Format.parse settings.format = .ok format ∧ check settings = .ok format := by
  simp only [Settings.Logging.problems, Settings.found_eq_nil_iff, List.mem_cons, List.not_mem_nil,
    or_false, forall_eq_or_imp, forall_eq, Bool.not_eq_false'] at hproblems
  obtain ⟨hlevel, hformat⟩ := hproblems
  cases hparse : Format.parse settings.format with
  | error other =>
      rw [hparse] at hformat
      cases hformat
  | ok format =>
      refine ⟨format, rfl, ?_⟩
      rw [check, checkFilters_of_isLevel hlevel, hparse]
      rfl

end Logging

/-- Counters are served at an address if and only if they are to be served. -/
theorem Metrics.exists_address {settings : Settings.Metrics} (hproblems : settings.problems = []) :
    ∃ found, address settings = .ok found ∧ found.isSome = settings.enabled := by
  simp only [Settings.Metrics.problems, Settings.found_eq_nil_iff, List.mem_singleton, forall_eq,
    Bool.and_eq_false_imp, Option.isNone_eq_false_iff] at hproblems
  cases henabled : settings.enabled with
  | false => exact ⟨none, by rw [address, henabled]; rfl, rfl⟩
  | true =>
      obtain ⟨found, hparse⟩ := Option.isSome_iff_exists.mp (hproblems henabled)
      exact ⟨some found, by rw [address, henabled, hparse]; rfl, rfl⟩

namespace Gateway

/-! ## Building -/

/-- The chain of a gateway before anything is known: its collector holds back the error paths. -/
theorem chain_of_ofSettings {settings : Settings} {now : Nat} {id : String} {gateway : Gateway}
    (hgateway : ofSettings settings now id = .ok gateway) :
    ∃ errorPaths, Path.Patterns.parse settings.gateway.errorPathPatterns = .ok errorPaths ∧
      gateway.chain = {
        sieves := ⟨[Discovery.excludeSelf settings.discovery.selfName]⟩
        processors := Route.standardPipeline settings.gateway settings.routing id
        cache := { scheme := settings.discovery.scheme }
        collector := {
          selfName := settings.discovery.selfName
          sieves := ⟨[Discovery.excludePaths errorPaths]⟩ }
        table := .empty settings.routing.collisionPolicy } := by
  cases herror : Path.Patterns.parse settings.gateway.errorPathPatterns with
  | error problem =>
      rw [ofSettings, herror] at hgateway
      cases hgateway
  | ok errorPaths =>
      cases hpublic : Path.Patterns.parse settings.gateway.publicPathPatterns with
      | error problem =>
          rw [ofSettings, herror, hpublic] at hgateway
          cases hgateway
      | ok publicPaths =>
          rw [ofSettings, herror, hpublic] at hgateway
          cases hgateway
          exact ⟨errorPaths, rfl, rfl⟩

theorem exists_ofSettings {settings : Settings} (hvalid : settings.validate = .ok ()) (now : Nat)
    (id : String) : ∃ gateway, ofSettings settings now id = .ok gateway := by
  obtain ⟨⟨publicPaths, hpublic⟩, errorPaths, herror⟩ := Settings.patterns_of_validate hvalid
  rw [ofSettings, herror, hpublic]
  exact ⟨_, rfl⟩

theorem exists_bindAddress_iff {server : Settings.Server} (hport : server.port ≤ 65535) :
    (∃ address, bindAddress server = .ok address) ↔
      Net.SocketAddress.IsHost server.bindAddress.toList := by
  rw [← Net.SocketAddress.parse?_isSome_iff server.bindAddress hport, bindAddress]
  cases Net.SocketAddress.parse? (server.bindAddress ++ ":" ++ toString server.port) with
  | none => simp
  | some address => simp

/-! ## Start -/

/-- All that validation accepts is read without failure when a gateway starts, but for the address at
which it is to be reached: that is read if and only if the host is four numbers, or pieces in brackets
with an optional scope. -/
theorem starts_of_validate {settings : Settings} (hvalid : settings.validate = .ok ())
    (hport : settings.server.port ≤ 65535) (now : Nat) (id : String) :
    (∃ publicPaths errorPaths gateway,
      Path.Patterns.parse settings.gateway.publicPathPatterns = .ok publicPaths ∧
        Path.Patterns.parse settings.gateway.errorPathPatterns = .ok errorPaths ∧
        ofSettings settings now id = .ok gateway) ∧
      (∃ format, Logging.Format.parse settings.logging.format = .ok format ∧
        Logging.check settings.logging = .ok format) ∧
      (∃ found, Metrics.address settings.metrics = .ok found ∧
        found.isSome = settings.metrics.enabled) ∧
      ((∃ address, bindAddress settings.server = .ok address) ↔
        Net.SocketAddress.IsHost settings.server.bindAddress.toList) := by
  obtain ⟨⟨publicPaths, hpublic⟩, errorPaths, herror⟩ := Settings.patterns_of_validate hvalid
  obtain ⟨gateway, hgateway⟩ := exists_ofSettings hvalid now id
  have haccepted := Settings.isAccepted_of_validate hvalid
  exact ⟨⟨publicPaths, errorPaths, gateway, hpublic, herror, hgateway⟩,
    Logging.exists_check haccepted.logging,
    Metrics.exists_address haccepted.metrics,
    exists_bindAddress_iff hport⟩

/-- A gateway with an address of the sixth version, and with paths, a level and a format of its own. -/
def ownSettings : Settings where
  server := { bindAddress := "[fe80::1%2]", port := 8443 }
  gateway := {
    publicPathPatterns := ["/auth/**", "/users/\x7bid\x7d/picture"]
    errorPathPatterns := ["/error/**", "/problem?"] }
  logging := { level := "WARN", format := "Text" }
  metrics := { listenAddress := "[::1]:9091" }

theorem starts_of_validate_own : ∃ gateway format address counters,
    ofSettings ownSettings 0 "r1" = .ok gateway ∧
      Logging.check ownSettings.logging = .ok format ∧
      Metrics.address ownSettings.metrics = .ok (some counters) ∧
      bindAddress ownSettings.server = .ok address := by
  have hvalid : ownSettings.validate = .ok () := by
    rw [Settings.validate_eq_ok_iff]
    decide +kernel
  obtain ⟨⟨-, -, gateway, -, -, hgateway⟩, ⟨format, -, hformat⟩, ⟨found, hmetrics, hserved⟩, hreached⟩ :=
    starts_of_validate hvalid (by decide) 0 "r1"
  obtain ⟨counters, rfl⟩ := Option.isSome_iff_exists.mp (hserved.trans rfl)
  have hhost : Net.SocketAddress.IsHost ownSettings.server.bindAddress.toList :=
    Or.inr ⟨"fe80::1%2".toList, ([0xfe80, 0, 0, 0, 0, 0, 0, 1], 2), by decide +kernel, by decide +kernel⟩
  obtain ⟨address, haddress⟩ := hreached.mpr hhost
  exact ⟨gateway, format, address, counters, hgateway, hformat, hmetrics, haddress⟩

/-- The host of an address of the sixth version without brackets is accepted, and no address. -/
theorem not_starts_of_validate : ¬ ∀ (settings : Settings) (now : Nat) (id : String),
    settings.validate = .ok () → settings.server.port ≤ 65535 →
    (∃ gateway, ofSettings settings now id = .ok gateway) ∧
      (∃ address, bindAddress settings.server = .ok address) ∧
      (∃ format, Logging.check settings.logging = .ok format) ∧
      (∃ found, Metrics.address settings.metrics = .ok found) := by
  intro hstarts
  have hvalid : Settings.validate { server := { bindAddress := "::1" } } = .ok () := by
    rw [Settings.validate_eq_ok_iff]
    decide +kernel
  obtain ⟨-, ⟨address, hreached⟩, -⟩ := hstarts _ 0 "r1" hvalid (by decide)
  have hunread : Net.SocketAddress.parse? ("::1" ++ ":" ++ toString 8080) = none := by decide +kernel
  rw [bindAddress, hunread] at hreached
  cases hreached

end Gateway

end ApiGateway
