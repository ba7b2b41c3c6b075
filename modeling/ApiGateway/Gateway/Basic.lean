import ApiGateway.Auth.Filter
import ApiGateway.Discovery.Chain
import ApiGateway.Discovery.Fetch
import ApiGateway.Net.SocketAddress
import ApiGateway.Proxy

/-!
# The gateway

A gateway is put together from its settings: the chain of discovery with its table, the authentication
filter, and the proxy.
-/

namespace ApiGateway

structure Gateway where
  settings : Settings
  chain : Discovery.Chain
  filter : Auth.Filter
  proxy : Proxy

namespace Gateway

/-- The extractor of a gateway goes by the authorization header; bearer tokens are checked if there are
settings for them. -/
def extractor (settings : Settings.Auth) (now : Nat) : Auth.Extractor :=
  let schemes : Auth.Schemes :=
    match settings.jwt with
    | some jwt => Auth.Schemes.withBearer {} (.ofSettings jwt) now
    | none => {}
  .composite [.header schemes]

/-- Put a gateway together.  `now` is the time in seconds, `id` the identifier of the routes. -/
def ofSettings (settings : Settings) (now : Nat) (id : String) : Except Failure Gateway := do
  let errorPaths ← (Path.Patterns.parse settings.gateway.errorPathPatterns).mapError (·.failure)
  let publicPaths ← (Path.Patterns.parse settings.gateway.publicPathPatterns).mapError (·.failure)
  return {
    settings
    chain := {
      sieves := ⟨[Discovery.excludeSelf settings.discovery.selfName]⟩
      processors := Route.standardPipeline settings.gateway settings.routing id
      cache := { scheme := settings.discovery.scheme }
      collector := {
        selfName := settings.discovery.selfName
        sieves := ⟨[Discovery.excludePaths errorPaths]⟩ }
      table := .empty settings.routing.collisionPolicy }
    filter := ⟨[extractor settings.auth now], publicPaths, settings.gateway.breakerTimeout⟩
    proxy := {
      resolver := { scheme := settings.discovery.scheme }
      breakers := { settings := settings.breaker } } }

/-- The address at which a gateway is to be reached. -/
def bindAddress (settings : Settings.Server) : Except Failure Net.SocketAddress :=
  match Net.SocketAddress.parse? (settings.bindAddress ++ ":" ++ toString settings.port) with
  | some address => .ok address
  | none => .error (.configuration ("Invalid bind address: " ++ Net.SocketAddress.parseFailure))

/-! ## Discovery -/

/-- The proxy hears of an event: it forgets what is lost. -/
def hearLoss (proxy : Proxy) : Discovery.Event → Proxy
  | .lost application => proxy.evict application.name
  | .found _ | .refreshed _ => proxy

/-- Collector and proxy hear of one event of the applications. -/
def hear (gateway : Gateway) : Gateway :=
  let (chain, event) := gateway.chain.hear
  { gateway with chain, proxy := (event.map (hearLoss gateway.proxy)).getD gateway.proxy }

/-- End the collections under way with documents that are fetched now. -/
def completeAll (send : Http.Outgoing → Http.Exchange) (gateway : Gateway) : Gateway :=
  gateway.chain.running.foldl (fun gateway application =>
    let (resolver, fetched) := Discovery.fetchDocument gateway.proxy.resolver gateway.chain.cache.addresses
      send gateway.settings.discovery.docPath application
    { gateway with
      chain := gateway.chain.complete application fetched
      proxy := { gateway.proxy with resolver } }) gateway

def times (count : Nat) (step : Gateway → Gateway) (gateway : Gateway) : Gateway :=
  (List.range count).foldl (fun gateway _ => step gateway) gateway

/-- Let all that was told be heard and all collections end. -/
def settle (send : Http.Outgoing → Http.Exchange) (gateway : Gateway) : Gateway :=
  let gateway := completeAll send (times gateway.chain.discovered.length hear gateway)
  times gateway.chain.collected.length (fun gateway => { gateway with chain := gateway.chain.assemble.1 })
    gateway

/-- Take over the members of the registry. -/
def refresh (gateway : Gateway) (members : Except Failure Discovery.Membership) : Gateway :=
  { gateway with chain := (gateway.chain.refresh members).1 }

end Gateway

end ApiGateway
