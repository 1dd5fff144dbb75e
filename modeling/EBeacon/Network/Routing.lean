import EBeacon.Network.CacheKey
import EBeacon.Network.Execute

namespace EBeacon.Network

open Text Upstream

structure PathMethodRule where
  re : String → Bool
  methods : Option (List String)

def PathMethodRule.isMatch (r : PathMethodRule) (method path : String) : Bool :=
  r.methods.all (·.contains method) && r.re path

structure ClientRoute where
  pathPrefix : String
  upstreamID : String
  deriving DecidableEq, Repr

structure RouteRule where
  rule : PathMethodRule
  upstreamID : String
  deny : Bool

structure Policy where
  re : String → Bool
  methods : List String
  ttl : Int64

/-- `singleflight.Group`: which of the calls so far a caller joins, by their keys and whether they are running. -/
structure Singleflight where
  join : String → List (Option String × Bool) → Option ℕ
  join_key : ∀ key calls i, join key calls = some i → ∃ running, calls[i]? = some (some key, running)

/-- What a network is configured with. `failsafe` stands for `effectiveFailsafe` of GET requests,
`parseURL` for `url.Parse`, and `policies` is `none` when the network has no cache. -/
structure Config where
  id : String
  clientRoutes : List ClientRoute
  routeRules : List RouteRule
  blocked : List (String → Bool)
  stickySession : Bool
  policies : Option (List Policy)
  failsafe : String → FailsafeConfig
  normalizeAPIPath : String → String
  acceptPrefersSSZ : String → Bool
  parseURL : String → Option URL
  digest : Digest
  inflight : Singleflight
  genesisTime : Int64
  secondsPerSlot : Int64
  maxResponseBytes : Int64

structure Request where
  url : URL
  useUpstream : String
  accept : String
  body : String
  deriving DecidableEq, Repr

def isCleanPath (p : String) : Bool :=
  if contains p ";" then false else p = "" || p = "/" || clean p = trimSuffix p "/"

def knownClientTypes : List String :=
  ["lighthouse", "prysm", "teku", "nimbus", "lodestar", "grandine", "caplin"]

def isKnownClientType (name : String) : Bool := knownClientTypes.contains (toLower name)

def applyClientPrefix : List ClientRoute → String → String × String
  | [], path => (path, "")
  | cr :: routes, path =>
    let base := trimSuffix cr.pathPrefix "/"
    if base = "" ∨ (path ≠ base ∧ !hasPrefix path cr.pathPrefix) then applyClientPrefix routes path
    else
      let rest := if hasPrefix path cr.pathPrefix then trimPrefix path cr.pathPrefix else ""
      let rest := if rest ≠ "" ∧ !hasPrefix rest "/" then "/" ++ rest else rest
      let trimmed := trimPrefix (if rest = "" then "/" else rest) "/"
      if hasPrefix trimmed "eth/v" ∨ trimmed = "healthz" then ("/" ++ trimmed, cr.upstreamID)
      else (path, cr.upstreamID)

def matchRouteRule (rules : List RouteRule) (method path : String) : Option (Bool × String) :=
  (rules.find? (fun r => r.rule.isMatch method path)).map (fun r =>
    if r.deny then (true, "") else (false, r.upstreamID))

def inferClientSelectorPath (pool : Pool) (path : String) : Option (String × String) :=
  let trimmed := trimPrefix path "/"
  match index trimmed "/" with
  | none => none
  | some i =>
    let selector := take trimmed i
    let rest := drop trimmed (i + 1)
    let clientType := toLower selector
    if selector = "" ∨ (!hasPrefix rest "eth/v" ∧ rest ≠ "healthz") then none
    else if isKnownClientType selector && pool.hasMatching ⟨"", clientType, ""⟩ then
      some ("/" ++ rest, "client:" ++ clientType)
    else if (pool.byID selector).isSome then some ("/" ++ rest, selector)
    else none

def cloneWithPath (u : URL) (path : String) : URL :=
  if path = u.path then u else { u with path := path, rawPath := "" }

def Config.rewriteClientPath (cfg : Config) (pool : Pool) (u : URL) : URL × String :=
  let (path, clientUpstream) := applyClientPrefix cfg.clientRoutes u.path
  if clientUpstream ≠ "" then (cloneWithPath u path, clientUpstream)
  else match inferClientSelectorPath pool u.path with
    | some (path, clientUpstream) => (cloneWithPath u path, clientUpstream)
    | none => (u, "")

def upstreamDirective (r : Request) : String :=
  let header := trimSpace r.useUpstream
  if header ≠ "" then header else trimSpace (URL.get r.url.query "use-upstream")

def promoteClientType (pool : Pool) (sel : Selector) : Selector :=
  let byType : Selector := ⟨"", toLower sel.id, ""⟩
  if sel.id ≠ "" && isKnownClientType sel.id && pool.hasMatching byType then byType else sel

def directiveSelector (pool : Pool) (directive : String) : Selector :=
  promoteClientType pool (.parseSelector directive)

structure Routed where
  url : URL
  preferID : String
  cacheScope : String
  required : Selector
  deriving DecidableEq, Repr

-- the precedence is directive, route rule, client path, sticky session
def Config.route (cfg : Config) (pool : Pool) (sticky : String) (r : Request) (url : URL)
    (clientUpstream ruleUpstream : String) : Routed :=
  let directive := upstreamDirective r
  if directive ≠ "" then
    let required := directiveSelector pool directive
    ⟨url, "", required.string, required⟩
  else if ruleUpstream ≠ "" then ⟨url, ruleUpstream, ruleUpstream, .zero⟩
  else if clientUpstream ≠ "" then
    let required := Selector.parseSelector clientUpstream
    ⟨url, "", required.string, required⟩
  else ⟨url, if cfg.stickySession then sticky else "", "", .zero⟩

def isEventStream (r : Request) (path : String) : Bool :=
  let trimmed := String.ofList (path.toList.reverse.dropWhile (· = '/')).reverse
  contains r.accept "text/event-stream" || hasSuffix trimmed "/events"

structure Limits where
  globalAllows : Bool
  perIPAllows : Bool
  deriving DecidableEq, Repr

inductive Admission
  | answered
  | rejected (status : ℕ)
  | eventStream (routed : Routed)
  | admitted (routed : Routed)
  deriving DecidableEq, Repr

def Config.admission (cfg : Config) (pool : Pool) (limits : Limits) (sticky : String) (r : Request) :
    Admission :=
  let (url, clientUpstream) := cfg.rewriteClientPath pool r.url
  let rule := matchRouteRule cfg.routeRules "GET" url.path
  if url.path = "/eth/v1/node/health" ∨ url.path = "/healthz" then .answered
  else if !isCleanPath url.path then .rejected 400
  else if cfg.blocked.any (· url.path) then .rejected 403
  else if rule.any Prod.fst then .rejected 403
  else if !limits.globalAllows || !limits.perIPAllows then .rejected 429
  else
    let routed := cfg.route pool sticky r url clientUpstream ((rule.map Prod.snd).getD "")
    if isEventStream r url.path then .eventStream routed else .admitted routed

-- the selector that a request carries in its header, its query or its client path, the first that is
-- enabled
def Config.hardSelector (cfg : Config) (pool : Pool) (r : Request) : Selector :=
  let header := directiveSelector pool (trimSpace r.useUpstream)
  let query := directiveSelector pool (trimSpace (URL.get r.url.query "use-upstream"))
  if header.enabled then header
  else if query.enabled then query
  else .parseSelector (cfg.rewriteClientPath pool r.url).2

end EBeacon.Network
