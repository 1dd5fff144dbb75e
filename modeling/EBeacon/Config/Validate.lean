import EBeacon.Config.Failsafe
import EBeacon.Library.Text

namespace EBeacon.Config

open Check Text

structure FailsafeOverride where
  pathPattern : String
  methods : List String := []
  failsafe : FailsafeConfig

structure RateLimitConfig where
  limit : Float64
  burst : Int64

structure RateLimitingConfig where
  perIP : Option RateLimitConfig := none
  global : Option RateLimitConfig := none

structure HealthConfig where
  checkInterval : Int64 := 0
  finalityInterval : Int64 := 0

structure UpstreamRateLimitConfig where
  adjustmentPeriod : Int64 := 0

structure UpstreamConfig where
  id : String
  url : String
  failsafe : Option FailsafeConfig := none
  rateLimiting : Option UpstreamRateLimitConfig := none

structure ClientRouteConfig where
  pathPrefix : String
  upstreamID : String

structure RouteRuleConfig where
  pathPattern : String
  methods : List String := []
  upstreamID : String := ""
  deny : Bool := false

structure RoutingConfig where
  loadBalancing : String := ""
  stickyTimeout : Int64 := 0
  blockedPaths : List String := []
  rebalanceInterval : Int64 := 0
  clientRoutes : List ClientRouteConfig := []
  routeRules : List RouteRuleConfig := []

structure RedisConfig where
  url : String

structure CachePolicy where
  pattern : String
  ttl : Int64 := 0
  methods : List String := []

structure CacheConfig where
  enabled : Bool := false
  maxSize : Int64 := 0
  driver : String := ""
  redis : Option RedisConfig := none
  policies : List CachePolicy := []

structure NetworkConfig where
  id : String
  secondsPerSlot : Int64 := 0
  slotsPerEpoch : Int64 := 0
  upstreams : List UpstreamConfig := []
  failsafe : Option FailsafeConfig := none
  failsafeOverrides : List FailsafeOverride := []
  routing : RoutingConfig := {}
  cache : CacheConfig := {}
  health : Option HealthConfig := none
  rateLimiting : Option RateLimitingConfig := none

structure ServerConfig where
  port : Int64 := 0
  maxTimeout : Int64 := 0
  maxResponseBodyBytes : Int64 := 0
  trustedProxies : List String := []

structure DebugLoggingConfig where
  enabled : Bool := false
  path : String := ""
  maxSizeMB : Int64 := 0
  maxBackups : Int64 := 0
  maxBodyBytes : Int64 := 0

structure CORSConfig where
  allowedOrigins : List String := []
  allowedMethods : List String := []
  allowedHeaders : List String := []
  exposedHeaders : List String := []
  maxAge : Int64 := 0

structure TierConfig where
  name : String
  rateLimiting : Option RateLimitConfig := none

structure APIKeyConfig where
  id : String
  secret : String
  tier : String := ""
  rateLimiting : Option RateLimitConfig := none

structure AuthConfig where
  secret : String := ""
  keys : List APIKeyConfig := []
  tiers : List TierConfig := []

structure MetricsConfig where
  enabled : Bool := false
  path : String := ""

structure StateConfig where
  driver : String := ""
  redis : Option RedisConfig := none

structure UIConfig where
  enabled : Bool := false
  basePath : String := ""
  auth : Option AuthConfig := none

structure Config where
  logLevel : String := ""
  server : ServerConfig := {}
  debugLogging : DebugLoggingConfig := {}
  cors : Option CORSConfig := none
  failsafe : FailsafeConfig := {}
  health : HealthConfig := {}
  rateLimiting : RateLimitingConfig := {}
  auth : Option AuthConfig := none
  metrics : MetricsConfig := {}
  state : StateConfig := {}
  ui : UIConfig := {}
  legacyProjects : Bool := false
  networks : List NetworkConfig := []

/-- What validation takes from outside the package. A compiled pattern is the set of paths that it
matches; `parseURL` gives the scheme and the host. -/
structure Env where
  quote : String → String
  compile : String → Except String (String → Bool)
  parseCIDR : String → Bool
  parseAddr : String → Bool
  parseURL : String → Except String (String × String)

variable (env : Env)

def compiles (pattern reason : String) : Check :=
  match env.compile pattern with
  | .error e => .error (reason ++ e)
  | .ok _ => .ok ()

def isAlphanumeric (c : Char) : Bool := 'A' ≤ c && c ≤ 'Z' || 'a' ≤ c && c ≤ 'z' || isDigit c

def validIdentifierPattern : String := "[A-Za-z0-9][A-Za-z0-9._-]*"

def validIdentifier (s : String) : Bool :=
  match s.toList with
  | [] => false
  | c :: cs => isAlphanumeric c && cs.all (fun c => isAlphanumeric c || c ∈ ['.', '_', '-'])

def controls : List (List Char) :=
  (List.range 32).map (fun n => [Char.ofNat n]) ++ ['\x7f'] ::
    (List.range 32).map (fun n => ['\xc2', Char.ofNat (128 + n)])

def hasControlOrSpace (s : String) : Bool :=
  s.toList.tails.any (fun l => (controls ++ spaces).any (fun w => w.isPrefixOf l))

def validateLiteralServeMuxPath (name value : String) : Check := do
  reject (hasPrefix value "/" = false) (name ++ " must start with \"/\"")
  reject (containsAny value "\x7b\x7d?#" ∨ hasControlOrSpace value)
    (name ++ " must be a literal HTTP path without whitespace, control characters, wildcards, query, " ++
      "or fragment syntax, got " ++ env.quote value)
  let cleaned := clean value
  reject (value ≠ cleaned ∧ ¬(cleaned ≠ "/" ∧ value = cleaned ++ "/"))
    (name ++ " must be a clean HTTP path, got " ++ env.quote value)

def validateLogLevel (level : String) : Check :=
  reject (level ∉ ["debug", "info", "warn", "error"]) ("invalid logLevel " ++ env.quote level)

def validateServer (s : ServerConfig) : Check := do
  reject (s.port < 1 ∨ 65535 < s.port) "server.port must be between 1 and 65535"
  reject (s.maxTimeout ≤ 0) "server.maxTimeout must be > 0"
  reject (s.maxResponseBodyBytes ≤ 0) "server.maxResponseBodyBytes must be > 0"
  each (fun i tp =>
    reject (env.parseCIDR (trimSpace tp) = false ∧ env.parseAddr (trimSpace tp) = false)
      ("server.trustedProxies[" ++ toString i ++ "]: " ++ env.quote tp ++ " is not a valid CIDR or IP"))
    0 s.trustedProxies

def validateDebugLogging (dl : DebugLoggingConfig) : Check :=
  if dl.enabled = false then .ok ()
  else do
    reject (trimSpace dl.path = "") "debugLogging.path is required when debugLogging.enabled is true"
    reject (dl.maxSizeMB ≤ 0) "debugLogging.maxSizeMB must be > 0"
    reject (dl.maxBackups ≤ 0) "debugLogging.maxBackups must be > 0"
    reject (dl.maxBodyBytes ≤ 0) "debugLogging.maxBodyBytes must be > 0"

def validateCORSEntries (name : String) : List String → Check :=
  each (fun i entry => reject (trimSpace entry = "") (name ++ "[" ++ toString i ++ "] must not be empty")) 0

def validateCORS (cors : Option CORSConfig) : Check :=
  optional cors fun cors => do
    reject (cors.allowedOrigins = []) "cors.allowedOrigins must contain at least one origin"
    validateCORSEntries "cors.allowedOrigins" cors.allowedOrigins
    validateCORSEntries "cors.allowedMethods" cors.allowedMethods
    validateCORSEntries "cors.allowedHeaders" cors.allowedHeaders
    validateCORSEntries "cors.exposedHeaders" cors.exposedHeaders
    reject (cors.maxAge < 0) "cors.maxAge must be >= 0"

def validateHealth (h : HealthConfig) (ctx : String) : Check := do
  reject (h.checkInterval ≤ 0) (ctx ++ " checkInterval must be > 0")
  reject (h.finalityInterval ≤ 0) (ctx ++ " finalityInterval must be > 0")

def validatePartialHealth (h : Option HealthConfig) (ctx : String) : Check :=
  optional h fun h => do
    reject (h.checkInterval < 0) (ctx ++ " checkInterval must be >= 0")
    reject (h.finalityInterval < 0) (ctx ++ " finalityInterval must be >= 0")

def validateLimit (least : Int64) (ctx : String) (rl : RateLimitConfig) : Check := do
  reject (rl.limit ≤ 0) (ctx ++ " limit must be > 0")
  reject (rl.burst < least) (ctx ++ " burst must be >= " ++ toString least)

def validateRateLimit (rl : Option RateLimitConfig) (ctx : String) : Check :=
  optional rl (validateLimit 1 ctx)

def validateAuthRateLimit (rl : Option RateLimitConfig) (ctx : String) : Check :=
  optional rl (validateLimit 0 ctx)

def validateRateLimiting (rl : Option RateLimitingConfig) (ctx : String) : Check :=
  optional rl fun rl => do
    validateRateLimit rl.perIP (ctx ++ " perIP")
    validateRateLimit rl.global (ctx ++ " global")

def validateTier (ctx : String) (i : ℕ) (names : List String) (tier : TierConfig) : Check := do
  let tctx := ctx ++ ".tiers[" ++ toString i ++ "]"
  reject (tier.name = "") (tctx ++ ": name is required")
  reject (tier.name ∈ names) (tctx ++ ": duplicate tier name " ++ env.quote tier.name)
  validateAuthRateLimit tier.rateLimiting (tctx ++ " rateLimiting")

def validateKey (ctx : String) (tiers : List TierConfig) (i : ℕ) (ids : List String) (key : APIKeyConfig) :
    Check := do
  let kctx := ctx ++ ".keys[" ++ toString i ++ "]"
  reject (key.id = "") (kctx ++ ": id is required")
  reject (key.id ∈ ids) (kctx ++ ": duplicate key id " ++ env.quote key.id)
  reject (key.secret = "") (kctx ++ " (" ++ key.id ++ "): secret is required")
  reject (key.tier ≠ "" ∧ key.tier ∉ tiers.map (·.name))
    (kctx ++ " (" ++ key.id ++ "): unknown tier " ++ env.quote key.tier)
  validateAuthRateLimit key.rateLimiting (kctx ++ " rateLimiting")

def validateAuth (auth : Option AuthConfig) (ctx : String) : Check :=
  optional auth fun auth => do
    eachAfter (·.name) (validateTier env ctx) 0 [] auth.tiers
    eachAfter (·.id) (validateKey env ctx auth.tiers) 0 [] auth.keys
    reject (auth.secret ≠ "" ∧ "default" ∈ auth.keys.map (·.id))
      (ctx ++ ": key id \"default\" conflicts with the legacy secret, which authenticates as \"default\"")
    reject (auth.secret = "" ∧ auth.keys = [])
      (ctx ++ ": no secret or keys configured (did an env var in \"secret\" expand to empty?)")

def validateUpstreamURL (ctx raw : String) : Check :=
  match env.parseURL raw with
  | .error e => .error (ctx ++ "invalid url " ++ env.quote raw ++ ": " ++ e)
  | .ok (scheme, host) => do
    reject (scheme ≠ "http" ∧ scheme ≠ "https") (ctx ++ "url " ++ env.quote raw ++ " must use http or https")
    reject (host = "") (ctx ++ "url " ++ env.quote raw ++ " must include a host")

def validateUpstream (ctx : String) (i : ℕ) (ids : List String) (u : UpstreamConfig) : Check := do
  let uctx := ctx ++ " upstreams[" ++ toString i ++ "]"
  reject (u.id = "") (uctx ++ ": id is required")
  reject (validIdentifier u.id = false)
    (uctx ++ ": id " ++ env.quote u.id ++ " must match " ++ validIdentifierPattern)
  reject (u.id ∈ ids) (ctx ++ ": duplicate upstream id " ++ env.quote u.id)
  reject (u.url = "") (uctx ++ ": url is required")
  validateUpstreamURL env (uctx ++ ": ") u.url
  validateFailsafe u.failsafe (uctx ++ " failsafe")
  optional u.rateLimiting fun rl =>
    reject (rl.adjustmentPeriod < 0) (uctx ++ ": rateLimiting.adjustmentPeriod must be >= 0")

def validateCachePolicy (ctx : String) (i : ℕ) (p : CachePolicy) : Check := do
  let pctx := ctx ++ " cache.policies[" ++ toString i ++ "]"
  reject (p.pattern = "") (pctx ++ ": pattern is required")
  compiles env p.pattern (pctx ++ ": invalid pattern: ")
  reject (p.ttl < 0) (pctx ++ ": ttl must be >= 0")
  reject ("" ∈ p.methods.map trimSpace) (pctx ++ ": methods must not contain empty values")

def validateClientRoute (ctx : String) (ids : List String) (i : ℕ) (cr : ClientRouteConfig) : Check := do
  let rctx := ctx ++ " clientRoutes[" ++ toString i ++ "]"
  reject (cr.pathPrefix = "") (rctx ++ ": pathPrefix is required")
  reject (cr.upstreamID = "") (rctx ++ ": upstreamId is required")
  reject (hasPrefix cr.upstreamID "client:" = false ∧ cr.upstreamID ∉ ids)
    (rctx ++ ": unknown upstream id " ++ env.quote cr.upstreamID)

def validateRouteRule (ctx : String) (ids : List String) (i : ℕ) (rr : RouteRuleConfig) : Check := do
  let rctx := ctx ++ " routeRules[" ++ toString i ++ "]"
  reject (rr.pathPattern = "") (rctx ++ ": pathPattern is required")
  compiles env rr.pathPattern (rctx ++ ": invalid pathPattern: ")
  reject (rr.deny ∧ rr.upstreamID ≠ "") (rctx ++ ": deny and upstreamId are mutually exclusive")
  reject (rr.deny = false ∧ rr.upstreamID = "") (rctx ++ ": set upstreamId or deny: true")
  reject (rr.upstreamID ≠ "" ∧ rr.upstreamID ∉ ids)
    (rctx ++ ": unknown upstream id " ++ env.quote rr.upstreamID)
  reject ("" ∈ rr.methods) (rctx ++ ": empty method in methods list")

def validateNetworkRouting (n : NetworkConfig) (ctx : String) : Check := do
  each (validateClientRoute env ctx (n.upstreams.map (·.id))) 0 n.routing.clientRoutes
  each (validateRouteRule env ctx (n.upstreams.map (·.id))) 0 n.routing.routeRules

def validateNetwork (n : NetworkConfig) (ctx : String) : Check := do
  reject (n.upstreams = []) (ctx ++ ": at least one upstream is required")
  reject (n.secondsPerSlot ≤ 0) (ctx ++ ": secondsPerSlot must be > 0")
  reject (n.slotsPerEpoch ≤ 0) (ctx ++ ": slotsPerEpoch must be > 0")
  validateFailsafe n.failsafe (ctx ++ " failsafe")
  validatePartialHealth n.health (ctx ++ " health")
  validateRateLimiting n.rateLimiting (ctx ++ " rateLimiting")
  reject (n.routing.loadBalancing ∉ ["round-robin", "random", "least-conn", "score", ""])
    (ctx ++ ": invalid loadBalancing " ++ env.quote n.routing.loadBalancing)
  reject (n.routing.stickyTimeout ≤ 0) (ctx ++ ": stickyTimeout must be > 0")
  reject (n.routing.rebalanceInterval ≤ 0) (ctx ++ ": rebalanceInterval must be > 0")
  each (fun i pattern => compiles env pattern (ctx ++ " blockedPaths[" ++ toString i ++ "]: invalid regex: "))
    0 n.routing.blockedPaths
  reject (n.cache.maxSize ≤ 0) (ctx ++ " cache.maxSize must be > 0")
  reject (n.cache.driver ∉ ["memory", "redis", ""])
    (ctx ++ " cache.driver must be \"memory\" or \"redis\", got " ++ env.quote n.cache.driver)
  reject (n.cache.enabled ∧ n.cache.driver = "redis" ∧ (n.cache.redis.map (·.url)).getD "" = "")
    (ctx ++ " cache.redis.url is required when cache.driver is \"redis\"")
  each (validateCachePolicy env ctx) 0 n.cache.policies
  eachAfter (·.id) (validateUpstream env ctx) 0 [] n.upstreams
  validateNetworkRouting env n ctx

def orElseHealth (net : Option HealthConfig) (global : HealthConfig) : HealthConfig :=
  match net with
  | none => global
  | some h => ⟨orElse h.checkInterval global.checkInterval, orElse h.finalityInterval global.finalityInterval⟩

namespace Config

variable (c : Config)

def effectiveHealth (n : NetworkConfig) : HealthConfig := orElseHealth n.health c.health

def validateMetrics : Check :=
  if c.metrics.enabled then do
    validateLiteralServeMuxPath env "metrics.path" c.metrics.path
    reject (trimRight '/' c.metrics.path = "") "metrics.path must not be \"/\" (it would shadow the proxy root)"
    reject (c.ui.enabled ∧ trimRight '/' c.metrics.path = trimRight '/' c.ui.basePath)
      ("metrics.path " ++ env.quote c.metrics.path ++ " conflicts with ui.basePath " ++ env.quote c.ui.basePath)
  else .ok ()

def validateUIPath : Check :=
  if c.ui.enabled then do
    validateLiteralServeMuxPath env "ui.basePath" c.ui.basePath
    reject (trimRight '/' c.ui.basePath = "") "ui.basePath must not be the root path"
  else .ok ()

def validateEntry (i : ℕ) (ids : List String) (n : NetworkConfig) : Check := do
  let ctx := "networks[" ++ toString i ++ "]"
  reject (n.id = "") (ctx ++ ": id is required")
  reject (validIdentifier n.id = false) (ctx ++ ": id " ++ env.quote n.id ++ " must match " ++ validIdentifierPattern)
  reject (n.id ∈ ids) (ctx ++ ": duplicate network id " ++ env.quote n.id)
  validateNetwork env n (ctx ++ " (" ++ n.id ++ ")")
  validateHealth (c.effectiveHealth n) (ctx ++ " (" ++ n.id ++ ") effective health")

def validate : Check := do
  validateLogLevel env c.logLevel
  validateServer env c.server
  validateDebugLogging c.debugLogging
  validateCORS c.cors
  validateFailsafe (some c.failsafe) "failsafe"
  validateHealth c.health "health"
  validateRateLimiting (some c.rateLimiting) "rateLimiting"
  validateAuth env c.auth "auth"
  validateAuth env c.ui.auth "ui.auth"
  c.validateMetrics env
  reject (c.state.driver ∉ ["local", "redis", ""])
    ("state.driver must be \"local\" or \"redis\", got " ++ env.quote c.state.driver)
  reject (c.state.driver = "redis" ∧ (c.state.redis.map (·.url)).getD "" = "")
    "state.redis.url is required when state.driver is \"redis\""
  reject (c.ui.enabled ∧ (c.ui.auth.map (·.keys.length)).getD 0 = 0)
    "ui.auth with at least one key is required when ui.enabled is true"
  c.validateUIPath env
  reject c.legacyProjects
    "top-level \"projects\" is no longer supported; use top-level \"networks\" and optional \"auth\""
  reject (c.networks = []) "at least one network is required (configure \"networks\")"
  eachAfter (·.id) (c.validateEntry env) 0 [] c.networks

variable {env c}

theorem accepted_of_validate (h : c.validate env = .ok ()) :
    c.failsafe.Accepted ∧ ∀ n ∈ c.networks, ∀ f, n.failsafe = some f → f.Accepted := by
  unfold validate at h
  simp only [bind_eq_ok] at h
  obtain ⟨_, _, _, _, hfailsafe, _, _, _, _, _, _, _, _, _, _, _, hnetworks⟩ := h
  refine ⟨.of_validate hfailsafe rfl, fun n hn f hf => ?_⟩
  obtain ⟨i, ids, hentry⟩ := eachAfter_ok hnetworks hn
  unfold validateEntry at hentry
  simp only [bind_eq_ok] at hentry
  obtain ⟨_, _, _, hnetwork, _⟩ := hentry
  unfold validateNetwork at hnetwork
  simp only [bind_eq_ok] at hnetwork
  obtain ⟨_, _, _, hnet, _⟩ := hnetwork
  exact .of_validate hnet hf

end Config

end EBeacon.Config
