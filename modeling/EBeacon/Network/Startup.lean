import EBeacon.Config.Accepted
import EBeacon.Network.Budgets

/-!
How a network is built from the file. The checks of the file and the construction compile the same patterns at
different times.
-/

namespace EBeacon.Network

open Text Check

variable (env : Config.Env)

def normalizeClientPathPrefix (p : String) : String :=
  let p := trimSpace p
  if p = "" then ""
  else
    let p := if !hasPrefix p "/" then "/" ++ p else p
    if !hasSuffix p "/" then p ++ "/" else p

def compileClientRoute (cr : Config.ClientRouteConfig) : Except String ClientRoute :=
  if normalizeClientPathPrefix cr.pathPrefix = "" then .error "client route has empty pathPrefix after normalization"
  else .ok ⟨normalizeClientPathPrefix cr.pathPrefix, cr.upstreamID⟩

def compileRouteRule (rr : Config.RouteRuleConfig) : Except String RouteRule :=
  match compilePathMethodRule env rr.pathPattern rr.methods with
  | .error e => .error ("route rule pattern " ++ env.quote rr.pathPattern ++ ": " ++ e)
  | .ok rule => .ok ⟨rule, rr.upstreamID, rr.deny⟩

def compileRouting (cfg : Config.RoutingConfig) : Except String (List ClientRoute × List RouteRule) :=
  match cfg.clientRoutes.mapM compileClientRoute with
  | .error e => .error e
  | .ok clientRoutes =>
    match cfg.routeRules.mapM (compileRouteRule env) with
    | .error e => .error e
    | .ok routeRules => .ok (clientRoutes, routeRules)

def compileBlocked (patterns : List String) : List (String → Bool) :=
  patterns.filterMap (fun pattern => (env.compile pattern).toOption)

def defaultPolicies : List Config.CachePolicy :=
  [⟨"^/eth/v\\d+/beacon/genesis$", 0, []⟩,
    ⟨"^/eth/v\\d+/node/version$", 3600 * Config.second, []⟩,
    ⟨"^/eth/v\\d+/node/identity$", 3600 * Config.second, []⟩,
    ⟨"^/eth/v\\d+/node/peer_count$", 15 * Config.second, []⟩,
    ⟨"^/eth/v\\d+/node/peers", 30 * Config.second, []⟩,
    ⟨"^/eth/v\\d+/node/syncing$", 5 * Config.second, []⟩,
    ⟨"^/eth/v\\d+/beacon/headers$", 4 * Config.second, []⟩,
    ⟨"^/eth/v\\d+/beacon/headers/(head|finalized|justified)$", 4 * Config.second, []⟩,
    ⟨"^/eth/v\\d+/beacon/headers/", 12 * Config.second, []⟩,
    ⟨"^/eth/v\\d+/beacon/blocks/(head|finalized|justified)(/.*)?$", 4 * Config.second, []⟩,
    ⟨"^/eth/v\\d+/beacon/blocks/[^/]+/root$", 12 * Config.second, []⟩,
    ⟨"^/eth/v\\d+/beacon/blocks/[^/]+/attestations$", 12 * Config.second, []⟩,
    ⟨"^/eth/v\\d+/beacon/blocks/", 12 * Config.second, []⟩,
    ⟨"^/eth/v\\d+/beacon/blinded_blocks/(head|finalized|justified)(/.*)?$", 4 * Config.second, []⟩,
    ⟨"^/eth/v\\d+/beacon/blinded_blocks/", 12 * Config.second, []⟩,
    ⟨"^/eth/v\\d+/beacon/blobs/(head|finalized|justified)(/.*)?$", 4 * Config.second, []⟩,
    ⟨"^/eth/v\\d+/beacon/blobs/", 12 * Config.second, []⟩,
    ⟨"^/eth/v\\d+/beacon/blob_sidecars/(head|finalized|justified)(/.*)?$", 4 * Config.second, []⟩,
    ⟨"^/eth/v\\d+/beacon/blob_sidecars/", 12 * Config.second, []⟩,
    ⟨"^/eth/v\\d+/beacon/execution_payload_envelopes/(head|finalized|justified)$", 4 * Config.second, []⟩,
    ⟨"^/eth/v\\d+/beacon/execution_payload_envelopes/[^/]+$", 12 * Config.second, []⟩,
    ⟨"^/eth/v\\d+/beacon/rewards/blocks/[^/]+$", 12 * Config.second, []⟩,
    ⟨"^/eth/v\\d+/beacon/rewards/sync_committee/[^/]+$", 12 * Config.second, []⟩,
    ⟨"^/eth/v\\d+/beacon/rewards/attestations/[^/]+$", 30 * Config.second, []⟩,
    ⟨"^/eth/v\\d+/beacon/states/(head|finalized|justified)/root$", 4 * Config.second, []⟩,
    ⟨"^/eth/v\\d+/beacon/states/[^/]+/root$", 12 * Config.second, []⟩,
    ⟨"^/eth/v\\d+/beacon/states/(head|finalized|justified)/fork$", 4 * Config.second, []⟩,
    ⟨"^/eth/v\\d+/beacon/states/[^/]+/fork$", 12 * Config.second, []⟩,
    ⟨"^/eth/v\\d+/beacon/states/(head|finalized|justified)/finality_checkpoints$", 4 * Config.second, []⟩,
    ⟨"^/eth/v\\d+/beacon/states/[^/]+/finality_checkpoints$", 12 * Config.second, []⟩,
    ⟨"^/eth/v\\d+/beacon/states/(head|finalized|justified)/validators(?:/[^/]+)?$", 4 * Config.second, []⟩,
    ⟨"^/eth/v\\d+/beacon/states/[^/]+/validators(?:/[^/]+)?$", 6 * Config.second, []⟩,
    ⟨"^/eth/v\\d+/beacon/states/(head|finalized|justified)/validator_balances$", 4 * Config.second, []⟩,
    ⟨"^/eth/v\\d+/beacon/states/[^/]+/validator_balances$", 12 * Config.second, []⟩,
    ⟨"^/eth/v\\d+/beacon/states/(head|finalized|justified)/committees$", 4 * Config.second, []⟩,
    ⟨"^/eth/v\\d+/beacon/states/[^/]+/committees$", 12 * Config.second, []⟩,
    ⟨"^/eth/v\\d+/beacon/states/(head|finalized|justified)/sync_committees$", 4 * Config.second, []⟩,
    ⟨"^/eth/v\\d+/beacon/states/[^/]+/sync_committees$", 12 * Config.second, []⟩,
    ⟨"^/eth/v\\d+/beacon/states/(head|finalized|justified)/pending_deposits$", 4 * Config.second, []⟩,
    ⟨"^/eth/v\\d+/beacon/states/[^/]+/pending_deposits$", 12 * Config.second, []⟩,
    ⟨"^/eth/v\\d+/beacon/states/(head|finalized|justified)/pending_consolidations$", 4 * Config.second, []⟩,
    ⟨"^/eth/v\\d+/beacon/states/[^/]+/pending_consolidations$", 12 * Config.second, []⟩,
    ⟨"^/eth/v\\d+/beacon/states/(head|finalized|justified)/pending_partial_withdrawals$", 4 * Config.second, []⟩,
    ⟨"^/eth/v\\d+/beacon/states/[^/]+/pending_partial_withdrawals$", 12 * Config.second, []⟩,
    ⟨"^/eth/v\\d+/beacon/states/(head|finalized|justified)/randao$", 4 * Config.second, []⟩,
    ⟨"^/eth/v\\d+/beacon/states/[^/]+/randao$", 12 * Config.second, []⟩,
    ⟨"^/eth/v\\d+/beacon/states/(head|finalized|justified)/proposer_lookahead$", 4 * Config.second, []⟩,
    ⟨"^/eth/v\\d+/beacon/states/[^/]+/proposer_lookahead$", 12 * Config.second, []⟩,
    ⟨"^/eth/v\\d+/validator/duties/proposer/[^/]+$", 30 * Config.second, []⟩]

def compilePolicy (p : Config.CachePolicy) : Except String Policy :=
  match env.compile p.pattern with
  | .error e => .error ("cache policy pattern " ++ env.quote p.pattern ++ ": " ++ e)
  | .ok re => .ok ⟨re, if p.methods = [] then ["GET", "HEAD"] else p.methods.map toUpper, p.ttl⟩

def newCache (openRedis : Config.RedisConfig → Except String Unit) (cfg : Config.CacheConfig) :
    Except String (List Policy) :=
  match (if cfg.policies = [] then defaultPolicies else cfg.policies).mapM (compilePolicy env) with
  | .error e => .error e
  | .ok policies =>
    if cfg.driver = "redis" then
      match cfg.redis with
      | none => .error "redis config required when driver=redis"
      | some redis =>
        match openRedis redis with
        | .error e => .error ("redis cache: " ++ e)
        | .ok _ => .ok policies
    else .ok policies

def upstreamCircuitBreaker (base override : Option Config.CircuitBreakerConfig) : Config.CircuitBreakerConfig :=
  let base := base.getD Config.defaultCircuitBreaker
  (Config.mergeCircuitBreakerConfig (some base) override).getD base

structure Built where
  clientRoutes : List ClientRoute
  routeRules : List RouteRule
  blocked : List (String → Bool)
  policies : Option (List Policy)
  failsafes : Failsafes
  breakers : List (String × Config.CircuitBreakerConfig)

def Built.new (openRedis : Config.RedisConfig → Except String Unit) (c : Config.Config)
    (net : Config.NetworkConfig) : Except String Built :=
  let failsafes := Failsafes.new env c net
  if net.upstreams = [] then .error ("network " ++ net.id ++ ": at least one upstream is required")
  else match compileRouting env net.routing with
    | .error e => .error ("network " ++ net.id ++ ": routing: " ++ e)
    | .ok (clientRoutes, routeRules) =>
      match if net.cache.enabled then (newCache env openRedis net.cache).map some else .ok none with
      | .error e => .error ("network " ++ net.id ++ ": cache: " ++ e)
      | .ok policies => .ok {
        clientRoutes := clientRoutes
        routeRules := routeRules
        blocked := compileBlocked env net.routing.blockedPaths
        policies := policies
        failsafes := failsafes
        breakers := net.upstreams.map fun u =>
          (u.id, upstreamCircuitBreaker failsafes.failsafe.circuitBreaker (u.failsafe.bind (·.circuitBreaker))) }

section Routing

variable {env}

theorem normalizeClientPathPrefix_eq_empty {p : String} : normalizeClientPathPrefix p = "" ↔ trimSpace p = "" := by
  unfold normalizeClientPathPrefix
  generalize trimSpace p = p
  dsimp only
  split_ifs <;> simp_all

theorem compileClientRoute_ok {cr : Config.ClientRouteConfig} {route : ClientRoute} :
    compileClientRoute cr = .ok route ↔
      trimSpace cr.pathPrefix ≠ "" ∧ route = ⟨normalizeClientPathPrefix cr.pathPrefix, cr.upstreamID⟩ := by
  unfold compileClientRoute
  split_ifs with hblank
  · simp [normalizeClientPathPrefix_eq_empty.mp hblank]
  · simp [mt normalizeClientPathPrefix_eq_empty.mpr hblank, eq_comm]

def ruleApplies (env : Config.Env) (method path : String) (rr : Config.RouteRuleConfig) : Bool :=
  (env.compile rr.pathPattern).toOption.any fun re =>
    (PathMethodRule.mk re
      (if rr.methods = [] then none else some (rr.methods.map (fun m => toUpper (trimSpace m))))).isMatch method path

theorem exists_compileRouteRule {rr : Config.RouteRuleConfig} (h : ∃ re, env.compile rr.pathPattern = .ok re) :
    ∃ rule, compileRouteRule env rr = .ok rule := by
  obtain ⟨re, hre⟩ := h
  unfold compileRouteRule compilePathMethodRule
  rw [hre]
  exact ⟨_, rfl⟩

theorem compileRouteRule_ok {rr : Config.RouteRuleConfig} {rule : RouteRule}
    (h : compileRouteRule env rr = .ok rule) :
    (∀ method path, rule.rule.isMatch method path = ruleApplies env method path rr) ∧
      rule.upstreamID = rr.upstreamID ∧ rule.deny = rr.deny := by
  unfold compileRouteRule compilePathMethodRule at h
  unfold ruleApplies
  cases hre : env.compile rr.pathPattern with
  | error e =>
    rw [hre] at h
    cases h
  | ok re =>
    rw [hre] at h
    cases h
    exact ⟨fun _ _ => rfl, rfl, rfl⟩

theorem matchRouteRule_compiled {rules : List Config.RouteRuleConfig} {compiled : List RouteRule}
    (h : List.Forall₂ (fun rr rule => compileRouteRule env rr = .ok rule) rules compiled) (method path : String) :
    matchRouteRule compiled method path = (rules.find? (ruleApplies env method path)).map fun rr =>
      if rr.deny then (true, "") else (false, rr.upstreamID) := by
  unfold matchRouteRule
  induction h with
  | nil => rfl
  | cons hrule _ ih =>
    obtain ⟨hmatch, hid, hdeny⟩ := compileRouteRule_ok hrule
    rw [List.find?_cons, List.find?_cons, hmatch]
    cases ruleApplies env method path _ with
    | true => simp [hid, hdeny]
    | false => exact ih

theorem compileRouting_ok {cfg : Config.RoutingConfig} {routing : List ClientRoute × List RouteRule} :
    compileRouting env cfg = .ok routing ↔
      List.Forall₂ (fun cr route => compileClientRoute cr = .ok route) cfg.clientRoutes routing.1 ∧
        List.Forall₂ (fun rr rule => compileRouteRule env rr = .ok rule) cfg.routeRules routing.2 := by
  rw [← mapM_eq_ok, ← mapM_eq_ok]
  unfold compileRouting
  cases cfg.clientRoutes.mapM compileClientRoute with
  | error e => simp
  | ok routes =>
    cases cfg.routeRules.mapM (compileRouteRule env) with
    | error e => simp
    | ok rules => simp [Prod.ext_iff]

theorem exists_compileRouting {cfg : Config.RoutingConfig}
    (hrules : ∀ rr ∈ cfg.routeRules, ∃ re, env.compile rr.pathPattern = .ok re) :
    (∃ routing, compileRouting env cfg = .ok routing) ↔ ∀ cr ∈ cfg.clientRoutes, trimSpace cr.pathPrefix ≠ "" := by
  constructor
  · rintro ⟨routing, h⟩ cr hcr
    obtain ⟨hroutes, -⟩ := compileRouting_ok.mp h
    obtain ⟨route, hroute⟩ := exists_mapM_eq_ok.mp ⟨_, mapM_eq_ok.mpr hroutes⟩ cr hcr
    exact (compileClientRoute_ok.mp hroute).1
  · intro h
    obtain ⟨routes, hroutes⟩ := exists_mapM_eq_ok.mpr fun cr hcr => ⟨_, compileClientRoute_ok.mpr ⟨h cr hcr, rfl⟩⟩
    obtain ⟨rules, hrules⟩ := exists_mapM_eq_ok.mpr fun rr hrr => exists_compileRouteRule (hrules rr hrr)
    exact ⟨(routes, rules), compileRouting_ok.mpr ⟨mapM_eq_ok.mp hroutes, mapM_eq_ok.mp hrules⟩⟩

theorem any_compileBlocked {patterns : List String} {path : String} :
    (compileBlocked env patterns).any (· path) = true ↔
      ∃ pattern ∈ patterns, ∃ re, env.compile pattern = .ok re ∧ re path = true := by
  unfold compileBlocked
  simp only [List.any_eq_true, List.mem_filterMap]
  constructor
  · rintro ⟨re, ⟨pattern, hmem, hre⟩, hpath⟩
    refine ⟨pattern, hmem, re, ?_, hpath⟩
    cases hcompile : env.compile pattern with
    | error e =>
      rw [hcompile] at hre
      cases hre
    | ok re' =>
      rw [hcompile] at hre
      cases hre
      rfl
  · rintro ⟨pattern, hmem, re, hre, hpath⟩
    exact ⟨re, ⟨pattern, hmem, by rw [hre]; rfl⟩, hpath⟩

end Routing

section Cache

variable {env}

theorem exists_compilePolicy {p : Config.CachePolicy} (h : ∃ re, env.compile p.pattern = .ok re) :
    ∃ policy, compilePolicy env p = .ok policy := by
  obtain ⟨re, hre⟩ := h
  unfold compilePolicy
  rw [hre]
  exact ⟨_, rfl⟩

theorem exists_newCache (openRedis : Config.RedisConfig → Except String Unit) {cfg : Config.CacheConfig}
    (hdefaults : ∀ p ∈ defaultPolicies, ∃ re, env.compile p.pattern = .ok re)
    (hpolicies : ∀ p ∈ cfg.policies, ∃ re, env.compile p.pattern = .ok re)
    (hredis : cfg.driver = "redis" → cfg.redis ≠ none) :
    (∃ policies, newCache env openRedis cfg = .ok policies) ↔
      (cfg.driver = "redis" → ∀ r, cfg.redis = some r → openRedis r = .ok ()) := by
  have hcompile : ∀ p ∈ (if cfg.policies = [] then defaultPolicies else cfg.policies),
      ∃ policy, compilePolicy env p = .ok policy := by
    intro p hp
    apply exists_compilePolicy
    split_ifs at hp
    · exact hdefaults p hp
    · exact hpolicies p hp
  obtain ⟨policies, hok⟩ := exists_mapM_eq_ok.mpr hcompile
  unfold newCache
  rw [hok]
  dsimp only
  by_cases hdriver : cfg.driver = "redis"
  · rw [if_pos hdriver]
    cases hr : cfg.redis with
    | none => exact absurd hr (hredis hdriver)
    | some r =>
      dsimp only
      cases hopen : openRedis r with
      | error e => simp [hdriver, hopen]
      | ok u => simp [hopen]
  · rw [if_neg hdriver]
    simp [hdriver]

end Cache

namespace Built

variable {env} {openRedis : Config.RedisConfig → Except String Unit} {c : Config.Config} {net : Config.NetworkConfig}

structure InForce (env : Config.Env) (net : Config.NetworkConfig) (b : Built) : Prop where
  blocked : ∀ path, b.blocked.any (· path) = true ↔
    ∃ pattern ∈ net.routing.blockedPaths, ∃ re, env.compile pattern = .ok re ∧ re path = true
  routes : b.clientRoutes = net.routing.clientRoutes.map fun cr =>
    ⟨normalizeClientPathPrefix cr.pathPrefix, cr.upstreamID⟩
  rules : ∀ method path, matchRouteRule b.routeRules method path =
    (net.routing.routeRules.find? (ruleApplies env method path)).map fun rr =>
      if rr.deny then (true, "") else (false, rr.upstreamID)
  pinned : ∀ method path id, matchRouteRule b.routeRules method path = some (false, id) →
    id ∈ net.upstreams.map (·.id)
  ids : b.breakers.map Prod.fst = net.upstreams.map (·.id)
  breakers : ∀ breaker ∈ b.breakers, breaker.2.Sound

theorem upstreamCircuitBreaker_sound {base override : Option Config.CircuitBreakerConfig}
    (hb : ∀ cb, base = some cb → cb.Sound) (ho : ∀ cb, override = some cb → cb.Accepted) :
    (upstreamCircuitBreaker base override).Sound := by
  have hbase : (base.getD Config.defaultCircuitBreaker).Sound := by
    cases base with
    | none => exact Config.CircuitBreakerConfig.sound_default
    | some cb => exact hb cb rfl
  cases override with
  | none => exact hbase
  | some o => exact (ho o rfl).orElse_sound hbase

theorem new_ok {b : Built} (h : Built.new env openRedis c net = .ok b) :
    compileRouting env net.routing = .ok (b.clientRoutes, b.routeRules) ∧
      b.blocked = compileBlocked env net.routing.blockedPaths ∧
      b.breakers = net.upstreams.map fun u => (u.id, upstreamCircuitBreaker
        (Config.effectiveFailsafe c.failsafe net.failsafe).circuitBreaker (u.failsafe.bind (·.circuitBreaker))) := by
  unfold Built.new at h
  dsimp only at h
  by_cases hnone : net.upstreams = []
  · rw [if_pos hnone] at h
    cases h
  rw [if_neg hnone] at h
  cases hrouting : compileRouting env net.routing with
  | error e =>
    rw [hrouting] at h
    cases h
  | ok routing =>
    rw [hrouting] at h
    dsimp only at h
    split at h
    · cases h
    · cases h
      exact ⟨rfl, rfl, rfl⟩

theorem exists_new (hvalid : c.validate env = .ok ()) (hnet : net ∈ c.networks)
    (hdefaults : ∀ p ∈ defaultPolicies, ∃ re, env.compile p.pattern = .ok re) :
    (∃ b, Built.new env openRedis c net = .ok b) ↔
      (∀ cr ∈ net.routing.clientRoutes, trimSpace cr.pathPrefix ≠ "") ∧
        (net.cache.enabled = true → net.cache.driver = "redis" →
          ∀ r, net.cache.redis = some r → openRedis r = .ok ()) := by
  have haccepted := (Config.network_accepted hvalid hnet).2
  rw [← exists_compileRouting fun rr hrr => (haccepted.rule rr hrr).1]
  unfold Built.new
  dsimp only
  rw [if_neg haccepted.upstreams]
  cases compileRouting env net.routing with
  | error e => simp
  | ok routing =>
    dsimp only
    cases henabled : net.cache.enabled with
    | false => simp
    | true =>
      have hcache := exists_newCache openRedis hdefaults haccepted.policy (haccepted.redis henabled)
      cases hnew : newCache env openRedis net.cache with
      | error e =>
        rw [hnew] at hcache
        simpa [Except.map] using hcache
      | ok policies =>
        rw [hnew] at hcache
        simpa [Except.map] using hcache

theorem new_inForce (hvalid : c.validate env = .ok ()) (hnet : net ∈ c.networks) {b : Built}
    (h : Built.new env openRedis c net = .ok b) : b.InForce env net := by
  obtain ⟨hglobal, haccepted⟩ := Config.network_accepted hvalid hnet
  obtain ⟨hrouting, hblocked, hbreakers⟩ := new_ok h
  obtain ⟨hroutes, hrules⟩ := compileRouting_ok.mp hrouting
  have hanswers := matchRouteRule_compiled hrules
  refine ⟨fun path => ?_, ?_, hanswers, fun method path id hpin => ?_, ?_, fun breaker hbreaker => ?_⟩
  · rw [hblocked]
    exact any_compileBlocked
  · rw [← List.forall₂_eq_eq_eq, List.forall₂_map_right_iff]
    exact hroutes.flip.imp fun route cr hroute => (compileClientRoute_ok.mp hroute).2
  · -- A rule that does not deny has an upstream, and the checks know it.
    rw [hanswers] at hpin
    obtain ⟨rr, hfind, heq⟩ := Option.map_eq_some_iff.mp hpin
    cases hdeny : rr.deny with
    | true => simp [hdeny] at heq
    | false =>
      simp only [hdeny, Bool.false_eq_true, if_false, Prod.mk.injEq, true_and] at heq
      rw [← heq]
      exact (haccepted.rule rr (List.mem_of_find?_eq_some hfind)).2 hdeny
  · rw [hbreakers, List.map_map]
    rfl
  · rw [hbreakers] at hbreaker
    obtain ⟨u, hu, rfl⟩ := List.mem_map.mp hbreaker
    apply upstreamCircuitBreaker_sound
    · exact fun cb hcb => Config.effectiveFailsafe_breaker hglobal haccepted.failsafe hcb
    · intro cb hcb
      obtain ⟨f, hf, hcb⟩ := Option.bind_eq_some_iff.mp hcb
      exact haccepted.upstreamFailsafe u hu f hf cb hcb

/-- An accepted file is built, unless a path prefix is blank or Redis cannot be reached, and then all of it is in
force. -/
theorem accepted_builds (openRedis : Config.RedisConfig → Except String Unit) (hvalid : c.validate env = .ok ())
    (hnet : net ∈ c.networks) (hdefaults : ∀ p ∈ defaultPolicies, ∃ re, env.compile p.pattern = .ok re) :
    ((∃ b, Built.new env openRedis c net = .ok b) ↔
        (∀ cr ∈ net.routing.clientRoutes, trimSpace cr.pathPrefix ≠ "") ∧
          (net.cache.enabled = true → net.cache.driver = "redis" →
            ∀ r, net.cache.redis = some r → openRedis r = .ok ())) ∧
      ∀ b, Built.new env openRedis c net = .ok b → b.InForce env net :=
  ⟨exists_new hvalid hnet hdefaults, fun _ h => new_inForce hvalid hnet h⟩

def blankNetwork : Config.NetworkConfig :=
  let net := sampleNetwork []
  { net with routing := { net.routing with clientRoutes := [⟨" ", "node"⟩] } }

def blankConfig : Config.Config := { sampleConfig [] with networks := [blankNetwork] }

theorem accepted_builds_blank :
    (∃ b, Built.new literalEnv (fun _ => .ok ()) (sampleConfig []) (sampleNetwork []) = .ok b) ∧
      blankConfig.validate literalEnv = .ok () ∧
      ¬∃ b, Built.new literalEnv (fun _ => .ok ()) blankConfig blankNetwork = .ok b := by
  have hsample : (sampleConfig []).validate literalEnv = .ok () := by decide +kernel
  have hblank : blankConfig.validate literalEnv = .ok () := by decide +kernel
  have hdefaults : ∀ p ∈ defaultPolicies, ∃ re, literalEnv.compile p.pattern = .ok re := fun _ _ => ⟨_, rfl⟩
  refine ⟨?_, hblank, fun h => ?_⟩
  · rw [(accepted_builds (fun _ => .ok ()) hsample List.mem_cons_self hdefaults).1]
    exact ⟨fun cr hcr => absurd hcr List.not_mem_nil, fun _ _ _ _ => rfl⟩
  · have hbuilds := (accepted_builds (fun _ => .ok ()) hblank List.mem_cons_self hdefaults).1.mp h
    exact hbuilds.1 ⟨" ", "node"⟩ List.mem_cons_self (by decide +kernel)

end Built

end EBeacon.Network
