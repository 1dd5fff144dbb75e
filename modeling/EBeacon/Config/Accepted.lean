import EBeacon.Config.Validate

/-!
What the sections of an accepted file satisfy.
-/

namespace EBeacon.Config

open Check

variable {env : Env}

def RateLimitConfig.Accepted (rl : RateLimitConfig) (least : Int64) : Prop := ¬rl.limit ≤ 0 ∧ least ≤ rl.burst

theorem RateLimitConfig.Accepted.of_validate {rl : RateLimitConfig} {least : Int64} {ctx : String}
    (h : validateLimit least ctx rl = .ok ()) : rl.Accepted least := by
  unfold validateLimit at h
  simp only [bind_eq_ok, reject_eq_ok] at h
  exact ⟨h.1, Int64.not_lt.mp h.2⟩

structure AuthConfig.Accepted (auth : AuthConfig) : Prop where
  closed : auth.secret ≠ "" ∨ auth.keys ≠ []
  ids : (auth.keys.map (·.id)).Nodup
  names : (auth.tiers.map (·.name)).Nodup
  key : ∀ key ∈ auth.keys, key.id ≠ "" ∧ key.secret ≠ "" ∧ (key.tier = "" ∨ key.tier ∈ auth.tiers.map (·.name)) ∧
    ∀ rl, key.rateLimiting = some rl → rl.Accepted 0
  tier : ∀ tier ∈ auth.tiers, tier.name ≠ "" ∧ ∀ rl, tier.rateLimiting = some rl → rl.Accepted 0
  default : auth.secret ≠ "" → "default" ∉ auth.keys.map (·.id)

theorem validateTier_ok {ctx : String} {i : ℕ} {names : List String} {tier : TierConfig}
    (h : validateTier env ctx i names tier = .ok ()) :
    tier.name ∉ names ∧ tier.name ≠ "" ∧ ∀ rl, tier.rateLimiting = some rl → rl.Accepted 0 := by
  unfold validateTier validateAuthRateLimit at h
  simp only [bind_eq_ok, reject_eq_ok, optional_eq_ok] at h
  exact ⟨h.2.1, h.1, fun rl hrl => .of_validate (h.2.2 rl hrl)⟩

theorem validateKey_ok {ctx : String} {tiers : List TierConfig} {i : ℕ} {ids : List String} {key : APIKeyConfig}
    (h : validateKey env ctx tiers i ids key = .ok ()) :
    key.id ∉ ids ∧ key.id ≠ "" ∧ key.secret ≠ "" ∧ (key.tier = "" ∨ key.tier ∈ tiers.map (·.name)) ∧
      ∀ rl, key.rateLimiting = some rl → rl.Accepted 0 := by
  unfold validateKey validateAuthRateLimit at h
  simp only [bind_eq_ok, reject_eq_ok, optional_eq_ok] at h
  obtain ⟨hid, hfresh, hsecret, htier, hrl⟩ := h
  refine ⟨hfresh, hid, hsecret, ?_, fun rl hsome => .of_validate (hrl rl hsome)⟩
  by_contra hbad
  rw [not_or] at hbad
  exact htier hbad

theorem AuthConfig.Accepted.of_validate {auth : AuthConfig} {ctx : String}
    (h : validateAuth env (some auth) ctx = .ok ()) : auth.Accepted := by
  unfold validateAuth at h
  have h := optional_eq_ok.mp h auth rfl
  simp only [bind_eq_ok, reject_eq_ok] at h
  obtain ⟨htiers, hkeys, hdefault, hclosed⟩ := h
  refine ⟨?_, ?_, ?_, fun key hkey => ?_, fun tier htier => ?_, fun hsecret hmem => hdefault ⟨hsecret, hmem⟩⟩
  · by_contra hopen
    rw [not_or, not_not, not_not] at hopen
    exact hclosed hopen
  · exact (eachAfter_nodup hkeys fun _ _ _ hkey => (validateKey_ok hkey).1).1
  · exact (eachAfter_nodup htiers fun _ _ _ htier => (validateTier_ok htier).1).1
  · obtain ⟨_, _, hok⟩ := eachAfter_ok hkeys hkey
    exact (validateKey_ok hok).2
  · obtain ⟨_, _, hok⟩ := eachAfter_ok htiers htier
    exact (validateTier_ok hok).2

theorem auth_accepted {c : Config} (h : c.validate env = .ok ()) {auth : AuthConfig}
    (hauth : c.auth = some auth) : auth.Accepted := by
  unfold Config.validate at h
  simp only [bind_eq_ok] at h
  obtain ⟨_, _, _, _, _, _, _, hvalid, _⟩ := h
  rw [hauth] at hvalid
  exact .of_validate hvalid

def effectiveRateLimiting (c : Config) (net : NetworkConfig) : RateLimitingConfig :=
  net.rateLimiting.getD c.rateLimiting

def RateLimitingConfig.Accepted (rl : RateLimitingConfig) : Prop :=
  (∀ l, rl.perIP = some l → l.Accepted 1) ∧ ∀ l, rl.global = some l → l.Accepted 1

theorem RateLimitingConfig.Accepted.of_validate {o : Option RateLimitingConfig} {ctx : String}
    (h : validateRateLimiting o ctx = .ok ()) {rl : RateLimitingConfig} (hrl : o = some rl) : rl.Accepted := by
  unfold validateRateLimiting validateRateLimit at h
  simp only [optional_eq_ok, bind_eq_ok] at h
  obtain ⟨hperIP, hglobal⟩ := h rl hrl
  exact ⟨fun l hl => .of_validate (hperIP l hl), fun l hl => .of_validate (hglobal l hl)⟩

structure CircuitBreakerConfig.Accepted (cb : CircuitBreakerConfig) : Prop where
  failureThreshold : 0 ≤ cb.failureThreshold
  successThreshold : 0 ≤ cb.successThreshold
  halfOpenAfter : 0 ≤ cb.halfOpenAfter

structure CircuitBreakerConfig.Sound (cb : CircuitBreakerConfig) : Prop where
  failureThreshold : 1 ≤ cb.failureThreshold
  successThreshold : 1 ≤ cb.successThreshold
  halfOpenAfter : 1 ≤ cb.halfOpenAfter

def FailsafeConfig.BreakerAccepted (fs : FailsafeConfig) : Prop := ∀ cb, fs.circuitBreaker = some cb → cb.Accepted

theorem FailsafeConfig.BreakerAccepted.of_validate {ctx : String} {fs : Option FailsafeConfig}
    (h : validateFailsafe fs ctx = .ok ()) {f : FailsafeConfig} (hf : fs = some f) : f.BreakerAccepted := by
  intro cb hcb
  unfold validateFailsafe at h
  simp only [optional_eq_ok, bind_eq_ok] at h
  obtain ⟨_, _, _, hbreaker, _⟩ := h f hf
  have hvalid := hbreaker cb hcb
  unfold validateCircuitBreaker at hvalid
  simp only [bind_eq_ok, reject_eq_ok, Int64.not_lt] at hvalid
  exact ⟨hvalid.1, hvalid.2.1, hvalid.2.2⟩

namespace CircuitBreakerConfig

theorem accepted_unset : ({} : CircuitBreakerConfig).Accepted := ⟨by decide, by decide, by decide⟩

theorem sound_default : defaultCircuitBreaker.Sound := ⟨by decide, by decide, by decide⟩

theorem Accepted.orElse_sound {base o : CircuitBreakerConfig} (hb : base.Sound) (ho : o.Accepted) :
    (⟨orElse o.failureThreshold base.failureThreshold, orElse o.successThreshold base.successThreshold,
      orElse o.halfOpenAfter base.halfOpenAfter⟩ : CircuitBreakerConfig).Sound :=
  ⟨(orElse_iff (P := (1 ≤ ·)) hb.failureThreshold).mpr (zero_or_one_le.mpr ho.failureThreshold),
    (orElse_iff (P := (1 ≤ ·)) hb.successThreshold).mpr (zero_or_one_le.mpr ho.successThreshold),
    (orElse_iff (P := (1 ≤ ·)) hb.halfOpenAfter).mpr (zero_or_one_le.mpr ho.halfOpenAfter)⟩

theorem Accepted.merge {base o : Option CircuitBreakerConfig} (hb : ∀ cb, base = some cb → cb.Accepted)
    (ho : ∀ cb, o = some cb → cb.Accepted) {cb : CircuitBreakerConfig}
    (h : mergeCircuitBreakerConfig base o = some cb) : cb.Accepted := by
  cases o with
  | none => exact hb cb h
  | some o =>
    have ho := ho o rfl
    have hb : (base.getD {}).Accepted := by
      cases base with
      | none => exact accepted_unset
      | some base => exact hb base rfl
    cases h
    exact ⟨orElse_cases ho.failureThreshold hb.failureThreshold, orElse_cases ho.successThreshold hb.successThreshold,
      orElse_cases ho.halfOpenAfter hb.halfOpenAfter⟩

end CircuitBreakerConfig

theorem effectiveFailsafe_breaker {global : FailsafeConfig} {net : Option FailsafeConfig}
    (hg : global.BreakerAccepted) (hn : ∀ f, net = some f → f.BreakerAccepted) {cb : CircuitBreakerConfig}
    (h : (effectiveFailsafe global net).circuitBreaker = some cb) : cb.Sound := by
  have hoverlay : (overlayFailsafe global net).BreakerAccepted := by
    cases net with
    | none => exact hg
    | some n => exact fun cb hcb => .merge hg (hn n rfl) hcb
  obtain ⟨set, hset, rfl⟩ := Option.map_eq_some_iff.mp h
  exact (hoverlay set hset).orElse_sound CircuitBreakerConfig.sound_default

structure NetworkConfig.Accepted (env : Env) (n : NetworkConfig) : Prop where
  upstreams : n.upstreams ≠ []
  blocked : ∀ pattern ∈ n.routing.blockedPaths, ∃ re, env.compile pattern = .ok re
  redis : n.cache.enabled = true → n.cache.driver = "redis" → n.cache.redis ≠ none
  policy : ∀ p ∈ n.cache.policies, ∃ re, env.compile p.pattern = .ok re
  rule : ∀ rr ∈ n.routing.routeRules, (∃ re, env.compile rr.pathPattern = .ok re) ∧
    (rr.deny = false → rr.upstreamID ∈ n.upstreams.map (·.id))
  failsafe : ∀ f, n.failsafe = some f → f.BreakerAccepted
  upstreamFailsafe : ∀ u ∈ n.upstreams, ∀ f, u.failsafe = some f → f.BreakerAccepted

theorem compiles_eq_ok {pattern reason : String} :
    compiles env pattern reason = .ok () ↔ ∃ re, env.compile pattern = .ok re := by
  unfold compiles
  cases env.compile pattern <;> simp

theorem validateRouteRule_ok {ctx : String} {ids : List String} {i : ℕ} {rr : RouteRuleConfig}
    (h : validateRouteRule env ctx ids i rr = .ok ()) :
    (∃ re, env.compile rr.pathPattern = .ok re) ∧ (rr.deny = false → rr.upstreamID ∈ ids) := by
  unfold validateRouteRule at h
  simp only [bind_eq_ok, reject_eq_ok, compiles_eq_ok] at h
  obtain ⟨_, hcompiles, _, hset, hknown, _⟩ := h
  refine ⟨hcompiles, fun hdeny => ?_⟩
  by_contra hmem
  exact hknown ⟨fun hempty => hset ⟨hdeny, hempty⟩, hmem⟩

theorem NetworkConfig.Accepted.of_validate {n : NetworkConfig} {ctx : String}
    (h : validateNetwork env n ctx = .ok ()) : n.Accepted env := by
  unfold validateNetwork validateNetworkRouting at h
  simp only [bind_eq_ok, reject_eq_ok] at h
  obtain ⟨hsome, _, _, hfailsafe, _, _, _, _, _, hblocked, _, _, hredis, hpolicies, hupstreams, _, hrules⟩ := h
  refine ⟨hsome, fun pattern hp => ?_, fun henabled hdriver hnone => ?_, fun p hp => ?_, fun rr hrr => ?_,
    fun f hf => .of_validate hfailsafe hf, fun u hu f hf => ?_⟩
  · obtain ⟨_, hok⟩ := each_ok hblocked hp
    exact compiles_eq_ok.mp hok
  · exact hredis ⟨henabled, hdriver, by rw [hnone]; rfl⟩
  · obtain ⟨_, hok⟩ := each_ok hpolicies hp
    unfold validateCachePolicy at hok
    simp only [bind_eq_ok, compiles_eq_ok] at hok
    exact hok.2.1
  · obtain ⟨_, hok⟩ := each_ok hrules hrr
    exact validateRouteRule_ok hok
  · obtain ⟨_, _, hok⟩ := eachAfter_ok hupstreams hu
    unfold validateUpstream at hok
    simp only [bind_eq_ok] at hok
    obtain ⟨_, _, _, _, _, hvalid, _⟩ := hok
    exact .of_validate hvalid hf

theorem network_accepted {c : Config} (h : c.validate env = .ok ()) {net : NetworkConfig} (hnet : net ∈ c.networks) :
    c.failsafe.BreakerAccepted ∧ net.Accepted env := by
  unfold Config.validate at h
  simp only [bind_eq_ok] at h
  obtain ⟨_, _, _, _, hfailsafe, _, _, _, _, _, _, _, _, _, _, _, hnetworks⟩ := h
  obtain ⟨i, ids, hentry⟩ := eachAfter_ok hnetworks hnet
  unfold Config.validateEntry at hentry
  simp only [bind_eq_ok] at hentry
  exact ⟨.of_validate hfailsafe rfl, .of_validate hentry.2.2.2.1⟩

end EBeacon.Config
