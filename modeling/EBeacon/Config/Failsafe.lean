import EBeacon.Library.Checks
import EBeacon.Library.Float64

namespace EBeacon.Config

open Check

-- durations are in nanoseconds
structure TimeoutConfig where
  duration : Int64 := 0
  deriving DecidableEq

structure RetryConfig where
  maxAttempts : Int64 := 0
  delay : Int64 := 0
  backoff : Float64 := 0
  jitter : Int64 := 0
  maxDelay : Int64 := 0
  deriving DecidableEq

structure HedgeConfig where
  delay : Int64 := 0
  maxCount : Int64 := 0
  deriving DecidableEq

structure CircuitBreakerConfig where
  failureThreshold : Int64 := 0
  successThreshold : Int64 := 0
  halfOpenAfter : Int64 := 0
  deriving DecidableEq

structure ConsensusConfig where
  enabled : Bool := false
  maxParticipants : Int64 := 0
  agreementThreshold : Int64 := 0
  deriving DecidableEq

structure FailsafeConfig where
  timeout : Option TimeoutConfig := none
  retry : Option RetryConfig := none
  hedge : Option HedgeConfig := none
  circuitBreaker : Option CircuitBreakerConfig := none
  consensus : Option ConsensusConfig := none
  deriving DecidableEq

def FailsafeConfig.maxAttempts (f : FailsafeConfig) : Int64 :=
  match f.retry with
  | none => 1
  | some r => r.maxAttempts

def orElse {α : Type} [Zero α] [DecidableEq α] (override base : α) : α :=
  if override ≠ 0 then override else base

def mergeTimeoutConfig (base override : Option TimeoutConfig) : Option TimeoutConfig :=
  match override with
  | none => base
  | some o =>
    let out := base.getD {}
    some { duration := orElse o.duration out.duration }

def mergeRetryConfig (base override : Option RetryConfig) : Option RetryConfig :=
  match override with
  | none => base
  | some o =>
    let out := base.getD {}
    some {
      maxAttempts := orElse o.maxAttempts out.maxAttempts
      delay := orElse o.delay out.delay
      backoff := orElse o.backoff out.backoff
      jitter := orElse o.jitter out.jitter
      maxDelay := orElse o.maxDelay out.maxDelay }

def mergeHedgeConfig (base override : Option HedgeConfig) : Option HedgeConfig :=
  match override with
  | none => base
  | some o =>
    let out := base.getD {}
    some { delay := orElse o.delay out.delay, maxCount := orElse o.maxCount out.maxCount }

def mergeCircuitBreakerConfig (base override : Option CircuitBreakerConfig) : Option CircuitBreakerConfig :=
  match override with
  | none => base
  | some o =>
    let out := base.getD {}
    some {
      failureThreshold := orElse o.failureThreshold out.failureThreshold
      successThreshold := orElse o.successThreshold out.successThreshold
      halfOpenAfter := orElse o.halfOpenAfter out.halfOpenAfter }

def millisecond : Int64 := 1000000

def second : Int64 := 1000 * millisecond

def defaultCircuitBreaker : CircuitBreakerConfig := ⟨5, 2, 30 * second⟩

def RetryConfig.applyDefaults (r : RetryConfig) : RetryConfig where
  maxAttempts := orElse r.maxAttempts 3
  delay := orElse r.delay (100 * millisecond)
  backoff := orElse r.backoff (.finite 2)
  jitter := r.jitter
  maxDelay := orElse r.maxDelay (5 * second)

def CircuitBreakerConfig.applyDefaults (cb : CircuitBreakerConfig) : CircuitBreakerConfig where
  failureThreshold := orElse cb.failureThreshold defaultCircuitBreaker.failureThreshold
  successThreshold := orElse cb.successThreshold defaultCircuitBreaker.successThreshold
  halfOpenAfter := orElse cb.halfOpenAfter defaultCircuitBreaker.halfOpenAfter

def applyFailsafeDefaults (fs : FailsafeConfig) : FailsafeConfig where
  timeout := some ⟨orElse (fs.timeout.getD {}).duration (30 * second)⟩
  retry := fs.retry.map RetryConfig.applyDefaults
  hedge := fs.hedge
  circuitBreaker := fs.circuitBreaker.map CircuitBreakerConfig.applyDefaults
  consensus := fs.consensus

def overlayFailsafe (global : FailsafeConfig) (net : Option FailsafeConfig) : FailsafeConfig :=
  match net with
  | none => global
  | some n => {
    timeout := mergeTimeoutConfig global.timeout n.timeout
    retry := mergeRetryConfig global.retry n.retry
    hedge := mergeHedgeConfig global.hedge n.hedge
    circuitBreaker := mergeCircuitBreakerConfig global.circuitBreaker n.circuitBreaker
    consensus := if n.consensus.isSome then n.consensus else global.consensus }

def effectiveFailsafe (global : FailsafeConfig) (net : Option FailsafeConfig) : FailsafeConfig :=
  applyFailsafeDefaults (overlayFailsafe global net)

def validateRetry (ctx : String) (r : RetryConfig) : Check := do
  reject (r.maxAttempts < 0) (ctx ++ " retry.maxAttempts must be >= 0")
  reject (r.delay < 0 ∨ r.jitter < 0 ∨ r.maxDelay < 0) (ctx ++ " retry delays must be >= 0")
  reject (r.backoff < 0 ∨ 0 < r.backoff ∧ r.backoff < 1) (ctx ++ " retry.backoff must be >= 1")

def validateHedge (ctx : String) (h : HedgeConfig) : Check := do
  reject (h.delay < 0) (ctx ++ " hedge.delay must be >= 0")
  reject (h.maxCount < 0) (ctx ++ " hedge.maxCount must be >= 0")

def validateCircuitBreaker (ctx : String) (cb : CircuitBreakerConfig) : Check := do
  reject (cb.failureThreshold < 0) (ctx ++ " circuitBreaker.failureThreshold must be >= 0")
  reject (cb.successThreshold < 0) (ctx ++ " circuitBreaker.successThreshold must be >= 0")
  reject (cb.halfOpenAfter < 0) (ctx ++ " circuitBreaker.halfOpenAfter must be >= 0")

def validateConsensus (ctx : String) (c : ConsensusConfig) : Check :=
  if c.enabled then do
    reject (c.maxParticipants < 1) (ctx ++ " consensus.maxParticipants must be >= 1 when enabled")
    reject (c.agreementThreshold < 1) (ctx ++ " consensus.agreementThreshold must be >= 1 when enabled")
    reject (c.maxParticipants < c.agreementThreshold)
      (ctx ++ " consensus.agreementThreshold (" ++ toString c.agreementThreshold ++
        ") cannot exceed consensus.maxParticipants (" ++ toString c.maxParticipants ++ ")")
  else .ok ()

def validateFailsafe (fs : Option FailsafeConfig) (ctx : String) : Check :=
  optional fs fun fs => do
    optional fs.timeout fun t => reject (t.duration < 0) (ctx ++ " timeout.duration must be >= 0")
    optional fs.retry (validateRetry ctx)
    optional fs.hedge (validateHedge ctx)
    optional fs.circuitBreaker (validateCircuitBreaker ctx)
    optional fs.consensus (validateConsensus ctx)

section Sections

theorem orElse_cases {α : Type} [Zero α] [DecidableEq α] {P : α → Prop} {override base : α}
    (ho : P override) (hb : P base) : P (orElse override base) := by
  unfold orElse
  split_ifs
  · exact ho
  · exact hb

theorem orElse_iff {α : Type} [Zero α] [DecidableEq α] {P : α → Prop} {override base : α} (hb : P base) :
    P (orElse override base) ↔ override = 0 ∨ P override := by
  unfold orElse
  split_ifs with h
  · exact ⟨Or.inr, fun h' => h'.resolve_left h⟩
  · exact ⟨fun _ => Or.inl (not_not.mp h), fun _ => hb⟩

theorem zero_or_one_le {n : Int64} : n = 0 ∨ 1 ≤ n ↔ 0 ≤ n := by
  rw [Int64.le_iff_toInt_le, Int64.le_iff_toInt_le, ← Int64.toInt_inj]
  change n.toInt = 0 ∨ 1 ≤ n.toInt ↔ 0 ≤ n.toInt
  omega

theorem zero_or_zero_le {n : Int64} : n = 0 ∨ 0 ≤ n ↔ 0 ≤ n :=
  or_iff_right_of_imp fun h => h ▸ Int64.le_refl 0

structure RetryConfig.Sound (r : RetryConfig) : Prop where
  maxAttempts : 1 ≤ r.maxAttempts
  delay : 0 ≤ r.delay
  jitter : 0 ≤ r.jitter
  maxDelay : 0 ≤ r.maxDelay
  backoff : 1 ≤ r.backoff

structure RetryConfig.Usable (r : RetryConfig) : Prop where
  maxAttempts : 0 ≤ r.maxAttempts
  delay : 0 ≤ r.delay
  jitter : 0 ≤ r.jitter
  maxDelay : 0 ≤ r.maxDelay
  backoff : r.backoff = 0 ∨ 1 ≤ r.backoff

structure RetryConfig.Accepted (r : RetryConfig) : Prop where
  maxAttempts : 0 ≤ r.maxAttempts
  delay : 0 ≤ r.delay
  jitter : 0 ≤ r.jitter
  maxDelay : 0 ≤ r.maxDelay
  backoff : r.backoff = 0 ∨ r.backoff = .nan ∨ 1 ≤ r.backoff

theorem accepted_backoff {b : Float64} (h : ¬(b < 0 ∨ 0 < b ∧ b < 1)) : b = 0 ∨ b = .nan ∨ 1 ≤ b := by
  by_cases hzero : b = 0
  · exact Or.inl hzero
  · by_cases hnan : b = .nan
    · exact Or.inr (Or.inl hnan)
    · exact Or.inr (Or.inr ((Float64.one_le_iff_of_ne_zero h hzero).mpr hnan))

theorem RetryConfig.Accepted.of_validate {ctx : String} {r : RetryConfig} (h : validateRetry ctx r = .ok ()) :
    r.Accepted := by
  unfold validateRetry at h
  simp only [bind_eq_ok, reject_eq_ok, not_or, Int64.not_lt] at h
  obtain ⟨hattempts, ⟨hdelay, hjitter, hmax⟩, hbackoff⟩ := h
  exact ⟨hattempts, hdelay, hjitter, hmax, accepted_backoff (by tauto)⟩

theorem RetryConfig.Accepted.usable {r : RetryConfig} (h : r.Accepted) (hnan : r.backoff ≠ .nan) : r.Usable :=
  ⟨h.maxAttempts, h.delay, h.jitter, h.maxDelay, h.backoff.imp_right fun hb => hb.resolve_left hnan⟩

theorem RetryConfig.Usable.not_nan {r : RetryConfig} (h : r.Usable) : r.backoff ≠ .nan := by
  intro hnan
  rcases h.backoff with hb | hb
  · rw [hb] at hnan
    cases hnan
  · rw [hnan] at hb
    exact Float64.not_le_nan hb

theorem RetryConfig.applyDefaults_sound {r : RetryConfig} : r.applyDefaults.Sound ↔ r.Usable := by
  have hattempts : 1 ≤ r.applyDefaults.maxAttempts ↔ 0 ≤ r.maxAttempts :=
    (orElse_iff (P := (1 ≤ ·)) (by decide)).trans zero_or_one_le
  have hdelay : 0 ≤ r.applyDefaults.delay ↔ 0 ≤ r.delay :=
    (orElse_iff (P := (0 ≤ ·)) (by decide)).trans zero_or_zero_le
  have hmax : 0 ≤ r.applyDefaults.maxDelay ↔ 0 ≤ r.maxDelay :=
    (orElse_iff (P := (0 ≤ ·)) (by decide)).trans zero_or_zero_le
  have hbackoff : 1 ≤ r.applyDefaults.backoff ↔ r.backoff = 0 ∨ 1 ≤ r.backoff :=
    orElse_iff (P := (1 ≤ ·)) (by decide)
  constructor
  · intro h
    exact ⟨hattempts.mp h.maxAttempts, hdelay.mp h.delay, h.jitter, hmax.mp h.maxDelay, hbackoff.mp h.backoff⟩
  · intro h
    exact ⟨hattempts.mpr h.maxAttempts, hdelay.mpr h.delay, h.jitter, hmax.mpr h.maxDelay,
      hbackoff.mpr h.backoff⟩

theorem RetryConfig.accepted_unset : ({} : RetryConfig).Accepted :=
  ⟨by decide, by decide, by decide, by decide, Or.inl rfl⟩

theorem RetryConfig.Accepted.merge {base o : Option RetryConfig} (hb : ∀ r, base = some r → r.Accepted)
    (ho : ∀ r, o = some r → r.Accepted) {r : RetryConfig} (hr : mergeRetryConfig base o = some r) :
    r.Accepted := by
  cases o with
  | none => exact hb r hr
  | some o =>
    have ho := ho o rfl
    have hb : (base.getD {}).Accepted := by
      cases base with
      | none => exact RetryConfig.accepted_unset
      | some base => exact hb base rfl
    cases hr
    exact ⟨orElse_cases ho.maxAttempts hb.maxAttempts, orElse_cases ho.delay hb.delay,
      orElse_cases ho.jitter hb.jitter, orElse_cases ho.maxDelay hb.maxDelay,
      orElse_cases (P := fun b : Float64 => b = 0 ∨ b = .nan ∨ 1 ≤ b) ho.backoff hb.backoff⟩

theorem mergeHedgeConfig_nonneg {base o : Option HedgeConfig} (hb : ∀ h, base = some h → 0 ≤ h.maxCount)
    (ho : ∀ h, o = some h → 0 ≤ h.maxCount) {h : HedgeConfig} (hh : mergeHedgeConfig base o = some h) :
    0 ≤ h.maxCount := by
  cases o with
  | none => exact hb h hh
  | some o =>
    have hb : 0 ≤ (base.getD {}).maxCount := by
      cases base with
      | none => decide
      | some base => exact hb base rfl
    cases hh
    exact orElse_cases (ho o rfl) hb

theorem RetryConfig.applyDefaults_idem (r : RetryConfig) : r.applyDefaults.applyDefaults = r.applyDefaults := by
  have horElse {α : Type} [Zero α] [DecidableEq α] (a d : α) : orElse (orElse a d) d = orElse a d := by
    unfold orElse
    split_ifs <;> rfl
  simp only [RetryConfig.applyDefaults, horElse]

structure FailsafeConfig.Accepted (fs : FailsafeConfig) : Prop where
  retry : ∀ r, fs.retry = some r → r.Accepted
  hedge : ∀ h, fs.hedge = some h → 0 ≤ h.maxCount

theorem FailsafeConfig.Accepted.of_validate {ctx : String} {fs : Option FailsafeConfig}
    (h : validateFailsafe fs ctx = .ok ()) {f : FailsafeConfig} (hf : fs = some f) : f.Accepted := by
  subst hf
  unfold validateFailsafe at h
  simp only [optional_eq_ok, bind_eq_ok, Option.some.injEq, forall_eq'] at h
  obtain ⟨_, hretry, hhedge, _⟩ := h
  refine ⟨fun r hr => .of_validate (hretry r hr), fun h hh => ?_⟩
  have hvalid := hhedge h hh
  unfold validateHedge at hvalid
  simp only [bind_eq_ok, reject_eq_ok, Int64.not_lt] at hvalid
  exact hvalid.2

theorem FailsafeConfig.Accepted.overlay {global : FailsafeConfig} {net : Option FailsafeConfig}
    (hg : global.Accepted) (hn : ∀ f, net = some f → f.Accepted) : (overlayFailsafe global net).Accepted := by
  cases net with
  | none => exact hg
  | some n =>
    have hn := hn n rfl
    exact ⟨fun r hr => .merge hg.retry hn.retry hr, fun h hh => mergeHedgeConfig_nonneg hg.hedge hn.hedge hh⟩

def backoffSetting (global : FailsafeConfig) (net : Option FailsafeConfig) : Float64 :=
  orElse (((net.bind (·.retry)).getD {}).backoff) (global.retry.getD {}).backoff

def maxCountSetting (global : FailsafeConfig) (net : Option FailsafeConfig) : Int64 :=
  orElse (((net.bind (·.hedge)).getD {}).maxCount) (global.hedge.getD {}).maxCount

theorem backoffSetting_eq (global : FailsafeConfig) (net : Option FailsafeConfig) :
    backoffSetting global net = ((overlayFailsafe global net).retry.getD {}).backoff := by
  rcases net with _ | ⟨_, _ | r, _, _, _⟩
  · rfl
  · rfl
  · rfl

theorem maxCountSetting_eq (global : FailsafeConfig) (net : Option FailsafeConfig) :
    maxCountSetting global net = ((overlayFailsafe global net).hedge.getD {}).maxCount := by
  rcases net with _ | ⟨_, _, _ | h, _, _⟩
  · rfl
  · rfl
  · rfl

end Sections

end EBeacon.Config
