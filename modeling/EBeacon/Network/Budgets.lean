import EBeacon.Config.Validate
import EBeacon.Library.Words
import EBeacon.Network.Routing
import EBeacon.Upstream.Selection

namespace EBeacon.Network

open Upstream Text

section Failsafes

structure ConsensusLimits where
  maxParticipants : Int64
  agreementThreshold : Int64

def newConsensusPolicy (cfg : Option Config.ConsensusConfig) : Option ConsensusLimits :=
  match cfg with
  | none => none
  | some cfg =>
    if cfg.enabled = false then none
    else some {
      maxParticipants := if cfg.maxParticipants ≤ 0 then 3 else cfg.maxParticipants
      agreementThreshold := if cfg.agreementThreshold ≤ 0 then 2 else cfg.agreementThreshold }

def compilePathMethodRule (env : Config.Env) (pattern : String) (methods : List String) :
    Except String PathMethodRule :=
  match env.compile pattern with
  | .error e => .error e
  | .ok re => .ok ⟨re, if methods = [] then none else some (methods.map (fun m => toUpper (trimSpace m)))⟩

def mergeFailsafe (base override : Config.FailsafeConfig) : Config.FailsafeConfig :=
  Config.applyFailsafeDefaults {
    timeout := if override.timeout.isSome then override.timeout else base.timeout
    retry := if override.retry.isSome then override.retry else base.retry
    hedge := if override.hedge.isSome then override.hedge else base.hedge
    circuitBreaker := if override.circuitBreaker.isSome then override.circuitBreaker else base.circuitBreaker
    consensus := base.consensus }

structure CompiledFailsafeOverride where
  rule : PathMethodRule
  failsafe : Config.FailsafeConfig

structure Failsafes where
  failsafe : Config.FailsafeConfig
  failsafeOverrides : List CompiledFailsafeOverride
  consensus : Option ConsensusLimits

def compileOverride (env : Config.Env) (base : Config.FailsafeConfig) (fo : Config.FailsafeOverride) :
    Option CompiledFailsafeOverride :=
  match compilePathMethodRule env fo.pathPattern fo.methods with
  | .error _ => none
  | .ok rule => some ⟨rule, mergeFailsafe base fo.failsafe⟩

def Failsafes.new (env : Config.Env) (c : Config.Config) (net : Config.NetworkConfig) : Failsafes :=
  let fs := Config.effectiveFailsafe c.failsafe net.failsafe
  ⟨fs, net.failsafeOverrides.filterMap (compileOverride env fs), newConsensusPolicy fs.consensus⟩

def Failsafes.effectiveFailsafe (n : Failsafes) (method path : String) : Config.FailsafeConfig :=
  match n.failsafeOverrides.find? (fun fo => fo.rule.isMatch (toUpper method) path) with
  | some fo => fo.failsafe
  | none => n.failsafe

end Failsafes

section Sizes

/-- The calls of `selectFromCandidatesForPath` below `executeFS`: for a selector, for consensus, for
hedging, for the sequential loop, for a promotion after attempt `i` of the loop, and for one after
a hedge over `candidates` upstreams. -/
inductive Selection
  | selected
  | consensus
  | hedge
  | sequential
  | promotion (i : ℕ)
  | archive (candidates : ℕ)

def atLeastOne (n : Int64) : Int64 := if n < 1 then 1 else n

def Failsafes.selectionSize (n : Failsafes) (fs : Config.FailsafeConfig) : Selection → Option Int64
  | .selected | .sequential => some fs.maxAttempts
  | .consensus => n.consensus.map (·.maxParticipants)
  | .hedge => fs.hedge.map (fun h => h.maxCount + 1)
  | .promotion i => some (atLeastOne (fs.maxAttempts - Int64.ofNat (i + 1)))
  | .archive candidates => fs.hedge.map fun h =>
    let maxFire := if Int64.ofNat candidates < h.maxCount + 1 then Int64.ofNat candidates else h.maxCount + 1
    atLeastOne (if maxFire < fs.maxAttempts then fs.maxAttempts else maxFire)

def sliceTo {α : Type} (ordered : List α) (n : Int64) : Option (List α) :=
  if (ordered.length : ℤ) < n.toInt then some ordered
  else if n < 0 then none
  else some (ordered.take n.toNatClampNeg)

-- `selectFromCandidatesForPath` with the size that the code passes; `none` is a panic
def selectSized (p : Pool) (all : List Upstream) (n : Int64) (apiPath : String)
    (preferCanonicalHead : Bool) : Option (List Upstream) :=
  sliceTo (p.selectFromCandidatesForPath all all.length apiPath preferCanonicalHead) n

theorem sliceTo_of_nonneg {α : Type} {ordered : List α} {n : Int64} (h : 0 ≤ n) :
    sliceTo ordered n = some (ordered.take n.toNatClampNeg) := by
  have hn : 0 ≤ n.toInt := Int64.le_iff_toInt_le.mp h
  unfold sliceTo
  split_ifs with hlen hneg
  · rw [List.take_of_length_le (by rw [Int64.toNatClampNeg]; omega)]
  · exact absurd h (Int64.not_le.mpr hneg)
  · rfl

theorem sliceTo_isSome {α : Type} {ordered : List α} {n : Int64} : (sliceTo ordered n).isSome ↔ 0 ≤ n := by
  refine ⟨fun h => ?_, fun h => by rw [sliceTo_of_nonneg h]; rfl⟩
  by_contra hneg
  have hn : n.toInt < 0 := Int64.lt_iff_toInt_lt.mp (Int64.not_le.mp hneg)
  rw [sliceTo, if_neg (by omega), if_pos (Int64.not_le.mp hneg)] at h
  cases h

theorem selectSized_of_nonneg (p : Pool) (all : List Upstream) {n : Int64} (h : 0 ≤ n) (apiPath : String)
    (preferCanonicalHead : Bool) :
    selectSized p all n apiPath preferCanonicalHead =
      some (p.selectFromCandidatesForPath all n.toNatClampNeg apiPath preferCanonicalHead) := by
  rw [selectSized, sliceTo_of_nonneg h, Pool.selectFromCandidatesForPath_eq,
    Pool.selectFromCandidatesForPath_eq]
  -- the candidates are no more than the upstreams they come from
  rw [List.take_of_length_le (i := all.length)]
  rw [(p.order_perm _ _).length_eq]
  exact List.length_filter_le _ _

end Sizes

section Execution

def runtimeFailsafe (fs : Config.FailsafeConfig) : FailsafeConfig where
  retry := fs.retry.map (fun r => ⟨r.maxAttempts.toNatClampNeg⟩)
  hedge := fs.hedge.map (fun h => ⟨h.maxCount.toNatClampNeg⟩)

variable (c : Call) (fs : Config.FailsafeConfig)

def Call.selectForPathSized (proactiveArchive : Bool) (pool : Pool) (n : Int64) : Option (List Upstream) :=
  if proactiveArchive then selectSized pool (pool.upstreams.filter (·.archive)) n c.apiPath false
  else selectSized pool pool.upstreams n c.apiPath (pathHasNamedSlotID c.path)

def executeSelectedSized : Go (Option (Except ExecError Served)) := do
  if c.required.id ≠ "" then
    let result ← executeSelectedFS c
    return some result
  else
    let pool ← Go.pool .selected
    match selectSized pool (pool.upstreams.filter (pool.isMatch c.required)) fs.maxAttempts c.apiPath false with
    | none => return none
    | some ups =>
      if ups = [] then return some (.error (.selectedUnavailable c.required.string none))
      else
        let result ← selectedLoop c 0 none none ups
        return some result

def executeSequentialSized (preferID : String) (proactiveArchive : Bool) :
    Go (Option (Except ExecError Served)) := do
  match c.selectForPathSized proactiveArchive (← Go.pool .sequential) fs.maxAttempts with
  | none => return none
  | some ups =>
    if ups = [] then return some (.error .noUpstreams)
    else
      let ups := ensurePreferredUpstreamFirst (← Go.pool .preferred) ups preferID c.fs.maxAttempts
      let result ← sequentialLoop c (c.promote proactiveArchive) ups.length 0 [] none ups
      return some result

def executeSized : Go (Option (Except ExecError Served)) := do
  if c.required.enabled then executeSelectedSized c fs
  else
    let pool ← Go.pool .routing
    let proactiveArchive := c.proactiveArchive pool
    let preferID := c.preferredID pool
    match fs.hedge with
    | none => executeSequentialSized c fs preferID proactiveArchive
    | some hedge =>
      match c.selectForPathSized proactiveArchive (← Go.pool .hedge) (hedge.maxCount + 1) with
      | none => return none
      | some ups =>
        if 1 < ups.length then
          let result ← executeHedgeFS c ⟨hedge.maxCount.toNatClampNeg⟩ preferID ups proactiveArchive
          return some result
        else executeSequentialSized c fs preferID proactiveArchive

theorem selectForPathSized_of_nonneg {n : Int64} (h : 0 ≤ n) (proactiveArchive : Bool) (pool : Pool) :
    c.selectForPathSized proactiveArchive pool n =
      some (c.selectForPath proactiveArchive pool n.toNatClampNeg) := by
  unfold Call.selectForPathSized Call.selectForPath
  split_ifs with hproactive hnamed
  · exact selectSized_of_nonneg _ _ h _ _
  · rw [hnamed]
    exact selectSized_of_nonneg _ _ h _ _
  · rw [eq_false_of_ne_true hnamed]
    exact selectSized_of_nonneg _ _ h _ _

theorem ne_maxValue_of_selectForPathSized {proactiveArchive : Bool} {pool : Pool} {maxCount : Int64}
    (h : (c.selectForPathSized proactiveArchive pool (maxCount + 1)).isSome) : maxCount ≠ Int64.maxValue := by
  rintro rfl
  have hnonneg : 0 ≤ Int64.maxValue + 1 := by
    unfold Call.selectForPathSized at h
    split_ifs at h
    · exact sliceTo_isSome.mp h
    · exact sliceTo_isSome.mp h
  exact absurd hnonneg (by decide)

theorem runtimeFailsafe_maxAttempts : (runtimeFailsafe fs).maxAttempts = fs.maxAttempts.toNatClampNeg := by
  unfold runtimeFailsafe FailsafeConfig.maxAttempts Config.FailsafeConfig.maxAttempts
  cases fs.retry with
  | none => rfl
  | some r => rfl

variable {c fs}

theorem executeSequentialSized_eq (hfs : c.fs = runtimeFailsafe fs) (hattempts : 0 ≤ fs.maxAttempts)
    (preferID : String) (proactiveArchive : Bool) :
    executeSequentialSized c fs preferID proactiveArchive =
      executeSequential c preferID proactiveArchive >>= fun result => pure (some result) := by
  have hmax : c.fs.maxAttempts = fs.maxAttempts.toNatClampNeg := by rw [hfs, runtimeFailsafe_maxAttempts]
  unfold executeSequentialSized executeSequential
  simp only [Go.pool, Proc.perform_bind, Proc.call_bind]
  refine congrArg (Proc.call _) (funext fun pool => ?_)
  simp only [selectForPathSized_of_nonneg c hattempts, hmax]
  split_ifs
  · rfl
  · rfl

theorem executeSelectedSized_eq (hfs : c.fs = runtimeFailsafe fs) (hattempts : 0 ≤ fs.maxAttempts) :
    executeSelectedSized c fs = executeSelectedFS c >>= fun result => pure (some result) := by
  have hmax : c.fs.maxAttempts = fs.maxAttempts.toNatClampNeg := by rw [hfs, runtimeFailsafe_maxAttempts]
  unfold executeSelectedSized
  split_ifs with hid
  · rfl
  · unfold executeSelectedFS
    simp only [Go.pool, Proc.perform_bind, Proc.call_bind]
    refine congrArg (Proc.call _) (funext fun pool => ?_)
    simp only [selectSized_of_nonneg pool _ hattempts, if_neg hid, hmax, Pool.selectMatching]
    split_ifs
    · rfl
    · rfl

theorem executeSized_eq (hfs : c.fs = runtimeFailsafe fs) (hattempts : 0 ≤ fs.maxAttempts)
    (hhedge : ∀ h, fs.hedge = some h → 0 ≤ h.maxCount ∧ 0 ≤ h.maxCount + 1) :
    executeSized c fs = executeFS c >>= fun result => pure (some result) := by
  unfold executeSized executeFS
  split_ifs with henabled
  · exact executeSelectedSized_eq hfs hattempts
  · simp only [Go.pool, Proc.perform_bind, Proc.call_bind]
    refine congrArg (Proc.call _) (funext fun pool => ?_)
    have hsequential := executeSequentialSized_eq hfs hattempts (c.preferredID pool) (c.proactiveArchive pool)
    cases hcase : fs.hedge with
    | none =>
      have hc : c.fs.hedge = none := by rw [hfs, runtimeFailsafe, hcase]; rfl
      simp only [hc]
      exact hsequential
    | some hedge =>
      have hc : c.fs.hedge = some ⟨hedge.maxCount.toNatClampNeg⟩ := by rw [hfs, runtimeFailsafe, hcase]; rfl
      obtain ⟨hcount, hsize⟩ := hhedge hedge hcase
      have hnat : (hedge.maxCount + 1).toNatClampNeg = hedge.maxCount.toNatClampNeg + 1 := by
        have hmax : hedge.maxCount ≠ Int64.maxValue := by
          intro hmax
          rw [hmax] at hsize
          exact absurd hsize (by decide)
        have hnonneg : 0 ≤ hedge.maxCount.toInt := Int64.le_iff_toInt_le.mp hcount
        rw [Int64.toNatClampNeg, Int64.toNatClampNeg, Words.toInt_succ hmax hcount]
        omega
      simp only [hc, Proc.call_bind]
      refine congrArg (Proc.call _) (funext fun pool' => ?_)
      simp only [selectForPathSized_of_nonneg c hsize, hnat]
      split_ifs
      · rfl
      · exact hsequential

end Execution

section Soundness

structure Sound (fs : Config.FailsafeConfig) : Prop where
  maxAttempts : 1 ≤ fs.maxAttempts
  maxCount : ∀ h, fs.hedge = some h → 0 ≤ h.maxCount
  delays : ∀ r, fs.retry = some r → 0 ≤ r.delay ∧ 0 ≤ r.jitter ∧ 0 ≤ r.maxDelay
  backoff : ∀ r, fs.retry = some r → 1 ≤ r.backoff

theorem sound_iff {fs : Config.FailsafeConfig} :
    Sound fs ↔ (∀ r, fs.retry = some r → r.Sound) ∧ ∀ h, fs.hedge = some h → 0 ≤ h.maxCount := by
  constructor
  · intro h
    refine ⟨fun r hr => ?_, h.maxCount⟩
    have hattempts := h.maxAttempts
    rw [Config.FailsafeConfig.maxAttempts, hr] at hattempts
    obtain ⟨hdelay, hjitter, hmax⟩ := h.delays r hr
    exact ⟨hattempts, hdelay, hjitter, hmax, h.backoff r hr⟩
  · rintro ⟨hretry, hhedge⟩
    refine ⟨?_, hhedge, fun r hr => ?_, fun r hr => (hretry r hr).backoff⟩
    · unfold Config.FailsafeConfig.maxAttempts
      split
      · decide
      · rename_i r hr
        exact (hretry r hr).maxAttempts
    · exact ⟨(hretry r hr).delay, (hretry r hr).jitter, (hretry r hr).maxDelay⟩

def overrideFor (env : Config.Env) (net : Config.NetworkConfig) (method path : String) :
    Option Config.FailsafeConfig :=
  (net.failsafeOverrides.find? (fun fo =>
    match compilePathMethodRule env fo.pathPattern fo.methods with
    | .error _ => false
    | .ok rule => rule.isMatch (toUpper method) path)).map (·.failsafe)

variable (env : Config.Env) (c : Config.Config) (net : Config.NetworkConfig) (method path : String)

theorem effectiveFailsafe_eq :
    (Failsafes.new env c net).effectiveFailsafe method path =
      match overrideFor env net method path with
      | none => Config.effectiveFailsafe c.failsafe net.failsafe
      | some o => mergeFailsafe (Config.effectiveFailsafe c.failsafe net.failsafe) o := by
  unfold Failsafes.effectiveFailsafe Failsafes.new overrideFor
  dsimp only
  induction net.failsafeOverrides with
  | nil => rfl
  | cons fo rest ih =>
    cases hrule : compilePathMethodRule env fo.pathPattern fo.methods with
    | error e =>
      rw [List.filterMap_cons_none (by rw [compileOverride, hrule]), ih,
        List.find?_cons_of_neg (by simp [hrule])]
    | ok rule =>
      rw [List.filterMap_cons_some (by rw [compileOverride, hrule])]
      by_cases hmatch : rule.isMatch (toUpper method) path = true
      · rw [List.find?_cons_of_pos (by exact hmatch), List.find?_cons_of_pos (by simp [hrule, hmatch])]
        rfl
      · rw [List.find?_cons_of_neg (by exact hmatch), List.find?_cons_of_neg (by simp [hrule, hmatch]), ih]

theorem effectiveFailsafe_retry :
    ((Failsafes.new env c net).effectiveFailsafe method path).retry =
      (((overrideFor env net method path).bind (·.retry)).or
        (Config.overlayFailsafe c.failsafe net.failsafe).retry).map Config.RetryConfig.applyDefaults := by
  rw [effectiveFailsafe_eq]
  cases overrideFor env net method path with
  | none => rfl
  | some o =>
    rcases o with ⟨_, _ | r, _, _, _⟩
    · simp [mergeFailsafe, Config.effectiveFailsafe, Config.applyFailsafeDefaults, Function.comp_def,
        Config.RetryConfig.applyDefaults_idem]
    · rfl

theorem effectiveFailsafe_hedge :
    ((Failsafes.new env c net).effectiveFailsafe method path).hedge =
      ((overrideFor env net method path).bind (·.hedge)).or
        (Config.overlayFailsafe c.failsafe net.failsafe).hedge := by
  rw [effectiveFailsafe_eq]
  cases overrideFor env net method path with
  | none => rfl
  | some o =>
    rcases o with ⟨_, _, _ | h, _, _⟩
    · rfl
    · rfl

def SelectsSafely (n : Failsafes) (fs : Config.FailsafeConfig) : Prop :=
  ∀ call size, n.selectionSize fs call = some size →
    1 ≤ size ∧ ∀ (p : Pool) all apiPath preferCanonicalHead,
      (selectSized p all size apiPath preferCanonicalHead).isSome

theorem one_le_atLeastOne (n : Int64) : 1 ≤ atLeastOne n := by
  unfold atLeastOne
  split_ifs with h
  · exact Int64.le_refl 1
  · exact Int64.not_lt.mp h

theorem one_le_succ_iff {n : Int64} (h : 0 ≤ n) : 1 ≤ n + 1 ↔ n ≠ Int64.maxValue := by
  constructor
  · rintro hle rfl
    exact absurd hle (by decide)
  · intro hmax
    have hnonneg : 0 ≤ n.toInt := Int64.le_iff_toInt_le.mp h
    rw [Int64.le_iff_toInt_le, Words.toInt_succ hmax h]
    change 1 ≤ n.toInt + 1
    omega

theorem newConsensusPolicy_pos {cfg : Option Config.ConsensusConfig} {policy : ConsensusLimits}
    (h : newConsensusPolicy cfg = some policy) : 1 ≤ policy.maxParticipants := by
  cases cfg with
  | none => cases h
  | some cfg =>
    by_cases henabled : cfg.enabled = false
    · rw [newConsensusPolicy, if_pos henabled] at h
      cases h
    · rw [newConsensusPolicy, if_neg henabled] at h
      cases h
      change 1 ≤ if cfg.maxParticipants ≤ 0 then 3 else cfg.maxParticipants
      split_ifs with hle
      · decide
      · exact Int64.le_iff_toInt_le.mpr (Int64.lt_iff_toInt_lt.mp (Int64.not_le.mp hle))

/-- Sound settings select safely, up to the one number of hedges that has no successor. -/
theorem selectsSafely_iff {fs : Config.FailsafeConfig} (hfs : Sound fs) :
    SelectsSafely (Failsafes.new env c net) fs ↔ ∀ h, fs.hedge = some h → h.maxCount ≠ Int64.maxValue := by
  constructor
  · intro hsafe h hh
    have hsize := (hsafe .hedge (h.maxCount + 1) (by simp [Failsafes.selectionSize, hh])).1
    exact (one_le_succ_iff (hfs.maxCount h hh)).mp hsize
  · intro hmax call size hsize
    suffices hpos : 1 ≤ size from
      ⟨hpos, fun p all apiPath prefer => sliceTo_isSome.mpr (Int64.le_trans (by decide) hpos)⟩
    cases call with
    | selected =>
      cases hsize
      exact hfs.maxAttempts
    | sequential =>
      cases hsize
      exact hfs.maxAttempts
    | consensus =>
      obtain ⟨policy, hpolicy, rfl⟩ := Option.map_eq_some_iff.mp hsize
      exact newConsensusPolicy_pos hpolicy
    | hedge =>
      obtain ⟨h, hh, rfl⟩ := Option.map_eq_some_iff.mp hsize
      exact (one_le_succ_iff (hfs.maxCount h hh)).mpr (hmax h hh)
    | promotion i =>
      cases hsize
      exact one_le_atLeastOne _
    | archive candidates =>
      obtain ⟨h, hh, rfl⟩ := Option.map_eq_some_iff.mp hsize
      exact one_le_atLeastOne _

section InForce

variable {global : Config.FailsafeConfig} {own : Option Config.FailsafeConfig}

theorem retry_sound_iff (haccepted : (Config.overlayFailsafe global own).Accepted)
    {o : Option Config.RetryConfig} :
    (∀ r, (o.or (Config.overlayFailsafe global own).retry).map Config.RetryConfig.applyDefaults = some r →
      r.Sound) ↔
    (∀ r, o = some r → r.Usable) ∧ (o = none → Config.backoffSetting global own ≠ .nan) := by
  have hmerged := haccepted.retry
  rw [Config.backoffSetting_eq]
  cases o with
  | some r =>
    simp only [Option.some_or, Option.map_some, Option.some.injEq, forall_eq', reduceCtorEq, false_implies,
      and_true]
    exact Config.RetryConfig.applyDefaults_sound
  | none =>
    cases hretry : (Config.overlayFailsafe global own).retry with
    | none => exact ⟨fun _ => ⟨nofun, fun _ => nofun⟩, fun _ => nofun⟩
    | some r =>
      simp only [Option.none_or, Option.map_some, Option.some.injEq, forall_eq', reduceCtorEq, false_implies,
        implies_true, true_and, forall_const, Option.getD_some]
      rw [Config.RetryConfig.applyDefaults_sound]
      exact ⟨fun h => h.not_nan, fun h => (hmerged r hretry).usable h⟩

theorem hedge_sound_iff (haccepted : (Config.overlayFailsafe global own).Accepted)
    {o : Option Config.HedgeConfig} :
    (∀ h, o.or (Config.overlayFailsafe global own).hedge = some h →
      0 ≤ h.maxCount ∧ h.maxCount ≠ Int64.maxValue) ↔
    (∀ h, o = some h → 0 ≤ h.maxCount ∧ h.maxCount ≠ Int64.maxValue) ∧
      (o = none → Config.maxCountSetting global own ≠ Int64.maxValue) := by
  have hmerged := haccepted.hedge
  rw [Config.maxCountSetting_eq]
  cases o with
  | some h => simp
  | none =>
    cases hhedge : (Config.overlayFailsafe global own).hedge with
    | none =>
      have hzero : (0 : Int64) ≠ Int64.maxValue := by decide
      simpa using hzero
    | some h => simpa using fun _ => hmerged h hhedge

end InForce

structure WellSet (o : Option Config.FailsafeConfig) : Prop where
  overrideRetry : ∀ r, o.bind (·.retry) = some r → r.Usable
  overrideHedge : ∀ h, o.bind (·.hedge) = some h → 0 ≤ h.maxCount ∧ h.maxCount ≠ Int64.maxValue
  retry : o.bind (·.retry) = none → Config.backoffSetting c.failsafe net.failsafe ≠ .nan
  hedge : o.bind (·.hedge) = none → Config.maxCountSetting c.failsafe net.failsafe ≠ Int64.maxValue

variable {env c net}

theorem effectiveFailsafe_safe_iff (hvalid : c.validate env = .ok ()) (hnet : net ∈ c.networks)
    (method path : String) :
    Sound ((Failsafes.new env c net).effectiveFailsafe method path) ∧
      SelectsSafely (Failsafes.new env c net) ((Failsafes.new env c net).effectiveFailsafe method path) ↔
    WellSet c net (overrideFor env net method path) := by
  obtain ⟨hglobal, hnets⟩ := Config.Config.accepted_of_validate hvalid
  have haccepted := hglobal.overlay (hnets net hnet)
  have hretry := retry_sound_iff haccepted (o := (overrideFor env net method path).bind (·.retry))
  have hhedge := hedge_sound_iff haccepted (o := (overrideFor env net method path).bind (·.hedge))
  rw [← effectiveFailsafe_retry] at hretry
  rw [← effectiveFailsafe_hedge env c net method path] at hhedge
  constructor
  · rintro ⟨hsound, hsafe⟩
    have hmax := (selectsSafely_iff env c net hsound).mp hsafe
    obtain ⟨hoverride, hbackoff⟩ := hretry.mp (sound_iff.mp hsound).1
    obtain ⟨hcount, hlast⟩ := hhedge.mp fun h hh => ⟨hsound.maxCount h hh, hmax h hh⟩
    exact ⟨hoverride, hcount, hbackoff, hlast⟩
  · intro hset
    have hcounts := hhedge.mpr ⟨hset.overrideHedge, hset.hedge⟩
    have hsound := sound_iff.mpr ⟨hretry.mpr ⟨hset.overrideRetry, hset.retry⟩, fun h hh => (hcounts h hh).1⟩
    exact ⟨hsound, (selectsSafely_iff env c net hsound).mpr fun h hh => (hcounts h hh).2⟩

def literalEnv : Config.Env where
  quote := fun s => "\"" ++ s ++ "\""
  compile := fun pattern => .ok (fun path => contains path pattern)
  parseCIDR := fun _ => false
  parseAddr := fun _ => false
  parseURL := fun _ => .ok ("http", "node:5052")

def sampleNetwork (overrides : List Config.FailsafeOverride) : Config.NetworkConfig where
  id := "mainnet"
  secondsPerSlot := 12
  slotsPerEpoch := 32
  upstreams := [{ id := "node", url := "http://node:5052" }]
  failsafeOverrides := overrides
  routing := { stickyTimeout := 600 * Config.second, rebalanceInterval := 30 * Config.second }
  cache := { maxSize := 2048 }

def sampleConfig (overrides : List Config.FailsafeOverride) : Config.Config where
  logLevel := "info"
  server := { port := 5555, maxTimeout := 60 * Config.second, maxResponseBodyBytes := 2147483648 }
  failsafe := { retry := some {}, hedge := some { maxCount := 1 } }
  health := ⟨15 * Config.second, 60 * Config.second⟩
  networks := [sampleNetwork overrides]

theorem effectiveFailsafe_safe_sample :
    (sampleConfig []).validate literalEnv = .ok () ∧ WellSet (sampleConfig []) (sampleNetwork []) none ∧
      SelectsSafely (Failsafes.new literalEnv (sampleConfig []) (sampleNetwork []))
        ((Failsafes.new literalEnv (sampleConfig []) (sampleNetwork [])).effectiveFailsafe "GET" "/eth/v1/node") := by
  have hvalid : (sampleConfig []).validate literalEnv = .ok () := by decide +kernel
  have hset : WellSet (sampleConfig []) (sampleNetwork []) none :=
    ⟨nofun, nofun, fun _ => by decide +kernel, fun _ => by decide +kernel⟩
  have hsafe := (effectiveFailsafe_safe_iff hvalid List.mem_cons_self "GET" "/eth/v1/node").mpr hset
  exact ⟨hvalid, hset, hsafe.2⟩

def negativeAttempts : List Config.FailsafeOverride :=
  [{ pathPattern := "/eth/v1/node", failsafe := { retry := some { maxAttempts := -1 } } }]

theorem negativeAttempts_panics :
    (sampleConfig negativeAttempts).validate literalEnv = .ok () ∧
    ((Failsafes.new literalEnv (sampleConfig negativeAttempts)
      (sampleNetwork negativeAttempts)).effectiveFailsafe "GET" "/eth/v1/node/version").maxAttempts = -1 ∧
    selectSized (Pool.allReady [⟨"node", false⟩]) [⟨"node", false⟩] (-1) "/eth/v1/node/version" false = none := by
  decide +kernel

end Soundness

end EBeacon.Network
