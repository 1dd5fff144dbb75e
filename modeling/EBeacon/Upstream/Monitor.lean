import EBeacon.Library.Folding
import EBeacon.Library.Registers
import EBeacon.Library.Runs
import EBeacon.Network.Routing
import Mathlib.Order.Lattice

/-!
`HealthMonitor`: what the probes of all upstreams, in any order, make of their health.
-/

namespace EBeacon.Upstream

open Text Registers

inductive HealthStatus
  | down
  | degraded
  | up
  deriving DecidableEq, Repr

namespace HealthStatus

def level : HealthStatus → ℕ
  | .down => 0
  | .degraded => 1
  | .up => 2

theorem level_injective : Function.Injective level := by
  intro a b h
  cases a <;> cases b <;> first | rfl | cases h

instance instLinearOrder : LinearOrder HealthStatus := LinearOrder.lift' level level_injective

end HealthStatus

-- what comes of a probe: the request is not built, it fails, or it is answered; the body is `none` when it
-- cannot be decoded
inductive Reply (α : Type)
  | unsent
  | failed
  | answered (status : ℕ) (body : Option α)

def Reply.json {α : Type} : Reply α → Option α
  | .answered status body => if status = 200 then body else none
  | _ => none

structure SyncStatus where
  headSlot : String
  syncDistance : String
  isSyncing : Bool
  elOffline : Bool

structure BeaconHeader where
  slot : String
  root : String

structure Node where
  health : HealthStatus := .up
  nodeVerdict : HealthStatus := .up
  syncVerdict : HealthStatus := .up
  headSlot : UInt64 := 0
  headRoot : String := ""
  payloadRoot : String := ""
  payloadFull : Bool := false
  syncDistance : UInt64 := 0
  isSyncing : Bool := false
  finalizedEpoch : UInt64 := 0
  clientType : String := "unknown"
  healthGauge : HealthStatus := .up
  payloadGauge : Option Bool := none

namespace Node

variable (n : Node)

def recomputeHealth : Node :=
  { n with health := min n.nodeVerdict n.syncVerdict, healthGauge := min n.nodeVerdict n.syncVerdict }

def setNodeVerdict (v : HealthStatus) : Node := { n with nodeVerdict := v }.recomputeHealth

def setSyncVerdict (v : HealthStatus) : Node := { n with syncVerdict := v }.recomputeHealth

def updateSyncStatus (isSyncing : Bool) (headSlot syncDistance : UInt64) : Node :=
  { n with
    isSyncing := isSyncing
    headSlot := headSlot
    syncDistance := syncDistance
    syncVerdict := if isSyncing then .degraded else .up }.recomputeHealth

def updateFinalizedEpoch (epoch : UInt64) : Node :=
  if n.finalizedEpoch < epoch then { n with finalizedEpoch := epoch } else n

def syncPayloadGauge : Node :=
  { n with payloadGauge := if n.payloadRoot = "" ∨ n.payloadRoot ≠ n.headRoot then none else some n.payloadFull }

def updateHeadBlock (slot : UInt64) (root : String) : Node :=
  { n with headSlot := slot, headRoot := root }.syncPayloadGauge

def setHeadPayloadStatus (root : String) (full : Bool) : Node :=
  { n with payloadRoot := root, payloadFull := full }.syncPayloadGauge

def clearHeadPayloadStatus : Node := { n with payloadRoot := "" }.syncPayloadGauge

def headPayloadStatus : String :=
  if n.payloadRoot = "" ∨ n.payloadRoot ≠ n.headRoot then "unknown" else if n.payloadFull then "full" else "empty"

end Node

section Checks

variable (maxSyncDistance : UInt64)

def syncReport : Reply SyncStatus → Option (Bool × UInt64 × UInt64)
  | r => do
    let s ← r.json
    let headSlot ← parseUint64 s.headSlot
    let syncDistance ← parseUint64 s.syncDistance
    return (s.isSyncing || maxSyncDistance < syncDistance || s.elOffline, headSlot, syncDistance)

def checkSync (n : Node) (r : Reply SyncStatus) : Node :=
  match syncReport maxSyncDistance r with
  | none => n.setSyncVerdict .down
  | some (isSyncing, headSlot, syncDistance) => n.updateSyncStatus isSyncing headSlot syncDistance

def checkNodeHealth (n : Node) : Reply Unit → Node
  | .unsent => n
  | .failed => n.setNodeVerdict .down
  | .answered status _ =>
    if status = 200 then n.setNodeVerdict .up
    else if status = 206 then n.setNodeVerdict .degraded
    else if status = 503 then n.setNodeVerdict .down
    else n.setNodeVerdict .up

def checkHead (n : Node) (r : Reply BeaconHeader) : Node :=
  match r.json with
  | none => n
  | some h => (parseUint64 h.slot).elim n (n.updateHeadBlock · h.root)

def checkFinality (n : Node) (r : Reply String) : Node :=
  (r.json.bind parseUint64).elim n n.updateFinalizedEpoch

def detectClientType (version : String) : String :=
  (Network.knownClientTypes.find? (fun t => hasPrefixFold version (t ++ "/"))).getD "unknown"

def checkVersion (n : Node) (r : Reply String) : Node :=
  r.json.elim n (fun version => { n with clientType := detectClientType version })

end Checks

inductive Probe
  | sync (r : Reply SyncStatus)
  | node (r : Reply Unit)
  | head (r : Reply BeaconHeader)
  | finality (r : Reply String)
  | version (r : Reply String)
  | headSeen (slot : UInt64) (root : String)
  | payload (root : String) (full : Bool)
  | streamLost

def Node.step (maxSyncDistance : UInt64) (n : Node) : Probe → Node
  | .sync r => checkSync maxSyncDistance n r
  | .node r => checkNodeHealth n r
  | .head r => checkHead n r
  | .finality r => checkFinality n r
  | .version r => checkVersion n r
  | .headSeen slot root => n.updateHeadBlock slot root
  | .payload root full => n.setHeadPayloadStatus root full
  | .streamLost => n.clearHeadPayloadStatus

abbrev Monitor := String × String → Node

abbrev Probes := List ((String × String) × Probe)

namespace Monitor

-- every network has a threshold of its own
variable (maxSyncDistance : String → UInt64)

def step (m : Monitor) (p : (String × String) × Probe) : Monitor :=
  Function.update m p.1 ((m p.1).step (maxSyncDistance p.1.1) p.2)

def run (probes : Probes) : Monitor := probes.foldl (step maxSyncDistance) (fun _ => {})

end Monitor

section Verdicts

def Probe.nodeVerdict : Probe → Option HealthStatus
  | .node .failed => some .down
  | .node (.answered status _) =>
    some (if status = 206 then .degraded else if status = 503 then .down else .up)
  | _ => none

def Probe.syncVerdict (maxSyncDistance : UInt64) : Probe → Option HealthStatus
  | .sync r => some ((syncReport maxSyncDistance r).elim .down (fun s => if s.1 then .degraded else .up))
  | _ => none

def Probe.headRoot : Probe → Option String
  | .head r => r.json.bind (fun h => (parseUint64 h.slot).map (fun _ => h.root))
  | .headSeen _ root => some root
  | _ => none

def Probe.report : Probe → Option (Option (String × Bool))
  | .payload root full => some (if root = "" then none else some (root, full))
  | .streamLost => some none
  | _ => none

def Node.report (n : Node) : Option (String × Bool) :=
  if n.payloadRoot = "" then none else some (n.payloadRoot, n.payloadFull)

variable {maxSyncDistance : UInt64}

theorem step_registers (n : Node) (p : Probe) :
    (n.step maxSyncDistance p).nodeVerdict = (p.nodeVerdict).getD n.nodeVerdict ∧
      (n.step maxSyncDistance p).syncVerdict = (p.syncVerdict maxSyncDistance).getD n.syncVerdict ∧
      (n.step maxSyncDistance p).headRoot = p.headRoot.getD n.headRoot ∧
      (n.step maxSyncDistance p).report = p.report.getD n.report := by
  cases p with
  | sync r =>
    unfold Node.step checkSync Probe.syncVerdict
    dsimp only
    cases syncReport maxSyncDistance r with
    | none => exact ⟨rfl, rfl, rfl, rfl⟩
    | some s => exact ⟨rfl, rfl, rfl, rfl⟩
  | node r =>
    cases r with
    | unsent => exact ⟨rfl, rfl, rfl, rfl⟩
    | failed => exact ⟨rfl, rfl, rfl, rfl⟩
    | answered status body =>
      unfold Node.step checkNodeHealth Probe.nodeVerdict
      dsimp only
      split_ifs
      all_goals first | exact ⟨rfl, rfl, rfl, rfl⟩ | omega
  | head r =>
    unfold Node.step checkHead Probe.headRoot
    dsimp only
    cases r.json with
    | none => exact ⟨rfl, rfl, rfl, rfl⟩
    | some h =>
      dsimp only [Option.bind_some]
      cases parseUint64 h.slot with
      | none => exact ⟨rfl, rfl, rfl, rfl⟩
      | some slot => exact ⟨rfl, rfl, rfl, rfl⟩
  | finality r =>
    unfold Node.step checkFinality
    dsimp only
    cases r.json.bind parseUint64 with
    | none => exact ⟨rfl, rfl, rfl, rfl⟩
    | some epoch =>
      unfold Option.elim Node.updateFinalizedEpoch
      dsimp only
      split_ifs
      · exact ⟨rfl, rfl, rfl, rfl⟩
      · exact ⟨rfl, rfl, rfl, rfl⟩
  | version r =>
    unfold Node.step checkVersion
    dsimp only
    cases r.json with
    | none => exact ⟨rfl, rfl, rfl, rfl⟩
    | some version => exact ⟨rfl, rfl, rfl, rfl⟩
  | headSeen slot root => exact ⟨rfl, rfl, rfl, rfl⟩
  | payload root full => exact ⟨rfl, rfl, rfl, rfl⟩
  | streamLost => exact ⟨rfl, rfl, rfl, rfl⟩

structure Node.Coherent (n : Node) : Prop where
  health : n.health = min n.nodeVerdict n.syncVerdict
  healthGauge : n.healthGauge = n.health
  payloadGauge : n.payloadGauge = (n.report.filter (fun r => r.1 = n.headRoot)).map Prod.snd

theorem gauge_eq (n : Node) :
    (if n.payloadRoot = "" ∨ n.payloadRoot ≠ n.headRoot then none else some n.payloadFull) =
      (n.report.filter (fun r => r.1 = n.headRoot)).map Prod.snd := by
  unfold Node.report
  by_cases hempty : n.payloadRoot = ""
  · rw [if_pos (Or.inl hempty), if_pos hempty]
    rfl
  rw [if_neg hempty, Option.filter_some]
  by_cases hhead : n.payloadRoot = n.headRoot
  · rw [if_neg (not_or.mpr ⟨hempty, not_not_intro hhead⟩), if_pos (by simpa using hhead)]
    rfl
  · rw [if_pos (Or.inr hhead), if_neg (by simpa using hhead)]
    rfl

theorem Node.Coherent.recompute {n n' : Node} (h : n.Coherent) (hgauge : n'.payloadGauge = n.payloadGauge)
    (hreport : n'.report = n.report) (hhead : n'.headRoot = n.headRoot) : n'.recomputeHealth.Coherent := by
  refine ⟨rfl, rfl, ?_⟩
  change n'.payloadGauge = (n'.report.filter (fun r => r.1 = n'.headRoot)).map Prod.snd
  rw [hgauge, hreport, hhead]
  exact h.payloadGauge

theorem Node.Coherent.syncGauge {n n' : Node} (h : n.Coherent) (hhealth : n'.health = n.health)
    (hgauge : n'.healthGauge = n.healthGauge) (hnode : n'.nodeVerdict = n.nodeVerdict)
    (hsync : n'.syncVerdict = n.syncVerdict) : n'.syncPayloadGauge.Coherent := by
  refine ⟨?_, ?_, gauge_eq n'⟩
  · change n'.health = min n'.nodeVerdict n'.syncVerdict
    rw [hhealth, hnode, hsync]
    exact h.health
  · change n'.healthGauge = n'.health
    rw [hgauge, hhealth]
    exact h.healthGauge

theorem Node.Coherent.step {n : Node} (h : n.Coherent) (p : Probe) : (n.step maxSyncDistance p).Coherent := by
  cases p with
  | sync r =>
    unfold Node.step checkSync
    dsimp only
    split
    · exact h.recompute rfl rfl rfl
    · exact h.recompute rfl rfl rfl
  | node r =>
    cases r with
    | unsent => exact h
    | failed => exact h.recompute rfl rfl rfl
    | answered status body =>
      unfold Node.step checkNodeHealth
      dsimp only
      split_ifs
      all_goals exact h.recompute rfl rfl rfl
  | head r =>
    unfold Node.step checkHead
    dsimp only
    split
    · exact h
    · rename_i header _
      cases parseUint64 header.slot with
      | none => exact h
      | some slot => exact h.syncGauge rfl rfl rfl rfl
  | finality r =>
    unfold Node.step checkFinality
    dsimp only
    cases r.json.bind parseUint64 with
    | none => exact h
    | some epoch =>
      unfold Option.elim Node.updateFinalizedEpoch
      dsimp only
      split_ifs
      · exact ⟨h.health, h.healthGauge, h.payloadGauge⟩
      · exact h
  | version r =>
    unfold Node.step checkVersion
    dsimp only
    cases r.json with
    | none => exact h
    | some version => exact ⟨h.health, h.healthGauge, h.payloadGauge⟩
  | headSeen slot root => exact h.syncGauge rfl rfl rfl rfl
  | payload root full => exact h.syncGauge rfl rfl rfl rfl
  | streamLost => exact h.syncGauge rfl rfl rfl rfl

end Verdicts

namespace Monitor

variable {maxSyncDistance : String → UInt64}

def about {ν : Type} (k : String × String) (f : Probe → Option ν) (p : (String × String) × Probe) : Option ν :=
  if p.1 = k then f p.2 else none

theorem run_eq_latest {ν : Type} {get : Node → ν} {f : Probe → Option ν}
    {k : String × String} (h : ∀ n p, get (n.step (maxSyncDistance k.1) p) = (f p).getD (get n)) (probes : Probes) :
    get (run maxSyncDistance probes k) = latest (about k f) (get {}) probes := by
  refine foldl_eq_latest (fun m : Monitor => get (m k)) (fun m p => ?_) _ probes
  unfold step about
  by_cases hk : p.1 = k
  · rw [if_pos hk, hk, Function.update_self]
    exact h _ _
  · rw [if_neg hk, Function.update_of_ne (Ne.symm hk)]
    rfl

theorem run_coherent (maxSyncDistance : String → UInt64) (probes : Probes) (k : String × String) :
    (run maxSyncDistance probes k).Coherent := by
  refine Runs.foldl_invariant (I := fun m : Monitor => ∀ k, (m k).Coherent) (fun m p h k => ?_) probes
    (fun _ => ⟨rfl, rfl, rfl⟩) k
  unfold step
  by_cases hk : k = p.1
  · rw [hk, Function.update_self]
    exact (h p.1).step p.2
  · rw [Function.update_of_ne hk]
    exact h k

def verdict (maxSyncDistance : String → UInt64) (probes : Probes) (k : String × String) : HealthStatus :=
  min (latest (about k Probe.nodeVerdict) .up probes)
    (latest (about k (Probe.syncVerdict (maxSyncDistance k.1))) .up probes)

theorem health_eq_verdict (probes : Probes) (k : String × String) :
    (run maxSyncDistance probes k).health = verdict maxSyncDistance probes k := by
  rw [(run_coherent maxSyncDistance probes k).health, run_eq_latest (fun n p => (step_registers n p).1),
    run_eq_latest (fun n p => (step_registers n p).2.1)]
  rfl

/-- Whatever the order of probes and events, the payload status that is reported, and its gauge, are those of the last
report of a stream that still lasts, if it is about the block that was last seen as the head. -/
theorem payload_of_probes (probes : Probes) (k : String × String) :
    (run maxSyncDistance probes k).payloadGauge =
        ((latest (about k Probe.report) none probes).filter
          (fun r => r.1 = latest (about k Probe.headRoot) "" probes)).map Prod.snd ∧
      (run maxSyncDistance probes k).headPayloadStatus =
        (run maxSyncDistance probes k).payloadGauge.elim "unknown" (fun full => if full then "full" else "empty") := by
  have hgauge := (run_coherent maxSyncDistance probes k).payloadGauge
  constructor
  · rw [hgauge, run_eq_latest (fun n p => (step_registers n p).2.2.2),
      run_eq_latest (fun n p => (step_registers n p).2.2.1)]
    rfl
  · rw [hgauge, ← gauge_eq]
    unfold Node.headPayloadStatus
    split_ifs
    · rfl
    · rename_i hfull
      simp [hfull]
    · rename_i hfull
      simp [hfull]

end Monitor

end EBeacon.Upstream
