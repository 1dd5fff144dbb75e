import EBeacon.Upstream.PoolHeads

namespace EBeacon.Upstream.Plausibility

open Words

def slotAt (cfg : ChainConfig) (now : Int64) : ℕ :=
  (now.toInt - cfg.genesisTime.toInt + 600).toNat / cfg.secondsPerSlot.toInt.toNat

inductive Op
  | addBlock (upstreamID : String) (slot : UInt64) (root parentRoot : String)
  | recordRemoteHead (slot : UInt64) (root : String)
  | updateFinalizedEpoch (epoch : UInt64)
  | seedFinalizedEpoch (epoch : UInt64)
  deriving DecidableEq, Repr

structure Sys where
  pool : PoolHeads
  clock : Int64

def apply (p : PoolHeads) (now : Int64) : Op → PoolHeads
  | .addBlock upstreamID slot root parentRoot => p.addBlock now upstreamID slot root parentRoot
  | .recordRemoteHead slot root => p.recordRemoteHead now slot root
  | .updateFinalizedEpoch epoch => (p.updateFinalizedEpoch now epoch).1
  | .seedFinalizedEpoch epoch => p.seedFinalizedEpoch now epoch

def next (s : Sys) (label : Op × Int64) : Option Sys :=
  if label.2 < s.clock then none else some ⟨apply s.pool label.2 label.1, label.2⟩

def init (cfg : ChainConfig) (sharedState : Bool) (clock : Int64) : Sys := ⟨.new cfg sharedState, clock⟩

def Bounded (cfg : ChainConfig) (s : Sys) : Prop :=
  s.pool.blockCache.maxSlot.toNat ≤ slotAt cfg s.clock ∧
    s.pool.finalizedEpoch.toNat * cfg.slotsPerEpoch.toNat ≤ slotAt cfg s.clock

def Op.claim (cfg : ChainConfig) : Op → ℕ
  | .addBlock _ slot _ _ => slot.toNat
  | .recordRemoteHead slot _ => slot.toNat
  | .updateFinalizedEpoch epoch => epoch.toNat * cfg.slotsPerEpoch.toNat
  | .seedFinalizedEpoch epoch => epoch.toNat * cfg.slotsPerEpoch.toNat

/-- A call made before the genesis, when the code checks nothing, stays within the bound. -/
def Prudent (cfg : ChainConfig) (label : Op × Int64) : Prop :=
  label.2 ≤ cfg.genesisTime → label.1.claim cfg ≤ slotAt cfg label.2

structure Configured (cfg : ChainConfig) : Prop where
  genesisTime : 0 < cfg.genesisTime
  secondsPerSlot : 0 < cfg.secondsPerSlot
  slotsPerEpoch : 0 < cfg.slotsPerEpoch

structure Settings (cfg : ChainConfig) (p : PoolHeads) : Prop where
  genesisTime : p.blockCache.genesisTime = cfg.genesisTime
  secondsPerSlot : p.blockCache.secondsPerSlot = cfg.secondsPerSlot
  slotsPerEpoch : p.slotsPerEpoch = cfg.slotsPerEpoch

theorem slotAt_mono (cfg : ChainConfig) {a b : Int64} (h : a ≤ b) : slotAt cfg a ≤ slotAt cfg b := by
  rw [Int64.le_iff_toInt_le] at h
  apply Nat.div_le_div_right
  omega

section Guard

variable {cfg : ChainConfig} {p : PoolHeads} (hcfg : Configured cfg) (hp : Settings cfg p) (now : Int64)
include hcfg hp

theorem currentSlot_none (hn : now ≤ cfg.genesisTime) :
    p.blockCache.currentWallClockSlotLocked now = none := by
  have hg : ¬cfg.genesisTime ≤ 0 := Int64.not_le.mpr hcfg.genesisTime
  simp only [BlockCache.currentWallClockSlotLocked, hp.genesisTime, hg, hn, if_false, if_true]

theorem currentSlot_some (hn : ¬now ≤ cfg.genesisTime) :
    ∃ s, p.blockCache.currentWallClockSlotLocked now = some s ∧ s.toNat = slotAt cfg now := by
  have hg : ¬cfg.genesisTime ≤ 0 := Int64.not_le.mpr hcfg.genesisTime
  have hs : ¬cfg.secondsPerSlot ≤ 0 := Int64.not_le.mpr hcfg.secondsPerSlot
  refine ⟨(now - cfg.genesisTime + BlockCache.clockSkewTolerance).toUInt64 /
    cfg.secondsPerSlot.toUInt64, ?_, ?_⟩
  · simp only [BlockCache.currentWallClockSlotLocked, hp.genesisTime, hp.secondsPerSlot, hg, hn, hs,
      if_false]
  have hpos := Int64.lt_iff_toInt_lt.mp hcfg.genesisTime
  have hspos := Int64.lt_iff_toInt_lt.mp hcfg.secondsPerSlot
  have hlt := Int64.lt_iff_toInt_lt.mp (Int64.not_le.mp hn)
  have hmax := Int64.toInt_lt now
  have hsmax := Int64.toInt_lt cfg.secondsPerSlot
  have htol : BlockCache.clockSkewTolerance.toInt = 600 := by decide
  have hzero : (0 : Int64).toInt = 0 := by decide
  have hsec : cfg.secondsPerSlot.toUInt64.toNat = cfg.secondsPerSlot.toInt.toNat := by
    have h := toNat_toUInt64 cfg.secondsPerSlot
    rw [Int.emod_eq_of_lt (by omega) (by omega)] at h
    omega
  rw [UInt64.toNat_div, hsec, toNat_sub_add_toUInt64 _ _ _ (by omega) (by omega), htol]
  rfl

theorem aheadOfClock_iff (slot : UInt64) :
    p.blockCache.aheadOfClock now slot = true ↔
      ¬now ≤ cfg.genesisTime ∧ slotAt cfg now < slot.toNat := by
  by_cases hn : now ≤ cfg.genesisTime
  · simp [BlockCache.aheadOfClock, currentSlot_none hcfg hp now hn, hn]
  · obtain ⟨s, hs, he⟩ := currentSlot_some hcfg hp now hn
    simp [BlockCache.aheadOfClock, hs, hn, ← he, UInt64.lt_iff_toNat_lt]

theorem plausibleFinalizedEpoch_iff (epoch : UInt64) :
    p.plausibleFinalizedEpoch now epoch = true ↔
      now ≤ cfg.genesisTime ∨ epoch.toNat * cfg.slotsPerEpoch.toNat ≤ slotAt cfg now := by
  by_cases hn : now ≤ cfg.genesisTime
  · simp [PoolHeads.plausibleFinalizedEpoch, currentSlot_none hcfg hp now hn, hn]
  · obtain ⟨s, hs, he⟩ := currentSlot_some hcfg hp now hn
    have hpos := UInt64.lt_iff_toNat_lt.mp hcfg.slotsPerEpoch
    have hspe : p.slotsPerEpochOrDefault = cfg.slotsPerEpoch := by
      have hne : cfg.slotsPerEpoch ≠ 0 := (ne_of_lt hcfg.slotsPerEpoch).symm
      simp [PoolHeads.slotsPerEpochOrDefault, hp.slotsPerEpoch, hne]
    simp only [PoolHeads.plausibleFinalizedEpoch, hs, hspe, decide_eq_true_eq, hn, false_or,
      UInt64.le_iff_toNat_le, UInt64.toNat_div, ← he]
    exact Nat.le_div_iff_mul_le hpos

def level (cfg : ChainConfig) (p : PoolHeads) : ℕ :=
  max p.blockCache.maxSlot.toNat (p.finalizedEpoch.toNat * cfg.slotsPerEpoch.toNat)

theorem level_addBlock (upstreamID : String) (slot : UInt64) (root parentRoot : String) :
    level cfg (p.addBlock now upstreamID slot root parentRoot) =
      if now ≤ cfg.genesisTime ∨ slot.toNat ≤ slotAt cfg now then max (level cfg p) slot.toNat
      else level cfg p := by
  have himp := aheadOfClock_iff hcfg hp now slot
  have hmax := p.blockCache.addBlock_maxSlot now upstreamID slot root parentRoot
  simp only [level, PoolHeads.addBlock]
  by_cases hok : now ≤ cfg.genesisTime ∨ slot.toNat ≤ slotAt cfg now
  · have hnot : ¬p.blockCache.aheadOfClock now slot = true :=
      fun h => hok.elim (himp.mp h).1 (Nat.not_le.mpr (himp.mp h).2)
    rw [hmax, if_neg hnot, if_pos hok, toNat_max]
    omega
  · obtain ⟨hlate, hbeyond⟩ := not_or.mp hok
    have hyes : p.blockCache.aheadOfClock now slot = true := himp.mpr ⟨hlate, Nat.not_le.mp hbeyond⟩
    rw [hmax, if_pos hyes, if_neg hok]

theorem level_mergeEpoch (epoch : UInt64) :
    level cfg (if p.plausibleFinalizedEpoch now epoch then p.mergeEpoch epoch else p) =
      if now ≤ cfg.genesisTime ∨ epoch.toNat * cfg.slotsPerEpoch.toNat ≤ slotAt cfg now then
        max (level cfg p) (epoch.toNat * cfg.slotsPerEpoch.toNat)
      else level cfg p := by
  simp only [plausibleFinalizedEpoch_iff hcfg hp now epoch]
  split
  · simp only [level, PoolHeads.mergeEpoch, UInt64.le_iff_toNat_le]
    split
    · have hle := Nat.mul_le_mul_right cfg.slotsPerEpoch.toNat ‹epoch.toNat ≤ _›
      omega
    · have hle := Nat.mul_le_mul_right cfg.slotsPerEpoch.toNat (Nat.le_of_not_le ‹¬epoch.toNat ≤ _›)
      simp only
      omega
  · rfl

theorem level_apply (op : Op) :
    level cfg (apply p now op) =
      if now ≤ cfg.genesisTime ∨ op.claim cfg ≤ slotAt cfg now then max (level cfg p) (op.claim cfg)
      else level cfg p := by
  cases op with
  | addBlock upstreamID slot root parentRoot =>
    exact level_addBlock hcfg hp now upstreamID slot root parentRoot
  | recordRemoteHead slot root => exact level_addBlock hcfg hp now remoteVoter slot root ""
  | updateFinalizedEpoch epoch => exact level_mergeEpoch hcfg hp now epoch
  | seedFinalizedEpoch epoch => exact level_mergeEpoch hcfg hp now epoch

omit hcfg in
theorem Settings.apply (op : Op) : Settings cfg (apply p now op) := by
  have hadd : ∀ upstreamID slot root parentRoot,
      Settings cfg (p.addBlock now upstreamID slot root parentRoot) := by
    intro upstreamID slot root parentRoot
    obtain ⟨hg, hs, _⟩ := p.blockCache.addBlock_settings now upstreamID slot root parentRoot
    exact ⟨hg.trans hp.genesisTime, hs.trans hp.secondsPerSlot, hp.slotsPerEpoch⟩
  have hmerge : ∀ epoch,
      Settings cfg (if p.plausibleFinalizedEpoch now epoch then p.mergeEpoch epoch else p) := by
    intro epoch
    unfold PoolHeads.mergeEpoch
    split
    · split
      · exact hp
      · exact ⟨hp.genesisTime, hp.secondsPerSlot, hp.slotsPerEpoch⟩
    · exact hp
  cases op with
  | addBlock upstreamID slot root parentRoot => exact hadd upstreamID slot root parentRoot
  | recordRemoteHead slot root => exact hadd remoteVoter slot root ""
  | updateFinalizedEpoch epoch => exact hmerge epoch
  | seedFinalizedEpoch epoch => exact hmerge epoch

end Guard

theorem bounded_iff (cfg : ChainConfig) (s : Sys) :
    Bounded cfg s ↔ level cfg s.pool ≤ slotAt cfg s.clock := by
  simp only [Bounded, level]
  omega

theorem next_some {s s' : Sys} {label : Op × Int64} (h : next s label = some s') :
    s.clock ≤ label.2 ∧ s' = ⟨apply s.pool label.2 label.1, label.2⟩ := by
  simp only [next] at h
  split at h
  · exact absurd h.symm (Option.some_ne_none s')
  · exact ⟨Int64.not_lt.mp ‹_›, (Option.some.inj h).symm⟩

theorem bounded_next {cfg : ChainConfig} (hcfg : Configured cfg) {s s' : Sys} {label : Op × Int64}
    (hp : Settings cfg s.pool) (hb : Bounded cfg s) (h : next s label = some s') :
    Bounded cfg s' ↔ Prudent cfg label := by
  obtain ⟨hclock, rfl⟩ := next_some h
  rw [bounded_iff] at hb
  have hold := Nat.le_trans hb (slotAt_mono cfg hclock)
  rw [bounded_iff]
  change level cfg (apply s.pool label.2 label.1) ≤ slotAt cfg label.2 ↔ _
  rw [level_apply hcfg hp, Prudent]
  by_cases hn : label.2 ≤ cfg.genesisTime
  · rw [if_pos (.inl hn), Nat.max_le]
    exact ⟨fun h _ => h.2, fun h => ⟨hold, h hn⟩⟩
  · simp only [hn, false_or, false_implies, iff_true]
    split
    · exact Nat.max_le.mpr ⟨hold, ‹_›⟩
    · exact hold

theorem settings_run {cfg : ChainConfig} {sharedState : Bool} {clock : Int64} {labels : List (Op × Int64)}
    {s : Sys} (h : Runs.exec next (init cfg sharedState clock) labels = some s) : Settings cfg s.pool := by
  refine Runs.exec_invariant (I := fun s => Settings cfg s.pool) ⟨rfl, rfl, rfl⟩ ?_ h
  intro t label u ht hn
  obtain ⟨_, rfl⟩ := next_some hn
  exact ht.apply label.2 label.1

theorem plausibility_bound {cfg : ChainConfig} (hcfg : Configured cfg) {sharedState : Bool}
    {clock : Int64} {labels : List (Op × Int64)} {t : Sys}
    (run : Runs.exec next (init cfg sharedState clock) labels = some t) :
    (∀ pre s, pre <+: labels → Runs.exec next (init cfg sharedState clock) pre = some s → Bounded cfg s) ↔
      ∀ label ∈ labels, Prudent cfg label := by
  refine Runs.exec_induction (P := fun labels _ =>
    (∀ pre s, pre <+: labels → Runs.exec next (init cfg sharedState clock) pre = some s →
      Bounded cfg s) ↔ ∀ label ∈ labels, Prudent cfg label) ?_ ?_ run
  · constructor
    · exact fun _ label hl => absurd hl List.not_mem_nil
    · intro _ pre s hpre hs
      rw [List.prefix_nil.mp hpre, Runs.exec_nil] at hs
      obtain rfl := Option.some.inj hs
      exact ⟨Nat.zero_le _, by simp [init, PoolHeads.new, PoolHeads.setChainTiming]⟩
  · intro labels s label u hs ih hn
    have hu : Runs.exec next (init cfg sharedState clock) (labels ++ [label]) = some u :=
      Runs.exec_concat_some.mpr ⟨s, hs, hn⟩
    constructor
    · intro hall
      have hpre := ih.mp (fun pre s' hpre => hall pre s' (hpre.trans (List.prefix_append labels [label])))
      have hlast := (bounded_next hcfg (settings_run hs)
        (hall labels s (List.prefix_append labels [label]) hs) hn).mp (hall _ u List.prefix_rfl hu)
      intro l hl
      rcases List.mem_append.mp hl with hl | hl
      · exact hpre l hl
      · exact List.mem_singleton.mp hl ▸ hlast
    · intro hall pre s' hpre hs'
      have hbefore := ih.mpr (fun l hl => hall l (List.mem_append_left _ hl))
      rcases List.prefix_concat_iff.mp hpre with rfl | hpre
      · obtain rfl := Option.some.inj (hu.symm.trans hs')
        exact (bounded_next hcfg (settings_run hs) (hbefore labels s List.prefix_rfl hs) hn).mpr
          (hall label (List.mem_append_right _ List.mem_cons_self))
      · exact hbefore pre s' hpre hs'

def beforeGenesis : ChainConfig := ⟨"devnet", 64, 2, 1000, 12, 32⟩

def prudentRun : List (Op × Int64) :=
  [(.addBlock "node" 3 "0x1" "0x0", 500), (.addBlock "node" 1000000 "0x2" "0x1", 1036)]

theorem plausibility_bound_prudentRun :
    ∃ t, Runs.exec next (init beforeGenesis false 0) prudentRun = some t ∧ Bounded beforeGenesis t := by
  obtain ⟨t, run⟩ : ∃ t, Runs.exec next (init beforeGenesis false 0) prudentRun = some t := ⟨_, rfl⟩
  have hall : ∀ label ∈ prudentRun, Prudent beforeGenesis label := by
    simp only [Prudent]
    decide
  exact ⟨t, run, (plausibility_bound ⟨by decide, by decide, by decide⟩ run).mpr hall _ t
    List.prefix_rfl run⟩

theorem plausibility_bound_fails :
    ∃ t, Runs.exec next (init beforeGenesis false 0) [(.addBlock "node" 1000000 "0x1" "0x0", 500)] =
        some t ∧ slotAt beforeGenesis t.clock = 8 ∧ t.pool.blockCache.maxSlot = 1000000 ∧
      ¬Bounded beforeGenesis t := by
  have hmax : (apply (.new beforeGenesis false) 500
      (.addBlock "node" 1000000 "0x1" "0x0")).blockCache.maxSlot = 1000000 :=
    (BlockCache.addBlock_maxSlot _ _ _ _ _ _).trans (by decide)
  refine ⟨⟨apply (.new beforeGenesis false) 500 (.addBlock "node" 1000000 "0x1" "0x0"), 500⟩, rfl,
    by decide, hmax, fun h => ?_⟩
  have hle := h.1
  rw [hmax] at hle
  exact absurd hle (by decide)

end EBeacon.Upstream.Plausibility
