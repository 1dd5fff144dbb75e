import EBeacon.Upstream.BlockCacheHead

namespace EBeacon.Upstream

structure ChainConfig where
  id : String
  followDistance : UInt64
  maxHeadDistance : UInt64
  genesisTime : Int64
  secondsPerSlot : Int64
  slotsPerEpoch : UInt64
  deriving DecidableEq, Repr

-- the fields of a pool that track heads and finality; `sharedState` says that the pool is attached to Redis
structure PoolHeads where
  networkID : String
  blockCache : BlockCache
  finalizedEpoch : UInt64
  slotsPerEpoch : UInt64
  sharedState : Bool
  lastPublished : UInt64 × String

namespace PoolHeads

def defaultSlotsPerEpoch : UInt64 := 32

def setChainTiming (p : PoolHeads) (genesisTime secondsPerSlot : Int64) (slotsPerEpoch : UInt64) :
    PoolHeads :=
  { p with
    blockCache := p.blockCache.setSlotTiming genesisTime secondsPerSlot
    slotsPerEpoch := slotsPerEpoch }

def new (cfg : ChainConfig) (sharedState : Bool) : PoolHeads :=
  setChainTiming
    { networkID := cfg.id
      blockCache := .new cfg.followDistance cfg.maxHeadDistance
      finalizedEpoch := 0
      slotsPerEpoch := 0
      sharedState := sharedState
      lastPublished := (0, "") }
    cfg.genesisTime cfg.secondsPerSlot cfg.slotsPerEpoch

def slotsPerEpochOrDefault (p : PoolHeads) : UInt64 :=
  if p.slotsPerEpoch = 0 then defaultSlotsPerEpoch else p.slotsPerEpoch

def finalizedSlot (p : PoolHeads) : UInt64 :=
  if p.finalizedEpoch = 0 then 0 else p.finalizedEpoch * p.slotsPerEpochOrDefault

def plausibleFinalizedEpoch (p : PoolHeads) (now : Int64) (epoch : UInt64) : Bool :=
  match p.blockCache.currentWallClockSlotLocked now with
  | none => true
  | some currentSlot => epoch ≤ currentSlot / p.slotsPerEpochOrDefault

def mergeEpoch (p : PoolHeads) (epoch : UInt64) : PoolHeads :=
  if epoch ≤ p.finalizedEpoch then p else { p with finalizedEpoch := epoch }

def updateFinalizedEpoch (p : PoolHeads) (now : Int64) (epoch : UInt64) : PoolHeads × Option UInt64 :=
  let p := if p.plausibleFinalizedEpoch now epoch then p.mergeEpoch epoch else p
  (p, if p.sharedState ∧ 0 < p.finalizedEpoch then some p.finalizedEpoch else none)

def seedFinalizedEpoch (p : PoolHeads) (now : Int64) (epoch : UInt64) : PoolHeads :=
  if p.plausibleFinalizedEpoch now epoch then p.mergeEpoch epoch else p

def addBlock (p : PoolHeads) (now : Int64) (upstreamID : String) (slot : UInt64)
    (root parentRoot : String) : PoolHeads :=
  { p with blockCache := p.blockCache.addBlock now upstreamID slot root parentRoot }

def recordRemoteHead (p : PoolHeads) (now : Int64) (slot : UInt64) (root : String) : PoolHeads :=
  p.addBlock now remoteVoter slot root ""

def syncCanonicalHead (p : PoolHeads) : PoolHeads × Option (UInt64 × String) :=
  if !p.sharedState then (p, none)
  else
    let head := p.blockCache.localCanonicalHead
    if head.1 = 0 ∨ head.2 = "" then (p, none)
    else if p.lastPublished = head then (p, none)
    else ({ p with lastPublished := head }, some head)

def cleanup (p : PoolHeads) : PoolHeads := { p with blockCache := p.blockCache.cleanup }

theorem syncCanonicalHead_blockCache (p : PoolHeads) :
    p.syncCanonicalHead.1.blockCache = p.blockCache ∧ p.syncCanonicalHead.1.networkID = p.networkID := by
  simp only [syncCanonicalHead]
  split
  · exact ⟨rfl, rfl⟩
  · split
    · exact ⟨rfl, rfl⟩
    · split <;> exact ⟨rfl, rfl⟩

theorem syncCanonicalHead_local {p : PoolHeads} (h : p.blockCache.Consistent) {slot : UInt64}
    {root : String} (hp : p.syncCanonicalHead.2 = some (slot, root)) :
    ∃ voter, voter ≠ remoteVoter ∧ p.blockCache.hasVote root voter = true := by
  have hhead : p.blockCache.localCanonicalHead = (slot, root) ∧ root ≠ "" := by
    simp only [syncCanonicalHead] at hp
    split at hp
    · simp at hp
    · split at hp
      · simp at hp
      · rename_i hne
        split at hp
        · simp at hp
        · have hhead := Option.some.inj hp
          exact ⟨hhead, fun he => hne (.inr ((congrArg Prod.snd hhead).trans he))⟩
  rcases h.canonicalHead_outcome false with helected | ⟨hnone, _⟩
  · change Election.Elected _ _ (p.blockCache.localCanonicalHead).1 (p.blockCache.localCanonicalHead).2
      at helected
    rw [hhead.1] at helected
    have hpos := helected.leads.1
    cases hv : p.blockCache.tally.voters root with
    | none => simp [Tally.score, hv] at hpos
    | some e =>
      obtain ⟨s, V⟩ := e
      simp only [Tally.score, hv, Tally.countedVoters, Bool.false_eq_true, if_false] at hpos
      split at hpos
      · obtain ⟨voter, hvoter⟩ := Finset.card_pos.mp hpos
        obtain ⟨hne, hmem⟩ := Finset.mem_erase.mp hvoter
        exact ⟨voter, hne, (BlockCache.hasVote_iff _ _ _).mpr ⟨s, V, hv, hmem⟩⟩
      · exact absurd hpos (lt_irrefl 0)
  · have hroot : root = "" := congrArg Prod.snd (hhead.1.symm.trans hnone)
    exact absurd hroot hhead.2

end PoolHeads

end EBeacon.Upstream
