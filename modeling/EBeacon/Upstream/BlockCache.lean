import Mathlib.Data.List.AList
import Mathlib.Data.Finset.Card
import Mathlib.Data.String.Basic
import Mathlib.Logic.Function.Basic

namespace EBeacon.Upstream

structure Block where
  slot : UInt64
  root : String
  parentRoot : String
  seenBy : Finset String
  firstSeen : Int64

def Block.zero : Block := ⟨0, "", "", ∅, 0⟩

def remoteVoter : String := "@remote"

def Block.see (b : Block) (upstreamID : String) : Block :=
  { b with seenBy := insert upstreamID b.seenBy }

def Block.votes (countRemote : Bool) (b : Block) : ℕ :=
  let count := b.seenBy.card
  if !countRemote && remoteVoter ∈ b.seenBy then count - 1 else count

inductive ForkStatus
  | canonical
  | forked
  | lagging
  deriving DecidableEq, Repr

/-- Both maps of the source hold pointers to shared blocks. Here a block is a cell of `heap`, a
pointer is the number of the cell, and the cells from `fresh` on have not been allocated. -/
structure BlockCache where
  heap : ℕ → Block
  fresh : ℕ
  slotMap : AList (fun _ : UInt64 => List ℕ)
  rootMap : AList (fun _ : String => ℕ)
  maxSlot : UInt64
  followDistance : UInt64
  maxHeadDistance : UInt64
  genesisTime : Int64
  secondsPerSlot : Int64
  canonSlot : UInt64
  canonRoot : String

namespace BlockCache

def defaultSecondsPerSlot : Int64 := 12

def clockSkewTolerance : Int64 := 600

def new (followDistance maxHeadDistance : UInt64) : BlockCache where
  heap := fun _ => .zero
  fresh := 0
  slotMap := ∅
  rootMap := ∅
  maxSlot := 0
  followDistance := followDistance
  maxHeadDistance := maxHeadDistance
  genesisTime := 0
  secondsPerSlot := 0
  canonSlot := 0
  canonRoot := ""

def setSlotTiming (bc : BlockCache) (genesisTime secondsPerSlot : Int64) : BlockCache :=
  { bc with genesisTime := genesisTime, secondsPerSlot := secondsPerSlot }

def currentWallClockSlotLocked (bc : BlockCache) (now : Int64) : Option UInt64 :=
  if bc.genesisTime ≤ 0 then none
  else if now ≤ bc.genesisTime then none
  else
    let slotSeconds := if bc.secondsPerSlot ≤ 0 then defaultSecondsPerSlot else bc.secondsPerSlot
    let elapsed := now - bc.genesisTime + clockSkewTolerance
    some (elapsed.toUInt64 / slotSeconds.toUInt64)

def aheadOfClock (bc : BlockCache) (now : Int64) (slot : UInt64) : Bool :=
  (bc.currentWallClockSlotLocked now).any (· < slot)

def refsAt (bc : BlockCache) (slot : UInt64) : List ℕ := (bc.slotMap.lookup slot).getD []

def blocksAt (bc : BlockCache) (slot : UInt64) : List Block := (bc.refsAt slot).map bc.heap

def betterBlock (countRemote : Bool) (best : Option Block × ℕ) (b : Block) : Option Block × ℕ :=
  let count := b.votes countRemote
  if count = 0 then best
  else if best.2 < count ∨ (count = best.2 ∧ best.1.any (fun c => b.root < c.root)) then
    (some b, count)
  else best

def bestBlock (countRemote : Bool) (blocks : List Block) : Option Block :=
  (blocks.foldl (betterBlock countRemote) (none, 0)).1

def headWalk (limit : UInt64) (best : UInt64 → Option Block) : ℕ → UInt64 × String
  | 0 => (0, "")
  | n + 1 =>
    let s := UInt64.ofNat (n + 1)
    if limit < s then
      match best s with
      | some b => (b.slot, b.root)
      | none => headWalk limit best n
    else (0, "")

def canonicalHead (bc : BlockCache) (countRemote : Bool) : UInt64 × String :=
  if bc.maxSlot = 0 then (0, "")
  else
    -- the subtraction wraps around, as uint64 does
    headWalk (bc.maxSlot - bc.maxHeadDistance - 1) (fun s => bestBlock countRemote (bc.blocksAt s))
      bc.maxSlot.toNat

def refreshCanonicalHeadLocked (bc : BlockCache) : BlockCache :=
  let head := bc.canonicalHead true
  { bc with canonSlot := head.1, canonRoot := head.2 }

def raiseMaxSlot (bc : BlockCache) (slot : UInt64) : BlockCache :=
  if bc.maxSlot < slot then { bc with maxSlot := slot } else bc

def recordBlock (bc : BlockCache) (now : Int64) (upstreamID : String) (slot : UInt64)
    (root parentRoot : String) : BlockCache :=
  match bc.rootMap.lookup root with
  | some r => { bc with heap := Function.update bc.heap r ((bc.heap r).see upstreamID) }
  | none =>
    { bc with
      heap := Function.update bc.heap bc.fresh ⟨slot, root, parentRoot, {upstreamID}, now⟩
      fresh := bc.fresh + 1
      rootMap := bc.rootMap.insert root bc.fresh
      slotMap := bc.slotMap.insert slot (bc.refsAt slot ++ [bc.fresh]) }

def addBlock (bc : BlockCache) (now : Int64) (upstreamID : String) (slot : UInt64)
    (root parentRoot : String) : BlockCache :=
  if bc.aheadOfClock now slot then bc
  else ((bc.raiseMaxSlot slot).recordBlock now upstreamID slot root parentRoot).refreshCanonicalHeadLocked

def pruneSlot (cutoff : UInt64) (bc : BlockCache) (e : Σ _ : UInt64, List ℕ) : BlockCache :=
  if e.1 < cutoff then
    { bc with
      rootMap := e.2.foldl (fun m r => m.erase (bc.heap r).root) bc.rootMap
      slotMap := bc.slotMap.erase e.1 }
  else bc

def cleanup (bc : BlockCache) : BlockCache :=
  if bc.maxSlot ≤ bc.followDistance then bc
  else
    let cutoff := bc.maxSlot - bc.followDistance
    (bc.slotMap.entries.foldl (pruneSlot cutoff) bc).refreshCanonicalHeadLocked

def canonicalHeadLocked (bc : BlockCache) : UInt64 × String := (bc.canonSlot, bc.canonRoot)

def localCanonicalHead (bc : BlockCache) : UInt64 × String := bc.canonicalHead false

def canonicalHeadSeenBy (bc : BlockCache) : Option (Finset String) :=
  if bc.canonRoot = "" then none
  else match bc.rootMap.lookup bc.canonRoot with
    | none => none
    | some r =>
      let out := (bc.heap r).seenBy.erase remoteVoter
      if out = ∅ then none else some out

def hasVote (bc : BlockCache) (root voter : String) : Bool :=
  (bc.rootMap.lookup root).any (fun r => voter ∈ (bc.heap r).seenBy)

def seenAt (bc : BlockCache) (slot : UInt64) (upstreamID : String) : Bool :=
  (bc.blocksAt slot).any (fun b => upstreamID ∈ b.seenBy)

def seenBehind (bc : BlockCache) (canonSlot : UInt64) (upstreamID : String) : ℕ → Bool
  | 0 => false
  | n + 1 =>
    let s := UInt64.ofNat (n + 1)
    if canonSlot - s ≤ bc.maxHeadDistance then
      bc.seenAt s upstreamID || bc.seenBehind canonSlot upstreamID n
    else false

def forkStatus (bc : BlockCache) (upstreamID : String) : ForkStatus :=
  let (canonSlot, canonRoot) := bc.canonicalHeadLocked
  if canonSlot = 0 then .canonical
  else if bc.hasVote canonRoot upstreamID then .canonical
  else if bc.seenAt canonSlot upstreamID then .forked
  else if bc.seenBehind canonSlot upstreamID (canonSlot - 1).toNat then .canonical
  else .lagging

def isOnCanonicalFork (bc : BlockCache) (upstreamID : String) : Bool :=
  bc.forkStatus upstreamID = .canonical

def isForked (bc : BlockCache) (upstreamID : String) : Bool :=
  bc.forkStatus upstreamID = .forked

inductive Op
  | addBlock (now : Int64) (upstreamID : String) (slot : UInt64) (root parentRoot : String)
  | setSlotTiming (genesisTime secondsPerSlot : Int64)
  | cleanup
  deriving DecidableEq, Repr

def apply (bc : BlockCache) : Op → BlockCache
  | .addBlock now upstreamID slot root parentRoot => bc.addBlock now upstreamID slot root parentRoot
  | .setSlotTiming genesisTime secondsPerSlot => bc.setSlotTiming genesisTime secondsPerSlot
  | .cleanup => bc.cleanup

end BlockCache

end EBeacon.Upstream
