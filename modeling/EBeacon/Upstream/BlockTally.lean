import EBeacon.Library.Election
import EBeacon.Library.Words
import EBeacon.Upstream.BlockCacheRun

namespace EBeacon.Upstream

open Words

@[ext]
structure Tally where
  voters : String → Option (UInt64 × Finset String)
  maxSlot : UInt64

namespace Tally

def addVote (upstreamID : String) (slot : UInt64) :
    Option (UInt64 × Finset String) → UInt64 × Finset String
  | none => (slot, {upstreamID})
  | some (s, V) => (s, insert upstreamID V)

def report (t : Tally) (upstreamID : String) (slot : UInt64) (root : String) : Tally where
  voters := Function.update t.voters root (some (addVote upstreamID slot (t.voters root)))
  maxSlot := max t.maxSlot slot

def countedVoters (countRemote : Bool) (V : Finset String) : Finset String :=
  if countRemote then V else V.erase remoteVoter

def score (t : Tally) (countRemote : Bool) (slot : UInt64) (root : String) : ℕ :=
  match t.voters root with
  | none => 0
  | some (s, V) => if s = slot then (countedVoters countRemote V).card else 0

def window (t : Tally) (maxHeadDistance slot : UInt64) : Prop :=
  0 < slot ∧ slot ≤ t.maxSlot ∧ t.maxSlot - maxHeadDistance - 1 < slot

theorem addVote_comm {a b : String} {s s' : UInt64} (h : s = s')
    (old : Option (UInt64 × Finset String)) :
    addVote b s' (some (addVote a s old)) = addVote a s (some (addVote b s' old)) := by
  subst h
  cases old with
  | none => simp only [addVote, Finset.pair_comm]
  | some old => simp only [addVote, Finset.insert_comm]

theorem report_comm (t : Tally) {a b root root' : String} {s s' : UInt64} (h : root = root' → s = s') :
    (t.report a s root).report b s' root' = (t.report b s' root').report a s root := by
  have hmax : max (max t.maxSlot s) s' = max (max t.maxSlot s') s := max_right_comm _ _ _
  by_cases hr : root = root'
  · subst hr
    simp only [report, Function.update_self, Function.update_idem, addVote_comm (h rfl), hmax]
  · simp only [report, Function.update_of_ne hr, Function.update_of_ne (Ne.symm hr),
      Function.update_comm hr, hmax]

end Tally

namespace BlockCache

def tally (bc : BlockCache) : Tally where
  voters := fun root => (bc.rootMap.lookup root).map (fun r => ((bc.heap r).slot, (bc.heap r).seenBy))
  maxSlot := bc.maxSlot

theorem raiseMaxSlot_maxSlot (bc : BlockCache) (slot : UInt64) :
    (bc.raiseMaxSlot slot).maxSlot = max bc.maxSlot slot := by
  unfold raiseMaxSlot
  split
  · rename_i h
    rw [max_eq_right (le_of_lt h)]
  · rename_i h
    rw [max_eq_left (le_of_not_gt h)]

theorem addBlock_maxSlot (bc : BlockCache) (now : Int64) (upstreamID : String) (slot : UInt64)
    (root parentRoot : String) :
    (bc.addBlock now upstreamID slot root parentRoot).maxSlot =
      if bc.aheadOfClock now slot then bc.maxSlot else max bc.maxSlot slot := by
  unfold addBlock
  split
  · rfl
  · exact (recordBlock_maxSlot _ _ _ _ _ _).trans (raiseMaxSlot_maxSlot bc slot)

theorem tally_raiseMaxSlot (bc : BlockCache) (slot : UInt64) :
    (bc.raiseMaxSlot slot).tally = { bc.tally with maxSlot := max bc.maxSlot slot } := by
  rw [raiseMaxSlot_eq, raiseMaxSlot_maxSlot]
  rfl

theorem tally_recordBlock {bc : BlockCache} (h : bc.Consistent) (now : Int64) (upstreamID : String)
    (slot : UInt64) (root parentRoot : String) :
    (bc.recordBlock now upstreamID slot root parentRoot).tally = { bc.tally with
      voters := Function.update bc.tally.voters root
        (some (Tally.addVote upstreamID slot (bc.tally.voters root))) } := by
  refine Tally.ext (funext fun root' => ?_) (recordBlock_maxSlot _ _ _ _ _ _)
  simp only [tally]
  cases hroot : bc.rootMap.lookup root with
  | none =>
    rw [lookup_recordBlock_new hroot]
    by_cases hr : root' = root
    · subst hr
      simp [heap_recordBlock_new_fresh hroot, Tally.addVote]
    · rw [if_neg hr, Function.update_of_ne hr]
      refine Option.map_congr fun r hr' => ?_
      rw [heap_recordBlock_new_of_ne hroot _ _ _ _ (h.rooted_fresh hr').ne]
  | some r =>
    rw [recordBlock_known hroot]
    by_cases hr : root' = root
    · subst hr
      simp [hroot, Block.see, Tally.addVote]
    · rw [Function.update_of_ne hr]
      refine Option.map_congr fun r' hr' => ?_
      have hne : r' ≠ r := by
        rintro rfl
        exact hr ((h.rooted root' r' hr').1.symm.trans (h.rooted root r' hroot).1)
      simp only [Function.update_of_ne hne]

theorem tally_addBlock {bc : BlockCache} (h : bc.Consistent) (now : Int64) (upstreamID : String)
    (slot : UInt64) (root parentRoot : String) :
    (bc.addBlock now upstreamID slot root parentRoot).tally =
      if bc.aheadOfClock now slot then bc.tally else bc.tally.report upstreamID slot root := by
  unfold addBlock
  split
  · rfl
  · change ((bc.raiseMaxSlot slot).recordBlock now upstreamID slot root parentRoot).tally = _
    rw [tally_recordBlock (h.raiseMaxSlot slot), tally_raiseMaxSlot]
    rfl

theorem tally_cleanup (bc : BlockCache) {root : String} {e : UInt64 × Finset String}
    (he : bc.cleanup.tally.voters root = some e) : bc.tally.voters root = some e := by
  obtain ⟨cutoff, slotMap, rootMap, heq, _, hroot⟩ := bc.cleanup_maps
  rw [heq] at he
  obtain ⟨r, hr, hre⟩ := Option.map_eq_some_iff.mp he
  exact Option.map_eq_some_iff.mpr ⟨r, ((hroot root r).mp hr).1, hre⟩

theorem hasVote_eq (bc : BlockCache) (root voter : String) :
    bc.hasVote root voter = (bc.tally.voters root).any (fun e => voter ∈ e.2) := by
  simp only [hasVote, tally]
  cases bc.rootMap.lookup root <;> rfl

theorem hasVote_iff (bc : BlockCache) (root voter : String) :
    bc.hasVote root voter = true ↔ ∃ s V, bc.tally.voters root = some (s, V) ∧ voter ∈ V := by
  rw [hasVote_eq]
  cases bc.tally.voters root with
  | none => simp
  | some e =>
    constructor
    · exact fun h => ⟨e.1, e.2, rfl, by simpa using h⟩
    · rintro ⟨s, V, he, h⟩
      simpa [Option.some.inj he] using h

theorem hasVote_addBlock {bc : BlockCache} (h : bc.Consistent) {now : Int64} {upstreamID : String}
    {slot : UInt64} {root parentRoot root' voter : String}
    (hv : (bc.addBlock now upstreamID slot root parentRoot).hasVote root' voter = true) :
    (root' = root ∧ voter = upstreamID) ∨ bc.hasVote root' voter = true := by
  rw [hasVote_eq, tally_addBlock h] at hv
  rw [hasVote_eq]
  split at hv
  · exact .inr hv
  · by_cases hr : root' = root
    · subst hr
      cases hold : bc.tally.voters root' with
      | none =>
        simp only [Tally.report, Function.update_self, hold, Tally.addVote, Option.any_some,
          Finset.mem_singleton, decide_eq_true_eq] at hv
        exact .inl ⟨rfl, hv⟩
      | some e =>
        simp only [Tally.report, Function.update_self, hold, Tally.addVote, Option.any_some,
          Finset.mem_insert, decide_eq_true_eq] at hv
        rcases hv with hv | hv
        · exact .inl ⟨rfl, hv⟩
        · exact .inr (by simpa using hv)
    · simp only [Tally.report, Function.update_of_ne hr] at hv
      exact .inr hv

theorem hasVote_cleanup {bc : BlockCache} {root voter : String}
    (hv : bc.cleanup.hasVote root voter = true) : bc.hasVote root voter = true := by
  obtain ⟨s, V, he, hmem⟩ := (bc.cleanup.hasVote_iff root voter).mp hv
  exact (bc.hasVote_iff root voter).mpr ⟨s, V, bc.tally_cleanup he, hmem⟩

theorem Consistent.mem_blocksAt {bc : BlockCache} (h : bc.Consistent) (s : UInt64) (root : String)
    (V : Finset String) :
    (∃ b ∈ bc.blocksAt s, b.root = root ∧ b.seenBy = V) ↔ bc.tally.voters root = some (s, V) := by
  constructor
  · rintro ⟨b, hb, rfl, rfl⟩
    obtain ⟨r, hr, rfl⟩ := List.mem_map.mp hb
    simp only [tally, h.root s r hr, Option.map_some, h.slot s r hr]
  · intro hv
    obtain ⟨r, hr, he⟩ := Option.map_eq_some_iff.mp hv
    obtain ⟨hroot, hs⟩ := h.rooted root r hr
    simp only [Prod.mk.injEq] at he
    exact ⟨bc.heap r, List.mem_map.mpr ⟨r, he.1 ▸ hs, rfl⟩, hroot, he.2⟩

end BlockCache

end EBeacon.Upstream
