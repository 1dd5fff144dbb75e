import EBeacon.Library.Maps
import EBeacon.Upstream.BlockCache

namespace EBeacon.Upstream.BlockCache

structure Consistent (bc : BlockCache) : Prop where
  nodup : ∀ s, (bc.refsAt s).Nodup
  slot : ∀ s, ∀ r ∈ bc.refsAt s, (bc.heap r).slot = s
  seen : ∀ s, ∀ r ∈ bc.refsAt s, (bc.heap r).seenBy.Nonempty
  root : ∀ s, ∀ r ∈ bc.refsAt s, bc.rootMap.lookup (bc.heap r).root = some r
  rooted : ∀ root r, bc.rootMap.lookup root = some r →
    (bc.heap r).root = root ∧ r ∈ bc.refsAt (bc.heap r).slot
  bound : ∀ s, ∀ r ∈ bc.refsAt s, s ≤ bc.maxSlot
  fresh : ∀ s, ∀ r ∈ bc.refsAt s, r < bc.fresh

def Cached (bc : BlockCache) : Prop := bc.canonicalHeadLocked = bc.canonicalHead true

theorem Consistent.new (followDistance maxHeadDistance : UInt64) :
    (new followDistance maxHeadDistance).Consistent where
  nodup := fun _ => List.nodup_nil
  slot := fun _ _ h => absurd h List.not_mem_nil
  seen := fun _ _ h => absurd h List.not_mem_nil
  root := fun _ _ h => absurd h List.not_mem_nil
  rooted := fun root r h => by simp [BlockCache.new] at h
  bound := fun _ _ h => absurd h List.not_mem_nil
  fresh := fun _ _ h => absurd h List.not_mem_nil

theorem le_raiseMaxSlot (bc : BlockCache) (slot : UInt64) :
    bc.maxSlot ≤ (bc.raiseMaxSlot slot).maxSlot ∧ slot ≤ (bc.raiseMaxSlot slot).maxSlot := by
  unfold raiseMaxSlot
  split
  · rename_i h
    exact ⟨UInt64.le_of_lt h, UInt64.le_refl _⟩
  · rename_i h
    exact ⟨UInt64.le_refl _, UInt64.not_lt.mp h⟩

theorem raiseMaxSlot_eq (bc : BlockCache) (slot : UInt64) :
    bc.raiseMaxSlot slot = { bc with maxSlot := (bc.raiseMaxSlot slot).maxSlot } := by
  unfold raiseMaxSlot
  split <;> rfl

theorem Consistent.raiseMaxSlot {bc : BlockCache} (h : bc.Consistent) (slot : UInt64) :
    (bc.raiseMaxSlot slot).Consistent := by
  rw [raiseMaxSlot_eq]
  exact ⟨h.nodup, h.slot, h.seen, h.root, h.rooted,
    fun s r hr => UInt64.le_trans (h.bound s r hr) (le_raiseMaxSlot bc slot).1, h.fresh⟩

theorem recordBlock_known {bc : BlockCache} {root : String} {r : ℕ}
    (hr : bc.rootMap.lookup root = some r) (now : Int64) (upstreamID : String) (slot : UInt64)
    (parentRoot : String) :
    bc.recordBlock now upstreamID slot root parentRoot =
      { bc with heap := Function.update bc.heap r ((bc.heap r).see upstreamID) } := by
  simp [recordBlock, hr]

theorem recordBlock_new {bc : BlockCache} {root : String} (hr : bc.rootMap.lookup root = none)
    (now : Int64) (upstreamID : String) (slot : UInt64) (parentRoot : String) :
    bc.recordBlock now upstreamID slot root parentRoot =
      { bc with
        heap := Function.update bc.heap bc.fresh ⟨slot, root, parentRoot, {upstreamID}, now⟩
        fresh := bc.fresh + 1
        rootMap := bc.rootMap.insert root bc.fresh
        slotMap := bc.slotMap.insert slot (bc.refsAt slot ++ [bc.fresh]) } := by
  simp [recordBlock, hr]

theorem update_see_slot (heap : ℕ → Block) (r r' : ℕ) (upstreamID : String) :
    (Function.update heap r ((heap r).see upstreamID) r').slot = (heap r').slot := by
  by_cases h : r' = r
  · simp [h, Block.see]
  · simp [h]

theorem update_see_root (heap : ℕ → Block) (r r' : ℕ) (upstreamID : String) :
    (Function.update heap r ((heap r).see upstreamID) r').root = (heap r').root := by
  by_cases h : r' = r
  · simp [h, Block.see]
  · simp [h]

theorem Consistent.see {bc : BlockCache} (h : bc.Consistent) (r : ℕ) (upstreamID : String) :
    { bc with heap := Function.update bc.heap r ((bc.heap r).see upstreamID) }.Consistent where
  nodup := h.nodup
  slot := fun s r' hr' => by rw [update_see_slot]; exact h.slot s r' hr'
  seen := fun s r' hr' => by
    by_cases hr : r' = r
    · simp [hr, Block.see]
    · simpa [hr] using h.seen s r' hr'
  root := fun s r' hr' => by rw [update_see_root]; exact h.root s r' hr'
  rooted := fun root r' hr' => by
    rw [update_see_root, update_see_slot]
    exact h.rooted root r' hr'
  bound := h.bound
  fresh := h.fresh

theorem Consistent.rooted_fresh {bc : BlockCache} (h : bc.Consistent) {root : String} {r : ℕ}
    (hr : bc.rootMap.lookup root = some r) : r < bc.fresh :=
  h.fresh _ r (h.rooted root r hr).2

section NewBlock

variable {bc : BlockCache} {root : String} (hroot : bc.rootMap.lookup root = none) (now : Int64)
  (upstreamID : String) (slot : UInt64) (parentRoot : String)
include hroot

theorem refsAt_recordBlock_new (s : UInt64) :
    (bc.recordBlock now upstreamID slot root parentRoot).refsAt s =
      if s = slot then bc.refsAt s ++ [bc.fresh] else bc.refsAt s := by
  rw [recordBlock_new hroot]
  simp only [refsAt, Maps.lookup_insert_ite]
  split
  · rename_i hs
    rw [hs, Option.getD_some]
  · rfl

theorem mem_refsAt_recordBlock_new (s : UInt64) (r : ℕ) :
    r ∈ (bc.recordBlock now upstreamID slot root parentRoot).refsAt s ↔
      r ∈ bc.refsAt s ∨ (s = slot ∧ r = bc.fresh) := by
  rw [refsAt_recordBlock_new hroot]
  by_cases hs : s = slot
  · simp [hs]
  · simp [hs]

theorem lookup_recordBlock_new (root' : String) :
    (bc.recordBlock now upstreamID slot root parentRoot).rootMap.lookup root' =
      if root' = root then some bc.fresh else bc.rootMap.lookup root' := by
  rw [recordBlock_new hroot]
  exact Maps.lookup_insert_ite _ _ _ _

theorem heap_recordBlock_new_of_ne {r : ℕ} (hr : r ≠ bc.fresh) :
    (bc.recordBlock now upstreamID slot root parentRoot).heap r = bc.heap r := by
  simp [recordBlock_new hroot, hr]

theorem heap_recordBlock_new_fresh :
    (bc.recordBlock now upstreamID slot root parentRoot).heap bc.fresh =
      ⟨slot, root, parentRoot, {upstreamID}, now⟩ := by
  simp [recordBlock_new hroot]

theorem Consistent.insert (h : bc.Consistent) (hs : slot ≤ bc.maxSlot) :
    (bc.recordBlock now upstreamID slot root parentRoot).Consistent := by
  have hmem := mem_refsAt_recordBlock_new hroot now upstreamID slot parentRoot
  have hlookup := lookup_recordBlock_new hroot now upstreamID slot parentRoot
  have hnew := heap_recordBlock_new_fresh hroot now upstreamID slot parentRoot
  have hold : ∀ s, ∀ r ∈ bc.refsAt s,
      (bc.recordBlock now upstreamID slot root parentRoot).heap r = bc.heap r :=
    fun s r hr => heap_recordBlock_new_of_ne hroot now upstreamID slot parentRoot (h.fresh s r hr).ne
  -- each field holds of the old references as before and is checked for the new one
  refine ⟨fun s => ?_, fun s r hr => ?_, fun s r hr => ?_, fun s r hr => ?_, fun root' r hr => ?_,
    fun s r hr => ?_, fun s r hr => ?_⟩
  · rw [refsAt_recordBlock_new hroot]
    split
    · have hne : bc.fresh ∉ bc.refsAt s := fun hm => (h.fresh s _ hm).ne rfl
      exact List.nodup_append_comm.mp (List.nodup_cons.mpr ⟨hne, h.nodup s⟩)
    · exact h.nodup s
  · rcases (hmem s r).mp hr with hr | ⟨rfl, rfl⟩
    · rw [hold s r hr]
      exact h.slot s r hr
    · rw [hnew]
  · rcases (hmem s r).mp hr with hr | ⟨rfl, rfl⟩
    · rw [hold s r hr]
      exact h.seen s r hr
    · rw [hnew]
      exact Finset.singleton_nonempty _
  · rcases (hmem s r).mp hr with hr | ⟨rfl, rfl⟩
    · have hne : (bc.heap r).root ≠ root := by
        intro he
        have hl := h.root s r hr
        rw [he, hroot] at hl
        exact Option.some_ne_none _ hl.symm
      rw [hold s r hr, hlookup, if_neg hne]
      exact h.root s r hr
    · rw [hnew, hlookup, if_pos rfl]
  · rw [hlookup] at hr
    by_cases hroot' : root' = root
    · rw [if_pos hroot'] at hr
      obtain rfl := Option.some.inj hr
      rw [hnew]
      exact ⟨hroot'.symm, (hmem slot _).mpr (.inr ⟨rfl, rfl⟩)⟩
    · rw [if_neg hroot'] at hr
      obtain ⟨hrr, hrs⟩ := h.rooted root' r hr
      rw [hold _ r hrs]
      exact ⟨hrr, (hmem _ r).mpr (.inl hrs)⟩
  · have hmax : (bc.recordBlock now upstreamID slot root parentRoot).maxSlot = bc.maxSlot := by
      rw [recordBlock_new hroot]
    rw [hmax]
    rcases (hmem s r).mp hr with hr | ⟨rfl, rfl⟩
    · exact h.bound s r hr
    · exact hs
  · have hfresh : (bc.recordBlock now upstreamID slot root parentRoot).fresh = bc.fresh + 1 := by
      rw [recordBlock_new hroot]
    rw [hfresh]
    rcases (hmem s r).mp hr with hr | ⟨rfl, rfl⟩
    · exact Nat.lt_succ_of_lt (h.fresh s r hr)
    · exact Nat.lt_succ_self _

end NewBlock

theorem Consistent.recordBlock {bc : BlockCache} (h : bc.Consistent) (now : Int64)
    (upstreamID : String) (slot : UInt64) (root parentRoot : String) (hs : slot ≤ bc.maxSlot) :
    (bc.recordBlock now upstreamID slot root parentRoot).Consistent := by
  cases hroot : bc.rootMap.lookup root with
  | none => exact h.insert hroot now upstreamID slot parentRoot hs
  | some r =>
    rw [recordBlock_known hroot]
    exact h.see r upstreamID

theorem Consistent.refresh {bc : BlockCache} (h : bc.Consistent) :
    bc.refreshCanonicalHeadLocked.Consistent :=
  ⟨h.nodup, h.slot, h.seen, h.root, h.rooted, h.bound, h.fresh⟩

theorem Cached.refresh (bc : BlockCache) : bc.refreshCanonicalHeadLocked.Cached := rfl

theorem addBlock_settings (bc : BlockCache) (now : Int64) (upstreamID : String) (slot : UInt64)
    (root parentRoot : String) :
    let bc' := bc.addBlock now upstreamID slot root parentRoot
    bc'.genesisTime = bc.genesisTime ∧ bc'.secondsPerSlot = bc.secondsPerSlot ∧
      bc'.maxHeadDistance = bc.maxHeadDistance := by
  unfold addBlock
  split
  · exact ⟨rfl, rfl, rfl⟩
  · rw [raiseMaxSlot_eq]
    unfold recordBlock
    split <;> exact ⟨rfl, rfl, rfl⟩

theorem Consistent.addBlock {bc : BlockCache} (h : bc.Consistent) (now : Int64)
    (upstreamID : String) (slot : UInt64) (root parentRoot : String) :
    (bc.addBlock now upstreamID slot root parentRoot).Consistent := by
  unfold BlockCache.addBlock
  split
  · exact h
  · exact ((h.raiseMaxSlot slot).recordBlock now upstreamID slot root parentRoot
      (le_raiseMaxSlot bc slot).2).refresh

end EBeacon.Upstream.BlockCache
