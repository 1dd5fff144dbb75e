import Mathlib.Data.List.Count
import EBeacon.Library.Runs
import EBeacon.Library.Words
import EBeacon.Upstream.BlockCacheInvariant

namespace EBeacon.Upstream.BlockCache

theorem foldl_pruneSlot (cutoff : UInt64) (bc : BlockCache) (l : List (Σ _ : UInt64, List ℕ)) :
    ∃ slotMap rootMap, l.foldl (pruneSlot cutoff) bc =
        { bc with slotMap := slotMap, rootMap := rootMap } ∧
      (∀ s, slotMap.lookup s = if s < cutoff ∧ s ∈ l.map Sigma.fst then none
        else bc.slotMap.lookup s) ∧
      ∀ root, rootMap.lookup root =
        if ∃ e ∈ l, e.1 < cutoff ∧ root ∈ e.2.map (fun r => (bc.heap r).root) then none
        else bc.rootMap.lookup root := by
  induction l generalizing bc with
  | nil => exact ⟨bc.slotMap, bc.rootMap, rfl, by simp, by simp⟩
  | cons e l ih =>
    obtain ⟨slotMap, rootMap, heq, hslot, hroot⟩ := ih (pruneSlot cutoff bc e)
    by_cases he : e.1 < cutoff
    · have hstep : pruneSlot cutoff bc e =
          { bc with
            rootMap := e.2.foldl (fun m r => m.erase (bc.heap r).root) bc.rootMap
            slotMap := bc.slotMap.erase e.1 } := by simp [pruneSlot, he]
      rw [hstep] at heq hslot hroot
      refine ⟨slotMap, rootMap, by rw [List.foldl_cons, hstep, heq], fun s => ?_, fun root => ?_⟩
      · rw [hslot, Maps.lookup_erase_ite]
        by_cases hs : s = e.1
        · subst hs
          simp [he]
        · simp only [List.map_cons, List.mem_cons, hs, false_or, if_false]
      · rw [hroot, Maps.lookup_foldl_erase]
        simp only [List.mem_cons, exists_eq_or_imp, he, true_and]
        by_cases hl : ∃ e ∈ l, e.1 < cutoff ∧ root ∈ e.2.map (fun r => (bc.heap r).root)
        · simp only [hl, or_true, if_true]
        · simp only [hl, or_false, if_false]
    · have hstep : pruneSlot cutoff bc e = bc := by simp [pruneSlot, he]
      rw [hstep] at heq hslot hroot
      refine ⟨slotMap, rootMap, by rw [List.foldl_cons, hstep, heq], fun s => ?_, fun root => ?_⟩
      · rw [hslot]
        by_cases hs : s = e.1
        · subst hs
          simp [he]
        · simp only [List.map_cons, List.mem_cons, hs, false_or]
      · rw [hroot]
        simp only [List.mem_cons, exists_eq_or_imp, he, false_and, false_or]

theorem cleanup_maps (bc : BlockCache) :
    ∃ cutoff slotMap rootMap, bc.cleanup = { bc with
        slotMap := slotMap, rootMap := rootMap,
        canonSlot := bc.cleanup.canonSlot, canonRoot := bc.cleanup.canonRoot } ∧
      (∀ s, slotMap.lookup s = if s < cutoff then none else bc.slotMap.lookup s) ∧
      ∀ root r, rootMap.lookup root = some r ↔ bc.rootMap.lookup root = some r ∧
        ∀ s < cutoff, ∀ r' ∈ bc.refsAt s, (bc.heap r').root ≠ root := by
  by_cases hm : bc.maxSlot ≤ bc.followDistance
  · have hsame : bc.cleanup = bc := by simp [cleanup, hm]
    rw [hsame]
    exact ⟨0, bc.slotMap, bc.rootMap, rfl, by simp, by simp⟩
  · obtain ⟨slotMap, rootMap, heq, hslot, hroot⟩ :=
      foldl_pruneSlot (bc.maxSlot - bc.followDistance) bc bc.slotMap.entries
    refine ⟨bc.maxSlot - bc.followDistance, slotMap, rootMap, ?_, fun s => ?_, fun root r => ?_⟩
    · simp only [cleanup, hm, if_false, heq]
      rfl
    · rw [hslot]
      by_cases hs : s ∈ bc.slotMap.entries.map Sigma.fst
      · simp only [hs, and_true]
      · have hnone : bc.slotMap.lookup s = none := AList.lookup_eq_none.mpr hs
        simp only [hs, and_false, hnone, ite_self]
    · rw [hroot]
      constructor
      · intro hl
        split at hl
        · exact absurd hl (Option.some_ne_none _).symm
        · rename_i hn
          refine ⟨hl, fun s hs r' hr' he => hn ?_⟩
          cases hrefs : bc.slotMap.lookup s with
          | none => simp [refsAt, hrefs] at hr'
          | some refs =>
            rw [refsAt, hrefs, Option.getD_some] at hr'
            exact ⟨⟨s, refs⟩, (Maps.lookup_some_iff _ _ _).mp hrefs, hs, List.mem_map.mpr ⟨r', hr', he⟩⟩
      · rintro ⟨hl, hkept⟩
        rw [if_neg]
        · exact hl
        · rintro ⟨⟨s, refs⟩, he, hs, hr⟩
          obtain ⟨r', hr', hroot'⟩ := List.mem_map.mp hr
          have hrefs : bc.refsAt s = refs := by
            rw [refsAt, (Maps.lookup_some_iff _ _ _).mpr he, Option.getD_some]
          exact hkept s hs r' (hrefs ▸ hr') hroot'

theorem Consistent.root_inj {bc : BlockCache} (h : bc.Consistent) {s s' : UInt64} {r r' : ℕ}
    (hr : r ∈ bc.refsAt s) (hr' : r' ∈ bc.refsAt s') (he : (bc.heap r).root = (bc.heap r').root) :
    r = r' := by
  have hl := h.root s r hr
  rw [he, h.root s' r' hr'] at hl
  exact (Option.some.inj hl).symm

theorem Consistent.cleanup {bc : BlockCache} (h : bc.Consistent) : bc.cleanup.Consistent := by
  obtain ⟨cutoff, slotMap, rootMap, heq, hslot, hroot⟩ := bc.cleanup_maps
  rw [heq]
  generalize bc.cleanup.canonSlot = canonSlot
  generalize bc.cleanup.canonRoot = canonRoot
  have hrefs : ∀ s, (slotMap.lookup s).getD [] = if s < cutoff then [] else bc.refsAt s := by
    intro s
    rw [hslot]
    split
    · rfl
    · rfl
  have hmem : ∀ s r, r ∈ (slotMap.lookup s).getD [] → ¬s < cutoff ∧ r ∈ bc.refsAt s := by
    intro s r hr
    rw [hrefs] at hr
    split at hr
    · exact absurd hr List.not_mem_nil
    · exact ⟨‹_›, hr⟩
  refine ⟨fun s => ?_, fun s r hr => h.slot s r (hmem s r hr).2, fun s r hr => h.seen s r (hmem s r hr).2,
    fun s r hr => ?_, fun root r hr => ?_, fun s r hr => h.bound s r (hmem s r hr).2,
    fun s r hr => h.fresh s r (hmem s r hr).2⟩
  · change ((slotMap.lookup s).getD []).Nodup
    rw [hrefs]
    split
    · exact List.nodup_nil
    · exact h.nodup s
  · -- a pruned block with the same root would be the same block, in a slot below the cutoff
    obtain ⟨hs, hr⟩ := hmem s r hr
    refine (hroot _ r).mpr ⟨h.root s r hr, fun s' hs' r' hr' he => ?_⟩
    obtain rfl := h.root_inj hr' hr he
    rw [← h.slot s' r' hr', h.slot s r' hr] at hs'
    exact hs hs'
  · obtain ⟨hl, hkept⟩ := (hroot root r).mp hr
    obtain ⟨hrr, hrs⟩ := h.rooted root r hl
    refine ⟨hrr, ?_⟩
    change r ∈ (slotMap.lookup (bc.heap r).slot).getD []
    rw [hrefs, if_neg]
    · exact hrs
    · exact fun hs => hkept _ hs r hrs hrr

theorem Consistent.apply {bc : BlockCache} (h : bc.Consistent) (op : Op) : (bc.apply op).Consistent := by
  cases op with
  | addBlock now upstreamID slot root parentRoot => exact h.addBlock now upstreamID slot root parentRoot
  | setSlotTiming genesisTime secondsPerSlot =>
    exact ⟨h.nodup, h.slot, h.seen, h.root, h.rooted, h.bound, h.fresh⟩
  | cleanup => exact h.cleanup

theorem Cached.apply {bc : BlockCache} (h : bc.Cached) (op : Op) : (bc.apply op).Cached := by
  cases op with
  | addBlock now upstreamID slot root parentRoot =>
    simp only [BlockCache.apply, BlockCache.addBlock]
    split
    · exact h
    · exact .refresh _
  | setSlotTiming genesisTime secondsPerSlot => exact h
  | cleanup =>
    simp only [BlockCache.apply, BlockCache.cleanup]
    split
    · exact h
    · exact .refresh _

theorem recordBlock_maxSlot (bc : BlockCache) (now : Int64) (upstreamID : String) (slot : UInt64)
    (root parentRoot : String) :
    (bc.recordBlock now upstreamID slot root parentRoot).maxSlot = bc.maxSlot := by
  unfold recordBlock
  split <;> rfl

theorem maxSlot_le_apply (bc : BlockCache) (op : Op) : bc.maxSlot ≤ (bc.apply op).maxSlot := by
  cases op with
  | addBlock now upstreamID slot root parentRoot =>
    simp only [apply, addBlock]
    split
    · exact UInt64.le_refl _
    · change _ ≤ (recordBlock _ _ _ _ _ _).maxSlot
      rw [recordBlock_maxSlot]
      exact (le_raiseMaxSlot bc slot).1
  | setSlotTiming genesisTime secondsPerSlot => exact UInt64.le_refl _
  | cleanup =>
    obtain ⟨_, _, _, heq, _⟩ := bc.cleanup_maps
    have hmax : bc.cleanup.maxSlot = bc.maxSlot := by rw [heq]
    change bc.maxSlot ≤ bc.cleanup.maxSlot
    exact hmax.symm ▸ UInt64.le_refl _

theorem maxSlot_le_run (bc : BlockCache) (ops : List Op) : bc.maxSlot ≤ (ops.foldl apply bc).maxSlot :=
  Runs.foldl_invariant (I := fun bc' => bc.maxSlot ≤ bc'.maxSlot)
    (fun bc' op h => UInt64.le_trans h (maxSlot_le_apply bc' op)) ops (UInt64.le_refl _)

def listed (bc : BlockCache) : List ℕ := bc.slotMap.entries.flatMap Sigma.snd

theorem Consistent.count_listed {bc : BlockCache} (h : bc.Consistent) {root : String} {r : ℕ}
    (hr : bc.rootMap.lookup root = some r) : bc.listed.count r = 1 := by
  have hrefs : ∀ e ∈ bc.slotMap.entries, bc.refsAt e.1 = e.2 := by
    intro e he
    rw [refsAt, (Maps.lookup_some_iff _ _ _).mpr he, Option.getD_some]
  apply List.count_eq_one_of_mem
  · refine List.nodup_flatMap.mpr ⟨fun e he => hrefs e he ▸ h.nodup e.1, ?_⟩
    -- distinct entries have distinct slots, and a block carries its own
    have hkeys : bc.slotMap.entries.Pairwise (fun e e' => e.1 ≠ e'.1) :=
      List.pairwise_map.mp bc.slotMap.nodupKeys
    refine hkeys.imp_of_mem (fun {e e'} he he' hne => ?_)
    refine List.disjoint_left.mpr (fun r hr hr' => ?_)
    exact hne ((h.slot _ r (hrefs e he ▸ hr)).symm.trans (h.slot _ r (hrefs e' he' ▸ hr')))
  · obtain ⟨_, hs⟩ := h.rooted root r hr
    cases hl : bc.slotMap.lookup (bc.heap r).slot with
    | none => simp [refsAt, hl] at hs
    | some refs =>
      rw [refsAt, hl, Option.getD_some] at hs
      exact List.mem_flatMap.mpr ⟨⟨_, refs⟩, (Maps.lookup_some_iff _ _ _).mp hl, hs⟩

theorem consistent_run (followDistance maxHeadDistance : UInt64) (ops : List Op) :
    (ops.foldl apply (new followDistance maxHeadDistance)).Consistent :=
  Runs.foldl_invariant (fun _ op h => h.apply op) ops (.new followDistance maxHeadDistance)

theorem cached_run (followDistance maxHeadDistance : UInt64) (ops : List Op) :
    (ops.foldl apply (new followDistance maxHeadDistance)).Cached :=
  Runs.foldl_invariant (I := Cached) (fun _ op h => h.apply op) ops rfl

theorem representation (followDistance maxHeadDistance : UInt64) (ops more : List Op) :
    let bc := ops.foldl apply (new followDistance maxHeadDistance)
    (∀ s, ∀ r ∈ bc.refsAt s, (bc.heap r).slot = s ∧ (bc.heap r).seenBy.Nonempty ∧
      bc.rootMap.lookup (bc.heap r).root = some r) ∧
    (∀ root r, bc.rootMap.lookup root = some r → bc.listed.count r = 1) ∧
    (∀ s, ∀ r ∈ bc.refsAt s, (bc.heap r).slot ≤ bc.maxSlot) ∧
    (∀ root r, bc.rootMap.lookup root = some r → (bc.heap r).slot ≤ bc.maxSlot) ∧
    bc.maxSlot ≤ (more.foldl apply bc).maxSlot ∧
    (bc.canonSlot, bc.canonRoot) = bc.canonicalHead true := by
  intro bc
  have h : bc.Consistent := consistent_run followDistance maxHeadDistance ops
  refine ⟨fun s r hr => ⟨h.slot s r hr, h.seen s r hr, h.root s r hr⟩,
    fun root r hr => h.count_listed hr, fun s r hr => ?_, fun root r hr => ?_,
    maxSlot_le_run bc more, cached_run followDistance maxHeadDistance ops⟩
  · rw [h.slot s r hr]
    exact h.bound s r hr
  · exact h.bound _ r (h.rooted root r hr).2

end EBeacon.Upstream.BlockCache
