import EBeacon.Network.Candidates
import EBeacon.Upstream.LoadBalancer

/-!
A sticky upstream is put before the candidates that the load balancer has ordered.
-/

namespace EBeacon.Network

open Upstream

variable {pool : Pool} {b : LoadBalancer} {ups : List Upstream} {preferID : String} {maxLen : ℕ}

def SortedByPriority (b : LoadBalancer) (ups : List Upstream) : Prop :=
  ups.Pairwise (fun u v => b.priority u ≤ b.priority v)

def PreferredFirst (pool : Pool) (b : LoadBalancer) (ups : List Upstream) (preferID : String) (maxLen : ℕ) :
    Prop :=
  (ensurePreferredUpstreamFirst pool ups preferID maxLen = ups ∨
    ∃ u, u.id = preferID ∧ pool.isForked u.id = false ∧ u ∉ ups.erase u ∧
      ensurePreferredUpstreamFirst pool ups preferID maxLen = (u :: ups.erase u).take maxLen) ∧
    SortedByPriority b (ensurePreferredUpstreamFirst pool ups preferID maxLen).tail

theorem trimUpstreamSlice_eq_take (l : List Upstream) (h : 1 ≤ maxLen) :
    trimUpstreamSlice l maxLen = l.take maxLen := by
  unfold trimUpstreamSlice
  split_ifs with hlong
  · rfl
  · rw [List.take_of_length_le (by omega)]

theorem sorted_tail_of_preferred {u : Upstream} (hsorted : SortedByPriority b ups) :
    SortedByPriority b ((u :: ups.erase u).take maxLen).tail := by
  refine List.Pairwise.sublist ?_ hsorted
  calc ((u :: ups.erase u).take maxLen).tail.Sublist (u :: ups.erase u).tail :=
        (List.take_sublist _ _).tail
    _ |>.Sublist ups := List.erase_sublist

theorem preferredFirst_of_eq (hsorted : SortedByPriority b ups)
    (h : ensurePreferredUpstreamFirst pool ups preferID maxLen = ups) :
    PreferredFirst pool b ups preferID maxLen := by
  refine ⟨Or.inl h, ?_⟩
  rw [h]
  exact List.Pairwise.sublist (List.tail_sublist _) hsorted

theorem preferredFirst_of_take {u : Upstream} (hnodup : ups.Nodup) (hsorted : SortedByPriority b ups)
    (hid : u.id = preferID) (hforked : pool.isForked u.id = false)
    (h : ensurePreferredUpstreamFirst pool ups preferID maxLen = (u :: ups.erase u).take maxLen) :
    PreferredFirst pool b ups preferID maxLen := by
  refine ⟨Or.inr ⟨u, hid, hforked, hnodup.not_mem_erase, h⟩, ?_⟩
  rw [h]
  exact sorted_tail_of_preferred hsorted

theorem preferred_found (pool : Pool) (maxLen : ℕ) {before : List Upstream} (after : List Upstream) {u : Upstream}
    (hprefer : preferID ≠ "") (hid : u.id = preferID) (hbefore : ∀ v ∈ before, v.id ≠ preferID) :
    ensurePreferredUpstreamFirst pool (before ++ u :: after) preferID maxLen =
      if pool.isForked preferID then before ++ u :: after
      else trimUpstreamSlice (swapFirst (before ++ u :: after) before.length) maxLen := by
  have hidx : (before ++ u :: after).findIdx? (fun u => u.id = preferID) = some before.length := by
    rw [List.findIdx?_append, List.findIdx?_eq_none_iff.mpr (by simpa using hbefore)]
    simp [List.findIdx?_cons, hid]
  unfold ensurePreferredUpstreamFirst
  rw [if_neg (by simp [hprefer]), hidx]

theorem preferred_missing (hnodup : ups.Nodup) (hsorted : SortedByPriority b ups) (hlen : 1 ≤ maxLen)
    (hmissing : ∀ v ∈ ups, v.id ≠ preferID) : PreferredFirst pool b ups preferID maxLen := by
  by_cases hempty : preferID = "" ∨ ups = []
  · exact preferredFirst_of_eq hsorted (if_pos hempty)
  have hnone : ups.findIdx? (fun u => u.id = preferID) = none :=
    List.findIdx?_eq_none_iff.mpr (by simpa using hmissing)
  cases hpu : pool.byID preferID with
  | none =>
    refine preferredFirst_of_eq hsorted ?_
    unfold ensurePreferredUpstreamFirst
    rw [if_neg hempty, hnone]
    dsimp only
    rw [hpu]
  | some pu =>
    have hid : pu.id = preferID := by simpa using List.find?_some hpu
    have hrun : ensurePreferredUpstreamFirst pool ups preferID maxLen =
        if pool.isReady pu.id && !pool.isForked pu.id then trimUpstreamSlice (pu :: ups) maxLen else ups := by
      unfold ensurePreferredUpstreamFirst
      rw [if_neg hempty, hnone]
      dsimp only
      rw [hpu]
    split_ifs at hrun with hready
    · simp only [Bool.and_eq_true, Bool.not_eq_true'] at hready
      have hnotMem : pu ∉ ups := fun hmem => hmissing pu hmem hid
      refine preferredFirst_of_take hnodup hsorted hid hready.2 ?_
      rw [hrun, trimUpstreamSlice_eq_take _ hlen, List.erase_of_not_mem hnotMem]
    · exact preferredFirst_of_eq hsorted hrun

theorem split_at_found {i : ℕ} (h : ups.findIdx? (fun u => u.id = preferID) = some i) :
    ∃ before u after, ups = before ++ u :: after ∧ i = before.length ∧ u.id = preferID ∧
      ∀ v ∈ before, v.id ≠ preferID := by
  obtain ⟨hi, hid, hfirst⟩ := List.findIdx?_eq_some_iff_getElem.mp h
  obtain ⟨before, after, hups, hlength⟩ := split_at_index (List.getElem?_eq_getElem hi)
  refine ⟨before, _, after, hups, hlength, of_decide_eq_true hid, fun v hv hsame => ?_⟩
  obtain ⟨j, hj, rfl⟩ := List.mem_iff_getElem.mp hv
  refine hfirst j (by omega) ?_
  rw [decide_eq_true_eq, List.getElem_of_eq hups, List.getElem_append_left hj]
  exact hsame

theorem not_preferredFirst {first second u : Upstream} {mid after : List Upstream}
    (hnodup : (first :: second :: (mid ++ u :: after)).Nodup) (hlen : 2 ≤ maxLen) (hid : u.id = preferID)
    (hfirst : first.id ≠ preferID)
    (h : ensurePreferredUpstreamFirst pool (first :: second :: (mid ++ u :: after)) preferID maxLen =
      (u :: second :: (mid ++ first :: after)).take maxLen) :
    ¬ PreferredFirst pool b (first :: second :: (mid ++ u :: after)) preferID maxLen := by
  obtain ⟨len, rfl⟩ : ∃ len, maxLen = len + 2 := ⟨maxLen - 2, by omega⟩
  have hne : first ≠ u := by
    rintro rfl
    exact hfirst hid
  rintro ⟨heq | ⟨v, hv, -, -, heq⟩, -⟩
  · rw [h, List.take_succ_cons, List.cons.injEq] at heq
    exact hne heq.1.symm
  · have hfirstv : ¬ (first == v) = true := by
      rw [beq_iff_eq]
      rintro rfl
      exact hfirst hv
    rw [h, List.erase_cons_tail hfirstv] at heq
    simp only [List.take_succ_cons, List.cons.injEq] at heq
    rw [heq.2.1] at hnodup
    exact (List.nodup_cons.mp hnodup).1 List.mem_cons_self

theorem preferredFirst_found {before after : List Upstream} {u : Upstream}
    (hnodup : (before ++ u :: after).Nodup) (hsorted : SortedByPriority b (before ++ u :: after))
    (hlen : 1 ≤ maxLen) (hprefer : preferID ≠ "") (hid : u.id = preferID)
    (hbefore : ∀ v ∈ before, v.id ≠ preferID) (hforked : pool.isForked preferID = false) :
    PreferredFirst pool b (before ++ u :: after) preferID maxLen ↔ maxLen = 1 ∨ before.length < 2 := by
  have hrun := preferred_found pool maxLen after hprefer hid hbefore
  rw [hforked, if_neg Bool.false_ne_true, trimUpstreamSlice_eq_take _ hlen] at hrun
  have herase : (before ++ u :: after).erase u = before ++ after := by
    have hnotMem : u ∉ before := fun hmem => hbefore u hmem hid
    rw [List.erase_append_right _ hnotMem, List.erase_cons_head]
  have hkeep : (swapFirst (before ++ u :: after) before.length).take maxLen =
      (u :: (before ++ after)).take maxLen → PreferredFirst pool b (before ++ u :: after) preferID maxLen := by
    intro hswap
    refine preferredFirst_of_take hnodup hsorted hid (by rw [hid, hforked]) ?_
    rw [hrun, hswap, herase]
  match before, hnodup, hbefore, hrun, hkeep with
  | [], _, _, _, hkeep => exact iff_of_true (hkeep (by simp [swapFirst])) (by simp)
  | [first], _, _, _, hkeep => exact iff_of_true (hkeep (by simp [swapFirst])) (by simp)
  | first :: second :: mid, hnodup, hbefore, hrun, hkeep =>
    have hswap := swapFirst_split first u (second :: mid) after
    simp only [List.cons_append, List.length_cons] at hswap hrun hkeep hnodup ⊢
    rw [hswap] at hrun hkeep
    by_cases hone : maxLen = 1
    · refine iff_of_true (hkeep ?_) (Or.inl hone)
      rw [hone, List.take_succ_cons, List.take_succ_cons]
      rfl
    · have hfirst : first.id ≠ preferID := hbefore first List.mem_cons_self
      exact iff_of_false (not_preferredFirst hnodup (by omega) hid hfirst hrun) (by omega)

/-- The preferred upstream changes places with the first, which comes to stand behind those that were
between them. -/
theorem preferredFirst_iff (hnodup : ups.Nodup) (hsorted : SortedByPriority b ups) (hlen : 1 ≤ maxLen) :
    PreferredFirst pool b ups preferID maxLen ↔
      preferID = "" ∨ pool.isForked preferID = true ∨ maxLen = 1 ∨
        ∀ i, ups.findIdx? (fun u => u.id = preferID) = some i → i < 2 := by
  by_cases hprefer : preferID = ""
  · exact iff_of_true (preferredFirst_of_eq hsorted (if_pos (Or.inl hprefer))) (Or.inl hprefer)
  cases hidx : ups.findIdx? (fun u => u.id = preferID) with
  | none =>
    have hmissing : ∀ v ∈ ups, v.id ≠ preferID := by
      simpa using List.findIdx?_eq_none_iff.mp hidx
    exact iff_of_true (preferred_missing hnodup hsorted hlen hmissing)
      (Or.inr (Or.inr (Or.inr (by simp))))
  | some i =>
    obtain ⟨before, u, after, rfl, rfl, hid, hbefore⟩ := split_at_found hidx
    cases hforked : pool.isForked preferID with
    | true =>
      have hrun := preferred_found pool maxLen after hprefer hid hbefore
      rw [hforked, if_pos rfl] at hrun
      exact iff_of_true (preferredFirst_of_eq hsorted hrun) (Or.inr (Or.inl rfl))
    | false =>
      rw [preferredFirst_found hnodup hsorted hlen hprefer hid hbefore hforked]
      simp [hprefer]

def twoTiers : LoadBalancer where
  priority := fun u => if u.id = "primary" then 0 else 1
  weight := fun _ => 1
  activeConns := fun _ => 0
  score := fun _ _ => 0
  loadBalancing := "round-robin"
  rrCounter := 0

def tieredUpstreams : List Upstream := [⟨"primary", false⟩, ⟨"backup1", false⟩, ⟨"backup2", false⟩]

theorem tieredUpstreams_sorted : SortedByPriority twoTiers tieredUpstreams := by
  simp [SortedByPriority, tieredUpstreams, twoTiers]

theorem preferredFirst_iff_backup :
    PreferredFirst (.allReady tieredUpstreams) twoTiers tieredUpstreams "backup1" 3 :=
  (preferredFirst_iff (by decide) tieredUpstreams_sorted (by decide)).mpr (by
    have hidx : tieredUpstreams.findIdx? (fun u => u.id = "backup1") = some 1 := by decide
    rw [hidx]
    simp)

theorem primary_after_backup :
    tieredUpstreams.Nodup ∧ SortedByPriority twoTiers tieredUpstreams ∧
      ensurePreferredUpstreamFirst (.allReady tieredUpstreams) tieredUpstreams "backup2" 3 =
        [⟨"backup2", false⟩, ⟨"backup1", false⟩, ⟨"primary", false⟩] ∧
      ¬ PreferredFirst (.allReady tieredUpstreams) twoTiers tieredUpstreams "backup2" 3 := by
  have hrun : ensurePreferredUpstreamFirst (.allReady tieredUpstreams) tieredUpstreams "backup2" 3 =
      [⟨"backup2", false⟩, ⟨"backup1", false⟩, ⟨"primary", false⟩] := by decide
  refine ⟨by decide, tieredUpstreams_sorted, hrun, fun h => ?_⟩
  have hsorted := h.2
  rw [hrun] at hsorted
  simp [SortedByPriority, twoTiers] at hsorted

end EBeacon.Network
