import EBeacon.Network.Execute
import EBeacon.Upstream.Selection

namespace EBeacon.Network

open Upstream

def Distinct (ups : List Upstream) : Prop := (ups.map (·.id)).Nodup

instance (ups : List Upstream) : Decidable (Distinct ups) := inferInstanceAs (Decidable (List.Nodup _))

theorem Distinct.sublist {ups ups' : List Upstream} (h : Distinct ups) (hsub : ups'.Sublist ups) :
    Distinct ups' :=
  List.Nodup.sublist (hsub.map _) h

theorem Distinct.perm {ups ups' : List Upstream} (h : Distinct ups) (hperm : ups'.Perm ups) :
    Distinct ups' :=
  (hperm.map _).nodup_iff.mpr h

theorem distinct_cons {u : Upstream} {ups : List Upstream} :
    Distinct (u :: ups) ↔ (∀ v ∈ ups, v.id ≠ u.id) ∧ Distinct ups := by
  simp [Distinct, eq_comm]

theorem Distinct.select {p : Pool} {all : List Upstream} (h : Distinct all) (n : ℕ) (apiPath : String)
    (preferCanonicalHead : Bool) :
    Distinct (p.selectFromCandidatesForPath all n apiPath preferCanonicalHead) := by
  rw [Pool.selectFromCandidatesForPath_eq]
  have heligible := h.sublist (List.filter_sublist (p := p.eligible all preferCanonicalHead))
  exact (heligible.perm (p.order_perm _ apiPath)).sublist (List.take_sublist _ _)

theorem length_select_le (p : Pool) (all : List Upstream) (n : ℕ) (apiPath : String)
    (preferCanonicalHead : Bool) :
    (p.selectFromCandidatesForPath all n apiPath preferCanonicalHead).length ≤ n :=
  List.length_take_le _ _

section SelectForPath

variable (c : Call) (proactiveArchive : Bool) {p : Pool} (n : ℕ)

theorem Distinct.selectForPath (h : Distinct p.upstreams) :
    Distinct (c.selectForPath proactiveArchive p n) := by
  unfold Call.selectForPath
  split_ifs
  · exact (h.sublist List.filter_sublist).select n c.apiPath false
  · exact h.select n c.apiPath true
  · exact h.select n c.apiPath false

theorem length_selectForPath_le : (c.selectForPath proactiveArchive p n).length ≤ n := by
  unfold Call.selectForPath
  split_ifs
  · exact length_select_le _ _ _ _ _
  · exact length_select_le _ _ _ _ _
  · exact length_select_le _ _ _ _ _

end SelectForPath

theorem trimUpstreamSlice_sublist (ups : List Upstream) (maxLen : ℕ) :
    (trimUpstreamSlice ups maxLen).Sublist ups := by
  unfold trimUpstreamSlice
  split_ifs
  · exact List.take_sublist _ _
  · exact List.Sublist.refl _

theorem length_trimUpstreamSlice_le (ups : List Upstream) {maxLen : ℕ} (h : 0 < maxLen) :
    (trimUpstreamSlice ups maxLen).length ≤ maxLen := by
  unfold trimUpstreamSlice
  split_ifs with hlong
  · exact List.length_take_le _ _
  · omega

theorem split_at_index {l : List Upstream} {i : ℕ} {u : Upstream} (h : l[i]? = some u) :
    ∃ before after, l = before ++ u :: after ∧ i = before.length := by
  obtain ⟨hi, rfl⟩ := List.getElem?_eq_some_iff.mp h
  refine ⟨l.take i, l.drop (i + 1), ?_, by rw [List.length_take, Nat.min_eq_left hi.le]⟩
  rw [List.getElem_cons_drop, List.take_append_drop]

theorem swapFirst_split (first u : Upstream) (before after : List Upstream) :
    swapFirst (first :: (before ++ u :: after)) (before.length + 1) = u :: (before ++ first :: after) := by
  simp [swapFirst]

theorem swapFirst_perm (ups : List Upstream) (i : ℕ) : (swapFirst ups i).Perm ups := by
  unfold swapFirst
  split
  · rename_i first u hfirst hu
    obtain ⟨rest, rfl⟩ := List.head?_eq_some_iff.mp (List.head?_eq_getElem? ▸ hfirst)
    cases i with
    | zero => simp
    | succ j =>
      obtain ⟨before, after, rfl, rfl⟩ := split_at_index (l := rest) (by simpa using hu)
      have hswap := swapFirst_split first u before after
      simp only [swapFirst, List.getElem?_cons_zero, hu] at hswap
      rw [hswap]
      calc (u :: (before ++ first :: after)).Perm
            (u :: first :: (before ++ after)) := List.perm_middle.cons u
        _ |>.Perm (first :: u :: (before ++ after)) := List.Perm.swap _ _ _
        _ |>.Perm (first :: (before ++ u :: after)) := List.perm_middle.symm.cons first
  · exact List.Perm.refl _

section Preferred

variable (pool : Pool) {ups : List Upstream} (preferID : String) (maxLen : ℕ)

theorem preferred_cases (ups : List Upstream) :
    ensurePreferredUpstreamFirst pool ups preferID maxLen = ups ∨
      ∃ l, ensurePreferredUpstreamFirst pool ups preferID maxLen = trimUpstreamSlice l maxLen ∧ ups ≠ [] ∧
        (l.Perm ups ∨ ∃ pu, l = pu :: ups ∧ ∀ v ∈ ups, v.id ≠ pu.id) := by
  unfold ensurePreferredUpstreamFirst
  by_cases hempty : preferID = "" ∨ ups = []
  · exact Or.inl (if_pos hempty)
  rw [if_neg hempty]
  have hne : ups ≠ [] := fun hnil => hempty (Or.inr hnil)
  split
  · rename_i i hi
    split_ifs
    · exact Or.inl rfl
    · exact Or.inr ⟨_, rfl, hne, Or.inl (swapFirst_perm ups i)⟩
  · rename_i hnone
    split
    · rename_i pu hpu
      split_ifs
      · refine Or.inr ⟨_, rfl, hne, Or.inr ⟨pu, rfl, fun v hv hsame => ?_⟩⟩
        have hid : pu.id = preferID := by simpa using List.find?_some hpu
        simpa [hsame, hid] using List.findIdx?_eq_none_iff.mp hnone v hv
      · exact Or.inl rfl
    · exact Or.inl rfl

theorem Distinct.preferred (h : Distinct ups) :
    Distinct (ensurePreferredUpstreamFirst pool ups preferID maxLen) := by
  obtain heq | ⟨l, heq, -, hl⟩ := preferred_cases pool preferID maxLen ups
  · rwa [heq]
  rw [heq]
  refine Distinct.sublist ?_ (trimUpstreamSlice_sublist _ _)
  obtain hperm | ⟨pu, rfl, hnew⟩ := hl
  · exact h.perm hperm
  · exact distinct_cons.mpr ⟨hnew, h⟩

theorem length_preferred_le (h : ups.length ≤ maxLen) :
    (ensurePreferredUpstreamFirst pool ups preferID maxLen).length ≤ maxLen := by
  obtain heq | ⟨l, heq, hne, -⟩ := preferred_cases pool preferID maxLen ups
  · rwa [heq]
  rw [heq]
  have hpos := List.length_pos_iff.mpr hne
  exact length_trimUpstreamSlice_le _ (by omega)

end Preferred

end EBeacon.Network
