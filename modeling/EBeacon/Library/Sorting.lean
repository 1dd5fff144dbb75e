import Mathlib.Data.List.Sort

namespace EBeacon.Sorting

variable {α : Type}

def stableSort (less : α → α → Bool) (l : List α) : List α :=
  l.insertionSort (fun a b => less b a = false)

theorem stableSort_perm (less : α → α → Bool) (l : List α) : (stableSort less l).Perm l :=
  List.perm_insertionSort _ l

theorem stableSort_of_sorted {less : α → α → Bool} {l : List α}
    (h : l.Pairwise (fun a b => less b a = false)) : stableSort less l = l :=
  h.insertionSort_eq

theorem stableSort_ranked {less : α → α → Bool} (rank : α → ℤ)
    (below : ∀ a b, rank a < rank b → less a b = true)
    (above : ∀ a b, rank b < rank a → less a b = false) (l : List α) :
    (stableSort less l).Pairwise (fun a b => rank a ≤ rank b) := by
  have insert : ∀ a (l : List α), l.Pairwise (fun a b => rank a ≤ rank b) →
      (l.orderedInsert (fun a b => less b a = false) a).Pairwise (fun a b => rank a ≤ rank b) := by
    intro a l
    induction l with
    | nil => exact fun _ => List.pairwise_singleton _ _
    | cons b l ih =>
      intro h
      obtain ⟨hb, hl⟩ := List.pairwise_cons.mp h
      rw [List.orderedInsert_cons]
      split_ifs with hless
      · have hab : rank a ≤ rank b := by
          by_contra hlt
          rw [below b a (by omega)] at hless
          cases hless
        refine List.pairwise_cons.mpr ⟨?_, h⟩
        intro c hc
        rcases List.mem_cons.mp hc with rfl | hc
        · exact hab
        · exact hab.trans (hb c hc)
      · have hba : rank b ≤ rank a := by
          by_contra hlt
          exact hless (above b a (by omega))
        refine List.pairwise_cons.mpr ⟨?_, ih hl⟩
        intro c hc
        rcases List.mem_cons.mp ((List.perm_orderedInsert _ a l).subset hc) with rfl | hc
        · exact hba
        · exact hb c hc
  induction l with
  | nil => exact List.Pairwise.nil
  | cons a l ih => exact insert a _ ih

section Filters

variable {r : α → α → Prop} [DecidableRel r] (p : α → Bool)

theorem orderedInsert_of_forall {a : α} {l : List α} (h : ∀ b ∈ l, r a b) : l.orderedInsert r a = a :: l := by
  cases l with
  | nil => rfl
  | cons b l => rw [List.orderedInsert_cons, if_pos (h b List.mem_cons_self)]

theorem filter_orderedInsert [IsTrans α r] (a : α) {l : List α} (h : l.Pairwise r) :
    (l.orderedInsert r a).filter p = if p a then (l.filter p).orderedInsert r a else l.filter p := by
  induction l with
  | nil => cases hp : p a <;> simp [hp]
  | cons b l ih =>
    obtain ⟨hb, hl⟩ := List.pairwise_cons.mp h
    by_cases hab : r a b
    · have hall : ∀ c ∈ (b :: l).filter p, r a c := by
        intro c hc
        rcases List.mem_cons.mp (List.mem_filter.mp hc).1 with rfl | hc
        · exact hab
        · exact IsTrans.trans a b c hab (hb c hc)
      rw [List.orderedInsert_cons, if_pos hab, List.filter_cons, orderedInsert_of_forall hall]
    · rw [List.orderedInsert_cons, if_neg hab, List.filter_cons, ih hl, List.filter_cons]
      cases p a <;> cases p b <;> simp [hab]

theorem filter_insertionSort [IsTrans α r] [Std.Total r] (l : List α) :
    (l.insertionSort r).filter p = (l.filter p).insertionSort r := by
  induction l with
  | nil => rfl
  | cons a l ih =>
    rw [List.insertionSort_cons, filter_orderedInsert p a (List.pairwise_insertionSort r l), ih, List.filter_cons]
    cases p a <;> rfl

end Filters

section Ranks

variable [LinearOrder α] {l l' : List α} {k : ℕ} {x : α}

def IsRank (l : List α) (k : ℕ) (x : α) : Prop :=
  x ∈ l ∧ l.countP (fun y => y < x) < k ∧ k ≤ l.countP (fun y => y ≤ x)

theorem IsRank.perm (h : IsRank l k x) (hperm : l.Perm l') : IsRank l' k x := by
  obtain ⟨hmem, hlow, hhigh⟩ := h
  rw [hperm.countP_eq] at hlow hhigh
  exact ⟨hperm.subset hmem, hlow, hhigh⟩

theorem isRank_getElem (h : l.Pairwise (fun a b => a ≤ b)) {i : ℕ} (hi : i < l.length) :
    IsRank l (i + 1) l[i] := by
  have hle : ∀ {a b : ℕ} (ha : a < l.length) (hb : b < l.length), a ≤ b → l[a] ≤ l[b] := by
    intro a b ha hb hab
    rcases Nat.eq_or_lt_of_le hab with rfl | hlt
    · exact le_rfl
    · exact List.pairwise_iff_getElem.mp h a b ha hb hlt
  refine ⟨List.getElem_mem hi, ?_, ?_⟩
  · -- no element from the place on is smaller
    have hrest : (l.drop i).countP (fun y => y < l[i]) = 0 := by
      rw [List.countP_eq_zero]
      intro y hy
      obtain ⟨j, hj, rfl⟩ := List.mem_drop_iff_getElem.mp hy
      have hj : i + j < l.length := by omega
      simpa using hle hi hj (Nat.le_add_right i j)
    have hfront : (l.take i).countP (fun y => y < l[i]) ≤ i := by
      refine List.countP_le_length.trans ?_
      rw [List.length_take]
      exact min_le_left _ _
    have hsplit : (l.take i ++ l.drop i).countP (fun y => y < l[i]) = _ := List.countP_append
    rw [List.take_append_drop] at hsplit
    omega
  · have hfront : (l.take (i + 1)).countP (fun y => y ≤ l[i]) = i + 1 := by
      rw [List.countP_eq_length.mpr, List.length_take, min_eq_left hi]
      intro y hy
      obtain ⟨j, hj, rfl⟩ := List.mem_take_iff_getElem.mp hy
      rw [decide_eq_true_eq]
      exact hle _ hi (by omega)
    rw [← hfront]
    exact (List.take_sublist _ _).countP_le

end Ranks

end EBeacon.Sorting
