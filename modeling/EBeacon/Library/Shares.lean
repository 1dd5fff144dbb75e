import Mathlib.Algebra.Order.BigOperators.Group.List
import Mathlib.Data.Nat.Periodic

/-!
A total divided into consecutive shares, one for each member of a list.
-/

namespace EBeacon.Shares

variable {α : Type} (weight : α → ℕ)

def total (l : List α) : ℕ := (l.map weight).sum

def owner : List α → ℕ → Option ℕ
  | [], _ => none
  | a :: l, t => if t < weight a then some 0 else (owner l (t - weight a)).map (· + 1)

variable {weight} {l : List α}

@[simp]
theorem total_cons (a : α) : total weight (a :: l) = weight a + total weight l := by
  simp [total]

theorem owner_lt {t i : ℕ} (h : owner weight l t = some i) : i < l.length := by
  induction l generalizing t i with
  | nil => cases h
  | cons a l ih =>
    unfold owner at h
    rw [List.length_cons]
    split_ifs at h
    · cases h
      omega
    · obtain ⟨j, hj, rfl⟩ := Option.map_eq_some_iff.mp h
      have := ih hj
      omega

theorem exists_owner (weight : α → ℕ) {t : ℕ} (h : t < total weight l) : ∃ i, owner weight l t = some i := by
  induction l generalizing t with
  | nil => cases h
  | cons a l ih =>
    unfold owner
    split_ifs with hlt
    · exact ⟨0, rfl⟩
    · rw [total_cons] at h
      obtain ⟨i, hi⟩ := ih (t := t - weight a) (by omega)
      exact ⟨i + 1, by rw [hi]; rfl⟩

theorem owner_cons_of_lt {a : α} {t : ℕ} (h : t < weight a) : owner weight (a :: l) t = some 0 := if_pos h

theorem owner_cons_add (a : α) (t : ℕ) :
    owner weight (a :: l) (weight a + t) = (owner weight l t).map (· + 1) := by
  rw [owner, if_neg (by omega), Nat.add_sub_cancel_left]

theorem count_congr {p q : ℕ → Prop} [DecidablePred p] [DecidablePred q] {n : ℕ}
    (h : ∀ t < n, (p t ↔ q t)) : n.count p = n.count q :=
  le_antisymm (Nat.count_mono_left (fun t ht => (h t ht).mp)) (Nat.count_mono_left (fun t ht => (h t ht).mpr))

theorem count_owner (weight : α → ℕ) {i : ℕ} (hi : i < l.length) :
    (total weight l).count (fun t => owner weight l t = some i) = weight l[i] := by
  induction l generalizing i with
  | nil => cases hi
  | cons a l ih =>
    rw [total_cons, Nat.count_add]
    simp only [owner_cons_add, Option.map_eq_some_iff]
    cases i with
    | zero =>
      have hown : (weight a).count (fun t => owner weight (a :: l) t = some 0) = weight a :=
        Nat.count_of_forall (fun t ht => owner_cons_of_lt ht)
      rw [hown]
      simp
    | succ j =>
      have hnone : (weight a).count (fun t => owner weight (a :: l) t = some (j + 1)) = 0 := by
        rw [Nat.count_iff_forall_not]
        intro t ht
        simp [owner_cons_of_lt ht]
      rw [hnone, Nat.zero_add]
      simpa using ih (Nat.lt_of_succ_lt_succ hi)

theorem count_member [DecidableEq α] (weight : α → ℕ) (a : α) :
    (total weight l).count (fun t => (owner weight l t).bind (fun i => l[i]?) = some a) =
      l.count a * weight a := by
  induction l with
  | nil => simp [total]
  | cons b l ih =>
    have hfront : ∀ t < weight b, (owner weight (b :: l) t).bind (fun i => (b :: l)[i]?) = some b := by
      intro t ht
      rw [owner_cons_of_lt ht]
      rfl
    rw [total_cons, Nat.count_add]
    simp only [owner_cons_add, Option.bind_map, Function.comp_def, List.getElem?_cons_succ]
    rw [ih, List.count_cons]
    by_cases hab : b = a
    · subst hab
      rw [Nat.count_of_forall hfront, if_pos (beq_self_eq_true b), Nat.add_mul, Nat.one_mul, Nat.add_comm]
    · have hnone : (weight b).count
          (fun t => (owner weight (b :: l) t).bind (fun i => (b :: l)[i]?) = some a) = 0 := by
        rw [Nat.count_iff_forall_not]
        intro t ht hsome
        exact hab (Option.some.inj ((hfront t ht).symm.trans hsome))
      rw [hnone, Nat.zero_add, if_neg (by simpa using hab), Nat.add_zero]

theorem card_window (p : ℕ → Prop) [DecidablePred p] (k period : ℕ) :
    ((Finset.Ico k (k + period)).filter (fun j => p (j % period))).card = period.count p := by
  have hperiodic : Function.Periodic (fun j => p (j % period)) period := by
    intro j
    dsimp only
    rw [Nat.add_mod_right]
  rw [Nat.filter_Ico_card_eq_of_periodic k period (fun j => p (j % period)) hperiodic]
  apply count_congr
  intro t ht
  rw [Nat.mod_eq_of_lt ht]

section Fractions

variable {K : Type} [AddCommGroup K] [LinearOrder K] {shares : List K} {t : K} {i : ℕ}

def Holds (shares : List K) (t : K) (i : ℕ) : Prop := (shares.take i).sum ≤ t ∧ t < (shares.take (i + 1)).sum

theorem Holds.lt_length (h : Holds shares t i) : i < shares.length := by
  by_contra hge
  have hlow := h.1
  have hhigh := h.2
  rw [List.take_of_length_le (by omega)] at hlow hhigh
  exact absurd hhigh (not_lt.mpr hlow)

theorem holds_zero {a : K} (hlow : 0 ≤ t) (hlt : t < a) : Holds (a :: shares) t 0 := by
  unfold Holds
  simpa using ⟨hlow, hlt⟩

theorem Holds.cons [IsOrderedAddMonoid K] {a : K} (h : Holds shares (t - a) i) : Holds (a :: shares) t (i + 1) := by
  obtain ⟨hlow, hhigh⟩ := h
  unfold Holds
  rw [List.take_succ_cons, List.take_succ_cons, List.sum_cons, List.sum_cons]
  exact ⟨le_sub_iff_add_le'.mp hlow, sub_lt_iff_lt_add'.mp hhigh⟩

theorem sum_take_mono [IsOrderedAddMonoid K] (hpos : ∀ a ∈ shares, 0 ≤ a) {j : ℕ} (h : i ≤ j) :
    (shares.take i).sum ≤ (shares.take j).sum := by
  obtain ⟨d, rfl⟩ := Nat.exists_eq_add_of_le h
  rw [List.take_add, List.sum_append]
  apply le_add_of_nonneg_right
  apply List.sum_nonneg
  intro a ha
  exact hpos a (List.mem_of_mem_drop (List.mem_of_mem_take ha))

theorem Holds.eq [IsOrderedAddMonoid K] (hpos : ∀ a ∈ shares, 0 ≤ a) {j : ℕ} (hi : Holds shares t i)
    (hj : Holds shares t j) : i = j := by
  rcases Nat.lt_trichotomy i j with hlt | heq | hgt
  · exact absurd (hi.2.trans_le ((sum_take_mono hpos hlt).trans hj.1)) (lt_irrefl t)
  · exact heq
  · exact absurd (hj.2.trans_le ((sum_take_mono hpos hgt).trans hi.1)) (lt_irrefl t)

end Fractions

end EBeacon.Shares
