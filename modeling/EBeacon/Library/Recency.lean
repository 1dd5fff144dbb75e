import Mathlib.Data.Finset.Card
import Mathlib.Data.List.Basic

namespace EBeacon.Recency

variable {α : Type}

theorem take_eq_filter {rank : α → ℕ} {l : List α} (h : l.Pairwise (fun x y => rank y < rank x)) (n : ℕ) :
    l.take n = l.filter (fun x => l.countP (fun y => rank x < rank y) < n) := by
  induction l generalizing n with
  | nil => simp
  | cons x l ih =>
    obtain ⟨hx, hl⟩ := List.pairwise_cons.mp h
    have hfirst : (x :: l).countP (fun y => rank x < rank y) = 0 := by
      rw [List.countP_eq_zero]
      intro y hy
      rcases List.mem_cons.mp hy with rfl | hy
      · simp
      · simpa using (hx y hy).le
    have hrest : ∀ y ∈ l, (x :: l).countP (fun z => rank y < rank z) =
        l.countP (fun z => rank y < rank z) + 1 := by
      intro y hy
      rw [List.countP_cons_of_pos (by simpa using hx y hy)]
    cases n with
    | zero => simp
    | succ n =>
      rw [List.take_succ_cons, List.filter_cons_of_pos (by simp [hfirst]), ih hl n]
      congr 1
      refine List.filter_congr (fun y hy => ?_)
      rw [hrest y hy]
      simp

theorem card_filter_toFinset [DecidableEq α] {l : List α} (h : l.Nodup) (p : α → Prop) [DecidablePred p] :
    (l.toFinset.filter p).card = l.countP (fun x => p x) := by
  rw [List.countP_eq_length_filter, ← List.toFinset_card_of_nodup (h.filter _)]
  congr 1
  ext x
  simp

end EBeacon.Recency
