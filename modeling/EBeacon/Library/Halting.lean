import EBeacon.Library.Simulation
import EBeacon.Library.Threads
import Mathlib.Logic.Hydra
import Mathlib.Tactic.Abel

/-!
Threads whose own threads start no further ones make finitely many steps, however they are
scheduled and whatever their calls are answered.
-/

namespace EBeacon.Threads

open Proc

variable {σ E χ α : Type} {R : E → Type}

theorem finitely_many_descents {below : α → α → Prop} (hwf : WellFounded below) (a : ℕ → α)
    {descends : ℕ → Prop} (hdown : ∀ n, descends n → below (a (n + 1)) (a n))
    (hstay : ∀ n, ¬ descends n → a (n + 1) = a n) : ∃ N, ∀ n, N ≤ n → ¬ descends n := by
  obtain ⟨-, ⟨N, rfl⟩, hmin⟩ := hwf.has_min (Set.range a) ⟨a 0, 0, rfl⟩
  have hconst : ∀ d, a (N + d) = a N := by
    intro d
    induction d with
    | zero => rfl
    | succ d ih =>
      by_cases hd : descends (N + d)
      · exact absurd (ih ▸ hdown _ hd) (hmin _ ⟨_, rfl⟩)
      · exact (hstay _ hd).trans ih
  refine ⟨N, fun n hn hd => ?_⟩
  obtain ⟨d, rfl⟩ := Nat.exists_eq_add_of_le hn
  exact hmin _ ⟨N + d + 1, rfl⟩ (hconst d ▸ hdown _ hd)

inductive Child (spawn : E → List (Proc E R Unit)) : Proc E R Unit → Proc E R Unit → Prop
  | go_on {e : E} {k : R e → Proc E R Unit} (r : R e) : Child spawn (k r) (.call e k)
  | start {e : E} {k : R e → Proc E R Unit} {q : Proc E R Unit} (h : q ∈ spawn e) : Child spawn q (.call e k)

variable {perform : σ → (e : E) → χ → Option (R e × σ)} {spawn : E → List (Proc E R Unit)}

theorem acc_of_children (p : Proc E R Unit) (hspawn : ∀ e, ∀ q ∈ spawn e, Acc (Child spawn) q) :
    Acc (Child spawn) p := by
  induction p with
  | ret a => exact ⟨_, nofun⟩
  | call e k ih =>
    refine ⟨_, fun q hq => ?_⟩
    cases hq with
    | go_on r => exact ih r
    | start h => exact hspawn e q h

theorem acc_of_only {p : Proc E R Unit} (hp : Only (fun e => spawn e = []) p) : Acc (Child spawn) p := by
  induction p with
  | ret a => exact ⟨_, nofun⟩
  | call e k ih =>
    obtain ⟨he, hk⟩ := only_call.mp hp
    refine ⟨_, fun q hq => ?_⟩
    cases hq with
    | go_on r => exact ih r (hk r)
    | start h => simp [he] at h

theorem child_wellFounded (hspawn : ∀ e, ∀ q ∈ spawn e, Only (fun e => spawn e = []) q) :
    WellFounded (Child spawn) :=
  ⟨fun p => acc_of_children p (fun e q hq => acc_of_only (hspawn e q hq))⟩

theorem step_cutExpand {m m' : System σ E R} {i : ℕ} {c : χ} (h : step perform spawn m i c = some m') :
    Relation.CutExpand (Child spawn) (m'.threads : Multiset (Proc E R Unit)) m.threads := by
  obtain ⟨e, k, r, s', hi, -, rfl⟩ := step_some h
  obtain ⟨before, after, hsplit, rfl⟩ := split_at hi
  refine ⟨(k r :: spawn e : List (Proc E R Unit)), .call e k, fun q hq => ?_, ?_⟩
  · rcases List.mem_cons.mp (Multiset.mem_coe.mp hq) with rfl | hq
    · exact .go_on r
    · exact .start hq
  · simp only [hsplit, List.set_append_right _ _ (Nat.le_refl _), Nat.sub_self, List.set_cons_zero]
    simp only [← Multiset.coe_add, ← Multiset.cons_coe, ← Multiset.singleton_add]
    abel

end EBeacon.Threads
