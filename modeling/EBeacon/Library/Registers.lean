import Mathlib.Data.List.Basic

/-!
A part of a state that some inputs of a run overwrite.
-/

namespace EBeacon.Registers

variable {σ α ν : Type} {step : σ → α → σ} {writes : α → Option ν}

def latest (writes : α → Option ν) (initial : ν) (run : List α) : ν :=
  ((run.filterMap writes).getLast?).getD initial

theorem latest_cons (initial : ν) (a : α) (run : List α) :
    latest writes initial (a :: run) = latest writes ((writes a).getD initial) run := by
  unfold latest
  cases ha : writes a with
  | none => rw [List.filterMap_cons_none ha, Option.getD_none]
  | some v =>
    rw [List.filterMap_cons_some ha, List.getLast?_cons, Option.getD_some, Option.getD_some]

theorem foldl_eq_latest (get : σ → ν) (h : ∀ s a, get (step s a) = (writes a).getD (get s)) (s : σ) (run : List α) :
    get (run.foldl step s) = latest writes (get s) run := by
  induction run generalizing s with
  | nil => rfl
  | cons a run ih => rw [List.foldl_cons, ih, h, latest_cons]

end EBeacon.Registers
