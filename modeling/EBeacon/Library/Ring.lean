import Mathlib.Data.List.DropRight
import Mathlib.Data.List.Rotate
import Mathlib.Tactic.Common

namespace EBeacon

structure Ring (α : Type) where
  buf : List α
  pos : ℕ

namespace Ring

variable {α β : Type}

def new (size : ℕ) (zero : α) : Ring α := ⟨List.replicate size zero, 0⟩

def add (r : Ring α) (a : α) : Ring α := ⟨r.buf.set (r.pos % r.buf.length) a, r.pos + 1⟩

def has [DecidableEq α] (r : Ring α) (a : α) : Bool := r.buf.any (fun v => v = a)

def ofHistory (size : ℕ) (zero : α) (history : List α) : Ring α := history.foldl add (new size zero)

theorem ofHistory_concat (size : ℕ) (zero : α) (history : List α) (a : α) :
    ofHistory size zero (history ++ [a]) = (ofHistory size zero history).add a := by
  rw [ofHistory, List.foldl_append]
  rfl

theorem cells_ofHistory (size : ℕ) (zero : α) (history : List α) :
    (ofHistory size zero history).buf.length = size ∧ (ofHistory size zero history).pos = history.length ∧
      ∀ k, history.length ≤ k → k < history.length + size →
        (ofHistory size zero history).buf[k % size]? = (List.replicate size zero ++ history)[k]? := by
  induction history using List.reverseRecOn with
  | nil =>
    refine ⟨List.length_replicate, rfl, fun k _ hk => ?_⟩
    have hk : k < size := by simpa using hk
    simp [ofHistory, new, Nat.mod_eq_of_lt hk]
  | append_singleton history a ih =>
    obtain ⟨hlength, hpos, hcells⟩ := ih
    rw [ofHistory_concat, add]
    refine ⟨by rw [List.length_set, hlength], by rw [hpos, List.length_append, List.length_singleton], ?_⟩
    intro k hlow hhigh
    rw [List.length_append, List.length_singleton] at hlow hhigh
    have hsize : 0 < size := by omega
    dsimp only
    rw [hlength, hpos, ← List.append_assoc]
    by_cases hlast : k = history.length + size
    · -- the cell that was written last
      have hmod : k % size = history.length % size := by rw [hlast, Nat.add_mod_right]
      have hlt : history.length % size < (ofHistory size zero history).buf.length := by
        rw [hlength]
        exact Nat.mod_lt _ hsize
      rw [hmod, List.getElem?_set_self hlt, List.getElem?_append_right, hlast]
      · simp [Nat.add_comm]
      · simp [hlast, Nat.add_comm]
    · have hne : history.length % size ≠ k % size := by
        intro hmod
        have hdvd : size ∣ k - history.length := Nat.dvd_of_mod_eq_zero (Nat.sub_mod_eq_zero_of_mod_eq hmod.symm)
        have hle := Nat.le_of_dvd (by omega) hdvd
        omega
      have hlt : k < (List.replicate size zero ++ history).length := by
        rw [List.length_append, List.length_replicate]
        omega
      rw [List.getElem?_set_ne hne, hcells k (by omega) (by omega), List.getElem?_append_left hlt]

theorem used_perm (size : ℕ) (zero : α) (history : List α) :
    ((ofHistory size zero history).buf.take (min history.length size)).Perm (history.rtake size) := by
  obtain ⟨hlength, -, hcells⟩ := cells_ofHistory size zero history
  by_cases hle : history.length ≤ size
  · -- nothing has been overwritten
    have htake : (ofHistory size zero history).buf.take history.length = history := by
      apply List.ext_getElem?
      intro i
      rw [List.getElem?_take]
      split_ifs with hi
      · have hcell := hcells (size + i) (by omega) (by omega)
        rw [Nat.add_mod_left, Nat.mod_eq_of_lt (by omega), List.getElem?_append_right (by simp)] at hcell
        simpa using hcell
      · rw [List.getElem?_eq_none (by omega)]
    rw [min_eq_left hle, htake, List.rtake, Nat.sub_eq_zero_of_le hle, List.drop_zero]
  · have hrotate : (ofHistory size zero history).buf.rotate history.length = history.rtake size := by
      apply List.ext_getElem?
      intro i
      by_cases hi : i < size
      · have hcell := hcells (history.length + i) (by omega) (by omega)
        rw [List.getElem?_append_right (by rw [List.length_replicate]; omega), List.length_replicate] at hcell
        rw [List.getElem?_rotate (by omega), hlength, Nat.add_comm i, hcell, List.rtake, List.getElem?_drop]
        congr 1
        omega
      · rw [List.getElem?_eq_none (by rw [List.length_rotate]; omega),
          List.getElem?_eq_none (by rw [List.rtake, List.length_drop]; omega)]
    rw [min_eq_right (by omega), List.take_of_length_le (by omega), ← hrotate]
    exact (List.rotate_perm _ _).symm

theorem exists_mod_eq {size i : ℕ} (hi : i < size) (n : ℕ) : ∃ k, n ≤ k ∧ k < n + size ∧ k % size = i := by
  have hdiv := Nat.div_add_mod n size
  have hrest := Nat.mod_lt n (Nat.zero_lt_of_lt hi)
  by_cases hle : n % size ≤ i
  · refine ⟨size * (n / size) + i, by omega, by omega, ?_⟩
    rw [Nat.mul_add_mod, Nat.mod_eq_of_lt hi]
  · have hsucc : size * (n / size + 1) = size * (n / size) + size := Nat.mul_succ _ _
    refine ⟨size * (n / size + 1) + i, by omega, by omega, ?_⟩
    rw [Nat.mul_add_mod, Nat.mod_eq_of_lt hi]

theorem mem_ofHistory {size : ℕ} {zero a : α} {history : List α} :
    a ∈ (ofHistory size zero history).buf ↔
      a ∈ history.rtake size ∨ history.length < size ∧ a = zero := by
  obtain ⟨hlength, -, hcells⟩ := cells_ofHistory size zero history
  have hwindow : a ∈ (ofHistory size zero history).buf ↔
      a ∈ (List.replicate size zero ++ history).drop history.length := by
    rw [List.mem_iff_getElem?, List.mem_iff_getElem?]
    constructor
    · rintro ⟨i, hi⟩
      have hlt : i < size := by
        rw [← hlength]
        exact (List.getElem?_eq_some_iff.mp hi).1
      obtain ⟨k, hlow, hhigh, hmod⟩ := exists_mod_eq hlt history.length
      refine ⟨k - history.length, ?_⟩
      rw [List.getElem?_drop, Nat.add_sub_cancel' hlow, ← hcells k hlow hhigh, hmod, hi]
    · rintro ⟨j, hj⟩
      rw [List.getElem?_drop] at hj
      have hlt := (List.getElem?_eq_some_iff.mp hj).1
      rw [List.length_append, List.length_replicate] at hlt
      exact ⟨(history.length + j) % size, by rw [hcells _ (by omega) (by omega), hj]⟩
  rw [hwindow, List.drop_append, List.drop_replicate, List.length_replicate, List.mem_append,
    List.mem_replicate, ← List.rtake, or_comm, Nat.sub_ne_zero_iff_lt]

theorem has_ofHistory [DecidableEq α] {size : ℕ} {zero a : α} {history : List α} :
    (ofHistory size zero history).has a = true ↔
      a ∈ history.rtake size ∨ history.length < size ∧ a = zero := by
  rw [has, List.any_eq_true, ← mem_ofHistory]
  simp

end Ring

end EBeacon
