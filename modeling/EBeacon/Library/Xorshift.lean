import Mathlib.Data.Nat.ModEq
import Mathlib.Data.Nat.Prime.Basic
import Mathlib.Logic.Function.Iterate

/-!
Words that are mixed by shifts, exclusive ors and products, and the xorshift generators.
-/

namespace EBeacon.Xorshift

open Function

variable {w : ℕ}

def Linear (f : BitVec w → BitVec w) : Prop := ∀ x y, f (x ^^^ y) = f x ^^^ f y

namespace Linear

variable {f g : BitVec w → BitVec w}

theorem comp (hg : Linear g) (hf : Linear f) : Linear (g ∘ f) := by
  intro x y
  rw [comp_apply, hf, hg]
  rfl

theorem map_zero (hf : Linear f) : f 0 = 0 := by
  have h := hf 0 0
  rwa [BitVec.xor_self, BitVec.xor_self] at h

theorem injective (hf : Linear f) (hzero : ∀ x, f x = 0 → x = 0) : Injective f := by
  intro x y h
  apply BitVec.xor_eq_zero_iff.mp
  apply hzero
  rw [hf, h]
  exact BitVec.xor_self

end Linear

def xorLeft (k : ℕ) (x : BitVec w) : BitVec w := x ^^^ (x <<< k)

def xorRight (k : ℕ) (x : BitVec w) : BitVec w := x ^^^ (x >>> k)

section Shifts

variable {k : ℕ} {x : BitVec w}

theorem linear_xorLeft (k : ℕ) : Linear (xorLeft k : BitVec w → BitVec w) := by
  intro x y
  unfold xorLeft
  rw [BitVec.shiftLeft_xor_distrib]
  ac_rfl

theorem linear_xorRight (k : ℕ) : Linear (xorRight k : BitVec w → BitVec w) := by
  intro x y
  unfold xorRight
  rw [BitVec.ushiftRight_xor_distrib]
  ac_rfl

theorem shiftLeft_mul_of_eq (h : x <<< k = x) (n : ℕ) : x <<< (k * n) = x := by
  induction n with
  | zero => exact BitVec.shiftLeft_zero x
  | succ n ih => rw [Nat.mul_succ, BitVec.shiftLeft_add, ih, h]

theorem ushiftRight_mul_of_eq (h : x >>> k = x) (n : ℕ) : x >>> (k * n) = x := by
  induction n with
  | zero => exact BitVec.ushiftRight_zero x
  | succ n ih => rw [Nat.mul_succ, BitVec.shiftRight_add, ih, h]

theorem xorLeft_injective (hk : 0 < k) : Injective (xorLeft k : BitVec w → BitVec w) := by
  apply (linear_xorLeft k).injective
  intro x h
  -- what a shift leaves as it is can be shifted until nothing is left of it
  have hfix : x <<< k = x := (BitVec.xor_eq_zero_iff.mp h).symm
  rw [← shiftLeft_mul_of_eq hfix w]
  exact BitVec.shiftLeft_eq_zero (Nat.le_mul_of_pos_left w hk)

theorem xorRight_injective (hk : 0 < k) : Injective (xorRight k : BitVec w → BitVec w) := by
  apply (linear_xorRight k).injective
  intro x h
  have hfix : x >>> k = x := (BitVec.xor_eq_zero_iff.mp h).symm
  rw [← ushiftRight_mul_of_eq hfix w]
  exact BitVec.ushiftRight_eq_zero (Nat.le_mul_of_pos_left w hk)

end Shifts

theorem mul_injective_of_odd {c : BitVec w} (h : Odd c.toNat) : Injective (fun x : BitVec w => x * c) := by
  intro x y hxy
  have hcoprime : (2 ^ w).gcd c.toNat = 1 := (Nat.coprime_two_left.mpr h).pow_left w
  have hmod : x.toNat * c.toNat ≡ y.toNat * c.toNat [MOD 2 ^ w] := by
    have htoNat := congrArg BitVec.toNat hxy
    dsimp only at htoNat
    rwa [BitVec.toNat_mul, BitVec.toNat_mul] at htoNat
  apply BitVec.eq_of_toNat_eq
  exact (hmod.cancel_right_of_coprime hcoprime).eq_of_lt_of_lt x.isLt y.isLt

theorem add_injective (c : BitVec w) : Injective (fun x : BitVec w => x + c) :=
  fun _ _ h => (BitVec.add_left_inj c).mp h

section Generator

def next (a b c : ℕ) (x : BitVec w) : BitVec w := xorLeft c (xorRight b (xorLeft a x))

variable {a b c : ℕ}

theorem linear_next (a b c : ℕ) : Linear (next a b c : BitVec w → BitVec w) :=
  (linear_xorLeft c).comp ((linear_xorRight b).comp (linear_xorLeft a))

theorem next_injective (ha : 0 < a) (hb : 0 < b) (hc : 0 < c) :
    Injective (next a b c : BitVec w → BitVec w) :=
  (xorLeft_injective hc).comp ((xorRight_injective hb).comp (xorLeft_injective ha))

theorem next_ne_zero (ha : 0 < a) (hb : 0 < b) (hc : 0 < c) {x : BitVec w} (hx : x ≠ 0) : next a b c x ≠ 0 := by
  rw [← (linear_next a b c).map_zero]
  exact (next_injective ha hb hc).ne hx

end Generator

section Truncation

variable {k m low : ℕ} {x : BitVec w}

theorem ushiftRight_eq_zero_iff : x >>> m = 0#w ↔ ∀ i, m ≤ i → x.getLsbD i = false := by
  constructor
  · intro h i hi
    have hbit := congrArg (BitVec.getLsbD · (i - m)) h
    rwa [BitVec.getLsbD_ushiftRight, Nat.add_sub_cancel' hi, BitVec.getLsbD_zero] at hbit
  · intro h
    apply BitVec.eq_of_getLsbD_eq
    intro i hi
    rw [BitVec.getLsbD_ushiftRight, BitVec.getLsbD_zero]
    exact h (m + i) (Nat.le_add_right m i)

theorem xorLeft_low (h : x >>> m = 0#w) : xorLeft k x >>> (m + k) = 0#w := by
  rw [ushiftRight_eq_zero_iff] at h ⊢
  intro i hi
  unfold xorLeft
  rw [BitVec.getLsbD_xor, BitVec.getLsbD_shiftLeft, h i (by omega), h (i - k) (by omega)]
  simp

theorem xorRight_low (h : x >>> m = 0#w) : xorRight k x >>> m = 0#w := by
  rw [ushiftRight_eq_zero_iff] at h ⊢
  intro i hi
  unfold xorRight
  rw [BitVec.getLsbD_xor, BitVec.getLsbD_ushiftRight, h i hi, h (k + i) (by omega)]
  rfl

theorem eq_zero_of_xorLeft_low (hk : 0 < k) (hlow : low ≤ k) (hw : m + k ≤ w) (hx : x >>> m = 0#w)
    (h : xorLeft k x >>> low = 0#w) : x = 0 := by
  rw [ushiftRight_eq_zero_iff] at hx h
  -- each bit has a copy `k` places up, and from `m` on there are none
  have hcopy : ∀ i < m, x.getLsbD (i + k) = x.getLsbD i := by
    intro i hi
    have hbit := h (i + k) (by omega)
    unfold xorLeft at hbit
    rw [BitVec.getLsbD_xor, BitVec.getLsbD_shiftLeft, Nat.add_sub_cancel, decide_eq_true (by omega : i + k < w),
      decide_eq_false (by omega : ¬ i + k < k)] at hbit
    simpa using hbit
  have hall : ∀ n i, m ≤ i + n → x.getLsbD i = false := by
    intro n
    induction n with
    | zero => exact hx
    | succ n ih =>
      intro i hi
      by_cases him : i < m
      · rw [← hcopy i him]
        exact ih (i + k) (by omega)
      · exact hx i (not_lt.mp him)
  apply BitVec.eq_of_getLsbD_eq
  intro i _
  exact (hall m i (Nat.le_add_left m i)).trans BitVec.getLsbD_zero.symm

variable {a b c : ℕ}

theorem eq_of_next_truncated (ha : 0 < a) (hb : 0 < b) (hc : 0 < c) (hlow : low ≤ c) (hw : low + a + c ≤ w)
    {x y : BitVec w} (h : x >>> low = y >>> low) (hnext : next a b c x >>> low = next a b c y >>> low) :
    x = y := by
  apply BitVec.xor_eq_zero_iff.mp
  have hfirst : (x ^^^ y) >>> low = 0#w := by
    rw [BitVec.ushiftRight_xor_distrib, h]
    exact BitVec.xor_self
  have hsecond : next a b c (x ^^^ y) >>> low = 0#w := by
    rw [linear_next a b c, BitVec.ushiftRight_xor_distrib, hnext]
    exact BitVec.xor_self
  have hmixed : xorRight b (xorLeft a (x ^^^ y)) = 0 :=
    eq_zero_of_xorLeft_low hc hlow hw (xorRight_low (xorLeft_low hfirst)) hsecond
  have hinjective := (xorRight_injective hb).comp (xorLeft_injective (w := w) ha)
  apply hinjective
  rw [comp_apply, hmixed]
  exact ((linear_xorRight b).comp (linear_xorLeft a)).map_zero.symm

end Truncation

end EBeacon.Xorshift
