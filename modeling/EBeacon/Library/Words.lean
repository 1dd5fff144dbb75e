import Mathlib.Algebra.Group.Int.Defs
import Mathlib.Algebra.Group.Nat.Defs
import Mathlib.Data.Int.Order.Basic
import Mathlib.Order.Defs.LinearOrder

namespace EBeacon.Words

instance linearOrderUInt64 : LinearOrder UInt64 where
  le_refl := UInt64.le_refl
  le_trans := fun _ _ _ => UInt64.le_trans
  lt_iff_le_not_ge := fun a b => by
    rw [UInt64.lt_iff_toNat_lt, UInt64.le_iff_toNat_le, UInt64.le_iff_toNat_le]
    omega
  le_antisymm := fun _ _ => UInt64.le_antisymm
  le_total := UInt64.le_total
  toDecidableLE := inferInstance
  toDecidableEq := inferInstance
  toDecidableLT := inferInstance
  min_def := fun _ _ => rfl
  max_def := fun _ _ => rfl

theorem toNat_max (a b : UInt64) : (max a b).toNat = max a.toNat b.toNat := by
  rcases le_total a b with h | h
  · rw [max_eq_right h, Nat.max_eq_right (UInt64.le_iff_toNat_le.mp h)]
  · rw [max_eq_left h, Nat.max_eq_left (UInt64.le_iff_toNat_le.mp h)]

theorem toNat_toUInt64 (x : Int64) : (x.toUInt64.toNat : ℤ) = x.toInt % (2 ^ 64 : ℕ) := by
  have hlt := x.toBitVec.isLt
  rw [Int64.toInt, BitVec.toInt_eq_toNat_bmod, Int.bmod_emod]
  exact (Int.emod_eq_of_lt (Int.natCast_nonneg _) (Int.ofNat_lt.mpr hlt)).symm

theorem toNat_sub_add_toUInt64 (a b c : Int64) (h0 : 0 ≤ a.toInt - b.toInt + c.toInt)
    (hlt : a.toInt - b.toInt + c.toInt < (2 ^ 64 : ℕ)) :
    (a - b + c).toUInt64.toNat = (a.toInt - b.toInt + c.toInt).toNat := by
  have h := toNat_toUInt64 (a - b + c)
  rw [Int64.toInt_add, Int64.toInt_sub, Int.bmod_add_bmod, Int.bmod_emod,
    Int.emod_eq_of_lt h0 hlt] at h
  omega

theorem toInt_succ {n : Int64} (hl : n ≠ Int64.maxValue) (hp : 0 ≤ n) :
    (n + 1).toInt = n.toInt + 1 := by
  have hlt := Int64.toInt_lt n
  have hpos : 0 ≤ n.toInt := Int64.le_iff_toInt_le.mp hp
  have hmax : n.toInt ≠ 2 ^ 63 - 1 := by
    intro h
    apply hl
    apply Int64.toInt_inj.mp
    rw [h]
    rfl
  have hone : (1 : Int64).toInt = 1 := rfl
  rw [Int64.toInt_add, hone, Int.bmod_eq_of_le (by omega) (by omega)]

theorem bmod_shift (x : ℤ) : ∃ m, x.bmod (2 ^ 64) = x + 2 ^ 64 * m ∧ -2 ^ 63 ≤ x.bmod (2 ^ 64) ∧
    x.bmod (2 ^ 64) < 2 ^ 63 := by
  obtain ⟨m, hm⟩ := Int.dvd_bmod_sub_self (x := x) (m := 2 ^ 64)
  have hle := Int.le_bmod (x := x) (m := 2 ^ 64) (by decide)
  have hlt := Int.bmod_lt (x := x) (m := 2 ^ 64) (by decide)
  exact ⟨m, by omega, by omega, by omega⟩

theorem toInt_toInt64 {x : UInt64} (h : x.toNat < 2 ^ 63) : x.toInt64.toInt = x.toNat := by
  have hmod : x.toInt64.toInt = (x.toNat : ℤ).bmod (2 ^ 64) := BitVec.toInt_eq_toNat_bmod _
  rw [hmod, Int.bmod_eq_of_le (by omega) (by omega)]

theorem toNat_toUInt64_of_nonneg {x : Int64} (h : 0 ≤ x.toInt) : x.toUInt64.toNat = x.toInt.toNat := by
  have hcast := toNat_toUInt64 x
  have hlt := Int64.toInt_lt x
  rw [Int.emod_eq_of_lt h (by omega)] at hcast
  omega

end EBeacon.Words
