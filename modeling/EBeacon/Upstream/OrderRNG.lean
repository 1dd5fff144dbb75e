import EBeacon.Library.Xorshift
import EBeacon.Upstream.LoadBalancer
import Mathlib.Algebra.Order.Field.Basic
import Mathlib.Algebra.Order.Ring.Rat
import Mathlib.Data.Nat.Cast.Order.Ring
import Mathlib.Tactic.NormNum

/-!
The generator of random and scored orders: the states that it reaches, and how far it tells the seeds of
requests apart.
-/

namespace EBeacon.Upstream

open Function

def mixSeed (seed : UInt64) : UInt64 :=
  let seed := seed + 0x9e3779b97f4a7c15
  let seed := (seed ^^^ (seed >>> 30)) * 0xbf58476d1ce4e5b9
  let seed := (seed ^^^ (seed >>> 27)) * 0x94d049bb133111eb
  seed ^^^ (seed >>> 31)

def replaceZero (x : UInt64) : UInt64 := if x = 0 then 1 else x

theorem newOrderRNG_eq (seed : UInt64) : newOrderRNG seed = ⟨replaceZero (mixSeed (replaceZero seed))⟩ := rfl

theorem toBitVec_mixSeed (seed : UInt64) :
    (mixSeed seed).toBitVec = Xorshift.xorRight 31 (Xorshift.xorRight 27 (Xorshift.xorRight 30
      (seed.toBitVec + 0x9e3779b97f4a7c15#64) * 0xbf58476d1ce4e5b9#64) * 0x94d049bb133111eb#64) := rfl

theorem mixSeed_injective : Injective mixSeed := by
  intro s t h
  have hbits := congrArg UInt64.toBitVec h
  rw [toBitVec_mixSeed, toBitVec_mixSeed] at hbits
  have hsecond := Xorshift.mul_injective_of_odd (by decide) (Xorshift.xorRight_injective (by decide) hbits)
  have hfirst := Xorshift.mul_injective_of_odd (by decide) (Xorshift.xorRight_injective (by decide) hsecond)
  apply UInt64.toBitVec_inj.mp
  exact Xorshift.add_injective _ (Xorshift.xorRight_injective (by decide) hfirst)

theorem replaceZero_ne_zero (x : UInt64) : replaceZero x ≠ 0 := by
  unfold replaceZero
  split_ifs with h
  · decide
  · exact h

theorem replaceZero_eq_iff {x y : UInt64} :
    replaceZero x = replaceZero y ↔ x = y ∨ (x = 0 ∧ y = 1) ∨ (y = 0 ∧ x = 1) := by
  unfold replaceZero
  split_ifs with hx hy hy
  · simp [hx, hy]
  · simp [hx, hy, eq_comm]
  · simp [hx, hy]
  · simp [hx, hy]

def Merged (s t : UInt64) : Prop := (s = 0 ∧ t = 1) ∨ (mixSeed s = 0 ∧ mixSeed t = 1)

theorem mixSeed_replaceZero {x y : UInt64} (hzero : mixSeed 0 ≠ y) (hone : mixSeed 1 ≠ y) :
    mixSeed (replaceZero x) = y ↔ mixSeed x = y := by
  unfold replaceZero
  split_ifs with hx
  · rw [hx]
    exact ⟨fun h => absurd h hone, fun h => absurd h hzero⟩
  · rfl

theorem newOrderRNG_eq_iff {s t : UInt64} :
    newOrderRNG s = newOrderRNG t ↔ s = t ∨ Merged s t ∨ Merged t s := by
  have hzero : ∀ x, mixSeed (replaceZero x) = 0 ↔ mixSeed x = 0 :=
    fun x => mixSeed_replaceZero (by decide) (by decide)
  have hone : ∀ x, mixSeed (replaceZero x) = 1 ↔ mixSeed x = 1 :=
    fun x => mixSeed_replaceZero (by decide) (by decide)
  rw [newOrderRNG_eq, newOrderRNG_eq, OrderRNG.mk.injEq, replaceZero_eq_iff, mixSeed_injective.eq_iff,
    replaceZero_eq_iff, hzero, hone, hzero, hone, or_assoc, or_or_or_comm]
  rfl

example : Merged 0x61c8864680b583eb 0xf8364607e9c949bd := Or.inr (by decide)

namespace OrderRNG

def step (r : OrderRNG) : OrderRNG := r.next.2

def outputs (r : OrderRNG) (n : ℕ) : UInt64 := (step^[n] r).next.1

-- the value of `Float64`, which its division gives exactly
def fraction (r : OrderRNG) : ℚ := (r.next.1 >>> 11).toNat / ((1 : UInt64) <<< 53).toNat

def draws (r : OrderRNG) (n : ℕ) : ℚ := (step^[n] r).fraction

theorem toBitVec_next (r : OrderRNG) : r.next.1.toBitVec = Xorshift.next 13 7 17 r.state.toBitVec := rfl

theorem next_injective : Injective (fun r : OrderRNG => r.next.1) := by
  rintro ⟨s⟩ ⟨t⟩ h
  have hbits := congrArg UInt64.toBitVec h
  rw [toBitVec_next, toBitVec_next] at hbits
  rw [mk.injEq, ← UInt64.toBitVec_inj]
  exact Xorshift.next_injective (by decide) (by decide) (by decide) hbits

theorem step_injective : Injective step := fun _ _ h => next_injective (congrArg state h)

theorem step_state_ne_zero {r : OrderRNG} (h : r.state ≠ 0) : r.step.state ≠ 0 := by
  rw [ne_eq, ← UInt64.toBitVec_inj] at h ⊢
  exact Xorshift.next_ne_zero (by decide) (by decide) (by decide) h

theorem iterate_state_ne_zero (seed : UInt64) (n : ℕ) : (step^[n] (newOrderRNG seed)).state ≠ 0 := by
  induction n with
  | zero => exact replaceZero_ne_zero _
  | succ n ih =>
    rw [iterate_succ_apply']
    exact step_state_ne_zero ih

theorem outputs_eq_iff {r r' : OrderRNG} {n : ℕ} : r.outputs n = r'.outputs n ↔ r = r' :=
  (next_injective.comp (step_injective.iterate n)).eq_iff

theorem fraction_eq_iff {r r' : OrderRNG} :
    r.fraction = r'.fraction ↔ r.next.1.toBitVec >>> 11 = r'.next.1.toBitVec >>> 11 := by
  have hpos : (((1 : UInt64) <<< 53).toNat : ℚ) ≠ 0 := by decide
  unfold fraction
  rw [div_left_inj' hpos, Nat.cast_inj, UInt64.toNat_inj, ← UInt64.toBitVec_inj]
  rfl

theorem draws_injective : Injective draws := by
  intro r r' h
  -- two draws in a row are enough, though each drops eleven bits of the output
  have hfirst := fraction_eq_iff.mp (congrFun h 0)
  have hsecond := fraction_eq_iff.mp (congrFun h 1)
  apply next_injective
  apply UInt64.toBitVec_inj.mp
  exact Xorshift.eq_of_next_truncated (by decide) (by decide) (by decide) (by decide) (by decide) hfirst hsecond

theorem fraction_nonneg (r : OrderRNG) : 0 ≤ r.fraction := div_nonneg (Nat.cast_nonneg _) (Nat.cast_nonneg _)

theorem fraction_lt_one (r : OrderRNG) : r.fraction < 1 := by
  have hpow : ((1 : UInt64) <<< 53).toNat = 2 ^ 53 := rfl
  have hlt : (r.next.1 >>> 11).toNat < 2 ^ 53 := by
    have hword := r.next.1.toNat_lt
    have hshift : (r.next.1 >>> 11).toNat = r.next.1.toNat / 2 ^ 11 := Nat.shiftRight_eq_div_pow _ _
    omega
  unfold fraction
  rw [hpow, div_lt_one (by norm_num)]
  exact_mod_cast hlt

end OrderRNG

end EBeacon.Upstream
