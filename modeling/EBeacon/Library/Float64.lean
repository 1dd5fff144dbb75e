import Mathlib.Algebra.Order.BigOperators.Group.List
import Mathlib.Algebra.Order.Ring.Rat
import Mathlib.Data.Int.Log
import Mathlib.Data.Rat.Floor
import Mathlib.Tactic.Linarith

namespace EBeacon

/-- A `float64` as comparisons see it. -/
inductive Float64
  | nan
  | inf (negative : Bool)
  | finite (q : ℚ)
  deriving DecidableEq

namespace Float64

instance : Zero Float64 := ⟨finite 0⟩

instance : One Float64 := ⟨finite 1⟩

def Less : Float64 → Float64 → Prop
  | nan, _ => False
  | _, nan => False
  | inf a, inf b => a = true ∧ b = false
  | inf a, finite _ => a = true
  | finite _, inf b => b = false
  | finite p, finite q => p < q

instance : LT Float64 := ⟨Less⟩

instance : LE Float64 := ⟨fun a b => a < b ∨ a = b ∧ a ≠ nan⟩

instance (a b : Float64) : Decidable (a < b) :=
  match a, b with
  | nan, _ => isFalse (fun h => h)
  | inf _, nan => isFalse (fun h => h)
  | finite _, nan => isFalse (fun h => h)
  | inf a, inf b => inferInstanceAs (Decidable (a = true ∧ b = false))
  | inf a, finite _ => inferInstanceAs (Decidable (a = true))
  | finite _, inf b => inferInstanceAs (Decidable (b = false))
  | finite p, finite q => inferInstanceAs (Decidable (p < q))

instance (a b : Float64) : Decidable (a ≤ b) :=
  inferInstanceAs (Decidable (a < b ∨ a = b ∧ a ≠ nan))

theorem finite_lt {p q : ℚ} : finite p < finite q ↔ p < q := Iff.rfl

theorem finite_le {p q : ℚ} : finite p ≤ finite q ↔ p ≤ q := by
  change finite p < finite q ∨ finite p = finite q ∧ finite p ≠ nan ↔ p ≤ q
  rw [finite_lt, le_iff_lt_or_eq]
  simp

theorem lt_finite_of_le {a : Float64} {p q : ℚ} (h : a < finite p) (hle : p ≤ q) : a < finite q := by
  cases a with
  | nan => exact h
  | inf => exact h
  | finite => exact finite_lt.mpr (lt_of_lt_of_le (finite_lt.mp h) hle)

theorem lt_nan_not {a : Float64} : ¬a < nan := by
  intro h
  cases a <;> exact h

theorem not_le_nan {a : Float64} : ¬a ≤ nan := by
  rintro (h | ⟨rfl, h⟩)
  · exact lt_nan_not h
  · exact h rfl

theorem one_le_iff_of_ne_zero {a : Float64} (h : ¬(a < 0 ∨ 0 < a ∧ a < 1)) (hzero : a ≠ 0) :
    1 ≤ a ↔ a ≠ nan := by
  cases a with
  | nan => exact ⟨fun h => absurd h not_le_nan, fun h => absurd rfl h⟩
  | inf negative =>
    cases negative with
    | false => exact ⟨fun _ => nofun, fun _ => Or.inl rfl⟩
    | true => exact absurd (Or.inl rfl) h
  | finite q =>
    have hq : ¬(q < 0 ∨ 0 < q ∧ q < 1) := h
    have hq0 : q ≠ 0 := fun h => hzero (congrArg finite h)
    have hle : 1 ≤ q := by
      rcases lt_trichotomy q 0 with hlt | heq | hgt
      · exact absurd (Or.inl hlt) hq
      · exact absurd heq hq0
      · exact not_lt.mp fun hlt => hq (Or.inr ⟨hgt, hlt⟩)
    exact ⟨fun _ => nofun, fun _ => finite_le.mpr hle⟩

section Nearest

def nearestEven (q : ℚ) : ℤ :=
  if q - ⌊q⌋ < 1 / 2 ∨ q - ⌊q⌋ = 1 / 2 ∧ ⌊q⌋ % 2 = 0 then ⌊q⌋ else ⌊q⌋ + 1

def lastPlace (q : ℚ) : ℤ := max (Int.log 2 |q| - 52) (-1074)

def nearest (q : ℚ) : ℚ := nearestEven (q / 2 ^ lastPlace q) * 2 ^ lastPlace q

theorem nearestEven_intCast (n : ℤ) : nearestEven n = n := by
  unfold nearestEven
  rw [Int.floor_intCast, sub_self, if_pos (Or.inl (by norm_num))]

theorem floor_le_nearestEven (q : ℚ) : ⌊q⌋ ≤ nearestEven q := by
  unfold nearestEven
  split_ifs <;> omega

theorem nearestEven_le_floor_add_one (q : ℚ) : nearestEven q ≤ ⌊q⌋ + 1 := by
  unfold nearestEven
  split_ifs <;> omega

theorem nearestEven_mono {p q : ℚ} (h : p ≤ q) : nearestEven p ≤ nearestEven q := by
  rcases (Int.floor_mono h).lt_or_eq with hlt | heq
  · have hp := nearestEven_le_floor_add_one p
    have hq := floor_le_nearestEven q
    omega
  · unfold nearestEven
    rw [heq]
    split_ifs with hdown hup hup
    · exact le_rfl
    · omega
    · exfalso
      apply hdown
      rcases hup with hless | ⟨htie, heven⟩
      · exact Or.inl (by linarith)
      · rcases (show p - ⌊q⌋ ≤ 1 / 2 by linarith).lt_or_eq with hless | hhalf
        · exact Or.inl hless
        · exact Or.inr ⟨hhalf, heven⟩
    · exact le_rfl

theorem zpow_two_pos (e : ℤ) : (0 : ℚ) < 2 ^ e := zpow_pos two_pos e

theorem le_nearest {q : ℚ} {m : ℤ} (h : m * 2 ^ lastPlace q ≤ q) : m * 2 ^ lastPlace q ≤ nearest q := by
  have hm : m ≤ nearestEven (q / 2 ^ lastPlace q) := by
    rw [← nearestEven_intCast m]
    exact nearestEven_mono ((le_div_iff₀ (zpow_two_pos _)).mpr h)
  exact mul_le_mul_of_nonneg_right (Int.cast_le.mpr hm) (zpow_two_pos _).le

theorem nearest_le {q : ℚ} {m : ℤ} (h : q ≤ m * 2 ^ lastPlace q) : nearest q ≤ m * 2 ^ lastPlace q := by
  have hm : nearestEven (q / 2 ^ lastPlace q) ≤ m := by
    rw [← nearestEven_intCast m]
    exact nearestEven_mono ((div_le_iff₀ (zpow_two_pos _)).mpr h)
  exact mul_le_mul_of_nonneg_right (Int.cast_le.mpr hm) (zpow_two_pos _).le

theorem nearest_of_multiple {q : ℚ} {m : ℤ} (h : q = m * 2 ^ lastPlace q) : nearest q = q :=
  le_antisymm ((nearest_le h.le).trans h.ge) (h.le.trans (le_nearest h.ge))

theorem zpow_eq_mul_zpow {e f : ℤ} (h : f ≤ e) : (2 : ℚ) ^ e = ((2 ^ (e - f).toNat : ℤ) : ℚ) * 2 ^ f := by
  push_cast
  rw [← zpow_natCast, ← zpow_add₀ two_ne_zero]
  congr 1
  omega

theorem lastPlace_le (q : ℚ) {e : ℤ} (hq : 0 < q) (h : q < 2 ^ (e + 53)) (he : -1074 ≤ e) : lastPlace q ≤ e := by
  have hlog : Int.log 2 q < e + 53 := (Int.lt_zpow_iff_log_lt (by norm_num) hq).mp (by exact_mod_cast h)
  unfold lastPlace
  rw [abs_of_pos hq]
  omega

theorem nearest_zpow {e : ℤ} (h : -1074 ≤ e) : nearest (2 ^ e) = 2 ^ e := by
  apply nearest_of_multiple (zpow_eq_mul_zpow _)
  apply lastPlace_le _ (zpow_two_pos e) _ h
  exact zpow_lt_zpow_right₀ one_lt_two (by omega)

theorem nearest_natCast {n : ℕ} (h : n < 2 ^ 53) : nearest n = n := by
  rcases Nat.eq_zero_or_pos n with rfl | hpos
  · exact nearest_of_multiple (m := 0) (by simp)
  · have hplace : lastPlace n ≤ 0 := by
      apply lastPlace_le _ (Nat.cast_pos.mpr hpos) _ (by norm_num)
      rw [zero_add]
      exact_mod_cast h
    have hone := zpow_eq_mul_zpow hplace
    rw [zpow_zero] at hone
    apply nearest_of_multiple (m := n * 2 ^ (0 - lastPlace n).toNat)
    rw [Int.cast_mul, mul_assoc, ← hone, mul_one, Int.cast_natCast]

theorem nearest_nonneg {q : ℚ} (h : 0 ≤ q) : 0 ≤ nearest q := by
  simpa using le_nearest (q := q) (m := 0) (by simpa using h)

theorem nearest_mono {p q : ℚ} (hp : 0 ≤ p) (h : p ≤ q) : nearest p ≤ nearest q := by
  rcases hp.eq_or_lt with rfl | hp
  · rw [show nearest 0 = 0 by simpa using nearest_natCast (n := 0) (by norm_num)]
    exact nearest_nonneg h
  have hq : 0 < q := hp.trans_le h
  have hlog : Int.log 2 p ≤ Int.log 2 q := Int.log_mono_right hp h
  have hlow : (2 : ℚ) ^ Int.log 2 q ≤ q := by exact_mod_cast Int.zpow_log_le_self (b := 2) (by norm_num) hq
  have hhigh : p < 2 ^ (Int.log 2 p + 1) := by exact_mod_cast Int.lt_zpow_succ_log_self (b := 2) (by norm_num) p
  have hpplace : lastPlace p = max (Int.log 2 p - 52) (-1074) := by rw [lastPlace, abs_of_pos hp]
  have hqplace : lastPlace q = max (Int.log 2 q - 52) (-1074) := by rw [lastPlace, abs_of_pos hq]
  by_cases heq : lastPlace p = lastPlace q
  · unfold nearest
    rw [heq]
    have hle := nearestEven_mono (div_le_div_of_nonneg_right h (zpow_two_pos (lastPlace q)).le)
    exact mul_le_mul_of_nonneg_right (Int.cast_le.mpr hle) (zpow_two_pos _).le
  · -- a power of two is between them
    have hbetween : p ≤ 2 ^ Int.log 2 q := by
      apply hhigh.le.trans
      exact zpow_le_zpow_right₀ one_le_two (by omega)
    have hdown := zpow_eq_mul_zpow (show lastPlace p ≤ Int.log 2 q by omega)
    have hup := zpow_eq_mul_zpow (show lastPlace q ≤ Int.log 2 q by omega)
    calc nearest p ≤ _ := nearest_le (hdown ▸ hbetween)
      _ = 2 ^ Int.log 2 q := hdown.symm
      _ = _ := hup
      _ ≤ nearest q := le_nearest (hup ▸ hlow)

end Nearest

section Arithmetic

/-!
Sums and products before they are rounded, and the conversions to and from `int64`. On amd64 a value that
does not fit is converted to the least integer.
-/

def mul : Float64 → Float64 → Float64
  | nan, _ => nan
  | _, nan => nan
  | inf a, inf b => inf (a != b)
  | inf a, finite q => if q = 0 then nan else inf (a != decide (q < 0))
  | finite q, inf a => if q = 0 then nan else inf (a != decide (q < 0))
  | finite p, finite q => finite (p * q)

def add : Float64 → Float64 → Float64
  | nan, _ => nan
  | _, nan => nan
  | inf a, inf b => if a = b then inf a else nan
  | inf a, finite _ => inf a
  | finite _, inf b => inf b
  | finite p, finite q => finite (p + q)

instance : Mul Float64 := ⟨mul⟩

instance : Add Float64 := ⟨add⟩

def isNaN : Float64 → Bool
  | nan => true
  | _ => false

def isInf : Float64 → Bool
  | inf _ => true
  | _ => false

def ofInt64 (x : Int64) : Float64 := finite (nearest x.toInt)

-- the least power of two beyond the range
def limit : ℚ := 2 ^ 1024

theorem lt_limit {q : ℚ} (h : q ≤ 2 ^ 64) : q < limit :=
  h.trans_lt (pow_lt_pow_right₀ one_lt_two (by decide))

def rounded : Float64 → Float64
  | finite q => if |nearest q| < limit then finite (nearest q) else inf (decide (q < 0))
  | x => x

def truncate (q : ℚ) : ℤ := q.num.tdiv q.den

def toInt64 : Float64 → Int64
  | finite q =>
    if -2 ^ 63 ≤ truncate q ∧ truncate q < 2 ^ 63 then Int64.ofInt (truncate q) else Int64.minValue
  | _ => Int64.minValue

theorem finite_mul (p q : ℚ) : finite p * finite q = finite (p * q) := rfl

theorem finite_add (p q : ℚ) : finite p + finite q = finite (p + q) := rfl

theorem foldl_add_finite (c : ℚ) (l : List ℚ) : (l.map finite).foldl (· + ·) (finite c) = finite (c + l.sum) := by
  induction l generalizing c with
  | nil => simp
  | cons q l ih => rw [List.map_cons, List.foldl_cons, finite_add, ih, List.sum_cons, add_assoc]

theorem truncate_eq_floor {q : ℚ} (h : 0 ≤ q) : truncate q = ⌊q⌋ := by
  rw [Rat.floor_def', truncate, Int.tdiv_eq_ediv_of_nonneg (Rat.num_nonneg.mpr h)]

theorem toInt_toInt64 {q : ℚ} (h : 0 ≤ q) (hlt : q < 2 ^ 63) : (finite q).toInt64.toInt = ⌊q⌋ := by
  have hnonneg : 0 ≤ ⌊q⌋ := Int.floor_nonneg.mpr h
  have hfits : ⌊q⌋ < 2 ^ 63 := by
    rw [Int.floor_lt]
    exact_mod_cast hlt
  have hsize : Int64.size = 2 ^ 64 := rfl
  rw [toInt64, truncate_eq_floor h, if_pos ⟨by omega, hfits⟩, Int64.toInt_ofInt, hsize]
  exact Int.bmod_eq_of_le (by omega) (by omega)

theorem toInt64_of_le {q : ℚ} (h : 2 ^ 63 ≤ q) : (finite q).toInt64 = Int64.minValue := by
  have hpos : 0 ≤ q := le_trans (by norm_num) h
  have hlarge : 2 ^ 63 ≤ ⌊q⌋ := by
    rw [Int.le_floor]
    exact_mod_cast h
  rw [toInt64, truncate_eq_floor hpos, if_neg (by omega)]

def isFinite : Float64 → Bool
  | finite _ => true
  | _ => false

end Arithmetic

/-- Numbers whose sums and products are infinite beyond the range of a `float64`, but not rounded. -/
structure Ranged where
  value : Float64
  deriving DecidableEq

namespace Ranged

def cap : Float64 → Float64
  | finite q => if |q| < limit then finite q else inf (decide (q < 0))
  | x => x

instance : OfNat Ranged 0 := ⟨⟨0⟩⟩

instance : Add Ranged := ⟨fun a b => ⟨cap (a.value + b.value)⟩⟩

instance : Mul Ranged := ⟨fun a b => ⟨cap (a.value * b.value)⟩⟩

instance : LT Ranged := ⟨fun a b => a.value < b.value⟩

instance : LE Ranged := ⟨fun a b => a.value ≤ b.value⟩

instance : DecidableLT Ranged := fun a b => inferInstanceAs (Decidable (a.value < b.value))

instance : DecidableLE Ranged := fun a b => inferInstanceAs (Decidable (a.value ≤ b.value))

theorem cap_finite {q : ℚ} (h : 0 ≤ q) (hlt : q < limit) : cap (finite q) = finite q := by
  rw [cap, if_pos (by rwa [abs_of_nonneg h])]

theorem add_finite {p q : ℚ} (h : 0 ≤ p + q) (hlt : p + q < limit) :
    (⟨finite p⟩ + ⟨finite q⟩ : Ranged) = ⟨finite (p + q)⟩ :=
  congrArg mk (cap_finite h hlt)

theorem mul_finite {p q : ℚ} (h : 0 ≤ p * q) (hlt : p * q < limit) :
    (⟨finite p⟩ * ⟨finite q⟩ : Ranged) = ⟨finite (p * q)⟩ :=
  congrArg mk (cap_finite h hlt)

theorem foldl_add {l : List ℚ} (hl : ∀ q ∈ l, 0 ≤ q) {c : ℚ} (hc : 0 ≤ c) (hlt : c + l.sum < limit) :
    (l.map (fun q => (⟨finite q⟩ : Ranged))).foldl (· + ·) ⟨finite c⟩ = ⟨finite (c + l.sum)⟩ := by
  induction l generalizing c with
  | nil => simp
  | cons q l ih =>
    obtain ⟨hq, hl⟩ := List.forall_mem_cons.mp hl
    have hsum := List.sum_nonneg hl
    rw [List.sum_cons, ← add_assoc] at hlt ⊢
    rw [List.map_cons, List.foldl_cons, add_finite (by linarith) (by linarith), ih hl (by linarith) hlt]

theorem isFinite_of_cap {a : Float64} (h : (cap a).isFinite = true) : a.isFinite = true := by
  cases a with
  | nan => cases h
  | inf negative => cases h
  | finite q => rfl

theorem isFinite_of_add {a b : Ranged} (h : (a + b).value.isFinite = true) :
    a.value.isFinite = true ∧ b.value.isFinite = true := by
  have hsum : (a.value + b.value).isFinite = true := isFinite_of_cap h
  revert hsum
  cases a.value with
  | nan => cases b.value <;> exact fun h => absurd h Bool.false_ne_true
  | finite p => cases b.value with
    | finite q => exact fun _ => ⟨rfl, rfl⟩
    | nan => exact fun h => absurd h Bool.false_ne_true
    | inf negative => exact fun h => absurd h Bool.false_ne_true
  | inf negative => cases b.value with
    | nan => exact fun h => absurd h Bool.false_ne_true
    | finite q => exact fun h => absurd h Bool.false_ne_true
    | inf negative' =>
      cases negative <;> cases negative' <;> exact fun h => absurd h Bool.false_ne_true

theorem isFinite_of_mul {q : ℚ} {a : Ranged} (h : (⟨finite q⟩ * a : Ranged).value.isFinite = true) :
    a.value.isFinite = true := by
  have hmul : (finite q * a.value).isFinite = true := isFinite_of_cap h
  revert hmul
  cases a.value with
  | nan => exact fun h => absurd h Bool.false_ne_true
  | finite p => exact fun _ => rfl
  | inf negative =>
    intro h
    change (if q = 0 then nan else inf (negative != decide (q < 0))).isFinite = true at h
    split_ifs at h <;> cases h

end Ranged

section Rounding

structure Rounding where
  round : ℚ → ℚ
  mono : Monotone round
  round_round (q : ℚ) : round (round q) = round q
  round_zero : round 0 = 0

namespace Rounding

def exact : Rounding := ⟨id, monotone_id, fun _ => rfl, rfl⟩

variable (r : Rounding)

def ofNat (n : ℕ) : ℚ := r.round n

def div (p q : ℚ) : ℚ := r.round (p / q)

def mul (a b : Float64) : Float64 :=
  match a * b with
  | finite q => finite (r.round q)
  | c => c

theorem ofNat_nonneg (n : ℕ) : 0 ≤ r.ofNat n := by
  rw [← r.round_zero]
  exact r.mono (Nat.cast_nonneg n)

theorem ofNat_mono {m n : ℕ} (h : m ≤ n) : r.ofNat m ≤ r.ofNat n := r.mono (Nat.cast_le.mpr h)

theorem nonneg_div {p q : ℚ} (hp : 0 ≤ p) (hq : 0 ≤ q) : 0 ≤ r.div p q := by
  rw [← r.round_zero]
  exact r.mono (div_nonneg hp hq)

theorem not_mul_lt {m q : ℚ} {t : Float64} (hm : 0 ≤ m) (hround : r.round m = m) (ht : 1 ≤ t) (hq : q ≤ m) :
    ¬r.mul (finite m) t < finite q := by
  cases t with
  | nan => exact absurd ht not_le_nan
  | inf negative =>
    cases negative with
    | true => rcases ht with h | ⟨h, -⟩ <;> cases h
    | false =>
      have hmul : finite m * inf false = if m = 0 then nan else inf (false != decide (m < 0)) := rfl
      unfold mul
      rw [hmul]
      split_ifs with hzero
      · exact id
      · rw [decide_eq_false (not_lt.mpr hm)]
        intro h
        cases h
  | finite t =>
    have hle : m ≤ m * t := le_mul_of_one_le_right hm (finite_le.mp ht)
    unfold mul
    rw [finite_mul]
    intro h
    have hless : r.round (m * t) < q := finite_lt.mp h
    exact absurd (lt_of_lt_of_le hless (hq.trans hround.ge)) (not_lt.mpr (r.mono hle))

end Rounding

end Rounding

end Float64

end EBeacon
