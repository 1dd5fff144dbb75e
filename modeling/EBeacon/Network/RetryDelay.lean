import EBeacon.Config.Failsafe
import EBeacon.Library.Float64

/-!
The pause before a retry, which grows by a factor with every attempt up to a maximum.
-/

namespace EBeacon.Network

open Config Float64

structure Draw where
  value : ℚ
  nonneg : 0 ≤ value
  lt_one : value < 1

def growDelay (backoff : Float64) : ℕ → Float64 → Float64
  | 0, delay => delay
  | turns + 1, delay => growDelay backoff turns (delay * backoff)

def retryDelay (cfg : RetryConfig) (attempt : ℤ) (draw : Draw) : Int64 :=
  let delay := growDelay cfg.backoff attempt.toNat (ofInt64 cfg.delay)
  let delay := if 0 < cfg.maxDelay ∧ cfg.maxDelay < delay.toInt64 then ofInt64 cfg.maxDelay else delay
  let delay := if 0 < cfg.jitter then (delay + (finite draw.value * ofInt64 cfg.jitter).rounded).rounded else delay
  delay.toInt64

end EBeacon.Network

namespace EBeacon.Config.RetryConfig

open Float64

structure Timed (cfg : RetryConfig) : Prop where
  delay : 0 < cfg.delay
  backoff : 1 ≤ cfg.backoff
  maxDelay : 0 < cfg.maxDelay
  jitter : 0 ≤ cfg.jitter

theorem Usable.timed {cfg : RetryConfig} (h : cfg.Usable) : cfg.applyDefaults.Timed := by
  have hpos : ∀ {x default : Int64}, 0 ≤ x → 0 < default → 0 < orElse x default := by
    intro x default hx hdefault
    unfold orElse
    split_ifs with hne
    · rw [Int64.lt_iff_le_and_ne]
      exact ⟨hx, hne.symm⟩
    · exact hdefault
  have hsound := applyDefaults_sound.mpr h
  exact ⟨hpos h.delay (by decide), hsound.backoff, hpos h.maxDelay (by decide), hsound.jitter⟩

end EBeacon.Config.RetryConfig

namespace EBeacon.Network

open Config Float64

section Bounds

variable {cfg : RetryConfig} {attempt : ℤ} {draw : Draw}

def DelayInBounds (cfg : RetryConfig) (attempt : ℤ) (draw : Draw) : Prop :=
  0 ≤ (retryDelay cfg attempt draw).toInt ∧
    (retryDelay cfg attempt draw).toInt ≤ cfg.maxDelay.toInt + cfg.jitter.toInt

def grownDelay (cfg : RetryConfig) (attempt : ℤ) (backoff : ℚ) : ℚ :=
  nearest cfg.delay.toInt * backoff ^ attempt.toNat

def clampedDelay (cfg : RetryConfig) (d : ℚ) : ℚ :=
  if (cfg.maxDelay.toInt : ℚ) + 1 ≤ d then nearest cfg.maxDelay.toInt else d

def jitteredDelay (cfg : RetryConfig) (draw : Draw) (d : ℚ) : ℚ :=
  if 0 < cfg.jitter then nearest (d + nearest (draw.value * nearest cfg.jitter.toInt)) else d

-- the product and the sum with the jitter are within the range of a duration, and rounding does not take
-- the sum beyond the maximum
def DelayFits (cfg : RetryConfig) (attempt : ℤ) (draw : Draw) : Prop :=
  ∃ q : ℚ, (cfg.backoff = finite q ∨ attempt ≤ 0) ∧ grownDelay cfg attempt q < 2 ^ 63 ∧
    jitteredDelay cfg draw (clampedDelay cfg (grownDelay cfg attempt q)) < 2 ^ 63 ∧
    jitteredDelay cfg draw (clampedDelay cfg (grownDelay cfg attempt q)) < cfg.maxDelay.toInt + cfg.jitter.toInt + 1

theorem growDelay_finite (q d : ℚ) (turns : ℕ) :
    growDelay (finite q) turns (finite d) = finite (d * q ^ turns) := by
  induction turns generalizing d with
  | zero => rw [growDelay, pow_zero, mul_one]
  | succ turns ih => rw [growDelay, finite_mul, ih, pow_succ', mul_assoc]

theorem growDelay_inf {d : ℚ} (hd : 0 < d) (turns : ℕ) :
    growDelay (inf false) (turns + 1) (finite d) = inf false := by
  have hfirst : finite d * inf false = inf false := by
    change (if d = 0 then nan else inf (false != decide (d < 0))) = inf false
    rw [if_neg hd.ne', decide_eq_false hd.not_gt]
    rfl
  have hstays : ∀ n, growDelay (inf false) n (inf false) = inf false := by
    intro n
    induction n with
    | zero => rfl
    | succ n ih =>
      rw [growDelay]
      exact ih
  rw [growDelay, hfirst, hstays]

theorem nearest_duration {x : Int64} (h : 0 < x) : 0 < nearest x.toInt ∧ nearest x.toInt ≤ 2 ^ 63 := by
  have hpos : (1 : ℚ) ≤ x.toInt := by exact_mod_cast Int64.lt_iff_toInt_lt.mp h
  have hlt : (x.toInt : ℚ) ≤ 2 ^ (63 : ℤ) := by exact_mod_cast x.toInt_lt.le
  have hone : nearest 1 = 1 := by exact_mod_cast nearest_natCast (n := 1) (by norm_num)
  have hlow := nearest_mono zero_le_one hpos
  have hhigh := nearest_mono (zero_le_one.trans hpos) hlt
  rw [hone] at hlow
  rw [nearest_zpow (by norm_num)] at hhigh
  exact ⟨zero_lt_one.trans_le hlow, by exact_mod_cast hhigh⟩

theorem rounded_finite {q : ℚ} (h : 0 ≤ q) (hle : q ≤ 2 ^ 64) : (finite q).rounded = finite (nearest q) := by
  have hhigh : nearest q ≤ 2 ^ (64 : ℤ) := by
    rw [← nearest_zpow (e := 64) (by norm_num)]
    exact nearest_mono h (by exact_mod_cast hle)
  have hrange : |nearest q| < limit := by
    rw [abs_of_nonneg (nearest_nonneg h)]
    exact lt_limit (by exact_mod_cast hhigh)
  rw [rounded, if_pos hrange]

theorem toInt64_rounded {q : ℚ} (h : 2 ^ 63 ≤ q) : (finite q).rounded.toInt64 = Int64.minValue := by
  have hlow : (2 : ℚ) ^ 63 ≤ nearest q := by
    have hmono := nearest_mono (by positivity) (show (2 : ℚ) ^ (63 : ℤ) ≤ q by exact_mod_cast h)
    rw [nearest_zpow (by norm_num)] at hmono
    exact_mod_cast hmono
  rw [rounded]
  split_ifs
  · exact toInt64_of_le hlow
  · rfl

theorem jitter_rounded (h : 0 < cfg.jitter) (draw : Draw) :
    (finite draw.value * ofInt64 cfg.jitter).rounded = finite (nearest (draw.value * nearest cfg.jitter.toInt)) ∧
      0 ≤ nearest (draw.value * nearest cfg.jitter.toInt) ∧
      nearest (draw.value * nearest cfg.jitter.toInt) ≤ 2 ^ 63 := by
  obtain ⟨hpos, hle⟩ := nearest_duration h
  have hnonneg : 0 ≤ draw.value * nearest cfg.jitter.toInt := mul_nonneg draw.nonneg hpos.le
  have hmul : draw.value * nearest cfg.jitter.toInt ≤ 2 ^ 63 :=
    (mul_le_of_le_one_left hpos.le draw.lt_one.le).trans hle
  refine ⟨rounded_finite hnonneg (hmul.trans (by norm_num)), nearest_nonneg hnonneg, ?_⟩
  have hmono := nearest_mono hnonneg (show _ ≤ (2 : ℚ) ^ (63 : ℤ) by exact_mod_cast hmul)
  rw [nearest_zpow (by norm_num)] at hmono
  exact_mod_cast hmono

theorem add_jitter (draw : Draw) {d : ℚ} (hd : 0 ≤ d) (hle : d ≤ 2 ^ 63) :
    (if 0 < cfg.jitter then (finite d + (finite draw.value * ofInt64 cfg.jitter).rounded).rounded else finite d) =
      finite (jitteredDelay cfg draw d) := by
  unfold jitteredDelay
  split_ifs with hpos
  · obtain ⟨hrounded, hnonneg, hjitter⟩ := jitter_rounded hpos draw
    rw [hrounded, finite_add]
    exact rounded_finite (by linarith) (by linarith)
  · rfl

theorem jitteredDelay_nonneg (cfg : RetryConfig) (draw : Draw) {d : ℚ} (hd : 0 ≤ d) : 0 ≤ jitteredDelay cfg draw d := by
  unfold jitteredDelay
  split_ifs with hpos
  · exact nearest_nonneg (add_nonneg hd (jitter_rounded hpos draw).2.1)
  · exact hd

theorem not_in_bounds_of_min (h : retryDelay cfg attempt draw = Int64.minValue) :
    ¬ DelayInBounds cfg attempt draw := by
  rintro ⟨hnonneg, -⟩
  rw [h] at hnonneg
  exact absurd hnonneg (by decide)

theorem clampedDelay_bounds (h : 0 < cfg.maxDelay) {d : ℚ} (hd : 0 < d) (hlt : d < 2 ^ 63) :
    0 < clampedDelay cfg d ∧ clampedDelay cfg d ≤ 2 ^ 63 := by
  unfold clampedDelay
  split_ifs
  · exact nearest_duration h
  · exact ⟨hd, hlt.le⟩

theorem retryDelay_eq (draw : Draw) (h : cfg.Timed) {d : ℚ} (hd : 0 < d) (hlt : d < 2 ^ 63)
    (hgrow : growDelay cfg.backoff attempt.toNat (ofInt64 cfg.delay) = finite d) :
    retryDelay cfg attempt draw = (finite (jitteredDelay cfg draw (clampedDelay cfg d))).toInt64 := by
  have hclamp : (if 0 < cfg.maxDelay ∧ cfg.maxDelay < (finite d).toInt64 then ofInt64 cfg.maxDelay
      else finite d) = finite (clampedDelay cfg d) := by
    have hiff : (0 < cfg.maxDelay ∧ cfg.maxDelay < (finite d).toInt64) ↔ (cfg.maxDelay.toInt : ℚ) + 1 ≤ d := by
      rw [and_iff_right h.maxDelay, Int64.lt_iff_toInt_lt, toInt_toInt64 hd.le hlt, ← Int.add_one_le_iff,
        Int.le_floor]
      push_cast
      rfl
    unfold clampedDelay
    split_ifs with hword hexact hexact
    · rfl
    · exact absurd (hiff.mp hword) hexact
    · exact absurd (hiff.mpr hexact) hword
    · rfl
  obtain ⟨hclamped, hclampedLe⟩ := clampedDelay_bounds h.maxDelay hd hlt
  unfold retryDelay
  dsimp only
  rw [hgrow, hclamp, add_jitter draw hclamped.le hclampedLe]

theorem retryDelay_of_le (draw : Draw) {d : ℚ} (hle : 2 ^ 63 ≤ d)
    (hgrow : growDelay cfg.backoff attempt.toNat (ofInt64 cfg.delay) = finite d) :
    retryDelay cfg attempt draw = Int64.minValue := by
  -- the product is converted to the least integer, which is not above the maximum
  have hmin : ¬ (0 < cfg.maxDelay ∧ cfg.maxDelay < (finite d).toInt64) := by
    rintro ⟨hpos, hover⟩
    rw [toInt64_of_le hle] at hover
    exact absurd (Int64.lt_trans hpos hover) (by decide)
  unfold retryDelay
  dsimp only
  rw [hgrow, if_neg hmin]
  split_ifs with hpos
  · obtain ⟨hrounded, hnonneg, -⟩ := jitter_rounded hpos draw
    rw [hrounded, finite_add]
    exact toInt64_rounded (by linarith)
  · exact toInt64_of_le hle

theorem delayInBounds_finite (h : cfg.Timed) {d : ℚ} (hd : 0 < d)
    (hgrow : growDelay cfg.backoff attempt.toNat (ofInt64 cfg.delay) = finite d) :
    DelayInBounds cfg attempt draw ↔
      d < 2 ^ 63 ∧ jitteredDelay cfg draw (clampedDelay cfg d) < 2 ^ 63 ∧
        jitteredDelay cfg draw (clampedDelay cfg d) < cfg.maxDelay.toInt + cfg.jitter.toInt + 1 := by
  by_cases hlt : d < 2 ^ 63
  · have hrun := retryDelay_eq draw h hd hlt hgrow
    have hnonneg := jitteredDelay_nonneg cfg draw (clampedDelay_bounds h.maxDelay hd hlt).1.le
    by_cases hsum : jitteredDelay cfg draw (clampedDelay cfg d) < 2 ^ 63
    · unfold DelayInBounds
      rw [hrun, toInt_toInt64 hnonneg hsum, and_iff_right (Int.floor_nonneg.mpr hnonneg), and_iff_right hlt,
        and_iff_right hsum, ← Int.lt_add_one_iff, Int.floor_lt]
      push_cast
      rfl
    · rw [toInt64_of_le (not_lt.mp hsum)] at hrun
      exact iff_of_false (not_in_bounds_of_min hrun) (fun hfits => hsum hfits.2.1)
  · have hrun := retryDelay_of_le draw (not_lt.mp hlt) hgrow
    exact iff_of_false (not_in_bounds_of_min hrun) (fun hfits => hlt hfits.1)

theorem one_le_backoff {b : Float64} (h : 1 ≤ b) : b = inf false ∨ ∃ q, 1 ≤ q ∧ b = finite q := by
  cases b with
  | nan => exact absurd h not_le_nan
  | inf negative =>
    cases negative with
    | false => exact Or.inl rfl
    | true => exact absurd h (by decide)
  | finite q => exact Or.inr ⟨q, finite_le.mp h, rfl⟩

theorem retryDelay_inf (draw : Draw) (h : growDelay cfg.backoff attempt.toNat (ofInt64 cfg.delay) = inf false) :
    retryDelay cfg attempt draw = Int64.minValue := by
  have hmin : ¬ (0 < cfg.maxDelay ∧ cfg.maxDelay < (inf false).toInt64) := by
    rintro ⟨hpos, hover⟩
    exact absurd (Int64.lt_trans hpos hover) (by decide)
  unfold retryDelay
  dsimp only
  rw [h, if_neg hmin]
  split_ifs with hpos
  · rw [(jitter_rounded hpos draw).1]
    rfl
  · rfl

def doubling : RetryConfig :=
  { maxAttempts := 40, delay := second, backoff := .finite 2, maxDelay := 5 * second }

theorem doubling_timed : doubling.Timed := ⟨by decide, by decide, by decide, by decide⟩

def noJitter : Draw := ⟨0, le_rfl, zero_lt_one⟩

end Bounds

end EBeacon.Network
