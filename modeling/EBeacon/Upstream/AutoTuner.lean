import EBeacon.Library.Float64
import Mathlib.Data.List.Induction
import Mathlib.Tactic.Linarith

namespace EBeacon.Upstream

-- the rates are exact; `limit` and `burst` are those of the limiter
structure AutoTuner where
  limit : ℚ
  burst : ℤ
  totalCount : ℕ
  throttleCount : ℕ
  lastAdjust : ℤ
  adjustmentPeriod : ℤ
  errorRateThreshold : ℚ
  increaseFactor : ℚ
  decreaseFactor : ℚ
  minRate : ℚ
  maxRate : ℚ
  currentRate : ℚ
  deriving DecidableEq, Repr

namespace AutoTuner

structure Params where
  initialRate : ℚ
  minRate : ℚ
  maxRate : ℚ
  adjustmentPeriod : ℤ
  errorRateThreshold : ℚ
  deriving DecidableEq, Repr

def Params.defaulted (p : Params) : Params where
  initialRate := if p.initialRate ≤ 0 then 100 else p.initialRate
  minRate := if p.minRate ≤ 0 then 1 else p.minRate
  maxRate := if p.maxRate ≤ 0 then 10000 else p.maxRate
  adjustmentPeriod := if p.adjustmentPeriod ≤ 0 then 60000000000 else p.adjustmentPeriod
  errorRateThreshold := if p.errorRateThreshold ≤ 0 then 1 / 10 else p.errorRateThreshold

def burstOf (rate : ℚ) : ℤ := max (Float64.finite rate).toInt64.toInt 1

def new (p : Params) (now : ℤ) : AutoTuner where
  limit := p.defaulted.initialRate
  burst := burstOf p.defaulted.initialRate
  totalCount := 0
  throttleCount := 0
  lastAdjust := now
  adjustmentPeriod := p.defaulted.adjustmentPeriod
  errorRateThreshold := p.defaulted.errorRateThreshold
  increaseFactor := 105 / 100
  decreaseFactor := 9 / 10
  minRate := p.defaulted.minRate
  maxRate := p.defaulted.maxRate
  currentRate := p.defaulted.initialRate

def adjust (t : AutoTuner) (now : ℤ) : AutoTuner :=
  if t.totalCount = 0 then { t with lastAdjust := now }
  else
    let errRate : ℚ := t.throttleCount / t.totalCount
    let rate :=
      if t.errorRateThreshold < errRate then
        let rate := t.currentRate * t.decreaseFactor
        if rate < t.minRate then t.minRate else rate
      else
        let rate := t.currentRate * t.increaseFactor
        if t.maxRate < rate then t.maxRate else rate
    { t with
      currentRate := rate
      limit := rate
      burst := burstOf rate
      totalCount := 0
      throttleCount := 0
      lastAdjust := now }

structure Response where
  statusCode : ℤ
  time : ℤ
  adjustTime : ℤ
  deriving DecidableEq, Repr

def recordResponse (t : AutoTuner) (r : Response) : AutoTuner :=
  let t := { t with
    totalCount := t.totalCount + 1
    throttleCount := if r.statusCode = 429 then t.throttleCount + 1 else t.throttleCount }
  if t.adjustmentPeriod ≤ r.time - t.lastAdjust then t.adjust r.adjustTime else t

structure Logged where
  tuner : AutoTuner
  pending : List Response

def Logged.record (l : Logged) (r : Response) : Logged where
  tuner := l.tuner.recordResponse r
  pending := if l.tuner.adjustmentPeriod ≤ r.time - l.tuner.lastAdjust then [] else l.pending ++ [r]

def after (p : Params) (now : ℤ) (responses : List Response) : Logged :=
  responses.foldl Logged.record ⟨new p now, []⟩

structure Tuned (l : Logged) : Prop where
  current : l.tuner.minRate ≤ l.tuner.currentRate ∧ l.tuner.currentRate ≤ l.tuner.maxRate
  limit : l.tuner.minRate ≤ l.tuner.limit ∧ l.tuner.limit ≤ l.tuner.maxRate
  burst : 1 ≤ l.tuner.burst
  total : l.tuner.totalCount = l.pending.length
  throttled : l.tuner.throttleCount = l.pending.countP (fun r => r.statusCode = 429)

def Params.InitialInRange (p : Params) : Prop :=
  p.defaulted.minRate ≤ p.defaulted.initialRate ∧ p.defaulted.initialRate ≤ p.defaulted.maxRate

theorem one_le_burstOf (rate : ℚ) : 1 ≤ burstOf rate := le_max_right _ _

theorem adjust_eq {t : AutoTuner} (h : t.totalCount ≠ 0) (now : ℤ) : ∃ rate,
    t.adjust now = { t with
      currentRate := rate, limit := rate, burst := burstOf rate, totalCount := 0, throttleCount := 0,
      lastAdjust := now } ∧
    (rate = max (t.currentRate * t.decreaseFactor) t.minRate ∨
      rate = min (t.currentRate * t.increaseFactor) t.maxRate) := by
  unfold adjust
  rw [if_neg h]
  refine ⟨_, rfl, ?_⟩
  dsimp only
  split_ifs with hrate hlow hhigh
  · exact Or.inl (max_eq_right hlow.le).symm
  · exact Or.inl (max_eq_left (not_lt.mp hlow)).symm
  · exact Or.inr (min_eq_right hhigh.le).symm
  · exact Or.inr (min_eq_left (not_lt.mp hhigh)).symm

theorem recordResponse_cases (t : AutoTuner) (r : Response) :
    (t.adjustmentPeriod ≤ r.time - t.lastAdjust ∧ ∃ rate,
      t.recordResponse r = { t with
        currentRate := rate, limit := rate, burst := burstOf rate, totalCount := 0, throttleCount := 0,
        lastAdjust := r.adjustTime } ∧
      (rate = max (t.currentRate * t.decreaseFactor) t.minRate ∨
        rate = min (t.currentRate * t.increaseFactor) t.maxRate)) ∨
    (¬ t.adjustmentPeriod ≤ r.time - t.lastAdjust ∧
      t.recordResponse r = { t with
        totalCount := t.totalCount + 1
        throttleCount := if r.statusCode = 429 then t.throttleCount + 1 else t.throttleCount }) := by
  unfold recordResponse
  by_cases hdue : t.adjustmentPeriod ≤ r.time - t.lastAdjust
  · obtain ⟨rate, heq, hrate⟩ := adjust_eq (t := { t with
      totalCount := t.totalCount + 1
      throttleCount := if r.statusCode = 429 then t.throttleCount + 1 else t.throttleCount })
      (Nat.succ_ne_zero _) r.adjustTime
    exact Or.inl ⟨hdue, rate, by rw [if_pos hdue, heq], hrate⟩
  · exact Or.inr ⟨hdue, if_neg hdue⟩

structure Made (t : AutoTuner) : Prop where
  increase : t.increaseFactor = 105 / 100
  decrease : t.decreaseFactor = 9 / 10
  positive : 0 < t.minRate

theorem Params.defaulted_minRate_pos (p : Params) : 0 < p.defaulted.minRate := by
  unfold Params.defaulted
  dsimp only
  split_ifs with hle
  · exact zero_lt_one
  · exact not_le.mp hle

theorem made_new (p : Params) (now : ℤ) : Made (new p now) := ⟨rfl, rfl, p.defaulted_minRate_pos⟩

theorem Made.record {t : AutoTuner} (h : Made t) (r : Response) : Made (t.recordResponse r) := by
  rcases recordResponse_cases t r with ⟨-, rate, heq, -⟩ | ⟨-, heq⟩
  · rw [heq]
    exact ⟨h.increase, h.decrease, h.positive⟩
  · rw [heq]
    exact ⟨h.increase, h.decrease, h.positive⟩

theorem adjusted_in_range {t : AutoTuner} (hmade : Made t)
    (h : t.minRate ≤ t.currentRate ∧ t.currentRate ≤ t.maxRate) {rate : ℚ}
    (hrate : rate = max (t.currentRate * t.decreaseFactor) t.minRate ∨
      rate = min (t.currentRate * t.increaseFactor) t.maxRate) :
    t.minRate ≤ rate ∧ rate ≤ t.maxRate := by
  have hpos := hmade.positive
  -- a decrease is not clamped at the maximum, nor an increase at the minimum
  rcases hrate with rfl | rfl
  · refine ⟨le_max_right _ _, max_le ?_ (h.1.trans h.2)⟩
    rw [hmade.decrease]
    linarith
  · refine ⟨le_min ?_ (h.1.trans h.2), min_le_right _ _⟩
    rw [hmade.increase]
    linarith

theorem Tuned.record {l : Logged} (h : Tuned l) (hmade : Made l.tuner) (r : Response) : Tuned (l.record r) := by
  unfold Logged.record
  rcases recordResponse_cases l.tuner r with ⟨hdue, rate, heq, hrate⟩ | ⟨hdue, heq⟩
  · have hrange := adjusted_in_range hmade h.current hrate
    rw [heq, if_pos hdue]
    exact ⟨hrange, hrange, one_le_burstOf rate, rfl, rfl⟩
  · rw [heq, if_neg hdue]
    refine ⟨h.current, h.limit, h.burst, ?_, ?_⟩
    · rw [List.length_append, ← h.total]
      rfl
    · rw [List.countP_append, ← h.throttled]
      split_ifs with hstatus <;> simp [hstatus]

theorem after_concat (p : Params) (now : ℤ) (responses : List Response) (r : Response) :
    after p now (responses ++ [r]) = (after p now responses).record r := by
  unfold after
  rw [List.foldl_append]
  rfl

theorem made_after (p : Params) (now : ℤ) (responses : List Response) : Made (after p now responses).tuner := by
  induction responses using List.reverseRecOn with
  | nil => exact made_new p now
  | append_singleton responses r ih =>
    rw [after_concat]
    exact ih.record r

/-- The tuner never brings an initial rate into its range by itself. -/
theorem tuned_iff (p : Params) (now : ℤ) :
    (∀ responses, Tuned (after p now responses)) ↔ p.InitialInRange := by
  constructor
  · intro h
    exact (h []).current
  · intro hinitial responses
    induction responses using List.reverseRecOn with
    | nil => exact ⟨hinitial, hinitial, one_le_burstOf _, rfl, rfl⟩
    | append_singleton responses r ih =>
      rw [after_concat]
      exact ih.record (made_after p now responses) r

def planOf25 : Params := ⟨0, 0, 25, 0, 0⟩

theorem initial_above_maximum : (after planOf25 0 []).tuner.currentRate = 100 ∧
    (after planOf25 0 [⟨429, 60000000000, 60000000000⟩]).tuner.limit = 90 ∧
    ¬ ∀ responses, Tuned (after planOf25 0 responses) := by
  refine ⟨by decide +kernel, by decide +kernel, fun h => ?_⟩
  exact absurd (h []).current.2 (by decide +kernel)

end AutoTuner

end EBeacon.Upstream
