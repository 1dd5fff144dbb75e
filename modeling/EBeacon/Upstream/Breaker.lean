import Mathlib.Data.Int.Order.Basic

namespace EBeacon.Upstream

inductive CBState
  | closed
  | opened
  | halfOpen
  deriving DecidableEq, Repr

structure CircuitBreakerConfig where
  failureThreshold : ℕ
  successThreshold : ℕ
  halfOpenAfter : ℤ
  deriving DecidableEq, Repr

/-- The breaker fields of an upstream. Times are nanoseconds of the monotonic clock and
`cbLastErr` is `none` for the zero `time.Time`. -/
structure Breaker where
  cbState : CBState
  cbFails : ℕ
  cbSuccess : ℕ
  cbLastErr : Option ℤ
  cbProbeInFlight : Bool
  cbProbeGen : ℕ
  cbEpoch : ℕ
  deriving DecidableEq, Repr

structure CBToken where
  probe : Bool
  gen : ℕ
  epoch : ℕ
  deriving DecidableEq, Repr

inductive CBOutcome
  | success
  | failure
  | release
  deriving DecidableEq, Repr

namespace Breaker

def new : Breaker :=
  ⟨.closed, 0, 0, none, false, 0, 0⟩

def cbTransitionLocked (b : Breaker) (s : CBState) : Breaker :=
  if b.cbState ≠ s then { b with cbState := s, cbEpoch := b.cbEpoch + 1 } else b

def cbOpenLocked (b : Breaker) : Breaker :=
  { b.cbTransitionLocked .opened with cbSuccess := 0 }

def cbRecordFailureLocked (cfg : CircuitBreakerConfig) (b : Breaker) (now : ℤ) : Breaker :=
  let b := { b with cbFails := b.cbFails + 1, cbLastErr := some now }
  if cfg.failureThreshold ≤ b.cbFails then b.cbOpenLocked else b

def cbFailAndOpenLocked (b : Breaker) (now : ℤ) : Breaker :=
  { b with cbFails := b.cbFails + 1, cbLastErr := some now }.cbOpenLocked

def settleProbe (cfg : CircuitBreakerConfig) (b : Breaker) (outcome : CBOutcome) (now : ℤ) : Breaker :=
  let b := { b with cbProbeInFlight := false }
  match outcome with
  | .success =>
    let b := { b with cbSuccess := b.cbSuccess + 1 }
    if cfg.successThreshold ≤ b.cbSuccess then
      { b.cbTransitionLocked .closed with cbFails := 0 }
    else b
  | .failure => b.cbFailAndOpenLocked now
  | .release => b

def settle (cfg : CircuitBreakerConfig) (b : Breaker) (t : CBToken) (outcome : CBOutcome)
    (now : ℤ) : Breaker :=
  if t.probe then
    if !b.cbProbeInFlight || b.cbProbeGen ≠ t.gen then b else b.settleProbe cfg outcome now
  else if b.cbEpoch ≠ t.epoch || b.cbState ≠ .closed then b
  else match outcome with
    | .success => { b with cbFails := 0 }
    | .failure => b.cbRecordFailureLocked cfg now
    | .release => b

def cbFailure (cfg : CircuitBreakerConfig) (b : Breaker) (now : ℤ) : Breaker :=
  match b.cbState with
  | .closed => b.cbRecordFailureLocked cfg now
  | .halfOpen => if !b.cbProbeInFlight then b.cbFailAndOpenLocked now else b
  | .opened => b

def recoveryDue (cfg : CircuitBreakerConfig) (b : Breaker) (now : ℤ) : Bool :=
  match b.cbLastErr with
  | none => true
  | some last => cfg.halfOpenAfter ≤ now - last

def cbGrantProbeLocked (b : Breaker) : CBToken × Breaker :=
  (⟨true, b.cbProbeGen + 1, b.cbEpoch⟩,
    { b with cbProbeInFlight := true, cbProbeGen := b.cbProbeGen + 1 })

def cbTryAcquire (cfg : CircuitBreakerConfig) (b : Breaker) (now : ℤ) : Option CBToken × Breaker :=
  match b.cbState with
  | .opened =>
    if b.recoveryDue cfg now then
      let (t, b) := { b.cbTransitionLocked .halfOpen with cbSuccess := 0 }.cbGrantProbeLocked
      (some t, b)
    else (some ⟨false, 0, b.cbEpoch⟩, b)
  | .halfOpen =>
    if b.cbProbeInFlight then (none, b)
    else
      let (t, b) := b.cbGrantProbeLocked
      (some t, b)
  | .closed => (some ⟨false, 0, b.cbEpoch⟩, b)

def cbCanRoute (cfg : CircuitBreakerConfig) (b : Breaker) (now : ℤ) : Bool :=
  match b.cbState with
  | .opened => b.recoveryDue cfg now
  | .halfOpen => !b.cbProbeInFlight
  | .closed => true

theorem settle_probe_stale (cfg : CircuitBreakerConfig) (b : Breaker) (t : CBToken)
    (o : CBOutcome) (now : ℤ) (hp : t.probe = true)
    (h : ¬(b.cbProbeInFlight = true ∧ b.cbProbeGen = t.gen)) : b.settle cfg t o now = b := by
  unfold settle
  rw [if_pos hp, if_pos]
  simpa [imp_iff_not_or] using h

theorem settle_probe_live (cfg : CircuitBreakerConfig) (b : Breaker) (t : CBToken)
    (o : CBOutcome) (now : ℤ) (hp : t.probe = true) (hf : b.cbProbeInFlight = true)
    (hg : b.cbProbeGen = t.gen) : b.settle cfg t o now = b.settleProbe cfg o now := by
  simp [settle, hp, hf, hg]

theorem settle_plain_stale (cfg : CircuitBreakerConfig) (b : Breaker) (t : CBToken)
    (o : CBOutcome) (now : ℤ) (hp : t.probe = false)
    (h : ¬(b.cbState = .closed ∧ b.cbEpoch = t.epoch)) : b.settle cfg t o now = b := by
  unfold settle
  rw [if_neg (by simp [hp]), if_pos]
  simp only [ne_eq, decide_not, Bool.or_eq_true, Bool.not_eq_true',
    decide_eq_false_iff_not, ← not_and_or]
  exact fun hh => h hh.symm

theorem settle_plain_current (cfg : CircuitBreakerConfig) (b : Breaker) (t : CBToken)
    (o : CBOutcome) (now : ℤ) (hp : t.probe = false) (hs : b.cbState = .closed)
    (he : b.cbEpoch = t.epoch) : b.settle cfg t o now =
      match o with
      | .success => { b with cbFails := 0 }
      | .failure => b.cbRecordFailureLocked cfg now
      | .release => b := by
  simp [settle, hp, hs, he]

theorem tryAcquire_none (cfg : CircuitBreakerConfig) (b : Breaker) (now : ℤ) :
    (b.cbTryAcquire cfg now).1 = none ↔ b.cbState = .halfOpen ∧ b.cbProbeInFlight = true := by
  cases hs : b.cbState with
  | closed => simp [cbTryAcquire, hs]
  | opened => by_cases hd : b.recoveryDue cfg now <;> simp [cbTryAcquire, hs, hd]
  | halfOpen => by_cases hf : b.cbProbeInFlight <;> simp [cbTryAcquire, hs, hf]

end Breaker

end EBeacon.Upstream
