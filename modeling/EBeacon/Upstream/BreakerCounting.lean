import EBeacon.Upstream.BreakerInvariant

namespace EBeacon.Upstream.BreakerRun

def currentState : List Event → CBState
  | [] => .closed
  | e :: _ => e.post

def settlesCurrent (h : List Event) (o : CBOutcome) : Op → Bool
  | .settle i o' => o = o' && currentState h = .closed && unchangedSince h i
  | _ => false

def countedSuccess (h : List Event) (op : Op) : Bool := settlesCurrent h .success op

def countedFailure (h : List Event) (op : Op) : Bool :=
  settlesCurrent h .failure op || (op = .failure && currentState h = .closed)

def settlesProbe (h : List Event) (o : CBOutcome) : Op → Bool
  | .settle i o' => o = o' && live h i
  | _ => false

def probeInFlight (h : List Event) : Bool :=
  (latestProbe h).any (fun i => !settled h i)

def failuresSince : List Event → ℕ
  | [] => 0
  | e :: h =>
    if (e.pre ≠ .closed ∧ e.post = .closed) ∨ countedSuccess h e.op then 0
    else if countedFailure h e.op then failuresSince h + 1
    else failuresSince h

def successesSince : List Event → ℕ
  | [] => 0
  | e :: h =>
    if e.pre = .opened ∧ e.post = .halfOpen then 0
    else if settlesProbe h .success e.op then successesSince h + 1
    else successesSince h

def openedAt : List Event → Option ℤ
  | [] => none
  | e :: h => if e.pre ≠ .opened ∧ e.post = .opened then some e.time else openedAt h

structure CountInv (cfg : CircuitBreakerConfig) (s : Sys) : Prop where
  state : currentState s.history = s.cb.cbState
  closed : s.cb.cbState = .closed →
    s.cb.cbFails = failuresSince s.history ∧ s.cb.cbFails < cfg.failureThreshold
  opened : s.cb.cbState = .opened → s.cb.cbLastErr = openedAt s.history ∧ s.cb.cbLastErr ≠ none
  halfOpen : s.cb.cbState = .halfOpen →
    s.cb.cbSuccess = successesSince s.history ∧ s.cb.cbSuccess < cfg.successThreshold

theorem no_probe {s : Sys} (h : Inv s) (hstate : s.cb.cbState ≠ .halfOpen) : s.cb.cbProbeInFlight = false := by
  rw [← Bool.not_eq_true]
  exact fun hf => hstate (h.probing hf)

theorem closed_effect {cfg : CircuitBreakerConfig} {s s' : Sys} {op : Op} {now : ℤ} (h : Inv s)
    (hst : currentState s.history = s.cb.cbState) (hc : s.cb.cbState = .closed)
    (hn : next cfg s (op, now) = some s') :
    s'.cb = if countedSuccess s.history op then { s.cb with cbFails := 0 }
      else if countedFailure s.history op then s.cb.cbRecordFailureLocked cfg now else s.cb := by
  obtain ⟨cb, tok, rfl, heff⟩ := next_cases hn
  change cb = _
  have hf : s.cb.cbProbeInFlight = false := no_probe h (by rw [hc]; decide)
  rw [hc] at hst
  cases op with
  | tryAcquire =>
    simp only [Effect, Breaker.cbTryAcquire, hc, Prod.mk.injEq] at heff
    simp [countedSuccess, countedFailure, settlesCurrent, heff.2]
  | settle i o =>
    obtain ⟨_, t, ht, rfl⟩ := heff
    have htok := h.token i t ht
    cases hp : t.probe with
    | true =>
      have hu : unchangedSince s.history i = false := by
        by_contra hu
        have hs := htok.same (by simpa using hu)
        have hk := htok.kind
        simp [hp, isProbe, hs, hc] at hk
      rw [Breaker.settle_probe_stale cfg s.cb t o now hp (by simp [hf])]
      simp [countedSuccess, countedFailure, settlesCurrent, hu]
    | false =>
      cases hu : unchangedSince s.history i with
      | false =>
        have he : ¬s.cb.cbEpoch = t.epoch := by
          intro he
          simp [htok.epoch_iff.mpr he.symm] at hu
        rw [Breaker.settle_plain_stale cfg s.cb t o now hp (by simp [he])]
        simp [countedSuccess, countedFailure, settlesCurrent, hu]
      | true =>
        rw [Breaker.settle_plain_current cfg s.cb t o now hp hc (htok.epoch_iff.mp hu).symm]
        cases o <;> simp [countedSuccess, countedFailure, settlesCurrent, hu, hst]
  | failure =>
    simp [heff.2, Breaker.cbFailure, hc, countedSuccess, countedFailure, settlesCurrent, hst]
  | canRoute => simp [heff.2, countedSuccess, countedFailure, settlesCurrent]

theorem opened_effect {cfg : CircuitBreakerConfig} {s s' : Sys} {op : Op} {now : ℤ} (h : Inv s)
    (hc : s.cb.cbState = .opened) (hn : next cfg s (op, now) = some s') :
    s'.cb = if op = .tryAcquire ∧ s.cb.recoveryDue cfg now then
        { { s.cb.cbTransitionLocked .halfOpen with cbSuccess := 0 } with
          cbProbeInFlight := true, cbProbeGen := s.cb.cbProbeGen + 1 }
      else s.cb := by
  obtain ⟨cb, tok, rfl, heff⟩ := next_cases hn
  change cb = _
  have hf : s.cb.cbProbeInFlight = false := no_probe h (by rw [hc]; decide)
  cases op with
  | tryAcquire =>
    cases hd : s.cb.recoveryDue cfg now with
    | false =>
      simp only [Effect, Breaker.cbTryAcquire, hc, hd, Bool.false_eq_true, if_false, Prod.mk.injEq] at heff
      simp [heff.2]
    | true =>
      simp only [Effect, Breaker.cbTryAcquire, hc, hd, if_true, Breaker.cbGrantProbeLocked,
        Prod.mk.injEq] at heff
      simp [← heff.2]
  | settle i o =>
    obtain ⟨_, t, ht, rfl⟩ := heff
    cases hp : t.probe with
    | true => simp [Breaker.settle_probe_stale cfg s.cb t o now hp (by simp [hf])]
    | false => simp [Breaker.settle_plain_stale cfg s.cb t o now hp (by simp [hc])]
  | failure => simp [heff.2, Breaker.cbFailure, hc]
  | canRoute => simp [heff.2]

theorem probeInFlight_eq {s : Sys} (h : Inv s) :
    probeInFlight s.history = s.cb.cbProbeInFlight := by
  rw [Bool.eq_iff_iff]
  constructor
  · intro hp
    cases hl : latestProbe s.history with
    | none => simp [probeInFlight, hl] at hp
    | some i =>
      obtain ⟨t, ht, hprobe⟩ := h.latest i hl
      have hs : settled s.history i = false := by simpa [probeInFlight, hl] using hp
      exact (((h.token i t ht).pending hprobe).mp hs).1
  · intro hf
    obtain ⟨i, t, ht, hp, hg⟩ := h.flying hf
    have hl := ((h.token i t ht).latest hp).mpr hg
    have hs := ((h.token i t ht).pending hp).mpr ⟨hf, hg.symm⟩
    simp [probeInFlight, hl, hs]

theorem live_iff {s : Sys} (h : Inv s) {i : ℕ} {t : CBToken} (hi : s.tokens[i]? = some t)
    (hp : t.probe = true) :
    live s.history i = true ↔ s.cb.cbProbeInFlight = true ∧ s.cb.cbProbeGen = t.gen := by
  have hpending := (h.token i t hi).pending hp
  have hlatest := (h.token i t hi).latest hp
  simp only [live, Bool.and_eq_true, decide_eq_true_eq, Bool.not_eq_true', hpending, hlatest]
  exact ⟨fun hh => hh.2, fun hh => ⟨hh.2.symm, hh⟩⟩

theorem live_probe {s : Sys} (h : Inv s) {i : ℕ} {t : CBToken} (hi : s.tokens[i]? = some t)
    (hl : live s.history i = true) : t.probe = true := by
  simp only [live, Bool.and_eq_true, decide_eq_true_eq] at hl
  obtain ⟨t', ht', hp⟩ := h.latest i hl.1
  obtain rfl : t = t' := by simpa [hi] using ht'
  exact hp

theorem halfOpen_effect {cfg : CircuitBreakerConfig} {s s' : Sys} {op : Op} {now : ℤ} (h : Inv s)
    (hc : s.cb.cbState = .halfOpen) (hn : next cfg s (op, now) = some s') :
    if settlesProbe s.history .success op then s'.cb = s.cb.settleProbe cfg .success now
    else if settlesProbe s.history .failure op then s'.cb = s.cb.settleProbe cfg .failure now
    else if op = .failure ∧ probeInFlight s.history = false then
      s'.cb = s.cb.cbFailAndOpenLocked now
    else s'.cb.cbState = .halfOpen ∧ s'.cb.cbSuccess = s.cb.cbSuccess := by
  obtain ⟨cb, tok, rfl, heff⟩ := next_cases hn
  simp only [Sys.record_cb]
  cases op with
  | tryAcquire =>
    simp only [settlesProbe, reduceCtorEq, false_and, if_false, Bool.false_eq_true]
    cases hf : s.cb.cbProbeInFlight with
    | true =>
      simp only [Effect, Breaker.cbTryAcquire, hc, hf, if_true, Prod.mk.injEq] at heff
      exact heff.2 ▸ ⟨hc, rfl⟩
    | false =>
      simp only [Effect, Breaker.cbTryAcquire, hc, hf, Bool.false_eq_true, if_false,
        Breaker.cbGrantProbeLocked, Prod.mk.injEq] at heff
      exact heff.2 ▸ ⟨rfl, rfl⟩
  | settle i o =>
    obtain ⟨_, t, ht, rfl⟩ := heff
    simp only [settlesProbe, reduceCtorEq, false_and, if_false]
    cases hl : live s.history i with
    | true =>
      have hp := live_probe h ht hl
      obtain ⟨hf, hg⟩ := (live_iff h ht hp).mp hl
      rw [Breaker.settle_probe_live cfg s.cb t o now hp hf hg]
      cases o <;> simp [Breaker.settleProbe, hc]
    | false =>
      have hs : s.cb.settle cfg t o now = s.cb := by
        cases hp : t.probe with
        | true =>
          apply Breaker.settle_probe_stale cfg s.cb t o now hp
          rw [← live_iff h ht hp, hl]
          simp
        | false => exact Breaker.settle_plain_stale cfg s.cb t o now hp (by simp [hc])
      simp [hs, hc]
  | failure =>
    simp only [settlesProbe, probeInFlight_eq h, Bool.false_eq_true, if_false, true_and]
    obtain ⟨_, rfl⟩ := heff
    cases hf : s.cb.cbProbeInFlight with
    | true => simp [Breaker.cbFailure, hc, hf]
    | false => simp [Breaker.cbFailure, hc, hf]
  | canRoute => simp [settlesProbe, heff.2, hc]

theorem recordFailure_state (cfg : CircuitBreakerConfig) (b : Breaker) (now : ℤ)
    (hc : b.cbState = .closed) : (b.cbRecordFailureLocked cfg now).cbState =
      if cfg.failureThreshold ≤ b.cbFails + 1 then .opened else .closed := by
  by_cases ht : cfg.failureThreshold ≤ b.cbFails + 1 <;>
    simp [Breaker.cbRecordFailureLocked, Breaker.cbOpenLocked, ht, hc]

theorem counted_exclusive (h : List Event) (op : Op) (hs : countedSuccess h op = true) :
    countedFailure h op = false := by
  cases op with
  | settle i o => cases o <;> simp_all [countedSuccess, countedFailure, settlesCurrent]
  | _ => simp [countedSuccess, settlesCurrent] at hs

theorem settlesProbe_exclusive (h : List Event) (op : Op)
    (hs : settlesProbe h .success op = true) : settlesProbe h .failure op = false ∧ op ≠ .failure := by
  cases op with
  | settle i o => cases o <;> simp_all [settlesProbe]
  | _ => simp [settlesProbe] at hs

theorem closed_law {cfg : CircuitBreakerConfig} {s s' : Sys} {op : Op} {now : ℤ} (h : Inv s)
    (hc : CountInv cfg s) (hn : next cfg s (op, now) = some s') (hs : s.cb.cbState = .closed) :
    s'.cb.cbState ≠ .halfOpen ∧
      (s'.cb.cbState = .opened ↔ countedFailure s.history op = true ∧
        failuresSince s.history + 1 = cfg.failureThreshold) := by
  obtain ⟨hfails, hlt⟩ := hc.closed hs
  rw [closed_effect h hc.state hs hn]
  cases hsucc : countedSuccess s.history op with
  | true => simp [hs, counted_exclusive _ _ hsucc]
  | false =>
    cases hfail : countedFailure s.history op with
    | false => simp [hs]
    | true =>
      simp only [Bool.false_eq_true, if_false, if_true, recordFailure_state cfg s.cb now hs]
      by_cases ht : cfg.failureThreshold ≤ s.cb.cbFails + 1
      · have he : failuresSince s.history + 1 = cfg.failureThreshold := by omega
        simp [ht, he]
      · have he : failuresSince s.history + 1 ≠ cfg.failureThreshold := by omega
        simp [ht, he]

theorem opened_law {cfg : CircuitBreakerConfig} {s s' : Sys} {op : Op} {now : ℤ} (h : Inv s)
    (hc : CountInv cfg s) (hn : next cfg s (op, now) = some s') (hs : s.cb.cbState = .opened) :
    s'.cb.cbState ≠ .closed ∧
      (s'.cb.cbState = .halfOpen ↔ op = .tryAcquire ∧
        ∃ t, openedAt s.history = some t ∧ cfg.halfOpenAfter ≤ now - t) := by
  obtain ⟨hlast, hsome⟩ := hc.opened hs
  have hdue : s.cb.recoveryDue cfg now = true ↔
      ∃ t, openedAt s.history = some t ∧ cfg.halfOpenAfter ≤ now - t := by
    rw [← hlast]
    cases hl : s.cb.cbLastErr with
    | none => exact absurd hl hsome
    | some t => simp [Breaker.recoveryDue, hl]
  rw [opened_effect h hs hn, ← hdue]
  by_cases hop : op = .tryAcquire ∧ s.cb.recoveryDue cfg now = true
  · simp [hop]
  · simp [hop, hs]

theorem halfOpen_law {cfg : CircuitBreakerConfig} {s s' : Sys} {op : Op} {now : ℤ} (h : Inv s)
    (hc : CountInv cfg s) (hn : next cfg s (op, now) = some s') (hs : s.cb.cbState = .halfOpen) :
    (s'.cb.cbState = .closed ↔ settlesProbe s.history .success op = true ∧
        successesSince s.history + 1 = cfg.successThreshold) ∧
      (s'.cb.cbState = .opened ↔ settlesProbe s.history .failure op = true ∨
        (op = .failure ∧ probeInFlight s.history = false)) := by
  obtain ⟨hcount, hlt⟩ := hc.halfOpen hs
  have heff := halfOpen_effect h hs hn
  cases hsucc : settlesProbe s.history .success op with
  | true =>
    obtain ⟨hfail, hop⟩ := settlesProbe_exclusive _ _ hsucc
    simp only [hsucc, if_true] at heff
    rw [heff, hfail]
    by_cases ht : cfg.successThreshold ≤ s.cb.cbSuccess + 1
    · have he : successesSince s.history + 1 = cfg.successThreshold := by omega
      simp [Breaker.settleProbe, ht, he, hop]
    · have he : successesSince s.history + 1 ≠ cfg.successThreshold := by omega
      simp [Breaker.settleProbe, ht, he, hop, hs]
  | false =>
    simp only [hsucc, Bool.false_eq_true, if_false] at heff
    cases hfail : settlesProbe s.history .failure op with
    | true =>
      simp only [hfail, if_true] at heff
      simp [heff, Breaker.settleProbe, Breaker.cbFailAndOpenLocked, Breaker.cbOpenLocked]
    | false =>
      simp only [hfail, Bool.false_eq_true, if_false] at heff
      by_cases hop : op = .failure ∧ probeInFlight s.history = false
      · simp only [hop, and_self, if_true] at heff
        simp [heff, hop, Breaker.cbFailAndOpenLocked, Breaker.cbOpenLocked]
      · simp only [hop, if_false] at heff
        simp [heff.1, hop]

theorem CountInv.init (cfg : CircuitBreakerConfig) (hF : 1 ≤ cfg.failureThreshold) (clock : ℤ) :
    CountInv cfg (.init clock) where
  state := rfl
  closed := fun _ => ⟨rfl, hF⟩
  opened := by simp [Sys.init, Breaker.new]
  halfOpen := by simp [Sys.init, Breaker.new]

theorem next_history {cfg : CircuitBreakerConfig} {s s' : Sys} {op : Op} {now : ℤ}
    (hn : next cfg s (op, now) = some s') :
    ∃ g, s'.history = ⟨op, now, s.cb.cbState, s'.cb.cbState, g⟩ :: s.history := by
  obtain ⟨cb, tok, rfl, _⟩ := next_cases hn
  exact ⟨_, rfl⟩

theorem CountInv.step_closed {cfg : CircuitBreakerConfig} {s s' : Sys} {op : Op} {now : ℤ}
    (h : Inv s) (hF : 1 ≤ cfg.failureThreshold) (hc : CountInv cfg s)
    (hn : next cfg s (op, now) = some s') (hs : s.cb.cbState = .closed) : CountInv cfg s' := by
  obtain ⟨hfails, hlt⟩ := hc.closed hs
  obtain ⟨g, hh⟩ := next_history hn
  have heff := closed_effect h hc.state hs hn
  have hlaw := closed_law h hc hn hs
  refine ⟨by rw [hh]; rfl, ?_, ?_, fun hs' => absurd hs' hlaw.1⟩
  · intro hs'
    simp only [hh, failuresSince, hs, hs', ne_eq, not_true, false_and, false_or]
    cases hsucc : countedSuccess s.history op with
    | true =>
      simp only [hsucc, if_true] at heff
      simp only [heff, if_true, true_and]
      exact hF
    | false =>
      simp only [hsucc, Bool.false_eq_true, if_false] at heff
      simp only [Bool.false_eq_true, if_false]
      cases hfail : countedFailure s.history op with
      | true =>
        have hne : failuresSince s.history + 1 ≠ cfg.failureThreshold := by
          intro he
          have hopen := hlaw.2.mpr ⟨hfail, he⟩
          simp [hs'] at hopen
        simp only [hfail, if_true] at heff
        have hkeep : ¬cfg.failureThreshold ≤ s.cb.cbFails + 1 := by omega
        simp only [heff, Breaker.cbRecordFailureLocked, hkeep, if_false, if_true]
        omega
      | false =>
        simp only [hfail, Bool.false_eq_true, if_false] at heff
        simp only [heff, Bool.false_eq_true, if_false]
        exact ⟨hfails, hlt⟩
  · intro hs'
    have hfail := (hlaw.2.mp hs').1
    have hsucc : countedSuccess s.history op = false := by
      by_contra hsucc
      simp [counted_exclusive _ _ (by simpa using hsucc)] at hfail
    simp only [hsucc, hfail, Bool.false_eq_true, if_false, if_true] at heff
    have hlast : s'.cb.cbLastErr = some now := by
      rw [heff]
      by_cases ht : cfg.failureThreshold ≤ s.cb.cbFails + 1 <;>
        simp [Breaker.cbRecordFailureLocked, Breaker.cbOpenLocked, Breaker.cbTransitionLocked, ht, hs]
    simp [hh, openedAt, hs, hs', hlast]

theorem CountInv.step_opened {cfg : CircuitBreakerConfig} {s s' : Sys} {op : Op} {now : ℤ}
    (h : Inv s) (hS : 1 ≤ cfg.successThreshold) (hc : CountInv cfg s)
    (hn : next cfg s (op, now) = some s') (hs : s.cb.cbState = .opened) : CountInv cfg s' := by
  obtain ⟨g, hh⟩ := next_history hn
  have heff := opened_effect h hs hn
  have hlaw := opened_law h hc hn hs
  refine ⟨by rw [hh]; rfl, fun hs' => absurd hs' hlaw.1, ?_, ?_⟩
  · intro hs'
    have hsame : s'.cb = s.cb := by
      split at heff
      · simp [heff] at hs'
      · exact heff
    simp only [hh, openedAt, hs, ne_eq, not_true, false_and, if_false]
    exact hsame ▸ hc.opened hs
  · intro hs'
    simp only [hh, successesSince, hs, hs', and_self, if_true]
    split at heff
    · simp only [heff]
      exact ⟨trivial, hS⟩
    · simp [heff, hs] at hs'

theorem CountInv.step_halfOpen {cfg : CircuitBreakerConfig} {s s' : Sys} {op : Op} {now : ℤ}
    (h : Inv s) (hF : 1 ≤ cfg.failureThreshold) (hc : CountInv cfg s)
    (hn : next cfg s (op, now) = some s') (hs : s.cb.cbState = .halfOpen) : CountInv cfg s' := by
  obtain ⟨hcount, hlt⟩ := hc.halfOpen hs
  obtain ⟨g, hh⟩ := next_history hn
  have heff := halfOpen_effect h hs hn
  have hlaw := halfOpen_law h hc hn hs
  refine ⟨by rw [hh]; rfl, ?_, ?_, ?_⟩
  · intro hs'
    obtain ⟨hsucc, hthreshold⟩ := hlaw.1.mp hs'
    have ht : cfg.successThreshold ≤ s.cb.cbSuccess + 1 := by omega
    simp only [hsucc, if_true] at heff
    simp only [hh, failuresSince, hs, heff, Breaker.settleProbe, ht, if_true]
    simpa using Nat.lt_of_lt_of_le Nat.zero_lt_one hF
  · intro hs'
    have hlast : s'.cb.cbLastErr = some now := by
      have hsucc : settlesProbe s.history .success op = false := by
        by_contra hsucc
        have hex := settlesProbe_exclusive _ _ (by simpa using hsucc)
        rcases hlaw.2.mp hs' with hfail | hfail
        · simp [hex.1] at hfail
        · exact hex.2 hfail.1
      simp only [hsucc, Bool.false_eq_true, if_false] at heff
      rcases hlaw.2.mp hs' with hfail | hfail
      · simp only [hfail, if_true] at heff
        simp [heff, Breaker.settleProbe, Breaker.cbFailAndOpenLocked, Breaker.cbOpenLocked,
          Breaker.cbTransitionLocked, hs]
      · have hprobe : settlesProbe s.history .failure op = false := by simp [settlesProbe, hfail.1]
        rw [hprobe] at heff
        simp only [hfail, Bool.false_eq_true, if_false, and_self, if_true] at heff
        simp [heff, Breaker.cbFailAndOpenLocked, Breaker.cbOpenLocked, Breaker.cbTransitionLocked, hs]
    simp [hh, openedAt, hs, hs', hlast]
  · intro hs'
    simp only [hh, successesSince, hs, reduceCtorEq, false_and, if_false]
    cases hsucc : settlesProbe s.history .success op with
    | true =>
      simp only [hsucc, if_true] at heff
      have hkeep : ¬cfg.successThreshold ≤ s.cb.cbSuccess + 1 := by
        intro ht
        have hclosed := hlaw.1.mpr ⟨hsucc, by omega⟩
        simp [hs'] at hclosed
      simp only [heff, Breaker.settleProbe, hkeep, if_false, if_true]
      omega
    | false =>
      have hkeep : s'.cb.cbSuccess = s.cb.cbSuccess := by
        have hopen := mt hlaw.2.mpr (by simp [hs'])
        simp only [not_or] at hopen
        simp only [hsucc, hopen, Bool.false_eq_true, if_false] at heff
        exact heff.2
      simp only [hkeep, Bool.false_eq_true, if_false]
      exact ⟨hcount, hlt⟩

theorem CountInv.step {cfg : CircuitBreakerConfig} {s s' : Sys} {label : Op × ℤ} (h : Inv s)
    (hF : 1 ≤ cfg.failureThreshold) (hS : 1 ≤ cfg.successThreshold) (hc : CountInv cfg s)
    (hn : next cfg s label = some s') : CountInv cfg s' := by
  cases hs : s.cb.cbState with
  | closed => exact hc.step_closed h hF hn hs
  | opened => exact hc.step_opened h hS hn hs
  | halfOpen => exact hc.step_halfOpen h hF hn hs

theorem Reachable.countInv {cfg : CircuitBreakerConfig} {s : Sys} (h : Reachable cfg s)
    (hF : 1 ≤ cfg.failureThreshold) (hS : 1 ≤ cfg.successThreshold) : CountInv cfg s := by
  obtain ⟨clock, labels, run⟩ := h
  refine Runs.exec_induction (P := fun _ s => CountInv cfg s) (.init cfg hF clock) ?_ run
  intro labels t label u ht hc hn
  exact hc.step (Reachable.inv ⟨clock, labels, ht⟩) hF hS hn

theorem counting_law {cfg : CircuitBreakerConfig} (hF : 1 ≤ cfg.failureThreshold)
    (hS : 1 ≤ cfg.successThreshold) {s s' : Sys} {op : Op} {now : ℤ} (h : Reachable cfg s)
    (hn : next cfg s (op, now) = some s') :
    (s.cb.cbState = .closed → s'.cb.cbState ≠ .halfOpen ∧
      (s'.cb.cbState = .opened ↔ countedFailure s.history op = true ∧
        failuresSince s.history + 1 = cfg.failureThreshold)) ∧
    (s.cb.cbState = .opened → s'.cb.cbState ≠ .closed ∧
      (s'.cb.cbState = .halfOpen ↔ op = .tryAcquire ∧
        ∃ t, openedAt s.history = some t ∧ cfg.halfOpenAfter ≤ now - t)) ∧
    (s.cb.cbState = .halfOpen →
      (s'.cb.cbState = .closed ↔ settlesProbe s.history .success op = true ∧
        successesSince s.history + 1 = cfg.successThreshold) ∧
      (s'.cb.cbState = .opened ↔ settlesProbe s.history .failure op = true ∨
        (op = .failure ∧ probeInFlight s.history = false))) :=
  have hinv := h.inv
  have hcount := h.countInv hF hS
  ⟨closed_law hinv hcount hn, opened_law hinv hcount hn, halfOpen_law hinv hcount hn⟩

theorem counting_law_second_failure :
    ∃ s s', Runs.exec (next ⟨2, 1, 10⟩) (.init 0) [(.failure, 0)] = some s ∧
      next ⟨2, 1, 10⟩ s (.failure, 1) = some s' ∧ s'.cb.cbState = .opened := by
  let s : Sys := ⟨⟨.closed, 1, 0, some 0, false, 0, 0⟩, 0, [], [⟨.failure, 0, .closed, .closed, none⟩]⟩
  have hrun : Runs.exec (next ⟨2, 1, 10⟩) (.init 0) [(.failure, 0)] = some s := by decide
  obtain ⟨s', hn⟩ : ∃ s', next ⟨2, 1, 10⟩ s (.failure, 1) = some s' := ⟨_, rfl⟩
  have hlaw := counting_law (by decide) (by decide) ⟨0, _, hrun⟩ hn
  exact ⟨s, s', hrun, hn, (hlaw.1 rfl).2.mpr (by decide)⟩

end EBeacon.Upstream.BreakerRun
