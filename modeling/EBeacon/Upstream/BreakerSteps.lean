import EBeacon.Upstream.Breaker

namespace EBeacon.Upstream

namespace Breaker

def Advances (b b' : Breaker) : Prop :=
  (b'.cbState = b.cbState ∧ b'.cbEpoch = b.cbEpoch) ∨
    (b'.cbState ≠ b.cbState ∧ b'.cbEpoch = b.cbEpoch + 1)

theorem Advances.epoch_le {b b' : Breaker} (h : b.Advances b') : b.cbEpoch ≤ b'.cbEpoch := by
  rcases h with ⟨_, he⟩ | ⟨_, he⟩ <;> omega

theorem Advances.epoch_iff {b b' : Breaker} (h : b.Advances b') {epoch : ℕ} (hle : epoch ≤ b.cbEpoch) :
    b.cbState = b'.cbState ∧ epoch = b.cbEpoch ↔ epoch = b'.cbEpoch := by
  rcases h with ⟨hs, he⟩ | ⟨hs, he⟩
  · simp [hs, he]
  · constructor
    · exact fun hh => absurd hh.1.symm hs
    · intro hh
      omega

theorem advances_transition (b : Breaker) (s : CBState) : b.Advances (b.cbTransitionLocked s) := by
  by_cases h : b.cbState = s
  · simp [Advances, cbTransitionLocked, h]
  · right
    simp [cbTransitionLocked, h, Ne.symm h]

@[simp] theorem transition_state (b : Breaker) (s : CBState) : (b.cbTransitionLocked s).cbState = s := by
  by_cases h : b.cbState = s <;> simp [cbTransitionLocked, h]

@[simp] theorem transition_inFlight (b : Breaker) (s : CBState) :
    (b.cbTransitionLocked s).cbProbeInFlight = b.cbProbeInFlight := by
  by_cases h : b.cbState = s <;> simp [cbTransitionLocked, h]

@[simp] theorem transition_gen (b : Breaker) (s : CBState) :
    (b.cbTransitionLocked s).cbProbeGen = b.cbProbeGen := by
  by_cases h : b.cbState = s <;> simp [cbTransitionLocked, h]

structure Quiet (b b' : Breaker) : Prop where
  advances : b.Advances b'
  gen : b'.cbProbeGen = b.cbProbeGen
  probing : b'.cbProbeInFlight = true → b.cbProbeInFlight = true ∧ b'.cbState = b.cbState

theorem Quiet.refl (b : Breaker) : b.Quiet b :=
  ⟨.inl ⟨rfl, rfl⟩, rfl, fun h => ⟨h, rfl⟩⟩

theorem quiet_failAndOpen (b : Breaker) (now : ℤ) (h : b.cbProbeInFlight = false) :
    b.Quiet (b.cbFailAndOpenLocked now) where
  advances := by
    have ha := advances_transition { b with cbFails := b.cbFails + 1, cbLastErr := some now } .opened
    simpa [Advances, cbFailAndOpenLocked, cbOpenLocked] using ha
  gen := by simp [cbFailAndOpenLocked, cbOpenLocked]
  probing := by simp [cbFailAndOpenLocked, cbOpenLocked, h]

theorem quiet_recordFailure (cfg : CircuitBreakerConfig) (b : Breaker) (now : ℤ)
    (h : b.cbProbeInFlight = false) : b.Quiet (b.cbRecordFailureLocked cfg now) := by
  by_cases ht : cfg.failureThreshold ≤ b.cbFails + 1
  · have hq := quiet_failAndOpen b now h
    simpa [cbRecordFailureLocked, cbFailAndOpenLocked, ht] using hq
  · simp only [cbRecordFailureLocked, ht, if_false]
    exact ⟨.inl ⟨rfl, rfl⟩, rfl, fun hf => ⟨hf, rfl⟩⟩

theorem quiet_settleProbe (cfg : CircuitBreakerConfig) (b : Breaker) (o : CBOutcome) (now : ℤ) :
    b.Quiet (b.settleProbe cfg o now) ∧ (b.settleProbe cfg o now).cbProbeInFlight = false := by
  cases o with
  | success =>
    by_cases ht : cfg.successThreshold ≤ b.cbSuccess + 1
    · have ha := advances_transition
        { b with cbProbeInFlight := false, cbSuccess := b.cbSuccess + 1 } .closed
      refine ⟨⟨?_, ?_, ?_⟩, ?_⟩ <;> simp_all [settleProbe, Advances]
    · refine ⟨⟨.inl ⟨?_, ?_⟩, ?_, ?_⟩, ?_⟩ <;> simp [settleProbe, ht]
  | failure =>
    have hq := quiet_failAndOpen { b with cbProbeInFlight := false } now rfl
    refine ⟨⟨hq.advances, hq.gen, fun hf => ?_⟩, ?_⟩
    · simpa using (hq.probing hf).1
    · simp [settleProbe, cbFailAndOpenLocked, cbOpenLocked]
  | release => exact ⟨⟨.inl ⟨rfl, rfl⟩, rfl, by simp [settleProbe]⟩, rfl⟩

theorem quiet_settle (cfg : CircuitBreakerConfig) (b : Breaker) (t : CBToken) (o : CBOutcome)
    (now : ℤ) (hp : b.cbProbeInFlight = true → b.cbState = .halfOpen) :
    b.Quiet (b.settle cfg t o now) := by
  by_cases hprobe : t.probe = true
  · by_cases hl : b.cbProbeInFlight = true ∧ b.cbProbeGen = t.gen
    · rw [settle_probe_live cfg b t o now hprobe hl.1 hl.2]
      exact (quiet_settleProbe cfg b o now).1
    · rw [settle_probe_stale cfg b t o now hprobe hl]
      exact .refl b
  · simp only [Bool.not_eq_true] at hprobe
    by_cases hc : b.cbState = .closed ∧ b.cbEpoch = t.epoch
    · have hf : b.cbProbeInFlight = false := by
        by_contra hf
        simp [hp (by simpa using hf)] at hc
      rw [settle_plain_current cfg b t o now hprobe hc.1 hc.2]
      cases o with
      | success => exact ⟨.inl ⟨rfl, rfl⟩, rfl, fun hf => ⟨hf, rfl⟩⟩
      | failure => exact quiet_recordFailure cfg b now hf
      | release => exact .refl b
    · rw [settle_plain_stale cfg b t o now hprobe hc]
      exact .refl b

theorem quiet_failure (cfg : CircuitBreakerConfig) (b : Breaker) (now : ℤ)
    (hp : b.cbProbeInFlight = true → b.cbState = .halfOpen) : b.Quiet (b.cbFailure cfg now) := by
  cases hs : b.cbState with
  | closed =>
    have hf : b.cbProbeInFlight = false := by
      by_contra hf
      simp [hs] at hp
      exact hf hp
    simpa [cbFailure, hs] using quiet_recordFailure cfg b now hf
  | opened => simpa [cbFailure, hs] using Quiet.refl b
  | halfOpen =>
    by_cases hf : b.cbProbeInFlight
    · simpa [cbFailure, hs, hf] using Quiet.refl b
    · simpa [cbFailure, hs, hf] using quiet_failAndOpen b now (by simpa using hf)

theorem failAndOpen_inFlight (b : Breaker) (now : ℤ) :
    (b.cbFailAndOpenLocked now).cbProbeInFlight = b.cbProbeInFlight := by
  simp [cbFailAndOpenLocked, cbOpenLocked]

theorem recordFailure_inFlight (cfg : CircuitBreakerConfig) (b : Breaker) (now : ℤ) :
    (b.cbRecordFailureLocked cfg now).cbProbeInFlight = b.cbProbeInFlight := by
  by_cases ht : cfg.failureThreshold ≤ b.cbFails + 1 <;>
    simp [cbRecordFailureLocked, cbOpenLocked, ht]

theorem failure_inFlight (cfg : CircuitBreakerConfig) (b : Breaker) (now : ℤ) :
    (b.cbFailure cfg now).cbProbeInFlight = b.cbProbeInFlight := by
  cases hs : b.cbState with
  | closed => simp [cbFailure, hs, recordFailure_inFlight]
  | opened => simp [cbFailure, hs]
  | halfOpen => by_cases hf : b.cbProbeInFlight <;> simp [cbFailure, hs, hf, failAndOpen_inFlight]

structure Grant (b b' : Breaker) (t : CBToken) : Prop where
  advances : b.Advances b'
  epoch : t.epoch = b'.cbEpoch
  plain : t.probe = false → b' = b ∧ b.cbState ≠ .halfOpen
  probe : t.probe = true → b.cbProbeInFlight = false ∨ b.cbState = .opened
  granted : t.probe = true → b'.cbState = .halfOpen ∧ b'.cbProbeInFlight = true ∧
    b'.cbProbeGen = b.cbProbeGen + 1 ∧ t.gen = b'.cbProbeGen

theorem grant_tryAcquire (cfg : CircuitBreakerConfig) (b b' : Breaker) (now : ℤ) (t : CBToken)
    (h : b.cbTryAcquire cfg now = (some t, b')) : b.Grant b' t := by
  cases hs : b.cbState with
  | closed =>
    simp only [cbTryAcquire, hs, Prod.mk.injEq, Option.some.injEq] at h
    obtain ⟨rfl, rfl⟩ := h
    exact ⟨.inl ⟨rfl, rfl⟩, rfl, by simp [hs], by simp, by simp⟩
  | opened =>
    by_cases hd : b.recoveryDue cfg now
    · simp only [cbTryAcquire, hs, hd, cbGrantProbeLocked, if_true, Prod.mk.injEq,
        Option.some.injEq] at h
      obtain ⟨rfl, rfl⟩ := h
      exact ⟨advances_transition b .halfOpen, rfl, by simp, by simp [hs], by simp⟩
    · simp only [cbTryAcquire, hs, hd, Bool.false_eq_true, if_false, Prod.mk.injEq,
        Option.some.injEq] at h
      obtain ⟨rfl, rfl⟩ := h
      exact ⟨.inl ⟨rfl, rfl⟩, rfl, by simp [hs], by simp, by simp⟩
  | halfOpen =>
    by_cases hf : b.cbProbeInFlight
    · simp [cbTryAcquire, hs, hf] at h
    · simp only [cbTryAcquire, hs, hf, cbGrantProbeLocked, Bool.false_eq_true, if_false,
        Prod.mk.injEq, Option.some.injEq] at h
      obtain ⟨rfl, rfl⟩ := h
      exact ⟨.inl ⟨hs.symm, rfl⟩, rfl, by simp, by simp [hf], by simp⟩

theorem tryAcquire_refused (cfg : CircuitBreakerConfig) (b b' : Breaker) (now : ℤ)
    (h : b.cbTryAcquire cfg now = (none, b')) : b' = b := by
  have hn := (tryAcquire_none cfg b now).mp (by rw [h])
  simp only [cbTryAcquire, hn.1, hn.2, if_true, Prod.mk.injEq] at h
  exact h.2.symm

end Breaker

end EBeacon.Upstream
