import EBeacon.Upstream.BreakerInvariant

namespace EBeacon.Upstream.BreakerRun

theorem settle_stale_probe {cfg : CircuitBreakerConfig} {s : Sys} (h : Inv s) {i : ℕ} {t : CBToken}
    (hi : s.tokens[i]? = some t) (hp : t.probe = true) (hl : live s.history i = false)
    (o : CBOutcome) (now : ℤ) : s.cb.settle cfg t o now = s.cb := by
  apply Breaker.settle_probe_stale cfg s.cb t o now hp
  rintro ⟨hf, hg⟩
  have hlatest := ((h.token i t hi).latest hp).mpr hg.symm
  have hpending := ((h.token i t hi).pending hp).mpr ⟨hf, hg⟩
  simp [live, hlatest, hpending] at hl

theorem settle_plain_changes {cfg : CircuitBreakerConfig} {s : Sys} (h : Inv s) {i : ℕ}
    {t : CBToken} (hi : s.tokens[i]? = some t) (hp : t.probe = false) (o : CBOutcome) (now : ℤ)
    (hc : s.cb.settle cfg t o now ≠ s.cb) :
    s.cb.cbState = .closed ∧ unchangedSince s.history i = true := by
  by_contra hn
  apply hc
  apply Breaker.settle_plain_stale cfg s.cb t o now hp
  rwa [(h.token i t hi).epoch_iff, eq_comm (a := t.epoch)] at hn

theorem settle_open_token {cfg : CircuitBreakerConfig} {s : Sys} (h : Inv s) {i : ℕ} {t : CBToken}
    (hi : s.tokens[i]? = some t) (hg : grantState s.history i = some .opened) (o : CBOutcome)
    (now : ℤ) : s.cb.settle cfg t o now = s.cb := by
  have hp : t.probe = false := by simp [(h.token i t hi).kind, isProbe, hg]
  by_contra hc
  obtain ⟨hs, hu⟩ := settle_plain_changes h hi hp o now hc
  have hsame := (h.token i t hi).same hu
  simp [hg, hs] at hsame

theorem tryAcquire_excluded {cfg : CircuitBreakerConfig} {s : Sys} (h : Inv s) {i : ℕ} {t : CBToken}
    (hi : s.tokens[i]? = some t) (hp : t.probe = true) (hs : settled s.history i = false)
    (now : ℤ) : (s.cb.cbTryAcquire cfg now).1 = none := by
  obtain ⟨hf, _⟩ := ((h.token i t hi).pending hp).mp hs
  exact (Breaker.tryAcquire_none cfg s.cb now).mpr ⟨h.probing hf, hf⟩

theorem canRoute_admits (cfg : CircuitBreakerConfig) (b : Breaker) (now : ℤ)
    (h : b.cbCanRoute cfg now = true) : (b.cbTryAcquire cfg now).1.isSome = true := by
  rw [Option.isSome_iff_ne_none]
  intro hn
  obtain ⟨hs, hf⟩ := (Breaker.tryAcquire_none cfg b now).mp hn
  simp [Breaker.cbCanRoute, hs, hf] at h

theorem token_safety {cfg : CircuitBreakerConfig} {s : Sys} (h : Reachable cfg s) :
    (s.cb.cbProbeInFlight = true → s.cb.cbState = .halfOpen) ∧
    (∀ i t o now, s.tokens[i]? = some t → t.probe = true → live s.history i = false →
      s.cb.settle cfg t o now = s.cb) ∧
    (∀ i t o now, s.tokens[i]? = some t → t.probe = false → s.cb.settle cfg t o now ≠ s.cb →
      s.cb.cbState = .closed ∧ unchangedSince s.history i = true) ∧
    (∀ i t o now, s.tokens[i]? = some t → grantState s.history i = some .opened →
      s.cb.settle cfg t o now = s.cb) ∧
    (∀ i t now, s.tokens[i]? = some t → t.probe = true → settled s.history i = false →
      (s.cb.cbTryAcquire cfg now).1 = none) ∧
    (∀ now, s.cb.cbCanRoute cfg now = true → (s.cb.cbTryAcquire cfg now).1.isSome = true) :=
  have hinv := h.inv
  ⟨hinv.probing,
    fun _ _ o now hi hp hl => settle_stale_probe hinv hi hp hl o now,
    fun _ _ o now hi hp hc => settle_plain_changes hinv hi hp o now hc,
    fun _ _ o now hi hg => settle_open_token hinv hi hg o now,
    fun _ _ now hi hp hs => tryAcquire_excluded hinv hi hp hs now,
    fun now hr => canRoute_admits cfg s.cb now hr⟩

def recovering : List (Op × ℤ) := [(.failure, 0), (.tryAcquire, 5), (.tryAcquire, 10)]

theorem token_safety_recovering :
    ∃ s, Runs.exec (next ⟨1, 1, 10⟩) (.init 0) recovering = some s ∧
      (∀ o now, s.cb.settle ⟨1, 1, 10⟩ ⟨false, 0, 1⟩ o now = s.cb) ∧
      ∀ now, (s.cb.cbTryAcquire ⟨1, 1, 10⟩ now).1 = none := by
  have hrun : Runs.exec (next ⟨1, 1, 10⟩) (.init 0) recovering =
      some ⟨⟨.halfOpen, 1, 0, some 0, true, 1, 2⟩, 10, [⟨false, 0, 1⟩, ⟨true, 1, 2⟩],
        [⟨.tryAcquire, 10, .opened, .halfOpen, some 1⟩, ⟨.tryAcquire, 5, .opened, .opened, some 0⟩,
          ⟨.failure, 0, .closed, .opened, none⟩]⟩ := by decide
  obtain ⟨_, _, _, hopen, hexcl, _⟩ := token_safety ⟨0, recovering, hrun⟩
  exact ⟨_, hrun, fun o now => hopen 0 _ o now rfl (by decide),
    fun now => hexcl 1 _ now rfl rfl (by decide)⟩

end EBeacon.Upstream.BreakerRun
