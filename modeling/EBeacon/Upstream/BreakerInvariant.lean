import EBeacon.Upstream.BreakerSteps
import EBeacon.Upstream.BreakerRun

namespace EBeacon.Upstream.BreakerRun

structure TokenInv (s : Sys) (i : ℕ) (t : CBToken) : Prop where
  kind : t.probe = isProbe s.history i
  epoch_le : t.epoch ≤ s.cb.cbEpoch
  epoch_iff : unchangedSince s.history i = true ↔ t.epoch = s.cb.cbEpoch
  same : unchangedSince s.history i = true → grantState s.history i = some s.cb.cbState
  gen_le : t.probe = true → t.gen ≤ s.cb.cbProbeGen
  latest : t.probe = true → (latestProbe s.history = some i ↔ t.gen = s.cb.cbProbeGen)
  pending : t.probe = true →
    (settled s.history i = false ↔ s.cb.cbProbeInFlight = true ∧ s.cb.cbProbeGen = t.gen)

structure Inv (s : Sys) : Prop where
  probing : s.cb.cbProbeInFlight = true → s.cb.cbState = .halfOpen
  granted : ∀ e ∈ s.history, ∀ i, e.granted = some i → i < s.tokens.length
  settles : ∀ e ∈ s.history, ∀ i o, e.op = .settle i o → i < s.tokens.length
  token : ∀ i t, s.tokens[i]? = some t → TokenInv s i t
  latest : ∀ i, latestProbe s.history = some i → ∃ t : CBToken, s.tokens[i]? = some t ∧ t.probe = true
  flying : s.cb.cbProbeInFlight = true →
    ∃ (i : ℕ) (t : CBToken), s.tokens[i]? = some t ∧ t.probe = true ∧ t.gen = s.cb.cbProbeGen

theorem Inv.init (clock : ℤ) : Inv (.init clock) where
  probing := by simp [Sys.init, Breaker.new]
  granted := by simp [Sys.init]
  settles := by simp [Sys.init]
  token := by simp [Sys.init]
  latest := by simp [Sys.init, latestProbe]
  flying := by simp [Sys.init, Breaker.new]

theorem settled_record_other (s : Sys) (op : Op) (now : ℤ) (cb : Breaker) (tok : Option CBToken)
    (i : ℕ) (h : ∀ o, op ≠ .settle i o) :
    settled (s.record op now cb tok).history i = settled s.history i := by
  cases op with
  | settle j o =>
    have hij : i ≠ j := fun hij => h o (by rw [hij])
    simp [settled, Sys.record, hij]
  | tryAcquire => simp [settled, Sys.record]
  | failure => simp [settled, Sys.record]
  | canRoute => simp [settled, Sys.record]

theorem settled_record_self (s : Sys) (o : CBOutcome) (now : ℤ) (cb : Breaker)
    (tok : Option CBToken) (i : ℕ) :
    settled (s.record (.settle i o) now cb tok).history i = true := by
  simp [settled, Sys.record]

theorem TokenInv.quiet {s : Sys} {i : ℕ} {t : CBToken} (h : TokenInv s i t) {op : Op} {now : ℤ}
    {cb : Breaker} (hq : s.cb.Quiet cb)
    (hp : t.probe = true → (settled (s.record op now cb none).history i = false ↔
      cb.cbProbeInFlight = true ∧ cb.cbProbeGen = t.gen)) :
    TokenInv (s.record op now cb none) i t := by
  have hg : grantState (s.record op now cb none).history i = grantState s.history i := by
    simp [Sys.record, grantState]
  have hu : unchangedSince (s.record op now cb none).history i = true ↔
      s.cb.cbState = cb.cbState ∧ unchangedSince s.history i = true := by
    simp [Sys.record, unchangedSince]
  refine ⟨?_, ?_, ?_, ?_, ?_, ?_, hp⟩
  · rw [isProbe, hg]
    exact h.kind
  · exact Nat.le_trans h.epoch_le hq.advances.epoch_le
  · rw [hu, h.epoch_iff]
    exact hq.advances.epoch_iff h.epoch_le
  · intro hh
    have hh := hu.mp hh
    rw [hg, h.same hh.2, hh.1]
    rfl
  · intro hprobe
    exact hq.gen ▸ h.gen_le hprobe
  · intro hprobe
    have hl : latestProbe (s.record op now cb none).history = latestProbe s.history := by
      simp [Sys.record, latestProbe]
    rw [hl, h.latest hprobe]
    change _ ↔ t.gen = cb.cbProbeGen
    rw [hq.gen]

theorem TokenInv.granted {s : Sys} {i : ℕ} {t t' : CBToken} (h : TokenInv s i t)
    (hi : i < s.tokens.length) {now : ℤ} {cb : Breaker} (hg : s.cb.Grant cb t')
    (hprobing : s.cb.cbProbeInFlight = true → s.cb.cbState = .halfOpen) :
    TokenInv (s.record .tryAcquire now cb (some t')) i t := by
  have hne : s.tokens.length ≠ i := by omega
  have hgrant : grantState (s.record .tryAcquire now cb (some t')).history i =
      grantState s.history i := by simp [Sys.record, grantState, hne]
  have hu : unchangedSince (s.record .tryAcquire now cb (some t')).history i = true ↔
      s.cb.cbState = cb.cbState ∧ unchangedSince s.history i = true := by
    simp [Sys.record, unchangedSince, hne]
  have hs : settled (s.record .tryAcquire now cb (some t')).history i = settled s.history i :=
    settled_record_other _ _ _ _ _ _ (by simp)
  refine ⟨?_, ?_, ?_, ?_, ?_, ?_, ?_⟩
  · rw [isProbe, hgrant]
    exact h.kind
  · exact Nat.le_trans h.epoch_le hg.advances.epoch_le
  · rw [hu, h.epoch_iff]
    exact hg.advances.epoch_iff h.epoch_le
  · intro hh
    have hh := hu.mp hh
    rw [hgrant, h.same hh.2, hh.1]
    rfl
  · intro hprobe
    have hgen := h.gen_le hprobe
    change t.gen ≤ cb.cbProbeGen
    cases hp : t'.probe with
    | false => exact (hg.plain hp).1 ▸ hgen
    | true => exact (hg.granted hp).2.2.1 ▸ Nat.le_succ_of_le hgen
  · intro hprobe
    have hgen := h.gen_le hprobe
    change _ ↔ t.gen = cb.cbProbeGen
    cases hp : t'.probe with
    | false =>
      obtain ⟨rfl, hh⟩ := hg.plain hp
      rw [← h.latest hprobe]
      simp [Sys.record, latestProbe, hh]
    | true =>
      obtain ⟨hh, _, hcb, _⟩ := hg.granted hp
      simp only [Sys.record, latestProbe, hh, Option.map_some, if_true, Option.some.injEq, hne,
        false_iff]
      omega
  · intro hprobe
    rw [hs, h.pending hprobe]
    change _ ↔ cb.cbProbeInFlight = true ∧ cb.cbProbeGen = t.gen
    have hgen := h.gen_le hprobe
    cases hp : t'.probe with
    | false => rw [(hg.plain hp).1]
    | true =>
      obtain ⟨_, _, hcb, _⟩ := hg.granted hp
      constructor
      · rintro ⟨hf, _⟩
        rcases hg.probe hp with hh | hh
        · simp [hf] at hh
        · simp [hprobing hf] at hh
      · rintro ⟨_, hh⟩
        omega

theorem TokenInv.fresh {s : Sys} {t : CBToken} {now : ℤ} {cb : Breaker} (hg : s.cb.Grant cb t)
    (hsettles : ∀ e ∈ s.history, ∀ i o, e.op = .settle i o → i < s.tokens.length) :
    TokenInv (s.record .tryAcquire now cb (some t)) s.tokens.length t := by
  have hgrant : grantState (s.record .tryAcquire now cb (some t)).history s.tokens.length =
      some cb.cbState := by simp [Sys.record, grantState]
  have hs : settled (s.record .tryAcquire now cb (some t)).history s.tokens.length = false := by
    rw [settled_record_other _ _ _ _ _ _ (by simp)]
    simp only [settled, List.any_eq_false]
    intro e he
    cases hop : e.op with
    | settle j o =>
      have hj := hsettles e he j o hop
      simp only [decide_eq_true_eq]
      omega
    | tryAcquire => simp
    | failure => simp
    | canRoute => simp
  refine ⟨?_, Nat.le_of_eq hg.epoch, ?_, fun _ => hgrant, ?_, ?_, ?_⟩
  · simp only [isProbe, hgrant, Option.some.injEq]
    cases hp : t.probe with
    | false =>
      obtain ⟨rfl, hh⟩ := hg.plain hp
      simp [hh]
    | true => simp [(hg.granted hp).1]
  · simp [Sys.record, unchangedSince, hg.epoch]
  · intro hp
    exact Nat.le_of_eq (hg.granted hp).2.2.2
  · intro hp
    obtain ⟨hh, _, _, hgen⟩ := hg.granted hp
    simp [Sys.record, latestProbe, hh, hgen]
  · intro hp
    obtain ⟨_, hf, _, hgen⟩ := hg.granted hp
    rw [hs]
    exact ⟨fun _ => ⟨hf, hgen.symm⟩, fun _ => rfl⟩

theorem record_token {s : Sys} {op : Op} {now : ℤ} {cb : Breaker} {tok : Option CBToken} {i : ℕ}
    {t : CBToken} (h : (s.record op now cb tok).tokens[i]? = some t) :
    s.tokens[i]? = some t ∨ (i = s.tokens.length ∧ tok = some t) := by
  simp only [Sys.record] at h
  by_cases hi : i < s.tokens.length
  · left
    rwa [List.getElem?_append_left hi] at h
  · right
    rw [List.getElem?_append_right (by omega)] at h
    cases tok with
    | none => simp at h
    | some t' =>
      simp only [Option.toList_some, List.getElem?_singleton, Option.ite_none_right_eq_some] at h
      exact ⟨by omega, h.2⟩

theorem record_old {s : Sys} {op : Op} {now : ℤ} {cb : Breaker} {tok : Option CBToken} {i : ℕ}
    {t : CBToken} (h : s.tokens[i]? = some t) : (s.record op now cb tok).tokens[i]? = some t := by
  have hi := (List.getElem?_eq_some_iff.mp h).1
  simp only [Sys.record]
  rwa [List.getElem?_append_left hi]

theorem record_new {s : Sys} {op : Op} {now : ℤ} {cb : Breaker} {t : CBToken} :
    (s.record op now cb (some t)).tokens[s.tokens.length]? = some t := by
  simp [Sys.record]

theorem Inv.quiet {s : Sys} (h : Inv s) {op : Op} {now : ℤ} {cb : Breaker} (hq : s.cb.Quiet cb)
    (hop : ∀ i o, op = .settle i o → i < s.tokens.length)
    (hp : ∀ i t, s.tokens[i]? = some t → t.probe = true →
      (settled (s.record op now cb none).history i = false ↔
        cb.cbProbeInFlight = true ∧ cb.cbProbeGen = t.gen)) :
    Inv (s.record op now cb none) where
  probing := by
    intro hf
    obtain ⟨hf, hs⟩ := hq.probing hf
    exact hs.trans (h.probing hf)
  granted := by
    simp only [Sys.record, List.mem_cons, forall_eq_or_imp, Option.map_none, Option.toList_none,
      List.append_nil]
    exact ⟨by simp, h.granted⟩
  settles := by
    simp only [Sys.record, List.mem_cons, forall_eq_or_imp, Option.toList_none, List.append_nil]
    exact ⟨hop, h.settles⟩
  token := by
    intro i t ht
    rcases record_token ht with ht | ⟨_, ht⟩
    · exact (h.token i t ht).quiet hq (hp i t ht)
    · simp at ht
  latest := by
    intro i hi
    obtain ⟨t, ht, hprobe⟩ := h.latest i (by simpa [Sys.record, latestProbe] using hi)
    exact ⟨t, record_old ht, hprobe⟩
  flying := by
    intro hf
    obtain ⟨i, t, ht, hprobe, hgen⟩ := h.flying (hq.probing hf).1
    exact ⟨i, t, record_old ht, hprobe, hgen.trans hq.gen.symm⟩

theorem Inv.idle {s : Sys} (h : Inv s) {op : Op} {now : ℤ} (hop : ∀ i o, op ≠ .settle i o) :
    Inv (s.record op now s.cb none) := by
  refine h.quiet (.refl _) (fun i o hi => absurd hi (hop i o)) ?_
  intro i t hi hp
  rw [settled_record_other _ _ _ _ _ _ (hop i)]
  exact (h.token i t hi).pending hp

theorem Inv.grant {s : Sys} (h : Inv s) {now : ℤ} {cb : Breaker} {t : CBToken}
    (hg : s.cb.Grant cb t) : Inv (s.record .tryAcquire now cb (some t)) where
  probing := by
    intro hf
    change cb.cbState = .halfOpen
    cases hp : t.probe with
    | false =>
      obtain ⟨rfl, _⟩ := hg.plain hp
      exact h.probing hf
    | true => exact (hg.granted hp).1
  granted := by
    simp only [Sys.record, List.mem_cons, forall_eq_or_imp, Option.map_some, Option.some.injEq,
      Option.toList_some, List.length_append, List.length_singleton]
    exact ⟨fun i hi => by omega, fun e he i hi => Nat.lt_succ_of_lt (h.granted e he i hi)⟩
  settles := by
    simp only [Sys.record, List.mem_cons, forall_eq_or_imp, Option.toList_some, List.length_append,
      List.length_singleton]
    exact ⟨by simp, fun e he i o hi => Nat.lt_succ_of_lt (h.settles e he i o hi)⟩
  token := by
    intro i t' ht
    rcases record_token ht with hold | ⟨rfl, hnew⟩
    · have hi := (List.getElem?_eq_some_iff.mp hold).1
      exact (h.token i t' hold).granted hi hg h.probing
    · obtain rfl := Option.some.inj hnew
      exact .fresh hg h.settles
  latest := by
    intro i hi
    cases hp : t.probe with
    | false =>
      obtain ⟨rfl, hh⟩ := hg.plain hp
      obtain ⟨t', ht', hprobe⟩ := h.latest i (by simpa [Sys.record, latestProbe, hh] using hi)
      exact ⟨t', record_old ht', hprobe⟩
    | true =>
      obtain rfl : s.tokens.length = i := by
        simpa [Sys.record, latestProbe, (hg.granted hp).1] using hi
      exact ⟨t, record_new, hp⟩
  flying := by
    intro hf
    cases hp : t.probe with
    | false =>
      obtain ⟨rfl, _⟩ := hg.plain hp
      obtain ⟨i, t', ht', hprobe, hgen⟩ := h.flying hf
      exact ⟨i, t', record_old ht', hprobe, hgen⟩
    | true => exact ⟨s.tokens.length, t, record_new, hp, (hg.granted hp).2.2.2⟩

theorem Inv.probe_unique {s : Sys} (h : Inv s) {i j : ℕ} {t t' : CBToken}
    (hi : s.tokens[i]? = some t) (hj : s.tokens[j]? = some t') (hp : t.probe = true)
    (hp' : t'.probe = true) (ht : s.cb.cbProbeGen = t.gen) (ht' : s.cb.cbProbeGen = t'.gen) :
    i = j := by
  have h1 := ((h.token i t hi).latest hp).mpr ht.symm
  have h2 := ((h.token j t' hj).latest hp').mpr ht'.symm
  simpa [h1] using h2

theorem Inv.settle {s : Sys} (h : Inv s) (cfg : CircuitBreakerConfig) {i : ℕ} {t : CBToken}
    (hi : s.tokens[i]? = some t) (o : CBOutcome) (now : ℤ) :
    Inv (s.record (.settle i o) now (s.cb.settle cfg t o now) none) := by
  have hlt := (List.getElem?_eq_some_iff.mp hi).1
  have hq := Breaker.quiet_settle cfg s.cb t o now h.probing
  refine h.quiet hq (by rintro j o' ⟨⟩; exact hlt) ?_
  intro j t' hj hp'
  by_cases hij : j = i
  · subst hij
    obtain rfl : t = t' := by simpa [hi] using hj
    simp only [settled_record_self, Bool.true_eq_false, false_iff]
    by_cases hl : s.cb.cbProbeInFlight = true ∧ s.cb.cbProbeGen = t.gen
    · rw [Breaker.settle_probe_live cfg s.cb t o now hp' hl.1 hl.2]
      simp [(Breaker.quiet_settleProbe cfg s.cb o now).2]
    · rwa [Breaker.settle_probe_stale cfg s.cb t o now hp' hl]
  · rw [settled_record_other _ _ _ _ _ _ (by rintro o' ⟨⟩; exact hij rfl),
      (h.token j t' hj).pending hp', hq.gen]
    constructor
    · rintro ⟨hf, hg⟩
      -- another probe is in flight, so this settlement is stale and changes nothing
      refine ⟨?_, hg⟩
      by_cases hp : t.probe = true
      · rw [Breaker.settle_probe_stale cfg s.cb t o now hp]
        · exact hf
        · rintro ⟨_, hg'⟩
          exact hij (h.probe_unique hj hi hp' hp hg hg')
      · rw [Breaker.settle_plain_stale cfg s.cb t o now (by simpa using hp)]
        · exact hf
        · simp [h.probing hf]
    · rintro ⟨hf, hg⟩
      exact ⟨(hq.probing hf).1, hg⟩

theorem Inv.step {cfg : CircuitBreakerConfig} {s s' : Sys} {label : Op × ℤ} (h : Inv s)
    (hn : next cfg s label = some s') : Inv s' := by
  obtain ⟨op, now⟩ := label
  obtain ⟨cb, tok, rfl, heff⟩ := next_cases hn
  cases op with
  | tryAcquire =>
    cases tok with
    | none =>
      obtain rfl := Breaker.tryAcquire_refused cfg s.cb cb now heff
      exact h.idle (by simp)
    | some t => exact h.grant (Breaker.grant_tryAcquire cfg s.cb cb now t heff)
  | settle i o =>
    obtain ⟨rfl, t, ht, rfl⟩ := heff
    exact h.settle cfg ht o now
  | failure =>
    obtain ⟨rfl, rfl⟩ := heff
    have hq := Breaker.quiet_failure cfg s.cb now h.probing
    refine h.quiet hq (by simp) ?_
    intro i t hi hp
    rw [settled_record_other _ _ _ _ _ _ (by simp), (h.token i t hi).pending hp, hq.gen,
      Breaker.failure_inFlight cfg s.cb now]
  | canRoute =>
    obtain ⟨rfl, rfl⟩ := heff
    exact h.idle (by simp)

theorem next_tokens {cfg : CircuitBreakerConfig} {s s' : Sys} {op : Op} {now : ℤ}
    (hn : next cfg s (op, now) = some s') : s.tokens <+: s'.tokens := by
  obtain ⟨cb, tok, rfl, -⟩ := next_cases hn
  exact List.prefix_append _ _

theorem next_settled_other {cfg : CircuitBreakerConfig} {s s' : Sys} {op : Op} {now : ℤ} {i : ℕ}
    (hn : next cfg s (op, now) = some s') (hop : ∀ o, op ≠ .settle i o) :
    settled s'.history i = settled s.history i := by
  obtain ⟨cb, tok, rfl, -⟩ := next_cases hn
  exact settled_record_other s op now cb tok i hop

theorem next_settled_self {cfg : CircuitBreakerConfig} {s s' : Sys} {now : ℤ} {i : ℕ}
    {o : CBOutcome} (hn : next cfg s (.settle i o, now) = some s') : settled s'.history i = true := by
  obtain ⟨cb, tok, rfl, -⟩ := next_cases hn
  exact settled_record_self s o now cb tok i

theorem Inv.unissued {s : Sys} (h : Inv s) {i : ℕ} (hi : s.tokens.length ≤ i) :
    settled s.history i = false := by
  by_contra hs
  rw [Bool.not_eq_false, settled, List.any_eq_true] at hs
  obtain ⟨e, he, hop⟩ := hs
  split at hop
  · rename_i j o hj
    simp only [decide_eq_true_eq] at hop
    have := h.settles e he j o hj
    omega
  · cases hop

theorem Reachable.inv {cfg : CircuitBreakerConfig} {s : Sys} (h : Reachable cfg s) : Inv s := by
  obtain ⟨clock, labels, run⟩ := h
  exact Runs.exec_invariant (Inv.init clock) (fun _ _ _ => Inv.step) run

end EBeacon.Upstream.BreakerRun
