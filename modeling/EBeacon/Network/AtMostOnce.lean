import EBeacon.Library.Halting
import EBeacon.Network.Sends
import EBeacon.Network.Settlement

namespace EBeacon.Network

open Upstream Proc

def sentBy : Eff → List String
  | .send t => [t.upstream]
  | _ => []

def sends (m : Machine) : Label → List String
  | .thread i _ =>
    match m.threads[i]? with
    | some (.call e _) => sentBy e
    | _ => []
  | _ => []

def dispatched (cfg : String → CircuitBreakerConfig) (m : Machine) (labels : List Label) : List String :=
  Runs.collect (next cfg) sends m labels

structure Once (limit : ℕ) (sent : List String) (s : Shared) (G : Multiset Turn) : Prop where
  sends : Sends limit sent G
  results : Results s.channel G

variable {cfg : String → CircuitBreakerConfig} {limit : ℕ} {sent : List String} {s s' : Shared}
  {allow : List Pool → Upstream → Prop}

section Steps

variable {g : Turn} {G : Multiset Turn}

theorem Once.setChannel (h : Once limit sent s G) (hc : s'.channel = s.channel) : Once limit sent s' G :=
  ⟨h.sends, hc.symm ▸ h.results⟩

theorem pool_answer {site : Site} {c : Choice} {p : Pool}
    (h : execute cfg s (.pool site) c = some (p, s')) : c = .pool p := by
  cases c <;> simp only [execute, reduceCtorEq] at h
  cases h
  rfl

theorem Once.see (h : Once limit sent s (g ::ₘ G)) (p : Pool) : Once limit sent s (g.see p ::ₘ G) where
  sends := h.sends.replace Iff.rfl rfl rfl (le_refl _)
  results := h.results.replace rfl (h.results.waiting g (Multiset.mem_cons_self g G)) id rfl

theorem Once.acquire (h : Once limit sent s (g ::ₘ G)) {u : Upstream} (hneed : g.mayAcquire limit allow u)
    (token : Option ℕ) : Once limit sent s (g.acquired u (token.map (fun i => ⟨u.id, i⟩)) ::ₘ G) := by
  unfold Turn.mayAcquire at hneed
  cases hrole : g.role with
  | main =>
    rw [hrole] at hneed
    rw [Turn.acquired_main hrole]
    refine ⟨h.sends.attempt ?_ hrole hneed.fresh hneed.count, ?_⟩
    · intro t ht
      obtain ⟨i, -, rfl⟩ := Option.map_eq_some_iff.mp ht
      rfl
    · exact h.results.replace rfl (h.results.waiting g (Multiset.mem_cons_self g G)) id rfl
  | worker permit =>
    rw [hrole] at hneed
    have hpermit : permit = some u := hneed
    rw [Turn.acquired_worker hrole]
    refine ⟨h.sends.replace ?_ rfl rfl ?_, ?_⟩
    · simp [hrole]
    · apply add_le_add_right
      unfold Turn.claims
      rw [hrole, hpermit]
      cases token with
      | none => exact Multiset.zero_le _
      | some i =>
        change ({u.id} : Multiset String) + 0 ≤ _ + {u.id}
        rw [add_zero]
        exact le_add_of_nonneg_left (Multiset.zero_le _)
    · exact h.results.replace rfl (h.results.waiting g (Multiset.mem_cons_self g G)) id rfl

theorem Once.send (h : Once limit sent s (g ::ₘ G)) {t : Ticket} (ht : g.ready = some t) :
    Once limit (sent ++ [t.upstream]) s ({ g with ready := none } ::ₘ G) where
  sends := by
    refine h.sends.replace Iff.rfl rfl rfl (le_of_eq ?_)
    unfold Turn.claims
    dsimp only
    rw [ht, ← Multiset.coe_add, Multiset.coe_singleton]
    abel
  results := h.results.replace rfl (h.results.waiting g (Multiset.mem_cons_self g G)) id rfl

theorem Once.receive (h : Once limit sent s (g ::ₘ G)) {r : HedgeResult} {rest : List HedgeResult}
    (hc : s.channel = r :: rest) (hreader : g.reader = true) :
    r.upstream ∈ g.waiting ∧ Once limit sent { s with channel := rest } (g.received r.upstream ::ₘ G) := by
  have hresults := h.results
  rw [hc] at hresults
  obtain ⟨hmem, hreceived⟩ := hresults.receive hreader
  exact ⟨hmem, h.sends.replace Iff.rfl rfl rfl (le_refl _), hreceived⟩

theorem once_call {e : Eff} {c : Choice} {r : e.Answer} (h : Once limit sent s (g ::ₘ G))
    (hneed : Turn.need limit allow g e) (hs : execute cfg s e c = some (r, s'))
    (hpool : ∀ p, c = .pool p → Distinct p.upstreams) :
    Turn.may g e r ∧ ∃ qs : List (Go Unit × Turn), qs.map Prod.fst = spawn e ∧
      (∀ q ∈ qs, Safe (Turn.protocol limit allow) (fun _ g => g.Idle) q.1 q.2) ∧
      Once limit (sent ++ sentBy e) s' (Turn.after g e r ::ₘ (G + (qs.map Prod.snd : List Turn))) := by
  have plain : spawn e = [] →
      Turn.may g e r ∧ Once limit (sent ++ sentBy e) s' (Turn.after g e r ::ₘ G) →
      Turn.may g e r ∧ ∃ qs : List (Go Unit × Turn), qs.map Prod.fst = spawn e ∧
        (∀ q ∈ qs, Safe (Turn.protocol limit allow) (fun _ g => g.Idle) q.1 q.2) ∧
        Once limit (sent ++ sentBy e) s' (Turn.after g e r ::ₘ (G + (qs.map Prod.snd : List Turn))) := by
    rintro hspawn ⟨hmay, hl⟩
    exact ⟨hmay, [], hspawn.symm, nofun, by simpa using hl⟩
  have hsame : Once limit (sent ++ []) s (g ::ₘ G) := (List.append_nil sent).symm ▸ h
  cases performed hs with
  | pool site p => exact plain rfl ⟨hpool p (pool_answer hs), hsame.see p⟩
  | build => exact plain rfl ⟨trivial, hsame⟩
  | acquire hs' => exact plain rfl ⟨trivial, (hsame.acquire hneed _).setChannel (acquire_frame hs').2⟩
  | failed t canceled => exact plain rfl ⟨trivial, (h.send hneed).setChannel rfl⟩
  | replied => exact plain rfl ⟨trivial, h.send hneed⟩
  | read => exact plain rfl ⟨trivial, hsame.setChannel rfl⟩
  | close t => exact plain rfl ⟨trivial, hsame.setChannel (untrack_frame s t).2⟩
  | settle => exact plain rfl ⟨trivial, hsame.setChannel rfl⟩
  | retryDelay => exact plain rfl ⟨trivial, hsame⟩
  | fire u =>
    obtain ⟨hrole, hreader, hfresh, -⟩ := hneed
    refine ⟨trivial, [(hedgeAttempt u, Turn.hedge u)], rfl, ?_, ?_⟩
    · simpa using Turn.safe_hedgeAttempt u
    · exact ⟨hsame.sends.fire hrole hfresh, hsame.results.fire hreader⟩
  | post r =>
    refine plain rfl ⟨trivial, hsame.sends.replace Iff.rfl rfl rfl (le_refl _), ?_⟩
    exact hsame.results.post hneed
  | result armed hc =>
    obtain ⟨hmem, hreceived⟩ := hsame.receive hc hneed.1
    exact plain rfl ⟨hmem, hreceived⟩
  | timer => exact plain rfl ⟨rfl, hsame⟩
  | done => exact plain rfl ⟨trivial, hsame⟩
  | receive hc =>
    obtain ⟨hmem, hreceived⟩ := hsame.receive hc hneed.1
    exact plain rfl ⟨hmem, hreceived⟩
  | drain n =>
    obtain ⟨hreader, hn⟩ := hneed
    refine ⟨trivial, [(drainLoop n, Turn.drainer g.waiting)], rfl, ?_, ?_⟩
    · simpa using Turn.safe_drainLoop n g.waiting hn
    · refine ⟨?_, hsame.results.drain hreader⟩
      have hmain : Sends limit (sent ++ [] : List String) ({ g with reader := false, waiting := 0 } ::ₘ G) :=
        hsame.sends.replace Iff.rfl rfl rfl (le_refl _)
      exact Multiset.cons_add _ G _ ▸ hmain.start rfl rfl

end Steps

def Turns (limit : ℕ) (sent : List String) (m : Machine) : Prop :=
  Threads.Owned (Turn.protocol limit (fun _ _ => True)) Turn.Idle (Once limit sent) m

theorem turns_start (breakers : String → BreakerRun.Sys) (active : String → ℤ) (caller : Caller) (c : Call) :
    Turns c.fs.maxAttempts [] (start breakers active caller c) := by
  refine ⟨[(caller.run c, Turn.first)], rfl, ?_, ?_⟩
  · intro p hp
    rw [List.mem_singleton.mp hp]
    exact Turn.safe_run caller ⟨fun _ _ _ => trivial, fun _ _ _ _ _ => trivial, fun _ _ _ _ _ _ => trivial⟩
  · have hmem : ∀ x ∈ ([Turn.first] : List Turn), x = Turn.first := fun x hx => List.mem_singleton.mp hx
    refine ⟨⟨rfl, ?_, ?_, ?_, ?_⟩, ⟨?_, ?_, ?_, rfl⟩⟩
    · exact Multiset.nodup_zero
    · intro g _ _ x hx
      exact absurd hx (Multiset.notMem_zero x)
    · intro g hg _ hhedged
      rw [hmem g hg] at hhedged
      cases hhedged
    · intro g hg _
      rw [hmem g hg]
      exact Or.inr (Nat.zero_le _)
    · exact Nat.le_refl 1
    · intro g hg _
      rw [hmem g hg]
      rfl
    · intro g hg hne
      rw [hmem g hg] at hne
      exact absurd rfl hne

theorem sends_of_nextOther {m : Machine} {l : Label} (h : nextOther cfg m.shared l = some s) : sends m l = [] := by
  cases l with
  | thread i c => cases h
  | breaker u op now => rfl
  | conns u change => rfl

theorem Turns.step {m m' : Machine} {l : Label} (h : Turns limit sent m)
    (hpool : ∀ i p, l = .thread i (.pool p) → Distinct p.upstreams) (hs : next cfg m l = some m') :
    Turns limit (sent ++ sends m l) m' := by
  rcases next_cases cfg hs with ⟨s, hother, rfl⟩ | ⟨i, c, rfl, hthread⟩
  · obtain ⟨ps, hps, hsafe, honce⟩ := h
    rw [sends_of_nextOther hother, List.append_nil]
    exact ⟨ps, hps, hsafe, honce.setChannel (nextOther_frame cfg hother).2⟩
  · obtain ⟨e, k, r, s', hi, hperform, rfl⟩ := Threads.step_some hthread
    have hsends : sends m (.thread i c) = sentBy e := by
      simp [sends, hi]
    rw [hsends]
    refine Threads.Owned.advance h hi (fun g G honce hneed => ?_)
    exact once_call honce hneed hperform (fun p hp => hpool i p (by rw [hp]))

theorem turns_run {breakers : String → BreakerRun.Sys} {active : String → ℤ} {caller : Caller} {c : Call}
    {labels : List Label} {m : Machine}
    (run : Runs.exec (next cfg) (start breakers active caller c) labels = some m)
    (hpools : ∀ i p, .thread i (.pool p) ∈ labels → Distinct p.upstreams) :
    Turns c.fs.maxAttempts (dispatched cfg (start breakers active caller c) labels) m := by
  have hstep : ∀ l ∈ labels, ∀ sent t u, Turns c.fs.maxAttempts sent t → next cfg t l = some u →
      Turns c.fs.maxAttempts (sent ++ sends t l) u :=
    fun l hl sent t u h hs => h.step (fun i p heq => hpools i p (heq ▸ hl)) hs
  have hrun := Runs.collect_invariant hstep (turns_start breakers active caller c) run
  rwa [List.nil_append] at hrun

section Progress

def Ready (s : Shared) : Eff → Prop
  | .settle t _ => t.token < (s.breakers t.upstream).tokens.length
  | .select armed => armed = true ∨ s.channel ≠ []
  | .receive => s.channel ≠ []
  | _ => True

theorem takeResult_of_ne_nil (h : s.channel ≠ []) : ∃ out, takeResult s = some out := by
  unfold takeResult
  cases hc : s.channel with
  | nil => exact absurd hc h
  | cons r rest => exact ⟨_, rfl⟩

theorem next_breaker_now (cfg : CircuitBreakerConfig) (b : BreakerRun.Sys) (op : BreakerRun.Op)
    (hop : ∀ i o, op = .settle i o → i < b.tokens.length) :
    ∃ b', BreakerRun.next cfg b (op, b.clock) = some b' := by
  cases op with
  | settle i o =>
    have hi := hop i o rfl
    simp [BreakerRun.next, List.getElem?_eq_getElem hi]
  | _ => simp [BreakerRun.next]

theorem execute_of_ready (cfg : String → CircuitBreakerConfig) {e : Eff} (h : Ready s e) :
    ∃ c r s', c ≠ Choice.done ∧ execute cfg s e c = some (r, s') := by
  cases e with
  | pool site => exact ⟨.pool (.allReady []), _, _, by simp, rfl⟩
  | build u => exact ⟨.flag true, _, _, by simp, rfl⟩
  | acquire u =>
    obtain ⟨b, hb⟩ := next_breaker_now (cfg u.id) (s.breakers u.id) .tryAcquire (by rintro _ _ ⟨⟩)
    obtain ⟨out, hout⟩ : ∃ out, acquire cfg s u (s.breakers u.id).clock = some out := by
      rw [acquire, hb]
      exact ⟨_, rfl⟩
    exact ⟨.clock (s.breakers u.id).clock, out.1, out.2, by simp, hout⟩
  | send t => exact ⟨.delivery (.failed false), _, _, by simp, rfl⟩
  | read t complete => exact ⟨.none, _, _, by simp, rfl⟩
  | close t => exact ⟨.none, _, _, by simp, rfl⟩
  | settle t o =>
    obtain ⟨b, hb⟩ := next_breaker_now (cfg t.upstream) (s.breakers t.upstream) (.settle t.token o)
      (by rintro _ _ ⟨⟩; exact h)
    obtain ⟨out, hout⟩ : ∃ out, execute cfg s (.settle t o) (.clock (s.breakers t.upstream).clock) = some out := by
      rw [execute, hb]
      exact ⟨_, rfl⟩
    exact ⟨.clock (s.breakers t.upstream).clock, out.1, out.2, by simp, hout⟩
  | retryDelay attempt => exact ⟨.flag false, _, _, by simp, rfl⟩
  | fire u => exact ⟨.none, _, _, by simp, rfl⟩
  | post r => exact ⟨.none, _, _, by simp, rfl⟩
  | select armed =>
    rcases h with rfl | hne
    · exact ⟨.timer, _, _, by simp, rfl⟩
    · obtain ⟨out, hout⟩ := takeResult_of_ne_nil hne
      refine ⟨.result, .result out.1, out.2, by simp, ?_⟩
      simp [execute, hout]
  | receive =>
    obtain ⟨out, hout⟩ := takeResult_of_ne_nil h
    exact ⟨.result, out.1, out.2, by simp, hout⟩
  | drain n => exact ⟨.none, _, _, by simp, rfl⟩

variable {m : Machine} {active : String → ℤ} {checked : Prop}

theorem step_of_ready {i : ℕ} {e : Eff} {k : e.Answer → Go Unit} (hi : m.threads[i]? = some (.call e k))
    (h : Ready m.shared e) : ∃ i c m', c ≠ .done ∧ next cfg m (.thread i c) = some m' := by
  obtain ⟨c, r, s', hc, hexecute⟩ := execute_of_ready cfg h
  refine ⟨i, c, ⟨s', m.threads.set i (k r) ++ spawn e⟩, hc, ?_⟩
  simp only [next, Threads.step, hi, hexecute, Option.map_some]

theorem ready_or_waits (haccounted : Accounted active checked m) {i : ℕ} {e : Eff} {k : e.Answer → Go Unit}
    (hi : m.threads[i]? = some (.call e k)) {g : Turn} (hneed : Turn.need limit allow g e) :
    Ready m.shared e ∨ g.reader = true ∧ g.waiting ≠ 0 ∧ m.shared.channel = [] := by
  cases e with
  | settle t o =>
    obtain ⟨g, G, hledger, hneed⟩ := (haccounted.owned t).call hi
    obtain ⟨l, hheld, -⟩ := hneed rfl
    have hown := hledger.own
    rw [hheld] at hown
    exact Or.inl (hledger.issued t hown.held.2.granted)
  | select armed =>
    by_cases hc : m.shared.channel = []
    · obtain ⟨hreader, harmed | hwaiting⟩ := hneed
      · exact Or.inl (Or.inl harmed)
      · exact Or.inr ⟨hreader, hwaiting, hc⟩
    · exact Or.inl (Or.inr hc)
  | receive =>
    by_cases hc : m.shared.channel = []
    · exact Or.inr ⟨hneed.1, hneed.2, hc⟩
    · exact Or.inl hc
  | _ => exact Or.inl trivial

theorem progress (haccounted : Accounted active checked m) (hturns : Turns limit sent m) :
    finished m ∨ ∃ i c m', c ≠ .done ∧ next cfg m (.thread i c) = some m' := by
  by_cases hf : finished m
  · exact Or.inl hf
  refine Or.inr ?_
  obtain ⟨p, hp, hne⟩ : ∃ p ∈ m.threads, p ≠ .ret () := by
    simpa [finished] using hf
  obtain ⟨i, hi⟩ := List.getElem?_of_mem hp
  cases p with
  | ret a => exact absurd rfl hne
  | call e k =>
    obtain ⟨g, G, honce, hsafe, hothers⟩ := hturns.thread hi
    have hneed := (safe_call.mp hsafe).1
    rcases ready_or_waits haccounted hi hneed with hready | ⟨hreader, hwaiting, hc⟩
    · exact step_of_ready hi hready
    -- some other goroutine owes what this one waits for
    have hall := honce.results.waits_for hreader
    have howes : g.owes = 0 := by
      by_contra howes
      have hfalse := honce.results.owing g (Multiset.mem_cons_self g G) howes
      rw [hreader] at hfalse
      cases hfalse
    rw [hc, List.map_nil, howes, Multiset.coe_nil, zero_add, add_zero] at hall
    obtain ⟨x, hx, hxowes⟩ : ∃ x ∈ G, x.owes ≠ 0 := by
      by_contra hnone
      refine hwaiting (hall.trans (Multiset.sum_eq_zero (fun y hy => ?_)))
      obtain ⟨x, hx, rfl⟩ := Multiset.mem_map.mp hy
      by_contra hne
      exact hnone ⟨x, hx, hne⟩
    have hxreader := honce.results.owing x (Multiset.mem_cons_of_mem hx) hxowes
    obtain ⟨q, hq, hqsafe⟩ := hothers x hx
    obtain ⟨j, hj⟩ := List.getElem?_of_mem hq
    cases q with
    | ret a => exact absurd (safe_ret.mp hqsafe).2 hxowes
    | call e' k' =>
      rcases ready_or_waits haccounted hj (safe_call.mp hqsafe).1 with hready | ⟨hr, -, -⟩
      · exact step_of_ready hj hready
      · rw [hr] at hxreader
        cases hxreader

end Progress

section Termination

theorem spawn_of_quiet (e : Eff) (he : e.quiet) : spawn e = [] := by
  cases e <;> first | rfl | cases he

theorem forward_starts_none (u : Upstream) : Only (fun e => spawn e = []) (forward u) := by
  refine (attempts_forward u).mono fun e he => ?_
  cases e <;> first | rfl | exact he.elim

theorem drainLoop_starts_none (n : ℕ) : Only (fun e => spawn e = []) (drainLoop n) := by
  induction n with
  | zero => exact .pure _
  | succ n ih =>
    refine .perform rfl fun r => ?_
    exact ((quiet_discard r.attempt).mono spawn_of_quiet).bind (fun _ => ih)

theorem started_start_none (e : Eff) : ∀ q ∈ spawn e, Only (fun e => spawn e = []) q := by
  intro q hq
  cases e with
  | fire u =>
    rw [List.mem_singleton.mp hq]
    exact (forward_starts_none u).bind (fun a => .single rfl)
  | drain n =>
    rw [List.mem_singleton.mp hq]
    exact drainLoop_starts_none n
  | _ => cases hq

theorem finitely_many_steps (states : ℕ → Machine) (labels : ℕ → Label)
    (hrun : ∀ n, next cfg (states n) (labels n) = some (states (n + 1))) :
    ∃ N, ∀ n, N ≤ n → ∀ i c, labels n ≠ .thread i c := by
  have hdown : ∀ n, (∃ i c, labels n = .thread i c) →
      Relation.CutExpand (Threads.Child spawn) ((states (n + 1)).threads : Multiset (Go Unit))
        (states n).threads := by
    rintro n ⟨i, c, hl⟩
    have hstep := hrun n
    rw [hl] at hstep
    exact Threads.step_cutExpand hstep
  have hstay : ∀ n, ¬ (∃ i c, labels n = .thread i c) →
      ((states (n + 1)).threads : Multiset (Go Unit)) = (states n).threads := by
    intro n hn
    have hstep := hrun n
    cases hl : labels n with
    | thread i c => exact absurd ⟨i, c, hl⟩ hn
    | breaker u op now =>
      rw [hl] at hstep
      obtain ⟨s, -, hout⟩ := Option.map_eq_some_iff.mp hstep
      rw [← hout]
    | conns u change =>
      rw [hl] at hstep
      rw [← Option.some.inj hstep]
  obtain ⟨N, hN⟩ := Threads.finitely_many_descents
    (Threads.child_wellFounded started_start_none).cutExpand
    (fun n => ((states n).threads : Multiset (Go Unit))) hdown hstay
  exact ⟨N, fun n hn i c hl => hN n hn ⟨i, c, hl⟩⟩

end Termination

theorem Once.nodup {G : Multiset Turn} (h : Once limit sent s G) : sent.Nodup :=
  Multiset.coe_nodup.mp (Multiset.nodup_of_le (Multiset.le_add_right _ _) h.sends.nodup)

theorem Once.length_le {G : Multiset Turn} (h : Once limit sent s G) (hG : G.card = 1) :
    sent.length ≤ limit + 1 := by
  obtain ⟨g, hg, hmain⟩ := h.sends.exists_main
  have hhedged : g.hedged ≠ true := by
    intro hhedged
    have htwo := h.sends.hedged g hg hmain hhedged
    omega
  have hlen := (h.sends.count g hg hmain).resolve_left hhedged
  have hsub : sent ⊆ g.tried.map (·.id) := by
    intro x hx
    obtain ⟨u, hu, rfl⟩ := h.sends.tried g hg hmain x (Multiset.mem_add.mpr (Or.inl (Multiset.mem_coe.mpr hx)))
    exact List.mem_map_of_mem hu
  have hle := (List.subperm_of_subset h.nodup hsub).length_le
  rw [List.length_map] at hle
  omega

/-- No upstream is sent the request twice, however the goroutines interleave and whatever the
upstreams answer, and the goroutines come to an end: they make finitely many steps, and until all
have ended one of them can go on. The call is sequential as long as it runs in one goroutine. -/
theorem dispatched_once (cfg : String → CircuitBreakerConfig) (breakers : String → BreakerRun.Sys)
    (active : String → ℤ) (caller : Caller) (c : Call)
    (hb : ∀ u, BreakerRun.Reachable (cfg u) (breakers u)) (labels : List Label) (m : Machine)
    (run : Runs.exec (next cfg) (start breakers active caller c) labels = some m)
    (hpools : ∀ i p, .thread i (.pool p) ∈ labels → Distinct p.upstreams) :
    (dispatched cfg (start breakers active caller c) labels).Nodup ∧
      (m.threads.length = 1 →
        (dispatched cfg (start breakers active caller c) labels).length ≤ c.fs.maxAttempts + 1) ∧
      (finished m ∨ ∃ i choice m', choice ≠ .done ∧ next cfg m (.thread i choice) = some m') ∧
      ∀ (states : ℕ → Machine) (steps : ℕ → Label), states 0 = m →
        (∀ n, next cfg (states n) (steps n) = some (states (n + 1))) →
        ∃ N, ∀ n, N ≤ n → ∀ i choice, steps n ≠ .thread i choice := by
  have hturns := turns_run run hpools
  obtain ⟨ps, hps, -, honce⟩ := hturns
  refine ⟨honce.nodup, fun hlen => honce.length_le ?_, ?_, fun states steps _ => finitely_many_steps states steps⟩
  · rw [Multiset.coe_card, List.length_map, ← hlen, ← hps, List.length_map]
  · have haccounted : Accounted active False m := Accounted.run hb False.elim run
    exact progress haccounted (turns_run run hpools)

theorem dispatched_once_hedged :
    ∃ m, Runs.exec (next breakerConfig)
        (start idleBreakers 0 .direct (genesisCall 2147483648 (some ⟨1⟩))) hedgedRun = some m ∧
      dispatched breakerConfig (start idleBreakers 0 .direct (genesisCall 2147483648 (some ⟨1⟩))) hedgedRun =
        ["first", "second"] ∧
      (dispatched breakerConfig (start idleBreakers 0 .direct (genesisCall 2147483648 (some ⟨1⟩)))
        hedgedRun).Nodup := by
  obtain ⟨m, run, hsent⟩ : ∃ m, Runs.exec (next breakerConfig)
        (start idleBreakers 0 .direct (genesisCall 2147483648 (some ⟨1⟩))) hedgedRun = some m ∧
      dispatched breakerConfig (start idleBreakers 0 .direct (genesisCall 2147483648 (some ⟨1⟩))) hedgedRun =
        ["first", "second"] := ⟨_, rfl, rfl⟩
  have hpools : ∀ i p, .thread i (.pool p) ∈ hedgedRun → Distinct p.upstreams := by
    intro i p hp
    obtain ⟨-, rfl⟩ : i = 0 ∧ p = nodePair := by
      simpa [hedgedRun, answeredBy] using hp
    decide
  exact ⟨m, run, hsent, (dispatched_once breakerConfig idleBreakers 0 .direct
    (genesisCall 2147483648 (some ⟨1⟩)) idleBreakers_reachable hedgedRun m run hpools).1⟩

end EBeacon.Network
