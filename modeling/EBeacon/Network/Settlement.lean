import EBeacon.Network.Ledger
import Mathlib.Algebra.Ring.Int.Defs

namespace EBeacon.Network

open Upstream Proc

def CreditsRead (trace : List Event) : Prop :=
  ∀ before t rest, trace = before ++ .settle t .success :: rest → .read t true ∈ before

theorem CreditsRead.concat {trace : List Event} (h : CreditsRead trace) {e : Event}
    (he : ∀ t, e = .settle t .success → .read t true ∈ trace) : CreditsRead (trace ++ [e]) := by
  intro before t rest heq
  rcases List.eq_nil_or_concat rest with rfl | ⟨rest, e', rfl⟩
  · obtain ⟨rfl, hlast⟩ := List.append_inj' heq rfl
    exact he t (by simpa using hlast)
  · rw [List.concat_eq_append, ← List.cons_append, ← List.append_assoc] at heq
    exact h before t rest (List.append_inj' heq rfl).1

structure Tally (active : String → ℤ) (checked : Prop) (s : Shared) : Prop where
  conns : ∀ u, s.activeConns u =
    active u + s.elsewhere u + ((s.tracked.filter (fun t => t.upstream = u)).card : ℤ)
  credits : checked → CreditsRead s.trace

namespace Tally

variable {active : String → ℤ} {checked : Prop} {s : Shared} {t : Ticket}

theorem grant (h : Tally active checked s) (ht : t ∉ s.tracked) :
    Tally active checked (s.grant t) := by
  refine ⟨fun u => ?_, h.credits⟩
  have hu := h.conns u
  simp only [Shared.grant, Shared.addActive, Finset.filter_insert]
  by_cases htu : t.upstream = u
  · subst htu
    rw [if_pos rfl, Finset.card_insert_of_notMem (by simp [ht]), Function.update_self, hu]
    push_cast
    omega
  · rw [if_neg htu, Function.update_of_ne (Ne.symm htu), hu]

theorem erase (h : Tally active checked s) (ht : t ∈ s.tracked) :
    Tally active checked { s.addActive t.upstream (-1) with tracked := s.tracked.erase t } := by
  refine ⟨fun u => ?_, h.credits⟩
  have hu := h.conns u
  simp only [Shared.addActive, Finset.filter_erase]
  by_cases htu : t.upstream = u
  · subst htu
    have hin : t ∈ s.tracked.filter (fun t' => t'.upstream = t.upstream) := by simp [ht]
    have hcard := Finset.card_erase_add_one hin
    rw [Function.update_self, hu]
    omega
  · have hout : t ∉ s.tracked.filter (fun t' => t'.upstream = u) := by simp [htu]
    rw [Finset.erase_eq_of_notMem hout, Function.update_of_ne (Ne.symm htu), hu]

theorem untrack (h : Tally active checked s) : Tally active checked (s.untrack t) := by
  unfold Shared.untrack
  split_ifs with ht
  · exact h.erase ht
  · exact h

theorem event (h : Tally active checked s) {e : Event}
    (he : checked → ∀ t, e = .settle t .success → .read t true ∈ s.trace) :
    Tally active checked { s with trace := s.trace ++ [e] } :=
  ⟨h.conns, fun hc => (h.credits hc).concat (he hc)⟩

theorem setBreaker (h : Tally active checked s) (u : String) (b : BreakerRun.Sys) :
    Tally active checked (s.setBreaker u b) := ⟨h.conns, h.credits⟩

theorem setChannel (h : Tally active checked s) (channel : List HedgeResult) :
    Tally active checked { s with channel := channel } := ⟨h.conns, h.credits⟩

theorem acquire (h : Tally active checked s) {cfg : String → CircuitBreakerConfig} {u : Upstream}
    {now : ℤ} {r : Option ℕ} {s' : Shared} (hs : Network.acquire cfg s u now = some (r, s'))
    (hl : ∀ t, ∃ g G, Ledger t s (g ::ₘ G)) : Tally active checked s' := by
  obtain ⟨b, hn, ⟨rfl, rfl⟩ | ⟨hlen, rfl, rfl⟩⟩ := acquire_cases hs
  · exact h.setBreaker u.id b
  · apply (h.setBreaker u.id b).grant
    obtain ⟨g, G, hledger⟩ := hl ⟨u.id, (s.breakers u.id).tokens.length⟩
    exact (hledger.unissued le_rfl).2.1

theorem execute (h : Tally active checked s) {cfg : String → CircuitBreakerConfig} {e : Eff}
    {c : Choice} {r : e.Answer} {s' : Shared} (hs : Network.execute cfg s e c = some (r, s'))
    (hl : ∀ t, ∃ g G, Ledger t s (g ::ₘ G) ∧ need t checked g e) : Tally active checked s' := by
  cases performed hs with
  | pool => exact h
  | build => exact h
  | acquire hs =>
    apply h.acquire hs
    intro t
    obtain ⟨g, G, hledger, -⟩ := hl t
    exact ⟨g, G, hledger⟩
  | failed t' =>
    obtain ⟨g, G, hledger, hneed⟩ := hl t'
    have hown := hledger.own
    rw [hneed rfl] at hown
    exact h.erase (hown.held.2.isOpen.mp rfl)
  | replied => exact h
  | read => exact h.event (fun _ _ => nofun)
  | close => exact h.untrack
  | @settle t' =>
    apply (h.setBreaker _ _).event
    intro hchecked t ht
    injection ht with ht ho
    subst ht
    -- the owner settles with success only what it has read
    obtain ⟨g, G, hledger, hneed⟩ := hl t'
    obtain ⟨l, hl, -, hread⟩ := hneed rfl
    have hown := hledger.own
    rw [hl] at hown
    exact hown.held.2.read (hread hchecked ho)
  | retryDelay => exact h
  | fire => exact h
  | post => exact h.setChannel _
  | result => exact h.setChannel _
  | timer => exact h
  | done => exact h
  | receive => exact h.setChannel _
  | drain => exact h

end Tally

section Machine

variable {cfg : String → CircuitBreakerConfig} {breakers : String → BreakerRun.Sys}
  {active : String → ℤ} {caller : Caller} {c : Call} {checked : Prop} {t : Ticket}

theorem Ledger.nextOther {s s' : Shared} {G : Multiset Ghost} (h : Ledger t s G) {l : Label}
    (hs : nextOther cfg s l = some s') : Ledger t s' G := by
  cases l with
  | thread i c => cases hs
  | conns u change =>
    cases hs
    exact h.frame rfl rfl rfl Iff.rfl id
  | breaker u op now =>
    simp only [Network.nextOther] at hs
    split_ifs at hs with hours
    obtain ⟨b, hn, rfl⟩ := Option.map_eq_some_iff.mp hs
    by_cases hin : t ∈ s.granted
    · apply h.breaker hn
      intro hu o hop
      subst hu hop
      simp [settlesOurs, hin] at hours
    · -- another call may hold and settle the token of a ticket that is not of this call
      obtain ⟨hzero, -, hopen⟩ | ⟨l, -, hm⟩ := h.account
      · exact ⟨h.setBreaker_inv hn, fun t' ht' => setBreaker_issued hn (h.issued t' ht'), h.counts,
          h.channel, Or.inl ⟨hzero, fun hin' => absurd hin' hin, hopen⟩⟩
      · exact absurd hm.granted hin

theorem Tally.nextOther {s s' : Shared} (h : Tally active checked s) {l : Label}
    (hs : nextOther cfg s l = some s') : Tally active checked s' := by
  cases l with
  | thread i c => cases hs
  | breaker u op now =>
    simp only [Network.nextOther] at hs
    split_ifs at hs
    obtain ⟨b, -, rfl⟩ := Option.map_eq_some_iff.mp hs
    exact h.setBreaker u b
  | conns u change =>
    cases hs
    refine ⟨fun u' => ?_, h.credits⟩
    have hu := h.conns u'
    simp only [Shared.addActive]
    by_cases hne : u' = u
    · subst hne
      simp only [Function.update_self]
      omega
    · simpa only [Function.update_of_ne hne] using hu

structure Accounted (active : String → ℤ) (checked : Prop) (m : Machine) : Prop where
  owned : ∀ t, Threads.Owned (protocol t checked) Ghost.Idle (Ledger t) m
  tally : Tally active checked m.shared

theorem Accounted.start (hb : ∀ u, BreakerRun.Reachable (cfg u) (breakers u))
    (hc : checked → c.maxResponseBytes ≠ Int64.maxValue) :
    Accounted active checked (start breakers active caller c) where
  owned t := by
    refine ⟨[(caller.run c, ⟨none, true, 0, 0⟩)], rfl, ?_, ?_⟩
    · simpa using safe_run caller hc
    · refine ⟨fun u => (hb u).inv, nofun, ⟨?_, ?_, rfl⟩, nofun, Or.inl ⟨rfl, nofun, nofun⟩⟩
      · exact Multiset.countP_le_card _ _
      · intro g hg howed
        simp only [List.map_cons, List.map_nil, Multiset.coe_singleton, Multiset.mem_singleton] at hg
        rw [hg]
  tally := by
    refine ⟨fun u => ?_, fun _ before t rest h => ?_⟩
    · simp [Network.start]
    · simp [Network.start] at h

theorem Accounted.next {m m' : Machine} (h : Accounted active checked m) {l : Label}
    (hs : next cfg m l = some m') : Accounted active checked m' := by
  rcases next_cases cfg hs with ⟨s, hother, rfl⟩ | ⟨i, c, rfl, hthread⟩
  · refine ⟨fun t => ?_, h.tally.nextOther hother⟩
    obtain ⟨ps, hps, hsafe, hledger⟩ := h.owned t
    exact ⟨ps, hps, hsafe, hledger.nextOther hother⟩
  · refine ⟨fun t => (h.owned t).step (ledger_preserves cfg t checked) hthread, ?_⟩
    obtain ⟨e, k, r, s', hi, hperform, rfl⟩ := Threads.step_some hthread
    exact h.tally.execute hperform (fun t => (h.owned t).call hi)

theorem Accounted.run (hb : ∀ u, BreakerRun.Reachable (cfg u) (breakers u))
    (hc : checked → c.maxResponseBytes ≠ Int64.maxValue) {labels : List Label} {m : Machine}
    (run : Runs.exec (Network.next cfg) (Network.start breakers active caller c) labels = some m) :
    Accounted active checked m :=
  Runs.exec_invariant (I := Accounted active checked) (Accounted.start hb hc)
    (fun _ _ _ h hs => h.next hs) run

theorem Ledger.closed {s : Shared} {G : Multiset Ghost} (h : Ledger t s G) (hG : ∀ g ∈ G, g.Idle) :
    (t ∈ s.granted → settledIn s t = true) ∧ t ∉ s.tracked := by
  have hheld : G.filterMap Ghost.held = 0 := by
    apply Multiset.eq_zero_of_forall_notMem
    intro l hl
    obtain ⟨g, hg, hgl⟩ := (Multiset.mem_filterMap _ _).mp hl
    simp [(hG g hg).1] at hgl
  have howed : (G.map Ghost.owed).sum = 0 := by
    apply Multiset.sum_eq_zero
    intro n hn
    obtain ⟨g, hg, rfl⟩ := Multiset.mem_map.mp hn
    exact (hG g hg).2.1
  have hempty : s.channel = [] := by
    apply List.eq_nil_of_length_eq_zero
    have hbalance := h.counts.balance
    omega
  have haccount := h.account
  rw [hheld, hempty] at haccount
  obtain ⟨-, hdone, hopen⟩ | ⟨l, hl, -⟩ := haccount
  · exact ⟨hdone, hopen⟩
  · simp [channelLives] at hl

theorem Accounted.closed {m : Machine} (h : Accounted active checked m) (hf : finished m) (t : Ticket) :
    (t ∈ m.shared.granted → settledIn m.shared t = true) ∧ t ∉ m.shared.tracked := by
  obtain ⟨G, hledger, hidle⟩ := (h.owned t).finished hf
  exact hledger.closed hidle

theorem Accounted.breakerInv {m : Machine} (h : Accounted active checked m) (u : String) :
    BreakerRun.Inv (m.shared.breakers u) := by
  obtain ⟨ps, -, -, hledger⟩ := h.owned ⟨u, 0⟩
  exact hledger.breakers u

structure Clean (active : String → ℤ) (s : Shared) : Prop where
  settled : ∀ t ∈ s.granted, settledIn s t = true
  closed : s.tracked = ∅
  conns : ∀ u, s.activeConns u = active u + s.elsewhere u
  -- a probe that is still in flight is one that another call was granted
  probes : ∀ u, (s.breakers u).cb.cbProbeInFlight = true → ∃ (i : ℕ) (tok : CBToken),
    (s.breakers u).tokens[i]? = some tok ∧ tok.probe = true ∧
      tok.gen = (s.breakers u).cb.cbProbeGen ∧ ⟨u, i⟩ ∉ s.granted

theorem Accounted.clean {m : Machine} (h : Accounted active checked m) (hf : finished m) :
    Clean active m.shared := by
  have hclosed : m.shared.tracked = ∅ :=
    Finset.eq_empty_of_forall_notMem (fun t => (h.closed hf t).2)
  refine ⟨fun t => (h.closed hf t).1, hclosed, fun u => ?_, fun u hprobe => ?_⟩
  · have hu := h.tally.conns u
    simpa [hclosed] using hu
  · obtain ⟨i, tok, htok, hkind, hgen⟩ := (h.breakerInv u).flying hprobe
    refine ⟨i, tok, htok, hkind, hgen, fun hin => ?_⟩
    have hpending := ((h.breakerInv u).token i tok htok).pending hkind
    have hunsettled := hpending.mpr ⟨hprobe, hgen.symm⟩
    have hsettled := (h.closed hf ⟨u, i⟩).1 hin
    exact absurd (hsettled.symm.trans hunsettled) (by simp)

end Machine

/-- However its goroutines interleave, with each other and with other calls, a call ends with its
tokens settled, its bodies closed and its counters restored. It credits a success only to a body
that was read to the end, unless the limit on bodies is the largest `int64`. -/
theorem call_settles (cfg : String → CircuitBreakerConfig) (breakers : String → BreakerRun.Sys)
    (active : String → ℤ) (caller : Caller) (c : Call)
    (hb : ∀ u, BreakerRun.Reachable (cfg u) (breakers u)) (labels : List Label) (m : Machine)
    (run : Runs.exec (next cfg) (start breakers active caller c) labels = some m)
    (hf : finished m) :
    Clean active m.shared ∧ (c.maxResponseBytes ≠ Int64.maxValue → CreditsRead m.shared.trace) := by
  have haccounted : Accounted active (c.maxResponseBytes ≠ Int64.maxValue) m :=
    Accounted.run hb id run
  exact ⟨haccounted.clean hf, haccounted.tally.credits⟩

section Example

def nodePair : Pool := .allReady [⟨"first", false⟩, ⟨"second", false⟩]

def genesisCall (limit : Int64) (hedge : Option HedgeConfig) : Call where
  path := "/eth/v1/beacon/genesis"
  apiPath := "/eth/v1/beacon/genesis"
  preferID := ""
  required := .zero
  fs := ⟨none, hedge⟩
  maxResponseBytes := limit

def breakerConfig : String → CircuitBreakerConfig := fun _ => ⟨5, 2, 30⟩

def idleBreakers : String → BreakerRun.Sys := fun _ => .init 0

theorem idleBreakers_reachable (u : String) : BreakerRun.Reachable (breakerConfig u) (idleBreakers u) :=
  ⟨0, [], rfl⟩

def answeredBy (i : ℕ) : List Label :=
  [.thread i (.flag true), .thread i (.clock 0),
    .thread i (.delivery (.replied 200 .identity (.whole "ok")))]

def hedgedRun : List Label :=
  [.thread 0 (.pool nodePair), .thread 0 (.pool nodePair), .thread 0 (.pool nodePair),
    .thread 0 .none, .thread 0 .timer, .thread 0 .none] ++ answeredBy 1 ++ answeredBy 2 ++
  [.thread 2 .none, .thread 0 .result, .thread 0 (.pool nodePair), .thread 0 .none,
    .thread 1 .none, .thread 0 .none, .thread 3 .result, .thread 0 (.clock 1), .thread 3 .none,
    .thread 3 (.clock 1), .thread 0 .none]

theorem call_settles_hedged :
    ∃ m, Runs.exec (next breakerConfig)
        (start idleBreakers 0 .direct (genesisCall 2147483648 (some ⟨1⟩))) hedgedRun = some m ∧
      finished m ∧ m.shared.granted = [⟨"first", 0⟩, ⟨"second", 0⟩] ∧ Clean 0 m.shared ∧
      CreditsRead m.shared.trace := by
  obtain ⟨m, run, hthreads, hgranted⟩ : ∃ m, Runs.exec (next breakerConfig)
        (start idleBreakers 0 .direct (genesisCall 2147483648 (some ⟨1⟩))) hedgedRun = some m ∧
      m.threads = [.ret (), .ret (), .ret (), .ret ()] ∧
      m.shared.granted = [⟨"first", 0⟩, ⟨"second", 0⟩] := ⟨_, rfl, rfl, rfl⟩
  have hf : finished m := by simp [finished, hthreads]
  obtain ⟨hclean, hcredits⟩ := call_settles breakerConfig idleBreakers 0 .direct
    (genesisCall 2147483648 (some ⟨1⟩)) idleBreakers_reachable hedgedRun m run hf
  exact ⟨m, run, hf, hgranted, hclean, hcredits (by decide)⟩

theorem call_settles_unread :
    ∃ labels m, Runs.exec (next breakerConfig)
        (start idleBreakers 0 .direct (genesisCall Int64.maxValue none)) labels = some m ∧
      finished m ∧
      m.shared.trace = [.read ⟨"first", 0⟩ false, .settle ⟨"first", 0⟩ .success] ∧
      ¬ CreditsRead m.shared.trace := by
  obtain ⟨m, run, hthreads, htrace⟩ : ∃ m, Runs.exec (next breakerConfig)
        (start idleBreakers 0 .direct (genesisCall Int64.maxValue none))
        ([.thread 0 (.pool nodePair), .thread 0 (.pool nodePair), .thread 0 (.pool nodePair)] ++
          answeredBy 0 ++ [.thread 0 .none, .thread 0 (.clock 1), .thread 0 .none]) = some m ∧
      m.threads = [.ret ()] ∧
      m.shared.trace = [.read ⟨"first", 0⟩ false, .settle ⟨"first", 0⟩ .success] := ⟨_, rfl, rfl, rfl⟩
  refine ⟨_, m, run, by simp [finished, hthreads], htrace, fun hcredits => ?_⟩
  have hread := hcredits [.read ⟨"first", 0⟩ false] ⟨"first", 0⟩ [] htrace
  simp at hread

end Example

end EBeacon.Network
