import EBeacon.Network.Ownership
import Mathlib.Algebra.BigOperators.Group.Multiset.Basic

namespace EBeacon.Network

open Upstream Proc

def settledIn (s : Shared) (t : Ticket) : Bool :=
  BreakerRun.settled (s.breakers t.upstream).history t.token

structure Matches (s : Shared) (t : Ticket) (l : Life) : Prop where
  granted : t ∈ s.granted
  isOpen : l.isOpen = true ↔ t ∈ s.tracked
  settled : l.settled = settledIn s t
  read : l.read = true → .read t true ∈ s.trace

def Account (s : Shared) (t : Ticket) (lives : Multiset Life) : Prop :=
  lives = 0 ∧ (t ∈ s.granted → settledIn s t = true) ∧ t ∉ s.tracked ∨
    ∃ l, lives = {l} ∧ Matches s t l

def channelLives (t : Ticket) (channel : List HedgeResult) : Multiset Life :=
  (channel.filterMap (fun r => r.attempt.life t) : List Life)

structure Counts (G : Multiset Ghost) (results : ℕ) : Prop where
  reader : G.countP (fun g => g.reader = true) ≤ 1
  owing : ∀ g ∈ G, 0 < g.owed → g.reader = true
  balance : (G.map Ghost.owed).sum = (G.map Ghost.debt).sum + results

structure Ledger (t : Ticket) (s : Shared) (G : Multiset Ghost) : Prop where
  breakers : ∀ u, BreakerRun.Inv (s.breakers u)
  issued : ∀ t' ∈ s.granted, t'.token < (s.breakers t'.upstream).tokens.length
  counts : Counts G s.channel.length
  channel : ∀ r ∈ s.channel, r.attempt.WellFormed
  account : Account s t (G.filterMap Ghost.held + channelLives t s.channel)

namespace Counts

variable {g g' : Ghost} {G : Multiset Ghost} {n : ℕ}

theorem replace (h : Counts (g ::ₘ G) n) {m : ℕ} (hr : g'.reader = g.reader)
    (ho : 0 < g'.owed → g'.reader = true) (hb : g'.owed + g.debt + n = g.owed + g'.debt + m) :
    Counts (g' ::ₘ G) m := by
  obtain ⟨hreader, howing, hbalance⟩ := h
  simp only [Multiset.countP_cons, Multiset.map_cons, Multiset.sum_cons, Multiset.mem_cons,
    forall_eq_or_imp] at hreader howing hbalance ⊢
  refine ⟨?_, ?_, ?_⟩
  · simpa only [Multiset.countP_cons, hr] using hreader
  · intro x hx
    rcases Multiset.mem_cons.mp hx with rfl | hx
    · exact ho
    · exact howing.2 x hx
  · simp only [Multiset.map_cons, Multiset.sum_cons]
    omega

theorem reads_all (h : Counts (g ::ₘ G) n) (hr : g.reader = true) : (G.map Ghost.owed).sum = 0 := by
  have hothers : ∀ x ∈ G, x.owed = 0 := by
    intro x hx
    have hcount := h.reader
    simp only [Multiset.countP_cons, hr, if_true] at hcount
    have hzero : G.countP (fun g => g.reader = true) = 0 := by omega
    have hnot := (Multiset.countP_eq_zero.mp hzero) x hx
    have howing := h.owing x (Multiset.mem_cons_of_mem hx)
    by_contra hne
    exact hnot (howing (by omega))
  apply Multiset.sum_eq_zero
  intro y hy
  obtain ⟨x, hx, rfl⟩ := Multiset.mem_map.mp hy
  exact hothers x hx

theorem owed_pos (h : Counts (g ::ₘ G) (n + 1)) (hr : g.reader = true) : 0 < g.owed := by
  have hall := h.reads_all hr
  have hbalance := h.balance
  simp only [Multiset.map_cons, Multiset.sum_cons] at hbalance
  omega

theorem fire (h : Counts (g ::ₘ G) n) (hr : g.reader = true) :
    Counts ({ g with owed := g.owed + 1 } ::ₘ (G + {⟨none, false, 0, 1⟩})) n := by
  have hstep : Counts ({ g with owed := g.owed + 1 } ::ₘ ⟨none, false, 0, 1⟩ ::ₘ G) n := by
    obtain ⟨hreader, howing, hbalance⟩ := h
    refine ⟨?_, ?_, ?_⟩
    · simpa [Multiset.countP_cons] using hreader
    · intro x hx
      simp only [Multiset.mem_cons] at hx
      rcases hx with rfl | rfl | hx
      · exact fun _ => hr
      · exact nofun
      · exact howing x (Multiset.mem_cons_of_mem hx)
    · simp only [Multiset.map_cons, Multiset.sum_cons] at hbalance ⊢
      omega
  rwa [Multiset.add_comm, Multiset.singleton_add]

theorem drain (h : Counts (g ::ₘ G) n) (hr : g.reader = true) :
    Counts ({ g with reader := false, owed := 0 } ::ₘ (G + {⟨none, true, g.owed, 0⟩})) n := by
  have hstep : Counts ({ g with reader := false, owed := 0 } ::ₘ ⟨none, true, g.owed, 0⟩ ::ₘ G) n := by
    obtain ⟨hreader, howing, hbalance⟩ := h
    refine ⟨?_, ?_, ?_⟩
    · simpa [Multiset.countP_cons, hr] using hreader
    · intro x hx
      simp only [Multiset.mem_cons] at hx
      rcases hx with rfl | rfl | hx
      · exact nofun
      · exact fun _ => rfl
      · exact howing x (Multiset.mem_cons_of_mem hx)
    · simp only [Multiset.map_cons, Multiset.sum_cons] at hbalance ⊢
      omega
  rwa [Multiset.add_comm, Multiset.singleton_add]

end Counts

section Account

variable {s : Shared} {t : Ticket} {x : Option Life} {rest : Multiset Life}

theorem filterMap_held_cons (g : Ghost) (G : Multiset Ghost) :
    (g ::ₘ G).filterMap Ghost.held = (g.held.toList : Multiset Life) + G.filterMap Ghost.held := by
  cases h : g.held with
  | none => simp [Multiset.filterMap_cons_none _ _ h]
  | some l => simp [Multiset.filterMap_cons_some _ _ _ h]

theorem filterMap_held_add {x : Ghost} (hx : x.held = none) (G : Multiset Ghost) :
    (G + {x}).filterMap Ghost.held = G.filterMap Ghost.held := by
  rw [Multiset.add_comm, Multiset.singleton_add, Multiset.filterMap_cons_none _ _ hx]

theorem Account.held {l : Life} (h : Account s t (((some l).toList : Multiset Life) + rest)) :
    rest = 0 ∧ Matches s t l := by
  obtain ⟨h0, -, -⟩ | ⟨l', h1, hm⟩ := h
  · simp at h0
  · have h1 : l ::ₘ rest = {l'} := by simpa using h1
    obtain ⟨rfl, h0⟩ := (Multiset.singleton_eq_cons_iff _).mp h1.symm
    exact ⟨h0, hm⟩

theorem account_finish {l : Life} (h : Matches s t l) :
    Account s t (l.finish.toList : Multiset Life) := by
  unfold Life.finish
  split_ifs with hf
  · simp only [Bool.and_eq_true, Bool.not_eq_true'] at hf
    refine Or.inl ⟨rfl, fun _ => ?_, ?_⟩
    · rw [← h.settled, hf.1]
    · rw [← h.isOpen, hf.2]
      exact nofun
  · exact Or.inr ⟨l, rfl, h⟩

theorem Account.setChannel {lives : Multiset Life} (h : Account s t lives)
    (channel : List HedgeResult) : Account { s with channel := channel } t lives := by
  obtain h0 | ⟨l, h1, hm⟩ := h
  · exact Or.inl h0
  · exact Or.inr ⟨l, h1, hm.granted, hm.isOpen, hm.settled, hm.read⟩

theorem channelLives_cons (r : HedgeResult) (channel : List HedgeResult) :
    channelLives t (r :: channel) = ((r.attempt.life t).toList : Multiset Life) +
      channelLives t channel := by
  unfold channelLives
  rw [List.filterMap_cons]
  cases r.attempt.life t <;> simp

theorem channelLives_append (r : HedgeResult) (channel : List HedgeResult) :
    channelLives t (channel ++ [r]) = ((r.attempt.life t).toList : Multiset Life) +
      channelLives t channel := by
  rw [← channelLives_cons]
  exact Multiset.coe_eq_coe.mpr ((List.perm_append_singleton r channel).filterMap _)

end Account

section Steps

variable {t : Ticket} {s : Shared} {g : Ghost} {G : Multiset Ghost}

theorem Ledger.own (h : Ledger t s (g ::ₘ G)) :
    Account s t ((g.held.toList : Multiset Life) +
      (G.filterMap Ghost.held + channelLives t s.channel)) := by
  have ha := h.account
  rwa [filterMap_held_cons, Multiset.add_assoc] at ha

theorem Ledger.mk_own {s' : Shared} {g' : Ghost} {G' : Multiset Ghost}
    (hb : ∀ u, BreakerRun.Inv (s'.breakers u))
    (hi : ∀ t' ∈ s'.granted, t'.token < (s'.breakers t'.upstream).tokens.length)
    (hn : Counts (g' ::ₘ G') s'.channel.length) (hc : ∀ r ∈ s'.channel, r.attempt.WellFormed)
    (ha : Account s' t ((g'.held.toList : Multiset Life) +
      (G'.filterMap Ghost.held + channelLives t s'.channel))) : Ledger t s' (g' ::ₘ G') :=
  ⟨hb, hi, hn, hc, by rwa [filterMap_held_cons, Multiset.add_assoc]⟩

theorem Counts.hold {n : ℕ} (h : Counts (g ::ₘ G) n) (x : Option Life) : Counts (g.hold x ::ₘ G) n :=
  h.replace rfl (h.owing g (Multiset.mem_cons_self g G)) rfl

theorem Ledger.advance (h : Ledger t s (g ::ₘ G)) {s' : Shared} {l l' : Life} (hl : g.held = some l)
    (hb : ∀ u, BreakerRun.Inv (s'.breakers u))
    (hi : ∀ t' ∈ s'.granted, t'.token < (s'.breakers t'.upstream).tokens.length)
    (hc : s'.channel = s.channel) (hm : Matches s t l → Matches s' t l') :
    Ledger t s' (g.hold l'.finish ::ₘ G) := by
  have hown := h.own
  rw [hl] at hown
  obtain ⟨hrest, hmatch⟩ := hown.held
  apply Ledger.mk_own hb hi
  · rw [hc]
    exact h.counts.hold _
  · exact hc ▸ h.channel
  · rw [hc, hrest, Multiset.add_zero]
    exact account_finish (hm hmatch)

theorem Ledger.other (h : Ledger t s G) {s' : Shared}
    (hb : ∀ u, BreakerRun.Inv (s'.breakers u))
    (hi : ∀ t' ∈ s'.granted, t'.token < (s'.breakers t'.upstream).tokens.length)
    (hc : s'.channel = s.channel) (hg : t ∈ s'.granted ↔ t ∈ s.granted)
    (ht : t ∈ s'.tracked ↔ t ∈ s.tracked) (hs : settledIn s' t = settledIn s t)
    (hr : .read t true ∈ s.trace → .read t true ∈ s'.trace) : Ledger t s' G where
  breakers := hb
  issued := hi
  counts := hc ▸ h.counts
  channel := hc ▸ h.channel
  account := by
    rw [hc]
    obtain ⟨h0, hdone, hopen⟩ | ⟨l, h1, hm⟩ := h.account
    · exact Or.inl ⟨h0, fun hin => hs ▸ hdone (hg.mp hin), fun hin => hopen (ht.mp hin)⟩
    · exact Or.inr ⟨l, h1, hg.mpr hm.granted, hm.isOpen.trans ht.symm, hm.settled.trans hs.symm,
        fun hread => hr (hm.read hread)⟩

theorem Ledger.frame (h : Ledger t s G) {s' : Shared} (hb : s'.breakers = s.breakers)
    (hg : s'.granted = s.granted) (hc : s'.channel = s.channel)
    (ht : t ∈ s'.tracked ↔ t ∈ s.tracked)
    (hr : .read t true ∈ s.trace → .read t true ∈ s'.trace) : Ledger t s' G := by
  apply h.other
  · rw [hb]
    exact h.breakers
  · rw [hb, hg]
    exact h.issued
  · exact hc
  · rw [hg]
  · exact ht
  · rw [settledIn, settledIn, hb]
  · exact hr

theorem settledIn_setBreaker {u : String} {b : BreakerRun.Sys}
    (h : t.upstream = u → BreakerRun.settled b.history t.token =
      BreakerRun.settled (s.breakers u).history t.token) :
    settledIn (s.setBreaker u b) t = settledIn s t := by
  unfold settledIn Shared.setBreaker
  by_cases hu : t.upstream = u
  · subst hu
    simpa using h rfl
  · simp [Function.update_of_ne hu]

theorem Ledger.setBreaker_inv (h : Ledger t s G) {cfg : CircuitBreakerConfig} {u : String}
    {b : BreakerRun.Sys} {label : BreakerRun.Op × ℤ}
    (hn : BreakerRun.next cfg (s.breakers u) label = some b) (u' : String) :
    BreakerRun.Inv ((s.setBreaker u b).breakers u') := by
  by_cases hu : u' = u
  · subst hu
    simpa [Shared.setBreaker] using (h.breakers u').step hn
  · simpa [Shared.setBreaker, Function.update_of_ne hu] using h.breakers u'

theorem setBreaker_issued {cfg : CircuitBreakerConfig} {u : String}
    {b : BreakerRun.Sys} {label : BreakerRun.Op × ℤ}
    (hn : BreakerRun.next cfg (s.breakers u) label = some b) {t' : Ticket}
    (hi : t'.token < (s.breakers t'.upstream).tokens.length) :
    t'.token < ((s.setBreaker u b).breakers t'.upstream).tokens.length := by
  by_cases hu : t'.upstream = u
  · subst hu
    have hlen := (BreakerRun.next_tokens hn).length_le
    simp only [Shared.setBreaker, Function.update_self]
    omega
  · simpa [Shared.setBreaker, Function.update_of_ne hu] using hi

theorem Ledger.breaker (h : Ledger t s G) {cfg : CircuitBreakerConfig} {u : String}
    {b : BreakerRun.Sys} {op : BreakerRun.Op} {now : ℤ}
    (hn : BreakerRun.next cfg (s.breakers u) (op, now) = some b)
    (hop : t.upstream = u → ∀ o, op ≠ .settle t.token o) : Ledger t (s.setBreaker u b) G := by
  apply h.other (h.setBreaker_inv hn)
  · intro t' ht'
    exact setBreaker_issued hn (h.issued t' ht')
  · rfl
  · rfl
  · rfl
  · apply settledIn_setBreaker
    intro hu
    exact BreakerRun.next_settled_other hn (hop hu)
  · exact id

theorem acquire_cases {cfg : String → CircuitBreakerConfig} {u : Upstream} {now : ℤ} {r : Option ℕ}
    {s' : Shared} (h : acquire cfg s u now = some (r, s')) :
    ∃ b, BreakerRun.next (cfg u.id) (s.breakers u.id) (.tryAcquire, now) = some b ∧
      (r = none ∧ s' = s.setBreaker u.id b ∨
        (s.breakers u.id).tokens.length < b.tokens.length ∧
          r = some (s.breakers u.id).tokens.length ∧
          s' = (s.setBreaker u.id b).grant ⟨u.id, (s.breakers u.id).tokens.length⟩) := by
  obtain ⟨b, hn, hout⟩ := Option.map_eq_some_iff.mp h
  refine ⟨b, hn, ?_⟩
  have hle := (BreakerRun.next_tokens hn).length_le
  split_ifs at hout with hlen
  · cases hout
    exact Or.inl ⟨rfl, rfl⟩
  · cases hout
    exact Or.inr ⟨by omega, rfl, rfl⟩

theorem Ledger.unissued (h : Ledger t s (g ::ₘ G))
    (ht : (s.breakers t.upstream).tokens.length ≤ t.token) :
    t ∉ s.granted ∧ t ∉ s.tracked ∧ g.held = none ∧
      G.filterMap Ghost.held + channelLives t s.channel = 0 := by
  have hng : t ∉ s.granted := fun hin => absurd (h.issued t hin) (by omega)
  have hown := h.own
  cases hheld : g.held with
  | some l =>
    rw [hheld] at hown
    exact absurd hown.held.2.granted hng
  | none =>
    rw [hheld, Option.toList_none, Multiset.coe_nil, Multiset.zero_add] at hown
    obtain ⟨h0, -, hopen⟩ | ⟨l, -, hm⟩ := hown
    · exact ⟨hng, hopen, rfl, h0⟩
    · exact absurd hm.granted hng

theorem Ledger.admit_ours (h : Ledger t s (g ::ₘ G)) {cfg : CircuitBreakerConfig}
    {b : BreakerRun.Sys} {now : ℤ}
    (hn : BreakerRun.next cfg (s.breakers t.upstream) (.tryAcquire, now) = some b)
    (hlen : (s.breakers t.upstream).tokens.length < b.tokens.length)
    (ht : t.token = (s.breakers t.upstream).tokens.length) :
    Ledger t ((s.setBreaker t.upstream b).grant t) (g.hold (some ⟨true, false, false⟩) ::ₘ G) := by
  obtain ⟨hng, hnt, hfree, hrest⟩ := h.unissued ht.ge
  have hb := h.breaker (t := t) hn (fun _ => by simp)
  apply Ledger.mk_own
  · exact hb.breakers
  · intro t' ht'
    rcases List.mem_append.mp ht' with hin | hin
    · exact hb.issued t' hin
    · rw [List.mem_singleton] at hin
      subst hin
      simpa [Shared.grant, Shared.addActive, Shared.setBreaker, ht] using hlen
  · exact h.counts.hold _
  · exact h.channel
  · refine Or.inr ⟨⟨true, false, false⟩, ?_, ?_, ?_, ?_, nofun⟩
    · change _ + (G.filterMap Ghost.held + channelLives t s.channel) = _
      rw [hrest]
      rfl
    · exact List.mem_append_right _ (List.mem_singleton.mpr rfl)
    · simp [Shared.grant]
    · have hunset := (h.breakers t.upstream).unissued ht.ge
      have hsame := settledIn_setBreaker (s := s) (t := t) (b := b)
        (fun _ => BreakerRun.next_settled_other hn (fun _ => by simp))
      exact (hsame.trans hunset).symm

theorem Ledger.admit_other (h : Ledger t s G) {cfg : CircuitBreakerConfig} {b : BreakerRun.Sys}
    {now : ℤ} {t' : Ticket}
    (hn : BreakerRun.next cfg (s.breakers t'.upstream) (.tryAcquire, now) = some b)
    (hlen : t'.token < b.tokens.length) (hne : t' ≠ t) :
    Ledger t ((s.setBreaker t'.upstream b).grant t') G := by
  have hb := h.breaker (t := t) hn (fun _ => by simp)
  apply hb.other
  · exact hb.breakers
  · intro t'' hin
    rcases List.mem_append.mp hin with hin | hin
    · exact hb.issued t'' hin
    · rw [List.mem_singleton] at hin
      subst hin
      simpa [Shared.grant, Shared.addActive, Shared.setBreaker] using hlen
  · rfl
  · simp [Shared.grant, hne.symm, Shared.setBreaker]
  · simp [Shared.grant, hne.symm, Shared.setBreaker]
  · rfl
  · exact id

theorem Ledger.post (h : Ledger t s (g ::ₘ G)) {r : HedgeResult} (hd : 0 < g.debt)
    (hw : r.attempt.WellFormed) (hl : g.held = r.attempt.life t) :
    Ledger t { s with channel := s.channel ++ [r] }
      ({ g with held := none, debt := g.debt - 1 } ::ₘ G) := by
  apply Ledger.mk_own
  · exact h.breakers
  · exact h.issued
  · apply h.counts.replace
    · rfl
    · exact h.counts.owing g (Multiset.mem_cons_self g G)
    · simp only [List.length_append, List.length_singleton]
      omega
  · intro r' hr'
    rcases List.mem_append.mp hr' with hin | hin
    · exact h.channel r' hin
    · rw [List.mem_singleton] at hin
      exact hin ▸ hw
  · apply Account.setChannel
    have hown := h.own
    rw [hl] at hown
    rw [channelLives_append, Option.toList_none, Multiset.coe_nil, Multiset.zero_add,
      add_left_comm]
    exact hown

theorem Ledger.receive (h : Ledger t s (g ::ₘ G)) {r : HedgeResult} {rest : List HedgeResult}
    (hc : s.channel = r :: rest) (hr : g.reader = true) :
    mayReceive t g r ∧ Ledger t { s with channel := rest } (received t g r ::ₘ G) := by
  have hcounts : Counts (g ::ₘ G) (rest.length + 1) := by
    have hn := h.counts
    rwa [hc] at hn
  have howed := hcounts.owed_pos hr
  have hown := h.own
  rw [hc, channelLives_cons] at hown
  have hfree : r.attempt.tok = some t → g.held = none := by
    intro ht
    cases hheld : g.held with
    | none => rfl
    | some l =>
      rw [hheld] at hown
      have hzero := hown.held.1
      simp [Attempt.life, ht] at hzero
  refine ⟨⟨howed, h.channel r (by simp [hc]), hfree⟩, ?_⟩
  apply Ledger.mk_own
  · exact h.breakers
  · exact h.issued
  · apply hcounts.replace
    · rfl
    · exact fun _ => hr
    · simp only [received]
      omega
  · intro r' hr'
    exact h.channel r' (by simp [hc, hr'])
  · apply Account.setChannel
    by_cases ht : r.attempt.tok = some t
    · rw [hfree ht, Option.toList_none, Multiset.coe_nil, Multiset.zero_add,
        add_left_comm] at hown
      simpa [received, ht] using hown
    · rw [Attempt.life_eq_none ht, Option.toList_none, Multiset.coe_nil, Multiset.zero_add] at hown
      simpa [received, ht] using hown

theorem Ledger.sendFailed (h : Ledger t s (g ::ₘ G)) {checked : Prop} {t' : Ticket}
    (hneed : need t checked g (.send t')) (canceled : Bool) :
    Ledger t { s.addActive t'.upstream (-1) with tracked := s.tracked.erase t' }
      (after t g (.send t') (.failed canceled) ::ₘ G) := by
  by_cases ht : t' = t
  · subst ht
    have hfinish : Life.finish ⟨false, false, false⟩ = some ⟨false, false, false⟩ := rfl
    simp only [after, if_true, ← hfinish]
    apply h.advance (hneed rfl)
    · exact h.breakers
    · exact h.issued
    · rfl
    · intro hm
      exact ⟨hm.granted, by simp, hm.settled, by simp⟩
  · simp only [after, ht, if_false]
    exact h.frame rfl rfl rfl (by simp [Ne.symm ht]) id

theorem Ledger.read (h : Ledger t s (g ::ₘ G)) {checked : Prop} {t' : Ticket} {complete : Bool}
    (hneed : need t checked g (.read t' complete)) :
    Ledger t { s with trace := s.trace ++ [.read t' complete] }
      (after t g (.read t' complete) () ::ₘ G) := by
  by_cases ht : t' = t
  · subst ht
    obtain ⟨l, hl, hopen⟩ := hneed rfl
    have hfinish : { l with read := complete }.finish = some { l with read := complete } := by
      simp [Life.finish, hopen]
    simp only [after, if_true, hl, Option.map_some, ← hfinish]
    apply h.advance hl
    · exact h.breakers
    · exact h.issued
    · rfl
    · intro hm
      refine ⟨hm.granted, hm.isOpen, hm.settled, fun hread => ?_⟩
      have hread : complete = true := hread
      simp [hread]
  · simp only [after, ht, if_false]
    exact h.frame rfl rfl rfl Iff.rfl (fun hin => List.mem_append_left _ hin)

theorem Ledger.close (h : Ledger t s (g ::ₘ G)) {checked : Prop} {t' : Ticket}
    (hneed : need t checked g (.close t')) :
    Ledger t (s.untrack t') (after t g (.close t') () ::ₘ G) := by
  by_cases ht : t' = t
  · subst ht
    obtain ⟨l, hl, hopen⟩ := hneed rfl
    have hin : t' ∈ s.tracked := by
      have hown := h.own
      rw [hl] at hown
      exact hown.held.2.isOpen.mp hopen
    simp only [after, if_true, hl, Option.bind_some, Shared.untrack, hin]
    apply h.advance hl
    · exact h.breakers
    · exact h.issued
    · rfl
    · intro hm
      exact ⟨hm.granted, by simp, hm.settled, hm.read⟩
  · simp only [after, ht, if_false, Shared.untrack]
    split_ifs
    · exact h.frame rfl rfl rfl (by simp [Ne.symm ht]) id
    · exact h

theorem Ledger.settle (h : Ledger t s (g ::ₘ G)) {checked : Prop} {t' : Ticket} {o : CBOutcome}
    (hneed : need t checked g (.settle t' o)) {cfg : CircuitBreakerConfig} {b : BreakerRun.Sys}
    {now : ℤ}
    (hn : BreakerRun.next cfg (s.breakers t'.upstream) (.settle t'.token o, now) = some b) :
    Ledger t { s.setBreaker t'.upstream b with trace := s.trace ++ [.settle t' o] }
      (after t g (.settle t' o) () ::ₘ G) := by
  have hissued : ∀ t'' ∈ s.granted,
      t''.token < ((s.setBreaker t'.upstream b).breakers t''.upstream).tokens.length :=
    fun t'' hin => setBreaker_issued hn (h.issued t'' hin)
  by_cases ht : t' = t
  · subst ht
    obtain ⟨l, hl, -, -⟩ := hneed rfl
    simp only [after, if_true, hl, Option.bind_some]
    apply h.advance hl
    · exact h.setBreaker_inv hn
    · exact hissued
    · rfl
    · intro hm
      refine ⟨hm.granted, hm.isOpen, ?_, fun hread => List.mem_append_left _ (hm.read hread)⟩
      have hself := BreakerRun.next_settled_self hn
      simpa [settledIn, Shared.setBreaker] using hself.symm
  · simp only [after, ht, if_false]
    apply h.other
    · exact h.setBreaker_inv hn
    · exact hissued
    · rfl
    · rfl
    · rfl
    · apply settledIn_setBreaker
      intro hu
      apply BreakerRun.next_settled_other hn
      intro o' heq
      injection heq with htoken
      exact ht (Ticket.ext hu.symm htoken)
    · exact fun hin => List.mem_append_left _ hin

theorem Ledger.acquire (h : Ledger t s (g ::ₘ G)) {cfg : String → CircuitBreakerConfig}
    {u : Upstream} {now : ℤ} {r : Option ℕ} {s' : Shared}
    (hs : Network.acquire cfg s u now = some (r, s')) :
    may t g (.acquire u) r ∧ Ledger t s' (after t g (.acquire u) r ::ₘ G) := by
  obtain ⟨b, hn, ⟨rfl, rfl⟩ | ⟨hlen, rfl, rfl⟩⟩ := acquire_cases hs
  · exact ⟨trivial, h.breaker hn (fun _ => by simp)⟩
  · by_cases ht : (⟨u.id, (s.breakers u.id).tokens.length⟩ : Ticket) = t
    · subst ht
      refine ⟨fun _ => (h.unissued le_rfl).2.2.1, ?_⟩
      simp only [after, if_true]
      exact h.admit_ours hn hlen rfl
    · refine ⟨fun ht' => absurd ht' ht, ?_⟩
      simp only [after, ht, if_false]
      exact h.admit_other hn hlen ht

theorem Ledger.fire (h : Ledger t s (g ::ₘ G)) (hr : g.reader = true) :
    Ledger t s ({ g with owed := g.owed + 1 } ::ₘ (G + {⟨none, false, 0, 1⟩})) := by
  apply Ledger.mk_own
  · exact h.breakers
  · exact h.issued
  · exact h.counts.fire hr
  · exact h.channel
  · rw [filterMap_held_add rfl]
    exact h.own

theorem Ledger.drain (h : Ledger t s (g ::ₘ G)) (hr : g.reader = true) :
    Ledger t s ({ g with reader := false, owed := 0 } ::ₘ (G + {⟨none, true, g.owed, 0⟩})) := by
  apply Ledger.mk_own
  · exact h.breakers
  · exact h.issued
  · exact h.counts.drain hr
  · exact h.channel
  · rw [filterMap_held_add rfl]
    exact h.own

end Steps

theorem ledger_preserves (cfg : String → CircuitBreakerConfig) (t : Ticket) (checked : Prop) :
    Threads.Preserves (protocol t checked) Ghost.Idle (Ledger t) (execute cfg) spawn := by
  intro s g G e c r s' h hneed hs
  change need t checked g e at hneed
  have plain : spawn e = [] → may t g e r ∧ Ledger t s' (after t g e r ::ₘ G) →
      may t g e r ∧ ∃ qs : List (Go Unit × Ghost), qs.map Prod.fst = spawn e ∧
        (∀ q ∈ qs, Safe (protocol t checked) (fun _ g => g.Idle) q.1 q.2) ∧
        Ledger t s' (after t g e r ::ₘ (G + (qs.map Prod.snd : List Ghost))) := by
    rintro hspawn ⟨hmay, hl⟩
    exact ⟨hmay, [], hspawn.symm, nofun, by simpa using hl⟩
  cases performed hs with
  | pool => exact plain rfl ⟨trivial, h⟩
  | build => exact plain rfl ⟨trivial, h⟩
  | acquire hs => exact plain rfl (h.acquire hs)
  | failed t' canceled => exact plain rfl ⟨trivial, h.sendFailed hneed canceled⟩
  | replied => exact plain rfl ⟨trivial, h⟩
  | read => exact plain rfl ⟨trivial, h.read hneed⟩
  | close => exact plain rfl ⟨trivial, h.close hneed⟩
  | settle hn => exact plain rfl ⟨trivial, h.settle hneed hn⟩
  | retryDelay => exact plain rfl ⟨trivial, h⟩
  | fire u =>
    refine ⟨trivial, [(hedgeAttempt u, ⟨none, false, 0, 1⟩)], rfl, ?_, h.fire hneed⟩
    simpa using safe_hedgeAttempt u
  | post r => exact plain rfl ⟨trivial, h.post hneed.1 hneed.2.1 hneed.2.2⟩
  | result armed hc => exact plain rfl (h.receive hc hneed)
  | timer => exact plain rfl ⟨rfl, h⟩
  | done => exact plain rfl ⟨trivial, h⟩
  | receive hc => exact plain rfl (h.receive hc hneed)
  | drain n =>
    obtain ⟨hr, rfl⟩ := hneed
    refine ⟨trivial, [(drainLoop g.owed, ⟨none, true, g.owed, 0⟩)], rfl, ?_, h.drain hr⟩
    simpa using safe_drainLoop g.owed

end EBeacon.Network
