import EBeacon.Network.Turns

namespace EBeacon.Network

open Upstream Proc

namespace Turn

variable {limit : ℕ} {allow : List Pool → Upstream → Prop} {α : Type} {post : α → Turn → Prop} {g : Turn}

structure Hedging (pending : List Upstream) (inflight : ℕ) (tried : List String) (g : Turn) : Prop where
  role : g.role = .main
  reader : g.reader = true
  hedged : g.hedged = true
  owes : g.owes = 0
  inflight : g.waiting.card = inflight
  seen : ∀ u ∈ g.tried, u.id ∈ tried ∨ u ∈ g.waiting
  waiting : ∀ u ∈ g.waiting, u ∈ g.tried
  distinct : Distinct pending
  fresh : ∀ u ∈ pending, g.Fresh u

namespace Hedging

variable {pending : List Upstream} {inflight : ℕ} {tried : List String} {u : Upstream}

theorem fire (h : Hedging (u :: pending) inflight tried g) :
    Hedging pending (inflight + 1) tried (g.fired u) where
  role := h.role
  reader := h.reader
  hedged := rfl
  owes := h.owes
  inflight := by
    change (u ::ₘ g.waiting).card = inflight + 1
    rw [Multiset.card_cons, h.inflight]
  seen v hv := by
    rcases List.mem_cons.mp hv with rfl | hv
    · exact Or.inr (Multiset.mem_cons_self _ _)
    · exact (h.seen v hv).imp_right Multiset.mem_cons_of_mem
  waiting v hv := by
    rcases Multiset.mem_cons.mp hv with rfl | hv
    · exact List.mem_cons_self
    · exact List.mem_cons_of_mem _ (h.waiting v hv)
  distinct := (distinct_cons.mp h.distinct).2
  fresh v hv w hw := by
    rcases List.mem_cons.mp hw with rfl | hw
    · exact ((distinct_cons.mp h.distinct).1 v hv).symm
    · exact h.fresh v (List.mem_cons_of_mem _ hv) w hw

theorem receive (h : Hedging pending inflight tried g) (hu : u ∈ g.waiting) :
    Hedging pending (inflight - 1) (u.id :: tried) (g.received u) where
  role := h.role
  reader := h.reader
  hedged := h.hedged
  owes := h.owes
  inflight := by
    change (g.waiting.erase u).card = inflight - 1
    rw [Multiset.card_erase_of_mem hu, h.inflight]
    rfl
  seen v hv := by
    rcases h.seen v hv with hv | hv
    · exact Or.inl (List.mem_cons_of_mem _ hv)
    · by_cases hsame : v = u
      · exact Or.inl (hsame ▸ List.mem_cons_self)
      · exact Or.inr ((Multiset.mem_erase_of_ne hsame).mpr hv)
  waiting v hv := h.waiting v (Multiset.mem_of_mem_erase hv)
  distinct := h.distinct
  fresh := h.fresh

theorem see (h : Hedging pending inflight tried g) (p : Pool) :
    Hedging pending inflight tried (g.see p) := { h with }

theorem ready (h : Hedging pending inflight tried g) (hover : ¬(inflight = 0 ∧ pending = []))
    {armed : Bool} (harmed : pending ≠ [] → armed = true) :
    g.reader = true ∧ (armed = true ∨ g.waiting ≠ 0) := by
  refine ⟨h.reader, ?_⟩
  by_cases hpending : pending = []
  · refine Or.inr (fun hwaiting => hover ⟨?_, hpending⟩)
    rw [← h.inflight, hwaiting, Multiset.card_zero]
  · exact Or.inl (harmed hpending)

theorem inflight_pos (h : Hedging pending inflight tried g) (hu : u ∈ g.waiting) : 0 < inflight := by
  rw [← h.inflight]
  exact Multiset.card_pos_iff_exists_mem.mpr ⟨u, hu⟩

end Hedging

theorem safe_drainResults {n : ℕ} (hreader : g.reader = true) (hn : g.waiting.card = n) (howes : g.owes = 0) :
    Safe (protocol limit allow) (fun _ g' => g'.Idle ∧ g.tried ⊆ g'.tried) (drainResults n) g := by
  unfold drainResults
  split_ifs with hzero
  · exact .pure ⟨⟨Multiset.card_eq_zero.mp (hn.trans hzero), howes⟩, List.Subset.refl _⟩
  · exact safe_call.mpr ⟨⟨hreader, hn⟩, fun _ _ => .pure ⟨⟨rfl, howes⟩, List.Subset.refl _⟩⟩

theorem safe_hedgeFinish (hallow : ∀ ps u, allow ps u) (c : Call) (maxFire : ℕ) (st : HedgeState)
    (h : Hedging st.pending 0 st.tried g) (hpruning : ∀ s, st.pruning = some s → s.upstream ∈ g.tried) :
    Safe (protocol limit allow) (Answered g) (hedgeFinish c maxFire st) g := by
  have hwaiting : g.waiting = 0 := Multiset.card_eq_zero.mp h.inflight
  have hidle : g.Idle := ⟨hwaiting, h.owes⟩
  have hbetween : Between st.tried 0 g := by
    refine ⟨h.role, hidle, fun u hu => ?_, Or.inl h.hedged⟩
    rcases h.seen u hu with hu | hu
    · exact hu
    · simp [hwaiting] at hu
  unfold hedgeFinish
  cases hp : st.pruning with
  | none => exact safe_error _ hidle (List.Subset.refl _)
  | some s =>
    apply safe_quiet (quiet_readCloseSettle _ _ _ _)
    intro body
    apply (safe_promoteToArchive hallow c _ hbetween h.hedged).bind
    intro archived g' hg'
    cases archived with
    | ok served => exact safe_ok ExecError hg'.idle (hg'.upstream served rfl) hg'.tried
    | error e =>
      cases body with
      | ok content =>
        exact safe_ok ExecError (s := ⟨⟨s.response.status, .whole content, none⟩, s.upstream, none⟩)
          hg'.idle (hg'.tried (hpruning s hp)) hg'.tried
      | error e => exact safe_error _ hg'.idle hg'.tried

structure Firing (start : Turn) (pending : List Upstream) (inflight : ℕ) (armed : Bool) (tried : List String)
    (g : Turn) : Prop where
  hedging : Hedging pending inflight tried g
  armed : pending ≠ [] → armed = true
  tried : start.tried ⊆ g.tried

theorem hedgeStages (hallow : ∀ ps u, allow ps u) (c : Call) (maxFire : ℕ) (start : Turn) :
    HedgeStages (protocol limit allow) c (fun _ => Answered start) True maxFire
      (fun pending inflight armed tried => stage (Firing start pending inflight armed tried))
      (stage (fun g => g.Idle ∧ start.tried ⊆ g.tried)) where
  handled _ _ _ _ := handled_stage _ c
  handledLast := handled_stage _ c
  ends := ends_stage fun _ h => h
  finish := by
    intro st g hzero h
    have hhedging := h.1.hedging
    rw [hzero trivial] at hhedging
    exact safe_of_subset g (safe_hedgeFinish hallow c maxFire st hhedging h.2) h.1.tried
  select := by
    intro st g hover h
    refine safe_call.mpr ⟨h.1.hedging.ready hover h.1.armed, fun arrival harrival => .pure ?_⟩
    cases arrival with
    | timer => exact ⟨fun _ => harrival, h⟩
    | done => exact h
    | result r =>
      have hu : r.upstream ∈ g.waiting := harrival
      refine ⟨fun _ => h.1.hedging.inflight_pos hu, ?_⟩
      change (stage _).taken st.pruning r.upstream r.attempt (g.received r.upstream)
      exact taken_of_after h ⟨h.1.hedging.receive hu, h.1.armed, h.1.tried⟩ (List.Subset.refl _)
        fun _ _ => h.1.hedging.waiting _ hu
  disarm h := ⟨⟨h.1.hedging, fun hne => absurd rfl hne, h.1.tried⟩, h.2⟩
  fire := by
    intro u pending inflight armed tried b g h
    have hhedging := h.1.hedging
    refine safe_call.mpr ⟨⟨hhedging.role, hhedging.reader, hhedging.fresh u List.mem_cons_self, hallow _ _⟩,
      fun _ _ => .pure ?_⟩
    have hsub : g.tried ⊆ (g.fired u).tried := List.subset_cons_self _ _
    exact ⟨⟨hhedging.fire, by simp, List.Subset.trans h.1.tried hsub⟩, fun s hs => hsub (h.2 s hs)⟩
  pool h := safe_call.mpr ⟨trivial, fun pool _ =>
    .pure ⟨⟨⟨h.1.1.hedging.see pool, h.1.1.armed, h.1.1.tried⟩, h.1.2⟩, h.2⟩⟩
  leave h := by
    have hhedging := h.1.hedging
    apply (safe_drainResults hhedging.reader hhedging.inflight hhedging.owes).mono
    rintro _ g' ⟨hidle, hsub⟩
    exact ⟨⟨hidle, List.Subset.trans h.1.tried hsub⟩, fun s hs => hsub (h.2 s hs)⟩
  win h := by
    have hhedging := h.1.1.hedging
    apply (safe_drainResults hhedging.reader hhedging.inflight hhedging.owes).mono
    rintro _ g' ⟨hidle, hsub⟩
    exact ⟨⟨⟨hidle, List.Subset.trans h.1.1.tried hsub⟩, fun s hs => hsub (h.1.2 s hs)⟩, hsub h.2⟩

structure Starting (g : Turn) : Prop where
  role : g.role = .main
  reader : g.reader = true
  idle : g.Idle
  tried : g.tried = []

theorem Starting.see (h : Starting g) (p : Pool) : Starting (g.see p) := { h with }

theorem Starting.between (h : Starting g) : Between [] 0 g := by
  refine ⟨h.role, h.idle, ?_, ?_⟩
  · simp [h.tried]
  · simp [h.tried]

theorem safe_executeHedgeFS (hallow : ∀ ps u, allow ps u) (c : Call) (hedge : HedgeConfig)
    (preferID : String) {ups : List Upstream} (hups : Distinct ups) (archiveBiased : Bool) (h : Starting g) :
    Safe (protocol limit allow) (Answered g) (executeHedgeFS c hedge preferID ups archiveBiased) g := by
  unfold executeHedgeFS
  apply safe_pool
  intro pool _
  dsimp only
  have hsee := h.see pool
  have hdistinct := (hups.preferred pool preferID (min (hedge.maxCount + 1) ups.length)).sublist
    (List.take_sublist (min (hedge.maxCount + 1) ups.length) _)
  split
  · exact safe_error _ hsee.idle (List.Subset.refl _)
  · rename_i u pending htake
    rw [htake] at hdistinct
    refine .perform ⟨hsee.role, hsee.reader, ?_, hallow _ _⟩ (fun _ _ => ?_)
    · intro v hv
      rw [hsee.tried] at hv
      cases hv
    · have hfirst : Hedging pending 1 [] ((g.see pool).fired u) := by
        have hzero : Hedging (u :: pending) 0 [] { g.see pool with hedged := true } := by
          refine ⟨hsee.role, hsee.reader, rfl, hsee.idle.2, ?_, ?_, ?_, hdistinct, ?_⟩
          · exact Multiset.card_eq_zero.mpr hsee.idle.1
          · intro v hv
            simp [hsee.tried] at hv
          · intro v hv
            simp [hsee.idle.1] at hv
          · intro v _ w hw
            simp [hsee.tried] at hw
        exact hzero.fire
      apply (hedgeStages hallow c _ g).safe_loop archiveBiased _ ⟨pending, 1, true, none, [], none⟩
        (fun _ => le_refl _)
      exact ⟨⟨hfirst, fun _ => rfl, List.subset_cons_self _ _⟩, nofun⟩

theorem safe_executeFS {c : Call} (hadmits : Admits allow c) (h : Starting g) :
    Safe (protocol c.fs.maxAttempts allow) (Answered g) (executeFS c) g := by
  unfold executeFS
  split_ifs with henabled
  · exact safe_executeSelectedFS hadmits h.between
  · have hallow := hadmits.any (Bool.eq_false_iff.mpr henabled)
    apply safe_pool
    intro pool _
    dsimp only
    cases c.fs.hedge with
    | none =>
      refine safe_of_subset (g.see pool) ?_ (List.Subset.refl _)
      exact safe_executeSequential c hallow _ _ (h.see pool).between
    | some hedge =>
      apply safe_pool
      intro pool' hpool'
      have hsee := (h.see pool).see pool'
      refine safe_of_subset ((g.see pool).see pool') ?_ (List.Subset.refl _)
      split_ifs
      · exact safe_executeHedgeFS hallow c hedge _ (hpool'.selectForPath c _ _) _ hsee
      · exact safe_executeSequential c hallow _ _ hsee.between

theorem starting_first : Starting first := ⟨rfl, rfl, ⟨rfl, rfl⟩, rfl⟩

theorem safe_run (caller : Caller) {c : Call} (hadmits : Admits allow c) :
    Safe (protocol c.fs.maxAttempts allow) (fun _ g => g.Idle) (caller.run c) first := by
  apply (safe_executeFS hadmits starting_first).bind
  intro result g hg
  cases result with
  | error e => exact .pure hg.idle
  | ok s =>
    exact (safe_only (quiet_consume c.maxResponseBytes caller s)).mono (fun _ _ hsame => hsame ▸ hg.idle)

theorem safe_hedgeAttempt (u : Upstream) :
    Safe (protocol limit allow) (fun _ g => g.Idle) (hedgeAttempt u) (hedge u) := by
  apply (safe_forward (g := hedge u) (u := u) rfl).bind
  intro a g hg
  have howes : g.waiting = 0 ∧ g.owes = {u} := by
    rcases hg with rfl | ⟨rfl, -⟩
    · exact ⟨rfl, rfl⟩
    · exact ⟨rfl, rfl⟩
  refine safe_call.mpr ⟨?_, fun _ _ => .pure ⟨howes.1, ?_⟩⟩
  · change u ∈ g.owes
    rw [howes.2]
    exact Multiset.mem_singleton_self u
  · change g.owes.erase u = 0
    rw [howes.2]
    exact Multiset.erase_singleton u

theorem safe_drainLoop (n : ℕ) (waiting : Multiset Upstream) (hn : waiting.card = n) :
    Safe (protocol limit allow) (fun _ g => g.Idle) (drainLoop n) (drainer waiting) := by
  induction n generalizing waiting with
  | zero => exact .pure ⟨Multiset.card_eq_zero.mp hn, rfl⟩
  | succ n ih =>
    have hne : waiting ≠ 0 := by
      rintro rfl
      simp at hn
    refine .perform ⟨rfl, hne⟩ (fun r hr => ?_)
    have hr : r.upstream ∈ waiting := hr
    apply safe_quiet (quiet_discard _)
    intro _
    apply ih (waiting.erase r.upstream)
    rw [Multiset.card_erase_of_mem hr, hn]
    rfl

end Turn

end EBeacon.Network
