import EBeacon.Network.Execute

/-!
What a loop over upstreams asks of a protocol, and the loops once for every protocol that gives it.
-/

namespace EBeacon.Network

open Upstream Proc

/-- What is known at a place of a loop: `idle b` when it has put `b` aside and holds nothing else, `failed b`
after an attempt without a response, and `holds b s` with the response `s` in hand. -/
structure Stage (γ : Type) where
  idle : Option Served → γ → Prop
  failed : Option Served → Option Ticket → AttemptError → γ → Prop
  holds : Option Served → Served → γ → Prop

namespace Stage

variable {γ : Type}

def taken (S : Stage γ) (b : Option Served) (u : Upstream) (a : Attempt) (g : γ) : Prop :=
  match a.result with
  | .ok r => S.holds b ⟨r, u, a.tok⟩ g
  | .error e => S.failed b a.tok e g

section Taken

variable {S : Stage γ} {b : Option Served} {u : Upstream} {a : Attempt} {g : γ}

theorem taken_ok {r : Response} (hr : a.result = .ok r) : S.taken b u a g ↔ S.holds b ⟨r, u, a.tok⟩ g := by
  rw [taken, hr]

theorem taken_error {e : AttemptError} (he : a.result = .error e) :
    S.taken b u a g ↔ S.failed b a.tok e g := by
  rw [taken, he]

end Taken

/-- The protocol `P` lets a loop dispose of what it holds, in every way in which the loops do. -/
structure Handled (S : Stage γ) (P : Protocol Eff Eff.Answer γ) (c : Call) : Prop where
  wait {b : Option Served} {g : γ} (i : ℕ) : S.idle b g → Safe P (fun _ => S.idle b) (waitRetry c i) g
  refused {b : Option Served} {tok : Option Ticket} {g : γ} :
    S.failed b tok .circuitUnavailable g → S.idle b g
  settle {b : Option Served} {tok : Option Ticket} {e : AttemptError} {o : CBOutcome} {g : γ} :
    S.failed b tok e g → o ≠ .success → Safe P (fun _ => S.idle b) (settleToken tok o) g
  peek {b : Option Served} {s : Served} {g : γ} : S.holds b s g →
    S.holds b ⟨(peekBodyForPruning s.response c.target).2, s.upstream, s.tok⟩ g
  drop {b : Option Served} {s : Served} {o : CBOutcome} {g : γ} : S.holds b s g →
    (o = .release ∨ o = .failure ∧ 500 ≤ s.response.status) →
    Safe P (fun _ => S.idle b) (closeAndSettle s.response s.tok o) g
  readDrop {b : Option Served} {s : Served} {g : γ} : S.holds b s g → 500 ≤ s.response.status →
    Safe P (fun _ => S.idle b) (readAndFinalizeResponseBody c.maxResponseBytes s.response >>=
      fun _ => closeAndSettle s.response s.tok .failure) g
  settleKept {b : Option Served} {s : Served} {g : γ} : S.holds b s g → 500 ≤ s.response.status →
    Safe P (fun _ => S.holds b ⟨s.response, s.upstream, none⟩) (settleToken s.tok .failure) g
  clear {b : Option Served} {g : γ} : S.idle b g → Safe P (fun _ => S.idle none) (dropBuffered b) g
  replace {b : Option Served} {s : Served} {g : γ} :
    S.holds b s g → Safe P (fun _ => S.holds none s) (dropBuffered b) g
  keep {s : Served} {g : γ} : S.holds none s g → S.idle (some s) g

structure Ends (S : Stage γ) (post : (ε : Type) → Except ε Served → γ → Prop) : Prop where
  error {ε : Type} {e : ε} {g : γ} : S.idle none g → post ε (.error e) g
  ok {ε : Type} {s : Served} {g : γ} : S.idle (some s) g → post ε (.ok s) g

section Handled

variable {S : Stage γ} {P : Protocol Eff Eff.Answer γ} {c : Call} {α : Type} {post : α → γ → Prop}
  {b : Option Served} {tok : Option Ticket} {e : AttemptError} {s : Served} {g : γ}

theorem Handled.error (H : S.Handled P c) (h : S.failed b tok e g) {canceled next : Go α}
    (hcanceled : ∀ g, S.idle b g → Safe P post canceled g) (hnext : ∀ g, S.idle b g → Safe P post next g) :
    Safe P post (if e.isClientCancel then settleToken tok .release >>= fun _ => canceled
      else if e = .circuitUnavailable then next else settleToken tok .failure >>= fun _ => next) g := by
  split_ifs with hcancel hrefused
  · exact (H.settle (o := .release) h (by decide)).bind fun _ => hcanceled
  · subst hrefused
    exact hnext g (H.refused h)
  · exact (H.settle (o := .failure) h (by decide)).bind fun _ => hnext

theorem Handled.settleError (H : S.Handled P c) {a : Attempt} (h : S.failed b a.tok e g) :
    Safe P (fun _ => S.idle b) (settleError a e) g := by
  unfold Network.settleError
  split_ifs with hcancel hrefused
  · exact H.settle h (by decide)
  · subst hrefused
    exact .pure (H.refused h)
  · exact H.settle h (by decide)

theorem Handled.readDrop_bind (H : S.Handled P c) (h : S.holds b s g) (h5 : 500 ≤ s.response.status)
    {next : Go α} (hnext : ∀ g, S.idle b g → Safe P post next g) :
    Safe P post (readAndFinalizeResponseBody c.maxResponseBytes s.response >>= fun _ =>
      closeAndSettle s.response s.tok .failure >>= fun _ => next) g := by
  rw [← bind_bind]
  exact (H.readDrop h h5).bind fun _ => hnext

theorem Handled.served (H : S.Handled P c) {post : (ε : Type) → Except ε Served → γ → Prop}
    (hends : S.Ends post) (ε : Type) (h : S.holds none s g) : Safe P (post ε) (pure (.ok s)) g :=
  .pure (hends.ok (H.keep h))

end Handled

end Stage

section Loops

variable {γ : Type} {P : Protocol Eff Eff.Answer γ} {c : Call}
  {post : (ε : Type) → Except ε Served → γ → Prop} {g : γ}

def Stage.promoted (S : Stage γ) (post : (ε : Type) → Except ε Served → γ → Prop) (s : Served) :
    Option (Except ExecError Served) → γ → Prop
  | some result, g => post ExecError result g
  | none, g => S.holds none s g

structure SequentialStages (P : Protocol Eff Eff.Answer γ) (c : Call)
    (post : (ε : Type) → Except ε Served → γ → Prop) (promote : Promote)
    (stage : ℕ → List String → List Upstream → Stage γ) : Prop where
  handled (i : ℕ) (tried : List String) (ups : List Upstream) : (stage i tried ups).Handled P c
  ends (i : ℕ) (tried : List String) (ups : List Upstream) : (stage i tried ups).Ends post
  skip {i : ℕ} {tried : List String} {u : Upstream} {rest : List Upstream} {g : γ} : u.id ∈ tried →
    (stage i tried (u :: rest)).idle none g → (stage (i + 1) tried rest).idle none g
  forward {i : ℕ} {tried : List String} {u : Upstream} {rest : List Upstream} {g : γ} : u.id ∉ tried →
    (stage i tried (u :: rest)).idle none g →
    Safe P ((stage (i + 1) (u.id :: tried) rest).taken none u) (forward u) g
  promote {i : ℕ} {tried : List String} {u : Upstream} {rest : List Upstream} {a : Attempt} {r : Response}
    {g : γ} : (stage (i + 1) tried rest).holds none ⟨r, u, a.tok⟩ g →
    Safe P ((stage (i + 1) tried rest).promoted post ⟨r, u, a.tok⟩) (promote i tried a r) g

namespace SequentialStages

variable {promote : Promote} {stage : ℕ → List String → List Upstream → Stage γ} {tried : List String}

theorem safe_answerOrPromote (H : SequentialStages P c post promote stage) {i : ℕ} {rest : List Upstream}
    {u : Upstream} {a : Attempt} {r : Response} (h : (stage (i + 1) tried rest).holds none ⟨r, u, a.tok⟩ g) :
    Safe P (post ExecError) (answerOrPromote c promote i tried u a r) g := by
  have hstage := H.handled (i + 1) tried rest
  have hends := H.ends (i + 1) tried rest
  unfold answerOrPromote
  dsimp only
  split_ifs
  · apply (H.promote (hstage.peek h)).bind
    intro result g' hg'
    cases result with
    | none => exact hstage.served hends ExecError hg'
    | some result => exact .pure hg'
  · exact hstage.served hends ExecError (hstage.peek h)

theorem safe_loop (H : SequentialStages P c post promote stage) (total i : ℕ) (last : Option AttemptError)
    (ups : List Upstream) (h : (stage i tried ups).idle none g) :
    Safe P (post ExecError) (sequentialLoop c promote total i tried last ups) g := by
  induction ups generalizing i tried last g with
  | nil => exact .pure ((H.ends i tried []).error h)
  | cons u rest ih =>
    unfold sequentialLoop
    split_ifs with hu
    · exact ih _ _ (H.skip hu h)
    apply ((H.handled i tried (u :: rest)).wait i h).bind
    intro expired g hg
    split_ifs
    · exact .pure ((H.ends i tried (u :: rest)).error hg)
    apply (H.forward hu hg).bind
    intro a g' ha
    have hstage := H.handled (i + 1) (u.id :: tried) rest
    have hends := H.ends (i + 1) (u.id :: tried) rest
    cases hr : a.result with
    | ok r =>
      have hs := (Stage.taken_ok hr).mp ha
      dsimp only
      split_ifs with h5
      · exact H.safe_answerOrPromote hs
      · exact hstage.readDrop_bind hs (not_lt.mp h5) fun _ hg => ih _ _ hg
    | error e =>
      exact hstage.error ((Stage.taken_error hr).mp ha) (fun _ hg => .pure (hends.error hg))
        fun _ hg => ih _ _ hg

end SequentialStages

structure SelectedStages (P : Protocol Eff Eff.Answer γ) (c : Call)
    (post : (ε : Type) → Except ε Served → γ → Prop) (stage : ℕ → List Upstream → Stage γ) : Prop where
  handled (i : ℕ) (ups : List Upstream) : (stage i ups).Handled P c
  ends (i : ℕ) (ups : List Upstream) : (stage i ups).Ends post
  forward {i : ℕ} {b : Option Served} {u : Upstream} {rest : List Upstream} {g : γ} :
    (stage i (u :: rest)).idle b g → Safe P ((stage (i + 1) rest).taken b u) (forward u) g

theorem SelectedStages.safe_loop {stage : ℕ → List Upstream → Stage γ} (H : SelectedStages P c post stage) (i : ℕ)
    (b : Option Served) (last : Option AttemptError) (ups : List Upstream) (h : (stage i ups).idle b g) :
    Safe P (post ExecError) (selectedLoop c i b last ups) g := by
  induction ups generalizing i b last g with
  | nil =>
    unfold selectedLoop
    cases b with
    | none => exact .pure ((H.ends i []).error h)
    | some s => exact .pure ((H.ends i []).ok h)
  | cons u rest ih =>
    have hgone {i : ℕ} {ups : List Upstream} {b : Option Served} (e : ExecError) (g : γ)
        (hg : (stage i ups).idle b g) : Safe P (post ExecError) (dropBuffered b >>= fun _ => pure (.error e)) g :=
      ((H.handled i ups).clear hg).bind fun _ _ hg => .pure ((H.ends i ups).error hg)
    unfold selectedLoop
    apply ((H.handled i (u :: rest)).wait i h).bind
    intro expired g hg
    split_ifs
    · exact hgone _ g hg
    apply (H.forward hg).bind
    intro a g' ha
    have hstage := H.handled (i + 1) rest
    cases hr : a.result with
    | ok r =>
      have hs := (Stage.taken_ok hr).mp ha
      dsimp only
      split_ifs with h5 hpruned
      · apply (hstage.replace (hstage.peek hs)).bind
        intro _ g hg
        exact ih _ _ _ (hstage.keep hg)
      · apply (hstage.replace (hstage.peek hs)).bind
        intro _ g hg
        exact hstage.served (H.ends (i + 1) rest) ExecError hg
      · apply (hstage.settleKept hs (not_lt.mp h5)).bind
        intro _ g hg
        apply (hstage.replace hg).bind
        intro _ g hg
        exact ih _ _ _ (hstage.keep hg)
    | error e => exact hstage.error ((Stage.taken_error hr).mp ha) (hgone _) fun _ hg => ih _ _ _ hg

structure ArchiveStages (P : Protocol Eff Eff.Answer γ) (c : Call)
    (post : (ε : Type) → Except ε Served → γ → Prop) (tried : List String)
    (stage : List Upstream → Stage γ) : Prop where
  handled (ups : List Upstream) : (stage ups).Handled P c
  ends (ups : List Upstream) : (stage ups).Ends post
  skip {u : Upstream} {rest : List Upstream} {g : γ} : u.id ∈ tried →
    (stage (u :: rest)).idle none g → (stage rest).idle none g
  forward {u : Upstream} {rest : List Upstream} {g : γ} : u.id ∉ tried →
    (stage (u :: rest)).idle none g → Safe P ((stage rest).taken none u) (forward u) g

theorem ArchiveStages.safe_pass {tried : List String} {stage : List Upstream → Stage γ}
    (H : ArchiveStages P c post tried stage) (last : Option AttemptError) (ups : List Upstream)
    (h : (stage ups).idle none g) :
    Safe P (post (Option AttemptError)) (archivePass c tried last ups) g := by
  induction ups generalizing last g with
  | nil => exact .pure ((H.ends []).error h)
  | cons u rest ih =>
    unfold archivePass
    split_ifs with hu
    · exact ih _ (H.skip hu h)
    apply (H.forward hu h).bind
    intro a g' ha
    have hstage := H.handled rest
    cases hr : a.result with
    | error e =>
      exact hstage.error ((Stage.taken_error hr).mp ha) (fun _ hg => .pure ((H.ends rest).error hg))
        fun _ hg => ih _ hg
    | ok r =>
      have hs := (Stage.taken_ok hr).mp ha
      dsimp only
      split_ifs with h5 hpruned
      · exact (hstage.drop hs (.inr ⟨rfl, h5⟩)).bind fun _ _ hg => ih _ hg
      · exact (hstage.drop (hstage.peek hs) (.inl rfl)).bind fun _ _ hg => ih _ hg
      · exact hstage.served (H.ends rest) _ (hstage.peek hs)

def Stage.arrives (counts : Prop) (here : Stage γ) (received : Upstream → Stage γ) (st : HedgeState) :
    Arrival → γ → Prop
  | .timer, g => (counts → st.armed = true) ∧ here.idle st.pruning g
  | .done, g => here.idle st.pruning g
  | .result ⟨u, a⟩, g => (counts → 0 < st.inflight) ∧ (received u).taken st.pruning u a g

structure HedgeStages (P : Protocol Eff Eff.Answer γ) (c : Call)
    (post : (ε : Type) → Except ε Served → γ → Prop) (counts : Prop) (maxFire : ℕ)
    (stage : List Upstream → ℕ → Bool → List String → Stage γ) (last : Stage γ) : Prop where
  handled (pending : List Upstream) (inflight : ℕ) (armed : Bool) (tried : List String) :
    (stage pending inflight armed tried).Handled P c
  handledLast : last.Handled P c
  ends : last.Ends post
  finish {st : HedgeState} {g : γ} : (counts → st.inflight = 0) →
    (stage st.pending st.inflight st.armed st.tried).idle st.pruning g →
    Safe P (post ExecError) (hedgeFinish c maxFire st) g
  select {st : HedgeState} {g : γ} : ¬(st.inflight = 0 ∧ st.pending = []) →
    (stage st.pending st.inflight st.armed st.tried).idle st.pruning g →
    Safe P (Stage.arrives counts (stage st.pending st.inflight st.armed st.tried)
      (fun u => stage st.pending (st.inflight - 1) st.armed (u.id :: st.tried)) st) (Go.select st.armed) g
  disarm {inflight : ℕ} {armed : Bool} {tried : List String} {b : Option Served} {g : γ} :
    (stage [] inflight armed tried).idle b g → (stage [] inflight false tried).idle b g
  fire {u : Upstream} {pending : List Upstream} {inflight : ℕ} {armed : Bool} {tried : List String}
    {b : Option Served} {g : γ} : (stage (u :: pending) inflight armed tried).idle b g →
    Safe P (fun _ => (stage pending (inflight + 1) (!pending.isEmpty) tried).idle b) (Go.fire u) g
  pool {pending : List Upstream} {inflight : ℕ} {armed : Bool} {tried : List String} {b : Option Served}
    {s : Served} {g : γ} : (stage pending inflight armed tried).holds b s g →
    Safe P (fun _ => (stage pending inflight armed tried).holds b s) (Go.pool .promotion) g
  leave {pending : List Upstream} {inflight : ℕ} {armed : Bool} {tried : List String} {b : Option Served}
    {g : γ} : (stage pending inflight armed tried).idle b g →
    Safe P (fun _ => last.idle b) (drainResults inflight) g
  win {pending : List Upstream} {inflight : ℕ} {armed : Bool} {tried : List String} {b : Option Served}
    {s : Served} {g : γ} : (stage pending inflight armed tried).holds b s g →
    Safe P (fun _ => last.holds b s) (drainResults inflight) g

theorem HedgeStages.safe_loop {counts : Prop} {maxFire : ℕ}
    {stage : List Upstream → ℕ → Bool → List String → Stage γ} {last : Stage γ}
    (H : HedgeStages P c post counts maxFire stage last) (archiveBiased : Bool) (n : ℕ) (st : HedgeState)
    (hn : counts → st.passes ≤ n)
    (h : (stage st.pending st.inflight st.armed st.tried).idle st.pruning g) :
    Safe P (post ExecError) (hedgeLoop c maxFire archiveBiased n st) g := by
  induction n generalizing st g with
  | zero => exact H.finish (fun hcounts => (HedgeState.over (hn hcounts)).1) h
  | succ n ih =>
    unfold hedgeLoop
    split_ifs with hover
    · exact H.finish (fun _ => hover.1) h
    apply (H.select hover h).bind
    intro arrival g harrival
    cases arrival with
    | timer =>
      obtain ⟨harmed, hg⟩ := harrival
      cases hpending : st.pending with
      | nil =>
        rw [hpending] at hg
        exact ih { st with pending := [], armed := false }
          (fun hcounts => st.passes_idle (hn hcounts) hpending (harmed hcounts)) (H.disarm hg)
      | cons u pending =>
        rw [hpending] at hg
        apply (H.fire hg).bind
        intro _ g hg
        exact ih ⟨pending, st.inflight + 1, !pending.isEmpty, st.pruning, st.tried, st.lastErr⟩
          (fun hcounts => st.passes_fire (hn hcounts) hpending) hg
    | done =>
      apply (H.leave harrival).bind
      intro _ g hg
      exact (H.handledLast.clear hg).bind fun _ _ hg => .pure (H.ends.error hg)
    | result r =>
      obtain ⟨u, a⟩ := r
      obtain ⟨hpos, ha⟩ := harrival
      have hstage := H.handled st.pending (st.inflight - 1) st.armed (u.id :: st.tried)
      have hnext (pruning : Option Served) (lastErr : Option AttemptError) (g : γ)
          (hg : (stage st.pending (st.inflight - 1) st.armed (u.id :: st.tried)).idle pruning g) :
          Safe P (post ExecError) (hedgeLoop c maxFire archiveBiased n
            ⟨st.pending, st.inflight - 1, st.armed, pruning, u.id :: st.tried, lastErr⟩) g :=
        ih _ (fun hcounts => st.passes_receive (hn hcounts) (hpos hcounts) _ _ _) hg
      dsimp only
      cases hr : a.result with
      | error e => exact hstage.error ((Stage.taken_error hr).mp ha) (hnext _ _) (hnext _ _)
      | ok r =>
        have hs := (Stage.taken_ok hr).mp ha
        dsimp only
        split_ifs with h5
        · apply (H.pool (hstage.peek hs)).bind
          intro pool g hg
          split_ifs
          · cases hpruning : st.pruning with
            | none =>
              rw [hpruning] at hg
              exact hnext _ _ g (hstage.keep hg)
            | some s =>
              rw [hpruning] at hg
              exact (hstage.drop hg (.inl rfl)).bind fun _ => hnext _ _
          · apply (H.win hg).bind
            intro _ g hg
            apply (H.handledLast.replace hg).bind
            intro _ g hg
            exact H.handledLast.served H.ends ExecError hg
        · exact hstage.readDrop_bind hs (not_lt.mp h5) (hnext _ _)

end Loops

end EBeacon.Network
