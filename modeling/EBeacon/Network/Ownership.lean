import EBeacon.Library.Words
import EBeacon.Network.Goroutines
import EBeacon.Network.Traversal

namespace EBeacon.Network

open Upstream Proc

structure Life where
  isOpen : Bool
  read : Bool
  settled : Bool
  deriving DecidableEq, Repr

def Life.finish (l : Life) : Option Life := if l.settled && !l.isOpen then none else some l

/-- The ghost state of a goroutine, with respect to one ticket: what it knows of the ticket if it
holds it, whether it is the one that reads the channel, how many results it has yet to receive
and how many it has yet to post. -/
structure Ghost where
  held : Option Life
  reader : Bool
  owed : ℕ
  debt : ℕ
  deriving DecidableEq, Repr

namespace Ghost

def Idle (g : Ghost) : Prop := g.held = none ∧ g.owed = 0 ∧ g.debt = 0

def hold (g : Ghost) (l : Option Life) : Ghost := { g with held := l }

@[simp] theorem hold_held (g : Ghost) (l : Option Life) : (g.hold l).held = l := rfl

@[simp] theorem hold_hold (g : Ghost) (l l' : Option Life) : (g.hold l).hold l' = g.hold l' := rfl

end Ghost

namespace Attempt

structure WellFormed (a : Attempt) : Prop where
  stream : ∀ r, a.result = .ok r → r.stream = a.tok
  refused : a.result = .error .circuitUnavailable → a.tok = none

def life (t : Ticket) (a : Attempt) : Option Life :=
  if a.tok = some t then some ⟨a.result.isOk, false, false⟩ else none

end Attempt

namespace Served

def WellFormed (s : Served) : Prop := ∀ t, s.tok = some t → s.response.stream = some t

def life (t : Ticket) (s : Served) : Option Life :=
  if s.response.stream = some t then some ⟨true, false, decide (s.tok ≠ some t)⟩ else none

end Served

section Protocol

variable (t : Ticket) (checked : Prop)

@[simp] def need : Ghost → Eff → Prop
  | g, .send t' => t' = t → g.held = some ⟨true, false, false⟩
  | g, .read t' _ => t' = t → ∃ l, g.held = some l ∧ l.isOpen = true
  | g, .close t' => t' = t → ∃ l, g.held = some l ∧ l.isOpen = true
  | g, .settle t' o => t' = t → ∃ l, g.held = some l ∧ l.settled = false ∧
      (checked → o = .success → l.read = true)
  | g, .post r => 0 < g.debt ∧ r.attempt.WellFormed ∧ g.held = r.attempt.life t
  | g, .drain n => g.reader = true ∧ g.owed = n
  | g, .fire _ => g.reader = true
  | g, .select _ => g.reader = true
  | g, .receive => g.reader = true
  | _, _ => True

def mayReceive (g : Ghost) (r : HedgeResult) : Prop :=
  0 < g.owed ∧ r.attempt.WellFormed ∧ (r.attempt.tok = some t → g.held = none)

@[simp] def may : Ghost → (e : Eff) → e.Answer → Prop
  | g, .acquire u, some i => ⟨u.id, i⟩ = t → g.held = none
  | g, .select _, .result r => mayReceive t g r
  | _, .select armed, .timer => armed = true
  | g, .receive, r => mayReceive t g r
  | _, _, _ => True

def received (g : Ghost) (r : HedgeResult) : Ghost :=
  { g with
    held := if r.attempt.tok = some t then r.attempt.life t else g.held
    owed := g.owed - 1 }

@[simp] def after : Ghost → (e : Eff) → e.Answer → Ghost
  | g, .acquire u, some i => if ⟨u.id, i⟩ = t then g.hold (some ⟨true, false, false⟩) else g
  | g, .send t', .failed _ => if t' = t then g.hold (some ⟨false, false, false⟩) else g
  | g, .read t' complete, _ =>
    if t' = t then g.hold (g.held.map (fun l => { l with read := complete })) else g
  | g, .close t', _ =>
    if t' = t then g.hold (g.held.bind (fun l => { l with isOpen := false }.finish)) else g
  | g, .settle t' _, _ =>
    if t' = t then g.hold (g.held.bind (fun l => { l with settled := true }.finish)) else g
  | g, .fire _, _ => { g with owed := g.owed + 1 }
  | g, .post _, _ => { g with held := none, debt := g.debt - 1 }
  | g, .select _, .result r => received t g r
  | g, .receive, r => received t g r
  | g, .drain _, _ => { g with reader := false, owed := 0 }
  | g, _, _ => g

/-- Every ticket has one owner. With `checked`, a success is credited only to a request whose body
the owner has read to its end. -/
def protocol : Protocol Eff Eff.Answer Ghost := ⟨need t checked, may t, after t⟩

end Protocol

variable {t : Ticket} {checked : Prop} {α : Type} {post : α → Ghost → Prop} {g : Ghost}

section Rules

theorem safe_pool {site : Site} {f : Pool → Go α} :
    Safe (protocol t checked) post (Go.pool site >>= f) g ↔
      ∀ p, Safe (protocol t checked) post (f p) g := by
  simp [safe_call, protocol]

theorem safe_build {u : Upstream} {f : Bool → Go α} :
    Safe (protocol t checked) post (Go.build u >>= f) g ↔
      ∀ b, Safe (protocol t checked) post (f b) g := by
  simp [safe_call, protocol]

theorem safe_acquire {u : Upstream} {f : Option ℕ → Go α}
    (hnone : Safe (protocol t checked) post (f none) g)
    (hother : ∀ i, ⟨u.id, i⟩ ≠ t → Safe (protocol t checked) post (f (some i)) g)
    (hours : ∀ i, ⟨u.id, i⟩ = t → g.held = none →
      Safe (protocol t checked) post (f (some i)) (g.hold (some ⟨true, false, false⟩))) :
    Safe (protocol t checked) post (Go.acquire u >>= f) g := by
  refine safe_perform.mpr ⟨trivial, fun token hmay => ?_⟩
  cases token with
  | none => exact hnone
  | some i =>
    by_cases ht : (⟨u.id, i⟩ : Ticket) = t
    · simpa [protocol, ht] using hours i ht (hmay ht)
    · simpa [protocol, ht] using hother i ht

theorem safe_send_other {t' : Ticket} {f : Delivery → Go α} (ht : t' ≠ t)
    (hf : ∀ d, Safe (protocol t checked) post (f d) g) :
    Safe (protocol t checked) post (Go.send t' >>= f) g := by
  refine safe_perform.mpr ⟨fun h => absurd h ht, fun d _ => ?_⟩
  cases d <;> simpa [protocol, ht] using hf _

theorem safe_send_ours {f : Delivery → Go α} (hg : g.held = some ⟨true, false, false⟩)
    (hfailed : ∀ canceled,
      Safe (protocol t checked) post (f (.failed canceled)) (g.hold (some ⟨false, false, false⟩)))
    (hreplied : ∀ status encoding body,
      Safe (protocol t checked) post (f (.replied status encoding body)) g) :
    Safe (protocol t checked) post (Go.send t >>= f) g := by
  refine safe_perform.mpr ⟨fun _ => hg, fun d _ => ?_⟩
  cases d with
  | failed canceled => simpa [protocol] using hfailed canceled
  | replied status encoding body => exact hreplied status encoding body

theorem safe_waitRetry (c : Call) (i : ℕ) :
    Safe (protocol t checked) (fun _ g' => g' = g) (waitRetry c i) g := by
  unfold waitRetry
  split_ifs
  · exact safe_call.mpr ⟨trivial, fun _ _ => .pure rfl⟩
  · exact .pure rfl

end Rules

namespace Ghost

def close (t : Ticket) (stream : Option Ticket) (g : Ghost) : Ghost :=
  if stream = some t then g.hold (g.held.bind (fun l => { l with isOpen := false }.finish)) else g

def settle (t : Ticket) (tok : Option Ticket) (g : Ghost) : Ghost :=
  if tok = some t then g.hold (g.held.bind (fun l => { l with settled := true }.finish)) else g

def readTo (t : Ticket) (stream : Option Ticket) (complete : Bool) (g : Ghost) : Ghost :=
  if stream = some t then g.hold (g.held.map (fun l => { l with read := complete })) else g

end Ghost

theorem safe_closeBody (r : Response)
    (h : r.stream = some t → ∃ l, g.held = some l ∧ l.isOpen = true) :
    Safe (protocol t checked) (fun _ g' => g' = g.close t r.stream) (closeBody r) g := by
  unfold closeBody
  cases hs : r.stream with
  | none => exact .pure rfl
  | some t' =>
    refine safe_call.mpr ⟨fun ht => h (by rw [hs, ht]), fun _ _ => ?_⟩
    simp [safe_ret, protocol, Ghost.close]

theorem safe_settleToken (tok : Option Ticket) (o : CBOutcome)
    (h : tok = some t → ∃ l, g.held = some l ∧ l.settled = false ∧
      (checked → o = .success → l.read = true)) :
    Safe (protocol t checked) (fun _ g' => g' = g.settle t tok) (settleToken tok o) g := by
  unfold settleToken
  cases tok with
  | none => exact .pure rfl
  | some t' =>
    refine safe_call.mpr ⟨fun ht => h (by rw [ht]), fun _ _ => ?_⟩
    simp [safe_ret, protocol, Ghost.settle]

def Sent (t : Ticket) (g : Ghost) (out : Option Ticket × Except AttemptError (ℕ × Encoding × Body))
    (g' : Ghost) : Prop :=
  (out.2 = .error .circuitUnavailable → out.1 = none) ∧
    (out.1 ≠ some t ∧ g' = g ∨
      out.1 = some t ∧ g.held = none ∧ g' = g.hold (some ⟨out.2.isOk, false, false⟩))

theorem safe_upstreamDo (u : Upstream) :
    Safe (protocol t checked) (Sent t g) (upstreamDo u) g := by
  apply safe_acquire
  · exact .pure ⟨fun _ => rfl, Or.inl ⟨nofun, rfl⟩⟩
  · intro i ht
    have hne : some (⟨u.id, i⟩ : Ticket) ≠ some t := fun h => ht (Option.some.inj h)
    apply safe_send_other ht
    intro d
    cases d <;> exact .pure ⟨nofun, Or.inl ⟨hne, rfl⟩⟩
  · intro i ht hfree
    subst ht
    apply safe_send_ours rfl
    · intro canceled
      exact .pure ⟨nofun, Or.inr ⟨rfl, hfree, rfl⟩⟩
    · intro status encoding body
      exact .pure ⟨nofun, Or.inr ⟨rfl, hfree, rfl⟩⟩

def Forwarded (t : Ticket) (g : Ghost) (a : Attempt) (g' : Ghost) : Prop :=
  a.WellFormed ∧ (a.tok ≠ some t ∧ g' = g ∨
    a.tok = some t ∧ g.held = none ∧ g' = g.hold (a.life t))

theorem safe_forward (u : Upstream) :
    Safe (protocol t checked) (Forwarded t g) (forward u) g := by
  rw [forward, safe_build]
  intro b
  cases b with
  | false => exact .pure ⟨⟨nofun, nofun⟩, Or.inl ⟨nofun, rfl⟩⟩
  | true =>
    apply (safe_upstreamDo u).bind
    rintro ⟨tok, result⟩ g' ⟨hrefused, hsent⟩
    cases result with
    | error e =>
      refine .pure ⟨⟨nofun, fun h => hrefused (by cases h; rfl)⟩, ?_⟩
      obtain ⟨hne, rfl⟩ | ⟨heq, hfree, rfl⟩ := hsent
      · exact Or.inl ⟨hne, rfl⟩
      · exact Or.inr ⟨heq, hfree, by rw [Attempt.life, if_pos heq]; rfl⟩
    | ok raw =>
      obtain ⟨status, encoding, body⟩ := raw
      have hdone : Safe (protocol t checked) (Forwarded t g)
          (return ⟨tok, .ok ⟨status, body, tok⟩⟩) g' := by
        refine .pure ⟨⟨?_, nofun⟩, ?_⟩
        · rintro r ⟨⟩
          rfl
        · obtain ⟨hne, rfl⟩ | ⟨heq, hfree, rfl⟩ := hsent
          · exact Or.inl ⟨hne, rfl⟩
          · exact Or.inr ⟨heq, hfree, by rw [Attempt.life, if_pos heq]; rfl⟩
      cases encoding with
      | identity => exact hdone
      | gzip => exact hdone
      | badGzip canceled =>
        obtain ⟨hne, rfl⟩ | ⟨heq, hfree, rfl⟩ := hsent
        · refine (safe_closeBody _ (fun h => absurd h hne)).seq
            (.pure ⟨⟨nofun, nofun⟩, Or.inl ⟨hne, ?_⟩⟩)
          exact if_neg hne
        · refine (safe_closeBody _ (fun _ => ⟨_, rfl, rfl⟩)).seq
            (.pure ⟨⟨nofun, nofun⟩, Or.inr ⟨heq, hfree, ?_⟩⟩)
          rw [Attempt.life, if_pos heq, Ghost.close, if_pos heq]
          rfl

theorem safe_closeAndSettle (r : Response) (tok : Option Ticket) (o : CBOutcome) (ho : o ≠ .success)
    (hw : tok = some t → r.stream = some t)
    (hg : r.stream = some t → ∃ read, g.held = some ⟨true, read, decide (tok ≠ some t)⟩) :
    Safe (protocol t checked) (fun _ g' => g' = if r.stream = some t then g.hold none else g)
      (closeAndSettle r tok o) g := by
  by_cases hs : r.stream = some t
  · obtain ⟨read, hheld⟩ := hg hs
    apply (safe_closeBody r (fun _ => ⟨_, hheld, rfl⟩)).seq
    rw [Ghost.close, if_pos hs, if_pos hs, hheld]
    by_cases ht : tok = some t
    · apply (safe_settleToken tok o _).mono
      · rintro _ _ rfl
        simp [Ghost.settle, ht, Life.finish]
      · intro _
        exact ⟨⟨false, read, false⟩, by simp [ht, Life.finish], rfl, fun _ h => absurd h ho⟩
    · apply (safe_settleToken tok o (fun h => absurd h ht)).mono
      rintro _ _ rfl
      simp [Ghost.settle, ht, Life.finish]
  · have ht : tok ≠ some t := fun h => hs (hw h)
    apply (safe_closeBody r (fun h => absurd h hs)).seq
    rw [Ghost.close, if_neg hs, if_neg hs]
    apply (safe_settleToken tok o (fun h => absurd h ht)).mono
    rintro _ _ rfl
    rw [Ghost.settle, if_neg ht]

theorem safe_read (limit : Int64) (r : Response)
    (h : r.stream = some t → ∃ l, g.held = some l ∧ l.isOpen = true) :
    Safe (protocol t checked) (fun result g' => result = readBodyCapped r.body limit ∧
        g' = g.readTo t r.stream (wholeRead r.body result))
      (readAndFinalizeResponseBody limit r) g := by
  unfold readAndFinalizeResponseBody
  cases hs : r.stream with
  | none => exact .pure ⟨rfl, rfl⟩
  | some t' =>
    refine safe_perform.mpr ⟨fun ht => h (by rw [hs, ht]), fun _ _ => .pure ⟨rfl, ?_⟩⟩
    simp [protocol, Ghost.readTo]

def Joined (x y z : Option Life) : Prop := x = none ∧ z = y ∨ y = none ∧ z = x

theorem Joined.left {x : Option Life} : Joined x none x := Or.inr ⟨rfl, rfl⟩

theorem Joined.right {y : Option Life} : Joined none y y := Or.inl ⟨rfl, rfl⟩

theorem Joined.free {y z : Option Life} (h : Joined none y z) : z = y := by
  obtain ⟨-, rfl⟩ | ⟨rfl, rfl⟩ := h
  · rfl
  · rfl

theorem Joined.symm {x y z : Option Life} (h : Joined x y z) : Joined y x z := Or.symm h

theorem Attempt.life_eq_none {a : Attempt} (h : a.tok ≠ some t) : a.life t = none := if_neg h

theorem Forwarded.joined {x : Option Life} {a : Attempt} {g' : Ghost}
    (h : Forwarded t (g.hold x) a g') :
    a.WellFormed ∧ ∃ z, Joined x (a.life t) z ∧ g' = g.hold z := by
  obtain ⟨hw, ⟨hne, rfl⟩ | ⟨heq, hfree, rfl⟩⟩ := h
  · exact ⟨hw, x, by rw [Attempt.life_eq_none hne]; exact .left, rfl⟩
  · have hx : x = none := hfree
    exact ⟨hw, a.life t, by rw [hx]; exact .right, rfl⟩

section Joint

variable {x z : Option Life} {s : Served} {tok : Option Ticket}

theorem Joined.held {y : Life} (hj : Joined x (some y) z) : x = none ∧ z = some y := by
  obtain ⟨hx, hz⟩ | ⟨hn, -⟩ := hj
  · exact ⟨hx, hz⟩
  · cases hn

theorem safe_drop (hw : s.WellFormed) (o : CBOutcome) (ho : o ≠ .success) (hj : Joined x (s.life t) z) :
    Safe (protocol t checked) (fun _ g' => g' = g.hold x) (closeAndSettle s.response s.tok o) (g.hold z) := by
  by_cases hs : s.response.stream = some t
  · rw [Served.life, if_pos hs] at hj
    obtain ⟨rfl, rfl⟩ := hj.held
    apply (safe_closeAndSettle s.response s.tok o ho (hw t) (fun _ => ⟨false, rfl⟩)).mono
    rintro _ _ rfl
    rw [if_pos hs, Ghost.hold_hold]
  · rw [Served.life, if_neg hs] at hj
    apply (safe_closeAndSettle s.response s.tok o ho (hw t) (fun h => absurd h hs)).mono
    rintro _ _ rfl
    rw [if_neg hs, hj.symm.free]

theorem safe_readDrop (limit : Int64) (hw : s.WellFormed) (hj : Joined x (s.life t) z) :
    Safe (protocol t checked) (fun _ g' => g' = g.hold x)
      (readAndFinalizeResponseBody limit s.response >>= fun _ => closeAndSettle s.response s.tok .failure)
      (g.hold z) := by
  by_cases hs : s.response.stream = some t
  · rw [Served.life, if_pos hs] at hj
    obtain ⟨rfl, rfl⟩ := hj.held
    apply (safe_read limit s.response (fun _ => ⟨_, rfl, rfl⟩)).bind
    rintro body _ ⟨-, rfl⟩
    apply (safe_closeAndSettle s.response s.tok .failure nofun (hw t) _).mono
    · rintro _ _ rfl
      simp [Ghost.readTo, hs]
    · intro _
      exact ⟨wholeRead s.response.body body, by simp [Ghost.readTo, hs]⟩
  · rw [Served.life, if_neg hs] at hj
    apply (safe_read limit s.response (fun h => absurd h hs)).bind
    rintro body _ ⟨-, rfl⟩
    apply (safe_closeAndSettle s.response s.tok .failure nofun (hw t) (fun h => absurd h hs)).mono
    rintro _ _ rfl
    simp [Ghost.readTo, hs, hj.symm.free]

def failedLife (t : Ticket) (tok : Option Ticket) : Option Life :=
  if tok = some t then some ⟨false, false, false⟩ else none

theorem safe_settleFailed (o : CBOutcome) (ho : o ≠ .success) (hj : Joined x (failedLife t tok) z) :
    Safe (protocol t checked) (fun _ g' => g' = g.hold x) (settleToken tok o) (g.hold z) := by
  by_cases ht : tok = some t
  · rw [failedLife, if_pos ht] at hj
    obtain ⟨rfl, rfl⟩ := hj.held
    apply (safe_settleToken tok o (fun _ => ⟨_, rfl, rfl, fun _ h => absurd h ho⟩)).mono
    rintro _ _ rfl
    simp [Ghost.settle, ht, Life.finish]
  · rw [failedLife, if_neg ht] at hj
    apply (safe_settleToken tok o (fun h => absurd h ht)).mono
    rintro _ _ rfl
    rw [Ghost.settle, if_neg ht, hj.symm.free]

theorem safe_settleKept (hw : s.WellFormed) (o : CBOutcome) (ho : o ≠ .success)
    (hj : Joined x (s.life t) z) :
    Safe (protocol t checked)
      (fun _ g' => ∃ z', Joined x (Served.life t ⟨s.response, s.upstream, none⟩) z' ∧ g' = g.hold z')
      (settleToken s.tok o) (g.hold z) := by
  by_cases ht : s.tok = some t
  · have hs := hw t ht
    rw [Served.life, if_pos hs] at hj
    obtain ⟨rfl, rfl⟩ := hj.held
    apply (safe_settleToken s.tok o (fun _ => ⟨_, rfl, by simp [ht], fun _ h => absurd h ho⟩)).mono
    rintro _ _ rfl
    refine ⟨_, .right, ?_⟩
    simp [Ghost.settle, Served.life, hs, ht, Life.finish]
  · apply (safe_settleToken s.tok o (fun h => absurd h ht)).mono
    rintro _ _ rfl
    refine ⟨z, ?_, if_neg ht⟩
    simpa [Served.life, ht] using hj

def bufferedLife (t : Ticket) (buffered : Option Served) : Option Life := buffered.bind (·.life t)

theorem safe_dropBuffered {buffered : Option Served} {y : Option Life}
    (hw : ∀ s ∈ buffered, s.WellFormed) (hj : Joined (bufferedLife t buffered) y z) :
    Safe (protocol t checked) (fun _ g' => g' = g.hold y) (dropBuffered buffered) (g.hold z) := by
  cases buffered with
  | none => exact .pure (congrArg g.hold (Joined.free hj))
  | some s => exact safe_drop (hw s rfl) .release nofun (Joined.symm hj)

end Joint

section FromAttempt

variable {a : Attempt} {r : Response} (u : Upstream)

theorem served_wellFormed (hr : r.stream = a.tok) : Served.WellFormed ⟨r, u, a.tok⟩ :=
  fun _ h => hr.trans h

theorem served_life (hok : a.result = .ok r) (hr : r.stream = a.tok) :
    Served.life t ⟨r, u, a.tok⟩ = a.life t := by
  by_cases ht : a.tok = some t
  · simp [Attempt.life, Served.life, hr, ht, hok, Except.isOk, Except.toBool]
  · simp [Attempt.life, Served.life, hr, ht]

theorem failed_life {e : AttemptError} (he : a.result = .error e) : failedLife t a.tok = a.life t := by
  rw [failedLife, Attempt.life, he]
  rfl

end FromAttempt

def stage (t : Ticket) (frame : Ghost → Prop) : Stage Ghost where
  idle b g' := (∀ s ∈ b, s.WellFormed) ∧ ∃ g, frame g ∧ g' = g.hold (bufferedLife t b)
  failed b tok e g' := (∀ s ∈ b, s.WellFormed) ∧ (e = .circuitUnavailable → tok = none) ∧
    ∃ g z, frame g ∧ Joined (bufferedLife t b) (failedLife t tok) z ∧ g' = g.hold z
  holds b s g' := (∀ s ∈ b, s.WellFormed) ∧ s.WellFormed ∧
    ∃ g z, frame g ∧ Joined (bufferedLife t b) (s.life t) z ∧ g' = g.hold z

section Stages

variable {frame : Ghost → Prop} {b : Option Served} {u : Upstream} {a : Attempt} {z : Option Life}

theorem idle_stage (hg : frame g) : (stage t frame).idle none (g.hold none) := ⟨nofun, g, hg, rfl⟩

theorem handled_stage (c : Call) : (stage t frame).Handled (protocol t checked) c where
  wait i h := (safe_waitRetry c i).mono fun _ _ hg => hg ▸ h
  refused := by
    rintro b tok _ ⟨hb, hrefused, g, z, hg, hj, rfl⟩
    rw [failedLife, hrefused rfl] at hj
    exact ⟨hb, g, hg, congrArg g.hold hj.symm.free⟩
  settle := by
    rintro b tok e o _ ⟨hb, -, g, z, hg, hj, rfl⟩ ho
    exact (safe_settleFailed o ho hj).mono fun _ _ h => ⟨hb, g, hg, h⟩
  peek := by
    rintro b s _ ⟨hb, hw, g, z, hg, hj, rfl⟩
    have hstream := peekBodyForPruning_stream s.response c.target
    refine ⟨hb, fun t ht => hstream.trans (hw t ht), g, z, hg, ?_, rfl⟩
    rwa [Served.life, hstream]
  drop := by
    rintro b s o _ ⟨hb, hw, g, z, hg, hj, rfl⟩ ho
    have ho : o ≠ .success := by
      rcases ho with rfl | ⟨rfl, -⟩ <;> decide
    exact (safe_drop hw o ho hj).mono fun _ _ h => ⟨hb, g, hg, h⟩
  readDrop := by
    rintro b s _ ⟨hb, hw, g, z, hg, hj, rfl⟩ -
    exact (safe_readDrop _ hw hj).mono fun _ _ h => ⟨hb, g, hg, h⟩
  settleKept := by
    rintro b s _ ⟨hb, hw, g, z, hg, hj, rfl⟩ -
    apply (safe_settleKept hw .failure nofun hj).mono
    rintro _ _ ⟨z', hj', rfl⟩
    exact ⟨hb, nofun, g, z', hg, hj', rfl⟩
  clear := by
    rintro b _ ⟨hb, g, hg, rfl⟩
    exact (safe_dropBuffered hb .left).mono fun _ _ h => ⟨nofun, g, hg, h⟩
  replace := by
    rintro b s _ ⟨hb, hw, g, z, hg, hj, rfl⟩
    exact (safe_dropBuffered hb hj).mono fun _ _ h => ⟨nofun, hw, g, _, hg, .right, h⟩
  keep := by
    rintro s _ ⟨-, hw, g, z, hg, hj, rfl⟩
    refine ⟨?_, g, hg, congrArg g.hold (Joined.free hj)⟩
    rintro _ ⟨⟩
    exact hw

theorem taken_of_joined (hb : ∀ s ∈ b, s.WellFormed) (hw : a.WellFormed) (hg : frame g)
    (hj : Joined (bufferedLife t b) (a.life t) z) : (stage t frame).taken b u a (g.hold z) := by
  cases hr : a.result with
  | ok r =>
    have hstream := hw.stream r hr
    rw [← served_life u hr hstream] at hj
    exact (Stage.taken_ok hr).mpr ⟨hb, served_wellFormed u hstream, g, z, hg, hj, rfl⟩
  | error e =>
    rw [← failed_life hr] at hj
    exact (Stage.taken_error hr).mpr ⟨hb, fun he => hw.refused (he ▸ hr), g, z, hg, hj, rfl⟩

theorem safe_taken (u : Upstream) (h : (stage t frame).idle b g) :
    Safe (protocol t checked) ((stage t frame).taken b u) (forward u) g := by
  obtain ⟨hb, g, hg, rfl⟩ := h
  apply (safe_forward u).mono
  intro a g' hf
  obtain ⟨hw, z, hj, rfl⟩ := hf.joined
  exact taken_of_joined hb hw hg hj

end Stages

def Returned (t : Ticket) (g : Ghost) {ε : Type} : Except ε Served → Ghost → Prop
  | .ok s, g' => s.WellFormed ∧ g' = g.hold (s.life t)
  | .error _, g' => g' = g.hold none

def ReturnedTo (t : Ticket) (frame : Ghost → Prop) (ε : Type) (result : Except ε Served) (g' : Ghost) : Prop :=
  ∃ g, frame g ∧ Returned t g result g'

theorem ends_stage {frame : Ghost → Prop} : (stage t frame).Ends (ReturnedTo t frame) where
  error h := ⟨_, h.2.choose_spec.1, h.2.choose_spec.2⟩
  ok h := ⟨_, h.2.choose_spec.1, h.1 _ rfl, h.2.choose_spec.2⟩

theorem safe_returned {ε : Type} {p : Go (Except ε Served)} {g' : Ghost}
    (hp : Safe (protocol t checked) (ReturnedTo t (· = g) ε) p g') :
    Safe (protocol t checked) (Returned t g) p g' :=
  hp.mono fun _ _ ⟨_, heq, hreturned⟩ => heq ▸ hreturned

def Promoted (t : Ticket) (g : Ghost) (s : Served) : Option (Except ExecError Served) → Ghost → Prop
  | some result, g' => Returned t g result g'
  | none, g' => g' = g.hold (s.life t)

def PromoteSafe (t : Ticket) (checked : Prop) (promote : Promote) : Prop :=
  ∀ i tried a r u (g : Ghost), Served.WellFormed ⟨r, u, a.tok⟩ →
    Safe (protocol t checked) (Promoted t g ⟨r, u, a.tok⟩) (promote i tried a r)
      (g.hold (Served.life t ⟨r, u, a.tok⟩))

theorem sequentialStages {promote : Promote} (hp : PromoteSafe t checked promote) (c : Call) (g : Ghost) :
    SequentialStages (protocol t checked) c (ReturnedTo t (· = g)) promote (fun _ _ _ => stage t (· = g)) where
  handled _ _ _ := handled_stage c
  ends _ _ _ := ends_stage
  skip _ h := h
  forward _ h := safe_taken _ h
  promote := by
    rintro i tried u rest a r _ ⟨-, hw, _, z, rfl, hj, rfl⟩
    rw [Joined.free hj]
    apply (hp i tried a r u _ hw).mono
    rintro (_ | result) g' hg'
    · exact ⟨nofun, hw, _, _, rfl, .right, hg'⟩
    · exact ⟨_, rfl, hg'⟩

theorem safe_sequentialLoop {promote : Promote} (hp : PromoteSafe t checked promote) (c : Call)
    (total i : ℕ) (tried : List String) (last : Option AttemptError) (ups : List Upstream) :
    Safe (protocol t checked) (Returned t g) (sequentialLoop c promote total i tried last ups)
      (g.hold none) :=
  safe_returned ((sequentialStages hp c g).safe_loop total i last ups (idle_stage rfl))

theorem promoteSafe_archiveBiased : PromoteSafe t checked archiveBiased :=
  fun _ _ _ _ _ _ _ => .pure rfl

theorem promoteSafe_midLoop (c : Call) : PromoteSafe t checked (promoteMidLoop c) := by
  intro i tried a r u g hw
  rw [promoteMidLoop, safe_pool]
  intro pool
  dsimp only
  split_ifs
  · exact .pure rfl
  · exact .pure rfl
  · apply (safe_drop hw .release nofun .right).seq
    apply (safe_sequentialLoop promoteSafe_archiveBiased c _ _ _ _ _).bind
    intro result g' hg
    exact .pure hg

theorem safe_executeSequential (c : Call) (preferID : String) (proactiveArchive : Bool) :
    Safe (protocol t checked) (Returned t g) (executeSequential c preferID proactiveArchive)
      (g.hold none) := by
  rw [executeSequential, safe_pool]
  intro pool
  dsimp only
  split_ifs
  · exact .pure rfl
  · rw [safe_pool]
    intro pool
    apply safe_sequentialLoop
    cases proactiveArchive with
    | true => exact promoteSafe_archiveBiased
    | false => exact promoteSafe_midLoop c

theorem selectedStages (checked : Prop) (c : Call) (g : Ghost) :
    SelectedStages (protocol t checked) c (ReturnedTo t (· = g)) (fun _ _ => stage t (· = g)) where
  handled _ _ := handled_stage c
  ends _ _ := ends_stage
  forward h := safe_taken _ h

theorem safe_executeSelectedFS (c : Call) :
    Safe (protocol t checked) (Returned t g) (executeSelectedFS c) (g.hold none) := by
  rw [executeSelectedFS, safe_pool]
  intro pool
  dsimp only
  split_ifs
  · cases pool.byID c.required.id with
    | none => exact .pure rfl
    | some u =>
      have hidle : (stage t (· = g)).idle none (g.hold none) := idle_stage rfl
      apply (safe_taken u hidle).bind
      intro a g' ha
      apply safe_returned
      cases hr : a.result with
      | ok r => exact (handled_stage c).served ends_stage ExecError ((Stage.taken_ok hr).mp ha)
      | error e =>
        apply ((handled_stage c).settleError ((Stage.taken_error hr).mp ha)).bind
        intro _ _ hg
        exact .pure (ends_stage.error hg)
  · exact .pure rfl
  · exact safe_returned ((selectedStages checked c g).safe_loop 0 none none _ (idle_stage rfl))

theorem archiveStages (checked : Prop) (c : Call) (tried : List String) (g : Ghost) :
    ArchiveStages (protocol t checked) c (ReturnedTo t (· = g)) tried (fun _ => stage t (· = g)) where
  handled _ := handled_stage c
  ends _ := ends_stage
  skip _ h := h
  forward _ h := safe_taken _ h

theorem safe_promoteToArchive (c : Call) (tried : List String) (maxAttempts : ℕ) :
    Safe (protocol t checked) (Returned t g) (promoteToArchive c tried maxAttempts) (g.hold none) := by
  rw [promoteToArchive, safe_pool]
  intro pool
  exact safe_returned ((archiveStages checked c tried g).safe_pass none _ (idle_stage rfl))

theorem readAtMost_short {body : Body} {n : Int64} {content : String}
    (h : readAtMost body n = .ok content) (hlen : content.length < n.toNatClampNeg) :
    body = .whole content := by
  unfold readAtMost at h
  split_ifs at h with hn
  · cases h
    rw [← Int64.toNat_toInt] at hlen
    have hzero : n.toInt ≤ 0 := by simpa using Int64.le_iff_toInt_le.mp hn
    omega
  · cases body with
    | whole c =>
      simp only [Except.ok.injEq] at h
      subst h
      rw [Text.length_take] at hlen
      rw [Text.take_of_length_le (by omega)]
    | broken c canceled =>
      dsimp only at h
      split_ifs at h with hk
      cases h
      rw [Text.length_take] at hlen
      omega

theorem wholeRead_of_ok {limit : Int64} (hl : limit ≠ Int64.maxValue) {body : Body} {content : String}
    (h : readBodyCapped body limit = .ok content) : wholeRead body (.ok content) = true := by
  rw [wholeRead, decide_eq_true_iff]
  unfold readBodyCapped at h
  split_ifs at h with hpos
  · cases body with
    | whole c => simpa using h
    | broken c canceled => cases h
  · have hlimit : 0 < limit := Int64.not_le.mp hpos
    cases hr : readAtMost body (limit + 1) with
    | error e => simp [hr] at h
    | ok c =>
      simp only [hr] at h
      split_ifs at h with hlen
      cases h
      apply readAtMost_short hr
      rw [← Int64.toNat_toInt, Words.toInt_succ hl (Int64.le_of_lt hlimit)]
      omega

theorem readOutcome_success {limit : Int64} {body : Body} {failed : ReadError → CBOutcome}
    {ok : CBOutcome} (hfailed : ∀ e, failed e ≠ .success) (hl : limit ≠ Int64.maxValue)
    (h : readOutcome failed ok (readBodyCapped body limit) = .success) :
    wholeRead body (readBodyCapped body limit) = true := by
  cases hr : readBodyCapped body limit with
  | ok content => exact wholeRead_of_ok hl hr
  | error e =>
    rw [hr] at h
    exact absurd h (hfailed e)

section Consume

variable {limit : Int64} {s : Served} (failed : ReadError → CBOutcome) (ok : CBOutcome)

theorem safe_readServed (limit : Int64) (s : Served) :
    Safe (protocol t checked)
      (fun body g' => body = readBodyCapped s.response.body limit ∧ g' = g.hold (
        if s.response.stream = some t then
          some ⟨true, wholeRead s.response.body body, decide (s.tok ≠ some t)⟩ else none))
      (readAndFinalizeResponseBody limit s.response) (g.hold (s.life t)) := by
  by_cases hs : s.response.stream = some t
  · have hlife : s.life t = some ⟨true, false, decide (s.tok ≠ some t)⟩ := if_pos hs
    rw [hlife]
    apply (safe_read limit s.response (fun _ => ⟨_, rfl, rfl⟩)).mono
    rintro body _ ⟨hbody, rfl⟩
    exact ⟨hbody, by simp [Ghost.readTo, hs]⟩
  · have hlife : s.life t = none := if_neg hs
    rw [hlife]
    apply (safe_read limit s.response (fun h => absurd h hs)).mono
    rintro body _ ⟨hbody, rfl⟩
    exact ⟨hbody, by simp [Ghost.readTo, hs]⟩

theorem safe_readCloseSettle (hw : s.WellFormed) (hfailed : ∀ e, failed e ≠ .success)
    (hl : checked → limit ≠ Int64.maxValue) :
    Safe (protocol t checked) (fun _ g' => g' = g.hold none) (readCloseSettle limit s failed ok)
      (g.hold (s.life t)) := by
  apply (safe_readServed limit s).bind
  rintro body _ ⟨hbody, rfl⟩
  by_cases hs : s.response.stream = some t
  · rw [if_pos hs]
    apply (safe_closeBody s.response (fun _ => ⟨_, rfl, rfl⟩)).seq
    by_cases ht : s.tok = some t
    · refine (safe_settleToken s.tok _ (fun _ => ?_)).seq ?_
      · refine ⟨⟨false, wholeRead s.response.body body, false⟩, ?_, rfl, ?_⟩
        · simp [Ghost.close, hs, ht, Life.finish]
        · intro hc ho
          subst hbody
          exact readOutcome_success hfailed (hl hc) ho
      · simp [safe_ret, Ghost.close, Ghost.settle, hs, ht, Life.finish]
    · refine (safe_settleToken s.tok _ (fun h => absurd h ht)).seq ?_
      simp [safe_ret, Ghost.close, Ghost.settle, hs, ht, Life.finish]
  · have ht : s.tok ≠ some t := fun h => hs (hw t h)
    rw [if_neg hs]
    apply (safe_closeBody s.response (fun h => absurd h hs)).seq
    refine (safe_settleToken s.tok _ (fun h => absurd h ht)).seq ?_
    simp [safe_ret, Ghost.close, Ghost.settle, hs, ht]

theorem safe_settleClose (o : CBOutcome) {read : Bool} (hw : s.WellFormed)
    (ho : checked → o = .success → read = true) :
    Safe (protocol t checked) (fun _ g' => g' = g.hold none)
      (settleToken s.tok o >>= fun _ => closeBody s.response)
      (g.hold (if s.response.stream = some t then
        some ⟨true, read, decide (s.tok ≠ some t)⟩ else none)) := by
  by_cases hs : s.response.stream = some t
  · rw [if_pos hs]
    by_cases ht : s.tok = some t
    · refine (safe_settleToken s.tok o (fun _ => ⟨_, rfl, by simp [ht], ho⟩)).seq ?_
      apply (safe_closeBody s.response _).mono
      · rintro _ _ rfl
        simp [Ghost.close, Ghost.settle, hs, ht, Life.finish]
      · intro _
        exact ⟨⟨true, read, true⟩, by simp [Ghost.settle, ht, Life.finish], rfl⟩
    · refine (safe_settleToken s.tok o (fun h => absurd h ht)).seq ?_
      apply (safe_closeBody s.response _).mono
      · rintro _ _ rfl
        simp [Ghost.close, Ghost.settle, hs, ht, Life.finish]
      · intro _
        exact ⟨⟨true, read, true⟩, by simp [Ghost.settle, ht], rfl⟩
  · have ht : s.tok ≠ some t := fun h => hs (hw t h)
    rw [if_neg hs]
    refine (safe_settleToken s.tok o (fun h => absurd h ht)).seq ?_
    apply (safe_closeBody s.response (fun h => absurd h hs)).mono
    rintro _ _ rfl
    simp [Ghost.close, Ghost.settle, hs, ht]

theorem safe_readSettleClose (hw : s.WellFormed) (hfailed : ∀ e, failed e ≠ .success)
    (hl : checked → limit ≠ Int64.maxValue) :
    Safe (protocol t checked) (fun _ g' => g' = g.hold none) (readSettleClose limit s failed ok)
      (g.hold (s.life t)) := by
  apply (safe_readServed limit s).bind
  rintro body _ ⟨hbody, rfl⟩
  apply safe_settleClose _ hw
  intro hc ho
  subst hbody
  exact readOutcome_success hfailed (hl hc) ho

end Consume

theorem safe_consume (caller : Caller) {limit : Int64} {s : Served} (hw : s.WellFormed)
    (hl : checked → limit ≠ Int64.maxValue) :
    Safe (protocol t checked) (fun _ g' => g' = g.hold none) (caller.consume limit s)
      (g.hold (s.life t)) := by
  cases caller with
  | direct =>
    apply safe_readSettleClose _ _ hw _ hl
    intro e
    split_ifs <;> exact nofun
  | leader =>
    apply (safe_readCloseSettle (fun _ => .failure) _ hw (fun _ => nofun) hl).bind
    intro _ _ hg
    exact .pure hg
  | prewarm =>
    unfold Caller.consume
    split_ifs
    · exact safe_settleClose _ hw (fun _ => nofun)
    · exact safe_settleClose _ hw (fun _ => nofun)
    · exact safe_readSettleClose _ _ hw (fun _ => nofun) hl

section Hedge

variable {x : Option Life} {owed debt : ℕ}

theorem joined_received {r : HedgeResult} (hm : mayReceive t ⟨x, true, owed, debt⟩ r) :
    ∃ z, Joined x (r.attempt.life t) z ∧
      received t ⟨x, true, owed, debt⟩ r = ⟨z, true, owed - 1, debt⟩ := by
  refine ⟨if r.attempt.tok = some t then r.attempt.life t else x, ?_, rfl⟩
  split_ifs with ht
  · have hx : x = none := hm.2.2 ht
    rw [hx]
    exact .right
  · rw [Attempt.life_eq_none ht]
    exact .left

theorem safe_drainResults (n : ℕ) :
    Safe (protocol t checked) (fun _ g' => ∃ reader, g' = ⟨x, reader, 0, debt⟩) (drainResults n)
      ⟨x, true, n, debt⟩ := by
  unfold drainResults
  split_ifs with hn
  · subst hn
    exact .pure ⟨true, rfl⟩
  · exact safe_call.mpr ⟨⟨rfl, rfl⟩, fun _ _ => .pure ⟨false, rfl⟩⟩

theorem safe_select {st : HedgeState}
    (h : (stage t (· = ⟨none, true, st.inflight, debt⟩)).idle st.pruning g) :
    Safe (protocol t checked) (Stage.arrives True (stage t (· = ⟨none, true, st.inflight, debt⟩))
      (fun _ => stage t (· = ⟨none, true, st.inflight - 1, debt⟩)) st) (Go.select st.armed) g := by
  obtain ⟨hb, _, rfl, rfl⟩ := h
  refine safe_call.mpr ⟨rfl, fun arrival hm => .pure ?_⟩
  cases arrival with
  | result r =>
    have hm : mayReceive t ⟨bufferedLife t st.pruning, true, st.inflight, debt⟩ r := hm
    obtain ⟨z, hj, hz⟩ := joined_received hm
    refine ⟨fun _ => hm.1, ?_⟩
    change (stage t _).taken st.pruning r.upstream r.attempt
      (received t ⟨bufferedLife t st.pruning, true, st.inflight, debt⟩ r)
    rw [hz]
    exact taken_of_joined (g := ⟨none, true, st.inflight - 1, debt⟩) hb hm.2.1 rfl hj
  | timer => exact ⟨fun _ => hm, hb, _, rfl, rfl⟩
  | done => exact ⟨hb, _, rfl, rfl⟩

def HedgeReturned (t : Ticket) (debt : ℕ) (result : Except ExecError Served) (g : Ghost) : Prop :=
  ∃ reader, Returned t ⟨none, reader, 0, debt⟩ result g

theorem safe_hedgeFinish {c : Call} (hl : checked → c.maxResponseBytes ≠ Int64.maxValue)
    (maxFire : ℕ) (st : HedgeState) (hw : ∀ s ∈ st.pruning, s.WellFormed) :
    Safe (protocol t checked) (HedgeReturned t debt) (hedgeFinish c maxFire st)
      ⟨bufferedLife t st.pruning, true, 0, debt⟩ := by
  unfold hedgeFinish
  cases hp : st.pruning with
  | none => exact .pure ⟨true, rfl⟩
  | some s =>
    apply (safe_readCloseSettle (g := ⟨none, true, 0, debt⟩) (fun _ => .failure) .success (hw s hp)
      (fun _ => nofun) hl).bind
    rintro body _ rfl
    apply (safe_promoteToArchive c st.tried _).bind
    intro archived g' hg
    cases archived with
    | ok served => exact .pure ⟨true, hg⟩
    | error e =>
      have hg : g' = _ := hg
      subst hg
      cases body with
      | ok content => exact .pure ⟨true, nofun, rfl⟩
      | error e => exact .pure ⟨true, rfl⟩

theorem hedgeStages {c : Call} (hl : checked → c.maxResponseBytes ≠ Int64.maxValue) (maxFire debt : ℕ) :
    HedgeStages (protocol t checked) c (ReturnedTo t (fun g => ∃ reader, g = ⟨none, reader, 0, debt⟩)) True maxFire
      (fun _ inflight _ _ => stage t (· = ⟨none, true, inflight, debt⟩))
      (stage t (fun g => ∃ reader, g = ⟨none, reader, 0, debt⟩)) where
  handled _ _ _ _ := handled_stage c
  handledLast := handled_stage c
  ends := ends_stage
  finish := by
    rintro st _ hzero ⟨hb, _, rfl, rfl⟩
    rw [hzero trivial]
    exact (safe_hedgeFinish hl maxFire st hb).mono fun _ _ ⟨reader, hg⟩ => ⟨_, ⟨reader, rfl⟩, hg⟩
  select _ h := safe_select h
  disarm h := h
  fire := by
    rintro u pending inflight armed tried b _ ⟨hb, _, rfl, rfl⟩
    exact safe_call.mpr ⟨rfl, fun _ _ => .pure ⟨hb, _, rfl, rfl⟩⟩
  pool h := safe_call.mpr ⟨trivial, fun _ _ => .pure h⟩
  leave := by
    rintro pending inflight armed tried b _ ⟨hb, _, rfl, rfl⟩
    apply (safe_drainResults inflight).mono
    rintro _ _ ⟨reader, rfl⟩
    exact ⟨hb, _, ⟨reader, rfl⟩, rfl⟩
  win := by
    rintro pending inflight armed tried b s _ ⟨hb, hs, _, z, rfl, hj, rfl⟩
    apply (safe_drainResults inflight).mono
    rintro _ _ ⟨reader, rfl⟩
    exact ⟨hb, hs, _, z, ⟨reader, rfl⟩, hj, rfl⟩

theorem safe_executeHedgeFS {c : Call} (hl : checked → c.maxResponseBytes ≠ Int64.maxValue)
    (hedge : HedgeConfig) (preferID : String) (ups : List Upstream) (archiveBiased : Bool) :
    Safe (protocol t checked) (HedgeReturned t debt)
      (executeHedgeFS c hedge preferID ups archiveBiased) ⟨none, true, 0, debt⟩ := by
  rw [executeHedgeFS, safe_pool]
  intro pool
  dsimp only
  split
  · exact .pure ⟨true, rfl⟩
  · rename_i u pending _
    refine safe_perform.mpr ⟨rfl, fun _ _ => ?_⟩
    apply ((hedgeStages hl _ debt).safe_loop archiveBiased _ ⟨pending, 1, true, none, [], none⟩
      (fun _ => le_refl _) ⟨nofun, _, rfl, rfl⟩).mono
    rintro _ _ ⟨_, ⟨reader, rfl⟩, hg⟩
    exact ⟨reader, hg⟩

theorem safe_executeFS {c : Call} (hl : checked → c.maxResponseBytes ≠ Int64.maxValue) :
    Safe (protocol t checked) (HedgeReturned t debt) (executeFS c) ⟨none, true, 0, debt⟩ := by
  have hseq (preferID : String) (proactiveArchive : Bool) : Safe (protocol t checked)
      (HedgeReturned t debt) (executeSequential c preferID proactiveArchive) ⟨none, true, 0, debt⟩ :=
    (safe_executeSequential (g := ⟨none, true, 0, debt⟩) c preferID proactiveArchive).mono
      (fun _ _ hg => ⟨true, hg⟩)
  unfold executeFS
  split_ifs
  · exact (safe_executeSelectedFS (g := ⟨none, true, 0, debt⟩) c).mono (fun _ _ hg => ⟨true, hg⟩)
  · rw [safe_pool]
    intro pool
    dsimp only
    cases c.fs.hedge with
    | none => exact hseq _ _
    | some hedge =>
      dsimp only
      rw [safe_pool]
      intro pool'
      split_ifs
      · exact safe_executeHedgeFS hl hedge _ _ _
      · exact hseq _ _

end Hedge

theorem safe_run (caller : Caller) {c : Call}
    (hl : checked → c.maxResponseBytes ≠ Int64.maxValue) :
    Safe (protocol t checked) (fun _ g => g.Idle) (caller.run c) ⟨none, true, 0, 0⟩ := by
  apply (safe_executeFS hl).bind
  rintro result g ⟨reader, hg⟩
  cases result with
  | error e =>
    have hg : g = _ := hg
    subst hg
    exact .pure ⟨rfl, rfl, rfl⟩
  | ok s =>
    obtain ⟨hw, rfl⟩ := hg
    apply (safe_consume (g := ⟨none, reader, 0, 0⟩) caller hw hl).mono
    rintro _ _ rfl
    exact ⟨rfl, rfl, rfl⟩

theorem safe_hedgeAttempt (u : Upstream) :
    Safe (protocol t checked) (fun _ g => g.Idle) (hedgeAttempt u) ⟨none, false, 0, 1⟩ := by
  apply (safe_forward u).bind
  intro a g hf
  obtain ⟨hw, z, hj, rfl⟩ := Forwarded.joined (g := ⟨none, false, 0, 1⟩) hf
  exact safe_call.mpr ⟨⟨Nat.one_pos, hw, hj.free⟩, fun _ _ => .pure ⟨rfl, rfl, rfl⟩⟩

theorem safe_drainLoop (n : ℕ) :
    Safe (protocol t checked) (fun _ g => g.Idle) (drainLoop n) ⟨none, true, n, 0⟩ := by
  induction n with
  | zero => exact .pure ⟨rfl, rfl, rfl⟩
  | succ n ih =>
    refine safe_perform.mpr ⟨rfl, fun r hm => ?_⟩
    obtain ⟨z, hj, hz⟩ := joined_received hm
    change Safe _ _ _ (received t ⟨none, true, n + 1, 0⟩ r)
    rw [hz]
    refine Safe.seq ?_ ih
    unfold discard
    cases hr : r.attempt.result with
    | ok resp =>
      have hstream := hm.2.1.stream resp hr
      rw [← served_life r.upstream hr hstream] at hj
      exact safe_drop (g := ⟨none, true, n, 0⟩) (served_wellFormed r.upstream hstream) .release nofun hj
    | error e =>
      rw [← failed_life hr] at hj
      exact safe_settleFailed (g := ⟨none, true, n, 0⟩) .release nofun hj

end EBeacon.Network
