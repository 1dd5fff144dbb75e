import EBeacon.Library.Threads
import EBeacon.Network.Execute
import EBeacon.Upstream.BreakerInvariant
import Mathlib.Data.Finset.Filter

namespace EBeacon.Network

open Upstream Proc

inductive Caller
  | direct
  | leader
  | prewarm
  deriving DecidableEq, Repr

def readSettleClose (limit : Int64) (s : Served) (failed : ReadError → CBOutcome) (ok : CBOutcome) :
    Go Unit := do
  let body ← readAndFinalizeResponseBody limit s.response
  settleToken s.tok (readOutcome failed ok body)
  closeBody s.response

def Caller.consume (limit : Int64) (s : Served) : Caller → Go Unit
  | .direct =>
    readSettleClose limit s (fun e => if e.isClientCancel then .release else .failure)
      (statusOutcome s.response.status)
  | .leader => do
    let _ ← readCloseSettle limit s (fun _ => .failure) (statusOutcome s.response.status)
    return ()
  | .prewarm =>
    if s.response.status < 200 ∨ 300 ≤ s.response.status then do
      -- the body is discarded unread, so a success is not credited
      settleToken s.tok (if 500 ≤ s.response.status then .failure else .release)
      closeBody s.response
    else readSettleClose limit s (fun _ => .failure) .success

def Caller.run (caller : Caller) (c : Call) : Go Unit := do
  match ← executeFS c with
  | .error _ => return ()
  | .ok s => caller.consume c.maxResponseBytes s

def hedgeAttempt (u : Upstream) : Go Unit := do
  let a ← forward u
  Go.post ⟨u, a⟩

def discard (a : Attempt) : Go Unit :=
  match a.result with
  | .ok r => closeAndSettle r a.tok .release
  | .error _ => settleToken a.tok .release

def drainLoop : ℕ → Go Unit
  | 0 => return ()
  | n + 1 => do
    let r ← Go.receive
    discard r.attempt
    drainLoop n

inductive Event
  | read (t : Ticket) (complete : Bool)
  | settle (t : Ticket) (o : CBOutcome)
  deriving DecidableEq, Repr

/-- What the goroutines of a call share with each other and with the rest of the process.
`tracked` holds the admitted requests that are in flight or whose body is not closed, and
`elsewhere` sums the changes that other calls make to the counters. -/
structure Shared where
  channel : List HedgeResult
  breakers : String → BreakerRun.Sys
  activeConns : String → ℤ
  elsewhere : String → ℤ
  granted : List Ticket
  tracked : Finset Ticket
  trace : List Event

namespace Shared

def addActive (s : Shared) (upstream : String) (change : ℤ) : Shared :=
  { s with activeConns := Function.update s.activeConns upstream (s.activeConns upstream + change) }

def setBreaker (s : Shared) (upstream : String) (b : BreakerRun.Sys) : Shared :=
  { s with breakers := Function.update s.breakers upstream b }

def untrack (s : Shared) (t : Ticket) : Shared :=
  if t ∈ s.tracked then { s.addActive t.upstream (-1) with tracked := s.tracked.erase t } else s

def grant (s : Shared) (t : Ticket) : Shared :=
  { s.addActive t.upstream 1 with granted := s.granted ++ [t], tracked := insert t s.tracked }

end Shared

inductive Choice
  | none
  | pool (p : Pool)
  | flag (b : Bool)
  | clock (now : ℤ)
  | delivery (d : Delivery)
  | result
  | timer
  | done

variable (cfg : String → CircuitBreakerConfig)

def acquire (s : Shared) (u : Upstream) (now : ℤ) : Option (Option ℕ × Shared) :=
  let b := s.breakers u.id
  (BreakerRun.next (cfg u.id) b (.tryAcquire, now)).map (fun b' =>
    if b'.tokens.length = b.tokens.length then (none, s.setBreaker u.id b')
    else (some b.tokens.length, (s.setBreaker u.id b').grant ⟨u.id, b.tokens.length⟩))

def takeResult (s : Shared) : Option (HedgeResult × Shared) :=
  match s.channel with
  | [] => none
  | r :: rest => some (r, { s with channel := rest })

def execute (s : Shared) : (e : Eff) → Choice → Option (e.Answer × Shared)
  | .pool _, .pool p => some (p, s)
  | .build _, .flag b => some (b, s)
  | .acquire u, .clock now => acquire cfg s u now
  | .send t, .delivery d => some (d, match d with
    | .failed _ => { s.addActive t.upstream (-1) with tracked := s.tracked.erase t }
    | .replied _ _ _ => s)
  | .read t complete, .none => some ((), { s with trace := s.trace ++ [.read t complete] })
  | .close t, .none => some ((), s.untrack t)
  | .settle t o, .clock now =>
    (BreakerRun.next (cfg t.upstream) (s.breakers t.upstream) (.settle t.token o, now)).map (fun b =>
      ((), { s.setBreaker t.upstream b with trace := s.trace ++ [.settle t o] }))
  | .retryDelay _, .flag b => some (b, s)
  | .fire _, .none => some ((), s)
  | .post r, .none => some ((), { s with channel := s.channel ++ [r] })
  | .select _, .result => (takeResult s).map (fun out => (.result out.1, out.2))
  | .select armed, .timer => if armed then some (.timer, s) else none
  | .select _, .done => some (.done, s)
  | .receive, .result => takeResult s
  | .drain _, .none => some ((), s)
  | _, _ => none

inductive Performed (s : Shared) : (e : Eff) → e.Answer → Shared → Prop
  | pool (site : Site) (p : Pool) : Performed s (.pool site) p s
  | build (u : Upstream) (b : Bool) : Performed s (.build u) b s
  | acquire {u : Upstream} {now : ℤ} {token : Option ℕ} {s' : Shared}
      (h : acquire cfg s u now = some (token, s')) : Performed s (.acquire u) token s'
  | failed (t : Ticket) (canceled : Bool) : Performed s (.send t) (.failed canceled)
      { s.addActive t.upstream (-1) with tracked := s.tracked.erase t }
  | replied (t : Ticket) (status : ℕ) (encoding : Encoding) (body : Body) :
      Performed s (.send t) (.replied status encoding body) s
  | read (t : Ticket) (complete : Bool) :
      Performed s (.read t complete) () { s with trace := s.trace ++ [.read t complete] }
  | close (t : Ticket) : Performed s (.close t) () (s.untrack t)
  | settle {t : Ticket} {o : CBOutcome} {now : ℤ} {b : BreakerRun.Sys}
      (h : BreakerRun.next (cfg t.upstream) (s.breakers t.upstream) (.settle t.token o, now) = some b) :
      Performed s (.settle t o) () { s.setBreaker t.upstream b with trace := s.trace ++ [.settle t o] }
  | retryDelay (i : ℕ) (b : Bool) : Performed s (.retryDelay i) b s
  | fire (u : Upstream) : Performed s (.fire u) () s
  | post (r : HedgeResult) : Performed s (.post r) () { s with channel := s.channel ++ [r] }
  | result (armed : Bool) {r : HedgeResult} {rest : List HedgeResult} (h : s.channel = r :: rest) :
      Performed s (.select armed) (.result r) { s with channel := rest }
  | timer : Performed s (.select true) .timer s
  | done (armed : Bool) : Performed s (.select armed) .done s
  | receive {r : HedgeResult} {rest : List HedgeResult} (h : s.channel = r :: rest) :
      Performed s .receive r { s with channel := rest }
  | drain (n : ℕ) : Performed s (.drain n) () s

variable {cfg}

theorem takeResult_some {s s' : Shared} {r : HedgeResult} (h : takeResult s = some (r, s')) :
    ∃ rest, s.channel = r :: rest ∧ s' = { s with channel := rest } := by
  unfold takeResult at h
  cases hc : s.channel with
  | nil => simp [hc] at h
  | cons r' rest =>
    rw [hc] at h
    cases h
    exact ⟨rest, rfl, rfl⟩

theorem untrack_frame (s : Shared) (t : Ticket) :
    (s.untrack t).trace = s.trace ∧ (s.untrack t).channel = s.channel := by
  unfold Shared.untrack
  split_ifs
  · exact ⟨rfl, rfl⟩
  · exact ⟨rfl, rfl⟩

theorem acquire_frame {s s' : Shared} {u : Upstream} {now : ℤ} {token : Option ℕ}
    (h : acquire cfg s u now = some (token, s')) : s'.trace = s.trace ∧ s'.channel = s.channel := by
  obtain ⟨b, -, hout⟩ := Option.map_eq_some_iff.mp h
  split_ifs at hout
  · cases hout
    exact ⟨rfl, rfl⟩
  · cases hout
    exact ⟨rfl, rfl⟩

theorem performed {s s' : Shared} {e : Eff} {c : Choice} {r : e.Answer}
    (h : execute cfg s e c = some (r, s')) : Performed cfg s e r s' := by
  cases e <;> cases c <;> simp only [execute, reduceCtorEq] at h
  case pool.pool | build.flag | retryDelay.flag | read.none | close.none | fire.none | post.none |
      drain.none | select.done =>
    cases h
    constructor
  case acquire.clock => exact .acquire h
  case send.delivery t d =>
    cases h
    cases r with
    | failed canceled => exact .failed t canceled
    | replied status encoding body => exact .replied t status encoding body
  case settle.clock =>
    obtain ⟨b, hn, hout⟩ := Option.map_eq_some_iff.mp h
    cases hout
    exact .settle hn
  case select.result armed =>
    obtain ⟨⟨r', s''⟩, htake, hout⟩ := Option.map_eq_some_iff.mp h
    cases hout
    obtain ⟨rest, hc, rfl⟩ := takeResult_some htake
    exact .result armed hc
  case select.timer armed =>
    split_ifs at h with harmed
    subst harmed
    cases h
    exact .timer
  case receive.result =>
    obtain ⟨rest, hc, rfl⟩ := takeResult_some h
    exact .receive hc

variable (cfg)

def spawn : Eff → List (Go Unit)
  | .fire u => [hedgeAttempt u]
  | .drain n => [drainLoop n]
  | _ => []

abbrev Machine := Threads.System Shared Eff Eff.Answer

-- a step of a goroutine of the call, or of another call: one of its breaker operations, which cannot settle
-- tokens of this call, or a change that it makes to an active-request counter
inductive Label
  | thread (i : ℕ) (c : Choice)
  | breaker (upstream : String) (op : BreakerRun.Op) (now : ℤ)
  | conns (upstream : String) (change : ℤ)

def settlesOurs (granted : List Ticket) (upstream : String) : BreakerRun.Op → Bool
  | .settle i _ => ⟨upstream, i⟩ ∈ granted
  | _ => false

def nextOther (s : Shared) : Label → Option Shared
  | .thread _ _ => none
  | .breaker upstream op now =>
    if settlesOurs s.granted upstream op then none
    else (BreakerRun.next (cfg upstream) (s.breakers upstream) (op, now)).map (s.setBreaker upstream)
  | .conns upstream change =>
    some { s.addActive upstream change with
      elsewhere := Function.update s.elsewhere upstream (s.elsewhere upstream + change) }

theorem nextOther_frame {s s' : Shared} {l : Label} (h : nextOther cfg s l = some s') :
    s'.trace = s.trace ∧ s'.channel = s.channel := by
  cases l with
  | thread i c => cases h
  | breaker u op now =>
    simp only [nextOther] at h
    split_ifs at h
    obtain ⟨b, -, rfl⟩ := Option.map_eq_some_iff.mp h
    exact ⟨rfl, rfl⟩
  | conns u change =>
    cases h
    exact ⟨rfl, rfl⟩

def next (m : Machine) : Label → Option Machine
  | .thread i c => Threads.step (execute cfg) spawn m i c
  | l => (nextOther cfg m.shared l).map (fun s => { m with shared := s })

theorem next_cases {m m' : Machine} {l : Label} (h : next cfg m l = some m') :
    (∃ s, nextOther cfg m.shared l = some s ∧ m' = { m with shared := s }) ∨
      ∃ i c, l = .thread i c ∧ Threads.step (execute cfg) spawn m i c = some m' := by
  have other (hs : (nextOther cfg m.shared l).map (fun s => { m with shared := s }) = some m') :
      ∃ s, nextOther cfg m.shared l = some s ∧ m' = { m with shared := s } := by
    obtain ⟨s, hother, rfl⟩ := Option.map_eq_some_iff.mp hs
    exact ⟨s, hother, rfl⟩
  cases l with
  | thread i c => exact Or.inr ⟨i, c, rfl, h⟩
  | breaker u op now => exact Or.inl (other h)
  | conns u change => exact Or.inl (other h)

def start (breakers : String → BreakerRun.Sys) (activeConns : String → ℤ) (caller : Caller)
    (c : Call) : Machine where
  shared := ⟨[], breakers, activeConns, fun _ => 0, [], ∅, []⟩
  threads := [caller.run c]

def finished (m : Machine) : Prop := ∀ p ∈ m.threads, p = .ret ()

end EBeacon.Network
