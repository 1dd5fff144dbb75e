import EBeacon.Library.Ring
import EBeacon.Upstream.Breaker
import EBeacon.Upstream.Pool

namespace EBeacon.Network

open Upstream

def lf : UInt8 := 10

def cr : UInt8 := 13

def colon : UInt8 := 58

def hashEvent (s : List UInt8) : UInt32 :=
  s.foldl (fun h b => (h ^^^ b.toUInt32) * 16777619) 2166136261

def sseMaxEventBytes : ℕ := 4194304

def seenRingSize : ℕ := 128

/-- What the body of a stream delivers before it ends. `eof` says that it ends with `io.EOF` and not
with another error, and `together` that its last read returned the error with the bytes. -/
structure EventBody where
  bytes : List UInt8
  eof : Bool
  together : Bool
  deriving DecidableEq, Repr

inductive SliceError
  | bufferFull
  | ended
  deriving DecidableEq, Repr

def readerSize : ℕ := 4096

def readSlice (b : EventBody) : List UInt8 × Option SliceError × EventBody :=
  let window := b.bytes.take readerSize
  if lf ∈ window then
    let n := window.idxOf lf + 1
    (b.bytes.take n, none, { b with bytes := b.bytes.drop n })
  else if readerSize < b.bytes.length ∨ (b.bytes.length = readerSize ∧ !b.together) then
    (window, some .bufferFull, { b with bytes := b.bytes.drop readerSize })
  else (b.bytes, some .ended, { b with bytes := [] })

inductive LineError
  | eof
  | tooLong
  | broken
  deriving DecidableEq, Repr

structure SSELine where
  line : List UInt8
  err : Option LineError
  deriving DecidableEq, Repr

def cappedLoop (max : ℕ) : ℕ → List UInt8 → EventBody → SSELine × EventBody
  | 0, sb, b => (⟨sb, some .broken⟩, b)
  | n + 1, sb, b =>
    let (chunk, err, rest) := readSlice b
    let sb := sb ++ chunk
    match err with
    | none => (⟨sb, none⟩, rest)
    | some .ended => (⟨sb, some (if b.eof then .eof else .broken)⟩, rest)
    | some .bufferFull =>
      if max < sb.length then (⟨sb, some .tooLong⟩, rest) else cappedLoop max n sb rest

def readCappedLine (max : ℕ) (b : EventBody) : SSELine × EventBody :=
  cappedLoop max (b.bytes.length + 1) [] b

def linesLoop (max : ℕ) : ℕ → EventBody → List SSELine
  | 0, _ => []
  | n + 1, b =>
    let (l, rest) := readCappedLine max b
    if l.err.isSome then [l] else l :: linesLoop max n rest

def readSSELines (b : EventBody) : List SSELine := linesLoop sseMaxEventBytes (b.bytes.length + 1) b

inductive SSERelay.Act
  | opened
  | line (l : List UInt8)
  | retry
  | ping
  | frame (f : List UInt8)
  | unavailable
  | success
  | failure
  | release
  | cbFailure
  deriving DecidableEq, Repr

structure SSERelay.Stream where
  lines : List SSELine
  event : List UInt8
  eventHasField : Bool
  credited : Bool
  deriving DecidableEq, Repr

inductive SSERelay.Phase
  | picking
  | streaming (s : SSERelay.Stream)
  | waiting
  | over
  deriving DecidableEq, Repr

-- `log` has what is sent and received, and `flushes` the calls of `flushSSEEvent`
structure SSERelay where
  seen : Ring UInt32
  stickyID : String
  headersSent : Bool
  ctxDone : Bool
  phase : SSERelay.Phase
  log : List SSERelay.Act
  flushes : List (List UInt8 × Bool)

namespace SSERelay

def new (preferUpstream : String) : SSERelay where
  seen := .new seenRingSize 0
  stickyID := preferUpstream
  headersSent := false
  ctxDone := false
  phase := .picking
  log := []
  flushes := []

def pickUpstream (pool : Pool) (preferUpstream : String) (required : Selector) : Option Upstream :=
  if !required.enabled then pool.get preferUpstream
  else if required.id ≠ "" then pool.byID required.id
  else (pool.selectMatching required "" 1).head?

def act (r : SSERelay) (a : Act) : SSERelay := { r with log := r.log ++ [a] }

def enter (r : SSERelay) (phase : Phase) : SSERelay := { r with phase := phase }

def returned (r : SSERelay) (required : Selector) (connected : Bool) : SSERelay :=
  if r.ctxDone then r.enter .over
  else if !connected && (required.enabled && !r.headersSent) then (r.act .unavailable).enter .over
  else { r with
    stickyID := if required.enabled then r.stickyID else ""
    phase := .waiting }

def leave (r : SSERelay) (required : Selector) (connected : Bool) : SSERelay :=
  (r.act .release).returned required connected

inductive Dial
  | unbuilt
  | refused
  | failed
  | badStatus
  | connected (body : EventBody)
  deriving DecidableEq, Repr

def dial (r : SSERelay) (required : Selector) (ok : Bool) : Dial → SSERelay
  | .unbuilt => r.returned required false
  -- the zero token of a refusal is released without effect
  | .refused => r.returned required false
  | .failed => (if r.ctxDone then r else r.act .failure).leave required false
  | .badStatus => (r.act .failure).leave required false
  | .connected body =>
    let r := r.act .opened
    let started := Phase.streaming ⟨readSSELines body, [], false, false⟩
    if r.headersSent then r.enter started
    else if !ok then r.leave required true
    else { (r.act .retry).enter started with headersSent := true }

structure Flushed where
  relay : SSERelay
  event : List UInt8
  wrote : Bool
  usable : Bool

def trimNewlines (l : List UInt8) : List UInt8 := l.rdropWhile (fun b => b = cr ∨ b = lf)

def flushing (r : SSERelay) (event : List UInt8) (forceTerminator : Bool) : SSERelay :=
  { r with flushes := r.flushes ++ [(event, forceTerminator)] }

def flushSSEEvent (r : SSERelay) (ok : Bool) (event : List UInt8) (forceTerminator : Bool) : Flushed :=
  let r := r.flushing event forceTerminator
  if event = [] then ⟨r, event, false, true⟩
  else
    let evStr := if forceTerminator then trimNewlines event ++ [lf, lf] else event
    let h := hashEvent evStr
    if r.seen.has h then ⟨r, [], false, true⟩
    else
      let r := { r with seen := r.seen.add h }
      if !ok then ⟨r, event, false, false⟩
      else ⟨r.act (.frame evStr), [], true, true⟩

def isTerminator (l : List UInt8) : Bool := l = [lf] || l = [cr, lf]

def credit (r : SSERelay) (s : Stream) (wrote : Bool) : SSERelay × Stream :=
  if wrote && s.eventHasField && !s.credited then (r.act .success, { s with credited := true }) else (r, s)

def receiveLine (r : SSERelay) (ok : Bool) (s : Stream) (l : List UInt8) : SSERelay × Option Stream :=
  if l = [] then (r, some s)
  else if sseMaxEventBytes < s.event.length + l.length then (r, none)
  else
    let s := { s with
      eventHasField := if !isTerminator l && l.head? ≠ some colon then true else s.eventHasField
      event := s.event ++ l }
    if !isTerminator l then (r, some s)
    else
      let out := r.flushSSEEvent ok s.event false
      if !out.usable then (out.relay, none)
      else
        let (r, s) := credit out.relay { s with event := out.event } out.wrote
        (r, some { s with eventHasField := false })

def receiveError (r : SSERelay) (ok : Bool) (s : Stream) : LineError → SSERelay
  | .eof =>
    let out := r.flushSSEEvent ok s.event true
    if !out.usable then out.relay
    else
      let (r, s) := credit out.relay s out.wrote
      if s.credited then r else r.act .failure
  | _ => if r.ctxDone then r else if s.credited then r.act .cbFailure else r.act .failure

inductive Turn
  | done
  | idle
  | ping (ok : Bool)
  | line (ok : Bool)
  deriving DecidableEq, Repr

def turn (r : SSERelay) (required : Selector) (s : Stream) : Turn → Option SSERelay
  | .done => if r.ctxDone then some (r.leave required true) else none
  | .idle => some (r.leave required true)
  | .ping ok => some (if ok then r.act .ping else r.leave required true)
  | .line ok =>
    match s.lines with
    | [] => none
    | l :: lines =>
      let r := if l.line = [] then r else r.act (.line l.line)
      match r.receiveLine ok { s with lines := lines } l.line with
      | (r, none) => some (r.leave required true)
      | (r, some s) =>
        match l.err with
        | none => some (r.enter (.streaming s))
        | some e => some ((r.receiveError ok s e).leave required true)

/-- `cancel` ends the client's context, `iterate` is the head of the loop of `Serve` with what it
finds, and `wake` the end of a pause. -/
inductive Label
  | cancel
  | iterate (pool : Pool) (d : Dial) (ok : Bool)
  | turn (t : Turn)
  | wake (elapsed : Bool)

def next (required : Selector) (r : SSERelay) : Label → Option SSERelay
  | .cancel => some { r with ctxDone := true }
  | .iterate pool d ok =>
    if r.phase ≠ .picking then none
    else if r.ctxDone then some (r.enter .over)
    else match pickUpstream pool r.stickyID required with
      | none =>
        if required.enabled && !r.headersSent then some ((r.act .unavailable).enter .over)
        else some (r.enter .waiting)
      | some u => some ({ r with stickyID := u.id }.dial required ok d)
  | .turn t =>
    match r.phase with
    | .streaming s => r.turn required s t
    | _ => none
  | .wake elapsed =>
    if r.phase ≠ .waiting then none
    else if elapsed then some (r.enter .picking)
    else if r.ctxDone then some (r.enter .over)
    else none

def Label.succeeds : Label → Bool
  | .iterate _ _ ok => ok
  | .turn (.ping ok) => ok
  | .turn (.line ok) => ok
  | _ => true

end SSERelay

end EBeacon.Network
