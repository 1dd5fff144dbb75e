import EBeacon.Library.Process
import EBeacon.Network.Paths
import EBeacon.Upstream.Breaker
import EBeacon.Upstream.Pool

namespace EBeacon.Network

open Upstream Proc

@[ext]
structure Ticket where
  upstream : String
  token : ℕ
  deriving DecidableEq, Repr

/-- All that a response body delivers, after which it ends or breaks off. `canceled` says that the
read error is the cancellation of the client's request. -/
inductive Body
  | whole (content : String)
  | broken (content : String) (canceled : Bool)
  deriving DecidableEq, Repr

inductive Encoding
  | identity
  | gzip
  | badGzip (canceled : Bool)
  deriving DecidableEq, Repr

inductive Delivery
  | failed (canceled : Bool)
  | replied (status : ℕ) (encoding : Encoding) (body : Body)
  deriving DecidableEq, Repr

inductive ReadError
  | broken (canceled : Bool)
  | tooLarge
  deriving DecidableEq, Repr

inductive AttemptError
  | buildRequest
  | circuitUnavailable
  | transport (canceled : Bool)
  | invalidGzip (canceled : Bool)
  | contextDone
  | status (code : ℕ)
  | pruned (code : ℕ)
  | archivePruned (code : ℕ)
  deriving DecidableEq, Repr

inductive ExecError
  | noUpstreams
  | allFailed (count : ℕ) (last : Option AttemptError)
  | hedgesFailed (last : Option AttemptError)
  | selectedUnavailable (selector : String) (cause : Option AttemptError)
  | attempt (e : AttemptError)
  | readPruning (e : ReadError)
  deriving DecidableEq, Repr

-- `stream` is the tracked body that is still to be closed; a body held in memory has none
structure Response where
  status : ℕ
  body : Body
  stream : Option Ticket
  deriving DecidableEq, Repr

-- the results of `forward`; the zero token is `none`
structure Attempt where
  tok : Option Ticket
  result : Except AttemptError Response

structure Served where
  response : Response
  upstream : Upstream
  tok : Option Ticket
  deriving DecidableEq, Repr

structure HedgeResult where
  upstream : Upstream
  attempt : Attempt

inductive Arrival
  | result (r : HedgeResult)
  | timer
  | done

inductive Site
  | routing
  | hedge
  | sequential
  | preferred
  | promotion
  | selected
  deriving DecidableEq, Repr

inductive Eff
  | pool (site : Site)
  | build (u : Upstream)
  | acquire (u : Upstream)
  | send (t : Ticket)
  | read (t : Ticket) (complete : Bool)
  | close (t : Ticket)
  | settle (t : Ticket) (o : CBOutcome)
  | retryDelay (attempt : ℕ)
  | fire (u : Upstream)
  | post (r : HedgeResult)
  | select (armed : Bool)
  | receive
  | drain (remaining : ℕ)

@[reducible] def Eff.Answer : Eff → Type
  | .pool _ => Pool
  | .build _ => Bool
  | .acquire _ => Option ℕ
  | .send _ => Delivery
  | .retryDelay _ => Bool
  | .select _ => Arrival
  | .receive => HedgeResult
  | .read _ _ | .close _ | .settle _ _ | .fire _ | .post _ | .drain _ => Unit

abbrev Go := Proc Eff Eff.Answer

namespace Go

abbrev pool (site : Site) : Go Pool := perform (Eff.pool site)

abbrev build (u : Upstream) : Go Bool := perform (Eff.build u)

abbrev acquire (u : Upstream) : Go (Option ℕ) := perform (Eff.acquire u)

abbrev send (t : Ticket) : Go Delivery := perform (Eff.send t)

abbrev read (t : Ticket) (complete : Bool) : Go Unit := perform (Eff.read t complete)

abbrev close (t : Ticket) : Go Unit := perform (Eff.close t)

abbrev settle (t : Ticket) (o : CBOutcome) : Go Unit := perform (Eff.settle t o)

abbrev retryDelay (attempt : ℕ) : Go Bool := perform (Eff.retryDelay attempt)

abbrev fire (u : Upstream) : Go Unit := perform (Eff.fire u)

abbrev post (r : HedgeResult) : Go Unit := perform (Eff.post r)

abbrev select (armed : Bool) : Go Arrival := perform (Eff.select armed)

abbrev receive : Go HedgeResult := perform Eff.receive

abbrev drain (remaining : ℕ) : Go Unit := perform (Eff.drain remaining)

end Go

structure RetryConfig where
  maxAttempts : ℕ
  deriving DecidableEq, Repr

structure HedgeConfig where
  maxCount : ℕ
  deriving DecidableEq, Repr

structure FailsafeConfig where
  retry : Option RetryConfig
  hedge : Option HedgeConfig
  deriving DecidableEq, Repr

def FailsafeConfig.maxAttempts (fs : FailsafeConfig) : ℕ :=
  match fs.retry with
  | none => 1
  | some retry => retry.maxAttempts

structure Call where
  path : String
  apiPath : String
  preferID : String
  required : Selector
  fs : FailsafeConfig
  maxResponseBytes : Int64

def Call.target (c : Call) : HistoricalTarget := classifyHistoricalTarget c.path

def AttemptError.isClientCancel : AttemptError → Bool
  | .transport canceled | .invalidGzip canceled => canceled
  | _ => false

def ReadError.isClientCancel : ReadError → Bool
  | .broken canceled => canceled
  | .tooLarge => false

def readAtMost (body : Body) (n : Int64) : Except ReadError String :=
  if n ≤ 0 then .ok ""
  else match body with
    | .whole content => .ok (Text.take content n.toNatClampNeg)
    | .broken content canceled =>
      if n.toNatClampNeg ≤ content.length then .ok (Text.take content n.toNatClampNeg)
      else .error (.broken canceled)

def readBodyCapped (body : Body) (limit : Int64) : Except ReadError String :=
  if limit ≤ 0 then
    match body with
    | .whole content => .ok content
    | .broken _ canceled => .error (.broken canceled)
  else
    -- limit + 1 wraps around, as int64 does
    match readAtMost body (limit + 1) with
    | .ok content => if limit.toInt < content.length then .error .tooLarge else .ok content
    | .error e => .error e

def peerDASBodyPeekLimit : Int64 := 4096

-- the peeked bytes and the response as the peek leaves it: the bytes are replayed, but a read error is
-- final
def peekBodyForPruning (r : Response) (target : HistoricalTarget) : String × Response :=
  if r.status ≠ 400 ∨ target.kind ≠ .blobSidecars ∨ !target.isHistorical ∨ target.named ≠ "" then
    ("", r)
  else match readAtMost r.body peerDASBodyPeekLimit, r.body with
    | .ok peeked, _ => (peeked, r)
    | .error _, .broken _ canceled => ("", { r with body := .broken "" canceled })
    | .error _, .whole _ => ("", r)

theorem peekBodyForPruning_status (r : Response) (target : HistoricalTarget) :
    (peekBodyForPruning r target).2.status = r.status := by
  unfold peekBodyForPruning
  split_ifs
  · rfl
  · split <;> rfl

theorem peekBodyForPruning_stream (r : Response) (target : HistoricalTarget) :
    (peekBodyForPruning r target).2.stream = r.stream := by
  unfold peekBodyForPruning
  split_ifs
  · rfl
  · split <;> rfl

def closeBody (r : Response) : Go Unit :=
  match r.stream with
  | none => pure ()
  | some t => Go.close t

def settleToken (tok : Option Ticket) (o : CBOutcome) : Go Unit :=
  match tok with
  | none => pure ()
  | some t => Go.settle t o

def closeAndSettle (r : Response) (tok : Option Ticket) (o : CBOutcome) : Go Unit := do
  closeBody r
  settleToken tok o

def statusOutcome (status : ℕ) : CBOutcome := if 500 ≤ status then .failure else .success

def wholeRead (body : Body) : Except ReadError String → Bool
  | .ok content => body = .whole content
  | .error _ => false

def readAndFinalizeResponseBody (limit : Int64) (r : Response) : Go (Except ReadError String) := do
  let result := readBodyCapped r.body limit
  match r.stream with
  | none => return result
  | some t =>
    Go.read t (wholeRead r.body result)
    return result

def upstreamDo (u : Upstream) : Go (Option Ticket × Except AttemptError (ℕ × Encoding × Body)) := do
  match ← Go.acquire u with
  | none => return (none, .error .circuitUnavailable)
  | some i =>
    match ← Go.send ⟨u.id, i⟩ with
    | .failed canceled => return (some ⟨u.id, i⟩, .error (.transport canceled))
    | .replied status encoding body => return (some ⟨u.id, i⟩, .ok (status, encoding, body))

def forward (u : Upstream) : Go Attempt := do
  if !(← Go.build u) then return ⟨none, .error .buildRequest⟩
  else
    let (tok, result) ← upstreamDo u
    match result with
    | .error e => return ⟨tok, .error e⟩
    | .ok (status, .badGzip canceled, body) =>
      closeBody ⟨status, body, tok⟩
      return ⟨tok, .error (.invalidGzip canceled)⟩
    | .ok (status, _, body) => return ⟨tok, .ok ⟨status, body, tok⟩⟩

def waitRetry (c : Call) (i : ℕ) : Go Bool :=
  if 0 < i ∧ c.fs.retry.isSome then Go.retryDelay (i - 1) else pure false

abbrev Promote := ℕ → List String → Attempt → Response → Go (Option (Except ExecError Served))

def answerOrPromote (c : Call) (promote : Promote) (i : ℕ) (tried : List String) (u : Upstream)
    (a : Attempt) (r : Response) : Go (Except ExecError Served) := do
  let (peeked, r) := peekBodyForPruning r c.target
  if isPruningError r.status peeked c.target then
    match ← promote i tried a r with
    | some result => return result
    | none => return .ok ⟨r, u, a.tok⟩
  else return .ok ⟨r, u, a.tok⟩

def sequentialLoop (c : Call) (promote : Promote) (total : ℕ) :
    ℕ → List String → Option AttemptError → List Upstream → Go (Except ExecError Served)
  | _, _, last, [] => return .error (.allFailed total last)
  | i, tried, last, u :: rest => do
    if u.id ∈ tried then sequentialLoop c promote total (i + 1) tried last rest
    else
      if ← waitRetry c i then return .error (.attempt .contextDone)
      else
        let a ← forward u
        match a.result with
        | .ok r =>
          if r.status < 500 then answerOrPromote c promote i (u.id :: tried) u a r
          else
            let _ ← readAndFinalizeResponseBody c.maxResponseBytes r
            closeAndSettle r a.tok .failure
            sequentialLoop c promote total (i + 1) (u.id :: tried) (some (.status r.status)) rest
        | .error e =>
          if e.isClientCancel then
            settleToken a.tok .release
            return .error (.attempt e)
          else if e = .circuitUnavailable then
            sequentialLoop c promote total (i + 1) (u.id :: tried) (some e) rest
          else
            settleToken a.tok .failure
            sequentialLoop c promote total (i + 1) (u.id :: tried) (some e) rest

def archiveBiased : Promote := fun _ _ _ _ => return none

def promoteMidLoop (c : Call) : Promote := fun i tried a r => do
  let pool ← Go.pool .promotion
  if !pool.hasArchive then return none
  else
    let remaining := max (c.fs.maxAttempts - (i + 1)) 1
    let archiveUps := pool.selectForPathArchive c.apiPath remaining
    if archiveUps = [] then return none
    else
      closeAndSettle r a.tok .release
      let result ← sequentialLoop c archiveBiased (i + 1 + archiveUps.length) (i + 1) tried
        (some (.pruned r.status)) archiveUps
      return some result

def Call.promote (c : Call) (proactiveArchive : Bool) : Promote :=
  if proactiveArchive then archiveBiased else promoteMidLoop c

def trimUpstreamSlice (ups : List Upstream) (maxLen : ℕ) : List Upstream :=
  if 0 < maxLen ∧ maxLen < ups.length then ups.take maxLen else ups

def swapFirst (ups : List Upstream) (i : ℕ) : List Upstream :=
  match ups[0]?, ups[i]? with
  | some first, some u => (ups.set 0 u).set i first
  | _, _ => ups

def ensurePreferredUpstreamFirst (pool : Pool) (ups : List Upstream) (preferID : String)
    (maxLen : ℕ) : List Upstream :=
  if preferID = "" ∨ ups = [] then ups
  else match ups.findIdx? (fun u => u.id = preferID) with
    | some i => if pool.isForked preferID then ups else trimUpstreamSlice (swapFirst ups i) maxLen
    | none =>
      match pool.byID preferID with
      | some pu =>
        if pool.isReady pu.id && !pool.isForked pu.id then trimUpstreamSlice (pu :: ups) maxLen
        else ups
      | none => ups

def dropBuffered (buffered : Option Served) : Go Unit :=
  match buffered with
  | none => pure ()
  | some s => closeAndSettle s.response s.tok .release

def selectedLoop (c : Call) :
    ℕ → Option Served → Option AttemptError → List Upstream → Go (Except ExecError Served)
  | _, buffered, last, [] =>
    match buffered with
    | some s => return .ok s
    | none => return .error (.selectedUnavailable c.required.string last)
  | i, buffered, _, u :: rest => do
    if ← waitRetry c i then
      dropBuffered buffered
      return .error (.selectedUnavailable c.required.string (some .contextDone))
    else
      let a ← forward u
      match a.result with
      | .ok r =>
        if r.status < 500 then
          let (peeked, r) := peekBodyForPruning r c.target
          dropBuffered buffered
          if rest ≠ [] ∧ isPruningError r.status peeked c.target then
            selectedLoop c (i + 1) (some ⟨r, u, a.tok⟩) (some (.pruned r.status)) rest
          else return .ok ⟨r, u, a.tok⟩
        else
          settleToken a.tok .failure
          dropBuffered buffered
          selectedLoop c (i + 1) (some ⟨r, u, none⟩) (some (.status r.status)) rest
      | .error e =>
        if e.isClientCancel then
          settleToken a.tok .release
          dropBuffered buffered
          return .error (.attempt e)
        else if e = .circuitUnavailable then selectedLoop c (i + 1) buffered (some e) rest
        else
          settleToken a.tok .failure
          selectedLoop c (i + 1) buffered (some e) rest

def settleError (a : Attempt) (e : AttemptError) : Go Unit :=
  if e.isClientCancel then settleToken a.tok .release
  else if e = .circuitUnavailable then pure ()
  else settleToken a.tok .failure

def executeSelectedFS (c : Call) : Go (Except ExecError Served) := do
  let pool ← Go.pool .selected
  if c.required.id ≠ "" then
    match pool.byID c.required.id with
    | none => return .error (.selectedUnavailable c.required.string none)
    | some u =>
      let a ← forward u
      match a.result with
      | .ok r => return .ok ⟨r, u, a.tok⟩
      | .error e =>
        settleError a e
        return .error (.selectedUnavailable c.required.string (some e))
  else
    let ups := pool.selectMatching c.required c.apiPath c.fs.maxAttempts
    if ups = [] then return .error (.selectedUnavailable c.required.string none)
    else selectedLoop c 0 none none ups

def archivePass (c : Call) (tried : List String) :
    Option AttemptError → List Upstream → Go (Except (Option AttemptError) Served)
  | last, [] => return .error last
  | last, u :: rest => do
    if u.id ∈ tried then archivePass c tried last rest
    else
      let a ← forward u
      match a.result with
      | .error e =>
        if e.isClientCancel then
          settleToken a.tok .release
          return .error (some e)
        else if e = .circuitUnavailable then archivePass c tried (some e) rest
        else
          settleToken a.tok .failure
          archivePass c tried (some e) rest
      | .ok r =>
        if 500 ≤ r.status then
          closeAndSettle r a.tok .failure
          archivePass c tried (some (.status r.status)) rest
        else
          let (peeked, r) := peekBodyForPruning r c.target
          if isPruningError r.status peeked c.target then
            closeAndSettle r a.tok .release
            archivePass c tried (some (.archivePruned r.status)) rest
          else return .ok ⟨r, u, a.tok⟩

def promoteToArchive (c : Call) (tried : List String) (maxAttempts : ℕ) :
    Go (Except (Option AttemptError) Served) := do
  let pool ← Go.pool .promotion
  archivePass c tried none (pool.selectForPathArchive c.apiPath (max maxAttempts 1))

/-- `pending` holds the candidates that the hedge timer has yet to fire, and `armed` says that the
timer is set and has not fired since. -/
structure HedgeState where
  pending : List Upstream
  inflight : ℕ
  armed : Bool
  pruning : Option Served
  tried : List String
  lastErr : Option AttemptError

def drainResults (remaining : ℕ) : Go Unit :=
  if remaining = 0 then pure () else Go.drain remaining

def readOutcome (failed : ReadError → CBOutcome) (ok : CBOutcome) : Except ReadError String → CBOutcome
  | .ok _ => ok
  | .error e => failed e

def readCloseSettle (limit : Int64) (s : Served) (failed : ReadError → CBOutcome) (ok : CBOutcome) :
    Go (Except ReadError String) := do
  let body ← readAndFinalizeResponseBody limit s.response
  closeBody s.response
  settleToken s.tok (readOutcome failed ok body)
  return body

def hedgeFinish (c : Call) (maxFire : ℕ) (st : HedgeState) : Go (Except ExecError Served) :=
  match st.pruning with
  | none => return .error (.hedgesFailed st.lastErr)
  | some s => do
    let body ← readCloseSettle c.maxResponseBytes s (fun _ => .failure) .success
    let archived ← promoteToArchive c st.tried (max maxFire c.fs.maxAttempts)
    match archived, body with
    | .ok served, _ => return .ok served
    | .error _, .ok content => return .ok ⟨⟨s.response.status, .whole content, none⟩, s.upstream, none⟩
    | .error _, .error e => return .error (.readPruning e)

def HedgeState.passes (st : HedgeState) : ℕ :=
  2 * st.pending.length + st.inflight + if st.armed && st.pending.isEmpty then 1 else 0

-- the hedge loop, `inflight > 0 || fired < maxFire` being its condition
def hedgeLoop (c : Call) (maxFire : ℕ) (archiveBiased : Bool) :
    ℕ → HedgeState → Go (Except ExecError Served)
  | 0, st => hedgeFinish c maxFire st
  | n + 1, st => if st.inflight = 0 ∧ st.pending = [] then hedgeFinish c maxFire st else do
    match ← Go.select st.armed with
    | .timer =>
      match st.pending with
      | [] => hedgeLoop c maxFire archiveBiased n { st with armed := false }
      | u :: pending =>
        Go.fire u
        -- the timer is set again while candidates are left
        hedgeLoop c maxFire archiveBiased n
          { st with pending := pending, inflight := st.inflight + 1, armed := !pending.isEmpty }
    | .done =>
      drainResults st.inflight
      dropBuffered st.pruning
      return .error (.attempt .contextDone)
    | .result ⟨u, a⟩ =>
      let st := { st with inflight := st.inflight - 1 }
      match a.result with
      | .ok r =>
        if r.status < 500 then
          let (peeked, r) := peekBodyForPruning r c.target
          let pool ← Go.pool .promotion
          if !archiveBiased && pool.hasArchive && isPruningError r.status peeked c.target then
            let st := { st with tried := u.id :: st.tried }
            match st.pruning with
            | none => hedgeLoop c maxFire archiveBiased n { st with pruning := some ⟨r, u, a.tok⟩ }
            | some _ =>
              closeAndSettle r a.tok .release
              hedgeLoop c maxFire archiveBiased n st
          else
            drainResults st.inflight
            dropBuffered st.pruning
            return .ok ⟨r, u, a.tok⟩
        else
          let _ ← readAndFinalizeResponseBody c.maxResponseBytes r
          closeAndSettle r a.tok .failure
          hedgeLoop c maxFire archiveBiased n
            { st with tried := u.id :: st.tried, lastErr := some (.status r.status) }
      | .error e =>
        let st := { st with tried := u.id :: st.tried, lastErr := some e }
        if e.isClientCancel then
          settleToken a.tok .release
          hedgeLoop c maxFire archiveBiased n st
        else if e = .circuitUnavailable then hedgeLoop c maxFire archiveBiased n st
        else
          settleToken a.tok .failure
          hedgeLoop c maxFire archiveBiased n st

section Passes

variable {st : HedgeState} {n : ℕ}

theorem HedgeState.over (h : st.passes ≤ 0) : st.inflight = 0 ∧ st.pending = [] := by
  unfold HedgeState.passes at h
  exact ⟨by omega, List.length_eq_zero_iff.mp (by omega)⟩

theorem HedgeState.passes_idle (h : st.passes ≤ n + 1) (hpending : st.pending = []) (harmed : st.armed = true) :
    { st with pending := [], armed := false }.passes ≤ n := by
  simp only [HedgeState.passes, hpending, harmed] at h ⊢
  simp at h ⊢
  omega

theorem HedgeState.passes_fire {u : Upstream} {pending : List Upstream} (h : st.passes ≤ n + 1)
    (hpending : st.pending = u :: pending) :
    { st with pending := pending, inflight := st.inflight + 1, armed := !pending.isEmpty }.passes ≤ n := by
  simp only [HedgeState.passes, hpending] at h ⊢
  simp at h ⊢
  omega

theorem HedgeState.passes_receive (h : st.passes ≤ n + 1) (hpos : 0 < st.inflight) (pruning : Option Served)
    (tried : List String) (last : Option AttemptError) :
    HedgeState.passes ⟨st.pending, st.inflight - 1, st.armed, pruning, tried, last⟩ ≤ n := by
  simp only [HedgeState.passes] at h ⊢
  omega

end Passes

def executeHedgeFS (c : Call) (hedge : HedgeConfig) (preferID : String) (ups : List Upstream)
    (archiveBiased : Bool) : Go (Except ExecError Served) := do
  let maxFire := min (hedge.maxCount + 1) ups.length
  let ups := ensurePreferredUpstreamFirst (← Go.pool .preferred) ups preferID maxFire
  match ups.take maxFire with
  | [] => return .error (.hedgesFailed none)
  | u :: pending =>
    Go.fire u
    let st : HedgeState := ⟨pending, 1, true, none, [], none⟩
    hedgeLoop c maxFire archiveBiased st.passes st

def Call.proactiveArchive (c : Call) (pool : Pool) : Bool :=
  pool.hasArchive &&
    c.target.requiresArchive pool.heads.blockCache.maxSlot pool.heads.slotsPerEpochOrDefault

def Call.preferredID (c : Call) (pool : Pool) : String :=
  if c.proactiveArchive pool && !(pool.byID c.preferID).any (·.archive) then "" else c.preferID

def Call.selectForPath (c : Call) (proactiveArchive : Bool) (pool : Pool) (n : ℕ) : List Upstream :=
  if proactiveArchive then pool.selectForPathArchive c.apiPath n
  else if pathHasNamedSlotID c.path then pool.selectForPathPreferCanonicalHead c.apiPath n
  else pool.selectForPath c.apiPath n

def executeSequential (c : Call) (preferID : String) (proactiveArchive : Bool) :
    Go (Except ExecError Served) := do
  let ups := c.selectForPath proactiveArchive (← Go.pool .sequential) c.fs.maxAttempts
  if ups = [] then return .error .noUpstreams
  else
    let ups := ensurePreferredUpstreamFirst (← Go.pool .preferred) ups preferID c.fs.maxAttempts
    sequentialLoop c (c.promote proactiveArchive) ups.length 0 [] none ups

/-- `executeFS` of a network without consensus. -/
def executeFS (c : Call) : Go (Except ExecError Served) := do
  if c.required.enabled then executeSelectedFS c
  else
    let pool ← Go.pool .routing
    let proactiveArchive := c.proactiveArchive pool
    let preferID := c.preferredID pool
    match c.fs.hedge with
    | none => executeSequential c preferID proactiveArchive
    | some hedge =>
      let ups := c.selectForPath proactiveArchive (← Go.pool .hedge) (hedge.maxCount + 1)
      if 1 < ups.length then executeHedgeFS c hedge preferID ups proactiveArchive
      else executeSequential c preferID proactiveArchive

end EBeacon.Network
