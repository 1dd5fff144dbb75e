import EBeacon.Cache.Memory
import EBeacon.Library.Runs
import EBeacon.Network.Routing

namespace EBeacon.Network

open Text Upstream Cache

structure Reply where
  status : ℕ
  contentType : String
  body : String
  deriving DecidableEq, Repr

-- where a response comes from: the upstream it was dispatched to, the pool as it was at the dispatch, and
-- the number of purges that had been made by then
structure Origin where
  upstream : Upstream
  pool : Pool
  stamp : ℕ

def Origin.isMatch (o : Origin) (sel : Selector) : Bool := o.pool.isMatch sel o.upstream

structure Stored where
  reply : Reply
  origin : Origin

/-- A run of `executeFS`, multiplexed under `key` unless it is a pre-warm. The result is `none`
while it runs and `some none` when it has failed. -/
structure Flight where
  call : Call
  key : Option String
  pools : List Pool
  dispatches : List Origin
  result : Option (Option Stored)

structure Job where
  key : String
  path : String
  acceptBinary : Bool
  policy : Option Policy

-- the handler of a request: about to look the key up, about to join a flight, waiting for one, holding its
-- response, or at its end
inductive Phase
  | lookup
  | join
  | wait (flight : ℕ)
  | respond (r : Stored)
  | served (r : Stored)
  | ended

structure Task where
  hard : Selector
  request : Request
  routed : Routed
  phase : Phase

inductive WarmPhase
  | idle
  | wait (job : Job) (flight : ℕ)
  | respond (job : Job) (r : Stored)

structure Warm where
  source : String
  keys : List String
  seen : List String
  phase : WarmPhase

inductive Purge
  | head
  | reorg (slot : UInt64)
  deriving DecidableEq, Repr

def Purge.covers : Purge → String → Bool
  | .head, path => pathHasNamedSlotID path
  | .reorg slot, path => (pathNumericSlot path).any (slot ≤ ·)

structure Server where
  pool : Pool
  store : MemoryStore Stored
  flights : List Flight
  tasks : List Task
  warms : List Warm
  purges : List Purge

def Server.init (pool : Pool) (maxSize : ℤ) : Server :=
  ⟨pool, .newMemoryStore maxSize, [], [], [], []⟩

def unixSeconds (now : ℤ) : Int64 := Int64.ofInt (now / 1000000000)

section Functions

variable (cfg : Config)

def Config.policy (path : String) : Option Policy :=
  cfg.policies.bind (fun ps => ps.find? (fun p => p.methods.contains "GET" && p.re path))

def Config.effectiveCacheTTL (pool : Pool) (now : ℤ) (policyTTL : Int64) (path : String) : Int64 :=
  if isFinalizedPath path pool.heads.finalizedEpoch pool.heads.slotsPerEpochOrDefault then 0
  else if 0 < policyTTL ∧ cfg.genesisTime ≠ 0 ∧ pathHasNamedSlotID path then
    let slotSeconds := if cfg.secondsPerSlot ≤ 0 then 12 else cfg.secondsPerSlot
    let elapsed := (unixSeconds now - cfg.genesisTime) % slotSeconds
    let elapsed := if elapsed < 0 then elapsed + slotSeconds else elapsed
    let remaining := (slotSeconds - elapsed) * 1000000000
    let remaining := if remaining < 1000000000 then 1000000000 else remaining
    if remaining < policyTTL then remaining else policyTTL
  else policyTTL

def representationMatches (wantBinary : Bool) (r : Reply) : Bool :=
  wantBinary = hasPrefix (toLower r.contentType) "application/octet-stream"

def Config.entry (pool : Pool) (now : ℤ) (job : Job) (r : Stored) : Option (Entry Stored) :=
  match job.policy with
  | none => none
  | some policy =>
    if 200 ≤ r.reply.status ∧ r.reply.status < 300 ∧ representationMatches job.acceptBinary r.reply then
      let ttl := cfg.effectiveCacheTTL pool now policy.ttl job.path
      some ⟨job.key, r, if 0 < ttl then some (now + ttl.toInt) else none⟩
    else none

def Config.acceptBinary (r : Request) : Bool := cfg.acceptPrefersSSZ r.accept

def Config.job (t : Task) : Job where
  key := buildCacheKey cfg.id "GET" t.routed.url (cfg.acceptBinary t.request) t.routed.cacheScope
  path := t.routed.url.path
  acceptBinary := cfg.acceptBinary t.request
  policy := cfg.policy t.routed.url.path

def Config.dedupKey (t : Task) : String :=
  Network.dedupKey cfg.digest cfg.id "GET" t.routed.url t.request.body t.routed.cacheScope
    (cfg.acceptBinary t.request)

def Config.call (t : Task) : Call where
  path := t.routed.url.path
  apiPath := cfg.normalizeAPIPath t.routed.url.path
  preferID := t.routed.preferID
  required := t.routed.required
  fs := cfg.failsafe t.routed.url.path
  maxResponseBytes := cfg.maxResponseBytes

def Config.prewarm (source key : String) : Option (Job × Call) := do
  let parsed ← parseCacheKey key
  if parsed.method ≠ "GET" ∨ !pathHasNamedSlotID parsed.path then none
  else
    let policy ← cfg.policy parsed.path
    let url ← cfg.parseURL parsed.pathQuery
    let binary := cfg.acceptPrefersSSZ (if parsed.acceptBinary then "application/octet-stream" else "")
    return (⟨buildCacheKey cfg.id "GET" url binary parsed.scope, parsed.path, parsed.acceptBinary,
        some policy⟩,
      { path := url.path
        apiPath := cfg.normalizeAPIPath parsed.path
        preferID := if parsed.scope ≠ "" then "" else source
        required := if parsed.scope ≠ "" then .parseSelector parsed.scope else .zero
        fs := cfg.failsafe parsed.path
        maxResponseBytes := cfg.maxResponseBytes })

def Config.ownsKey (key : String) : Bool := hasPrefix key (cfg.id ++ ":")

def isNamedHeadCacheKey (key : String) : Bool := pathHasNamedSlotID (cacheKeyPath key)

def reorgPurges (reorgSlot : UInt64) (key : String) : Bool :=
  let path := cacheKeyPath key
  path ≠ "" && (pathHasNamedSlotID path || (pathNumericSlot path).any (reorgSlot ≤ ·))

def finalityPromotes (epoch slotsPerEpoch : UInt64) (key : String) : Bool :=
  let path := cacheKeyPath key
  path ≠ "" && isFinalizedPath path epoch slotsPerEpoch

end Functions

namespace Server

inductive FlightStep
  | select
  | dispatch (u : Upstream)
  | finish (dispatch : ℕ) (r : Reply)
  | fail

inductive TaskStep
  | lookup (now : ℤ)
  | join
  | receive
  | cancel
  | store (now : ℤ)

inductive WarmStep
  | next
  | receive
  | store (now : ℤ)

/-- A request arrives, a flight, a handler or a pre-warm makes a step, an event of the watched
upstream is handled, or the pool changes. -/
inductive Label
  | request (r : Request) (limits : Limits) (sticky : String)
  | flight (i : ℕ) (a : FlightStep)
  | task (i : ℕ) (a : TaskStep)
  | warm (i : ℕ) (a : WarmStep)
  | head (source : String) (now : ℤ)
  | reorg (slot : String) (now : ℤ)
  | finalized (epoch : String) (now : ℤ)
  | pool (p : Pool)

end Server

def Flight.inflight (f : Flight) : Option String × Bool := (f.key, f.result.isNone)

def Flight.mayDispatch (f : Flight) (u : Upstream) : Bool :=
  !f.call.required.enabled || f.pools.any (fun p => p.isMatch f.call.required u)

def Flight.step (s : Server) (f : Flight) : Server.FlightStep → Option Flight
  | .select => if f.result.isSome then none else some { f with pools := s.pool :: f.pools }
  | .dispatch u =>
    if f.result.isSome ∨ !f.mayDispatch u then none
    else some { f with dispatches := f.dispatches ++ [⟨u, s.pool, s.purges.length⟩] }
  | .finish i r =>
    if f.result.isSome then none
    else (f.dispatches[i]?).map (fun o => { f with result := some (some ⟨r, o⟩) })
  | .fail => if f.result.isSome then none else some { f with result := some none }

namespace Server

variable (cfg : Config)

def put (s : Server) : Option (Entry Stored) → Server
  | none => s
  | some e => { s with store := s.store.set e }

def resultOf (s : Server) (flight : ℕ) : Option (Option Stored) := (s.flights[flight]?).bind Flight.result

def stepTask (s : Server) (t : Task) : TaskStep → Option (Phase × Server)
  | .lookup now => match t.phase with
    | .lookup =>
      if (cfg.job t).policy.isNone then some (.join, s)
      else
        let (hit, store) := s.store.get (cfg.job t).key now
        some (hit.elim .join (fun e => .served e.content), { s with store := store })
    | _ => none
  | .join => match t.phase with
    | .join =>
      match cfg.inflight.join (cfg.dedupKey t) (s.flights.map Flight.inflight) with
      | some i => some (.wait i, s)
      | none => some (.wait s.flights.length,
          { s with flights := s.flights ++ [⟨cfg.call t, some (cfg.dedupKey t), [], [], none⟩] })
    | _ => none
  | .receive => match t.phase with
    | .wait i => (s.resultOf i).map (fun result => (result.elim .ended .respond, s))
    | _ => none
  | .cancel => match t.phase with
    | .wait _ => some (.ended, s)
    | _ => none
  | .store now => match t.phase with
    | .respond r => some (.served r, s.put (cfg.entry s.pool now (cfg.job t) r))
    | _ => none

def stepWarm (s : Server) (w : Warm) : WarmStep → Option (Warm × Server)
  | .next => match w.phase, w.keys with
    | .idle, key :: keys =>
      if key ∈ w.seen then some ({ w with keys := keys }, s)
      else match cfg.prewarm w.source key with
        | none => some ({ w with keys := keys, seen := key :: w.seen }, s)
        | some (job, call) =>
          some ({ w with keys := keys, seen := key :: w.seen, phase := .wait job s.flights.length },
            { s with flights := s.flights ++ [⟨call, none, [], [], none⟩] })
    | _, _ => none
  | .receive => match w.phase with
    | .wait job i => (s.resultOf i).map (fun result =>
        ({ w with phase := result.elim .idle (.respond job) }, s))
    | _ => none
  | .store now => match w.phase with
    | .respond job r => some ({ w with phase := .idle }, s.put (cfg.entry s.pool now job r))
    | _ => none

def invalidateHead (s : Server) (source : String) (now : ℤ) : Server :=
  if cfg.policies.isNone then s
  else
    let (keys, store) :=
      s.store.purgeCollect (fun key => cfg.ownsKey key && isNamedHeadCacheKey key) now
    { s with
      store := store
      purges := s.purges ++ [.head]
      warms := if keys = [] then s.warms else s.warms ++ [⟨source, keys, [], .idle⟩] }

def chainReorg (s : Server) (slot : String) (now : ℤ) : Server :=
  if cfg.policies.isNone then s
  else match (parseUint64 slot).filter (· ≠ 0) with
    | none => s
    | some reorgSlot =>
      { s with
        store := (s.store.purgeCollect (fun key => cfg.ownsKey key && reorgPurges reorgSlot key) now).2
        purges := s.purges ++ [.reorg reorgSlot] }

def finalizedCheckpoint (s : Server) (epoch : String) (now : ℤ) : Server :=
  match (parseUint64 epoch).filter (· ≠ 0) with
  | none => s
  | some epoch =>
    let heads := (s.pool.heads.updateFinalizedEpoch (unixSeconds now) epoch).1
    let s := { s with pool := { s.pool with heads := heads } }
    if heads.finalizedEpoch = 0 ∨ cfg.policies.isNone then s
    else
      { s with store := s.store.promoteIf (fun key =>
          cfg.ownsKey key && finalityPromotes heads.finalizedEpoch heads.slotsPerEpochOrDefault key) now }

def next (s : Server) : Label → Option Server
  | .request r limits sticky =>
    match cfg.admission s.pool limits sticky r with
    | .admitted routed =>
      some { s with tasks := s.tasks ++ [⟨cfg.hardSelector s.pool r, r, routed, .lookup⟩] }
    | _ => some s
  | .flight i a => do
    let f ← s.flights[i]?
    let f ← f.step s a
    return { s with flights := s.flights.set i f }
  | .task i a => do
    let t ← s.tasks[i]?
    let (phase, s) ← stepTask cfg s t a
    return { s with tasks := s.tasks.set i { t with phase := phase } }
  | .warm i a => do
    let w ← s.warms[i]?
    let (w, s) ← stepWarm cfg s w a
    return { s with warms := s.warms.set i w }
  | .head source now => some (s.invalidateHead cfg source now)
  | .reorg slot now => some (s.chainReorg cfg slot now)
  | .finalized epoch now => some (s.finalizedCheckpoint cfg epoch now)
  | .pool p => some { s with pool := p }

end Server

theorem findIdx?_call {key : String} {calls : List (Option String × Bool)} {i : ℕ}
    (h : calls.findIdx? (fun call => call = (some key, true)) = some i) : calls[i]? = some (some key, true) := by
  obtain ⟨hlt, hcall, -⟩ := List.findIdx?_eq_some_iff_getElem.mp h
  rw [List.getElem?_eq_getElem hlt, of_decide_eq_true hcall]

def Singleflight.firstRunning : Singleflight where
  join key calls := calls.findIdx? (fun call => call = (some key, true))
  join_key _ _ _ h := ⟨true, findIdx?_call h⟩

def Config.caching (routeRules : List RouteRule) : Config where
  id := "mainnet"
  clientRoutes := []
  routeRules := routeRules
  blocked := []
  stickySession := false
  policies := some [⟨fun _ => true, ["GET", "HEAD"], 4000000000⟩]
  failsafe := fun _ => ⟨some ⟨2⟩, none⟩
  normalizeAPIPath := fun path => path
  acceptPrefersSSZ := fun accept => accept = "application/octet-stream"
  parseURL := fun path => some ⟨path, "", []⟩
  digest := ⟨fun _ => "e3b0c44298fc1c14", fun _ => forall_mem_of_all (by decide)⟩
  inflight := .firstRunning
  genesisTime := 0
  secondsPerSlot := 12
  maxResponseBytes := 2147483648

end EBeacon.Network
