import Mathlib.Algebra.Order.Ring.Rat
import EBeacon.Library.Maps
import EBeacon.Library.Runs
import EBeacon.Library.TokenBucket

namespace EBeacon.Network

-- the state that is kept for a client IP; times are in nanoseconds; a session without a limiter is not
-- limited
structure Session where
  ip : String
  limiter : Option (TokenBucket ℚ)
  stickyID : String := ""
  lastSeen : ℤ

def seconds (t : ℤ) : ℚ := t / 1000000000

def rateInf : ℚ := (2 ^ 53 - 1) * 2 ^ 971

namespace Session

def allow (s : Session) (now : ℤ) : Bool × Session :=
  match s.limiter with
  | none => (true, s)
  | some b => ((b.allow (seconds now)).1, { s with limiter := some (b.allow (seconds now)).2 })

def touch (s : Session) (now : ℤ) : Session := { s with lastSeen := now }

end Session

structure SessionManager where
  byIP : AList (fun _ : String => Session) := ∅
  lim : ℚ
  burst : ℤ
  timeout : Int64

namespace SessionManager

def new (ratePerSec : ℚ) (burst : ℤ) (sessionTimeout : Int64) : SessionManager where
  lim := if 0 < ratePerSec then ratePerSec else rateInf
  burst := if burst = 0 then 1 else burst
  timeout := sessionTimeout

def newLimiter (sm : SessionManager) (now : ℤ) : Option (TokenBucket ℚ) :=
  if sm.lim ≠ rateInf then some (.full sm.lim sm.burst (seconds now)) else none

def get (sm : SessionManager) (ip : String) (now : ℤ) : Session × SessionManager :=
  match sm.byIP.lookup ip with
  | some s => (s.touch now, { sm with byIP := sm.byIP.insert ip (s.touch now) })
  | none =>
    let s : Session := { ip := ip, limiter := sm.newLimiter now, lastSeen := now }
    (s, { sm with byIP := sm.byIP.insert ip s })

def request (sm : SessionManager) (ip : String) (now : ℤ) : Bool × SessionManager :=
  let got := sm.get ip now
  let asked := got.1.allow now
  (asked.1, { got.2 with byIP := got.2.byIP.insert ip asked.2 })

-- a tick of the cleanup; the negation of the timeout is that of `int64`
def cleanup (sm : SessionManager) (now : ℤ) : SessionManager :=
  let cutoff := now + (-sm.timeout).toInt
  let idle := sm.byIP.entries.filter (fun e => e.2.lastSeen < cutoff)
  { sm with byIP := idle.foldl (fun m e => m.erase e.1) sm.byIP }

inductive Event
  | request (ip : String)
  | cleanup

structure Timed where
  time : ℤ
  event : Event

def step (sm : SessionManager) (e : Timed) : SessionManager :=
  match e.event with
  | .request ip => (sm.request ip e.time).2
  | .cleanup => sm.cleanup e.time

def after (sm : SessionManager) (run : List Timed) : SessionManager := run.foldl step sm

def allowed (ip : String) : SessionManager → List Timed → List ℤ
  | _, [] => []
  | sm, e :: run =>
    match e.event with
    | .request ip' =>
      if ip' = ip ∧ (sm.request ip' e.time).1 then e.time :: allowed ip (sm.step e) run
      else allowed ip (sm.step e) run
    | .cleanup => allowed ip (sm.step e) run

def requests (ip : String) (run : List Timed) : List ℤ :=
  run.filterMap (fun e => match e.event with
    | .request ip' => if ip' = ip then some e.time else none
    | .cleanup => none)

end SessionManager

end EBeacon.Network
