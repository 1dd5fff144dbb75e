import EBeacon.Library.Runs
import EBeacon.Upstream.Breaker

namespace EBeacon.Upstream

namespace BreakerRun

inductive Op
  | tryAcquire
  | settle (token : ℕ) (outcome : CBOutcome)
  | failure
  | canRoute
  deriving DecidableEq, Repr

structure Event where
  op : Op
  time : ℤ
  pre : CBState
  post : CBState
  granted : Option ℕ
  deriving DecidableEq, Repr

-- `history` is most recent first and `tokens` is in the order of the grants
structure Sys where
  cb : Breaker
  clock : ℤ
  tokens : List CBToken
  history : List Event
  deriving DecidableEq, Repr

def Sys.init (clock : ℤ) : Sys := ⟨.new, clock, [], []⟩

def Sys.record (s : Sys) (op : Op) (now : ℤ) (cb : Breaker) (tok : Option CBToken) : Sys where
  cb := cb
  clock := now
  tokens := s.tokens ++ tok.toList
  history := ⟨op, now, s.cb.cbState, cb.cbState, tok.map (fun _ => s.tokens.length)⟩ :: s.history

@[simp] theorem Sys.record_cb (s : Sys) (op : Op) (now : ℤ) (cb : Breaker) (tok : Option CBToken) :
    (s.record op now cb tok).cb = cb := rfl

def next (cfg : CircuitBreakerConfig) (s : Sys) (label : Op × ℤ) : Option Sys :=
  let (op, now) := label
  if now < s.clock then none
  else match op with
    | .tryAcquire =>
      let (tok, cb) := s.cb.cbTryAcquire cfg now
      some (s.record op now cb tok)
    | .settle i outcome =>
      (s.tokens[i]?).map (fun t => s.record op now (s.cb.settle cfg t outcome now) none)
    | .failure => some (s.record op now (s.cb.cbFailure cfg now) none)
    | .canRoute => some (s.record op now s.cb none)

def Effect (cfg : CircuitBreakerConfig) (s : Sys) (now : ℤ) (cb : Breaker) (tok : Option CBToken) :
    Op → Prop
  | .tryAcquire => s.cb.cbTryAcquire cfg now = (tok, cb)
  | .settle i o => tok = none ∧ ∃ t, s.tokens[i]? = some t ∧ cb = s.cb.settle cfg t o now
  | .failure => tok = none ∧ cb = s.cb.cbFailure cfg now
  | .canRoute => tok = none ∧ cb = s.cb

theorem next_cases {cfg : CircuitBreakerConfig} {s s' : Sys} {op : Op} {now : ℤ}
    (h : next cfg s (op, now) = some s') :
    ∃ cb tok, s' = s.record op now cb tok ∧ Effect cfg s now cb tok op := by
  by_cases hc : now < s.clock
  · simp [next, hc] at h
  simp only [next, hc, if_false] at h
  cases op with
  | tryAcquire => exact ⟨_, _, (Option.some.inj h).symm, rfl⟩
  | settle i o =>
    obtain ⟨t, ht, rfl⟩ := Option.map_eq_some_iff.mp h
    exact ⟨_, _, rfl, rfl, t, ht, rfl⟩
  | failure => exact ⟨_, _, (Option.some.inj h).symm, rfl, rfl⟩
  | canRoute => exact ⟨_, _, (Option.some.inj h).symm, rfl, rfl⟩

def Reachable (cfg : CircuitBreakerConfig) (s : Sys) : Prop :=
  ∃ clock labels, Runs.exec (next cfg) (.init clock) labels = some s

def unchangedSince : List Event → ℕ → Bool
  | [], _ => false
  | e :: h, i => e.granted = some i || (e.pre = e.post && unchangedSince h i)

def grantState : List Event → ℕ → Option CBState
  | [], _ => none
  | e :: h, i => if e.granted = some i then some e.post else grantState h i

def settled (h : List Event) (i : ℕ) : Bool :=
  h.any (fun e => match e.op with
    | .settle j _ => i = j
    | _ => false)

def isProbe (h : List Event) (i : ℕ) : Bool := grantState h i = some .halfOpen

def latestProbe : List Event → Option ℕ
  | [] => none
  | e :: h => match e.granted with
    | some i => if e.post = .halfOpen then some i else latestProbe h
    | none => latestProbe h

def live (h : List Event) (i : ℕ) : Bool := latestProbe h = some i && !settled h i

end BreakerRun

end EBeacon.Upstream
