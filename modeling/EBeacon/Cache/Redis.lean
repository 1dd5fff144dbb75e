import EBeacon.Cache.Memory
import EBeacon.Library.Leases
import EBeacon.Library.Text
import Mathlib.Logic.Function.Basic

/-!
`RedisStore`: the entries of all networks in one keyspace, those of a network under its prefix. Other
commands of the same and of other processes come between those of one call.
-/

namespace EBeacon.Cache

open Text

structure Codec (ρ β : Type) where
  encode : String × ρ → Option β
  decode : β → Option (String × ρ)
  decode_encode : ∀ p b, encode p = some b → decode b = some p

structure Glob where
  isMatch : String → String → Bool
  literal : ∀ p key, containsAny p "*?[\\" = false → isMatch (p ++ "*") key = hasPrefix key p

-- a year, in nanoseconds
def foreverTTL : ℤ := 24 * 3600 * 1000000000 * 365

structure RedisStore where
  keyPrefix : String
  deriving DecidableEq, Repr

namespace RedisStore

variable {ρ β : Type} (svc : Keyspace String β) (r : RedisStore) (codec : Codec ρ β)

def prefixed (key : String) : String := r.keyPrefix ++ key

def get (db : svc.State) (key : String) : Option (Entry ρ) :=
  (svc.find db (r.prefixed key)).bind (fun l => (codec.decode l.value).map (fun p => ⟨p.1, p.2, none⟩))

def set (key : String) (e : Entry ρ) (ttl : ℤ) : Option (Command String β) :=
  (codec.encode (e.key, e.content)).map (fun data => .set (r.prefixed key) data (if ttl ≤ 0 then foreverTTL else ttl))

def delete (key : String) : Command String β := .del (r.prefixed key)

-- the keys of a reply to `SCAN` without the prefix; a pattern with special characters also matches keys
-- that do not have it
def trimKeys (batch : List String) : List String :=
  (batch.filter (fun key => hasPrefix key r.keyPrefix)).map (fun key => trimPrefix key r.keyPrefix)

def forNetwork (id : String) : RedisStore := ⟨"ebeacon:" ++ id ++ ":"⟩

end RedisStore

def finalizedKeyFor (network : String) : String := "ebeacon:finalized_epoch:" ++ network

inductive Action
  | promote
  | purge
  deriving DecidableEq, Repr

inductive SweepPhase
  | scanning (found : List String)
  | applying (rest : List String)

structure Sweep where
  store : RedisStore
  fn : String → Bool
  action : Action
  phase : SweepPhase
  result : List String

namespace Sweep

def begin (r : RedisStore) (fn : String → Bool) (action : Action) : Sweep := ⟨r, fn, action, .scanning [], []⟩

def command {β : Type} (w : Sweep) (key : String) : Command String β :=
  match w.action with
  | .promote => .expire (w.store.prefixed key) foreverTTL
  | .purge => w.store.delete key

def finished (w : Sweep) : Prop := w.phase = .applying []

end Sweep

structure Redis {β : Type} (svc : Keyspace String β) where
  db : svc.State
  sweeps : ℕ → Option Sweep

namespace Redis

/-- What a store does, with the replies that it gets. The replies to `SCAN` are what the server makes them. -/
inductive Act (ρ : Type)
  | set (key : String) (e : Entry ρ) (ttl : ℤ)
  | delete (key : String)
  | sweep (i : ℕ) (fn : String → Bool) (action : Action)
  | batch (i : ℕ) (keys : List String)
  | scanned (i : ℕ)
  | broken (i : ℕ)
  | apply (i : ℕ) (performed answered : Bool)

inductive Label (ρ β : Type)
  | store (r : RedisStore) (a : Act ρ)
  | finalized (network : String) (data : β)
  | lost (key : String)
  | wait (d : ℕ)

variable {ρ β : Type} {svc : Keyspace String β} (codec : Codec ρ β)

def start (db : svc.State) : Redis svc := ⟨db, fun _ => none⟩

def now (s : Redis svc) : ℤ := svc.now s.db

def perform (s : Redis svc) (c : Command String β) : Redis svc := { s with db := svc.exec s.db c }

def withSweep (s : Redis svc) (i : ℕ) (w : Sweep) : Redis svc :=
  { s with sweeps := Function.update s.sweeps i (some w) }

def sweepOf (s : Redis svc) (r : RedisStore) (i : ℕ) : Option Sweep :=
  (s.sweeps i).filter (fun w => w.store = r)

def reports (s : Redis svc) (w : Sweep) (key : String) (performed answered : Bool) : Bool :=
  match w.action with
  | .promote => performed && answered && (svc.find s.db (w.store.prefixed key)).isSome
  | .purge => true

def collected (s : Redis svc) (r : RedisStore) (i : ℕ) : Option (Redis svc) := do
  let w ← s.sweepOf r i
  match w.phase with
  | .scanning found => some (s.withSweep i { w with phase := .applying (found.filter w.fn) })
  | .applying _ => none

def step (s : Redis svc) (r : RedisStore) : Act ρ → Option (Redis svc)
  | .set key e ttl => some ((r.set codec key e ttl).elim s s.perform)
  | .delete key => some (s.perform (r.delete key))
  | .sweep i fn action => if (s.sweeps i).isSome then none else some (s.withSweep i (.begin r fn action))
  | .batch i keys => do
    let w ← s.sweepOf r i
    match w.phase with
    | .scanning found => some (s.withSweep i { w with phase := .scanning (found ++ r.trimKeys keys) })
    | .applying _ => none
  | .scanned i => s.collected r i
  | .broken i => s.collected r i
  | .apply i performed answered => do
    let w ← s.sweepOf r i
    match w.phase with
    | .applying (key :: rest) =>
      let result := if s.reports w key performed answered then w.result ++ [key] else w.result
      some ((if performed then s.perform (w.command key) else s).withSweep i
        { w with phase := .applying rest, result := result })
    | _ => none

def next (s : Redis svc) : Label ρ β → Option (Redis svc)
  | .store r a => s.step codec r a
  | .finalized network data => some (s.perform (.eval (finalizedKeyFor network) data))
  | .lost key => some (s.perform (.del key))
  | .wait d => some { s with db := svc.wait s.db d }

end Redis

end EBeacon.Cache
