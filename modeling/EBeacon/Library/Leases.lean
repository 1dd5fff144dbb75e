import EBeacon.Library.Maps
import Mathlib.Data.Int.Order.Basic

/-!
A keyspace whose values are held until a deadline, and what is known of a server that keeps one.
-/

namespace EBeacon

structure Lease (ν : Type) where
  value : ν
  deadline : Option ℤ
  deriving DecidableEq

namespace Lease

variable {ν : Type} (l : Lease ν)

def live (now : ℤ) : Bool := l.deadline.all (now ≤ ·)

def heldTo (deadline : ℤ) : Lease ν := { l with deadline := some deadline }

theorem live_of_le {l : Lease ν} {now now' : ℤ} (hle : now ≤ now') (h : l.live now' = true) : l.live now = true := by
  unfold live at *
  rw [Option.all_eq_true] at *
  intro d hd
  have hlive := h d hd
  simp only [decide_eq_true_eq] at *
  omega

theorem live_some {v : ν} {now ttl : ℤ} (h : 0 < ttl) : (⟨v, some (now + ttl)⟩ : Lease ν).live now = true :=
  decide_eq_true (by omega)

end Lease

inductive Command (κ ν : Type)
  | set (key : κ) (value : ν) (ttl : ℤ)
  | expire (key : κ) (ttl : ℤ)
  | del (key : κ)
  | eval (key : κ) (value : ν)

def Command.key {κ ν : Type} : Command κ ν → κ
  | set key _ _ => key
  | expire key _ => key
  | del key => key
  | eval key _ => key

def Command.Plain {κ ν : Type} : Command κ ν → Prop
  | set _ _ ttl => 0 < ttl
  | expire _ ttl => 0 < ttl
  | del _ => True
  | eval _ _ => False

/-- A server by its own clock. `expiry` is the deadline that it makes of a time to live; of a script it is only known
which key it may change. -/
structure Keyspace (κ ν : Type) where
  State : Type
  now : State → ℤ
  find : State → κ → Option (Lease ν)
  exec : State → Command κ ν → State
  wait : State → ℕ → State
  expiry : ℤ → ℤ → ℤ
  le_expiry (now : ℤ) (seconds : ℕ) : now + seconds * 1000000000 ≤ expiry now (seconds * 1000000000)
  now_exec (db : State) (c : Command κ ν) : now (exec db c) = now db
  now_wait (db : State) (d : ℕ) : now (wait db d) = now db + d
  find_exec (db : State) (c : Command κ ν) (k : κ) : k ≠ c.key → find (exec db c) k = find db k
  find_set (db : State) (k : κ) (v : ν) (ttl : ℤ) :
    0 < ttl → find (exec db (.set k v ttl)) k = some ⟨v, some (expiry (now db) ttl)⟩
  find_expire (db : State) (k : κ) (ttl : ℤ) :
    0 < ttl → find (exec db (.expire k ttl)) k = (find db k).map (·.heldTo (expiry (now db) ttl))
  find_del (db : State) (k : κ) : find (exec db (.del k)) k = none
  find_wait (db : State) (d : ℕ) (k : κ) : find (wait db d) k = (find db k).filter (·.live (now db + d))

namespace Keyspace

variable {κ ν : Type} (K : Keyspace κ ν) {db db' : K.State} {c : Command κ ν} {k : κ}

theorem find_exec_congr (hc : c.Plain) (hnow : K.now db = K.now db') (h : K.find db k = K.find db' k) :
    K.find (K.exec db c) k = K.find (K.exec db' c) k := by
  by_cases hk : k = c.key
  · rw [hk] at h ⊢
    cases c with
    | set key v ttl => exact (K.find_set _ _ _ _ hc).trans (hnow ▸ (K.find_set _ _ _ _ hc).symm)
    | expire key ttl =>
      refine (K.find_expire _ _ _ hc).trans (Eq.trans ?_ (K.find_expire _ _ _ hc).symm)
      rw [hnow]
      exact congrArg _ h
    | del key => exact (K.find_del _ _).trans (K.find_del _ _).symm
    | eval key v => cases hc
  · rw [K.find_exec _ _ _ hk, K.find_exec _ _ _ hk, h]

end Keyspace

abbrev Leases (κ ν : Type) := AList (fun _ : κ => Lease ν)

namespace Leases

variable {κ ν : Type} [DecidableEq κ] (db : Leases κ ν) (k k' : κ) (now : ℤ)

def find : Option (Lease ν) := (db.lookup k).filter (·.live now)

def exec : Command κ ν → Leases κ ν
  | .set key v ttl => db.insert key ⟨v, some (now + ttl)⟩
  | .expire key ttl => match db.find key now with
    | none => db
    | some l => db.insert key (l.heldTo (now + ttl))
  | .del key => db.erase key
  | .eval key v => db.insert key ⟨v, none⟩

variable {db k now}

theorem lookup_exec (c : Command κ ν) (h : k ≠ c.key) : (db.exec now c).lookup k = db.lookup k := by
  cases c with
  | set key v ttl => exact AList.lookup_insert_ne h
  | expire key ttl =>
    simp only [exec]
    cases db.find key now with
    | none => rfl
    | some l => exact AList.lookup_insert_ne h
  | del key => exact AList.lookup_erase_ne h
  | eval key v => exact AList.lookup_insert_ne h

theorem find_expire {ttl : ℤ} (h : 0 < ttl) :
    (db.exec now (.expire k ttl)).find k now = (db.find k now).map (·.heldTo (now + ttl)) := by
  simp only [exec]
  cases hfind : db.find k now with
  | none => exact hfind
  | some l =>
    have hlive : (l.heldTo (now + ttl)).live now = true := Lease.live_some h
    unfold find
    rw [AList.lookup_insert, Option.filter_some, if_pos hlive]
    rfl

theorem find_later (d : ℕ) : db.find k (now + d) = (db.find k now).filter (·.live (now + d)) := by
  unfold find
  cases db.lookup k with
  | none => rfl
  | some l =>
    rw [Option.filter_some, Option.filter_some]
    by_cases hlive : l.live (now + d) = true
    · rw [if_pos hlive, if_pos (Lease.live_of_le (by omega) hlive), Option.filter_some, if_pos hlive]
    · rw [if_neg hlive]
      split_ifs
      · rw [Option.filter_some, if_neg hlive]
      · rfl

end Leases

def Keyspace.exact (κ ν : Type) [DecidableEq κ] : Keyspace κ ν where
  State := Leases κ ν × ℤ
  now db := db.2
  find db k := db.1.find k db.2
  exec db c := (db.1.exec db.2 c, db.2)
  wait db d := (db.1, db.2 + d)
  expiry now ttl := now + ttl
  le_expiry _ _ := le_rfl
  now_exec _ _ := rfl
  now_wait _ _ := rfl
  find_exec db c k h := congrArg (Option.filter _) (Leases.lookup_exec c h)
  find_set db k v ttl h := by
    change ((db.1.insert k _).lookup k).filter (·.live db.2) = _
    rw [AList.lookup_insert, Option.filter_some, if_pos (Lease.live_some h)]
  find_expire _ _ _ h := Leases.find_expire h
  find_del db k := by
    change ((db.1.erase k).lookup k).filter _ = _
    rw [AList.lookup_erase]
    rfl
  find_wait _ d _ := Leases.find_later d

end EBeacon
