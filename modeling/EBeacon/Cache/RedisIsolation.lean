import EBeacon.Cache.Redis
import EBeacon.Library.Runs
import EBeacon.Network.KeyCodec

/-!
Networks that share a Redis database do not see each other's entries.
-/

namespace EBeacon.Cache.Redis

open Text

variable {ρ β : Type} {svc : Keyspace String β} {codec : Codec ρ β} {r q : RedisStore} {s s' t : Redis svc}

section Calls

variable {i : ℕ} {w : Sweep}

theorem sweepOf_eq_some : s.sweepOf r i = some w ↔ s.sweeps i = some w ∧ w.store = r := by
  unfold sweepOf
  rw [Option.filter_eq_some_iff]
  simp

theorem sweepOf_eq_none (hne : q ≠ r) (h : s.sweeps i = none ∨ ∃ w, s.sweepOf q i = some w) :
    s.sweepOf r i = none := by
  rcases h with h | ⟨w, hw⟩
  · unfold sweepOf
    rw [h]
    rfl
  · obtain ⟨hi, hstore⟩ := sweepOf_eq_some.mp hw
    unfold sweepOf
    rw [hi, Option.filter_some, if_neg]
    rw [hstore]
    simpa using hne

theorem sweepOf_withSweep (s : Redis svc) (j : ℕ) (w : Sweep) (r : RedisStore) (i : ℕ) :
    (s.withSweep j w).sweepOf r i =
      if i = j then (some w).filter (fun w => w.store = r) else s.sweepOf r i := by
  unfold sweepOf withSweep
  dsimp only
  split_ifs with h
  · rw [h, Function.update_self]
  · rw [Function.update_of_ne h]

theorem collected_eq_some (h : s.collected r i = some s') :
    ∃ w found, s.sweepOf r i = some w ∧ w.phase = .scanning found ∧
      s' = s.withSweep i { w with phase := .applying (found.filter w.fn) } := by
  obtain ⟨w, hw, h⟩ := Option.bind_eq_some_iff.mp h
  split at h
  · rename_i found hphase
    exact ⟨w, found, hw, hphase, (Option.some.inj h).symm⟩
  · cases h

theorem batch_eq_some {keys : List String} (h : s.step codec r (.batch i keys) = some s') :
    ∃ w found, s.sweepOf r i = some w ∧ w.phase = .scanning found ∧
      s' = s.withSweep i { w with phase := .scanning (found ++ r.trimKeys keys) } := by
  obtain ⟨w, hw, h⟩ := Option.bind_eq_some_iff.mp h
  split at h
  · rename_i found hphase
    exact ⟨w, found, hw, hphase, (Option.some.inj h).symm⟩
  · cases h

theorem apply_eq_some {performed answered : Bool} (h : s.step codec r (.apply i performed answered) = some s') :
    ∃ w key rest result, s.sweepOf r i = some w ∧ w.phase = .applying (key :: rest) ∧
      result = (if s.reports w key performed answered then w.result ++ [key] else w.result) ∧
      s' = (if performed then s.perform (w.command key) else s).withSweep i
        { w with phase := .applying rest, result := result } := by
  obtain ⟨w, hw, h⟩ := Option.bind_eq_some_iff.mp h
  split at h
  · rename_i key rest hphase
    exact ⟨w, key, rest, _, hw, hphase, rfl, (Option.some.inj h).symm⟩
  · cases h

end Calls

section Steps

theorem hasPrefix_prefixed (r : RedisStore) (key : String) : hasPrefix (r.prefixed key) r.keyPrefix = true :=
  hasPrefix_append _ _

theorem key_set {key : String} {e : Entry ρ} {ttl : ℤ} {c : Command String β} (h : r.set codec key e ttl = some c) :
    c.key = r.prefixed key := by
  obtain ⟨data, -, rfl⟩ := Option.map_eq_some_iff.mp h
  rfl

theorem key_command (w : Sweep) (key : String) : (w.command key : Command String β).key = w.store.prefixed key := by
  unfold Sweep.command
  cases w.action with
  | promote => rfl
  | purge => rfl

theorem step_cases {a : Act ρ} (h : s.step codec r a = some s') :
    ∃ u, (u = s ∨ ∃ c : Command String β, hasPrefix c.key r.keyPrefix = true ∧ u = s.perform c) ∧
      (s' = u ∨ ∃ i w, (s.sweeps i = none ∨ ∃ w, s.sweepOf r i = some w) ∧ w.store = r ∧ s' = u.withSweep i w) := by
  cases a with
  | set key e ttl =>
    cases h
    cases hset : r.set codec key e ttl with
    | none => exact ⟨s, Or.inl rfl, Or.inl rfl⟩
    | some c => exact ⟨_, Or.inr ⟨c, key_set hset ▸ hasPrefix_prefixed r key, rfl⟩, Or.inl rfl⟩
  | delete key =>
    cases h
    exact ⟨_, Or.inr ⟨r.delete key, hasPrefix_prefixed r key, rfl⟩, Or.inl rfl⟩
  | sweep i fn action =>
    simp only [step] at h
    split_ifs at h with hi
    cases h
    exact ⟨s, Or.inl rfl, Or.inr ⟨i, _, Or.inl (by simpa using hi), rfl, rfl⟩⟩
  | batch i keys =>
    obtain ⟨w, found, hw, -, rfl⟩ := batch_eq_some h
    refine ⟨s, Or.inl rfl, Or.inr ⟨i, _, Or.inr ⟨w, hw⟩, ?_, rfl⟩⟩
    exact (sweepOf_eq_some.mp hw).2
  | scanned i =>
    obtain ⟨w, found, hw, -, rfl⟩ := collected_eq_some h
    refine ⟨s, Or.inl rfl, Or.inr ⟨i, _, Or.inr ⟨w, hw⟩, ?_, rfl⟩⟩
    exact (sweepOf_eq_some.mp hw).2
  | broken i =>
    obtain ⟨w, found, hw, -, rfl⟩ := collected_eq_some h
    refine ⟨s, Or.inl rfl, Or.inr ⟨i, _, Or.inr ⟨w, hw⟩, ?_, rfl⟩⟩
    exact (sweepOf_eq_some.mp hw).2
  | apply i performed answered =>
    obtain ⟨w, key, rest, result, hw, -, -, rfl⟩ := apply_eq_some h
    have hstore := (sweepOf_eq_some.mp hw).2
    refine ⟨_, ?_, Or.inr ⟨i, _, Or.inr ⟨w, hw⟩, ?_, rfl⟩⟩
    · cases performed with
      | true =>
        refine Or.inr ⟨w.command key, ?_, rfl⟩
        rw [key_command, hstore]
        exact hasPrefix_prefixed r key
      | false => exact Or.inl rfl
    · exact hstore

end Steps

structure Agree (r : RedisStore) (s t : Redis svc) : Prop where
  now : s.now = t.now
  find : ∀ key, hasPrefix key r.keyPrefix = true → svc.find s.db key = svc.find t.db key
  sweeps : ∀ i, s.sweepOf r i = t.sweeps i

namespace Agree

variable {i : ℕ} {w : Sweep}

theorem sweepOf (h : Agree r s t) (i : ℕ) : t.sweepOf r i = t.sweeps i := by
  have hi := h.sweeps i
  cases ht : t.sweeps i with
  | none =>
    unfold Redis.sweepOf
    rw [ht]
    rfl
  | some w =>
    rw [ht] at hi
    exact sweepOf_eq_some.mpr ⟨ht, (sweepOf_eq_some.mp hi).2⟩

theorem perform (h : Agree r s t) {c : Command String β} (hc : c.Plain) :
    Agree r (s.perform c) (t.perform c) := by
  have hnow : svc.now s.db = svc.now t.db := h.now
  refine ⟨?_, fun key hkey => svc.find_exec_congr hc hnow (h.find key hkey), h.sweeps⟩
  exact (svc.now_exec _ _).trans (hnow.trans (svc.now_exec _ _).symm)

theorem wait (h : Agree r s t) (d : ℕ) : Agree r { s with db := svc.wait s.db d } { t with db := svc.wait t.db d } := by
  have hnow : svc.now s.db = svc.now t.db := h.now
  refine ⟨?_, fun key hkey => ?_, h.sweeps⟩
  · change svc.now (svc.wait s.db d) = svc.now (svc.wait t.db d)
    rw [svc.now_wait, svc.now_wait, hnow]
  · change svc.find (svc.wait s.db d) key = svc.find (svc.wait t.db d) key
    rw [svc.find_wait, svc.find_wait, h.find key hkey, hnow]

theorem withSweep (h : Agree r s t) (hstore : w.store = r) : Agree r (s.withSweep i w) (t.withSweep i w) := by
  refine ⟨h.now, h.find, fun j => ?_⟩
  rw [sweepOf_withSweep]
  change _ = Function.update t.sweeps i (some w) j
  split_ifs with hj
  · rw [hj, Function.update_self, Option.filter_some, if_pos (by simpa using hstore)]
  · rw [Function.update_of_ne hj, h.sweeps j]

theorem perform_left (h : Agree r s t) {c : Command String β} (hc : hasPrefix c.key r.keyPrefix = false) :
    Agree r (s.perform c) t := by
  refine ⟨(svc.now_exec _ _).trans h.now, fun key hkey => ?_, h.sweeps⟩
  rw [← h.find key hkey]
  apply svc.find_exec
  rintro rfl
  rw [hkey] at hc
  cases hc

theorem withSweep_left (h : Agree r s t) (hstore : w.store ≠ r) (hfree : s.sweepOf r i = none) :
    Agree r (s.withSweep i w) t := by
  refine ⟨h.now, h.find, fun j => ?_⟩
  rw [sweepOf_withSweep]
  split_ifs with hj
  · rw [Option.filter_some, if_neg (by simpa using hstore), hj, ← h.sweeps i, hfree]
  · exact h.sweeps j

theorem reports (h : Agree r s t) (hstore : w.store = r) (key : String) :
    s.reports w key = t.reports w key := by
  unfold Redis.reports
  rw [h.find _ (hstore ▸ hasPrefix_prefixed w.store key)]

theorem set (h : Agree r s t) (key : String) (e : Entry ρ) (ttl : ℤ) :
    Agree r ((r.set codec key e ttl).elim s s.perform) ((r.set codec key e ttl).elim t t.perform) := by
  unfold RedisStore.set
  cases codec.encode (e.key, e.content) with
  | none => exact h
  | some data =>
    refine h.perform ?_
    change 0 < if ttl ≤ 0 then foreverTTL else ttl
    split_ifs with httl
    · decide
    · omega

theorem command (h : Agree r s t) (w : Sweep) (key : String) :
    Agree r (s.perform (w.command key)) (t.perform (w.command key)) := by
  apply h.perform
  unfold Sweep.command
  cases w.action with
  | promote => exact (by decide : 0 < foreverTTL)
  | purge => trivial

theorem collected (h : Agree r s t) (hstep : s.collected r i = some s') :
    ∃ t', t.collected r i = some t' ∧ Agree r s' t' := by
  obtain ⟨w, found, hw, hphase, rfl⟩ := collected_eq_some hstep
  have ht := h.sweeps i ▸ hw
  refine ⟨t.withSweep i { w with phase := .applying (found.filter w.fn) }, ?_,
    h.withSweep (sweepOf_eq_some.mp hw).2⟩
  simp only [Redis.collected, h.sweepOf, ht, Option.bind_eq_bind, Option.bind_some, hphase]

theorem own_step (h : Agree r s t) {a : Act ρ} (hstep : s.step codec r a = some s') :
    ∃ t', t.step codec r a = some t' ∧ Agree r s' t' := by
  cases a with
  | set key e ttl =>
    cases hstep
    exact ⟨_, rfl, h.set key e ttl⟩
  | delete key =>
    cases hstep
    exact ⟨_, rfl, h.perform trivial⟩
  | sweep i fn action =>
    simp only [step] at hstep ⊢
    split_ifs at hstep with hi
    cases hstep
    have hfree : t.sweeps i = none := by
      rw [← h.sweeps i, Redis.sweepOf, Option.not_isSome_iff_eq_none.mp hi]
      rfl
    exact ⟨_, if_neg (by simp [hfree]), h.withSweep rfl⟩
  | batch i keys =>
    obtain ⟨w, found, hw, hphase, rfl⟩ := batch_eq_some hstep
    have ht := h.sweeps i ▸ hw
    refine ⟨t.withSweep i { w with phase := .scanning (found ++ r.trimKeys keys) }, ?_,
      h.withSweep (sweepOf_eq_some.mp hw).2⟩
    simp only [step, h.sweepOf, ht, Option.bind_eq_bind, Option.bind_some, hphase]
  | scanned i => exact h.collected hstep
  | broken i => exact h.collected hstep
  | apply i performed answered =>
    obtain ⟨w, key, rest, result, hw, hphase, rfl, rfl⟩ := apply_eq_some hstep
    have hstore := (sweepOf_eq_some.mp hw).2
    have ht := h.sweeps i ▸ hw
    simp only [step, h.sweepOf, ht, Option.bind_eq_bind, Option.bind_some, hphase, h.reports hstore key]
    refine ⟨_, rfl, ?_⟩
    cases performed with
    | true => exact (h.command w key).withSweep hstore
    | false => exact h.withSweep hstore

theorem foreign_step (h : Agree r s t) (hne : q ≠ r)
    (hdisjoint : ∀ key, hasPrefix key r.keyPrefix = true → hasPrefix key q.keyPrefix = false) {a : Act ρ}
    (hstep : s.step codec q a = some s') : Agree r s' t := by
  obtain ⟨u, hu, hs'⟩ := step_cases hstep
  have hagree : Agree r u t ∧ u.sweeps = s.sweeps := by
    rcases hu with rfl | ⟨c, hc, rfl⟩
    · exact ⟨h, rfl⟩
    · refine ⟨h.perform_left ?_, rfl⟩
      rw [Bool.eq_false_iff]
      intro hown
      rw [hdisjoint _ hown] at hc
      cases hc
  rcases hs' with rfl | ⟨i, w, hi, hstore, rfl⟩
  · exact hagree.1
  · refine hagree.1.withSweep_left (hstore ▸ hne) ?_
    unfold Redis.sweepOf
    rw [hagree.2]
    exact sweepOf_eq_none hne hi

theorem refl_start (r : RedisStore) (db : svc.State) : Agree r (start db) (start db) :=
  ⟨rfl, fun _ _ => rfl, fun _ => rfl⟩

end Agree

section Networks

open Network State RedisStore

theorem forNetwork_disjoint {id other : String} (hid : ':' ∉ id.toList) (hother : ':' ∉ other.toList)
    (hne : other ≠ id) (key : String) (h : hasPrefix key (forNetwork id).keyPrefix = true) :
    hasPrefix key (forNetwork other).keyPrefix = false := by
  rw [Bool.eq_false_iff]
  intro h'
  unfold hasPrefix forNetwork at h h'
  simp only [String.toList_append, List.isPrefixOf_iff_prefix, List.append_assoc] at h h'
  obtain ⟨rest, hrest⟩ := h
  obtain ⟨rest', hrest'⟩ := h'
  rw [← hrest, List.append_assoc, List.append_assoc, List.append_assoc, List.append_assoc] at hrest'
  have htail := List.append_cancel_left hrest'
  have hids := append_inj_of_notMem hother hid (Or.inr rfl) (Or.inr rfl) htail
  exact hne (String.toList_inj.mp hids.1)

def Label.concerns (r : RedisStore) : Label ρ β → Bool
  | .store q _ => q = r
  | .finalized _ _ => false
  | .lost key => hasPrefix key r.keyPrefix
  | .wait _ => true

theorem keyPrefix_finalized (network : String) :
    hasPrefix (finalizedKeyFor network) (forNetwork "finalized_epoch").keyPrefix = true :=
  hasPrefix_append "ebeacon:finalized_epoch:" network

variable {id : String} {labels : List (Label ρ β)} {db : svc.State}

theorem Agree.concerned (h : Agree (forNetwork id) s t) {l : Label ρ β} (hl : l.concerns (forNetwork id) = true)
    (hstep : s.next codec l = some s') : ∃ t', t.next codec l = some t' ∧ Agree (forNetwork id) s' t' := by
  cases l with
  | store q a =>
    cases of_decide_eq_true hl
    exact h.own_step hstep
  | finalized network data => cases hl
  | lost key =>
    cases hstep
    exact ⟨_, rfl, h.perform trivial⟩
  | wait d =>
    cases hstep
    exact ⟨_, rfl, h.wait d⟩

theorem Agree.unconcerned (h : Agree (forNetwork id) s t) (hid : validIdentifier id = true)
    (hreserved : id ≠ "finalized_epoch") {l : Label ρ β} (hl : l.concerns (forNetwork id) = false)
    (hother : ∀ q a, l = .store q a → ∃ other, validIdentifier other = true ∧ q = forNetwork other)
    (hstep : s.next codec l = some s') : Agree (forNetwork id) s' t := by
  have hcolon := colon_notMem_of_validIdentifier hid
  cases l with
  | store q a =>
    have hne := of_decide_eq_false hl
    obtain ⟨other, hvalid, rfl⟩ := hother q a rfl
    refine h.foreign_step hne ?_ hstep
    exact forNetwork_disjoint hcolon (colon_notMem_of_validIdentifier hvalid) fun heq => hne (by rw [heq])
  | finalized network data =>
    cases hstep
    refine h.perform_left ?_
    exact forNetwork_disjoint (by decide) hcolon hreserved _ (keyPrefix_finalized network)
  | lost key =>
    cases hstep
    exact h.perform_left hl
  | wait d => cases hl

/-- What a network finds and what its calls do and report is what it would be if the network were alone: the commands
of the other networks and of the shared state may be left out of every run, with the replies to its own scans as they
were. -/
theorem networks_isolated (hid : validIdentifier id = true) (hreserved : id ≠ "finalized_epoch")
    (hothers : ∀ q a, Label.store q a ∈ labels → ∃ other, validIdentifier other = true ∧ q = forNetwork other)
    (hrun : Runs.exec (next codec) (start db) labels = some s) :
    ∃ t, Runs.exec (next codec) (start db) (labels.filter (Label.concerns (forNetwork id))) = some t ∧
      t.now = s.now ∧
      (∀ key, svc.find s.db ((forNetwork id).prefixed key) = svc.find t.db ((forNetwork id).prefixed key)) ∧
      (∀ key, (forNetwork id).get svc codec s.db key = (forNetwork id).get svc codec t.db key) ∧
      ∀ i, s.sweepOf (forNetwork id) i = t.sweeps i := by
  have hseen : ∀ l ∈ labels, l.concerns (forNetwork id) = true → ∀ s t s' : Redis svc, Agree (forNetwork id) s t →
      next codec s l = some s' → ∃ t', next codec t l = some t' ∧ Agree (forNetwork id) s' t' :=
    fun l _ hl s t s' h hstep => h.concerned hl hstep
  have hunseen : ∀ l ∈ labels, l.concerns (forNetwork id) = false → ∀ s t s' : Redis svc, Agree (forNetwork id) s t →
      next codec s l = some s' → Agree (forNetwork id) s' t :=
    fun l hmem hl s t s' h hstep => h.unconcerned hid hreserved hl (fun q a hq => hothers q a (hq ▸ hmem)) hstep
  obtain ⟨t, ht, h⟩ := Runs.exec_filter hseen hunseen (Agree.refl_start _ db) hrun
  refine ⟨t, ht, h.now.symm, fun key => h.find _ (hasPrefix_prefixed _ key), fun key => ?_, h.sweeps⟩
  unfold RedisStore.get
  rw [h.find _ (hasPrefix_prefixed _ key)]

def plainCodec : Codec String (String × String) := ⟨some, some, fun _ _ h => h.symm⟩

def plainService : Keyspace String (String × String) := .exact String (String × String)

def purgeRun : List (Label String (String × String)) :=
  [.store (forNetwork "mainnet") (.set "k" ⟨"k", "1", none⟩ 0),
    .store (forNetwork "hoodi") (.set "k" ⟨"k", "2", none⟩ 0),
    .finalized "mainnet" ("", "3"),
    .store (forNetwork "hoodi") (.sweep 0 (fun _ => true) .purge),
    .store (forNetwork "hoodi") (.batch 0 ["ebeacon:hoodi:k"]),
    .store (forNetwork "hoodi") (.scanned 0),
    .store (forNetwork "hoodi") (.apply 0 true true)]

def emptyRedis : Redis plainService := start (∅, 0)

theorem networks_isolated_purge :
    ∃ s t, Runs.exec (next plainCodec) emptyRedis purgeRun = some s ∧
      Runs.exec (next plainCodec) emptyRedis (purgeRun.take 1) = some t ∧
      (forNetwork "mainnet").get plainService plainCodec s.db "k" =
        (forNetwork "mainnet").get plainService plainCodec t.db "k" := by
  have hothers : ∀ q a, Label.store q a ∈ purgeRun → ∃ other, validIdentifier other = true ∧ q = forNetwork other := by
    intro q a h
    simp only [purgeRun, List.mem_cons, Label.store.injEq, List.not_mem_nil, or_false, reduceCtorEq, false_or] at h
    rcases h with h | h | h | h | h | h
    · exact ⟨"mainnet", by decide, h.1⟩
    all_goals exact ⟨"hoodi", by decide, h.1⟩
  obtain ⟨s, hs⟩ : ∃ s, Runs.exec (next plainCodec) emptyRedis purgeRun = some s := ⟨_, rfl⟩
  have hid : validIdentifier "mainnet" = true := by decide
  obtain ⟨t, ht, -, -, hget, -⟩ := networks_isolated hid (by decide) hothers hs
  exact ⟨s, t, hs, ht, hget "k"⟩

end Networks

end EBeacon.Cache.Redis
