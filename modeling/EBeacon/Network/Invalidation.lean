import EBeacon.Network.ServerSteps

namespace EBeacon.Network

open Text Upstream Cache

namespace Server

variable {cfg : Config} {s s' : Server} {l : Label}

def Outdated (cfg : Config) (purges : List Purge) (key : String) (r : Stored) : Prop :=
  ∃ k p, purges[k]? = some p ∧ cfg.ownsKey key = true ∧ p.covers (cacheKeyPath key) = true ∧
    r.origin.stamp ≤ k

def Fresh (cfg : Config) (s : Server) : Prop :=
  ∀ e ∈ s.store.lru, ¬ Outdated cfg s.purges e.key e.content

def Timely (cfg : Config) (s : Server) : Label → Prop
  | .task i (.store now) => ∀ t r, s.tasks[i]? = some t → t.phase = .respond r →
      (cfg.entry s.pool now (cfg.job t) r).isSome = true → ¬ Outdated cfg s.purges (cfg.job t).key r
  | .warm i (.store now) => ∀ w job r, s.warms[i]? = some w → w.phase = .respond job r →
      (cfg.entry s.pool now job r).isSome = true → ¬ Outdated cfg s.purges job.key r
  | _ => True

theorem Fresh.keep (h : Fresh cfg s) (hp : s'.purges = s.purges)
    (hs : ∀ e ∈ s'.store.lru, ∃ e' ∈ s.store.lru, e.key = e'.key ∧ e.content = e'.content) :
    Fresh cfg s' := by
  intro e he hout
  obtain ⟨e', he', hkey, hcontent⟩ := hs e he
  rw [hp, hkey, hcontent] at hout
  exact h e' he' hout

section Put

variable {now : ℤ} {job : Job} {r : Stored}

theorem Fresh.put (h : Fresh cfg s)
    (ht : (cfg.entry s.pool now job r).isSome = true → ¬ Outdated cfg s.purges job.key r) :
    Fresh cfg (s.put (cfg.entry s.pool now job r)) := by
  cases he : cfg.entry s.pool now job r with
  | none => exact h
  | some e =>
    intro e' hin
    rcases MemoryStore.mem_set hin with rfl | hold
    · obtain ⟨hkey, hcontent⟩ := entry_some he
      rw [hkey, hcontent]
      exact ht (by rw [he]; rfl)
    · exact h e' hold

theorem Fresh.of_put (h : Fresh cfg (s.put (cfg.entry s.pool now job r)))
    (hsome : (cfg.entry s.pool now job r).isSome = true) : ¬ Outdated cfg s.purges job.key r := by
  obtain ⟨e, he⟩ := Option.isSome_iff_exists.mp hsome
  obtain ⟨hkey, hcontent⟩ := entry_some he
  rw [he] at h
  have hfront := h e (MemoryStore.set_front _ _)
  rwa [hkey, hcontent] at hfront

end Put

theorem Fresh.purge (h : Fresh cfg s) {p : Purge} {fn : String → Bool} {now : ℤ}
    (hp : s'.purges = s.purges ++ [p]) (hs : s'.store = (s.store.purgeCollect fn now).2)
    (hfn : ∀ key, cfg.ownsKey key = true → p.covers (cacheKeyPath key) = true → fn key = true) :
    Fresh cfg s' := by
  rintro e hin ⟨k, p', hk, howns, hcovers, hstamp⟩
  rw [hs] at hin
  obtain ⟨hold, hkept⟩ := MemoryStore.mem_purgeCollect hin
  rw [hp] at hk
  by_cases hlt : k < s.purges.length
  · rw [List.getElem?_append_left hlt] at hk
    exact h e hold ⟨k, p', hk, howns, hcovers, hstamp⟩
  · rw [List.getElem?_append_right (by omega)] at hk
    rw [List.mem_singleton.mp (List.mem_of_getElem? hk)] at hcovers
    rw [hfn e.key howns hcovers] at hkept
    cases hkept

theorem Fresh.step (h : Fresh cfg s) (ht : Timely cfg s l) (hs : next cfg s l = some s') :
    Fresh cfg s' := by
  cases next_cases hs with
  | ignored => exact h
  | request => exact h
  | flight => exact h
  | bypass => exact h
  | hit => exact h.keep rfl (fun e he => ⟨e, MemoryStore.mem_get he, rfl, rfl⟩)
  | miss => exact h.keep rfl (fun e he => ⟨e, MemoryStore.mem_get he, rfl, rfl⟩)
  | follow => exact h
  | lead => exact h
  | received => exact h
  | ended => exact h
  | @stored i t r now hi hp => exact h.put (ht t r hi hp)
  | warmIdle => exact h
  | warmFetched => exact h
  | warmReceived => exact h
  | @warmStored i w job r now hi hp => exact h.put (ht w job r hi hp)
  | purged now hfn => exact h.purge rfl rfl hfn
  | finalized => exact h.keep rfl (fun e he => MemoryStore.mem_promoteIf he)
  | pool => exact h

theorem Fresh.timely (h : Fresh cfg s') (hs : next cfg s l = some s') : Timely cfg s l := by
  unfold Timely
  split
  · intro t r hi hp
    simp only [next, hi, stepTask, hp, Option.bind_eq_bind, Option.bind_some, Option.pure_def,
      Option.some.injEq] at hs
    subst hs
    exact Fresh.of_put h
  · intro w job r hi hp
    simp only [next, hi, stepWarm, hp, Option.bind_eq_bind, Option.bind_some, Option.pure_def,
      Option.some.injEq] at hs
    subst hs
    exact Fresh.of_put h
  · trivial

theorem Fresh.init (pool : Pool) (maxSize : ℤ) : Fresh cfg (.init pool maxSize) := nofun

/-- In every run, events invalidate what they make stale exactly when no response is stored after
an event that it was dispatched before. -/
theorem invalidation_iff (cfg : Config) (pool : Pool) (maxSize : ℤ) (labels : List Label) :
    Runs.Throughout (next cfg) (Fresh cfg) (.init pool maxSize) labels ↔
      Runs.Along (next cfg) (Timely cfg) (.init pool maxSize) labels :=
  ⟨Runs.along_of_throughout (fun _ _ _ hs h => h.timely hs),
    Runs.throughout_of_along (fun _ _ _ h hs ht => h.step ht hs) (Fresh.init pool maxSize)⟩

section Example

def headRequest : Request := ⟨⟨"/eth/v1/beacon/headers/head", "", []⟩, "", "", ""⟩

def fetched : List Label :=
  [.request headRequest ⟨true, true⟩ "", .task 0 (.lookup 0), .task 0 .join,
    .flight 0 (.dispatch ⟨"node", false⟩), .flight 0 (.finish 0 ⟨200, "application/json", "old head"⟩),
    .task 0 .receive]

theorem invalidation_lost :
    ∃ s, Runs.exec (next (.caching [])) (.init (.allReady [⟨"node", false⟩]) 0)
        (fetched ++ [.head "node" 1, .task 0 (.store 2)]) = some s ∧
      (∃ e, (s.store.get "mainnet:GET:/eth/v1/beacon/headers/head" 3).1 = some e ∧
        e.content.reply.body = "old head" ∧ Outdated (.caching []) s.purges e.key e.content) ∧
      ¬ Fresh (.caching []) s := by
  obtain ⟨s, run, e, hget, hbody, hpurges, hkey, hstamp⟩ :
      ∃ s, Runs.exec (next (.caching [])) (.init (.allReady [⟨"node", false⟩]) 0)
          (fetched ++ [.head "node" 1, .task 0 (.store 2)]) = some s ∧
        ∃ e, (s.store.get "mainnet:GET:/eth/v1/beacon/headers/head" 3).1 = some e ∧
          e.content.reply.body = "old head" ∧ s.purges = [.head] ∧
          e.key = "mainnet:GET:/eth/v1/beacon/headers/head" ∧ e.content.origin.stamp = 0 :=
    ⟨_, rfl, _, rfl, rfl, rfl, rfl, rfl⟩
  have hout : Outdated (.caching []) s.purges e.key e.content := by
    refine ⟨0, .head, by rw [hpurges]; rfl, ?_, ?_, hstamp.le⟩
    · rw [hkey]
      decide
    · rw [hkey]
      decide
  exact ⟨s, run, ⟨e, hget, hbody, hout⟩, fun h => h e (MemoryStore.get_entry hget).1 hout⟩

end Example

end Server

end EBeacon.Network
