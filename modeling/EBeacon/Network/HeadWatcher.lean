import EBeacon.Network.HeadEvents
import EBeacon.Network.ServerSteps
import EBeacon.Upstream.Monitor

/-!
What the head watcher of an upstream does with the events of its stream.
-/

namespace EBeacon.Network.HeadWatcher

open Text Upstream Cache

structure HeadV2 where
  block : String
  payloadStatus : String

-- what `json.Unmarshal` makes of the data of an event: the slot and the block of a head, the version of a
-- `head_v2` with its data, nested or not, the epoch of a checkpoint, and the slot of a reorg
structure Payloads where
  head : String → Option (String × String)
  headV2 : String → Option (String × Option HeadV2 × HeadV2)
  finalized : String → Option String
  reorg : String → Option String

structure Watch where
  server : Server
  node : Node

def preGloasForks : List String := ["phase0", "altair", "bellatrix", "capella", "deneb", "electra", "fulu"]

variable (cfg : Config) (payloads : Payloads) (id : String)

namespace Watch

def recordHeadSeen (w : Watch) (data : String) (now : ℤ) : Watch :=
  if data = "" then w
  else match payloads.head data with
    | none => w
    | some (slot, block) => match (parseUint64 slot).filter (· ≠ 0) with
      | none => w
      | some slot =>
        if block = "" then w
        else
          let heads := w.server.pool.heads.addBlock (unixSeconds now) id slot block ""
          { server := { w.server with pool := { w.server.pool with heads := heads.syncCanonicalHead.1 } }
            node := w.node.updateHeadBlock slot block }

def recordHeadPayloadStatus (w : Watch) (data : String) : Watch :=
  match payloads.headV2 data with
  | none => w
  | some (version, nested, flat) =>
    if version ∈ preGloasForks then w
    else
      let ev := nested.getD flat
      if ev.block = "" then w
      else if ev.payloadStatus = "full" then { w with node := w.node.setHeadPayloadStatus ev.block true }
      else if ev.payloadStatus = "empty" then { w with node := w.node.setHeadPayloadStatus ev.block false }
      else w

def dispatch (w : Watch) (e : ℤ × Event) : Watch :=
  match e.2.1 with
  | .headV2 => w.recordHeadPayloadStatus payloads e.2.2
  | .head =>
    let w := w.recordHeadSeen payloads id e.2.2 e.1
    { w with server := w.server.invalidateHead cfg id e.1 }
  | .finalizedCheckpoint =>
    { w with server := (payloads.finalized e.2.2).elim w.server (w.server.finalizedCheckpoint cfg · e.1) }
  | .chainReorg =>
    { w with server := (payloads.reorg e.2.2).elim w.server (w.server.chainReorg cfg · e.1) }

inductive Move
  | event (e : ℤ × Event)
  | ended
  | other (l : Server.Label)

def next (w : Watch) : Move → Option Watch
  | .event e => some (w.dispatch cfg payloads id e)
  | .ended => some { w with node := w.node.clearHeadPayloadStatus }
  | .other l => (w.server.next cfg l).map (fun s => { w with server := s })

def Move.handled : Move → Option Event
  | .event e => some e.2
  | _ => none

def Move.stores : Move → Bool
  | .other (.task _ (.store _)) => true
  | .other (.warm _ (.store _)) => true
  | _ => false

def keys (w : Watch) : List String := w.server.store.lru.map Entry.key

end Watch

def purges : Event → List Purge
  | (.head, _) => [.head]
  | (.chainReorg, data) => match ((payloads.reorg data).bind parseUint64).filter (· ≠ 0) with
    | none => []
    | some slot => [.head, .reorg slot]
  | _ => []

section Purging

variable {cfg payloads id} {w : Watch} {e : ℤ × Event}

def Purged (cfg : Config) (p : Purge) (w : Watch) : Prop :=
  ∀ entry ∈ w.server.store.lru, cfg.ownsKey entry.key = true → p.covers (cacheKeyPath entry.key) = false

theorem recordHeadSeen_store (w : Watch) (data : String) (now : ℤ) :
    (w.recordHeadSeen payloads id data now).server.store = w.server.store := by
  unfold Watch.recordHeadSeen
  split
  · rfl
  split
  · rfl
  split
  · rfl
  split
  · rfl
  · rfl

theorem recordHeadPayloadStatus_server (w : Watch) (data : String) :
    (w.recordHeadPayloadStatus payloads data).server = w.server := by
  unfold Watch.recordHeadPayloadStatus
  split
  · rfl
  dsimp only
  split_ifs <;> rfl

theorem invalidateHead_store (s : Server) (now : ℤ) {entry : Entry Stored}
    (h : entry ∈ (s.invalidateHead cfg id now).store.lru) :
    entry ∈ s.store.lru ∧ (cfg.policies.isSome = true → cfg.ownsKey entry.key = true →
      Purge.head.covers (cacheKeyPath entry.key) = false) := by
  unfold Server.invalidateHead at h
  split_ifs at h with hpolicies
  · exact ⟨h, fun hsome => by rw [Option.isSome_iff_ne_none] at hsome; simp_all⟩
  · obtain ⟨hmem, hfn⟩ := MemoryStore.mem_purgeCollect h
    refine ⟨hmem, fun _ howns => ?_⟩
    rw [howns, Bool.true_and] at hfn
    exact hfn

theorem chainReorg_store (s : Server) (slot : String) (now : ℤ) {entry : Entry Stored}
    (h : entry ∈ (s.chainReorg cfg slot now).store.lru) :
    entry ∈ s.store.lru ∧ (cfg.policies.isSome = true → cfg.ownsKey entry.key = true →
      ∀ reorgSlot, (parseUint64 slot).filter (· ≠ 0) = some reorgSlot → reorgPurges reorgSlot entry.key = false) := by
  unfold Server.chainReorg at h
  split_ifs at h with hpolicies
  · exact ⟨h, fun hsome => absurd hsome (by rw [Option.isNone_iff_eq_none.mp hpolicies]; simp)⟩
  · split at h
    · rename_i hslot
      refine ⟨h, fun _ _ reorgSlot hsome => ?_⟩
      rw [hslot] at hsome
      cases hsome
    · rename_i reorgSlot' hslot
      obtain ⟨hmem, hfn⟩ := MemoryStore.mem_purgeCollect h
      refine ⟨hmem, fun _ howns reorgSlot hsome => ?_⟩
      rw [hslot] at hsome
      cases hsome
      rw [howns, Bool.true_and] at hfn
      exact hfn

theorem finalizedCheckpoint_store (s : Server) (epoch : String) (now : ℤ) {entry : Entry Stored}
    (h : entry ∈ (s.finalizedCheckpoint cfg epoch now).store.lru) : ∃ old ∈ s.store.lru, entry.key = old.key := by
  unfold Server.finalizedCheckpoint at h
  split at h
  · exact ⟨entry, h, rfl⟩
  dsimp only at h
  split_ifs at h
  · exact ⟨entry, h, rfl⟩
  · obtain ⟨old, hold, hkey, -⟩ := MemoryStore.mem_promoteIf h
    exact ⟨old, hold, hkey⟩

theorem covers_of_reorgPurges {slot : UInt64} {key : String} (h : reorgPurges slot key = false) :
    Purge.head.covers (cacheKeyPath key) = false ∧ (Purge.reorg slot).covers (cacheKeyPath key) = false := by
  constructor
  · by_contra hcovers
    have hcovers : pathHasNamedSlotID (cacheKeyPath key) = true := by simpa [Purge.covers] using hcovers
    have hempty : pathHasNamedSlotID "" = false := by decide
    have hne : cacheKeyPath key ≠ "" := fun he => by rw [he, hempty] at hcovers; cases hcovers
    simp [reorgPurges, hne, hcovers] at h
  · by_contra hcovers
    rw [Server.covers_reorgPurges (by simpa using hcovers)] at h
    cases h

theorem dispatch_keys {entry : Entry Stored} (h : entry ∈ (w.dispatch cfg payloads id e).server.store.lru) :
    ∃ old ∈ w.server.store.lru, entry.key = old.key := by
  obtain ⟨now, topic, data⟩ := e
  cases topic with
  | headV2 =>
    change entry ∈ (w.recordHeadPayloadStatus payloads data).server.store.lru at h
    rw [recordHeadPayloadStatus_server] at h
    exact ⟨entry, h, rfl⟩
  | head =>
    obtain ⟨hmem, -⟩ := invalidateHead_store _ now h
    rw [recordHeadSeen_store] at hmem
    exact ⟨entry, hmem, rfl⟩
  | finalizedCheckpoint =>
    change entry ∈ ((payloads.finalized data).elim w.server (w.server.finalizedCheckpoint cfg · now)).store.lru at h
    cases hdata : payloads.finalized data with
    | none =>
      rw [hdata] at h
      exact ⟨entry, h, rfl⟩
    | some epoch =>
      rw [hdata] at h
      exact finalizedCheckpoint_store w.server epoch now h
  | chainReorg =>
    change entry ∈ ((payloads.reorg data).elim w.server (w.server.chainReorg cfg · now)).store.lru at h
    cases hdata : payloads.reorg data with
    | none =>
      rw [hdata] at h
      exact ⟨entry, h, rfl⟩
    | some slot =>
      rw [hdata] at h
      exact ⟨entry, (chainReorg_store w.server slot now h).1, rfl⟩

theorem server_keys {s s' : Server} {l : Server.Label} (h : Server.next cfg s l = some s')
    (hstores : (Watch.Move.other l).stores = false) {entry : Entry Stored} (hentry : entry ∈ s'.store.lru) :
    ∃ old ∈ s.store.lru, entry.key = old.key := by
  cases Server.next_cases h with
  | hit => exact ⟨entry, MemoryStore.mem_get hentry, rfl⟩
  | miss => exact ⟨entry, MemoryStore.mem_get hentry, rfl⟩
  | stored now hi hp => cases hstores
  | warmStored now hi hp => cases hstores
  | purged now => exact ⟨entry, (MemoryStore.mem_purgeCollect hentry).1, rfl⟩
  | finalized epoch now pool fn =>
    obtain ⟨old, hold, hkey, -⟩ := MemoryStore.mem_promoteIf hentry
    exact ⟨old, hold, hkey⟩
  | _ => exact ⟨entry, hentry, rfl⟩

theorem next_keys {w' : Watch} {a : Watch.Move} (h : w.next cfg payloads id a = some w') (hstores : a.stores = false)
    {key : String} (hkey : key ∈ w'.keys) : key ∈ w.keys := by
  obtain ⟨entry, hentry, rfl⟩ := List.mem_map.mp hkey
  have hold : ∃ old ∈ w.server.store.lru, entry.key = old.key := by
    cases a with
    | event e =>
      cases h
      exact dispatch_keys hentry
    | ended =>
      cases h
      exact ⟨entry, hentry, rfl⟩
    | other l =>
      obtain ⟨s, hs, rfl⟩ := Option.map_eq_some_iff.mp h
      exact server_keys hs hstores hentry
  obtain ⟨old, hmem, hkey⟩ := hold
  rw [hkey]
  exact List.mem_map_of_mem hmem

theorem dispatch_purged (hcfg : cfg.policies.isSome = true) {p : Purge} (hp : p ∈ purges payloads e.2) :
    Purged cfg p (w.dispatch cfg payloads id e) := by
  obtain ⟨now, topic, data⟩ := e
  intro entry hentry howns
  cases topic with
  | headV2 => cases hp
  | finalizedCheckpoint => cases hp
  | head =>
    rw [List.mem_singleton.mp hp]
    exact (invalidateHead_store _ now hentry).2 hcfg howns
  | chainReorg =>
    change entry ∈ ((payloads.reorg data).elim w.server (w.server.chainReorg cfg · now)).store.lru at hentry
    simp only [purges] at hp
    cases hdata : payloads.reorg data with
    | none =>
      rw [hdata] at hp
      cases hp
    | some slot =>
      rw [hdata] at hp hentry
      dsimp only [Option.bind_some] at hp
      split at hp
      · cases hp
      · rename_i reorgSlot hslot
        have hkey := (chainReorg_store w.server slot now hentry).2 hcfg howns reorgSlot hslot
        rcases List.mem_cons.mp hp with rfl | hp
        · exact (covers_of_reorgPurges hkey).1
        · rw [List.mem_singleton.mp hp]
          exact (covers_of_reorgPurges hkey).2

theorem stored_since {w' : Watch} {moves : List Watch.Move}
    (hrun : Runs.exec (Watch.next cfg payloads id) w moves = some w') {key : String} (hstart : key ∉ w.keys)
    (hfinish : key ∈ w'.keys) :
    ∃ before a after u v, moves = before ++ a :: after ∧ a.stores = true ∧
      Runs.exec (Watch.next cfg payloads id) w before = some u ∧ u.next cfg payloads id a = some v ∧
      key ∉ u.keys ∧ key ∈ v.keys := by
  obtain ⟨before, a, after, u, v, hmoves, hu, hstep, hout, hin⟩ := Runs.exec_becomes (P := (key ∈ ·.keys)) hstart hrun hfinish
  refine ⟨before, a, after, u, v, hmoves, ?_, hu, hstep, hout, hin⟩
  by_contra hstores
  exact hout (next_keys hstep (Bool.eq_false_iff.mpr hstores) hin)

def cachedHead : Watch where
  server :=
    let pool := Pool.allReady [⟨"a", false⟩]
    (Server.init pool 16).put (some ⟨"mainnet:GET:/eth/v1/beacon/headers/head",
      ⟨⟨200, "application/json", "1"⟩, ⟨⟨"a", false⟩, pool, 0⟩⟩, none⟩)
  node := {}

theorem exec_events (cfg : Config) (payloads : Payloads) (id : String) (es : List (ℤ × Event)) (w : Watch) :
    Runs.exec (Watch.next cfg payloads id) w (es.map .event) = some (es.foldl (Watch.dispatch cfg payloads id) w) := by
  induction es generalizing w with
  | nil => rfl
  | cons e es ih => exact ih (w.dispatch cfg payloads id e)

def undecoded : Payloads := ⟨fun _ => none, fun _ => none, fun _ => none, fun _ => none⟩

def headBytes : EventBody :=
  ⟨[wire "data: 2\x7d"].flatten ++ wire "" ++ [headLines].flatten.flatten ++ [], true, false⟩

end Purging

end EBeacon.Network.HeadWatcher
