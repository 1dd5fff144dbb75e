import EBeacon.Cache.Lru
import EBeacon.Config.Accepted
import EBeacon.DebugLog.Redaction
import EBeacon.Library.Runs
import EBeacon.Library.Sorting
import EBeacon.Network.Budgets
import EBeacon.Network.Responses
import EBeacon.Proxy.Auth

/-!
The dashboard, with which cached responses are listed and deleted.
-/

namespace EBeacon.API

open Text Cache Network DebugLog Sorting Runs

structure Cached where
  response : Buffered
  created : ℤ
  deriving DecidableEq, Repr

abbrev Caches := String → Option (MemoryStore Cached)

-- the networks, in the order in which the map is gone through, and their caches
structure StatusAPI where
  ids : List String
  caches : Caches
  auth : Option Config.AuthConfig
  nodup : ids.Nodup

structure StatusRequest where
  method : String
  path : String
  header : Header
  query : List (String × String)

structure CacheEntryInfo where
  network : String
  key : String
  status : ℕ
  headers : HeaderMap
  bodySize : ℕ
  createdAt : ℤ
  expiresAt : Option ℤ
  contentType : String
  body : Option String

inductive Answer
  | notFound
  | unauthorized
  | methodNotAllowed
  | required
  | networkNotFound
  | cacheNotEnabled
  | page
  | report (target : String)
  | listed (total : ℕ) (entries : List CacheEntryInfo)
  | deleted (network key : String) (deleted : Bool)

def parseStatusRoute (basePath path : String) : Option (String × String) :=
  if !hasPrefix path (basePath ++ "/") then none
  else
    let rel := trimPrefix path (basePath ++ "/")
    if rel = "" then some ("", "")
    else if rel = "api" ∨ hasPrefix rel "api/" then some (rel, "")
    else
      let cut := URL.cutAt '/' rel.toList
      some (String.ofList cut.2, String.ofList cut.1)

def parseBoolQuery (v : String) : Bool := ["1", "true", "yes", "on"].contains (toLower (trimSpace v))

def maxEntries : ℕ := 2000

section List

structure Listing where
  network : String
  key : String
  includeBody : Bool

def StatusRequest.listing (r : StatusRequest) : Listing :=
  ⟨trimSpace (URL.get r.query "network"), trimSpace (URL.get r.query "key"),
    parseBoolQuery (URL.get r.query "includeBody")⟩

variable (q : Listing) (now : ℤ)

def entryInfo (id : String) (e : Entry Cached) : CacheEntryInfo where
  network := id
  key := e.key
  status := e.content.response.status
  headers := sanitizeHeaders e.content.response.header
  bodySize := e.content.response.body.length
  createdAt := e.content.created
  expiresAt := e.expires
  contentType := e.content.response.header.get "Content-Type"
  body := if q.includeBody then some e.content.response.body else none

def collect (id : String) (all : List CacheEntryInfo) : List (Entry Cached) → List CacheEntryInfo
  | [] => all
  | e :: rest =>
    if q.key ≠ "" ∧ e.key ≠ q.key then collect id all rest
    else
      let all := all ++ [entryInfo q id e]
      if maxEntries ≤ all.length then all else collect id all rest

def listFrom (caches : Caches) (all : List CacheEntryInfo) : List String → List CacheEntryInfo × Caches
  | [] => (all, caches)
  | id :: ids =>
    if q.network ≠ "" ∧ id ≠ q.network then listFrom caches all ids
    else match caches id with
      | none => listFrom caches all ids
      | some c =>
        let all := collect q id all (c.entries 0 now).1
        let caches := Function.update caches id (some (c.entries 0 now).2)
        if maxEntries ≤ all.length then (all, caches) else listFrom caches all ids

def entryLess (a b : CacheEntryInfo) : Bool :=
  if a.network ≠ b.network then a.network < b.network
  else if a.createdAt ≠ b.createdAt then b.createdAt < a.createdAt
  else a.key < b.key

end List

namespace StatusAPI

variable (s : StatusAPI)

def listCacheEntries (r : StatusRequest) (now : ℤ) : Answer × StatusAPI :=
  let found := listFrom r.listing now s.caches [] s.ids
  (.listed found.1.length (stableSort entryLess found.1), { s with caches := found.2 })

def deleteCacheEntry (r : StatusRequest) (now : ℤ) : Answer × StatusAPI :=
  let network := trimSpace (URL.get r.query "network")
  let key := trimSpace (URL.get r.query "key")
  if network = "" ∨ key = "" then (.required, s)
  else if network ∉ s.ids then (.networkNotFound, s)
  else match s.caches network with
    | none => (.cacheNotEnabled, s)
    | some c =>
      let hit := c.get key now
      let c := if hit.1.isSome then hit.2.delete key else hit.2
      (.deleted network key hit.1.isSome, { s with caches := Function.update s.caches network (some c) })

def handleCacheEntries (r : StatusRequest) (now : ℤ) : Answer × StatusAPI :=
  if r.method = "GET" then s.listCacheEntries r now
  else if r.method = "DELETE" then s.deleteCacheEntry r now
  else (.methodNotAllowed, s)

def authenticate (r : StatusRequest) (pathToken : String) : Bool :=
  s.auth.any (fun auth => (Proxy.authenticateRequest r.header r.query (some auth) pathToken).authenticated)

def serve (basePath : String) (r : StatusRequest) (now : ℤ) : Answer × StatusAPI :=
  match parseStatusRoute basePath r.path with
  | none => (.notFound, s)
  | some (target, pathToken) =>
    if !s.authenticate r pathToken then (.unauthorized, s)
    else if target = "" ∨ target = "/" then (.page, s)
    else if target = "api/cache/entries" then s.handleCacheEntries r now
    else if ["api/health", "api/upstreams", "api/cache", "api/sessions", "api/forks"].contains target then
      (.report target, s)
    else (.notFound, s)

def requests (basePath : String) (l : List (ℤ × StatusRequest)) : List Answer × StatusAPI :=
  play (fun s q => s.serve basePath q.2 q.1) s l

end StatusAPI

def Caches.live (caches : Caches) (id : String) (now : ℤ) : List (Entry Cached) :=
  (caches id).elim [] (fun c => c.lru.filter (fun e => !e.expired now))

namespace StatusRequest

variable (basePath : String) (auth : Option Config.AuthConfig) (r : StatusRequest)

def asks (method : String) : Bool :=
  (parseStatusRoute basePath r.path).any (fun route => route.1 = "api/cache/entries" &&
    auth.any (fun a => (Proxy.credentials a).contains (Proxy.presented r.header r.query route.2))) &&
    r.method = method

def deletes (id key : String) : Bool :=
  r.asks basePath auth "DELETE" && id ≠ "" && key ≠ "" && trimSpace (URL.get r.query "network") = id &&
    trimSpace (URL.get r.query "key") = key

end StatusRequest

section Entries

variable {now later : ℤ}

theorem live_of_le {e : Entry Cached} (hle : now ≤ later) (h : e.expired later = false) :
    e.expired now = false := by
  cases hnow : e.expired now with
  | false => rfl
  | true =>
    rw [LruMap.Refines.expired_mono hnow hle] at h
    cases h

theorem filter_live_of_le (hle : now ≤ later) (l : List (Entry Cached)) :
    (l.filter (fun e => !e.expired now)).filter (fun e => !e.expired later) =
      l.filter (fun e => !e.expired later) := by
  rw [List.filter_filter]
  apply List.filter_congr
  intro e _
  cases hlater : e.expired later with
  | true => rfl
  | false => simp [live_of_le hle hlater]

theorem scan_all (now : ℤ) (n : ℕ) (l : List (Entry Cached)) :
    MemoryStore.scan 0 now n l = (l.filter (fun e => !e.expired now), l.filter (fun e => !e.expired now)) := by
  induction l generalizing n with
  | nil => rfl
  | cons e rest ih =>
    unfold MemoryStore.scan
    cases hexpired : e.expired now <;> simp [hexpired, ih]

theorem entries_fst (c : MemoryStore Cached) (now : ℤ) :
    (c.entries 0 now).1 = c.lru.filter (fun e => !e.expired now) :=
  congrArg Prod.fst (scan_all now 0 c.lru)

theorem entries_lru (c : MemoryStore Cached) (now : ℤ) :
    (c.entries 0 now).2.lru = c.lru.filter (fun e => !e.expired now) :=
  congrArg Prod.snd (scan_all now 0 c.lru)

theorem erased_lru (c : MemoryStore Cached) (key : String) (now : ℤ) :
    (if (c.get key now).1.isSome then (c.get key now).2.delete key else (c.get key now).2).lru = c.others key := by
  unfold MemoryStore.get
  cases hlookup : c.lookup key with
  | none =>
    have hnone := List.find?_eq_none.mp hlookup
    exact (List.filter_eq_self.mpr fun e he => by simpa using hnone e he).symm
  | some e =>
    obtain ⟨-, rfl⟩ := MemoryStore.lookup_some hlookup
    cases hexpired : e.expired now with
    | true => simp [hexpired, MemoryStore.delete]
    | false => simp [hexpired, MemoryStore.delete, MemoryStore.moveToFront, MemoryStore.others]

end Entries

section Caches

variable {caches : Caches} {now later : ℤ} (q : Listing)

theorem live_update (caches : Caches) (id : String) (c : MemoryStore Cached) (id' : String) (now : ℤ) :
    Caches.live (Function.update caches id (some c)) id' now =
      if id' = id then c.lru.filter (fun e => !e.expired now) else caches.live id' now := by
  unfold Caches.live
  by_cases h : id' = id
  · subst h
    simp
  · simp [h]

theorem listFrom_live (hle : now ≤ later) (all : List CacheEntryInfo) (ids : List String) (id : String) :
    (listFrom q now caches all ids).2.live id later = caches.live id later := by
  induction ids generalizing caches all with
  | nil => rfl
  | cons first ids ih =>
    unfold listFrom
    split
    · exact ih all
    · cases hcache : caches first with
      | none => exact ih all
      | some c =>
        have hswept : Caches.live (Function.update caches first (some (c.entries 0 now).2)) id later =
            caches.live id later := by
          rw [live_update, entries_lru, filter_live_of_le hle]
          split_ifs with hid
          · rw [hid, Caches.live, hcache]
            rfl
          · rfl
        dsimp only
        split
        · exact hswept
        · exact (ih _).trans hswept

def found (entries : List (Entry Cached)) (id : String) : List CacheEntryInfo :=
  if q.network ≠ "" ∧ id ≠ q.network then []
  else (entries.filter (fun e => q.key = "" ∨ e.key = q.key)).map (entryInfo q id)

theorem collect_eq (id : String) {all : List CacheEntryInfo} (hall : all.length < maxEntries)
    (l : List (Entry Cached)) : collect q id all l =
      (all ++ (l.filter (fun e => q.key = "" ∨ e.key = q.key)).map (entryInfo q id)).take maxEntries := by
  induction l generalizing all with
  | nil => simp [collect, List.take_of_length_le hall.le]
  | cons e rest ih =>
    unfold collect
    by_cases hskip : q.key ≠ "" ∧ e.key ≠ q.key
    · rw [if_pos hskip, ih hall, List.filter_cons_of_neg (by simpa using hskip)]
    · have hmatch : q.key = "" ∨ e.key = q.key := by tauto
      have happend := List.append_cons all (entryInfo q id e)
        ((rest.filter (fun e => q.key = "" ∨ e.key = q.key)).map (entryInfo q id))
      rw [if_neg hskip, List.filter_cons_of_pos (by simpa using hmatch), List.map_cons, happend]
      dsimp only
      have hlength : (all ++ [entryInfo q id e]).length = all.length + 1 := by simp
      split_ifs with hfull
      · rw [List.take_append_of_le_length (by omega), List.take_of_length_le (by omega)]
      · exact ih (by omega)

theorem listFrom_eq {ids : List String} (hnodup : ids.Nodup) {all : List CacheEntryInfo}
    (hall : all.length < maxEntries) : (listFrom q now caches all ids).1 =
      (all ++ ids.flatMap (fun id => found q (caches.live id now) id)).take maxEntries := by
  induction ids generalizing caches all with
  | nil => simp [listFrom, List.take_of_length_le hall.le]
  | cons id ids ih =>
    obtain ⟨hid, hnodup⟩ := List.nodup_cons.mp hnodup
    unfold listFrom
    rw [List.flatMap_cons]
    by_cases hskip : q.network ≠ "" ∧ id ≠ q.network
    · rw [if_pos hskip, ih hnodup hall, found, if_pos hskip, List.nil_append]
    · rw [if_neg hskip]
      cases hcache : caches id with
      | none =>
        have hnone : found q (caches.live id now) id = [] := by simp [found, Caches.live, hcache]
        rw [hnone, List.nil_append]
        exact ih hnodup hall
      | some c =>
        have hfound : collect q id all (c.entries 0 now).1 =
            (all ++ found q (caches.live id now) id).take maxEntries := by
          rw [collect_eq q id hall, entries_fst, found, if_neg hskip, Caches.live, hcache]
          rfl
        -- The networks that are yet to be visited are not this one.
        have hrest : ids.flatMap (fun i => found q
              (Caches.live (Function.update caches id (some (c.entries 0 now).2)) i now) i) =
            ids.flatMap (fun i => found q (caches.live i now) i) := by
          apply List.flatMap_congr
          intro i hi
          rw [live_update, if_neg (ne_of_mem_of_not_mem hi hid)]
        dsimp only
        rw [hfound, ← List.append_assoc]
        split_ifs with hfull
        · rw [List.length_take] at hfull
          exact (List.take_append_of_le_length (by omega)).symm
        · rw [List.length_take] at hfull
          rw [List.take_of_length_le (by omega), ih hnodup (by omega), hrest]

end Caches

namespace StatusAPI

variable {env : Config.Env} {s : StatusAPI} {basePath : String}

theorem authenticate_eq (hvalid : Config.validateAuth env s.auth "ui.auth" = .ok ()) (r : StatusRequest)
    (pathToken : String) : s.authenticate r pathToken =
      s.auth.any (fun a => (Proxy.credentials a).contains (Proxy.presented r.header r.query pathToken)) := by
  unfold authenticate
  cases hauth : s.auth with
  | none => rfl
  | some auth =>
    rw [hauth] at hvalid
    have hcases := Proxy.authenticateRequest_cases r.header r.query pathToken
      (Config.AuthConfig.Accepted.of_validate hvalid).closed
    rw [Option.any_some, Option.any_some]
    rcases hcases with ⟨key, -, -, hresult, hmem⟩ | ⟨-, hresult, hmem⟩ | ⟨hresult, hmem⟩
    · rw [hresult, List.contains_iff_mem.mpr hmem]
    · rw [hresult, List.contains_iff_mem.mpr hmem]
    · rw [hresult, Bool.eq_false_iff.mpr (fun h => hmem (List.contains_iff_mem.mp h))]
      rfl

theorem serve_cases (hvalid : Config.validateAuth env s.auth "ui.auth" = .ok ()) (r : StatusRequest) (now : ℤ) :
    (r.asks basePath s.auth "GET" = true ∧ r.asks basePath s.auth "DELETE" = false ∧
        s.serve basePath r now = s.listCacheEntries r now) ∨
      (r.asks basePath s.auth "GET" = false ∧ r.asks basePath s.auth "DELETE" = true ∧
        s.serve basePath r now = s.deleteCacheEntry r now) ∨
      (r.asks basePath s.auth "GET" = false ∧ r.asks basePath s.auth "DELETE" = false ∧
        (s.serve basePath r now).2 = s) := by
  unfold serve StatusRequest.asks
  cases parseStatusRoute basePath r.path with
  | none => exact Or.inr (Or.inr ⟨rfl, rfl, rfl⟩)
  | some route =>
    obtain ⟨target, pathToken⟩ := route
    dsimp only [Option.any_some]
    rw [← authenticate_eq hvalid]
    cases s.authenticate r pathToken with
    | false => simp
    | true =>
      by_cases htarget : target = "api/cache/entries"
      · subst htarget
        unfold handleCacheEntries
        by_cases hget : r.method = "GET"
        · simp [hget]
        · by_cases hdelete : r.method = "DELETE"
          · simp [hdelete]
          · simp [hget, hdelete]
      · have hasks : ∀ method : String,
            (decide (target = "api/cache/entries") && true && decide (r.method = method)) = false := by
          simp [htarget]
        refine Or.inr (Or.inr ⟨hasks _, hasks _, ?_⟩)
        simp only [htarget, Bool.not_true, Bool.false_eq_true, if_false]
        split_ifs <;> rfl

theorem deleteCacheEntry_kept (r : StatusRequest) (now : ℤ) :
    (s.deleteCacheEntry r now).2.ids = s.ids ∧ (s.deleteCacheEntry r now).2.auth = s.auth := by
  unfold deleteCacheEntry
  dsimp only
  split_ifs
  · exact ⟨rfl, rfl⟩
  · split <;> exact ⟨rfl, rfl⟩
  · exact ⟨rfl, rfl⟩

theorem serve_kept (basePath : String) (hvalid : Config.validateAuth env s.auth "ui.auth" = .ok ())
    (r : StatusRequest) (now : ℤ) :
    (s.serve basePath r now).2.ids = s.ids ∧ (s.serve basePath r now).2.auth = s.auth := by
  rcases serve_cases hvalid r now with ⟨-, -, h⟩ | ⟨-, -, h⟩ | ⟨-, -, h⟩
  · rw [h]
    exact ⟨rfl, rfl⟩
  · rw [h]
    exact deleteCacheEntry_kept r now
  · rw [h]
    exact ⟨rfl, rfl⟩

theorem deleteCacheEntry_live {id : String} (hid : id ∈ s.ids) {r : StatusRequest}
    (hasks : r.asks basePath s.auth "DELETE" = true) (now later : ℤ) :
    (s.deleteCacheEntry r now).2.caches.live id later =
      (s.caches.live id later).filter (fun e => !r.deletes basePath s.auth id e.key) := by
  unfold deleteCacheEntry StatusRequest.deletes
  rw [hasks]
  generalize trimSpace (URL.get r.query "network") = network
  generalize trimSpace (URL.get r.query "key") = key
  dsimp only
  have hother : (network = id → network = "" ∨ key = "" ∨ s.caches id = none) → s.caches.live id later =
      (s.caches.live id later).filter (fun e => !(true && decide (id ≠ "") && decide (e.key ≠ "") &&
        decide (network = id) && decide (key = e.key))) := by
    intro h
    refine (List.filter_eq_self.mpr fun e he => ?_).symm
    by_contra hbad
    simp only [Bool.not_eq_true, Bool.not_eq_false', Bool.and_eq_true, decide_eq_true_eq, true_and] at hbad
    obtain ⟨⟨⟨hne, hkey⟩, rfl⟩, rfl⟩ := hbad
    rcases h rfl with h | h | h
    · exact hne h
    · exact hkey h
    · rw [Caches.live, h] at he
      cases he
  by_cases hrequired : network = "" ∨ key = ""
  · rw [if_pos hrequired]
    exact hother fun _ => by tauto
  rw [if_neg hrequired]
  by_cases hnetwork : network ∉ s.ids
  · rw [if_pos hnetwork]
    exact hother fun h => (hnetwork (h ▸ hid)).elim
  rw [if_neg hnetwork]
  cases hcache : s.caches network with
  | none => exact hother fun h => Or.inr (Or.inr (h ▸ hcache))
  | some c =>
    dsimp only
    by_cases hsame : network = id
    · subst hsame
      rw [live_update, if_pos rfl, erased_lru, MemoryStore.others, Caches.live, hcache, Option.elim_some,
        List.filter_comm]
      apply List.filter_congr
      intro e _
      rw [not_or] at hrequired
      by_cases hkey : key = e.key
      · subst hkey
        simp [hrequired.1, hrequired.2]
      · simp [hkey, Ne.symm hkey]
    · rw [live_update, if_neg (Ne.symm hsame)]
      exact hother fun h => (hsame h).elim

theorem serve_live (hvalid : Config.validateAuth env s.auth "ui.auth" = .ok ()) {id : String} (hid : id ∈ s.ids)
    (r : StatusRequest) {now later : ℤ} (hle : now ≤ later) :
    (s.serve basePath r now).2.caches.live id later =
      (s.caches.live id later).filter (fun e => !r.deletes basePath s.auth id e.key) := by
  have hnone : r.asks basePath s.auth "DELETE" = false →
      (s.caches.live id later).filter (fun e => !r.deletes basePath s.auth id e.key) = s.caches.live id later := by
    intro h
    apply List.filter_eq_self.mpr
    intro e _
    simp [StatusRequest.deletes, h]
  rcases serve_cases hvalid r now with ⟨-, hasks, h⟩ | ⟨-, hasks, h⟩ | ⟨-, hasks, h⟩
  · rw [h, hnone hasks]
    exact listFrom_live r.listing hle [] s.ids id
  · rw [h]
    exact deleteCacheEntry_live hid hasks now later
  · rw [h, hnone hasks]

def kept (s : StatusAPI) (basePath : String) (l : List (ℤ × StatusRequest)) (now : ℤ) (id : String) :
    List (Entry Cached) :=
  (s.caches.live id now).filter (fun e => l.all (fun q => !q.2.deletes basePath s.auth id e.key))

theorem requests_live (basePath : String) (hvalid : Config.validateAuth env s.auth "ui.auth" = .ok ())
    {l : List (ℤ × StatusRequest)} {now : ℤ} (hnow : ∀ q ∈ l, q.1 ≤ now) :
    (s.requests basePath l).2.ids = s.ids ∧ (s.requests basePath l).2.auth = s.auth ∧
      ∀ id ∈ s.ids, (s.requests basePath l).2.caches.live id now = s.kept basePath l now id := by
  induction l generalizing s with
  | nil => exact ⟨rfl, rfl, fun id _ => (List.filter_eq_self.mpr fun _ _ => rfl).symm⟩
  | cons q l ih =>
    obtain ⟨hq, hl⟩ := List.forall_mem_cons.mp hnow
    obtain ⟨hids, hauth⟩ := serve_kept basePath hvalid q.2 q.1
    obtain ⟨hids', hauth', hlive⟩ := ih (s := (s.serve basePath q.2 q.1).2) (hauth.symm ▸ hvalid) hl
    refine ⟨hids'.trans hids, hauth'.trans hauth, fun id hid => ?_⟩
    refine (hlive id (hids.symm ▸ hid)).trans ?_
    unfold kept
    rw [hauth, serve_live hvalid hid q.2 hq, List.filter_filter]
    apply List.filter_congr
    intro e _
    rw [List.all_cons, Bool.and_comm]

/-- From caches in memory the requests delete what those with a configured secret name, and nothing else, and they
leave the rest in the order of its use. A listing then shows the first of what is left. -/
theorem dashboard_exact (hvalid : Config.validateAuth env s.auth "ui.auth" = .ok ()) {l : List (ℤ × StatusRequest)}
    {now : ℤ} (hnow : ∀ q ∈ l, q.1 ≤ now) :
    (∀ id ∈ s.ids, (s.requests basePath l).2.caches.live id now = s.kept basePath l now id) ∧
      ∀ r : StatusRequest, r.asks basePath s.auth "GET" = true →
        ((s.requests basePath l).2.serve basePath r now).1 =
          let entries := (s.ids.flatMap (fun id => found r.listing (s.kept basePath l now id) id)).take maxEntries
          .listed entries.length (stableSort entryLess entries) := by
  obtain ⟨hids, hauth, hlive⟩ := requests_live basePath hvalid hnow
  refine ⟨hlive, fun r hasks => ?_⟩
  generalize (s.requests basePath l).2 = t at hids hauth hlive
  have hlisted : (listFrom r.listing now t.caches [] t.ids).1 =
      (s.ids.flatMap (fun id => found r.listing (s.kept basePath l now id) id)).take maxEntries := by
    rw [listFrom_eq r.listing t.nodup (by decide), List.nil_append, hids]
    apply congrArg (List.take maxEntries)
    apply List.flatMap_congr
    intro id hid
    rw [hlive id hid]
  rw [← hauth] at hvalid hasks
  rcases serve_cases hvalid r now with ⟨-, -, h⟩ | ⟨hget, -, -⟩ | ⟨hget, -, -⟩
  · rw [h, listCacheEntries, hlisted]
  · rw [hget] at hasks
    cases hasks
  · rw [hget] at hasks
    cases hasks

def genesisKey : String := "GET:/eth/v1/beacon/genesis"

def dashboard : StatusAPI where
  ids := ["mainnet"]
  caches := fun id => if id = "mainnet" then
    some ((MemoryStore.newMemoryStore 8).set ⟨genesisKey, ⟨⟨200, [], "genesis"⟩, 0⟩, none⟩) else none
  auth := some { secret := "s3cret" }
  nodup := List.nodup_singleton _

def deletion (secret : String) : StatusRequest where
  method := "DELETE"
  path := "/ui/api/cache/entries"
  header := [("X-Api-Key", secret)]
  query := [("network", "mainnet"), ("key", genesisKey)]

theorem dashboard_exact_deletion :
    ((dashboard.requests "/ui" [(1, deletion "guess")]).2.caches.live "mainnet" 5).map Entry.key = [genesisKey] ∧
      (dashboard.requests "/ui" [(1, deletion "guess"), (2, deletion "s3cret")]).2.caches.live "mainnet" 5 = [] := by
  have hvalid : Config.validateAuth literalEnv dashboard.auth "ui.auth" = .ok () := by decide +kernel
  have hmem : "mainnet" ∈ dashboard.ids := List.mem_singleton.mpr rfl
  have hguess : ∀ q ∈ [((1 : ℤ), deletion "guess")], q.1 ≤ 5 := by simp
  have hboth : ∀ q ∈ [((1 : ℤ), deletion "guess"), (2, deletion "s3cret")], q.1 ≤ 5 := by simp
  constructor
  · rw [(dashboard_exact hvalid hguess).1 "mainnet" hmem]
    decide +kernel
  · rw [(dashboard_exact hvalid hboth).1 "mainnet" hmem]
    decide +kernel

end StatusAPI

end EBeacon.API
