import Mathlib.Data.Int.Notation
import Mathlib.Data.List.Nodup

namespace EBeacon.Cache

-- a cached response, which never expires when `expires` is `none`
structure Entry (ρ : Type) where
  key : String
  content : ρ
  expires : Option ℤ

def Entry.expired {ρ : Type} (e : Entry ρ) (now : ℤ) : Bool := e.expires.any (· < now)

/-- The recency list, most recent first. The map of the store holds the elements of the list by
their keys, so that the list determines it. -/
structure MemoryStore (ρ : Type) where
  lru : List (Entry ρ)
  maxSize : ℕ
  nodup : (lru.map Entry.key).Nodup
  positive : 0 < maxSize

namespace MemoryStore

variable {ρ : Type}

def newMemoryStore (maxSize : ℤ) : MemoryStore ρ where
  lru := []
  maxSize := if maxSize ≤ 0 then 2048 else maxSize.toNat
  nodup := List.nodup_nil
  positive := by split_ifs <;> omega

def lookup (m : MemoryStore ρ) (key : String) : Option (Entry ρ) := m.lru.find? (fun e => e.key = key)

def others (m : MemoryStore ρ) (key : String) : List (Entry ρ) := m.lru.filter (fun e => e.key ≠ key)

theorem nodup_filter (m : MemoryStore ρ) (p : Entry ρ → Bool) :
    ((m.lru.filter p).map Entry.key).Nodup :=
  m.nodup.sublist (List.filter_sublist.map _)

theorem nodup_front (m : MemoryStore ρ) (e : Entry ρ) : ((e :: m.others e.key).map Entry.key).Nodup := by
  rw [List.map_cons, List.nodup_cons]
  refine ⟨?_, m.nodup_filter _⟩
  simp [others]

def delete (m : MemoryStore ρ) (key : String) : MemoryStore ρ :=
  { m with lru := m.others key, nodup := m.nodup_filter _ }

def moveToFront (m : MemoryStore ρ) (e : Entry ρ) : MemoryStore ρ :=
  { m with lru := e :: m.others e.key, nodup := m.nodup_front e }

def get (m : MemoryStore ρ) (key : String) (now : ℤ) : Option (Entry ρ) × MemoryStore ρ :=
  match m.lookup key with
  | none => (none, m)
  | some e => if e.expired now then (none, m.delete key) else (some e, m.moveToFront e)

def evict (m : MemoryStore ρ) : List (Entry ρ) := m.lru.take (m.maxSize - 1)

theorem nodup_evict (m : MemoryStore ρ) {e : Entry ρ} (h : m.lookup e.key = none) :
    ((e :: m.evict).map Entry.key).Nodup := by
  rw [List.map_cons, List.nodup_cons]
  refine ⟨fun hin => ?_, m.nodup.sublist ((List.take_sublist _ _).map _)⟩
  obtain ⟨e', he', hkey⟩ := List.mem_map.mp hin
  have hfind := List.find?_eq_none.mp h e' (List.mem_of_mem_take he')
  simp [hkey] at hfind

def set (m : MemoryStore ρ) (e : Entry ρ) : MemoryStore ρ :=
  match h : m.lookup e.key with
  | some _ => m.moveToFront e
  | none => { m with lru := e :: m.evict, nodup := m.nodup_evict h }

def sweep (m : MemoryStore ρ) (now : ℤ) : MemoryStore ρ :=
  { m with lru := m.lru.filter (fun e => !e.expired now), nodup := m.nodup_filter _ }

def promote (fn : String → Bool) (e : Entry ρ) : Entry ρ :=
  if fn e.key then { e with expires := none } else e

theorem promote_key (fn : String → Bool) (e : Entry ρ) : (promote fn e).key = e.key := by
  unfold promote
  split_ifs <;> rfl

def promoteIf (m : MemoryStore ρ) (fn : String → Bool) (now : ℤ) : MemoryStore ρ :=
  { m.sweep now with
    lru := (m.sweep now).lru.map (promote fn)
    nodup := by
      have hkeys : ((m.sweep now).lru.map (promote fn)).map Entry.key =
          (m.sweep now).lru.map Entry.key := by
        rw [List.map_map]
        exact List.map_congr_left (fun e _ => promote_key fn e)
      rw [hkeys]
      exact (m.sweep now).nodup }

def keys (m : MemoryStore ρ) (now : ℤ) : List String × MemoryStore ρ :=
  ((m.sweep now).lru.map Entry.key, m.sweep now)

def purgeCollect (m : MemoryStore ρ) (fn : String → Bool) (now : ℤ) : List String × MemoryStore ρ :=
  let (keys, m) := m.keys now
  (keys.filter fn, (keys.filter fn).foldl delete m)

def promoted (m : MemoryStore ρ) (fn : String → Bool) (now : ℤ) : ℕ :=
  m.lru.countP (fun e => !e.expired now && e.expires.isSome && fn e.key)

def scan (limit now : ℤ) (n : ℕ) : List (Entry ρ) → List (Entry ρ) × List (Entry ρ)
  | [] => ([], [])
  | e :: rest =>
    if e.expired now then scan limit now n rest
    else if 0 < limit ∧ limit ≤ n + 1 then ([e], e :: rest)
    else (e :: (scan limit now (n + 1) rest).1, e :: (scan limit now (n + 1) rest).2)

theorem scan_sublist (limit now : ℤ) (n : ℕ) (l : List (Entry ρ)) :
    (scan limit now n l).2.Sublist l := by
  induction l generalizing n with
  | nil => exact List.Sublist.slnil
  | cons e rest ih =>
    unfold scan
    split_ifs
    · exact (ih n).cons e
    · exact List.Sublist.refl _
    · exact (ih (n + 1)).cons_cons e

def entries (m : MemoryStore ρ) (limit now : ℤ) : List (Entry ρ) × MemoryStore ρ :=
  ((scan limit now 0 m.lru).1,
    { m with lru := (scan limit now 0 m.lru).2, nodup := m.nodup.sublist ((scan_sublist _ _ _ _).map _) })

theorem mem_delete {m : MemoryStore ρ} {key : String} {e : Entry ρ} :
    e ∈ (m.delete key).lru ↔ e ∈ m.lru ∧ e.key ≠ key := by
  simp [delete, others]

theorem mem_moveToFront {m : MemoryStore ρ} {e e' : Entry ρ} :
    e' ∈ (m.moveToFront e).lru ↔ e' = e ∨ e' ∈ m.lru ∧ e'.key ≠ e.key := by
  simp [moveToFront, others]

theorem lookup_some {m : MemoryStore ρ} {key : String} {e : Entry ρ} (h : m.lookup key = some e) :
    e ∈ m.lru ∧ e.key = key := by
  have hkey := List.find?_some h
  exact ⟨List.mem_of_find?_eq_some h, by simpa using hkey⟩

theorem lookup_of_mem {m : MemoryStore ρ} {e : Entry ρ} (h : e ∈ m.lru) : m.lookup e.key = some e := by
  cases hl : m.lookup e.key with
  | none =>
    have hne := List.find?_eq_none.mp hl e h
    simp at hne
  | some e' =>
    obtain ⟨hin, hkey⟩ := lookup_some hl
    rw [List.inj_on_of_nodup_map m.nodup hin h hkey]

theorem lookup_none {m : MemoryStore ρ} {key : String} :
    m.lookup key = none ↔ key ∉ m.lru.map Entry.key := by
  simp [lookup, List.find?_eq_none]

theorem others_eq {m : MemoryStore ρ} {e : Entry ρ} {front rest : List (Entry ρ)}
    (h : m.lru = front ++ e :: rest) : m.others e.key = front ++ rest := by
  have hnodup := m.nodup
  rw [h, List.map_append, List.map_cons] at hnodup
  have hkey := (List.nodup_cons.mp ((List.perm_middle.nodup_iff).mp hnodup)).1
  rw [← List.map_append] at hkey
  have hne : ∀ e' ∈ front ++ rest, (decide (e'.key ≠ e.key)) = true := by
    intro e' he'
    rw [decide_eq_true_iff]
    intro hsame
    exact hkey (hsame ▸ List.mem_map_of_mem he')
  rw [others, h, List.filter_append, List.filter_cons_of_neg (by simp), ← List.filter_append,
    List.filter_eq_self.mpr hne]

theorem get_entry {m : MemoryStore ρ} {key : String} {now : ℤ} {e : Entry ρ}
    (h : (m.get key now).1 = some e) : e ∈ m.lru ∧ e.key = key := by
  unfold get at h
  cases hl : m.lookup key with
  | none => simp [hl] at h
  | some e' =>
    rw [hl] at h
    dsimp only at h
    split_ifs at h
    cases h
    exact lookup_some hl

theorem mem_get {m : MemoryStore ρ} {key : String} {now : ℤ} {e : Entry ρ}
    (h : e ∈ (m.get key now).2.lru) : e ∈ m.lru := by
  unfold get at h
  cases hl : m.lookup key with
  | none => simpa [hl] using h
  | some e' =>
    rw [hl] at h
    dsimp only at h
    split_ifs at h
    · exact (mem_delete.mp h).1
    · rcases mem_moveToFront.mp h with rfl | hold
      · exact (lookup_some hl).1
      · exact hold.1

theorem mem_set {m : MemoryStore ρ} {e e' : Entry ρ} (h : e' ∈ (m.set e).lru) :
    e' = e ∨ e' ∈ m.lru := by
  unfold set at h
  split at h
  · exact (mem_moveToFront.mp h).imp id And.left
  · exact (List.mem_cons.mp h).imp id List.mem_of_mem_take

theorem set_of_some {m : MemoryStore ρ} {e e' : Entry ρ} (h : m.lookup e.key = some e') :
    m.set e = m.moveToFront e := by
  unfold set
  split
  · rfl
  · rename_i hnone
    rw [h] at hnone
    cases hnone

theorem set_of_none {m : MemoryStore ρ} {e : Entry ρ} (h : m.lookup e.key = none) :
    (m.set e).lru = e :: m.evict ∧ (m.set e).maxSize = m.maxSize := by
  unfold set
  split
  · rename_i hsome
    rw [h] at hsome
    cases hsome
  · exact ⟨rfl, rfl⟩

theorem set_front (m : MemoryStore ρ) (e : Entry ρ) : e ∈ (m.set e).lru := by
  unfold set
  split <;> exact List.mem_cons_self

theorem mem_sweep {m : MemoryStore ρ} {now : ℤ} {e : Entry ρ} (h : e ∈ (m.sweep now).lru) :
    e ∈ m.lru :=
  (List.mem_filter.mp h).1

theorem mem_promoteIf {m : MemoryStore ρ} {fn : String → Bool} {now : ℤ} {e : Entry ρ}
    (h : e ∈ (m.promoteIf fn now).lru) :
    ∃ e' ∈ m.lru, e.key = e'.key ∧ e.content = e'.content := by
  obtain ⟨e', he', rfl⟩ := List.mem_map.mp h
  refine ⟨e', mem_sweep he', promote_key fn e', ?_⟩
  unfold promote
  split_ifs <;> rfl

theorem mem_foldl_delete {keys : List String} {m : MemoryStore ρ} {e : Entry ρ} :
    e ∈ (keys.foldl delete m).lru ↔ e ∈ m.lru ∧ e.key ∉ keys := by
  induction keys generalizing m with
  | nil => simp
  | cons key keys ih =>
    rw [List.foldl_cons, ih, mem_delete, List.mem_cons, not_or, and_assoc]

theorem mem_purgeCollect_iff {m : MemoryStore ρ} {fn : String → Bool} {now : ℤ} {e : Entry ρ} :
    e ∈ (m.purgeCollect fn now).2.lru ↔ e ∈ m.lru ∧ e.expired now = false ∧ fn e.key = false := by
  have hlive : e ∈ (m.sweep now).lru ↔ e ∈ m.lru ∧ e.expired now = false := by
    simp [sweep]
  constructor
  · intro h
    obtain ⟨hin, hkey⟩ := mem_foldl_delete.mp h
    refine ⟨(hlive.mp hin).1, (hlive.mp hin).2, ?_⟩
    by_contra hfn
    refine hkey (List.mem_filter.mpr ⟨List.mem_map_of_mem hin, ?_⟩)
    simpa using hfn
  · rintro ⟨hin, hexpired, hfn⟩
    refine mem_foldl_delete.mpr ⟨hlive.mpr ⟨hin, hexpired⟩, fun hkey => ?_⟩
    rw [(List.mem_filter.mp hkey).2] at hfn
    cases hfn

theorem mem_purgeCollect {m : MemoryStore ρ} {fn : String → Bool} {now : ℤ} {e : Entry ρ}
    (h : e ∈ (m.purgeCollect fn now).2.lru) : e ∈ m.lru ∧ fn e.key = false :=
  ⟨(mem_purgeCollect_iff.mp h).1, (mem_purgeCollect_iff.mp h).2.2⟩

end MemoryStore

inductive StoreOp (ρ : Type)
  | get (key : String)
  | set (entry : Entry ρ)
  | delete (key : String)
  | promoteIf (fn : String → Bool)
  | keys
  | entries (limit : ℤ)
  | len

inductive StoreOutput (ρ : Type)
  | entry (e : Option (Entry ρ))
  | done
  | count (n : ℕ)
  | keys (keys : List String)
  | entries (entries : List (Entry ρ))

def MemoryStore.step {ρ : Type} (m : MemoryStore ρ) : ℤ × StoreOp ρ → StoreOutput ρ × MemoryStore ρ
  | (now, .get key) => (.entry (m.get key now).1, (m.get key now).2)
  | (_, .set entry) => (.done, m.set entry)
  | (_, .delete key) => (.done, m.delete key)
  | (now, .promoteIf fn) => (.count (m.promoted fn now), m.promoteIf fn now)
  | (now, .keys) => (.keys (m.keys now).1, (m.keys now).2)
  | (now, .entries limit) => (.entries (m.entries limit now).1, (m.entries limit now).2)
  | (_, .len) => (.count m.lru.length, m)

end EBeacon.Cache
