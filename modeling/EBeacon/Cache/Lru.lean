import EBeacon.Cache.LinkedStore
import EBeacon.Library.Recency

/-!
A bounded map with expiry that evicts the least recently used entries, and that the memory store
behaves as this map does.
-/

namespace EBeacon.Cache

/-- `entry key` is the entry that was last set for the key and not deleted or evicted since.
`resident` are the keys that take up room, and `used` says when a key was last set, or got with
success. -/
structure LruMap (ρ : Type) where
  entry : String → Option (Entry ρ)
  resident : Finset String
  used : String → ℕ
  tick : ℕ
  maxSize : ℕ

namespace LruMap

variable {ρ : Type}

def empty (maxSize : ℕ) : LruMap ρ := ⟨fun _ => none, ∅, fun _ => 0, 0, maxSize⟩

def live (a : LruMap ρ) (now : ℤ) (key : String) : Option (Entry ρ) :=
  (a.entry key).filter (fun e => !e.expired now)

def liveKeys (a : LruMap ρ) (now : ℤ) : Finset String :=
  a.resident.filter (fun key => (a.live now key).isSome)

def fresher (a : LruMap ρ) (keys : Finset String) (key : String) : ℕ :=
  (keys.filter (fun k => a.used key < a.used k)).card

def victims (a : LruMap ρ) : Finset String :=
  a.resident.filter (fun key => a.maxSize ≤ a.fresher a.resident key + 1)

def touch (a : LruMap ρ) (key : String) : LruMap ρ :=
  { a with used := Function.update a.used key (a.tick + 1), tick := a.tick + 1 }

def put (a : LruMap ρ) (e : Entry ρ) : LruMap ρ :=
  { a with entry := Function.update a.entry e.key (some e), resident := insert e.key a.resident }

def drop (a : LruMap ρ) (keys : Finset String) : LruMap ρ :=
  { a with
    entry := fun key => if key ∈ keys then none else a.entry key
    resident := a.resident \ keys }

def next (a : LruMap ρ) : ℤ × StoreOp ρ → LruMap ρ
  | (now, .get key) =>
    if (a.live now key).isSome then a.touch key else { a with resident := a.resident.erase key }
  | (_, .set e) =>
    if e.key ∈ a.resident then (a.put e).touch e.key else ((a.drop a.victims).put e).touch e.key
  | (_, .delete key) => a.drop {key}
  | (now, .promoteIf fn) =>
    { a with
      entry := fun key => (a.entry key).map (fun e => if e.expired now then e else MemoryStore.promote fn e)
      resident := a.liveKeys now }
  | (now, .keys) => { a with resident := a.liveKeys now }
  | (now, .entries limit) =>
    { a with resident := a.resident.filter (fun key =>
        (a.live now key).isSome ∨ 0 < limit ∧ limit ≤ a.fresher (a.liveKeys now) key) }
  | (_, .len) => a

theorem next_maxSize (a : LruMap ρ) (input : ℤ × StoreOp ρ) : (a.next input).maxSize = a.maxSize := by
  obtain ⟨now, op⟩ := input
  cases op with
  | get key =>
    dsimp only [next]
    split_ifs <;> rfl
  | set e =>
    dsimp only [next]
    split_ifs <;> rfl
  | _ => rfl

def Listed (a : LruMap ρ) (now : ℤ) (keys : List String) : Prop :=
  (∀ key, key ∈ keys ↔ (a.live now key).isSome) ∧ keys.Pairwise (fun k k' => a.used k' < a.used k)

def Allows (a : LruMap ρ) : ℤ × StoreOp ρ → StoreOutput ρ → Prop
  | (now, .get key), .entry e => e = a.live now key
  | (_, .set _), .done => True
  | (_, .delete _), .done => True
  | (now, .promoteIf fn), .count n =>
    n = ((a.liveKeys now).filter (fun key =>
      (a.entry key).any (fun e => e.expires.isSome) ∧ fn key)).card
  | (now, .keys), .keys keys => a.Listed now keys
  | (now, .entries limit), .entries entries => ∃ keys, a.Listed now keys ∧
    entries.map some = (if 0 < limit then keys.take limit.toNat else keys).map a.entry
  | (_, .len), .count n => n = a.resident.card
  | _, _ => False

def Accepts : LruMap ρ → List (ℤ × StoreOp ρ) → List (StoreOutput ρ) → Prop
  | _, [], [] => True
  | a, input :: inputs, output :: outputs => a.Allows input output ∧ (a.next input).Accepts inputs outputs
  | _, _, _ => False

theorem scan_collected (limit now : ℤ) (n : ℕ) (l : List (Entry ρ)) (hn : 0 < limit → n < limit) :
    (MemoryStore.scan limit now n l).1 =
      if 0 < limit then (l.filter (fun e => !e.expired now)).take (limit.toNat - n)
      else l.filter (fun e => !e.expired now) := by
  induction l generalizing n with
  | nil => simp [MemoryStore.scan]
  | cons e rest ih =>
    unfold MemoryStore.scan
    by_cases hexpired : e.expired now = true
    · rw [if_pos hexpired, List.filter_cons_of_neg (by simpa using hexpired)]
      exact ih n hn
    · rw [if_neg hexpired, List.filter_cons_of_pos (by simpa using hexpired)]
      by_cases hpos : 0 < limit
      · obtain ⟨k, hk⟩ : ∃ k, limit.toNat - n = k + 1 := ⟨limit.toNat - n - 1, by omega⟩
        rw [if_pos hpos, hk, List.take_succ_cons]
        split_ifs with hstop
        · obtain rfl : k = 0 := by omega
          rw [List.take_zero]
        · have hrest := ih (n + 1) (fun _ => by push_cast; omega)
          rw [if_pos hpos, show limit.toNat - (n + 1) = k by omega] at hrest
          exact congrArg (List.cons e) hrest
      · have hrest := ih (n + 1) (fun h => absurd h hpos)
        rw [if_neg hpos] at hrest
        rw [if_neg hpos, if_neg (fun hstop => hpos hstop.1)]
        exact congrArg (List.cons e) hrest

theorem scan_kept (rank : Entry ρ → ℕ) (limit now : ℤ) (n : ℕ) {l : List (Entry ρ)}
    (h : l.Pairwise (fun e e' => rank e' < rank e)) (hn : 0 < limit → n < limit) :
    (MemoryStore.scan limit now n l).2 = l.filter (fun e => !e.expired now ||
      decide (0 < limit ∧ limit ≤ n + (l.filter (fun e => !e.expired now)).countP
        (fun e' => rank e < rank e'))) := by
  induction l generalizing n with
  | nil => rfl
  | cons e rest ih =>
    obtain ⟨hfirst, hrest⟩ := List.pairwise_cons.mp h
    have hself : ((e :: rest).filter (fun e => !e.expired now)).countP (fun e' => rank e < rank e') = 0 := by
      rw [List.countP_eq_zero]
      intro e' he'
      rcases List.mem_cons.mp (List.mem_of_mem_filter he') with rfl | he'
      · simp
      · simpa using (hfirst e' he').le
    unfold MemoryStore.scan
    by_cases hexpired : e.expired now = true
    · have hdrop : (e :: rest).filter (fun e => !e.expired now) = rest.filter (fun e => !e.expired now) :=
        List.filter_cons_of_neg (by simpa using hexpired)
      rw [if_pos hexpired, List.filter_cons_of_neg, hdrop]
      · exact ih n hrest hn
      · rw [hself]
        simp only [hexpired, Bool.not_true, Bool.false_or, decide_eq_true_iff]
        omega
    · have hcount : ∀ e' ∈ rest, ((e :: rest).filter (fun e => !e.expired now)).countP
          (fun e'' => rank e' < rank e'') =
          (rest.filter (fun e => !e.expired now)).countP (fun e'' => rank e' < rank e'') + 1 := by
        intro e' he'
        rw [List.filter_cons_of_pos (by simpa using hexpired),
          List.countP_cons_of_pos (by simpa using hfirst e' he')]
      rw [if_neg hexpired, List.filter_cons_of_pos (by simp [hexpired])]
      split_ifs with hstop
      · refine congrArg (List.cons e) (List.filter_eq_self.mpr (fun e' he' => ?_)).symm
        rw [hcount e' he', Bool.or_eq_true, decide_eq_true_iff]
        right
        push_cast
        omega
      · refine congrArg (List.cons e) ?_
        rw [ih (n + 1) hrest (fun hpos => by push_cast; omega)]
        refine List.filter_congr (fun e' he' => ?_)
        rw [hcount e' he']
        refine congrArg (fun b => !e'.expired now || b) (decide_eq_decide.mpr ?_)
        push_cast
        omega

structure Refines (now : ℤ) (s : MemoryStore ρ) (a : LruMap ρ) : Prop where
  maxSize : s.maxSize = a.maxSize
  resident : (s.lru.map Entry.key).toFinset = a.resident
  entry : ∀ e ∈ s.lru, a.entry e.key = some e
  gone : ∀ key e, a.entry key = some e → key ∉ a.resident → e.expired now = true
  recent : s.lru.Pairwise (fun e e' => a.used e'.key < a.used e.key)
  ticks : ∀ e ∈ s.lru, a.used e.key ≤ a.tick
  bound : s.lru.length ≤ s.maxSize

theorem refines_empty (now maxSize : ℤ) :
    Refines now (.newMemoryStore maxSize : MemoryStore ρ) (empty (if maxSize ≤ 0 then 2048 else maxSize.toNat)) where
  maxSize := rfl
  resident := rfl
  entry := nofun
  gone := nofun
  recent := List.Pairwise.nil
  ticks := nofun
  bound := Nat.zero_le _

namespace Refines

variable {now now' : ℤ} {s t : MemoryStore ρ} {a : LruMap ρ}

theorem mem_resident (h : Refines now s a) {key : String} :
    key ∈ a.resident ↔ key ∈ s.lru.map Entry.key := by
  rw [← h.resident, List.mem_toFinset]

theorem expired_mono {e : Entry ρ} (h : e.expired now = true) (hle : now ≤ now') : e.expired now' = true := by
  unfold Entry.expired at h ⊢
  cases hexpires : e.expires with
  | none =>
    rw [hexpires] at h
    cases h
  | some t =>
    rw [hexpires] at h
    simp only [Option.any_some, decide_eq_true_iff] at h ⊢
    omega

theorem live_of_mem (h : Refines now s a) {e : Entry ρ} (he : e ∈ s.lru) :
    a.live now' e.key = if e.expired now' then none else some e := by
  rw [live, h.entry e he]
  cases hexpired : e.expired now' <;> simp [Option.filter, hexpired]

theorem live_of_notMem (h : Refines now s a) (hle : now ≤ now') {key : String}
    (hkey : key ∉ s.lru.map Entry.key) : a.live now' key = none := by
  rw [live]
  cases hentry : a.entry key with
  | none => rfl
  | some e =>
    have hexpired := expired_mono (h.gone key e hentry (mt h.mem_resident.mp hkey)) hle
    simp [Option.filter, hexpired]

theorem live_isSome (h : Refines now s a) (hle : now ≤ now') {key : String} :
    (a.live now' key).isSome ↔ key ∈ (s.lru.filter (fun e => !e.expired now')).map Entry.key := by
  by_cases hkey : key ∈ s.lru.map Entry.key
  · obtain ⟨e, he, rfl⟩ := List.mem_map.mp hkey
    rw [h.live_of_mem he]
    constructor
    · intro hsome
      refine List.mem_map_of_mem (List.mem_filter.mpr ⟨he, ?_⟩)
      by_contra hexpired
      simp_all
    · intro hin
      obtain ⟨e', he', hsame⟩ := List.mem_map.mp hin
      obtain ⟨hin', hlive⟩ := List.mem_filter.mp he'
      obtain rfl := List.inj_on_of_nodup_map s.nodup hin' he hsame
      simpa using hlive
  · rw [h.live_of_notMem hle hkey]
    refine iff_of_false nofun (fun hin => hkey ?_)
    exact (List.filter_sublist.map Entry.key).subset hin

theorem liveKeys_eq (h : Refines now s a) (hle : now ≤ now') :
    a.liveKeys now' = ((s.lru.filter (fun e => !e.expired now')).map Entry.key).toFinset := by
  ext key
  rw [liveKeys, Finset.mem_filter, List.mem_toFinset, h.live_isSome hle, h.mem_resident]
  exact and_iff_right_of_imp (fun hin => (List.filter_sublist.map Entry.key).subset hin)

theorem fresher_eq (h : Refines now s a) (key : String) :
    a.fresher a.resident key = s.lru.countP (fun e => a.used key < a.used e.key) := by
  rw [fresher, ← h.resident, Recency.card_filter_toFinset s.nodup, List.countP_map]
  rfl

theorem sweep (h : Refines now s a) (hle : now ≤ now') (hsub : t.lru.Sublist s.lru)
    (hmax : t.maxSize = s.maxSize) (hgone : ∀ e ∈ s.lru, e ∉ t.lru → e.expired now' = true) :
    Refines now' t { a with resident := (t.lru.map Entry.key).toFinset } where
  maxSize := hmax.trans h.maxSize
  resident := rfl
  entry e he := h.entry e (hsub.subset he)
  recent := h.recent.sublist hsub
  ticks e he := h.ticks e (hsub.subset he)
  bound := by
    rw [hmax]
    exact hsub.length_le.trans h.bound
  gone := by
    intro key e hentry hkey
    by_cases hin : key ∈ s.lru.map Entry.key
    · obtain ⟨e', he', rfl⟩ := List.mem_map.mp hin
      obtain rfl := Option.some.inj ((h.entry e' he').symm.trans hentry)
      refine hgone e' he' (fun hstays => hkey ?_)
      exact List.mem_toFinset.mpr (List.mem_map_of_mem hstays)
    · exact expired_mono (h.gone key e hentry (mt h.mem_resident.mp hin)) hle

theorem drop (h : Refines now s a) (hmax : t.maxSize = s.maxSize) {keys : Finset String}
    (hlru : t.lru = s.lru.filter (fun e => e.key ∉ keys)) : Refines now t (a.drop keys) where
  maxSize := hmax.trans h.maxSize
  resident := by
    ext key
    rw [hlru, LruMap.drop, Finset.mem_sdiff, h.mem_resident]
    simp only [List.mem_toFinset, List.mem_map, List.mem_filter, decide_eq_true_iff]
    constructor
    · rintro ⟨e, ⟨he, hkey⟩, rfl⟩
      exact ⟨⟨e, he, rfl⟩, hkey⟩
    · rintro ⟨⟨e, he, rfl⟩, hkey⟩
      exact ⟨e, ⟨he, hkey⟩, rfl⟩
  entry := by
    intro e he
    rw [hlru, List.mem_filter, decide_eq_true_iff] at he
    exact (if_neg he.2).trans (h.entry e he.1)
  gone := by
    intro key e hentry hkey
    dsimp only [LruMap.drop] at hentry hkey
    split_ifs at hentry with hin
    exact h.gone key e hentry (fun hres => hkey (Finset.mem_sdiff.mpr ⟨hres, hin⟩))
  recent := by
    rw [hlru]
    exact h.recent.sublist List.filter_sublist
  ticks := by
    intro e he
    rw [hlru] at he
    exact h.ticks e (List.mem_of_mem_filter he)
  bound := by
    rw [hlru, hmax]
    exact (List.length_filter_le _ _).trans h.bound

theorem push (h : Refines now s a) {e : Entry ρ} (hkey : e.key ∉ a.resident)
    (hlru : t.lru = e :: s.lru) (hmax : t.maxSize = s.maxSize) (hroom : s.lru.length < s.maxSize) :
    Refines now t ((a.put e).touch e.key) := by
  have hne : ∀ e' ∈ s.lru, e'.key ≠ e.key := by
    intro e' he' hsame
    exact hkey (h.mem_resident.mpr (hsame ▸ List.mem_map_of_mem he'))
  have hused : ∀ e' ∈ s.lru, ((a.put e).touch e.key).used e'.key = a.used e'.key := fun e' he' =>
    Function.update_of_ne (hne e' he') _ _
  have hself : ((a.put e).touch e.key).used e.key = a.tick + 1 := Function.update_self ..
  constructor
  · exact hmax.trans h.maxSize
  · rw [hlru, List.map_cons, List.toFinset_cons, h.resident]
    rfl
  · intro e' he'
    rw [hlru] at he'
    rcases List.mem_cons.mp he' with rfl | he'
    · exact Function.update_self ..
    · exact (Function.update_of_ne (hne e' he') _ _).trans (h.entry e' he')
  · intro key e' hentry hres
    dsimp only [touch, put] at hentry hres
    rw [Finset.mem_insert, not_or] at hres
    rw [Function.update_of_ne hres.1] at hentry
    exact h.gone key e' hentry hres.2
  · rw [hlru, List.pairwise_cons]
    constructor
    · intro e' he'
      rw [hused e' he', hself]
      exact Nat.lt_succ_of_le (h.ticks e' he')
    · refine h.recent.imp_of_mem (fun he₁ he₂ hlt => ?_)
      rwa [hused _ he₁, hused _ he₂]
  · intro e' he'
    rw [hlru] at he'
    rcases List.mem_cons.mp he' with rfl | he'
    · rw [hself]
      rfl
    · rw [hused e' he']
      exact Nat.le_succ_of_le (h.ticks e' he')
  · rw [hlru, List.length_cons, hmax]
    exact hroom

theorem later (h : Refines now s a) (hle : now ≤ now') : Refines now' s a :=
  { h with gone := fun key e hentry hkey => expired_mono (h.gone key e hentry hkey) hle }

theorem front (h : Refines now s a) {e : Entry ρ} (hkey : e.key ∈ a.resident) :
    Refines now (s.moveToFront e) ((a.put e).touch e.key) := by
  have hdelete : Refines now (s.delete e.key) (a.drop {e.key}) := by
    refine h.drop (t := s.delete e.key) rfl ?_
    simp only [Finset.mem_singleton]
    rfl
  have hput : ((a.drop {e.key}).put e).touch e.key = (a.put e).touch e.key := by
    have hentry : Function.update (a.drop {e.key}).entry e.key (some e) =
        Function.update a.entry e.key (some e) := by
      funext key
      rw [Function.update_apply, Function.update_apply]
      split_ifs with hsame
      · rfl
      · exact if_neg (by rwa [Finset.mem_singleton])
    have hresident : insert e.key (a.resident \ {e.key}) = insert e.key a.resident := by
      rw [Finset.insert_sdiff_self_of_mem hkey, Finset.insert_eq_of_mem hkey]
    unfold put touch
    rw [hentry]
    dsimp only [LruMap.drop]
    rw [hresident]
  have hshorter : (s.others e.key).length < s.lru.length := by
    obtain ⟨e', he', hsame⟩ := List.mem_map.mp (h.mem_resident.mp hkey)
    refine List.length_filter_lt_length_iff_exists.mpr ⟨e', he', ?_⟩
    simp [hsame]
  rw [← hput]
  refine hdelete.push ?_ rfl rfl (hshorter.trans_le h.bound)
  simp [LruMap.drop]

theorem evict (h : Refines now s a) {e : Entry ρ} (hkey : e.key ∉ a.resident)
    (hlru : t.lru = e :: s.evict) (hmax : t.maxSize = s.maxSize) :
    Refines now t (((a.drop a.victims).put e).touch e.key) := by
  have hevict : s.evict = s.lru.filter (fun e => e.key ∉ a.victims) := by
    unfold MemoryStore.evict
    rw [Recency.take_eq_filter h.recent]
    refine List.filter_congr (fun e' he' => ?_)
    have hin : e'.key ∈ a.resident := h.mem_resident.mpr (List.mem_map_of_mem he')
    rw [decide_eq_decide, victims, Finset.mem_filter, h.fresher_eq, ← h.maxSize, and_iff_right hin]
    omega
  have hlength : s.evict.length < s.maxSize := by
    have hpos := s.positive
    have htake := List.length_take_le (s.maxSize - 1) s.lru
    unfold MemoryStore.evict
    omega
  have hnodup : (s.evict.map Entry.key).Nodup := s.nodup.sublist ((List.take_sublist _ _).map _)
  have hdrop := h.drop (t := ⟨s.evict, s.maxSize, hnodup, s.positive⟩) rfl hevict
  refine hdrop.push ?_ hlru hmax hlength
  intro hin
  exact hkey (Finset.mem_sdiff.mp hin).1

theorem get (h : Refines now s a) (hle : now ≤ now') (key : String) :
    (s.get key now').1 = a.live now' key ∧
      Refines now' (s.get key now').2 (a.next (now', .get key)) := by
  unfold MemoryStore.get
  dsimp only [next]
  cases hlookup : s.lookup key with
  | none =>
    have hkey := MemoryStore.lookup_none.mp hlookup
    have hresident : a.resident.erase key = a.resident :=
      Finset.erase_eq_of_notMem (mt h.mem_resident.mp hkey)
    rw [h.live_of_notMem hle hkey, hresident]
    exact ⟨rfl, h.later hle⟩
  | some e =>
    obtain ⟨he, rfl⟩ := MemoryStore.lookup_some hlookup
    rw [h.live_of_mem he]
    have hkey : e.key ∈ a.resident := h.mem_resident.mpr (List.mem_map_of_mem he)
    by_cases hexpired : e.expired now' = true
    · rw [if_pos hexpired]
      dsimp only
      rw [if_pos hexpired]
      refine ⟨rfl, ?_⟩
      have hresident : a.resident.erase e.key = ((s.delete e.key).lru.map Entry.key).toFinset := by
        ext key
        rw [Finset.mem_erase, h.mem_resident, List.mem_toFinset, List.mem_map, List.mem_map]
        constructor
        · rintro ⟨hne, e', he', rfl⟩
          exact ⟨e', MemoryStore.mem_delete.mpr ⟨he', hne⟩, rfl⟩
        · rintro ⟨e', he', rfl⟩
          obtain ⟨hin, hne⟩ := MemoryStore.mem_delete.mp he'
          exact ⟨hne, e', hin, rfl⟩
      rw [if_neg (by simp), hresident]
      refine h.sweep hle List.filter_sublist rfl ?_
      intro e' he' hgone
      have hsame : e'.key = e.key := by
        by_contra hne
        exact hgone (MemoryStore.mem_delete.mpr ⟨he', hne⟩)
      rwa [List.inj_on_of_nodup_map s.nodup he' he hsame]
    · rw [if_neg hexpired]
      dsimp only
      rw [if_neg hexpired, if_pos Option.isSome_some]
      refine ⟨rfl, ?_⟩
      have hput : a.put e = a := by
        unfold put
        rw [← h.entry e he, Function.update_eq_self, Finset.insert_eq_of_mem hkey]
      have hfront := (h.later hle).front hkey
      rwa [hput] at hfront

theorem set (h : Refines now s a) (hle : now ≤ now') (e : Entry ρ) :
    Refines now' (s.set e) (a.next (now', .set e)) := by
  dsimp only [next]
  split_ifs with hkey
  · obtain ⟨e', he', hsame⟩ := List.mem_map.mp (h.mem_resident.mp hkey)
    have hlookup := MemoryStore.lookup_of_mem he'
    rw [hsame] at hlookup
    rw [MemoryStore.set_of_some hlookup]
    exact (h.later hle).front hkey
  · obtain ⟨hlru, hmax⟩ := MemoryStore.set_of_none
      (MemoryStore.lookup_none.mpr (mt h.mem_resident.mpr hkey))
    exact (h.later hle).evict hkey hlru hmax

theorem delete (h : Refines now s a) (hle : now ≤ now') (key : String) :
    Refines now' (s.delete key) (a.next (now', .delete key)) := by
  refine (h.later hle).drop (t := s.delete key) rfl ?_
  simp only [Finset.mem_singleton]
  rfl

theorem swept (h : Refines now s a) (hle : now ≤ now') :
    Refines now' (s.sweep now') { a with resident := a.liveKeys now' } := by
  rw [h.liveKeys_eq hle]
  refine h.sweep hle (t := s.sweep now') List.filter_sublist rfl ?_
  intro e he hgone
  by_contra hlive
  exact hgone (List.mem_filter.mpr ⟨he, by simpa using hlive⟩)

theorem promoteIf (h : Refines now s a) (hle : now ≤ now') (fn : String → Bool) :
    s.promoted fn now' = ((a.liveKeys now').filter (fun key =>
        (a.entry key).any (fun e => e.expires.isSome) ∧ fn key)).card ∧
      Refines now' (s.promoteIf fn now') (a.next (now', .promoteIf fn)) := by
  have hswept := h.swept hle
  have hkeys : ((s.promoteIf fn now').lru.map Entry.key) = (s.sweep now').lru.map Entry.key := by
    unfold MemoryStore.promoteIf
    rw [List.map_map]
    exact List.map_congr_left (fun e _ => MemoryStore.promote_key fn e)
  have hmem : ∀ e' ∈ (s.promoteIf fn now').lru, ∃ e ∈ s.lru, e.expired now' = false ∧
      MemoryStore.promote fn e = e' := by
    intro e' he'
    obtain ⟨e, he, rfl⟩ := List.mem_map.mp he'
    obtain ⟨hin, hlive⟩ := List.mem_filter.mp he
    exact ⟨e, hin, by simpa using hlive, rfl⟩
  constructor
  · have hnodup : ((s.lru.filter (fun e => !e.expired now')).map Entry.key).Nodup := (s.sweep now').nodup
    rw [h.liveKeys_eq hle, Recency.card_filter_toFinset hnodup, List.countP_map, List.countP_filter]
    refine List.countP_congr (fun e he => ?_)
    simp only [Function.comp, h.entry e he, Option.any_some, Bool.and_eq_true, decide_eq_true_iff]
    tauto
  · constructor
    · exact h.maxSize
    · rw [hkeys]
      exact hswept.resident
    · intro e' he'
      obtain ⟨e, he, hlive, rfl⟩ := hmem e' he'
      rw [MemoryStore.promote_key]
      dsimp only [next]
      rw [h.entry e he, Option.map_some, hlive]
      rfl
    · intro key e' hentry hkey
      obtain ⟨e, he, rfl⟩ := Option.map_eq_some_iff.mp hentry
      have hexpired := hswept.gone key e he hkey
      rwa [if_pos hexpired]
    · refine List.Pairwise.map (MemoryStore.promote fn) (fun e e' hlt => ?_) hswept.recent
      rwa [MemoryStore.promote_key, MemoryStore.promote_key]
    · intro e' he'
      obtain ⟨e, he, hlive, rfl⟩ := hmem e' he'
      rw [MemoryStore.promote_key]
      exact h.ticks e he
    · have hlength := congrArg List.length hkeys
      rw [List.length_map, List.length_map] at hlength
      exact hlength.le.trans hswept.bound

theorem listed (h : Refines now s a) (hle : now ≤ now') : a.Listed now' (s.keys now').1 := by
  refine ⟨fun key => (h.live_isSome hle).symm, ?_⟩
  refine List.Pairwise.map Entry.key (fun _ _ hlt => hlt) ?_
  exact h.recent.sublist List.filter_sublist

theorem entries (h : Refines now s a) (hle : now ≤ now') (limit : ℤ) :
    a.Allows (now', .entries limit) (.entries (s.entries limit now').1) ∧
      Refines now' (s.entries limit now').2 (a.next (now', .entries limit)) := by
  have hlisted := h.listed hle
  have hnodup : ((s.lru.filter (fun e => !e.expired now')).map Entry.key).Nodup := (s.sweep now').nodup
  constructor
  · refine ⟨_, hlisted, ?_⟩
    have hentry : ∀ l : List (Entry ρ), l ⊆ s.lru → l.map some = (l.map Entry.key).map a.entry := by
      intro l hl
      rw [List.map_map]
      exact List.map_congr_left (fun e he => (h.entry e (hl he)).symm)
    dsimp only [MemoryStore.entries, MemoryStore.keys, MemoryStore.sweep]
    rw [scan_collected limit now' 0 s.lru id, Nat.sub_zero]
    split_ifs with hpos
    · rw [← List.map_take]
      exact hentry _ (fun e he => List.mem_of_mem_filter (List.mem_of_mem_take he))
    · exact hentry _ (fun e he => List.mem_of_mem_filter he)
  · have hkept := scan_kept (fun e => a.used e.key) limit now' 0 h.recent id
    have hfresher : ∀ key, a.fresher (a.liveKeys now') key =
        (s.lru.filter (fun e => !e.expired now')).countP (fun e => a.used key < a.used e.key) := by
      intro key
      rw [fresher, h.liveKeys_eq hle, Recency.card_filter_toFinset hnodup, List.countP_map]
      rfl
    have hstays : ∀ e ∈ s.lru, e ∈ (s.entries limit now').2.lru ↔
        (a.live now' e.key).isSome ∨ 0 < limit ∧ limit ≤ a.fresher (a.liveKeys now') e.key := by
      intro e he
      dsimp only [MemoryStore.entries]
      rw [hkept, List.mem_filter, and_iff_right he, hfresher, h.live_of_mem he]
      simp
    have hresident : a.resident.filter (fun key =>
        (a.live now' key).isSome ∨ 0 < limit ∧ limit ≤ a.fresher (a.liveKeys now') key) =
        ((s.entries limit now').2.lru.map Entry.key).toFinset := by
      ext key
      rw [Finset.mem_filter, h.mem_resident, List.mem_toFinset, List.mem_map, List.mem_map]
      constructor
      · rintro ⟨⟨e, he, rfl⟩, hkeep⟩
        exact ⟨e, (hstays e he).mpr hkeep, rfl⟩
      · rintro ⟨e, he, rfl⟩
        have hin := (MemoryStore.scan_sublist limit now' 0 s.lru).subset he
        exact ⟨⟨e, hin, rfl⟩, (hstays e hin).mp he⟩
    dsimp only [next]
    rw [hresident]
    refine h.sweep hle (MemoryStore.scan_sublist limit now' 0 s.lru) rfl ?_
    intro e he hgone
    by_contra hlive
    refine hgone ((hstays e he).mpr (.inl ?_))
    rw [h.live_of_mem he, if_neg hlive]
    rfl

theorem step (h : Refines now s a) (hle : now ≤ now') (op : StoreOp ρ) :
    a.Allows (now', op) (s.step (now', op)).1 ∧ Refines now' (s.step (now', op)).2 (a.next (now', op)) := by
  cases op with
  | get key => exact h.get hle key
  | set e => exact ⟨trivial, h.set hle e⟩
  | delete key => exact ⟨trivial, h.delete hle key⟩
  | promoteIf fn => exact h.promoteIf hle fn
  | keys => exact ⟨h.listed hle, h.swept hle⟩
  | entries limit => exact h.entries hle limit
  | len =>
    refine ⟨?_, h.later hle⟩
    change s.lru.length = a.resident.card
    rw [← h.resident, List.toFinset_card_of_nodup s.nodup, List.length_map]

theorem run (h : Refines now s a) {inputs : List (ℤ × StoreOp ρ)}
    (hclock : (now :: inputs.map Prod.fst).Pairwise (· ≤ ·)) :
    a.Accepts inputs (Runs.play MemoryStore.step s inputs).1 ∧
      ∃ now', Refines now' (Runs.play MemoryStore.step s inputs).2 (inputs.foldl LruMap.next a) := by
  induction inputs generalizing now s a with
  | nil => exact ⟨trivial, now, h⟩
  | cons input inputs ih =>
    obtain ⟨hnow, hrest⟩ := List.pairwise_cons.mp hclock
    obtain ⟨hallows, hnext⟩ := h.step (hnow input.1 List.mem_cons_self) input.2
    obtain ⟨haccepts, hfinal⟩ := ih hnext hrest
    exact ⟨⟨hallows, haccepts⟩, hfinal⟩

end Refines

end LruMap

namespace LinkedStore

variable {ρ : Type} [Inhabited ρ]

/-- The memory store is a bounded map with expiry that evicts the least recently used entries, over
every sequence of operations at times that do not decrease: its outputs are outputs of the map, its
list and its map describe the same entries, without a key twice and within the bound, and they are
the resident entries of the map. -/
theorem refines_lruMap (maxSize : ℤ) (inputs : List (ℤ × StoreOp ρ))
    (hclock : (inputs.map Prod.fst).Pairwise (· ≤ ·)) :
    let start : LinkedStore ρ := newMemoryStore maxSize
    let m := (Runs.play step start inputs).2
    let a := inputs.foldl LruMap.next (.empty start.maxSize)
    (LruMap.empty start.maxSize).Accepts inputs (Runs.play step start inputs).1 ∧
      (∀ key el, m.items key = some el ↔ el ∈ m.lru ∧ (m.value el).key = key) ∧
      (m.lru.map (fun el => (m.value el).key)).Nodup ∧ m.lru.length ≤ start.maxSize ∧
      ∀ key, (m.items key).map m.value = if key ∈ a.resident then a.entry key else none := by
  intro start m a
  obtain ⟨now, hnow⟩ : ∃ now, (now :: inputs.map Prod.fst).Pairwise (· ≤ ·) := by
    cases inputs with
    | nil => exact ⟨0, List.pairwise_singleton _ _⟩
    | cons input inputs =>
      refine ⟨input.1, List.pairwise_cons.mpr ⟨?_, hclock⟩⟩
      intro t ht
      rcases List.mem_cons.mp ht with rfl | ht
      · exact le_refl _
      · exact (List.pairwise_cons.mp hclock).1 t ht
  obtain ⟨houtputs, hlists, hsize⟩ := Runs.play_agree (R := LinkedStore.Represents)
    (fun _ _ input h => h.step input) inputs (represents_new (ρ := ρ) maxSize)
  obtain ⟨haccepts, now', hrefines⟩ := (LruMap.refines_empty now maxSize).run hnow
  rw [← houtputs] at haccepts
  change m.Lists _ at hlists
  change LruMap.Refines now' _ a at hrefines
  have hmax : a.maxSize = start.maxSize := by
    refine Runs.foldl_invariant (I := fun a : LruMap ρ => a.maxSize = start.maxSize) ?_ inputs rfl
    intro a input ha
    rw [LruMap.next_maxSize, ha]
  refine ⟨haccepts, hlists.items, ?_, ?_, ?_⟩
  · have hnodup := hlists.nodup
    rwa [← hlists.values, List.map_map] at hnodup
  · have hlength := congrArg List.length hlists.values
    rw [List.length_map] at hlength
    rw [hlength, ← hmax, ← hrefines.maxSize]
    exact hrefines.bound
  · intro key
    cases hkey : m.items key with
    | none =>
      rw [if_neg (mt hrefines.mem_resident.mp (hlists.lookup_none hkey))]
      rfl
    | some el =>
      obtain ⟨hel, rfl⟩ := (hlists.items key el).mp hkey
      have hin : m.value el ∈ (Runs.play MemoryStore.step (.newMemoryStore maxSize) inputs).2.lru := by
        rw [← hlists.values]
        exact List.mem_map_of_mem hel
      rw [if_pos (hrefines.mem_resident.mpr (List.mem_map_of_mem hin))]
      exact (hrefines.entry _ hin).symm

theorem refines_lruMap_twoEntries :
    let start : LinkedStore ℕ := newMemoryStore 2
    let inputs : List (ℤ × StoreOp ℕ) := [(0, .set ⟨"a", 1, some 5⟩), (1, .set ⟨"b", 2, none⟩),
      (2, .get "a"), (3, .set ⟨"c", 3, some 9⟩), (4, .get "b"), (6, .get "a"), (7, .keys)]
    (LruMap.empty start.maxSize).Accepts inputs (Runs.play step start inputs).1 ∧
      (Runs.play step start inputs).1 = [.done, .done, .entry (some ⟨"a", 1, some 5⟩), .done,
        .entry none, .entry none, .keys ["c"]] :=
  ⟨(refines_lruMap 2 _ (by decide)).1, rfl⟩

end LinkedStore

end EBeacon.Cache
