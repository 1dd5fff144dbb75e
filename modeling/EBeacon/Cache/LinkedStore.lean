import EBeacon.Cache.Memory
import EBeacon.Library.Runs
import Mathlib.Logic.Function.Basic

/-!
The memory store as it is laid out, with a map from keys to elements of a list, and that it behaves
as the list of entries that `MemoryStore` is.
-/

namespace EBeacon.Cache

/-- `items` maps keys to the elements of `lru`, most recent first, and `value` holds the entries of
the elements, which are numbered as they are allocated. -/
structure LinkedStore (ρ : Type) where
  items : String → Option ℕ
  lru : List ℕ
  value : ℕ → Entry ρ
  allocated : ℕ
  maxSize : ℕ

namespace LinkedStore

variable {ρ : Type}

def newMemoryStore [Inhabited ρ] (maxSize : ℤ) : LinkedStore ρ where
  items := fun _ => none
  lru := []
  value := fun _ => ⟨"", default, none⟩
  allocated := 0
  maxSize := if maxSize ≤ 0 then 2048 else maxSize.toNat

def remove (m : LinkedStore ρ) (el : ℕ) (key : String) : LinkedStore ρ :=
  { m with lru := m.lru.erase el, items := Function.update m.items key none }

def moveToFront (m : LinkedStore ρ) (el : ℕ) : LinkedStore ρ :=
  { m with lru := el :: m.lru.erase el }

def setValue (m : LinkedStore ρ) (el : ℕ) (e : Entry ρ) : LinkedStore ρ :=
  { m with value := Function.update m.value el e }

def get (m : LinkedStore ρ) (key : String) (now : ℤ) : Option (Entry ρ) × LinkedStore ρ :=
  match m.items key with
  | none => (none, m)
  | some el =>
    let e := m.value el
    if e.expired now then (none, m.remove el key) else (some e, m.moveToFront el)

def evict : ℕ → LinkedStore ρ → LinkedStore ρ
  | 0, m => m
  | turns + 1, m =>
    if m.lru.length ≥ m.maxSize then
      match m.lru.getLast? with
      | none => m
      | some tail => evict turns (m.remove tail (m.value tail).key)
    else m

def pushFront (m : LinkedStore ρ) (key : String) (e : Entry ρ) : LinkedStore ρ :=
  { m with
    lru := m.allocated :: m.lru
    value := Function.update m.value m.allocated e
    allocated := m.allocated + 1
    items := Function.update m.items key (some m.allocated) }

def set (m : LinkedStore ρ) (key : String) (entry : Entry ρ) : LinkedStore ρ :=
  match m.items key with
  | some el => (m.moveToFront el).setValue el entry
  | none => (evict m.lru.length m).pushFront key entry

def delete (m : LinkedStore ρ) (key : String) : LinkedStore ρ :=
  match m.items key with
  | some el => m.remove el key
  | none => m

def promoteFrom (fn : String → Bool) (now : ℤ) : List ℕ → ℕ → LinkedStore ρ → ℕ × LinkedStore ρ
  | [], n, m => (n, m)
  | el :: rest, n, m =>
    let e := m.value el
    if e.expires.isNone then promoteFrom fn now rest n m
    else if e.expired now then promoteFrom fn now rest n (m.remove el e.key)
    else if fn e.key then promoteFrom fn now rest (n + 1) (m.setValue el { e with expires := none })
    else promoteFrom fn now rest n m

def promoteIf (m : LinkedStore ρ) (fn : String → Bool) (now : ℤ) : ℕ × LinkedStore ρ :=
  promoteFrom fn now m.lru 0 m

def entriesFrom (limit now : ℤ) : List ℕ → List (Entry ρ) → LinkedStore ρ →
    List (Entry ρ) × LinkedStore ρ
  | [], entries, m => (entries, m)
  | el :: rest, entries, m =>
    let e := m.value el
    if e.expired now then entriesFrom limit now rest entries (m.remove el e.key)
    else if 0 < limit ∧ limit ≤ (entries ++ [e]).length then (entries ++ [e], m)
    else entriesFrom limit now rest (entries ++ [e]) m

def entries (m : LinkedStore ρ) (limit now : ℤ) : List (Entry ρ) × LinkedStore ρ :=
  entriesFrom limit now m.lru [] m

def keysFrom (now : ℤ) : List ℕ → List String → LinkedStore ρ → List String × LinkedStore ρ
  | [], keys, m => (keys, m)
  | el :: rest, keys, m =>
    let e := m.value el
    if e.expired now then keysFrom now rest keys (m.remove el e.key)
    else keysFrom now rest (keys ++ [e.key]) m

def keys (m : LinkedStore ρ) (now : ℤ) : List String × LinkedStore ρ := keysFrom now m.lru [] m

def step (m : LinkedStore ρ) : ℤ × StoreOp ρ → StoreOutput ρ × LinkedStore ρ
  | (now, .get key) => (.entry (m.get key now).1, (m.get key now).2)
  | (_, .set entry) => (.done, m.set entry.key entry)
  | (_, .delete key) => (.done, m.delete key)
  | (now, .promoteIf fn) => (.count (m.promoteIf fn now).1, (m.promoteIf fn now).2)
  | (now, .keys) => (.keys (m.keys now).1, (m.keys now).2)
  | (now, .entries limit) => (.entries (m.entries limit now).1, (m.entries limit now).2)
  | (_, .len) => (.count m.lru.length, m)

structure Lists (m : LinkedStore ρ) (l : List (Entry ρ)) : Prop where
  values : m.lru.map m.value = l
  nodup : (l.map Entry.key).Nodup
  items : ∀ key el, m.items key = some el ↔ el ∈ m.lru ∧ (m.value el).key = key
  allocated : ∀ el ∈ m.lru, el < m.allocated

namespace Lists

variable {m : LinkedStore ρ} {l : List (Entry ρ)}

theorem nodup_lru (h : m.Lists l) : m.lru.Nodup := by
  have hkeys := h.nodup
  rw [← h.values, List.map_map] at hkeys
  exact hkeys.of_map

theorem eq_of_key (h : m.Lists l) {el el' : ℕ} (hel : el ∈ m.lru) (hel' : el' ∈ m.lru)
    (hkey : (m.value el').key = (m.value el).key) : el' = el := by
  have hitem := (h.items (m.value el).key el).mpr ⟨hel, rfl⟩
  have hitem' := (h.items (m.value el).key el').mpr ⟨hel', hkey⟩
  exact Option.some.inj (hitem'.symm.trans hitem)

theorem remove {front rest : List ℕ} {el : ℕ} (h : m.Lists l) (hlru : m.lru = front ++ el :: rest) :
    (m.remove el (m.value el).key).lru = front ++ rest ∧
      (m.remove el (m.value el).key).Lists ((front ++ rest).map m.value) := by
  have hnodup := h.nodup_lru
  rw [hlru] at hnodup
  have hfront : el ∉ front := by
    intro hin
    exact (List.disjoint_of_nodup_append hnodup) hin List.mem_cons_self
  have herase : (m.remove el (m.value el).key).lru = front ++ rest := by
    unfold LinkedStore.remove
    dsimp only
    rw [hlru, List.erase_append_right _ hfront, List.erase_cons_head]
  have hsub : (front ++ rest).Sublist m.lru := by
    rw [hlru]
    exact (List.Sublist.refl front).append (List.sublist_cons_self el rest)
  have hrest : el ∉ front ++ rest := by
    have hperm := (List.perm_middle.nodup_iff).mp hnodup
    exact (List.nodup_cons.mp hperm).1
  refine ⟨herase, ?_, ?_, ?_, ?_⟩
  · rw [herase]
    rfl
  · have hkeys := h.nodup
    rw [← h.values] at hkeys
    exact hkeys.sublist ((hsub.map _).map _)
  · intro key el'
    rw [herase]
    unfold LinkedStore.remove
    dsimp only
    rw [Function.update_apply]
    split_ifs with hkey
    · subst hkey
      refine iff_of_false nofun ?_
      rintro ⟨hin, hsame⟩
      have heq := h.eq_of_key (hlru ▸ List.mem_append_right front List.mem_cons_self) (hsub.subset hin) hsame
      exact hrest (heq ▸ hin)
    · rw [h.items]
      refine and_congr_left (fun hsame => ?_)
      rw [hlru]
      have hne : el' ≠ el := by
        rintro rfl
        exact hkey hsame.symm
      simp [hne]
  · intro el' hel'
    rw [herase] at hel'
    exact h.allocated el' (hsub.subset hel')

theorem perm (h : m.Lists l) {lru : List ℕ} (hperm : lru.Perm m.lru) :
    { m with lru := lru }.Lists (lru.map m.value) where
  values := rfl
  nodup := by
    have hkeys := h.nodup
    rw [← h.values] at hkeys
    exact ((hperm.map _).map _).nodup_iff.mpr hkeys
  items key el := by
    rw [hperm.mem_iff]
    exact h.items key el
  allocated el hel := h.allocated el (hperm.mem_iff.mp hel)

theorem moveToFront {front rest : List ℕ} {el : ℕ} (h : m.Lists l) (hlru : m.lru = front ++ el :: rest) :
    (m.moveToFront el).lru = el :: (front ++ rest) ∧
      (m.moveToFront el).Lists (m.value el :: (front ++ rest).map m.value) := by
  have hmoved : (m.moveToFront el).lru = el :: (front ++ rest) :=
    congrArg (List.cons el) (h.remove hlru).1
  refine ⟨hmoved, ?_⟩
  have hperm : (m.moveToFront el).lru.Perm m.lru := by
    rw [hmoved, hlru]
    exact List.perm_middle.symm
  have hlists := h.perm hperm
  rwa [congrArg (List.map m.value) hmoved] at hlists

theorem setValue (front : List ℕ) {rest : List ℕ} {el : ℕ} (h : m.Lists l)
    (hlru : m.lru = front ++ el :: rest) {e : Entry ρ} (hkey : e.key = (m.value el).key) :
    (m.setValue el e).Lists (front.map m.value ++ e :: rest.map m.value) ∧
      front.map (m.setValue el e).value = front.map m.value ∧
      rest.map (m.setValue el e).value = rest.map m.value := by
  have hnodup := h.nodup_lru
  rw [hlru] at hnodup
  have hrest := (List.nodup_cons.mp ((List.perm_middle.nodup_iff).mp hnodup)).1
  have hother : ∀ l' : List ℕ, el ∉ l' → l'.map (m.setValue el e).value = l'.map m.value := by
    intro l' hl'
    refine List.map_congr_left (fun el' hel' => Function.update_of_ne ?_ _ _)
    rintro rfl
    exact hl' hel'
  have hsame : ∀ el', ((m.setValue el e).value el').key = (m.value el').key := by
    intro el'
    unfold LinkedStore.setValue
    dsimp only
    rw [Function.update_apply]
    split_ifs with heq
    · rw [hkey, heq]
    · rfl
  have hfront := hother front (fun hin => hrest (List.mem_append_left rest hin))
  have hback := hother rest (fun hin => hrest (List.mem_append_right front hin))
  have hel : (m.setValue el e).value el = e := Function.update_self ..
  have hvalues : (m.setValue el e).lru.map (m.setValue el e).value =
      front.map m.value ++ e :: rest.map m.value := by
    change m.lru.map _ = _
    rw [hlru, List.map_append, List.map_cons, hfront, hback, hel]
  refine ⟨⟨hvalues, ?_, ?_, h.allocated⟩, hfront, hback⟩
  · have hkeys := h.nodup
    rw [← h.values, List.map_map] at hkeys
    rw [← hvalues, List.map_map]
    rwa [show Entry.key ∘ (m.setValue el e).value = Entry.key ∘ m.value from funext hsame]
  · intro key el'
    rw [hsame]
    exact h.items key el'

theorem lookup_none (h : m.Lists l) {key : String} (hkey : m.items key = none) :
    key ∉ l.map Entry.key := by
  intro hin
  rw [← h.values, List.map_map] at hin
  obtain ⟨el, hel, hsame⟩ := List.mem_map.mp hin
  rw [(h.items key el).mpr ⟨hel, hsame⟩] at hkey
  cases hkey

theorem pushFront (h : m.Lists l) {e : Entry ρ} (hkey : m.items e.key = none) :
    (m.pushFront e.key e).Lists (e :: l) := by
  have hnew : ∀ el ∈ m.lru, el ≠ m.allocated := fun el hel => Nat.ne_of_lt (h.allocated el hel)
  have hold : ∀ el ∈ m.lru, (m.pushFront e.key e).value el = m.value el := fun el hel =>
    Function.update_of_ne (hnew el hel) _ _
  have hel : (m.pushFront e.key e).value m.allocated = e := Function.update_self ..
  constructor
  · change _ :: m.lru.map _ = _
    rw [hel, List.map_congr_left hold, h.values]
  · exact List.nodup_cons.mpr ⟨h.lookup_none hkey, h.nodup⟩
  · intro key el
    change Function.update m.items e.key (some m.allocated) key = some el ↔ el ∈ m.allocated :: m.lru ∧ _
    rw [Function.update_apply, List.mem_cons]
    split_ifs with hsame
    · subst hsame
      constructor
      · rintro ⟨⟩
        exact ⟨.inl rfl, by rw [hel]⟩
      · rintro ⟨rfl | hin, hkey'⟩
        · rfl
        · rw [hold el hin] at hkey'
          rw [(h.items _ el).mpr ⟨hin, hkey'⟩] at hkey
          cases hkey
    · rw [h.items]
      constructor
      · rintro ⟨hin, hkey'⟩
        exact ⟨.inr hin, by rwa [hold el hin]⟩
      · rintro ⟨rfl | hin, hkey'⟩
        · rw [hel] at hkey'
          exact absurd hkey'.symm hsame
        · exact ⟨hin, by rwa [hold el hin] at hkey'⟩
  · intro el hin
    rcases List.mem_cons.mp hin with rfl | hin
    · exact Nat.lt_succ_self _
    · exact Nat.lt_succ_of_lt (h.allocated el hin)

theorem evict {turns : ℕ} (h : m.Lists l) (hturns : l.length ≤ turns) (hpos : 0 < m.maxSize) :
    (LinkedStore.evict turns m).Lists (l.take (m.maxSize - 1)) ∧
      (LinkedStore.evict turns m).maxSize = m.maxSize := by
  induction turns generalizing m l with
  | zero =>
    rw [Nat.le_zero, List.length_eq_zero_iff] at hturns
    subst hturns
    rw [List.take_nil]
    exact ⟨h, rfl⟩
  | succ turns ih =>
    have hlength : m.lru.length = l.length := by rw [← h.values, List.length_map]
    unfold LinkedStore.evict
    split_ifs with hfull
    · have hne : m.lru ≠ [] := by
        intro hnil
        have hzero : m.lru.length = 0 := List.length_eq_zero_iff.mpr hnil
        omega
      have hlru : m.lru = m.lru.dropLast ++ m.lru.getLast hne :: [] :=
        (List.dropLast_append_getLast hne).symm
      obtain ⟨-, hremove⟩ := h.remove hlru
      have hlist : (m.lru.dropLast ++ []).map m.value = l.dropLast := by
        rw [List.append_nil, List.map_dropLast, h.values]
      rw [hlist] at hremove
      have hlen : l.dropLast.length = l.length - 1 := List.length_dropLast
      rw [List.getLast?_eq_getLast_of_ne_nil hne]
      dsimp only
      have hrest := ih hremove (by omega) hpos
      have htake : l.dropLast.take (m.maxSize - 1) = l.take (m.maxSize - 1) := by
        rw [List.dropLast_eq_take, List.take_take]
        congr 1
        omega
      rw [← htake]
      exact hrest
    · rw [List.take_of_length_le (by omega)]
      exact ⟨h, rfl⟩

end Lists

def Walks (m : LinkedStore ρ) (done : List (Entry ρ)) (rest : List ℕ) (todo : List (Entry ρ)) : Prop :=
  ∃ front, m.lru = front ++ rest ∧ front.map m.value = done ∧ rest.map m.value = todo ∧
    m.Lists (done ++ todo)

theorem Lists.walks {m : LinkedStore ρ} {l : List (Entry ρ)} (h : m.Lists l) : m.Walks [] m.lru l :=
  ⟨[], rfl, rfl, h.values, h⟩

namespace Walks

variable {m : LinkedStore ρ} {done todo : List (Entry ρ)} {rest : List ℕ} {el : ℕ} {e : Entry ρ}

theorem lists (h : m.Walks done [] todo) : m.Lists done := by
  obtain ⟨front, -, -, htodo, hl⟩ := h
  rwa [← htodo, List.map_nil, List.append_nil] at hl

theorem todo_nil (h : m.Walks done [] todo) : todo = [] := by
  obtain ⟨front, -, -, htodo, -⟩ := h
  exact htodo.symm

theorem todo_cons (h : m.Walks done (el :: rest) todo) : ∃ e todo', todo = e :: todo' := by
  obtain ⟨front, -, -, htodo, -⟩ := h
  exact ⟨_, _, htodo.symm⟩

theorem value (h : m.Walks done (el :: rest) (e :: todo)) : m.value el = e := by
  obtain ⟨front, -, -, htodo, -⟩ := h
  exact (List.cons.inj htodo).1

theorem keep (h : m.Walks done (el :: rest) (e :: todo)) : m.Walks (done ++ [e]) rest todo := by
  obtain ⟨front, hlru, hdone, htodo, hl⟩ := h
  obtain ⟨he, htodo⟩ := List.cons.inj htodo
  refine ⟨front ++ [el], ?_, ?_, htodo, ?_⟩
  · rw [hlru, List.append_assoc]
    rfl
  · rw [List.map_append, hdone, ← he]
    rfl
  · rwa [List.append_assoc]

theorem remove (h : m.Walks done (el :: rest) (e :: todo)) : (m.remove el e.key).Walks done rest todo := by
  obtain ⟨front, hlru, hdone, htodo, hl⟩ := h
  obtain ⟨he, htodo⟩ := List.cons.inj htodo
  obtain ⟨hlru', hl'⟩ := hl.remove hlru
  rw [he] at hlru' hl'
  refine ⟨front, hlru', hdone, htodo, ?_⟩
  rwa [List.map_append, hdone, htodo] at hl'

theorem setValue (h : m.Walks done (el :: rest) (e :: todo)) (e' : Entry ρ) (hkey : e'.key = e.key) :
    (m.setValue el e').Walks (done ++ [e']) rest todo := by
  obtain ⟨front, hlru, hdone, htodo, hl⟩ := h
  obtain ⟨he, htodo⟩ := List.cons.inj htodo
  obtain ⟨hl', hfront, hrest⟩ := hl.setValue front hlru (hkey.trans (by rw [he]))
  rw [hdone] at hl' hfront
  rw [htodo] at hl' hrest
  refine ⟨front ++ [el], ?_, ?_, hrest, ?_⟩
  · change m.lru = _
    rw [hlru, List.append_assoc]
    rfl
  · rw [List.map_append, hfront]
    exact congrArg (fun x => done ++ [x]) (Function.update_self ..)
  · rwa [List.append_assoc]

theorem promoteFrom (fn : String → Bool) (now : ℤ) (n : ℕ) (h : m.Walks done rest todo) :
    (LinkedStore.promoteFrom fn now rest n m).2.Lists
        (done ++ (todo.filter (fun e => !e.expired now)).map (MemoryStore.promote fn)) ∧
      (LinkedStore.promoteFrom fn now rest n m).1 =
        n + todo.countP (fun e => !e.expired now && e.expires.isSome && fn e.key) ∧
      (LinkedStore.promoteFrom fn now rest n m).2.maxSize = m.maxSize := by
  induction rest generalizing done todo n m with
  | nil =>
    obtain rfl := h.todo_nil
    refine ⟨?_, rfl, rfl⟩
    rw [List.filter_nil, List.map_nil, List.append_nil]
    exact h.lists
  | cons el rest ih =>
    obtain ⟨e, todo, rfl⟩ := h.todo_cons
    unfold LinkedStore.promoteFrom
    dsimp only
    rw [h.value]
    split_ifs with hnone hexpired hfn
    · have hexpires := Option.isNone_iff_eq_none.mp hnone
      have hlive : e.expired now = false := by rw [Entry.expired, hexpires]; rfl
      have hsame : MemoryStore.promote fn e = e := by
        obtain ⟨key, content, expires⟩ := e
        cases hexpires
        exact ite_self _
      have hrest := ih n h.keep
      simpa [hlive, hsame, hexpires, List.append_assoc] using hrest
    · have hrest := ih n h.remove
      have hsize : (m.remove el e.key).maxSize = m.maxSize := rfl
      simpa [hexpired, hsize] using hrest
    · have hrest := ih (n + 1) (h.setValue { e with expires := none } rfl)
      have hsome : e.expires.isSome = true := by simpa [Option.isSome_iff_ne_none] using hnone
      have hpromote : MemoryStore.promote fn e = { e with expires := none } := if_pos hfn
      have hsize : (m.setValue el { e with expires := none }).maxSize = m.maxSize := rfl
      simpa [hexpired, hsome, hfn, hpromote, hsize, List.append_assoc, Nat.add_assoc, Nat.add_comm 1] using hrest
    · have hrest := ih n h.keep
      have hpromote : MemoryStore.promote fn e = e := if_neg hfn
      simpa [hexpired, hfn, hpromote, List.append_assoc] using hrest

theorem keysFrom (now : ℤ) (keys : List String) (h : m.Walks done rest todo) :
    (LinkedStore.keysFrom now rest keys m).2.Lists (done ++ todo.filter (fun e => !e.expired now)) ∧
      (LinkedStore.keysFrom now rest keys m).1 =
        keys ++ (todo.filter (fun e => !e.expired now)).map Entry.key ∧
      (LinkedStore.keysFrom now rest keys m).2.maxSize = m.maxSize := by
  induction rest generalizing done todo keys m with
  | nil =>
    obtain rfl := h.todo_nil
    refine ⟨?_, (List.append_nil keys).symm, rfl⟩
    rw [List.filter_nil, List.append_nil]
    exact h.lists
  | cons el rest ih =>
    obtain ⟨e, todo, rfl⟩ := h.todo_cons
    unfold LinkedStore.keysFrom
    dsimp only
    rw [h.value]
    split_ifs with hexpired
    · have hrest := ih keys h.remove
      have hsize : (m.remove el e.key).maxSize = m.maxSize := rfl
      simpa [hexpired, hsize] using hrest
    · have hrest := ih (keys ++ [e.key]) h.keep
      simpa [hexpired, List.append_assoc] using hrest

theorem entriesFrom (limit now : ℤ) (entries : List (Entry ρ)) (h : m.Walks done rest todo) :
    (LinkedStore.entriesFrom limit now rest entries m).2.Lists
        (done ++ (MemoryStore.scan limit now entries.length todo).2) ∧
      (LinkedStore.entriesFrom limit now rest entries m).1 =
        entries ++ (MemoryStore.scan limit now entries.length todo).1 ∧
      (LinkedStore.entriesFrom limit now rest entries m).2.maxSize = m.maxSize := by
  induction rest generalizing done todo entries m with
  | nil =>
    obtain rfl := h.todo_nil
    refine ⟨?_, (List.append_nil entries).symm, rfl⟩
    rw [MemoryStore.scan, List.append_nil]
    exact h.lists
  | cons el rest ih =>
    obtain ⟨e, todo, rfl⟩ := h.todo_cons
    unfold LinkedStore.entriesFrom MemoryStore.scan
    dsimp only
    rw [h.value, List.length_append, List.length_singleton]
    push_cast
    split_ifs with hexpired hlimit
    · exact ih entries h.remove
    · obtain ⟨front, -, -, -, hl⟩ := h
      exact ⟨hl, rfl, rfl⟩
    · have hrest := ih (entries ++ [e]) h.keep
      simpa [List.append_assoc] using hrest

end Walks

def Represents (m : LinkedStore ρ) (s : MemoryStore ρ) : Prop := m.Lists s.lru ∧ m.maxSize = s.maxSize

section Represents

variable {m : LinkedStore ρ} {s : MemoryStore ρ}

theorem represents_new [Inhabited ρ] (maxSize : ℤ) :
    (newMemoryStore maxSize : LinkedStore ρ).Represents (.newMemoryStore maxSize) :=
  ⟨⟨rfl, List.nodup_nil, fun key el => by simp [newMemoryStore], nofun⟩, rfl⟩

theorem Represents.absent (h : m.Represents s) {key : String} (hkey : m.items key = none) :
    s.lookup key = none :=
  MemoryStore.lookup_none.mpr (h.1.lookup_none hkey)

theorem Represents.present (h : m.Represents s) {key : String} {el : ℕ} (hkey : m.items key = some el) :
    s.lookup key = some (m.value el) ∧ (m.value el).key = key ∧ ∃ front rest,
      m.lru = front ++ el :: rest ∧ s.others key = (front ++ rest).map m.value := by
  obtain ⟨hel, rfl⟩ := (h.1.items key el).mp hkey
  obtain ⟨front, rest, hlru⟩ := List.append_of_mem hel
  have hvalues := h.1.values
  rw [hlru, List.map_append, List.map_cons] at hvalues
  refine ⟨MemoryStore.lookup_of_mem ?_, rfl, front, rest, hlru, ?_⟩
  · rw [← h.1.values]
    exact List.mem_map_of_mem hel
  · rw [MemoryStore.others_eq hvalues.symm, List.map_append]

theorem Represents.get (h : m.Represents s) (key : String) (now : ℤ) :
    (m.get key now).1 = (s.get key now).1 ∧ (m.get key now).2.Represents (s.get key now).2 := by
  unfold LinkedStore.get MemoryStore.get
  cases hkey : m.items key with
  | none =>
    rw [h.absent hkey]
    exact ⟨rfl, h⟩
  | some el =>
    obtain ⟨hlookup, hsame, front, rest, hlru, hothers⟩ := h.present hkey
    rw [hlookup]
    dsimp only
    split_ifs with hexpired
    · refine ⟨rfl, ?_, h.2⟩
      change Lists _ (s.others key)
      rw [hothers, ← hsame]
      exact (h.1.remove hlru).2
    · refine ⟨rfl, ?_, h.2⟩
      change Lists _ (m.value el :: s.others (m.value el).key)
      rw [hsame, hothers]
      exact (h.1.moveToFront hlru).2

theorem Represents.delete (h : m.Represents s) (key : String) :
    (m.delete key).Represents (s.delete key) := by
  unfold LinkedStore.delete
  cases hkey : m.items key with
  | none =>
    have hothers : s.others key = s.lru := by
      refine List.filter_eq_self.mpr (fun e he => ?_)
      rw [decide_eq_true_iff]
      rintro rfl
      exact h.1.lookup_none hkey (List.mem_map_of_mem he)
    refine ⟨?_, h.2⟩
    change m.Lists (s.others key)
    rw [hothers]
    exact h.1
  | some el =>
    obtain ⟨-, hsame, front, rest, hlru, hothers⟩ := h.present hkey
    refine ⟨?_, h.2⟩
    change Lists _ (s.others key)
    rw [hothers, ← hsame]
    exact (h.1.remove hlru).2

theorem Represents.set (h : m.Represents s) (e : Entry ρ) : (m.set e.key e).Represents (s.set e) := by
  unfold LinkedStore.set
  cases hkey : m.items e.key with
  | none =>
    have hlength : s.lru.length = m.lru.length := by rw [← h.1.values, List.length_map]
    have hturns : s.lru.length ≤ m.lru.length := Nat.le_of_eq hlength
    obtain ⟨hevict, hsize⟩ := h.1.evict hturns (h.2 ▸ s.positive)
    obtain ⟨hlru, hmax⟩ := MemoryStore.set_of_none (h.absent hkey)
    have hfree : (LinkedStore.evict m.lru.length m).items e.key = none := by
      rw [Option.eq_none_iff_forall_not_mem]
      intro el hel
      obtain ⟨hin, hsame⟩ := (hevict.items e.key el).mp hel
      have hold : (LinkedStore.evict m.lru.length m).value el ∈ s.lru := by
        apply List.mem_of_mem_take
        rw [← hevict.values]
        exact List.mem_map_of_mem hin
      exact h.1.lookup_none hkey (hsame ▸ List.mem_map_of_mem hold)
    refine ⟨?_, hsize.trans (h.2.trans hmax.symm)⟩
    rw [hlru, MemoryStore.evict, ← h.2]
    exact hevict.pushFront hfree
  | some el =>
    obtain ⟨hlookup, hsame, front, rest, hlru, hothers⟩ := h.present hkey
    obtain ⟨hmoved, hlists⟩ := h.1.moveToFront hlru
    rw [MemoryStore.set_of_some hlookup]
    refine ⟨?_, h.2⟩
    change Lists _ (e :: s.others e.key)
    rw [hothers]
    exact (Lists.setValue [] hlists hmoved hsame.symm).1

theorem Represents.step (h : m.Represents s) (input : ℤ × StoreOp ρ) :
    (m.step input).1 = (s.step input).1 ∧ (m.step input).2.Represents (s.step input).2 := by
  obtain ⟨now, op⟩ := input
  cases op with
  | get key =>
    obtain ⟨houtput, hstore⟩ := h.get key now
    exact ⟨congrArg StoreOutput.entry houtput, hstore⟩
  | set entry => exact ⟨rfl, h.set entry⟩
  | delete key => exact ⟨rfl, h.delete key⟩
  | promoteIf fn =>
    obtain ⟨hlists, hcount, hsize⟩ := h.1.walks.promoteFrom fn now 0
    refine ⟨congrArg StoreOutput.count (hcount.trans (Nat.zero_add _)), hlists, hsize.trans h.2⟩
  | keys =>
    obtain ⟨hlists, hkeys, hsize⟩ := h.1.walks.keysFrom now []
    exact ⟨congrArg StoreOutput.keys hkeys, hlists, hsize.trans h.2⟩
  | entries limit =>
    obtain ⟨hlists, hentries, hsize⟩ := h.1.walks.entriesFrom limit now []
    exact ⟨congrArg StoreOutput.entries hentries, hlists, hsize.trans h.2⟩
  | len =>
    refine ⟨congrArg StoreOutput.count ?_, h⟩
    rw [← h.1.values, List.length_map]

end Represents

end LinkedStore

end EBeacon.Cache
