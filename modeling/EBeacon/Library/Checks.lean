import Mathlib.Data.List.Basic
import Mathlib.Data.List.Forall2

namespace EBeacon

abbrev Check := Except String Unit

namespace Check

variable {α : Type}

def reject (bad : Prop) [Decidable bad] (reason : String) : Check :=
  if bad then .error reason else .ok ()

def optional (a : Option α) (check : α → Check) : Check :=
  match a with
  | none => .ok ()
  | some a => check a

def each (check : ℕ → α → Check) : ℕ → List α → Check
  | _, [] => .ok ()
  | i, a :: rest => do
    check i a
    each check (i + 1) rest

def eachAfter (key : α → String) (check : ℕ → List String → α → Check) : ℕ → List String → List α → Check
  | _, _, [] => .ok ()
  | i, seen, a :: rest => do
    check i seen a
    eachAfter key check (i + 1) (key a :: seen) rest

@[simp] theorem reject_eq_ok {bad : Prop} [Decidable bad] {reason : String} :
    reject bad reason = .ok () ↔ ¬bad := by
  unfold reject
  split
  · simp_all
  · simp_all

@[simp] theorem bind_eq_ok {a b : Check} : (a >>= fun _ => b) = .ok () ↔ a = .ok () ∧ b = .ok () := by
  cases a with
  | error reason => simp [bind, Except.bind]
  | ok u => simp [bind, Except.bind]

@[simp] theorem optional_eq_ok {a : Option α} {check : α → Check} :
    optional a check = .ok () ↔ ∀ x, a = some x → check x = .ok () := by
  cases a with
  | none => simp [optional]
  | some x => simp [optional]

theorem eachAfter_ok {key : α → String} {check : ℕ → List String → α → Check} {i : ℕ}
    {seen : List String} {l : List α} (h : eachAfter key check i seen l = .ok ()) {a : α} (ha : a ∈ l) :
    ∃ j seen, check j seen a = .ok () := by
  induction l generalizing i seen with
  | nil => cases ha
  | cons b rest ih =>
    obtain ⟨hb, hrest⟩ := bind_eq_ok.mp h
    rcases List.mem_cons.mp ha with rfl | ha
    · exact ⟨i, seen, hb⟩
    · exact ih hrest ha

theorem eachAfter_nodup {key : α → String} {check : ℕ → List String → α → Check} {i : ℕ} {seen : List String}
    {l : List α} (h : eachAfter key check i seen l = .ok ())
    (fresh : ∀ i seen a, check i seen a = .ok () → key a ∉ seen) :
    (l.map key).Nodup ∧ ∀ a ∈ l, key a ∉ seen := by
  induction l generalizing i seen with
  | nil => exact ⟨.nil, nofun⟩
  | cons b rest ih =>
    obtain ⟨hb, hrest⟩ := bind_eq_ok.mp h
    obtain ⟨hnodup, hnew⟩ := ih hrest
    constructor
    · rw [List.map_cons, List.nodup_cons]
      refine ⟨fun hmem => ?_, hnodup⟩
      obtain ⟨a, ha, heq⟩ := List.mem_map.mp hmem
      exact hnew a ha (heq ▸ List.mem_cons_self)
    · intro a ha
      rcases List.mem_cons.mp ha with rfl | ha
      · exact fresh i seen a hb
      · exact fun hseen => hnew a ha (List.mem_cons_of_mem _ hseen)

theorem each_ok {check : ℕ → α → Check} {i : ℕ} {l : List α} (h : each check i l = .ok ()) {a : α} (ha : a ∈ l) :
    ∃ j, check j a = .ok () := by
  induction l generalizing i with
  | nil => cases ha
  | cons b rest ih =>
    obtain ⟨hb, hrest⟩ := bind_eq_ok.mp h
    rcases List.mem_cons.mp ha with rfl | ha
    · exact ⟨i, hb⟩
    · exact ih hrest ha

theorem mapM_eq_ok {ε β : Type} {f : α → Except ε β} {l : List α} {r : List β} :
    l.mapM f = .ok r ↔ List.Forall₂ (fun a b => f a = .ok b) l r := by
  induction l generalizing r with
  | nil => simp [pure, Except.pure, eq_comm]
  | cons a rest ih =>
    rw [List.mapM_cons]
    constructor
    · intro h
      cases ha : f a with
      | error e => simp [ha, bind, Except.bind] at h
      | ok b =>
        cases hrest : rest.mapM f with
        | error e => simp [ha, hrest, bind, Except.bind] at h
        | ok bs =>
          simp only [ha, hrest, bind, Except.bind, pure, Except.pure, Except.ok.injEq] at h
          subst h
          exact .cons ha (ih.mp hrest)
    · rintro (_ | ⟨ha, hrest⟩)
      rw [ha, ih.mpr hrest]
      rfl

theorem exists_mapM_eq_ok {ε β : Type} {f : α → Except ε β} {l : List α} :
    (∃ r, l.mapM f = .ok r) ↔ ∀ a ∈ l, ∃ b, f a = .ok b := by
  constructor
  · rintro ⟨r, h⟩ a ha
    rw [mapM_eq_ok] at h
    induction h with
    | nil => cases ha
    | cons hb _ ih =>
      rcases List.mem_cons.mp ha with rfl | ha
      · exact ⟨_, hb⟩
      · exact ih ha
  · intro h
    induction l with
    | nil => exact ⟨[], rfl⟩
    | cons a rest ih =>
      obtain ⟨b, hb⟩ := h a List.mem_cons_self
      obtain ⟨r, hr⟩ := ih fun a ha => h a (List.mem_cons_of_mem _ ha)
      exact ⟨b :: r, mapM_eq_ok.mpr (.cons hb (mapM_eq_ok.mp hr))⟩

end Check

end EBeacon
