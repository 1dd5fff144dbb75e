import EBeacon.Library.Runs
import Mathlib.Data.List.Basic
import Mathlib.Logic.Function.Basic

/-!
Objects that are made on first use. A call looks for the object of its key without the lock of the table, and
takes the lock and looks again only when there is none. The steps of calls interleave.
-/

namespace EBeacon.Interning

-- what a call has still to do: look, make what it has not found, or act on what it has; a call that makes
-- nothing ends when it finds nothing
inductive Phase
  | looking
  | missing
  | holding (ref : ℕ)
  | absent
  | done
  deriving DecidableEq, Repr

structure Call (κ α : Type) where
  key : κ
  act : α
  create : Bool
  phase : Phase

structure State (κ ω α : Type) where
  heap : List ω
  table : κ → Option ℕ
  calls : List (Call κ α)

inductive Label (κ α : Type)
  | call (key : κ) (act : α) (create : Bool)
  | look (i : ℕ)
  | make (i : ℕ)
  | act (i : ℕ)

variable {κ ω α : Type} [DecidableEq κ]

namespace State

def start : State κ ω α := ⟨[], fun _ => none, []⟩

def withPhase (s : State κ ω α) (i : ℕ) (c : Call κ α) (phase : Phase) : State κ ω α :=
  { s with calls := s.calls.set i { c with phase := phase } }

variable (fresh : ω) (apply : ω → α → ω)

def next (s : State κ ω α) : Label κ α → Option (State κ ω α)
  | .call key act create => some { s with calls := s.calls ++ [⟨key, act, create, .looking⟩] }
  | .look i => do
    let c ← s.calls[i]?
    if c.phase = .looking then
      some (s.withPhase i c ((s.table c.key).elim (if c.create then .missing else .absent) .holding))
    else none
  | .make i => do
    let c ← s.calls[i]?
    if c.phase = .missing then
      match s.table c.key with
      | some ref => some (s.withPhase i c (.holding ref))
      | none => some ({ s with
          heap := s.heap ++ [fresh]
          table := Function.update s.table c.key (some s.heap.length) }.withPhase i c (.holding s.heap.length))
    else none
  | .act i => do
    let c ← s.calls[i]?
    match c.phase with
    | .holding ref => some ({ s with heap := s.heap.modify ref (apply · c.act) }.withPhase i c .done)
    | _ => none

end State

def performed (s : State κ ω α) : Label κ α → List (κ × α)
  | .call _ _ _ => []
  | .look _ => []
  | .make _ => []
  | .act i => ((s.calls[i]?).map (fun c => (c.key, c.act))).toList

def actsOn (done : List (κ × α)) (key : κ) : List α := (done.filter (fun a => a.1 = key)).map Prod.snd

section Soundness

variable {fresh : ω} {apply : ω → α → ω} {s s' : State κ ω α} {done : List (κ × α)}

theorem actsOn_concat (done : List (κ × α)) (a : κ × α) (key : κ) :
    actsOn (done ++ [a]) key = actsOn done key ++ if a.1 = key then [a.2] else [] := by
  unfold actsOn
  rw [List.filter_append, List.map_append]
  split_ifs with h
  · simp [h]
  · simp [h]

structure Sound (fresh : ω) (apply : ω → α → ω) (done : List (κ × α)) (s : State κ ω α) : Prop where
  injective : ∀ k k' ref, s.table k = some ref → s.table k' = some ref → k = k'
  object : ∀ k ref, s.table k = some ref → s.heap[ref]? = some ((actsOn done k).foldl apply fresh)
  holding : ∀ c ∈ s.calls, ∀ ref, c.phase = .holding ref → s.table c.key = some ref
  unused : ∀ k, s.table k = none → actsOn done k = []

theorem Sound.start : Sound fresh apply [] (State.start : State κ ω α) :=
  ⟨nofun, nofun, nofun, fun _ _ => rfl⟩

theorem Sound.withPhase (h : Sound fresh apply done s) (i : ℕ) (c : Call κ α) {phase : Phase}
    (hphase : ∀ ref, phase = .holding ref → s.table c.key = some ref) :
    Sound fresh apply done (s.withPhase i c phase) := by
  refine ⟨h.injective, h.object, ?_, h.unused⟩
  intro d hd ref href
  rcases List.mem_or_eq_of_mem_set hd with hd | rfl
  · exact h.holding d hd ref href
  · exact hphase ref href

theorem Sound.made (h : Sound fresh apply done s) {key : κ} (hnone : s.table key = none) :
    Sound fresh apply done
      { s with heap := s.heap ++ [fresh], table := Function.update s.table key (some s.heap.length) } := by
  have hnew : ∀ k ref, s.table k = some ref → ref < s.heap.length := by
    intro k ref href
    exact (List.getElem?_eq_some_iff.mp (h.object k ref href)).1
  refine ⟨?_, ?_, ?_, ?_⟩
  · intro k k' ref hk hk'
    dsimp only at hk hk'
    rw [Function.update_apply] at hk hk'
    split_ifs at hk hk' with hkey hkey' hkey'
    · rw [hkey, hkey']
    · have := hnew k' ref hk'
      rw [Option.some.injEq] at hk
      omega
    · have := hnew k ref hk
      rw [Option.some.injEq] at hk'
      omega
    · exact h.injective k k' ref hk hk'
  · intro k ref hk
    dsimp only at hk ⊢
    rw [Function.update_apply] at hk
    split_ifs at hk with hkey
    · rw [Option.some.injEq] at hk
      rw [← hk, hkey, h.unused key hnone]
      simp
    · rw [List.getElem?_append_left (hnew k ref hk)]
      exact h.object k ref hk
  · intro c hc ref href
    have htable := h.holding c hc ref href
    dsimp only
    rw [Function.update_of_ne]
    · exact htable
    · rintro hkey
      rw [hkey, hnone] at htable
      cases htable
  · intro k hk
    dsimp only at hk
    rw [Function.update_apply] at hk
    split_ifs at hk
    exact h.unused k hk

theorem Sound.acted (h : Sound fresh apply done s) {key : κ} {ref : ℕ} (htable : s.table key = some ref) (act : α) :
    Sound fresh apply (done ++ [(key, act)]) { s with heap := s.heap.modify ref (apply · act) } := by
  refine ⟨h.injective, ?_, h.holding, ?_⟩
  · intro k r hk
    rw [actsOn_concat, List.getElem?_modify, h.object k r hk, Option.map_eq_map, Option.map_some]
    by_cases hkey : key = k
    · subst hkey
      rw [htable, Option.some.injEq] at hk
      rw [if_pos hk, if_pos rfl, List.foldl_append]
      rfl
    · have hne : ref ≠ r := fun he => hkey (h.injective key k r (he ▸ htable) hk)
      rw [if_neg hne, if_neg hkey, List.append_nil]
  · intro k hk
    have hne : key ≠ k := fun he => by rw [← he] at hk; rw [htable] at hk; cases hk
    rw [actsOn_concat, if_neg hne, List.append_nil]
    exact h.unused k hk

theorem Sound.step (h : Sound fresh apply done s) {l : Label κ α} (hs : s.next fresh apply l = some s') :
    Sound fresh apply (done ++ performed s l) s' := by
  cases l with
  | call key act create =>
    cases hs
    rw [performed, List.append_nil]
    refine ⟨h.injective, h.object, ?_, h.unused⟩
    intro c hc ref href
    rcases List.mem_append.mp hc with hc | hc
    · exact h.holding c hc ref href
    · rw [List.mem_singleton.mp hc] at href
      cases href
  | look i =>
    obtain ⟨c, hc, hs⟩ := Option.bind_eq_some_iff.mp hs
    rw [performed, List.append_nil]
    by_cases hlooking : c.phase = .looking
    · rw [if_pos hlooking] at hs
      cases hs
      apply h.withPhase
      intro ref href
      cases htable : s.table c.key with
      | none =>
        rw [htable, Option.elim_none] at href
        split_ifs at href
      | some ref' =>
        rw [htable] at href
        cases href
        rfl
    · rw [if_neg hlooking] at hs
      cases hs
  | make i =>
    obtain ⟨c, hc, hs⟩ := Option.bind_eq_some_iff.mp hs
    rw [performed, List.append_nil]
    split_ifs at hs
    split at hs
    · rename_i ref htable
      cases hs
      exact h.withPhase i c (fun _ he => by cases he; exact htable)
    · rename_i htable
      cases hs
      exact (h.made htable).withPhase i c (fun _ he => by cases he; exact Function.update_self ..)
  | act i =>
    obtain ⟨c, hc, hs⟩ := Option.bind_eq_some_iff.mp hs
    split at hs
    · rename_i ref hphase
      cases hs
      rw [performed, hc]
      have htable := h.holding c (List.mem_of_getElem? hc) ref hphase
      exact (h.acted htable c.act).withPhase i c nofun
    · cases hs

def Accounted (done : List (κ × α)) (s : State κ ω α) : Prop :=
  done.Perm ((s.calls.filter (fun c => c.phase = .done)).map (fun c => (c.key, c.act)))

omit [DecidableEq κ] in
theorem Accounted.withPhase (h : Accounted done s) {i : ℕ} {c : Call κ α} (phase : Phase) (hc : s.calls[i]? = some c)
    (hphase : c.phase ≠ .done) :
    Accounted (done ++ if phase = .done then [(c.key, c.act)] else []) (s.withPhase i c phase) := by
  obtain ⟨hi, hget⟩ := List.getElem?_eq_some_iff.mp hc
  unfold Accounted at h ⊢
  have hbefore : s.calls.filter (fun c => c.phase = .done) =
      (s.calls.take i).filter (fun c => c.phase = .done) ++ (s.calls.drop (i + 1)).filter (fun c => c.phase = .done) := by
    conv_lhs => rw [← List.take_append_drop i s.calls, List.drop_eq_getElem_cons hi, hget]
    rw [List.filter_append, List.filter_cons_of_neg (by simpa using hphase)]
  rw [hbefore] at h
  have hafter : (s.withPhase i c phase).calls = s.calls.take i ++ { c with phase := phase } :: s.calls.drop (i + 1) :=
    (List.set_eq_take_append_cons_drop ..).trans (if_pos hi)
  rw [hafter, List.filter_append]
  split_ifs with hdone
  · rw [List.filter_cons_of_pos (by simpa using hdone), List.map_append, List.map_cons]
    rw [List.map_append] at h
    exact (List.perm_append_singleton _ _).trans ((h.cons _).trans List.perm_middle.symm)
  · rw [List.filter_cons_of_neg (by simpa using hdone), List.append_nil]
    exact h

theorem Accounted.step (h : Accounted done s) {l : Label κ α} (hs : s.next fresh apply l = some s') :
    Accounted (done ++ performed s l) s' := by
  cases l with
  | call key act create =>
    cases hs
    rw [performed, List.append_nil]
    unfold Accounted at h ⊢
    rw [List.filter_append, List.filter_cons_of_neg (by simp), List.filter_nil, List.append_nil]
    exact h
  | look i =>
    obtain ⟨c, hc, hs⟩ := Option.bind_eq_some_iff.mp hs
    by_cases hlooking : c.phase = .looking
    · rw [if_pos hlooking] at hs
      cases hs
      have hphase : ∀ ref : Option ℕ, (ref.elim (if c.create then Phase.missing else .absent) .holding) ≠ .done := by
        intro ref
        cases ref <;> cases c.create <;> simp
      have hstep := h.withPhase ((s.table c.key).elim (if c.create then .missing else .absent) .holding) hc
        (by rw [hlooking]; simp)
      rwa [if_neg (hphase _)] at hstep
    · rw [if_neg hlooking] at hs
      cases hs
  | make i =>
    obtain ⟨c, hc, hs⟩ := Option.bind_eq_some_iff.mp hs
    split_ifs at hs with hmissing
    have hne : c.phase ≠ .done := by rw [hmissing]; simp
    split at hs
    · rename_i ref htable
      cases hs
      exact h.withPhase (.holding ref) hc hne
    · cases hs
      exact Accounted.withPhase (s := { s with
        heap := s.heap ++ [fresh], table := Function.update s.table c.key (some s.heap.length) }) h
        (.holding s.heap.length) hc hne
  | act i =>
    obtain ⟨c, hc, hs⟩ := Option.bind_eq_some_iff.mp hs
    split at hs
    · rename_i ref hholding
      cases hs
      rw [performed, hc]
      exact Accounted.withPhase (s := { s with heap := s.heap.modify ref (apply · c.act) }) h .done hc
        (by rw [hholding]; simp)
    · cases hs

def Label.called : Label κ α → List (κ × α × Bool)
  | .call key a create => [(key, a, create)]
  | .look _ => []
  | .make _ => []
  | .act _ => []

structure Kept (called : List (κ × α × Bool)) (s : State κ ω α) : Prop where
  calls : s.calls.map (fun c => (c.key, c.act, c.create)) = called
  absent : ∀ c ∈ s.calls, c.phase = .absent → c.create = false

omit [DecidableEq κ] in
theorem Kept.withPhase {called : List (κ × α × Bool)} (h : Kept called s) {i : ℕ} {c : Call κ α} {phase : Phase}
    (hc : s.calls[i]? = some c) (hphase : phase = .absent → c.create = false) : Kept called (s.withPhase i c phase) := by
  obtain ⟨hi, hget⟩ := List.getElem?_eq_some_iff.mp hc
  refine ⟨?_, ?_⟩
  · rw [← h.calls]
    change (s.calls.set i _).map _ = _
    rw [List.map_set]
    apply List.ext_getElem?
    intro j
    rw [List.getElem?_set]
    split_ifs with hj hlt
    · rw [← hj, List.getElem?_map, hc]
      rfl
    · rw [List.getElem?_eq_none (by omega)]
    · rfl
  · intro d hd habsent
    rcases List.mem_or_eq_of_mem_set hd with hd | rfl
    · exact h.absent d hd habsent
    · exact hphase habsent

theorem Kept.step {called : List (κ × α × Bool)} (h : Kept called s) {l : Label κ α}
    (hs : s.next fresh apply l = some s') : Kept (called ++ l.called) s' := by
  cases l with
  | call key act create =>
    cases hs
    refine ⟨?_, ?_⟩
    · dsimp only
      rw [List.map_append, h.calls]
      rfl
    · intro c hc habsent
      rcases List.mem_append.mp hc with hc | hc
      · exact h.absent c hc habsent
      · rw [List.mem_singleton.mp hc] at habsent
        cases habsent
  | look i =>
    obtain ⟨c, hc, hs⟩ := Option.bind_eq_some_iff.mp hs
    rw [Label.called, List.append_nil]
    by_cases hlooking : c.phase = .looking
    · rw [if_pos hlooking] at hs
      cases hs
      apply h.withPhase hc
      cases s.table c.key <;> cases c.create <;> simp
    · rw [if_neg hlooking] at hs
      cases hs
  | make i =>
    obtain ⟨c, hc, hs⟩ := Option.bind_eq_some_iff.mp hs
    rw [Label.called, List.append_nil]
    split_ifs at hs
    split at hs
    · cases hs
      exact h.withPhase hc nofun
    · cases hs
      exact Kept.withPhase (s := { s with
        heap := s.heap ++ [fresh], table := Function.update s.table c.key (some s.heap.length) })
        ⟨h.calls, h.absent⟩ hc nofun
  | act i =>
    obtain ⟨c, hc, hs⟩ := Option.bind_eq_some_iff.mp hs
    rw [Label.called, List.append_nil]
    split at hs
    · rename_i ref hholding
      cases hs
      exact Kept.withPhase (s := { s with heap := s.heap.modify ref (apply · c.act) }) ⟨h.calls, h.absent⟩ hc nofun
    · cases hs

theorem kept_of_run {labels : List (Label κ α)} (hrun : Runs.exec (State.next fresh apply) .start labels = some s) :
    Kept (labels.flatMap Label.called) s := by
  refine Runs.exec_induction (P := fun labels s => Kept (labels.flatMap Label.called) s) ?_ ?_ hrun
  · exact ⟨rfl, nofun⟩
  · intro labels t a u _ h hs
    rw [List.flatMap_append, List.flatMap_singleton]
    exact h.step hs

/-- After any interleaving of calls, the acts that have been performed are those of the calls that are done, and the
object of a key is what its own acts have made of it. -/
theorem sound_of_run {labels : List (Label κ α)} (hrun : Runs.exec (State.next fresh apply) .start labels = some s) :
    Sound fresh apply (Runs.collect (State.next fresh apply) performed .start labels) s ∧
      Accounted (Runs.collect (State.next fresh apply) performed .start labels) s := by
  have hstart : Sound fresh apply [] (State.start : State κ ω α) ∧ Accounted [] (State.start : State κ ω α) :=
    ⟨Sound.start, List.Perm.refl _⟩
  exact Runs.collect_invariant (I := fun done s => Sound fresh apply done s ∧ Accounted done s)
    (fun l _ done t u h hs => ⟨h.1.step hs, h.2.step hs⟩) hstart hrun

end Soundness

end EBeacon.Interning
