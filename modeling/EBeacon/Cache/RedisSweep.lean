import EBeacon.Cache.RedisIsolation

/-!
A call that goes through the keys of a store, while other commands come between its own.
-/

namespace EBeacon.Cache.Redis

open Text

variable {ρ β : Type} {svc : Keyspace String β} {codec : Codec ρ β} {r : RedisStore} {s s' s₀ : Redis svc} {i : ℕ}
  {key : String}

def Label.writes (k : String) : Label ρ β → Prop
  | .store q (.set key _ _) => q.prefixed key = k
  | .finalized network _ => finalizedKeyFor network = k
  | _ => False

def Label.fails (i : ℕ) : Label ρ β → Prop
  | .store _ (.broken j) => j = i
  | .store _ (.apply j performed _) => j = i ∧ performed = false
  | _ => False

/-- What `SCAN` guarantees: a key that matches and is there from the beginning of a call to the end of its scan is in
one of the replies. -/
def ScanReturns (glob : Glob) (codec : Codec ρ β) (s : Redis svc) (r : RedisStore) (i : ℕ)
    (labels : List (Label ρ β)) : Prop :=
  ∀ before after k, labels = before ++ .store r (.scanned i) :: after → glob.isMatch (r.prefixed "*") k = true →
    (∀ front rest t, before = front ++ rest → Runs.exec (next codec) s front = some t →
      (svc.find t.db k).isSome = true) →
    ∃ keys, .store r (.batch i keys) ∈ before ∧ k ∈ keys

theorem mem_trimKeys {keys : List String} (h : r.prefixed key ∈ keys) : key ∈ r.trimKeys keys := by
  unfold RedisStore.trimKeys
  refine List.mem_map.mpr ⟨r.prefixed key, ?_, trimPrefix_append r.keyPrefix key⟩
  exact List.mem_filter.mpr ⟨h, hasPrefix_prefixed r key⟩

section Fading

variable {k : String} {l : Label ρ β}

def Outlasts (since : ℤ) (l l' : Lease β) : Prop := l' = l ∨ ∃ d, l' = l.heldTo d ∧ since + foreverTTL ≤ d

def Fades (k : String) (s s' : Redis svc) : Prop :=
  s.now ≤ s'.now ∧ ∀ l', svc.find s'.db k = some l' → ∃ l, svc.find s.db k = some l ∧ Outlasts s.now l l'

theorem Fades.refl (s : Redis svc) : Fades k s s := ⟨le_rfl, fun l hl => ⟨l, hl, Or.inl rfl⟩⟩

theorem Fades.trans {u : Redis svc} (h : Fades k s s') (h' : Fades k s' u) : Fades k s u := by
  refine ⟨h.1.trans h'.1, fun l hl => ?_⟩
  obtain ⟨l₁, hl₁, hout₁⟩ := h'.2 l hl
  obtain ⟨l₀, hl₀, hout₀⟩ := h.2 l₁ hl₁
  refine ⟨l₀, hl₀, ?_⟩
  rcases hout₁ with rfl | ⟨d, rfl, hd⟩
  · exact hout₀
  · have hheld : l₁.heldTo d = l₀.heldTo d := by
      rcases hout₀ with rfl | ⟨d₀, rfl, -⟩
      · rfl
      · rfl
    have hle := h.1
    exact Or.inr ⟨d, hheld, by omega⟩

theorem Fades.of_db (h : s'.db = s.db) : Fades k s s' := by
  unfold Fades now
  rw [h]
  exact Fades.refl s

theorem fades_perform (s : Redis svc) {c : Command String β} (h : c.key ≠ k) : Fades k s (s.perform c) := by
  refine ⟨(svc.now_exec _ _).ge, fun l hl => ⟨l, ?_, Or.inl rfl⟩⟩
  rw [← hl]
  exact (svc.find_exec _ _ _ h.symm).symm

theorem fades_del (s : Redis svc) (other k : String) : Fades k s (s.perform (.del other)) := by
  by_cases hk : other = k
  · refine ⟨(svc.now_exec _ _).ge, fun l hl => ?_⟩
    rw [← hk, perform, svc.find_del] at hl
    cases hl
  · exact fades_perform s hk

theorem foreverTTL_le_expiry (svc : Keyspace String β) (now : ℤ) : now + foreverTTL ≤ svc.expiry now foreverTTL := by
  have hseconds : ((31536000 : ℕ) : ℤ) * 1000000000 = foreverTTL := by decide
  have hle := svc.le_expiry now 31536000
  rwa [hseconds] at hle

theorem fades_command (s : Redis svc) (w : Sweep) (other k : String) : Fades k s (s.perform (w.command other)) := by
  unfold Sweep.command
  cases w.action with
  | purge => exact fades_del s _ k
  | promote =>
    by_cases hk : w.store.prefixed other = k
    · refine ⟨(svc.now_exec _ _).ge, fun l hl => ?_⟩
      simp only [hk, perform] at hl
      rw [svc.find_expire _ _ _ (by decide)] at hl
      obtain ⟨l₀, hl₀, rfl⟩ := Option.map_eq_some_iff.mp hl
      exact ⟨l₀, hl₀, Or.inr ⟨_, rfl, foreverTTL_le_expiry svc _⟩⟩
    · exact fades_perform s hk

theorem fades_wait (s : Redis svc) (k : String) (d : ℕ) : Fades k s { s with db := svc.wait s.db d } := by
  refine ⟨?_, fun l hl => ⟨l, ?_, Or.inl rfl⟩⟩
  · change svc.now s.db ≤ svc.now (svc.wait s.db d)
    rw [svc.now_wait]
    omega
  · rw [svc.find_wait] at hl
    exact (Option.filter_eq_some_iff.mp hl).1

theorem next_fades (hwrites : ¬l.writes k) (hstep : s.next codec l = some s') : Fades k s s' := by
  cases l with
  | wait d =>
    cases hstep
    exact fades_wait s k d
  | lost other =>
    cases hstep
    exact fades_del s other k
  | finalized network data =>
    cases hstep
    exact fades_perform s hwrites
  | store q a =>
    change s.step codec q a = some s' at hstep
    cases a with
    | set other e ttl =>
      cases hstep
      cases hset : q.set codec other e ttl with
      | none => exact Fades.refl s
      | some c =>
        refine fades_perform s ?_
        rw [key_set hset]
        exact hwrites
    | delete other =>
      cases hstep
      exact fades_del s _ k
    | sweep j fn action =>
      simp only [step] at hstep
      split_ifs at hstep
      cases hstep
      exact .of_db rfl
    | batch j keys =>
      obtain ⟨v, found, -, -, rfl⟩ := batch_eq_some hstep
      exact .of_db rfl
    | scanned j =>
      obtain ⟨v, found, -, -, rfl⟩ := collected_eq_some hstep
      exact .of_db rfl
    | broken j =>
      obtain ⟨v, found, -, -, rfl⟩ := collected_eq_some hstep
      exact .of_db rfl
    | apply j performed answered =>
      obtain ⟨v, head, rest, result, -, -, -, rfl⟩ := apply_eq_some hstep
      cases performed with
      | true => exact (fades_command s v head k).trans (.of_db rfl)
      | false => exact .of_db rfl

theorem exec_fades {labels : List (Label ρ β)} (hwrites : ∀ l ∈ labels, ¬l.writes k)
    (hrun : Runs.exec (next codec) s labels = some s') : Fades k s s' := by
  refine Runs.exec_invariant_of_mem (I := Fades k s) (Fades.refl s) ?_ hrun
  intro l hl t u ht hstep
  exact ht.trans (next_fades (hwrites l hl) hstep)

theorem there_of_later {labels : List (Label ρ β)} (hwrites : ∀ l ∈ labels, ¬l.writes k)
    (hrun : Runs.exec (next codec) s labels = some s') (h : (svc.find s'.db k).isSome = true) :
    (svc.find s.db k).isSome = true := by
  obtain ⟨l, hl⟩ := Option.isSome_iff_exists.mp h
  obtain ⟨l₀, hl₀, -⟩ := (exec_fades hwrites hrun).2 l hl
  exact Option.isSome_of_eq_some hl₀

end Fading

section Progress

variable {w : Sweep} {l : Label ρ β}

inductive Goes (i : ℕ) (w : Sweep) (s s' : Redis svc) : Label ρ β → Sweep → Prop
  | idle {l : Label ρ β} (h : ∀ keys, l ≠ .store w.store (.batch i keys)) : Goes i w s s' l w
  | batch {found : List String} (keys : List String) (hphase : w.phase = .scanning found) :
    Goes i w s s' (.store w.store (.batch i keys)) { w with phase := .scanning (found ++ w.store.trimKeys keys) }
  | scanned {found : List String} (hphase : w.phase = .scanning found) :
    Goes i w s s' (.store w.store (.scanned i)) { w with phase := .applying (found.filter w.fn) }
  | failed {l : Label ρ β} {v : Sweep} (h : l.fails i) : Goes i w s s' l v
  | apply {head : String} {rest : List String} (answered : Bool) (result : List String)
    (hphase : w.phase = .applying (head :: rest)) (hdb : s'.db = svc.exec s.db (w.command head)) :
    Goes i w s s' (.store w.store (.apply i true answered)) { w with phase := .applying rest, result := result }

theorem sweeps_withSweep_ne {j : ℕ} {v : Sweep} (h : s.sweeps i = some w) (hj : j ≠ i) :
    (s.withSweep j v).sweeps i = some w :=
  (Function.update_of_ne hj.symm _ _).trans h

theorem eq_of_sweepOf {q : RedisStore} {v : Sweep} (h : s.sweeps i = some w) (hv : s.sweepOf q i = some v) :
    v = w ∧ w.store = q := by
  obtain ⟨hcall, hq⟩ := sweepOf_eq_some.mp hv
  rw [h] at hcall
  cases hcall
  exact ⟨rfl, hq⟩

theorem next_goes (h : s.sweeps i = some w) (hstep : s.next codec l = some s') :
    ∃ v, s'.sweeps i = some v ∧ Goes i w s s' l v := by
  cases l with
  | wait d =>
    cases hstep
    exact ⟨w, h, .idle (by simp)⟩
  | lost other =>
    cases hstep
    exact ⟨w, h, .idle (by simp)⟩
  | finalized network data =>
    cases hstep
    exact ⟨w, h, .idle (by simp)⟩
  | store q a =>
    change s.step codec q a = some s' at hstep
    cases a with
    | set other e ttl =>
      cases hstep
      refine ⟨w, ?_, .idle (by simp)⟩
      cases q.set codec other e ttl with
      | none => exact h
      | some c => exact h
    | delete other =>
      cases hstep
      exact ⟨w, h, .idle (by simp)⟩
    | sweep j fn action =>
      simp only [step] at hstep
      split_ifs at hstep with hj
      cases hstep
      refine ⟨w, sweeps_withSweep_ne h ?_, .idle (by simp)⟩
      rintro rfl
      simp [h] at hj
    | batch j keys =>
      obtain ⟨v, found, hv, hphase, rfl⟩ := batch_eq_some hstep
      by_cases hj : j = i
      · cases hj
        obtain ⟨rfl, rfl⟩ := eq_of_sweepOf h hv
        exact ⟨_, Function.update_self .., .batch keys hphase⟩
      · exact ⟨w, sweeps_withSweep_ne h hj, .idle (by simp [hj])⟩
    | scanned j =>
      obtain ⟨v, found, hv, hphase, rfl⟩ := collected_eq_some hstep
      by_cases hj : j = i
      · cases hj
        obtain ⟨rfl, rfl⟩ := eq_of_sweepOf h hv
        exact ⟨_, Function.update_self .., .scanned hphase⟩
      · exact ⟨w, sweeps_withSweep_ne h hj, .idle (by simp)⟩
    | broken j =>
      obtain ⟨v, found, hv, hphase, rfl⟩ := collected_eq_some hstep
      by_cases hj : j = i
      · cases hj
        exact ⟨_, Function.update_self .., .failed rfl⟩
      · exact ⟨w, sweeps_withSweep_ne h hj, .idle (by simp)⟩
    | apply j performed answered =>
      obtain ⟨v, head, rest, result, hv, hphase, -, rfl⟩ := apply_eq_some hstep
      by_cases hj : j = i
      · cases hj
        obtain ⟨rfl, rfl⟩ := eq_of_sweepOf h hv
        cases performed with
        | true => exact ⟨_, Function.update_self .., .apply answered _ hphase rfl⟩
        | false => exact ⟨_, Function.update_self .., .failed ⟨rfl, rfl⟩⟩
      · cases performed with
        | true => exact ⟨w, sweeps_withSweep_ne h hj, .idle (by simp)⟩
        | false => exact ⟨w, sweeps_withSweep_ne h hj, .idle (by simp)⟩

end Progress

structure IsCall (r : RedisStore) (fn : String → Bool) (action : Action) (w : Sweep) : Prop where
  store : w.store = r
  fn : w.fn = fn
  action : w.action = action

section Phases

variable {fn : String → Bool} {action : Action} {labels : List (Label ρ β)} {w v : Sweep} {l : Label ρ β}

theorem Goes.isCall (h : Goes i w s s' l v) (hcall : IsCall r fn action w)
    (hfails : ¬l.fails i) : IsCall r fn action v := by
  cases h with
  | idle _ => exact hcall
  | batch keys hphase => exact ⟨hcall.store, hcall.fn, hcall.action⟩
  | scanned hphase => exact ⟨hcall.store, hcall.fn, hcall.action⟩
  | failed h => exact absurd h hfails
  | apply answered result hphase hdb => exact ⟨hcall.store, hcall.fn, hcall.action⟩

def Collects (r : RedisStore) (fn : String → Bool) (action : Action) (i : ℕ) (labels : List (Label ρ β))
    (s : Redis svc) : Prop :=
  ∃ w, s.sweeps i = some w ∧ IsCall r fn action w ∧ ∀ found, w.phase = .scanning found →
    ∀ keys, .store r (.batch i keys) ∈ labels → r.trimKeys keys ⊆ found

theorem Collects.next (h : Collects r fn action i labels s) (hfails : ¬l.fails i)
    (hstep : s.next codec l = some s') : Collects r fn action i (labels ++ [l]) s' := by
  obtain ⟨w, hw, hcall, hkept⟩ := h
  obtain ⟨v, hv, hgoes⟩ := next_goes hw hstep
  refine ⟨v, hv, hgoes.isCall hcall hfails, fun found hfound keys hmem => ?_⟩
  rw [List.mem_append, List.mem_singleton] at hmem
  cases hgoes with
  | idle hidle =>
    rcases hmem with hmem | rfl
    · exact hkept found hfound keys hmem
    · exact absurd (congrArg (Label.store · _) hcall.store.symm) (hidle keys)
  | batch keys' hphase =>
    cases hfound
    rcases hmem with hmem | heq
    · exact List.subset_append_of_subset_left _ (hkept _ hphase keys hmem)
    · cases heq
      exact List.subset_append_right _ _
  | scanned hphase => cases hfound
  | failed h => exact absurd h hfails
  | apply answered result hphase hdb => cases hfound

theorem exec_collects (hbegun : s.sweeps i = some (.begin r fn action)) (hfails : ∀ l ∈ labels, ¬l.fails i)
    (hrun : Runs.exec (next codec) s labels = some s') : Collects r fn action i labels s' := by
  refine Runs.exec_induction (P := fun front t => (∀ l ∈ front, ¬l.fails i) → Collects r fn action i front t)
    ?_ ?_ hrun hfails
  · exact fun _ => ⟨_, hbegun, ⟨rfl, rfl, rfl⟩, fun _ _ _ hmem => by cases hmem⟩
  · intro front t l t' _ ih hnext hfront
    exact (ih fun l' hl' => hfront l' (List.mem_append_left _ hl')).next (hfront l (by simp)) hnext

def Applying (i : ℕ) (s : Redis svc) : Prop := ∃ w rest, s.sweeps i = some w ∧ w.phase = .applying rest

theorem not_applying_begin (h : s.sweeps i = some (.begin r fn action)) : ¬Applying i s := by
  rintro ⟨w, rest, hw, hphase⟩
  cases h.symm.trans hw
  cases hphase

theorem Goes.scanned_of_applying (h : Goes i w s s' l v) (hcall : IsCall r fn action w) (hfails : ¬l.fails i)
    (hw : ∀ rest, w.phase ≠ .applying rest) {rest : List String} (hv : v.phase = .applying rest) :
    ∃ found, w.phase = .scanning found ∧ l = .store r (.scanned i) ∧ rest = found.filter fn := by
  cases h with
  | idle _ => exact absurd hv (hw rest)
  | batch keys hphase => cases hv
  | failed h => exact absurd h hfails
  | apply answered result hphase hdb => exact absurd hphase (hw _)
  | @scanned found hphase =>
    cases hv
    exact ⟨found, hphase, by rw [hcall.store], by rw [hcall.fn]⟩

def Settles (r : RedisStore) (fn : String → Bool) (action : Action) (i : ℕ) (key : String) (since : ℤ)
    (s : Redis svc) : Prop :=
  since ≤ s.now ∧ ∃ w rest, s.sweeps i = some w ∧ IsCall r fn action w ∧ w.phase = .applying rest ∧
    ∀ l, svc.find s.db (r.prefixed key) = some l →
      key ∈ rest ∨ action = .promote ∧ ∃ d, l.deadline = some d ∧ since + foreverTTL ≤ d

theorem find_command (hcall : IsCall r fn action w) (s : Redis svc) {l : Lease β}
    (hl : svc.find (svc.exec s.db (w.command key)) (r.prefixed key) = some l) :
    action = .promote ∧ ∃ d, l.deadline = some d ∧ s.now + foreverTTL ≤ d := by
  unfold Sweep.command at hl
  rw [hcall.action, hcall.store] at hl
  cases action with
  | purge =>
    rw [RedisStore.delete, svc.find_del] at hl
    cases hl
  | promote =>
    rw [svc.find_expire _ _ _ (by decide)] at hl
    obtain ⟨l₀, -, rfl⟩ := Option.map_eq_some_iff.mp hl
    exact ⟨rfl, _, rfl, foreverTTL_le_expiry svc _⟩

theorem Settles.next {since : ℤ} (h : Settles r fn action i key since s) (hwrites : ¬l.writes (r.prefixed key))
    (hfails : ¬l.fails i) (hstep : s.next codec l = some s') : Settles r fn action i key since s' := by
  obtain ⟨hsince, w, rest, hw, hcall, hphase, hsettled⟩ := h
  obtain ⟨v, hv, hgoes⟩ := next_goes hw hstep
  have hfades := next_fades hwrites hstep
  -- what was settled for the key before the step is settled after it
  have hkept : ∀ l, svc.find s'.db (r.prefixed key) = some l →
      key ∈ rest ∨ action = .promote ∧ ∃ d, l.deadline = some d ∧ since + foreverTTL ≤ d := by
    intro l hl
    obtain ⟨l₀, hl₀, rfl | ⟨d, rfl, hd⟩⟩ := hfades.2 l hl
    · exact hsettled l hl₀
    · exact (hsettled l₀ hl₀).imp id fun h => ⟨h.1, d, rfl, by omega⟩
  refine ⟨hsince.trans hfades.1, ?_⟩
  cases hgoes with
  | idle _ => exact ⟨w, rest, hv, hcall, hphase, hkept⟩
  | batch keys hscanning => cases hphase.symm.trans hscanning
  | scanned hscanning => cases hphase.symm.trans hscanning
  | failed h => exact absurd h hfails
  | @apply head rest' answered result happlying hdb =>
    cases hphase.symm.trans happlying
    refine ⟨_, rest', hv, ⟨hcall.store, hcall.fn, hcall.action⟩, rfl, fun l hl => ?_⟩
    rcases hkept l hl with hmem | hdone
    · rcases List.mem_cons.mp hmem with rfl | hrest
      · rw [hdb] at hl
        obtain ⟨haction, d, hd, hle⟩ := find_command hcall s hl
        exact Or.inr ⟨haction, d, hd, by omega⟩
      · exact Or.inl hrest
    · exact Or.inr hdone

end Phases

variable {glob : Glob} {fn : String → Bool} {action : Action} {labels : List (Label ρ β)} {w : Sweep}

theorem scan_complete (hliteral : containsAny r.keyPrefix "*?[\\" = false)
    (hbegun : s.sweeps i = some (.begin r fn action)) (hrun : Runs.exec (next codec) s labels = some s')
    (hend : s'.sweeps i = some w) (hdone : w.finished) (hscan : ScanReturns glob codec s r i labels)
    (hfails : ∀ l ∈ labels, ¬l.fails i) (hfn : fn key = true) (hwrites : ∀ l ∈ labels, ¬l.writes (r.prefixed key))
    (hthere : (svc.find s'.db (r.prefixed key)).isSome = true) :
    ∃ after v, after ⊆ labels ∧ Runs.exec (next codec) v after = some s' ∧ Settles r fn action i key s.now v := by
  obtain ⟨before, a, after, u, v, rfl, hbefore, hstep, hscanning, w', rest, hw', hphase⟩ :=
    Runs.exec_becomes (P := Applying i) (not_applying_begin hbegun) hrun ⟨w, [], hend, hdone⟩
  have hafter : Runs.exec (next codec) v after = some s' := by
    rw [Runs.exec_append, hbefore, Option.bind_some, Runs.exec_cons, hstep, Option.bind_some] at hrun
    exact hrun
  have hfrom : Fades (r.prefixed key) s v :=
    (exec_fades (fun l hl => hwrites l (List.mem_append_left _ hl)) hbefore).trans
      (next_fades (hwrites a (by simp)) hstep)
  obtain ⟨w₁, hw₁, hcall, hkept⟩ := exec_collects hbegun (fun l hl => hfails l (List.mem_append_left _ hl)) hbefore
  obtain ⟨v', hv', hgoes⟩ := next_goes hw₁ hstep
  cases hw'.symm.trans hv'
  obtain ⟨found, hfound, rfl, rfl⟩ := hgoes.scanned_of_applying hcall (hfails a (by simp))
    (fun rest h => hscanning ⟨w₁, rest, hw₁, h⟩) hphase
  refine ⟨after, v, by simp, hafter, hfrom.1, w', _, hw', hgoes.isCall hcall (hfails _ (by simp)), hphase,
    fun _ _ => Or.inl ?_⟩
  have hmatch : glob.isMatch (r.prefixed "*") (r.prefixed key) = true := by
    refine (glob.literal _ _ hliteral).trans ?_
    exact hasPrefix_prefixed r key
  obtain ⟨keys, hmem, hkey⟩ := hscan before after (r.prefixed key) rfl hmatch (fun front rest t hsplit hfront => by
    rw [hsplit, List.append_assoc, Runs.exec_append, hfront, Option.bind_some] at hrun
    refine there_of_later (fun l hl => hwrites l ?_) hrun hthere
    rw [hsplit, List.append_assoc]
    exact List.mem_append_right _ hl)
  exact List.mem_filter.mpr ⟨hkept found hfound keys hmem (mem_trimKeys hkey), hfn⟩

/-- A call that gets to its end has dealt with every key that was there when it began, whatever came between its
commands: of the keys that were not written since, a purge leaves none, and those that are still there after a
promotion are held for a year from its beginning. -/
theorem sweep_complete (hliteral : containsAny r.keyPrefix "*?[\\" = false)
    (hcall : s₀.step codec r (.sweep i fn action) = some s)
    (hrun : Runs.exec (next codec) s labels = some s') (hend : s'.sweeps i = some w) (hdone : w.finished)
    (hscan : ScanReturns glob codec s r i labels) (hfails : ∀ l ∈ labels, ¬l.fails i) (hfn : fn key = true)
    (hwrites : ∀ l ∈ labels, ¬l.writes (r.prefixed key)) :
    (action = .purge → svc.find s'.db (r.prefixed key) = none) ∧
      (action = .promote → ∀ l, svc.find s'.db (r.prefixed key) = some l →
        ∃ l₀ d, svc.find s₀.db (r.prefixed key) = some l₀ ∧ l = ⟨l₀.value, some d⟩ ∧ s₀.now + foreverTTL ≤ d) := by
  simp only [step] at hcall
  split_ifs at hcall
  cases hcall
  have hsettled : ∀ l, svc.find s'.db (r.prefixed key) = some l →
      action = .promote ∧ ∃ d, l.deadline = some d ∧ s₀.now + foreverTTL ≤ d := by
    intro l hl
    obtain ⟨after, v, hsub, hafter, hv⟩ := scan_complete hliteral (Function.update_self ..) hrun hend hdone hscan hfails
      hfn hwrites (Option.isSome_of_eq_some hl)
    obtain ⟨-, w', rest, hw', -, hphase, h⟩ : Settles r fn action i key s₀.now s' :=
      Runs.exec_invariant_of_mem (I := Settles r fn action i key s₀.now) hv
        (fun l hl t u ht hstep => ht.next (hwrites l (hsub hl)) (hfails l (hsub hl)) hstep) hafter
    cases hw'.symm.trans hend
    cases hphase.symm.trans hdone
    simpa using h l hl
  constructor
  · rintro rfl
    rw [Option.eq_none_iff_forall_ne_some]
    intro l hl
    cases (hsettled l hl).1
  · rintro - l hl
    obtain ⟨-, d, hd, hle⟩ := hsettled l hl
    obtain ⟨l₀, hl₀, hout⟩ := (exec_fades hwrites hrun).2 l hl
    have hvalue : l.value = l₀.value := by
      rcases hout with rfl | ⟨_, rfl, -⟩
      · rfl
      · rfl
    refine ⟨l₀, d, hl₀, ?_, hle⟩
    rw [← hvalue, ← hd]

def twoEntries : Redis plainService :=
  (emptyRedis.perform (.set "ebeacon:hoodi:a" ("a", "1") 9)).perform (.set "ebeacon:hoodi:b" ("b", "2") 9)

theorem find_twoEntries {k : String} (h : (plainService.find twoEntries.db k).isSome = true) :
    k ∈ ["ebeacon:hoodi:b", "ebeacon:hoodi:a"] := by
  by_contra hk
  rw [List.mem_cons, List.mem_singleton, not_or] at hk
  have hb : plainService.find twoEntries.db k = plainService.find _ k :=
    plainService.find_exec _ (.set "ebeacon:hoodi:b" ("b", "2") 9) k hk.1
  have ha : _ = plainService.find emptyRedis.db k :=
    plainService.find_exec _ (.set "ebeacon:hoodi:a" ("a", "1") 9) k hk.2
  rw [hb.trans ha] at h
  cases h

def plainGlob : Glob where
  isMatch pattern key := hasPrefix key (take pattern (pattern.length - 1))
  literal p key _ := by
    rw [String.length_append]
    exact congrArg (hasPrefix key) (take_append p "*")

def purgeBoth : List (Label String (String × String)) :=
  [.store (.forNetwork "hoodi") (.batch 0 ["ebeacon:hoodi:b", "ebeacon:hoodi:a"]),
    .store (.forNetwork "hoodi") (.delete "b"), .wait 5, .store (.forNetwork "hoodi") (.scanned 0),
    .store (.forNetwork "hoodi") (.apply 0 true true), .store (.forNetwork "hoodi") (.apply 0 true true)]

theorem sweep_complete_purgeBoth :
    ∃ s s', twoEntries.step plainCodec (.forNetwork "hoodi") (.sweep 0 (fun _ => true) .purge) = some s ∧
      Runs.exec (next plainCodec) s purgeBoth = some s' ∧
      plainService.find s'.db ((RedisStore.forNetwork "hoodi").prefixed "a") = none := by
  obtain ⟨s, s', w, hs, hrun, hw, hphase⟩ : ∃ s s' w,
      twoEntries.step plainCodec (.forNetwork "hoodi") (.sweep 0 (fun _ => true) .purge) = some s ∧
        Runs.exec (next plainCodec) s purgeBoth = some s' ∧ s'.sweeps 0 = some w ∧ w.phase = .applying [] :=
    ⟨_, _, _, rfl, rfl, rfl, rfl⟩
  have hscan : ScanReturns plainGlob plainCodec s (.forNetwork "hoodi") 0 purgeBoth := by
    intro before after k hlabels _ hthere
    cases hs
    have hfirst := hthere [] before _ rfl (Runs.exec_nil _ _)
    cases before with
    | nil => cases hlabels
    | cons l before =>
      obtain ⟨rfl, -⟩ := List.cons.inj hlabels
      exact ⟨_, List.mem_cons_self, find_twoEntries hfirst⟩
  refine ⟨s, s', hs, hrun, (sweep_complete (by decide) hs hrun hw hphase hscan ?_ rfl ?_).1 rfl⟩
  · simp [purgeBoth, Label.fails]
  · simp [purgeBoth, Label.writes]

end EBeacon.Cache.Redis
