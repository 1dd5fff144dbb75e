import EBeacon.Network.Promotion

namespace EBeacon.Network.Selected

open Upstream Proc Promotion

inductive Kind
  | refused
  | failed
  | serverError
  | pruned
  | answer
  deriving DecidableEq, Repr

section

variable (h : (e : Eff) → e.Answer) (c : Call)

def kind (u : Upstream) : Kind :=
  match (eval h (forward u)).result with
  | .error e => if e = .circuitUnavailable then .refused else .failed
  | .ok r =>
    if r.status < 500 then if pruningShaped c r then .pruned else .answer
    else .serverError

def returned (u : Upstream) : Option Served :=
  match (eval h (forward u)).result with
  | .error _ => none
  | .ok r => if r.status < 500 then some (served h c u r) else some ⟨r, u, none⟩

def Gives (ups : List Upstream) (k : Kind) (result : Except ExecError Served) : Prop :=
  ∃ u ∈ ups, kind h c u = k ∧ ∃ s, returned h c u = some s ∧ result = .ok s

structure Ranked (ups : List Upstream) (result : Except ExecError Served) : Prop where
  answer : ∀ u, ups.find? (fun u => kind h c u = .answer) = some u →
    ∃ s, returned h c u = some s ∧ result = .ok s
  pruned : (∀ u ∈ ups, kind h c u ≠ .answer) → (∃ u ∈ ups, kind h c u = .pruned) →
    Gives h c ups .pruned result
  serverError : (∀ u ∈ ups, kind h c u ≠ .answer ∧ kind h c u ≠ .pruned) →
    (∃ u ∈ ups, kind h c u = .serverError) → Gives h c ups .serverError result
  error : ∀ e, result = .error e → ∀ u ∈ ups, kind h c u = .refused ∨ kind h c u = .failed

def PrunedLast (ups : List Upstream) : Prop :=
  ∀ before u after, ups = before ++ u :: after → kind h c u = .serverError →
    (∃ v ∈ before, kind h c v = .pruned) → ∃ v ∈ after, kind h c v = .pruned

end

variable {h : (e : Eff) → e.Answer} {c : Call}

section Cases

variable {u : Upstream}

theorem kind_error {e : AttemptError} (hr : (eval h (forward u)).result = .error e) :
    kind h c u = (if e = .circuitUnavailable then .refused else .failed) ∧ returned h c u = none := by
  simp only [kind, returned, hr, and_self]

theorem kind_serverError {r : Response} (hr : (eval h (forward u)).result = .ok r) (h5 : ¬ r.status < 500) :
    kind h c u = .serverError ∧ returned h c u = some ⟨r, u, none⟩ := by
  simp only [kind, returned, hr, if_neg h5, and_self]

theorem kind_response {r : Response} (hr : (eval h (forward u)).result = .ok r) (h5 : r.status < 500) :
    kind h c u = (if pruningShaped c r then .pruned else .answer) ∧
      returned h c u = some (served h c u r) := by
  simp only [kind, returned, hr, if_pos h5, and_self]

theorem returned_eq_none : returned h c u = none ↔ kind h c u = .refused ∨ kind h c u = .failed := by
  cases hr : (eval h (forward u)).result with
  | error e =>
    obtain ⟨hk, hn⟩ := kind_error (c := c) hr
    rw [hk, hn]
    split_ifs <;> simp
  | ok r =>
    by_cases h5 : r.status < 500
    · obtain ⟨hk, hs⟩ := kind_response (c := c) hr h5
      rw [hk, hs]
      split_ifs <;> simp
    · obtain ⟨hk, hs⟩ := kind_serverError (c := c) hr h5
      rw [hk, hs]
      simp

theorem returned_status {s : Served} (hs : returned h c u = some s) :
    s.response.status < 500 ↔ kind h c u ≠ .serverError := by
  cases hr : (eval h (forward u)).result with
  | error e =>
    rw [(kind_error hr).2] at hs
    cases hs
  | ok r =>
    by_cases h5 : r.status < 500
    · obtain ⟨hk, hs'⟩ := kind_response (c := c) hr h5
      have hstatus : s.response.status = r.status := by
        rw [← Option.some.inj (hs'.symm.trans hs)]
        exact peekBodyForPruning_status r c.target
      rw [hk, hstatus]
      split_ifs <;> simp [h5]
    · obtain ⟨hk, hs'⟩ := kind_serverError (c := c) hr h5
      rw [hk, ← Option.some.inj (hs'.symm.trans hs)]
      simp [h5]

end Cases

def lastReturned (h : (e : Eff) → e.Answer) (c : Call) (ups : List Upstream) : Option Served :=
  ups.reverse.findSome? (returned h c)

theorem lastReturned_cons (u : Upstream) (rest : List Upstream) :
    lastReturned h c (u :: rest) = (lastReturned h c rest).or (returned h c u) := by
  simp only [lastReturned, List.reverse_cons, List.findSome?_append, List.findSome?_singleton]

section Loop

variable (i : ℕ) (buffered : Option Served) (last : Option AttemptError)

theorem loop_step (hq : Quiet h) (u : Upstream) (rest : List Upstream) :
    (kind h c u = .answer →
      ∃ s, returned h c u = some s ∧ eval h (selectedLoop c i buffered last (u :: rest)) = .ok s) ∧
    (kind h c u ≠ .answer → ∃ last', eval h (selectedLoop c i buffered last (u :: rest)) =
      eval h (selectedLoop c (i + 1) ((returned h c u).or buffered) last' rest)) := by
  rw [selectedLoop, eval_bind, (waitRetry_quiet hq c i).1]
  simp only [Bool.false_eq_true, if_false]
  rw [eval_bind]
  cases hr : (eval h (forward u)).result with
  | error e =>
    obtain ⟨hk, hn⟩ := kind_error (c := c) hr
    have hcancel := forward_error hq hr
    rw [hk, hn]
    refine ⟨fun hanswer => ?_, fun _ => ⟨some e, ?_⟩⟩
    · split_ifs at hanswer
    · simp only [hcancel, Bool.false_eq_true, if_false]
      split_ifs
      · rfl
      · rw [eval_bind]
        rfl
  | ok r =>
    by_cases h5 : r.status < 500
    · obtain ⟨hk, hs⟩ := kind_response (c := c) hr h5
      have hshape : isPruningError (peekBodyForPruning r c.target).2.status (peekBodyForPruning r c.target).1
          c.target = pruningShaped c r := by
        rw [pruningShaped, peekBodyForPruning_status]
      rw [hk, hs]
      simp only [if_pos h5, eval_bind, hshape]
      by_cases hp : pruningShaped c r = true
      · rw [if_pos hp]
        refine ⟨by simp, fun _ => ⟨some (.pruned (peekBodyForPruning r c.target).2.status), ?_⟩⟩
        by_cases hrest : rest = []
        · -- the last candidate's response is returned at once, which the empty rest would do too
          rw [if_neg (fun hand => hand.1 hrest), hrest]
          rfl
        · rw [if_pos ⟨hrest, hp⟩]
          rfl
      · rw [if_neg hp, if_neg (fun hand => hp hand.2)]
        exact ⟨fun _ => ⟨_, rfl, rfl⟩, fun hne => absurd rfl hne⟩
    · obtain ⟨hk, hs⟩ := kind_serverError (c := c) hr h5
      rw [hk, hs]
      refine ⟨by simp, fun _ => ⟨some (.status r.status), ?_⟩⟩
      simp only [if_neg h5, eval_bind]
      rfl

theorem eval_selectedLoop (hq : Quiet h) (ups : List Upstream) :
    match ups.find? (fun u => kind h c u = .answer) with
    | some u => ∃ s, returned h c u = some s ∧ eval h (selectedLoop c i buffered last ups) = .ok s
    | none => match (lastReturned h c ups).or buffered with
      | some s => eval h (selectedLoop c i buffered last ups) = .ok s
      | none => ∃ e, eval h (selectedLoop c i buffered last ups) = .error e := by
  induction ups generalizing i buffered last with
  | nil =>
    cases buffered with
    | none => exact ⟨_, rfl⟩
    | some s => rfl
  | cons u rest ih =>
    obtain ⟨hanswer, hother⟩ := loop_step (c := c) i buffered last hq u rest
    by_cases hk : kind h c u = .answer
    · rw [List.find?_cons_of_pos (by simpa using hk)]
      exact hanswer hk
    · obtain ⟨last', heval⟩ := hother hk
      rw [List.find?_cons_of_neg (by simpa using hk), lastReturned_cons, Option.or_assoc, heval]
      exact ih _ _ _

end Loop

theorem lastReturned_some {ups : List Upstream} {s : Served} (hlast : lastReturned h c ups = some s) :
    ∃ before u after, ups = before ++ u :: after ∧ returned h c u = some s ∧
      ∀ v ∈ after, kind h c v = .refused ∨ kind h c v = .failed := by
  obtain ⟨after, u, before, hsplit, hs, hnone⟩ := List.findSome?_eq_some_iff.mp hlast
  refine ⟨before.reverse, u, after.reverse, ?_, hs, fun v hv => ?_⟩
  · rw [← List.reverse_reverse ups, hsplit]
    simp
  · exact returned_eq_none.mp (hnone v (List.mem_reverse.mp hv))

theorem lastReturned_none {ups : List Upstream} (hlast : lastReturned h c ups = none) :
    ∀ u ∈ ups, kind h c u = .refused ∨ kind h c u = .failed := by
  intro u hu
  exact returned_eq_none.mp (List.findSome?_eq_none_iff.mp hlast u (List.mem_reverse.mpr hu))

section Ranking

variable {ups before after : List Upstream} {u : Upstream} {s : Served}

theorem prunedLast_of_pruned (hups : ups = before ++ u :: after) (hu : kind h c u = .pruned)
    (hafter : ∀ v ∈ after, kind h c v = .refused ∨ kind h c v = .failed) : PrunedLast h c ups := by
  intro before' v after' hsplit hv _
  have hne : u ≠ v := by
    rintro rfl
    rw [hu] at hv
    cases hv
  rw [hups] at hsplit
  rcases List.append_eq_append_iff.mp hsplit with ⟨t, _, ht⟩ | ⟨t, _, ht⟩
  · cases t with
    | nil => exact absurd (List.cons.inj ht).1 hne
    | cons w t =>
      cases ht
      rcases hafter v (by simp) with hk | hk <;> rw [hk] at hv <;> cases hv
  · cases t with
    | nil => exact absurd (List.cons.inj ht).1 hne.symm
    | cons w t =>
      cases ht
      exact ⟨u, by simp, hu⟩

theorem no_pruned_of_prunedLast (hups : ups = before ++ u :: after) (hu : kind h c u = .serverError)
    (hafter : ∀ v ∈ after, kind h c v = .refused ∨ kind h c v = .failed) (hlast : PrunedLast h c ups) :
    ∀ v ∈ ups, kind h c v ≠ .pruned := by
  intro v hv hpruned
  have hnone : ∀ w ∈ after, kind h c w ≠ .pruned := by
    intro w hw hp
    rcases hafter w hw with hk | hk <;> rw [hk] at hp <;> cases hp
  rw [hups, List.mem_append, List.mem_cons] at hv
  rcases hv with hv | rfl | hv
  · obtain ⟨w, hw, hp⟩ := hlast before u after hups hu ⟨v, hv, hpruned⟩
    exact hnone w hw hp
  · rw [hu] at hpruned
    cases hpruned
  · exact hnone v hv hpruned

theorem not_gives_pruned (hs : returned h c u = some s) (hu : kind h c u = .serverError) :
    ¬Gives h c ups .pruned (.ok s) := by
  rintro ⟨v, _, hv, s', hs', heq⟩
  cases heq
  have hlt := (returned_status hs').mpr (by rw [hv]; nofun)
  exact (returned_status hs).mp hlt hu

theorem ranked_answer (hfind : ups.find? (fun u => kind h c u = .answer) = some u)
    (hs : returned h c u = some s) : Ranked h c ups (.ok s) := by
  have hmem := List.mem_of_find?_eq_some hfind
  have hu : kind h c u = .answer := by simpa using List.find?_some hfind
  refine ⟨fun v hv => ?_, fun hno => ?_, fun hno => ?_, nofun⟩
  · cases hfind.symm.trans hv
    exact ⟨s, hs, rfl⟩
  · exact absurd hu (hno u hmem)
  · exact absurd hu (hno u hmem).1

theorem ranked_error (hall : ∀ u ∈ ups, kind h c u = .refused ∨ kind h c u = .failed) (e : ExecError) :
    Ranked h c ups (.error e) ∧ PrunedLast h c ups := by
  have hnot {k : Kind} (hk : k ≠ .refused ∧ k ≠ .failed) : ∀ u ∈ ups, kind h c u ≠ k := by
    rintro u hu rfl
    exact (hall u hu).elim hk.1 hk.2
  refine ⟨⟨fun u hu => ?_, fun _ ⟨u, hu, hk⟩ => ?_, fun _ ⟨u, hu, hk⟩ => ?_, fun _ _ => hall⟩, ?_⟩
  · exact absurd (by simpa using List.find?_some hu) (hnot (by decide) u (List.mem_of_find?_eq_some hu))
  · exact absurd hk (hnot (by decide) u hu)
  · exact absurd hk (hnot (by decide) u hu)
  · intro before u after hsplit hu _
    exact absurd hu (hnot (by decide) u (by simp [hsplit]))

theorem ranked_response_iff (hno : ∀ u ∈ ups, kind h c u ≠ .answer) (hups : ups = before ++ u :: after)
    (hs : returned h c u = some s) (hafter : ∀ v ∈ after, kind h c v = .refused ∨ kind h c v = .failed) :
    Ranked h c ups (.ok s) ↔ PrunedLast h c ups := by
  have hu : u ∈ ups := by simp [hups]
  have hanswer : ∀ v, ups.find? (fun u => kind h c u = .answer) = some v →
      ∃ s', returned h c v = some s' ∧ Except.ok s = (.ok s' : Except ExecError Served) := by
    intro v hv
    exact absurd (by simpa using List.find?_some hv) (hno v (List.mem_of_find?_eq_some hv))
  cases hk : kind h c u with
  | refused => exact absurd (returned_eq_none.mpr (.inl hk)) (by rw [hs]; nofun)
  | failed => exact absurd (returned_eq_none.mpr (.inr hk)) (by rw [hs]; nofun)
  | answer => exact absurd hk (hno u hu)
  | pruned =>
    refine ⟨fun _ => prunedLast_of_pruned hups hk hafter, fun _ => ⟨hanswer, ?_, ?_, nofun⟩⟩
    · exact fun _ _ => ⟨u, hu, hk, s, hs, rfl⟩
    · exact fun hnone => absurd hk (hnone u hu).2
  | serverError =>
    constructor
    · rintro hranked before' v after' hsplit _ ⟨w, hw, hp⟩
      have hmem : w ∈ ups := by
        rw [hsplit]
        exact List.mem_append_left _ hw
      exact absurd (hranked.pruned hno ⟨w, hmem, hp⟩) (not_gives_pruned hs hk)
    · intro hlast
      have hnone := no_pruned_of_prunedLast hups hk hafter hlast
      refine ⟨hanswer, ?_, fun _ _ => ⟨u, hu, hk, s, hs, rfl⟩, nofun⟩
      rintro _ ⟨v, hv, hp⟩
      exact absurd hp (hnone v hv)

end Ranking

theorem ranked_iff (hq : Quiet h) (c : Call) (ups : List Upstream) :
    Ranked h c ups (eval h (selectedLoop c 0 none none ups)) ↔
      (∃ u ∈ ups, kind h c u = .answer) ∨ PrunedLast h c ups := by
  have hloop := eval_selectedLoop (c := c) 0 none none hq ups
  cases hfind : ups.find? (fun u => kind h c u = .answer) with
  | some u =>
    simp only [hfind] at hloop
    obtain ⟨s, hs, heval⟩ := hloop
    rw [heval]
    refine ⟨fun _ => .inl ⟨u, List.mem_of_find?_eq_some hfind, ?_⟩, fun _ => ranked_answer hfind hs⟩
    simpa using List.find?_some hfind
  | none =>
    simp only [hfind, Option.or_none] at hloop
    have hno : ∀ u ∈ ups, kind h c u ≠ .answer := by
      intro u hu
      simpa using List.find?_eq_none.mp hfind u hu
    rw [or_iff_right fun ⟨u, hu, hk⟩ => hno u hu hk]
    cases hlast : lastReturned h c ups with
    | none =>
      simp only [hlast] at hloop
      obtain ⟨e, heval⟩ := hloop
      obtain ⟨hranked, hprunedLast⟩ := ranked_error (lastReturned_none hlast) e
      rw [heval]
      exact iff_of_true hranked hprunedLast
    | some s =>
      simp only [hlast] at hloop
      obtain ⟨before, u, after, hups, hs, hafter⟩ := lastReturned_some hlast
      rw [hloop]
      exact ranked_response_iff hno hups hs hafter

theorem ranked_answered : Quiet (answering 200) ∧
    Ranked (answering 200) blockByRoot twoNodes.upstreams
      (eval (answering 200) (selectedLoop blockByRoot 0 none none twoNodes.upstreams)) :=
  ⟨answering_quiet 200, (ranked_iff (answering_quiet 200) blockByRoot _).mpr
    (.inl ⟨⟨"archive", true⟩, by decide, by decide⟩)⟩

/-- The pruned node's 404 is dropped for the 503 of the node after it. -/
theorem ranked_fails : Quiet (answering 503) ∧
    twoNodes.upstreams.map (kind (answering 503) blockByRoot) = [.pruned, .serverError] ∧
    eval (answering 503) (selectedLoop blockByRoot 0 none none twoNodes.upstreams) =
      .ok ⟨⟨503, .whole "", some ⟨"archive", 0⟩⟩, ⟨"archive", true⟩, none⟩ ∧
    ¬Ranked (answering 503) blockByRoot twoNodes.upstreams
      (eval (answering 503) (selectedLoop blockByRoot 0 none none twoNodes.upstreams)) := by
  have heval : eval (answering 503) (selectedLoop blockByRoot 0 none none twoNodes.upstreams) =
      .ok ⟨⟨503, .whole "", some ⟨"archive", 0⟩⟩, ⟨"archive", true⟩, none⟩ := by rfl
  refine ⟨answering_quiet 503, by decide, heval, fun hranked => ?_⟩
  rw [heval] at hranked
  have hgives := hranked.pruned (by decide) ⟨⟨"pruned", false⟩, by decide, by decide⟩
  exact not_gives_pruned (u := ⟨"archive", true⟩) rfl (by decide) hgives

end EBeacon.Network.Selected
