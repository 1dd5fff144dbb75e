import EBeacon.Network.Execute

namespace EBeacon.Network.Promotion

open Upstream Proc

section

variable (h : (e : Eff) → e.Answer)

structure Quiet : Prop where
  delays : ∀ n, h (.retryDelay n) = false
  sends : ∀ t, h (.send t) ≠ .failed true
  bodies : ∀ t status body, h (.send t) ≠ .replied status (.badGzip true) body

def dispatched {α : Type} (p : Go α) : List Upstream :=
  (calls h p).filterMap (fun e => match e with
    | .build u => some u
    | _ => none)

def answered (u : Upstream) : Option Response :=
  match (eval h (forward u)).result with
  | .ok r => if r.status < 500 then some r else none
  | .error _ => none

def answers (ups : List Upstream) : List (Upstream × Response) :=
  ups.filterMap (fun u => (answered h u).map (fun r => (u, r)))

structure Found where
  pos : ℕ
  tried : List String
  upstream : Upstream
  response : Response

def firstAnswer : ℕ → List String → List Upstream → Option Found
  | _, _, [] => none
  | i, tried, u :: rest =>
    if u.id ∈ tried then firstAnswer (i + 1) tried rest
    else match answered h u with
      | some r => some ⟨i, u.id :: tried, u, r⟩
      | none => firstAnswer (i + 1) (u.id :: tried) rest

def candidates (c : Call) : List Upstream :=
  let routing := h (.pool .routing)
  let ups := c.selectForPath (c.proactiveArchive routing) (h (.pool .sequential)) c.fs.maxAttempts
  ensurePreferredUpstreamFirst (h (.pool .preferred)) ups (c.preferredID routing) c.fs.maxAttempts

def archiveCandidates (c : Call) (pos : ℕ) : List Upstream :=
  (h (.pool .promotion)).selectForPathArchive c.apiPath (max (c.fs.maxAttempts - (pos + 1)) 1)

def pruningShaped (c : Call) (r : Response) : Bool :=
  isPruningError r.status (peekBodyForPruning r c.target).1 c.target

def loses (c : Call) : Bool :=
  !c.proactiveArchive (h (.pool .routing)) &&
    (firstAnswer h 0 [] (candidates h c)).any (fun f =>
      pruningShaped c f.response && !(archiveCandidates h c f.pos).isEmpty &&
        (firstAnswer h (f.pos + 1) f.tried (archiveCandidates h c f.pos)).isNone)

end

variable {h : (e : Eff) → e.Answer}

theorem dispatched_bind {α β : Type} (p : Go α) (f : α → Go β) :
    dispatched h (p >>= f) = dispatched h p ++ dispatched h (f (eval h p)) := by
  simp only [dispatched, calls_bind, List.filterMap_append]

theorem dispatched_closeBody (r : Response) : dispatched h (closeBody r) = [] := by
  cases hs : r.stream <;> simp [dispatched, closeBody, hs, perform]

theorem dispatched_settleToken (tok : Option Ticket) (o : CBOutcome) :
    dispatched h (settleToken tok o) = [] := by
  cases tok <;> simp [dispatched, settleToken, perform]

theorem dispatched_closeAndSettle (r : Response) (tok : Option Ticket) (o : CBOutcome) :
    dispatched h (closeAndSettle r tok o) = [] := by
  rw [closeAndSettle, dispatched_bind, dispatched_closeBody, dispatched_settleToken, List.nil_append]

theorem dispatched_read (limit : Int64) (r : Response) :
    dispatched h (readAndFinalizeResponseBody limit r) = [] := by
  cases hs : r.stream <;> simp [dispatched, readAndFinalizeResponseBody, hs]

theorem dispatched_forward (u : Upstream) : dispatched h (forward u) = [u] := by
  cases hb : h (.build u) with
  | false => simp [dispatched, forward, hb]
  | true =>
    cases ha : h (.acquire u) with
    | none => simp [dispatched, forward, upstreamDo, hb, ha]
    | some i =>
      cases hs : h (.send ⟨u.id, i⟩) with
      | failed canceled => simp [dispatched, forward, upstreamDo, hb, ha, hs]
      | replied status encoding body =>
        cases encoding <;> simp [dispatched, forward, upstreamDo, closeBody, hb, ha, hs]

theorem forward_error (hq : Quiet h) {u : Upstream} {e : AttemptError}
    (he : (eval h (forward u)).result = .error e) : e.isClientCancel = false := by
  cases hb : h (.build u) with
  | false =>
    simp only [forward, perform_bind, eval_call, hb, Bool.not_false, if_true, pure_eq, eval_ret] at he
    cases he
    rfl
  | true =>
    cases ha : h (.acquire u) with
    | none =>
      simp [forward, upstreamDo, hb, ha] at he
      cases he
      rfl
    | some i =>
      cases hs : h (.send ⟨u.id, i⟩) with
      | failed canceled =>
        simp [forward, upstreamDo, hb, ha, hs] at he
        cases canceled with
        | false => exact he ▸ rfl
        | true => exact absurd hs (hq.sends _)
      | replied status encoding body =>
        cases encoding with
        | badGzip canceled =>
          simp [forward, upstreamDo, closeBody, hb, ha, hs] at he
          cases canceled with
          | false => exact he ▸ rfl
          | true => exact absurd hs (hq.bodies _ _ _)
        | identity => simp [forward, upstreamDo, hb, ha, hs] at he
        | gzip => simp [forward, upstreamDo, hb, ha, hs] at he

def respond (h : (e : Eff) → e.Answer) (c : Call) (promote : Promote) (f : Found) :
    Go (Except ExecError Served) :=
  answerOrPromote c promote f.pos f.tried f.upstream (eval h (forward f.upstream)) f.response

theorem waitRetry_quiet (hq : Quiet h) (c : Call) (i : ℕ) :
    eval h (waitRetry c i) = false ∧ dispatched h (waitRetry c i) = [] := by
  unfold waitRetry
  split_ifs
  · exact ⟨hq.delays _, rfl⟩
  · exact ⟨rfl, rfl⟩

theorem loop_miss (hq : Quiet h) (c : Call) (promote : Promote) (total i : ℕ)
    (tried : List String) (last : Option AttemptError) (u : Upstream) (rest : List Upstream)
    (ht : u.id ∉ tried) (ha : answered h u = none) :
    ∃ last', eval h (sequentialLoop c promote total i tried last (u :: rest)) =
        eval h (sequentialLoop c promote total (i + 1) (u.id :: tried) last' rest) ∧
      dispatched h (sequentialLoop c promote total i tried last (u :: rest)) =
        u :: dispatched h (sequentialLoop c promote total (i + 1) (u.id :: tried) last' rest) := by
  obtain ⟨hdone, hnone⟩ := waitRetry_quiet hq c i
  rw [sequentialLoop, if_neg ht, eval_bind, dispatched_bind, hdone, hnone]
  simp only [Bool.false_eq_true, if_false, List.nil_append]
  rw [eval_bind, dispatched_bind, dispatched_forward]
  cases hr : (eval h (forward u)).result with
  | ok r =>
    have h5 : ¬ r.status < 500 := by
      intro h5
      simp [answered, hr, h5] at ha
    refine ⟨some (.status r.status), ?_, ?_⟩
    · simp only [h5, if_false, eval_bind]
    · simp only [h5, if_false, dispatched_bind, dispatched_read, dispatched_closeAndSettle,
        List.nil_append, List.cons_append]
  | error e =>
    refine ⟨some e, ?_⟩
    have hc := forward_error hq hr
    by_cases hu : e = .circuitUnavailable
    · subst hu
      exact ⟨rfl, rfl⟩
    · simp only [hc, hu, Bool.false_eq_true, if_false, eval_bind, dispatched_bind,
        dispatched_settleToken, List.nil_append, List.cons_append, and_self]

theorem loop_hit (hq : Quiet h) (c : Call) (promote : Promote) (total i : ℕ)
    (tried : List String) (last : Option AttemptError) (u : Upstream) (rest : List Upstream)
    (r : Response) (ht : u.id ∉ tried) (ha : answered h u = some r) :
    eval h (sequentialLoop c promote total i tried last (u :: rest)) =
        eval h (respond h c promote ⟨i, u.id :: tried, u, r⟩) ∧
      dispatched h (sequentialLoop c promote total i tried last (u :: rest)) =
        u :: dispatched h (respond h c promote ⟨i, u.id :: tried, u, r⟩) := by
  obtain ⟨hdone, hnone⟩ := waitRetry_quiet hq c i
  rw [sequentialLoop, if_neg ht, eval_bind, dispatched_bind, hdone, hnone]
  simp only [Bool.false_eq_true, if_false, List.nil_append]
  rw [eval_bind, dispatched_bind, dispatched_forward]
  cases hr : (eval h (forward u)).result with
  | ok q =>
    simp only [answered, hr, Option.ite_none_right_eq_some, Option.some.injEq] at ha
    obtain ⟨h5, rfl⟩ := ha
    simp only [h5, if_true, respond, List.cons_append, List.nil_append, and_self]
  | error e => simp [answered, hr] at ha

theorem loop_none (hq : Quiet h) (c : Call) (promote : Promote) (total i : ℕ)
    (tried : List String) (last : Option AttemptError) (ups : List Upstream)
    (hf : firstAnswer h i tried ups = none) :
    (∃ last', eval h (sequentialLoop c promote total i tried last ups) =
        .error (.allFailed total last')) ∧
      answers h (dispatched h (sequentialLoop c promote total i tried last ups)) = [] := by
  induction ups generalizing i tried last with
  | nil => exact ⟨⟨last, rfl⟩, rfl⟩
  | cons u rest ih =>
    by_cases ht : u.id ∈ tried
    · rw [sequentialLoop, if_pos ht]
      rw [firstAnswer, if_pos ht] at hf
      exact ih _ _ _ hf
    · rw [firstAnswer, if_neg ht] at hf
      cases ha : answered h u with
      | some r => simp [ha] at hf
      | none =>
        simp only [ha] at hf
        obtain ⟨last', he, hd⟩ := loop_miss hq c promote total i tried last u rest ht ha
        obtain ⟨hfail, hans⟩ := ih (i + 1) (u.id :: tried) last' hf
        rw [he, hd]
        exact ⟨hfail, by rw [answers, List.filterMap_cons, ha]; exact hans⟩

theorem loop_found (hq : Quiet h) (c : Call) (promote : Promote) (total i : ℕ)
    (tried : List String) (last : Option AttemptError) (ups : List Upstream) {f : Found}
    (hf : firstAnswer h i tried ups = some f) :
    eval h (sequentialLoop c promote total i tried last ups) = eval h (respond h c promote f) ∧
      ∃ before, dispatched h (sequentialLoop c promote total i tried last ups) =
          before ++ dispatched h (respond h c promote f) ∧
        answers h before = [(f.upstream, f.response)] ∧
        f.tried = (before.map (·.id)).reverse ++ tried := by
  induction ups generalizing i tried last with
  | nil => cases hf
  | cons u rest ih =>
    by_cases ht : u.id ∈ tried
    · rw [sequentialLoop, if_pos ht]
      rw [firstAnswer, if_pos ht] at hf
      exact ih _ _ _ hf
    · rw [firstAnswer, if_neg ht] at hf
      cases ha : answered h u with
      | some r =>
        simp only [ha, Option.some.injEq] at hf
        subst hf
        obtain ⟨he, hd⟩ := loop_hit hq c promote total i tried last u rest r ht ha
        refine ⟨he, [u], by rw [hd, List.singleton_append], ?_, rfl⟩
        rw [answers, List.filterMap_cons, ha]
        rfl
      | none =>
        simp only [ha] at hf
        obtain ⟨last', he, hd⟩ := loop_miss hq c promote total i tried last u rest ht ha
        obtain ⟨heval, before, hbefore, hans, htried⟩ := ih (i + 1) (u.id :: tried) last' hf
        refine ⟨he.trans heval, u :: before, by rw [hd, hbefore, List.cons_append], ?_, ?_⟩
        · rw [answers, List.filterMap_cons, ha]
          exact hans
        · rw [htried]
          simp

theorem loop_some (hq : Quiet h) (c : Call) (promote : Promote) (total i : ℕ)
    (tried : List String) (last : Option AttemptError) (ups : List Upstream) {f : Found}
    (hf : firstAnswer h i tried ups = some f) :
    eval h (sequentialLoop c promote total i tried last ups) = eval h (respond h c promote f) ∧
      answers h (dispatched h (sequentialLoop c promote total i tried last ups)) =
        (f.upstream, f.response) :: answers h (dispatched h (respond h c promote f)) := by
  obtain ⟨heval, before, hbefore, hans, _⟩ := loop_found hq c promote total i tried last ups hf
  refine ⟨heval, ?_⟩
  rw [hbefore, answers, List.filterMap_append, ← answers, ← answers, hans, List.singleton_append]

def served (h : (e : Eff) → e.Answer) (c : Call) (u : Upstream) (r : Response) : Served :=
  ⟨(peekBodyForPruning r c.target).2, u, (eval h (forward u)).tok⟩

def KeepsAnswer (h : (e : Eff) → e.Answer) (c : Call) : Prop :=
  ∀ u r, (answers h (dispatched h (executeFS c))).getLast? = some (u, r) →
    eval h (executeFS c) = .ok (served h c u r)

theorem respond_unpromoted (c : Call) (promote : Promote) (f : Found)
    (hp : pruningShaped c f.response = false) :
    eval h (respond h c promote f) = .ok (served h c f.upstream f.response) ∧
      dispatched h (respond h c promote f) = [] := by
  rw [pruningShaped, ← peekBodyForPruning_status _ c.target] at hp
  simp only [respond, answerOrPromote, hp, Bool.false_eq_true, if_false]
  exact ⟨rfl, rfl⟩

theorem respond_archive (c : Call) (f : Found) :
    eval h (respond h c archiveBiased f) = .ok (served h c f.upstream f.response) ∧
      dispatched h (respond h c archiveBiased f) = [] := by
  by_cases hp : pruningShaped c f.response = true
  · rw [pruningShaped, ← peekBodyForPruning_status _ c.target] at hp
    simp only [respond, answerOrPromote, hp, if_true]
    exact ⟨rfl, rfl⟩
  · exact respond_unpromoted c _ f (Bool.eq_false_iff.mpr hp)

theorem promote_none (c : Call) (i : ℕ) (tried : List String) (a : Attempt) (r : Response)
    (hn : archiveCandidates h c i = []) :
    eval h (promoteMidLoop c i tried a r) = none ∧
      dispatched h (promoteMidLoop c i tried a r) = [] := by
  rw [promoteMidLoop, eval_bind, dispatched_bind]
  change eval h (ite _ _ (ite (archiveCandidates h c i = []) _ _)) = none ∧
    [] ++ dispatched h (ite _ _ (ite (archiveCandidates h c i = []) _ _)) = []
  rw [if_pos hn]
  split_ifs
  · exact ⟨rfl, rfl⟩
  · exact ⟨rfl, rfl⟩

theorem promote_some (c : Call) (i : ℕ) (tried : List String) (a : Attempt) (r : Response)
    (hn : archiveCandidates h c i ≠ []) : ∃ total last,
      eval h (promoteMidLoop c i tried a r) =
        some (eval h (sequentialLoop c archiveBiased total (i + 1) tried last (archiveCandidates h c i))) ∧
      dispatched h (promoteMidLoop c i tried a r) =
        dispatched h (sequentialLoop c archiveBiased total (i + 1) tried last (archiveCandidates h c i)) := by
  have harchive := (h (.pool .promotion)).hasArchive_of_selectForPathArchive _ _ hn
  refine ⟨i + 1 + (archiveCandidates h c i).length, some (.pruned r.status), ?_⟩
  rw [promoteMidLoop, eval_bind, dispatched_bind]
  change eval h (ite ((!(h (.pool .promotion)).hasArchive) = true) _
      (ite (archiveCandidates h c i = []) _ _)) = _ ∧
    [] ++ dispatched h (ite ((!(h (.pool .promotion)).hasArchive) = true) _
      (ite (archiveCandidates h c i = []) _ _)) = _
  rw [if_neg (by simp [harchive]), if_neg hn]
  simp only [eval_bind, dispatched_bind, dispatched_closeAndSettle, List.nil_append]
  exact ⟨rfl, List.append_nil _⟩

theorem respond_noArchive (c : Call) (f : Found) (hn : archiveCandidates h c f.pos = []) :
    eval h (respond h c (promoteMidLoop c) f) = .ok (served h c f.upstream f.response) ∧
      dispatched h (respond h c (promoteMidLoop c) f) = [] := by
  by_cases hp : pruningShaped c f.response = true
  · rw [pruningShaped, ← peekBodyForPruning_status _ c.target] at hp
    obtain ⟨he, hd⟩ := promote_none (h := h) c f.pos f.tried (eval h (forward f.upstream))
      (peekBodyForPruning f.response c.target).2 hn
    simp only [respond, answerOrPromote, hp, if_true, eval_bind, dispatched_bind, he, hd]
    exact ⟨rfl, rfl⟩
  · exact respond_unpromoted c _ f (Bool.eq_false_iff.mpr hp)

theorem respond_promoted (c : Call) (f : Found) (hp : pruningShaped c f.response = true)
    (hn : archiveCandidates h c f.pos ≠ []) : ∃ total last,
      eval h (respond h c (promoteMidLoop c) f) =
        eval h (sequentialLoop c archiveBiased total (f.pos + 1) f.tried last (archiveCandidates h c f.pos)) ∧
      dispatched h (respond h c (promoteMidLoop c) f) =
        dispatched h (sequentialLoop c archiveBiased total (f.pos + 1) f.tried last (archiveCandidates h c f.pos)) := by
  rw [pruningShaped, ← peekBodyForPruning_status _ c.target] at hp
  obtain ⟨total, last, he, hd⟩ := promote_some (h := h) c f.pos f.tried
    (eval h (forward f.upstream)) (peekBodyForPruning f.response c.target).2 hn
  refine ⟨total, last, ?_⟩
  simp only [respond, answerOrPromote, hp, if_true, eval_bind, dispatched_bind, he, hd]
  exact ⟨rfl, List.append_nil _⟩

theorem executeFS_sequential (c : Call) (hr : c.required.enabled = false) (hh : c.fs.hedge = none) :
    (candidates h c = [] ∧ dispatched h (executeFS c) = []) ∨
      ∃ total, eval h (executeFS c) =
          eval h (sequentialLoop c (c.promote (c.proactiveArchive (h (.pool .routing)))) total 0 [] none
            (candidates h c)) ∧
        dispatched h (executeFS c) =
          dispatched h (sequentialLoop c (c.promote (c.proactiveArchive (h (.pool .routing)))) total 0
            [] none (candidates h c)) := by
  have hseq : executeFS c = Go.pool .routing >>= fun pool =>
      executeSequential c (c.preferredID pool) (c.proactiveArchive pool) := by
    simp only [executeFS, hr, hh, Bool.false_eq_true, if_false]
  have hpool (site : Site) : dispatched h (Go.pool site) = [] := rfl
  have hsite (site : Site) : eval h (Go.pool site) = h (.pool site) := rfl
  simp only [hseq, executeSequential, eval_bind, dispatched_bind, hpool, hsite, List.nil_append]
  by_cases hnil : c.selectForPath (c.proactiveArchive (h (.pool .routing)))
      (h (.pool .sequential)) c.fs.maxAttempts = []
  · left
    rw [candidates, hnil, if_pos rfl]
    exact ⟨by simp [ensurePreferredUpstreamFirst], rfl⟩
  · right
    refine ⟨(candidates h c).length, ?_⟩
    simp only [hnil, if_false, eval_bind, dispatched_bind, hpool, hsite, List.nil_append, candidates,
      and_self]

theorem respond_cases (hq : Quiet h) (c : Call) (f : Found) :
    let p := respond h c (c.promote (c.proactiveArchive (h (.pool .routing)))) f
    let promoted := !c.proactiveArchive (h (.pool .routing)) && pruningShaped c f.response &&
      !(archiveCandidates h c f.pos).isEmpty
    let g := firstAnswer h (f.pos + 1) f.tried (archiveCandidates h c f.pos)
    (promoted = false ∧ eval h p = .ok (served h c f.upstream f.response) ∧
        answers h (dispatched h p) = []) ∨
      (promoted = true ∧ g = none ∧ (∃ e, eval h p = .error e) ∧ answers h (dispatched h p) = []) ∨
      ∃ g', promoted = true ∧ g = some g' ∧ eval h p = .ok (served h c g'.upstream g'.response) ∧
        answers h (dispatched h p) = [(g'.upstream, g'.response)] := by
  intro p promoted g
  cases hpro : c.proactiveArchive (h (.pool .routing)) with
  | true =>
    obtain ⟨he, hd⟩ := respond_archive (h := h) c f
    have hp : p = respond h c archiveBiased f := by simp only [p, hpro, Call.promote, if_true]
    left
    rw [hp, he, hd]
    exact ⟨by simp only [promoted, hpro, Bool.not_true, Bool.false_and], rfl, rfl⟩
  | false =>
    have hp : p = respond h c (promoteMidLoop c) f := by
      simp only [p, hpro, Call.promote, Bool.false_eq_true, if_false]
    have hpr : promoted = (pruningShaped c f.response && !(archiveCandidates h c f.pos).isEmpty) := by
      simp only [promoted, hpro, Bool.not_false, Bool.true_and]
    rw [hp, hpr]
    by_cases hn : archiveCandidates h c f.pos = []
    · obtain ⟨he, hd⟩ := respond_noArchive (h := h) c f hn
      left
      rw [he, hd, hn]
      exact ⟨by simp, rfl, rfl⟩
    · by_cases hs : pruningShaped c f.response = true
      · right
        obtain ⟨total, last, he, hd⟩ := respond_promoted (h := h) c f hs hn
        rw [he, hd]
        have hyes : (pruningShaped c f.response && !(archiveCandidates h c f.pos).isEmpty) = true := by
          simp [hs, hn]
        cases hg : g with
        | none =>
          obtain ⟨⟨_, hfail⟩, hans⟩ := loop_none hq c archiveBiased total _ _ last _ hg
          exact Or.inl ⟨hyes, rfl, ⟨_, hfail⟩, hans⟩
        | some g' =>
          obtain ⟨heval, hans⟩ := loop_some hq c archiveBiased total _ _ last _ hg
          obtain ⟨he', hd'⟩ := respond_archive (h := h) c g'
          rw [heval, hans, he', hd']
          exact Or.inr ⟨g', hyes, rfl, rfl, rfl⟩
      · obtain ⟨he, hd⟩ := respond_unpromoted (h := h) c (promoteMidLoop c) f (Bool.eq_false_iff.mpr hs)
        left
        rw [he, hd]
        exact ⟨by simp [hs], rfl, rfl⟩

/-- When the promoted pass finds no answer, the call fails although an upstream had answered. -/
theorem keepsAnswer_iff {c : Call} (hq : Quiet h) (hr : c.required.enabled = false)
    (hh : c.fs.hedge = none) : KeepsAnswer h c ↔ loses h c = false := by
  obtain ⟨hnil, hd⟩ | ⟨total, he, hd⟩ := executeFS_sequential (h := h) c hr hh
  · simp [KeepsAnswer, loses, hnil, hd, answers, firstAnswer]
  unfold KeepsAnswer
  rw [he, hd]
  cases hf : firstAnswer h 0 [] (candidates h c) with
  | none =>
    rw [(loop_none hq c _ total 0 [] none _ hf).2]
    simp [loses, hf]
  | some f =>
    obtain ⟨heval, hans⟩ := loop_some hq c (c.promote (c.proactiveArchive (h (.pool .routing))))
      total 0 [] none _ hf
    rw [heval, hans, loses, hf]
    simp only [Option.any_some, ← Bool.and_assoc]
    obtain ⟨hp, he, hd⟩ | ⟨hp, hg, ⟨e, he⟩, hd⟩ | ⟨g, hp, hg, he, hd⟩ := respond_cases hq c f
    · rw [he, hd, hp]
      simp
    · rw [he, hd, hp, hg]
      simp
    · rw [he, hd, hp, hg]
      simp

def twoNodes : Pool := .allReady [⟨"pruned", false⟩, ⟨"archive", true⟩]

def answering (archiveStatus : ℕ) : (e : Eff) → e.Answer
  | .pool _ => twoNodes
  | .build _ => true
  | .acquire _ => some 0
  | .send t => .replied (if t.upstream = "archive" then archiveStatus else 404) .identity (.whole "")
  | .retryDelay _ => false
  | .select _ => .done
  | .receive => ⟨⟨"", false⟩, ⟨none, .error .contextDone⟩⟩
  | .read _ _ | .close _ | .settle _ _ | .fire _ | .post _ | .drain _ => ()

def blockByRoot : Call where
  path := "/eth/v2/beacon/blocks/0xabcd"
  apiPath := "/eth/v2/beacon/blocks/{block_id}"
  preferID := ""
  required := .zero
  fs := ⟨some ⟨2⟩, none⟩
  maxResponseBytes := 2147483648

theorem answering_quiet (archiveStatus : ℕ) : Quiet (answering archiveStatus) where
  delays := fun _ => rfl
  sends := fun _ => by simp [answering]
  bodies := fun _ _ _ => by simp [answering]

theorem keepsAnswer_served :
    Quiet (answering 200) ∧ KeepsAnswer (answering 200) blockByRoot :=
  ⟨answering_quiet 200, (keepsAnswer_iff (answering_quiet 200) rfl rfl).mpr (by decide)⟩

theorem keepsAnswer_fails : Quiet (answering 503) ∧
    answers (answering 503) (dispatched (answering 503) (executeFS blockByRoot)) =
      [(⟨"pruned", false⟩, ⟨404, .whole "", some ⟨"pruned", 0⟩⟩)] ∧
    eval (answering 503) (executeFS blockByRoot) = .error (.allFailed 2 (some (.status 503))) ∧
    ¬ KeepsAnswer (answering 503) blockByRoot := by
  have hans : answers (answering 503) (dispatched (answering 503) (executeFS blockByRoot)) =
      [(⟨"pruned", false⟩, ⟨404, .whole "", some ⟨"pruned", 0⟩⟩)] := by decide
  have heval : eval (answering 503) (executeFS blockByRoot) =
      .error (.allFailed 2 (some (.status 503))) := by rfl
  refine ⟨answering_quiet 503, hans, heval, ?_⟩
  intro hkeeps
  have hok := hkeeps _ _ (by rw [hans]; rfl)
  rw [heval] at hok
  cases hok

end EBeacon.Network.Promotion
