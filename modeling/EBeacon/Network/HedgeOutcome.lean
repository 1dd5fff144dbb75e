import EBeacon.Network.Budgets
import EBeacon.Network.Turns

namespace EBeacon.Network

open Upstream Proc

def Eff.silent : Eff → Prop
  | .fire _ | .select _ | .pool .preferred => False
  | _ => True

theorem Eff.quiet.silent {e : Eff} (h : e.quiet) : e.silent := by
  cases e <;> trivial

theorem silent_of_quiet {α : Type} {p : Go α} (hp : Only Eff.quiet p) : Only Eff.silent p :=
  hp.mono fun _ => Eff.quiet.silent

def Eff.archives (tried : List String) (ups : List Upstream) : Eff → Prop
  | .build u => u ∈ ups ∧ u.id ∉ tried
  | .acquire _ | .send _ | .close _ | .settle _ _ => True
  | _ => False

theorem archives_archivePass (c : Call) (tried : List String) (last : Option AttemptError) (ups : List Upstream) :
    Only (Eff.archives tried ups) (archivePass c tried last ups) := by
  induction ups generalizing last with
  | nil => exact .pure _
  | cons u rest ih =>
    have hrest (last : Option AttemptError) :
        Only (Eff.archives tried (u :: rest)) (archivePass c tried last rest) := by
      refine (ih last).mono fun e he => ?_
      cases e with
      | build v => exact ⟨List.mem_cons_of_mem _ he.1, he.2⟩
      | _ => exact he
    have hsettle (tok : Option Ticket) (o : CBOutcome) :
        Only (Eff.archives tried (u :: rest)) (settleToken tok o) :=
      only_settleToken tok o fun _ _ => trivial
    have hdrop (r : Response) (tok : Option Ticket) (o : CBOutcome) :
        Only (Eff.archives tried (u :: rest)) (closeAndSettle r tok o) :=
      only_closeAndSettle r tok o (fun _ => trivial) fun _ _ => trivial
    unfold archivePass
    split_ifs with hu
    · exact hrest last
    have hforward : Only (Eff.archives tried (u :: rest)) (forward u) := by
      refine (attempts_forward u).mono fun e he => ?_
      cases e with
      | build v => exact ⟨he ▸ List.mem_cons_self, he ▸ hu⟩
      | _ => trivial
    refine hforward.bind fun a => ?_
    cases a.result with
    | error e =>
      exact .ite ((hsettle _ _).bind fun _ => .pure _)
        (.ite (hrest _) ((hsettle _ _).bind fun _ => hrest _))
    | ok r =>
      dsimp only
      exact .ite ((hdrop _ _ _).bind fun _ => hrest _)
        (.ite ((hdrop _ _ _).bind fun _ => hrest _) (.pure _))

theorem silent_archivePass (c : Call) (tried : List String) (last : Option AttemptError) (ups : List Upstream) :
    Only Eff.silent (archivePass c tried last ups) := by
  refine (archives_archivePass c tried last ups).mono fun e he => ?_
  cases e <;> trivial

theorem silent_promoteToArchive (c : Call) (tried : List String) (maxAttempts : ℕ) :
    Only Eff.silent (promoteToArchive c tried maxAttempts) := by
  unfold promoteToArchive
  exact .perform trivial fun _ => silent_archivePass c tried none _

theorem silent_drainResults (remaining : ℕ) : Only Eff.silent (drainResults remaining) := by
  unfold drainResults
  exact .ite (.pure _) (.single trivial)

namespace Hedge

abbrev History := List (Σ e : Eff, e.Answer)

def fired (h : History) : List Upstream :=
  h.filterMap fun | ⟨.fire u, _⟩ => some u | _ => none

def received (h : History) : List HedgeResult :=
  h.filterMap fun | ⟨.select _, .result r⟩ => some r | _ => none

def awaits (w : Multiset Upstream) : (Σ e : Eff, e.Answer) → Multiset Upstream
  | ⟨.fire u, _⟩ => u ::ₘ w
  | ⟨.select _, .result r⟩ => w.erase r.upstream
  | _ => w

def waiting (h : History) : Multiset Upstream := h.foldl awaits 0

def preferred (h : History) : Option Pool :=
  h.findSome? fun | ⟨.pool .preferred, p⟩ => some p | _ => none

structure Same (h h' : History) : Prop where
  fired : fired h' = fired h
  received : received h' = received h
  waiting : waiting h' = waiting h
  preferred : preferred h' = preferred h

section Protocol

variable (archive : Bool) (maxFire : ℕ) (cands : Pool → List Upstream)

def need : History → Eff → Prop
  | h, .fire u => (fired h).length < maxFire ∧
      ∃ pool, preferred h = some pool ∧ (cands pool)[(fired h).length]? = some u
  | h, .select armed => armed = true ∨ waiting h ≠ 0
  | _, _ => True

-- a result is that of an attempt in flight, the timer fires when it is set, and the context does not end;
-- whether the pool has archive upstreams never changes
def may : History → (e : Eff) → e.Answer → Prop
  | _, .pool _, p => p.hasArchive = archive
  | h, .select _, .result r => r.upstream ∈ waiting h
  | _, .select armed, .timer => armed = true
  | _, .select _, .done => False
  | _, _, _ => True

def protocol : Protocol Eff Eff.Answer History := .recording (need maxFire cands) (may archive)

end Protocol

inductive Verdict
  | winner (s : Served)
  | pruned (s : Served)
  | failed (e : AttemptError)

def verdict (c : Call) (promotes : Bool) (r : HedgeResult) : Verdict :=
  match r.attempt.result with
  | .error e => .failed e
  | .ok resp =>
    if resp.status < 500 then
      let peek := peekBodyForPruning resp c.target
      if promotes && isPruningError peek.2.status peek.1 c.target then
        .pruned ⟨peek.2, r.upstream, r.attempt.tok⟩
      else .winner ⟨peek.2, r.upstream, r.attempt.tok⟩
    else .failed (.status resp.status)

def Verdict.buffered : Verdict → Option Served
  | .pruned s => some s
  | _ => none

def fallback (s : Served) (body : Except ReadError String) (archived : Except (Option AttemptError) Served) :
    Except ExecError Served :=
  match archived, body with
  | .ok served, _ => .ok served
  | .error _, .ok content => .ok ⟨⟨s.response.status, .whole content, none⟩, s.upstream, none⟩
  | .error _, .error e => .error (.readPruning e)

section Outcome

variable (c : Call) (archiveBiased archive : Bool) (maxFire : ℕ) (cands : Pool → List Upstream)

def NoWinner (rs : List HedgeResult) : Prop :=
  ∀ r ∈ rs, ∀ s, verdict c (!archiveBiased && archive) r ≠ .winner s

def Answered (h : History) (result : Except ExecError Served) : Prop :=
  match (received h).findSome? (fun r => (verdict c (!archiveBiased && archive) r).buffered) with
  | none => ∃ last, result = .error (.hedgesFailed last)
  | some s => ∃ before archived,
      Reaches (protocol archive maxFire cands)
        (promoteToArchive c ((received h).map (·.upstream.id)).reverse (max maxFire c.fs.maxAttempts))
        before (.ret archived) h ∧
      result = fallback s (readBodyCapped s.response.body c.maxResponseBytes) archived

inductive Outcome : Except ExecError Served → History → Prop
  | won {h : History} {early : List HedgeResult} {r : HedgeResult} {s : Served}
      (hreceived : received h = early ++ [r]) (hearly : NoWinner c archiveBiased archive early)
      (hwinner : verdict c (!archiveBiased && archive) r = .winner s) : Outcome (.ok s) h
  | lost {h : History} {pool : Pool} {result : Except ExecError Served} (hpool : preferred h = some pool)
      (hfired : fired h = (cands pool).take maxFire) (hlength : (fired h).length = maxFire)
      (hall : ((received h).map (·.upstream)).Perm (fired h))
      (hnone : NoWinner c archiveBiased archive (received h))
      (hanswer : Answered c archiveBiased archive maxFire cands h result) : Outcome result h

end Outcome

section Same

variable {h h' h'' : History}

theorem Same.refl (h : History) : Same h h := ⟨rfl, rfl, rfl, rfl⟩

theorem Same.trans (hs : Same h h') (hs' : Same h' h'') : Same h h'' :=
  ⟨hs'.fired.trans hs.fired, hs'.received.trans hs.received, hs'.waiting.trans hs.waiting,
    hs'.preferred.trans hs.preferred⟩

theorem fired_append (x : Σ e : Eff, e.Answer) : fired (h ++ [x]) = fired h ++ fired [x] :=
  List.filterMap_append ..

theorem received_append (x : Σ e : Eff, e.Answer) : received (h ++ [x]) = received h ++ received [x] :=
  List.filterMap_append ..

theorem waiting_append (x : Σ e : Eff, e.Answer) : waiting (h ++ [x]) = awaits (waiting h) x := by
  rw [waiting, List.foldl_append]
  rfl

theorem preferred_append (x : Σ e : Eff, e.Answer) :
    preferred (h ++ [x]) = (preferred h).or (preferred [x]) :=
  List.findSome?_append ..

theorem same_append {e : Eff} (he : e.silent) (r : e.Answer) : Same h (h ++ [⟨e, r⟩]) := by
  constructor
  · rw [fired_append]
    cases e <;> first | exact List.append_nil _ | exact he.elim
  · rw [received_append]
    cases e <;> first | exact List.append_nil _ | exact he.elim
  · rw [waiting_append]
    cases e <;> first | rfl | exact he.elim
  · rw [preferred_append]
    rcases e with site | _ | _ | _ | _ | _ | _ | _ | _ | _ | _ | _ | _
    · cases site <;> first | exact Option.or_none | exact he.elim
    all_goals exact Option.or_none

theorem same_timer (armed : Bool) : Same h (h ++ [⟨.select armed, .timer⟩]) :=
  ⟨(fired_append _).trans (List.append_nil _), (received_append _).trans (List.append_nil _),
    waiting_append _, (preferred_append _).trans Option.or_none⟩

end Same

section Race

variable {c : Call} {archiveBiased archive : Bool} {maxFire : ℕ} {cands : Pool → List Upstream}
  {α β : Type} {post : α → History → Prop} {h h' : History}

theorem safe_of_silent {p : Go β} (hp : Only Eff.silent p) :
    Safe (protocol archive maxFire cands) (fun _ h' => Same h h') p h := by
  refine hp.safe_along Same.refl (fun _ _ _ => Same.trans) (fun h e he => ?_) (fun h e r he => ?_) h
  · cases e <;> trivial
  · exact same_append he r

theorem safe_silent {p : Go β} {f : β → Go α} (hp : Only Eff.silent p)
    (hf : ∀ b h', Same h h' → Safe (protocol archive maxFire cands) post (f b) h') :
    Safe (protocol archive maxFire cands) post (p >>= f) h :=
  (safe_of_silent hp).bind hf

variable (c archiveBiased archive maxFire cands) in
structure Racing (pool : Pool) (st : HedgeState) (h : History) : Prop where
  preferred : preferred h = some pool
  pending : fired h ++ st.pending = (cands pool).take maxFire
  inflight : (waiting h).card = st.inflight
  all : (fired h : Multiset Upstream) = waiting h + ((received h).map (·.upstream) : List Upstream)
  noWinner : NoWinner c archiveBiased archive (received h)
  pruning : st.pruning =
    (received h).findSome? (fun r => (verdict c (!archiveBiased && archive) r).buffered)
  tried : st.tried = ((received h).map (·.upstream.id)).reverse

namespace Racing

variable {pool : Pool} {st : HedgeState}

theorem same (hr : Racing c archiveBiased archive maxFire cands pool st h) (hs : Same h h') :
    Racing c archiveBiased archive maxFire cands pool st h' := by
  obtain ⟨hfired, hreceived, hwaiting, hpreferred⟩ := hs
  constructor
  · rw [hpreferred, hr.preferred]
  · rw [hfired, hr.pending]
  · rw [hwaiting, hr.inflight]
  · rw [hreceived, hwaiting, hfired, hr.all]
  · rw [hreceived]
    exact hr.noWinner
  · rw [hreceived, hr.pruning]
  · rw [hreceived, hr.tried]

theorem next (hr : Racing c archiveBiased archive maxFire cands pool st h) {u : Upstream}
    {pending : List Upstream} (hp : st.pending = u :: pending) :
    (fired h).length < maxFire ∧ (cands pool)[(fired h).length]? = some u := by
  have hget : ((cands pool).take maxFire)[(fired h).length]? = some u := by
    rw [← hr.pending, hp, List.getElem?_append_right (Nat.le_refl _), Nat.sub_self]
    rfl
  rw [List.getElem?_take] at hget
  split_ifs at hget with hlt
  exact ⟨hlt, hget⟩

theorem fire (hr : Racing c archiveBiased archive maxFire cands pool st h) {u : Upstream}
    {pending : List Upstream} (hp : st.pending = u :: pending) (armed : Bool) :
    Racing c archiveBiased archive maxFire cands pool
      { st with pending := pending, inflight := st.inflight + 1, armed := armed } (h ++ [⟨.fire u, ()⟩]) := by
  have hfired : fired (h ++ [⟨.fire u, ()⟩]) = fired h ++ [u] := fired_append _
  have hreceived : received (h ++ [⟨.fire u, ()⟩]) = received h :=
    (received_append _).trans (List.append_nil _)
  constructor
  · rw [preferred_append, hr.preferred]
    rfl
  · rw [hfired, List.append_assoc, ← hr.pending, hp]
    rfl
  · rw [waiting_append, ← hr.inflight]
    exact Multiset.card_cons _ _
  · rw [hreceived, hfired, waiting_append]
    change _ = u ::ₘ waiting h + _
    rw [Multiset.cons_add, ← hr.all, Multiset.cons_coe]
    exact Multiset.coe_eq_coe.mpr List.perm_append_comm
  · rw [hreceived]
    exact hr.noWinner
  · rw [hreceived, ← hr.pruning]
  · rw [hreceived, ← hr.tried]

theorem receive (hr : Racing c archiveBiased archive maxFire cands pool st h) {r : HedgeResult}
    (hu : r.upstream ∈ waiting h) (hv : ∀ s, verdict c (!archiveBiased && archive) r ≠ .winner s) (armed : Bool)
    (last : Option AttemptError) :
    Racing c archiveBiased archive maxFire cands pool
      ⟨st.pending, st.inflight - 1, st.armed,
        st.pruning.or (verdict c (!archiveBiased && archive) r).buffered, r.upstream.id :: st.tried, last⟩
      (h ++ [⟨.select armed, .result r⟩]) := by
  have hfired : fired (h ++ [⟨.select armed, .result r⟩]) = fired h :=
    (fired_append _).trans (List.append_nil _)
  have hreceived : received (h ++ [⟨.select armed, .result r⟩]) = received h ++ [r] := received_append _
  constructor
  · rw [preferred_append, hr.preferred]
    rfl
  · rw [hfired, ← hr.pending]
  · rw [waiting_append, ← hr.inflight]
    exact Multiset.card_erase_of_mem hu
  · rw [hreceived, hfired, waiting_append, hr.all, List.map_append, ← Multiset.cons_erase hu]
    change _ = ((r.upstream ::ₘ (waiting h).erase r.upstream).erase r.upstream) + _
    rw [Multiset.erase_cons_head, Multiset.cons_add, ← Multiset.add_cons, Multiset.cons_coe]
    exact congrArg _ (Multiset.coe_eq_coe.mpr (List.perm_append_singleton _ _).symm)
  · rw [hreceived]
    intro x hx
    rcases List.mem_append.mp hx with hx | hx
    · exact hr.noWinner x hx
    · rw [List.mem_singleton.mp hx]
      exact hv
  · rw [hreceived, List.findSome?_append, ← hr.pruning]
    simp
  · rw [hreceived, hr.tried]
    simp

theorem ready (hr : Racing c archiveBiased archive maxFire cands pool st h)
    (hover : ¬(st.inflight = 0 ∧ st.pending = [])) (harmed : st.pending ≠ [] → st.armed = true) :
    st.armed = true ∨ waiting h ≠ 0 := by
  by_cases hpending : st.pending = []
  · refine .inr fun hwaiting => hover ⟨?_, hpending⟩
    rw [← hr.inflight, hwaiting, Multiset.card_zero]
  · exact .inl (harmed hpending)

theorem inflight_pos (hr : Racing c archiveBiased archive maxFire cands pool st h) {u : Upstream}
    (hu : u ∈ waiting h) : 0 < st.inflight := by
  rw [← hr.inflight]
  exact Multiset.card_pos_iff_exists_mem.mpr ⟨u, hu⟩

theorem failed (hr : Racing c archiveBiased archive maxFire cands pool st h) {r : HedgeResult} {e : AttemptError}
    (hu : r.upstream ∈ waiting h) (hv : verdict c (!archiveBiased && archive) r = .failed e) (armed : Bool) :
    Racing c archiveBiased archive maxFire cands pool
      ⟨st.pending, st.inflight - 1, st.armed, st.pruning, r.upstream.id :: st.tried, some e⟩
      (h ++ [⟨.select armed, .result r⟩]) := by
  have hnext := hr.receive hu (fun s => by simp [hv]) armed (some e)
  have hbuffered : (Verdict.failed e).buffered = none := rfl
  rwa [hv, hbuffered, Option.or_none] at hnext

theorem won (hr : Racing c archiveBiased archive maxFire cands pool st h) {r : HedgeResult} {s : Served}
    (hv : verdict c (!archiveBiased && archive) r = .winner s) {armed : Bool}
    (hs : Same (h ++ [⟨.select armed, .result r⟩]) h') :
    Outcome c archiveBiased archive maxFire cands (.ok s) h' := by
  have hreceived : received h' = received h ++ [r] := by
    rw [hs.received]
    exact received_append _
  exact .won hreceived hr.noWinner hv

end Racing

theorem safe_readCloseSettle (limit : Int64) (s : Served) (failed : ReadError → CBOutcome) (ok : CBOutcome) :
    Safe (protocol archive maxFire cands)
      (fun body h' => body = readBodyCapped s.response.body limit ∧ Same h h')
      (readCloseSettle limit s failed ok) h := by
  have hread : Safe (protocol archive maxFire cands)
      (fun body h' => body = readBodyCapped s.response.body limit ∧ Same h h')
      (readAndFinalizeResponseBody limit s.response) h := by
    unfold readAndFinalizeResponseBody
    dsimp only
    split
    · exact .pure ⟨rfl, .refl h⟩
    · exact .perform trivial fun _ _ => .pure ⟨rfl, same_append (e := .read _ _) trivial _⟩
  refine hread.bind fun body h' hbody => ?_
  refine safe_silent (silent_of_quiet (quiet_closeBody _)) fun _ h₁ hs₁ => ?_
  refine safe_silent (silent_of_quiet (quiet_settleToken _ _)) fun _ h₂ hs₂ => ?_
  exact .pure ⟨hbody.1, (hbody.2.trans hs₁).trans hs₂⟩

section Loop

variable {pool : Pool} {st : HedgeState}

theorem Racing.lost (hr : Racing c archiveBiased archive maxFire cands pool st h)
    (hlength : maxFire ≤ (cands pool).length) (hinflight : st.inflight = 0) (hpending : st.pending = [])
    {result : Except ExecError Served} (hanswer : Answered c archiveBiased archive maxFire cands h result) :
    Outcome c archiveBiased archive maxFire cands result h := by
  have hfired : fired h = (cands pool).take maxFire := by
    rw [← hr.pending, hpending, List.append_nil]
  have hall : (fired h).length = maxFire := by
    rw [hfired, List.length_take, Nat.min_eq_left hlength]
  have hwaiting : waiting h = 0 := by
    rw [← Multiset.card_eq_zero, hr.inflight, hinflight]
  refine .lost hr.preferred hfired hall ?_ hr.noWinner hanswer
  rw [← Multiset.coe_eq_coe, hr.all, hwaiting, Multiset.zero_add]

theorem safe_hedgeFinish (hr : Racing c archiveBiased archive maxFire cands pool st h)
    (hlength : maxFire ≤ (cands pool).length) (hinflight : st.inflight = 0) (hpending : st.pending = []) :
    Safe (protocol archive maxFire cands) (Outcome c archiveBiased archive maxFire cands)
      (hedgeFinish c maxFire st) h := by
  have hpruning := hr.pruning
  unfold hedgeFinish
  cases hp : st.pruning with
  | none =>
    refine .pure (hr.lost hlength hinflight hpending ?_)
    rw [Answered, ← hpruning, hp]
    exact ⟨_, rfl⟩
  | some s =>
    refine (safe_readCloseSettle _ _ _ _).bind fun body h₁ hbody => ?_
    obtain ⟨rfl, hs₁⟩ := hbody
    have hr₁ := hr.same hs₁
    refine (safe_of_silent (silent_promoteToArchive c st.tried _)).reached.bind fun archived h₂ harchived => ?_
    obtain ⟨hs₂, hreach⟩ := harchived
    have hr₂ := hr₁.same hs₂
    have hanswer : Answered c archiveBiased archive maxFire cands h₂
        (fallback s (readBodyCapped s.response.body c.maxResponseBytes) archived) := by
      rw [Answered, ← hr₂.pruning, hp]
      refine ⟨h₁, archived, ?_, rfl⟩
      rw [← hr₂.tried]
      exact hreach
    have hlost := hr₂.lost hlength hinflight hpending hanswer
    cases archived with
    | ok served => exact .pure hlost
    | error e =>
      generalize readBodyCapped s.response.body c.maxResponseBytes = body at hlost ⊢
      cases body with
      | ok content => exact .pure hlost
      | error e => exact .pure hlost

theorem safe_hedgeLoop (n : ℕ) (hn : st.passes ≤ n) (harmed : st.pending ≠ [] → st.armed = true)
    (hlength : maxFire ≤ (cands pool).length)
    (hr : Racing c archiveBiased archive maxFire cands pool st h) :
    Safe (protocol archive maxFire cands) (Outcome c archiveBiased archive maxFire cands)
      (hedgeLoop c maxFire archiveBiased n st) h := by
  induction n generalizing st h with
  | zero =>
    obtain ⟨hinflight, hpending⟩ := HedgeState.over hn
    exact safe_hedgeFinish hr hlength hinflight hpending
  | succ n ih =>
    unfold hedgeLoop
    split_ifs with hover
    · exact safe_hedgeFinish hr hlength hover.1 hover.2
    refine .perform (hr.ready hover harmed) fun arrival harrival => ?_
    cases arrival with
    | timer =>
      have hr' := hr.same (same_timer st.armed)
      cases hpending : st.pending with
      | nil =>
        refine ih (st.passes_idle hn hpending harrival) (by simp) ?_
        exact { hr' with pending := hpending ▸ hr'.pending }
      | cons u pending =>
        refine .perform ?_ fun _ _ => ?_
        · obtain ⟨hlt, hget⟩ := hr'.next hpending
          exact ⟨hlt, pool, hr'.preferred, hget⟩
        · exact ih (st.passes_fire hn hpending) (by simp) (hr'.fire hpending _)
    | done => exact harrival.elim
    | result r =>
      obtain ⟨u, a⟩ := r
      have hu : u ∈ waiting h := harrival
      have hn' := st.passes_receive hn (hr.inflight_pos hu)
      -- the loop goes on after a result that failed
      have hgo (e : AttemptError) (hv : verdict c (!archiveBiased && archive) ⟨u, a⟩ = .failed e) (h' : History)
          (hs : Same (h ++ [⟨.select st.armed, .result ⟨u, a⟩⟩]) h') :
          Safe (protocol archive maxFire cands) (Outcome c archiveBiased archive maxFire cands)
            (hedgeLoop c maxFire archiveBiased n
              ⟨st.pending, st.inflight - 1, st.armed, st.pruning, u.id :: st.tried, some e⟩) h' :=
        ih (hn' _ _ _) harmed ((hr.failed hu hv st.armed).same hs)
      dsimp only
      cases hresult : a.result with
      | error e =>
        have hv : verdict c (!archiveBiased && archive) ⟨u, a⟩ = .failed e := by
          rw [verdict, hresult]
        have hsettle (o : CBOutcome) := silent_of_quiet (quiet_settleToken a.tok o)
        dsimp only
        split_ifs
        · exact safe_silent (hsettle _) fun _ => hgo e hv
        · exact hgo e hv _ (.refl _)
        · exact safe_silent (hsettle _) fun _ => hgo e hv
      | ok resp =>
        dsimp only
        split_ifs with h5
        · refine .perform trivial fun pool' harchive => ?_
          have harchive : pool'.hasArchive = archive := harchive
          have hs₁ := same_append (h := h ++ [⟨.select st.armed, .result ⟨u, a⟩⟩]) (e := .pool .promotion)
            trivial pool'
          rw [harchive]
          split_ifs with hpruned
          · have hv : verdict c (!archiveBiased && archive) ⟨u, a⟩ =
                .pruned ⟨(peekBodyForPruning resp c.target).2, u, a.tok⟩ := by
              simp only [verdict, hresult, if_pos h5, if_pos hpruned]
            have hnext := (hr.receive hu (fun s => by simp [hv]) st.armed st.lastErr).same hs₁
            cases hp : st.pruning with
            | none =>
              rw [hv, hp] at hnext
              exact ih (hn' _ _ _) harmed hnext
            | some s =>
              rw [hp, Option.some_or] at hnext
              refine safe_silent (silent_of_quiet (quiet_closeAndSettle _ _ _)) fun _ h₂ hs₂ => ?_
              exact ih (hn' _ _ _) harmed (hnext.same hs₂)
          · have hv : verdict c (!archiveBiased && archive) ⟨u, a⟩ =
                .winner ⟨(peekBodyForPruning resp c.target).2, u, a.tok⟩ := by
              simp only [verdict, hresult, if_pos h5, if_neg hpruned]
            refine safe_silent (silent_drainResults _) fun _ h₂ hs₂ => ?_
            refine safe_silent (silent_of_quiet (quiet_dropBuffered _)) fun _ h₃ hs₃ => ?_
            exact .pure (hr.won hv ((hs₁.trans hs₂).trans hs₃))
        · have hv : verdict c (!archiveBiased && archive) ⟨u, a⟩ = .failed (.status resp.status) := by
            simp only [verdict, hresult, if_neg h5]
          refine safe_silent (silent_of_quiet (quiet_read _ _)) fun _ h₁ hs₁ => ?_
          refine safe_silent (silent_of_quiet (quiet_closeAndSettle _ _ _)) fun _ h₂ hs₂ => ?_
          exact hgo _ hv h₂ (hs₁.trans hs₂)

end Loop

end Race

theorem le_length_trimUpstreamSlice {ups : List Upstream} {maxLen : ℕ} (h : maxLen ≤ ups.length) :
    maxLen ≤ (trimUpstreamSlice ups maxLen).length := by
  unfold trimUpstreamSlice
  split_ifs
  · rw [List.length_take, Nat.min_eq_left h]
  · exact h

theorem le_length_preferred (pool : Pool) {ups : List Upstream} (preferID : String) {maxLen : ℕ}
    (h : maxLen ≤ ups.length) : maxLen ≤ (ensurePreferredUpstreamFirst pool ups preferID maxLen).length := by
  unfold ensurePreferredUpstreamFirst
  by_cases hnone : preferID = "" ∨ ups = []
  · rwa [if_pos hnone]
  rw [if_neg hnone]
  split
  · split_ifs
    · exact h
    · exact le_length_trimUpstreamSlice (by rwa [(swapFirst_perm _ _).length_eq])
  · split
    · split_ifs
      · exact le_length_trimUpstreamSlice (h.trans (Nat.le_succ _))
      · exact h
    · exact h

def width (maxCount : ℕ) (ups : List Upstream) : ℕ := min (maxCount + 1) ups.length

def rewritten (maxCount : ℕ) (preferID : String) (ups : List Upstream) (pool : Pool) : List Upstream :=
  ensurePreferredUpstreamFirst pool ups preferID (width maxCount ups)

theorem exists_take_rewritten (maxCount : ℕ) (preferID : String) {ups : List Upstream} (hups : ups ≠ [])
    (pool : Pool) :
    ∃ u pending, (rewritten maxCount preferID ups pool).take (width maxCount ups) = u :: pending := by
  have hlength : width maxCount ups ≤ (rewritten maxCount preferID ups pool).length :=
    le_length_preferred pool preferID (Nat.min_le_right _ _)
  have hpos : 0 < width maxCount ups := Nat.lt_min.mpr ⟨Nat.succ_pos _, List.length_pos_iff.mpr hups⟩
  refine List.exists_cons_of_length_pos ?_
  rwa [List.length_take, Nat.min_eq_left hlength]

section Start

variable {c : Call} {archiveBiased archive : Bool} {maxFire : ℕ} {cands : Pool → List Upstream}

theorem racing_start {pool : Pool} {u : Upstream} {pending : List Upstream}
    (htake : (cands pool).take maxFire = u :: pending) :
    Racing c archiveBiased archive maxFire cands pool ⟨u :: pending, 0, true, none, [], none⟩
      [⟨.pool .preferred, pool⟩] :=
  ⟨rfl, htake.symm, rfl, rfl, nofun, rfl, rfl⟩

theorem safe_executeHedgeFS (c : Call) (maxCount : ℕ) (preferID : String) {ups : List Upstream}
    (hups : ups ≠ []) (archiveBiased archive : Bool) :
    Safe (protocol archive (width maxCount ups) (rewritten maxCount preferID ups))
      (Outcome c archiveBiased archive (width maxCount ups) (rewritten maxCount preferID ups))
      (executeHedgeFS c ⟨maxCount⟩ preferID ups archiveBiased) [] := by
  have hlength (pool : Pool) : width maxCount ups ≤ (rewritten maxCount preferID ups pool).length :=
    le_length_preferred pool preferID (Nat.min_le_right _ _)
  unfold executeHedgeFS
  refine .perform trivial fun pool _ => ?_
  obtain ⟨u, pending, htake⟩ := exists_take_rewritten maxCount preferID hups pool
  have hstart : Racing c archiveBiased archive _ _ pool _ _ := racing_start htake
  rw [rewritten, width] at htake
  dsimp only
  rw [htake]
  refine .perform ?_ fun _ _ => ?_
  · obtain ⟨hlt, hget⟩ := hstart.next rfl
    exact ⟨hlt, pool, rfl, hget⟩
  · exact safe_hedgeLoop _ (le_refl _) (fun _ => rfl) (hlength pool) (hstart.fire rfl true)

end Start

end Hedge

def hedgeWidth (maxCount : Int64) (candidates : ℕ) : ℤ :=
  if (candidates : ℤ) < (maxCount + 1).toInt then candidates else (maxCount + 1).toInt

def executeHedgeSized (c : Call) (maxCount : Int64) (preferID : String) (ups : List Upstream)
    (archiveBiased : Bool) : Go (Option (Except ExecError Served)) := do
  let maxFire := hedgeWidth maxCount ups.length
  let ups := ensurePreferredUpstreamFirst (← Go.pool .preferred) ups preferID maxFire.toNat
  -- `make(chan result, maxFire)` panics on a negative size, and `ups[0]` and `ups[fired]`, with
  -- `fired` up to `maxFire`, past the end of the list
  if maxFire < 0 ∨ (ups.length : ℤ) < max maxFire 1 then return none
  else match ups.take (max maxFire.toNat 1) with
    | [] => return none
    | u :: pending =>
      Go.fire u
      let st : HedgeState := ⟨pending, 1, true, none, [], none⟩
      let result ← hedgeLoop c maxFire.toNat archiveBiased st.passes st
      return some result

namespace Hedge

theorem hedgeWidth_eq {maxCount : Int64} (hcount : 0 ≤ maxCount) (hmax : maxCount ≠ Int64.maxValue)
    (ups : List Upstream) : hedgeWidth maxCount ups.length = (width maxCount.toNatClampNeg ups : ℤ) := by
  have hnonneg : 0 ≤ maxCount.toInt := Int64.le_iff_toInt_le.mp hcount
  rw [hedgeWidth, Words.toInt_succ hmax hcount, width, Int64.toNatClampNeg]
  split_ifs <;> omega

theorem executeHedgeSized_eq (c : Call) {maxCount : Int64} (hcount : 0 ≤ maxCount)
    (hmax : maxCount ≠ Int64.maxValue) (preferID : String) {ups : List Upstream} (hups : ups ≠ [])
    (archiveBiased : Bool) :
    executeHedgeSized c maxCount preferID ups archiveBiased =
      executeHedgeFS c ⟨maxCount.toNatClampNeg⟩ preferID ups archiveBiased >>=
        fun result => pure (some result) := by
  have hpos : 0 < width maxCount.toNatClampNeg ups :=
    Nat.lt_min.mpr ⟨Nat.succ_pos _, List.length_pos_iff.mpr hups⟩
  unfold executeHedgeSized executeHedgeFS
  simp only [hedgeWidth_eq hcount hmax, Int.toNat_natCast, Go.pool, perform_bind, call_bind]
  refine congrArg (Proc.call _) (funext fun pool => ?_)
  have hlength : width maxCount.toNatClampNeg ups ≤
      (rewritten maxCount.toNatClampNeg preferID ups pool).length :=
    le_length_preferred pool preferID (Nat.min_le_right _ _)
  obtain ⟨u, pending, htake⟩ := exists_take_rewritten maxCount.toNatClampNeg preferID hups pool
  rw [rewritten] at hlength
  rw [rewritten, width] at htake
  rw [if_neg (by omega), Nat.max_eq_left hpos, width, htake]
  rfl

/-- In every run, whatever the attempts give and in whatever order the results arrive and the timer
fires, the code fires only from its list and ends with the outcome of the race. -/
def HedgesRight (c : Call) (maxCount : Int64) (preferID : String) (ups : List Upstream)
    (archiveBiased archive : Bool) : Prop :=
  let maxFire := width maxCount.toNatClampNeg ups
  let cands := rewritten maxCount.toNatClampNeg preferID ups
  Safe (protocol archive maxFire cands)
    (fun out h => ∃ result, out = some result ∧ Outcome c archiveBiased archive maxFire cands result h)
    (executeHedgeSized c maxCount preferID ups archiveBiased) []

theorem hedges_right (c : Call) {maxCount : Int64} (hcount : 0 ≤ maxCount) (hmax : maxCount ≠ Int64.maxValue)
    (preferID : String) {ups : List Upstream} (hups : 2 ≤ ups.length) (archiveBiased archive : Bool) :
    HedgesRight c maxCount preferID ups archiveBiased archive := by
  have hne : ups ≠ [] := List.length_pos_iff.mp (by omega)
  rw [HedgesRight, executeHedgeSized_eq c hcount hmax preferID hne]
  refine (safe_executeHedgeFS c _ preferID hne archiveBiased archive).bind fun result h hout => ?_
  exact .pure ⟨result, rfl, hout⟩

def blockCall : Call where
  path := "/eth/v2/beacon/blocks/0xabcd"
  apiPath := "/eth/v2/beacon/blocks/{block_id}"
  preferID := ""
  required := .zero
  fs := ⟨none, some ⟨1⟩⟩
  maxResponseBytes := 2147483648

def prunedAndArchive : List Upstream := [⟨"pruned", false⟩, ⟨"archive", true⟩]

-- `executeFS` passes the upstreams that it has selected for one attempt more
theorem hedges_one :
    blockCall.selectForPathSized false (.allReady prunedAndArchive) (1 + 1) = some prunedAndArchive ∧
      HedgesRight blockCall 1 "" prunedAndArchive false true := by
  have hselected : blockCall.selectForPathSized false (.allReady prunedAndArchive) (1 + 1) =
      some prunedAndArchive := by decide +kernel
  have hmax := ne_maxValue_of_selectForPathSized blockCall (Option.isSome_of_eq_some hselected)
  exact ⟨hselected, hedges_right blockCall (by decide) hmax "" (by decide) false true⟩

end Hedge

end EBeacon.Network
