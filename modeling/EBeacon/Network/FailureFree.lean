import EBeacon.Network.Traversal
import EBeacon.Network.Turns

/-!
Calls whose upstreams only give good replies: complete ones without a server error. However the goroutines of such
a call interleave, no breaker is told of a failure.
-/

namespace EBeacon.Network

open Upstream Proc

structure Acceptable (limit : Int64) (good : ℕ → Body → Prop) : Prop where
  status {status : ℕ} {body : Body} : good status body → status < 500
  body {status : ℕ} {body : Body} : good status body →
    ∃ content, body = .whole content ∧ readBodyCapped body limit = .ok content

def Attempt.Sound (good : ℕ → Body → Prop) (a : Attempt) : Prop :=
  match a.result with
  | .ok r => good r.status r.body
  | .error _ => a.tok = none

namespace FailureFree

section Protocol

variable (good : ℕ → Body → Prop)

def need : Unit → Eff → Prop
  | _, .settle _ o => o ≠ .failure
  | _, .post r => r.attempt.Sound good
  | _, _ => True

def may : Unit → (e : Eff) → e.Answer → Prop
  | _, .send _, d => ∃ status body, good status body ∧
    (d = .replied status .identity body ∨ d = .replied status .gzip body)
  | _, .select _, .result r => r.attempt.Sound good
  | _, .receive, r => r.attempt.Sound good
  | _, _, _ => True

def protocol : Protocol Eff Eff.Answer Unit := ⟨need good, may good, fun _ _ _ => ()⟩

end Protocol

variable {good : ℕ → Body → Prop} {α β : Type} {post : α → Unit → Prop} {limit : Int64}

theorem safe_closeBody (r : Response) : Safe (protocol good) (fun _ _ => True) (closeBody r) () := by
  unfold closeBody
  split
  · exact .pure trivial
  · exact .perform trivial fun _ _ => .pure trivial

theorem safe_settleToken (tok : Option Ticket) {o : CBOutcome} (h : tok = none ∨ o ≠ .failure) :
    Safe (protocol good) (fun _ _ => True) (settleToken tok o) () := by
  unfold settleToken
  cases tok with
  | none => exact .pure trivial
  | some t =>
    rcases h with hnone | ho
    · cases hnone
    · exact .perform ho fun _ _ => .pure trivial

theorem safe_closeAndSettle (r : Response) (tok : Option Ticket) {o : CBOutcome} (h : o ≠ .failure) :
    Safe (protocol good) (fun _ _ => True) (closeAndSettle r tok o) () :=
  (safe_closeBody r).bind fun _ _ _ => safe_settleToken tok (Or.inr h)

theorem safe_unit {p : Go Unit} {f : Unit → Go β} {post : β → Unit → Prop}
    (hp : Safe (protocol good) (fun _ _ => True) p ()) (hf : Safe (protocol good) post (f ()) ()) :
    Safe (protocol good) post (p >>= f) () :=
  hp.bind fun _ _ _ => hf

theorem safe_read (r : Response) : Safe (protocol good) (fun result _ => result = readBodyCapped r.body limit)
    (readAndFinalizeResponseBody limit r) () := by
  unfold readAndFinalizeResponseBody
  dsimp only
  split
  · exact .pure rfl
  · exact .perform trivial fun _ _ => .pure rfl

theorem safe_waitRetry (c : Call) (i : ℕ) : Safe (protocol good) (fun _ _ => True) (waitRetry c i) () := by
  unfold waitRetry
  split_ifs
  · exact .perform trivial fun _ _ => .pure trivial
  · exact .pure trivial

theorem safe_dropBuffered (buffered : Option Served) :
    Safe (protocol good) (fun _ _ => True) (dropBuffered buffered) () := by
  unfold dropBuffered
  split
  · exact .pure trivial
  · exact safe_closeAndSettle _ _ (by decide)

theorem safe_forward (u : Upstream) : Safe (protocol good) (fun a _ => a.Sound good) (forward u) () := by
  unfold forward upstreamDo
  refine .perform trivial fun built _ => ?_
  cases built with
  | false => exact .pure rfl
  | true =>
    refine .perform trivial fun token _ => ?_
    cases token with
    | none => exact .pure rfl
    | some i =>
      refine .perform trivial fun d hd => ?_
      obtain ⟨status, body, hgood, rfl | rfl⟩ := hd
      · exact .pure hgood
      · exact .pure hgood

def Returned {ε : Type} (good : ℕ → Body → Prop) (result : Except ε Served) : Prop :=
  ∀ s, result = .ok s → good s.response.status s.response.body

theorem safe_error {ε : Type} (e : ε) :
    Safe (protocol good) (fun result _ => Returned good result) (pure (.error e : Except ε Served)) () :=
  .pure nofun

theorem safe_ok (ε : Type) {s : Served} (h : good s.response.status s.response.body) :
    Safe (protocol good) (fun result _ => Returned good result) (pure (.ok s : Except ε Served)) () := by
  refine .pure ?_
  rintro _ ⟨⟩
  exact h

theorem peekBodyForPruning_whole {r : Response} {content : String} (h : r.body = .whole content)
    (target : HistoricalTarget) : (peekBodyForPruning r target).2 = r := by
  unfold peekBodyForPruning
  split_ifs
  · rfl
  · rw [h]
    unfold readAtMost
    split_ifs
    · rfl
    · rfl

variable {c : Call} (hgood : Acceptable c.maxResponseBytes good)

include hgood

theorem peek_eq {r : Response} (h : good r.status r.body) (target : HistoricalTarget) :
    (peekBodyForPruning r target).2 = r := by
  obtain ⟨content, hbody, -⟩ := hgood.body h
  exact peekBodyForPruning_whole hbody target

def stage (good : ℕ → Body → Prop) : Stage Unit where
  idle b _ := ∀ s, b = some s → good s.response.status s.response.body
  failed b tok _ _ := (∀ s, b = some s → good s.response.status s.response.body) ∧ tok = none
  holds b s _ := (∀ s, b = some s → good s.response.status s.response.body) ∧
    good s.response.status s.response.body

theorem handled_stage : (stage good).Handled (protocol good) c where
  wait i h := (safe_waitRetry c i).mono fun _ _ _ => h
  refused h := h.1
  settle h _ := (safe_settleToken _ (Or.inl h.2)).mono fun _ _ _ => h.1
  peek h := by
    refine ⟨h.1, ?_⟩
    rw [peek_eq hgood h.2]
    exact h.2
  drop h ho := by
    refine (safe_closeAndSettle _ _ ?_).mono fun _ _ _ => h.1
    rcases ho with rfl | ⟨-, h5⟩
    · decide
    · exact absurd h5 (not_le.mpr (hgood.status h.2))
  readDrop h h5 := absurd h5 (not_le.mpr (hgood.status h.2))
  settleKept h h5 := absurd h5 (not_le.mpr (hgood.status h.2))
  clear _ := (safe_dropBuffered _).mono fun _ _ _ => nofun
  replace h := (safe_dropBuffered _).mono fun _ _ _ => ⟨nofun, h.2⟩
  keep h := by
    rintro _ ⟨⟩
    exact h.2

omit hgood in
theorem ends_stage : (stage good).Ends (fun _ result _ => Returned good result) where
  error _ := nofun
  ok h := by
    rintro _ ⟨⟩
    exact h _ rfl

omit hgood in
theorem taken_of_sound {b : Option Served} {u : Upstream} {a : Attempt} {g g' : Unit} (ha : a.Sound good)
    (h : (stage good).idle b g) : (stage good).taken b u a g' := by
  unfold Attempt.Sound at ha
  cases hr : a.result with
  | ok r =>
    rw [hr] at ha
    exact (Stage.taken_ok hr).mpr ⟨h, ha⟩
  | error e =>
    rw [hr] at ha
    exact (Stage.taken_error hr).mpr ⟨h, ha⟩

omit hgood in
theorem safe_taken (u : Upstream) {b : Option Served} {g : Unit} (h : (stage good).idle b g) :
    Safe (protocol good) ((stage good).taken b u) (forward u) g :=
  (safe_forward u).mono fun _ _ ha => taken_of_sound ha h

section Sequential

def PromoteSafe (good : ℕ → Body → Prop) (promote : Promote) : Prop :=
  ∀ i tried a r, Safe (protocol good) (fun result _ => ∀ x, result = some x → Returned good x)
    (promote i tried a r) ()

theorem sequentialStages {promote : Promote} (hp : PromoteSafe good promote) :
    SequentialStages (protocol good) c (fun _ result _ => Returned good result) promote
      (fun _ _ _ => stage good) where
  handled _ _ _ := handled_stage hgood
  ends _ _ _ := ends_stage
  skip _ h := h
  forward _ h := safe_taken _ h
  promote h := (hp _ _ _ _).mono fun result _ hresult => by
    cases result with
    | none => exact h
    | some x => exact hresult x rfl

omit hgood in
theorem promoteSafe_archiveBiased : PromoteSafe good archiveBiased := fun _ _ _ _ => .pure nofun

omit hgood in
theorem safe_pool {site : Site} {f : Pool → Go α} (h : ∀ p, Safe (protocol good) post (f p) ()) :
    Safe (protocol good) post (Go.pool site >>= f) () :=
  .perform trivial fun p _ => h p

theorem promoteSafe_midLoop : PromoteSafe good (promoteMidLoop c) := by
  intro i tried a r
  unfold promoteMidLoop
  apply safe_pool
  intro pool
  dsimp only
  split_ifs
  · exact .pure nofun
  · exact .pure nofun
  · refine safe_unit (safe_closeAndSettle _ _ (by decide)) ?_
    refine ((sequentialStages hgood promoteSafe_archiveBiased).safe_loop _ _ _ _ nofun).bind fun result _ hresult => ?_
    refine .pure ?_
    rintro _ ⟨⟩
    exact hresult

theorem safe_executeSequential (preferID : String) (proactiveArchive : Bool) :
    Safe (protocol good) (fun result _ => Returned good result)
      (executeSequential c preferID proactiveArchive) () := by
  have hpromote : PromoteSafe good (c.promote proactiveArchive) := by
    unfold Call.promote
    split_ifs
    · exact promoteSafe_archiveBiased
    · exact promoteSafe_midLoop hgood
  unfold executeSequential
  apply safe_pool
  intro pool
  dsimp only
  split_ifs
  · exact safe_error _
  · apply safe_pool
    intro pool'
    exact (sequentialStages hgood hpromote).safe_loop _ _ _ _ nofun

end Sequential

section Selected

theorem selectedStages :
    SelectedStages (protocol good) c (fun _ result _ => Returned good result) (fun _ _ => stage good) where
  handled _ _ := handled_stage hgood
  ends _ _ := ends_stage
  forward h := safe_taken _ h

theorem safe_executeSelectedFS :
    Safe (protocol good) (fun result _ => Returned good result) (executeSelectedFS c) () := by
  unfold executeSelectedFS
  apply safe_pool
  intro pool
  split_ifs
  · cases pool.byID c.required.id with
    | none => exact safe_error _
    | some u =>
      refine (safe_taken u (b := none) (g := ()) nofun).bind fun a _ ha => ?_
      cases hr : a.result with
      | ok r => exact safe_ok _ ((Stage.taken_ok hr).mp ha).2
      | error e =>
        exact ((handled_stage hgood).settleError ((Stage.taken_error hr).mp ha)).bind fun _ _ _ => safe_error _
  · dsimp only
    split_ifs
    · exact safe_error _
    · exact (selectedStages hgood).safe_loop _ _ _ _ nofun

end Selected

section Hedged

theorem archiveStages (tried : List String) :
    ArchiveStages (protocol good) c (fun _ result _ => Returned good result) tried (fun _ => stage good) where
  handled _ := handled_stage hgood
  ends _ := ends_stage
  skip _ h := h
  forward _ h := safe_taken _ h

theorem safe_readCloseSettle {s : Served} (h : good s.response.status s.response.body)
    (failed : ReadError → CBOutcome) {o : CBOutcome} (ho : o ≠ .failure) :
    Safe (protocol good) (fun result _ => ∃ content, s.response.body = .whole content ∧ result = .ok content)
      (readCloseSettle c.maxResponseBytes s failed o) () := by
  obtain ⟨content, hwhole, hread⟩ := hgood.body h
  unfold readCloseSettle
  refine (safe_read s.response).bind fun result _ hresult => ?_
  rw [hread] at hresult
  subst hresult
  exact safe_unit (safe_closeBody _) (safe_unit (safe_settleToken _ (Or.inr ho)) (.pure ⟨content, hwhole, rfl⟩))

theorem safe_hedgeFinish (maxFire : ℕ) (st : HedgeState)
    (hst : ∀ s, st.pruning = some s → good s.response.status s.response.body) :
    Safe (protocol good) (fun result _ => Returned good result) (hedgeFinish c maxFire st) () := by
  unfold hedgeFinish
  cases hs : st.pruning with
  | none => exact safe_error _
  | some s =>
    refine (safe_readCloseSettle hgood (hst s hs) _ (by decide)).bind fun body _ hbody => ?_
    obtain ⟨content, hwhole, rfl⟩ := hbody
    have harchive : Safe (protocol good) (fun result _ => Returned good result)
        (promoteToArchive c st.tried (max maxFire c.fs.maxAttempts)) () :=
      safe_pool fun pool => (archiveStages hgood st.tried).safe_pass none _ nofun
    refine harchive.bind fun archived _ harchived => ?_
    cases archived with
    | ok served => exact safe_ok _ (harchived served rfl)
    | error e =>
      refine safe_ok _ ?_
      dsimp only
      rw [← hwhole]
      exact hst s hs

omit hgood in
theorem safe_drainResults (n : ℕ) : Safe (protocol good) (fun _ _ => True) (drainResults n) () := by
  unfold drainResults
  split_ifs
  · exact .pure trivial
  · exact .perform trivial fun _ _ => .pure trivial

theorem hedgeStages (maxFire : ℕ) :
    HedgeStages (protocol good) c (fun _ result _ => Returned good result) False maxFire
      (fun _ _ _ _ => stage good) (stage good) where
  handled _ _ _ _ := handled_stage hgood
  handledLast := handled_stage hgood
  ends := ends_stage
  finish _ h := safe_hedgeFinish hgood maxFire _ h
  select _ h := safe_call.mpr ⟨trivial, fun arrival harrival => .pure <| by
    cases arrival with
    | timer => exact ⟨False.elim, h⟩
    | done => exact h
    | result r => exact ⟨False.elim, taken_of_sound harrival h⟩⟩
  disarm h := h
  fire h := safe_call.mpr ⟨trivial, fun _ _ => .pure h⟩
  pool h := safe_call.mpr ⟨trivial, fun _ _ => .pure h⟩
  leave h := (safe_drainResults _).mono fun _ _ _ => h
  win h := (safe_drainResults _).mono fun _ _ _ => h

theorem safe_executeHedgeFS (hedge : HedgeConfig) (preferID : String) (ups : List Upstream)
    (archiveBiased : Bool) : Safe (protocol good) (fun result _ => Returned good result)
      (executeHedgeFS c hedge preferID ups archiveBiased) () := by
  unfold executeHedgeFS
  apply safe_pool
  intro pool
  dsimp only
  split
  · exact safe_error _
  · exact .perform trivial fun _ _ => (hedgeStages hgood _).safe_loop _ _ _ False.elim nofun

end Hedged

theorem safe_executeFS : Safe (protocol good) (fun result _ => Returned good result) (executeFS c) () := by
  unfold executeFS
  split_ifs
  · exact safe_executeSelectedFS hgood
  · apply safe_pool
    intro pool
    dsimp only
    cases c.fs.hedge with
    | none => exact safe_executeSequential hgood _ _
    | some hedge =>
      apply safe_pool
      intro pool'
      split_ifs
      · exact safe_executeHedgeFS hgood _ _ _ _
      · exact safe_executeSequential hgood _ _

theorem safe_readSettleClose {s : Served} (h : good s.response.status s.response.body)
    (failed : ReadError → CBOutcome) {o : CBOutcome} (ho : o ≠ .failure) :
    Safe (protocol good) (fun _ _ => True) (readSettleClose c.maxResponseBytes s failed o) () := by
  obtain ⟨content, -, hread⟩ := hgood.body h
  unfold readSettleClose
  refine (safe_read s.response).bind fun result _ hresult => ?_
  rw [hread] at hresult
  subst hresult
  exact safe_unit (safe_settleToken _ (Or.inr ho)) (safe_closeBody _)

theorem safe_consume (caller : Caller) {s : Served} (h : good s.response.status s.response.body) :
    Safe (protocol good) (fun _ _ => True) (caller.consume c.maxResponseBytes s) () := by
  have hstatus := hgood.status h
  have houtcome : statusOutcome s.response.status ≠ .failure := by
    rw [statusOutcome, if_neg (not_le.mpr hstatus)]
    decide
  cases caller with
  | direct => exact safe_readSettleClose hgood h _ houtcome
  | leader => exact (safe_readCloseSettle hgood h _ houtcome).bind fun _ _ _ => .pure trivial
  | prewarm =>
    unfold Caller.consume
    rw [if_neg (not_le.mpr hstatus)]
    split_ifs
    · exact safe_unit (safe_settleToken _ (Or.inr (by decide))) (safe_closeBody _)
    · exact safe_readSettleClose hgood h _ (by decide)

theorem safe_run (caller : Caller) : Safe (protocol good) (fun _ _ => True) (caller.run c) () := by
  refine (safe_executeFS hgood).bind fun result _ hresult => ?_
  cases result with
  | error e => exact .pure trivial
  | ok s => exact safe_consume hgood caller (hresult s rfl)

end FailureFree

namespace FailureFree

variable {good : ℕ → Body → Prop}

theorem safe_hedgeAttempt (u : Upstream) :
    Safe (protocol good) (fun _ _ => True) (hedgeAttempt u) () := by
  refine (safe_forward u).bind fun a _ ha => ?_
  exact .perform ha fun _ _ => .pure trivial

theorem safe_drainLoop (n : ℕ) : Safe (protocol good) (fun _ _ => True) (drainLoop n) () := by
  induction n with
  | zero => exact .pure trivial
  | succ n ih =>
    refine .perform trivial fun r hr => ?_
    have hdiscard : Safe (protocol good) (fun _ _ => True) (discard r.attempt) () := by
      unfold discard
      split
      · exact safe_closeAndSettle _ _ (by decide)
      · exact safe_settleToken _ (Or.inr (by decide))
    exact safe_unit hdiscard ih

theorem safe_spawn {e : Eff} {p : Go Unit} (h : p ∈ spawn e) : Safe (protocol good) (fun _ _ => True) p () := by
  cases e <;> simp only [spawn, List.not_mem_nil, List.mem_singleton] at h
  case fire u => exact h ▸ safe_hedgeAttempt u
  case drain n => exact h ▸ safe_drainLoop n

structure Clean (good : ℕ → Body → Prop) (s : Shared) (_ : Multiset Unit) : Prop where
  trace : ∀ t, Event.settle t .failure ∉ s.trace
  channel : ∀ r ∈ s.channel, r.attempt.Sound good

def Gives (good : ℕ → Body → Prop) (labels : List Label) : Prop :=
  ∀ i d, Label.thread i (.delivery d) ∈ labels → ∃ status body, good status body ∧
    (d = .replied status .identity body ∨ d = .replied status .gzip body)

section Steps

variable {cfg : String → CircuitBreakerConfig} {s s' : Shared} {G : Multiset Unit}

theorem Clean.of_eq (h : Clean good s G) {G' : Multiset Unit} (htrace : s'.trace = s.trace)
    (hchannel : s'.channel = s.channel) : Clean good s' G' :=
  ⟨htrace.symm ▸ h.trace, hchannel.symm ▸ h.channel⟩

theorem Clean.record (h : Clean good s G) {G' : Multiset Unit} {e : Event} (he : ∀ t, e ≠ .settle t .failure)
    (htrace : s'.trace = s.trace ++ [e]) (hchannel : s'.channel = s.channel) : Clean good s' G' := by
  refine ⟨fun t hmem => ?_, hchannel.symm ▸ h.channel⟩
  rw [htrace, List.mem_append, List.mem_singleton] at hmem
  exact hmem.elim (h.trace t) (fun heq => he t heq.symm)

theorem Clean.receive (h : Clean good s G) {G' : Multiset Unit} {r : HedgeResult} {rest : List HedgeResult}
    (hc : s.channel = r :: rest) : r.attempt.Sound good ∧ Clean good { s with channel := rest } G' := by
  have hchannel := h.channel
  rw [hc, List.forall_mem_cons] at hchannel
  exact ⟨hchannel.1, h.trace, hchannel.2⟩

theorem send_answer {t : Ticket} {c : Choice} {d : Delivery} (h : execute cfg s (.send t) c = some (d, s')) :
    c = .delivery d := by
  cases c <;> simp only [execute, reduceCtorEq] at h
  cases h
  rfl

theorem clean_call {e : Eff} {c : Choice} {r : e.Answer} {G' : Multiset Unit} (h : Clean good s G)
    (hneed : need good () e) (hs : execute cfg s e c = some (r, s'))
    (hgives : ∀ d, c = .delivery d → ∃ status body, good status body ∧
      (d = .replied status .identity body ∨ d = .replied status .gzip body)) :
    may good () e r ∧ Clean good s' G' := by
  cases performed hs with
  | pool | build | retryDelay | fire | timer | done | drain => exact ⟨trivial, h.of_eq rfl rfl⟩
  | acquire hs' => exact ⟨trivial, h.of_eq (acquire_frame hs').1 (acquire_frame hs').2⟩
  | failed t canceled => exact ⟨hgives _ (send_answer hs), h.of_eq rfl rfl⟩
  | replied t status encoding body => exact ⟨hgives _ (send_answer hs), h.of_eq rfl rfl⟩
  | read t complete => exact ⟨trivial, h.record (e := .read t complete) (fun _ heq => by cases heq) rfl rfl⟩
  | close t => exact ⟨trivial, h.of_eq (untrack_frame s t).1 (untrack_frame s t).2⟩
  | @settle t o now b hnext =>
    refine ⟨trivial, h.record (e := .settle t o) ?_ rfl rfl⟩
    rintro _ ⟨⟩
    exact hneed rfl
  | post r =>
    refine ⟨trivial, h.trace, ?_⟩
    intro x hx
    rcases List.mem_append.mp hx with hx | hx
    · exact h.channel x hx
    · rw [List.mem_singleton.mp hx]
      exact hneed
  | result armed hc => exact h.receive hc
  | receive hc => exact h.receive hc

end Steps

def Frees (good : ℕ → Body → Prop) (m : Machine) : Prop :=
  Threads.Owned (protocol good) (fun _ => True) (Clean good) m

theorem frees_start {c : Call} (hgood : Acceptable c.maxResponseBytes good) (breakers : String → BreakerRun.Sys)
    (active : String → ℤ) (caller : Caller) : Frees good (start breakers active caller c) := by
  refine ⟨[(caller.run c, ())], rfl, ?_, ?_⟩
  · intro p hp
    rw [List.mem_singleton.mp hp]
    exact safe_run hgood caller
  · exact ⟨nofun, nofun⟩

theorem Frees.step {cfg : String → CircuitBreakerConfig} {m m' : Machine} {l : Label} (h : Frees good m)
    (hgives : Gives good [l]) (hs : next cfg m l = some m') : Frees good m' := by
  rcases next_cases cfg hs with ⟨s, hother, rfl⟩ | ⟨i, c, rfl, hthread⟩
  · obtain ⟨ps, hps, hsafe, hclean⟩ := h
    exact ⟨ps, hps, hsafe, hclean.of_eq (nextOther_frame cfg hother).1 (nextOther_frame cfg hother).2⟩
  · obtain ⟨e, k, r, s', hi, hperform, rfl⟩ := Threads.step_some hthread
    refine Threads.Owned.advance h hi (fun g G hclean hneed => ?_)
    obtain ⟨hmay, hclean'⟩ := clean_call hclean hneed hperform
      (fun d hd => hgives i d (by rw [hd]; exact List.mem_singleton_self _))
    refine ⟨hmay, (spawn e).map (fun p => (p, ())), by rw [List.map_map]; exact List.map_id _, ?_, hclean'⟩
    intro q hq
    obtain ⟨p, hp, rfl⟩ := List.mem_map.mp hq
    exact safe_spawn hp

/-- No breaker is told of a failure in a run of a call whose upstreams give only good replies. -/
theorem no_failure {cfg : String → CircuitBreakerConfig} {breakers : String → BreakerRun.Sys} {active : String → ℤ}
    {caller : Caller} {c : Call} {labels : List Label} {m : Machine} (hgood : Acceptable c.maxResponseBytes good)
    (hgives : Gives good labels) (run : Runs.exec (next cfg) (start breakers active caller c) labels = some m)
    (t : Ticket) : Event.settle t .failure ∉ m.shared.trace := by
  have hstep : ∀ l ∈ labels, ∀ m m', Frees good m → next cfg m l = some m' → Frees good m' := by
    intro l hl m m' h hs
    refine h.step (fun i d hd => hgives i d ?_) hs
    rw [List.mem_singleton.mp hd]
    exact hl
  obtain ⟨ps, -, -, hclean⟩ := Runs.exec_invariant_of_mem (frees_start hgood breakers active caller) hstep run
  exact hclean.trace t

end FailureFree

end EBeacon.Network
