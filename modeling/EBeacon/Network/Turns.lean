import EBeacon.Library.Simulation
import EBeacon.Network.Candidates
import EBeacon.Network.Goroutines
import EBeacon.Network.Traversal
import Mathlib.Data.Multiset.AddSub

namespace EBeacon.Network

open Upstream Proc

inductive Role
  | main
  | worker (permit : Option Upstream)
  deriving DecidableEq

/-- What a goroutine has done. `tried` are the upstreams that it attempted or fired hedges for and
`ready` is an admitted request that is yet to be sent. Of the hedges, the reader of the channel is
`waiting` for the results that the others owe. -/
structure Turn where
  role : Role
  pools : List Pool
  tried : List Upstream
  ready : Option Ticket
  reader : Bool
  waiting : Multiset Upstream
  owes : Multiset Upstream
  hedged : Bool

namespace Turn

def first : Turn := ⟨.main, [], [], none, true, 0, 0, false⟩

def hedge (u : Upstream) : Turn := ⟨.worker (some u), [], [], none, false, 0, {u}, false⟩

def drainer (waiting : Multiset Upstream) : Turn := ⟨.worker none, [], [], none, true, waiting, 0, false⟩

def Fresh (g : Turn) (u : Upstream) : Prop := ∀ v ∈ g.tried, v.id ≠ u.id

def Idle (g : Turn) : Prop := g.waiting = 0 ∧ g.owes = 0

section Protocol

variable (limit : ℕ) (allow : List Pool → Upstream → Prop)

structure MayTry (g : Turn) (u : Upstream) : Prop where
  fresh : g.Fresh u
  allowed : allow g.pools u
  count : g.hedged = true ∨ g.tried.length ≤ limit

def mayAcquire (g : Turn) (u : Upstream) : Prop :=
  match g.role with
  | .main => g.MayTry limit allow u
  | .worker permit => permit = some u

def need : Turn → Eff → Prop
  | g, .acquire u => g.mayAcquire limit allow u
  | g, .send t => g.ready = some t
  | g, .fire u => g.role = .main ∧ g.reader = true ∧ g.Fresh u ∧ allow g.pools u
  | g, .post r => r.upstream ∈ g.owes
  | g, .select armed => g.reader = true ∧ (armed = true ∨ g.waiting ≠ 0)
  | g, .receive => g.reader = true ∧ g.waiting ≠ 0
  | g, .drain n => g.reader = true ∧ g.waiting.card = n
  | _, _ => True

def may : Turn → (e : Eff) → e.Answer → Prop
  | _, .pool _, p => Distinct p.upstreams
  | g, .select _, .result r => r.upstream ∈ g.waiting
  | _, .select armed, .timer => armed = true
  | g, .receive, r => r.upstream ∈ g.waiting
  | _, _, _ => True

def acquired (g : Turn) (u : Upstream) (ready : Option Ticket) : Turn :=
  match g.role with
  | .main => { g with tried := u :: g.tried, ready := ready }
  | .worker _ => { g with role := .worker none, ready := ready }

def see (g : Turn) (p : Pool) : Turn := { g with pools := p :: g.pools }

def fired (g : Turn) (u : Upstream) : Turn :=
  { g with tried := u :: g.tried, waiting := u ::ₘ g.waiting, hedged := true }

def received (g : Turn) (u : Upstream) : Turn := { g with waiting := g.waiting.erase u }

def after : Turn → (e : Eff) → e.Answer → Turn
  | g, .pool _, p => g.see p
  | g, .acquire u, token => g.acquired u (token.map (fun i => ⟨u.id, i⟩))
  | g, .send _, _ => { g with ready := none }
  | g, .fire u, _ => g.fired u
  | g, .post r, _ => { g with owes := g.owes.erase r.upstream }
  | g, .select _, .result r => g.received r.upstream
  | g, .receive, r => g.received r.upstream
  | g, .drain _, _ => { g with reader := false, waiting := 0 }
  | g, _, _ => g

def protocol : Protocol Eff Eff.Answer Turn := ⟨need limit allow, may, after⟩

end Protocol

end Turn

def Eff.quiet : Eff → Prop
  | .build _ | .read _ _ | .close _ | .settle _ _ | .retryDelay _ => True
  | _ => False

section Quiet

variable (r : Response) (tok : Option Ticket) (o : CBOutcome) (limit : Int64)

theorem only_closeBody {S : Eff → Prop} (hS : ∀ t, S (.close t)) : Only S (closeBody r) := by
  unfold closeBody
  split
  · exact .pure _
  · exact .single (hS _)

theorem only_settleToken {S : Eff → Prop} (hS : ∀ t o, S (.settle t o)) : Only S (settleToken tok o) := by
  unfold settleToken
  split
  · exact .pure _
  · exact .single (hS _ _)

theorem only_closeAndSettle {S : Eff → Prop} (hclose : ∀ t, S (.close t)) (hsettle : ∀ t o, S (.settle t o)) :
    Only S (closeAndSettle r tok o) :=
  (only_closeBody r hclose).bind fun _ => only_settleToken tok o hsettle

theorem quiet_closeBody : Only Eff.quiet (closeBody r) := only_closeBody r fun _ => trivial

theorem quiet_settleToken : Only Eff.quiet (settleToken tok o) := only_settleToken tok o fun _ _ => trivial

theorem quiet_closeAndSettle : Only Eff.quiet (closeAndSettle r tok o) :=
  only_closeAndSettle r tok o (fun _ => trivial) fun _ _ => trivial

theorem quiet_read : Only Eff.quiet (readAndFinalizeResponseBody limit r) := by
  unfold readAndFinalizeResponseBody
  dsimp only
  split
  · exact .pure _
  · exact .perform trivial fun _ => .pure _

theorem quiet_waitRetry (c : Call) (i : ℕ) : Only Eff.quiet (waitRetry c i) := by
  unfold waitRetry
  split_ifs
  · exact .single trivial
  · exact .pure _

theorem quiet_dropBuffered (buffered : Option Served) : Only Eff.quiet (dropBuffered buffered) := by
  cases buffered with
  | none => exact .pure _
  | some s => exact quiet_closeAndSettle _ _ _

theorem quiet_settleError (a : Attempt) (e : AttemptError) : Only Eff.quiet (settleError a e) := by
  unfold settleError
  split_ifs
  · exact quiet_settleToken _ _
  · exact .pure _
  · exact quiet_settleToken _ _

theorem quiet_readCloseSettle (s : Served) (failed : ReadError → CBOutcome) :
    Only Eff.quiet (readCloseSettle limit s failed o) := by
  apply (quiet_read s.response limit).bind
  intro body
  apply (quiet_closeBody s.response).bind
  intro _
  exact (quiet_settleToken _ _).bind (fun _ => .pure _)

theorem quiet_readSettleClose (s : Served) (failed : ReadError → CBOutcome) :
    Only Eff.quiet (readSettleClose limit s failed o) := by
  apply (quiet_read s.response limit).bind
  intro body
  exact (quiet_settleToken _ _).bind (fun _ => quiet_closeBody s.response)

theorem quiet_consume (caller : Caller) (s : Served) : Only Eff.quiet (caller.consume limit s) := by
  cases caller with
  | direct => exact quiet_readSettleClose _ _ _ _
  | leader => exact (quiet_readCloseSettle _ _ _ _).bind (fun _ => .pure _)
  | prewarm =>
    by_cases hunread : s.response.status < 200 ∨ 300 ≤ s.response.status
    · rw [Caller.consume, if_pos hunread]
      exact (quiet_settleToken _ _).bind (fun _ => quiet_closeBody _)
    · rw [Caller.consume, if_neg hunread]
      exact quiet_readSettleClose _ _ _ _

theorem quiet_discard (a : Attempt) : Only Eff.quiet (discard a) := by
  unfold discard
  split
  · exact quiet_closeAndSettle _ _ _
  · exact quiet_settleToken _ _

end Quiet

def Eff.attempts (u : Upstream) : Eff → Prop
  | .build v => v = u
  | .acquire _ | .send _ | .close _ => True
  | _ => False

theorem attempts_upstreamDo (u : Upstream) : Only (Eff.attempts u) (upstreamDo u) := by
  unfold upstreamDo
  refine .perform trivial fun token => ?_
  cases token with
  | none => exact .pure _
  | some i =>
    refine .perform trivial fun delivery => ?_
    cases delivery with
    | failed canceled => exact .pure _
    | replied status encoding body => exact .pure _

theorem attempts_forward (u : Upstream) : Only (Eff.attempts u) (forward u) := by
  unfold forward
  refine .perform rfl fun built => .ite (.pure _) ((attempts_upstreamDo u).bind fun out => ?_)
  obtain ⟨tok, _ | ⟨status, encoding, body⟩⟩ := out
  · exact .pure _
  · cases encoding with
    | badGzip canceled => exact (only_closeBody _ fun _ => trivial).bind fun _ => .pure _
    | identity => exact .pure _
    | gzip => exact .pure _

namespace Turn

variable {limit : ℕ} {allow : List Pool → Upstream → Prop} {α β : Type} {post : α → Turn → Prop}
  {g g' g'' : Turn}

theorem acquired_main {u : Upstream} {ready : Option Ticket} (h : g.role = .main) :
    g.acquired u ready = { g with tried := u :: g.tried, ready := ready } := by
  unfold acquired
  rw [h]

theorem acquired_worker {u : Upstream} {ready : Option Ticket} {permit : Option Upstream}
    (h : g.role = .worker permit) : g.acquired u ready = { g with role := .worker none, ready := ready } := by
  unfold acquired
  rw [h]

theorem safe_only {p : Go β} (hp : Only Eff.quiet p) :
    Safe (protocol limit allow) (fun _ g' => g' = g) p g := by
  apply hp.safe
  · intro g e he
    cases e <;> trivial
  · intro g e r he
    cases e <;> first | rfl | cases he

theorem safe_quiet {p : Go β} {f : β → Go α} (hp : Only Eff.quiet p)
    (hf : ∀ b, Safe (protocol limit allow) post (f b) g) :
    Safe (protocol limit allow) post (p >>= f) g :=
  (safe_only hp).bind (fun b _ hg => hg ▸ hf b)

theorem safe_stays {p : Go β} (hp : Only Eff.quiet p) {I : Turn → Prop} (h : I g) :
    Safe (protocol limit allow) (fun _ => I) p g :=
  (safe_only hp).mono fun _ _ hg => hg ▸ h

def Forwarded (u : Upstream) (g : Turn) (a : Attempt) (g' : Turn) : Prop :=
  g' = g.acquired u none ∨ g' = g ∧ ∀ r, a.result ≠ .ok r

theorem acquired_send (g : Turn) (u : Upstream) (t : Ticket) :
    { g.acquired u (some t) with ready := none } = g.acquired u none := by
  unfold acquired
  cases g.role <;> rfl

theorem safe_forward {u : Upstream} (hu : g.mayAcquire limit allow u) :
    Safe (protocol limit allow) (Forwarded u g) (forward u) g := by
  have hbuild : Only Eff.quiet (Go.build u) := .single trivial
  refine safe_quiet hbuild (fun b => ?_)
  cases b with
  | false => exact .pure (Or.inr ⟨rfl, nofun⟩)
  | true =>
    refine safe_call.mpr ⟨hu, fun token _ => ?_⟩
    cases token with
    | none => exact .pure (Or.inl rfl)
    | some i =>
      have hready : (g.acquired u (some ⟨u.id, i⟩)).ready = some ⟨u.id, i⟩ := by
        unfold acquired
        cases g.role <;> rfl
      refine safe_call.mpr ⟨hready, fun d _ => ?_⟩
      have hsent : ∀ a, Forwarded u g a { g.acquired u (some ⟨u.id, i⟩) with ready := none } :=
        fun _ => Or.inl (acquired_send g u ⟨u.id, i⟩)
      cases d with
      | failed canceled => exact .pure (hsent _)
      | replied status encoding body =>
        cases encoding with
        | identity => exact .pure (hsent _)
        | gzip => exact .pure (hsent _)
        | badGzip canceled =>
          change Safe _ _ (closeBody ⟨status, body, some ⟨u.id, i⟩⟩ >>= fun _ => pure _) _
          exact safe_quiet (quiet_closeBody _) (fun _ => .pure (hsent _))

structure Between (seen : List String) (n : ℕ) (g : Turn) : Prop where
  role : g.role = .main
  idle : g.Idle
  seen : ∀ u ∈ g.tried, u.id ∈ seen
  count : g.hedged = true ∨ g.tried.length ≤ n

theorem Between.mayAcquire {seen : List String} {n : ℕ} (h : Between seen n g) {u : Upstream}
    (hn : n ≤ limit) (hu : u.id ∉ seen) (hallow : allow g.pools u) : g.mayAcquire limit allow u := by
  unfold Turn.mayAcquire
  rw [h.role]
  refine ⟨fun v hv hsame => hu (hsame ▸ h.seen v hv), hallow, ?_⟩
  exact h.count.imp_right (fun hcount => hcount.trans hn)

theorem Between.next {seen : List String} {n : ℕ} (h : Between seen n g) : Between seen (n + 1) g :=
  ⟨h.role, h.idle, h.seen, h.count.imp_right (fun hcount => hcount.trans (Nat.le_succ n))⟩

theorem Between.see {seen : List String} {n : ℕ} (h : Between seen n g) (p : Pool) :
    Between seen n (g.see p) := ⟨h.role, h.idle, h.seen, h.count⟩

structure After (u : Upstream) (g : Turn) (a : Attempt) (g' : Turn) : Prop where
  tried : g.tried ⊆ g'.tried
  pools : g'.pools = g.pools
  hedged : g'.hedged = g.hedged
  answer : ∀ r, a.result = .ok r → u ∈ g'.tried

theorem Between.forwarded {seen : List String} {n : ℕ} {u : Upstream} {a : Attempt}
    (h : Between seen n g) (hg : Forwarded u g a g') :
    Between (u.id :: seen) (n + 1) g' ∧ After u g a g' := by
  rcases hg with rfl | ⟨rfl, hnone⟩
  · rw [acquired_main h.role]
    refine ⟨⟨h.role, h.idle, ?_, ?_⟩, ⟨List.subset_cons_self _ _, rfl, rfl, fun _ _ => List.mem_cons_self⟩⟩
    · intro v hv
      rcases List.mem_cons.mp hv with rfl | hv
      · exact List.mem_cons_self
      · exact List.mem_cons_of_mem _ (h.seen v hv)
    · exact h.count.imp_right (fun hcount => Nat.succ_le_succ hcount)
  · refine ⟨⟨h.role, h.idle, fun v hv => List.mem_cons_of_mem _ (h.seen v hv), h.next.count⟩, ?_⟩
    exact ⟨List.Subset.refl _, rfl, rfl, fun r hr => absurd hr (hnone r)⟩

structure Answered {ε : Type} (g : Turn) (result : Except ε Served) (g' : Turn) : Prop where
  idle : g'.Idle
  tried : g.tried ⊆ g'.tried
  upstream : ∀ s, result = .ok s → s.upstream ∈ g'.tried

theorem Answered.of_subset {ε : Type} {result : Except ε Served} (h : Answered g' result g'')
    (hsub : g.tried ⊆ g'.tried) : Answered g result g'' :=
  ⟨h.idle, List.Subset.trans hsub h.tried, h.upstream⟩

theorem safe_of_subset {ε : Type} {p : Go (Except ε Served)} (g' : Turn)
    (hp : Safe (protocol limit allow) (Answered g') p g'') (hsub : g.tried ⊆ g'.tried) :
    Safe (protocol limit allow) (Answered g) p g'' :=
  hp.mono (fun _ _ h => h.of_subset hsub)

theorem safe_error {ε : Type} (e : ε) (h : g'.Idle) (hsub : g.tried ⊆ g'.tried) :
    Safe (protocol limit allow) (Answered g) (pure (.error e : Except ε Served)) g' :=
  .pure ⟨h, hsub, nofun⟩

theorem safe_ok (ε : Type) {s : Served} (h : g'.Idle) (hs : s.upstream ∈ g'.tried)
    (hsub : g.tried ⊆ g'.tried) :
    Safe (protocol limit allow) (Answered g) (pure (.ok s : Except ε Served)) g' := by
  refine .pure ⟨h, hsub, ?_⟩
  rintro _ ⟨⟩
  exact hs

def stage (I : Turn → Prop) : Stage Turn where
  idle b g := I g ∧ ∀ s, b = some s → s.upstream ∈ g.tried
  failed b _ _ g := I g ∧ ∀ s, b = some s → s.upstream ∈ g.tried
  holds b s g := (I g ∧ ∀ s, b = some s → s.upstream ∈ g.tried) ∧ s.upstream ∈ g.tried

section Stages

variable {I J : Turn → Prop} {b : Option Served} {u : Upstream} {a : Attempt}

theorem handled_stage (I : Turn → Prop) (c : Call) : (stage I).Handled (protocol limit allow) c where
  wait i h := safe_stays (quiet_waitRetry c i) h
  refused h := h
  settle h _ := safe_stays (quiet_settleToken _ _) h
  peek h := h
  drop h _ := safe_stays (quiet_closeAndSettle _ _ _) h.1
  readDrop h _ := safe_quiet (quiet_read _ _) fun _ => safe_stays (quiet_closeAndSettle _ _ _) h.1
  settleKept h _ := safe_stays (quiet_settleToken _ _) h
  clear h := safe_stays (quiet_dropBuffered _) ⟨h.1, nofun⟩
  replace h := safe_stays (quiet_dropBuffered _) ⟨⟨h.1.1, nofun⟩, h.2⟩
  keep h := by
    refine ⟨h.1.1, ?_⟩
    rintro _ ⟨⟩
    exact h.2

theorem ends_stage (hI : ∀ g', I g' → g'.Idle ∧ g.tried ⊆ g'.tried) :
    (stage I).Ends (fun _ => Answered g) where
  error h := ⟨(hI _ h.1).1, (hI _ h.1).2, nofun⟩
  ok h := by
    refine ⟨(hI _ h.1).1, (hI _ h.1).2, ?_⟩
    rintro _ ⟨⟩
    exact h.2 _ rfl

theorem taken_of_after (h : (stage I).idle b g) (hJ : J g') (hsub : g.tried ⊆ g'.tried)
    (hanswer : ∀ r, a.result = .ok r → u ∈ g'.tried) : (stage J).taken b u a g' := by
  have hb : J g' ∧ ∀ s, b = some s → s.upstream ∈ g'.tried := ⟨hJ, fun s hs => hsub (h.2 s hs)⟩
  cases hr : a.result with
  | ok r => exact (Stage.taken_ok hr).mpr ⟨hb, hanswer r hr⟩
  | error e => exact (Stage.taken_error hr).mpr hb

theorem safe_taken {seen : List String} {n : ℕ} (h : (stage I).idle b g) (hbetween : Between seen n g)
    (hu : g.mayAcquire limit allow u)
    (hnext : ∀ g' a, Between (u.id :: seen) (n + 1) g' → After u g a g' → J g') :
    Safe (protocol limit allow) ((stage J).taken b u) (forward u) g := by
  apply (safe_forward hu).mono
  intro a g' hg'
  obtain ⟨hbetween', hafter⟩ := hbetween.forwarded hg'
  exact taken_of_after h (hnext g' a hbetween' hafter) hafter.tried hafter.answer

end Stages

section Sequential

def Promoted (seen : List String) (n : ℕ) (g : Turn) : Option (Except ExecError Served) → Turn → Prop
  | none, g' => Between seen n g' ∧ g.tried ⊆ g'.tried
  | some result, g' => Answered g result g'

def PromoteSafe (limit : ℕ) (allow : List Pool → Upstream → Prop) (top : ℕ) (promote : Promote) : Prop :=
  ∀ i seen a r g, i < top → Between seen (i + 1) g →
    Safe (protocol limit allow) (Promoted seen (i + 1) g) (promote i seen a r) g

structure Trying (start : Turn) (top i : ℕ) (seen : List String) (ups : List Upstream) (g : Turn) : Prop where
  between : Between seen i g
  tried : start.tried ⊆ g.tried
  count : i + ups.length ≤ top

theorem sequentialStages {top : ℕ} {promote : Promote} (hp : PromoteSafe limit allow top promote)
    (htop : top ≤ limit + 1) (hallow : ∀ ps u, allow ps u) (c : Call) (start : Turn) :
    SequentialStages (protocol limit allow) c (fun _ => Answered start) promote
      (fun i seen ups => stage (Trying start top i seen ups)) where
  handled _ _ _ := handled_stage _ c
  ends _ _ _ := ends_stage fun _ h => ⟨h.between.idle, h.tried⟩
  skip _ h := by
    have hcount := h.1.count
    rw [List.length_cons] at hcount
    exact ⟨⟨h.1.between.next, h.1.tried, by omega⟩, h.2⟩
  forward hu h := by
    have hcount := h.1.count
    rw [List.length_cons] at hcount
    apply safe_taken h h.1.between (h.1.between.mayAcquire (by omega) hu (hallow _ _))
    intro g' a hbetween hafter
    exact ⟨hbetween, List.Subset.trans h.1.tried hafter.tried, by omega⟩
  promote := by
    intro i seen u rest a r g h
    have htrying := h.1.1
    have hcount := htrying.count
    apply (hp i seen a r g (by omega) htrying.between).mono
    intro result g' hg'
    cases result with
    | none =>
      exact ⟨⟨⟨hg'.1, List.Subset.trans htrying.tried hg'.2, hcount⟩, nofun⟩, hg'.2 h.2⟩
    | some result => exact Answered.of_subset hg' htrying.tried

theorem safe_sequentialLoop {top : ℕ} {promote : Promote} (hp : PromoteSafe limit allow top promote)
    (htop : top ≤ limit + 1) (hallow : ∀ ps u, allow ps u) (c : Call) (total i : ℕ) (seen : List String)
    (last : Option AttemptError) (ups : List Upstream) (h : Between seen i g) (hlen : i + ups.length ≤ top) :
    Safe (protocol limit allow) (Answered g) (sequentialLoop c promote total i seen last ups) g :=
  (sequentialStages hp htop hallow c g).safe_loop total i last ups
    ⟨⟨h, List.Subset.refl _, hlen⟩, nofun⟩

theorem promoteSafe_archiveBiased (top : ℕ) : PromoteSafe limit allow top archiveBiased :=
  fun _ _ _ _ _ _ h => .pure ⟨h, List.Subset.refl _⟩

theorem safe_pool {site : Site} {f : Pool → Go α}
    (h : ∀ p, Distinct p.upstreams → Safe (protocol limit allow) post (f p) (g.see p)) :
    Safe (protocol limit allow) post (Go.pool site >>= f) g :=
  .perform trivial h

theorem promoteSafe_midLoop (c : Call) (hallow : ∀ ps u, allow ps u) :
    PromoteSafe c.fs.maxAttempts allow c.fs.maxAttempts (promoteMidLoop c) := by
  intro i seen a r g hi h
  unfold promoteMidLoop
  apply safe_pool
  intro pool _
  have hsee := h.see pool
  split_ifs
  · exact .pure ⟨hsee, List.Subset.refl _⟩
  dsimp only
  split_ifs
  · exact .pure ⟨hsee, List.Subset.refl _⟩
  · apply safe_quiet (quiet_closeAndSettle _ _ _)
    intro _
    have hlen := length_select_le pool (pool.upstreams.filter (·.archive))
      (max (c.fs.maxAttempts - (i + 1)) 1) c.apiPath false
    have hloop := safe_sequentialLoop (promoteSafe_archiveBiased (c.fs.maxAttempts + 1)) (Nat.le_refl _)
      hallow c (i + 1 + (pool.selectForPathArchive c.apiPath (max (c.fs.maxAttempts - (i + 1)) 1)).length)
      (i + 1) seen (some (.pruned r.status))
      (pool.selectForPathArchive c.apiPath (max (c.fs.maxAttempts - (i + 1)) 1)) hsee
      (by unfold Pool.selectForPathArchive; omega)
    exact hloop.bind (fun result g' hg' => .pure (hg'.of_subset (List.Subset.refl _)))

theorem safe_executeSequential (c : Call) (hallow : ∀ ps u, allow ps u) (preferID : String)
    (proactiveArchive : Bool) (h : Between [] 0 g) :
    Safe (protocol c.fs.maxAttempts allow) (Answered g) (executeSequential c preferID proactiveArchive) g := by
  have hpromote : PromoteSafe c.fs.maxAttempts allow c.fs.maxAttempts (c.promote proactiveArchive) := by
    unfold Call.promote
    split_ifs
    · exact promoteSafe_archiveBiased _
    · exact promoteSafe_midLoop c hallow
  unfold executeSequential
  apply safe_pool
  intro pool _
  dsimp only
  split_ifs
  · exact safe_error _ (h.see pool).idle (List.Subset.refl _)
  apply safe_pool
  intro pool' _
  have hlen := length_preferred_le pool' preferID c.fs.maxAttempts
    (length_selectForPath_le c proactiveArchive (p := pool) c.fs.maxAttempts)
  refine safe_of_subset ((g.see pool).see pool') ?_ (List.Subset.refl _)
  exact safe_sequentialLoop hpromote (Nat.le_succ _) hallow c _ 0 [] none _ ((h.see pool).see pool')
    ((Nat.zero_add _).trans_le hlen)

end Sequential

section Selected

structure Admits (allow : List Pool → Upstream → Prop) (c : Call) : Prop where
  any : c.required.enabled = false → ∀ ps u, allow ps u
  byID : c.required.id ≠ "" → ∀ p ps u, p.byID c.required.id = some u → allow (p :: ps) u
  matching : c.required.id = "" → ∀ p ps n, ∀ u ∈ p.selectMatching c.required c.apiPath n,
    allow (p :: ps) u

structure Choosing (limit : ℕ) (allow : List Pool → Upstream → Prop) (start : Turn) (i : ℕ) (ups : List Upstream)
    (g : Turn) : Prop where
  between : ∃ seen, Between seen i g ∧ ∀ u ∈ ups, u.id ∉ seen
  tried : start.tried ⊆ g.tried
  count : i + ups.length ≤ limit
  distinct : Distinct ups
  allowed : ∀ u ∈ ups, allow g.pools u

theorem selectedStages (limit : ℕ) (allow : List Pool → Upstream → Prop) (c : Call) (start : Turn) :
    SelectedStages (protocol limit allow) c (fun _ => Answered start)
      (fun i ups => stage (Choosing limit allow start i ups)) where
  handled _ _ := handled_stage _ c
  ends _ _ := ends_stage fun _ h => by
    obtain ⟨seen, hbetween, -⟩ := h.between
    exact ⟨hbetween.idle, h.tried⟩
  forward := by
    intro i b u rest g h
    obtain ⟨seen, hbetween, hseen⟩ := h.1.between
    have hcount := h.1.count
    rw [List.length_cons] at hcount
    obtain ⟨hother, hrest⟩ := distinct_cons.mp h.1.distinct
    apply safe_taken h hbetween (hbetween.mayAcquire (by omega) (hseen u List.mem_cons_self)
      (h.1.allowed u List.mem_cons_self))
    intro g' a hbetween' hafter
    refine ⟨⟨u.id :: seen, hbetween', ?_⟩, List.Subset.trans h.1.tried hafter.tried, by omega, hrest, ?_⟩
    · intro v hv hmem
      rcases List.mem_cons.mp hmem with hsame | hmem
      · exact hother v hv hsame
      · exact hseen v (List.mem_cons_of_mem _ hv) hmem
    · intro v hv
      rw [hafter.pools]
      exact h.1.allowed v (List.mem_cons_of_mem _ hv)

theorem safe_executeSelectedFS {c : Call} (hadmits : Admits allow c) (h : Between [] 0 g) :
    Safe (protocol c.fs.maxAttempts allow) (Answered g) (executeSelectedFS c) g := by
  unfold executeSelectedFS
  apply safe_pool
  intro pool hpool
  have hsee := h.see pool
  split_ifs with hid
  · cases hu : pool.byID c.required.id with
    | none => exact safe_error _ hsee.idle (List.Subset.refl _)
    | some u =>
      have hacquire : (g.see pool).mayAcquire c.fs.maxAttempts allow u :=
        hsee.mayAcquire (Nat.zero_le _) List.not_mem_nil (hadmits.byID hid pool g.pools u hu)
      apply (safe_forward hacquire).bind
      intro a g' hg'
      obtain ⟨hbetween, hafter⟩ := hsee.forwarded hg'
      cases hr : a.result with
      | ok r => exact safe_ok ExecError hbetween.idle (hafter.answer r hr) hafter.tried
      | error e =>
        apply safe_quiet (quiet_settleError a e)
        intro _
        exact safe_error _ hbetween.idle hafter.tried
  · dsimp only
    split_ifs
    · exact safe_error _ hsee.idle (List.Subset.refl _)
    · apply (selectedStages c.fs.maxAttempts allow c g).safe_loop
      refine ⟨⟨⟨[], hsee, fun _ _ => List.not_mem_nil⟩, List.Subset.refl _, ?_, ?_, ?_⟩, nofun⟩
      · rw [Nat.zero_add]
        exact length_select_le _ _ _ _ _
      · exact (hpool.sublist List.filter_sublist).select _ _ _
      · exact hadmits.matching (not_not.mp hid) pool g.pools _

end Selected

section Archive

structure Archiving (start : Turn) (tried : List String) (ups : List Upstream) (g : Turn) : Prop where
  between : ∃ seen, Between seen 0 g ∧ ∀ u ∈ ups, u.id ∈ seen → u.id ∈ tried
  hedged : g.hedged = true
  tried : start.tried ⊆ g.tried
  distinct : Distinct ups

theorem archiveStages (hallow : ∀ ps u, allow ps u) (c : Call) (tried : List String) (start : Turn) :
    ArchiveStages (protocol limit allow) c (fun _ => Answered start) tried
      (fun ups => stage (Archiving start tried ups)) where
  handled _ := handled_stage _ c
  ends _ := ends_stage fun _ h => by
    obtain ⟨seen, hbetween, -⟩ := h.between
    exact ⟨hbetween.idle, h.tried⟩
  skip _ h := by
    obtain ⟨seen, hbetween, hseen⟩ := h.1.between
    exact ⟨⟨⟨seen, hbetween, fun v hv => hseen v (List.mem_cons_of_mem _ hv)⟩, h.1.hedged, h.1.tried,
      (distinct_cons.mp h.1.distinct).2⟩, h.2⟩
  forward := by
    intro u rest g hu h
    obtain ⟨seen, hbetween, hseen⟩ := h.1.between
    obtain ⟨hother, hrest⟩ := distinct_cons.mp h.1.distinct
    apply safe_taken h hbetween (hbetween.mayAcquire (Nat.zero_le _)
      (fun hmem => hu (hseen u List.mem_cons_self hmem)) (hallow _ _))
    intro g' a hbetween' hafter
    have hhedged : g'.hedged = true := hafter.hedged.trans h.1.hedged
    refine ⟨⟨u.id :: seen, ⟨hbetween'.role, hbetween'.idle, hbetween'.seen, Or.inl hhedged⟩, ?_⟩, hhedged,
      List.Subset.trans h.1.tried hafter.tried, hrest⟩
    intro v hv hmem
    rcases List.mem_cons.mp hmem with hsame | hmem
    · exact absurd hsame (hother v hv)
    · exact hseen v (List.mem_cons_of_mem _ hv) hmem

theorem safe_promoteToArchive (hallow : ∀ ps u, allow ps u) (c : Call) {tried : List String} {n : ℕ}
    (maxAttempts : ℕ) (h : Between tried n g) (hhedged : g.hedged = true) :
    Safe (protocol limit allow) (Answered g) (promoteToArchive c tried maxAttempts) g := by
  apply safe_pool
  intro pool hpool
  have hdistinct : Distinct (pool.selectForPathArchive c.apiPath (max maxAttempts 1)) :=
    (hpool.sublist List.filter_sublist).select _ _ _
  have hbetween : Between tried 0 (g.see pool) := ⟨h.role, h.idle, h.seen, Or.inl hhedged⟩
  apply (archiveStages hallow c tried g).safe_pass
  exact ⟨⟨⟨tried, hbetween, fun _ _ hmem => hmem⟩, hhedged, List.Subset.refl _, hdistinct⟩, nofun⟩

end Archive

end Turn

end EBeacon.Network
