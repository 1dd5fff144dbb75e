import EBeacon.Library.Header
import EBeacon.Network.FailureFree
import EBeacon.Network.Promotion

/-!
Replies that have no body by the rules of HTTP, and what `forward` makes of them when they name an encoding.
-/

namespace EBeacon.Network

open Upstream Proc

structure UpstreamReply where
  status : ℕ
  header : Header
  body : Body
  deriving DecidableEq

def bodiless (method : String) (status : ℕ) : Bool := method = "HEAD" || status = 204 || status = 304

def bodyReceived (method : String) (status : ℕ) (header : Header) (sent : Body) : UpstreamReply :=
  ⟨status, header, if bodiless method status then .whole "" else sent⟩

-- `gzip.NewReader` and the reads from it; the error says whether the client's request was cancelled; a text
-- without a gzip header is refused, and so is the empty one
structure Gunzip where
  run : Body → Except Bool Body
  run_empty : run (.whole "") = .error false

namespace UpstreamReply

variable (gunzip : Gunzip)

def gzipped (r : UpstreamReply) : Bool := r.header.get "Content-Encoding" = "gzip"

def delivery (r : UpstreamReply) : Delivery :=
  if r.gzipped then
    match gunzip.run r.body with
    | .ok body => .replied r.status .gzip body
    | .error canceled => .replied r.status (.badGzip canceled) r.body
  else .replied r.status .identity r.body

def forwardedHeader (r : UpstreamReply) : Header :=
  if r.gzipped then r.header.filter (fun l => l.1 ≠ "Content-Encoding" ∧ l.1 ≠ "Content-Length") else r.header

def Forwarded (r : UpstreamReply) : Prop :=
  r.forwardedHeader = r.header ∧
    ∀ (h : (e : Eff) → e.Answer) (u : Upstream) (i : ℕ), h (.build u) = true → h (.acquire u) = some i →
      h (.send ⟨u.id, i⟩) = r.delivery gunzip →
        eval h (forward u) = ⟨some ⟨u.id, i⟩, .ok ⟨r.status, r.body, some ⟨u.id, i⟩⟩⟩

def Unblamed (r : UpstreamReply) : Prop :=
  ∀ (cfg : String → CircuitBreakerConfig) (breakers : String → BreakerRun.Sys) (active : String → ℤ)
    (caller : Caller) (c : Call) (labels : List Label) (m : Machine),
    (∀ i d, Label.thread i (.delivery d) ∈ labels → d = r.delivery gunzip) →
    Runs.exec (next cfg) (start breakers active caller c) labels = some m →
      ∀ t, Event.settle t .failure ∉ m.shared.trace

def Answers (r : UpstreamReply) : Prop :=
  ∀ (h : (e : Eff) → e.Answer) (c : Call) (promote : Promote) (total n : ℕ) (tried : List String)
    (last : Option AttemptError) (u : Upstream) (rest : List Upstream) (i : ℕ),
    Promotion.Quiet h → u.id ∉ tried → h (.build u) = true → h (.acquire u) = some i →
    h (.send ⟨u.id, i⟩) = r.delivery gunzip →
    isPruningError r.status (peekBodyForPruning ⟨r.status, r.body, some ⟨u.id, i⟩⟩ c.target).1 c.target = false →
      ∃ s, eval h (sequentialLoop c promote total n tried last (u :: rest)) = .ok s ∧
        s.response.status = r.status ∧ s.upstream = u

variable {gunzip : Gunzip} {r : UpstreamReply}

theorem delivery_plain (h : r.gzipped = false) : r.delivery gunzip = .replied r.status .identity r.body := by
  rw [delivery, h]
  rfl

theorem delivery_gzipped (h : r.gzipped = true) (hbody : r.body = .whole "") :
    r.delivery gunzip = .replied r.status (.badGzip false) (.whole "") := by
  rw [delivery, if_pos h, hbody, gunzip.run_empty]

theorem eval_forward {h : (e : Eff) → e.Answer} {u : Upstream} {i : ℕ} (hbuild : h (.build u) = true)
    (hacquire : h (.acquire u) = some i) (hplain : r.gzipped = false)
    (hsend : h (.send ⟨u.id, i⟩) = r.delivery gunzip) :
    eval h (forward u) = ⟨some ⟨u.id, i⟩, .ok ⟨r.status, r.body, some ⟨u.id, i⟩⟩⟩ := by
  rw [delivery_plain hplain] at hsend
  simp [forward, upstreamDo, hbuild, hacquire, hsend]

theorem forwarded_of_plain (h : r.gzipped = false) : r.Forwarded gunzip := by
  refine ⟨?_, fun env u i hbuild hacquire hsend => eval_forward hbuild hacquire h hsend⟩
  rw [forwardedHeader, h]
  rfl

theorem readBodyCapped_empty (limit : Int64) : readBodyCapped (.whole "") limit = .ok "" := by
  have hread : ∀ n, readAtMost (.whole "") n = .ok "" := by
    intro n
    unfold readAtMost
    split_ifs
    · rfl
    · exact congrArg Except.ok (by simp [Text.take])
  unfold readBodyCapped
  split_ifs with hlimit
  · rfl
  · rw [hread]
    dsimp only
    have hpos : (0 : ℤ) < limit.toInt := Int64.lt_iff_toInt_lt.mp (Int64.not_le.mp hlimit)
    exact if_neg (by simpa using hpos.le)

theorem unblamed_of_plain (h : r.gzipped = false) (hbody : r.body = .whole "") (hstatus : r.status < 500) :
    r.Unblamed gunzip := by
  intro cfg breakers active caller c labels m hlabels run
  have hgood : Acceptable c.maxResponseBytes (fun status body => status = r.status ∧ body = .whole "") := by
    refine ⟨fun hgood => hgood.1 ▸ hstatus, fun hgood => ⟨"", hgood.2, ?_⟩⟩
    rw [hgood.2]
    exact readBodyCapped_empty _
  refine FailureFree.no_failure hgood (fun i d hd => ?_) run
  refine ⟨r.status, .whole "", ⟨rfl, rfl⟩, Or.inl ?_⟩
  rw [hlabels i d hd, delivery_plain h, hbody]

theorem answers_of_plain (h : r.gzipped = false) (hstatus : r.status < 500) : r.Answers gunzip := by
  intro env c promote total n tried last u rest i hquiet hfresh hbuild hacquire hsend hpruned
  have hforward := eval_forward hbuild hacquire h hsend
  have hanswered : Promotion.answered env u = some ⟨r.status, r.body, some ⟨u.id, i⟩⟩ := by
    simp [Promotion.answered, hforward, hstatus]
  obtain ⟨heval, -⟩ := Promotion.loop_hit hquiet c promote total n tried last u rest _ hfresh hanswered
  refine ⟨⟨(peekBodyForPruning ⟨r.status, r.body, some ⟨u.id, i⟩⟩ c.target).2, u, some ⟨u.id, i⟩⟩, ?_, ?_, rfl⟩
  · rw [heval]
    unfold Promotion.respond answerOrPromote
    dsimp only
    rw [peekBodyForPruning_status, hpruned, hforward]
    rfl
  · exact peekBodyForPruning_status _ _

end UpstreamReply

def replying (pool : Pool) (d : Delivery) : (e : Eff) → e.Answer
  | .pool _ => pool
  | .build _ => true
  | .acquire _ => some 0
  | .send _ => d
  | .retryDelay _ => false
  | .select _ => .done
  | .receive => ⟨⟨"", false⟩, ⟨none, .error .contextDone⟩⟩
  | .read _ _ | .close _ | .settle _ _ | .fire _ | .post _ | .drain _ => ()

/-- A reply without a body is passed on unless it says that the body it lacks is compressed. -/
theorem bodiless_forwarded_iff (gunzip : Gunzip) {method : String} {status : ℕ} (header : Header) (sent : Body)
    (h : bodiless method status = true) :
    ((bodyReceived method status header sent).Forwarded gunzip ∧
      (status < 500 → (bodyReceived method status header sent).Unblamed gunzip ∧
        (bodyReceived method status header sent).Answers gunzip)) ↔ header.get "Content-Encoding" ≠ "gzip" := by
  have hbody : (bodyReceived method status header sent).body = .whole "" := by simp [bodyReceived, h]
  constructor
  · rintro ⟨⟨-, hforward⟩, -⟩ hheader
    have hgzip : (bodyReceived method status header sent).gzipped = true := decide_eq_true hheader
    have heval := hforward (replying (.allReady []) ((bodyReceived method status header sent).delivery gunzip))
      ⟨"", false⟩ 0 rfl rfl rfl
    rw [UpstreamReply.delivery_gzipped hgzip hbody] at heval
    have hresult := congrArg Attempt.result heval
    cases hresult
  · intro hheader
    have hplain : (bodyReceived method status header sent).gzipped = false := decide_eq_false hheader
    exact ⟨UpstreamReply.forwarded_of_plain hplain, fun hstatus =>
      ⟨UpstreamReply.unblamed_of_plain hplain hbody hstatus, UpstreamReply.answers_of_plain hplain hstatus⟩⟩

def refusesEmpty : Gunzip := ⟨fun _ => .error false, rfl⟩

def nodeVersion : Call where
  path := "/eth/v1/node/version"
  apiPath := "/eth/v1/node/version"
  preferID := ""
  required := .zero
  fs := ⟨none, none⟩
  maxResponseBytes := 2147483648

theorem bodiless_forwarded_plain :
    bodiless "HEAD" 200 = true ∧
      (bodyReceived "HEAD" 200 [("Content-Length", "512")] (.whole "")).Forwarded refusesEmpty :=
  ⟨by decide, ((bodiless_forwarded_iff refusesEmpty [("Content-Length", "512")] (.whole "") (by decide)).mpr
    (by decide)).1⟩

def blames (t : Ticket) : Eff → Bool
  | .settle t' o => t' = t && o = .failure
  | _ => false

theorem head_gzip_fails :
    let r := bodyReceived "HEAD" 200 [("Content-Encoding", "gzip"), ("Content-Length", "512")] (.whole "")
    let env := replying (.allReady [⟨"node", false⟩]) (r.delivery refusesEmpty)
    eval env (forward ⟨"node", false⟩) = ⟨some ⟨"node", 0⟩, .error (.invalidGzip false)⟩ ∧
      eval env (executeFS nodeVersion) = .error (.allFailed 1 (some (.invalidGzip false))) ∧
      (calls env (executeFS nodeVersion)).any (blames ⟨"node", 0⟩) = true ∧
      ¬ r.Forwarded refusesEmpty := by
  intro r env
  refine ⟨rfl, rfl, by decide, ?_⟩
  rintro ⟨-, hforward⟩
  have hresult := congrArg Attempt.result (hforward env ⟨"node", false⟩ 0 rfl rfl rfl)
  cases hresult

end EBeacon.Network
