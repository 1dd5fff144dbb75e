import EBeacon.Network.SSELines
import EBeacon.Network.SSETrace

/-!
The loop of `stream` passes on the frames of the bytes that it reads, up to one that is too large, and
credits a success to the first with a field.
-/

namespace EBeacon.Network.SSERelay

open Chunks

def received (s : Stream) : Turn → List UInt8
  | .line _ => (s.lines.head?.map SSELine.line).getD []
  | _ => []

def passed (flushes : List (List UInt8 × Bool)) : List (List UInt8) :=
  (flushes.filter (fun call => !call.2)).map Prod.fst

inductive Streaming (required : Upstream.Selector) (body : EventBody) (start : SSERelay) :
    List UInt8 → SSERelay → Stream → Prop
  | dialled {ok : Bool} {s : Stream} (hs : (start.dial required ok (.connected body)).phase = .streaming s) :
      Streaming required body start [] (start.dial required ok (.connected body)) s
  | cancel {read : List UInt8} {r : SSERelay} {s : Stream} (h : Streaming required body start read r s) :
      Streaming required body start read { r with ctxDone := true } s
  | turn {read : List UInt8} {r r' : SSERelay} {s s' : Stream} {t : Turn}
      (h : Streaming required body start read r s) (hstep : r.turn required s t = some r')
      (hs : r'.phase = .streaming s') :
      Streaming required body start (read ++ received s t) r' s'

def cappedFrames (bytes : List UInt8) : List (List UInt8) :=
  (eventFrames bytes).1.takeWhile (fun f => f.length ≤ sseMaxEventBytes)

def Credited (acts : List Act) : Prop :=
  ∀ pre post, acts = pre ++ .success :: post → ∃ f ∈ frames pre, hasField f = true

def Written (body : EventBody) (given : List (List UInt8)) (acts : List Act) : Prop :=
  (frames acts).Sublist given ∨ body.eof = true ∧ given = (eventFrames body.bytes).1 ∧
    ∃ whole, whole.Sublist given ∧
      frames acts = whole ++ [trimNewlines (eventFrames body.bytes).2 ++ [lf, lf]]

def given (start r : SSERelay) : List (List UInt8) := passed (r.flushes.drop start.flushes.length)

/-- The frames passed on are those of the bytes received, which are all that is needed when the stream
ends by itself, and a success is called only after a frame with a field has been written. -/
structure Framing (body : EventBody) (start : SSERelay) (read : List UInt8) (t : Turn) (r : SSERelay) : Prop where
  bytes : ∃ unread, body.bytes = read ++ unread
  framed : given start r = cappedFrames read
  complete : t = .line true → (∀ s, r.phase ≠ .streaming s) → given start r = cappedFrames body.bytes
  acts : ∃ acts, r.log = start.log ++ acts ∧ Written body (given start r) acts ∧ Credited acts

def CreditSafe (r : SSERelay) (s : Stream) : Turn → Prop
  | .line ok => ∀ l rest, s.lines = ⟨l, some .eof⟩ :: rest → hasField (s.event ++ l) = true →
      hasField (trimNewlines (s.event ++ l) ++ [lf, lf]) = true ∨ s.credited = true ∨ ok = false ∨
        sseMaxEventBytes < s.event.length + l.length ∨
        r.seen.has (hashEvent (trimNewlines (s.event ++ l) ++ [lf, lf])) = true
  | _ => True

section Flushing

variable (r : SSERelay) (ok : Bool)

theorem flushSSEEvent_cases {event evStr : List UInt8} {forceTerminator : Bool} (hne : event ≠ [])
    (hev : evStr = if forceTerminator then trimNewlines event ++ [lf, lf] else event) :
    (r.seen.has (hashEvent evStr) = true ∧ r.flushSSEEvent ok event forceTerminator =
      ⟨r.flushing event forceTerminator, [], false, true⟩) ∨
    (r.seen.has (hashEvent evStr) = false ∧ ok = false ∧ r.flushSSEEvent ok event forceTerminator =
      ⟨{ r.flushing event forceTerminator with seen := r.seen.add (hashEvent evStr) }, event, false, false⟩) ∨
    (r.seen.has (hashEvent evStr) = false ∧ ok = true ∧ r.flushSSEEvent ok event forceTerminator =
      ⟨{ r.flushing event forceTerminator with seen := r.seen.add (hashEvent evStr) }.act (.frame evStr), [], true,
        true⟩) := by
  unfold flushSSEEvent
  dsimp only
  rw [if_neg hne, ← hev]
  have hkept : (r.flushing event forceTerminator).seen = r.seen := rfl
  rw [hkept]
  cases hseen : r.seen.has (hashEvent evStr) with
  | true => exact Or.inl ⟨rfl, rfl⟩
  | false =>
    cases ok with
    | false => exact Or.inr (Or.inl ⟨rfl, rfl, rfl⟩)
    | true => exact Or.inr (Or.inr ⟨rfl, rfl, rfl⟩)

def afterFlush (s : Stream) (out : Flushed) : SSERelay × Option Stream :=
  if !out.usable then (out.relay, none)
  else
    let (r, s) := credit out.relay { s with event := out.event } out.wrote
    (r, some { s with eventHasField := false })

theorem afterFlush_usable (s : Stream) (event : List UInt8) (wrote : Bool) :
    afterFlush s ⟨r, event, wrote, true⟩ = ((credit r { s with event := event } wrote).1,
      some ⟨s.lines, event, false, (credit r { s with event := event } wrote).2.credited⟩) := by
  unfold afterFlush credit
  dsimp only
  rw [Bool.not_true, if_neg Bool.false_ne_true]
  split_ifs <;> rfl

theorem lf_mem_of_terminator {l : List UInt8} (h : isTerminator l = true) : lf ∈ l := by
  simp only [isTerminator, Bool.or_eq_true, decide_eq_true_eq] at h
  rcases h with rfl | rfl
  · simp
  · simp

theorem isField_of_terminator {l : List UInt8} (h : isTerminator l = true) : isField l = false := by
  simp [isField, h]

theorem receiveLine_cases {s : Stream} {l : List UInt8} (hne : l ≠ []) :
    (sseMaxEventBytes < s.event.length + l.length ∧ r.receiveLine ok s l = (r, none)) ∨
    (s.event.length + l.length ≤ sseMaxEventBytes ∧ isTerminator l = false ∧ r.receiveLine ok s l =
      (r, some { s with event := s.event ++ l, eventHasField := s.eventHasField || isField l })) ∨
    (s.event.length + l.length ≤ sseMaxEventBytes ∧ isTerminator l = true ∧ r.receiveLine ok s l =
      afterFlush { s with event := s.event ++ l } (r.flushSSEEvent ok (s.event ++ l) false)) := by
  have hflag : (if (!isTerminator l && decide (l.head? ≠ some colon)) = true then true else s.eventHasField) =
      (s.eventHasField || isField l) := by
    have hdecide : decide (l ≠ []) = true := decide_eq_true hne
    unfold isField
    rw [hdecide, Bool.true_and]
    cases s.eventHasField <;> cases (!isTerminator l && decide (l.head? ≠ some colon)) <;> rfl
  unfold receiveLine
  rw [if_neg hne]
  by_cases hcap : sseMaxEventBytes < s.event.length + l.length
  · rw [if_pos hcap]
    exact Or.inl ⟨hcap, rfl⟩
  · rw [if_neg hcap]
    dsimp only
    rw [hflag]
    cases hend : isTerminator l with
    | false => exact Or.inr (Or.inl ⟨not_lt.mp hcap, rfl, rfl⟩)
    | true =>
      refine Or.inr (Or.inr ⟨not_lt.mp hcap, rfl, ?_⟩)
      rw [isField_of_terminator hend, Bool.or_false]
      rfl

end Flushing

section Acts

variable {acts : List Act}

theorem credit_unwritten (r : SSERelay) (s : Stream) : credit r s false = (r, s) := rfl

theorem credited_concat {a : Act} (ha : a ≠ .success) : Credited (acts ++ [a]) ↔ Credited acts := by
  constructor
  · intro h pre post hacts
    exact h pre (post ++ [a]) (by rw [hacts]; simp)
  · intro h pre post hacts
    rcases append_cons_cases hacts with ⟨post', -, hw⟩ | ⟨-, -, hx⟩
    · exact h pre post' hw
    · exact absurd hx ha

theorem credited_success :
    Credited (acts ++ [.success]) ↔ Credited acts ∧ ∃ f ∈ frames acts, hasField f = true := by
  constructor
  · intro h
    refine ⟨fun pre post hacts => h pre (post ++ [.success]) (by rw [hacts]; simp), h acts [] rfl⟩
  · rintro ⟨h, hfield⟩ pre post hacts
    rcases append_cons_cases hacts with ⟨post', -, hw⟩ | ⟨-, rfl, -⟩
    · exact h pre post' hw
    · exact hfield

theorem exists_field_frame (f : List UInt8) : (∃ g ∈ frames (acts ++ [.frame f]), hasField g = true) ↔
    (∃ g ∈ frames acts, hasField g = true) ∨ hasField f = true := by
  rw [frames_frame]
  simp [or_and_right, exists_or]

theorem credited_frame (f : List UInt8) : Credited (acts ++ [.frame f]) ↔ Credited acts :=
  credited_concat (by simp)

end Acts

def Logged (before : List Act) (given : List (List UInt8)) (credited : Bool) (log : List Act) : Prop :=
  ∃ acts, log = before ++ acts ∧ (frames acts).Sublist given ∧ Credited acts ∧
    (credited = true ↔ ∃ f ∈ frames acts, hasField f = true)

namespace Logged

variable {before log : List Act} {given : List (List UInt8)} {credited : Bool}

theorem start : Logged before [] false before := by
  refine ⟨[], (List.append_nil _).symm, List.Sublist.refl _, fun pre post h => ?_, by simp [frames]⟩
  simp at h

theorem other (h : Logged before given credited log) {a : Act} (ha : a.frame? = none) (hs : a ≠ .success) :
    Logged before given credited (log ++ [a]) := by
  obtain ⟨acts, rfl, hsub, hsound, hcredit⟩ := h
  refine ⟨acts ++ [a], List.append_assoc _ _ _, ?_, (credited_concat hs).mpr hsound, ?_⟩
  · rwa [frames_of_none _ ha]
  · rwa [frames_of_none _ ha]

theorem pass (h : Logged before given credited log) (more : List (List UInt8)) :
    Logged before (given ++ more) credited log := by
  obtain ⟨acts, hlog, hsub, hrest⟩ := h
  exact ⟨acts, hlog, hsub.trans (List.sublist_append_left _ _), hrest⟩

theorem write {r : SSERelay} {s : Stream} (h : Logged before given s.credited r.log) {f : List UInt8}
    {seen : Ring UInt32} (hfield : s.eventHasField = hasField f) :
    Logged before (given ++ [f]) (credit ({ r with seen := seen }.act (.frame f)) s true).2.credited
      (credit ({ r with seen := seen }.act (.frame f)) s true).1.log := by
  obtain ⟨acts, hlog, hsub, hsound, hcredit⟩ := h
  have hwritten : frames (acts ++ [.frame f]) = frames acts ++ [f] := frames_frame _ _
  have hlog : r.log ++ [.frame f] = before ++ (acts ++ [.frame f]) := by
    rw [hlog, List.append_assoc]
  have hsub : (frames (acts ++ [.frame f])).Sublist (given ++ [f]) := by
    rw [hwritten]
    exact hsub.append (List.Sublist.refl _)
  have hsound : Credited (acts ++ [.frame f]) := (credited_frame f).mpr hsound
  have hmem : (∃ g ∈ frames (acts ++ [.frame f]), hasField g = true) ↔ s.credited = true ∨ hasField f = true := by
    rw [exists_field_frame, hcredit]
  unfold credit
  rw [Bool.true_and, hfield]
  split_ifs with hnew
  · rw [Bool.and_eq_true, Bool.not_eq_true'] at hnew
    refine ⟨acts ++ [.frame f] ++ [.success], ?_, ?_, credited_success.mpr ⟨hsound, hmem.mpr (Or.inr hnew.1)⟩, ?_⟩
    · rw [← List.append_assoc, ← hlog]
      rfl
    · rwa [frames_of_none _ rfl]
    · rw [frames_of_none _ rfl, hmem]
      simp [hnew.1]
  · refine ⟨acts ++ [Act.frame f], hlog, hsub, hsound, ?_⟩
    rw [hmem]
    cases hf : hasField f with
    | false => simp
    | true =>
      rw [hf, Bool.true_and, Bool.not_eq_true', Bool.not_eq_false] at hnew
      simp [hnew]

end Logged

section Endings

variable {before : List Act} {given : List (List UInt8)} {r : SSERelay} {s : Stream} {required : Upstream.Selector}

theorem returned_log (r : SSERelay) : (r.returned required true).log = r.log := by
  unfold returned
  rw [Bool.not_true, Bool.false_and, if_neg Bool.false_ne_true]
  split_ifs <;> rfl

theorem leave_log (r : SSERelay) : (r.leave required true).log = r.log ++ [.release] := returned_log _

theorem Logged.leave {credited : Bool} (h : Logged before given credited r.log) (required : Upstream.Selector) :
    Logged before given credited (r.leave required true).log := by
  rw [leave_log]
  exact h.other rfl (by simp)

theorem Logged.broken (h : Logged before given s.credited r.log) (ok : Bool) :
    Logged before given s.credited (r.receiveError ok s .broken).log := by
  unfold receiveError
  split_ifs
  · exact h
  · exact h.other rfl (by simp)
  · exact h.other rfl (by simp)

theorem Logged.eof_unwritten (h : Logged before given s.credited r.log) {ok : Bool} {event : List UInt8}
    (hflush : r.flushSSEEvent ok s.event true = ⟨r.flushing s.event true, event, false, true⟩) :
    Logged before given s.credited (r.receiveError ok s .eof).log := by
  unfold receiveError
  rw [hflush]
  dsimp only
  rw [Bool.not_true, if_neg Bool.false_ne_true, credit_unwritten]
  dsimp only
  split_ifs
  · exact h
  · exact h.other rfl (by simp)

theorem Logged.eof_written (h : Logged before given s.credited r.log)
    (hfield : s.eventHasField = hasField s.event) {ok : Bool} {rest : List UInt8} {seen : Ring UInt32}
    (hflush : r.flushSSEEvent ok s.event true =
      ⟨{ r.flushing s.event true with seen := seen }.act (.frame rest), [], true, true⟩) :
    ∃ acts, (r.receiveError ok s .eof).log = before ++ acts ∧
      (∃ whole, whole.Sublist given ∧ frames acts = whole ++ [rest]) ∧
      (Credited acts ↔ (hasField s.event = true → hasField rest = true ∨ s.credited = true)) := by
  obtain ⟨acts, hlog, hsub, hsound, hcredit⟩ := h
  have hlog' : r.log ++ [.frame rest] = before ++ (acts ++ [.frame rest]) := by
    rw [hlog, List.append_assoc]
  have hframes : frames (acts ++ [.frame rest]) = frames acts ++ [rest] := frames_frame _ _
  unfold receiveError
  rw [hflush]
  dsimp only
  rw [Bool.not_true, if_neg Bool.false_ne_true, credit, Bool.true_and, hfield]
  by_cases hnew : (hasField s.event && !s.credited) = true
  · rw [if_pos hnew]
    rw [Bool.and_eq_true, Bool.not_eq_true'] at hnew
    refine ⟨acts ++ [.frame rest] ++ [.success], ?_, ⟨frames acts, hsub, ?_⟩, ?_⟩
    · rw [← List.append_assoc, ← hlog']
      rfl
    · rw [frames_of_none _ rfl, hframes]
    · -- the only frame that can have a field is the one just written, without its newlines
      rw [credited_success, credited_frame, exists_field_frame, ← hcredit]
      simp [hsound, hnew]
  · have hsafe : hasField s.event = true → s.credited = true := by
      intro hf
      simpa [hf] using hnew
    have hsound : Credited (acts ++ [.frame rest]) := (credited_frame rest).mpr hsound
    rw [if_neg hnew]
    dsimp only
    split_ifs
    · exact ⟨acts ++ [Act.frame rest], hlog', ⟨frames acts, hsub, hframes⟩,
        fun _ hf => Or.inr (hsafe hf), fun _ => hsound⟩
    · refine ⟨acts ++ [.frame rest] ++ [.failure], ?_, ⟨frames acts, hsub, ?_⟩,
        fun _ hf => Or.inr (hsafe hf), fun _ => (credited_concat (by simp)).mpr hsound⟩
      · rw [← List.append_assoc, ← hlog']
        rfl
      · rw [frames_of_none _ rfl, hframes]

theorem Logged.eof (h : Logged before given s.credited r.log) (hfield : s.eventHasField = hasField s.event)
    (ok : Bool) :
    let rest := trimNewlines s.event ++ [lf, lf]
    ∃ acts, (r.receiveError ok s .eof).log = before ++ acts ∧
      ((frames acts).Sublist given ∨ ∃ whole, whole.Sublist given ∧ frames acts = whole ++ [rest]) ∧
      (Credited acts ↔ (hasField s.event = true →
        hasField rest = true ∨ s.credited = true ∨ ok = false ∨ r.seen.has (hashEvent rest) = true)) := by
  intro rest
  by_cases hnil : s.event = []
  · obtain ⟨acts, hlog, hsub, hsound, -⟩ := h.eof_unwritten (if_pos hnil)
    refine ⟨acts, hlog, Or.inl hsub, fun _ hf => ?_, fun _ => hsound⟩
    rw [hnil] at hf
    cases hf
  · rcases flushSSEEvent_cases r ok hnil (if_pos rfl).symm with ⟨hseen, hflush⟩ | ⟨-, hok, hflush⟩ |
      ⟨hseen, hok, hflush⟩
    · obtain ⟨acts, hlog, hsub, hsound, -⟩ := h.eof_unwritten hflush
      exact ⟨acts, hlog, Or.inl hsub, fun _ _ => Or.inr (Or.inr (Or.inr hseen)), fun _ => hsound⟩
    · obtain ⟨acts, hlog, hsub, hsound, -⟩ := h
      refine ⟨acts, ?_, Or.inl hsub, fun _ _ => Or.inr (Or.inr (Or.inl hok)), fun _ => hsound⟩
      unfold receiveError
      rw [hflush]
      exact hlog
    · obtain ⟨acts, hlog, hwhole, hsound⟩ := h.eof_written hfield hflush
      have hseen : r.seen.has (hashEvent rest) = false := hseen
      refine ⟨acts, hlog, Or.inr hwhole, hsound.trans ?_⟩
      simp [hok, hseen, rest]

end Endings

structure Reached (body : EventBody) (start : SSERelay) (read : List UInt8) (given : List (List UInt8))
    (r : SSERelay) (s : Stream) : Prop where
  feed : ∃ unread, body.bytes = read ++ unread ∧ Feed body.eof unread s.lines
  atLine : AtLine read
  frames : eventFrames read = (given, s.event)
  small : ∀ f ∈ given, f.length ≤ sseMaxEventBytes
  event : AtLine s.event
  room : s.event.length ≤ sseMaxEventBytes
  field : s.eventHasField = hasField s.event
  logged : Logged start.log given s.credited r.log

structure Ended (body : EventBody) (start : SSERelay) (read : List UInt8) (given : List (List UInt8))
    (r : SSERelay) (s : Stream) (t : Turn) (r' : SSERelay) : Prop where
  stopped : ∀ s', r'.phase ≠ .streaming s'
  bytes : ∃ unread, body.bytes = read ++ unread
  framed : given = cappedFrames read
  complete : t = .line true → given = cappedFrames body.bytes
  acts : ∃ acts, r'.log = start.log ++ acts ∧ Written body given acts ∧ (Credited acts ↔ CreditSafe r s t)

section Turns

variable {required : Upstream.Selector} {body : EventBody} {start r r' : SSERelay} {read l : List UInt8}
  {given : List (List UInt8)} {s : Stream} {t : Turn} {lines : List SSELine}

theorem Reached.capped (h : Reached body start read given r s) : cappedFrames read = given := by
  rw [cappedFrames, h.frames]
  exact List.takeWhile_eq_self_iff.mpr fun f hf => decide_eq_true (h.small f hf)

theorem Reached.capped_over (h : Reached body start read given r s) (hl : IsLine l ∨ lf ∉ l)
    (hover : sseMaxEventBytes < s.event.length + l.length) (rest : List UInt8) :
    cappedFrames (read ++ (l ++ rest)) = given := by
  obtain ⟨more, hframes, hlong⟩ := eventFrames_append h.atLine hl rest
  rw [h.frames] at hframes hlong
  unfold cappedFrames
  rw [hframes, List.takeWhile_append_of_pos fun f hf => decide_eq_true (h.small f hf)]
  cases more with
  | nil => simp
  | cons f more =>
    have hf := hlong f rfl
    dsimp only at hf
    rw [List.takeWhile_cons_of_neg (by simp; omega), List.append_nil]

theorem Ended.of_logged {credited : Bool} (hbytes : ∃ unread, body.bytes = read ++ unread)
    (hframed : given = cappedFrames read) (hcomplete : t = .line true → given = cappedFrames body.bytes)
    (hlog : Logged start.log given credited r'.log) (hsafe : CreditSafe r s t) :
    Ended body start read given r s t (r'.leave required true) := by
  obtain ⟨acts, hlog, hsub, hsound, -⟩ := hlog.leave required
  exact ⟨returned_phase _ true, hbytes, hframed, hcomplete, acts, hlog, Or.inl hsub, fun _ => hsafe, fun _ => hsound⟩

theorem Reached.end_over (h : Reached body start read given r s) (hl : IsLine l ∨ lf ∉ l)
    (hover : sseMaxEventBytes < s.event.length + l.length) {rest : List UInt8}
    (hbody : body.bytes = read ++ (l ++ rest)) (hlog : Logged start.log given s.credited r'.log)
    (hsafe : CreditSafe r s t) : Ended body start (read ++ l) given r s t (r'.leave required true) := by
  have hcapped := h.capped_over hl hover
  refine .of_logged ⟨rest, by rw [hbody, List.append_assoc]⟩ ?_ (fun _ => ?_) hlog hsafe
  · rw [← hcapped [], List.append_nil]
  · rw [hbody, hcapped]

theorem Reached.dialled {ok : Bool} (hs : (start.dial required ok (.connected body)).phase = .streaming s) :
    Reached body start [] [] (start.dial required ok (.connected body)) s := by
  have hlogged : Logged start.log [] false (start.log ++ [.opened]) := Logged.start.other rfl (by simp)
  have hreached {r : SSERelay} (hlog : Logged start.log [] false r.log) :
      Reached body start [] [] r ⟨readSSELines body, [], false, false⟩ :=
    ⟨⟨body.bytes, rfl, feed_readSSELines body⟩, atLine_nil, rfl, by simp, atLine_nil, Nat.zero_le _, rfl, hlog⟩
  unfold dial at hs ⊢
  dsimp only at hs ⊢
  split_ifs at hs ⊢
  · cases hs
    exact hreached hlogged
  · exact absurd hs (returned_phase _ true s)
  · cases hs
    exact hreached (hlogged.other rfl (by simp))

theorem Reached.bytes (h : Reached body start read given r s) (hlines : s.lines = ⟨l, none⟩ :: lines) :
    ∃ unread, IsLine l ∧ body.bytes = read ++ (l ++ unread) ∧ Feed body.eof unread lines := by
  obtain ⟨unread, hbody, hfeed⟩ := h.feed
  rw [hlines] at hfeed
  cases hfeed with
  | line hl hfeed => exact ⟨_, hl, hbody, hfeed⟩

theorem received_of_lines {err : Option LineError} (hlines : s.lines = ⟨l, err⟩ :: lines) (ok : Bool) :
    received s (.line ok) = l := by
  unfold received
  rw [hlines]
  rfl

def due (s : Stream) : Turn → List (List UInt8)
  | .line ok =>
    let l := received s (.line ok)
    if s.event.length + l.length ≤ sseMaxEventBytes ∧ isTerminator l then [s.event ++ l] else []
  | _ => []

theorem due_of_lines {err : Option LineError} (hlines : s.lines = ⟨l, err⟩ :: lines) (ok : Bool) :
    due s (.line ok) =
      if s.event.length + l.length ≤ sseMaxEventBytes ∧ isTerminator l then [s.event ++ l] else [] := by
  unfold due
  dsimp only
  rw [received_of_lines hlines ok]

theorem Reached.extend (h : Reached body start read given r s) (hlines : s.lines = ⟨l, none⟩ :: lines)
    (hroom : s.event.length + l.length ≤ sseMaxEventBytes) (hend : isTerminator l = false)
    (hlog : Logged start.log given s.credited r'.log) :
    Reached body start (read ++ l) given r'
      ⟨lines, s.event ++ l, s.eventHasField || isField l, s.credited⟩ := by
  obtain ⟨unread, hl, hbody, hfeed⟩ := h.bytes hlines
  refine ⟨⟨unread, by rw [hbody, List.append_assoc], hfeed⟩, h.atLine.append hl, ?_, h.small, h.event.append hl, ?_,
    ?_, hlog⟩
  · rw [eventFrames_line h.atLine hl, hend, if_neg Bool.false_ne_true, h.frames]
  · rwa [List.length_append]
  · rw [hasField_append h.event (Or.inl hl), h.field]

theorem Reached.close (h : Reached body start read given r s) (hlines : s.lines = ⟨l, none⟩ :: lines)
    (hroom : s.event.length + l.length ≤ sseMaxEventBytes) (hend : isTerminator l = true) {credited : Bool}
    (hlog : Logged start.log (given ++ [s.event ++ l]) credited r'.log) :
    Reached body start (read ++ l) (given ++ [s.event ++ l]) r' ⟨lines, [], false, credited⟩ := by
  obtain ⟨unread, hl, hbody, hfeed⟩ := h.bytes hlines
  refine ⟨⟨unread, by rw [hbody, List.append_assoc], hfeed⟩, h.atLine.append hl, ?_, ?_, atLine_nil, Nat.zero_le _,
    rfl, hlog⟩
  · rw [eventFrames_line h.atLine hl, if_pos hend, h.frames]
  · intro f hf
    rcases List.mem_append.mp hf with hf | hf
    · exact h.small f hf
    · rw [List.mem_singleton.mp hf, List.length_append]
      exact hroom

def Outcome (body : EventBody) (start : SSERelay) (read : List UInt8) (given : List (List UInt8)) (r : SSERelay)
    (s : Stream) (t : Turn) (r' : SSERelay) : Prop :=
  (∃ s', r'.phase = .streaming s' ∧ Reached body start read given r' s' ∧ CreditSafe r s t) ∨
    Ended body start read given r s t r'

theorem Reached.flush (h : Reached body start read given r s) (hlines : s.lines = ⟨l, none⟩ :: lines)
    (hroom : s.event.length + l.length ≤ sseMaxEventBytes) (hend : isTerminator l = true) (ok : Bool) :
    let out := afterFlush { s with lines := lines, event := s.event ++ l }
      ((r.act (.line l)).flushSSEEvent ok (s.event ++ l) false)
    (∃ s', out.2 = some s' ∧
      Reached body start (read ++ l) (given ++ [s.event ++ l]) (out.1.enter (.streaming s')) s') ∨
    (out.2 = none ∧ ok = false ∧ Logged start.log (given ++ [s.event ++ l]) s.credited out.1.log) := by
  obtain ⟨unread, hl, -, -⟩ := h.bytes hlines
  dsimp only
  have hlog : Logged start.log given s.credited (r.act (.line l)).log := h.logged.other rfl (by simp)
  have hpass := hlog.pass [s.event ++ l]
  have hevent : s.event ++ l ≠ [] := List.append_ne_nil_of_right_ne_nil _ (IsChunk.ne_nil hl)
  have hfield : s.eventHasField = hasField (s.event ++ l) := by
    rw [hasField_append h.event (Or.inl hl), isField_of_terminator hend, Bool.or_false, h.field]
  rcases flushSSEEvent_cases (r.act (.line l)) ok hevent (if_neg Bool.false_ne_true).symm with
    ⟨-, hflush⟩ | ⟨-, hok, hflush⟩ | ⟨-, -, hflush⟩
  · rw [hflush, afterFlush_usable]
    exact Or.inl ⟨_, rfl, h.close hlines hroom hend hpass⟩
  · rw [hflush]
    exact Or.inr ⟨rfl, hok, hpass⟩
  · rw [hflush, afterFlush_usable]
    refine Or.inl ⟨_, rfl, h.close hlines hroom hend ?_⟩
    exact Logged.write (r := (r.act (.line l)).flushing (s.event ++ l) false)
      (s := ⟨lines, [], s.eventHasField, s.credited⟩) hlog hfield

theorem Reached.line (h : Reached body start read given r s) {ok : Bool} (hlines : s.lines = ⟨l, none⟩ :: lines)
    (hstep : r.turn required s (.line ok) = some r') :
    Outcome body start (read ++ l) (given ++ due s (.line ok)) r s (.line ok) r' := by
  obtain ⟨unread, hl, hbody, -⟩ := h.bytes hlines
  have hne : l ≠ [] := IsChunk.ne_nil hl
  have hsafe : CreditSafe r s (.line ok) := by
    intro l' rest hl'
    rw [hlines] at hl'
    cases hl'
  have hlog : Logged start.log given s.credited (r.act (.line l)).log := h.logged.other rfl (by simp)
  rw [due_of_lines hlines ok]
  unfold turn at hstep
  rw [hlines] at hstep
  dsimp only at hstep
  rw [if_neg hne] at hstep
  rcases receiveLine_cases (r.act (.line l)) ok (s := { s with lines := lines }) hne with
    ⟨hover, hline⟩ | ⟨hroom, hend, hline⟩ | ⟨hroom, hend, hline⟩
  · rw [hline] at hstep
    cases hstep
    rw [if_neg fun hpass => not_le.mpr hover hpass.1, List.append_nil]
    exact Or.inr (h.end_over (Or.inl hl) hover hbody hlog hsafe)
  · rw [hline] at hstep
    cases hstep
    rw [hend, if_neg fun hpass => Bool.false_ne_true hpass.2, List.append_nil]
    exact Or.inl ⟨_, rfl, h.extend hlines hroom hend hlog, hsafe⟩
  · rw [hline] at hstep
    rw [if_pos ⟨hroom, hend⟩]
    have hflush := h.flush hlines hroom hend ok
    dsimp only at hstep hflush
    generalize afterFlush _ _ = out at hstep hflush
    obtain ⟨r₁, s₁⟩ := out
    rcases hflush with ⟨s', rfl, hreached⟩ | ⟨rfl, hok, hlog⟩
    · cases hstep
      exact Or.inl ⟨_, rfl, hreached, hsafe⟩
    · -- the write failed, so that the frame is passed on but the rest of the body is not read
      cases hstep
      refine Or.inr (.of_logged ⟨unread, by rw [hbody, List.append_assoc]⟩ ?_ ?_ hlog hsafe)
      · exact (h.close hlines hroom hend hlog).capped.symm
      · rw [hok]
        rintro ⟨⟩

theorem Reached.last (h : Reached body start read given r s) {ok : Bool} {err : LineError}
    (hlines : s.lines = ⟨l, some err⟩ :: lines) (hl : lf ∉ l)
    (hstep : r.turn required s (.line ok) = some r') :
    (sseMaxEventBytes < s.event.length + l.length ∧
      ∃ r₁ : SSERelay, Logged start.log given s.credited r₁.log ∧ r' = r₁.leave required true) ∨
    (s.event.length + l.length ≤ sseMaxEventBytes ∧
      ∃ (r₁ : SSERelay) (s₁ : Stream), Logged start.log given s.credited r₁.log ∧ r₁.seen = r.seen ∧
        s₁.event = s.event ++ l ∧ s₁.eventHasField = hasField (s.event ++ l) ∧ s₁.credited = s.credited ∧
        r' = (r₁.receiveError ok s₁ err).leave required true) := by
  have hfield := hasField_append h.event (Or.inr hl)
  rw [← h.field] at hfield
  unfold turn at hstep
  rw [hlines] at hstep
  dsimp only at hstep
  by_cases hnil : l = []
  · subst hnil
    rw [if_pos rfl] at hstep
    cases hstep
    refine Or.inr ⟨h.room, r, { s with lines := lines }, h.logged, rfl, (List.append_nil _).symm, ?_, rfl, rfl⟩
    rw [hfield]
    exact (Bool.or_false _).symm
  · have hlog : Logged start.log given s.credited (r.act (.line l)).log := h.logged.other rfl (by simp)
    rw [if_neg hnil] at hstep
    rcases receiveLine_cases (r.act (.line l)) ok (s := { s with lines := lines }) hnil with
      ⟨hover, hline⟩ | ⟨hroom, -, hline⟩ | ⟨-, hend, -⟩
    · rw [hline] at hstep
      cases hstep
      exact Or.inl ⟨hover, _, hlog, rfl⟩
    · rw [hline] at hstep
      cases hstep
      exact Or.inr ⟨hroom, r.act (.line l), ⟨lines, s.event ++ l, s.eventHasField || isField l, s.credited⟩, hlog, rfl,
        rfl, hfield.symm, rfl, rfl⟩
    · exact absurd (lf_mem_of_terminator hend) hl

theorem Reached.error (h : Reached body start read given r s) {err : LineError}
    (hlines : s.lines = ⟨l, some err⟩ :: lines) :
    lf ∉ l ∧ ∃ rest, body.bytes = read ++ (l ++ rest) ∧
      (rest = [] ∧ err = (if body.eof then .eof else .broken) ∨ sseMaxEventBytes < l.length) := by
  obtain ⟨unread, hbody, hfeed⟩ := h.feed
  rw [hlines] at hfeed
  cases hfeed with
  | ended hl => exact ⟨hl, [], by rw [hbody, List.append_nil], Or.inl ⟨rfl, rfl⟩⟩
  | tooLong hl hmax => exact ⟨hl, _, hbody, Or.inr hmax⟩

theorem creditSafe_iff {ok : Bool} (hlines : s.lines = ⟨l, some .eof⟩ :: lines)
    (hroom : s.event.length + l.length ≤ sseMaxEventBytes) :
    CreditSafe r s (.line ok) ↔ (hasField (s.event ++ l) = true →
      hasField (trimNewlines (s.event ++ l) ++ [lf, lf]) = true ∨ s.credited = true ∨ ok = false ∨
        r.seen.has (hashEvent (trimNewlines (s.event ++ l) ++ [lf, lf])) = true) := by
  have hover : ¬ sseMaxEventBytes < s.event.length + l.length := not_lt.mpr hroom
  unfold CreditSafe
  rw [hlines]
  constructor
  · intro h hfield
    simpa [hover] using h l lines rfl hfield
  · rintro h l' rest ⟨⟩ hfield
    simpa [hover] using h hfield

theorem Reached.end_of_error (h : Reached body start read given r s) {ok : Bool} {err : LineError}
    (hlines : s.lines = ⟨l, some err⟩ :: lines) (hstep : r.turn required s (.line ok) = some r') :
    Ended body start (read ++ l) (given ++ due s (.line ok)) r s (.line ok) r' := by
  obtain ⟨hl, rest, hbody, herr⟩ := h.error hlines
  have hblank : isTerminator l = false := Bool.eq_false_iff.mpr fun hend => hl (lf_mem_of_terminator hend)
  rw [due_of_lines hlines ok, hblank, if_neg fun hpass => Bool.false_ne_true hpass.2, List.append_nil]
  rcases h.last hlines hl hstep with ⟨hover, r₁, hlog, rfl⟩ |
    ⟨hroom, r₁, s₁, hlog, hseen, hevent, hfield, hcredited, rfl⟩
  · refine h.end_over (Or.inr hl) hover hbody hlog fun l' rest' hl' _ => ?_
    rw [hlines] at hl'
    cases hl'
    exact Or.inr (Or.inr (Or.inr (Or.inl hover)))
  · rcases herr with ⟨rfl, herr⟩ | hmax
    · rw [List.append_nil] at hbody
      have hframes := eventFrames_last h.atLine hl
      rw [h.frames, ← hbody] at hframes
      have hcapped : given = cappedFrames body.bytes := by
        rw [cappedFrames, hframes]
        exact (List.takeWhile_eq_self_iff.mpr fun f hf => decide_eq_true (h.small f hf)).symm
      rw [← hbody]
      rw [← hcredited] at hlog
      rw [← hevent] at hfield hframes
      cases heof : body.eof with
      | false =>
        rw [heof, if_neg Bool.false_ne_true] at herr
        rw [herr] at hlines ⊢
        refine .of_logged ⟨[], (List.append_nil _).symm⟩ hcapped (fun _ => hcapped) (hlog.broken ok) ?_
        intro l' rest' hl'
        rw [hlines] at hl'
        cases hl'
      | true =>
        rw [heof, if_pos rfl] at herr
        rw [herr] at hlines ⊢
        obtain ⟨acts, hacts, hwritten, hsound⟩ := hlog.eof hfield ok
        refine ⟨returned_phase _ true, ⟨[], (List.append_nil _).symm⟩, hcapped, fun _ => hcapped,
          acts ++ [.release], ?_, ?_, ?_⟩
        · rw [leave_log, hacts, List.append_assoc]
        · unfold Written
          rw [frames_of_none _ rfl, hframes]
          exact hwritten.imp id fun hwhole => ⟨heof, rfl, hwhole⟩
        · rw [credited_concat (by simp), hsound, creditSafe_iff hlines hroom, hevent, hseen, hcredited]
    · omega

theorem Reached.turn (h : Reached body start read given r s) (hphase : r.phase = .streaming s)
    (hstep : r.turn required s t = some r') :
    Outcome body start (read ++ received s t) (given ++ due s t) r s t r' := by
  obtain ⟨unread, hbody, -⟩ := h.feed
  have hleave {t : Turn} (ht : t ≠ .line true) (hsafe : CreditSafe r s t) :
      Ended body start read given r s t (r.leave required true) :=
    .of_logged ⟨unread, hbody⟩ h.capped.symm (fun hline => absurd hline ht) h.logged hsafe
  cases t with
  | line ok =>
    cases hlines : s.lines with
    | nil =>
      unfold SSERelay.turn at hstep
      rw [hlines] at hstep
      cases hstep
    | cons line lines =>
      obtain ⟨l, err⟩ := line
      rw [received_of_lines hlines ok]
      cases err with
      | none => exact h.line hlines hstep
      | some err => exact Or.inr (h.end_of_error hlines hstep)
  | done =>
    simp only [received, due, List.append_nil]
    unfold SSERelay.turn at hstep
    dsimp only at hstep
    split_ifs at hstep
    cases hstep
    exact Or.inr (hleave (by simp) trivial)
  | idle =>
    simp only [received, due, List.append_nil]
    cases hstep
    exact Or.inr (hleave (by simp) trivial)
  | ping ok =>
    simp only [received, due, List.append_nil]
    cases ok with
    | false =>
      cases hstep
      exact Or.inr (hleave (by simp) trivial)
    | true =>
      cases hstep
      exact Or.inl ⟨s, hphase, { h with logged := h.logged.other rfl (by simp) }, trivial⟩

end Turns

section Flushes

variable {required : Upstream.Selector} {r r' : SSERelay} {s : Stream} {t : Turn}

def Flushes (r r' : SSERelay) (given : List (List UInt8)) : Prop :=
  ∃ calls, r'.flushes = r.flushes ++ calls ∧ passed calls = given

theorem Flushes.none (h : r'.flushes = r.flushes) : Flushes r r' [] := ⟨[], by rw [h, List.append_nil], rfl⟩

theorem Flushes.trans {r'' : SSERelay} {given more : List (List UInt8)} (h : Flushes r r' given)
    (h' : Flushes r' r'' more) : Flushes r r'' (given ++ more) := by
  obtain ⟨calls, hcalls, rfl⟩ := h
  obtain ⟨calls', hcalls', rfl⟩ := h'
  refine ⟨calls ++ calls', by rw [hcalls', hcalls, List.append_assoc], ?_⟩
  unfold passed
  rw [List.filter_append, List.map_append]

theorem Flushes.given_eq {given' : List (List UInt8)} (h : Flushes r r' given') : given r r' = given' := by
  obtain ⟨calls, hcalls, rfl⟩ := h
  unfold given
  rw [hcalls, List.drop_left]

theorem flushes_flushSSEEvent (r : SSERelay) (ok : Bool) (event : List UInt8) (forceTerminator : Bool) :
    (r.flushSSEEvent ok event forceTerminator).relay.flushes = r.flushes ++ [(event, forceTerminator)] := by
  unfold flushSSEEvent
  dsimp only
  generalize (if forceTerminator = true then _ else _) = evStr
  split_ifs
  · rfl
  · rfl
  · rfl
  · rfl

theorem flushes_credit (r : SSERelay) (s : Stream) (wrote : Bool) : (credit r s wrote).1.flushes = r.flushes := by
  unfold credit
  split_ifs
  · rfl
  · rfl

theorem flushes_leave (r : SSERelay) (required : Upstream.Selector) (connected : Bool) :
    (r.leave required connected).flushes = r.flushes := by
  unfold leave returned
  split_ifs <;> rfl

theorem flushes_receiveLine (r : SSERelay) (ok : Bool) (s : Stream) (l : List UInt8) :
    Flushes r (r.receiveLine ok s l).1
      (if s.event.length + l.length ≤ sseMaxEventBytes ∧ isTerminator l then [s.event ++ l] else []) := by
  by_cases hne : l = []
  · have hend : isTerminator l = false := by
      rw [hne]
      rfl
    unfold receiveLine
    rw [if_pos hne, hend, if_neg fun h => Bool.false_ne_true h.2]
    exact .none rfl
  rcases receiveLine_cases r ok (s := s) hne with ⟨hover, hline⟩ | ⟨-, hend, hline⟩ | ⟨hroom, hend, hline⟩
  · rw [hline, if_neg fun h => not_le.mpr hover h.1]
    exact .none rfl
  · rw [hline, hend, if_neg fun h => Bool.false_ne_true h.2]
    exact .none rfl
  · rw [hline, if_pos ⟨hroom, hend⟩]
    refine ⟨[(s.event ++ l, false)], ?_, rfl⟩
    unfold afterFlush
    split_ifs
    · exact flushes_flushSSEEvent r ok (s.event ++ l) false
    · exact (flushes_credit _ _ _).trans (flushes_flushSSEEvent r ok (s.event ++ l) false)

theorem flushes_receiveError (r : SSERelay) (ok : Bool) (s : Stream) (e : LineError) :
    Flushes r (r.receiveError ok s e) [] := by
  have hforced : ∀ r' : SSERelay, r'.flushes = r.flushes ++ [(s.event, true)] → Flushes r r' [] :=
    fun r' h => ⟨_, h, rfl⟩
  have hbroken : Flushes r (if r.ctxDone then r else if s.credited then r.act .cbFailure else r.act .failure) [] := by
    split_ifs
    · exact .none rfl
    · exact .none rfl
    · exact .none rfl
  cases e with
  | tooLong => exact hbroken
  | broken => exact hbroken
  | eof =>
    have hflush := flushes_flushSSEEvent r ok s.event true
    unfold receiveError
    dsimp only
    split_ifs
    · exact hforced _ hflush
    · exact hforced _ ((flushes_credit _ _ _).trans hflush)
    · exact hforced _ ((flushes_credit _ _ _).trans hflush)

theorem turn_flushes (hstep : r.turn required s t = some r') : Flushes r r' (due s t) := by
  cases t with
  | done =>
    unfold turn at hstep
    dsimp only at hstep
    split_ifs at hstep
    cases hstep
    exact .none (flushes_leave _ _ _)
  | idle =>
    cases hstep
    exact .none (flushes_leave _ _ _)
  | ping ok =>
    cases ok with
    | true =>
      cases hstep
      exact .none rfl
    | false =>
      cases hstep
      exact .none (flushes_leave _ _ _)
  | line ok =>
    cases hlines : s.lines with
    | nil =>
      unfold turn at hstep
      rw [hlines] at hstep
      cases hstep
    | cons line lines =>
      obtain ⟨l, err⟩ := line
      rw [due_of_lines hlines ok]
      unfold turn at hstep
      rw [hlines] at hstep
      dsimp only at hstep
      have hline := flushes_receiveLine (if l = [] then r else r.act (.line l)) ok { s with lines := lines } l
      have hsame : (if l = [] then r else r.act (.line l)).flushes = r.flushes := by
        split_ifs
        · rfl
        · rfl
      have hline' : Flushes r _ _ := (Flushes.none hsame).trans hline
      rw [List.nil_append] at hline'
      split at hstep
      · rename_i r₁ hout
        cases hstep
        rw [hout] at hline'
        have hleave := hline'.trans (.none (flushes_leave r₁ required true))
        rwa [List.append_nil] at hleave
      · rename_i r₁ s₁ hout
        rw [hout] at hline'
        cases err with
        | none =>
          cases hstep
          exact hline'
        | some e =>
          cases hstep
          have hleave := (hline'.trans (flushes_receiveError r₁ ok s₁ e)).trans
            (.none (flushes_leave _ required true))
          rwa [List.append_nil, List.append_nil] at hleave

end Flushes

section Runs

variable {required : Upstream.Selector} {body : EventBody} {start r r' : SSERelay} {read : List UInt8}
  {s : Stream} {t : Turn}

theorem Streaming.phase (h : Streaming required body start read r s) : r.phase = .streaming s := by
  induction h with
  | dialled hs => exact hs
  | cancel _ ih => exact ih
  | turn _ _ hs _ => exact hs

theorem flushes_dial {ok : Bool} (required : Upstream.Selector) (body : EventBody) (start : SSERelay) :
    (start.dial required ok (.connected body)).flushes = start.flushes := by
  unfold dial
  dsimp only
  split_ifs
  · rfl
  · exact flushes_leave _ _ _
  · rfl

theorem Streaming.reached (h : Streaming required body start read r s) :
    ∃ given, Reached body start read given r s ∧ Flushes start r given := by
  induction h with
  | dialled hs => exact ⟨[], .dialled hs, .none (flushes_dial _ _ _)⟩
  | cancel _ ih =>
    obtain ⟨given, hreached, hflushes⟩ := ih
    exact ⟨given, { hreached with logged := hreached.logged }, hflushes⟩
  | turn h hstep hs ih =>
    obtain ⟨given, hreached, hflushes⟩ := ih
    rcases hreached.turn h.phase hstep with ⟨s', hs', hreached', -⟩ | hended
    · rw [hs'] at hs
      cases hs
      exact ⟨_, hreached', hflushes.trans (turn_flushes hstep)⟩
    · exact absurd hs (hended.stopped _)

theorem Streaming.framing_iff (h : Streaming required body start read r s) (hstep : r.turn required s t = some r') :
    Framing body start (read ++ received s t) t r' ↔ CreditSafe r s t := by
  obtain ⟨given', hreached, hflushes⟩ := h.reached
  have hgiven := (hflushes.trans (turn_flushes hstep)).given_eq
  rcases hreached.turn h.phase hstep with ⟨s', hs', hreached, hsafe⟩ | hended
  · refine ⟨fun _ => hsafe, fun _ => ?_⟩
    obtain ⟨unread, hbody, -⟩ := hreached.feed
    obtain ⟨acts, hlog, hsub, hsound, -⟩ := hreached.logged
    rw [← hgiven] at hsub
    exact ⟨⟨unread, hbody⟩, hgiven.trans hreached.capped.symm, fun _ hstopped => absurd hs' (hstopped s'), acts, hlog,
      Or.inl hsub, hsound⟩
  · obtain ⟨acts, hlog, hwritten, hsound⟩ := hended.acts
    constructor
    · intro hframing
      obtain ⟨acts', hlog', -, hcredited⟩ := hframing.acts
      rw [hlog] at hlog'
      rw [← hsound, List.append_cancel_left hlog']
      exact hcredited
    · intro hsafe
      rw [← hgiven] at hwritten
      exact ⟨hended.bytes, hgiven.trans hended.framed, fun ht _ => hgiven.trans (hended.complete ht), acts, hlog, hwritten,
        hsound.mpr hsafe⟩

end Runs

def opened (text : String) : SSERelay := (new "").dial .zero true (.connected ⟨ascii text, true, false⟩)

def openedStream (text : String) : Stream := ⟨readSSELines ⟨ascii text, true, false⟩, [], false, false⟩

theorem streaming_opened (text : String) :
    Streaming .zero ⟨ascii text, true, false⟩ (new "") [] (opened text) (openedStream text) :=
  @Streaming.dialled .zero ⟨ascii text, true, false⟩ (new "") true (openedStream text) rfl

theorem framing_iff_unterminated :
    Streaming .zero ⟨ascii "data: a", true, false⟩ (new "") [] (opened "data: a") (openedStream "data: a") ∧
      ∃ r', (opened "data: a").turn .zero (openedStream "data: a") (.line true) = some r' ∧
        r'.log = [.opened, .retry, .line (ascii "data: a"), .frame (ascii "data: a\n\n"), .success, .release] ∧
        Framing ⟨ascii "data: a", true, false⟩ (new "") (ascii "data: a") (.line true) r' := by
  have hlines : (openedStream "data: a").lines = [⟨ascii "data: a", some .eof⟩] := by decide +kernel
  have hlog : ((opened "data: a").turn .zero (openedStream "data: a") (.line true)).map SSERelay.log =
      some [.opened, .retry, .line (ascii "data: a"), .frame (ascii "data: a\n\n"), .success, .release] := by
    decide +kernel
  obtain ⟨r', hr', hlog⟩ := Option.map_eq_some_iff.mp hlog
  refine ⟨streaming_opened _, r', hr', hlog, ((streaming_opened "data: a").framing_iff hr').mpr ?_⟩
  intro l rest hl _
  rw [hlines] at hl
  cases hl
  exact Or.inl (by decide +kernel)

theorem carriage_return_credited :
    Streaming .zero ⟨[cr], true, false⟩ (new "") [] (opened "\r") (openedStream "\r") ∧
      ∃ r', (opened "\r").turn .zero (openedStream "\r") (.line true) = some r' ∧
        r'.log = [.opened, .retry, .line [cr], .frame [lf, lf], .success, .release] ∧ hasField [lf, lf] = false ∧
        ¬ Framing ⟨[cr], true, false⟩ (new "") [cr] (.line true) r' := by
  have hlog : ((opened "\r").turn .zero (openedStream "\r") (.line true)).map SSERelay.log =
      some [.opened, .retry, .line [cr], .frame [lf, lf], .success, .release] := by decide +kernel
  obtain ⟨r', hr', hlog⟩ := Option.map_eq_some_iff.mp hlog
  refine ⟨streaming_opened "\r", r', hr', hlog, rfl, fun h => ?_⟩
  obtain ⟨acts, hacts, -, hcredited⟩ := h.acts
  rw [hlog] at hacts
  obtain ⟨f, hf, hfield⟩ := hcredited [.opened, .retry, .line [cr], .frame [lf, lf]] [.release] hacts.symm
  rw [List.mem_singleton.mp hf] at hfield
  cases hfield

end EBeacon.Network.SSERelay
