import EBeacon.Library.Runs
import EBeacon.Network.SSE

namespace EBeacon.Network.SSERelay

open Upstream

def Act.frame? : Act → Option (List UInt8)
  | .frame f => some f
  | _ => none

def frames (log : List Act) : List (List UInt8) := log.filterMap Act.frame?

def unfinished (log : List Act) : List UInt8 :=
  log.foldl (fun event a =>
    match a with
    | .opened => []
    | .line l => if isTerminator l then [] else event ++ l
    | _ => event) []

def Completes (log : List Act) (l : List UInt8) : Prop :=
  isTerminator l = true ∧ (unfinished log ++ l).length ≤ sseMaxEventBytes

def Recent (log : List Act) (f : List UInt8) : Prop := f ∈ (frames log).rtake seenRingSize

def HashSeen (log : List Act) (f : List UInt8) : Prop :=
  hashEvent f ∈ ((frames log).map hashEvent).rtake seenRingSize ∨
    (frames log).length < seenRingSize ∧ hashEvent f = 0

theorem HashSeen.of_recent {log : List Act} {f : List UInt8} (h : Recent log f) : HashSeen log f := by
  left
  unfold Recent List.rtake at h
  unfold List.rtake
  rw [List.length_map, ← List.map_drop]
  exact List.mem_map_of_mem h

def Act.quiet : Act → Bool
  | .opened | .line _ | .frame _ => false
  | _ => true

/-- What a relay does when its writes succeed: a frame whose hash was not seen is written as soon as
it is complete, and other frames that are written have hashes that were not seen either. -/
inductive Trace : List Act → Prop
  | start : Trace []
  | other {log : List Act} {a : Act} (h : Trace log) (ha : a.frame? = none)
      (hl : ∀ l, a = .line l → Completes log l → HashSeen log (unfinished log ++ l)) : Trace (log ++ [a])
  | written {log : List Act} {l : List UInt8} (h : Trace log) (hl : Completes log l)
      (hnew : ¬ HashSeen log (unfinished log ++ l)) :
      Trace (log ++ [.line l, .frame (unfinished log ++ l)])
  | forced {log : List Act} {f : List UInt8} (h : Trace log) (hnew : ¬ HashSeen log f) :
      Trace (log ++ [.frame f])

section Acts

variable (log : List Act)

theorem frames_frame (f : List UInt8) : frames (log ++ [.frame f]) = frames log ++ [f] := by
  rw [frames, List.filterMap_append]
  rfl

theorem frames_of_none {a : Act} (ha : a.frame? = none) : frames (log ++ [a]) = frames log := by
  rw [frames, List.filterMap_append, List.filterMap_cons_none ha, List.filterMap_nil, List.append_nil]
  rfl

theorem Trace.quiet (h : Trace log) {a : Act} (ha : a.quiet = true) : Trace (log ++ [a]) := by
  refine h.other ?_ ?_
  · cases a <;> first | rfl | cases ha
  · rintro l rfl
    cases ha

theorem Trace.unended (h : Trace log) {l : List UInt8} (hl : ¬ Completes log l) :
    Trace (log ++ [.line l]) := by
  refine h.other rfl ?_
  rintro _ ⟨⟩ hc
  exact absurd hc hl

theorem Trace.dropped (h : Trace log) {l : List UInt8} (hseen : HashSeen log (unfinished log ++ l)) :
    Trace (log ++ [.line l]) := by
  refine h.other rfl ?_
  rintro _ ⟨⟩ -
  exact hseen

theorem hashSeen_concat {a : Act} (ha : a.frame? = none) (f : List UInt8) :
    HashSeen (log ++ [a]) f ↔ HashSeen log f := by
  unfold HashSeen
  rw [frames_of_none log ha]

theorem unfinished_line (l : List UInt8) :
    unfinished (log ++ [.line l]) = if isTerminator l then [] else unfinished log ++ l := by
  rw [unfinished, List.foldl_append]
  rfl

theorem unfinished_opened : unfinished (log ++ [.opened]) = [] := by
  rw [unfinished, List.foldl_append]
  rfl

theorem unfinished_frame (f : List UInt8) : unfinished (log ++ [.frame f]) = unfinished log := by
  rw [unfinished, List.foldl_append]
  rfl

theorem unfinished_quiet {a : Act} (ha : a.quiet = true) : unfinished (log ++ [a]) = unfinished log := by
  rw [unfinished, List.foldl_append]
  cases a <;> first | rfl | cases ha

end Acts

def Remembers (r : SSERelay) : Prop :=
  r.seen = Ring.ofHistory seenRingSize 0 ((frames r.log).map hashEvent)

namespace Remembers

variable {r : SSERelay}

theorem has_iff (h : Remembers r) (f : List UInt8) : r.seen.has (hashEvent f) = true ↔ HashSeen r.log f := by
  unfold Remembers at h
  rw [h, Ring.has_ofHistory, List.length_map]
  rfl

theorem act (h : Remembers r) {a : Act} (ha : a.frame? = none) : Remembers (r.act a) := by
  change r.seen = Ring.ofHistory _ _ ((frames (r.log ++ [a])).map hashEvent)
  rw [frames_of_none _ ha]
  exact h

theorem write (h : Remembers r) (f : List UInt8) :
    Remembers ({ r with seen := r.seen.add (hashEvent f) }.act (.frame f)) := by
  change r.seen.add (hashEvent f) = Ring.ofHistory _ _ ((frames (r.log ++ [.frame f])).map hashEvent)
  unfold Remembers at h
  rw [frames_frame, List.map_append, h]
  exact (Ring.ofHistory_concat _ _ _ _).symm

end Remembers

structure Kept (r : SSERelay) : Prop where
  trace : Trace r.log
  seen : Remembers r

namespace Kept

variable {r : SSERelay} {required : Selector}

theorem act_of_none (h : Kept r) {a : Act} (ha : a.frame? = none) (htrace : Trace (r.log ++ [a])) :
    Kept (r.act a) :=
  ⟨htrace, h.seen.act ha⟩

theorem act (h : Kept r) {a : Act} (ha : a.quiet = true) : Kept (r.act a) := by
  refine h.act_of_none ?_ (h.trace.quiet _ ha)
  cases a <;> first | rfl | cases ha

theorem enter (h : Kept r) (phase : Phase) : Kept (r.enter phase) := ⟨h.trace, h.seen⟩

theorem returned (h : Kept r) (connected : Bool) : Kept (r.returned required connected) := by
  unfold SSERelay.returned
  by_cases hdone : r.ctxDone = true
  · rw [if_pos hdone]
    exact h.enter _
  · rw [if_neg hdone]
    by_cases hunavailable : (!connected && (required.enabled && !r.headersSent)) = true
    · rw [if_pos hunavailable]
      exact (h.act rfl).enter _
    · rw [if_neg hunavailable]
      exact ⟨h.trace, h.seen⟩

theorem leave (h : Kept r) (connected : Bool) : Kept (r.leave required connected) :=
  (h.act rfl).returned connected

theorem credit (h : Kept r) (s : Stream) (wrote : Bool) :
    Kept (SSERelay.credit r s wrote).1 ∧ (SSERelay.credit r s wrote).2.event = s.event ∧
      unfinished (SSERelay.credit r s wrote).1.log = unfinished r.log := by
  unfold SSERelay.credit
  split_ifs
  · exact ⟨h.act rfl, rfl, unfinished_quiet _ rfl⟩
  · exact ⟨h, rfl, rfl⟩

end Kept

structure Following (r : SSERelay) : Prop extends Kept r where
  event : ∀ s, r.phase = .streaming s → s.event = unfinished r.log

section Steps

variable {r : SSERelay} {required : Selector}

theorem returned_phase (r : SSERelay) (connected : Bool) (s : Stream) :
    (r.returned required connected).phase ≠ .streaming s := by
  unfold returned
  split_ifs <;> exact nofun

theorem Kept.following_leave (h : Kept r) (connected : Bool) : Following (r.leave required connected) :=
  { h.leave connected with event := fun s hs => absurd hs (returned_phase _ connected s) }

theorem Kept.following_returned (h : Kept r) (connected : Bool) : Following (r.returned required connected) :=
  { h.returned connected with event := fun s hs => absurd hs (returned_phase _ connected s) }

theorem Kept.following_dial (h : Kept r) (d : Dial) : Following (r.dial required true d) := by
  cases d with
  | unbuilt => exact h.following_returned false
  | refused => exact h.following_returned false
  | failed =>
    change Following (SSERelay.leave (if r.ctxDone then r else SSERelay.act r .failure) required false)
    split_ifs
    · exact h.following_leave false
    · exact (h.act rfl).following_leave false
  | badStatus => exact (h.act rfl).following_leave false
  | connected body =>
    have hopened : Kept (r.act .opened) := h.act_of_none rfl (h.trace.other rfl nofun)
    have hempty := unfinished_opened r.log
    unfold dial
    dsimp only
    split_ifs
    · refine { hopened.enter _ with event := ?_ }
      rintro s ⟨⟩
      exact hempty.symm
    · rename_i hfalse
      cases hfalse
    · refine ⟨⟨(hopened.act (a := .retry) rfl).trace, (hopened.act (a := .retry) rfl).seen⟩, ?_⟩
      rintro s ⟨⟩
      exact ((unfinished_quiet _ rfl).trans hempty).symm

def offer (r : SSERelay) (f : List UInt8) : Flushed :=
  if r.seen.has (hashEvent f) then ⟨r, [], false, true⟩
  else ⟨{ r with seen := r.seen.add (hashEvent f) }.act (.frame f), [], true, true⟩

theorem flushSSEEvent_eq (r : SSERelay) {event : List UInt8} (hevent : event ≠ []) (forceTerminator : Bool) :
    r.flushSSEEvent true event forceTerminator = (r.flushing event forceTerminator).offer
      (if forceTerminator then trimNewlines event ++ [lf, lf] else event) := by
  unfold flushSSEEvent
  dsimp only
  rw [if_neg hevent]
  rfl

theorem Remembers.offer_cases (h : Remembers r) (f : List UInt8) :
    HashSeen r.log f ∧ r.offer f = ⟨r, [], false, true⟩ ∨
      ¬ HashSeen r.log f ∧
        r.offer f = ⟨{ r with seen := r.seen.add (hashEvent f) }.act (.frame f), [], true, true⟩ := by
  unfold offer
  by_cases hhash : HashSeen r.log f
  · rw [if_pos ((h.has_iff f).mpr hhash)]
    exact Or.inl ⟨hhash, rfl⟩
  · rw [if_neg (mt (h.has_iff f).mp hhash)]
    exact Or.inr ⟨hhash, rfl⟩

theorem Kept.flush_line (h : Kept r) {l : List UInt8} (hl : Completes r.log l) (hne : l ≠ []) :
    let out := (r.act (.line l)).flushSSEEvent true (unfinished r.log ++ l) false
    Kept out.relay ∧ out.usable = true ∧ out.event = [] ∧ unfinished out.relay.log = [] := by
  intro out
  have hempty : unfinished (r.log ++ [.line l]) = [] := by rw [unfinished_line, if_pos hl.1]
  have hseen : Remembers ((r.act (.line l)).flushing (unfinished r.log ++ l) false) := h.seen.act rfl
  have hsame := hashSeen_concat r.log (a := .line l) rfl (unfinished r.log ++ l)
  have hevent : unfinished r.log ++ l ≠ [] := List.append_ne_nil_of_right_ne_nil _ hne
  have hout : out = offer _ _ := flushSSEEvent_eq (r.act (.line l)) hevent false
  rw [hout]
  rcases hseen.offer_cases (unfinished r.log ++ l) with ⟨hhash, heq⟩ | ⟨hhash, heq⟩
  · rw [if_neg Bool.false_ne_true, heq]
    exact ⟨⟨h.trace.dropped _ (hsame.mp hhash), hseen⟩, rfl, rfl, hempty⟩
  · rw [if_neg Bool.false_ne_true, heq]
    refine ⟨⟨?_, hseen.write _⟩, rfl, rfl, (unfinished_frame _ _).trans hempty⟩
    change Trace (r.log ++ [.line l] ++ [.frame _])
    rw [List.append_assoc]
    exact h.trace.written hl (mt hsame.mpr hhash)

theorem Kept.receiveLine (h : Kept r) {s : Stream} (hs : s.event = unfinished r.log) {l : List UInt8}
    (hl : l ≠ []) :
    let out := (r.act (.line l)).receiveLine true s l
    Kept out.1 ∧ ∀ s', out.2 = some s' → s'.event = unfinished out.1.log := by
  unfold SSERelay.receiveLine
  rw [if_neg hl]
  have hlength : s.event.length + l.length = (unfinished r.log ++ l).length := by
    rw [List.length_append, hs]
  by_cases hcap : sseMaxEventBytes < s.event.length + l.length
  · rw [if_pos hcap]
    refine ⟨h.act_of_none rfl (h.trace.unended _ fun hc => ?_), nofun⟩
    have hle := hc.2
    omega
  · rw [if_neg hcap]
    cases hend : isTerminator l with
    | true =>
      obtain ⟨hkept, husable, hevent, hempty⟩ := h.flush_line ⟨hend, by omega⟩ hl
      rw [← hs] at hkept husable hevent hempty
      dsimp only
      rw [Bool.not_true, if_neg Bool.false_ne_true, husable, Bool.not_true, if_neg Bool.false_ne_true]
      obtain ⟨hcredit, hsame, hlog⟩ := hkept.credit ⟨s.lines, _, _, s.credited⟩ _
      refine ⟨hcredit, ?_⟩
      rintro s' ⟨⟩
      dsimp only
      rw [hlog, hempty, hsame, hevent]
    | false =>
      have hunfinished := unfinished_line r.log l
      rw [hend, if_neg Bool.false_ne_true] at hunfinished
      have hnot : ¬ Completes r.log l := fun hc => Bool.false_ne_true (hend.symm.trans hc.1)
      dsimp only
      rw [Bool.not_false, if_pos rfl]
      refine ⟨h.act_of_none rfl (h.trace.unended _ hnot), ?_⟩
      rintro s' ⟨⟩
      dsimp only
      rw [hs]
      exact hunfinished.symm

theorem Kept.receiveError (h : Kept r) (s : Stream) (e : LineError) : Kept (r.receiveError true s e) := by
  have hbroken : Kept (if r.ctxDone then r
      else if s.credited then SSERelay.act r .cbFailure else r.act .failure) := by
    split_ifs
    · exact h
    · exact h.act rfl
    · exact h.act rfl
  cases e with
  | tooLong => exact hbroken
  | broken => exact hbroken
  | eof =>
    have hflush : Kept (r.flushSSEEvent true s.event true).relay ∧
        (r.flushSSEEvent true s.event true).usable = true := by
      have hseen : Remembers (r.flushing s.event true) := h.seen
      by_cases hevent : s.event = []
      · rw [flushSSEEvent, if_pos hevent]
        exact ⟨⟨h.trace, hseen⟩, rfl⟩
      · rw [flushSSEEvent_eq r hevent true]
        rcases hseen.offer_cases (trimNewlines s.event ++ [lf, lf]) with ⟨-, heq⟩ | ⟨hhash, heq⟩
        · rw [if_pos rfl, heq]
          exact ⟨⟨h.trace, hseen⟩, rfl⟩
        · rw [if_pos rfl, heq]
          exact ⟨⟨h.trace.forced hhash, hseen.write _⟩, rfl⟩
    unfold SSERelay.receiveError
    dsimp only
    rw [hflush.2, Bool.not_true, if_neg Bool.false_ne_true]
    have hcredit := (hflush.1.credit s (r.flushSSEEvent true s.event true).wrote).1
    split_ifs
    · exact hcredit
    · exact hcredit.act rfl

theorem Following.turn (h : Following r) {s : Stream} (hs : r.phase = .streaming s) {t : Turn}
    (hok : (Label.turn t).succeeds = true) {r' : SSERelay} (hstep : r.turn required s t = some r') :
    Following r' := by
  cases t with
  | done =>
    unfold SSERelay.turn at hstep
    dsimp only at hstep
    split_ifs at hstep
    cases hstep
    exact h.following_leave true
  | idle =>
    cases hstep
    exact h.following_leave true
  | ping ok =>
    have hok : ok = true := hok
    subst hok
    cases hstep
    refine { h.act (a := .ping) rfl with event := fun s' hs' => ?_ }
    rw [h.event s' hs']
    exact (unfinished_quiet _ rfl).symm
  | line ok =>
    have hok : ok = true := hok
    subst hok
    unfold SSERelay.turn at hstep
    cases hlines : s.lines with
    | nil =>
      rw [hlines] at hstep
      cases hstep
    | cons l lines =>
      rw [hlines] at hstep
      dsimp only at hstep
      have hout : ∀ out, (if l.line = [] then r else SSERelay.act r (.line l.line)).receiveLine true
            { s with lines := lines } l.line = out →
          Kept out.1 ∧ ∀ s', out.2 = some s' → s'.event = unfinished out.1.log := by
        rintro _ rfl
        by_cases hl : l.line = []
        · rw [if_pos hl, hl]
          refine ⟨h.toKept, ?_⟩
          rintro s' ⟨⟩
          exact h.event s hs
        · rw [if_neg hl]
          exact h.toKept.receiveLine (s := { s with lines := lines }) (h.event s hs) hl
      revert hstep
      generalize hr : SSERelay.receiveLine _ true _ _ = out
      intro hstep
      obtain ⟨hkept, hevent⟩ := hout out hr
      obtain ⟨r₁, _ | s₁⟩ := out
      · cases hstep
        exact hkept.following_leave true
      · cases herr : l.err with
        | none =>
          rw [herr] at hstep
          cases hstep
          refine { hkept.enter _ with event := ?_ }
          rintro s' ⟨⟩
          exact hevent s₁ rfl
        | some e =>
          rw [herr] at hstep
          cases hstep
          exact (hkept.receiveError s₁ e).following_leave true

theorem Following.next (h : Following r) {a : Label} (hok : a.succeeds = true) {r' : SSERelay}
    (hstep : SSERelay.next required r a = some r') : Following r' := by
  have henter : ∀ phase, (∀ s, phase ≠ .streaming s) → Following (r.enter phase) :=
    fun phase hphase => { h.toKept.enter phase with event := fun s hs => absurd hs (hphase s) }
  cases a with
  | cancel =>
    cases hstep
    exact ⟨⟨h.trace, h.seen⟩, h.event⟩
  | iterate pool d ok =>
    have hok : ok = true := hok
    subst hok
    unfold SSERelay.next at hstep
    dsimp only at hstep
    by_cases hphase : r.phase ≠ .picking
    · rw [if_pos hphase] at hstep
      cases hstep
    rw [if_neg hphase] at hstep
    by_cases hdone : r.ctxDone = true
    · rw [if_pos hdone] at hstep
      cases hstep
      exact henter .over nofun
    rw [if_neg hdone] at hstep
    cases hpick : pickUpstream pool r.stickyID required with
    | none =>
      rw [hpick] at hstep
      dsimp only at hstep
      split_ifs at hstep
      · cases hstep
        exact { (h.act (a := .unavailable) rfl).enter .over with event := nofun }
      · cases hstep
        exact henter .waiting nofun
    | some u =>
      rw [hpick] at hstep
      cases hstep
      have hkept : Kept { r with stickyID := u.id } := ⟨h.trace, h.seen⟩
      exact hkept.following_dial d
  | turn t =>
    unfold SSERelay.next at hstep
    dsimp only at hstep
    split at hstep
    · rename_i s hs
      exact h.turn hs hok hstep
    · cases hstep
  | wake elapsed =>
    unfold SSERelay.next at hstep
    dsimp only at hstep
    split_ifs at hstep
    · cases hstep
      exact henter .picking nofun
    · cases hstep
      exact henter .over nofun

end Steps

structure Delivers (preferUpstream : String) (required : Selector) (labels : List Label) (r : SSERelay) :
    Prop where
  run : Runs.exec (next required) (new preferUpstream) labels = some r
  succeeds : ∀ a ∈ labels, a.succeeds = true

theorem following_new (preferUpstream : String) : Following (new preferUpstream) where
  trace := .start
  seen := rfl
  event := nofun

theorem Delivers.following {preferUpstream : String} {required : Selector} {labels : List Label} {r : SSERelay}
    (h : Delivers preferUpstream required labels r) : Following r := by
  obtain ⟨hrun, hok⟩ := h
  refine Runs.exec_induction (P := fun labels r => (∀ a ∈ labels, a.succeeds = true) → Following r)
    (fun _ => following_new preferUpstream) ?_ hrun hok
  intro labels t a u _ ih hstep hok
  have hinit := ih (fun b hb => hok b (List.mem_append_left _ hb))
  exact hinit.next (hok a (List.mem_append_right _ (List.mem_singleton_self a))) hstep

section Traces

variable {log : List Act}

theorem append_cons_cases {α : Type} {w pre post : List α} {a x : α} (h : w ++ [a] = pre ++ x :: post) :
    (∃ rest, post = rest ++ [a] ∧ w = pre ++ x :: rest) ∨ post = [] ∧ w = pre ∧ a = x := by
  rcases List.eq_nil_or_concat' post with rfl | ⟨rest, b, rfl⟩
  · obtain ⟨hw, ha⟩ := List.append_inj' h rfl
    exact Or.inr ⟨rfl, hw, (List.cons.inj ha).1⟩
  · rw [← List.cons_append, ← List.append_assoc] at h
    obtain ⟨hw, ha⟩ := List.append_inj' h rfl
    exact Or.inl ⟨rest, by rw [(List.cons.inj ha).1], hw⟩

theorem Trace.frame_new (h : Trace log) {pre post : List Act} {f : List UInt8}
    (hlog : log = pre ++ .frame f :: post) : ¬ HashSeen pre f := by
  induction h generalizing post with
  | start => simp at hlog
  | other _ ha _ ih =>
    rcases append_cons_cases hlog with ⟨rest, -, hrest⟩ | ⟨-, -, rfl⟩
    · exact ih hrest
    · cases ha
  | @written log l _ _ hnew ih =>
    rw [← List.singleton_append, ← List.append_assoc] at hlog
    rcases append_cons_cases hlog with ⟨rest, -, hrest⟩ | ⟨-, rfl, hframe⟩
    · rcases append_cons_cases hrest with ⟨rest, -, hrest⟩ | ⟨-, -, hline⟩
      · exact ih hrest
      · cases hline
    · cases hframe
      rwa [hashSeen_concat _ rfl]
  | forced _ hnew ih =>
    rcases append_cons_cases hlog with ⟨rest, -, hrest⟩ | ⟨-, rfl, hframe⟩
    · exact ih hrest
    · cases hframe
      exact hnew

theorem Trace.complete_written (h : Trace log) {pre post : List Act} {l : List UInt8}
    (hlog : log = pre ++ .line l :: post) (hl : Completes pre l)
    (hnew : ¬ HashSeen pre (unfinished pre ++ l)) :
    post.head? = some (.frame (unfinished pre ++ l)) := by
  have hold : ∀ {rest : List Act} {a : Act}, rest.head? = some (.frame (unfinished pre ++ l)) →
      (rest ++ [a]).head? = some (.frame (unfinished pre ++ l)) := by
    intro rest a hrest
    rw [List.head?_append, hrest]
    rfl
  induction h generalizing post with
  | start => simp at hlog
  | other _ _ hseen ih =>
    rcases append_cons_cases hlog with ⟨rest, rfl, hrest⟩ | ⟨-, rfl, rfl⟩
    · exact hold (ih hrest)
    · exact absurd (hseen l rfl hl) hnew
  | written _ _ _ ih =>
    rw [← List.singleton_append, ← List.append_assoc] at hlog
    rcases append_cons_cases hlog with ⟨rest, rfl, hrest⟩ | ⟨-, -, hframe⟩
    · rcases append_cons_cases hrest with ⟨older, rfl, holder⟩ | ⟨rfl, rfl, hline⟩
      · exact hold (hold (ih holder))
      · cases hline
        rfl
    · cases hframe
  | forced _ _ ih =>
    rcases append_cons_cases hlog with ⟨rest, rfl, hrest⟩ | ⟨-, -, hframe⟩
    · exact hold (ih hrest)
    · cases hframe

theorem exists_frame {pre post : List (List UInt8)} {f : List UInt8} (h : frames log = pre ++ f :: post) :
    ∃ before after, log = before ++ .frame f :: after ∧ frames before = pre := by
  obtain ⟨before, rest, rfl, hbefore, hrest⟩ := List.filterMap_eq_append_iff.mp h
  obtain ⟨skipped, a, after, rfl, hskipped, ha, -⟩ := List.filterMap_eq_cons_iff.mp hrest
  refine ⟨before ++ skipped, after, ?_, ?_⟩
  · cases a <;> cases ha
    rw [List.append_assoc]
  · unfold frames
    rw [List.filterMap_append, hbefore, List.filterMap_eq_nil_iff.mpr hskipped, List.append_nil]

end Traces

section Delivery

variable {preferUpstream : String} {required : Selector} {labels : List Label} {r : SSERelay}

theorem Delivers.not_recent (h : Delivers preferUpstream required labels r) {pre post : List (List UInt8)}
    {f : List UInt8} (hframes : frames r.log = pre ++ f :: post) : f ∉ pre.rtake 128 := by
  obtain ⟨before, after, hlog, rfl⟩ := exists_frame hframes
  exact fun hmem => h.following.trace.frame_new hlog (.of_recent hmem)

def LosesNone (log : List Act) : Prop :=
  ∀ pre l post, log = pre ++ .line l :: post → Completes pre l → ¬ Recent pre (unfinished pre ++ l) →
    post.head? = some (.frame (unfinished pre ++ l))

def Distinguished (log : List Act) : Prop :=
  ∀ pre l post, log = pre ++ .line l :: post → Completes pre l → ¬ Recent pre (unfinished pre ++ l) →
    ¬ HashSeen pre (unfinished pre ++ l)

theorem Delivers.losesNone_iff (h : Delivers preferUpstream required labels r) :
    LosesNone r.log ↔ Distinguished r.log := by
  have htrace := h.following.trace
  constructor
  · intro hnone pre l post hlog hl hrecent
    obtain ⟨rest, rfl⟩ := List.head?_eq_some_iff.mp (hnone pre l post hlog hl hrecent)
    have hframe : r.log = (pre ++ [.line l]) ++ .frame (unfinished pre ++ l) :: rest := by
      rw [hlog, List.append_assoc]
      rfl
    exact mt (hashSeen_concat _ rfl _).mpr (htrace.frame_new hframe)
  · intro hdistinguished pre l post hlog hl hrecent
    exact htrace.complete_written hlog hl (hdistinguished pre l post hlog hl hrecent)

end Delivery

def ascii (s : String) : List UInt8 := s.toList.map (fun c => UInt8.ofNat c.toNat)

def oneStream (text : String) (lines : ℕ) : List Label :=
  .iterate (.allReady [⟨"a", false⟩]) (.connected ⟨ascii text, true, false⟩) true ::
    List.replicate lines (.turn (.line true))

theorem delivers_oneStream {text : String} {lines : ℕ} {log : List Act}
    (h : (Runs.exec (next .zero) (new "") (oneStream text lines)).map (·.log) = some log) :
    ∃ r, Delivers "" .zero (oneStream text lines) r ∧ r.log = log := by
  obtain ⟨r, hrun, hlog⟩ := Option.map_eq_some_iff.mp h
  refine ⟨r, ⟨hrun, fun a ha => ?_⟩, hlog⟩
  rcases List.mem_cons.mp ha with rfl | ha
  · rfl
  · rw [List.eq_of_mem_replicate ha]
    rfl

theorem not_recent_repeated :
    ∃ r, Delivers "" .zero (oneStream "data: a\n\ndata: a\n\ndata: b\n\n" 6) r ∧
      frames r.log = [ascii "data: a\n\n"] ++ [ascii "data: b\n\n"] ∧
      ascii "data: b\n\n" ∉ [ascii "data: a\n\n"].rtake 128 := by
  obtain ⟨r, hr, hlog⟩ := @delivers_oneStream "data: a\n\ndata: a\n\ndata: b\n\n" 6
    [.opened, .retry, .line (ascii "data: a\n"), .line (ascii "\n"), .frame (ascii "data: a\n\n"),
      .success, .line (ascii "data: a\n"), .line (ascii "\n"), .line (ascii "data: b\n"), .line (ascii "\n"),
      .frame (ascii "data: b\n\n")] (by decide +kernel)
  have hframes : frames r.log = [ascii "data: a\n\n"] ++ [ascii "data: b\n\n"] := by
    rw [hlog]
    rfl
  exact ⟨r, hr, hframes, hr.not_recent hframes⟩

theorem losesNone_first :
    ∃ r, Delivers "" .zero (oneStream "data: a\n\n" 2) r ∧ frames r.log = [ascii "data: a\n\n"] ∧
      LosesNone r.log := by
  obtain ⟨r, hr, hlog⟩ := @delivers_oneStream "data: a\n\n" 2
    [.opened, .retry, .line (ascii "data: a\n"), .line (ascii "\n"), .frame (ascii "data: a\n\n"), .success]
    (by decide +kernel)
  refine ⟨r, hr, by rw [hlog]; rfl, hr.losesNone_iff.mpr ?_⟩
  rw [hlog]
  intro pre l post hsplit hl _
  match pre, hsplit with
  | [_, _], hsplit =>
    cases hsplit
    exact absurd hl.1 (by decide)
  | [_, _, _], hsplit =>
    cases hsplit
    unfold HashSeen
    decide +kernel
  | _ :: _ :: _ :: _ :: pre, hsplit =>
    simp only [List.cons_append, List.cons.injEq] at hsplit
    have hmem : Act.line l ∈ [.frame (ascii "data: a\n\n"), .success] := by
      rw [hsplit.2.2.2.2]
      simp
    simp at hmem

theorem zero_hash_lost :
    ∃ r, Delivers "" .zero (oneStream "event: head\ndata: \x7b\"slot\":\"1613668853\"\x7d\n\n" 3) r ∧
      r.log = [.opened, .retry, .line (ascii "event: head\n"),
        .line (ascii "data: \x7b\"slot\":\"1613668853\"\x7d\n"), .line (ascii "\n")] ∧
      ¬ LosesNone r.log := by
  obtain ⟨r, hr, hlog⟩ := @delivers_oneStream
    "event: head\ndata: \x7b\"slot\":\"1613668853\"\x7d\n\n" 3
    [.opened, .retry, .line (ascii "event: head\n"),
      .line (ascii "data: \x7b\"slot\":\"1613668853\"\x7d\n"), .line (ascii "\n")] (by decide +kernel)
  refine ⟨r, hr, hlog, fun hnone => ?_⟩
  rw [hlog] at hnone
  have hcomplete : Completes [.opened, .retry, .line (ascii "event: head\n"),
      .line (ascii "data: \x7b\"slot\":\"1613668853\"\x7d\n")] (ascii "\n") := by
    unfold Completes
    decide +kernel
  cases hnone _ _ [] rfl hcomplete nofun

end EBeacon.Network.SSERelay
