import EBeacon.Library.Folding
import EBeacon.Library.Text
import EBeacon.Network.SSELines

/-!
How the head watcher reads the event stream of an upstream: `subscribe` puts the lines of an event
together and dispatches it at the blank line.
-/

namespace EBeacon.Network

open Chunks Text

def text (l : List UInt8) : String :=
  String.ofList ((l.reverse.dropWhile (fun b => b = cr || b = lf)).reverse.map (fun b => Char.ofNat b.toNat))

namespace HeadWatcher

inductive Topic
  | head
  | headV2
  | finalizedCheckpoint
  | chainReorg
  deriving DecidableEq, Repr

abbrev Event := Topic × String

structure Frame where
  inHeadEvent : Bool := false
  inHeadV2Event : Bool := false
  inFinalizedEvent : Bool := false
  inReorgEvent : Bool := false
  sawEventName : Bool := false
  sawData : Bool := false
  dataPayload : String := ""
  deriving DecidableEq, Repr

namespace Frame

variable (f : Frame)

def collects : Bool :=
  f.inHeadEvent || f.inHeadV2Event || f.inFinalizedEvent || f.inReorgEvent || !f.sawEventName

def dispatchEvent : Option Event :=
  if f.inHeadV2Event then some (.headV2, f.dataPayload)
  else if f.inHeadEvent || !f.sawEventName then some (.head, f.dataPayload)
  else if f.inFinalizedEvent then some (.finalizedCheckpoint, f.dataPayload)
  else if f.inReorgEvent then some (.chainReorg, f.dataPayload)
  else none

def dispatched : Option Event := if f.sawData then f.dispatchEvent else none

def named (eventName : String) : Frame :=
  { f with
    sawEventName := true
    inHeadEvent := equalFold eventName "head"
    inHeadV2Event := equalFold eventName "head_v2"
    inFinalizedEvent := equalFold eventName "finalized_checkpoint"
    inReorgEvent := equalFold eventName "chain_reorg" }

def collect (payload : String) : Frame :=
  if f.collects then
    { f with
      sawData := true
      dataPayload :=
        if f.dataPayload.length + payload.length ≤ sseMaxEventBytes then f.dataPayload ++ payload
        else f.dataPayload }
  else f

def receive (line : String) : Frame × Option Event :=
  if hasPrefix line "event:" then (f.named (trimSpace (trimPrefix line "event:")), none)
  else if hasPrefix line "data:" then (f.collect (trimSpace (trimPrefix line "data:")), none)
  else if line = "" then ({}, f.dispatched)
  else (f, none)

def subscribe : Frame → List SSELine → List Event
  | _, [] => []
  | f, rr :: lines =>
    let (f, e) := if rr.line ≠ [] then f.receive (text rr.line) else (f, none)
    e.toList ++ if rr.err.isSome then f.dispatched.toList else subscribe f lines

end Frame

def events (b : EventBody) : List Event := Frame.subscribe {} (readSSELines b)

end HeadWatcher

section Reading

variable {b : EventBody} {l rest : List UInt8}

theorem cappedLoop_frame (max : ℕ) (n : ℕ) (sb : List UInt8) (b : EventBody) :
    (cappedLoop max n sb b).2 = { b with bytes := (cappedLoop max n sb b).2.bytes } := by
  induction n generalizing sb b with
  | zero => rfl
  | succ n ih =>
    unfold cappedLoop
    rcases readSlice_cases b with ⟨body, rest, -, -, hslice⟩ | ⟨chunk, rest, -, -, -, hslice⟩ | ⟨-, hslice⟩
    · rw [hslice]
    · rw [hslice]
      dsimp only
      split_ifs
      · rfl
      · exact ih _ { b with bytes := rest }
    · rw [hslice]

theorem readCappedLine_line (hl : IsLine l) (hmax : l.length ≤ sseMaxEventBytes) (hb : b.bytes = l ++ rest) :
    readCappedLine sseMaxEventBytes b = (⟨l, none⟩, { b with bytes := rest }) := by
  have hread := readLine_cappedLoop sseMaxEventBytes (Nat.lt_succ_self b.bytes.length) List.not_mem_nil
  have hframe := cappedLoop_frame sseMaxEventBytes (b.bytes.length + 1) [] b
  have hchunks : (chunks isLF (l ++ rest)).1 = l :: (chunks isLF rest).1 := by
    rw [chunks_append, chunks_of_isChunk hl]
    rfl
  unfold readCappedLine
  generalize cappedLoop sseMaxEventBytes (b.bytes.length + 1) [] b = out at hread hframe
  obtain ⟨⟨l', err⟩, b'⟩ := out
  rw [List.nil_append, hb] at hread
  rcases hread with ⟨hl', herr, hbytes, -⟩ | ⟨hnone, -⟩ | ⟨hnone, -, hlong, hbytes⟩
  · dsimp only at hl' herr hbytes hframe
    have hsame := hchunks
    rw [hbytes, chunks_append, chunks_of_isChunk hl'] at hsame
    have hline : l' = l := (List.cons.inj hsame).1
    rw [hline, List.append_cancel_left_eq] at hbytes
    rw [herr, hline, hframe, ← hbytes]
  · obtain ⟨body, a, rfl, ha, -⟩ := hl
    refine absurd ?_ hnone
    rw [← of_decide_eq_true ha]
    simp
  · dsimp only at hnone hlong hbytes
    rw [hbytes] at hchunks
    have hle := SSERelay.length_le_first_line (Or.inr hnone) hchunks
    omega

theorem linesLoop_fuel {n m : ℕ} (hn : b.bytes.length < n) (hm : b.bytes.length < m) :
    linesLoop sseMaxEventBytes n b = linesLoop sseMaxEventBytes m b := by
  induction n generalizing m b with
  | zero => cases hn
  | succ n ih =>
    cases m with
    | zero => cases hm
    | succ m =>
      have hread := readLine_cappedLoop sseMaxEventBytes (Nat.lt_succ_self b.bytes.length) List.not_mem_nil
      unfold linesLoop readCappedLine
      generalize cappedLoop sseMaxEventBytes (b.bytes.length + 1) [] b = out at hread
      obtain ⟨⟨l, err⟩, b'⟩ := out
      rcases hread with ⟨hl, herr, hbytes, -⟩ | ⟨-, hout⟩ | ⟨-, herr, -⟩
      · dsimp only at hl herr hbytes
        have hpos := List.length_pos_iff.mpr (IsChunk.ne_nil hl)
        rw [List.nil_append] at hbytes
        rw [hbytes, List.length_append] at hn hm
        have hrest : linesLoop sseMaxEventBytes n b' = linesLoop sseMaxEventBytes m b' := ih (by omega) (by omega)
        dsimp only
        rw [hrest]
      · cases hout
        rfl
      · dsimp only at herr
        rw [herr]
        rfl

theorem readSSELines_line (hl : IsLine l) (hmax : l.length ≤ sseMaxEventBytes) (hb : b.bytes = l ++ rest) :
    readSSELines b = ⟨l, none⟩ :: readSSELines { b with bytes := rest } := by
  have hpos := List.length_pos_iff.mpr (IsChunk.ne_nil hl)
  unfold readSSELines
  rw [linesLoop, readCappedLine_line hl hmax hb]
  dsimp only
  rw [if_neg (by simp)]
  congr 1
  apply linesLoop_fuel
  · dsimp only
    rw [hb, List.length_append]
    omega
  · exact Nat.lt_succ_self _

theorem readSSELines_lines {lines : List (List UInt8)} (hlines : ∀ l ∈ lines, IsLine l ∧ l.length ≤ sseMaxEventBytes)
    (hb : b.bytes = lines.flatten ++ rest) :
    readSSELines b = lines.map (fun l => ⟨l, none⟩) ++ readSSELines { b with bytes := rest } := by
  induction lines generalizing b with
  | nil =>
    obtain ⟨bytes, eof, together⟩ := b
    rw [List.flatten_nil, List.nil_append] at hb
    cases hb
    rfl
  | cons l lines ih =>
    obtain ⟨hl, hmax⟩ := hlines l List.mem_cons_self
    rw [List.flatten_cons, List.append_assoc] at hb
    rw [readSSELines_line hl hmax hb, ih (fun l hl => hlines l (List.mem_cons_of_mem _ hl)) rfl]
    rfl

end Reading

namespace HeadWatcher

structure Reads (l : List UInt8) (s : String) : Prop where
  isLine : IsLine l
  short : l.length ≤ sseMaxEventBytes
  text : text l = s

def topic (name : String) : Option Topic :=
  if equalFold name "head" then some .head
  else if equalFold name "head_v2" then some .headV2
  else if equalFold name "finalized_checkpoint" then some .finalizedCheckpoint
  else if equalFold name "chain_reorg" then some .chainReorg
  else none

structure Message where
  name : Option String
  pieces : List String

namespace Message

def data (m : Message) : String := m.pieces.foldr (· ++ ·) ""

def reading (m : Message) : Option Event :=
  if m.pieces = [] then none else (m.name.elim (some .head) topic).map (·, m.data)

inductive Fields : Option String → List String → List (List UInt8) → Prop
  | nil : Fields none [] []
  | name {l : List UInt8} {lines : List (List UInt8)} {pieces : List String} (raw : String)
      (hl : Reads l ("event:" ++ raw)) (h : Fields none pieces lines) :
      Fields (some (trimSpace raw)) pieces (l :: lines)
  | data {l : List UInt8} {lines : List (List UInt8)} {name : Option String} {pieces : List String} (raw : String)
      (hl : Reads l ("data:" ++ raw)) (h : Fields name pieces lines) :
      Fields name (trimSpace raw :: pieces) (l :: lines)
  | other {l : List UInt8} {lines : List (List UInt8)} {name : Option String} {pieces : List String} {s : String}
      (hl : Reads l s) (hs : s ≠ "") (hname : hasPrefix s "event:" = false) (hdata : hasPrefix s "data:" = false)
      (h : Fields name pieces lines) : Fields name pieces (l :: lines)

structure Announced (m : Message) (lines : List (List UInt8)) : Prop where
  fields : ∃ body blank, lines = body ++ [blank] ∧ Fields m.name m.pieces body ∧ Reads blank ""
  short : m.data.length ≤ sseMaxEventBytes

end Message

namespace Frame

variable {f : Frame} {l : List UInt8} {s : String} {lines : List (List UInt8)} {pieces : List String}

def unfailing (lines : List (List UInt8)) : List SSELine := lines.map (fun l => ⟨l, none⟩)

theorem subscribe_line (rest : List SSELine) (hl : Reads l s) :
    f.subscribe (⟨l, none⟩ :: rest) = (f.receive s).2.toList ++ (f.receive s).1.subscribe rest := by
  have hne : l ≠ [] := IsChunk.ne_nil hl.isLine
  rw [subscribe]
  dsimp only
  rw [if_pos hne, hl.text, if_neg (by simp)]

theorem subscribe_received (rest : List SSELine) {f' : Frame} (hl : Reads l s) (hs : f.receive s = (f', none)) :
    f.subscribe (⟨l, none⟩ :: rest) = f'.subscribe rest := by
  rw [subscribe_line rest hl, hs]
  rfl

theorem receive_name (f : Frame) (raw : String) :
    f.receive ("event:" ++ raw) = (f.named (trimSpace raw), none) := by
  unfold receive
  rw [if_pos (hasPrefix_append _ _), trimPrefix_append]

theorem receive_data (f : Frame) (raw : String) :
    f.receive ("data:" ++ raw) = (f.collect (trimSpace raw), none) := by
  have hother : hasPrefix ("data:" ++ raw) "event:" = false := by
    unfold hasPrefix
    rw [String.toList_append]
    rfl
  unfold receive
  rw [if_neg (by rw [hother]; simp), if_pos (hasPrefix_append _ _), trimPrefix_append]

theorem receive_other (hs : s ≠ "") (hname : hasPrefix s "event:" = false) (hdata : hasPrefix s "data:" = false) :
    f.receive s = (f, none) := by
  unfold receive
  rw [if_neg (by rw [hname]; simp), if_neg (by rw [hdata]; simp), if_neg hs]

theorem receive_blank (f : Frame) : f.receive "" = ({}, f.dispatched) := by
  unfold receive
  rw [if_neg (by decide), if_neg (by decide), if_pos rfl]

def gathered (f : Frame) (pieces : List String) : Frame :=
  { f with sawData := f.sawData || !pieces.isEmpty, dataPayload := f.dataPayload ++ pieces.foldr (· ++ ·) "" }

theorem gathered_nil (f : Frame) : f.gathered [] = f := by simp [gathered]

theorem gathered_cons (f : Frame) (piece : String) (pieces : List String) :
    (f.gathered [piece]).gathered pieces = f.gathered (piece :: pieces) := by
  simp [gathered, String.append_assoc]

theorem collect_eq_gathered {piece : String} (hc : f.collects = true)
    (hshort : f.dataPayload.length + piece.length ≤ sseMaxEventBytes) : f.collect piece = f.gathered [piece] := by
  unfold collect
  rw [if_pos hc, if_pos hshort]
  simp [gathered]

theorem collects_named (f : Frame) (name : String) : (f.named name).collects = (topic name).isSome := by
  unfold named collects topic
  dsimp only
  cases equalFold name "head" <;> cases equalFold name "head_v2" <;>
    cases equalFold name "finalized_checkpoint" <;> cases equalFold name "chain_reorg" <;> rfl

theorem dispatchEvent_named (f : Frame) (name : String) :
    (f.named name).dispatchEvent = (topic name).map (·, f.dataPayload) := by
  -- a name folds to at most one of the four
  have hexclusive : equalFold name "head" = true → equalFold name "head_v2" = false := by
    unfold equalFold
    intro h
    rw [of_decide_eq_true h]
    decide
  unfold named dispatchEvent topic
  dsimp only
  cases hhead : equalFold name "head" with
  | true =>
    rw [hexclusive hhead]
    rfl
  | false =>
    cases equalFold name "head_v2" <;> cases equalFold name "finalized_checkpoint" <;>
      cases equalFold name "chain_reorg" <;> rfl

theorem dispatched_named (f : Frame) (name : String) :
    (f.named name).dispatched = if f.sawData then (topic name).map (·, f.dataPayload) else none := by
  rw [dispatched, dispatchEvent_named]
  rfl

theorem gathered_named (f : Frame) (name : String) (pieces : List String) :
    (f.named name).gathered pieces = (f.gathered pieces).named name := rfl

theorem dataPayload_named (f : Frame) (name : String) : (f.named name).dataPayload = f.dataPayload := rfl

theorem subscribe_pieces (rest : List SSELine) {name : Option String} (h : Message.Fields name pieces lines)
    (hname : name = none) (hc : f.collects = true) (hshort : (f.gathered pieces).dataPayload.length ≤ sseMaxEventBytes) :
    f.subscribe (unfailing lines ++ rest) = (f.gathered pieces).subscribe rest := by
  induction h generalizing f with
  | nil => rw [gathered_nil]; rfl
  | name raw hl h ih => cases hname
  | @data l lines name pieces raw hl h ih =>
    have hfits : f.dataPayload.length + (trimSpace raw).length ≤ sseMaxEventBytes := by
      simp only [gathered, List.foldr_cons, String.length_append] at hshort
      omega
    have hcollected := receive_data f raw
    rw [collect_eq_gathered hc hfits] at hcollected
    have hstep := subscribe_received (unfailing lines ++ rest) hl hcollected
    rw [← gathered_cons] at hshort ⊢
    exact hstep.trans (ih hname hc hshort)
  | @other l lines name pieces s hl hs hevent hdata h ih =>
    have hstep := subscribe_received (f := f) (unfailing lines ++ rest) hl (receive_other hs hevent hdata)
    exact hstep.trans (ih hname hc hshort)

theorem subscribe_unwatched (rest : List SSELine) {name : Option String} (h : Message.Fields name pieces lines)
    (hname : name = none) (hc : f.collects = false) : f.subscribe (unfailing lines ++ rest) = f.subscribe rest := by
  induction h with
  | nil => rfl
  | name raw hl h ih => cases hname
  | @data l lines name pieces raw hl h ih =>
    have hskipped := receive_data f raw
    rw [collect, hc] at hskipped
    have hstep := subscribe_received (unfailing lines ++ rest) hl hskipped
    exact hstep.trans (ih hname)
  | @other l lines name pieces s hl hs hevent hdata h ih =>
    have hstep := subscribe_received (f := f) (unfailing lines ++ rest) hl (receive_other hs hevent hdata)
    exact hstep.trans (ih hname)

theorem subscribe_fields (rest : List SSELine) {name : Option String} {n : String}
    (h : Message.Fields name pieces lines) (hname : name = some n) (hf : f.sawEventName = false)
    (hshort : (f.gathered pieces).dataPayload.length ≤ sseMaxEventBytes) :
    ∃ f' : Frame, f.subscribe (unfailing lines ++ rest) = f'.subscribe rest ∧
      f'.dispatched = if (f.gathered pieces).sawData then (topic n).map (·, (f.gathered pieces).dataPayload) else none := by
  induction h generalizing f with
  | nil => cases hname
  | @name l lines pieces raw hl h ih =>
    cases hname
    have hstep := subscribe_received (unfailing lines ++ rest) hl (receive_name f raw)
    cases hc : (f.named (trimSpace raw)).collects with
    | true =>
      rw [← dataPayload_named (f.gathered pieces) (trimSpace raw), ← gathered_named] at hshort
      have hpieces := subscribe_pieces rest h rfl hc hshort
      rw [gathered_named] at hpieces
      exact ⟨_, hstep.trans hpieces, dispatched_named _ _⟩
    | false =>
      have hskipped := subscribe_unwatched rest h rfl hc
      rw [collects_named, Option.isSome_eq_false_iff, Option.isNone_iff_eq_none] at hc
      refine ⟨_, hstep.trans hskipped, ?_⟩
      rw [dispatched_named, hc, Option.map_none, Option.map_none, ite_self, ite_self]
  | @data l lines name pieces raw hl h ih =>
    have hfits : f.dataPayload.length + (trimSpace raw).length ≤ sseMaxEventBytes := by
      simp only [gathered, List.foldr_cons, String.length_append] at hshort
      omega
    have hc : f.collects = true := by simp [collects, hf]
    have hcollected := receive_data f raw
    rw [collect_eq_gathered hc hfits] at hcollected
    have hstep := subscribe_received (unfailing lines ++ rest) hl hcollected
    rw [← gathered_cons] at hshort ⊢
    obtain ⟨f', hrest, hdispatched⟩ := ih (f := f.gathered [trimSpace raw]) hname hf hshort
    exact ⟨f', hstep.trans hrest, hdispatched⟩
  | @other l lines name pieces s hl hs hevent hdata h ih =>
    have hstep := subscribe_received (f := f) (unfailing lines ++ rest) hl (receive_other hs hevent hdata)
    obtain ⟨f', hrest, hdispatched⟩ := ih hname hf hshort
    exact ⟨f', hstep.trans hrest, hdispatched⟩

theorem subscribe_announced (rest : List SSELine) {m : Message} (h : m.Announced lines) :
    subscribe {} (unfailing lines ++ rest) = m.reading.toList ++ subscribe {} rest := by
  obtain ⟨⟨body, blank, rfl, hfields, hblank⟩, hshort⟩ := h
  have hdata : (gathered {} m.pieces).dataPayload = m.data := String.empty_append
  have hsaw : (gathered {} m.pieces).sawData = !m.pieces.isEmpty := Bool.false_or _
  have hsplit : unfailing (body ++ [blank]) ++ rest = unfailing body ++ (⟨blank, none⟩ :: rest) := by
    simp [unfailing]
  have hend : ∀ f' : Frame, f'.dispatched = m.reading →
      f'.subscribe (⟨blank, none⟩ :: rest) = m.reading.toList ++ subscribe {} rest := by
    intro f' hf'
    rw [subscribe_line rest hblank, receive_blank, hf']
  rw [hsplit]
  cases hname : m.name with
  | none =>
    rw [hname] at hfields
    rw [subscribe_pieces _ hfields rfl rfl (hdata ▸ hshort)]
    apply hend
    have hevent : (gathered {} m.pieces).dispatchEvent = some (.head, (gathered {} m.pieces).dataPayload) := rfl
    rw [dispatched, hevent, hsaw, hdata]
    unfold Message.reading
    rw [hname]
    cases m.pieces <;> rfl
  | some n =>
    rw [hname] at hfields
    obtain ⟨f', hrest, hf'⟩ := subscribe_fields (f := {}) (⟨blank, none⟩ :: rest) hfields rfl rfl (hdata ▸ hshort)
    rw [hrest]
    apply hend
    rw [hf', hsaw, hdata]
    unfold Message.reading
    rw [hname]
    cases m.pieces <;> simp

theorem subscribe_announcements (rest : List SSELine) {messages : List Message} {groups : List (List (List UInt8))}
    (h : List.Forall₂ Message.Announced messages groups) :
    subscribe {} (unfailing groups.flatten ++ rest) = messages.filterMap Message.reading ++ subscribe {} rest := by
  induction h with
  | nil => rfl
  | @cons m lines messages groups hm h ih =>
    have hsplit : unfailing (lines :: groups).flatten ++ rest =
        unfailing lines ++ (unfailing groups.flatten ++ rest) := by simp [unfailing]
    rw [hsplit, subscribe_announced _ hm, ih, ← List.append_assoc]
    congr 1
    cases hreading : m.reading <;> simp [hreading]

theorem subscribe_blank (rest : List SSELine) {blank : List UInt8} (hlines : ∀ l ∈ lines, IsLine l) (hblank : Reads blank "") :
    f.subscribe (unfailing (lines ++ [blank]) ++ rest) =
      f.subscribe (unfailing (lines ++ [blank])) ++ subscribe {} rest := by
  induction lines generalizing f with
  | nil =>
    have hall := subscribe_line (f := f) rest hblank
    have hend := subscribe_line (f := f) [] hblank
    rw [receive_blank] at hall hend
    change f.subscribe (⟨blank, none⟩ :: rest) = f.subscribe [⟨blank, none⟩] ++ subscribe {} rest
    rw [hall, hend]
    simp [subscribe]
  | cons l lines ih =>
    have hne : l ≠ [] := IsChunk.ne_nil (hlines l List.mem_cons_self)
    have hrest := ih (f := (f.receive (text l)).1) fun l hl => hlines l (List.mem_cons_of_mem _ hl)
    have hcons : ∀ more, f.subscribe (⟨l, none⟩ :: more) =
        (f.receive (text l)).2.toList ++ (f.receive (text l)).1.subscribe more := by
      intro more
      rw [subscribe]
      dsimp only
      rw [if_pos hne, if_neg (by simp)]
    change f.subscribe (⟨l, none⟩ :: (unfailing (lines ++ [blank]) ++ rest)) =
      f.subscribe (⟨l, none⟩ :: unfailing (lines ++ [blank])) ++ subscribe {} rest
    rw [hcons, hcons, hrest, List.append_assoc]

end Frame

section Stream

variable {before : List (List UInt8)} {blank : List UInt8} {messages : List Message}
  {groups : List (List (List UInt8))}

theorem events_nil (eof together : Bool) : events ⟨[], eof, together⟩ = [] := by
  cases eof <;> cases together <;> rfl

theorem Message.Fields.reads {name : Option String} {pieces : List String} {lines : List (List UInt8)}
    (h : Message.Fields name pieces lines) : ∀ l ∈ lines, IsLine l ∧ l.length ≤ sseMaxEventBytes := by
  induction h with
  | nil => simp
  | name raw hl h ih => exact List.forall_mem_cons.mpr ⟨⟨hl.isLine, hl.short⟩, ih⟩
  | data raw hl h ih => exact List.forall_mem_cons.mpr ⟨⟨hl.isLine, hl.short⟩, ih⟩
  | other hl hs hname hdata h ih => exact List.forall_mem_cons.mpr ⟨⟨hl.isLine, hl.short⟩, ih⟩

theorem reads_of_announced (h : List.Forall₂ Message.Announced messages groups) :
    ∀ l ∈ groups.flatten, IsLine l ∧ l.length ≤ sseMaxEventBytes := by
  induction h with
  | nil => simp
  | @cons m lines messages groups hm h ih =>
    obtain ⟨⟨body, blank, rfl, hfields, hblank⟩, -⟩ := hm
    intro l hl
    simp only [List.flatten_cons, List.append_assoc, List.mem_append, List.mem_singleton] at hl
    rcases hl with hl | rfl | hl
    · exact hfields.reads l hl
    · exact ⟨hblank.isLine, hblank.short⟩
    · exact ih l hl

theorem events_before (hbefore : ∀ l ∈ before, IsLine l ∧ l.length ≤ sseMaxEventBytes) (hblank : Reads blank "")
    (bytes : List UInt8) (eof together : Bool) :
    events ⟨before.flatten ++ blank ++ bytes, eof, together⟩ =
      Frame.subscribe {} (Frame.unfailing (before ++ [blank])) ++ events ⟨bytes, eof, together⟩ := by
  have hfront : ∀ l ∈ before ++ [blank], IsLine l ∧ l.length ≤ sseMaxEventBytes := by
    intro l hl
    rcases List.mem_append.mp hl with hl | hl
    · exact hbefore l hl
    · rw [List.mem_singleton.mp hl]
      exact ⟨hblank.isLine, hblank.short⟩
  have hbytes : before.flatten ++ blank ++ bytes = (before ++ [blank]).flatten ++ bytes := by simp
  unfold events
  rw [readSSELines_lines (b := ⟨before.flatten ++ blank ++ bytes, eof, together⟩) hfront hbytes]
  exact Frame.subscribe_blank _ (fun l hl => (hbefore l hl).1) hblank

theorem events_groups (h : List.Forall₂ Message.Announced messages groups) (rest : List UInt8) (eof together : Bool) :
    events ⟨groups.flatten.flatten ++ rest, eof, together⟩ =
      messages.filterMap Message.reading ++ events ⟨rest, eof, together⟩ := by
  unfold events
  rw [readSSELines_lines (b := ⟨groups.flatten.flatten ++ rest, eof, together⟩) (reads_of_announced h) rfl]
  exact Frame.subscribe_announcements _ h

/-- Whatever lines come before a blank one, the events that are announced after it are dispatched once each and in
their order, and what follows is read as if it came first. -/
theorem events_announced (hbefore : ∀ l ∈ before, IsLine l ∧ l.length ≤ sseMaxEventBytes) (hblank : Reads blank "")
    (h : List.Forall₂ Message.Announced messages groups) (rest : List UInt8) (eof together : Bool) :
    events ⟨before.flatten ++ blank ++ groups.flatten.flatten ++ rest, eof, together⟩ =
      events ⟨before.flatten ++ blank, eof, together⟩ ++ messages.filterMap Message.reading ++
        events ⟨rest, eof, together⟩ := by
  have halone := events_before hbefore hblank [] eof together
  rw [List.append_nil, events_nil, List.append_nil] at halone
  rw [List.append_assoc (before.flatten ++ blank), events_before hbefore hblank, events_groups h, halone,
    List.append_assoc]

inductive Begins : List UInt8 → Prop
  | start : Begins []
  | blank {before : List (List UInt8)} {blank : List UInt8}
      (hbefore : ∀ l ∈ before, IsLine l ∧ l.length ≤ sseMaxEventBytes) (hblank : Reads blank "") :
      Begins (before.flatten ++ blank)

theorem Begins.mem_events {front : List UInt8} (hfront : Begins front)
    (h : List.Forall₂ Message.Announced messages groups) (rest : List UInt8) (eof together : Bool) {m : Message}
    (hm : m ∈ messages) {e : Event} (he : m.reading = some e) :
    e ∈ events ⟨front ++ groups.flatten.flatten ++ rest, eof, together⟩ := by
  have hgroups : e ∈ events ⟨groups.flatten.flatten ++ rest, eof, together⟩ := by
    rw [events_groups h]
    exact List.mem_append_left _ (List.mem_filterMap.mpr ⟨m, hm, he⟩)
  cases hfront with
  | start => exact hgroups
  | blank hbefore hblank =>
    rw [List.append_assoc, events_before hbefore hblank]
    exact List.mem_append_right _ hgroups

def wire (s : String) : List UInt8 := s.toList.map (fun c => UInt8.ofNat c.toNat) ++ [lf]

def headLines : List (List UInt8) :=
  [wire "event: Head\r", wire ": ping\r", wire "data: \x7b\r", wire "data:\x7d\r", wire "\r"]

theorem announced_headLines : Message.Announced ⟨some "Head", ["\x7b", "\x7d"]⟩ headLines := by
  refine ⟨⟨_, wire "\r", (List.dropLast_append_getLast (by decide)).symm, ?_, isLine_concat (by decide), by decide,
    by decide⟩, by decide⟩
  apply Message.Fields.name " Head" ⟨isLine_concat (by decide), by decide, by decide⟩
  apply Message.Fields.other (s := ": ping") ⟨isLine_concat (by decide), by decide, by decide⟩
    (by decide) (by decide) (by decide)
  apply Message.Fields.data " \x7b" ⟨isLine_concat (by decide), by decide, by decide⟩
  apply Message.Fields.data "\x7d" ⟨isLine_concat (by decide), by decide, by decide⟩
  exact .nil

theorem reads_blank : Reads (wire "") "" := ⟨isLine_concat (by decide), by decide, by decide⟩

theorem isLine_joined : ∀ l ∈ [wire "data: 2\x7d"], IsLine l ∧ l.length ≤ sseMaxEventBytes := by
  intro l hl
  rw [List.mem_singleton.mp hl]
  exact ⟨isLine_concat (by decide), by decide⟩

theorem events_announced_joined :
    events ⟨[wire "data: 2\x7d"].flatten ++ wire "" ++ [headLines].flatten.flatten ++ [], true, false⟩ =
      events ⟨[wire "data: 2\x7d"].flatten ++ wire "", true, false⟩ ++ [(.head, "\x7b\x7d")] ++
        events ⟨[], true, false⟩ :=
  events_announced isLine_joined reads_blank (List.Forall₂.cons announced_headLines .nil) [] true false

end Stream

end HeadWatcher

end EBeacon.Network
