import EBeacon.Library.Chunks
import EBeacon.Network.SSE

/-!
How the bytes of an upstream become frames: the reader cuts them into lines, and `stream` puts the
lines together until a blank one.
-/

namespace EBeacon.Network

open Chunks

def isLF (b : UInt8) : Bool := b = lf

def IsLine (l : List UInt8) : Prop := IsChunk isLF l

-- what the reader sends for the bytes that are left: lines, and at last an unterminated one with the error;
-- a line that is too long is cut
inductive Feed (eof : Bool) : List UInt8 → List SSELine → Prop
  | line {l bytes : List UInt8} {lines : List SSELine} (hl : IsLine l) (h : Feed eof bytes lines) :
      Feed eof (l ++ bytes) (⟨l, none⟩ :: lines)
  | ended {l : List UInt8} (hl : lf ∉ l) : Feed eof l [⟨l, some (if eof then .eof else .broken)⟩]
  | tooLong {l bytes : List UInt8} (hl : lf ∉ l) (hmax : sseMaxEventBytes < l.length) :
      Feed eof (l ++ bytes) [⟨l, some .tooLong⟩]

section Reading

theorem isLF_of_notMem {l : List UInt8} (h : lf ∉ l) : ∀ x ∈ l, isLF x = false := by
  intro x hx
  refine decide_eq_false ?_
  rintro rfl
  exact h hx

theorem isLine_concat {l : List UInt8} (h : lf ∉ l) : IsLine (l ++ [lf]) := ⟨l, lf, rfl, rfl, isLF_of_notMem h⟩

theorem readSlice_cases (b : EventBody) :
    (∃ body rest, lf ∉ body ∧ b.bytes = body ++ lf :: rest ∧
      readSlice b = (body ++ [lf], none, { b with bytes := rest })) ∨
    (∃ chunk rest, lf ∉ chunk ∧ chunk ≠ [] ∧ b.bytes = chunk ++ rest ∧
      readSlice b = (chunk, some .bufferFull, { b with bytes := rest })) ∨
    (lf ∉ b.bytes ∧ readSlice b = (b.bytes, some .ended, { b with bytes := [] })) := by
  unfold readSlice
  dsimp only
  by_cases hmem : lf ∈ b.bytes.take readerSize
  · left
    rw [if_pos hmem]
    obtain ⟨body, rest, hwindow, hbody⟩ := List.eq_append_cons_of_mem hmem
    have hidx : (b.bytes.take readerSize).idxOf lf = body.length := by
      rw [hwindow, List.idxOf_append_of_notMem hbody]
      simp
    obtain ⟨more, hbytes⟩ : ∃ more, b.bytes = (body ++ [lf]) ++ more := by
      refine ⟨rest ++ b.bytes.drop readerSize, ?_⟩
      conv_lhs => rw [← List.take_append_drop readerSize b.bytes, hwindow]
      simp
    have hlength : body.length + 1 = (body ++ [lf]).length := by simp
    refine ⟨body, more, hbody, by rw [hbytes]; simp, ?_⟩
    rw [hidx, hlength, hbytes, List.take_left, List.drop_left]
  · rw [if_neg hmem]
    right
    split_ifs with hfull
    · left
      refine ⟨b.bytes.take readerSize, b.bytes.drop readerSize, hmem, ?_, (List.take_append_drop _ _).symm, rfl⟩
      have hpos : 0 < b.bytes.length := by
        have : readerSize = 4096 := rfl
        omega
      rw [ne_eq, List.take_eq_nil_iff, not_or]
      exact ⟨by decide, List.length_pos_iff.mp hpos⟩
    · right
      refine ⟨?_, rfl⟩
      rwa [List.take_of_length_le (by omega)] at hmem

def ReadLine (max : ℕ) (eof : Bool) (bytes : List UInt8) (out : SSELine × EventBody) : Prop :=
  (IsLine out.1.line ∧ out.1.err = none ∧ bytes = out.1.line ++ out.2.bytes ∧ out.2.eof = eof) ∨
    (lf ∉ bytes ∧ out.1 = ⟨bytes, some (if eof then .eof else .broken)⟩) ∨
    (lf ∉ out.1.line ∧ out.1.err = some .tooLong ∧ max < out.1.line.length ∧
      bytes = out.1.line ++ out.2.bytes)

theorem readLine_cappedLoop (max : ℕ) {n : ℕ} {sb : List UInt8} {b : EventBody} (hn : b.bytes.length < n)
    (hsb : lf ∉ sb) : ReadLine max b.eof (sb ++ b.bytes) (cappedLoop max n sb b) := by
  induction n generalizing sb b with
  | zero => cases hn
  | succ n ih =>
    unfold cappedLoop
    -- a newline ends the line, a full buffer takes bytes off the body, and the body's end ends the loop
    rcases readSlice_cases b with ⟨body, rest, hbody, hbytes, hslice⟩ |
      ⟨chunk, rest, hchunk, hne, hbytes, hslice⟩ | ⟨hnone, hslice⟩
    · rw [hslice]
      have hline : lf ∉ sb ++ body := by simp [hsb, hbody]
      have hisLine := isLine_concat hline
      rw [List.append_assoc] at hisLine
      exact Or.inl ⟨hisLine, rfl, by rw [hbytes]; simp, rfl⟩
    · rw [hslice]
      dsimp only
      have hline : lf ∉ sb ++ chunk := by simp [hsb, hchunk]
      split_ifs with hmax
      · exact Or.inr (Or.inr ⟨hline, rfl, hmax, by rw [hbytes]; simp⟩)
      · have hshort : rest.length < n := by
          have hpos := List.length_pos_iff.mpr hne
          rw [hbytes, List.length_append] at hn
          omega
        have hnext := @ih (sb ++ chunk) { b with bytes := rest } hshort hline
        rwa [List.append_assoc, ← hbytes] at hnext
    · rw [hslice]
      exact Or.inr (Or.inl ⟨by simp [hsb, hnone], rfl⟩)

theorem feed_linesLoop {n : ℕ} {b : EventBody} (hn : b.bytes.length < n) :
    Feed b.eof b.bytes (linesLoop sseMaxEventBytes n b) := by
  induction n generalizing b with
  | zero => cases hn
  | succ n ih =>
    have hread := readLine_cappedLoop sseMaxEventBytes (Nat.lt_succ_self b.bytes.length) List.not_mem_nil
    unfold linesLoop readCappedLine
    generalize cappedLoop sseMaxEventBytes (b.bytes.length + 1) [] b = out at hread
    obtain ⟨⟨l, err⟩, rest⟩ := out
    rcases hread with ⟨hl, herr, hbytes, heof⟩ | ⟨hnone, hout⟩ | ⟨hnone, herr, hmax, hbytes⟩
    · have herr : err = none := herr
      have hbytes : b.bytes = l ++ rest.bytes := hbytes
      have hshort : rest.bytes.length < n := by
        have hpos := List.length_pos_iff.mpr (IsChunk.ne_nil hl)
        rw [hbytes, List.length_append] at hn
        dsimp only at hpos
        omega
      have hnext := ih hshort
      rw [heof] at hnext
      rw [herr, hbytes]
      exact .line hl hnext
    · cases hout
      exact .ended hnone
    · have herr : err = some .tooLong := herr
      have hbytes : b.bytes = l ++ rest.bytes := hbytes
      rw [herr, hbytes]
      exact .tooLong hnone hmax

theorem feed_readSSELines (b : EventBody) : Feed b.eof b.bytes (readSSELines b) :=
  feed_linesLoop (Nat.lt_succ_self _)

end Reading

namespace SSERelay

def eventFrames (bytes : List UInt8) : List (List UInt8) × List UInt8 :=
  let lines := chunks isLF bytes
  let groups := chunks isTerminator lines.1
  (groups.1.map List.flatten, groups.2.flatten ++ lines.2)

def isField (l : List UInt8) : Bool := l ≠ [] && !isTerminator l && l.head? ≠ some colon

def hasField (bytes : List UInt8) : Bool :=
  ((chunks isLF bytes).1 ++ [(chunks isLF bytes).2]).any isField

def AtLine (bytes : List UInt8) : Prop := (chunks isLF bytes).2 = []

section Frames

variable {read l rest : List UInt8}

theorem atLine_nil : AtLine [] := rfl

theorem AtLine.append (h : AtLine read) (hl : IsLine l) : AtLine (read ++ l) := by
  unfold AtLine
  rw [chunks_append_chunk h hl]

theorem AtLine.rest_eq (h : AtLine read) :
    (eventFrames read).2 = (chunks isTerminator (chunks isLF read).1).2.flatten := by
  unfold eventFrames
  dsimp only
  rw [h, List.append_nil]

theorem eventFrames_line (h : AtLine read) (hl : IsLine l) :
    eventFrames (read ++ l) = if isTerminator l then ((eventFrames read).1 ++ [(eventFrames read).2 ++ l], [])
      else ((eventFrames read).1, (eventFrames read).2 ++ l) := by
  rw [h.rest_eq]
  unfold eventFrames
  dsimp only
  rw [chunks_append_chunk h hl]
  dsimp only
  rw [chunks_concat, cut]
  split_ifs
  · simp
  · simp

theorem eventFrames_last (h : AtLine read) (hl : lf ∉ l) :
    eventFrames (read ++ l) = ((eventFrames read).1, (eventFrames read).2 ++ l) := by
  rw [h.rest_eq]
  unfold eventFrames
  dsimp only
  rw [chunks_append_none h (isLF_of_notMem hl)]

theorem length_le_first_line {x : List UInt8} {xs : List (List UInt8)} (hl : IsLine l ∨ lf ∉ l)
    (h : (chunks isLF (l ++ rest)).1 = x :: xs) : l.length ≤ x.length := by
  rcases hl with hl | hl
  · rw [chunks_append, chunks_of_isChunk hl] at h
    rw [← (List.cons.inj h).1]
  · cases rest with
    | nil =>
      rw [List.append_nil, chunks_of_none (isLF_of_notMem hl)] at h
      cases h
    | cons b rest =>
      obtain ⟨more, rfl⟩ := append_of_first (isLF_of_notMem hl) h
      simp

theorem eventFrames_append (h : AtLine read) (hl : IsLine l ∨ lf ∉ l) (rest : List UInt8) :
    ∃ more, (eventFrames (read ++ (l ++ rest))).1 = (eventFrames read).1 ++ more ∧
      ∀ f ∈ more.head?, (eventFrames read).2.length + l.length ≤ f.length := by
  have hlines : (chunks isLF (read ++ (l ++ rest))).1 = (chunks isLF read).1 ++ (chunks isLF (l ++ rest)).1 := by
    rw [chunks_append, h]
    rfl
  refine ⟨(chunks isTerminator ((chunks isTerminator (chunks isLF read).1).2 ++
    (chunks isLF (l ++ rest)).1)).1.map List.flatten, ?_, fun f hf => ?_⟩
  · unfold eventFrames
    dsimp only
    rw [hlines, chunks_append, List.map_append]
  · rw [h.rest_eq]
    have hblank := chunks_rest (p := isTerminator) (chunks isLF read).1
    generalize (chunks isTerminator (chunks isLF read).1).2 = front at hf hblank ⊢
    cases hxs : (chunks isLF (l ++ rest)).1 with
    | nil =>
      rw [hxs, List.append_nil, chunks_of_none hblank] at hf
      cases hf
    | cons x xs =>
      rw [hxs] at hf
      cases hcs : (chunks isTerminator (front ++ x :: xs)).1 with
      | nil =>
        rw [hcs] at hf
        cases hf
      | cons c cs =>
        rw [hcs] at hf
        obtain ⟨more, rfl⟩ := append_of_first hblank hcs
        have hlength := length_le_first_line hl hxs
        cases hf
        simp only [List.flatten_append, List.flatten_cons, List.length_append]
        omega

theorem hasField_append (h : AtLine read) (hl : IsLine l ∨ lf ∉ l) :
    hasField (read ++ l) = (hasField read || isField l) := by
  have hnil : isField [] = false := rfl
  unfold hasField
  rw [h]
  rcases hl with hl | hl
  · rw [chunks_append_chunk h hl]
    simp [hnil]
  · rw [chunks_append_none h (isLF_of_notMem hl)]
    simp [hnil]

end Frames

end SSERelay

end EBeacon.Network
