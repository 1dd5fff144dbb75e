import EBeacon.Library.Ring
import EBeacon.Library.Sorting
import Mathlib.Algebra.Order.Ring.Rat
import Mathlib.Data.Rat.Floor

namespace EBeacon.Upstream

open Sorting

structure ScoreSnapshot where
  samples : ℕ
  errorRate : ℚ
  p90Latency : ℤ
  deriving DecidableEq, Repr

structure ScoreTracker where
  windowSize : ℕ
  latencies : List ℤ
  errors : List Bool
  pos : ℕ
  count : ℕ
  snapshot : ScoreSnapshot
  snapshotValid : Bool
  deriving DecidableEq, Repr

namespace ScoreTracker

def defaultedSize (windowSize : ℤ) : ℕ := if windowSize ≤ 0 then 100 else windowSize.toNat

def new (windowSize : ℤ) : ScoreTracker where
  windowSize := defaultedSize windowSize
  latencies := List.replicate (defaultedSize windowSize) 0
  errors := List.replicate (defaultedSize windowSize) false
  pos := 0
  count := 0
  snapshot := ⟨0, 0, 0⟩
  snapshotValid := false

def record (s : ScoreTracker) (d : ℤ) (isErr : Bool) : ScoreTracker :=
  let idx := s.pos % s.windowSize
  { s with
    latencies := s.latencies.set idx d
    errors := s.errors.set idx isErr
    snapshotValid := false
    pos := s.pos + 1
    count := if s.count < s.windowSize then s.count + 1 else s.count }

def recordSuccess (s : ScoreTracker) (d : ℤ) : ScoreTracker := s.record d false

def recordError (s : ScoreTracker) : ScoreTracker := s.record 0 true

def scan (s : ScoreTracker) (n : ℕ) : ℕ × List ℤ :=
  (List.range n).foldl (fun acc i =>
    if s.errors.getD i false then (acc.1 + 1, acc.2)
    else if 0 < s.latencies.getD i 0 then (acc.1, acc.2 ++ [s.latencies.getD i 0])
    else acc) (0, [])

def p90 (successful : List ℤ) : ℤ :=
  let idx := ⌈(successful.length : ℚ) * (9 / 10)⌉ - 1
  let idx := if idx < 0 then 0 else idx
  let idx := if successful.length ≤ idx then (successful.length : ℤ) - 1 else idx
  (stableSort (fun a b => a < b) successful).getD idx.toNat 0

def computeSnapshot (s : ScoreTracker) : ScoreSnapshot :=
  if s.count = 0 then ⟨s.count, 0, 0⟩
  else
    let (errCount, successful) := s.scan s.count
    let errorRate := (errCount : ℚ) / s.count
    ⟨s.count, errorRate, if successful = [] then 0 else p90 successful⟩

def takeSnapshot (s : ScoreTracker) : ScoreSnapshot × ScoreTracker :=
  let s := if s.snapshotValid then s else { s with snapshot := s.computeSnapshot, snapshotValid := true }
  (s.snapshot, s)

inductive Call
  | recordSuccess (d : ℤ)
  | recordError
  | snapshot
  deriving DecidableEq, Repr

def step (s : ScoreTracker) : Call → ScoreTracker
  | .recordSuccess d => s.recordSuccess d
  | .recordError => s.recordError
  | .snapshot => s.takeSnapshot.2

def after (windowSize : ℤ) (calls : List Call) : ScoreTracker := calls.foldl step (new windowSize)

structure Record where
  latency : ℤ
  isErr : Bool
  deriving DecidableEq, Repr

def Call.records : Call → List Record
  | .recordSuccess d => [⟨d, false⟩]
  | .recordError => [⟨0, true⟩]
  | .snapshot => []

def positives (records : List Record) : List ℤ :=
  (records.filter (fun r => !r.isErr && 0 < r.latency)).map Record.latency

def IsP90 (latencies : List ℤ) (x : ℤ) : Prop :=
  if latencies = [] then x = 0 else IsRank latencies ⌈9 / 10 * (latencies.length : ℚ)⌉.toNat x

structure Reports (size : ℕ) (history : List Record) (snapshot : ScoreSnapshot) : Prop where
  samples : snapshot.samples = min history.length size
  errorRate : snapshot.errorRate = ((history.rtake size).countP Record.isErr : ℚ) / snapshot.samples
  p90 : IsP90 (positives (history.rtake size)) snapshot.p90Latency

section Percentile

variable {l l' : List ℤ}

theorem IsP90.perm {x : ℤ} (h : IsP90 l x) (hperm : l.Perm l') : IsP90 l' x := by
  unfold IsP90 at *
  rw [← hperm.length_eq]
  by_cases hnil : l = []
  · subst hnil
    rw [if_pos rfl] at h
    rwa [if_pos hperm.nil_eq.symm]
  · have hnil' : l' ≠ [] := fun h' => hnil (by rw [h'] at hperm; exact hperm.eq_nil)
    rw [if_neg hnil] at h
    rw [if_neg hnil']
    exact h.perm hperm

theorem ninth_bounds {n : ℕ} (hn : 0 < n) :
    1 ≤ ⌈(n : ℚ) * (9 / 10)⌉ ∧ ⌈(n : ℚ) * (9 / 10)⌉ ≤ n := by
  have hpos : (0 : ℚ) < n := by exact_mod_cast hn
  constructor
  · rw [Int.one_le_ceil_iff]
    positivity
  · rw [Int.ceil_le]
    push_cast
    linarith

theorem isRank_p90 (hne : l ≠ []) : IsRank l ⌈(l.length : ℚ) * (9 / 10)⌉.toNat (p90 l) := by
  obtain ⟨hlow, hhigh⟩ := ninth_bounds (List.length_pos_iff.mpr hne)
  have hperm := stableSort_perm (fun a b => decide (a < b)) l
  have hsorted : (stableSort (fun a b => decide (a < b)) l).Pairwise (fun a b => a ≤ b) :=
    stableSort_ranked id (fun a b h => decide_eq_true h) (fun a b h => decide_eq_false (by simpa using h.le)) l
  have hlength := hperm.length_eq
  unfold p90
  dsimp only
  generalize ⌈(l.length : ℚ) * (9 / 10)⌉ = k at hlow hhigh
  rw [if_neg (by omega), if_neg (by omega)]
  have hi : (k - 1).toNat < (stableSort (fun a b => decide (a < b)) l).length := by omega
  have hrank := (isRank_getElem hsorted hi).perm hperm
  rw [List.getD_eq_getElem?_getD, List.getElem?_eq_getElem hi, Option.getD_some]
  have hk : (k - 1).toNat + 1 = k.toNat := by omega
  rwa [hk] at hrank

end Percentile

section Scan

theorem scan_eq {s : ScoreTracker} {cells : List Record} (hlatencies : s.latencies = cells.map Record.latency)
    (herrors : s.errors = cells.map Record.isErr) {n : ℕ} (hn : n ≤ cells.length) :
    s.scan n = ((cells.take n).countP Record.isErr, positives (cells.take n)) := by
  induction n with
  | zero => rfl
  | succ n ih =>
    have hlt : n < cells.length := by omega
    have hscan : s.scan (n + 1) = if s.errors.getD n false then ((s.scan n).1 + 1, (s.scan n).2)
        else if 0 < s.latencies.getD n 0 then ((s.scan n).1, (s.scan n).2 ++ [s.latencies.getD n 0])
        else s.scan n := by
      unfold scan
      rw [List.range_succ, List.foldl_append]
      rfl
    have hlatency : s.latencies.getD n 0 = cells[n].latency := by
      simp [hlatencies, hlt]
    have herror : s.errors.getD n false = cells[n].isErr := by
      simp [herrors, hlt]
    rw [hscan, ih (by omega), hlatency, herror, List.take_succ_eq_append_getElem hlt]
    unfold positives
    rw [List.countP_append, List.filter_append, List.map_append]
    split_ifs with herr hpos
    · simp [herr]
    · simp [herr, hpos]
    · simp [herr, hpos]

end Scan

structure Tracks (size : ℕ) (history : List Record) (s : ScoreTracker) : Prop where
  windowSize : s.windowSize = size
  latencies : s.latencies = (Ring.ofHistory size ⟨0, false⟩ history).buf.map Record.latency
  errors : s.errors = (Ring.ofHistory size ⟨0, false⟩ history).buf.map Record.isErr
  pos : s.pos = history.length
  count : s.count = min history.length size
  cached : s.snapshotValid = true → s.snapshot = s.computeSnapshot

namespace Tracks

variable {size : ℕ} {history : List Record} {s : ScoreTracker}

theorem new (windowSize : ℤ) : Tracks (defaultedSize windowSize) [] (new windowSize) := by
  refine ⟨rfl, ?_, ?_, rfl, (Nat.zero_min _).symm, nofun⟩
  · simp [ScoreTracker.new, Ring.ofHistory, Ring.new]
  · simp [ScoreTracker.new, Ring.ofHistory, Ring.new]

theorem record (h : Tracks size history s) (d : ℤ) (isErr : Bool) :
    Tracks size (history ++ [⟨d, isErr⟩]) (s.record d isErr) := by
  obtain ⟨hlength, hpos, -⟩ := Ring.cells_ofHistory size ⟨0, false⟩ history
  have hidx : s.pos % s.windowSize = (Ring.ofHistory size ⟨0, false⟩ history).pos %
      (Ring.ofHistory size ⟨0, false⟩ history).buf.length := by
    rw [h.pos, h.windowSize, hpos, hlength]
  refine ⟨h.windowSize, ?_, ?_, ?_, ?_, nofun⟩
  · rw [Ring.ofHistory_concat, Ring.add, List.map_set, ← hidx, ← h.latencies]
    rfl
  · rw [Ring.ofHistory_concat, Ring.add, List.map_set, ← hidx, ← h.errors]
    rfl
  · rw [List.length_append, ← h.pos]
    rfl
  · have hcount := h.count
    have hsize := h.windowSize
    change (if s.count < s.windowSize then s.count + 1 else s.count) = _
    rw [List.length_append, List.length_singleton]
    split_ifs <;> omega

theorem takeSnapshot (h : Tracks size history s) : Tracks size history s.takeSnapshot.2 := by
  unfold ScoreTracker.takeSnapshot
  dsimp only
  split_ifs
  · exact h
  · exact { h with cached := fun _ => rfl }

theorem step (h : Tracks size history s) (c : Call) : Tracks size (history ++ c.records) (s.step c) := by
  cases c with
  | recordSuccess d => exact h.record d false
  | recordError => exact h.record 0 true
  | snapshot =>
    rw [Call.records, List.append_nil]
    exact h.takeSnapshot

theorem snapshot_eq (h : Tracks size history s) : s.takeSnapshot.1 = s.computeSnapshot := by
  unfold ScoreTracker.takeSnapshot
  dsimp only
  split_ifs with hvalid
  · exact h.cached hvalid
  · rfl

theorem reports (h : Tracks size history s) : Reports size history s.computeSnapshot := by
  have hlength := (Ring.cells_ofHistory size (⟨0, false⟩ : Record) history).1
  have hperm := Ring.used_perm size (⟨0, false⟩ : Record) history
  rw [← h.count] at hperm
  have hscan := scan_eq h.latencies h.errors (n := s.count) (by rw [h.count, hlength]; exact min_le_right _ _)
  -- the arrays hold the window in the order of the ring, which neither a count nor a rank depends on
  have hpositives : (positives ((Ring.ofHistory size ⟨0, false⟩ history).buf.take s.count)).Perm
      (positives (history.rtake size)) := (hperm.filter _).map _
  unfold computeSnapshot
  split_ifs with hzero
  · have hwindow : history.rtake size = [] := by
      rw [hzero, List.take_zero] at hperm
      exact hperm.nil_eq.symm
    refine ⟨h.count, ?_, ?_⟩
    · simp [hwindow]
    · unfold IsP90
      rw [hwindow, if_pos (by rfl)]
  · rw [hscan, hperm.countP_eq]
    refine ⟨h.count, rfl, IsP90.perm ?_ hpositives⟩
    unfold IsP90
    dsimp only
    split_ifs with hnil
    · rfl
    · rw [mul_comm]
      exact isRank_p90 hnil

end Tracks

theorem tracks_after (windowSize : ℤ) (calls : List Call) :
    Tracks (defaultedSize windowSize) (calls.flatMap Call.records) (after windowSize calls) := by
  induction calls using List.reverseRecOn with
  | nil => exact .new windowSize
  | append_singleton calls c ih =>
    have hafter : after windowSize (calls ++ [c]) = (after windowSize calls).step c := by
      unfold after
      rw [List.foldl_append]
      rfl
    rw [hafter, List.flatMap_append, List.flatMap_singleton]
    exact ih.step c

/-- After any calls a snapshot is that of the last records, and a cached one is what would be computed. -/
theorem snapshot_exact (windowSize : ℤ) (calls : List Call) :
    let s := after windowSize calls
    Reports (defaultedSize windowSize) (calls.flatMap Call.records) s.takeSnapshot.1 ∧
      (s.snapshotValid = true → s.snapshot = s.computeSnapshot) := by
  have htracks := tracks_after windowSize calls
  intro s
  rw [htracks.snapshot_eq]
  exact ⟨htracks.reports, htracks.cached⟩

end ScoreTracker

end EBeacon.Upstream
