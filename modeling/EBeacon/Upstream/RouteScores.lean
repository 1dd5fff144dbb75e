import EBeacon.Library.Interning
import EBeacon.Upstream.ScoreTracker

/-!
The score trackers of an upstream: one for all its requests, and one for each route, made by the first
request that records to it.
-/

namespace EBeacon.Upstream

open Interning

def minPathScopedScoreSamples : ℕ := 5

structure Scores where
  scorer : ScoreTracker
  routes : Interning.State String ScoreTracker ScoreTracker.Call

namespace Scores

inductive Label
  | recordSuccessForPath (apiPath : String) (d : ℤ)
  | recordScoreErrorForPath (apiPath : String)
  | pathScoreSnapshot (apiPath : String)
  | scoreSnapshot
  | look (i : ℕ)
  | make (i : ℕ)
  | act (i : ℕ)

def new (windowSize : ℤ) : Scores := ⟨.new windowSize, .start⟩

def Label.scored : Label → List ScoreTracker.Call
  | .recordSuccessForPath _ d => [.recordSuccess d]
  | .recordScoreErrorForPath _ => [.recordError]
  | .pathScoreSnapshot apiPath => if apiPath = "" then [.snapshot] else []
  | .scoreSnapshot => [.snapshot]
  | .look _ => []
  | .make _ => []
  | .act _ => []

def Label.routed : Label → Option (Interning.Label String ScoreTracker.Call)
  | .recordSuccessForPath apiPath d => if apiPath = "" then none else some (.call apiPath (.recordSuccess d) true)
  | .recordScoreErrorForPath apiPath => if apiPath = "" then none else some (.call apiPath .recordError true)
  | .pathScoreSnapshot apiPath => if apiPath = "" then none else some (.call apiPath .snapshot false)
  | .scoreSnapshot => none
  | .look i => some (.look i)
  | .make i => some (.make i)
  | .act i => some (.act i)

def nextRoutes (s : Scores) (l : Interning.Label String ScoreTracker.Call) :
    Option (Interning.State String ScoreTracker ScoreTracker.Call) :=
  s.routes.next (.new s.scorer.windowSize) ScoreTracker.step l

def next (s : Scores) (l : Label) : Option Scores := do
  let routes ← l.routed.elim (some s.routes) s.nextRoutes
  return ⟨l.scored.foldl ScoreTracker.step s.scorer, routes⟩

def pathSnapshot (s : Scores) (apiPath : String) : ScoreSnapshot :=
  if apiPath = "" then s.scorer.takeSnapshot.1
  else ((s.routes.table apiPath).bind (s.routes.heap[·]?)).elim ⟨0, 0, 0⟩ (fun t => t.takeSnapshot.1)

def scoreSnapshotForPath (s : Scores) (apiPath : String) : ScoreSnapshot :=
  if apiPath = "" then s.scorer.takeSnapshot.1
  else if (s.pathSnapshot apiPath).samples < minPathScopedScoreSamples then s.scorer.takeSnapshot.1
  else s.pathSnapshot apiPath

section Runs

variable {windowSize : ℤ} {labels : List Label} {s : Scores}

open ScoreTracker

def routeRecords (windowSize : ℤ) (labels : List Label) (apiPath : String) : List Record :=
  (actsOn (Runs.collect (State.next (.new (defaultedSize windowSize)) ScoreTracker.step) performed .start
    (labels.filterMap Label.routed)) apiPath).flatMap Call.records

def records (labels : List Label) : List Record := (labels.flatMap Label.scored).flatMap Call.records

def Label.recordsFor (apiPath : String) (l : Label) : List Record :=
  (l.routed.toList.flatMap Interning.Label.called).flatMap
    (fun c => if c.1 = apiPath then c.2.1.records else [])

theorem defaultedSize_pos (windowSize : ℤ) : 0 < defaultedSize windowSize := by
  unfold defaultedSize
  split_ifs <;> omega

theorem defaultedSize_idem (windowSize : ℤ) : defaultedSize (defaultedSize windowSize) = defaultedSize windowSize := by
  have hpos := defaultedSize_pos windowSize
  unfold defaultedSize at hpos ⊢
  split_ifs <;> omega

theorem routes_of_run (hrun : Runs.exec next (new windowSize) labels = some s) :
    s.scorer = after windowSize (labels.flatMap Label.scored) ∧
      Runs.exec (State.next (.new (defaultedSize windowSize)) ScoreTracker.step) .start
        (labels.filterMap Label.routed) = some s.routes := by
  refine Runs.exec_induction (P := fun labels s => s.scorer = after windowSize (labels.flatMap Label.scored) ∧
      Runs.exec (State.next (.new (defaultedSize windowSize)) ScoreTracker.step) .start
        (labels.filterMap Label.routed) = some s.routes) ⟨rfl, rfl⟩ ?_ hrun
  rintro labels t a u - ⟨hscorer, hroutes⟩ hnext
  have hsize : t.scorer.windowSize = defaultedSize windowSize := by
    rw [hscorer]
    exact (tracks_after windowSize _).windowSize
  obtain ⟨routes, hrouted, hu⟩ := Option.bind_eq_some_iff.mp hnext
  cases hu
  constructor
  · dsimp only
    rw [List.flatMap_append, List.flatMap_singleton, after, List.foldl_append, hscorer]
    rfl
  · rw [List.filterMap_append, Runs.exec_append, hroutes, Option.bind_some]
    cases hlabel : a.routed with
    | none =>
      rw [hlabel] at hrouted
      cases hrouted
      simp [hlabel, Runs.exec_nil]
    | some l =>
      rw [hlabel, Option.elim_some, nextRoutes, hsize] at hrouted
      simp [hlabel, Runs.exec_cons, Runs.exec_nil, hrouted]

theorem pathSnapshot_reports (hrun : Runs.exec next (new windowSize) labels = some s) {apiPath : String}
    (hpath : apiPath ≠ "") :
    Reports (defaultedSize windowSize) (routeRecords windowSize labels apiPath) (s.pathSnapshot apiPath) := by
  obtain ⟨hsound, -⟩ := sound_of_run (routes_of_run hrun).2
  unfold pathSnapshot routeRecords
  rw [if_neg hpath]
  cases htable : s.routes.table apiPath with
  | none =>
    rw [hsound.unused apiPath htable]
    exact ⟨rfl, by simp, by simp [IsP90, positives]⟩
  | some ref =>
    have hobject := hsound.object apiPath ref htable
    have htracks := tracks_after (defaultedSize windowSize)
      (actsOn (Runs.collect (State.next (.new (defaultedSize windowSize)) ScoreTracker.step) performed .start
        (labels.filterMap Label.routed)) apiPath)
    rw [defaultedSize_idem] at htracks
    rw [Option.bind_some, hobject, Option.elim_some]
    change Reports _ _ (after (defaultedSize windowSize) _).takeSnapshot.1
    rw [htracks.snapshot_eq]
    exact htracks.reports

theorem scoreSnapshot_reports (hrun : Runs.exec next (new windowSize) labels = some s) :
    Reports (defaultedSize windowSize) (records labels) s.scorer.takeSnapshot.1 := by
  have htracks := tracks_after windowSize (labels.flatMap Label.scored)
  rw [← (routes_of_run hrun).1] at htracks
  rw [htracks.snapshot_eq]
  exact htracks.reports

def recordsOn (apiPath : String) (a : String × Call) : List Record := if a.1 = apiPath then a.2.records else []

theorem actsOn_records (done : List (String × Call)) (apiPath : String) :
    (actsOn done apiPath).flatMap Call.records = done.flatMap (recordsOn apiPath) := by
  induction done with
  | nil => rfl
  | cons a done ih =>
    unfold actsOn recordsOn at ih ⊢
    rw [List.flatMap_cons, ← ih]
    split_ifs with h
    · simp [h]
    · simp [h]

theorem snapshot_of_called {labels : List Label} {c : String × Call × Bool}
    (hc : c ∈ (labels.filterMap Label.routed).flatMap Interning.Label.called) (hcreate : c.2.2 = false) :
    c.2.1 = .snapshot := by
  obtain ⟨l, hl, hcalled⟩ := List.mem_flatMap.mp hc
  obtain ⟨a, -, hrouted⟩ := List.mem_filterMap.mp hl
  cases a with
  | scoreSnapshot => cases hrouted
  | look i => cases hrouted; cases hcalled
  | make i => cases hrouted; cases hcalled
  | act i => cases hrouted; cases hcalled
  | recordSuccessForPath apiPath d =>
    simp only [Label.routed] at hrouted
    split_ifs at hrouted
    cases hrouted
    rw [List.mem_singleton.mp hcalled] at hcreate
    cases hcreate
  | recordScoreErrorForPath apiPath =>
    simp only [Label.routed] at hrouted
    split_ifs at hrouted
    cases hrouted
    rw [List.mem_singleton.mp hcalled] at hcreate
    cases hcreate
  | pathScoreSnapshot apiPath =>
    simp only [Label.routed] at hrouted
    split_ifs at hrouted
    cases hrouted
    rw [List.mem_singleton.mp hcalled]

theorem recordsFor_flatMap (labels : List Label) (apiPath : String) :
    ((labels.filterMap Label.routed).flatMap Interning.Label.called).flatMap
      (fun c => if c.1 = apiPath then c.2.1.records else []) = labels.flatMap (Label.recordsFor apiPath) := by
  induction labels with
  | nil => rfl
  | cons l labels ih =>
    rw [List.flatMap_cons, ← ih, Label.recordsFor]
    cases hrouted : l.routed with
    | none => simp [hrouted]
    | some r => simp [hrouted]

theorem flatMap_filter_of_nil {α β : Type} {p : α → Bool} {g : α → List β} {l : List α}
    (h : ∀ a ∈ l, p a = false → g a = []) : (l.filter p).flatMap g = l.flatMap g := by
  induction l with
  | nil => rfl
  | cons a l ih =>
    have hrest := ih fun b hb => h b (List.mem_cons_of_mem a hb)
    cases ha : p a with
    | true => rw [List.filter_cons_of_pos ha, List.flatMap_cons, List.flatMap_cons, hrest]
    | false =>
      rw [List.filter_cons_of_neg (by simp [ha]), List.flatMap_cons, hrest, h a List.mem_cons_self ha, List.nil_append]

theorem routeRecords_perm (hrun : Runs.exec next (new windowSize) labels = some s)
    (hidle : ∀ c ∈ s.routes.calls, c.phase = .done ∨ c.phase = .absent) (apiPath : String) :
    (routeRecords windowSize labels apiPath).Perm (labels.flatMap (Label.recordsFor apiPath)) := by
  obtain ⟨-, haccounted⟩ := sound_of_run (routes_of_run hrun).2
  have hkept := kept_of_run (routes_of_run hrun).2
  have hdone : ((s.routes.calls.filter (fun c => c.phase = .done)).map (fun c => (c.key, c.act))).flatMap
      (recordsOn apiPath) = s.routes.calls.flatMap (fun c => recordsOn apiPath (c.key, c.act)) := by
    rw [List.flatMap_map]
    apply flatMap_filter_of_nil
    intro c hc hphase
    rcases hidle c hc with hdone | habsent
    · simp [hdone] at hphase
    · have hmem : (c.key, c.act, c.create) ∈ (labels.filterMap Label.routed).flatMap Interning.Label.called := by
        rw [← hkept.calls]
        exact List.mem_map.mpr ⟨c, hc, rfl⟩
      have hsnapshot : c.act = .snapshot := snapshot_of_called hmem (hkept.absent c hc habsent)
      simp [recordsOn, hsnapshot, Call.records]
  have hcalls : s.routes.calls.flatMap (fun c => recordsOn apiPath (c.key, c.act)) =
      labels.flatMap (Label.recordsFor apiPath) := by
    have hmap : s.routes.calls.flatMap (fun c => recordsOn apiPath (c.key, c.act)) =
        (s.routes.calls.map (fun c => (c.key, c.act, c.create))).flatMap
          (fun c => if c.1 = apiPath then c.2.1.records else []) := by
      rw [List.flatMap_map]
      rfl
    rw [hmap, hkept.calls, recordsFor_flatMap]
  unfold routeRecords
  rw [actsOn_records, ← hcalls, ← hdone]
  exact haccounted.flatMap_right _

def scoringRecords (windowSize : ℤ) (labels : List Label) (apiPath : String) : List Record :=
  if apiPath = "" ∨ min (routeRecords windowSize labels apiPath).length (defaultedSize windowSize) <
      minPathScopedScoreSamples
  then records labels else routeRecords windowSize labels apiPath

theorem scoreSnapshotForPath_reports (hrun : Runs.exec next (new windowSize) labels = some s) (apiPath : String) :
    Reports (defaultedSize windowSize) (scoringRecords windowSize labels apiPath) (s.scoreSnapshotForPath apiPath) := by
  unfold scoreSnapshotForPath scoringRecords
  by_cases hpath : apiPath = ""
  · rw [if_pos hpath, if_pos (Or.inl hpath)]
    exact scoreSnapshot_reports hrun
  · have hroute := pathSnapshot_reports hrun hpath
    rw [if_neg hpath, hroute.samples]
    by_cases hfew : min (routeRecords windowSize labels apiPath).length (defaultedSize windowSize) <
        minPathScopedScoreSamples
    · rw [if_pos hfew, if_pos (Or.inr hfew)]
      exact scoreSnapshot_reports hrun
    · rw [if_neg hfew, if_neg (not_or.mpr ⟨hpath, hfew⟩)]
      exact hroute

/-- However the calls of requests interleave, the score of a route comes from the last requests that were recorded for
it, once there are enough of them, and otherwise from the last of all requests; and no record is lost. -/
theorem scoreSnapshotForPath_exact (hrun : Runs.exec next (new windowSize) labels = some s) {apiPath : String}
    (hpath : apiPath ≠ "") :
    Reports (defaultedSize windowSize)
        (if min (routeRecords windowSize labels apiPath).length (defaultedSize windowSize) < minPathScopedScoreSamples
          then records labels else routeRecords windowSize labels apiPath)
        (s.scoreSnapshotForPath apiPath) ∧
      ((∀ c ∈ s.routes.calls, c.phase = .done ∨ c.phase = .absent) →
        (routeRecords windowSize labels apiPath).Perm (labels.flatMap (Label.recordsFor apiPath))) := by
  refine ⟨?_, fun hidle => routeRecords_perm hrun hidle apiPath⟩
  have hreports := scoreSnapshotForPath_reports hrun apiPath
  unfold scoringRecords at hreports
  simpa only [hpath, false_or] using hreports

def race : List Label :=
  [.recordSuccessForPath "a" 5, .recordSuccessForPath "a" 7, .look 0, .look 1, .make 0, .make 1, .act 1, .act 0]

theorem scoreSnapshotForPath_exact_race :
    ∃ s, Runs.exec next (new 10) race = some s ∧
      Reports 10 (records race) (s.scoreSnapshotForPath "a") ∧
      (routeRecords 10 race "a").Perm [⟨5, false⟩, ⟨7, false⟩] := by
  obtain ⟨s, hrun⟩ : ∃ s, Runs.exec next (new 10) race = some s := ⟨_, rfl⟩
  have hphases := congrArg (Option.map (fun s => s.routes.calls.map (·.phase))) hrun
  have hdone : [Phase.done, .done] = s.routes.calls.map (·.phase) := Option.some.inj hphases
  have hexact := scoreSnapshotForPath_exact hrun (by decide : "a" ≠ "")
  refine ⟨s, hrun, hexact.1, hexact.2 ?_⟩
  intro c hc
  have hphase : c.phase ∈ [Phase.done, .done] := hdone ▸ List.mem_map_of_mem hc
  simp only [List.mem_cons, List.not_mem_nil, or_false, or_self] at hphase
  exact Or.inl hphase

end Runs

end Scores

end EBeacon.Upstream
