import Mathlib.Data.Finset.Card
import EBeacon.Library.Maps
import EBeacon.Library.Runs
import EBeacon.Network.APIPath

namespace EBeacon.Network

variable {τ : Type}

structure ScoreWindow (τ : Type) where
  fresh : τ
  recordSuccess : τ → ℤ → τ
  recordError : τ → τ

structure PathScores (τ : Type) where
  scorer : τ
  routeScorers : AList (fun _ : String => τ) := ∅

namespace PathScores

def new (w : ScoreWindow τ) : PathScores τ := { scorer := w.fresh }

def routeScorer (w : ScoreWindow τ) (s : PathScores τ) (apiPath : String) (create : Bool) :
    Option τ × PathScores τ :=
  match s.routeScorers.lookup apiPath with
  | some scorer => (some scorer, s)
  | none =>
    if create = false ∨ apiPath = "" then (none, s)
    else (some w.fresh, { s with routeScorers := s.routeScorers.insert apiPath w.fresh })

def recordForPath (w : ScoreWindow τ) (record : τ → τ) (s : PathScores τ) (apiPath : String) : PathScores τ :=
  let s := { s with scorer := record s.scorer }
  if apiPath = "" then s
  else
    match routeScorer w s apiPath true with
    | (some scorer, s) => { s with routeScorers := s.routeScorers.insert apiPath (record scorer) }
    | (none, s) => s

def recordSuccessForPath (w : ScoreWindow τ) (s : PathScores τ) (apiPath : String) (d : ℤ) : PathScores τ :=
  recordForPath w (w.recordSuccess · d) s apiPath

def recordScoreErrorForPath (w : ScoreWindow τ) (s : PathScores τ) (apiPath : String) : PathScores τ :=
  recordForPath w w.recordError s apiPath

theorem routeScorer_keys {w : ScoreWindow τ} {s : PathScores τ} {apiPath : String} {create : Bool}
    {path : String} (h : path ∈ (routeScorer w s apiPath create).2.routeScorers) :
    path = apiPath ∨ path ∈ s.routeScorers := by
  unfold routeScorer at h
  split at h
  · exact Or.inr h
  · split_ifs at h
    · exact Or.inr h
    · exact (AList.mem_insert _).mp h

theorem recordForPath_keys {w : ScoreWindow τ} {record : τ → τ} {s : PathScores τ} {apiPath path : String}
    (h : path ∈ (recordForPath w record s apiPath).routeScorers) :
    path = apiPath ∨ path ∈ s.routeScorers := by
  unfold recordForPath at h
  dsimp only at h
  split_ifs at h
  · exact Or.inr h
  · split at h <;> rename_i after heq
    · rcases (AList.mem_insert _).mp h with h | h
      · exact Or.inl h
      · rw [show after = _ from (congrArg Prod.snd heq).symm] at h
        have hkeys := routeScorer_keys h
        exact hkeys
    · rw [show after = _ from (congrArg Prod.snd heq).symm] at h
      have hkeys := routeScorer_keys h
      exact hkeys

end PathScores

inductive PathMetric
  | scoreByPath
  | scoreErrorRateByPath
  | scoreP90LatencyByPath
  | scoreSamplesByPath
  | reqDurationByPath
  | reqByPath
  | reqByAPIKeyPath
  | cacheByPath
  deriving DecidableEq

structure PathSeries where
  metric : PathMetric
  labels : List String
  apiPath : String
  deriving DecidableEq

-- the trackers of all upstreams, by network and id, and the series of the process
structure PathMetrics (τ : Type) where
  scores : String → String → PathScores τ
  series : List PathSeries := []

namespace PathMetrics

def new (w : ScoreWindow τ) : PathMetrics τ := { scores := fun _ _ => PathScores.new w }

def withLabelValues (m : PathMetrics τ) (metric : PathMetric) (labels : List String) (apiPath : String) :
    PathMetrics τ :=
  { m with series := m.series.insert ⟨metric, labels, apiPath⟩ }

def httpStatusClass (code : ℤ) : String :=
  match code.tdiv 100 with
  | 1 => "1xx"
  | 2 => "2xx"
  | 3 => "3xx"
  | 4 => "4xx"
  | 5 => "5xx"
  | _ => "0xx"

def observeMethodStatus (network apiPath : String) (status : ℤ) (m : PathMetrics τ) : PathMetrics τ :=
  m.withLabelValues .reqByPath [network, httpStatusClass status] apiPath

def observeAPIKey (network apiKey apiPath : String) (status : ℤ) (m : PathMetrics τ) : PathMetrics τ :=
  if apiKey = "" then m
  else m.withLabelValues .reqByAPIKeyPath [network, apiKey, httpStatusClass status] apiPath

def observeCacheByMethod (network apiPath result : String) (m : PathMetrics τ) : PathMetrics τ :=
  m.withLabelValues .cacheByPath [network, result] apiPath

def refreshUpstreamPathScoreMetrics (network u apiPath : String) (m : PathMetrics τ) : PathMetrics τ :=
  if apiPath = "" then m
  else
    [.scoreByPath, .scoreErrorRateByPath, .scoreP90LatencyByPath, .scoreSamplesByPath].foldl
      (fun m metric => m.withLabelValues metric [network, u] apiPath) m

def updateScores (network u : String) (f : PathScores τ → PathScores τ) (m : PathMetrics τ) :
    PathMetrics τ :=
  { m with scores := fun network' u' =>
      if network' = network ∧ u' = u then f (m.scores network u) else m.scores network' u' }

inductive Report
  | status (apiKey : String) (status : ℤ)
  | cached (result : String)
  | duration (u : String)
  | success (u : String) (d : ℤ)
  | failure (u : String)

def report (w : ScoreWindow τ) (network apiPath : String) (m : PathMetrics τ) : Report → PathMetrics τ
  | .status apiKey status =>
    observeAPIKey network apiKey apiPath status (observeMethodStatus network apiPath status m)
  | .cached result => observeCacheByMethod network apiPath result m
  | .duration u => m.withLabelValues .reqDurationByPath [network, u] apiPath
  | .success u d =>
    refreshUpstreamPathScoreMetrics network u apiPath
      (updateScores network u (PathScores.recordSuccessForPath w · apiPath d) m)
  | .failure u =>
    refreshUpstreamPathScoreMetrics network u apiPath
      (updateScores network u (PathScores.recordScoreErrorForPath w · apiPath) m)

structure Served where
  network : String
  path : String
  report : Report

def serve (w : ScoreWindow τ) (m : PathMetrics τ) (s : Served) : PathMetrics τ :=
  report w s.network (normalizeAPIPath s.path) m s.report

section Routes

variable {routes : List String} {m : PathMetrics τ} {w : ScoreWindow τ} {apiPath : String}

structure Within (routes : List String) (m : PathMetrics τ) : Prop where
  scores : ∀ network u path, path ∈ (m.scores network u).routeScorers → path ∈ routes
  series : ∀ x ∈ m.series, x.apiPath ∈ routes
  nodup : m.series.Nodup

theorem Within.new (routes : List String) (w : ScoreWindow τ) : (PathMetrics.new w).Within routes :=
  ⟨fun _ _ _ h => absurd h (AList.notMem_empty _), by simp [PathMetrics.new], List.nodup_nil⟩

theorem Within.withLabelValues (h : m.Within routes) (metric : PathMetric) (labels : List String)
    (ha : apiPath ∈ routes) : (m.withLabelValues metric labels apiPath).Within routes := by
  refine ⟨h.scores, fun x hx => ?_, h.nodup.insert⟩
  rcases List.mem_insert_iff.mp hx with rfl | hx
  · exact ha
  · exact h.series x hx

theorem Within.refresh (h : m.Within routes) (network u : String) (ha : apiPath ∈ routes) :
    (refreshUpstreamPathScoreMetrics network u apiPath m).Within routes := by
  unfold refreshUpstreamPathScoreMetrics
  split
  · exact h
  · refine Runs.foldl_invariant (I := fun m : PathMetrics τ => m.Within routes) ?_ _ h
    exact fun m metric hm => hm.withLabelValues metric _ ha

theorem Within.updateScores (h : m.Within routes) (network u : String) (record : τ → τ)
    (ha : apiPath ∈ routes) :
    (m.updateScores network u (PathScores.recordForPath w record · apiPath)).Within routes := by
  refine ⟨fun network' u' path hp => ?_, h.series, h.nodup⟩
  unfold PathMetrics.updateScores at hp
  dsimp only at hp
  split at hp
  · rcases PathScores.recordForPath_keys hp with rfl | hp
    · exact ha
    · exact h.scores _ _ _ hp
  · exact h.scores _ _ _ hp

theorem Within.report (h : m.Within routes) (network : String) (ha : apiPath ∈ routes) (r : Report) :
    (m.report w network apiPath r).Within routes := by
  cases r with
  | status apiKey status =>
    have hm := h.withLabelValues .reqByPath [network, httpStatusClass status] ha
    change (observeAPIKey network apiKey apiPath status _).Within routes
    unfold observeAPIKey
    split
    · exact hm
    · exact hm.withLabelValues _ _ ha
  | cached result => exact h.withLabelValues _ _ ha
  | duration u => exact h.withLabelValues _ _ ha
  | success u d => exact (h.updateScores network u _ ha).refresh network u ha
  | failure u => exact (h.updateScores network u _ ha).refresh network u ha

theorem Within.serve (h : m.Within apiPaths) (s : Served) : (m.serve w s).Within apiPaths :=
  h.report s.network (normalizeAPIPath_mem s.path) s.report

theorem within_run (w : ScoreWindow τ) (run : List Served) :
    (run.foldl (serve w) (new w)).Within apiPaths :=
  Runs.foldl_invariant (I := fun m : PathMetrics τ => m.Within apiPaths) (fun _ s h => h.serve s) run
    (Within.new apiPaths w)

theorem length_le_card {xs : List String} (hnodup : xs.Nodup) (hsub : ∀ x ∈ xs, x ∈ routes) :
    xs.length ≤ routes.toFinset.card := by
  rw [← List.toFinset_card_of_nodup hnodup]
  refine Finset.card_le_card fun x hx => ?_
  exact List.mem_toFinset.mpr (hsub x (List.mem_toFinset.mp hx))

theorem Within.scorers_le (h : m.Within routes) (network u : String) :
    (m.scores network u).routeScorers.keys.length ≤ routes.toFinset.card :=
  length_le_card (AList.keys_nodup _) (h.scores network u)

theorem Within.series_le (h : m.Within routes) (metric : PathMetric) (labels : List String) :
    (m.series.filter (fun x => x.metric = metric ∧ x.labels = labels)).length ≤ routes.toFinset.card := by
  set own := m.series.filter (fun x => x.metric = metric ∧ x.labels = labels) with hown
  have hkind : ∀ x ∈ own, x.metric = metric ∧ x.labels = labels := by
    intro x hx
    simpa using List.of_mem_filter hx
  have hinj : ∀ x ∈ own, ∀ y ∈ own, x.apiPath = y.apiPath → x = y := by
    intro x hx y hy hxy
    obtain ⟨hxm, hxl⟩ := hkind x hx
    obtain ⟨hym, hyl⟩ := hkind y hy
    cases x
    cases y
    simp_all
  have hnodup : (own.map PathSeries.apiPath).Nodup := (h.nodup.filter _).map_on hinj
  rw [← List.length_map PathSeries.apiPath]
  refine length_le_card hnodup fun path hp => ?_
  obtain ⟨x, hx, rfl⟩ := List.mem_map.mp hp
  exact h.series x (List.mem_filter.mp hx).1

end Routes

def after (w : ScoreWindow τ) (run : List Served) : PathMetrics τ := run.foldl (serve w) (new w)

theorem routes_bounded (w : ScoreWindow τ) :
    (∀ path, normalizeAPIPath path ∈ apiPaths.toFinset) ∧
    ∀ run : List Served,
      (∀ network u, ((after w run).scores network u).routeScorers.keys.length ≤ apiPaths.toFinset.card) ∧
      ∀ metric labels,
        ((after w run).series.filter (fun x => x.metric = metric ∧ x.labels = labels)).length ≤
          apiPaths.toFinset.card := by
  refine ⟨fun path => List.mem_toFinset.mpr (normalizeAPIPath_mem path), fun run => ?_⟩
  have h : (after w run).Within apiPaths := within_run w run
  exact ⟨h.scorers_le, h.series_le⟩

end PathMetrics

end EBeacon.Network
