import EBeacon.Upstream.Monitor

/-!
What `/healthz` and `/eth/v1/node/health` answer.
-/

namespace EBeacon.Network

open Upstream

section Serving

variable (p : Pool) (health : String → HealthStatus) (sel : Selector)

structure HealthCounts where
  total : ℕ
  up : ℕ
  degraded : ℕ
  down : ℕ

def healthCounts : HealthCounts :=
  let matched := p.upstreams.filter (p.isMatch sel)
  { total := matched.length
    up := matched.countP (fun u => health u.id = .up)
    degraded := matched.countP (fun u => health u.id = .degraded)
    down := matched.countP (fun u => health u.id = .down) }

def nodeHealthStatus : HealthStatus :=
  let counts := healthCounts p health sel
  if 0 < counts.up then .up else if 0 < counts.degraded then .degraded else .down

def healthzStatus : HealthStatus → String × ℕ
  | .up => ("ok", 200)
  | .degraded => ("degraded", 200)
  | .down => ("down", 503)

def nodeHealthCode : HealthStatus → ℕ
  | .up => 200
  | .degraded => 206
  | .down => 503

def bestStatus (best hs : HealthStatus) : HealthStatus :=
  if hs = .up ∧ best = .down then .up else if hs = .degraded then .degraded else best

def serveHealthz (statuses : List HealthStatus) : String × ℕ := healthzStatus (statuses.foldl bestStatus .down)

end Serving

section Answers

variable {p : Pool} {health : String → HealthStatus} {sel : Selector}

theorem countP_pos {h : HealthStatus} :
    0 < (p.upstreams.filter (p.isMatch sel)).countP (fun u => health u.id = h) ↔
      ∃ u ∈ p.upstreams, p.isMatch sel u = true ∧ health u.id = h := by
  simp only [List.countP_pos_iff, List.mem_filter, decide_eq_true_eq, and_assoc]

theorem nodeHealthStatus_up :
    nodeHealthStatus p health sel = .up ↔ ∃ u ∈ p.upstreams, p.isMatch sel u = true ∧ health u.id = .up := by
  rw [← countP_pos]
  unfold nodeHealthStatus healthCounts
  dsimp only
  split_ifs with hup
  · exact iff_of_true rfl hup
  · exact iff_of_false (by simp) hup
  · exact iff_of_false (by simp) hup

theorem nodeHealthStatus_degraded :
    nodeHealthStatus p health sel = .degraded ↔
      (∃ u ∈ p.upstreams, p.isMatch sel u = true ∧ health u.id = .degraded) ∧
        ¬ ∃ u ∈ p.upstreams, p.isMatch sel u = true ∧ health u.id = .up := by
  rw [← countP_pos, ← countP_pos]
  unfold nodeHealthStatus healthCounts
  dsimp only
  split_ifs with hup hdegraded
  · exact iff_of_false (by simp) fun h => h.2 hup
  · exact iff_of_true rfl ⟨hdegraded, hup⟩
  · exact iff_of_false (by simp) fun h => hdegraded h.1

theorem foldl_bestStatus (statuses : List HealthStatus) (best : HealthStatus) :
    statuses.foldl bestStatus best =
      if best = .degraded ∨ .degraded ∈ statuses then .degraded
      else if best = .up ∨ .up ∈ statuses then .up else .down := by
  induction statuses generalizing best with
  | nil => cases best <;> rfl
  | cons hs statuses ih =>
    rw [List.foldl_cons, ih]
    cases best <;> cases hs <;> simp [bestStatus]

theorem serveHealthz_cases (statuses : List HealthStatus) :
    (serveHealthz statuses = ("degraded", 200) ↔ .degraded ∈ statuses) ∧
      (serveHealthz statuses = ("ok", 200) ↔ .up ∈ statuses ∧ .degraded ∉ statuses) ∧
      (serveHealthz statuses = ("down", 503) ↔ .up ∉ statuses ∧ .degraded ∉ statuses) := by
  unfold serveHealthz
  rw [foldl_bestStatus]
  simp only [reduceCtorEq, false_or]
  split_ifs with hdegraded hup
  · simp [healthzStatus, hdegraded]
  · simp [healthzStatus, hdegraded, hup]
  · simp [healthzStatus, hdegraded, hup]

end Answers

section Probing

variable (maxSyncDistance : String → UInt64) (probes : Probes)

def networkHealth (n : String × Pool) (sel : Selector) : HealthStatus :=
  nodeHealthStatus n.2 (fun id => (Monitor.run maxSyncDistance probes (n.1, id)).health) sel

theorem networkHealth_up (n : String × Pool) (sel : Selector) :
    networkHealth maxSyncDistance probes n sel = .up ↔
      ∃ u ∈ n.2.upstreams, n.2.isMatch sel u = true ∧ Monitor.verdict maxSyncDistance probes (n.1, u.id) = .up := by
  unfold networkHealth
  simp only [nodeHealthStatus_up, Monitor.health_eq_verdict]

theorem networkHealth_degraded (n : String × Pool) (sel : Selector) :
    networkHealth maxSyncDistance probes n sel = .degraded ↔
      (∃ u ∈ n.2.upstreams, n.2.isMatch sel u = true ∧
        Monitor.verdict maxSyncDistance probes (n.1, u.id) = .degraded) ∧
      ∀ u ∈ n.2.upstreams, n.2.isMatch sel u = true → Monitor.verdict maxSyncDistance probes (n.1, u.id) ≠ .up := by
  unfold networkHealth
  simp only [nodeHealthStatus_degraded, Monitor.health_eq_verdict, not_exists, not_and, ne_eq]

theorem networkHealth_down (n : String × Pool) (sel : Selector) :
    networkHealth maxSyncDistance probes n sel = .down ↔
      ∀ u ∈ n.2.upstreams, n.2.isMatch sel u = true → Monitor.verdict maxSyncDistance probes (n.1, u.id) = .down := by
  have hup := networkHealth_up maxSyncDistance probes n sel
  have hdegraded := networkHealth_degraded maxSyncDistance probes n sel
  constructor
  · intro h u hu hsel
    rw [h] at hup hdegraded
    simp only [reduceCtorEq, false_iff, not_exists, not_and] at hup hdegraded
    cases hv : Monitor.verdict maxSyncDistance probes (n.1, u.id) with
    | down => rfl
    | up => exact absurd hv (hup u hu hsel)
    | degraded => exact absurd hup (hdegraded ⟨u, hu, hsel, hv⟩)
  · intro h
    cases hs : networkHealth maxSyncDistance probes n sel with
    | down => rfl
    | up =>
      obtain ⟨u, hu, hsel, hv⟩ := hup.mp hs
      rw [h u hu hsel] at hv
      cases hv
    | degraded =>
      obtain ⟨⟨u, hu, hsel, hv⟩, -⟩ := hdegraded.mp hs
      rw [h u hu hsel] at hv
      cases hv

/-- After any probes in any order, and in whatever order the networks are gone through, the proxy is down exactly when
the last probes of every upstream say that it is, and degraded exactly when a network has only such upstreams left
that are behind. Of the upstreams that a request selects, one that is up suffices for 200. -/
theorem healthz_of_probes (networks : List (String × Pool)) :
    (serveHealthz (networks.map (fun n => networkHealth maxSyncDistance probes n .zero)) = ("down", 503) ↔
        ∀ n ∈ networks, ∀ u ∈ n.2.upstreams, Monitor.verdict maxSyncDistance probes (n.1, u.id) = .down) ∧
      (serveHealthz (networks.map (fun n => networkHealth maxSyncDistance probes n .zero)) = ("degraded", 200) ↔
        ∃ n ∈ networks, (∃ u ∈ n.2.upstreams, Monitor.verdict maxSyncDistance probes (n.1, u.id) = .degraded) ∧
          ∀ u ∈ n.2.upstreams, Monitor.verdict maxSyncDistance probes (n.1, u.id) ≠ .up) ∧
      ∀ n ∈ networks, ∀ sel : Selector,
        (nodeHealthCode (networkHealth maxSyncDistance probes n sel) = 200 ↔
          ∃ u ∈ n.2.upstreams, n.2.isMatch sel u = true ∧
            Monitor.verdict maxSyncDistance probes (n.1, u.id) = .up) ∧
        (nodeHealthCode (networkHealth maxSyncDistance probes n sel) = 503 ↔
          ∀ u ∈ n.2.upstreams, n.2.isMatch sel u = true →
            Monitor.verdict maxSyncDistance probes (n.1, u.id) = .down) := by
  have hall : ∀ (p : Pool) (u : Upstream), p.isMatch .zero u = true := fun _ _ => rfl
  obtain ⟨hanyDegraded, -, hdown⟩ :=
    serveHealthz_cases (networks.map (fun n => networkHealth maxSyncDistance probes n .zero))
  refine ⟨?_, ?_, ?_⟩
  · rw [hdown]
    constructor
    · rintro ⟨hnoneUp, hnoneDegraded⟩ n hn u hu
      apply (networkHealth_down maxSyncDistance probes n .zero).mp _ u hu (hall n.2 u)
      cases hs : networkHealth maxSyncDistance probes n .zero with
      | down => rfl
      | up => exact absurd (List.mem_map.mpr ⟨n, hn, hs⟩) hnoneUp
      | degraded => exact absurd (List.mem_map.mpr ⟨n, hn, hs⟩) hnoneDegraded
    · intro h
      have hs : ∀ n ∈ networks, networkHealth maxSyncDistance probes n .zero = .down := fun n hn =>
        (networkHealth_down maxSyncDistance probes n .zero).mpr fun u hu _ => h n hn u hu
      simp only [List.mem_map]
      constructor
      · rintro ⟨n, hn, hup⟩
        rw [hs n hn] at hup
        cases hup
      · rintro ⟨n, hn, hdegraded⟩
        rw [hs n hn] at hdegraded
        cases hdegraded
  · rw [hanyDegraded]
    simp only [List.mem_map, networkHealth_degraded, hall, true_and, true_imp_iff]
  · intro n _ sel
    rw [← networkHealth_up, ← networkHealth_down]
    cases networkHealth maxSyncDistance probes n sel <;> simp [nodeHealthCode]

end Probing

end EBeacon.Network
