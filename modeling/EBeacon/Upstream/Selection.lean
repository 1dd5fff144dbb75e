import EBeacon.Upstream.LoadBalancer

/-!
Which upstreams of a pool are candidates for a request, and that selection returns them all, or as
many as are asked for.
-/

namespace EBeacon.Upstream

def failOpen {α : Type} (P : α → Bool) (l : List α) (u : α) : Bool := !l.any P || P u

theorem filter_failOpen {α : Type} (P : α → Bool) (l : List α) :
    l.filter (failOpen P l) = if l.filter P ≠ [] then l.filter P else l := by
  unfold failOpen
  cases hany : l.any P with
  | true =>
    obtain ⟨v, hv, hP⟩ := List.any_eq_true.mp hany
    rw [if_pos (List.ne_nil_of_mem (List.mem_filter.mpr ⟨hv, hP⟩))]
    rfl
  | false =>
    have hnil : l.filter P = [] := by
      rw [List.filter_eq_nil_iff]
      intro v hv hP
      exact Bool.false_ne_true (hany.symm.trans (List.any_eq_true.mpr ⟨v, hv, hP⟩))
    rw [if_neg (not_not.mpr hnil)]
    exact List.filter_eq_self.mpr (fun _ _ => rfl)

theorem filter_failOpen_ne_nil {α : Type} (P : α → Bool) {l : List α} (h : l ≠ []) :
    l.filter (failOpen P l) ≠ [] := by
  rw [filter_failOpen]
  split_ifs with hne
  · exact hne
  · exact h

namespace Pool

variable (p : Pool) (all : List Upstream) (preferCanonicalHead : Bool)

def inTier (u : Upstream) : Bool :=
  if ∃ v ∈ all, p.isReady v.id ∧ p.heads.blockCache.isOnCanonicalFork v.id then
    p.isReady u.id && p.heads.blockCache.isOnCanonicalFork u.id
  else if ∃ v ∈ all, p.isReady v.id then p.isReady u.id
  else if ∃ v ∈ all, p.isHealthy v.id then p.isHealthy u.id
  else true

def sawHead (u : Upstream) : Bool :=
  p.heads.blockCache.canonicalHeadSeenBy.any (fun seen => u.id ∈ seen)

def preferred (u : Upstream) : Bool :=
  p.inTier all u &&
    (!preferCanonicalHead || failOpen p.sawHead (all.filter (p.inTier all)) u)

def eligible (u : Upstream) : Bool :=
  p.preferred all preferCanonicalHead u &&
    failOpen (fun v => p.allowRequest v.id) (all.filter (p.preferred all preferCanonicalHead)) u

theorem candidateTier_eq : p.candidateTier all = all.filter (p.inTier all) := by
  have hne : ∀ P : Upstream → Bool, all.filter P ≠ [] ↔ ∃ v ∈ all, P v = true := by
    intro P
    simp [List.filter_eq_nil_iff]
  unfold candidateTier inTier
  dsimp only
  simp only [hne, Bool.and_eq_true]
  split_ifs
  · rfl
  · rfl
  · rfl
  · exact (List.filter_eq_self.mpr (fun _ _ => rfl)).symm

theorem preferHead_eq (candidates : List Upstream) :
    p.preferHead candidates = candidates.filter (failOpen p.sawHead candidates) := by
  rw [filter_failOpen]
  unfold preferHead sawHead
  cases p.heads.blockCache.canonicalHeadSeenBy with
  | none =>
    rw [if_neg]
    simp
  | some seen => rfl

theorem filter_preferred :
    all.filter (p.preferred all preferCanonicalHead) =
      if preferCanonicalHead then
        (all.filter (p.inTier all)).filter (failOpen p.sawHead (all.filter (p.inTier all)))
      else all.filter (p.inTier all) := by
  unfold preferred
  cases preferCanonicalHead with
  | true =>
    rw [if_pos rfl, List.filter_filter]
    refine List.filter_congr (fun u _ => ?_)
    exact Bool.and_comm _ _
  | false =>
    rw [if_neg Bool.false_ne_true]
    refine List.filter_congr (fun u _ => ?_)
    simp

theorem filter_eligible :
    all.filter (p.eligible all preferCanonicalHead) =
      (all.filter (p.preferred all preferCanonicalHead)).filter
        (failOpen (fun v => p.allowRequest v.id) (all.filter (p.preferred all preferCanonicalHead))) := by
  rw [List.filter_filter]
  refine List.filter_congr (fun u _ => ?_)
  exact Bool.and_comm _ _

theorem selectFromCandidatesForPath_eq (n : ℕ) (apiPath : String) :
    p.selectFromCandidatesForPath all n apiPath preferCanonicalHead =
      (p.orderForPath (all.filter (p.eligible all preferCanonicalHead)) apiPath).take n := by
  unfold selectFromCandidatesForPath
  dsimp only
  rw [candidateTier_eq, preferHead_eq, ← filter_preferred, filter_eligible, filter_failOpen]

theorem filter_eligible_ne_nil (h : all ≠ []) :
    all.filter (p.eligible all preferCanonicalHead) ≠ [] := by
  have htier : all.filter (p.inTier all) ≠ [] := by
    rw [← candidateTier_eq]
    unfold candidateTier
    dsimp only
    split_ifs <;> assumption
  rw [filter_eligible]
  apply filter_failOpen_ne_nil
  rw [filter_preferred]
  split_ifs
  · exact filter_failOpen_ne_nil _ htier
  · exact htier

def balanced (b : LoadBalancer) : Pool :=
  { p with
    orderForPath := b.orderForPath
    order_perm := fun ups apiPath => (b.orderForPath_perm_sorted ups apiPath).1 }

/-- What selection guarantees, whatever the strategy, the weights, the scores and the snapshot of
the upstreams' states are. -/
theorem selection_contract (b : LoadBalancer) {n : ℕ} (hn : 1 ≤ n) (hall : all.Nodup) (apiPath : String) :
    let selected := (p.balanced b).selectFromCandidatesForPath all n apiPath preferCanonicalHead
    selected.Nodup ∧ selected ⊆ all ∧ (selected ≠ [] ↔ all ≠ []) ∧
      selected.Pairwise (fun u v => b.priority u ≤ b.priority v) ∧
      (∀ u ∈ selected, p.eligible all preferCanonicalHead u = true) ∧
      selected.length = min n (all.countP (p.eligible all preferCanonicalHead)) := by
  intro selected
  obtain ⟨hperm, hsorted⟩ := b.orderForPath_perm_sorted
    (all.filter (p.eligible all preferCanonicalHead)) apiPath
  have hselected : selected =
      (b.orderForPath (all.filter (p.eligible all preferCanonicalHead)) apiPath).take n :=
    (p.balanced b).selectFromCandidatesForPath_eq all preferCanonicalHead n apiPath
  have hlength : selected.length = min n (all.countP (p.eligible all preferCanonicalHead)) := by
    rw [hselected, List.length_take, hperm.length_eq, List.countP_eq_length_filter]
  have hmem : ∀ u ∈ selected, u ∈ all ∧ p.eligible all preferCanonicalHead u = true := by
    intro u hu
    rw [hselected] at hu
    exact List.mem_filter.mp (hperm.subset (List.mem_of_mem_take hu))
  refine ⟨?_, fun u hu => (hmem u hu).1, ?_, ?_, fun u hu => (hmem u hu).2, hlength⟩
  · rw [hselected]
    exact (hperm.nodup_iff.mpr (hall.filter _)).sublist (List.take_sublist _ _)
  · constructor
    · rintro hne rfl
      obtain ⟨u, hu⟩ := List.exists_mem_of_ne_nil _ hne
      exact List.not_mem_nil (hmem u hu).1
    · intro hne
      have hpos := List.length_pos_iff.mpr (p.filter_eligible_ne_nil all preferCanonicalHead hne)
      rw [← List.countP_eq_length_filter] at hpos
      rw [← List.length_pos_iff]
      omega
  · rw [hselected]
    exact hsorted.sublist (List.take_sublist _ _)

def threeUpstreams : List Upstream := [⟨"a", false⟩, ⟨"b", false⟩, ⟨"c", true⟩]

def oddScores : LoadBalancer where
  priority u := if u.id = "a" then 1 else 0
  weight _ := 0
  activeConns _ := 3
  score u _ := if u.id = "b" then 0 / 0 else -1
  loadBalancing := "score"
  rrCounter := 41

theorem selection_contract_oddScores :
    (((allReady threeUpstreams).balanced oddScores).selectFromCandidatesForPath threeUpstreams 2
      "/eth/v1/node/version" false).length = 2 :=
  (selection_contract _ _ _ oddScores (by decide) (by decide) _).2.2.2.2.2

end Pool

end EBeacon.Upstream
