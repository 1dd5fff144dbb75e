import EBeacon.Network.Rebalance

/-!
What a pass of the rebalancer comes to, over all orders in which the sessions can be visited.
-/

namespace EBeacon.Network.SessionManager

open Float64 Upstream Sweeping

structure Settles (r : Rounding) (sm : SessionManager) (pool : Pool) (threshold : Float64) (maxSweep : ℤ)
    (after : SessionManager) : Prop where
  overload : ∀ id, ¬(sm.counts id < after.counts id ∧ exceeds r (sm.maxLoad r threshold) (after.counts id) = true)
  changed : ((sm.byIP.keys.filter (fun ip => after.sticky ip ≠ sm.sticky ip)).length : ℤ) ≤ maxSweep
  target : ∀ ip, after.sticky ip ≠ sm.sticky ip →
    ∃ u ∈ pool.upstreams, (pool.isReady u.id = true ∧ r.ofNat (sm.counts u.id) < sm.mean r) ∧ u.id = after.sticky ip
  total : after.total = sm.total

def Room (r : Rounding) (sm : SessionManager) (pool : Pool) (threshold : Float64) (maxSweep : ℤ) : Prop :=
  ∀ d ∈ sm.underloaded r pool,
    exceeds r (sm.maxLoad r threshold) (sm.counts d + arrivals (nextID (sm.underloaded r pool))
      (demand (exceeds r (sm.maxLoad r threshold)) maxSweep.toNat sm.holders.toFinset sm.counts) d) = false

section NoNewOverload

namespace Reassigned

variable {sm after : SessionManager} {order : List (Σ _ : String, Session)} {ids : List String}

theorem counts_after (h : Reassigned sm after order ids) {id : String} (hid : id ≠ "") :
    after.counts id = ids.count id := by
  rw [counts_of_ne after hid, h.entries, stickyIDs_reassign h.length]

theorem counts_before (h : Reassigned sm after order ids) {id : String} (hid : id ≠ "") :
    sm.counts id = (stickyIDs order).count id := by
  rw [counts_of_ne sm hid]
  exact ((h.perm.map _).count_eq id).symm

theorem total_eq (h : Reassigned sm after order ids) (hempty : ids.count "" = (stickyIDs order).count "") :
    after.total = sm.total := by
  have hbefore := total_add sm
  have hafter := total_add after
  have hlength : after.byIP.entries.length = sm.byIP.entries.length := by
    rw [h.entries, ← h.perm.length_eq]
    unfold reassign
    rw [List.length_map, List.length_zip, h.length, min_self]
  have hperm : (stickyIDs order).count "" = (stickyIDs sm.byIP.entries).count "" := (h.perm.map _).count_eq ""
  rw [h.entries, stickyIDs_reassign h.length, hempty, hperm, ← h.entries, hlength] at hafter
  omega

end Reassigned

variable {r : Rounding} {sm : SessionManager} {pool : Pool} {threshold : Float64} {maxSweep : ℤ}
  {order : List (Σ _ : String, Session)} {after : SessionManager}

theorem no_overload_empty :
    ¬(sm.counts "" < after.counts "" ∧ exceeds r (sm.maxLoad r threshold) (after.counts "") = true) := by
  rw [counts_empty, counts_empty]
  exact fun hless => absurd hless.1 (lt_irrefl 0)

theorem settles_idle (hsweep : 1 ≤ maxSweep) (h : Reassigned sm after order (stickyIDs order)) :
    Settles r sm pool threshold maxSweep after where
  overload id := by
    by_cases hid : id = ""
    · rw [hid]
      exact no_overload_empty
    · rw [h.counts_after hid, ← h.counts_before hid]
      exact fun hless => absurd hless.1 (lt_irrefl _)
  changed := by
    rw [h.length_changed, List.countP_eq_zero.mpr fun p hp => by simpa using eq_of_mem_zip_self hp]
    exact le_trans (by decide) hsweep
  target ip hne := by
    obtain ⟨p, hp, hdiff, -⟩ := (h.exists_changed_iff fun _ _ => True).mp ⟨ip, hne, trivial⟩
    exact absurd (eq_of_mem_zip_self hp) hdiff
  total := h.total_eq rfl

section Sweep

variable (hthreshold : 1 ≤ threshold) (hids : ∀ u ∈ pool.upstreams, u.id ≠ "") (hsome : sm.underloaded r pool ≠ [])
  (h : Reassigned sm after order (sweepIDs r sm pool threshold maxSweep (stickyIDs order)).1)

include hthreshold hsome

include h in
theorem counts_sweepIDs {id : String} (hid : id ≠ "") :
    (sweepIDs r sm pool threshold maxSweep (stickyIDs order)).2.counts id = after.counts id := by
  have hcounts :
      (sweepIDs r sm pool threshold maxSweep (stickyIDs order)).2.counts id + (stickyIDs order).count id =
        sm.counts id + (sweepIDs r sm pool threshold maxSweep (stickyIDs order)).1.count id :=
    counts_pass (setting r sm pool hthreshold hsome) _ _ id
  rw [← h.counts_before hid, Nat.add_comm, Nat.add_left_cancel_iff] at hcounts
  rw [hcounts, h.counts_after hid]

include hids in
theorem count_empty_sweepIDs :
    (sweepIDs r sm pool threshold maxSweep (stickyIDs order)).1.count "" = (stickyIDs order).count "" := by
  have hs := setting r sm pool hthreshold hsome
  have hcounts :
      (sweepIDs r sm pool threshold maxSweep (stickyIDs order)).2.counts "" + (stickyIDs order).count "" =
        sm.counts "" + (sweepIDs r sm pool threshold maxSweep (stickyIDs order)).1.count "" :=
    counts_pass hs _ _ ""
  have hnone : (sweepIDs r sm pool threshold maxSweep (stickyIDs order)).2.counts "" ≤ sm.counts "" := by
    obtain ⟨left, htracks⟩ := tracks_pass maxSweep.toNat hs (stickyIDs order)
    exact htracks.counts_le hs (empty_notMem_underloaded r sm pool hids)
  rw [counts_empty] at hnone hcounts
  rw [Nat.le_zero.mp hnone, Nat.zero_add, Nat.zero_add] at hcounts
  exact hcounts.symm

include hids h in
theorem settles_sweep (hsweep : 1 ≤ maxSweep) (hroom : Room r sm pool threshold maxSweep) :
    Settles r sm pool threshold maxSweep after where
  overload id := by
    by_cases hid : id = ""
    · rw [hid]
      exact no_overload_empty
    · rw [← counts_sweepIDs hthreshold hsome h hid]
      apply not_crowded_of_room (setting r sm pool hthreshold hsome)
      rw [demand_stickyIDs h.perm]
      exact hroom
  changed := by
    have hmoved : 0 + ((stickyIDs order).zip (sweepIDs r sm pool threshold maxSweep (stickyIDs order)).1).countP
        (fun p => p.2 ≠ p.1) ≤ maxSweep.toNat :=
      (countP_zip_pass_le (stickyIDs order) ⟨sm.counts, 0⟩).trans (moved_pass_le _ _ (Nat.zero_le _))
    rw [h.length_changed]
    omega
  target ip hne := by
    rw [← mem_underloaded]
    by_contra hnot
    obtain ⟨p, hp, hdiff, hout⟩ := (h.exists_changed_iff fun _ id => id ∉ sm.underloaded r pool).mp ⟨ip, hne, hnot⟩
    rcases mem_zip_pass (setting r sm pool hthreshold hsome) hp with hsame | hmem
    · exact hdiff hsame
    · exact hout hmem
  total := h.total_eq (count_empty_sweepIDs hthreshold hids hsome)

end Sweep

/-- A pass creates no new overload exactly if there is room. -/
theorem rebalance_settles_iff (hthreshold : 1 ≤ threshold) (hsweep : 1 ≤ maxSweep)
    (hids : ∀ u ∈ pool.upstreams, u.id ≠ "") :
    (∀ (order : List (Σ _ : String, Session)) (h : order.Perm sm.byIP.entries),
      Settles r sm pool threshold maxSweep (sm.rebalance r pool threshold maxSweep order h)) ↔
      Room r sm pool threshold maxSweep := by
  constructor
  · intro hall d hd
    have hsome : sm.underloaded r pool ≠ [] := List.ne_nil_of_mem hd
    have hs := setting r sm pool hthreshold hsome
    -- the worst order visits the sessions of the destinations first, which then receive every move
    obtain ⟨ids, hperm, hfull⟩ : ∃ ids : List String, ids.Perm (stickyIDs sm.byIP.entries) ∧
        ∀ d ∈ sm.underloaded r pool, (sweepIDs r sm pool threshold maxSweep ids).2.counts d = _ :=
      exists_full_pass hs (counts_le sm)
    obtain ⟨order, rfl, horder⟩ := exists_order hperm
    have hsettles := hall order horder
    have hafter := rebalance_sweep r sm pool maxSweep hthreshold hids horder hsome
    have hdne : d ≠ "" := by
      rintro rfl
      exact empty_notMem_underloaded r sm pool hids hd
    have hcounts := (counts_sweepIDs hthreshold hsome hafter hdne).symm.trans (hfull d hd)
    rw [demand_stickyIDs (List.Perm.refl _)] at hcounts
    rw [← hcounts, ← Bool.not_eq_true]
    intro hhigh
    refine hsettles.overload d ⟨?_, hhigh⟩
    by_contra hless
    have hlow := hs.low d hd
    rw [hs.mono _ _ (not_lt.mp hless) hhigh] at hlow
    cases hlow
  · intro hroom order h
    by_cases hsome : sm.underloaded r pool = []
    · exact settles_idle hsweep (rebalance_idle r sm pool maxSweep h hsome)
    · have hsweeps := rebalance_sweep r sm pool maxSweep hthreshold hids h hsome
      exact settles_sweep hthreshold hids hsome hsweeps hsweep hroom

def assigned (l : List (String × String)) : SessionManager where
  byIP := l.foldr (fun p m => m.insert p.1 { ip := p.1, limiter := none, stickyID := p.2, lastSeen := 0 }) ∅
  lim := rateInf
  burst := 1
  timeout := 0

def fiveToOne : SessionManager :=
  assigned [("10.0.0.1", "a"), ("10.0.0.2", "a"), ("10.0.0.3", "a"), ("10.0.0.4", "a"), ("10.0.0.5", "a"),
    ("10.0.0.6", "b")]

def twoReady : Pool := Pool.allReady [⟨"a", false⟩, ⟨"b", false⟩]

theorem rebalance_settles_five_to_one :
    Settles .exact fiveToOne twoReady (finite (3 / 2)) 10
      (fiveToOne.rebalance .exact twoReady (finite (3 / 2)) 10 _ (List.Perm.refl _)) := by
  refine (rebalance_settles_iff (by decide +kernel) (by decide) (by decide)).mpr ?_ _ _
  unfold Room
  decide +kernel

def mostlyDown : SessionManager :=
  assigned [("10.0.0.1", "a"), ("10.0.0.2", "a"), ("10.0.0.3", "a"), ("10.0.0.4", "a"), ("10.0.0.5", "a"),
    ("10.0.0.6", "a"), ("10.0.0.7", "a"), ("10.0.0.8", "c"), ("10.0.0.9", "d"), ("10.0.0.10", "e")]

def twoOfFiveReady : Pool where
  __ := Pool.allReady [⟨"a", false⟩, ⟨"b", false⟩, ⟨"c", false⟩, ⟨"d", false⟩, ⟨"e", false⟩]
  isReady := fun id => id = "a" || id = "b"

theorem idle_upstream_overloaded :
    mostlyDown.counts "b" = 0 ∧ mostlyDown.maxLoad .exact (finite (3 / 2)) = finite (15 / 4) ∧
      (mostlyDown.rebalance .exact twoOfFiveReady (finite (3 / 2)) 10 _ (List.Perm.refl _)).counts "b" = 4 ∧
      ¬Settles .exact mostlyDown twoOfFiveReady (finite (3 / 2)) 10
        (mostlyDown.rebalance .exact twoOfFiveReady (finite (3 / 2)) 10 _ (List.Perm.refl _)) := by
  have hcount :
      (mostlyDown.rebalance .exact twoOfFiveReady (finite (3 / 2)) 10 _ (List.Perm.refl _)).counts "b" = 4 := by
    decide +kernel
  refine ⟨by decide +kernel, by decide +kernel, hcount, fun h => h.overload "b" ?_⟩
  rw [hcount]
  decide +kernel

end NoNewOverload

section Progress

variable (r : Rounding) (sm : SessionManager) (pool : Pool) (threshold : Float64) (maxSweep : ℤ)

def readyMean : ℚ := sm.total / (pool.upstreams.filter (fun u => pool.isReady u.id)).length

def Overloaded (id : String) : Prop := finite (sm.readyMean pool) * threshold < finite (sm.counts id)

instance decidableOverloaded (id : String) : Decidable (sm.Overloaded pool threshold id) :=
  inferInstanceAs (Decidable (_ < _))

def Overfull (id : String) : Prop :=
  sm.Overloaded pool threshold id ∧ exceeds r (sm.maxLoad r threshold) (sm.counts id) = true

instance decidableOverfull : DecidablePred (sm.Overfull r pool threshold) :=
  fun _ => inferInstanceAs (Decidable (_ ∧ _))

abbrev departures (m : ℕ) (id : String) : ℕ :=
  leavers (exceeds r (sm.maxLoad r threshold)) (nextID (sm.underloaded r pool)) sm.counts
    (stickyIDs sm.byIP.entries) m id

structure Advances : Prop where
  below : sm.underloaded r pool ≠ []
  above : ∃ id, sm.Overfull r pool threshold id
  spare : ∃ m < maxSweep.toNat,
    ∑ id ∈ sm.holders.toFinset with ¬sm.Overfull r pool threshold id, sm.departures r pool threshold m id ≤ m

variable {r sm pool threshold maxSweep}

theorem overloaded_or_overfull (r : Rounding) (sm : SessionManager) (pool : Pool) (threshold : Float64) :
    (∀ id, exceeds r (sm.maxLoad r threshold) (sm.counts id) = true → sm.Overloaded pool threshold id) ∨
      ∀ id, sm.Overloaded pool threshold id → exceeds r (sm.maxLoad r threshold) (sm.counts id) = true := by
  by_contra hnot
  simp only [not_or, not_forall] at hnot
  obtain ⟨⟨a, ha, hna⟩, b, hb, hnb⟩ := hnot
  rcases le_total (sm.counts a) (sm.counts b) with hle | hle
  · exact hnb (decide_eq_true (lt_finite_of_le (of_decide_eq_true ha) (r.ofNat_mono hle)))
  · exact hna (lt_finite_of_le hb (Nat.cast_le.mpr hle))

theorem sum_departures (hthreshold : 1 ≤ threshold) (hids : ∀ u ∈ pool.upstreams, u.id ≠ "")
    (hsome : sm.underloaded r pool ≠ []) {order : List (Σ _ : String, Session)} (h : order.Perm sm.byIP.entries)
    (m : ℕ) :
    ∑ id ∈ (stickyIDs order).toFinset with ¬sm.Overfull r pool threshold id,
      leavers (exceeds r (sm.maxLoad r threshold)) (nextID (sm.underloaded r pool)) sm.counts (stickyIDs order)
        m id =
        ∑ id ∈ sm.holders.toFinset with ¬sm.Overfull r pool threshold id, sm.departures r pool threshold m id := by
  have hs := setting r sm pool hthreshold hsome
  rw [Finset.sum_filter, Finset.sum_filter, sum_holders sm h]
  · refine Finset.sum_congr rfl fun id _ => ?_
    unfold departures leavers
    rw [(stickyIDs_perm h).count_eq id]
  · unfold leavers
    rw [counts_empty, hs.arrivals_eq_zero (empty_notMem_underloaded r sm pool hids), Nat.add_zero, excess_zero,
      Nat.min_zero, ite_self]

variable (hthreshold : 1 ≤ threshold) (hsweep : 1 ≤ maxSweep) (hids : ∀ u ∈ pool.upstreams, u.id ≠ "")

include hthreshold hids

theorem changed_of_advances (hadv : sm.Advances r pool threshold maxSweep) {order : List (Σ _ : String, Session)}
    (h : order.Perm sm.byIP.entries) :
    ∃ p ∈ (stickyIDs order).zip (sweepIDs r sm pool threshold maxSweep (stickyIDs order)).1,
      sm.Overfull r pool threshold p.1 ∧ p.2 ≠ p.1 := by
  have hs := setting r sm pool hthreshold hadv.below
  obtain ⟨id, hid⟩ := hadv.above
  obtain ⟨m, hm, hspare⟩ := hadv.spare
  rw [← sum_departures hthreshold hids hadv.below h] at hspare
  have hmem : id ∈ stickyIDs order := by
    have hpos := (hs.pos_of_high hid.2).trans_le (counts_le sm id)
    exact (stickyIDs_perm h).mem_iff.mpr (List.count_pos_iff.mp hpos)
  apply Tracks.exists_moved hs _ hm hspare hid hid.2 (tracks_start ..) _ (List.forall_mem_nil _) hmem
  · intro d hd hfull
    have hlow := hs.low d hd
    rw [hfull.2] at hlow
    cases hlow
  · intro y
    rw [List.append_nil]

theorem unchanged_of_no_spare (hsome : sm.underloaded r pool ≠ [])
    (hall : ∀ m < maxSweep.toNat,
      m < ∑ id ∈ sm.holders.toFinset with ¬sm.Overfull r pool threshold id, sm.departures r pool threshold m id) :
    ∃ order : List (Σ _ : String, Session), order.Perm sm.byIP.entries ∧
      ∀ p ∈ (stickyIDs order).zip (sweepIDs r sm pool threshold maxSweep (stickyIDs order)).1,
        sm.Overfull r pool threshold p.1 → p.2 = p.1 := by
  have hs := setting r sm pool hthreshold hsome
  obtain ⟨ids, hperm, hids⟩ := exists_unmoved hs
    fun m hm => (hall m hm).trans_eq (sum_departures hthreshold hids hsome (List.Perm.refl _) m).symm
  obtain ⟨order, rfl, horder⟩ := exists_order hperm
  exact ⟨order, horder, hids⟩

omit hids hthreshold in
theorem exists_overfull
    (hsub : ∀ id, exceeds r (sm.maxLoad r threshold) (sm.counts id) = true → sm.Overloaded pool threshold id)
    {order : List (Σ _ : String, Session)} {Q : String → Prop}
    (h : ∃ p ∈ (stickyIDs order).zip (sweepIDs r sm pool threshold maxSweep (stickyIDs order)).1,
      p.2 ≠ p.1 ∧ Q p.1) :
    ∃ id, sm.Overfull r pool threshold id := by
  by_contra hnone
  have hidle : sweepIDs r sm pool threshold maxSweep (stickyIDs order) = (stickyIDs order, ⟨sm.counts, 0⟩) :=
    pass_eq_self fun id _ hmove => hnone ⟨id, hsub id hmove.2, hmove.2⟩
  obtain ⟨p, hp, hdiff, -⟩ := h
  rw [hidle] at hp
  exact hdiff (eq_of_mem_zip_self hp)

omit hids in
theorem departures_zero (hsome : sm.underloaded r pool ≠ [])
    (hsub : ∀ id, exceeds r (sm.maxLoad r threshold) (sm.counts id) = true → sm.Overloaded pool threshold id) :
    ∑ id ∈ sm.holders.toFinset with ¬sm.Overfull r pool threshold id, sm.departures r pool threshold 0 id ≤ 0 := by
  refine le_of_eq (Finset.sum_eq_zero fun id hid => ?_)
  have hlow : exceeds r (sm.maxLoad r threshold) (sm.counts id) = false := by
    rw [← Bool.not_eq_true]
    intro hhigh
    exact (Finset.mem_filter.mp hid).2 ⟨hsub id hhigh, hhigh⟩
  refine Nat.le_zero.mp ((min_le_right _ _).trans (excess_le (setting r sm pool hthreshold hsome).mono ?_))
  exact hlow

include hsweep in
/-- A pass moves a session off an overloaded upstream, in whatever order, exactly if it can and nothing else uses up
its moves. -/
theorem rebalance_advances_iff (hover : ∃ id, sm.Overloaded pool threshold id) :
    (∀ (order : List (Σ _ : String, Session)) (h : order.Perm sm.byIP.entries),
      ∃ ip, (sm.rebalance r pool threshold maxSweep order h).sticky ip ≠ sm.sticky ip ∧
        sm.Overloaded pool threshold (sm.sticky ip)) ↔
      sm.Advances r pool threshold maxSweep := by
  constructor
  · intro hall
    have hsome : sm.underloaded r pool ≠ [] := by
      intro hnone
      obtain ⟨ip, hip⟩ := hall _ (List.Perm.refl _)
      obtain ⟨p, hp, hdiff, -⟩ := ((rebalance_idle r sm pool maxSweep (List.Perm.refl _) hnone).exists_changed_iff
        fun id _ => sm.Overloaded pool threshold id).mp ⟨ip, hip⟩
      exact hdiff (eq_of_mem_zip_self hp)
    have hchanged : ∀ order : List (Σ _ : String, Session), order.Perm sm.byIP.entries →
        ∃ p ∈ (stickyIDs order).zip (sweepIDs r sm pool threshold maxSweep (stickyIDs order)).1,
          p.2 ≠ p.1 ∧ sm.Overloaded pool threshold p.1 := fun order h =>
      ((rebalance_sweep r sm pool maxSweep hthreshold hids h hsome).exists_changed_iff
        fun id _ => sm.Overloaded pool threshold id).mp (hall order h)
    -- both limits bound the same counts, so that one set of upstreams contains the other
    rcases overloaded_or_overfull r sm pool threshold with hsub | hsub
    · have habove := exists_overfull hsub (hchanged _ (List.Perm.refl _))
      exact ⟨hsome, habove, 0, by omega, departures_zero hthreshold hsome hsub⟩
    · refine ⟨hsome, hover.imp fun id hid => ⟨hid, hsub id hid⟩, ?_⟩
      by_contra hnone
      simp only [not_exists, not_and, not_le] at hnone
      obtain ⟨order, horder, hsame⟩ := unchanged_of_no_spare hthreshold hids hsome hnone
      obtain ⟨p, hp, hdiff, hp'⟩ := hchanged order horder
      exact hdiff (hsame p hp ⟨hp', hsub _ hp'⟩)
  · intro hadv order h
    have hchanged := rebalance_sweep r sm pool maxSweep hthreshold hids h hadv.below
    obtain ⟨p, hp, hfull, hdiff⟩ := changed_of_advances hthreshold hids hadv h
    exact (hchanged.exists_changed_iff fun id _ => sm.Overloaded pool threshold id).mpr ⟨p, hp, hdiff, hfull.1⟩

end Progress

theorem rebalance_advances_five_to_one :
    ∃ ip,
      (fiveToOne.rebalance .exact twoReady (finite (3 / 2)) 10 _ (List.Perm.refl _)).sticky ip ≠
        fiveToOne.sticky ip ∧
      fiveToOne.Overloaded twoReady (finite (3 / 2)) (fiveToOne.sticky ip) := by
  refine (rebalance_advances_iff (by decide +kernel) (by decide) (by decide) ⟨"a", by decide +kernel⟩).mpr ?_ _ _
  exact ⟨by decide +kernel, ⟨"a", by decide +kernel⟩, 0, by decide, by decide +kernel⟩

def bothOnOne : SessionManager := assigned [("10.0.0.1", "a"), ("10.0.0.2", "a")]

theorem idle_upstream_ignored :
    bothOnOne.Overloaded twoReady (finite (3 / 2)) "a" ∧
      twoReady.isReady "b" = true ∧ (bothOnOne.counts "b" : ℚ) < bothOnOne.readyMean twoReady ∧
      ∀ ip ∈ bothOnOne.byIP.keys,
        (bothOnOne.rebalance .exact twoReady (finite (3 / 2)) 10 _ (List.Perm.refl _)).sticky ip =
          bothOnOne.sticky ip := by
  decide +kernel

end EBeacon.Network.SessionManager
