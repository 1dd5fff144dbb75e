import Mathlib.Data.List.AList
import EBeacon.Library.Float64
import EBeacon.Library.Sweeping
import EBeacon.Network.Session
import EBeacon.Upstream.Pool

/-!
The rebalancer of the sticky sessions. A pass counts the sessions of every upstream that has some, and visits the
sessions in the order of a map iteration; a session of an upstream above the limit goes to the next of the upstreams
that were below the mean.
-/

namespace EBeacon.Network.SessionManager

open Float64 Upstream Sweeping

def stickyIDs (sessions : List (Σ _ : String, Session)) : List String := sessions.map (·.2.stickyID)

def sticky (sm : SessionManager) (ip : String) : String := ((sm.byIP.lookup ip).map Session.stickyID).getD ""

def counts (sm : SessionManager) (id : String) : ℕ := ((stickyIDs sm.byIP.entries).filter (· ≠ "")).count id

def holders (sm : SessionManager) : List String := ((stickyIDs sm.byIP.entries).filter (· ≠ "")).dedup

def total (sm : SessionManager) : ℕ := (sm.holders.map sm.counts).sum

section Pass

variable (r : Rounding)

def mean (sm : SessionManager) : ℚ := r.div (r.ofNat sm.total) (r.ofNat sm.holders.length)

def maxLoad (sm : SessionManager) (threshold : Float64) : Float64 := r.mul (finite (sm.mean r)) threshold

def underloaded (sm : SessionManager) (pool : Pool) : List String :=
  (pool.upstreams.filter (fun u => pool.isReady u.id && r.ofNat (sm.counts u.id) < sm.mean r)).map (·.id)

def exceeds (maxLoad : Float64) (count : ℕ) : Bool := maxLoad < finite (r.ofNat count)

def nextID (underloaded : List String) (uidx : ℕ) : String := underloaded.getD (uidx % underloaded.length) ""

-- the loop that moves sessions; `uidx` and `moved` are one counter here, as they always agree
def sweep (maxLoad : Float64) (underloaded : List String) (maxSweep : ℤ) :
    (String → ℕ) → ℕ → List (Σ _ : String, Session) → List (Σ _ : String, Session)
  | _, _, [] => []
  | counts, moved, e :: rest =>
    if maxSweep ≤ moved then e :: rest
    else if e.2.stickyID ≠ "" ∧ exceeds r maxLoad (counts e.2.stickyID) = true then
      let oldID := e.2.stickyID
      let newID := nextID underloaded moved
      let left := Function.update counts oldID (counts oldID - 1)
      ⟨e.1, { e.2 with stickyID := newID }⟩ ::
        sweep maxLoad underloaded maxSweep (Function.update left newID (left newID + 1)) (moved + 1) rest
    else e :: sweep maxLoad underloaded maxSweep counts moved rest

def rebalanced (sm : SessionManager) (pool : Pool) (threshold : Float64) (maxSweep : ℤ)
    (order : List (Σ _ : String, Session)) : List (Σ _ : String, Session) :=
  if sm.holders.length = 0 then order
  else if sm.underloaded r pool = [] then order
  else sweep r (sm.maxLoad r threshold) (sm.underloaded r pool) maxSweep sm.counts 0 order

theorem keys_sweep (maxLoad : Float64) (underloaded : List String) (maxSweep : ℤ) (counts : String → ℕ) (moved : ℕ)
    (order : List (Σ _ : String, Session)) :
    (sweep r maxLoad underloaded maxSweep counts moved order).keys = order.keys := by
  induction order generalizing counts moved with
  | nil => rfl
  | cons e order ih =>
    unfold sweep
    split_ifs
    · rfl
    · rw [List.keys_cons, ih, List.keys_cons]
    · rw [List.keys_cons, ih, List.keys_cons]

theorem keys_rebalanced (sm : SessionManager) (pool : Pool) (threshold : Float64) (maxSweep : ℤ)
    (order : List (Σ _ : String, Session)) : (sm.rebalanced r pool threshold maxSweep order).keys = order.keys := by
  unfold rebalanced
  split_ifs
  · rfl
  · rfl
  · exact keys_sweep ..

def rebalance (sm : SessionManager) (pool : Pool) (threshold : Float64) (maxSweep : ℤ)
    (order : List (Σ _ : String, Session)) (h : order.Perm sm.byIP.entries) : SessionManager where
  __ := sm
  byIP :=
    { entries := sm.rebalanced r pool threshold maxSweep order
      nodupKeys := by
        unfold List.NodupKeys
        rw [keys_rebalanced]
        exact (List.perm_nodupKeys h).mpr sm.byIP.nodupKeys }

end Pass

section Counts

variable (sm : SessionManager)

theorem counts_empty : sm.counts "" = 0 := by
  unfold counts
  rw [List.count_eq_zero]
  simp

theorem counts_of_ne {id : String} (h : id ≠ "") : sm.counts id = (stickyIDs sm.byIP.entries).count id := by
  unfold counts
  exact List.count_filter (by simpa using h)

theorem counts_le (id : String) : sm.counts id ≤ (stickyIDs sm.byIP.entries).count id :=
  List.filter_sublist.count_le id

theorem mem_holders {id : String} : id ∈ sm.holders ↔ id ∈ stickyIDs sm.byIP.entries ∧ id ≠ "" := by
  unfold holders
  rw [List.mem_dedup, List.mem_filter, decide_eq_true_eq]

theorem total_add : sm.total + (stickyIDs sm.byIP.entries).count "" = sm.byIP.entries.length := by
  have hlength : sm.total = ((stickyIDs sm.byIP.entries).filter (· ≠ "")).length := by
    unfold total holders counts
    exact List.sum_map_count_dedup_eq_length _
  have hsplit := List.length_eq_countP_add_countP (· == "") (l := stickyIDs sm.byIP.entries)
  have hnot : ((stickyIDs sm.byIP.entries).filter (· ≠ "")).length =
      (stickyIDs sm.byIP.entries).countP (fun id => decide ¬(id == "") = true) := by
    rw [← List.countP_eq_length_filter]
    simp
  rw [hlength, hnot, Nat.add_comm]
  exact hsplit.symm.trans (List.length_map _)

theorem sum_holders {order : List (Σ _ : String, Session)} (h : order.Perm sm.byIP.entries) {f : String → ℕ}
    (hf : f "" = 0) : ∑ id ∈ (stickyIDs order).toFinset, f id = ∑ id ∈ sm.holders.toFinset, f id := by
  symm
  apply Finset.sum_subset
  · intro id hid
    rw [List.mem_toFinset, mem_holders] at hid
    exact List.mem_toFinset.mpr ((h.map _).mem_iff.mpr hid.1)
  · intro id hid hnot
    rw [List.mem_toFinset] at hid
    rw [List.mem_toFinset, mem_holders] at hnot
    have hempty : id = "" := by
      by_contra hne
      exact hnot ⟨(h.map _).mem_iff.mp hid, hne⟩
    rw [hempty, hf]

end Counts

section Reassigned

def reassign (order : List (Σ _ : String, Session)) (ids : List String) : List (Σ _ : String, Session) :=
  (order.zip ids).map (fun p => ⟨p.1.1, { p.1.2 with stickyID := p.2 }⟩)

theorem reassign_stickyIDs (order : List (Σ _ : String, Session)) : reassign order (stickyIDs order) = order := by
  unfold reassign stickyIDs
  nth_rewrite 1 [← List.map_id order]
  rw [List.zip_map', List.map_map]
  exact List.map_id order

theorem keys_reassign {order : List (Σ _ : String, Session)} {ids : List String} (h : ids.length = order.length) :
    (reassign order ids).keys = order.keys := by
  unfold reassign List.keys
  nth_rewrite 2 [← List.map_fst_zip h.ge]
  rw [List.map_map, List.map_map]
  rfl

theorem stickyIDs_reassign {order : List (Σ _ : String, Session)} {ids : List String}
    (h : ids.length = order.length) : stickyIDs (reassign order ids) = ids := by
  unfold reassign stickyIDs
  rw [List.map_map]
  exact List.map_snd_zip h.le

structure Reassigned (sm after : SessionManager) (order : List (Σ _ : String, Session)) (ids : List String) :
    Prop where
  perm : order.Perm sm.byIP.entries
  entries : after.byIP.entries = reassign order ids
  length : ids.length = order.length

theorem sticky_of_notMem {sm : SessionManager} {ip : String} (h : ip ∉ sm.byIP.entries.keys) :
    sm.sticky ip = "" := by
  unfold sticky
  rw [AList.lookup_eq_none.mpr h]
  rfl

theorem sticky_of_mem {sm : SessionManager} {e : Σ _ : String, Session} (h : e ∈ sm.byIP.entries) :
    sm.sticky e.1 = e.2.stickyID := by
  have hlookup : sm.byIP.lookup e.1 = some e.2 := AList.mem_lookup_iff.mpr h
  unfold sticky
  rw [hlookup]
  rfl

namespace Reassigned

variable {sm after : SessionManager} {order : List (Σ _ : String, Session)} {ids : List String}

theorem sticky_eq (h : Reassigned sm after order ids) {p : (Σ _ : String, Session) × String}
    (hp : p ∈ order.zip ids) :
    sm.sticky p.1.1 = p.1.2.stickyID ∧ after.sticky p.1.1 = p.2 := by
  have hafter : (⟨p.1.1, { p.1.2 with stickyID := p.2 }⟩ : Σ _ : String, Session) ∈ after.byIP.entries := by
    rw [h.entries]
    exact List.mem_map_of_mem hp
  exact ⟨sticky_of_mem (h.perm.mem_iff.mp (List.of_mem_zip hp).1), sticky_of_mem hafter⟩

theorem zip_stickyIDs (order : List (Σ _ : String, Session)) (ids : List String) :
    (stickyIDs order).zip ids = (order.zip ids).map (fun p => (p.1.2.stickyID, p.2)) := by
  unfold stickyIDs
  rw [List.zip_map_left]
  rfl

theorem exists_changed_iff (h : Reassigned sm after order ids) (Q : String → String → Prop) :
    (∃ ip, after.sticky ip ≠ sm.sticky ip ∧ Q (sm.sticky ip) (after.sticky ip)) ↔
      ∃ p ∈ (stickyIDs order).zip ids, p.2 ≠ p.1 ∧ Q p.1 p.2 := by
  rw [zip_stickyIDs]
  constructor
  · rintro ⟨ip, hne, hQ⟩
    have hip : ip ∈ order.keys := by
      by_contra hnot
      have hbefore : ip ∉ sm.byIP.entries.keys := fun hmem => hnot ((h.perm.map _).mem_iff.mpr hmem)
      have hafter : ip ∉ after.byIP.entries.keys := by
        rw [h.entries, keys_reassign h.length]
        exact hnot
      rw [sticky_of_notMem hbefore, sticky_of_notMem hafter] at hne
      exact hne rfl
    rw [← List.map_fst_zip h.length.ge, List.keys, List.map_map, List.mem_map] at hip
    obtain ⟨p, hp, rfl⟩ := hip
    obtain ⟨hbefore, hafter⟩ := h.sticky_eq hp
    refine ⟨_, List.mem_map_of_mem hp, ?_⟩
    dsimp only [Function.comp_apply] at hne hQ
    rw [hbefore, hafter] at hne hQ
    exact ⟨hne, hQ⟩
  · rintro ⟨q, hq, hne, hQ⟩
    rw [List.mem_map] at hq
    obtain ⟨p, hp, rfl⟩ := hq
    obtain ⟨hbefore, hafter⟩ := h.sticky_eq hp
    refine ⟨p.1.1, ?_⟩
    rw [hbefore, hafter]
    exact ⟨hne, hQ⟩

theorem length_changed (h : Reassigned sm after order ids) :
    (sm.byIP.keys.filter (fun ip => after.sticky ip ≠ sm.sticky ip)).length =
      ((stickyIDs order).zip ids).countP (fun p => p.2 ≠ p.1) := by
  have hkeys : sm.byIP.keys.Perm ((order.zip ids).map (fun p => p.1.1)) := by
    have hfst := congrArg (List.map Sigma.fst) (List.map_fst_zip h.length.ge)
    rw [List.map_map] at hfst
    exact (h.perm.map Sigma.fst).symm.trans (List.Perm.of_eq hfst.symm)
  rw [← List.countP_eq_length_filter, hkeys.countP_eq, zip_stickyIDs, List.countP_map, List.countP_map]
  apply List.countP_congr
  intro p hp
  obtain ⟨hbefore, hafter⟩ := h.sticky_eq hp
  simp only [Function.comp_apply, hbefore, hafter]

end Reassigned

end Reassigned

section Sweep

variable (r : Rounding)
variable {maxLoad : Float64} {underloaded : List String} {maxSweep : ℤ}

theorem sweep_eq (hzero : exceeds r maxLoad 0 = false) (hnext : ∀ k, nextID underloaded k ≠ "")
    {counts : String → ℕ} (hcounts : counts "" = 0) (moved : ℕ) (order : List (Σ _ : String, Session)) :
    sweep r maxLoad underloaded maxSweep counts moved order =
      reassign order
        (pass (exceeds r maxLoad) (nextID underloaded) maxSweep.toNat ⟨counts, moved⟩ (stickyIDs order)).1 := by
  induction order generalizing counts moved with
  | nil => rfl
  | cons e order ih =>
    unfold sweep
    by_cases hbreak : maxSweep ≤ moved
    · have hstop : ∀ x ∈ stickyIDs (e :: order), ¬(moved < maxSweep.toNat ∧ exceeds r maxLoad (counts x) = true) :=
        fun _ _ hmove => absurd hmove.1 (by omega)
      rw [if_pos hbreak, pass_eq_self hstop, reassign_stickyIDs]
    · rw [if_neg hbreak]
      by_cases hmove : e.2.stickyID ≠ "" ∧ exceeds r maxLoad (counts e.2.stickyID) = true
      · have hkeep : shift counts e.2.stickyID (nextID underloaded moved) "" = 0 := by
          unfold shift
          rw [Function.update_of_ne (hnext moved).symm, Function.update_of_ne hmove.1.symm, hcounts]
        have hvisit : moved < maxSweep.toNat ∧ exceeds r maxLoad (counts e.2.stickyID) = true := ⟨by omega, hmove.2⟩
        rw [if_pos hmove, stickyIDs, List.map_cons, Sweeping.pass, visit, if_pos hvisit]
        exact congrArg _ (ih hkeep (moved + 1))
      · -- the loop skips a session without an upstream, which a pass sees at a count of zero
        have hvisit : ¬(moved < maxSweep.toNat ∧ exceeds r maxLoad (counts e.2.stickyID) = true) := by
          rintro ⟨-, hhigh⟩
          refine hmove ⟨fun hnone => ?_, hhigh⟩
          rw [hnone, hcounts, hzero] at hhigh
          cases hhigh
        rw [if_neg hmove, stickyIDs, List.map_cons, Sweeping.pass, visit, if_neg hvisit]
        exact congrArg _ (ih hcounts moved)

end Sweep

section Rebalance

variable (r : Rounding) (sm : SessionManager) (pool : Pool) (threshold : Float64) (maxSweep : ℤ)

abbrev sweepIDs (ids : List String) : List String × State String :=
  pass (exceeds r (sm.maxLoad r threshold)) (nextID (sm.underloaded r pool)) maxSweep.toNat ⟨sm.counts, 0⟩ ids

theorem mem_underloaded {id : String} :
    id ∈ sm.underloaded r pool ↔
      ∃ u ∈ pool.upstreams, (pool.isReady u.id = true ∧ r.ofNat (sm.counts u.id) < sm.mean r) ∧ u.id = id := by
  simp only [underloaded, List.mem_map, List.mem_filter, Bool.and_eq_true, decide_eq_true_eq, and_assoc]

theorem mean_nonneg : 0 ≤ sm.mean r := r.nonneg_div (r.ofNat_nonneg _) (r.ofNat_nonneg _)

theorem underloaded_of_no_holders (h : sm.holders.length = 0) : sm.underloaded r pool = [] := by
  rw [List.eq_nil_iff_forall_not_mem]
  intro id hid
  obtain ⟨u, -, ⟨-, hless⟩, -⟩ := (mem_underloaded r sm pool).mp hid
  have hmean : sm.mean r = 0 := by
    unfold mean Rounding.div Rounding.ofNat
    rw [h, Nat.cast_zero, r.round_zero, div_zero, r.round_zero]
  rw [hmean] at hless
  exact absurd (r.ofNat_nonneg _) (not_le.mpr hless)

theorem nextID_mem {ids : List String} (h : ids ≠ []) (k : ℕ) : nextID ids k ∈ ids := by
  have hlt : k % ids.length < ids.length := Nat.mod_lt _ (List.length_pos_iff.mpr h)
  unfold nextID
  rw [List.getD_eq_getElem?_getD, List.getElem?_eq_getElem hlt, Option.getD_some]
  exact List.getElem_mem hlt

variable {threshold} (hthreshold : 1 ≤ threshold)

include hthreshold

theorem not_exceeds {count : ℕ} (h : r.ofNat count ≤ sm.mean r) :
    exceeds r (sm.maxLoad r threshold) count = false := by
  unfold exceeds maxLoad
  rw [decide_eq_false_iff_not]
  exact r.not_mul_lt (mean_nonneg r sm) (r.round_round _) hthreshold h

theorem setting (h : sm.underloaded r pool ≠ []) :
    Setting (exceeds r (sm.maxLoad r threshold)) (nextID (sm.underloaded r pool)) (sm.underloaded r pool)
      sm.counts where
  mono a b hle hhigh := decide_eq_true (lt_finite_of_le (of_decide_eq_true hhigh) (r.ofNat_mono hle))
  zero := by
    apply not_exceeds r sm hthreshold
    rw [Rounding.ofNat, Nat.cast_zero, r.round_zero]
    exact mean_nonneg r sm
  mem := nextID_mem h
  low d hd := by
    obtain ⟨u, -, ⟨-, hless⟩, rfl⟩ := (mem_underloaded r sm pool).mp hd
    exact not_exceeds r sm hthreshold hless.le

variable (hids : ∀ u ∈ pool.upstreams, u.id ≠ "") {order : List (Σ _ : String, Session)}
  (h : order.Perm sm.byIP.entries)

omit hthreshold in
include hids in
theorem empty_notMem_underloaded : "" ∉ sm.underloaded r pool := by
  intro hmem
  obtain ⟨u, hu, -, hid⟩ := (mem_underloaded r sm pool).mp hmem
  exact hids u hu hid

omit hthreshold in
theorem rebalance_idle (hnone : sm.underloaded r pool = []) :
    Reassigned sm (sm.rebalance r pool threshold maxSweep order h) order (stickyIDs order) := by
  refine ⟨h, ?_, List.length_map _⟩
  rw [reassign_stickyIDs]
  change sm.rebalanced r pool threshold maxSweep order = order
  unfold rebalanced
  rw [if_pos hnone, ite_self]

include hids in
theorem rebalance_sweep (hsome : sm.underloaded r pool ≠ []) :
    Reassigned sm (sm.rebalance r pool threshold maxSweep order h) order
      (sweepIDs r sm pool threshold maxSweep (stickyIDs order)).1 := by
  have hs := setting r sm pool hthreshold hsome
  refine ⟨h, ?_, (length_pass _ _).trans (List.length_map _)⟩
  change sm.rebalanced r pool threshold maxSweep order = _
  unfold rebalanced
  rw [if_neg (fun hnone => hsome (underloaded_of_no_holders r sm pool hnone)), if_neg hsome]
  apply sweep_eq r hs.zero
  · intro k hempty
    exact empty_notMem_underloaded r sm pool hids (hempty ▸ hs.mem k)
  · exact counts_empty sm

end Rebalance

section Orders

variable {sm : SessionManager}

theorem stickyIDs_perm {order : List (Σ _ : String, Session)} (h : order.Perm sm.byIP.entries) :
    (stickyIDs order).Perm (stickyIDs sm.byIP.entries) := h.map _

theorem exists_order {ids : List String} (h : ids.Perm (stickyIDs sm.byIP.entries)) :
    ∃ order, stickyIDs order = ids ∧ order.Perm sm.byIP.entries := by
  have hcomp := List.eq_map_comp_perm (fun e : Σ _ : String, Session => e.2.stickyID)
  obtain ⟨order, hmap, hperm⟩ := (congrFun₂ hcomp ids sm.byIP.entries).mpr h
  exact ⟨order, hmap.symm, hperm⟩

theorem demand_stickyIDs {order : List (Σ _ : String, Session)} (h : order.Perm sm.byIP.entries) {high : ℕ → Bool}
    {limit : ℕ} :
    demand high limit (stickyIDs order).toFinset sm.counts = demand high limit sm.holders.toFinset sm.counts := by
  unfold demand
  rw [sum_holders sm h]
  rw [counts_empty]
  rfl

end Orders

end EBeacon.Network.SessionManager
