import EBeacon.Library.Shares
import EBeacon.Library.Words
import EBeacon.Upstream.LoadBalancer

/-!
The round robin over the upstreams of one priority: in a round as long as the weights together every
upstream is first as often as it weighs.
-/

namespace EBeacon.Upstream.LoadBalancer

open Shares

variable (b : LoadBalancer)

def weightedRoundRobinWithinPriority (ups : List Upstream) (index : UInt64) : List Upstream :=
  rotateUniqueFromIndex ups (b.weightedPrimaryIndex ups index)

def share (u : Upstream) : ℕ := (b.upstreamWeight u).toInt.toNat

variable {b} {ups : List Upstream}

theorem upstreamWeight_toInt (u : Upstream) : (b.upstreamWeight u).toInt = b.share u ∧ 1 ≤ b.share u := by
  have hweight := b.toInt_upstreamWeight u
  unfold share
  omega

theorem total_pos (hne : ups ≠ []) : 0 < total b.share ups := by
  obtain ⟨u, rest, rfl⟩ := List.exists_cons_of_ne_nil hne
  have := (upstreamWeight_toInt (b := b) u).2
  rw [total_cons]
  omega

theorem toInt_add_weight {cumulative : Int64} {c : ℕ} (hc : cumulative.toInt = c) (u : Upstream)
    (hfits : c + b.share u < 2 ^ 63) : (cumulative + b.upstreamWeight u).toInt = (c + b.share u : ℕ) := by
  rw [Int64.toInt_add, hc, (upstreamWeight_toInt u).1, Int.bmod_eq_of_le (by omega) (by omega)]
  omega

theorem toInt_totalWeight {cumulative : Int64} {c : ℕ} (hc : cumulative.toInt = c)
    (hfits : c + total b.share ups < 2 ^ 63) :
    (ups.foldl (fun total u => total + b.upstreamWeight u) cumulative).toInt = (c + total b.share ups : ℕ) := by
  induction ups generalizing cumulative c with
  | nil => simpa [total] using hc
  | cons u ups ih =>
    rw [total_cons] at hfits ⊢
    rw [List.foldl_cons, ih (toInt_add_weight hc u (by omega)) (by omega), Nat.add_assoc]

theorem primaryFrom_eq_owner {target cumulative : Int64} {c t : ℕ} (idx : ℕ) (hc : cumulative.toInt = c)
    (ht : target.toInt = (c + t : ℕ)) (hfits : c + total b.share ups < 2 ^ 63) :
    b.primaryFrom target cumulative idx ups = (owner b.share ups t).map (idx + ·) := by
  induction ups generalizing cumulative c t idx with
  | nil => rfl
  | cons u ups ih =>
    rw [total_cons] at hfits
    have hnext := toInt_add_weight (b := b) hc u (by omega)
    have hlt : target < cumulative + b.upstreamWeight u ↔ t < b.share u := by
      rw [Int64.lt_iff_toInt_lt, hnext, ht]
      omega
    unfold primaryFrom owner
    dsimp only
    by_cases hown : t < b.share u
    · rw [if_pos (hlt.mpr hown), if_pos hown]
      rfl
    · rw [if_neg (fun h => hown (hlt.mp h)), if_neg hown,
        ih (t := t - b.share u) (idx + 1) hnext (by rw [ht]; omega) (by omega), Option.map_map]
      congr 1
      funext i
      exact Nat.add_right_comm idx 1 i

theorem owner_weightedPrimaryIndex (hne : ups ≠ []) (hfits : total b.share ups < 2 ^ 63) (index : UInt64) :
    ∃ i, i < ups.length ∧ owner b.share ups (index.toNat % total b.share ups) = some i ∧
      b.weightedPrimaryIndex ups index = i := by
  have hpos := total_pos (b := b) hne
  obtain ⟨i, hi⟩ := exists_owner b.share (Nat.mod_lt index.toNat hpos)
  refine ⟨i, owner_lt hi, hi, ?_⟩
  have htotal : (ups.foldl (fun total u => total + b.upstreamWeight u) 0).toInt = (total b.share ups : ℕ) := by
    rw [toInt_totalWeight (c := 0) rfl (by omega), Nat.zero_add]
  unfold weightedPrimaryIndex
  dsimp only
  generalize ups.foldl (fun total u => total + b.upstreamWeight u) 0 = totalWeight at htotal
  have hpositive : ¬ totalWeight ≤ 0 := by
    rw [Int64.le_iff_toInt_le, htotal]
    change ¬ (total b.share ups : ℤ) ≤ 0
    omega
  have hmod : (index % totalWeight.toUInt64).toNat = index.toNat % total b.share ups := by
    have hword : totalWeight.toUInt64.toNat = total b.share ups := by
      rw [Words.toNat_toUInt64_of_nonneg (by omega), htotal, Int.toNat_natCast]
    rw [UInt64.toNat_mod, hword]
  have hlt := Nat.mod_lt index.toNat hpos
  have htarget : (index % totalWeight.toUInt64).toInt64.toInt = (0 + index.toNat % total b.share ups : ℕ) := by
    rw [Words.toInt_toInt64 (by omega), hmod, Nat.zero_add]
  rw [if_neg hne, if_neg hpositive, primaryFrom_eq_owner (c := 0) 0 rfl htarget (by omega), hi]
  simp

theorem weightedRoundRobin_eq_rotate {index : UInt64} {i : ℕ} (hi : i < ups.length)
    (h : b.weightedPrimaryIndex ups index = i) : b.weightedRoundRobinWithinPriority ups index = ups.rotate i := by
  rw [weightedRoundRobinWithinPriority, rotateUniqueFromIndex_eq_rotate, h, if_neg (by omega)]
  rfl

theorem card_primary (hne : ups ≠ []) (hfits : total b.share ups < 2 ^ 63) {k : ℕ}
    (hk : k + total b.share ups ≤ 2 ^ 64) {i : ℕ} (hi : i < ups.length) :
    ((Finset.Ico k (k + total b.share ups)).filter
      (fun j => b.weightedPrimaryIndex ups (UInt64.ofNat j) = i)).card = b.share ups[i] := by
  rw [← count_owner b.share hi, ← card_window _ k]
  congr 1
  apply Finset.filter_congr
  intro j hj
  rw [Finset.mem_Ico] at hj
  obtain ⟨i', -, howner, hprimary⟩ := owner_weightedPrimaryIndex hne hfits (UInt64.ofNat j)
  have hword : (UInt64.ofNat j).toNat = j := UInt64.toNat_ofNat_of_lt' (hj.2.trans_le hk)
  rw [hword] at howner
  rw [hprimary, howner, Option.some.injEq]
  omega

theorem card_first (hne : ups ≠ []) (hfits : total b.share ups < 2 ^ 63) {k : ℕ}
    (hk : k + total b.share ups ≤ 2 ^ 64) (u : Upstream) :
    ((Finset.Ico k (k + total b.share ups)).filter
      (fun j => (b.weightedRoundRobinWithinPriority ups (UInt64.ofNat j)).head? = some u)).card =
        ups.count u * b.share u := by
  rw [← count_member b.share u, ← card_window _ k]
  congr 1
  apply Finset.filter_congr
  intro j hj
  rw [Finset.mem_Ico] at hj
  obtain ⟨i, hi, howner, hprimary⟩ := owner_weightedPrimaryIndex hne hfits (UInt64.ofNat j)
  have hword : (UInt64.ofNat j).toNat = j := UInt64.toNat_ofNat_of_lt' (hj.2.trans_le hk)
  rw [hword] at howner
  rw [weightedRoundRobin_eq_rotate hi hprimary, howner, List.head?_rotate hi]
  rfl

theorem reorderWithinPriority_tier {orderFn : OrderRNG → List Upstream → List Upstream × OrderRNG}
    (horder : ∀ rng sub, (orderFn rng sub).1.Perm sub) (rng : OrderRNG)
    (htier : ∀ u ∈ ups, ∀ v ∈ ups, b.priority u = b.priority v) :
    b.reorderWithinPriority rng orderFn ups = (orderFn rng ups).1 := by
  unfold reorderWithinPriority
  cases ups with
  | nil => exact (List.Perm.eq_nil (horder rng [])).symm
  | cons u ups =>
    have hsame : ∀ v ∈ ups, decide (b.priority v = b.priority u) = true := by
      intro v hv
      exact decide_eq_true (htier v (List.mem_cons_of_mem u hv) u List.mem_cons_self)
    have hlength := (horder rng (u :: ups)).length_eq
    rw [List.length_cons, reorderFrom, List.takeWhile_eq_self_iff.mpr hsame, List.dropWhile_eq_nil_iff.mpr hsame]
    rw [List.take_of_length_le hlength.le, List.drop_of_length_le hlength.ge, reorderFrom,
      List.append_nil, List.append_nil]

theorem orderForPath_tier (hstrategy : b.loadBalancing ∉ ["random", "least-conn", "score"])
    (htier : ∀ u ∈ ups, ∀ v ∈ ups, b.priority u = b.priority v) (apiPath : String) :
    b.orderForPath ups apiPath = b.weightedRoundRobinWithinPriority ups b.rrCounter := by
  simp only [List.mem_cons, List.not_mem_nil, or_false, not_or] at hstrategy
  have hsorted : Sorting.stableSort (fun u v => decide (b.priority u < b.priority v)) ups = ups := by
    apply Sorting.stableSort_of_sorted
    refine List.pairwise_of_forall_mem_list (fun u hu v hv => ?_)
    exact decide_eq_false (htier v hv u hu).not_lt
  unfold orderForPath
  dsimp only
  rw [if_neg hstrategy.1, if_neg hstrategy.2.1, if_neg hstrategy.2.2, hsorted]
  exact reorderWithinPriority_tier (fun _ sub => rotateUniqueFromIndex_perm sub _) _ htier

theorem primaryFrom_counter (counter : UInt64) (target cumulative : Int64) (idx : ℕ) :
    { b with rrCounter := counter }.primaryFrom target cumulative idx ups =
      b.primaryFrom target cumulative idx ups := by
  induction ups generalizing cumulative idx with
  | nil => rfl
  | cons u ups ih =>
    unfold primaryFrom
    dsimp only
    rw [ih]
    rfl

theorem orderForPath_fair (hne : ups ≠ []) (hfits : total b.share ups < 2 ^ 63) {k : ℕ}
    (hk : k + total b.share ups ≤ 2 ^ 64) (hstrategy : b.loadBalancing ∉ ["random", "least-conn", "score"])
    (htier : ∀ u ∈ ups, ∀ v ∈ ups, b.priority u = b.priority v) (apiPath : String) (u : Upstream) :
    ((Finset.Ico k (k + total b.share ups)).filter (fun j =>
      ({ b with rrCounter := UInt64.ofNat j }.orderForPath ups apiPath).head? = some u)).card =
        ups.count u * b.share u := by
  rw [← card_first hne hfits hk u]
  congr 1
  apply Finset.filter_congr
  intro j hj
  rw [orderForPath_tier (b := { b with rrCounter := UInt64.ofNat j }) hstrategy htier apiPath]
  unfold weightedRoundRobinWithinPriority weightedPrimaryIndex
  dsimp only
  rw [primaryFrom_counter]
  rfl

/-- A round from any index chooses every place of the list as often as its upstream weighs, and every
order is a rotation of the list. -/
theorem weightedRoundRobin_fair (hne : ups ≠ []) (hfits : total b.share ups < 2 ^ 63) (k : ℕ)
    (hk : k + total b.share ups ≤ 2 ^ 64) :
    (∀ (i : ℕ) (hi : i < ups.length), ((Finset.Ico k (k + total b.share ups)).filter
      (fun j => b.weightedPrimaryIndex ups (UInt64.ofNat j) = i)).card = b.share ups[i]) ∧
    (∀ u, ((Finset.Ico k (k + total b.share ups)).filter
      (fun j => (b.weightedRoundRobinWithinPriority ups (UInt64.ofNat j)).head? = some u)).card =
        ups.count u * b.share u) ∧
    ∀ index, ∃ i < ups.length, b.weightedPrimaryIndex ups index = i ∧
      b.weightedRoundRobinWithinPriority ups index = ups.rotate i := by
  refine ⟨fun i hi => card_primary hne hfits hk hi, card_first hne hfits hk, fun index => ?_⟩
  obtain ⟨i, hi, -, hprimary⟩ := owner_weightedPrimaryIndex hne hfits index
  exact ⟨i, hi, hprimary, weightedRoundRobin_eq_rotate hi hprimary⟩

def threeToOne : LoadBalancer where
  priority := fun _ => 0
  weight := fun u => if u.id = "heavy" then 3 else 0
  activeConns := fun _ => 0
  score := fun _ _ => 0
  loadBalancing := "round-robin"
  rrCounter := 0

theorem weightedRoundRobin_fair_heavy :
    ((Finset.Ico 7 (7 + total threeToOne.share [⟨"heavy", false⟩, ⟨"light", false⟩])).filter (fun j =>
      threeToOne.weightedPrimaryIndex [⟨"heavy", false⟩, ⟨"light", false⟩] (UInt64.ofNat j) = (0 : ℕ))).card = 3 :=
  (@weightedRoundRobin_fair threeToOne [⟨"heavy", false⟩, ⟨"light", false⟩] (by simp)
    (by decide) 7 (by decide)).1 0 (by decide)

end EBeacon.Upstream.LoadBalancer
