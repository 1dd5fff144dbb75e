import EBeacon.Library.Float64
import EBeacon.Library.Shares
import EBeacon.Upstream.OrderRNG

/-!
The draws of `weightedOrderWithoutReplacement`. The order is written over the numbers that it computes with:
those of the processor, and exact ones.
-/

namespace EBeacon.Upstream

open Function

structure Numbers (K : Type) where
  ofInt64 : Int64 → K
  isNaN : K → Bool
  isInf : K → Bool
  float64 : OrderRNG → K × OrderRNG

namespace Numbers

section Order

variable {K : Type} [OfNat K 0] [Add K] [Mul K] [LT K] [LE K] [DecidableLT K] [DecidableLE K]

def chosenFrom (target : K) : K → ℕ → List K → Option ℕ
  | _, _, [] => none
  | cumulative, idx, weight :: weights =>
    let cumulative := cumulative + weight
    if target < cumulative then some idx else chosenFrom target cumulative (idx + 1) weights

variable (N : Numbers K) (b : LoadBalancer) (base : Upstream → K)

def baseWeight (u : Upstream) : K :=
  let base := base u
  let base := if N.isNaN base || N.isInf base || base < 0 then 0 else base
  base * N.ofInt64 (b.upstreamWeight u)

def drawWeights (remaining : List Upstream) : List K :=
  let weights := remaining.map (N.baseWeight b base)
  if weights.foldl (· + ·) 0 ≤ 0 then remaining.map (fun u => N.ofInt64 (b.upstreamWeight u)) else weights

def total (remaining : List Upstream) : K := (N.drawWeights b base remaining).foldl (· + ·) 0

def target (rng : OrderRNG) (remaining : List Upstream) : K :=
  (N.float64 rng).1 * N.total b base remaining

def choose (rng : OrderRNG) (remaining : List Upstream) : ℕ :=
  (chosenFrom (N.target b base rng remaining) 0 0 (N.drawWeights b base remaining)).getD (remaining.length - 1)

def drawFrom : ℕ → OrderRNG → List Upstream → List Upstream × OrderRNG
  | 0, rng, _ => ([], rng)
  | turns + 1, rng, remaining =>
    match remaining[N.choose b base rng remaining]? with
    | none => ([], rng)
    | some u =>
      let rest := drawFrom turns (N.float64 rng).2 (remaining.eraseIdx (N.choose b base rng remaining))
      (u :: rest.1, rest.2)

def weightedOrderWithoutReplacement (rng : OrderRNG) (ups : List Upstream) : List Upstream × OrderRNG :=
  N.drawFrom b base ups.length rng ups

end Order

section Processor

def floats : Numbers Float := ⟨Int64.toFloat, Float.isNaN, Float.isInf, OrderRNG.float64⟩

theorem chosenFrom_floats (target cumulative : Float) (idx : ℕ) (weights : List Float) :
    chosenFrom target cumulative idx weights = LoadBalancer.chosenFrom target cumulative idx weights := by
  induction weights generalizing cumulative idx with
  | nil => rfl
  | cons weight weights ih =>
    unfold chosenFrom LoadBalancer.chosenFrom
    dsimp only
    rw [ih]

variable (b : LoadBalancer) (base : Upstream → Float)

theorem choose_floats (rng : OrderRNG) (remaining : List Upstream) :
    floats.choose b base rng remaining = b.choose base rng.float64.1 remaining := by
  unfold choose LoadBalancer.choose
  rw [chosenFrom_floats]
  rfl

theorem drawFrom_floats (turns : ℕ) (rng : OrderRNG) (remaining : List Upstream) :
    floats.drawFrom b base turns rng remaining = b.drawFrom base turns rng remaining := by
  induction turns generalizing rng remaining with
  | zero => rfl
  | succ turns ih =>
    unfold drawFrom LoadBalancer.drawFrom
    rw [choose_floats]
    cases remaining[b.choose base rng.float64.1 remaining]? with
    | none => rfl
    | some u =>
      dsimp only
      rw [ih]
      rfl

theorem weightedOrderWithoutReplacement_floats (rng : OrderRNG) (ups : List Upstream) :
    floats.weightedOrderWithoutReplacement b base rng ups = b.weightedOrderWithoutReplacement base rng ups :=
  drawFrom_floats b base ups.length rng ups

end Processor

section Exact

open Float64

def exact : Numbers Float64 :=
  ⟨fun x => finite x.toInt, Float64.isNaN, Float64.isInf, fun r => (finite r.fraction, r.next.2)⟩

def worth : Float64 → ℚ
  | finite q => max q 0
  | _ => 0

variable (b : LoadBalancer) (base : Upstream → Float64)

def weightOf (u : Upstream) : ℚ := (b.upstreamWeight u).toInt

def shares (remaining : List Upstream) : List ℚ :=
  let weights := remaining.map (fun u => worth (base u) * weightOf b u)
  if weights.sum ≤ 0 then remaining.map (weightOf b) else weights

theorem one_le_weightOf (u : Upstream) : 1 ≤ weightOf b u := by
  have hpos : 1 ≤ (b.upstreamWeight u).toInt := by
    rw [b.toInt_upstreamWeight]
    exact le_max_right _ _
  unfold weightOf
  exact_mod_cast hpos

theorem baseWeight_exact (u : Upstream) : exact.baseWeight b base u = finite (worth (base u) * weightOf b u) := by
  have hclamped : (if exact.isNaN (base u) || exact.isInf (base u) || base u < 0 then 0 else base u) =
      finite (worth (base u)) := by
    cases base u with
    | nan => rfl
    | inf negative => rfl
    | finite q =>
      by_cases hq : q < 0
      · have hneg : finite q < 0 := hq
        simp only [hneg, decide_true, Bool.or_true, if_true]
        exact congrArg finite (max_eq_right hq.le).symm
      · have hneg : ¬ finite q < 0 := hq
        have hnan : exact.isNaN (finite q) = false := rfl
        have hinf : exact.isInf (finite q) = false := rfl
        rw [hnan, hinf, decide_eq_false hneg, Bool.or_false, Bool.or_false, if_neg Bool.false_ne_true]
        exact congrArg finite (max_eq_left (not_lt.mp hq)).symm
  unfold baseWeight
  dsimp only
  rw [hclamped]
  rfl

theorem drawWeights_exact (remaining : List Upstream) :
    exact.drawWeights b base remaining = (shares b base remaining).map finite := by
  have hweights : remaining.map (exact.baseWeight b base) =
      (remaining.map (fun u => worth (base u) * weightOf b u)).map finite := by
    rw [List.map_map]
    exact List.map_congr_left (fun u _ => baseWeight_exact b base u)
  have hsum : (remaining.map (exact.baseWeight b base)).foldl (· + ·) 0 =
      finite (remaining.map (fun u => worth (base u) * weightOf b u)).sum := by
    rw [hweights]
    exact (foldl_add_finite 0 _).trans (by rw [zero_add])
  have hzero : (0 : Float64) = finite 0 := rfl
  unfold drawWeights shares
  dsimp only
  rw [hsum, hzero]
  simp only [finite_le]
  split_ifs with h
  · rw [List.map_map]
    rfl
  · exact hweights

theorem total_exact (remaining : List Upstream) :
    exact.total b base remaining = finite (shares b base remaining).sum := by
  unfold total
  rw [drawWeights_exact]
  exact (foldl_add_finite 0 _).trans (by rw [zero_add])

theorem target_exact (rng : OrderRNG) (remaining : List Upstream) :
    exact.target b base rng remaining = finite (rng.fraction * (shares b base remaining).sum) := by
  unfold target
  rw [total_exact]
  rfl

theorem sum_shares_pos {remaining : List Upstream} (h : remaining ≠ []) : 0 < (shares b base remaining).sum := by
  unfold shares
  dsimp only
  split_ifs with hsum
  · obtain ⟨u, rest, rfl⟩ := List.exists_cons_of_ne_nil h
    have hrest : 0 ≤ (rest.map (weightOf b)).sum := by
      apply List.sum_nonneg
      intro x hx
      obtain ⟨v, -, rfl⟩ := List.mem_map.mp hx
      exact zero_le_one.trans (one_le_weightOf b v)
    rw [List.map_cons, List.sum_cons]
    exact add_pos_of_pos_of_nonneg (zero_lt_one.trans_le (one_le_weightOf b u)) hrest
  · exact not_le.mp hsum

theorem length_shares (remaining : List Upstream) : (shares b base remaining).length = remaining.length := by
  unfold shares
  dsimp only
  split_ifs
  · exact List.length_map _
  · exact List.length_map _

theorem chosenFrom_finite {weights : List ℚ} {t c : ℚ} (idx : ℕ) (hlow : c ≤ t) (hlt : t < c + weights.sum) :
    ∃ i, chosenFrom (finite t) (finite c) idx (weights.map finite) = some (idx + i) ∧
      Shares.Holds weights (t - c) i := by
  induction weights generalizing c idx with
  | nil =>
    rw [List.sum_nil, add_zero] at hlt
    exact absurd hlt (not_lt.mpr hlow)
  | cons weight weights ih =>
    rw [List.map_cons]
    unfold chosenFrom
    dsimp only
    rw [finite_add]
    by_cases hstop : t < c + weight
    · have hstop' : finite t < finite (c + weight) := hstop
      exact ⟨0, if_pos hstop', Shares.holds_zero (sub_nonneg.mpr hlow) (sub_lt_iff_lt_add'.mpr hstop)⟩
    · have hstop' : ¬ finite t < finite (c + weight) := hstop
      rw [List.sum_cons, ← add_assoc] at hlt
      obtain ⟨i, hi, hholds⟩ := ih (idx + 1) (not_lt.mp hstop) hlt
      rw [if_neg hstop', hi, Nat.add_right_comm]
      refine ⟨i + 1, rfl, Shares.Holds.cons ?_⟩
      rwa [sub_sub]

variable {b base}

theorem target_lt_sum {remaining : List Upstream} (rng : OrderRNG) (h : 0 < (shares b base remaining).sum) :
    0 ≤ rng.fraction * (shares b base remaining).sum ∧
      rng.fraction * (shares b base remaining).sum < (shares b base remaining).sum :=
  ⟨mul_nonneg rng.fraction_nonneg h.le, mul_lt_of_lt_one_left h rng.fraction_lt_one⟩

theorem holds_choose {remaining : List Upstream} (rng : OrderRNG) (h : 0 < (shares b base remaining).sum) :
    Shares.Holds (shares b base remaining) (rng.fraction * (shares b base remaining).sum)
      (exact.choose b base rng remaining) := by
  obtain ⟨hlow, hlt⟩ := target_lt_sum rng h
  obtain ⟨i, hi, hholds⟩ := chosenFrom_finite 0 hlow (hlt.trans_eq (zero_add _).symm)
  have hchoose : exact.choose b base rng remaining = i := by
    unfold choose
    rw [target_exact, drawWeights_exact]
    change Option.getD (chosenFrom _ (finite 0) 0 _) _ = i
    rw [hi, Option.getD_some, Nat.zero_add]
  rw [hchoose]
  rwa [sub_zero] at hholds

variable (b base)

inductive Drawn : OrderRNG → List Upstream → List Upstream → OrderRNG → Prop
  | nil (rng : OrderRNG) : Drawn rng [] [] rng
  | cons {rng rng' : OrderRNG} {remaining ordered : List Upstream} {i : ℕ} {u : Upstream}
      (total_pos : 0 < exact.total b base remaining) (target_nonneg : 0 ≤ exact.target b base rng remaining)
      (target_lt : exact.target b base rng remaining < exact.total b base remaining)
      (holds : Shares.Holds (shares b base remaining) (rng.fraction * (shares b base remaining).sum) i)
      (taken : remaining[i]? = some u) (rest : Drawn rng.step (remaining.eraseIdx i) ordered rng') :
      Drawn rng remaining (u :: ordered) rng'

theorem drawn_drawFrom {turns : ℕ} (rng : OrderRNG) {remaining : List Upstream} (h : remaining.length ≤ turns) :
    Drawn b base rng remaining (exact.drawFrom b base turns rng remaining).1
      (exact.drawFrom b base turns rng remaining).2 := by
  induction turns generalizing rng remaining with
  | zero =>
    rw [List.length_eq_zero_iff.mp (Nat.le_zero.mp h)]
    exact .nil rng
  | succ turns ih =>
    unfold drawFrom
    by_cases hnil : remaining = []
    · subst hnil
      exact .nil rng
    · -- every upstream weighs at least one, so that the fallback has a positive total
      have hpos := sum_shares_pos b base hnil
      have hholds := holds_choose rng hpos
      have hlt := hholds.lt_length
      rw [length_shares] at hlt
      have hlength := List.length_eraseIdx_of_lt hlt
      obtain ⟨hlow, hbelow⟩ := target_lt_sum rng hpos
      rw [List.getElem?_eq_getElem hlt]
      refine .cons ?_ ?_ ?_ hholds (List.getElem?_eq_getElem hlt) (ih rng.step (by omega))
      · rw [total_exact]
        exact hpos
      · rw [target_exact]
        exact finite_le.mpr hlow
      · rw [target_exact, total_exact]
        exact hbelow

end Exact

section Ranged

open Float64

def ranged : Numbers Ranged :=
  ⟨fun x => ⟨finite x.toInt⟩, fun a => a.value.isNaN, fun a => a.value.isInf,
    fun r => (⟨finite r.fraction⟩, r.next.2)⟩

variable (b : LoadBalancer) (base : Upstream → Ranged)

structure NoOverflow (remaining : List Upstream) : Prop where
  weighted : (remaining.map (fun u => worth (base u).value * weightOf b u)).sum < limit
  configured : (remaining.map (weightOf b)).sum < limit

variable {b base} {remaining : List Upstream}

theorem worth_nonneg (a : Float64) : 0 ≤ worth a := by
  cases a with
  | nan => exact le_rfl
  | inf negative => exact le_rfl
  | finite q => exact le_max_right q 0

theorem weightOf_pos (b : LoadBalancer) (u : Upstream) : 0 < weightOf b u :=
  zero_lt_one.trans_le (one_le_weightOf b u)

theorem weighted_nonneg (b : LoadBalancer) (base : Upstream → Float64) (remaining : List Upstream) :
    ∀ q ∈ remaining.map (fun u => worth (base u) * weightOf b u), 0 ≤ q := by
  intro q hq
  obtain ⟨u, -, rfl⟩ := List.mem_map.mp hq
  exact mul_nonneg (worth_nonneg _) (weightOf_pos b u).le

theorem configured_nonneg (b : LoadBalancer) (remaining : List Upstream) :
    ∀ q ∈ remaining.map (weightOf b), 0 ≤ q := by
  intro q hq
  obtain ⟨u, -, rfl⟩ := List.mem_map.mp hq
  exact (weightOf_pos b u).le

theorem shares_nonneg (b : LoadBalancer) (base : Upstream → Float64) (remaining : List Upstream) :
    ∀ q ∈ shares b base remaining, 0 ≤ q := by
  unfold shares
  dsimp only
  split_ifs
  · exact configured_nonneg b remaining
  · exact weighted_nonneg b base remaining

theorem NoOverflow.sum_shares (h : NoOverflow b base remaining) :
    (shares b (fun u => (base u).value) remaining).sum < limit := by
  unfold shares
  dsimp only
  split_ifs
  · exact h.configured
  · exact h.weighted

theorem baseWeight_ranged {u : Upstream} (h : worth (base u).value * weightOf b u < limit) :
    ranged.baseWeight b base u = ⟨finite (worth (base u).value * weightOf b u)⟩ := by
  have hexact := baseWeight_exact b (fun u => (base u).value) u
  have hcap : (ranged.baseWeight b base u).value =
      Ranged.cap (exact.baseWeight b (fun u => (base u).value) u) := by
    by_cases hskip : (exact.isNaN (base u).value || exact.isInf (base u).value || (base u).value < 0) = true
    · have hskip' : (ranged.isNaN (base u) || ranged.isInf (base u) || base u < 0) = true := hskip
      simp only [baseWeight, hskip, hskip', if_true]
      rfl
    · have hskip' : ¬(ranged.isNaN (base u) || ranged.isInf (base u) || base u < 0) = true := hskip
      simp only [baseWeight, hskip, hskip']
      rfl
  rw [hexact, Ranged.cap_finite (mul_nonneg (worth_nonneg _) (weightOf_pos b u).le) h] at hcap
  exact congrArg Ranged.mk hcap

theorem drawWeights_ranged (h : NoOverflow b base remaining) :
    ranged.drawWeights b base remaining =
      (shares b (fun u => (base u).value) remaining).map (fun q => ⟨finite q⟩) := by
  have hnonneg := weighted_nonneg b (fun u => (base u).value) remaining
  have hweights : remaining.map (ranged.baseWeight b base) =
      (remaining.map (fun u => worth (base u).value * weightOf b u)).map (fun q => ⟨finite q⟩) := by
    rw [List.map_map]
    apply List.map_congr_left
    intro u hu
    apply baseWeight_ranged
    exact (List.single_le_sum hnonneg _ (List.mem_map_of_mem hu)).trans_lt h.weighted
  have hsum : (remaining.map (ranged.baseWeight b base)).foldl (· + ·) 0 =
      ⟨finite (remaining.map (fun u => worth (base u).value * weightOf b u)).sum⟩ := by
    rw [hweights]
    refine (Ranged.foldl_add hnonneg le_rfl ?_).trans (by rw [zero_add])
    rw [zero_add]
    exact h.weighted
  have hle : ∀ q : ℚ, (⟨finite q⟩ : Ranged) ≤ 0 ↔ q ≤ 0 := fun q => finite_le
  unfold drawWeights shares
  dsimp only
  rw [hsum]
  simp only [hle]
  split_ifs
  · rw [List.map_map]
    rfl
  · exact hweights

theorem total_ranged (h : NoOverflow b base remaining) :
    ranged.total b base remaining = ⟨finite (shares b (fun u => (base u).value) remaining).sum⟩ := by
  unfold total
  rw [drawWeights_ranged h]
  refine (Ranged.foldl_add (shares_nonneg b _ remaining) le_rfl ?_).trans (by rw [zero_add])
  rw [zero_add]
  exact h.sum_shares

theorem chosenFrom_ranged {weights : List ℚ} (hweights : ∀ q ∈ weights, 0 ≤ q) (t : ℚ) {c : ℚ} (hc : 0 ≤ c)
    (hlt : c + weights.sum < limit) (idx : ℕ) :
    chosenFrom (⟨finite t⟩ : Ranged) ⟨finite c⟩ idx (weights.map (fun q => ⟨finite q⟩)) =
      chosenFrom (finite t) (finite c) idx (weights.map finite) := by
  induction weights generalizing c idx with
  | nil => rfl
  | cons q weights ih =>
    obtain ⟨hq, hweights⟩ := List.forall_mem_cons.mp hweights
    have hsum := List.sum_nonneg hweights
    rw [List.sum_cons, ← add_assoc] at hlt
    rw [List.map_cons, List.map_cons]
    unfold chosenFrom
    dsimp only
    rw [Ranged.add_finite (by linarith) (by linarith), finite_add, ih hweights (by linarith) hlt]
    rfl

theorem choose_ranged (h : NoOverflow b base remaining) (hne : remaining ≠ []) (rng : OrderRNG) :
    ranged.choose b base rng remaining = exact.choose b (fun u => (base u).value) rng remaining := by
  have hpos := sum_shares_pos b (fun u => (base u).value) hne
  obtain ⟨hlow, hlt⟩ := target_lt_sum rng hpos
  have htarget : ranged.target b base rng remaining =
      ⟨finite (rng.fraction * (shares b (fun u => (base u).value) remaining).sum)⟩ := by
    unfold target
    rw [total_ranged h]
    exact Ranged.mul_finite hlow (hlt.trans h.sum_shares)
  unfold choose
  rw [htarget, drawWeights_ranged h, target_exact, drawWeights_exact]
  change (chosenFrom _ (⟨finite 0⟩ : Ranged) 0 _).getD _ = (chosenFrom _ (finite 0) 0 _).getD _
  rw [chosenFrom_ranged (shares_nonneg b _ remaining) _ le_rfl (by rw [zero_add]; exact h.sum_shares)]

end Ranged

end Numbers

open Numbers in
/-- Apart from the two replacements of zero the seeds of requests give different streams, and the draws pick
by a target below the total. -/
theorem order_generator_sound :
    (∀ (seed : UInt64) (n : ℕ), (OrderRNG.step^[n] (newOrderRNG seed)).state ≠ 0) ∧
    Injective (fun r : OrderRNG => r.next.1) ∧
    Injective mixSeed ∧
    (∀ s t, newOrderRNG s = newOrderRNG t ↔ s = t ∨ Merged s t ∨ Merged t s) ∧
    (∀ (c c' : UInt64) (n : ℕ), (newOrderRNG (c + 1)).outputs n = (newOrderRNG (c' + 1)).outputs n ↔
      c = c' ∨ Merged (c + 1) (c' + 1) ∨ Merged (c' + 1) (c + 1)) ∧
    (∀ c c' : UInt64, (newOrderRNG (c + 1)).draws = (newOrderRNG (c' + 1)).draws ↔
      c = c' ∨ Merged (c + 1) (c' + 1) ∨ Merged (c' + 1) (c + 1)) ∧
    (∀ r, 0 ≤ (exact.float64 r).1 ∧ (exact.float64 r).1 < 1) ∧
    ∀ b base rng ups, Drawn b base rng ups (exact.weightedOrderWithoutReplacement b base rng ups).1
      (exact.weightedOrderWithoutReplacement b base rng ups).2 := by
  have hcounters : ∀ c c' : UInt64, newOrderRNG (c + 1) = newOrderRNG (c' + 1) ↔
      c = c' ∨ Merged (c + 1) (c' + 1) ∨ Merged (c' + 1) (c + 1) := by
    intro c c'
    rw [newOrderRNG_eq_iff, UInt64.add_left_inj]
  refine ⟨OrderRNG.iterate_state_ne_zero, OrderRNG.next_injective, mixSeed_injective,
    fun _ _ => newOrderRNG_eq_iff, ?_, ?_, ?_, ?_⟩
  · intro c c' n
    rw [OrderRNG.outputs_eq_iff, hcounters]
  · intro c c'
    rw [OrderRNG.draws_injective.eq_iff, hcounters]
  · intro r
    exact ⟨Float64.finite_le.mpr r.fraction_nonneg, r.fraction_lt_one⟩
  · intro b base rng ups
    exact drawn_drawFrom b base rng le_rfl

end EBeacon.Upstream
