import EBeacon.Library.Sorting
import EBeacon.Upstream.Pool
import Mathlib.Data.List.Rotate
import Mathlib.Data.List.TakeWhile

/-!
The order in which a pool tries its candidates: by priority, and within a priority by the strategy
of the load balancer.
-/

namespace EBeacon.Upstream

open Sorting

structure OrderRNG where
  state : UInt64

def newOrderRNG (seed : UInt64) : OrderRNG :=
  let seed := if seed = 0 then 1 else seed
  let seed := seed + 0x9e3779b97f4a7c15
  let seed := (seed ^^^ (seed >>> 30)) * 0xbf58476d1ce4e5b9
  let seed := (seed ^^^ (seed >>> 27)) * 0x94d049bb133111eb
  let seed := seed ^^^ (seed >>> 31)
  ⟨if seed = 0 then 1 else seed⟩

namespace OrderRNG

def next (r : OrderRNG) : UInt64 × OrderRNG :=
  let x := r.state
  let x := x ^^^ (x <<< 13)
  let x := x ^^^ (x >>> 7)
  let x := x ^^^ (x <<< 17)
  (x, ⟨x⟩)

def float64 (r : OrderRNG) : Float × OrderRNG :=
  ((r.next.1 >>> 11).toFloat / ((1 : UInt64) <<< 53).toFloat, r.next.2)

end OrderRNG

/-- What ordering reads: the configured priorities and weights, the open connections, the scores
and the strategy, and the number of requests ordered before. -/
structure LoadBalancer where
  priority : Upstream → ℤ
  weight : Upstream → Int64
  activeConns : Upstream → Int64
  score : Upstream → String → Float
  loadBalancing : String
  rrCounter : UInt64

namespace LoadBalancer

variable (b : LoadBalancer)

def upstreamWeight (u : Upstream) : Int64 := if b.weight u ≤ 0 then 1 else b.weight u

def primaryFrom (target : Int64) : Int64 → ℕ → List Upstream → Option ℕ
  | _, _, [] => none
  | cumulative, idx, u :: ups =>
    let cumulative := cumulative + b.upstreamWeight u
    if target < cumulative then some idx else primaryFrom target cumulative (idx + 1) ups

def weightedPrimaryIndex (ups : List Upstream) (index : UInt64) : ℤ :=
  if ups = [] then -1
  else
    let totalWeight := ups.foldl (fun total u => total + b.upstreamWeight u) 0
    if totalWeight ≤ 0 then (index % UInt64.ofNat ups.length).toNat
    else
      let target := (index % totalWeight.toUInt64).toInt64
      ((b.primaryFrom target 0 0 ups).getD (ups.length - 1) : ℕ)

def rotateUniqueFromIndex (ups : List Upstream) (first : ℤ) : List Upstream :=
  let first := if first < 0 ∨ first ≥ ups.length then 0 else first.toNat
  (List.range ups.length).filterMap (fun offset => ups[(first + offset) % ups.length]?)

def baseWeight (base : Upstream → Float) (u : Upstream) : Float :=
  let base := base u
  let base := if base.isNaN || base.isInf || base < 0 then 0 else base
  base * (b.upstreamWeight u).toFloat

def chosenFrom (target : Float) : Float → ℕ → List Float → Option ℕ
  | _, _, [] => none
  | cumulative, idx, weight :: weights =>
    let cumulative := cumulative + weight
    if target < cumulative then some idx else chosenFrom target cumulative (idx + 1) weights

def drawWeights (base : Upstream → Float) (remaining : List Upstream) : List Float :=
  let weights := remaining.map (b.baseWeight base)
  if weights.foldl (· + ·) 0 ≤ 0 then remaining.map (fun u => (b.upstreamWeight u).toFloat) else weights

def choose (base : Upstream → Float) (draw : Float) (remaining : List Upstream) : ℕ :=
  let weights := b.drawWeights base remaining
  let total := weights.foldl (· + ·) 0
  (chosenFrom (draw * total) 0 0 weights).getD (remaining.length - 1)

def drawFrom (base : Upstream → Float) : ℕ → OrderRNG → List Upstream → List Upstream × OrderRNG
  | 0, rng, _ => ([], rng)
  | turns + 1, rng, remaining =>
    match remaining[b.choose base rng.float64.1 remaining]? with
    | none => ([], rng)
    | some u =>
      let rest := drawFrom base turns rng.float64.2
        (remaining.eraseIdx (b.choose base rng.float64.1 remaining))
      (u :: rest.1, rest.2)

def weightedOrderWithoutReplacement (base : Upstream → Float) (rng : OrderRNG) (ups : List Upstream) :
    List Upstream × OrderRNG :=
  b.drawFrom base ups.length rng ups

def reorderFrom (orderFn : OrderRNG → List Upstream → List Upstream × OrderRNG) :
    ℕ → OrderRNG → List Upstream → List Upstream
  | _, _, [] => []
  | 0, _, ups => ups
  | turns + 1, rng, u :: ups =>
    let tier := u :: ups.takeWhile (fun v => b.priority v = b.priority u)
    let sub := orderFn rng tier
    sub.1.take tier.length ++ tier.drop sub.1.length ++
      reorderFrom orderFn turns sub.2 (ups.dropWhile (fun v => b.priority v = b.priority u))

def reorderWithinPriority (rng : OrderRNG)
    (orderFn : OrderRNG → List Upstream → List Upstream × OrderRNG) (ups : List Upstream) :
    List Upstream :=
  b.reorderFrom orderFn ups.length rng ups

def leastConnLess (u v : Upstream) : Bool :=
  if b.priority u ≠ b.priority v then b.priority u < b.priority v
  else
    let left := (b.activeConns u).toFloat / (b.upstreamWeight u).toFloat
    let right := (b.activeConns v).toFloat / (b.upstreamWeight v).toFloat
    if left != right then left < right
    else if b.activeConns u ≠ b.activeConns v then b.activeConns u < b.activeConns v
    else u.id < v.id

def orderForPath (ups : List Upstream) (apiPath : String) : List Upstream :=
  let out := stableSort (fun u v => b.priority u < b.priority v) ups
  let requestIndex := b.rrCounter
  let rng := newOrderRNG (requestIndex + 1)
  if b.loadBalancing = "random" then
    b.reorderWithinPriority rng (b.weightedOrderWithoutReplacement (fun _ => 1)) out
  else if b.loadBalancing = "least-conn" then stableSort b.leastConnLess out
  else if b.loadBalancing = "score" then
    b.reorderWithinPriority rng (b.weightedOrderWithoutReplacement (fun u => b.score u apiPath)) out
  else
    b.reorderWithinPriority rng
      (fun rng sub => (rotateUniqueFromIndex sub (b.weightedPrimaryIndex sub requestIndex), rng)) out

theorem toInt_upstreamWeight (u : Upstream) : (b.upstreamWeight u).toInt = max (b.weight u).toInt 1 := by
  have hzero : (0 : Int64).toInt = 0 := rfl
  have hone : (1 : Int64).toInt = 1 := rfl
  unfold upstreamWeight
  split_ifs with hle
  · rw [Int64.le_iff_toInt_le, hzero] at hle
    omega
  · rw [Int64.le_iff_toInt_le, hzero] at hle
    omega

theorem chosenFrom_lt {target cumulative : Float} {idx i : ℕ} {weights : List Float}
    (h : chosenFrom target cumulative idx weights = some i) : i < idx + weights.length := by
  induction weights generalizing cumulative idx with
  | nil => cases h
  | cons weight weights ih =>
    unfold chosenFrom at h
    dsimp only at h
    rw [List.length_cons]
    split_ifs at h
    · cases h
      omega
    · have hlt := ih h
      omega

theorem length_drawWeights (base : Upstream → Float) (remaining : List Upstream) :
    (b.drawWeights base remaining).length = remaining.length := by
  unfold drawWeights
  dsimp only
  split_ifs <;> exact List.length_map _

theorem choose_lt (base : Upstream → Float) (draw : Float) {remaining : List Upstream}
    (h : remaining ≠ []) : b.choose base draw remaining < remaining.length := by
  have hpos : 0 < remaining.length := List.length_pos_iff.mpr h
  have hlength := b.length_drawWeights base remaining
  unfold choose
  dsimp only
  cases hchosen : chosenFrom (draw * (b.drawWeights base remaining).foldl (· + ·) 0) 0 0
      (b.drawWeights base remaining) with
  | none =>
    rw [Option.getD_none]
    omega
  | some i =>
    have hlt := chosenFrom_lt hchosen
    rw [Option.getD_some]
    omega

theorem drawFrom_perm (base : Upstream → Float) {turns : ℕ} (rng : OrderRNG) {ups : List Upstream}
    (h : ups.length ≤ turns) : (b.drawFrom base turns rng ups).1.Perm ups := by
  induction turns generalizing rng ups with
  | zero =>
    rw [List.length_eq_zero_iff.mp (Nat.le_zero.mp h)]
    exact List.Perm.refl []
  | succ turns ih =>
    unfold drawFrom
    by_cases hnil : ups = []
    · subst hnil
      exact List.Perm.refl []
    · have hlt := b.choose_lt base rng.float64.1 hnil
      rw [List.getElem?_eq_getElem hlt]
      have hlength := List.length_eraseIdx_of_lt hlt
      refine List.Perm.trans (List.Perm.cons _ (ih rng.float64.2 (by omega))) ?_
      exact List.getElem_cons_eraseIdx_perm hlt

theorem filterMap_range_getElem? {α : Type} (l : List α) :
    (List.range l.length).filterMap (fun i => l[i]?) = l := by
  induction l using List.reverseRecOn with
  | nil => rfl
  | append_singleton l a ih =>
    have hfront : (List.range l.length).filterMap (fun i => (l ++ [a])[i]?) = l := by
      refine Eq.trans (List.filterMap_congr (fun i hi => ?_)) ih
      exact List.getElem?_append_left (List.mem_range.mp hi)
    rw [List.length_append, List.length_singleton, List.range_succ, List.filterMap_append, hfront]
    simp

theorem rotateUniqueFromIndex_eq_rotate (ups : List Upstream) (first : ℤ) :
    rotateUniqueFromIndex ups first =
      ups.rotate (if first < 0 ∨ first ≥ ups.length then 0 else first.toNat) := by
  unfold rotateUniqueFromIndex
  dsimp only
  generalize (if first < 0 ∨ first ≥ ups.length then 0 else first.toNat) = k
  have hlist := filterMap_range_getElem? (ups.rotate k)
  rw [List.length_rotate] at hlist
  refine Eq.trans (List.filterMap_congr (fun i hi => ?_)) hlist
  rw [List.getElem?_rotate (List.mem_range.mp hi), Nat.add_comm]

theorem rotateUniqueFromIndex_perm (ups : List Upstream) (first : ℤ) :
    (rotateUniqueFromIndex ups first).Perm ups := by
  rw [rotateUniqueFromIndex_eq_rotate]
  exact List.rotate_perm ups _

theorem reorderFrom_perm {orderFn : OrderRNG → List Upstream → List Upstream × OrderRNG}
    (horder : ∀ rng sub, (orderFn rng sub).1.Perm sub) {turns : ℕ} (rng : OrderRNG) {ups : List Upstream}
    (hsorted : ups.Pairwise (fun u v => b.priority u ≤ b.priority v)) :
    (b.reorderFrom orderFn turns rng ups).Perm ups ∧
      (b.reorderFrom orderFn turns rng ups).Pairwise (fun u v => b.priority u ≤ b.priority v) := by
  induction turns generalizing rng ups with
  | zero =>
    cases ups with
    | nil => exact ⟨List.Perm.refl [], List.Pairwise.nil⟩
    | cons u ups => exact ⟨List.Perm.refl _, hsorted⟩
  | succ turns ih =>
    cases ups with
    | nil => exact ⟨List.Perm.refl [], List.Pairwise.nil⟩
    | cons u ups =>
      obtain ⟨hu, hups⟩ := List.pairwise_cons.mp hsorted
      have hsplit : u :: ups.takeWhile (fun v => b.priority v = b.priority u) ++
          ups.dropWhile (fun v => b.priority v = b.priority u) = u :: ups := by
        rw [List.cons_append, List.takeWhile_append_dropWhile]
      generalize htier : u :: ups.takeWhile (fun v => b.priority v = b.priority u) = tier at hsplit
      generalize hrest : ups.dropWhile (fun v => b.priority v = b.priority u) = rest at hsplit
      have htierPriority : ∀ v ∈ tier, b.priority v = b.priority u := by
        intro v hv
        rw [← htier] at hv
        rcases List.mem_cons.mp hv with rfl | hv
        · rfl
        · simpa using List.mem_takeWhile_imp hv
      have hrestPriority : ∀ v ∈ rest, b.priority u ≤ b.priority v := by
        intro v hv
        rw [← hrest] at hv
        exact hu v ((List.dropWhile_sublist _).subset hv)
      have hsub := horder rng tier
      have hcopy : (orderFn rng tier).1.take tier.length ++ tier.drop (orderFn rng tier).1.length =
          (orderFn rng tier).1 := by
        rw [← hsub.length_eq, List.take_length, hsub.length_eq, List.drop_length, List.append_nil]
      obtain ⟨hperm, hpairwise⟩ := ih (orderFn rng tier).2
        (hups.sublist (hrest ▸ List.dropWhile_sublist _) : rest.Pairwise _)
      unfold reorderFrom
      dsimp only
      rw [htier, hrest, hcopy]
      refine ⟨?_, List.pairwise_append.mpr ⟨?_, hpairwise, ?_⟩⟩
      · rw [← hsplit]
        exact hsub.append hperm
      · refine List.pairwise_of_forall_mem_list (fun v hv w hw => ?_)
        rw [htierPriority v (hsub.subset hv), htierPriority w (hsub.subset hw)]
      · intro v hv w hw
        rw [htierPriority v (hsub.subset hv)]
        exact hrestPriority w (hperm.subset hw)

theorem leastConnLess_priority (u v : Upstream) (h : b.priority u ≠ b.priority v) :
    b.leastConnLess u v = decide (b.priority u < b.priority v) := if_pos h

theorem orderForPath_perm_sorted (ups : List Upstream) (apiPath : String) :
    (b.orderForPath ups apiPath).Perm ups ∧
      (b.orderForPath ups apiPath).Pairwise (fun u v => b.priority u ≤ b.priority v) := by
  have hperm := stableSort_perm (fun u v => decide (b.priority u < b.priority v)) ups
  have hsorted := stableSort_ranked b.priority
    (fun u v h => decide_eq_true h) (fun u v h => decide_eq_false h.not_gt) ups
  have hreorder : ∀ orderFn : OrderRNG → List Upstream → List Upstream × OrderRNG,
      (∀ rng sub, (orderFn rng sub).1.Perm sub) → ∀ rng,
      let out := b.reorderWithinPriority rng orderFn
        (stableSort (fun u v => decide (b.priority u < b.priority v)) ups)
      out.Perm ups ∧ out.Pairwise (fun u v => b.priority u ≤ b.priority v) := by
    intro orderFn horder rng
    obtain ⟨hout, htiers⟩ := b.reorderFrom_perm horder rng hsorted
    exact ⟨hout.trans hperm, htiers⟩
  unfold orderForPath
  dsimp only
  split_ifs
  · exact hreorder _ (fun rng sub => b.drawFrom_perm _ rng le_rfl) _
  · refine ⟨(stableSort_perm _ _).trans hperm, stableSort_ranked b.priority ?_ ?_ _⟩
    · intro u v h
      rw [b.leastConnLess_priority u v h.ne]
      exact decide_eq_true h
    · intro u v h
      rw [b.leastConnLess_priority u v h.ne']
      exact decide_eq_false h.not_gt
  · exact hreorder _ (fun rng sub => b.drawFrom_perm _ rng le_rfl) _
  · exact hreorder _ (fun _ sub => rotateUniqueFromIndex_perm sub _) _

end LoadBalancer

end EBeacon.Upstream
