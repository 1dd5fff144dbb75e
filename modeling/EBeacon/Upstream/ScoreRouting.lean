import EBeacon.Upstream.RouteScores
import EBeacon.Upstream.WeightedOrder
import Mathlib.Tactic.FieldSimp
import Mathlib.Tactic.Linarith
import Mathlib.Tactic.Positivity

/-!
Routing by score: what the records of an upstream make of its chance to be tried first.
-/

namespace EBeacon.Upstream

open Float64 Numbers ScoreTracker

structure ScoreWeights where
  errorRate : Float64
  latency : Float64
  headLag : Float64
  syncDistance : Float64

namespace ScoreWeights

def standard : ScoreWeights := ⟨finite 4, finite 8, finite 2, finite 1⟩

def orElse (weight standard : Float64) : Float64 := if 0 < weight then weight else standard

def effective : Option ScoreWeights → ScoreWeights
  | none => standard
  | some w => ⟨orElse w.errorRate standard.errorRate, orElse w.latency standard.latency,
      orElse w.headLag standard.headLag, orElse w.syncDistance standard.syncDistance⟩

end ScoreWeights

def nearness (x : ℚ) : ℚ := 1 / (1 + x)

def scaled (q : ℚ) (weight : Float64) : Ranged := ⟨finite q⟩ * ⟨weight⟩

def latencyScore (weight : Float64) (p90Latency : ℤ) : Ranged :=
  let p90 : ℚ := p90Latency / 1000000000
  if 0 < p90 then scaled (nearness p90) weight else ⟨weight⟩

def distanceScore (weight : Float64) (distance : UInt64) : Ranged := scaled (nearness distance.toNat) weight

def calculateScore (w : ScoreWeights) (errRate : ℚ) (p90Latency : ℤ) (headLag syncDist : UInt64) : Ranged :=
  scaled (1 - errRate) w.errorRate + latencyScore w.latency p90Latency + distanceScore w.headLag headLag +
    distanceScore w.syncDistance syncDist

structure UpstreamScoreDetails where
  score : Ranged
  errorRate : ℚ
  p90Latency : ℤ
  headLag : UInt64
  syncDistance : UInt64
  samples : ℕ

structure Scored where
  scores : Scores
  headSlot : UInt64
  syncDistance : UInt64

namespace Scored

def headLag (canonicalSlot headSlot : UInt64) : UInt64 :=
  if headSlot < canonicalSlot then canonicalSlot - headSlot else 0

def scoreDetails (u : Scored) (canonicalSlot : UInt64) (w : ScoreWeights) (snapshot : ScoreSnapshot) :
    UpstreamScoreDetails where
  score := calculateScore w snapshot.errorRate snapshot.p90Latency (headLag canonicalSlot u.headSlot) u.syncDistance
  errorRate := snapshot.errorRate
  p90Latency := snapshot.p90Latency
  headLag := headLag canonicalSlot u.headSlot
  syncDistance := u.syncDistance
  samples := snapshot.samples

def scoreDetailsWithWeights (u : Scored) (canonicalSlot : UInt64) (w : ScoreWeights) (apiPath : String) :
    UpstreamScoreDetails :=
  u.scoreDetails canonicalSlot w (u.scores.scoreSnapshotForPath apiPath)

def Reached (u : Scored) : Prop :=
  ∃ windowSize labels, Runs.exec Scores.next (.new windowSize) labels = some u.scores

end Scored

section Inputs

structure InRange (errorRate : ℚ) (p90Latency : ℤ) : Prop where
  nonneg : 0 ≤ errorRate
  le_one : errorRate ≤ 1
  latency : 0 ≤ p90Latency

theorem inRange_of_reports {size : ℕ} {history : List Record} {snapshot : ScoreSnapshot}
    (h : Reports size history snapshot) : InRange snapshot.errorRate snapshot.p90Latency := by
  have hcount : (history.rtake size).countP Record.isErr ≤ snapshot.samples := by
    have hle := List.countP_le_length (p := Record.isErr) (l := history.rtake size)
    rw [List.rtake, List.length_drop] at hle
    rw [h.samples, List.rtake]
    omega
  have hrate := h.errorRate
  have hp90 := h.p90
  refine ⟨?_, ?_, ?_⟩
  · rw [hrate]
    positivity
  · rw [hrate]
    exact div_le_one_of_le₀ (Nat.cast_le.mpr hcount) (Nat.cast_nonneg _)
  · unfold IsP90 at hp90
    split_ifs at hp90 with hnil
    · exact hp90.ge
    · obtain ⟨r, hr, hlatency⟩ := List.mem_map.mp hp90.1
      rw [List.mem_filter] at hr
      have hpos : 0 < r.latency := by
        have hboth := hr.2
        rw [Bool.and_eq_true, decide_eq_true_eq] at hboth
        exact hboth.2
      omega

theorem nearness_pos {x : ℚ} (h : 0 ≤ x) : 0 < nearness x := by
  unfold nearness
  positivity

theorem nearness_anti {x y : ℚ} (hx : 0 ≤ x) (h : x ≤ y) : nearness y ≤ nearness x := by
  unfold nearness
  apply one_div_le_one_div_of_le <;> linarith

def seconds (d : ℤ) : ℚ := d / 1000000000

theorem seconds_nonneg {d : ℤ} (h : 0 ≤ d) : 0 ≤ seconds d := by
  unfold seconds
  positivity

theorem seconds_mono {d d' : ℤ} (h : d ≤ d') : seconds d ≤ seconds d' := by
  unfold seconds
  gcongr

end Inputs

section Score

theorem latencyScore_eq {weight : ℚ} (hweight : 0 ≤ weight) (hlt : weight < limit) {d : ℤ} (h : 0 ≤ d) :
    latencyScore (finite weight) d = scaled (nearness (seconds d)) (finite weight) := by
  unfold latencyScore
  dsimp only
  split_ifs with hpos
  · rfl
  · have hzero : seconds d = 0 := le_antisymm (not_lt.mp hpos) (seconds_nonneg h)
    have hone : 1 * weight = weight := one_mul weight
    rw [hzero, nearness, add_zero, one_div_one, scaled,
      Ranged.mul_finite (hweight.trans_eq hone.symm) (hone.trans_lt hlt), hone]

def ScoreWeights.Positive (w : ScoreWeights) : Prop :=
  0 < w.errorRate ∧ 0 < w.latency ∧ 0 < w.headLag ∧ 0 < w.syncDistance

theorem orElse_pos (weight : Float64) {standard : Float64} (h : 0 < standard) :
    0 < ScoreWeights.orElse weight standard := by
  unfold ScoreWeights.orElse
  split_ifs with hpos
  · exact hpos
  · exact h

theorem effective_positive (cfg : Option ScoreWeights) : (ScoreWeights.effective cfg).Positive := by
  cases cfg with
  | none => exact ⟨by decide, by decide, by decide, by decide⟩
  | some w =>
    exact ⟨orElse_pos _ (by decide), orElse_pos _ (by decide), orElse_pos _ (by decide), orElse_pos _ (by decide)⟩

def ScoreWeights.isFinite (w : ScoreWeights) : Bool :=
  w.errorRate.isFinite && w.latency.isFinite && w.headLag.isFinite && w.syncDistance.isFinite

theorem worth_eq_zero {a : Float64} (h : a.isFinite = false) : worth a = 0 := by
  cases a with
  | nan => rfl
  | inf negative => rfl
  | finite q => cases h

theorem finite_worth {a : Float64} (hpos : 0 < a) (h : a.isFinite = true) : a = finite (worth a) ∧ 0 < worth a := by
  cases a with
  | nan => cases h
  | inf negative => cases h
  | finite q =>
    have hq : 0 < q := hpos
    have hworth : worth (finite q) = q := max_eq_left hq.le
    rw [hworth]
    exact ⟨rfl, hq⟩

def rating (w : ScoreWeights) (errRate : ℚ) (p90Latency : ℤ) (headLag syncDist : UInt64) : ℚ :=
  (1 - errRate) * worth w.errorRate + nearness (seconds p90Latency) * worth w.latency +
    nearness headLag.toNat * worth w.headLag + nearness syncDist.toNat * worth w.syncDistance

variable {w : ScoreWeights} {errRate errRate' : ℚ} {p90 p90' : ℤ} {lag lag' dist dist' : UInt64}

theorem isFinite_of_latencyScore {weight : Float64} {d : ℤ} (h : (latencyScore weight d).value.isFinite = true) :
    weight.isFinite = true := by
  unfold latencyScore at h
  dsimp only at h
  split_ifs at h
  · exact Ranged.isFinite_of_mul h
  · exact h

theorem isFinite_of_calculateScore (h : (calculateScore w errRate p90 lag dist).value.isFinite = true) :
    w.isFinite = true := by
  obtain ⟨h, hdist⟩ := Ranged.isFinite_of_add h
  obtain ⟨h, hlag⟩ := Ranged.isFinite_of_add h
  obtain ⟨herror, hlatency⟩ := Ranged.isFinite_of_add h
  unfold ScoreWeights.isFinite
  rw [Ranged.isFinite_of_mul herror, isFinite_of_latencyScore hlatency, Ranged.isFinite_of_mul hlag,
    Ranged.isFinite_of_mul hdist]
  rfl

structure ScoreWeights.Numbers (w : ScoreWeights) : Prop where
  eq : w = ⟨finite (worth w.errorRate), finite (worth w.latency), finite (worth w.headLag),
    finite (worth w.syncDistance)⟩
  errorRate : 0 < worth w.errorRate
  latency : 0 < worth w.latency
  headLag : 0 < worth w.headLag
  syncDistance : 0 < worth w.syncDistance

theorem ScoreWeights.Positive.numbers (hw : w.Positive) (hfinite : w.isFinite = true) : w.Numbers := by
  unfold ScoreWeights.isFinite at hfinite
  rw [Bool.and_eq_true, Bool.and_eq_true, Bool.and_eq_true] at hfinite
  obtain ⟨herror, hworthE⟩ := finite_worth hw.1 hfinite.1.1.1
  obtain ⟨hlatency, hworthL⟩ := finite_worth hw.2.1 hfinite.1.1.2
  obtain ⟨hlag, hworthH⟩ := finite_worth hw.2.2.1 hfinite.1.2
  obtain ⟨hdist, hworthD⟩ := finite_worth hw.2.2.2 hfinite.2
  refine ⟨?_, hworthE, hworthL, hworthH, hworthD⟩
  rw [← herror, ← hlatency, ← hlag, ← hdist]

def ScoreWeights.total (w : ScoreWeights) : ℚ :=
  worth w.errorRate + worth w.latency + worth w.headLag + worth w.syncDistance

theorem nearness_le_one {x : ℚ} (h : 0 ≤ x) : nearness x ≤ 1 := by
  have hanti := nearness_anti le_rfl h
  rwa [nearness, nearness, add_zero, one_div_one] at hanti

theorem rating_pos (hw : w.Numbers) (hrange : InRange errRate p90) : 0 < rating w errRate p90 lag dist := by
  have herrorScore := mul_nonneg (sub_nonneg.mpr hrange.le_one) hw.errorRate.le
  have hlatencyScore := mul_pos (nearness_pos (seconds_nonneg hrange.latency)) hw.latency
  have hlagScore := mul_pos (nearness_pos (Nat.cast_nonneg lag.toNat)) hw.headLag
  have hdistScore := mul_pos (nearness_pos (Nat.cast_nonneg dist.toNat)) hw.syncDistance
  unfold rating
  linarith

theorem calculateScore_eq (hw : w.Numbers) (hrange : InRange errRate p90) (htotal : w.total < limit) :
    calculateScore w errRate p90 lag dist = ⟨finite (rating w errRate p90 lag dist)⟩ := by
  have hwE := hw.errorRate
  have hwL := hw.latency
  have hwH := hw.headLag
  have hwD := hw.syncDistance
  have herror := mul_nonneg (sub_nonneg.mpr hrange.le_one) hwE.le
  have herrorLe := mul_le_of_le_one_left hwE.le (sub_le_self 1 hrange.nonneg)
  have hlatency := mul_nonneg (nearness_pos (seconds_nonneg hrange.latency)).le hwL.le
  have hlatencyLe := mul_le_of_le_one_left hwL.le (nearness_le_one (seconds_nonneg hrange.latency))
  have hlag := mul_nonneg (nearness_pos (Nat.cast_nonneg lag.toNat)).le hwH.le
  have hlagLe := mul_le_of_le_one_left hwH.le (nearness_le_one (Nat.cast_nonneg lag.toNat))
  have hdist := mul_nonneg (nearness_pos (Nat.cast_nonneg dist.toNat)).le hwD.le
  have hdistLe := mul_le_of_le_one_left hwD.le (nearness_le_one (Nat.cast_nonneg dist.toNat))
  unfold ScoreWeights.total at htotal
  unfold calculateScore distanceScore rating
  conv_lhs => rw [hw.eq]
  rw [latencyScore_eq hwL.le (by linarith) hrange.latency]
  unfold scaled
  rw [Ranged.mul_finite herror (by linarith), Ranged.mul_finite hlatency (by linarith),
    Ranged.mul_finite hlag (by linarith), Ranged.mul_finite hdist (by linarith),
    Ranged.add_finite (by linarith) (by linarith), Ranged.add_finite (by linarith) (by linarith),
    Ranged.add_finite (by linarith) (by linarith)]

theorem rating_le_total (hrange : InRange errRate p90) : rating w errRate p90 lag dist ≤ w.total := by
  have herror := mul_le_of_le_one_left (worth_nonneg w.errorRate) (sub_le_self 1 hrange.nonneg)
  have hlatency := mul_le_of_le_one_left (worth_nonneg w.latency) (nearness_le_one (seconds_nonneg hrange.latency))
  have hlag := mul_le_of_le_one_left (worth_nonneg w.headLag) (nearness_le_one (Nat.cast_nonneg lag.toNat))
  have hdist := mul_le_of_le_one_left (worth_nonneg w.syncDistance) (nearness_le_one (Nat.cast_nonneg dist.toNat))
  unfold rating ScoreWeights.total
  linarith

theorem rating_anti (hrange : InRange errRate p90) (herror : errRate ≤ errRate') (hp90 : p90 ≤ p90')
    (hlag : lag ≤ lag') (hdist : dist ≤ dist') :
    rating w errRate' p90' lag' dist' ≤ rating w errRate p90 lag dist := by
  have hlatency := nearness_anti (seconds_nonneg hrange.latency) (seconds_mono hp90)
  have hheadLag : nearness lag'.toNat ≤ nearness lag.toNat :=
    nearness_anti (Nat.cast_nonneg _) (Nat.cast_le.mpr (UInt64.le_iff_toNat_le.mp hlag))
  have hsyncDist : nearness dist'.toNat ≤ nearness dist.toNat :=
    nearness_anti (Nat.cast_nonneg _) (Nat.cast_le.mpr (UInt64.le_iff_toNat_le.mp hdist))
  have herrorRate : 1 - errRate' ≤ 1 - errRate := by linarith
  unfold rating
  gcongr <;> apply worth_nonneg

end Score

section Tier

variable (b : LoadBalancer) (live : Upstream → Scored) (canonicalSlot : UInt64) (cfg : Option ScoreWeights)
  (apiPath : String)

def scoreOf (u : Upstream) : UpstreamScoreDetails :=
  (live u).scoreDetailsWithWeights canonicalSlot (.effective cfg) apiPath

def weightedScoreWithinPriority (rng : OrderRNG) (ups : List Upstream) : List Upstream × OrderRNG :=
  ranged.weightedOrderWithoutReplacement b (fun u => (scoreOf live canonicalSlot cfg apiPath u).score) rng ups

-- what is configured is within the range of a `float64`, the weights of the whole tier taken together
structure Fits (ups : List Upstream) : Prop where
  configured : (ups.map (weightOf b)).sum < limit
  scored : (ScoreWeights.effective cfg).isFinite = true →
    (ScoreWeights.effective cfg).total * (ups.map (weightOf b)).sum < limit

def stake (u : Upstream) : ℚ :=
  let d := scoreOf live canonicalSlot cfg apiPath u
  if (ScoreWeights.effective cfg).isFinite then
    rating (.effective cfg) d.errorRate d.p90Latency d.headLag d.syncDistance * weightOf b u
  else weightOf b u

def share (ups : List Upstream) (u : Upstream) : ℚ :=
  stake b live canonicalSlot cfg apiPath u / (ups.map (stake b live canonicalSlot cfg apiPath)).sum

variable {live}

theorem scoreOf_inRange {u : Upstream} (h : (live u).Reached) :
    InRange (scoreOf live canonicalSlot cfg apiPath u).errorRate (scoreOf live canonicalSlot cfg apiPath u).p90Latency := by
  obtain ⟨windowSize, labels, hrun⟩ := h
  exact inRange_of_reports (Scores.scoreSnapshotForPath_reports hrun apiPath)

theorem stake_pos {u : Upstream} (h : (live u).Reached) : 0 < stake b live canonicalSlot cfg apiPath u := by
  have hweight : 0 < weightOf b u := zero_lt_one.trans_le (one_le_weightOf b u)
  unfold stake
  dsimp only
  split_ifs with hfinite
  · exact mul_pos (rating_pos ((effective_positive cfg).numbers hfinite) (scoreOf_inRange _ _ _ h)) hweight
  · exact hweight

theorem sum_stake_pos {ups : List Upstream} (h : ∀ u ∈ ups, (live u).Reached) (hne : ups ≠ []) :
    0 < (ups.map (stake b live canonicalSlot cfg apiPath)).sum := by
  apply List.sum_pos
  · intro x hx
    obtain ⟨u, hu, rfl⟩ := List.mem_map.mp hx
    exact stake_pos b canonicalSlot cfg apiPath (h u hu)
  · simpa using hne

variable {b} {cfg} {ups : List Upstream}

theorem Fits.total_lt (h : Fits b cfg ups) (hne : ups ≠ []) (hfinite : (ScoreWeights.effective cfg).isFinite = true) :
    (ScoreWeights.effective cfg).total < limit := by
  obtain ⟨u, rest, rfl⟩ := List.exists_cons_of_ne_nil hne
  have hle : 1 ≤ ((u :: rest).map (weightOf b)).sum :=
    (one_le_weightOf b u).trans (List.single_le_sum (configured_nonneg b (u :: rest)) _ (by simp))
  have hnonneg : 0 ≤ (ScoreWeights.effective cfg).total := by
    have hE := worth_nonneg (ScoreWeights.effective cfg).errorRate
    have hL := worth_nonneg (ScoreWeights.effective cfg).latency
    have hH := worth_nonneg (ScoreWeights.effective cfg).headLag
    have hD := worth_nonneg (ScoreWeights.effective cfg).syncDistance
    unfold ScoreWeights.total
    linarith
  exact (le_mul_of_one_le_right hnonneg hle).trans_lt (h.scored hfinite)

theorem worth_score (hfits : Fits b cfg ups) {u : Upstream} (hu : u ∈ ups) (h : (live u).Reached) :
    worth (scoreOf live canonicalSlot cfg apiPath u).score.value * weightOf b u =
      if (ScoreWeights.effective cfg).isFinite then stake b live canonicalSlot cfg apiPath u else 0 := by
  have hrange := scoreOf_inRange canonicalSlot cfg apiPath h
  have hscore : (scoreOf live canonicalSlot cfg apiPath u).score = calculateScore (.effective cfg)
    (scoreOf live canonicalSlot cfg apiPath u).errorRate (scoreOf live canonicalSlot cfg apiPath u).p90Latency
    (scoreOf live canonicalSlot cfg apiPath u).headLag (scoreOf live canonicalSlot cfg apiPath u).syncDistance := rfl
  unfold stake
  dsimp only
  split_ifs with hfinite
  · have hnumbers := (effective_positive cfg).numbers hfinite
    rw [hscore, calculateScore_eq hnumbers hrange (hfits.total_lt (List.ne_nil_of_mem hu) hfinite)]
    exact congrArg (· * weightOf b u) (max_eq_left (rating_pos hnumbers hrange).le)
  · rw [worth_eq_zero, zero_mul]
    rw [hscore, ← Bool.not_eq_true]
    exact fun hnumber => hfinite (isFinite_of_calculateScore hnumber)

theorem weights_eq (hfits : Fits b cfg ups) (h : ∀ u ∈ ups, (live u).Reached) :
    ups.map (fun u => worth (scoreOf live canonicalSlot cfg apiPath u).score.value * weightOf b u) =
      ups.map (fun u => if (ScoreWeights.effective cfg).isFinite then stake b live canonicalSlot cfg apiPath u else 0) :=
  List.map_congr_left (fun u hu => worth_score canonicalSlot apiPath hfits hu (h u hu))

theorem sum_stake_le (h : ∀ u ∈ ups, (live u).Reached) (hfinite : (ScoreWeights.effective cfg).isFinite = true) :
    (ups.map (stake b live canonicalSlot cfg apiPath)).sum ≤
      (ScoreWeights.effective cfg).total * (ups.map (weightOf b)).sum := by
  rw [← List.sum_map_mul_left]
  apply List.sum_le_sum
  intro u hu
  unfold stake
  dsimp only
  rw [if_pos hfinite]
  exact mul_le_mul_of_nonneg_right (rating_le_total (scoreOf_inRange canonicalSlot cfg apiPath (h u hu)))
    (weightOf_pos b u).le

theorem Fits.noOverflow (hfits : Fits b cfg ups) (h : ∀ u ∈ ups, (live u).Reached) :
    NoOverflow b (fun u => (scoreOf live canonicalSlot cfg apiPath u).score) ups := by
  refine ⟨?_, hfits.configured⟩
  rw [weights_eq canonicalSlot apiPath hfits h]
  cases hfinite : (ScoreWeights.effective cfg).isFinite with
  | true => exact (sum_stake_le canonicalSlot apiPath h hfinite).trans_lt (hfits.scored hfinite)
  | false =>
    have hzero : (ups.map (fun _ => (0 : ℚ))).sum = 0 := by simp
    simp only [Bool.false_eq_true, if_false, hzero]
    exact lt_limit (by norm_num)

theorem shares_eq (hfits : Fits b cfg ups) (h : ∀ u ∈ ups, (live u).Reached) :
    shares b (fun u => (scoreOf live canonicalSlot cfg apiPath u).score.value) ups =
      ups.map (stake b live canonicalSlot cfg apiPath) := by
  by_cases hne : ups = []
  · rw [hne]
    rfl
  unfold shares
  dsimp only
  rw [weights_eq canonicalSlot apiPath hfits h]
  cases hfinite : (ScoreWeights.effective cfg).isFinite with
  | true =>
    simp only [if_true]
    rw [if_neg (not_le.mpr (sum_stake_pos b canonicalSlot cfg apiPath h hne))]
  | false =>
    have hzero : (ups.map (fun _ => (0 : ℚ))).sum = 0 := by simp
    simp only [Bool.false_eq_true, if_false, hzero, le_refl, if_true]
    apply List.map_congr_left
    intro u _
    unfold stake
    dsimp only
    rw [hfinite, if_neg Bool.false_ne_true]

theorem head_order {base : Upstream → Ranged} (rng : OrderRNG) (hne : ups ≠ [])
    (h : NoOverflow b base ups) :
    (ranged.weightedOrderWithoutReplacement b base rng ups).1.head? =
      ups[exact.choose b (fun u => (base u).value) rng ups]? := by
  have hchoose := choose_ranged h hne rng
  have hlt := (holds_choose rng (sum_shares_pos b (fun u => (base u).value) hne)).lt_length
  rw [length_shares, ← hchoose] at hlt
  rw [← hchoose]
  unfold weightedOrderWithoutReplacement
  obtain ⟨u, rest, rfl⟩ := List.exists_cons_of_ne_nil hne
  rw [List.length_cons, drawFrom, List.getElem?_eq_getElem hlt]
  rfl

variable (b) (cfg)

theorem sum_share (ups before : List Upstream) :
    (before.map (share b live canonicalSlot cfg apiPath ups)).sum =
      (before.map (stake b live canonicalSlot cfg apiPath)).sum /
        (ups.map (stake b live canonicalSlot cfg apiPath)).sum := by
  induction before with
  | nil => simp
  | cons u before ih =>
    rw [List.map_cons, List.sum_cons, ih, share, List.map_cons, List.sum_cons, add_div]

theorem head_iff {ups before after : List Upstream} {u : Upstream} (hfits : Fits b cfg ups)
    (h : ∀ v ∈ ups, (live v).Reached) (hnodup : ups.Nodup) (hups : ups = before ++ u :: after) (rng : OrderRNG) :
    (weightedScoreWithinPriority b live canonicalSlot cfg apiPath rng ups).1.head? = some u ↔
      Shares.Holds (ups.map (stake b live canonicalSlot cfg apiPath))
        (rng.fraction * (ups.map (stake b live canonicalSlot cfg apiPath)).sum) before.length := by
  have hne : ups ≠ [] := by
    rw [hups]
    simp
  have hholds :=
    holds_choose rng (sum_shares_pos b (fun v => (scoreOf live canonicalSlot cfg apiPath v).score.value) hne)
  have hlt := hholds.lt_length
  rw [length_shares] at hlt
  rw [shares_eq canonicalSlot apiPath hfits h] at hholds
  have hplace : ups[before.length]? = some u := by
    rw [hups]
    simp
  have hpos : ∀ a ∈ ups.map (stake b live canonicalSlot cfg apiPath), 0 ≤ a := by
    intro a ha
    obtain ⟨v, hv, rfl⟩ := List.mem_map.mp ha
    exact (stake_pos b canonicalSlot cfg apiPath (h v hv)).le
  unfold weightedScoreWithinPriority
  rw [head_order rng hne (hfits.noOverflow canonicalSlot apiPath h)]
  constructor
  · intro hhead
    rw [← hplace] at hhead
    rwa [(List.getElem?_inj hlt hnodup).mp hhead] at hholds
  · intro hplaceHolds
    rw [hholds.eq hpos hplaceHolds]
    exact hplace

theorem share_le_of_stake_le {a a' r : ℚ} (hr : 0 ≤ r) (ha' : 0 < a') (h : a' ≤ a) : a' / (a' + r) ≤ a / (a + r) := by
  have ha : 0 < a := ha'.trans_le h
  rw [div_le_div_iff₀ (by linarith) (by linarith), mul_add, mul_add, mul_comm a' a]
  have hmul := mul_le_mul_of_nonneg_right h hr
  linarith

structure Worse (d d' : UpstreamScoreDetails) : Prop where
  errorRate : d.errorRate ≤ d'.errorRate
  p90Latency : d.p90Latency ≤ d'.p90Latency
  headLag : d.headLag ≤ d'.headLag
  syncDistance : d.syncDistance ≤ d'.syncDistance

theorem stake_anti {live' : Upstream → Scored} {u : Upstream} (h : (live u).Reached)
    (hworse : Worse (scoreOf live canonicalSlot cfg apiPath u) (scoreOf live' canonicalSlot cfg apiPath u)) :
    stake b live' canonicalSlot cfg apiPath u ≤ stake b live canonicalSlot cfg apiPath u := by
  have hweight : 0 ≤ weightOf b u := zero_le_one.trans (one_le_weightOf b u)
  unfold stake
  dsimp only
  split_ifs
  · apply mul_le_mul_of_nonneg_right _ hweight
    exact rating_anti (scoreOf_inRange canonicalSlot cfg apiPath h) hworse.errorRate hworse.p90Latency hworse.headLag
      hworse.syncDistance
  · exact le_rfl

theorem sum_map_split {α : Type} (f : α → ℚ) (before after : List α) (a : α) :
    ((before ++ a :: after).map f).sum = f a + ((before ++ after).map f).sum := by
  simp only [List.map_append, List.map_cons, List.sum_append, List.sum_cons]
  ring

theorem share_anti {live' : Upstream → Scored} {ups before after : List Upstream} {u : Upstream}
    (h : ∀ v ∈ ups, (live v).Reached) (h' : (live' u).Reached) (hnodup : ups.Nodup)
    (hups : ups = before ++ u :: after) (hothers : ∀ v ∈ ups, v ≠ u → live' v = live v)
    (hworse : Worse (scoreOf live canonicalSlot cfg apiPath u) (scoreOf live' canonicalSlot cfg apiPath u)) :
    share b live' canonicalSlot cfg apiPath ups u ≤ share b live canonicalSlot cfg apiPath ups u := by
  have hmem : ∀ v ∈ before ++ after, v ∈ ups ∧ v ≠ u := by
    intro v hv
    rw [hups, List.nodup_middle, List.nodup_cons] at hnodup
    refine ⟨?_, fun heq => hnodup.1 (heq ▸ hv)⟩
    rw [hups]
    simp only [List.mem_append, List.mem_cons] at hv ⊢
    tauto
  have hrest : (before ++ after).map (stake b live' canonicalSlot cfg apiPath) =
      (before ++ after).map (stake b live canonicalSlot cfg apiPath) := by
    apply List.map_congr_left
    intro v hv
    have hsame := hothers v (hmem v hv).1 (hmem v hv).2
    unfold stake scoreOf
    rw [hsame]
  have hnonneg : 0 ≤ ((before ++ after).map (stake b live canonicalSlot cfg apiPath)).sum := by
    apply List.sum_nonneg
    intro x hx
    obtain ⟨v, hv, rfl⟩ := List.mem_map.mp hx
    exact (stake_pos b canonicalSlot cfg apiPath (h v (hmem v hv).1)).le
  unfold share
  rw [hups, sum_map_split, sum_map_split, hrest]
  apply share_le_of_stake_le hnonneg (stake_pos b canonicalSlot cfg apiPath h')
  exact stake_anti b canonicalSlot cfg apiPath (h u (by rw [hups]; simp)) hworse

/-- Whatever was recorded, and as long as the weights stay in range, every upstream of a tier is tried first in some
part of the draws, and that part does not grow when its own metrics get worse. -/
theorem weightedScore_share {ups before after : List Upstream} {u : Upstream} (hfits : Fits b cfg ups)
    (h : ∀ v ∈ ups, (live v).Reached) (hnodup : ups.Nodup) (hups : ups = before ++ u :: after) :
    0 < share b live canonicalSlot cfg apiPath ups u ∧
    (∀ rng, (weightedScoreWithinPriority b live canonicalSlot cfg apiPath rng ups).1.head? = some u ↔
      (before.map (share b live canonicalSlot cfg apiPath ups)).sum ≤ rng.fraction ∧
        rng.fraction < (before.map (share b live canonicalSlot cfg apiPath ups)).sum +
          share b live canonicalSlot cfg apiPath ups u) ∧
    ∀ live', (live' u).Reached → (∀ v ∈ ups, v ≠ u → live' v = live v) →
      Worse (scoreOf live canonicalSlot cfg apiPath u) (scoreOf live' canonicalSlot cfg apiPath u) →
      share b live' canonicalSlot cfg apiPath ups u ≤ share b live canonicalSlot cfg apiPath ups u := by
  have hsum : 0 < (ups.map (stake b live canonicalSlot cfg apiPath)).sum :=
    sum_stake_pos b canonicalSlot cfg apiPath h (by rw [hups]; simp)
  refine ⟨?_, ?_, ?_⟩
  · exact div_pos (stake_pos b canonicalSlot cfg apiPath (h u (by rw [hups]; simp))) hsum
  · intro rng
    rw [head_iff b canonicalSlot cfg apiPath hfits h hnodup hups, sum_share, share, ← add_div, div_le_iff₀ hsum,
      lt_div_iff₀ hsum, Shares.Holds]
    have htake : (ups.map (stake b live canonicalSlot cfg apiPath)).take before.length =
        before.map (stake b live canonicalSlot cfg apiPath) := by
      rw [hups, List.map_append, List.take_left' (List.length_map _)]
    have htakeSucc : ((ups.map (stake b live canonicalSlot cfg apiPath)).take (before.length + 1)).sum =
        (before.map (stake b live canonicalSlot cfg apiPath)).sum + stake b live canonicalSlot cfg apiPath u := by
      rw [List.take_add_one, htake, hups]
      simp
    rw [htake, htakeSucc]
  · intro live' h' hothers hworse
    exact share_anti b canonicalSlot cfg apiPath h h' hnodup hups hothers hworse

def recorded (c : ScoreTracker.Call) : Scored := ⟨⟨.after 10 [c], .start⟩, 7, 0⟩

theorem recorded_error_run :
    Runs.exec Scores.next (.new 10) [.recordScoreErrorForPath ""] = some (recorded .recordError).scores := rfl

theorem recorded_success_run (d : ℤ) :
    Runs.exec Scores.next (.new 10) [.recordSuccessForPath "" d] = some (recorded (.recordSuccess d)).scores := rfl

def pair (failed : Bool) (u : Upstream) : Scored :=
  if u.id = "one" ∧ failed then recorded .recordError else recorded (.recordSuccess 0)

theorem pair_reached (failed : Bool) (u : Upstream) : (pair failed u).Reached := by
  unfold pair
  split_ifs
  · exact ⟨10, _, recorded_error_run⟩
  · exact ⟨10, _, recorded_success_run 0⟩

def byScore : LoadBalancer where
  priority := fun _ => 0
  weight := fun _ => 1
  activeConns := fun _ => 0
  score := fun _ _ => 0
  loadBalancing := "score"
  rrCounter := 0

theorem weightedScore_share_failed :
    share byScore (pair true) 7 none "" [⟨"one", false⟩, ⟨"two", false⟩] ⟨"one", false⟩ ≤
      share byScore (pair false) 7 none "" [⟨"one", false⟩, ⟨"two", false⟩] ⟨"one", false⟩ := by
  refine (weightedScore_share byScore 7 none ""
    ⟨lt_limit (by decide +kernel), fun _ => lt_limit (by decide +kernel)⟩ (fun v _ => pair_reached false v) (by decide)
    (List.nil_append _).symm).2.2 (pair true) (pair_reached true _) ?_ ?_
  · intro v hv hne
    simp only [List.mem_cons, List.not_mem_nil, or_false] at hv
    rcases hv with rfl | rfl
    · exact absurd rfl hne
    · rfl
  · exact ⟨by decide +kernel, by decide +kernel, by decide, by decide⟩

end Tier

section Failing

variable {size : ℕ} {history : List Record} {snapshot : ScoreSnapshot}

theorem samples_pos (h : Reports size history snapshot) (hsize : 0 < size) (hne : history ≠ []) :
    0 < snapshot.samples := by
  have hlength := List.length_pos_iff.mpr hne
  rw [h.samples]
  omega

theorem failing_snapshot (h : Reports size history snapshot) (hsize : 0 < size) (hne : history ≠ [])
    (hfail : ∀ r ∈ history.rtake size, r.isErr = true) : snapshot.errorRate = 1 ∧ snapshot.p90Latency = 0 := by
  have hsamples := samples_pos h hsize hne
  have hcount : (history.rtake size).countP Record.isErr = snapshot.samples := by
    rw [List.countP_eq_length.mpr hfail, List.rtake, List.length_drop, h.samples]
    omega
  have hnone : positives (history.rtake size) = [] := by
    unfold positives
    rw [List.map_eq_nil_iff, List.filter_eq_nil_iff]
    intro r hr
    simp [hfail r hr]
  have hp90 := h.p90
  rw [IsP90, if_pos hnone] at hp90
  refine ⟨?_, hp90⟩
  rw [h.errorRate, hcount]
  exact div_self (Nat.cast_ne_zero.mpr hsamples.ne')

theorem answering_snapshot (h : Reports size history snapshot)
    (hanswer : ∀ r ∈ history.rtake size, r.isErr = false) : snapshot.errorRate = 0 := by
  have hcount : (history.rtake size).countP Record.isErr = 0 := by
    rw [List.countP_eq_zero]
    intro r hr
    simp [hanswer r hr]
  rw [h.errorRate, hcount, Nat.cast_zero, zero_div]

theorem rating_lt_iff {p90 : ℤ} (hp90 : 0 ≤ p90) (lag dist : UInt64) :
    rating .standard 0 p90 lag dist < rating .standard 1 0 lag dist ↔ 1000000000 < p90 := by
  have hworthE : worth (finite 4) = 4 := by decide +kernel
  have hworthL : worth (finite 8) = 8 := by decide +kernel
  have hseconds : 0 ≤ seconds p90 := seconds_nonneg hp90
  have hzero : nearness (seconds 0) = 1 := by
    unfold nearness seconds
    norm_num
  have hnear : nearness (seconds p90) < 1 / 2 ↔ 1 < seconds p90 := by
    unfold nearness
    rw [div_lt_div_iff₀ (by linarith) (by norm_num)]
    constructor <;> intro h <;> linarith
  have hlimit : 1 < seconds p90 ↔ 1000000000 < p90 := by
    unfold seconds
    rw [lt_div_iff₀ (by norm_num), one_mul]
    exact_mod_cast Iff.rfl
  rw [← hlimit, ← hnear, rating, rating, hzero]
  change (1 - 0) * worth (finite 4) + nearness (seconds p90) * worth (finite 8) + _ + _ <
    (1 - 1) * worth (finite 4) + 1 * worth (finite 8) + _ + _ ↔ _
  rw [hworthE, hworthL]
  constructor <;> intro h <;> linarith

/-- With the standard weights an upstream that has failed every request of its window is rated above one that has
answered them all exactly if the latter takes more than a second: errors have no latency. -/
theorem failing_above_slow {failing answering : Scored} {windowSize windowSize' : ℤ}
    {labels labels' : List Scores.Label} {apiPath : String} {canonicalSlot : UInt64}
    (hrun : Runs.exec Scores.next (.new windowSize) labels = some failing.scores)
    (hrun' : Runs.exec Scores.next (.new windowSize') labels' = some answering.scores)
    (hne : Scores.scoringRecords windowSize labels apiPath ≠ [])
    (hfail : ∀ r ∈ (Scores.scoringRecords windowSize labels apiPath).rtake (defaultedSize windowSize),
      r.isErr = true)
    (hanswer : ∀ r ∈ (Scores.scoringRecords windowSize' labels' apiPath).rtake (defaultedSize windowSize'),
      r.isErr = false)
    (hlag : Scored.headLag canonicalSlot failing.headSlot = Scored.headLag canonicalSlot answering.headSlot)
    (hdist : failing.syncDistance = answering.syncDistance) :
    (answering.scoreDetailsWithWeights canonicalSlot (.effective none) apiPath).score <
        (failing.scoreDetailsWithWeights canonicalSlot (.effective none) apiPath).score ↔
      1000000000 < (answering.scores.scoreSnapshotForPath apiPath).p90Latency := by
  have hreports := Scores.scoreSnapshotForPath_reports hrun apiPath
  have hreports' := Scores.scoreSnapshotForPath_reports hrun' apiPath
  obtain ⟨hrate, hp90⟩ := failing_snapshot hreports (Scores.defaultedSize_pos _) hne hfail
  have hrate' := answering_snapshot hreports' hanswer
  have hnumbers := (effective_positive none).numbers (by decide)
  have hrange := inRange_of_reports hreports
  have hrange' := inRange_of_reports hreports'
  have htotal : (ScoreWeights.effective none).total < limit := lt_limit (by decide +kernel)
  unfold Scored.scoreDetailsWithWeights Scored.scoreDetails
  dsimp only
  rw [calculateScore_eq hnumbers hrange htotal, calculateScore_eq hnumbers hrange' htotal, hrate, hp90, hrate', hlag,
    hdist]
  change finite _ < finite _ ↔ _
  rw [finite_lt]
  exact rating_lt_iff hrange'.latency _ _

theorem failing_above_slow_two_seconds :
    ((recorded (.recordSuccess 2000000000)).scoreDetailsWithWeights 7 (.effective none) "").score <
      ((recorded .recordError).scoreDetailsWithWeights 7 (.effective none) "").score :=
  (failing_above_slow recorded_error_run (recorded_success_run 2000000000) (by decide) (by decide) (by decide) rfl
    rfl).mpr (by decide +kernel)

end Failing

end EBeacon.Upstream
