import Mathlib.Algebra.BigOperators.Group.Finset.Piecewise
import Mathlib.Algebra.Order.BigOperators.Group.Finset
import Mathlib.Data.List.Perm.Basic
import Mathlib.Order.Nat
import Mathlib.Data.Nat.Count

/-!
A pass that moves items off crowded places. Every item is visited once, in some order; while the count of its
place is high it goes to the next destination, up to a limit on the number of moves. The destinations are chosen
beforehand.
-/

namespace EBeacon.Sweeping

variable {β : Type} [DecidableEq β]

structure State (β : Type) where
  counts : β → ℕ
  moved : ℕ

section Pass

variable (high : ℕ → Bool) (dest : ℕ → β) (limit : ℕ)

def shift (counts : β → ℕ) (x d : β) : β → ℕ :=
  let counts := Function.update counts x (counts x - 1)
  Function.update counts d (counts d + 1)

def visit (st : State β) (x : β) : β × State β :=
  if st.moved < limit ∧ high (st.counts x) = true then
    (dest st.moved, ⟨shift st.counts x (dest st.moved), st.moved + 1⟩)
  else (x, st)

def pass : State β → List β → List β × State β
  | st, [] => ([], st)
  | st, x :: rest =>
    ((visit high dest limit st x).1 :: (pass (visit high dest limit st x).2 rest).1,
      (pass (visit high dest limit st x).2 rest).2)

def arrivals (n : ℕ) (d : β) : ℕ := Nat.count (fun k => dest k = d) n

def excess (count : ℕ) : ℕ := Nat.count (fun k => high (k + 1) = true) count

def demand (places : Finset β) (start : β → ℕ) : ℕ := min limit (∑ y ∈ places, excess high (start y))

def leavers (start : β → ℕ) (order : List β) (n : ℕ) (y : β) : ℕ :=
  min (order.count y) (excess high (start y + arrivals dest n y))

end Pass

variable {high : ℕ → Bool} {dest : ℕ → β} {limit : ℕ} {st : State β} {x y : β}

theorem shift_add (h : 0 < st.counts x) (d y : β) :
    shift st.counts x d y + (if y = x then 1 else 0) = st.counts y + (if d = y then 1 else 0) := by
  unfold shift
  by_cases hd : y = d
  · subst hd
    rw [Function.update_self, if_pos rfl]
    by_cases hx : y = x
    · subst hx
      rw [Function.update_self, if_pos rfl]
      omega
    · rw [Function.update_of_ne hx, if_neg hx]
  · rw [Function.update_of_ne hd, if_neg (Ne.symm hd)]
    by_cases hx : y = x
    · subst hx
      rw [Function.update_self, if_pos rfl]
      omega
    · rw [Function.update_of_ne hx, if_neg hx]

theorem arrivals_succ (n : ℕ) (d : β) : arrivals dest (n + 1) d = arrivals dest n d + if dest n = d then 1 else 0 :=
  Nat.count_succ _ _

theorem arrivals_mono (dest : ℕ → β) {m n : ℕ} (h : m ≤ n) (d : β) : arrivals dest m d ≤ arrivals dest n d :=
  Nat.count_monotone _ h

@[simp]
theorem excess_zero : excess high 0 = 0 := Nat.count_zero _

theorem excess_mono {a b : ℕ} (h : a ≤ b) : excess high a ≤ excess high b := Nat.count_monotone _ h

section Excess

variable (hmono : ∀ a b, a ≤ b → high a = true → high b = true)

include hmono

theorem lt_excess {count left : ℕ} (hzero : high 0 = false) (h : high (count - left) = true) :
    left < excess high count := by
  have hpos : 0 < count - left := by
    by_contra hnot
    have hnil : count - left = 0 := by omega
    rw [hnil, hzero] at h
    cases h
  obtain ⟨c, hc⟩ : ∃ c, count = c + (left + 1) := ⟨count - left - 1, by omega⟩
  have hall : Nat.count (fun k => high (c + k + 1) = true) (left + 1) = left + 1 := by
    apply Nat.count_of_forall
    intro k _
    exact hmono _ _ (by omega) h
  unfold excess
  rw [hc, Nat.count_add, hall]
  omega

theorem excess_le {count left : ℕ} (h : high (count - left) = false) : excess high count ≤ left := by
  have hlow : Nat.count (fun k => high (k + 1) = true) (count - left) = 0 := by
    rw [Nat.count_iff_forall_not]
    intro k hk hhigh
    rw [hmono _ _ (by omega) hhigh] at h
    cases h
  unfold excess
  by_cases hle : left ≤ count
  · have hsum : count = count - left + left := by omega
    rw [hsum, Nat.count_add, hlow, Nat.zero_add]
    exact Nat.count_le _
  · exact le_trans (Nat.count_le _) (by omega)

end Excess

structure Setting (high : ℕ → Bool) (dest : ℕ → β) (dests : List β) (start : β → ℕ) : Prop where
  mono : ∀ a b, a ≤ b → high a = true → high b = true
  zero : high 0 = false
  mem : ∀ k, dest k ∈ dests
  low : ∀ d ∈ dests, high (start d) = false

/-- A pass over `order` that has visited `seen`: `left` says how many items have left each place. -/
structure Tracks (high : ℕ → Bool) (dest : ℕ → β) (limit : ℕ) (order seen : List β) (places : Finset β)
    (start left : β → ℕ) (st : State β) : Prop where
  counts : ∀ y, st.counts y + left y = start y + arrivals dest st.moved y
  excess : ∀ y, left y ≤ excess high (start y + arrivals dest st.moved y)
  seen : ∀ y, left y ≤ seen.count y
  total : ∑ y ∈ places, left y = st.moved
  limit : st.moved ≤ limit
  path : ∀ m < st.moved, m < ∑ y ∈ places, leavers high dest start order m y

variable {order seen rest dests : List β} {places : Finset β} {start left : β → ℕ}

theorem Setting.arrivals_eq_zero (hs : Setting high dest dests start) (hy : y ∉ dests) (n : ℕ) :
    arrivals dest n y = 0 := by
  unfold arrivals
  rw [Nat.count_iff_forall_not]
  rintro k _ rfl
  exact hy (hs.mem k)

omit [DecidableEq β] in
theorem Setting.pos_of_high (hs : Setting high dest dests start) {count : ℕ} (h : high count = true) : 0 < count := by
  rw [Nat.pos_iff_ne_zero]
  rintro rfl
  rw [hs.zero] at h
  cases h

theorem tracks_start (high : ℕ → Bool) (dest : ℕ → β) (limit : ℕ) (order : List β) (places : Finset β)
    (start : β → ℕ) :
    Tracks high dest limit order [] places start (fun _ => 0) ⟨start, 0⟩ where
  counts y := (Nat.add_zero _).trans (by simp [arrivals])
  excess _ := Nat.zero_le _
  seen _ := Nat.zero_le _
  total := Finset.sum_const_zero
  limit := Nat.zero_le _
  path m hm := absurd hm (Nat.not_lt_zero m)

section Tracks

variable (hs : Setting high dest dests start)

include hs

theorem Tracks.move (h : Tracks high dest limit order seen places start left st) (hx : x ∈ places)
    (hseen : ∀ y, (x :: seen).count y ≤ order.count y) (hmove : st.moved < limit)
    (hhigh : high (st.counts x) = true) :
    Tracks high dest limit order (x :: seen) places start (fun y => left y + if y = x then 1 else 0)
      ⟨shift st.counts x (dest st.moved), st.moved + 1⟩ := by
  have hcount := h.counts x
  have hless : left x < Sweeping.excess high (start x + arrivals dest st.moved x) := by
    apply lt_excess hs.mono hs.zero
    rwa [show start x + arrivals dest st.moved x - left x = st.counts x by omega]
  have hleaves : ∀ y, left y + (if y = x then 1 else 0) ≤
      Sweeping.excess high (start y + arrivals dest st.moved y) := by
    intro y
    split_ifs with heq
    · rw [heq]
      omega
    · exact h.excess y
  have hleft : ∀ y, left y + (if y = x then 1 else 0) ≤ (x :: seen).count y := by
    intro y
    have hbefore := h.seen y
    rw [List.count_cons]
    split_ifs with heq hbeq hbeq
    · omega
    · rw [heq, beq_self_eq_true] at hbeq
      exact absurd rfl hbeq
    · omega
    · omega
  have htotal : ∑ y ∈ places, (left y + if y = x then 1 else 0) = st.moved + 1 := by
    rw [Finset.sum_add_distrib, h.total, Finset.sum_ite_eq' places x, if_pos hx]
  refine ⟨fun y => ?_, fun y => ?_, hleft, htotal, hmove, fun m hm => ?_⟩
  · have hshift := shift_add (hs.pos_of_high hhigh) (dest st.moved) y
    have hbefore := h.counts y
    rw [arrivals_succ]
    dsimp only
    omega
  · exact (hleaves y).trans (excess_mono (Nat.add_le_add_left (arrivals_mono dest (Nat.le_succ _) y) _))
  · rcases Nat.lt_succ_iff_lt_or_eq.mp hm with hm | rfl
    · exact h.path m hm
    · rw [Nat.lt_iff_add_one_le, ← htotal]
      exact Finset.sum_le_sum fun y _ => le_min ((hleft y).trans (hseen y)) (hleaves y)

omit hs in
theorem Tracks.stay (h : Tracks high dest limit order seen places start left st) (x : β) :
    Tracks high dest limit order (x :: seen) places start left st :=
  { h with seen := fun y => (h.seen y).trans List.count_le_count_cons }

theorem Tracks.visit (h : Tracks high dest limit order seen places start left st) (hx : x ∈ places)
    (hseen : ∀ y, (x :: seen).count y ≤ order.count y) :
    ∃ left, Tracks high dest limit order (x :: seen) places start left (visit high dest limit st x).2 := by
  unfold Sweeping.visit
  split_ifs with hmove
  · exact ⟨_, h.move hs hx hseen hmove.1 hmove.2⟩
  · exact ⟨left, h.stay x⟩

theorem Tracks.pass (h : Tracks high dest limit order seen places start left st) (hrest : ∀ x ∈ rest, x ∈ places)
    (hseen : ∀ y, (rest.reverse ++ seen).count y ≤ order.count y) :
    ∃ left, Tracks high dest limit order (rest.reverse ++ seen) places start left
      (pass high dest limit st rest).2 := by
  induction rest generalizing st left seen with
  | nil => exact ⟨left, h⟩
  | cons x rest ih =>
    rw [List.forall_mem_cons] at hrest
    rw [List.reverse_cons, List.append_assoc, List.singleton_append] at hseen ⊢
    obtain ⟨left', h'⟩ := h.visit hs hrest.1 fun y =>
      le_trans (by rw [List.count_append]; exact Nat.le_add_left _ _) (hseen y)
    exact ih h' hrest.2 hseen

omit hs in
theorem tracks_pass (limit : ℕ) (hs : Setting high dest dests start) (order : List β) :
    ∃ left, Tracks high dest limit order (order.reverse ++ []) order.toFinset start left
      (Sweeping.pass high dest limit ⟨start, 0⟩ order).2 :=
  (tracks_start high dest limit order order.toFinset start).pass hs (fun _ hx => List.mem_toFinset.mpr hx)
    (fun y => by rw [List.append_nil, List.count_reverse])

omit hs in
theorem Tracks.moved_le (h : Tracks high dest limit order seen places start left st) {m : ℕ}
    (hm : ∑ y ∈ places, leavers high dest start order m y ≤ m) : st.moved ≤ m :=
  not_lt.mp fun hless => absurd (h.path m hless) (not_lt.mpr hm)

theorem Tracks.counts_le (h : Tracks high dest limit order seen places start left st) (hy : y ∉ dests) :
    st.counts y ≤ start y := by
  have hcounts := h.counts y
  rw [hs.arrivals_eq_zero hy] at hcounts
  omega

end Tracks

section Outcome

theorem pass_append (a b : List β) (st : State β) :
    pass high dest limit st (a ++ b) =
      ((pass high dest limit st a).1 ++ (pass high dest limit (pass high dest limit st a).2 b).1,
        (pass high dest limit (pass high dest limit st a).2 b).2) := by
  induction a generalizing st with
  | nil => rfl
  | cons x a ih =>
    rw [List.cons_append, Sweeping.pass, ih]
    rfl

theorem length_pass (rest : List β) (st : State β) : (pass high dest limit st rest).1.length = rest.length := by
  induction rest generalizing st with
  | nil => rfl
  | cons x rest ih => exact congrArg (· + 1) (ih _)

theorem pass_eq_self (h : ∀ x ∈ rest, ¬(st.moved < limit ∧ high (st.counts x) = true)) :
    pass high dest limit st rest = (rest, st) := by
  induction rest with
  | nil => rfl
  | cons x rest ih =>
    rw [List.forall_mem_cons] at h
    rw [Sweeping.pass, visit, if_neg h.1, ih h.2]

omit [DecidableEq β] in
theorem eq_of_mem_zip_self {p : β × β} (h : p ∈ rest.zip rest) : p.2 = p.1 := by
  rw [← List.map_id rest, List.zip_map', List.mem_map] at h
  obtain ⟨y, -, rfl⟩ := h
  rfl

theorem counts_pass (hs : Setting high dest dests start) (rest : List β) (st : State β) (y : β) :
    (pass high dest limit st rest).2.counts y + rest.count y =
      st.counts y + (pass high dest limit st rest).1.count y := by
  induction rest generalizing st with
  | nil => rfl
  | cons x rest ih =>
    have hrest := ih (visit high dest limit st x).2
    have hvisit : (visit high dest limit st x).2.counts y + (if x = y then 1 else 0) =
        st.counts y + if (visit high dest limit st x).1 = y then 1 else 0 := by
      unfold visit
      by_cases hmove : st.moved < limit ∧ high (st.counts x) = true
      · rw [if_pos hmove, if_congr (eq_comm (a := x)) rfl rfl]
        exact shift_add (hs.pos_of_high hmove.2) (dest st.moved) y
      · rw [if_neg hmove]
    rw [Sweeping.pass, List.count_cons, List.count_cons]
    simp only [beq_iff_eq]
    omega

theorem mem_zip_pass (hs : Setting high dest dests start) {p : β × β}
    (h : p ∈ rest.zip (pass high dest limit st rest).1) : p.2 = p.1 ∨ p.2 ∈ dests := by
  induction rest generalizing st with
  | nil => cases h
  | cons x rest ih =>
    rw [Sweeping.pass, List.zip_cons_cons, List.mem_cons] at h
    rcases h with rfl | h
    · unfold visit
      split_ifs
      · exact Or.inr (hs.mem _)
      · exact Or.inl rfl
    · exact ih h

theorem moved_pass_le (rest : List β) (st : State β) (h : st.moved ≤ limit) :
    (pass high dest limit st rest).2.moved ≤ limit := by
  induction rest generalizing st with
  | nil => exact h
  | cons x rest ih =>
    apply ih
    unfold visit
    split_ifs with hmove
    · exact hmove.1
    · exact h

theorem countP_zip_pass_le (rest : List β) (st : State β) :
    st.moved + (rest.zip (pass high dest limit st rest).1).countP (fun p => p.2 ≠ p.1) ≤
      (pass high dest limit st rest).2.moved := by
  induction rest generalizing st with
  | nil => exact le_rfl
  | cons x rest ih =>
    have hrest := ih (visit high dest limit st x).2
    have hvisit : st.moved + (if (visit high dest limit st x).1 ≠ x then 1 else 0) ≤
        (visit high dest limit st x).2.moved := by
      unfold visit
      split_ifs <;> simp_all
    rw [Sweeping.pass, List.zip_cons_cons, List.countP_cons]
    simp only [decide_eq_true_eq]
    omega

end Outcome

section Complete

variable (hs : Setting high dest dests start)

include hs

omit hs in
def Pending (high : ℕ → Bool) (limit : ℕ) (dests : List β) (st : State β) (rest : List β) : Prop :=
  st.moved = limit ∨ ∀ y, y ∉ dests → high (st.counts y) = true → st.counts y ≤ rest.count y

theorem Pending.visit (h : Pending high limit dests st (x :: rest)) (hlimit : st.moved ≤ limit)
    (hx : x ∉ dests) :
    Pending high limit dests (visit high dest limit st x).2 rest ∧ (visit high dest limit st x).2.moved ≤ limit := by
  unfold Sweeping.visit
  rcases h with hlimit' | h
  · rw [if_neg (by omega)]
    exact ⟨Or.inl hlimit', hlimit⟩
  · split_ifs with hmove
    · refine ⟨Or.inr fun y hy hhigh => ?_, hmove.1⟩
      have hshift := shift_add (hs.pos_of_high hmove.2) (dest st.moved) y
      rw [if_neg (fun heq : dest st.moved = y => hy (heq ▸ hs.mem st.moved))] at hshift
      by_cases hxy : y = x
      · subst hxy
        have hbound := h y hy hmove.2
        rw [List.count_cons_self] at hbound
        rw [if_pos rfl] at hshift
        dsimp only
        omega
      · rw [if_neg hxy] at hshift
        dsimp only at hhigh ⊢
        rw [show shift st.counts x (dest st.moved) y = st.counts y by omega] at hhigh ⊢
        have hbound := h y hy hhigh
        rwa [List.count_cons_of_ne (Ne.symm hxy)] at hbound
    · refine ⟨?_, hlimit⟩
      by_cases hless : st.moved < limit
      · refine Or.inr fun y hy hhigh => ?_
        have hxy : y ≠ x := by
          rintro rfl
          exact hmove ⟨hless, hhigh⟩
        have hbound := h y hy hhigh
        rwa [List.count_cons_of_ne (Ne.symm hxy)] at hbound
      · exact Or.inl (le_antisymm hlimit (not_lt.mp hless))

theorem Pending.pass (h : Pending high limit dests st rest) (hlimit : st.moved ≤ limit)
    (hrest : ∀ x ∈ rest, x ∉ dests) : Pending high limit dests (pass high dest limit st rest).2 [] := by
  induction rest generalizing st with
  | nil => exact h
  | cons x rest ih =>
    rw [List.forall_mem_cons] at hrest
    obtain ⟨hnext, hlimit'⟩ := h.visit hs hlimit hrest.1
    exact ih hnext hlimit' hrest.2

theorem Tracks.moved_eq (h : Tracks high dest limit order seen places start left st)
    (hdone : Pending high limit dests st []) (hleft : ∀ d ∈ dests, left d = 0) :
    st.moved = demand high limit places start := by
  apply le_antisymm
  · refine le_min h.limit ?_
    rw [← h.total]
    refine Finset.sum_le_sum fun y _ => ?_
    by_cases hy : y ∈ dests
    · rw [hleft y hy]
      exact Nat.zero_le _
    · have hleave := h.excess y
      rwa [hs.arrivals_eq_zero hy, Nat.add_zero] at hleave
  · rcases hdone with hlimit | hdone
    · exact (min_le_left _ _).trans hlimit.ge
    · refine (min_le_right _ _).trans ?_
      rw [← h.total]
      refine Finset.sum_le_sum fun y _ => excess_le hs.mono ?_
      by_cases hy : y ∈ dests
      · rw [hleft y hy]
        exact hs.low y hy
      · have hcounts := h.counts y
        rw [hs.arrivals_eq_zero hy] at hcounts
        rw [show start y - left y = st.counts y by omega, ← Bool.not_eq_true]
        intro hhigh
        exact absurd (hs.pos_of_high hhigh) (not_lt.mpr (hdone y hy hhigh))

end Complete

section Crowding

theorem Tracks.moved_le_demand (hs : Setting high dest dests start)
    (h : Tracks high dest limit order seen places start left st)
    (hroom : ∀ d ∈ dests, high (start d + arrivals dest (demand high limit places start) d) = false) :
    st.moved ≤ demand high limit places start := by
  by_cases hall : limit ≤ ∑ y ∈ places, Sweeping.excess high (start y)
  · unfold demand
    rw [min_eq_left hall]
    exact h.limit
  · apply h.moved_le
    have hdemand : demand high limit places start = ∑ y ∈ places, Sweeping.excess high (start y) :=
      min_eq_right (not_le.mp hall).le
    nth_rewrite 2 [hdemand]
    refine Finset.sum_le_sum fun y _ => (min_le_right _ _).trans ?_
    by_cases hy : y ∈ dests
    · have hnone : Sweeping.excess high (start y + arrivals dest (demand high limit places start) y) ≤ 0 :=
        excess_le hs.mono (hroom y hy)
      exact hnone.trans (Nat.zero_le _)
    · rw [hs.arrivals_eq_zero hy, Nat.add_zero]

variable (hs : Setting high dest dests start) (hstart : ∀ y, start y ≤ order.count y)

include hs hstart

theorem exists_full_pass :
    ∃ order', order'.Perm order ∧ ∀ d ∈ dests,
      (pass high dest limit ⟨start, 0⟩ order').2.counts d =
        start d + arrivals dest (demand high limit order.toFinset start) d := by
  refine ⟨_, List.filter_append_perm (· ∈ dests) order, fun d hd => ?_⟩
  have hfirst : pass high dest limit ⟨start, 0⟩ (order.filter (· ∈ dests)) =
      (order.filter (· ∈ dests), ⟨start, 0⟩) := by
    apply pass_eq_self
    intro x hx hmove
    rw [List.mem_filter, decide_eq_true_eq] at hx
    rw [hs.low x hx.2] at hmove
    cases hmove.2
  rw [pass_append, hfirst]
  dsimp only
  have hrest : ∀ x ∈ order.filter (fun x => !decide (x ∈ dests)), x ∈ order.toFinset ∧ x ∉ dests := by
    intro x hx
    rw [List.mem_filter, Bool.not_eq_true', decide_eq_false_iff_not] at hx
    exact ⟨List.mem_toFinset.mpr hx.1, hx.2⟩
  have hcount : ∀ y, ((order.filter (fun x => !decide (x ∈ dests))).reverse ++ []).count y ≤ order.count y := by
    intro y
    rw [List.append_nil, List.count_reverse]
    exact List.filter_sublist.count_le y
  obtain ⟨left, htracks⟩ := (tracks_start high dest limit order order.toFinset start).pass hs
    (fun x hx => (hrest x hx).1) hcount
  have hdone : Pending high limit dests ⟨start, 0⟩ (order.filter (fun x => !decide (x ∈ dests))) := by
    refine Or.inr fun y hy _ => ?_
    rw [List.count_filter (by simpa using hy)]
    exact hstart y
  have hleft : ∀ d ∈ dests, left d = 0 := by
    intro d hd
    have hseen := htracks.seen d
    rw [List.append_nil, List.count_reverse,
      List.count_eq_zero_of_not_mem (fun hmem => (hrest d hmem).2 hd)] at hseen
    exact Nat.le_zero.mp hseen
  have hmoved := htracks.moved_eq hs (hdone.pass hs (Nat.zero_le _) fun x hx => (hrest x hx).2) hleft
  have hcounts := htracks.counts d
  rw [hleft d hd] at hcounts
  rw [← hmoved]
  exact hcounts

omit hstart in
theorem not_crowded_of_room
    (hroom : ∀ d ∈ dests,
      high (start d + arrivals dest (demand high limit order.toFinset start) d) = false) (y : β) :
    ¬(start y < (pass high dest limit ⟨start, 0⟩ order).2.counts y ∧
      high ((pass high dest limit ⟨start, 0⟩ order).2.counts y) = true) := by
  rintro ⟨hless, hhigh⟩
  obtain ⟨left, htracks⟩ := tracks_pass limit hs order
  have hmoved := htracks.moved_le_demand hs hroom
  by_cases hy : y ∈ dests
  · have hcounts := htracks.counts y
    have harrivals := arrivals_mono dest hmoved y
    have hlow := hroom y hy
    rw [hs.mono _ _ (by omega) hhigh] at hlow
    cases hlow
  · exact absurd hless (not_lt.mpr (htracks.counts_le hs hy))

end Crowding

section Schedule

variable (hs : Setting high dest dests start)

include hs

theorem Tracks.exists_movable (h : Tracks high dest limit order seen order.toFinset start left st)
    (hless : st.moved < ∑ y ∈ order.toFinset, leavers high dest start order st.moved y) :
    ∃ x ∈ order, left x < order.count x ∧ high (st.counts x) = true := by
  nth_rewrite 1 [← h.total] at hless
  obtain ⟨x, hx, hxless⟩ := Finset.exists_lt_of_sum_lt hless
  obtain ⟨hown, hexcess⟩ := lt_min_iff.mp hxless
  refine ⟨x, List.mem_toFinset.mp hx, hown, ?_⟩
  by_contra hlow
  rw [Bool.not_eq_true] at hlow
  have hcounts := h.counts x
  refine absurd hexcess (not_lt.mpr (excess_le hs.mono ?_))
  rwa [show start x + arrivals dest st.moved x - left x = st.counts x by omega]

theorem Tracks.concat {first : List β}
    (h : Tracks high dest limit order first places start first.count (Sweeping.pass high dest limit ⟨start, 0⟩ first).2)
    (hx : x ∈ places) (hcount : ∀ y, (first ++ [x]).count y ≤ order.count y)
    (hmove : (Sweeping.pass high dest limit ⟨start, 0⟩ first).2.moved < limit)
    (hhigh : high ((Sweeping.pass high dest limit ⟨start, 0⟩ first).2.counts x) = true) :
    Tracks high dest limit order (first ++ [x]) places start (first ++ [x]).count
        (Sweeping.pass high dest limit ⟨start, 0⟩ (first ++ [x])).2 ∧
      (Sweeping.pass high dest limit ⟨start, 0⟩ (first ++ [x])).2.moved =
        (Sweeping.pass high dest limit ⟨start, 0⟩ first).2.moved + 1 := by
  have hseen : ∀ y, (x :: first).count y ≤ order.count y := by
    intro y
    rw [← (List.perm_append_singleton x first).count_eq]
    exact hcount y
  have hleft : (fun y => first.count y + if y = x then 1 else 0) = (first ++ [x]).count := by
    funext y
    rw [List.count_append, List.count_singleton, if_congr (eq_comm.trans beq_iff_eq.symm) rfl rfl]
  have hnext := h.move hs hx hseen hmove hhigh
  rw [hleft] at hnext
  rw [pass_append, Sweeping.pass, Sweeping.visit, if_pos ⟨hmove, hhigh⟩]
  exact ⟨{ hnext with seen := fun _ => le_rfl }, rfl⟩

theorem exists_schedule {n : ℕ} (hn : n ≤ limit)
    (h : ∀ m < n, m < ∑ y ∈ order.toFinset, leavers high dest start order m y) :
    ∃ first rest, (first ++ rest).Perm order ∧
      Tracks high dest limit order first order.toFinset start first.count
        (pass high dest limit ⟨start, 0⟩ first).2 ∧
      (pass high dest limit ⟨start, 0⟩ first).2.moved = n := by
  -- While another move can be made, an item that makes it is visited next; nothing else has been visited.
  induction n with
  | zero => exact ⟨[], order, List.Perm.refl _, tracks_start high dest limit order _ start, rfl⟩
  | succ n ih =>
    obtain ⟨first, rest, hperm, htracks, hmoved⟩ := ih (by omega) fun m hm => h m (by omega)
    obtain ⟨x, hx, hless, hhigh⟩ := htracks.exists_movable hs (by rw [hmoved]; exact h n (Nat.lt_succ_self n))
    have hrest : x ∈ rest := by
      rw [← hperm.count_eq, List.count_append] at hless
      exact List.count_pos_iff.mp (by omega)
    have hperm' : (first ++ [x] ++ rest.erase x).Perm order := by
      rw [List.append_assoc]
      exact ((List.perm_cons_erase hrest).symm.append_left first).trans hperm
    have hcount : ∀ y, (first ++ [x]).count y ≤ order.count y := by
      intro y
      rw [← hperm'.count_eq]
      exact (List.sublist_append_left _ _).count_le y
    obtain ⟨hnext, hmoved'⟩ := htracks.concat hs (List.mem_toFinset.mpr hx) hcount (by omega) hhigh
    exact ⟨first ++ [x], rest.erase x, hperm', hnext, hmoved'.trans (congrArg (· + 1) hmoved)⟩

variable {S : β → Prop} [DecidablePred S]

theorem exists_unmoved
    (h : ∀ m < limit, m < ∑ y ∈ order.toFinset with ¬S y, leavers high dest start order m y) :
    ∃ order' : List β, order'.Perm order ∧
      ∀ p ∈ order'.zip (pass high dest limit ⟨start, 0⟩ order').1, S p.1 → p.2 = p.1 := by
  have hothers : ∀ m, ∑ y ∈ (order.filter (fun y => !decide (S y))).toFinset,
      leavers high dest start (order.filter (fun y => !decide (S y))) m y =
        ∑ y ∈ order.toFinset with ¬S y, leavers high dest start order m y := by
    intro m
    apply Finset.sum_congr
    · ext y
      simp
    · intro y hy
      rw [leavers, leavers, List.count_filter (by simpa using (Finset.mem_filter.mp hy).2)]
  obtain ⟨first, rest, hperm, -, hmoved⟩ := exists_schedule hs (le_refl limit)
    fun m hm => lt_of_lt_of_eq (h m hm) (hothers m).symm
  have hfirst : ∀ y ∈ first, ¬S y := by
    intro y hy
    have hmem := hperm.subset (List.mem_append_left rest hy)
    rw [List.mem_filter, Bool.not_eq_true', decide_eq_false_iff_not] at hmem
    exact hmem.2
  have hperm' : (first ++ (rest ++ order.filter (fun y => S y))).Perm order := by
    rw [← List.append_assoc]
    exact ((hperm.append_right _).trans List.perm_append_comm).trans (List.filter_append_perm _ order)
  refine ⟨_, hperm', fun p hp hS => ?_⟩
  have hlast : pass high dest limit (pass high dest limit ⟨start, 0⟩ first).2 (rest ++ order.filter (fun y => S y)) =
      (rest ++ order.filter (fun y => S y), (pass high dest limit ⟨start, 0⟩ first).2) :=
    pass_eq_self fun x _ hmove => absurd hmove.1 (by omega)
  rw [pass_append, hlast, List.zip_append (length_pass first _).symm, List.mem_append] at hp
  rcases hp with hp | hp
  · exact absurd hS (hfirst p.1 (List.of_mem_zip hp).1)
  · exact eq_of_mem_zip_self hp

theorem Tracks.exists_moved (hS : ∀ d ∈ dests, ¬S d) {m : ℕ} (hm : m < limit)
    (hmoves : ∑ y ∈ order.toFinset with ¬S y, leavers high dest start order m y ≤ m) (hxS : S x)
    (hhigh : high (start x) = true)
    (h : Tracks high dest limit order seen (order.toFinset.filter (fun y => ¬S y)) start left st)
    (hcount : ∀ y, (rest ++ seen).count y ≤ order.count y) (hseen : ∀ y ∈ seen, ¬S y) (hx : x ∈ rest) :
    ∃ p ∈ rest.zip (Sweeping.pass high dest limit st rest).1, S p.1 ∧ p.2 ≠ p.1 := by
  induction rest generalizing st left seen with
  | nil => cases hx
  | cons z rest ih =>
    have hwiden : ∀ q, q ∈ rest.zip (Sweeping.pass high dest limit (Sweeping.visit high dest limit st z).2 rest).1 →
        q ∈ (z :: rest).zip (Sweeping.pass high dest limit st (z :: rest)).1 := fun q hq => List.mem_cons_of_mem _ hq
    by_cases hz : S z
    · by_cases hmove : st.moved < limit ∧ high (st.counts z) = true
      · refine ⟨(z, dest st.moved), ?_, hz, fun heq : dest st.moved = z => hS _ (hs.mem st.moved) (heq ▸ hz)⟩
        rw [Sweeping.pass, Sweeping.visit, if_pos hmove]
        exact List.mem_cons_self
      · have hne : x ≠ z := by
          rintro rfl
          have hcounts := h.counts x
          have hleft := h.seen x
          rw [List.count_eq_zero_of_not_mem fun hmem => hseen x hmem hxS] at hleft
          exact hmove ⟨lt_of_le_of_lt (h.moved_le hmoves) hm, hs.mono _ _ (by omega) hhigh⟩
        have hstay : (Sweeping.visit high dest limit st z).2 = st := by
          rw [Sweeping.visit, if_neg hmove]
        have hcount' : ∀ y, (rest ++ seen).count y ≤ order.count y := fun y =>
          le_trans List.count_le_count_cons (hcount y)
        obtain ⟨q, hq, hq'⟩ := ih (hstay ▸ h) hcount' hseen (List.mem_of_ne_of_mem hne hx)
        exact ⟨q, hwiden q hq, hq'⟩
    · have hmem : z ∈ order := List.count_pos_iff.mp (lt_of_lt_of_le (by simp) (hcount z))
      have hperm : (rest ++ z :: seen).Perm (z :: rest ++ seen) := List.perm_middle
      obtain ⟨left', h'⟩ := h.visit hs (x := z) (by simp [hmem, hz]) fun y =>
        le_trans ((List.sublist_append_right rest _).count_le y) (hperm.count_eq y ▸ hcount y)
      have hne : x ≠ z := fun heq => hz (heq ▸ hxS)
      obtain ⟨q, hq, hq'⟩ := ih h' (fun y => hperm.count_eq y ▸ hcount y) (List.forall_mem_cons.mpr ⟨hz, hseen⟩)
        (List.mem_of_ne_of_mem hne hx)
      exact ⟨q, hwiden q hq, hq'⟩

end Schedule

end EBeacon.Sweeping
