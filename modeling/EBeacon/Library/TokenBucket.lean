import Mathlib.Algebra.Order.Field.Basic
import Mathlib.Data.List.Basic
import Mathlib.Tactic.Linarith
import Mathlib.Tactic.Ring

namespace EBeacon

structure TokenBucket (K : Type) where
  rate : K
  burst : K
  tokens : K
  last : K
  deriving DecidableEq

namespace TokenBucket

variable {K : Type} [Field K] [LinearOrder K]

def full (rate burst now : K) : TokenBucket K := ⟨rate, burst, burst, now⟩

def level (b : TokenBucket K) (t : K) : K := min b.burst (b.tokens + b.rate * (t - b.last))

def holding (b : TokenBucket K) (tokens t : K) : TokenBucket K := { b with tokens := tokens, last := t }

def allow (b : TokenBucket K) (t : K) : Bool × TokenBucket K :=
  if 1 ≤ b.level t then (true, b.holding (b.level t - 1) t) else (false, b.holding (b.level t) t)

def granted : TokenBucket K → List K → List K
  | _, [] => []
  | b, t :: ts => if (b.allow t).1 then t :: granted (b.allow t).2 ts else granted (b.allow t).2 ts

theorem allow_of_le {b : TokenBucket K} {t : K} (h : 1 ≤ b.level t) :
    b.allow t = (true, b.holding (b.level t - 1) t) := if_pos h

theorem allow_of_lt {b : TokenBucket K} {t : K} (h : b.level t < 1) :
    b.allow t = (false, b.holding (b.level t) t) := if_neg (not_le.mpr h)

@[simp] theorem allow_last (b : TokenBucket K) (t : K) : (b.allow t).2.last = t := by
  unfold allow
  split_ifs <;> rfl

@[simp] theorem allow_rate (b : TokenBucket K) (t : K) : (b.allow t).2.rate = b.rate := by
  unfold allow
  split_ifs <;> rfl

@[simp] theorem allow_burst (b : TokenBucket K) (t : K) : (b.allow t).2.burst = b.burst := by
  unfold allow
  split_ifs <;> rfl

theorem granted_sublist (b : TokenBucket K) (ts : List K) : (b.granted ts).Sublist ts := by
  induction ts generalizing b with
  | nil => exact .slnil
  | cons t ts ih =>
    unfold granted
    split_ifs
    · exact (ih _).cons_cons t
    · exact (ih _).cons t

section Counting

theorem level_le_burst (b : TokenBucket K) (t : K) : b.level t ≤ b.burst := min_le_left _ _

theorem level_holding (b : TokenBucket K) {tokens : K} (h : tokens ≤ b.burst) (t : K) :
    (b.holding tokens t).level t = tokens := by
  simp [level, holding, h]

variable [IsStrictOrderedRing K] {b : TokenBucket K} {ts : List K}

theorem level_of_full (hrate : 0 ≤ b.rate) {t u : K} (htu : t ≤ u) (h : b.level t = b.burst) :
    b.level u = b.burst := by
  have hfull : b.burst ≤ b.tokens + b.rate * (t - b.last) := min_eq_left_iff.mp h
  have hmono : b.rate * (t - b.last) ≤ b.rate * (u - b.last) := by gcongr
  exact min_eq_left (le_trans hfull (by linarith))

theorem level_le_add (hrate : 0 ≤ b.rate) {t u : K} (htu : t ≤ u) :
    b.level u ≤ b.level t + b.rate * (u - t) := by
  have hgain : 0 ≤ b.rate * (u - t) := mul_nonneg hrate (by linarith)
  have hsplit : b.rate * (u - b.last) = b.rate * (t - b.last) + b.rate * (u - t) := by ring
  unfold level
  rcases min_cases b.burst (b.tokens + b.rate * (t - b.last)) with ⟨hmin, _⟩ | ⟨hmin, _⟩
  · rw [hmin]
    exact le_trans (min_le_left _ _) (by linarith)
  · rw [hmin]
    exact le_trans (min_le_right _ _) (by linarith)

structure Proper (b : TokenBucket K) : Prop where
  rate : 0 ≤ b.rate
  burst : 0 ≤ b.burst
  tokens : 0 ≤ b.tokens

theorem Proper.level_nonneg (h : b.Proper) {t : K} (ht : b.last ≤ t) : 0 ≤ b.level t :=
  le_min h.burst (add_nonneg h.tokens (mul_nonneg h.rate (by linarith)))

theorem Proper.level_eq_burst (h : b.Proper) {t : K} (hwait : b.burst ≤ b.rate * (t - b.last)) :
    b.level t = b.burst :=
  min_eq_left (by linarith [h.tokens])

theorem Proper.allow (h : b.Proper) {t : K} (ht : b.last ≤ t) : (b.allow t).2.Proper := by
  rcases le_or_gt 1 (b.level t) with hone | hone
  · rw [allow_of_le hone]
    exact ⟨h.rate, h.burst, sub_nonneg.mpr hone⟩
  · rw [allow_of_lt hone]
    exact ⟨h.rate, h.burst, h.level_nonneg ht⟩

theorem level_allow (b : TokenBucket K) (t : K) :
    (b.allow t).2.level t = b.level t - if (b.allow t).1 then 1 else 0 := by
  have hle := b.level_le_burst t
  rcases le_or_gt 1 (b.level t) with hone | hone
  · rw [allow_of_le hone]
    exact level_holding b (by linarith) t
  · rw [allow_of_lt hone]
    exact (level_holding b hle t).trans (sub_zero _).symm

theorem granted_le_level (hb : b.Proper) {a e : K} (hlast : b.last ≤ a) (hae : a ≤ e)
    (hsorted : ts.Pairwise (· ≤ ·)) (hge : ∀ t ∈ ts, a ≤ t) :
    ((b.granted ts).countP (· ≤ e) : K) ≤ b.level a + b.rate * (e - a) := by
  have hnonneg : 0 ≤ b.level a + b.rate * (e - a) :=
    add_nonneg (hb.level_nonneg hlast) (mul_nonneg hb.rate (by linarith))
  induction ts generalizing b a with
  | nil => simpa [granted] using hnonneg
  | cons t ts ih =>
    obtain ⟨hfirst, hsorted'⟩ := List.pairwise_cons.mp hsorted
    have hat : a ≤ t := hge t List.mem_cons_self
    rcases lt_or_ge e t with het | hte
    · -- all requests come after `e`
      have hzero : (b.granted (t :: ts)).countP (· ≤ e) = 0 := by
        rw [List.countP_eq_zero]
        intro u hu
        have htu : t ≤ u := by
          rcases List.mem_cons.mp ((granted_sublist b _).subset hu) with rfl | hu
          · exact le_refl _
          · exact hfirst u hu
        simpa using lt_of_lt_of_le het htu
      rw [hzero, Nat.cast_zero]
      exact hnonneg
    · have hproper := hb.allow (le_trans hlast hat)
      have hrest := ih hproper (a := t) (by rw [allow_last]) hte hsorted' hfirst
        (add_nonneg (hproper.level_nonneg (by rw [allow_last])) (mul_nonneg hproper.rate (by linarith)))
      rw [level_allow, allow_rate] at hrest
      have hgain := level_le_add hb.rate hat
      have hsplit : b.rate * (e - a) = b.rate * (t - a) + b.rate * (e - t) := by ring
      unfold granted
      split_ifs with hallow
      · rw [if_pos hallow] at hrest
        rw [List.countP_cons_of_pos (by simpa using hte), Nat.cast_add, Nat.cast_one]
        linarith
      · rw [if_neg hallow] at hrest
        linarith

/-- The bound of a token bucket: no window of length `d` sees more than `burst + rate * d` grants. -/
theorem granted_le (hb : b.Proper) {a d : K} (hd : 0 ≤ d) (hsorted : ts.Pairwise (· ≤ ·))
    (hlast : ∀ t ∈ ts, b.last ≤ t) :
    ((b.granted ts).countP (fun t => a ≤ t ∧ t ≤ a + d) : K) ≤ b.burst + b.rate * d := by
  induction ts generalizing b with
  | nil =>
    have hnonneg : 0 ≤ b.burst + b.rate * d := add_nonneg hb.burst (mul_nonneg hb.rate hd)
    simpa [granted] using hnonneg
  | cons t ts ih =>
    obtain ⟨hfirst, hsorted'⟩ := List.pairwise_cons.mp hsorted
    have hbt : b.last ≤ t := hlast t List.mem_cons_self
    rcases lt_or_ge t a with hta | hat
    · -- a request before the window changes the bucket and no count
      have hrest := ih (hb.allow hbt) hsorted' (by simpa using hfirst)
      rw [allow_burst, allow_rate] at hrest
      unfold granted
      split_ifs
      · rw [List.countP_cons_of_neg (by simp [hta])]
        exact hrest
      · exact hrest
    · -- from here on every request is at or after the start of the window
      have hge : ∀ u ∈ t :: ts, t ≤ u := by
        intro u hu
        rcases List.mem_cons.mp hu with rfl | hu
        · exact le_refl _
        · exact hfirst u hu
      have hcount : (b.granted (t :: ts)).countP (fun u => a ≤ u ∧ u ≤ a + d) ≤
          (b.granted (t :: ts)).countP (· ≤ max t (a + d)) := by
        refine List.countP_mono_left fun u _ hu => ?_
        simp only [decide_eq_true_eq] at hu ⊢
        exact le_max_of_le_right hu.2
      have hwindow := granted_le_level hb hbt (le_max_left t (a + d)) hsorted hge
      have hend : max t (a + d) ≤ t + d := max_le (by linarith) (by linarith)
      have hlong : b.rate * (max t (a + d) - t) ≤ b.rate * d :=
        mul_le_mul_of_nonneg_left (by linarith) hb.rate
      have hlevel := b.level_le_burst t
      have hcast : ((b.granted (t :: ts)).countP (fun u => a ≤ u ∧ u ≤ a + d) : K) ≤
          ((b.granted (t :: ts)).countP (· ≤ max t (a + d)) : K) := Nat.cast_le.mpr hcount
      linarith

end Counting

end TokenBucket

end EBeacon
