import Mathlib.Data.List.Induction
import Mathlib.Order.Lattice

/-!
Choosing by a count of votes: the candidate with the most votes, the smallest name among equals,
at the highest level at which anyone has a vote.
-/

namespace EBeacon.Election

section Best

variable {α ρ : Type} [LinearOrder ρ] (count : α → ℕ) (name : α → ρ)

def better (best : Option α × ℕ) (a : α) : Option α × ℕ :=
  if count a = 0 then best
  else if best.2 < count a ∨ (count a = best.2 ∧ best.1.any (fun b => name a < name b)) then
    (some a, count a)
  else best

def Best (l : List α) (best : Option α × ℕ) : Prop :=
  match best.1 with
  | none => best.2 = 0 ∧ ∀ a ∈ l, count a = 0
  | some b => b ∈ l ∧ best.2 = count b ∧ 0 < count b ∧
      ∀ a ∈ l, count a < count b ∨ (count a = count b ∧ name b ≤ name a)

theorem Best.better {l : List α} {best : Option α × ℕ} (h : Best count name l best) (a : α) :
    Best count name (l ++ [a]) (better count name best a) := by
  obtain ⟨best, n⟩ := best
  by_cases ha : count a = 0
  · simp only [Election.better, ha, if_true]
    cases best with
    | none =>
      obtain ⟨hn, hl⟩ := h
      exact ⟨hn, by simpa [or_imp, forall_and, ha] using hl⟩
    | some b =>
      obtain ⟨hb, hn, hpos, hl⟩ := h
      refine ⟨List.mem_append_left _ hb, hn, hpos, fun c hc => ?_⟩
      rcases List.mem_append.mp hc with hc | hc
      · exact hl c hc
      · rw [List.mem_singleton.mp hc, ha]
        exact .inl hpos
  · have hpos : 0 < count a := Nat.pos_of_ne_zero ha
    simp only [Election.better, ha, if_false]
    cases best with
    | none =>
      obtain ⟨hn, hl⟩ := h
      simp only at hn
      rw [if_pos (.inl (hn ▸ hpos))]
      refine ⟨List.mem_append_right _ (List.mem_singleton.mpr rfl), rfl, hpos, fun c hc => ?_⟩
      rcases List.mem_append.mp hc with hc | hc
      · rw [hl c hc]
        exact .inl hpos
      · rw [List.mem_singleton.mp hc]
        exact .inr ⟨rfl, le_refl _⟩
    | some b =>
      obtain ⟨hb, hn, hbpos, hl⟩ := h
      simp only at hn
      subst hn
      split
      · rename_i hbeats
        refine ⟨List.mem_append_right _ (List.mem_singleton.mpr rfl), rfl, hpos, fun c hc => ?_⟩
        simp only [Option.any_some, decide_eq_true_eq] at hbeats
        rcases List.mem_append.mp hc with hc | hc
        · rcases hbeats with hlt | ⟨he, hname⟩ <;> rcases hl c hc with hc | ⟨hc, hcn⟩
          · exact .inl (by omega)
          · exact .inl (by omega)
          · exact .inl (by omega)
          · exact .inr ⟨by omega, hname.le.trans hcn⟩
        · rw [List.mem_singleton.mp hc]
          exact .inr ⟨rfl, le_refl _⟩
      · rename_i hkeeps
        refine ⟨List.mem_append_left _ hb, rfl, hbpos, fun c hc => ?_⟩
        rcases List.mem_append.mp hc with hc | hc
        · exact hl c hc
        · rw [List.mem_singleton.mp hc]
          simp only [Option.any_some, decide_eq_true_eq, not_or, not_and] at hkeeps
          rcases Nat.lt_or_eq_of_le (Nat.le_of_not_lt hkeeps.1) with hlt | he
          · exact .inl hlt
          · exact .inr ⟨he, le_of_not_gt (hkeeps.2 he)⟩

theorem best_scan (l : List α) : Best count name l (l.foldl (better count name) (none, 0)) := by
  induction l using List.reverseRecOn with
  | nil => exact ⟨rfl, by simp⟩
  | append_singleton l a ih =>
    rw [List.foldl_append]
    exact ih.better count name a

end Best

section First

variable {α : Type} (count : α → ℕ)

def raise (best : Option α × ℕ) (a : α) : Option α × ℕ :=
  if best.2 < count a then (some a, count a) else best

def First (l : List α) (best : Option α × ℕ) : Prop :=
  match best.1 with
  | none => best.2 = 0 ∧ ∀ a ∈ l, count a = 0
  | some b => best.2 = count b ∧ 0 < count b ∧ (∀ a ∈ l, count a ≤ count b) ∧
      ∃ before after, l = before ++ b :: after ∧ ∀ a ∈ before, count a < count b

theorem First.raise {l : List α} {best : Option α × ℕ} (h : First count l best) (a : α) :
    First count (l ++ [a]) (raise count best a) := by
  obtain ⟨best, n⟩ := best
  unfold Election.raise
  cases best with
  | none =>
    obtain ⟨hn, hl⟩ := h
    simp only at hn
    subst hn
    split_ifs with hlt
    · refine ⟨rfl, hlt, fun b hb => ?_, l, [], rfl, fun b hb => ?_⟩
      · rcases List.mem_append.mp hb with hb | hb
        · rw [hl b hb]
          exact Nat.zero_le _
        · exact Nat.le_of_eq (congrArg count (List.mem_singleton.mp hb))
      · rw [hl b hb]
        exact hlt
    · refine ⟨rfl, fun b hb => ?_⟩
      rcases List.mem_append.mp hb with hb | hb
      · exact hl b hb
      · rw [List.mem_singleton.mp hb]
        simp only at hlt
        omega
  | some b =>
    obtain ⟨hn, hpos, hl, before, after, rfl, hbefore⟩ := h
    simp only at hn
    subst hn
    split_ifs with hlt
    · simp only at hlt
      refine ⟨rfl, by omega, fun c hc => ?_, before ++ b :: after, [], rfl, fun c hc => ?_⟩
      · rcases List.mem_append.mp hc with hc | hc
        · exact Nat.le_trans (hl c hc) (Nat.le_of_lt hlt)
        · exact Nat.le_of_eq (congrArg count (List.mem_singleton.mp hc))
      · exact Nat.lt_of_le_of_lt (hl c hc) hlt
    · simp only at hlt
      refine ⟨rfl, hpos, fun c hc => ?_, before, after ++ [a], by simp, hbefore⟩
      rcases List.mem_append.mp hc with hc | hc
      · exact hl c hc
      · rw [List.mem_singleton.mp hc]
        omega

theorem first_scan (l : List α) : First count l (l.foldl (raise count) (none, 0)) := by
  induction l using List.reverseRecOn with
  | nil => exact ⟨rfl, by simp⟩
  | append_singleton l a ih =>
    rw [List.foldl_append]
    exact ih.raise count a

end First

section Levels

variable {σ ρ : Type} [LinearOrder ρ]

def Leads (score : σ → ρ → ℕ) (s : σ) (r : ρ) : Prop :=
  0 < score s r ∧ ∀ r', score s r' < score s r ∨ (score s r' = score s r ∧ r ≤ r')

theorem Leads.unique {score : σ → ρ → ℕ} {s : σ} {r r' : ρ} (h : Leads score s r)
    (h' : Leads score s r') : r = r' := by
  rcases h.2 r' with hlt | ⟨heq, hle⟩ <;> rcases h'.2 r with hlt' | ⟨heq', hle'⟩
  · omega
  · omega
  · omega
  · exact le_antisymm hle hle'

variable [LinearOrder σ]

structure Elected (score : σ → ρ → ℕ) (window : σ → Prop) (s : σ) (r : ρ) : Prop where
  inWindow : window s
  leads : Leads score s r
  above : ∀ s', s < s' → window s' → ∀ r', score s' r' = 0

def Outcome (score : σ → ρ → ℕ) (window : σ → Prop) (fallback result : σ × ρ) : Prop :=
  Elected score window result.1 result.2 ∨
    (result = fallback ∧ ∀ s, window s → ∀ r, score s r = 0)

variable {score : σ → ρ → ℕ} {window : σ → Prop}

theorem Elected.unique_across {window' : σ → Prop} {s s' : σ} {r r' : ρ} (h : Elected score window s r)
    (h' : Elected score window' s' r') (hup : s < s' → window s') (hup' : s' < s → window' s) :
    s = s' ∧ r = r' := by
  have hs : s = s' := by
    rcases lt_trichotomy s s' with hlt | heq | hlt
    · exact absurd (h.above s' hlt (hup hlt) r') (Nat.pos_iff_ne_zero.mp h'.leads.1)
    · exact heq
    · exact absurd (h'.above s hlt (hup' hlt) r) (Nat.pos_iff_ne_zero.mp h.leads.1)
  subst hs
  exact ⟨rfl, h.leads.unique h'.leads⟩

theorem Elected.unique {s s' : σ} {r r' : ρ} (h : Elected score window s r)
    (h' : Elected score window s' r') : s = s' ∧ r = r' :=
  h.unique_across h' (fun _ => h'.inWindow) (fun _ => h.inWindow)

theorem Outcome.unique {fallback a b : σ × ρ} (ha : Outcome score window fallback a)
    (hb : Outcome score window fallback b) : a = b := by
  rcases ha with ha | ⟨ha, hnone⟩ <;> rcases hb with hb | ⟨hb, hnone'⟩
  · exact Prod.ext (ha.unique hb).1 (ha.unique hb).2
  · exact absurd (hnone' _ ha.inWindow _) (Nat.pos_iff_ne_zero.mp ha.leads.1)
  · exact absurd (hnone _ hb.inWindow _) (Nat.pos_iff_ne_zero.mp hb.leads.1)
  · rw [ha, hb]

end Levels

end EBeacon.Election
