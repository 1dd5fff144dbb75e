import Mathlib.Data.List.Infix
import EBeacon.Library.Text

/-!
Words that are cut off a string at the first of several marks. A mark starts with a separator that
it does not contain again, so no mark straddles the end of one word and the separator that starts
the next.
-/

namespace EBeacon.Text

structure Mark (c : Char) where
  tail : List Char
  notMem : c ∉ tail

namespace Mark

variable {c : Char} {l t : List Char}

def word (m : Mark c) : List Char := c :: m.tail

def Boundary (c : Char) (t : List Char) : Prop := t = [] ∨ t.head? = some c

theorem prefix_append_iff {w : List Char} (hw : c ∉ w) (ht : Boundary c t) :
    w <+: l ++ t ↔ w <+: l := by
  constructor
  · intro h
    induction l generalizing w with
    | nil =>
      cases w with
      | nil => exact List.nil_prefix
      | cons x w =>
        obtain ⟨rest, hrest⟩ := h
        rcases ht with rfl | ht
        · cases hrest
        · rw [List.nil_append] at hrest
          rw [← hrest] at ht
          cases ht
          exact absurd List.mem_cons_self hw
    | cons d l ih =>
      cases w with
      | nil => exact List.nil_prefix
      | cons x w =>
        rw [List.cons_append, List.cons_prefix_cons] at h
        rw [List.cons_prefix_cons]
        exact ⟨h.1, ih (fun hc => hw (List.mem_cons_of_mem x hc)) h.2⟩
  · exact fun h => h.trans (List.prefix_append l t)

theorem isPrefixOf_append {e : Char} {m : Mark c} (he : e ∉ m.tail) (d : Char) (ht : Boundary e t) :
    m.word.isPrefixOf (d :: (l ++ t)) = m.word.isPrefixOf (d :: l) := by
  unfold word
  rw [Bool.eq_iff_iff, List.isPrefixOf_iff_prefix, List.isPrefixOf_iff_prefix, List.cons_prefix_cons,
    List.cons_prefix_cons, prefix_append_iff he ht]

theorem indexOf_append (m : Mark c) (ht : Boundary c t) (h : indexOf m.word l = none) :
    indexOf m.word (l ++ t) = (indexOf m.word t).map (l.length + ·) := by
  induction l with
  | nil => simp
  | cons d l ih =>
    rw [indexOf] at h
    split_ifs at h with hword
    rw [Option.map_eq_none_iff] at h
    rw [List.cons_append, indexOf, isPrefixOf_append m.notMem d ht, if_neg hword, ih h, Option.map_map]
    congr 1
    funext i
    simp only [Function.comp_apply, List.length_cons]
    omega

theorem indexOf_word_append (m : Mark c) (l : List Char) : indexOf m.word (m.word ++ l) = some 0 := by
  unfold word
  rw [List.cons_append, indexOf, if_pos]
  rw [List.isPrefixOf_iff_prefix]
  exact List.prefix_append (c :: m.tail) l

theorem indexOf_isSome_iff (m : Mark c) : (indexOf m.word l).isSome ↔ m.word <:+: l := by
  induction l with
  | nil => simp [indexOf, word]
  | cons d l ih =>
    rw [indexOf, List.infix_cons_iff, ← ih, ← List.isPrefixOf_iff_prefix]
    split_ifs with hword
    · simp [hword]
    · simp [hword]

theorem infix_append_iff (m : Mark c) {w : List Char} (hw : c ∉ w) :
    m.word <:+: w ++ l ↔ m.word <:+: l := by
  induction w with
  | nil => rfl
  | cons x w ih =>
    rw [List.mem_cons, not_or] at hw
    have hword : ¬ m.word <+: x :: (w ++ l) := by
      unfold word
      rw [List.cons_prefix_cons]
      exact fun h => hw.1 h.1
    rw [List.cons_append, List.infix_cons_iff, or_iff_right hword, ih hw.2]

def before (marks : List (Mark c)) : List Char → List Char
  | [] => []
  | d :: l => if marks.any (fun m => m.word.isPrefixOf (d :: l)) then [] else d :: before marks l

theorem take_min_indexOf (a b : Mark c) (l : List Char) :
    l.take (min ((indexOf a.word l).getD l.length) ((indexOf b.word l).getD l.length)) =
      before [a, b] l := by
  induction l with
  | nil => simp [before]
  | cons d l ih =>
    have hshift : ∀ i : Option ℕ, (i.map (· + 1)).getD (l.length + 1) = i.getD l.length + 1 := by
      intro i
      cases i <;> rfl
    rw [before, indexOf, indexOf, List.length_cons]
    simp only [List.any_cons, List.any_nil, Bool.or_false, Bool.or_eq_true]
    by_cases ha : a.word.isPrefixOf (d :: l) = true
    · rw [if_pos ha, if_pos (Or.inl ha), Option.getD_some, Nat.zero_min, List.take_zero]
    · by_cases hb : b.word.isPrefixOf (d :: l) = true
      · rw [if_pos hb, if_pos (Or.inr hb), Option.getD_some, Nat.min_zero, List.take_zero]
      · rw [if_neg ha, if_neg hb, if_neg (not_or.mpr ⟨ha, hb⟩), hshift, hshift, Nat.add_min_add_right,
          List.take_succ_cons, ih]

theorem before_isPrefix (marks : List (Mark c)) (l : List Char) : before marks l <+: l := by
  induction l with
  | nil => exact List.nil_prefix
  | cons d l ih =>
    rw [before]
    split_ifs
    · exact List.nil_prefix
    · exact List.cons_prefix_cons.mpr ⟨rfl, ih⟩

theorem any_isPrefixOf_append {e : Char} {marks : List (Mark c)} (he : ∀ m ∈ marks, e ∉ m.tail)
    (ht : Boundary e t) (d : Char) (l : List Char) :
    marks.any (fun m => m.word.isPrefixOf (d :: (l ++ t))) =
      marks.any (fun m => m.word.isPrefixOf (d :: l)) := by
  induction marks with
  | nil => rfl
  | cons m marks ih =>
    rw [List.forall_mem_cons] at he
    rw [List.any_cons, List.any_cons, isPrefixOf_append he.1 d ht, ih he.2]

theorem before_append_of_ne {e : Char} {marks : List (Mark c)} (he : ∀ m ∈ marks, e ∉ m.tail)
    (ht : Boundary e t) (h : before marks l ≠ l) : before marks (l ++ t) = before marks l := by
  induction l with
  | nil => exact absurd rfl h
  | cons d l ih =>
    rw [before] at h
    rw [List.cons_append, before, before, any_isPrefixOf_append he ht]
    split_ifs at h ⊢
    · rfl
    · rw [ih (fun hl => h (by rw [hl]))]

theorem before_append_of_eq {e : Char} {marks : List (Mark c)} (he : ∀ m ∈ marks, e ∉ m.tail)
    (ht : Boundary e t) (h : before marks l = l) : before marks (l ++ t) = l ++ before marks t := by
  induction l with
  | nil => rfl
  | cons d l ih =>
    rw [before] at h
    rw [List.cons_append, before, any_isPrefixOf_append he ht]
    split_ifs at h ⊢
    rw [ih (List.cons.inj h).2, List.cons_append]

theorem before_eq_self_iff (marks : List (Mark c)) (l : List Char) :
    before marks l = l ↔ ∀ m ∈ marks, ¬ m.word <:+: l := by
  induction l with
  | nil => simp [before, word]
  | cons d l ih =>
    rw [before]
    simp only [List.infix_cons_iff, not_or, forall_and]
    rw [← ih]
    split_ifs with hmark
    · obtain ⟨m, hm, hword⟩ := List.any_eq_true.mp hmark
      refine ⟨nofun, fun h => absurd (List.isPrefixOf_iff_prefix.mp hword) (h.1 m hm)⟩
    · rw [List.any_eq_true] at hmark
      constructor
      · intro h
        exact ⟨fun m hm hword => hmark ⟨m, hm, List.isPrefixOf_iff_prefix.mpr hword⟩,
          (List.cons.inj h).2⟩
      · intro h
        rw [h.2]

theorem before_of_notMem (marks : List (Mark c)) (h : c ∉ l) : before marks l = l := by
  rw [before_eq_self_iff]
  intro m _ hword
  exact h (hword.subset List.mem_cons_self)

theorem before_word_append {marks : List (Mark c)} {m : Mark c} (hm : m ∈ marks) (l : List Char) :
    before marks (m.word ++ l) = [] := by
  unfold word
  rw [List.cons_append, before, if_pos]
  exact List.any_eq_true.mpr ⟨m, hm, List.isPrefixOf_iff_prefix.mpr (List.prefix_append (c :: m.tail) l)⟩

theorem before_eq_or_mark (marks : List (Mark c)) (l : List Char) :
    before marks l = l ∨ ∃ m ∈ marks, ∃ rest, l = before marks l ++ m.word ++ rest := by
  induction l with
  | nil => exact Or.inl rfl
  | cons d l ih =>
    rw [before]
    split_ifs with hmark
    · obtain ⟨m, hm, hword⟩ := List.any_eq_true.mp hmark
      obtain ⟨rest, hrest⟩ := List.isPrefixOf_iff_prefix.mp hword
      exact Or.inr ⟨m, hm, rest, hrest.symm⟩
    · rcases ih with ih | ⟨m, hm, rest, hrest⟩
      · exact Or.inl (by rw [ih])
      · exact Or.inr ⟨m, hm, rest, by rw [List.cons_append, List.cons_append, ← hrest]⟩

end Mark

end EBeacon.Text
