import Mathlib.Algebra.Order.Field.Rat
import Mathlib.Tactic.Positivity
import EBeacon.Library.Text

/-!
Decimal numbers as texts, without a sign and without an exponent.
-/

namespace EBeacon.Text

def number (digits : List Char) : ℕ := digits.foldl (fun n c => 10 * n + (c.toNat - 48)) 0

structure Decimal where
  whole : List Char
  fraction : Option (List Char)
  digits : ∀ c ∈ whole ++ fraction.getD [], isDigit c = true
  nonempty : whole ++ fraction.getD [] ≠ []

namespace Decimal

def text (d : Decimal) : List Char := d.whole ++ (d.fraction.map ('.' :: ·)).getD []

def ratio (whole fraction : List Char) : ℚ := (number (whole ++ fraction) : ℚ) / 10 ^ fraction.length

def value (d : Decimal) : ℚ := ratio d.whole (d.fraction.getD [])

theorem value_nonneg (d : Decimal) : 0 ≤ d.value := by
  unfold value ratio
  positivity

theorem mem_text {d : Decimal} {c : Char} (h : c ∈ d.text) : isDigit c = true ∨ c = '.' := by
  unfold text at h
  rcases List.mem_append.mp h with hwhole | hfraction
  · exact Or.inl (d.digits c (List.mem_append_left _ hwhole))
  · cases hf : d.fraction with
    | none =>
      rw [hf] at hfraction
      cases hfraction
    | some f =>
      rw [hf] at hfraction
      rcases List.mem_cons.mp hfraction with hpoint | hmem
      · exact Or.inr hpoint
      · refine Or.inl (d.digits c (List.mem_append_right _ ?_))
        rw [hf]
        exact hmem

def parseParts (whole fraction : List Char) : Option ℚ :=
  if whole ++ fraction ≠ [] ∧ (whole ++ fraction).all isDigit then some (ratio whole fraction) else none

def parse (s : List Char) : Option ℚ :=
  match s.splitOn '.' with
  | [whole] => parseParts whole []
  | [whole, fraction] => parseParts whole fraction
  | _ => none

theorem notMem_of_digits {l : List Char} (h : ∀ c ∈ l, isDigit c = true) : '.' ∉ l :=
  fun hmem => absurd (h '.' hmem) (by decide)

theorem parse_of_one {s whole : List Char} (h : s.splitOn '.' = [whole]) : parse s = parseParts whole [] := by
  unfold parse
  rw [h]

theorem parse_of_two {s whole fraction : List Char} (h : s.splitOn '.' = [whole, fraction]) :
    parse s = parseParts whole fraction := by
  unfold parse
  rw [h]

theorem parse_text (d : Decimal) : parse d.text = some d.value := by
  obtain ⟨whole, fraction, hdigits, hne⟩ := d
  have hparts : parseParts whole (fraction.getD []) = some (ratio whole (fraction.getD [])) :=
    if_pos ⟨hne, List.all_eq_true.mpr hdigits⟩
  rw [List.forall_mem_append] at hdigits
  have hwhole := notMem_of_digits hdigits.1
  cases fraction with
  | none =>
    have hsplit : (whole ++ []).splitOn '.' = [whole] := by
      rw [List.append_nil]
      exact List.splitOn_eq_singleton hwhole
    exact (parse_of_one hsplit).trans hparts
  | some fraction =>
    rw [Option.getD_some] at hdigits
    have hsplit : (whole ++ '.' :: fraction).splitOn '.' = [whole, fraction] := by
      rw [List.splitOn_append_cons_self, List.splitOn_eq_singleton hwhole,
        List.splitOn_eq_singleton (notMem_of_digits hdigits.2), List.singleton_append]
    exact (parse_of_two hsplit).trans hparts

end Decimal

end EBeacon.Text
