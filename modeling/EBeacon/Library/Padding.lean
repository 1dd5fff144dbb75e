import EBeacon.Library.Segments

/-!
`strings.TrimSpace` of a text with blanks on both sides.
-/

namespace EBeacon.Text

section Words

variable {words : List (List Char)} {l : List Char}

theorem dropWords_of_no_word (h : ∀ w ∈ words, w.isPrefixOf l = false) (fuel : ℕ) : dropWords words fuel l = l := by
  cases fuel with
  | zero => rfl
  | succ fuel =>
    have hnone : words.find? (fun w => w.isPrefixOf l) = none := by
      rw [List.find?_eq_none]
      intro w hw
      simp [h w hw]
    rw [dropWords, hnone]

theorem dropWords_letter {c : Char} (hc : [c] ∈ words) (honly : ∀ w ∈ words, w = [c] ∨ (w ≠ [] ∧ w.head? ≠ some c))
    (fuel : ℕ) : dropWords words (fuel + 1) (c :: l) = dropWords words fuel l := by
  have hfind : words.find? (fun w => w.isPrefixOf (c :: l)) = some [c] := by
    cases hw : words.find? (fun w => w.isPrefixOf (c :: l)) with
    | none =>
      have hnone := List.find?_eq_none.mp hw [c] hc
      simp at hnone
    | some w =>
      have hstart : w.isPrefixOf (c :: l) = true := by simpa using List.find?_some hw
      rcases honly w (List.mem_of_find?_eq_some hw) with rfl | ⟨hne, hhead⟩
      · rfl
      · obtain ⟨d, w, rfl⟩ := List.exists_cons_of_ne_nil hne
        simp only [List.isPrefixOf_cons_cons, Bool.and_eq_true, beq_iff_eq] at hstart
        exact absurd (congrArg some hstart.1) hhead
  rw [dropWords, hfind]
  rfl

theorem dropWords_letters {pad : List Char} (hpad : ∀ c ∈ pad, [c] ∈ words ∧
    ∀ w ∈ words, w = [c] ∨ (w ≠ [] ∧ w.head? ≠ some c)) (h : ∀ w ∈ words, w.isPrefixOf l = false)
    {fuel : ℕ} (hfuel : pad.length ≤ fuel) : dropWords words fuel (pad ++ l) = l := by
  induction pad generalizing fuel with
  | nil => exact dropWords_of_no_word h fuel
  | cons c pad ih =>
    rw [List.forall_mem_cons] at hpad
    obtain ⟨fuel, rfl⟩ : ∃ n, fuel = n + 1 := ⟨fuel - 1, by simp at hfuel; omega⟩
    rw [List.cons_append, dropWords_letter hpad.1.1 hpad.1.2]
    exact ih hpad.2 (by simpa using hfuel)

end Words

def isBlank (c : Char) : Bool := c = ' ' || c = '\t'

theorem blank_word {c : Char} (h : isBlank c = true) :
    ([c] ∈ spaces ∧ ∀ w ∈ spaces, w = [c] ∨ (w ≠ [] ∧ w.head? ≠ some c)) ∧
      ([c] ∈ spaces.map List.reverse ∧
        ∀ w ∈ spaces.map List.reverse, w = [c] ∨ (w ≠ [] ∧ w.head? ≠ some c)) := by
  unfold isBlank at h
  rw [Bool.or_eq_true, decide_eq_true_eq, decide_eq_true_eq] at h
  rcases h with rfl | rfl <;> decide

def Tight (l : List Char) : Prop :=
  l = [] ∨ (∃ x, l.head? = some x ∧ spaceByte x = false) ∧ ∃ x, l.getLast? = some x ∧ spaceByte x = false

theorem tight_of_forall {l : List Char} (h : ∀ c ∈ l, spaceByte c = false) : Tight l := by
  by_cases hl : l = []
  · exact Or.inl hl
  · exact Or.inr ⟨⟨l.head hl, List.head?_eq_some_head hl, h _ (List.head_mem hl)⟩,
      l.getLast hl, List.getLast?_eq_some_getLast hl, h _ (List.getLast_mem hl)⟩

theorem spaceByte_of_isDigit {c : Char} (h : isDigit c = true) : spaceByte c = false := by
  have hall : spaces.all (fun w => w.all (fun c => !isDigit c)) = true := by decide
  cases hspace : spaceByte c with
  | false => rfl
  | true =>
    obtain ⟨w, hw, hc⟩ := List.any_eq_true.mp hspace
    have hdigit := List.all_eq_true.mp (List.all_eq_true.mp hall w hw) c (List.contains_iff_mem.mp hc)
    rw [h] at hdigit
    cases hdigit

theorem not_isPrefixOf_of_head {l w : List Char} {x : Char} (hl : l.head? = some x) (hne : w ≠ []) (hx : x ∉ w) :
    w.isPrefixOf l = false := by
  obtain ⟨l, rfl⟩ := List.head?_eq_some_iff.mp hl
  obtain ⟨d, w, rfl⟩ := List.exists_cons_of_ne_nil hne
  rw [List.mem_cons, not_or] at hx
  rw [List.isPrefixOf_cons_cons, beq_false_of_ne (Ne.symm hx.1), Bool.false_and]

theorem notMem_of_spaceByte {x : Char} (hx : spaceByte x = false) {w : List Char} (hw : w ∈ spaces) : x ∉ w := by
  intro hmem
  unfold spaceByte at hx
  rw [List.any_eq_false] at hx
  exact hx w hw (List.contains_iff_mem.mpr hmem)

theorem spaces_ne_nil {w : List Char} (hw : w ∈ spaces) : w ≠ [] := by
  revert w
  decide

theorem trimSpace_blanks {pad core back : List Char} (hpad : ∀ c ∈ pad, isBlank c = true)
    (hback : ∀ c ∈ back, isBlank c = true) (hcore : Tight core) :
    trimSpace (String.ofList (pad ++ core ++ back)) = String.ofList core := by
  have hpad' := fun c hc => (blank_word (hpad c hc)).1
  have hback' := fun c hc => (blank_word (hback c hc)).1
  have hrev : ∀ c ∈ back.reverse, _ := fun c hc => (blank_word (hback c (List.mem_reverse.mp hc))).2
  have hempty : ∀ w ∈ spaces, w.isPrefixOf [] = false := by decide
  have hempty' : ∀ w ∈ spaces.map List.reverse, w.isPrefixOf [] = false := by decide
  have hlength : (String.ofList (pad ++ core ++ back)).length = pad.length + core.length + back.length := by
    rw [← String.length_toList, String.toList_ofList, List.length_append, List.length_append]
  unfold trimSpace
  dsimp only
  rw [hlength, String.toList_ofList]
  rcases hcore with rfl | ⟨⟨x, hhead, hx⟩, y, hlast, hy⟩
  · have hleft : dropWords spaces (pad.length + 0 + back.length) (pad ++ [] ++ back) = [] := by
      rw [← List.append_nil (pad ++ [] ++ back)]
      apply dropWords_letters _ hempty (by simp)
      rw [List.append_nil, List.forall_mem_append]
      exact ⟨hpad', hback'⟩
    rw [List.length_nil, hleft, List.reverse_nil, dropWords_of_no_word hempty', List.reverse_nil]
  · have hleft : dropWords spaces (pad.length + core.length + back.length) (pad ++ core ++ back) = core ++ back := by
      rw [List.append_assoc]
      refine dropWords_letters hpad' (fun w hw => ?_) (by omega)
      have hhead' : (core ++ back).head? = some x := by rw [List.head?_append, hhead]; rfl
      exact not_isPrefixOf_of_head hhead' (spaces_ne_nil hw) (notMem_of_spaceByte hx hw)
    have hright : dropWords (spaces.map List.reverse) (pad.length + core.length + back.length)
        (back.reverse ++ core.reverse) = core.reverse := by
      refine dropWords_letters hrev (fun w hw => ?_) (by rw [List.length_reverse]; omega)
      obtain ⟨v, hv, rfl⟩ := List.mem_map.mp hw
      apply not_isPrefixOf_of_head (x := y)
      · rw [List.head?_reverse, hlast]
      · simpa using spaces_ne_nil hv
      · rw [List.mem_reverse]
        exact notMem_of_spaceByte hy hv
    rw [hleft, List.reverse_append, hright, List.reverse_reverse]

end EBeacon.Text
