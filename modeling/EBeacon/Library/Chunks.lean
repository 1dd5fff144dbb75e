import Mathlib.Data.List.Induction

/-!
A list cut behind every element with a property, as a text is cut into lines.
-/

namespace EBeacon.Chunks

variable {α : Type} (p : α → Bool)

def cut (state : List (List α) × List α) (a : α) : List (List α) × List α :=
  if p a then (state.1 ++ [state.2 ++ [a]], []) else (state.1, state.2 ++ [a])

def chunks (l : List α) : List (List α) × List α := l.foldl (cut p) ([], [])

def IsChunk (c : List α) : Prop := ∃ body a, c = body ++ [a] ∧ p a = true ∧ ∀ x ∈ body, p x = false

variable {p} {l m : List α}

theorem chunks_concat (l : List α) (a : α) : chunks p (l ++ [a]) = cut p (chunks p l) a := by
  rw [chunks, List.foldl_append]
  rfl

theorem chunks_flatten (l : List α) : (chunks p l).1.flatten ++ (chunks p l).2 = l := by
  induction l using List.reverseRecOn with
  | nil => rfl
  | append_singleton l a ih =>
    rw [chunks_concat, cut]
    split_ifs
    · simp [← List.append_assoc, ih]
    · rw [← List.append_assoc, ih]

theorem chunks_rest (l : List α) : ∀ x ∈ (chunks p l).2, p x = false := by
  induction l using List.reverseRecOn with
  | nil => simp [chunks]
  | append_singleton l a ih =>
    rw [chunks_concat, cut]
    split_ifs with ha
    · simp
    · intro x hx
      rcases List.mem_append.mp hx with hx | hx
      · exact ih x hx
      · rw [List.mem_singleton.mp hx]
        simpa using ha

theorem isChunk_of_mem {c : List α} (h : c ∈ (chunks p l).1) : IsChunk p c := by
  induction l using List.reverseRecOn with
  | nil => cases h
  | append_singleton l a ih =>
    rw [chunks_concat, cut] at h
    split_ifs at h with ha
    · rcases List.mem_append.mp h with h | h
      · exact ih h
      · rw [List.mem_singleton.mp h]
        exact ⟨_, a, rfl, ha, chunks_rest l⟩
    · exact ih h

theorem chunks_of_none (h : ∀ x ∈ l, p x = false) : chunks p l = ([], l) := by
  induction l using List.reverseRecOn with
  | nil => rfl
  | append_singleton l a ih =>
    have ha : p a = false := h a (by simp)
    rw [chunks_concat, ih (fun x hx => h x (List.mem_append_left _ hx)), cut, ha, if_neg Bool.false_ne_true]

theorem chunks_of_isChunk (h : IsChunk p l) : chunks p l = ([l], []) := by
  obtain ⟨body, a, rfl, ha, hbody⟩ := h
  rw [chunks_concat, chunks_of_none hbody, cut, if_pos ha]
  rfl

theorem chunks_append (l m : List α) :
    chunks p (l ++ m) =
      ((chunks p l).1 ++ (chunks p ((chunks p l).2 ++ m)).1, (chunks p ((chunks p l).2 ++ m)).2) := by
  induction m using List.reverseRecOn with
  | nil => rw [List.append_nil, List.append_nil, chunks_of_none (chunks_rest l), List.append_nil]
  | append_singleton m a ih =>
    rw [← List.append_assoc, ← List.append_assoc, chunks_concat, chunks_concat, ih, cut, cut]
    split_ifs
    · rw [List.append_assoc]
    · rfl

theorem chunks_append_chunk (hl : (chunks p l).2 = []) (hm : IsChunk p m) :
    chunks p (l ++ m) = ((chunks p l).1 ++ [m], []) := by
  rw [chunks_append, hl, List.nil_append, chunks_of_isChunk hm]

theorem chunks_append_none (hl : (chunks p l).2 = []) (hm : ∀ x ∈ m, p x = false) :
    chunks p (l ++ m) = ((chunks p l).1, m) := by
  rw [chunks_append, hl, List.nil_append, chunks_of_none hm, List.append_nil]

theorem IsChunk.ne_nil (h : IsChunk p l) : l ≠ [] := by
  obtain ⟨body, a, rfl, -⟩ := h
  simp

theorem append_of_first {front : List α} {x : α} {c : List α} {cs : List (List α)}
    (hfront : ∀ y ∈ front, p y = false) (h : (chunks p (front ++ x :: m)).1 = c :: cs) :
    ∃ more, c = front ++ x :: more := by
  have hflatten := chunks_flatten (p := p) (front ++ x :: m)
  obtain ⟨body, a, hc, ha, hbody⟩ := isChunk_of_mem (l := front ++ x :: m) (p := p) (c := c) (by rw [h]; simp)
  rw [h, List.flatten_cons, List.append_assoc] at hflatten
  rcases List.append_eq_append_iff.mp hflatten with ⟨more, hover, -⟩ | ⟨more, hover, hrest⟩
  · -- the chunk would end within the front
    have hmem : a ∈ front := by
      rw [hover, hc]
      simp
    rw [hfront a hmem] at ha
    cases ha
  · cases more with
    | nil =>
      cases front using List.reverseRecOn with
      | nil =>
        rw [hover] at hc
        simp at hc
      | append_singleton front y =>
        rw [hc, List.append_nil] at hover
        have hlast := (List.append_inj' hover rfl).2
        rw [List.singleton_inj.mp hlast, hfront y (by simp)] at ha
        cases ha
    | cons d more =>
      rw [List.cons_append, List.cons.injEq] at hrest
      exact ⟨more, by rw [hover, hrest.1]⟩

end EBeacon.Chunks
