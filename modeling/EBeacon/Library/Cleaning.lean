import EBeacon.Library.Segments

/-!
Which rooted paths `path.Clean` leaves as they are, up to a slash at the end.
-/

namespace EBeacon.Text

def PlainSegment (s : String) : Prop := s ≠ "" ∧ s ≠ "." ∧ s ≠ ".."

instance (s : String) : Decidable (PlainSegment s) := inferInstanceAs (Decidable (s ≠ "" ∧ s ≠ "." ∧ s ≠ ".."))

section Segments

variable {rooted : Bool} {acc segs : List String}

theorem cleanSegments_skip {s : String} (h : s = "" ∨ s = ".") :
    cleanSegments rooted acc (s :: segs) = cleanSegments rooted acc segs := by
  rw [cleanSegments.eq_def]
  exact if_pos h

theorem cleanSegments_push {s : String} (h : PlainSegment s) :
    cleanSegments rooted acc (s :: segs) = cleanSegments rooted (s :: acc) segs := by
  obtain ⟨hempty, hdot, hdots⟩ := h
  rw [cleanSegments.eq_def]
  dsimp only
  rw [if_neg (by simp [hempty, hdot]), if_neg hdots]

theorem cleanSegments_up (hacc : ∀ s ∈ acc, PlainSegment s) :
    cleanSegments true acc (".." :: segs) = cleanSegments true acc.tail segs := by
  cases acc with
  | nil => rfl
  | cons top below =>
    rw [cleanSegments.eq_def]
    dsimp only
    rw [if_neg (by decide), if_pos rfl, if_neg (hacc top List.mem_cons_self).2.2, List.tail_cons]

theorem plainSegment_or (s : String) : PlainSegment s ∨ (s = "" ∨ s = ".") ∨ s = ".." := by
  unfold PlainSegment
  tauto

theorem cleanSegments_of_plain (h : ∀ s ∈ segs, PlainSegment s) :
    cleanSegments rooted acc segs = acc.reverse ++ segs := by
  induction segs generalizing acc with
  | nil => simp [cleanSegments]
  | cons s segs ih =>
    rw [List.forall_mem_cons] at h
    rw [cleanSegments_push h.1, ih h.2]
    simp

theorem mem_cleanSegments (hacc : ∀ s ∈ acc, PlainSegment s) {s : String} (hs : s ∈ cleanSegments true acc segs) :
    PlainSegment s ∧ (s ∈ acc ∨ s ∈ segs) := by
  induction segs generalizing acc with
  | nil =>
    rw [cleanSegments, List.mem_reverse] at hs
    exact ⟨hacc s hs, Or.inl hs⟩
  | cons t segs ih =>
    rcases plainSegment_or t with hplain | hskip | rfl
    · rw [cleanSegments_push hplain] at hs
      obtain ⟨hres, hmem⟩ := ih (List.forall_mem_cons.mpr ⟨hplain, hacc⟩) hs
      refine ⟨hres, ?_⟩
      simp only [List.mem_cons] at hmem ⊢
      tauto
    · rw [cleanSegments_skip hskip] at hs
      exact (ih hacc hs).imp_right (Or.imp_right (List.mem_cons_of_mem t))
    · rw [cleanSegments_up hacc] at hs
      obtain ⟨hres, hmem⟩ := ih (fun u hu => hacc u (List.mem_of_mem_tail hu)) hs
      exact ⟨hres, hmem.imp List.mem_of_mem_tail (List.mem_cons_of_mem _)⟩

theorem cleanSegments_concat_empty (hacc : ∀ s ∈ acc, PlainSegment s) :
    cleanSegments true acc (segs ++ [""]) = cleanSegments true acc segs := by
  induction segs generalizing acc with
  | nil => exact cleanSegments_skip (Or.inl rfl)
  | cons s segs ih =>
    rw [List.cons_append]
    rcases plainSegment_or s with hplain | hskip | rfl
    · rw [cleanSegments_push hplain, cleanSegments_push hplain, ih (List.forall_mem_cons.mpr ⟨hplain, hacc⟩)]
    · rw [cleanSegments_skip hskip, cleanSegments_skip hskip, ih hacc]
    · rw [cleanSegments_up hacc, cleanSegments_up hacc, ih (fun u hu => hacc u (List.mem_of_mem_tail hu))]

theorem cleanSegments_eq_self_iff : cleanSegments true [] segs = segs ↔ ∀ s ∈ segs, PlainSegment s := by
  constructor
  · intro h s hs
    rw [← h] at hs
    exact (mem_cleanSegments (by simp) hs).1
  · intro h
    exact cleanSegments_of_plain h

end Segments

section Paths

theorem split_intercalate {c : Char} {segs : List String} (hne : segs ≠ []) (h : ∀ s ∈ segs, c ∉ s.toList) :
    split c ((String.singleton c).intercalate segs) = segs := by
  unfold split
  rw [String.toList_intercalate, String.toList_singleton,
    List.splitOn_intercalate c (by simpa using h) (by simpa using hne)]
  simp

theorem intercalate_split (s : String) : "/".intercalate (split '/' s) = s := by
  apply String.toList_injective
  unfold split
  rw [String.toList_intercalate, List.map_map]
  have hid : String.toList ∘ String.ofList = id := funext fun l => String.toList_ofList
  rw [hid, List.map_id]
  exact List.intercalate_splitOn '/'

theorem notMem_of_mem_split {c : Char} {s t : String} (h : t ∈ split c s) : c ∉ t.toList := by
  obtain ⟨w, hw, rfl⟩ := List.mem_map.mp h
  rw [String.toList_ofList]
  exact notMem_of_mem_splitOn hw

theorem intercalate_cleanSegments_iff {s : String} :
    "/".intercalate (cleanSegments true [] (split '/' s)) = s ↔ s = "" ∨ ∀ t ∈ split '/' s, PlainSegment t := by
  rw [← cleanSegments_eq_self_iff]
  constructor
  · intro h
    by_cases hnil : cleanSegments true [] (split '/' s) = []
    · rw [hnil] at h
      exact Or.inl h.symm
    · have hfree : ∀ t ∈ cleanSegments true [] (split '/' s), '/' ∉ t.toList := by
        intro t ht
        rcases (mem_cleanSegments (by simp) ht).2 with hmem | hmem
        · cases hmem
        · exact notMem_of_mem_split hmem
      have hsplit : split '/' ("/".intercalate (cleanSegments true [] (split '/' s))) = _ :=
        split_intercalate hnil hfree
      rw [h] at hsplit
      exact Or.inr hsplit.symm
  · rintro (rfl | h)
    · rfl
    · rw [h, intercalate_split]

theorem clean_root (s : String) :
    clean ("/" ++ s) = "/" ++ "/".intercalate (cleanSegments true [] (split '/' s)) := by
  have hsplit : split '/' ("/" ++ s) = "" :: split '/' s := split_append_cons '/' "" s
  unfold clean
  dsimp only
  rw [hasPrefix_append, if_pos rfl, hsplit, cleanSegments, if_pos (Or.inl rfl)]

theorem hasSuffix_append (s t : String) : hasSuffix (s ++ t) t = true := by
  unfold hasSuffix
  rw [String.toList_append, List.isSuffixOf_iff_suffix]
  exact List.suffix_append _ _

theorem trimSuffix_append (s t : String) : trimSuffix (s ++ t) t = s := by
  unfold trimSuffix
  rw [if_pos (hasSuffix_append s t), String.length_append, Nat.add_sub_cancel, take_append]

theorem exists_of_hasSuffix {s t : String} (h : hasSuffix s t = true) : ∃ front, s = front ++ t := by
  unfold hasSuffix at h
  obtain ⟨front, hfront⟩ := List.isSuffixOf_iff_suffix.mp h
  refine ⟨String.ofList front, String.toList_injective ?_⟩
  rw [String.toList_append, String.toList_ofList, hfront]

theorem exists_of_hasPrefix {s t : String} (h : hasPrefix s t = true) : ∃ rest, s = t ++ rest := by
  unfold hasPrefix at h
  obtain ⟨rest, hrest⟩ := List.isPrefixOf_iff_prefix.mp h
  refine ⟨String.ofList rest, String.toList_injective ?_⟩
  rw [String.toList_append, String.toList_ofList, hrest]

theorem contains_singleton (s : String) (c : Char) : contains s (String.singleton c) = true ↔ c ∈ s.toList := by
  unfold contains index
  rw [String.toList_singleton]
  induction s.toList with
  | nil => simp [indexOf]
  | cons d l ih =>
    rw [indexOf]
    by_cases hd : c = d
    · simp [hd]
    · simp [hd, ih]

end Paths

end EBeacon.Text
