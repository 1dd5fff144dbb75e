import EBeacon.Library.Cleaning
import EBeacon.Network.Routing

/-!
`isCleanPath`, on which the blocked paths and the route rules rely: which rooted paths it lets through.
-/

namespace EBeacon.Network

open Text

def PlainSegments (q : String) : Prop :=
  ∃ segs : List String, segs ≠ [] ∧ (∀ s ∈ segs, PlainSegment s ∧ '/' ∉ s.toList) ∧ q = "/".intercalate segs

def CleanForm (p : String) : Prop :=
  ';' ∉ p.toList ∧ (p = "/" ∨ ∃ q, PlainSegments q ∧ (p = "/" ++ q ∨ p = "/" ++ q ++ "/"))

theorem plainSegments_iff {q : String} : PlainSegments q ↔ ∀ s ∈ split '/' q, PlainSegment s := by
  constructor
  · rintro ⟨segs, hne, hsegs, rfl⟩ s hs
    have hsplit : split '/' ("/".intercalate segs) = segs := split_intercalate hne (fun t ht => (hsegs t ht).2)
    rw [hsplit] at hs
    exact (hsegs s hs).1
  · intro h
    exact ⟨split '/' q, split_ne_nil '/' q, fun s hs => ⟨h s hs, notMem_of_mem_split hs⟩, (intercalate_split q).symm⟩

theorem split_append_slash (q : String) : split '/' (q ++ "/") = split '/' q ++ [""] := by
  have h := split_append_cons '/' q ""
  rw [String.append_empty] at h
  exact h

theorem not_plainSegments_append {q : String} : ¬ PlainSegments (q ++ "/") := by
  intro h
  have hmem : "" ∈ split '/' (q ++ "/") := by
    rw [split_append_slash]
    simp
  exact (plainSegments_iff.mp h "" hmem).1 rfl

theorem not_plainSegments_empty : ¬ PlainSegments "" := by
  intro h
  exact (plainSegments_iff.mp h "" (by decide)).1 rfl

theorem clean_append_slash (q : String) :
    clean ("/" ++ q ++ "/") = trimSuffix ("/" ++ q ++ "/") "/" ↔ q = "" ∨ PlainSegments q := by
  rw [trimSuffix_append, String.append_assoc, clean_root, split_append_slash,
    cleanSegments_concat_empty (by simp), String.append_right_inj, intercalate_cleanSegments_iff, plainSegments_iff]

theorem clean_of_not_hasSuffix {q : String} (h : ¬ hasSuffix ("/" ++ q) "/" = true) :
    clean ("/" ++ q) = trimSuffix ("/" ++ q) "/" ↔ q = "" ∨ PlainSegments q := by
  unfold trimSuffix
  rw [if_neg h, clean_root, String.append_right_inj, intercalate_cleanSegments_iff, plainSegments_iff]

theorem slash_cases (q : String) : q = "" ∨ (∃ r, q = r ++ "/") ∨ ¬ hasSuffix ("/" ++ q) "/" = true := by
  by_cases h : hasSuffix q "/" = true
  · exact Or.inr (Or.inl (exists_of_hasSuffix h))
  · by_cases hq : q = ""
    · exact Or.inl hq
    · refine Or.inr (Or.inr fun hs => h ?_)
      obtain ⟨front, hfront⟩ := exists_of_hasSuffix hs
      have hlist := congrArg String.toList hfront
      rw [String.toList_append, String.toList_append] at hlist
      rcases List.eq_nil_or_concat q.toList with hnil | ⟨rest, c, hc⟩
      · exact absurd (String.toList_eq_nil_iff.mp hnil) hq
      · have hq' : q = String.ofList rest ++ String.singleton c := by
          apply String.toList_injective
          rw [hc, String.toList_append, String.toList_ofList, String.toList_singleton, List.concat_eq_append]
        rw [hc, List.concat_eq_append, ← List.append_assoc] at hlist
        have hlast : [c] = "/".toList := (List.append_inj' hlist rfl).2
        have hslash : String.singleton c = "/" := String.toList_injective (by rw [String.toList_singleton, hlast])
        rw [hq', hslash]
        exact hasSuffix_append _ _

theorem isCleanPath_iff (p : String) :
    isCleanPath p = true ↔ ';' ∉ p.toList ∧ (p = "" ∨ p = "/" ∨ clean p = trimSuffix p "/") := by
  unfold isCleanPath
  rw [← contains_singleton]
  change (if contains p ";" then _ else _) = true ↔ ¬ contains p ";" = true ∧ _
  split_ifs with h <;> simp [h, or_assoc]

theorem exists_plainSegments_append_slash (q : String) :
    (∃ r, PlainSegments r ∧ (q ++ "/" = r ∨ q ++ "/" = r ++ "/")) ↔ PlainSegments q := by
  constructor
  · rintro ⟨r, hr, rfl | hq⟩
    · exact absurd hr not_plainSegments_append
    · rw [String.append_left_inj] at hq
      rw [hq]
      exact hr
  · intro hq
    exact ⟨q, hq, Or.inr rfl⟩

theorem exists_plainSegments_of_not_hasSuffix {q : String} (h : ¬ hasSuffix ("/" ++ q) "/" = true) :
    (∃ r, PlainSegments r ∧ (q = r ∨ q = r ++ "/")) ↔ PlainSegments q := by
  constructor
  · rintro ⟨r, hr, rfl | rfl⟩
    · exact hr
    · rw [← String.append_assoc] at h
      exact absurd (hasSuffix_append _ _) h
  · intro hq
    exact ⟨q, hq, Or.inl rfl⟩

/-- A rooted path that is let through has the form, or is two slashes. -/
theorem isCleanPath_root_iff (q : String) : isCleanPath ("/" ++ q) = true ↔ CleanForm ("/" ++ q) ∨ q = "/" := by
  have hne : "/" ++ q ≠ "" := by simp [String.append_eq_empty_iff]
  have hroot : "/" ++ q = "/" ++ "" ↔ q = "" := String.append_right_inj "/"
  rw [String.append_empty] at hroot
  rw [isCleanPath_iff]
  unfold CleanForm
  rw [or_iff_right hne, hroot]
  simp only [String.append_assoc, String.append_right_inj]
  -- the root, a slash at the end that `TrimSuffix` takes off, no slash at the end
  rcases slash_cases q with rfl | ⟨r, rfl⟩ | hq
  · simp
  · have hr : r ++ "/" ≠ "" := by simp [String.append_eq_empty_iff]
    have hroot' : r ++ "/" = "" ++ "/" ↔ r = "" := String.append_left_inj "/"
    rw [String.empty_append] at hroot'
    rw [← String.append_assoc, clean_append_slash, exists_plainSegments_append_slash, hroot',
      or_iff_right hr, or_iff_right hr]
    constructor
    · rintro ⟨hsemi, hempty | hplain⟩
      · exact Or.inr hempty
      · exact Or.inl ⟨hsemi, hplain⟩
    · rintro (⟨hsemi, hplain⟩ | rfl)
      · exact ⟨hsemi, Or.inr hplain⟩
      · exact ⟨by decide, Or.inl rfl⟩
  · have hslash : q ≠ "/" := by
      rintro rfl
      exact hq (by decide)
    rw [clean_of_not_hasSuffix hq, exists_plainSegments_of_not_hasSuffix hq, or_iff_left hslash, or_self_left]

theorem not_cleanForm_double_slash : ¬ CleanForm "//" := by
  rintro ⟨-, hroot | ⟨r, hr, hp⟩⟩
  · exact absurd hroot (by decide)
  · change "/" ++ ("" ++ "/") = "/" ++ r ∨ "/" ++ ("" ++ "/") = "/" ++ r ++ "/" at hp
    rw [String.append_assoc, String.append_right_inj, String.append_right_inj] at hp
    exact not_plainSegments_empty ((exists_plainSegments_append_slash "").mp ⟨r, hr, hp⟩)

theorem double_slash_let_through : isCleanPath "//" = true ∧ ¬ CleanForm "//" :=
  ⟨by decide, not_cleanForm_double_slash⟩

theorem isCleanPath_exact_iff {p : String} (h : hasPrefix p "/" = true) :
    (isCleanPath p = true ↔ CleanForm p) ↔ p ≠ "//" := by
  obtain ⟨q, rfl⟩ := exists_of_hasPrefix h
  have htwo : "/" ++ q = "/" ++ "/" ↔ q = "/" := String.append_right_inj "/"
  change _ ↔ ¬ "/" ++ q = "/" ++ "/"
  rw [isCleanPath_root_iff, htwo]
  constructor
  · rintro hexact rfl
    exact not_cleanForm_double_slash (hexact.mp (Or.inr rfl))
  · intro hq
    rw [or_iff_left hq]

theorem isCleanPath_exact_node_version :
    hasPrefix "/eth/v1/node/version/" "/" = true ∧
      (isCleanPath "/eth/v1/node/version/" = true ↔ CleanForm "/eth/v1/node/version/") :=
  ⟨by decide, (isCleanPath_exact_iff (by decide)).mpr (by decide)⟩

end EBeacon.Network
