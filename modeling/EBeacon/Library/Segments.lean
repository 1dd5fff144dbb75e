import Mathlib.Data.List.DropRight
import EBeacon.Library.Text

/-!
Texts that a separator divides into segments, with leading and trailing separators ignored.
-/

namespace EBeacon.Text

variable {c : Char} {l : List Char}

def separated (c : Char) (words : List (List Char)) : List Char := words.flatMap (fun w => c :: w)

theorem splitOn_separated {w : List Char} {words : List (List Char)} (hw : c ∉ w) (hwords : ∀ v ∈ words, c ∉ v) :
    (w ++ separated c words).splitOn c = w :: words := by
  induction words generalizing w with
  | nil =>
    rw [separated, List.flatMap_nil, List.append_nil]
    exact List.splitOn_eq_singleton hw
  | cons v words ih =>
    rw [List.forall_mem_cons] at hwords
    rw [separated, List.flatMap_cons, List.cons_append, List.splitOn_append_cons_self,
      List.splitOn_eq_singleton hw]
    exact congrArg (w :: ·) (ih hwords.1 hwords.2)

theorem notMem_of_mem_splitOn {w : List Char} (h : w ∈ l.splitOn c) : c ∉ w := by
  induction hn : l.length using Nat.strong_induction_on generalizing l with
  | h n ih =>
    by_cases hc : c ∈ l
    · obtain ⟨a, b, rfl, ha⟩ := List.eq_append_cons_of_mem hc
      rw [List.splitOn_append_cons_self, List.splitOn_eq_singleton ha, List.singleton_append,
        List.mem_cons] at h
      rcases h with rfl | h
      · exact ha
      · refine ih b.length ?_ h rfl
        rw [← hn, List.length_append, List.length_cons]
        omega
    · rw [List.splitOn_eq_singleton hc, List.mem_singleton] at h
      rwa [h]

theorem intercalate_eq_separated (w : List Char) (words : List (List Char)) :
    [c].intercalate (w :: words) = w ++ separated c words := by
  induction words generalizing w with
  | nil => simp [separated]
  | cons v words ih =>
    rw [List.intercalate_cons_cons, ih, List.append_assoc]
    rfl

theorem eq_separated_of_splitOn {w : List Char} {words : List (List Char)} (h : l.splitOn c = w :: words) :
    l = w ++ separated c words := by
  rw [← intercalate_eq_separated, ← h, List.intercalate_splitOn]

theorem separated_splitOn (c : Char) (l : List Char) : separated c (l.splitOn c) = c :: l := by
  obtain ⟨w, words, h⟩ := List.exists_cons_of_ne_nil (List.splitOn_ne_nil c l)
  rw [h, eq_separated_of_splitOn h]
  rfl

theorem count_separated {words : List (List Char)} (h : ∀ w ∈ words, c ∉ w) :
    (separated c words).count c = words.length := by
  induction words with
  | nil => rfl
  | cons w words ih =>
    rw [List.forall_mem_cons] at h
    rw [separated, List.flatMap_cons, List.count_append, List.count_cons_self, List.count_eq_zero_of_not_mem h.1,
      List.length_cons, Nat.zero_add, Nat.add_comm 1]
    exact congrArg (· + 1) (ih h.2)

theorem length_splitOn (c : Char) (l : List Char) : (l.splitOn c).length = (c :: l).count c := by
  rw [← separated_splitOn, count_separated fun _ => notMem_of_mem_splitOn]

def trimmed (c : Char) (l : List Char) : List Char := (l.dropWhile (· = c)).rdropWhile (· = c)

theorem trim_toList (c : Char) (s : String) : (trim c s).toList = trimmed c s.toList :=
  String.toList_ofList

def All (c : Char) (l : List Char) : Prop := ∀ x ∈ l, x = c

theorem trimmed_split (c : Char) (l : List Char) :
    ∃ lead trail, All c lead ∧ All c trail ∧ l = lead ++ trimmed c l ++ trail := by
  refine ⟨l.takeWhile (· = c), (l.dropWhile (· = c)).rtakeWhile (· = c), ?_, ?_, ?_⟩
  · intro x hx
    simpa using List.mem_takeWhile_imp hx
  · intro x hx
    simpa using List.mem_rtakeWhile_imp hx
  · rw [trimmed, List.append_assoc, List.rdropWhile_append_rtakeWhile, List.takeWhile_append_dropWhile]

theorem rdropWhile_append {α : Type} (p : α → Bool) (a b : List α) :
    (a ++ b).rdropWhile p = if b.rdropWhile p = [] then a.rdropWhile p else a ++ b.rdropWhile p := by
  unfold List.rdropWhile
  rw [List.reverse_append, List.dropWhile_append]
  simp only [List.isEmpty_iff, List.reverse_eq_nil_iff]
  split_ifs
  · rfl
  · rw [List.reverse_append, List.reverse_reverse]

theorem rdropWhile_word {w : List Char} (hw : c ∉ w) : w.rdropWhile (· = c) = w := by
  rw [List.rdropWhile_eq_self_iff]
  intro hne hlast
  exact hw (of_decide_eq_true hlast ▸ List.getLast_mem hne)

theorem rdropWhile_separated {w : List Char} {words : List (List Char)} (hw : w ≠ [] ∧ c ∉ w)
    (hwords : ∀ v ∈ words, v ≠ [] ∧ c ∉ v) :
    (w ++ separated c words).rdropWhile (· = c) = w ++ separated c words := by
  induction words generalizing w with
  | nil =>
    rw [separated, List.flatMap_nil, List.append_nil]
    exact rdropWhile_word hw.2
  | cons v words ih =>
    rw [List.forall_mem_cons] at hwords
    have hcons : w ++ separated c (v :: words) = (w ++ [c]) ++ (v ++ separated c words) := by
      simp [separated]
    have hne : v ++ separated c words ≠ [] := by simp [hwords.1.1]
    rw [hcons, rdropWhile_append, ih hwords.1 hwords.2, if_neg hne]

theorem eq_of_segments {w : List Char} {words : List (List Char)} (h : (trimmed c l).splitOn c = w :: words) :
    ∃ lead trail, All c lead ∧ All c trail ∧ l = lead ++ w ++ separated c words ++ trail := by
  obtain ⟨lead, trail, hlead, htrail, hl⟩ := trimmed_split c l
  rw [eq_separated_of_splitOn h] at hl
  exact ⟨lead, trail, hlead, htrail, by rw [hl]; simp only [List.append_assoc]⟩

theorem segments_of_eq {lead w rest : List Char} {words : List (List Char)} (hlead : All c lead)
    (hw : w ≠ [] ∧ c ∉ w) (hwords : ∀ v ∈ words, v ≠ [] ∧ c ∉ v) (hrest : rest = [] ∨ rest.head? = some c) :
    ∃ extra, (trimmed c (lead ++ w ++ separated c words ++ rest)).splitOn c = w :: words ++ extra ∧
      (All c rest → extra = []) := by
  have hsplit := splitOn_separated hw.2 (fun v hv => (hwords v hv).2)
  have hcore := rdropWhile_separated hw hwords
  have htrimmed : trimmed c (lead ++ w ++ separated c words ++ rest) =
      (w ++ separated c words ++ rest).rdropWhile (· = c) := by
    obtain ⟨d, w, rfl⟩ := List.exists_cons_of_ne_nil hw.1
    have hd : ¬ d = c := by
      rintro rfl
      exact hw.2 List.mem_cons_self
    unfold trimmed
    rw [List.append_assoc, List.append_assoc, List.dropWhile_append_of_pos (by simpa [All] using hlead),
      List.cons_append, List.dropWhile_cons_of_neg (by simpa using hd)]
    rw [List.append_assoc, List.cons_append]
  rw [htrimmed, rdropWhile_append, hcore]
  split_ifs with hall
  · exact ⟨[], by rw [hsplit, List.append_nil], fun _ => rfl⟩
  · have hpre := List.rdropWhile_prefix (fun x => decide (x = c)) rest
    obtain ⟨d, f, hf⟩ := List.exists_cons_of_ne_nil hall
    have hd : d = c := by
      rcases hrest with rfl | hrest
      · exact absurd rfl hall
      · obtain ⟨t, ht⟩ := hpre
        rw [hf] at ht
        rw [← ht] at hrest
        exact Option.some.inj hrest
    refine ⟨f.splitOn c, ?_, fun hrest => ?_⟩
    · rw [hf, hd, List.splitOn_append_cons_self, hsplit]
    · exact absurd (List.rdropWhile_eq_nil_iff.mpr (by simpa [All] using hrest)) hall

theorem head_separated_append (words : List (List Char)) {trail : List Char} (h : All c trail) :
    separated c words ++ trail = [] ∨ (separated c words ++ trail).head? = some c := by
  cases words with
  | cons w words => exact Or.inr rfl
  | nil =>
    cases trail with
    | nil => exact Or.inl rfl
    | cons d trail => exact Or.inr (congrArg some (h d List.mem_cons_self))

def spaceByte (x : Char) : Bool := spaces.any (fun w => w.contains x)

theorem dropWords_split (words : List (List Char)) (fuel : ℕ) (l : List Char) :
    ∃ front, l = front ++ dropWords words fuel l ∧ ∀ x ∈ front, ∃ w ∈ words, x ∈ w := by
  induction fuel generalizing l with
  | zero => exact ⟨[], rfl, by simp⟩
  | succ fuel ih =>
    unfold dropWords
    cases hfind : words.find? (fun w => w.isPrefixOf l) with
    | none => exact ⟨[], rfl, by simp⟩
    | some w =>
      have hstart : w.isPrefixOf l = true := by
        simpa only using List.find?_some hfind
      obtain ⟨rest, rfl⟩ := List.isPrefixOf_iff_prefix.mp hstart
      obtain ⟨front, hrest, hfront⟩ := ih rest
      refine ⟨w ++ front, ?_, fun x hx => ?_⟩
      · dsimp only
        rw [List.drop_left, List.append_assoc, ← hrest]
      · rcases List.mem_append.mp hx with hx | hx
        · exact ⟨w, List.mem_of_find?_eq_some hfind, hx⟩
        · exact hfront x hx

theorem trimSpace_split (s : String) : ∃ front back, s.toList = front ++ (trimSpace s).toList ++ back ∧
    (∀ x ∈ front, spaceByte x = true) ∧ ∀ x ∈ back, spaceByte x = true := by
  have hspace : ∀ x, (∃ w ∈ spaces, x ∈ w) → spaceByte x = true := by
    rintro x ⟨w, hw, hx⟩
    exact List.any_eq_true.mpr ⟨w, hw, List.contains_iff_mem.mpr hx⟩
  obtain ⟨front, hleft, hfront⟩ := dropWords_split spaces s.length s.toList
  generalize hl : dropWords spaces s.length s.toList = left at hleft
  obtain ⟨back, hright, hback⟩ := dropWords_split (spaces.map List.reverse) s.length left.reverse
  refine ⟨front, back.reverse, ?_, fun x hx => hspace x (hfront x hx), fun x hx => hspace x ?_⟩
  · have hleft' := congrArg List.reverse hright
    rw [List.reverse_reverse, List.reverse_append] at hleft'
    rw [trimSpace, String.toList_ofList, hl, List.append_assoc, ← hleft']
    exact hleft
  · obtain ⟨w, hw, hx⟩ := hback x (List.mem_reverse.mp hx)
    obtain ⟨u, hu, rfl⟩ := List.mem_map.mp hw
    exact ⟨u, hu, List.mem_reverse.mp hx⟩

theorem toList_trimSpace {s : String} {core rest : List Char} (hs : s.toList = core ++ rest)
    (hhead : ∃ x, core.head? = some x ∧ spaceByte x = false)
    (hlast : ∃ x, core.getLast? = some x ∧ spaceByte x = false) :
    ∃ kept dropped, rest = kept ++ dropped ∧ (trimSpace s).toList = core ++ kept := by
  obtain ⟨front, back, hsplit, hfront, hback⟩ := trimSpace_split s
  have hnil : front = [] := by
    obtain ⟨x, hx, hbyte⟩ := hhead
    obtain ⟨core, rfl⟩ := List.head?_eq_some_iff.mp hx
    cases front with
    | nil => rfl
    | cons d front =>
      rw [hs] at hsplit
      simp only [List.cons_append, List.cons.injEq] at hsplit
      rw [hsplit.1, hfront d List.mem_cons_self] at hbyte
      cases hbyte
  rw [hnil, List.nil_append, hs] at hsplit
  rcases List.append_eq_append_iff.mp hsplit with ⟨kept, htrim, hrest⟩ | ⟨extra, hcore, hover⟩
  · exact ⟨kept, back, hrest, htrim⟩
  · rcases List.eq_nil_or_concat extra with rfl | ⟨extra, d, rfl⟩
    · exact ⟨[], rest, rfl, by rw [List.append_nil, hcore, List.append_nil]⟩
    · obtain ⟨x, hx, hbyte⟩ := hlast
      rw [hcore, List.concat_eq_append, ← List.append_assoc, List.getLast?_concat] at hx
      cases hx
      rw [hback d (by rw [hover]; simp)] at hbyte
      cases hbyte

end EBeacon.Text
