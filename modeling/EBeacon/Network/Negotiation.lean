import EBeacon.Library.Cleaning
import EBeacon.Library.Decimals
import EBeacon.Library.Padding
import EBeacon.Network.Accept

/-!
`acceptPrefersSSZ` on headers that list media ranges with weights: what it answers, and when that is the
preference of RFC 9110.
-/

namespace EBeacon.Network

open Text

structure QParam where
  upper : Bool
  decimal : Decimal
  le_one : decimal.value ≤ 1
  lead : List Char
  trail : List Char
  blank : ∀ c ∈ lead ++ trail, isBlank c = true

structure MediaRange where
  name : List Char
  nonempty : name ≠ []
  visible : ∀ c ∈ name, spaceByte c = false ∧ c ≠ ',' ∧ c ≠ ';'
  lead : List Char
  trail : List Char
  blank : ∀ c ∈ lead ++ trail, isBlank c = true
  weight : Option QParam

namespace QParam

def text (w : QParam) : String :=
  String.ofList (w.lead ++ ((if w.upper then 'Q' else 'q') :: '=' :: w.decimal.text) ++ w.trail)

theorem notMem_core (w : QParam) {c : Char} (hc : isDigit c = false) (hne : c ≠ '.' ∧ c ≠ '=' ∧ c ≠ 'q' ∧ c ≠ 'Q') :
    c ∉ (if w.upper then 'Q' else 'q') :: '=' :: w.decimal.text := by
  intro hmem
  rcases List.mem_cons.mp hmem with rfl | hmem
  · split_ifs at hne <;> simp at hne
  · rcases List.mem_cons.mp hmem with rfl | hmem
    · exact hne.2.1 rfl
    · rcases Decimal.mem_text hmem with hdigit | rfl
      · rw [hdigit] at hc
        cases hc
      · exact hne.1 rfl

theorem notMem_text (w : QParam) {c : Char} (hblank : isBlank c = false) (hc : isDigit c = false)
    (hne : c ≠ '.' ∧ c ≠ '=' ∧ c ≠ 'q' ∧ c ≠ 'Q') : c ∉ w.text.toList := by
  have hpad : c ∉ w.lead ++ w.trail := fun h => absurd (w.blank c h) (by rw [hblank]; decide)
  rw [List.mem_append, not_or] at hpad
  rw [text, String.toList_ofList, List.mem_append, List.mem_append, not_or, not_or]
  exact ⟨⟨hpad.1, w.notMem_core hc hne⟩, hpad.2⟩

theorem trimSpace_text (w : QParam) :
    trimSpace w.text = String.ofList ((if w.upper then 'Q' else 'q') :: '=' :: w.decimal.text) := by
  have hblank := List.forall_mem_append.mp w.blank
  refine trimSpace_blanks hblank.1 hblank.2 (tight_of_forall ?_)
  intro c hc
  rcases List.mem_cons.mp hc with rfl | hc
  · split_ifs <;> decide
  · rcases List.mem_cons.mp hc with rfl | hc
    · decide
    · rcases Decimal.mem_text hc with hdigit | rfl
      · exact spaceByte_of_isDigit hdigit
      · decide

end QParam

namespace MediaRange

def text (r : MediaRange) : String :=
  (String.singleton ';').intercalate
    (String.ofList (r.lead ++ r.name ++ r.trail) :: (r.weight.map QParam.text).toList)

def lowered (r : MediaRange) : String := toLower (String.ofList r.name)

def value (r : MediaRange) : ℚ := (r.weight.map (fun w => w.decimal.value)).getD 1

def upper (r : MediaRange) : Bool := r.weight.any QParam.upper

end MediaRange

namespace MediaRange

theorem mem_padded (r : MediaRange) {c : Char} (h : c ∈ (String.ofList (r.lead ++ r.name ++ r.trail)).toList) :
    isBlank c = true ∨ c ∈ r.name := by
  have hblank := List.forall_mem_append.mp r.blank
  rw [String.toList_ofList, List.mem_append, List.mem_append] at h
  rcases h with (hlead | hname) | htrail
  · exact Or.inl (hblank.1 c hlead)
  · exact Or.inr hname
  · exact Or.inl (hblank.2 c htrail)

theorem split_text (r : MediaRange) : split ';' r.text =
    String.ofList (r.lead ++ r.name ++ r.trail) :: (r.weight.map QParam.text).toList := by
  refine split_intercalate (List.cons_ne_nil _ _) ?_
  intro s hs
  rcases List.mem_cons.mp hs with rfl | hs
  · intro hmem
    rcases r.mem_padded hmem with hblank | hname
    · exact absurd hblank (by decide)
    · exact (r.visible _ hname).2.2 rfl
  · rw [Option.mem_toList, Option.map_eq_some_iff] at hs
    obtain ⟨w, -, rfl⟩ := hs
    exact w.notMem_text (by decide) (by decide) (by decide)

theorem comma_notMem_text (r : MediaRange) : ',' ∉ r.text.toList := by
  have hfirst : ',' ∉ (String.ofList (r.lead ++ r.name ++ r.trail)).toList := by
    intro hmem
    rcases r.mem_padded hmem with hblank | hname
    · exact absurd hblank (by decide)
    · exact (r.visible _ hname).2.1 rfl
  unfold text
  cases r.weight with
  | none => exact hfirst
  | some w =>
    have hsecond : ',' ∉ w.text.toList := w.notMem_text (by decide) (by decide) (by decide)
    rw [Option.map_some, Option.toList_some, String.intercalate_cons_cons, String.intercalate_singleton,
      String.toList_append, String.toList_append, String.toList_singleton]
    simp only [List.mem_append, List.mem_singleton, not_or]
    exact ⟨⟨hfirst, by decide⟩, hsecond⟩

theorem text_ne_empty (r : MediaRange) : r.text ≠ "" := by
  intro h
  have hsplit := r.split_text
  rw [h] at hsplit
  have hpadded : String.ofList (r.lead ++ r.name ++ r.trail) = "" := (List.cons.inj hsplit).1.symm
  have hlist := congrArg String.toList hpadded
  rw [String.toList_ofList] at hlist
  have hname := (List.append_eq_nil_iff.mp (List.append_eq_nil_iff.mp hlist).1).2
  exact r.nonempty hname

theorem trimSpace_padded (r : MediaRange) :
    trimSpace (String.ofList (r.lead ++ r.name ++ r.trail)) = String.ofList r.name := by
  have hblank := List.forall_mem_append.mp r.blank
  exact trimSpace_blanks hblank.1 hblank.2 (tight_of_forall fun c hc => (r.visible c hc).1)

end MediaRange

def render (ranges : List MediaRange) : String := (String.singleton ',').intercalate (ranges.map MediaRange.text)

theorem split_render {ranges : List MediaRange} (h : ranges ≠ []) :
    split ',' (render ranges) = ranges.map MediaRange.text := by
  refine split_intercalate (by simpa using h) ?_
  intro s hs
  obtain ⟨r, -, rfl⟩ := List.mem_map.mp hs
  exact r.comma_notMem_text

theorem render_eq_empty_iff {ranges : List MediaRange} : render ranges = "" ↔ ranges = [] := by
  constructor
  · intro h
    by_contra hne
    have hsplit := split_render hne
    obtain ⟨r, ranges, rfl⟩ := List.exists_cons_of_ne_nil hne
    rw [h, List.map_cons] at hsplit
    exact r.text_ne_empty (List.cons.inj hsplit).1.symm
  · rintro rfl
    rfl

def octetStream : String := "application/octet-stream"

def json : String := "application/json"

def specificity (mediaType : String) (r : MediaRange) : Specificity :=
  if r.lowered = mediaType then .exact
  else if r.lowered = "application/*" then .subWildcard
  else if r.lowered = "*/*" then .wildcard
  else .none

def named (name : String) (r : MediaRange) : Bool := r.lowered = name

def governing (mediaType : String) (ranges : List MediaRange) : Option MediaRange :=
  (ranges.find? (named mediaType)).or
    ((ranges.find? (named "application/*")).or (ranges.find? (named "*/*")))

section Governing

variable {mediaType : String} (hsub : mediaType ≠ "application/*") (hany : mediaType ≠ "*/*")

def rankOf (mediaType : String) (r : Option MediaRange) : ℕ :=
  (r.map (fun r => (specificity mediaType r).rank)).getD 0

theorem lowered_of_find {name : String} {ranges : List MediaRange} {r : MediaRange}
    (h : ranges.find? (named name) = some r) : r.lowered = name := by
  have hnamed : named name r = true := by simpa using List.find?_some h
  simpa [named] using hnamed

include hsub hany in
theorem rankOf_governing (ranges : List MediaRange) : rankOf mediaType (governing mediaType ranges) =
    if (ranges.find? (named mediaType)).isSome then 3
    else if (ranges.find? (named "application/*")).isSome then 2
    else if (ranges.find? (named "*/*")).isSome then 1 else 0 := by
  unfold governing
  cases hexact : ranges.find? (named mediaType) with
  | some r => simp [rankOf, specificity, lowered_of_find hexact, Specificity.rank]
  | none =>
    cases hwild : ranges.find? (named "application/*") with
    | some r => simp [rankOf, specificity, lowered_of_find hwild, Ne.symm hsub, Specificity.rank]
    | none =>
      cases hall : ranges.find? (named "*/*") with
      | some r => simp [rankOf, specificity, lowered_of_find hall, Ne.symm hany, Specificity.rank]
      | none => rfl

include hsub hany in
theorem governing_concat (ranges : List MediaRange) (r : MediaRange) :
    governing mediaType (ranges ++ [r]) =
      if rankOf mediaType (governing mediaType ranges) < (specificity mediaType r).rank then some r
      else governing mediaType ranges := by
  have hsingle : ∀ name, [r].find? (named name) = if r.lowered = name then some r else none := by
    intro name
    by_cases h : r.lowered = name <;> simp [named, h]
  rw [rankOf_governing hsub hany]
  unfold governing specificity
  simp only [List.find?_append, hsingle]
  generalize ranges.find? (named mediaType) = exactly
  generalize ranges.find? (named "application/*") = sub
  generalize ranges.find? (named "*/*") = any
  -- The four kinds of names that the new range can have.
  by_cases hexact : r.lowered = mediaType
  · simp only [hexact, if_neg hsub, if_neg hany, if_true, Specificity.rank]
    cases exactly <;> cases sub <;> cases any <;> rfl
  · by_cases hwild : r.lowered = "application/*"
    · have hother : "application/*" ≠ "*/*" := by decide
      simp only [hwild, if_neg (Ne.symm hsub), if_neg hother, if_true, Specificity.rank]
      cases exactly <;> cases sub <;> cases any <;> rfl
    · by_cases hall : r.lowered = "*/*"
      · have hother : "*/*" ≠ "application/*" := by decide
        simp only [hall, if_neg (Ne.symm hany), if_neg hother, if_true, Specificity.rank]
        cases exactly <;> cases sub <;> cases any <;> rfl
      · simp only [if_neg hexact, if_neg hwild, if_neg hall, Specificity.rank]
        cases exactly <;> cases sub <;> cases any <;> rfl

theorem find_named_iff {ranges : List MediaRange} (h : (ranges.map MediaRange.lowered).Nodup) {name : String}
    {r : MediaRange} : ranges.find? (named name) = some r ↔ r ∈ ranges ∧ r.lowered = name := by
  constructor
  · intro hfind
    exact ⟨List.mem_of_find?_eq_some hfind, lowered_of_find hfind⟩
  · rintro ⟨hmem, hname⟩
    cases hfind : ranges.find? (named name) with
    | none => simpa [named, hname] using List.find?_eq_none.mp hfind r hmem
    | some x =>
      have hsame : x.lowered = r.lowered := (lowered_of_find hfind).trans hname.symm
      rw [List.inj_on_of_nodup_map h (List.mem_of_find?_eq_some hfind) hmem hsame]

theorem governing_perm {ranges ranges' : List MediaRange} (h : (ranges.map MediaRange.lowered).Nodup)
    (hperm : ranges.Perm ranges') : governing mediaType ranges' = governing mediaType ranges := by
  have hnodup' : (ranges'.map MediaRange.lowered).Nodup := (hperm.map _).nodup_iff.mp h
  have hfind : ∀ name, ranges'.find? (named name) = ranges.find? (named name) := by
    intro name
    ext r
    rw [find_named_iff h, find_named_iff hnodup', hperm.mem_iff]
  unfold governing
  rw [hfind, hfind, hfind]

end Governing

namespace QValues

variable {F : Type} {qv : QValues F}

/-- `strconv.ParseFloat` reads a decimal number up to one as the nearest `float64`, which `read` gives and whose
value is `round`. -/
structure ReadsDecimals (qv : QValues F) (read : ℚ → F) (round : ℚ → ℚ) : Prop where
  parse_text (d : Decimal) : d.value ≤ 1 → qv.parse (String.ofList d.text) = some (read d.value)
  read_zero : read 0 = qv.zero
  read_one : read 1 = qv.one
  lt_read (p q : ℚ) : 0 ≤ p → p ≤ 1 → 0 ≤ q → q ≤ 1 → (qv.lt (read p) (read q) = true ↔ round p < round q)
  round_one : round 1 = 1
  round_mono : Monotone round

variable {read : ℚ → F} {round : ℚ → ℚ}

theorem quality_weight (h : qv.ReadsDecimals read round) (w : QParam) :
    qv.quality [w.text] = read (if w.upper then 1 else w.decimal.value) := by
  have hq : ∀ l, String.ofList ('q' :: '=' :: l) = "q=" ++ String.ofList l := by
    intro l
    apply String.toList_injective
    simp only [String.toList_append, String.toList_ofList]
    rfl
  unfold quality
  rw [List.foldl_cons, List.foldl_nil]
  dsimp only
  rw [w.trimSpace_text]
  cases w.upper with
  | true =>
    have hprefix : hasPrefix (String.ofList ('Q' :: '=' :: w.decimal.text)) "q=" = false := by
      unfold hasPrefix
      simp only [String.toList_ofList]
      rfl
    simp only [if_true, hprefix, Bool.false_eq_true, if_false, h.read_one]
  | false =>
    simp only [Bool.false_eq_true, if_false, hq, hasPrefix_append, if_true, trimPrefix_append,
      h.parse_text w.decimal w.le_one, Option.getD_some]

theorem quality_range (h : qv.ReadsDecimals read round) (r : MediaRange) :
    qv.quality (r.weight.map QParam.text).toList = read (if r.upper then 1 else r.value) := by
  unfold MediaRange.value MediaRange.upper
  cases r.weight with
  | none =>
    rw [Option.any_none, if_neg (by decide)]
    exact h.read_one.symm
  | some w => exact quality_weight h w

theorem apply_none (w : Weight F) (q : F) : apply w q .none = w := if_neg (Nat.not_lt_zero _)

theorem applyRange_text (h : qv.ReadsDecimals read round) (r : MediaRange) (w : Weight F × Weight F) :
    qv.applyRange w r.text =
      (apply w.1 (read (if r.upper then 1 else r.value)) (specificity octetStream r),
        apply w.2 (read (if r.upper then 1 else r.value)) (specificity json r)) := by
  unfold applyRange
  rw [r.split_text]
  dsimp only
  rw [quality_range h, r.trimSpace_padded]
  unfold specificity octetStream json MediaRange.lowered
  generalize toLower (String.ofList r.name) = name
  split
  · simp [apply_none]
  · simp [apply_none]
  · simp
  · simp
  · next hoctet hjson hsub hany => simp only [if_neg hoctet, if_neg hjson, if_neg hsub, if_neg hany, apply_none]

theorem foldl_applyRange (h : qv.ReadsDecimals read round) (ranges : List MediaRange) (w : Weight F × Weight F) :
    (ranges.map MediaRange.text).foldl qv.applyRange w =
      (ranges.foldl (fun w r => apply w (read (if r.upper then 1 else r.value)) (specificity octetStream r)) w.1,
        ranges.foldl (fun w r => apply w (read (if r.upper then 1 else r.value)) (specificity json r)) w.2) := by
  induction ranges generalizing w with
  | nil => rfl
  | cons r ranges ih => rw [List.map_cons, List.foldl_cons, applyRange_text h, ih, List.foldl_cons, List.foldl_cons]

def weigh (qv : QValues F) (mediaType : String) (q : MediaRange → F) (r : Option MediaRange) : Weight F :=
  (r.map (fun r => ⟨q r, specificity mediaType r⟩)).getD ⟨qv.zero, .none⟩

theorem rank_weigh (mediaType : String) (q : MediaRange → F) (r : Option MediaRange) :
    (weigh qv mediaType q r).spec.rank = rankOf mediaType r := by
  unfold weigh rankOf
  cases r with
  | none => rw [Option.map_none, Option.map_none, Option.getD_none, Option.getD_none, Specificity.rank]
  | some r => rw [Option.map_some, Option.map_some, Option.getD_some, Option.getD_some]

theorem foldl_apply {mediaType : String} (hsub : mediaType ≠ "application/*") (hany : mediaType ≠ "*/*")
    (q : MediaRange → F) (ranges : List MediaRange) :
    ranges.foldl (fun w r => apply w (q r) (specificity mediaType r)) ⟨qv.zero, .none⟩ =
      weigh qv mediaType q (governing mediaType ranges) := by
  -- The weight so far is that of the range that governs so far, and a more specific range replaces both.
  induction ranges using List.reverseRecOn with
  | nil => rfl
  | append_singleton ranges r ih =>
    rw [List.foldl_append, ih, governing_concat hsub hany, List.foldl_cons, List.foldl_nil, apply, rank_weigh]
    split_ifs
    · rfl
    · rfl

end QValues

def weightOf (mediaType : String) (ranges : List MediaRange) : ℚ :=
  ((governing mediaType ranges).map MediaRange.value).getD 0

def PrefersSSZ (ranges : List MediaRange) : Prop :=
  0 < weightOf octetStream ranges ∧ weightOf json ranges < weightOf octetStream ranges

def upperOf (mediaType : String) (ranges : List MediaRange) : Bool :=
  (governing mediaType ranges).any MediaRange.upper

theorem value_mem_unit (r : MediaRange) : 0 ≤ r.value ∧ r.value ≤ 1 := by
  unfold MediaRange.value
  cases r.weight with
  | none => simp
  | some w => exact ⟨w.decimal.value_nonneg, w.le_one⟩

theorem weightOf_mem_unit (mediaType : String) (ranges : List MediaRange) :
    0 ≤ weightOf mediaType ranges ∧ weightOf mediaType ranges ≤ 1 := by
  unfold weightOf
  cases governing mediaType ranges with
  | none => simp
  | some r => exact value_mem_unit r

theorem prefersSSZ_iff (ranges : List MediaRange) :
    PrefersSSZ ranges ↔ weightOf json ranges < weightOf octetStream ranges := by
  constructor
  · rintro ⟨-, hlt⟩
    exact hlt
  · intro hlt
    exact ⟨(weightOf_mem_unit json ranges).1.trans_lt hlt, hlt⟩

def seenOf (mediaType : String) (ranges : List MediaRange) : ℚ :=
  if upperOf mediaType ranges then 1 else weightOf mediaType ranges

theorem seenOf_mem_unit (mediaType : String) (ranges : List MediaRange) :
    0 ≤ seenOf mediaType ranges ∧ seenOf mediaType ranges ≤ 1 := by
  unfold seenOf
  split_ifs
  · simp
  · exact weightOf_mem_unit mediaType ranges

def Legible (round : ℚ → ℚ) (ranges : List MediaRange) : Prop :=
  if upperOf json ranges then weightOf octetStream ranges ≤ weightOf json ranges
  else if upperOf octetStream ranges then
    weightOf json ranges < weightOf octetStream ranges ↔ round (weightOf json ranges) < 1
  else weightOf json ranges < weightOf octetStream ranges →
    round (weightOf json ranges) < round (weightOf octetStream ranges)

namespace QValues

variable {F : Type} {qv : QValues F} {read : ℚ → F} {round : ℚ → ℚ}

theorem q_weigh (h : qv.ReadsDecimals read round) (mediaType : String) (ranges : List MediaRange) :
    (weigh qv mediaType (fun r => read (if r.upper then 1 else r.value)) (governing mediaType ranges)).q =
      read (seenOf mediaType ranges) := by
  unfold seenOf upperOf weightOf
  cases governing mediaType ranges with
  | none => exact h.read_zero.symm
  | some r => rfl

theorem ReadsDecimals.lt_seenOf (h : qv.ReadsDecimals read round) (ranges : List MediaRange) :
    (qv.lt qv.zero (read (seenOf octetStream ranges)) &&
      qv.lt (read (seenOf json ranges)) (read (seenOf octetStream ranges))) = true ↔
        round (seenOf json ranges) < round (seenOf octetStream ranges) := by
  obtain ⟨hj, hj'⟩ := seenOf_mem_unit json ranges
  obtain ⟨ho, ho'⟩ := seenOf_mem_unit octetStream ranges
  rw [Bool.and_eq_true, ← h.read_zero, h.lt_read _ _ le_rfl zero_le_one ho ho', h.lt_read _ _ hj hj' ho ho']
  constructor
  · rintro ⟨-, hlt⟩
    exact hlt
  · intro hlt
    exact ⟨(h.round_mono hj).trans_lt hlt, hlt⟩

theorem seenOf_nil (mediaType : String) : seenOf mediaType [] = 0 := by
  have hnone : governing mediaType [] = none := rfl
  unfold seenOf upperOf weightOf
  rw [hnone, Option.any_none, Option.map_none, Option.getD_none, if_neg Bool.false_ne_true]

theorem acceptPrefersSSZ_render (h : qv.ReadsDecimals read round) (ranges : List MediaRange) :
    qv.acceptPrefersSSZ (render ranges) = true ↔
      round (seenOf json ranges) < round (seenOf octetStream ranges) := by
  unfold acceptPrefersSSZ
  by_cases hempty : ranges = []
  · rw [if_pos (render_eq_empty_iff.mpr hempty), hempty, seenOf_nil, seenOf_nil]
    exact iff_of_false Bool.false_ne_true (lt_irrefl _)
  · rw [if_neg (fun hrender => hempty (render_eq_empty_iff.mp hrender)), split_render hempty]
    dsimp only
    rw [foldl_applyRange h, foldl_apply (by decide) (by decide), foldl_apply (by decide) (by decide)]
    dsimp only
    rw [q_weigh h, q_weigh h, h.lt_seenOf]

theorem acceptPrefersSSZ_perm (h : qv.ReadsDecimals read round) {ranges ranges' : List MediaRange}
    (hnodup : (ranges.map MediaRange.lowered).Nodup) (hperm : ranges.Perm ranges') :
    qv.acceptPrefersSSZ (render ranges') = qv.acceptPrefersSSZ (render ranges) := by
  have hseen : ∀ mediaType, seenOf mediaType ranges' = seenOf mediaType ranges := by
    intro mediaType
    unfold seenOf upperOf weightOf
    rw [governing_perm hnodup hperm]
  rw [Bool.eq_iff_iff, acceptPrefersSSZ_render h, acceptPrefersSSZ_render h, hseen, hseen]

theorem legible_iff (h : qv.ReadsDecimals read round) (ranges : List MediaRange) :
    (round (seenOf json ranges) < round (seenOf octetStream ranges) ↔
      weightOf json ranges < weightOf octetStream ranges) ↔ Legible round ranges := by
  have hle : round (seenOf octetStream ranges) ≤ 1 := by
    rw [← h.round_one]
    exact h.round_mono (seenOf_mem_unit octetStream ranges).2
  unfold Legible
  split_ifs with hjson hoctet
  · have hseen : round (seenOf json ranges) = 1 := by rw [seenOf, if_pos hjson, h.round_one]
    rw [hseen, iff_false_left hle.not_gt, not_lt]
  · rw [seenOf, seenOf, if_neg hjson, if_pos hoctet, h.round_one]
    exact Iff.comm
  · rw [seenOf, seenOf, if_neg hjson, if_neg hoctet]
    exact ⟨fun hiff => hiff.mpr, fun himp => ⟨fun hlt => h.round_mono.reflect_lt hlt, himp⟩⟩

/-- The preference is the one of RFC 9110 for the headers whose weights are read in their order. -/
theorem acceptPrefersSSZ_exact_iff (h : qv.ReadsDecimals read round) {ranges : List MediaRange}
    (hnodup : (ranges.map MediaRange.lowered).Nodup) :
    ((qv.acceptPrefersSSZ (render ranges) = true ↔ PrefersSSZ ranges) ∧
      ∀ ranges', ranges.Perm ranges' →
        qv.acceptPrefersSSZ (render ranges') = qv.acceptPrefersSSZ (render ranges)) ↔ Legible round ranges := by
  rw [acceptPrefersSSZ_render h, prefersSSZ_iff, legible_iff h]
  exact and_iff_left (fun ranges' hperm => acceptPrefersSSZ_perm h hnodup hperm)

end QValues

section Exact

def exactDecimals : QValues ℚ where
  zero := 0
  one := 1
  lt p q := p < q
  parse s := Decimal.parse s.toList
  zero_lt_one := by decide

theorem exactDecimals_reads : exactDecimals.ReadsDecimals id id where
  parse_text d _ := by
    change Decimal.parse (String.ofList d.text).toList = _
    rw [String.toList_ofList, Decimal.parse_text]
    rfl
  read_zero := rfl
  read_one := rfl
  lt_read p q _ _ _ _ := by
    change decide (p < q) = true ↔ _
    rw [decide_eq_true_eq]
    rfl
  round_one := rfl
  round_mono := monotone_id

def tenths (upper : Bool) (digit : Char) (hdigit : isDigit digit = true)
    (hle : Decimal.ratio ['0'] [digit] ≤ 1) : QParam where
  upper := upper
  decimal := ⟨['0'], some [digit], List.forall_mem_cons.mpr ⟨by decide, by simpa using hdigit⟩, List.cons_ne_nil _ _⟩
  le_one := hle
  lead := []
  trail := []
  blank := by simp

def weighted (name : List Char) (hne : name ≠ [])
    (hname : name.all (fun c => !spaceByte c && c ≠ ',' && c ≠ ';') = true) (weight : QParam) : MediaRange where
  name := name
  nonempty := hne
  visible c hc := by simpa [and_assoc] using List.all_eq_true.mp hname c hc
  lead := [' ']
  trail := []
  blank := List.all_eq_true.mp (by decide)
  weight := some weight

def octetStreamHalf (upper : Bool) : MediaRange :=
  weighted octetStream.toList (by decide) (by decide) (tenths upper '5' (by decide) (by decide +kernel))

def jsonNineTenths : MediaRange :=
  weighted json.toList (by decide) (by decide) (tenths false '9' (by decide) (by decide +kernel))

theorem upper_case_weight_ignored :
    render [octetStreamHalf true, jsonNineTenths] = " application/octet-stream;Q=0.5, application/json;q=0.9" ∧
      exactDecimals.acceptPrefersSSZ (render [octetStreamHalf true, jsonNineTenths]) = true ∧
      ¬ PrefersSSZ [octetStreamHalf true, jsonNineTenths] := by
  unfold PrefersSSZ
  decide +kernel

theorem acceptPrefersSSZ_exact_lower_case :
    ([octetStreamHalf false, jsonNineTenths].map MediaRange.lowered).Nodup ∧
      (exactDecimals.acceptPrefersSSZ (render [octetStreamHalf false, jsonNineTenths]) = true ↔
        PrefersSSZ [octetStreamHalf false, jsonNineTenths]) := by
  have hnodup : ([octetStreamHalf false, jsonNineTenths].map MediaRange.lowered).Nodup := by decide +kernel
  have hlegible : Legible id [octetStreamHalf false, jsonNineTenths] := by
    unfold Legible
    decide +kernel
  exact ⟨hnodup, ((QValues.acceptPrefersSSZ_exact_iff exactDecimals_reads hnodup).mpr hlegible).1⟩

end Exact

end EBeacon.Network
