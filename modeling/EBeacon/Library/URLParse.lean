import Mathlib.Data.List.TakeWhile
import EBeacon.Library.Segments
import EBeacon.Library.URL

/-!
The parsers of Go's `net/url`, and what they make of the strings that its encoders write.
-/

namespace EBeacon.URL

def cutAt (c : Char) (l : List Char) : List Char × List Char :=
  (l.takeWhile (· ≠ c), (l.dropWhile (· ≠ c)).drop 1)

theorem decide_ne_of_notMem {c : Char} {a : List Char} (ha : c ∉ a) : ∀ x ∈ a, decide (x ≠ c) = true := by
  intro x hx
  simpa using fun hsame : x = c => ha (hsame ▸ hx)

theorem cutAt_append {c : Char} {a : List Char} (ha : c ∉ a) (b : List Char) :
    cutAt c (a ++ c :: b) = (a, b) := by
  have hall := decide_ne_of_notMem ha
  unfold cutAt
  rw [List.takeWhile_append_of_pos hall, List.dropWhile_append_of_pos hall]
  simp

theorem cutAt_of_notMem {c : Char} {a : List Char} (ha : c ∉ a) : cutAt c a = (a, []) := by
  have hall := decide_ne_of_notMem ha
  unfold cutAt
  rw [List.takeWhile_eq_self_iff.mpr hall, List.dropWhile_eq_nil_iff.mpr hall]
  rfl

def queryUnescape (l : List Char) : Option (List Char) :=
  Percent.unescape (l.map (fun c => if c = '+' then ' ' else c))

def parsePair (seg : List Char) : Option (String × String) :=
  if seg = [] ∨ ';' ∈ seg then none
  else do
    let key ← queryUnescape (cutAt '=' seg).1
    let value ← queryUnescape (cutAt '=' seg).2
    return (String.ofList key, String.ofList value)

def parseQuery (query : List Char) : List (String × String) := (query.splitOn '&').filterMap parsePair

def isControl (c : Char) : Bool := c.toNat < 32 || c.toNat = 127

def setPath (p query : List Char) : Option URL :=
  (Percent.unescape p).map (fun path =>
    ⟨String.ofList path, if p = Percent.escape pathByte path then "" else String.ofList p, parseQuery query⟩)

def doubleSlash (l : List Char) : Bool := "//".toList.isPrefixOf l && !"///".toList.isPrefixOf l

/-- `url.Parse` of a reference that starts with a slash or an asterisk, so that it has no scheme.
`authority` is what `parseAuthority` accepts. -/
def parse (authority : List Char → Bool) (raw : String) : Option URL :=
  let (ref, fragment) := cutAt '#' raw.toList
  if ref.any isControl || Percent.unescape fragment = none then none
  else if ref = ['*'] then some ⟨"*", "", []⟩
  else
    let (rest, query) := cutAt '?' ref
    if doubleSlash rest then
      let host := (rest.drop 2).takeWhile (· ≠ '/')
      if authority host then setPath ((rest.drop 2).dropWhile (· ≠ '/')) query else none
    else setPath rest query

section Query

theorem mem_queryEscape {l : List Char} {x : Char} (h : x ∈ queryEscape l) :
    unreserved x = true ∨ 256 ≤ x.toNat ∨ x = '%' ∨ x = '+' ∨ x ∈ Percent.hexDigits := by
  obtain ⟨c, hc, rfl⟩ := List.mem_map.mp h
  split_ifs with hspace
  · simp
  · rcases Percent.mem_escape hc with hkeep | hbig | hpercent | hhex
    · simp only [Bool.or_eq_true, decide_eq_true_eq, hspace, or_false] at hkeep
      exact Or.inl hkeep
    · exact Or.inr (Or.inl hbig)
    · exact Or.inr (Or.inr (Or.inl hpercent))
    · exact Or.inr (Or.inr (Or.inr (Or.inr hhex)))

theorem notMem_queryEscape {x : Char} (l : List Char)
    (hx : ¬ (unreserved x = true ∨ 256 ≤ x.toNat ∨ x = '%' ∨ x = '+' ∨ x ∈ Percent.hexDigits)) :
    x ∉ queryEscape l :=
  fun h => hx (mem_queryEscape h)

theorem queryUnescape_queryEscape (l : List Char) : queryUnescape (queryEscape l) = some l := by
  have hback : (queryEscape l).map (fun c => if c = '+' then ' ' else c) =
      Percent.escape (fun c => unreserved c || c = ' ') l := by
    unfold queryEscape
    rw [List.map_map]
    conv_rhs => rw [← List.map_id (Percent.escape _ l)]
    refine List.map_congr_left (fun c hc => ?_)
    have hplus : c ≠ '+' := by
      rintro rfl
      have hmem := Percent.mem_escape hc
      revert hmem
      decide
    by_cases hspace : c = ' '
    · simp [hspace]
    · simp [hspace, hplus]
  unfold queryUnescape
  rw [hback]
  exact Percent.unescape_escape rfl l

def encodePair (q : String × String) : List Char := queryEscape q.1.toList ++ '=' :: queryEscape q.2.toList

theorem parsePair_encodePair (q : String × String) : parsePair (encodePair q) = some q := by
  have hne : encodePair q ≠ [] := by simp [encodePair]
  have hsemicolon : ';' ∉ encodePair q := by
    unfold encodePair
    rw [List.mem_append, List.mem_cons, not_or, not_or]
    exact ⟨notMem_queryEscape _ (by decide), by decide, notMem_queryEscape _ (by decide)⟩
  have hcut : cutAt '=' (encodePair q) = (queryEscape q.1.toList, queryEscape q.2.toList) :=
    cutAt_append (notMem_queryEscape _ (by decide)) _
  unfold parsePair
  rw [if_neg (by simp [hne, hsemicolon]), hcut]
  simp [queryUnescape_queryEscape]

theorem ampersand_notMem_encodePair (q : String × String) : '&' ∉ encodePair q := by
  unfold encodePair
  rw [List.mem_append, List.mem_cons, not_or, not_or]
  exact ⟨notMem_queryEscape _ (by decide), by decide, notMem_queryEscape _ (by decide)⟩

theorem parseQuery_encode (query : List (String × String)) :
    parseQuery (encode query).toList = query.insertionSort (fun a b => a.1 ≤ b.1) := by
  unfold encode
  dsimp only
  rw [String.toList_ofList]
  cases query.insertionSort (fun a b => a.1 ≤ b.1) with
  | nil => rfl
  | cons q qs =>
    have hdrop : ((q :: qs).flatMap (fun q => '&' :: (queryEscape q.1.toList ++ '=' :: queryEscape q.2.toList))).drop 1 =
        encodePair q ++ Text.separated '&' (qs.map encodePair) := by
      rw [Text.separated, List.flatMap_map]
      rfl
    have hfree : ∀ v ∈ qs.map encodePair, '&' ∉ v := by
      intro v hv
      obtain ⟨r, -, rfl⟩ := List.mem_map.mp hv
      exact ampersand_notMem_encodePair r
    rw [hdrop]
    unfold parseQuery
    rw [Text.splitOn_separated (ampersand_notMem_encodePair q) hfree, ← List.map_cons, List.filterMap_map]
    have hpairs : parsePair ∘ encodePair = some := funext parsePair_encodePair
    rw [hpairs, List.filterMap_some]

theorem encode_sorted (query : List (String × String)) :
    encode (query.insertionSort (fun a b => a.1 ≤ b.1)) = encode query := by
  unfold encode
  rw [List.Pairwise.insertionSort_eq]
  have htotal : Std.Total (fun a b : String × String => a.1 ≤ b.1) := ⟨fun a b => String.le_total a.1 b.1⟩
  have htrans : IsTrans (String × String) (fun a b => a.1 ≤ b.1) := ⟨fun a b c hab hbc => String.le_trans hab hbc⟩
  exact List.pairwise_insertionSort _ query

end Query

section Path

def escapedByte (c : Char) : Bool := pathByte c || "!'()*[]%".toList.contains c || 256 ≤ c.toNat

theorem mem_escapedPath {u : URL} {c : Char} (h : c ∈ u.escapedPath.toList) : escapedByte c = true := by
  unfold escapedPath at h
  unfold escapedByte
  split_ifs at h with hraw hstar
  · rw [List.all_eq_true.mp hraw.2.1 c h]
    rfl
  · rw [List.mem_singleton.mp h]
    decide
  · rw [String.toList_ofList] at h
    rcases Percent.mem_escape h with hkeep | hbig | rfl | hhex
    · rw [hkeep]
      rfl
    · simp [hbig]
    · decide
    · exact List.all_eq_true.mp (by decide : Percent.hexDigits.all escapedByte = true) c hhex

theorem not_isControl {c : Char} (h : escapedByte c = true) : isControl c = false := by
  by_contra hcontrol
  simp only [isControl, Bool.or_eq_true, decide_eq_true_eq, Bool.not_eq_false] at hcontrol
  have hall : ∀ n < 128, n < 32 ∨ n = 127 → escapedByte (Char.ofNat n) = false := by decide
  have hbyte := hall c.toNat (by omega) hcontrol
  rw [Char.ofNat_toNat, h] at hbyte
  cases hbyte

theorem setPath_escapedPath {u : URL} (hstar : u.path = "*" → u.escapedPath = "*") (query : List Char) :
    ∃ v, setPath u.escapedPath.toList query = some v ∧ v.escapedPath = u.escapedPath ∧
      v.path = u.path ∧ v.query = parseQuery query := by
  unfold setPath
  rw [unescape_escapedPath, Option.map_some, String.ofList_toList, String.ofList_toList]
  refine ⟨_, rfl, ?_, rfl, rfl⟩
  split_ifs with hdefault
  · have hpath : u.path ≠ "*" := by
      intro hpath
      rw [hstar hpath, hpath] at hdefault
      revert hdefault
      decide
    conv_lhs => rw [escapedPath]
    rw [if_neg (by simp), if_neg hpath, ← hdefault, String.ofList_toList]
  · have hvalid : u.escapedPath ≠ "" ∧ validEncoded u.escapedPath.toList = true := by
      by_cases hraw : u.rawPath ≠ "" ∧ validEncoded u.rawPath.toList ∧
          Percent.unescape u.rawPath.toList = some u.path.toList
      · rw [escapedPath, if_pos hraw]
        exact ⟨hraw.1, hraw.2.1⟩
      · by_cases hpath : u.path = "*"
        · rw [hstar hpath]
          decide
        · rw [escapedPath, if_neg hraw, if_neg hpath, String.toList_ofList] at hdefault
          exact absurd rfl hdefault
    conv_lhs => rw [escapedPath]
    rw [if_pos ⟨hvalid.1, hvalid.2, unescape_escapedPath u⟩]

end Path

section RoundTrip

theorem mem_encode {query : List (String × String)} {c : Char} (h : c ∈ (encode query).toList) :
    c = '&' ∨ c = '=' ∨ ∃ l, c ∈ queryEscape l := by
  unfold encode at h
  rw [String.toList_ofList] at h
  obtain ⟨q, -, hq⟩ := List.mem_flatMap.mp (List.mem_of_mem_drop h)
  simp only [List.mem_cons, List.mem_append] at hq
  rcases hq with rfl | hq | rfl | hq
  · exact Or.inl rfl
  · exact Or.inr (Or.inr ⟨_, hq⟩)
  · exact Or.inr (Or.inl rfl)
  · exact Or.inr (Or.inr ⟨_, hq⟩)

theorem escapedByte_of_mem_encode {query : List (String × String)} {c : Char}
    (h : c ∈ (encode query).toList) : escapedByte c = true := by
  rcases mem_encode h with rfl | rfl | ⟨l, hl⟩
  · decide
  · decide
  · rcases mem_queryEscape hl with hkeep | hbig | rfl | rfl | hhex
    · simp [escapedByte, pathByte, hkeep]
    · simp [escapedByte, hbig]
    · decide
    · decide
    · exact List.all_eq_true.mp (by decide : Percent.hexDigits.all escapedByte = true) c hhex

def reference (path : String) (query : List (String × String)) : String :=
  if encode query = "" then path else path ++ "?" ++ encode query

variable {u : URL} {query : List (String × String)}

theorem mem_reference {c : Char} (h : c ∈ (reference u.escapedPath query).toList) :
    escapedByte c = true ∨ c = '?' := by
  unfold reference at h
  split_ifs at h
  · exact Or.inl (mem_escapedPath h)
  · simp only [String.toList_append, List.mem_append] at h
    rcases h with (h | h) | h
    · exact Or.inl (mem_escapedPath h)
    · exact Or.inr (List.mem_singleton.mp h)
    · exact Or.inl (escapedByte_of_mem_encode h)

theorem cutAt_reference (u : URL) (query : List (String × String)) :
    cutAt '?' (reference u.escapedPath query).toList = (u.escapedPath.toList, (encode query).toList) := by
  have hpath := question_notMem_escapedPath u
  unfold reference
  split_ifs with henc
  · rw [cutAt_of_notMem hpath, henc]
    rfl
  · rw [String.toList_append, String.toList_append, List.append_assoc]
    exact cutAt_append hpath _

theorem reference_plain (u : URL) (query : List (String × String)) :
    '#' ∉ (reference u.escapedPath query).toList ∧
      (reference u.escapedPath query).toList.any isControl = false := by
  constructor
  · intro h
    have hbyte := mem_reference h
    revert hbyte
    decide
  · rw [List.any_eq_false]
    intro c hc
    rw [Bool.not_eq_true]
    rcases mem_reference hc with hbyte | rfl
    · exact not_isControl hbyte
    · rfl

theorem parse_reference (authority : List Char → Bool) (hne : reference u.escapedPath query ≠ "*") :
    parse authority (reference u.escapedPath query) =
      if doubleSlash u.escapedPath.toList then
        if authority ((u.escapedPath.toList.drop 2).takeWhile (· ≠ '/')) then
          setPath ((u.escapedPath.toList.drop 2).dropWhile (· ≠ '/')) (encode query).toList
        else none
      else setPath u.escapedPath.toList (encode query).toList := by
  have hplain := reference_plain u query
  have hstar : (reference u.escapedPath query).toList ≠ ['*'] :=
    fun h => hne (String.toList_injective h)
  unfold parse
  rw [cutAt_of_notMem hplain.1]
  dsimp only
  rw [hplain.2, if_neg (by decide), if_neg hstar, cutAt_reference]

theorem parse_reference_of_not_doubleSlash (authority : List Char → Bool) (query : List (String × String))
    (hstar : u.path = "*" → u.escapedPath = "*") (hslash : doubleSlash u.escapedPath.toList = false) :
    ∃ v, parse authority (reference u.escapedPath query) = some v ∧ v.escapedPath = u.escapedPath ∧
      v.query = query.insertionSort (fun a b => a.1 ≤ b.1) := by
  by_cases hne : reference u.escapedPath query = "*"
  · have hcut := cutAt_reference u query
    rw [hne] at hcut
    have hpath : u.escapedPath = "*" := String.toList_injective (congrArg Prod.fst hcut).symm
    have hquery : parseQuery (encode query).toList = [] := by
      have hencode : (encode query).toList = [] := (congrArg Prod.snd hcut).symm
      rw [hencode]
      decide
    rw [parseQuery_encode] at hquery
    rw [hne, hpath, hquery]
    exact ⟨⟨"*", "", []⟩, rfl, by decide, rfl⟩
  · obtain ⟨v, hv, hescaped, -, hquery⟩ := setPath_escapedPath hstar (encode query).toList
    rw [parseQuery_encode] at hquery
    rw [parse_reference authority hne, hslash]
    exact ⟨v, hv, hescaped, hquery⟩

theorem doubleSlash_eq {l : List Char} (h : doubleSlash l = true) : l = '/' :: '/' :: l.drop 2 := by
  simp only [doubleSlash, Bool.and_eq_true, List.isPrefixOf_iff_prefix] at h
  obtain ⟨rest, hrest⟩ := h.1
  rw [← hrest]
  rfl

theorem unescape_slash (l : List Char) : Percent.unescape ('/' :: l) = (Percent.unescape l).map ('/' :: ·) :=
  Percent.unescape_cons_of_ne (by decide) l

theorem length_unescape_dropWhile {l path whole : List Char} (hwhole : Percent.unescape l = some whole)
    (hpath : Percent.unescape (l.dropWhile (· ≠ '/')) = some path) : path.length ≤ whole.length := by
  rcases hrest : l.dropWhile (· ≠ '/') with _ | ⟨c, rest⟩
  · rw [hrest] at hpath
    cases hpath
    exact Nat.zero_le _
  · have hc : c = '/' := by
      have hhead := List.head?_dropWhile_not (· ≠ '/') l
      rw [hrest] at hhead
      simpa using hhead
    subst hc
    rw [← List.takeWhile_append_dropWhile (p := (· ≠ '/')) (l := l), hrest,
      Percent.unescape_append rfl] at hwhole
    obtain ⟨host, -, hjoin⟩ := Option.bind_eq_some_iff.mp hwhole
    rw [← hrest, hpath, Option.map_some, Option.some.injEq] at hjoin
    rw [← hjoin, List.length_append]
    exact Nat.le_add_left _ _

theorem path_ne_of_doubleSlash {authority : List Char → Bool} {v : URL}
    (hslash : doubleSlash u.escapedPath.toList = true)
    (hv : parse authority (reference u.escapedPath query) = some v) : v.path ≠ u.path := by
  have hshape := doubleSlash_eq hslash
  have hne : reference u.escapedPath query ≠ "*" := by
    intro hne
    have hcut := cutAt_reference u query
    rw [hne, hshape] at hcut
    exact absurd (congrArg Prod.fst hcut) (by simp [cutAt])
  rw [parse_reference authority hne, hslash, if_pos rfl] at hv
  split_ifs at hv
  obtain ⟨path, hpath, rfl⟩ := Option.map_eq_some_iff.mp hv
  -- The decoding of the whole path is longer by the two slashes.
  have hwhole := unescape_escapedPath u
  rw [hshape, unescape_slash, unescape_slash, Option.map_map] at hwhole
  obtain ⟨whole, hwhole, hlist⟩ := Option.map_eq_some_iff.mp hwhole
  have hle := length_unescape_dropWhile hwhole hpath
  intro hsame
  dsimp only at hsame
  rw [← hsame, String.toList_ofList] at hlist
  have hlength := congrArg List.length hlist
  simp only [Function.comp_apply, List.length_cons] at hlength
  omega

end RoundTrip

end EBeacon.URL
