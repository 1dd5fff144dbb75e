import EBeacon.Library.Marks
import EBeacon.Library.URLParse
import EBeacon.Network.Accept
import EBeacon.Network.Server
import EBeacon.State.HeadGossip

namespace EBeacon.Network

open Text Text.Mark State

def colonMark : Mark ':' := ⟨[], nofun⟩

def acceptMark : Mark ':' := ⟨"accept=".toList, by decide⟩

def upstreamMark : Mark ':' := ⟨"upstream=".toList, by decide⟩

def binaryMark : Mark ':' := ⟨"accept=binary".toList, by decide⟩

def keyMarks : List (Mark ':') := [acceptMark, upstreamMark]

theorem colon_notMem_of_validIdentifier {id : String} (h : validIdentifier id = true) : ':' ∉ id.toList := by
  unfold validIdentifier at h
  cases hid : id.toList with
  | nil => exact nofun
  | cons c cs =>
    simp only [hid, Bool.and_eq_true, List.all_eq_true] at h
    rw [List.mem_cons, not_or]
    constructor
    · rintro rfl
      exact absurd h.1 (by decide)
    · exact fun hmem => absurd (h.2 ':' hmem) (by decide)

theorem cutColon_append {a b : String} (ha : ':' ∉ a.toList) (hb : b ≠ "") :
    cutColon (a ++ ":" ++ b) = some (a, b) := by
  have hlist : (a ++ ":" ++ b).toList = a.toList ++ (colonMark.word ++ b.toList) := by
    rw [String.toList_append, String.toList_append, List.append_assoc]
    rfl
  have hnone : indexOf colonMark.word a.toList = none := by
    rw [← Option.not_isSome_iff_eq_none, indexOf_isSome_iff]
    exact fun h => ha (h.subset List.mem_cons_self)
  have hindex : index (a ++ ":" ++ b) ":" = some a.length := by
    unfold index
    rw [hlist]
    change indexOf colonMark.word _ = _
    rw [indexOf_append colonMark (Or.inr rfl) hnone, indexOf_word_append, Option.map_some,
      String.length_toList, Nat.add_zero]
  have hpos : 0 < b.length := by
    rw [← String.length_toList]
    exact List.length_pos_of_ne_nil (fun h => hb (String.toList_eq_nil_iff.mp h))
  have hlength : (a ++ ":").length = a.length + 1 := String.length_append a ":"
  unfold cutColon
  rw [hindex]
  dsimp only
  rw [if_neg (by rw [String.length_append, hlength]; omega), ← hlength, drop_append, String.append_assoc,
    take_append]

def suffixScope (suffix : String) : String :=
  match index suffix ":upstream=" with
  | some j => drop suffix (j + ":upstream=".length)
  | none => ""

theorem parseCacheKey_append {id method rest : String} (hid : ':' ∉ id.toList)
    (hmethod : ':' ∉ method.toList) (hrest : rest ≠ "") :
    parseCacheKey (id ++ ":" ++ method ++ ":" ++ rest) =
      let pathQuery := String.ofList (before keyMarks rest.toList)
      let suffix := String.ofList (rest.toList.drop (before keyMarks rest.toList).length)
      if pathQuery = "" then none
      else some ⟨method, pathQuery, take pathQuery ((index pathQuery "?").getD pathQuery.length),
        suffixScope suffix, contains suffix ":accept=binary"⟩ := by
  have hshape : id ++ ":" ++ method ++ ":" ++ rest = id ++ ":" ++ (method ++ ":" ++ rest) := by
    simp only [String.append_assoc]
  have hne : method ++ ":" ++ rest ≠ "" := by
    intro h
    have hlength := congrArg String.length h
    rw [String.length_append, String.length_append] at hlength
    exact absurd hlength (by have : ":".length = 1 := rfl; simp [this])
  set stop := min ((index rest ":accept=").getD rest.length) ((index rest ":upstream=").getD rest.length)
    with hstop
  have htake : rest.toList.take stop = before keyMarks rest.toList := by
    have h := take_min_indexOf acceptMark upstreamMark rest.toList
    rw [String.length_toList] at h
    exact h
  have hdrop : rest.toList.drop stop = rest.toList.drop (before keyMarks rest.toList).length := by
    rw [← htake, List.length_take]
    rcases le_total stop rest.toList.length with hle | hle
    · rw [min_eq_left hle]
    · rw [min_eq_right hle, List.drop_length, List.drop_eq_nil_of_le hle]
  have hpathQuery : take rest stop = String.ofList (before keyMarks rest.toList) := by
    rw [take, htake]
  have hsuffix : drop rest stop =
      String.ofList (rest.toList.drop (before keyMarks rest.toList).length) := by
    rw [drop, hdrop]
  have hparse : parseCacheKey (id ++ ":" ++ method ++ ":" ++ rest) =
      if take rest stop = "" then none
      else some ⟨method, take rest stop,
        take (take rest stop) ((index (take rest stop) "?").getD (take rest stop).length),
        suffixScope (drop rest stop), contains (drop rest stop) ":accept=binary"⟩ := by
    unfold parseCacheKey
    rw [hshape, cutColon_append hid hne]
    simp only [Option.bind_eq_bind, Option.bind_some, cutColon_append hmethod hrest]
    generalize drop rest _ = suffix
    unfold suffixScope
    cases index suffix ":upstream=" with
    | none => rfl
    | some j => rfl
  rw [hparse, hpathQuery, hsuffix]

def unmarked (path : String) : Bool := !contains path ":accept=" && !contains path ":upstream="

theorem contains_iff (m : Mark ':') {s w : String} (hw : w.toList = m.word) :
    contains s w = true ↔ m.word <:+: s.toList := by
  rw [contains, index, hw, indexOf_isSome_iff]

theorem before_eq_self_iff_unmarked (path : String) :
    before keyMarks path.toList = path.toList ↔ unmarked path = true := by
  rw [before_eq_self_iff, unmarked, Bool.and_eq_true, Bool.not_eq_true', Bool.not_eq_true',
    ← Bool.not_eq_true, ← Bool.not_eq_true, contains_iff acceptMark rfl, contains_iff upstreamMark rfl]
  simp [keyMarks]

theorem unmarked_rootedPath (u : URL) : unmarked (rootedPath u) = unmarked u.escapedPath := by
  unfold rootedPath
  split_ifs with hempty
  · rw [hempty]
    decide
  · rfl

theorem tags_boundary (binary : Bool) (scope : String) : Boundary ':' (tags ":upstream=" binary scope) :=
  tags_head rfl binary scope

theorem before_tags (binary : Bool) (scope : String) :
    before keyMarks (tags ":upstream=" binary scope) = [] := by
  unfold tags acceptTag scopeTag
  cases binary with
  | true => exact before_word_append (m := acceptMark) (by simp [keyMarks]) _
  | false =>
    by_cases hscope : scope = ""
    · rw [if_pos hscope]
      rfl
    · rw [if_neg hscope, String.toList_append]
      exact before_word_append (m := upstreamMark) (by simp [keyMarks]) _

section Parse

variable {u : URL}

theorem before_pathAndQuery (u : URL) :
    (unmarked (rootedPath u) = true →
      before keyMarks (pathAndQueryForCache u).toList = (pathAndQueryForCache u).toList) ∧
    (unmarked (rootedPath u) = false →
      before keyMarks (pathAndQueryForCache u).toList = before keyMarks (rootedPath u).toList) := by
  obtain ⟨rest, hpq, hquestion, hcolon⟩ := pathAndQueryForCache_toList u
  have htails : ∀ m ∈ keyMarks, '?' ∉ m.tail := by decide
  rw [hpq]
  constructor
  · intro h
    rw [before_append_of_eq htails hquestion ((before_eq_self_iff_unmarked _).mpr h),
      before_of_notMem keyMarks hcolon]
  · intro h
    apply before_append_of_ne htails hquestion
    rw [Ne, before_eq_self_iff_unmarked, h]
    exact Bool.false_ne_true

theorem rest_ne_nil (u : URL) : (pathAndQueryForCache u).toList ≠ [] := by
  obtain ⟨rest, hpq, -, -⟩ := pathAndQueryForCache_toList u
  rw [hpq]
  intro h
  have hrooted := String.toList_eq_nil_iff.mp (List.append_eq_nil_iff.mp h).1
  unfold rootedPath at hrooted
  split_ifs at hrooted with hempty
  · exact absurd hrooted (by decide)
  · exact hempty hrooted

theorem buildCacheKey_append (id method : String) (u : URL) (binary : Bool) (scope : String) :
    buildCacheKey id method u binary scope = id ++ ":" ++ method ++ ":" ++
      String.ofList ((pathAndQueryForCache u).toList ++ tags ":upstream=" binary scope) := by
  apply String.toList_injective
  simp only [buildCacheKey, tags, String.toList_append, String.toList_ofList, List.append_assoc]

def questionMark : Mark '?' := ⟨[], nofun⟩

theorem take_index_question {p q : List Char} (hp : '?' ∉ p) (hq : Boundary '?' q) :
    take (String.ofList (p ++ q)) ((index (String.ofList (p ++ q)) "?").getD (String.ofList (p ++ q)).length) =
      String.ofList p := by
  have hbefore : before [questionMark, questionMark] (p ++ q) = p := by
    rw [before_append_of_eq (e := '?') (by decide) hq (before_of_notMem _ hp)]
    rcases hq with rfl | hq
    · exact List.append_nil p
    · obtain ⟨q, rfl⟩ := List.head?_eq_some_iff.mp hq
      rw [show '?' :: q = questionMark.word ++ q from rfl, before_word_append (by simp), List.append_nil]
  have htake := take_min_indexOf questionMark questionMark (p ++ q)
  rw [min_self, hbefore] at htake
  unfold take index
  simp only [String.length_ofList, String.toList_ofList]
  exact congrArg String.ofList htake

theorem suffixScope_tags (binary : Bool) (scope : String) :
    suffixScope (String.ofList (tags ":upstream=" binary scope)) = scope := by
  have hnone : indexOf upstreamMark.word (acceptTag binary).toList = none := by
    cases binary <;> decide
  have hindex : indexOf upstreamMark.word (tags ":upstream=" binary scope) =
      (indexOf upstreamMark.word (scopeTag ":upstream=" scope).toList).map ((acceptTag binary).toList.length + ·) :=
    indexOf_append upstreamMark (tags_boundary false scope) hnone
  have hofList : index (String.ofList (tags ":upstream=" binary scope)) ":upstream=" =
      indexOf upstreamMark.word (tags ":upstream=" binary scope) :=
    congrArg (indexOf upstreamMark.word) String.toList_ofList
  unfold suffixScope
  rw [hofList, hindex]
  by_cases hscope : scope = ""
  · rw [hscope]
    rfl
  · have htag : scopeTag ":upstream=" scope = ":upstream=" ++ scope := if_neg hscope
    have hword : (":upstream=" ++ scope).toList = upstreamMark.word ++ scope.toList := String.toList_append
    rw [htag, hword, indexOf_word_append, Option.map_some]
    dsimp only
    have hdrop : String.ofList (tags ":upstream=" binary scope) = (acceptTag binary ++ ":upstream=") ++ scope := by
      rw [tags, htag, ← String.toList_append, String.ofList_toList, String.append_assoc]
    have hlength : (acceptTag binary).toList.length + 0 + ":upstream=".length =
        (acceptTag binary ++ ":upstream=").length := by
      rw [String.length_append, String.length_toList]
      rfl
    rw [hdrop, hlength, drop_append]

theorem contains_tags (binary : Bool) (scope : String) :
    contains (String.ofList (tags ":upstream=" binary scope)) ":accept=binary" =
      (binary || contains scope ":accept=binary") := by
  rw [Bool.eq_iff_iff, contains_iff binaryMark rfl, String.toList_ofList, Bool.or_eq_true,
    contains_iff binaryMark rfl]
  cases binary with
  | true =>
    rw [eq_self, true_or, iff_true]
    exact (List.prefix_append binaryMark.word _).isInfix
  | false =>
    rw [or_iff_right Bool.false_ne_true]
    change binaryMark.word <:+: (scopeTag ":upstream=" scope).toList ↔ _
    unfold scopeTag
    split_ifs with hscope
    · rw [hscope]
    · have hcolon : ':' ∉ "upstream=".toList := by decide
      have hword : ¬ binaryMark.word <+: ':' :: ("upstream=".toList ++ scope.toList) := by
        rintro ⟨rest, hrest⟩
        have hsecond : 'a' = 'u' := congrArg (fun l => l.getD 1 ' ') hrest
        exact absurd hsecond (by decide)
      rw [String.toList_append, show ":upstream=".toList = ':' :: "upstream=".toList from rfl,
        List.cons_append, List.infix_cons_iff, or_iff_right hword, infix_append_iff binaryMark hcolon]

theorem parseCacheKey_before {id method : String} (hid : ':' ∉ id.toList) (hmethod : ':' ∉ method.toList)
    (u : URL) (binary : Bool) (scope : String) :
    parseCacheKey (buildCacheKey id method u binary scope) =
      let pathQuery := before keyMarks (pathAndQueryForCache u).toList
      let suffix := String.ofList
        (((pathAndQueryForCache u).toList ++ tags ":upstream=" binary scope).drop pathQuery.length)
      if String.ofList pathQuery = "" then none
      else some ⟨method, String.ofList pathQuery, String.ofList (before keyMarks (rootedPath u).toList),
        suffixScope suffix, contains suffix ":accept=binary"⟩ := by
  have htails : ∀ m ∈ keyMarks, ':' ∉ m.tail := fun m _ => m.notMem
  have hbefore : before keyMarks ((pathAndQueryForCache u).toList ++ tags ":upstream=" binary scope) =
      before keyMarks (pathAndQueryForCache u).toList := by
    by_cases h : before keyMarks (pathAndQueryForCache u).toList = (pathAndQueryForCache u).toList
    · rw [before_append_of_eq htails (tags_boundary binary scope) h, before_tags, List.append_nil, h]
    · exact before_append_of_ne htails (tags_boundary binary scope) h
  have hrest : String.ofList ((pathAndQueryForCache u).toList ++ tags ":upstream=" binary scope) ≠ "" := by
    intro h
    have hnil := congrArg String.toList h
    rw [String.toList_ofList] at hnil
    exact rest_ne_nil u (List.append_eq_nil_iff.mp hnil).1
  have hquestion : '?' ∉ (rootedPath u).toList := by
    unfold rootedPath
    split_ifs
    · decide
    · exact URL.question_notMem_escapedPath u
  -- The query has no colon, so the path is cut where the path and query are.
  have hpath : take (String.ofList (before keyMarks (pathAndQueryForCache u).toList))
      ((index (String.ofList (before keyMarks (pathAndQueryForCache u).toList)) "?").getD
        (String.ofList (before keyMarks (pathAndQueryForCache u).toList)).length) =
      String.ofList (before keyMarks (rootedPath u).toList) := by
    cases hmark : unmarked (rootedPath u) with
    | true =>
      obtain ⟨rest, hpq, hboundary, -⟩ := pathAndQueryForCache_toList u
      rw [(before_pathAndQuery u).1 hmark, (before_eq_self_iff_unmarked _).mpr hmark, hpq]
      exact take_index_question hquestion hboundary
    | false =>
      have hnone : '?' ∉ before keyMarks (rootedPath u).toList :=
        fun h => hquestion ((before_isPrefix keyMarks _).subset h)
      rw [(before_pathAndQuery u).2 hmark]
      have htake := take_index_question hnone (Or.inl rfl : Boundary '?' [])
      rwa [List.append_nil] at htake
  rw [buildCacheKey_append, parseCacheKey_append hid hmethod hrest, String.toList_ofList, hbefore]
  dsimp only
  rw [hpath]

theorem cacheKeyPath_buildCacheKey {id method : String} (hid : ':' ∉ id.toList)
    (hmethod : ':' ∉ method.toList) (u : URL) (binary : Bool) (scope : String) :
    cacheKeyPath (buildCacheKey id method u binary scope) =
      String.ofList (before keyMarks (rootedPath u).toList) := by
  unfold cacheKeyPath
  rw [parseCacheKey_before hid hmethod]
  dsimp only
  split_ifs with hempty
  · have hnil : before keyMarks (pathAndQueryForCache u).toList = [] := by
      have h := congrArg String.toList hempty
      rwa [String.toList_ofList] at h
    cases hmark : unmarked (rootedPath u) with
    | true =>
      rw [(before_pathAndQuery u).1 hmark] at hnil
      exact absurd hnil (rest_ne_nil u)
    | false =>
      rw [← (before_pathAndQuery u).2 hmark, hnil]
      rfl
  · rfl

theorem parseCacheKey_buildCacheKey {id method : String} (hid : ':' ∉ id.toList)
    (hmethod : ':' ∉ method.toList) (hu : unmarked (rootedPath u) = true) (binary : Bool) (scope : String) :
    parseCacheKey (buildCacheKey id method u binary scope) =
      some ⟨method, pathAndQueryForCache u, rootedPath u, scope, binary || contains scope ":accept=binary"⟩ := by
  have hne : pathAndQueryForCache u ≠ "" := fun h => rest_ne_nil u (by rw [h]; rfl)
  rw [parseCacheKey_before hid hmethod, (before_pathAndQuery u).1 hu, (before_eq_self_iff_unmarked _).mpr hu]
  dsimp only
  rw [List.drop_left, String.ofList_toList, String.ofList_toList, if_neg hne, suffixScope_tags, contains_tags]

theorem parseCacheKey_marked {id method : String} (hid : ':' ∉ id.toList)
    (hmethod : ':' ∉ method.toList) (hu : unmarked (rootedPath u) = false) {binary : Bool} {scope : String}
    {parsed : ParsedCacheKey} (h : parseCacheKey (buildCacheKey id method u binary scope) = some parsed) :
    parsed.pathQuery ≠ pathAndQueryForCache u := by
  obtain ⟨rest, hpq, -, -⟩ := pathAndQueryForCache_toList u
  rw [parseCacheKey_before hid hmethod, (before_pathAndQuery u).2 hu] at h
  dsimp only at h
  split_ifs at h
  cases h
  intro hsame
  have hlist := congrArg String.toList hsame
  rw [String.toList_ofList, hpq] at hlist
  have hself : before keyMarks (rootedPath u).toList = (rootedPath u).toList := by
    apply (before_isPrefix keyMarks (rootedPath u).toList).eq_of_length_le
    rw [hlist, List.length_append]
    exact Nat.le_add_right _ _
  rw [before_eq_self_iff_unmarked, hu] at hself
  cases hself

end Parse

def RequestURL (u : URL) : Prop :=
  u.escapedPath = "" ∨ u.escapedPath = "*" ∨ hasPrefix u.escapedPath "/" = true

def cacheQuery (u : URL) : List (String × String) :=
  if isNodePath ["peer_count", "syncing"] (rootedPath u) then []
  else if isNodePath ["peers"] (rootedPath u) then
    (forwardableQuery u).filter (fun q => q.1 = "state" || q.1 = "direction")
  else forwardableQuery u

section Rebuild

variable {u v : URL}

theorem pathAndQueryForCache_eq (u : URL) :
    pathAndQueryForCache u = URL.reference (rootedPath u) (cacheQuery u) := by
  have hempty : URL.reference (rootedPath u) [] = rootedPath u := if_pos (by decide)
  unfold pathAndQueryForCache cacheQuery
  dsimp only
  split_ifs
  · exact hempty.symm
  · rfl
  · rfl

theorem forwardableQuery_of_subset (h : v.query ⊆ forwardableQuery u) : forwardableQuery v = v.query := by
  rw [forwardableQuery_eq, List.filter_eq_self]
  intro q hq
  have hmem := h hq
  rw [forwardableQuery_eq] at hmem
  exact (List.mem_filter.mp hmem).2

theorem cacheQuery_of_kept (hpath : rootedPath v = rootedPath u)
    (hquery : v.query = (cacheQuery u).insertionSort (fun a b => a.1 ≤ b.1)) : cacheQuery v = v.query := by
  have hmem : ∀ q ∈ v.query, q ∈ cacheQuery u := by
    intro q hq
    rw [hquery] at hq
    exact (List.mem_insertionSort _).mp hq
  unfold cacheQuery at hquery hmem ⊢
  rw [hpath]
  split_ifs at hquery hmem ⊢
  · rw [hquery]
    rfl
  · have hforward := forwardableQuery_of_subset (fun q hq => (List.mem_filter.mp (hmem q hq)).1)
    rw [hforward, List.filter_eq_self]
    exact fun q hq => (List.mem_filter.mp (hmem q hq)).2
  · exact forwardableQuery_of_subset hmem

theorem rooted_ne_empty (u : URL) : rootedPath u ≠ "" := by
  unfold rootedPath
  split_ifs with h
  · decide
  · exact h

theorem pathAndQueryForCache_of_parsed (hpath : v.escapedPath = rootedPath u)
    (hquery : v.query = (cacheQuery u).insertionSort (fun a b => a.1 ≤ b.1)) :
    pathAndQueryForCache v = pathAndQueryForCache u := by
  have hrooted : rootedPath v = rootedPath u := by
    rw [rootedPath, if_neg (hpath ▸ rooted_ne_empty u), hpath]
  rw [pathAndQueryForCache_eq, pathAndQueryForCache_eq, hrooted, cacheQuery_of_kept hrooted hquery, hquery]
  unfold URL.reference
  rw [URL.encode_sorted]

theorem RequestURL.rooted (hu : RequestURL u) :
    ∃ w : URL, w.escapedPath = rootedPath u ∧ (w.path = "*" → w.escapedPath = "*") := by
  unfold rootedPath
  split_ifs with hempty
  · exact ⟨⟨"/", "", []⟩, by decide, by decide⟩
  · refine ⟨u, rfl, fun hpath => ?_⟩
    rcases hu with hu | hu | hu
    · exact absurd hu hempty
    · exact hu
    · obtain ⟨rest, hrest⟩ := List.isPrefixOf_iff_prefix.mp hu
      have hdecode := URL.unescape_escapedPath u
      rw [← hrest, hpath, show "/".toList ++ rest = '/' :: rest from rfl, URL.unescape_slash] at hdecode
      obtain ⟨l, -, hl⟩ := Option.map_eq_some_iff.mp hdecode
      cases hl

theorem rootedPath_of_doubleSlash (h : URL.doubleSlash u.escapedPath.toList = true) :
    rootedPath u = u.escapedPath := by
  refine if_neg (fun hempty => ?_)
  rw [hempty] at h
  exact absurd h (by decide)

theorem doubleSlash_rootedPath (u : URL) :
    URL.doubleSlash (rootedPath u).toList = URL.doubleSlash u.escapedPath.toList := by
  unfold rootedPath
  split_ifs with hempty
  · rw [hempty]
    decide
  · rfl

theorem parse_pathAndQueryForCache (authority : List Char → Bool) (hu : RequestURL u)
    (hslash : URL.doubleSlash (rootedPath u).toList = false) :
    ∃ v, URL.parse authority (pathAndQueryForCache u) = some v ∧
      pathAndQueryForCache v = pathAndQueryForCache u := by
  obtain ⟨w, hw, hstar⟩ := hu.rooted
  obtain ⟨v, hv, hpath, hquery⟩ :=
    URL.parse_reference_of_not_doubleSlash authority (cacheQuery u) hstar (hw ▸ hslash)
  rw [hw, ← pathAndQueryForCache_eq] at hv
  exact ⟨v, hv, pathAndQueryForCache_of_parsed (hpath.trans hw) hquery⟩

theorem parse_doubleSlash {authority : List Char → Bool}
    (hslash : URL.doubleSlash u.escapedPath.toList = true)
    (hv : URL.parse authority (pathAndQueryForCache u) = some v) :
    pathAndQueryForCache v ≠ pathAndQueryForCache u := by
  have hrooted := rootedPath_of_doubleSlash hslash
  rw [pathAndQueryForCache_eq, hrooted] at hv
  have hpath := URL.path_ne_of_doubleSlash hslash hv
  intro hsame
  obtain ⟨restv, hpqv, hqv, -⟩ := pathAndQueryForCache_toList v
  obtain ⟨restu, hpqu, hqu, -⟩ := pathAndQueryForCache_toList u
  have hlist := congrArg String.toList hsame
  rw [hpqv, hpqu, hrooted] at hlist
  have hquestion : '?' ∉ (rootedPath v).toList := by
    unfold rootedPath
    split_ifs
    · decide
    · exact URL.question_notMem_escapedPath v
  have hescaped := String.toList_injective
    (append_inj_of_notMem hquestion (URL.question_notMem_escapedPath u) hqv hqu hlist).1
  unfold rootedPath at hescaped
  split_ifs at hescaped
  · rw [← hescaped] at hslash
    exact absurd hslash (by decide)
  · exact hpath (URL.path_eq_of_escapedPath hescaped)

end Rebuild

section Codec

variable {F : Type} {qv : QValues F} {authority : List Char → Bool} {cfg : Config} {u v : URL}

structure Config.Standard (cfg : Config) (qv : QValues F) (authority : List Char → Bool) : Prop where
  id : validIdentifier cfg.id = true
  accept : cfg.acceptPrefersSSZ = qv.acceptPrefersSSZ
  url : cfg.parseURL = URL.parse authority

def Config.key (cfg : Config) (u : URL) (accept scope : String) : String :=
  buildCacheKey cfg.id "GET" u (cfg.acceptPrefersSSZ accept) scope

def Config.RoundTrips (cfg : Config) (u : URL) (accept scope : String) : Prop :=
  parseCacheKey (cfg.key u accept scope) =
      some ⟨"GET", pathAndQueryForCache u, rootedPath u, scope, cfg.acceptPrefersSSZ accept⟩ ∧
    ∀ source, pathHasNamedSlotID (rootedPath u) = true → (cfg.policy (rootedPath u)).isSome = true →
      (cfg.prewarm source (cfg.key u accept scope)).map (fun w => w.1.key) = some (cfg.key u accept scope)

/-- No mark stands in the path, a scope that holds the binary mark comes with the flag, and no path
that is pre-warmed starts with exactly two slashes. -/
def Config.Separable (cfg : Config) (u : URL) (accept scope : String) : Prop :=
  unmarked u.escapedPath = true ∧
    (cfg.acceptPrefersSSZ accept = true ∨ contains scope ":accept=binary" = false) ∧
    ¬ (URL.doubleSlash u.escapedPath.toList = true ∧ pathHasNamedSlotID u.escapedPath = true ∧
      (cfg.policy u.escapedPath).isSome = true)

theorem Config.Standard.colon_notMem (h : cfg.Standard qv authority) : ':' ∉ cfg.id.toList :=
  colon_notMem_of_validIdentifier h.id

theorem Config.Standard.acceptPrefersSSZ (h : cfg.Standard qv authority) (flag : Bool) :
    cfg.acceptPrefersSSZ (if flag then "application/octet-stream" else "") = flag := by
  rw [h.accept]
  cases flag with
  | true => exact qv.acceptPrefersSSZ_octetStream
  | false => exact qv.acceptPrefersSSZ_empty

theorem Config.Standard.parse_key_iff (h : cfg.Standard qv authority) (accept scope : String) :
    parseCacheKey (cfg.key u accept scope) =
        some ⟨"GET", pathAndQueryForCache u, rootedPath u, scope, cfg.acceptPrefersSSZ accept⟩ ↔
      unmarked u.escapedPath = true ∧
        (cfg.acceptPrefersSSZ accept = true ∨ contains scope ":accept=binary" = false) := by
  unfold Config.key
  rw [← unmarked_rootedPath]
  cases hmark : unmarked (rootedPath u) with
  | false =>
    refine iff_of_false (fun hparse => ?_) (fun hcond => Bool.false_ne_true hcond.1)
    exact parseCacheKey_marked h.colon_notMem (by decide) hmark hparse rfl
  | true =>
    rw [parseCacheKey_buildCacheKey h.colon_notMem (by decide) hmark, Option.some.injEq,
      ParsedCacheKey.mk.injEq]
    cases cfg.acceptPrefersSSZ accept <;> simp

theorem Config.prewarm_key {accept scope : String} (h : cfg.Standard qv authority)
    (hparse : parseCacheKey (cfg.key u accept scope) =
      some ⟨"GET", pathAndQueryForCache u, rootedPath u, scope, cfg.acceptPrefersSSZ accept⟩)
    (hnamed : pathHasNamedSlotID (rootedPath u) = true) (hpolicy : (cfg.policy (rootedPath u)).isSome = true)
    (source : String) :
    (cfg.prewarm source (cfg.key u accept scope)).map (fun w => w.1.key) =
      (URL.parse authority (pathAndQueryForCache u)).map (fun v => cfg.key v accept scope) := by
  obtain ⟨policy, hp⟩ := Option.isSome_iff_exists.mp hpolicy
  have hguard : ¬ (("GET" : String) ≠ "GET" ∨ (!pathHasNamedSlotID (rootedPath u)) = true) := by
    simp [hnamed]
  unfold Config.prewarm
  rw [hparse]
  simp only [Option.bind_eq_bind, Option.bind_some, if_neg hguard, hp, h.url, h.acceptPrefersSSZ]
  cases URL.parse authority (pathAndQueryForCache u) <;> rfl

theorem Config.pathAndQuery_of_key {accept scope : String}
    (h : cfg.key v accept scope = cfg.key u accept scope) : pathAndQueryForCache v = pathAndQueryForCache u := by
  have hlist := congrArg String.toList h
  simp only [Config.key, buildCacheKey, String.toList_append, List.append_cancel_left_eq,
    List.append_cancel_right_eq] at hlist
  exact String.toList_injective hlist

theorem roundTrips_iff_separable (h : cfg.Standard qv authority) (hu : RequestURL u) (accept scope : String) :
    (cfg.RoundTrips u accept scope ↔ cfg.Separable u accept scope) ∧
      ∀ v accept' scope', cfg.Separable u accept scope → cfg.Separable v accept' scope' →
        cfg.key u accept scope = cfg.key v accept' scope' →
        pathAndQueryForCache u = pathAndQueryForCache v ∧
          cfg.acceptPrefersSSZ accept = cfg.acceptPrefersSSZ accept' ∧ scope = scope' := by
  constructor
  · unfold Config.RoundTrips Config.Separable
    rw [h.parse_key_iff, ← and_assoc]
    refine and_congr_right (fun hparts => ?_)
    have hparse := (h.parse_key_iff accept scope).mpr hparts
    constructor
    · rintro hrebuild ⟨hslash, hnamed, hpolicy⟩
      rw [← rootedPath_of_doubleSlash hslash] at hnamed hpolicy
      have hkey := hrebuild "" hnamed hpolicy
      rw [Config.prewarm_key h hparse hnamed hpolicy] at hkey
      obtain ⟨v, hv, hkey⟩ := Option.map_eq_some_iff.mp hkey
      exact parse_doubleSlash hslash hv (Config.pathAndQuery_of_key hkey)
    · intro hslash source hnamed hpolicy
      have hsingle : URL.doubleSlash (rootedPath u).toList = false := by
        rw [doubleSlash_rootedPath, ← Bool.not_eq_true]
        intro hdouble
        rw [rootedPath_of_doubleSlash hdouble] at hnamed hpolicy
        exact hslash ⟨hdouble, hnamed, hpolicy⟩
      obtain ⟨v, hv, hpq⟩ := parse_pathAndQueryForCache authority hu hsingle
      rw [Config.prewarm_key h hparse hnamed hpolicy, hv, Option.map_some, Config.key, buildCacheKey, hpq]
      rfl
  · intro v accept' scope' hsep hsep' hkey
    have hparse := (h.parse_key_iff (u := u) accept scope).mpr ⟨hsep.1, hsep.2.1⟩
    rw [hkey, (h.parse_key_iff (u := v) accept' scope').mpr ⟨hsep'.1, hsep'.2.1⟩, Option.some.injEq,
      ParsedCacheKey.mk.injEq] at hparse
    exact ⟨hparse.2.1.symm, hparse.2.2.2.2.symm, hparse.2.2.2.1.symm⟩

def QValues.whole : QValues ℕ := ⟨0, 1, fun a b => a < b, fun s => (parseUint64 s).map UInt64.toNat, rfl⟩

def Config.standard : Config where
  __ := Config.caching []
  acceptPrefersSSZ := QValues.whole.acceptPrefersSSZ
  parseURL := URL.parse (fun _ => true)

theorem Config.standard_standard : Config.standard.Standard QValues.whole (fun _ => true) :=
  ⟨by decide, rfl, rfl⟩

theorem roundTrips_binary_head :
    Config.standard.RoundTrips ⟨"/eth/v1/beacon/headers/head", "", []⟩ "application/octet-stream" "client:teku" :=
  (roundTrips_iff_separable Config.standard_standard (Or.inr (Or.inr (by decide +kernel))) _ _).1.mpr
    ⟨by decide +kernel, by decide +kernel, by decide +kernel⟩

theorem accept_mark_collision :
    let marked : URL := ⟨"/eth/v1/beacon/headers/head:accept=binary", "", []⟩
    let plain : URL := ⟨"/eth/v1/beacon/headers/head", "", []⟩
    Config.standard.key marked "" "" =
        Config.standard.key plain "application/octet-stream" "" ∧
      Config.standard.acceptPrefersSSZ "" = false ∧
      Config.standard.acceptPrefersSSZ "application/octet-stream" = true ∧
      pathAndQueryForCache marked ≠ pathAndQueryForCache plain ∧
      ¬ Config.standard.RoundTrips marked "" "" := by
  refine ⟨by decide +kernel, by decide +kernel, by decide +kernel, by decide +kernel, fun h => ?_⟩
  exact absurd h.1 (by decide +kernel)

end Codec

end EBeacon.Network
