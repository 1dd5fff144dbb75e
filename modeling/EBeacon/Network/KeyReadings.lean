import EBeacon.Network.KeyCodec
import EBeacon.Network.PathShapes

namespace EBeacon.Network

open Text Text.Mark State

structure SameClass (x y : String) : Prop where
  named : pathHasNamedSlotID x = pathHasNamedSlotID y
  slot : pathNumericSlot x = pathNumericSlot y
  finalized : ∀ epoch slotsPerEpoch,
    isFinalizedPath x epoch slotsPerEpoch = isFinalizedPath y epoch slotsPerEpoch

def Reading (p q : String) : Prop :=
  q = p ∨ ∃ rest, p = q ++ ":accept=" ++ rest ∨ p = q ++ ":upstream=" ++ rest

def Nameable (q : String) : Prop :=
  ∃ lead w tail : String, lead ≠ "" ∧ All '/' lead.toList ∧ w ≠ "" ∧ q = lead ++ "eth/v" ++ w ++ tail ∧
    Classified ("/eth/v1" ++ tail)

theorem SameClass.classified_iff {x y : String} (h : SameClass x y) : Classified x ↔ Classified y := by
  unfold Classified
  simp only [h.named, h.slot, h.finalized]

theorem SameClass.of_not_classified {x y : String} (hx : ¬ Classified x) (hy : ¬ Classified y) :
    SameClass x y := by
  simp only [Classified, not_or, not_exists, Bool.not_eq_true, Option.isSome_eq_false_iff,
    Option.isNone_iff_eq_none] at hx hy
  exact ⟨hx.1.trans hy.1.symm, hx.2.1.trans hy.2.1.symm, fun e s => (hx.2.2 e s).trans (hy.2.2 e s).symm⟩

section Shapes

variable {q : String}

theorem Nameable.shape (h : Nameable q) : ∃ w, w ≠ [] ∧ Shape w q.toList := by
  obtain ⟨lead, w, tail, hlead, hslashes, hw, rfl, hclass⟩ := h
  have hhead : ("/eth/v1" ++ tail).toList.head? = some '/' := by
    rw [String.toList_append]
    rfl
  obtain ⟨v, hv, -, lead', words, rest, more, hlead', hslashes', hpattern, hrest, hmore, htext⟩ :=
    hclass.shape hhead
  rw [String.toList_append] at htext
  obtain ⟨d, lead', rfl⟩ := List.exists_cons_of_ne_nil hlead'
  cases lead' with
  | cons e lead' =>
    have he : 'e' = e := congrArg (fun l => l.getD 1 ' ') htext
    exact absurd (he.trans (hslashes' e (by simp))) (by decide)
  | nil =>
    obtain ⟨b, v, rfl⟩ := List.exists_cons_of_ne_nil hv
    have htail : '1' :: tail.toList =
        b :: (v ++ separated '/' (words.map String.toList) ++ rest) := by
      simp only [List.append_assoc] at htext ⊢
      exact congrArg (List.drop 6) htext
    refine ⟨w.toList ++ v, ?_, lead.toList, words, rest, more, ?_, hslashes, hpattern, hrest, hmore, ?_⟩
    · intro hnil
      exact hw (String.toList_eq_nil_iff.mp (List.append_eq_nil_iff.mp hnil).1)
    · exact fun hnil => hlead (String.toList_eq_nil_iff.mp hnil)
    · simp only [String.toList_append, (List.cons.inj htail).2, List.append_assoc]

theorem Shape.head {w x : List Char} (h : Shape w x) : x.head? = some '/' := by
  obtain ⟨lead, words, rest, more, hlead, hslashes, -, -, -, rfl⟩ := h
  obtain ⟨d, lead, rfl⟩ := List.exists_cons_of_ne_nil hlead
  rw [hslashes d List.mem_cons_self]
  rfl

theorem nameable_of_shape {w : List Char} (hw : w ≠ []) (h : Shape w q.toList) : Nameable q := by
  obtain ⟨lead, words, rest, more, hlead, hslashes, hpattern, hrest, hmore, htext⟩ := h
  have hempty : ∀ l : List Char, l ≠ [] → String.ofList l ≠ "" := by
    intro l hl heq
    have hlist := congrArg String.toList heq
    rw [String.toList_ofList] at hlist
    exact hl hlist
  refine ⟨String.ofList lead, String.ofList w,
    String.ofList (separated '/' (words.map String.toList) ++ rest), hempty lead hlead, ?_, hempty w hw, ?_, ?_⟩
  · rwa [String.toList_ofList]
  · apply String.toList_injective
    simp only [htext, String.toList_append, String.toList_ofList, List.append_assoc]
  · apply classified_of_shape (w := ['1']) (by decide) (by decide)
    refine ⟨['/'], words, rest, more, by decide, by simp [All], hpattern, hrest, hmore, ?_⟩
    simp only [String.toList_append, String.toList_ofList, List.append_assoc]
    rfl

theorem Shape.unescape {w x y : List Char} (hw : w ≠ []) (h : Shape w x) (hy : Percent.unescape x = some y) :
    ∃ v, v ≠ [] ∧ Shape v y := by
  obtain ⟨lead, words, rest, more, hlead, hslashes, hpattern, hrest, hmore, rfl⟩ := h
  obtain ⟨s, hs⟩ : ∃ s, separated '/' (words.map String.toList) = '/' :: s := by
    obtain ⟨word, words, rfl⟩ := List.exists_cons_of_ne_nil hpattern.plain.1
    exact ⟨_, rfl⟩
  rw [List.append_assoc, List.append_assoc, Percent.unescape_literal (percent_notMem_front hslashes), hs,
    List.cons_append, Percent.unescape_append rfl, ← List.cons_append, ← hs,
    Percent.unescape_literal hpattern.percent_notMem] at hy
  obtain ⟨z, hz, rfl⟩ := Option.map_eq_some_iff.mp hy
  obtain ⟨v, hv, hz⟩ := Option.bind_eq_some_iff.mp hz
  rw [Option.map_map] at hz
  obtain ⟨r, hr, rfl⟩ := Option.map_eq_some_iff.mp hz
  refine ⟨v, ?_, lead, words, r, more, hlead, hslashes, hpattern, ?_, ?_, ?_⟩
  · rintro rfl
    exact Percent.unescape_ne_nil hw hv
  · rcases hrest with rfl | hrest
    · exact Or.inl (Option.some.inj hr).symm
    · obtain ⟨t, rfl⟩ := List.head?_eq_some_iff.mp hrest
      rw [URL.unescape_slash] at hr
      obtain ⟨t', -, rfl⟩ := Option.map_eq_some_iff.mp hr
      exact Or.inr rfl
  · intro hfalse
    have hliteral : '%' ∉ rest := fun hmem => absurd (hmore hfalse '%' hmem) (by decide)
    have hsame := Percent.unescape_literal hliteral []
    rw [List.append_nil, hr] at hsame
    have hrest' : r = rest := by simpa [Percent.unescape] using hsame
    rw [hrest']
    exact hmore hfalse
  · simp only [Function.comp_apply, List.append_assoc]

end Shapes

def Bytes (l : List Char) : Prop := ∀ c ∈ l, c.toNat < 256

section Encodings

def encodedURL (path e : List Char) : URL := ⟨String.ofList path, String.ofList e, []⟩

theorem rootedPath_encodedURL {path e : List Char} (hhead : e.head? = some '/')
    (hvalid : URL.validEncoded e = true) (he : Percent.unescape e = some path) :
    RequestURL (encodedURL path e) ∧ (rootedPath (encodedURL path e)).toList = e := by
  obtain ⟨t, rfl⟩ := List.head?_eq_some_iff.mp hhead
  have hne : String.ofList ('/' :: t) ≠ "" := by
    intro hempty
    have hlist := congrArg String.toList hempty
    rw [String.toList_ofList] at hlist
    cases hlist
  have hescaped : (encodedURL path ('/' :: t)).escapedPath = String.ofList ('/' :: t) := by
    unfold URL.escapedPath encodedURL
    rw [if_pos]
    exact ⟨hne, by rwa [String.toList_ofList], by rwa [String.toList_ofList, String.toList_ofList]⟩
  have hlist : (String.ofList ('/' :: t)).toList = '/' :: t := String.toList_ofList
  constructor
  · refine Or.inr (Or.inr ?_)
    rw [hescaped, hasPrefix, hlist]
    rfl
  · rw [rootedPath, hescaped, if_neg hne, String.toList_ofList]

def encodedByte (c : Char) : Bool := c = '/' || c = '%' || wordByte c

theorem encodedByte_hex {c : Char} (h : c = '%' ∨ c ∈ Percent.hexDigits) : encodedByte c = true := by
  rcases h with rfl | h
  · decide
  · exact List.all_eq_true.mp (by decide : Percent.hexDigits.all encodedByte = true) c h

theorem validEncoded_of_encodedByte {l : List Char} (h : ∀ c ∈ l, encodedByte c = true) :
    URL.validEncoded l = true ∧ ':' ∉ l := by
  constructor
  · rw [URL.validEncoded, List.all_eq_true]
    intro c hc
    have hbyte := h c hc
    simp only [encodedByte, wordByte, Bool.or_eq_true, decide_eq_true_eq] at hbyte
    rcases hbyte with (rfl | rfl) | halnum | rfl
    · decide
    · decide
    · simp [URL.pathByte, URL.unreserved, halnum]
    · decide
  · exact fun hmem => absurd (h ':' hmem) (by decide)

theorem exists_classified_encoding {w q : List Char} (hw : w ≠ []) (h : Shape w q) (hbytes : Bytes q) :
    ∃ e v, v ≠ [] ∧ '/' ∉ v ∧ Shape v e ∧ (∀ c ∈ e, encodedByte c = true) ∧
      ∀ t, Percent.unescape (e ++ t) = (Percent.unescape t).map (q ++ ·) := by
  obtain ⟨lead, words, rest, more, hlead, hslashes, hpattern, hrest, hmore, rfl⟩ := h
  have hbytesw : Bytes w := fun c hc => hbytes c (by simp [hc])
  have hbytesr : Bytes rest := fun c hc => hbytes c (by simp [hc])
  refine ⟨lead ++ "eth/v".toList ++ Percent.escape (fun _ => false) w ++
    separated '/' (words.map String.toList) ++ Percent.escape (· = '/') rest,
    Percent.escape (fun _ => false) w, ?_, ?_, ?_, ?_, ?_⟩
  · intro hnil
    have hback : Percent.unescape (Percent.escape (fun _ => false) w) = some w := Percent.unescape_escape rfl w
    rw [hnil] at hback
    exact hw (Option.some.inj hback).symm
  · intro hmem
    have hbyte := Percent.mem_escape_of_bytes hbytesw hmem
    revert hbyte
    decide
  · refine ⟨lead, words, _, more, hlead, hslashes, hpattern, ?_, ?_, rfl⟩
    · rcases hrest with rfl | hrest
      · exact Or.inl rfl
      · obtain ⟨t, rfl⟩ := List.head?_eq_some_iff.mp hrest
        exact Or.inr rfl
    · intro hfalse
      rw [Percent.escape_of_keep (fun c hc => decide_eq_true (hmore hfalse c hc))]
      exact hmore hfalse
  · intro c hc
    simp only [List.mem_append] at hc
    rcases hc with (((hc | hc) | hc) | hc) | hc
    · rw [hslashes c hc]
      decide
    · exact List.all_eq_true.mp (by decide : "eth/v".toList.all encodedByte = true) c hc
    · rcases Percent.mem_escape_of_bytes hbytesw hc with hkeep | hhex
      · cases hkeep
      · exact encodedByte_hex hhex
    · rcases hpattern.mem_separated hc with rfl | hword
      · decide
      · simp [encodedByte, hword]
    · rcases Percent.mem_escape_of_bytes hbytesr hc with hkeep | hhex
      · rw [of_decide_eq_true hkeep]
        decide
      · exact encodedByte_hex hhex
  · intro t
    rw [List.append_assoc, List.append_assoc, List.append_assoc,
      Percent.unescape_literal (percent_notMem_front hslashes), Percent.unescape_escape_append rfl,
      Percent.unescape_literal hpattern.percent_notMem, Percent.unescape_escape_append rfl]
    simp only [Option.map_map, Function.comp_def, List.append_assoc]

theorem exists_classified_request {w q t s : List Char} (hw : w ≠ []) (hq : Shape w q) (hbytes : Bytes q)
    (hs : Percent.unescape s = some t) (hvalid : URL.validEncoded s = true) (hboundary : Boundary ':' s)
    (hbefore : before keyMarks s = []) :
    ∃ u : URL, RequestURL u ∧ u.path = String.ofList (q ++ t) ∧
      Classified (String.ofList (before keyMarks (rootedPath u).toList)) := by
  obtain ⟨e, v, hv, hslash, hshape, hencoded, hdecode⟩ := exists_classified_encoding hw hq hbytes
  obtain ⟨hevalid, hcolon⟩ := validEncoded_of_encodedByte hencoded
  obtain ⟨f, rfl⟩ := List.head?_eq_some_iff.mp hshape.head
  have hvalid' : URL.validEncoded ('/' :: f ++ s) = true := by
    unfold URL.validEncoded at hevalid hvalid ⊢
    rw [List.all_append, hevalid, hvalid]
    rfl
  have hdecode' : Percent.unescape ('/' :: f ++ s) = some (q ++ t) := by
    rw [hdecode, hs]
    rfl
  obtain ⟨hrequest, hrooted⟩ := rootedPath_encodedURL rfl hvalid' hdecode'
  refine ⟨_, hrequest, rfl, ?_⟩
  rw [hrooted, before_append_of_eq (fun m _ => m.notMem) hboundary (before_of_notMem keyMarks hcolon),
    hbefore, List.append_nil]
  apply classified_of_shape hv hslash
  rwa [String.toList_ofList]

theorem exists_unclassified_request {r : List Char} (hbytes : Bytes r) :
    ∃ u : URL, RequestURL u ∧ u.path = String.ofList ('/' :: r) ∧
      ¬ Classified (String.ofList (before keyMarks (rootedPath u).toList)) := by
  have hmem : ∀ c ∈ '/' :: Percent.escape (fun _ => false) r, c = '/' ∨ c = '%' ∨ c ∈ Percent.hexDigits := by
    intro c hc
    rcases List.mem_cons.mp hc with rfl | hc
    · exact Or.inl rfl
    · exact Or.inr ((Percent.mem_escape_of_bytes hbytes hc).resolve_left nofun)
  have hencoded : ∀ c ∈ '/' :: Percent.escape (fun _ => false) r, encodedByte c = true := by
    intro c hc
    rcases hmem c hc with rfl | hhex
    · decide
    · exact encodedByte_hex hhex
  obtain ⟨hvalid, hcolon⟩ := validEncoded_of_encodedByte hencoded
  have hdecode : Percent.unescape ('/' :: Percent.escape (fun _ => false) r) = some ('/' :: r) := by
    rw [URL.unescape_slash, Percent.unescape_escape rfl]
    rfl
  obtain ⟨hrequest, hrooted⟩ := rootedPath_encodedURL rfl hvalid hdecode
  refine ⟨_, hrequest, rfl, fun hclass => ?_⟩
  rw [hrooted, before_of_notMem keyMarks hcolon] at hclass
  obtain ⟨w, -, -, lead, words, rest, more, -, -, -, -, -, htext⟩ :=
    hclass.shape (by rw [String.toList_ofList]; rfl)
  rw [String.toList_ofList] at htext
  have ht : 't' ∈ '/' :: Percent.escape (fun _ => false) r := by
    rw [htext]
    simp
  have hbyte := hmem 't' ht
  revert hbyte
  decide

end Encodings

section Keys

variable {p : String}

theorem not_classified_of_segment {x s : String} (h : pathSegments x = [s]) : ¬ Classified x := by
  intro hclass
  obtain ⟨v, words, extra, more, hsegs, -⟩ := hclass.reads
  rw [h] at hsegs
  cases (List.cons.inj hsegs).2

theorem nameable_of_classified {u : URL} (hhead : u.escapedPath.toList.head? = some '/')
    (h : Classified (String.ofList (before keyMarks u.escapedPath.toList))) :
    ∃ q, Reading u.path q ∧ Nameable q := by
  have hbefore : (before keyMarks u.escapedPath.toList).head? = some '/' := by
    obtain ⟨t, ht⟩ := List.head?_eq_some_iff.mp hhead
    rw [ht]
    rfl
  obtain ⟨w, hw, -, hshape⟩ := h.shape (by rwa [String.toList_ofList])
  rw [String.toList_ofList] at hshape
  have hdecode := URL.unescape_escapedPath u
  rcases before_eq_or_mark keyMarks u.escapedPath.toList with hall | ⟨m, hm, rest, hrest⟩
  · rw [hall] at hshape
    obtain ⟨v, hv, hshape⟩ := hshape.unescape hw hdecode
    exact ⟨u.path, Or.inl rfl, nameable_of_shape hv hshape⟩
  · have hliteral : '%' ∉ m.word := (by decide : ∀ m ∈ keyMarks, '%' ∉ m.word) m hm
    rw [hrest, List.append_assoc, show m.word ++ rest = ':' :: (m.tail ++ rest) from rfl,
      Percent.unescape_append rfl, show ':' :: (m.tail ++ rest) = m.word ++ rest from rfl,
      Percent.unescape_literal hliteral] at hdecode
    obtain ⟨q, hq, hdecode⟩ := Option.bind_eq_some_iff.mp hdecode
    rw [Option.map_map] at hdecode
    obtain ⟨r, -, hpath⟩ := Option.map_eq_some_iff.mp hdecode
    obtain ⟨v, hv, hshape⟩ := hshape.unescape hw hq
    refine ⟨String.ofList q, Or.inr ⟨String.ofList r, ?_⟩, nameable_of_shape hv (by rwa [String.toList_ofList])⟩
    have hpath' : ∀ mark : String, mark.toList = m.word → u.path = String.ofList q ++ mark ++ String.ofList r := by
      intro mark hmark
      apply String.toList_injective
      rw [← hpath, String.toList_append, String.toList_append, hmark]
      simp
    simp only [keyMarks, List.mem_cons, List.not_mem_nil, or_false] at hm
    rcases hm with rfl | rfl
    · exact Or.inl (hpath' _ rfl)
    · exact Or.inr (hpath' _ rfl)

theorem exists_marked_request {w q : List Char} {m : Mark ':'} (hm : m ∈ keyMarks) (hw : w ≠ [])
    (hq : Shape w q) (hbytes : Bytes q) (rest : List Char) (hrest : Bytes rest) :
    ∃ u : URL, RequestURL u ∧ u.path = String.ofList (q ++ (m.word ++ rest)) ∧
      Classified (String.ofList (before keyMarks (rootedPath u).toList)) := by
  have hliteral : '%' ∉ m.word := (by decide : ∀ m ∈ keyMarks, '%' ∉ m.word) m hm
  have hmark : URL.validEncoded m.word = true :=
    (by decide : ∀ m ∈ keyMarks, URL.validEncoded m.word = true) m hm
  have hhex : ∀ c ∈ Percent.escape (fun _ => false) rest, encodedByte c = true :=
    fun c hc => encodedByte_hex ((Percent.mem_escape_of_bytes hrest hc).resolve_left nofun)
  apply exists_classified_request (s := m.word ++ Percent.escape (fun _ => false) rest) hw hq hbytes
  · rw [Percent.unescape_literal hliteral, Percent.unescape_escape rfl]
    rfl
  · have hvalid := (validEncoded_of_encodedByte hhex).1
    unfold URL.validEncoded at hmark hvalid ⊢
    rw [List.all_append, hmark, hvalid]
    rfl
  · exact Or.inr rfl
  · exact before_word_append hm _

theorem Reading.head {q : String} (h : Reading p q) (hq : q.toList.head? = some '/') :
    p.toList.head? = some '/' := by
  obtain ⟨t, ht⟩ := List.head?_eq_some_iff.mp hq
  rcases h with rfl | ⟨rest, rfl | rfl⟩
  · exact hq
  · rw [String.toList_append, String.toList_append, ht]
    rfl
  · rw [String.toList_append, String.toList_append, ht]
    rfl

theorem exists_misread_request {q : String} (hbytes : Bytes p.toList) (hq : Reading p q) (hname : Nameable q) :
    ∃ u : URL, RequestURL u ∧ u.path = p ∧
      ¬ SameClass (String.ofList (before keyMarks (rootedPath u).toList)) p := by
  obtain ⟨w, hw, hshape⟩ := hname.shape
  by_cases hp : Classified p
  · -- Encoding every byte hides what the path is.
    obtain ⟨r, hr⟩ := List.head?_eq_some_iff.mp (hq.head hshape.head)
    obtain ⟨u, hrequest, hpath, hclass⟩ :=
      exists_unclassified_request (r := r) (fun c hc => hbytes c (by rw [hr]; exact List.mem_cons_of_mem _ hc))
    rw [← hr, String.ofList_toList] at hpath
    exact ⟨u, hrequest, hpath, fun hsame => hclass (hsame.classified_iff.mpr hp)⟩
  · suffices h : ∃ u : URL, RequestURL u ∧ u.path = p ∧
        Classified (String.ofList (before keyMarks (rootedPath u).toList)) by
      obtain ⟨u, hrequest, hpath, hclass⟩ := h
      exact ⟨u, hrequest, hpath, fun hsame => hp (hsame.classified_iff.mp hclass)⟩
    have hmarked : ∀ (mark rest : String) (m : Mark ':'), m ∈ keyMarks → mark.toList = m.word →
        p = q ++ mark ++ rest → ∃ u : URL, RequestURL u ∧ u.path = p ∧
          Classified (String.ofList (before keyMarks (rootedPath u).toList)) := by
      rintro mark rest m hm hmark rfl
      have hlist : (q ++ mark ++ rest).toList = q.toList ++ (m.word ++ rest.toList) := by
        rw [String.toList_append, String.toList_append, hmark, List.append_assoc]
      rw [hlist] at hbytes
      obtain ⟨u, hrequest, hpath, hclass⟩ := exists_marked_request hm hw hshape
        (fun c hc => hbytes c (by simp [hc])) rest.toList (fun c hc => hbytes c (by simp [hc]))
      rw [← hlist, String.ofList_toList] at hpath
      exact ⟨u, hrequest, hpath, hclass⟩
    rcases hq with rfl | ⟨rest, hrest | hrest⟩
    · obtain ⟨u, hrequest, hpath, hclass⟩ := exists_classified_request (t := []) (s := []) hw hshape hbytes rfl rfl
        (Or.inl rfl) rfl
      rw [List.append_nil, String.ofList_toList] at hpath
      exact ⟨u, hrequest, hpath, hclass⟩
    · exact hmarked _ _ acceptMark (by simp [keyMarks]) rfl hrest
    · exact hmarked _ _ upstreamMark (by simp [keyMarks]) rfl hrest

theorem sameClass_rootedPath {u : URL} (h : u.escapedPath = p) : SameClass (rootedPath u) p := by
  unfold rootedPath
  split_ifs with hempty
  · rw [← h, hempty]
    exact .of_not_classified (not_classified_of_segment (s := "") (by decide))
      (not_classified_of_segment (s := "") (by decide))
  · rw [h]
    exact ⟨rfl, rfl, fun _ _ => rfl⟩

theorem not_classified_of_readings {u : URL} (hrequest : RequestURL u) (h : ∀ q, Reading u.path q → ¬ Nameable q) :
    ¬ Classified (String.ofList (before keyMarks (rootedPath u).toList)) ∧ ¬ Classified u.path := by
  have hdecode := URL.unescape_escapedPath u
  have hpath : ∀ s : String, Percent.unescape u.escapedPath.toList = some s.toList → u.path = s := by
    intro s hs
    rw [hs, Option.some.injEq] at hdecode
    exact (String.toList_injective hdecode).symm
  rcases hrequest with hempty | hstar | hslash
  · rw [rootedPath, if_pos hempty, hpath "" (by rw [hempty]; rfl)]
    exact ⟨not_classified_of_segment (s := "") (by decide), not_classified_of_segment (s := "") (by decide)⟩
  · rw [rootedPath, hstar, if_neg (by decide), hpath "*" (by rw [hstar]; rfl)]
    exact ⟨not_classified_of_segment (s := "*") (by decide), not_classified_of_segment (s := "*") (by decide)⟩
  · obtain ⟨t, ht⟩ := List.isPrefixOf_iff_prefix.mp hslash
    have hhead : u.escapedPath.toList.head? = some '/' := by
      rw [← ht]
      rfl
    have hne : u.escapedPath ≠ "" := by
      intro hempty
      rw [hempty] at hhead
      cases hhead
    rw [rootedPath, if_neg hne]
    constructor
    · intro hclass
      obtain ⟨q, hq, hname⟩ := nameable_of_classified hhead hclass
      exact h q hq hname
    · intro hclass
      have hpathHead : u.path.toList.head? = some '/' := by
        rw [← ht, show "/".toList ++ t = '/' :: t from rfl, URL.unescape_slash] at hdecode
        obtain ⟨r, -, hr⟩ := Option.map_eq_some_iff.mp hdecode
        rw [← hr]
        rfl
      obtain ⟨w, hw, -, hshape⟩ := hclass.shape hpathHead
      exact h u.path (Or.inl rfl) (nameable_of_shape hw hshape)

/-- The key of every encoding of a path is classified as the path unless the path, or a part of it
before a mark, is nameable. A path that is sent as it is and holds no mark is always read back. -/
theorem sameClass_iff (hbytes : Bytes p.toList) :
    ((∀ u id binary scope, RequestURL u → u.path = p → validIdentifier id = true →
        SameClass (cacheKeyPath (buildCacheKey id "GET" u binary scope)) p) ↔
      ∀ q, Reading p q → ¬ Nameable q) ∧
    ∀ u id binary scope, u.path = p → u.escapedPath = p → unmarked p = true → validIdentifier id = true →
      SameClass (cacheKeyPath (buildCacheKey id "GET" u binary scope)) p ∧
      isNamedHeadCacheKey (buildCacheKey id "GET" u binary scope) = pathHasNamedSlotID p ∧
      ∀ slot, reorgPurges slot (buildCacheKey id "GET" u binary scope) =
        (pathHasNamedSlotID p || (pathNumericSlot p).any (slot ≤ ·)) := by
  have hread : ∀ {u id binary scope}, validIdentifier id = true →
      cacheKeyPath (buildCacheKey id "GET" u binary scope) =
        String.ofList (before keyMarks (rootedPath u).toList) :=
    fun hid => cacheKeyPath_buildCacheKey (colon_notMem_of_validIdentifier hid) (by decide) _ _ _
  refine ⟨⟨?_, ?_⟩, ?_⟩
  · intro h q hq hname
    obtain ⟨u, hrequest, hpath, hmisread⟩ := exists_misread_request hbytes hq hname
    have hsame := h u "mainnet" false "" hrequest hpath (by decide)
    rw [hread (by decide)] at hsame
    exact hmisread hsame
  · intro h u id binary scope hrequest hpath hid
    subst hpath
    rw [hread hid]
    obtain ⟨hkey, hpath⟩ := not_classified_of_readings hrequest h
    exact .of_not_classified hkey hpath
  · intro u id binary scope _ hescaped hmark hid
    have hself : cacheKeyPath (buildCacheKey id "GET" u binary scope) = rootedPath u := by
      rw [hread hid, (before_eq_self_iff_unmarked _).mpr, String.ofList_toList]
      rwa [unmarked_rootedPath, hescaped]
    have hsame := sameClass_rootedPath hescaped
    unfold isNamedHeadCacheKey reorgPurges
    dsimp only
    rw [hself, hsame.named, hsame.slot]
    refine ⟨hsame, rfl, fun slot => ?_⟩
    rw [decide_eq_true (rooted_ne_empty u), Bool.true_and]

theorem sameClass_head :
    let u : URL := ⟨"/eth/v1/beacon/headers/head", "", []⟩
    isNamedHeadCacheKey (buildCacheKey "mainnet" "GET" u false "") = true := by
  intro u
  have hbytes : Bytes u.path.toList := forall_mem_of_all (by decide)
  have hsame := (sameClass_iff hbytes).2 u "mainnet" false "" rfl (by decide) (by decide) (by decide)
  exact hsame.2.1.trans (by decide)

theorem encoded_head_misread :
    let u : URL := ⟨"/eth/v1/beacon/headers/head", "/eth/v1/beacon/headers/h%65ad", []⟩
    RequestURL u ∧ pathHasNamedSlotID u.path = true ∧
      isNamedHeadCacheKey (buildCacheKey "mainnet" "GET" u false "") = false := by
  refine ⟨Or.inr (Or.inr (by decide)), by decide, ?_⟩
  rw [isNamedHeadCacheKey, cacheKeyPath_buildCacheKey (by decide) (by decide)]
  decide

end Keys

end EBeacon.Network
