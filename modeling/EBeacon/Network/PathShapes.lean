import EBeacon.Library.Segments
import EBeacon.Library.URL
import EBeacon.Network.Paths

namespace EBeacon.Network

open Text

def slotKinds : List String :=
  ["headers", "blocks", "blinded_blocks", "blobs", "blob_sidecars", "states", "execution_payload_envelopes"]

inductive Pattern : List String → Bool → Prop
  | bareHeaders : Pattern ["beacon", "headers"] false
  | named {kind id : String} (hkind : kind ∈ slotKinds) (hid : id ∈ namedSlotIDs) :
      Pattern ["beacon", kind, id] true
  | slot {kind s : String} {n : UInt64} (hkind : kind ∈ slotKinds) (hs : parseSlot s = some n) :
      Pattern ["beacon", kind, s] true
  | rewards {kind s : String} {n : UInt64} (hkind : kind ∈ ["blocks", "sync_committee"])
      (hs : parseSlot s = some n) : Pattern ["beacon", "rewards", kind, s] true
  | attestations {s : String} {n : UInt64} (hs : parseUint64 s = some n) (hn : n ≤ 18446744073709551613) :
      Pattern ["beacon", "rewards", "attestations", s] false
  | proposer {s : String} {n : UInt64} (hs : parseUint64 s = some n) (hn : n ≤ 18446744073709551613) :
      Pattern ["validator", "duties", "proposer", s] false

def Classified (path : String) : Prop :=
  pathHasNamedSlotID path = true ∨ (pathNumericSlot path).isSome = true ∨
    ∃ epoch slotsPerEpoch, isFinalizedPath path epoch slotsPerEpoch = true

def Reads (segs : List String) : Prop :=
  ∃ v words extra more, segs = "eth" :: v :: (words ++ extra) ∧ isVersion v = true ∧ Pattern words more ∧
    (more = false → extra = [])

section Bounds

theorem sub_two_le {epoch : UInt64} (h : 2 ≤ epoch) : epoch - 2 ≤ 18446744073709551613 := by
  have hlt := epoch.toNat_lt
  rw [UInt64.le_iff_toNat_le, UInt64.toNat_sub_of_le _ _ h]
  change epoch.toNat - 2 ≤ 18446744073709551613
  omega

theorem add_two_bounds {n : UInt64} (h : n ≤ 18446744073709551613) :
    n + 2 ≠ 0 ∧ 2 ≤ n + 2 ∧ n ≤ n + 2 - 2 := by
  have hn : n.toNat ≤ 18446744073709551613 := UInt64.le_iff_toNat_le.mp h
  have hadd : (n + 2).toNat = n.toNat + 2 := by
    rw [UInt64.toNat_add]
    change (n.toNat + 2) % 2 ^ 64 = _
    omega
  refine ⟨?_, ?_, ?_⟩
  · intro hzero
    rw [hzero] at hadd
    change 0 = n.toNat + 2 at hadd
    omega
  · rw [UInt64.le_iff_toNat_le, hadd]
    exact Nat.le_add_left 2 n.toNat
  · rw [UInt64.add_sub_cancel]

end Bounds

section Reading

variable {path : String}

theorem guard_iff {eth v seg : String} :
    ¬ (eth ≠ "eth" ∨ (!isVersion v) = true ∨ seg ≠ "beacon") ↔
      eth = "eth" ∧ isVersion v = true ∧ seg = "beacon" := by
  simp only [not_or, not_not, Bool.not_eq_true', Bool.not_eq_false]

theorem pathNumericSlot_segments {n : UInt64} (h : pathNumericSlot path = some n) :
    ∃ v front seg extra, pathSegments path = "eth" :: v :: (front ++ seg :: extra) ∧ isVersion v = true ∧
      parseSlot seg = some n ∧ ((∃ name ∈ slotKinds, front = ["beacon", name]) ∨
        ∃ name ∈ ["blocks", "sync_committee"], front = ["beacon", "rewards", name]) := by
  unfold pathNumericSlot at h
  split at h
  · rename_i eth v beacon name seg rest hsegs
    split_ifs at h with hguard hname hrewards
    · obtain ⟨rfl, hv, rfl⟩ := guard_iff.mp hguard
      exact ⟨v, ["beacon", name], seg, rest, hsegs, hv, h, Or.inl ⟨name, hname, rfl⟩⟩
    · obtain ⟨rfl, hv, rfl⟩ := guard_iff.mp hguard
      obtain ⟨rfl, hseg⟩ := hrewards
      cases rest with
      | nil => cases h
      | cons s rest => exact ⟨v, ["beacon", "rewards", seg], s, rest, hsegs, hv, h, Or.inr ⟨seg, hseg, rfl⟩⟩
  · cases h

theorem pathNumericEpoch_segments {e : UInt64} (h : pathNumericEpoch path = some e) :
    ∃ v front seg, pathSegments path = "eth" :: v :: (front ++ [seg]) ∧ isVersion v = true ∧
      parseUint64 seg = some e ∧
      (front = ["beacon", "rewards", "attestations"] ∨ front = ["validator", "duties", "proposer"]) := by
  unfold pathNumericEpoch at h
  split at h
  · rename_i eth v seg2 seg3 seg4 seg5 hsegs
    split_ifs at h with hguard hkind
    simp only [not_or, not_not, Bool.not_eq_true', Bool.not_eq_false] at hguard
    obtain ⟨rfl, hv⟩ := hguard
    rcases hkind with ⟨rfl, rfl, rfl⟩ | ⟨rfl, rfl, rfl⟩
    · exact ⟨v, _, seg5, hsegs, hv, h, Or.inl rfl⟩
    · exact ⟨v, _, seg5, hsegs, hv, h, Or.inr rfl⟩
  · cases h

theorem pathHasNamedSlotID_iff : pathHasNamedSlotID path = true ↔
    (∃ v, isVersion v = true ∧ pathSegments path = ["eth", v, "beacon", "headers"]) ∨
      ∃ v name id extra, isVersion v = true ∧ name ∈ slotKinds ∧ id ∈ namedSlotIDs ∧
        pathSegments path = "eth" :: v :: "beacon" :: name :: id :: extra := by
  constructor
  · intro h
    unfold pathHasNamedSlotID at h
    split at h
    · rename_i eth v beacon name rest hsegs
      split_ifs at h with hguard hheaders hname
      · obtain ⟨rfl, hv, rfl⟩ := guard_iff.mp hguard
        subst hheaders
        cases rest with
        | nil => exact Or.inl ⟨v, hv, hsegs⟩
        | cons id rest =>
          exact Or.inr ⟨v, "headers", id, rest, hv, by decide, of_decide_eq_true h, hsegs⟩
      · obtain ⟨rfl, hv, rfl⟩ := guard_iff.mp hguard
        cases rest with
        | nil => cases h
        | cons id rest =>
          exact Or.inr ⟨v, name, id, rest, hv, List.mem_cons_of_mem _ hname, of_decide_eq_true h, hsegs⟩
    · cases h
  · rintro (⟨v, hv, hsegs⟩ | ⟨v, name, id, extra, hv, hname, hid, hsegs⟩)
    · rw [pathHasNamedSlotID, hsegs]
      simp [hv]
    · rw [pathHasNamedSlotID, hsegs]
      dsimp only
      rw [if_neg (guard_iff.mpr ⟨rfl, hv, rfl⟩)]
      split_ifs with hheaders hlisted
      · simpa using hid
      · simpa using hid
      · exact absurd ((List.mem_cons.mp hname).resolve_left hheaders) hlisted

theorem reads_of_named (h : pathHasNamedSlotID path = true) : Reads (pathSegments path) := by
  rcases pathHasNamedSlotID_iff.mp h with ⟨v, hv, hsegs⟩ | ⟨v, name, id, extra, hv, hname, hid, hsegs⟩
  · exact ⟨v, ["beacon", "headers"], [], false, hsegs, hv, .bareHeaders, fun _ => rfl⟩
  · exact ⟨v, ["beacon", name, id], extra, true, hsegs, hv, .named hname hid, nofun⟩

theorem reads_of_slot {n : UInt64} (h : pathNumericSlot path = some n) : Reads (pathSegments path) := by
  obtain ⟨v, front, seg, extra, hsegs, hv, hseg, hfront⟩ := pathNumericSlot_segments h
  rcases hfront with ⟨name, hname, rfl⟩ | ⟨name, hname, rfl⟩
  · exact ⟨v, ["beacon", name, seg], extra, true, hsegs, hv, .slot hname hseg, nofun⟩
  · exact ⟨v, ["beacon", "rewards", name, seg], extra, true, hsegs, hv, .rewards hname hseg, nofun⟩

theorem reads_of_epoch {n : UInt64} (h : pathNumericEpoch path = some n) (hn : n ≤ 18446744073709551613) :
    Reads (pathSegments path) := by
  obtain ⟨v, front, seg, hsegs, hv, hseg, rfl | rfl⟩ := pathNumericEpoch_segments h
  · exact ⟨v, _, [], false, hsegs, hv, .attestations hseg hn, fun _ => rfl⟩
  · exact ⟨v, _, [], false, hsegs, hv, .proposer hseg hn, fun _ => rfl⟩

theorem Classified.reads (h : Classified path) : Reads (pathSegments path) := by
  rcases h with h | h | ⟨epoch, slotsPerEpoch, h⟩
  · exact reads_of_named h
  · obtain ⟨n, hn⟩ := Option.isSome_iff_exists.mp h
    exact reads_of_slot hn
  · cases hslot : pathNumericSlot path with
    | some n => exact reads_of_slot hslot
    | none =>
      by_cases hzero : epoch = 0
      · rw [isFinalizedPath, if_pos hzero] at h
        cases h
      · rw [isFinalizedPath, if_neg hzero, hslot] at h
        obtain ⟨n, hn, h⟩ := (Option.any_eq_true _ _).mp h
        simp only [Bool.and_eq_true, decide_eq_true_eq] at h
        exact reads_of_epoch hn (h.2.trans (sub_two_le h.1))

theorem classified_of_epoch {n : UInt64} (h : pathNumericEpoch path = some n) (hn : n ≤ 18446744073709551613)
    (hslot : pathNumericSlot path = none) : Classified path := by
  obtain ⟨hne, htwo, hle⟩ := add_two_bounds hn
  refine Or.inr (Or.inr ⟨n + 2, 0, ?_⟩)
  rw [isFinalizedPath, if_neg hne, hslot, h]
  simp only [Option.any_some, Bool.and_eq_true, decide_eq_true_eq]
  exact ⟨htwo, hle⟩

theorem classified_of_reads (h : Reads (pathSegments path)) : Classified path := by
  obtain ⟨v, words, extra, more, hsegs, hv, hpattern, hextra⟩ := h
  cases hpattern with
  | bareHeaders =>
    rw [hextra rfl] at hsegs
    exact Or.inl (pathHasNamedSlotID_iff.mpr (Or.inl ⟨v, hv, hsegs⟩))
  | @named kind id hkind hid =>
    exact Or.inl (pathHasNamedSlotID_iff.mpr (Or.inr ⟨v, kind, id, extra, hv, hkind, hid, hsegs⟩))
  | @slot kind s n hkind hs =>
    refine Or.inr (Or.inl ?_)
    unfold slotKinds at hkind
    rw [pathNumericSlot, hsegs]
    simp only [List.cons_append, List.nil_append]
    rw [if_neg (guard_iff.mpr ⟨rfl, hv, rfl⟩), if_pos hkind, hs]
    rfl
  | @rewards kind s n hkind hs =>
    refine Or.inr (Or.inl ?_)
    rw [pathNumericSlot, hsegs]
    simp only [List.cons_append, List.nil_append]
    rw [if_neg (guard_iff.mpr ⟨rfl, hv, rfl⟩), if_neg (by decide), if_pos ⟨trivial, hkind⟩]
    exact Option.isSome_iff_exists.mpr ⟨n, hs⟩
  | @attestations s n hs hn =>
    rw [hextra rfl] at hsegs
    apply classified_of_epoch _ hn
    · rw [pathNumericSlot, hsegs]
      simp [hv]
    · rw [pathNumericEpoch, hsegs]
      simp [hv, hs]
  | @proposer s n hs hn =>
    rw [hextra rfl] at hsegs
    apply classified_of_epoch _ hn
    · rw [pathNumericSlot, hsegs]
      simp
    · rw [pathNumericEpoch, hsegs]
      simp [hv, hs]

end Reading

def wordByte (c : Char) : Bool := URL.isAlnum c || c = '_'

section Shapes

theorem wordByte_of_isDigit {c : Char} (h : isDigit c = true) : wordByte c = true := by
  simp only [isDigit] at h
  simp only [wordByte, URL.isAlnum, h, Bool.or_true, Bool.true_or]

def PlainWord (s : String) : Prop := s ≠ "" ∧ ∀ c ∈ s.toList, wordByte c = true

instance (s : String) : Decidable (PlainWord s) :=
  decidable_of_iff (s ≠ "" ∧ s.toList.all wordByte = true) (and_congr_right fun _ => List.all_eq_true)

theorem plainWord_of_parseUint64 {s : String} {n : UInt64} (h : parseUint64 s = some n) : PlainWord s := by
  unfold parseUint64 at h
  dsimp only at h
  split_ifs at h with hdigits
  refine ⟨fun hempty => hdigits.1 (by rw [hempty]; rfl), fun c hc => ?_⟩
  exact wordByte_of_isDigit (List.all_eq_true.mp hdigits.2.1 c hc)

theorem plainWord_of_parseSlot {s : String} {n : UInt64} (h : parseSlot s = some n) : PlainWord s := by
  unfold parseSlot at h
  split_ifs at h
  exact plainWord_of_parseUint64 (Option.filter_eq_some_iff.mp h).1

theorem Pattern.plain {words : List String} {more : Bool} (h : Pattern words more) :
    words ≠ [] ∧ ∀ w ∈ words, PlainWord w := by
  have hkinds : ∀ w ∈ slotKinds, PlainWord w := by decide
  have hids : ∀ w ∈ namedSlotIDs, PlainWord w := by decide
  have hrewards : ∀ w ∈ ["blocks", "sync_committee"], PlainWord w := by decide
  have hwords : ∀ w ∈ ["beacon", "headers", "rewards", "attestations", "validator", "duties", "proposer"],
      PlainWord w := by decide
  refine ⟨by cases h <;> exact List.cons_ne_nil _ _, ?_⟩
  cases h with
  | bareHeaders => simp [hwords]
  | named hkind hid => simp [hwords, hkinds _ hkind, hids _ hid]
  | slot hkind hs => simp [hwords, hkinds _ hkind, plainWord_of_parseSlot hs]
  | rewards hkind hs => simp [hwords, hrewards _ hkind, plainWord_of_parseSlot hs]
  | attestations hs => simp [hwords, plainWord_of_parseUint64 hs]
  | proposer hs => simp [hwords, plainWord_of_parseUint64 hs]

theorem Pattern.mem_separated {words : List String} {more : Bool} (h : Pattern words more) {c : Char}
    (hc : c ∈ separated '/' (words.map String.toList)) : c = '/' ∨ wordByte c = true := by
  obtain ⟨w, hw, hc⟩ := List.mem_flatMap.mp hc
  obtain ⟨s, hs, rfl⟩ := List.mem_map.mp hw
  rcases List.mem_cons.mp hc with rfl | hc
  · exact Or.inl rfl
  · exact Or.inr ((h.plain.2 s hs).2 c hc)

theorem Pattern.percent_notMem {words : List String} {more : Bool} (h : Pattern words more) :
    '%' ∉ separated '/' (words.map String.toList) := by
  intro hmem
  have hbyte := h.mem_separated hmem
  revert hbyte
  decide

theorem percent_notMem_front {lead : List Char} (h : All '/' lead) : '%' ∉ lead ++ "eth/v".toList := by
  rw [List.mem_append, not_or]
  refine ⟨fun hmem => ?_, by decide⟩
  exact absurd (h '%' hmem) (by decide)

def Shape (w x : List Char) : Prop :=
  ∃ lead words rest more, lead ≠ [] ∧ All '/' lead ∧ Pattern words more ∧
    (rest = [] ∨ rest.head? = some '/') ∧ (more = false → All '/' rest) ∧
    x = lead ++ "eth/v".toList ++ w ++ separated '/' (words.map String.toList) ++ rest

theorem version_toList {v : String} (h : isVersion v = true) : ∃ w, w ≠ [] ∧ v.toList = 'v' :: w := by
  simp only [isVersion, Bool.and_eq_true, decide_eq_true_eq, ← String.length_toList] at h
  obtain ⟨w, hw⟩ := List.head?_eq_some_iff.mp h.2
  refine ⟨w, ?_, hw⟩
  rintro rfl
  rw [hw] at h
  exact absurd h.1 (by decide)

theorem splitOn_of_pathSegments {p : String} {segs : List String} (h : pathSegments p = segs) :
    (trimmed '/' p.toList).splitOn '/' = segs.map String.toList := by
  rw [← h, pathSegments, split, List.map_map, trim_toList]
  simp [Function.comp_def]

theorem pathSegments_of_splitOn {p : String} {segs : List (List Char)}
    (h : (trimmed '/' p.toList).splitOn '/' = segs) : pathSegments p = segs.map String.ofList := by
  rw [pathSegments, split, trim_toList, h]

theorem slash_notMem {p seg : String} (h : seg ∈ pathSegments p) : '/' ∉ seg.toList := by
  apply notMem_of_mem_splitOn (l := trimmed '/' p.toList)
  rw [splitOn_of_pathSegments rfl]
  exact List.mem_map_of_mem h

theorem PlainWord.slash_notMem {v : String} (hv : PlainWord v) : v.toList ≠ [] ∧ '/' ∉ v.toList := by
  refine ⟨fun hnil => hv.1 (String.toList_eq_nil_iff.mp hnil), fun hmem => ?_⟩
  exact absurd (hv.2 '/' hmem) (by decide)

theorem Classified.shape {x : String} (hx : x.toList.head? = some '/') (h : Classified x) :
    ∃ w, w ≠ [] ∧ '/' ∉ w ∧ Shape w x.toList := by
  obtain ⟨v, words, extra, more, hsegs, hv, hpattern, hextra⟩ := h.reads
  have hsplit := splitOn_of_pathSegments hsegs
  have hslash : '/' ∉ v.toList := slash_notMem (by rw [hsegs]; simp)
  obtain ⟨w, hw, hvw⟩ := version_toList hv
  rw [hvw] at hslash
  obtain ⟨lead, trail, hlead, htrail, hlist⟩ := eq_of_segments hsplit
  refine ⟨w, hw, fun hmem => hslash (List.mem_cons_of_mem _ hmem), lead, words,
    separated '/' (extra.map String.toList) ++ trail, more, ?_, hlead, hpattern, ?_, ?_, ?_⟩
  · rintro rfl
    rw [hlist] at hx
    have hhead : some 'e' = some '/' := hx
    exact absurd hhead (by decide)
  · exact head_separated_append _ htrail
  · intro hfalse
    rw [hextra hfalse]
    exact htrail
  · rw [hlist, List.map_cons, hvw, List.map_append]
    simp only [separated, List.flatMap_cons, List.flatMap_append, List.cons_append, List.append_assoc]
    rfl

theorem classified_of_shape {x : String} {w : List Char} (hne : w ≠ []) (hw : '/' ∉ w)
    (h : Shape w x.toList) : Classified x := by
  obtain ⟨lead, words, rest, more, -, hlead, hpattern, hrest, hmore, hx⟩ := h
  have hwords : ∀ v ∈ ('v' :: w) :: words.map String.toList, v ≠ [] ∧ '/' ∉ v := by
    rw [List.forall_mem_cons, List.forall_mem_map]
    refine ⟨⟨List.cons_ne_nil _ _, ?_⟩, fun v hv => (hpattern.plain.2 v hv).slash_notMem⟩
    rw [List.mem_cons, not_or]
    exact ⟨by decide, hw⟩
  obtain ⟨extra, hsplit, hextra⟩ := segments_of_eq hlead (PlainWord.slash_notMem (by decide : PlainWord "eth")) hwords hrest
  have htext : lead ++ "eth".toList ++ separated '/' (('v' :: w) :: words.map String.toList) ++ rest =
      x.toList := by
    rw [hx]
    simp only [separated, List.flatMap_cons, List.cons_append, List.append_assoc]
    rfl
  rw [htext] at hsplit
  refine classified_of_reads ⟨String.ofList ('v' :: w), words, extra.map String.ofList, more, ?_, ?_, hpattern, ?_⟩
  · rw [pathSegments_of_splitOn hsplit]
    simp [Function.comp_def]
  · have hlength : 0 < w.length := List.length_pos_of_ne_nil hne
    simp only [isVersion, Bool.and_eq_true, decide_eq_true_eq, String.length_ofList, String.toList_ofList,
      List.length_cons, List.head?_cons, and_true]
    omega
  · intro hfalse
    rw [hextra (hmore hfalse)]
    rfl

end Shapes

end EBeacon.Network
