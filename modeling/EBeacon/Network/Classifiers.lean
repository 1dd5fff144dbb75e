import EBeacon.Network.PathShapes

/-!
Archive routing reads a path after trimming white space, the cache reads it as it is, and each has its
own list of routes. Both are compared here over the segments of the path.
-/

namespace EBeacon.Network

open Text

inductive Identifies : List String → HistoricalKind → Prop
  | block {name : String} (h : name ∈ ["blocks", "blinded_blocks", "headers"]) :
      Identifies ["beacon", name] .blockByID
  | blob {name : String} (h : name ∈ ["blobs", "blob_sidecars"]) : Identifies ["beacon", name] .blobSidecars
  | state : Identifies ["beacon", "states"] .stateByID
  | envelope : Identifies ["beacon", "execution_payload_envelopes"] .payloadEnvelope
  | rewards {name : String} (h : name ∈ ["blocks", "sync_committee"]) :
      Identifies ["beacon", "rewards", name] .blockByID
  | bootstrap : Identifies ["beacon", "light_client", "bootstrap"] .blockByID
  | debugState : Identifies ["debug", "beacon", "states"] .stateByID
  | debugColumns : Identifies ["debug", "beacon", "data_column_sidecars"] .blobSidecars

inductive Epochal : List String → HistoricalKind → Prop
  | rewards : Epochal ["beacon", "rewards", "attestations"] .rewardsEpoch
  | liveness : Epochal ["validator", "liveness"] .liveness
  | attester : Epochal ["validator", "duties", "attester"] .attesterDuties
  | proposer : Epochal ["validator", "duties", "proposer"] .proposerDuties
  | sync : Epochal ["validator", "duties", "sync"] .syncDuties
  | ptc : Epochal ["validator", "duties", "ptc"] .ptcDuties

inductive Target (segs : List String) : HistoricalTarget → Prop
  | zero : Target segs .zero
  | identifier {v seg : String} {front extra : List String} {kind : HistoricalKind}
      (hsegs : segs = "eth" :: v :: (front ++ seg :: extra)) (hv : isVersion v = true)
      (hfront : Identifies front kind) : Target segs (parseBlockIdentifier kind seg)
  | epoch {v seg : String} {front extra : List String} {kind : HistoricalKind} {e : UInt64}
      (hsegs : segs = "eth" :: v :: (front ++ seg :: extra)) (hv : isVersion v = true)
      (hfront : Epochal front kind) (he : parseUint64 seg = some e) : Target segs (.ofEpoch kind e)

section Targets

theorem epochTarget {segs : List String} {v seg : String} {front extra : List String} {kind : HistoricalKind}
    (hsegs : segs = "eth" :: v :: (front ++ seg :: extra)) (hv : isVersion v = true)
    (hfront : Epochal front kind) :
    Target segs (((parseUint64 seg).map (.ofEpoch kind)).getD .zero) := by
  cases he : parseUint64 seg with
  | none => exact .zero
  | some e => exact .epoch hsegs hv hfront he

theorem identifierTarget {segs : List String} {v : String} {front rest : List String} {kind : HistoricalKind}
    (hsegs : segs = "eth" :: v :: (front ++ rest)) (hv : isVersion v = true)
    (hfront : Identifies front kind) :
    Target segs ((rest.head?.map (parseBlockIdentifier kind)).getD .zero) := by
  cases rest with
  | nil => exact .zero
  | cons seg extra => exact .identifier hsegs hv hfront

theorem target_beacon {segs rest : List String} {v seg : String}
    (hsegs : segs = "eth" :: v :: "beacon" :: seg :: rest) (hv : isVersion v = true) :
    Target segs (classifyBeaconPath seg rest) := by
  unfold classifyBeaconPath
  dsimp only
  split
  · exact identifierTarget hsegs hv (.block (by simp))
  · exact identifierTarget hsegs hv (.block (by simp))
  · exact identifierTarget hsegs hv (.block (by simp))
  · exact identifierTarget hsegs hv (.blob (by simp))
  · exact identifierTarget hsegs hv (.blob (by simp))
  · exact identifierTarget hsegs hv .state
  · exact identifierTarget hsegs hv .envelope
  · exact epochTarget hsegs hv .rewards
  · exact .identifier hsegs hv (.rewards (by simp))
  · exact .identifier hsegs hv (.rewards (by simp))
  · exact .identifier hsegs hv .bootstrap
  · exact .zero

theorem target_validator {segs rest : List String} {v seg : String}
    (hsegs : segs = "eth" :: v :: "validator" :: seg :: rest) (hv : isVersion v = true) :
    Target segs (classifyValidatorPath seg rest) := by
  unfold classifyValidatorPath
  dsimp only
  split
  · exact epochTarget hsegs hv .liveness
  · exact epochTarget hsegs hv .attester
  · exact epochTarget hsegs hv .proposer
  · exact epochTarget hsegs hv .sync
  · exact epochTarget hsegs hv .ptc
  · exact .zero

theorem target_debug {segs rest : List String} {v seg : String}
    (hsegs : segs = "eth" :: v :: "debug" :: seg :: rest) (hv : isVersion v = true) :
    Target segs (classifyDebugPath seg rest) := by
  unfold classifyDebugPath
  split
  · exact .identifier hsegs hv .debugState
  · exact .identifier hsegs hv .debugColumns
  · exact .zero

theorem target_classify (p : String) :
    Target (pathSegments (trimSpace p)) (classifyHistoricalTarget p) := by
  unfold classifyHistoricalTarget
  dsimp only
  split
  · exact .zero
  · split
    · rename_i v category seg rest hsegs
      cases hv : isVersion v with
      | false => exact .zero
      | true =>
        rw [Bool.not_true, if_neg Bool.false_ne_true]
        split
        · exact target_beacon hsegs hv
        · exact target_validator hsegs hv
        · exact target_debug hsegs hv
        · exact .zero
    · exact .zero

theorem classify_segments {p v category seg : String} {rest : List String}
    (hsegs : pathSegments (trimSpace p) = "eth" :: v :: category :: seg :: rest) (hv : isVersion v = true) :
    (category = "beacon" → classifyHistoricalTarget p = classifyBeaconPath seg rest) ∧
      (category = "validator" → classifyHistoricalTarget p = classifyValidatorPath seg rest) ∧
      (category = "debug" → classifyHistoricalTarget p = classifyDebugPath seg rest) := by
  have hne : ¬ (trimSpace p = "" ∨ trimSpace p = "/") := by
    have hempty : pathSegments "" = [""] ∧ pathSegments "/" = [""] := by decide
    rintro (h | h) <;> rw [h] at hsegs <;> simp [hempty] at hsegs
  unfold classifyHistoricalTarget
  dsimp only
  rw [if_neg hne, hsegs]
  refine ⟨?_, ?_, ?_⟩ <;> rintro rfl <;> simp [hv]

theorem classify_of_identifies {p v seg : String} (front : List String) {extra : List String} {kind : HistoricalKind}
    (hsegs : pathSegments (trimSpace p) = "eth" :: v :: (front ++ seg :: extra)) (hv : isVersion v = true)
    (hfront : Identifies front kind) : classifyHistoricalTarget p = parseBlockIdentifier kind seg := by
  cases hfront with
  | block h =>
    rw [(classify_segments hsegs hv).1 rfl]
    simp only [List.mem_cons, List.not_mem_nil, or_false] at h
    rcases h with rfl | rfl | rfl <;> rfl
  | blob h =>
    rw [(classify_segments hsegs hv).1 rfl]
    simp only [List.mem_cons, List.not_mem_nil, or_false] at h
    rcases h with rfl | rfl <;> rfl
  | state => exact (classify_segments hsegs hv).1 rfl
  | envelope => exact (classify_segments hsegs hv).1 rfl
  | rewards h =>
    rw [(classify_segments hsegs hv).1 rfl]
    simp only [List.mem_cons, List.not_mem_nil, or_false] at h
    rcases h with rfl | rfl <;> rfl
  | bootstrap => exact (classify_segments hsegs hv).1 rfl
  | debugState => exact (classify_segments hsegs hv).2.2 rfl
  | debugColumns => exact (classify_segments hsegs hv).2.2 rfl

theorem classify_of_epochal {p v seg : String} {front extra : List String} {kind : HistoricalKind}
    {e : UInt64} (hsegs : pathSegments (trimSpace p) = "eth" :: v :: (front ++ seg :: extra))
    (hv : isVersion v = true) (hfront : Epochal front kind) (he : parseUint64 seg = some e) :
    classifyHistoricalTarget p = .ofEpoch kind e := by
  have hread : classifyHistoricalTarget p = ((parseUint64 seg).map (.ofEpoch kind)).getD .zero := by
    cases hfront with
    | rewards => exact (classify_segments hsegs hv).1 rfl
    | liveness => exact (classify_segments hsegs hv).2.1 rfl
    | attester => exact (classify_segments hsegs hv).2.1 rfl
    | proposer => exact (classify_segments hsegs hv).2.1 rfl
    | sync => exact (classify_segments hsegs hv).2.1 rfl
    | ptc => exact (classify_segments hsegs hv).2.1 rfl
  rw [hread, he]
  rfl

end Targets

section Trimming

theorem PlainWord.last {w : String} (h : PlainWord w) :
    ∃ x, w.toList.getLast? = some x ∧ spaceByte x = false := by
  have hne : w.toList ≠ [] := h.slash_notMem.1
  refine ⟨w.toList.getLast hne, List.getLast?_eq_some_getLast hne, ?_⟩
  have hword := h.2 _ (List.getLast_mem hne)
  generalize w.toList.getLast hne = x at hword
  cases hspace : spaceByte x with
  | false => rfl
  | true =>
    obtain ⟨u, hu, hx⟩ := List.any_eq_true.mp hspace
    have hbytes : spaces.all (fun u => u.all (fun x => !wordByte x)) = true := by decide
    have hbyte := List.all_eq_true.mp (List.all_eq_true.mp hbytes u hu) x (List.contains_iff_mem.mp hx)
    rw [hword] at hbyte
    cases hbyte

theorem separated_getLast {words : List String} (hne : words ≠ []) (hwords : ∀ w ∈ words, PlainWord w)
    (l : List Char) :
    ∃ x, (l ++ separated '/' (words.map String.toList)).getLast? = some x ∧ spaceByte x = false := by
  obtain ⟨front, w, rfl⟩ := List.eq_nil_or_concat words |>.resolve_left hne
  have hw : PlainWord w := hwords w (by simp)
  obtain ⟨x, hx, hspace⟩ := hw.last
  refine ⟨x, ?_, hspace⟩
  rw [List.concat_eq_append, List.map_append, separated, List.flatMap_append]
  simp [List.getLast?_append, List.getLast?_cons, hx]

theorem pathSegments_trimSpace {p v : String} {words extra : List String}
    (hsegs : pathSegments p = "eth" :: v :: (words ++ extra)) (hv : isVersion v = true) (hne : words ≠ [])
    (hwords : ∀ w ∈ words, PlainWord w) :
    ∃ extra', pathSegments (trimSpace p) = "eth" :: v :: (words ++ extra') ∧ (extra = [] → extra' = []) := by
  obtain ⟨lead, trail, hlead, htrail, hlist⟩ := eq_of_segments (splitOn_of_pathSegments hsegs)
  have hcore : p.toList = lead ++ "eth".toList ++ separated '/' ((v :: words).map String.toList) ++
      (separated '/' (extra.map String.toList) ++ trail) := by
    rw [hlist]
    simp [separated]
  have hhead : ∃ x, (lead ++ "eth".toList ++ separated '/' ((v :: words).map String.toList)).head? = some x ∧
      spaceByte x = false := by
    cases lead with
    | nil => exact ⟨'e', rfl, by decide⟩
    | cons x lead => exact ⟨x, rfl, by rw [hlead x List.mem_cons_self]; decide⟩
  have hlast := separated_getLast hne hwords (lead ++ "eth".toList ++ separated '/' [v.toList])
  have hcons : separated '/' ((v :: words).map String.toList) =
      separated '/' [v.toList] ++ separated '/' (words.map String.toList) := by
    simp [separated]
  rw [List.append_assoc _ (separated '/' [v.toList]), ← hcons] at hlast
  obtain ⟨kept, dropped, hrest, htrim⟩ := toList_trimSpace hcore hhead hlast
  have hkept : kept = [] ∨ kept.head? = some '/' := by
    cases kept with
    | nil => exact Or.inl rfl
    | cons d kept =>
      have hslash := head_separated_append (extra.map String.toList) htrail
      rw [hrest] at hslash
      exact Or.inr (hslash.resolve_left (by simp))
  have hslashes : ∀ w ∈ (v :: words).map String.toList, w ≠ [] ∧ '/' ∉ w := by
    rw [List.map_cons, List.forall_mem_cons, List.forall_mem_map]
    refine ⟨⟨?_, slash_notMem (by rw [hsegs]; simp)⟩, fun w hw => (hwords w hw).slash_notMem⟩
    obtain ⟨rest, -, hrest⟩ := version_toList hv
    rw [hrest]
    exact List.cons_ne_nil _ _
  obtain ⟨extra', hsplit, hextra⟩ :=
    segments_of_eq hlead (PlainWord.slash_notMem (by decide : PlainWord "eth")) hslashes hkept
  rw [← htrim] at hsplit
  refine ⟨extra'.map String.ofList, ?_, fun hnil => ?_⟩
  · rw [pathSegments_of_splitOn hsplit]
    simp [Function.comp_def]
  · rw [hnil] at hrest
    rw [hextra (fun x hx => htrail x ?_)]
    · rfl
    · have hmem : x ∈ kept ++ dropped := List.mem_append_left _ hx
      rwa [← hrest] at hmem

end Trimming

section Numbers

variable {p : String}

theorem parseBlockIdentifier_of_digits {s : String} {n : UInt64} (h : parseUint64 s = some n)
    (kind : HistoricalKind) :
    parseBlockIdentifier kind s = { HistoricalTarget.zero with kind := kind, slot := some n } := by
  have hnamed : s ∉ ["head", "genesis", "finalized", "justified"] := by
    have hnone : ["head", "genesis", "finalized", "justified"].all (fun s => (parseUint64 s).isNone) = true := by
      decide
    intro hs
    have := List.all_eq_true.mp hnone s hs
    rw [h] at this
    cases this
  have hdigits : ∀ c ∈ s.toList, isDigit c = true := by
    unfold parseUint64 at h
    dsimp only at h
    split_ifs at h with hdigits
    exact List.all_eq_true.mp hdigits.2.1
  have hroot : ∀ x, isDigit x = false → hasPrefix s (String.ofList ['0', x]) = false := by
    intro x hx
    rw [hasPrefix, Bool.eq_false_iff]
    intro hstart
    obtain ⟨rest, hrest⟩ := List.isPrefixOf_iff_prefix.mp hstart
    rw [String.toList_ofList] at hrest
    rw [hdigits x (by rw [← hrest]; simp)] at hx
    cases hx
  have hlower : hasPrefix s "0x" = false := hroot 'x' (by decide)
  have hupper : hasPrefix s "0X" = false := hroot 'X' (by decide)
  unfold parseBlockIdentifier
  dsimp only
  rw [if_neg hnamed, hlower, hupper, Bool.or_self, if_neg Bool.false_ne_true, h]

theorem identifies_slotKinds {name : String} (h : name ∈ slotKinds) :
    ∃ kind, Identifies ["beacon", name] kind := by
  simp only [slotKinds, List.mem_cons, List.not_mem_nil, or_false] at h
  rcases h with rfl | rfl | rfl | rfl | rfl | rfl | rfl
  · exact ⟨_, .block (by simp)⟩
  · exact ⟨_, .block (by simp)⟩
  · exact ⟨_, .block (by simp)⟩
  · exact ⟨_, .blob (by simp)⟩
  · exact ⟨_, .blob (by simp)⟩
  · exact ⟨_, .state⟩
  · exact ⟨_, .envelope⟩

theorem parseSlot_some {s : String} {n : UInt64} (h : parseSlot s = some n) :
    parseUint64 s = some n ∧ n ≠ 0 := by
  unfold parseSlot at h
  split_ifs at h
  obtain ⟨hparse, hne⟩ := Option.filter_eq_some_iff.mp h
  exact ⟨hparse, of_decide_eq_true hne⟩

theorem numeric_not_named {n : UInt64} (h : pathNumericSlot p = some n) :
    pathHasNamedSlotID p = false ∧ pathNumericEpoch p = none := by
  obtain ⟨v, front, seg, extra, hsegs, hv, hseg, hfront⟩ := pathNumericSlot_segments h
  constructor
  · rw [Bool.eq_false_iff]
    intro hnamed
    rcases pathHasNamedSlotID_iff.mp hnamed with ⟨v', hv', hsegs'⟩ | ⟨v', name', id, extra', hv', hname', hid, hsegs'⟩
    · rw [hsegs'] at hsegs
      rcases hfront with ⟨name, hname, rfl⟩ | ⟨name, hname, rfl⟩ <;> simp at hsegs
    · rw [hsegs'] at hsegs
      rcases hfront with ⟨name, hname, rfl⟩ | ⟨name, hname, rfl⟩
      · simp only [List.cons_append, List.nil_append, List.cons.injEq] at hsegs
        obtain ⟨-, -, -, -, rfl, -⟩ := hsegs
        have hnone : namedSlotIDs.all (fun s => (parseSlot s).isNone) = true := by decide
        have := List.all_eq_true.mp hnone id hid
        rw [hseg] at this
        cases this
      · simp only [List.cons_append, List.nil_append, List.cons.injEq] at hsegs
        obtain ⟨-, -, -, rfl, -⟩ := hsegs
        exact absurd hname' (by decide)
  · rw [Option.eq_none_iff_forall_ne_some]
    intro e he
    obtain ⟨v', front', seg', hsegs', -, -, hfront'⟩ := pathNumericEpoch_segments he
    rw [hsegs'] at hsegs
    rcases hfront with ⟨name, hname, rfl⟩ | ⟨name, hname, rfl⟩
    · rcases hfront' with rfl | rfl <;> simp at hsegs
      obtain ⟨-, rfl, -⟩ := hsegs
      exact absurd hname (by decide)
    · rcases hfront' with rfl | rfl <;> simp at hsegs
      obtain ⟨-, rfl, -⟩ := hsegs
      exact absurd hname (by decide)

theorem classify_of_pathNumericSlot {n : UInt64} (h : pathNumericSlot p = some n) :
    ∃ kind, classifyHistoricalTarget p = { HistoricalTarget.zero with kind := kind, slot := some n } := by
  obtain ⟨v, front, seg, extra, hsegs, hv, hseg, hfront⟩ := pathNumericSlot_segments h
  have hplain : ∀ w ∈ front ++ [seg], PlainWord w := by
    rcases hfront with ⟨name, hname, rfl⟩ | ⟨name, hname, rfl⟩
    · exact (Pattern.plain (.slot hname hseg)).2
    · exact (Pattern.plain (.rewards hname hseg)).2
  have hidentifies : ∃ kind, Identifies front kind := by
    rcases hfront with ⟨name, hname, rfl⟩ | ⟨name, hname, rfl⟩
    · exact identifies_slotKinds hname
    · exact ⟨_, .rewards hname⟩
  obtain ⟨kind, hkind⟩ := hidentifies
  rw [List.append_cons] at hsegs
  obtain ⟨extra', hsegs', -⟩ := pathSegments_trimSpace hsegs hv (by simp) hplain
  rw [← List.append_cons] at hsegs'
  refine ⟨kind, ?_⟩
  rw [classify_of_identifies _ hsegs' hv hkind, parseBlockIdentifier_of_digits (parseSlot_some hseg).1]

theorem classify_of_pathNumericEpoch {e : UInt64} (h : pathNumericEpoch p = some e) :
    classifyHistoricalTarget p = .ofEpoch .rewardsEpoch e ∨
      classifyHistoricalTarget p = .ofEpoch .proposerDuties e := by
  obtain ⟨v, front, seg, hsegs, hv, hseg, hfront⟩ := pathNumericEpoch_segments h
  have hplain : ∀ w ∈ front ++ [seg], PlainWord w := by
    have hwords : ∀ w ∈ ["beacon", "rewards", "attestations", "validator", "duties", "proposer"],
        PlainWord w := by decide
    rcases hfront with rfl | rfl <;> simp [hwords, plainWord_of_parseUint64 hseg]
  rw [← List.append_nil (front ++ [seg])] at hsegs
  obtain ⟨extra', hsegs', -⟩ := pathSegments_trimSpace hsegs hv (by simp) hplain
  rw [← List.append_cons] at hsegs'
  rcases hfront with rfl | rfl
  · exact Or.inl (classify_of_epochal hsegs' hv .rewards hseg)
  · exact Or.inr (classify_of_epochal hsegs' hv .proposer hseg)

theorem numeric_classifiers (p : String) :
    (∀ n, pathNumericSlot p = some n →
      1 ≤ n ∧ (classifyHistoricalTarget p).slot = some n ∧ (classifyHistoricalTarget p).named = "" ∧
        (classifyHistoricalTarget p).root = "" ∧ (classifyHistoricalTarget p).epoch = none ∧
        pathHasNamedSlotID p = false ∧ pathNumericEpoch p = none) ∧
      ∀ e, pathNumericEpoch p = some e →
        (classifyHistoricalTarget p).epoch = some e ∧ (classifyHistoricalTarget p).slot = none ∧
          ((classifyHistoricalTarget p).kind = .rewardsEpoch ∨
            (classifyHistoricalTarget p).kind = .proposerDuties) := by
  constructor
  · intro n h
    obtain ⟨v, front, seg, extra, -, -, hseg, -⟩ := pathNumericSlot_segments h
    obtain ⟨kind, htarget⟩ := classify_of_pathNumericSlot h
    have hpos : 1 ≤ n := by
      have hne := (parseSlot_some hseg).2
      rw [UInt64.le_iff_toNat_le]
      exact Nat.one_le_iff_ne_zero.mpr (fun hzero => hne (UInt64.toNat_inj.mp hzero))
    rw [htarget]
    exact ⟨hpos, rfl, rfl, rfl, rfl, numeric_not_named h⟩
  · intro e h
    rcases classify_of_pathNumericEpoch h with htarget | htarget <;> rw [htarget]
    · exact ⟨rfl, rfl, Or.inl rfl⟩
    · exact ⟨rfl, rfl, Or.inr rfl⟩

theorem numeric_classifiers_headers : (classifyHistoricalTarget "/eth/v1/beacon/headers/42").slot = some 42 ∧
    (classifyHistoricalTarget "/eth/v1/validator/duties/proposer/7").epoch = some 7 :=
  ⟨((numeric_classifiers "/eth/v1/beacon/headers/42").1 42 (by decide +kernel)).2.1,
    ((numeric_classifiers "/eth/v1/validator/duties/proposer/7").2 7 (by decide +kernel)).1⟩

end Numbers

section Names

variable {p : String}

def bareHeaders (p : String) : Bool := (pathSegments p).drop 2 = ["beacon", "headers"]

def isDebugPath (p : String) : Bool := (pathSegments (trimSpace p))[2]? = some "debug"

def NamedAgree (p : String) : Prop :=
  (isDebugPath p = false → (classifyHistoricalTarget p).named ∈ namedSlotIDs → pathHasNamedSlotID p = true) ∧
    (pathHasNamedSlotID p = true → bareHeaders p = false →
      (classifyHistoricalTarget p).named ∈ namedSlotIDs ∧
        ∀ status body, isPruningError status body (classifyHistoricalTarget p) = false)

def unlistedNamed : List String → Bool
  | "eth" :: v :: "beacon" :: "rewards" :: name :: id :: _ =>
    isVersion v && name ∈ ["blocks", "sync_committee"] && id ∈ namedSlotIDs
  | "eth" :: v :: "beacon" :: "light_client" :: "bootstrap" :: id :: _ => isVersion v && id ∈ namedSlotIDs
  | _ => false

def listedNamed : List String → Bool
  | "eth" :: v :: "beacon" :: name :: id :: _ => isVersion v && name ∈ slotKinds && id ∈ namedSlotIDs
  | _ => false

theorem listedNamed_iff {segs : List String} : listedNamed segs = true ↔
    ∃ v name id extra, isVersion v = true ∧ name ∈ slotKinds ∧ id ∈ namedSlotIDs ∧
      segs = "eth" :: v :: "beacon" :: name :: id :: extra := by
  constructor
  · intro h
    unfold listedNamed at h
    split at h
    · simp only [Bool.and_eq_true, decide_eq_true_eq] at h
      exact ⟨_, _, _, _, h.1.1, h.1.2, h.2, rfl⟩
    · cases h
  · rintro ⟨v, name, id, extra, hv, hname, hid, rfl⟩
    simp [listedNamed, hv, hname, hid]

theorem parseBlockIdentifier_named {kind : HistoricalKind} {seg : String} :
    (parseBlockIdentifier kind seg).named ∈ namedSlotIDs ↔ seg ∈ namedSlotIDs := by
  unfold parseBlockIdentifier
  dsimp only
  have hzero : HistoricalTarget.zero.named ∉ namedSlotIDs := by decide
  have hsub : namedSlotIDs ⊆ ["head", "genesis", "finalized", "justified"] := by decide
  split_ifs with hnamed hroot
  · rfl
  · exact iff_of_false hzero (fun h => hnamed (hsub h))
  · exact iff_of_false hzero (fun h => hnamed (hsub h))

theorem classify_named (h : (classifyHistoricalTarget p).named ∈ namedSlotIDs) :
    ∃ v front seg extra kind, pathSegments (trimSpace p) = "eth" :: v :: (front ++ seg :: extra) ∧
      isVersion v = true ∧ Identifies front kind ∧ seg ∈ namedSlotIDs := by
  have htarget := target_classify p
  generalize classifyHistoricalTarget p = t at h htarget
  cases htarget with
  | zero => exact absurd h (by decide)
  | identifier hsegs hv hfront => exact ⟨_, _, _, _, _, hsegs, hv, hfront, parseBlockIdentifier_named.mp h⟩
  | epoch hsegs hv hfront he => exact absurd (show "" ∈ namedSlotIDs from h) (by decide)

theorem named_trimSpace (h : pathHasNamedSlotID p = true) :
    (∃ v, pathSegments p = ["eth", v, "beacon", "headers"] ∧
      pathSegments (trimSpace p) = ["eth", v, "beacon", "headers"]) ∨
      ∃ v name id extra extra', isVersion v = true ∧ name ∈ slotKinds ∧ id ∈ namedSlotIDs ∧
        pathSegments p = "eth" :: v :: "beacon" :: name :: id :: extra ∧
        pathSegments (trimSpace p) = "eth" :: v :: "beacon" :: name :: id :: extra' := by
  rcases pathHasNamedSlotID_iff.mp h with ⟨v, hv, hsegs⟩ | ⟨v, name, id, extra, hv, hname, hid, hsegs⟩
  · obtain ⟨extra', htrim, hnil⟩ :=
      @pathSegments_trimSpace p v ["beacon", "headers"] [] hsegs hv (by simp) (by decide)
    rw [hnil rfl] at htrim
    exact Or.inl ⟨v, hsegs, htrim⟩
  · obtain ⟨extra', htrim, -⟩ := @pathSegments_trimSpace p v ["beacon", name, id] extra hsegs hv (by simp)
      (Pattern.plain (.named hname hid)).2
    exact Or.inr ⟨v, name, id, extra, extra', hv, hname, hid, hsegs, htrim⟩

theorem classify_of_named (h : pathHasNamedSlotID p = true) (hbare : bareHeaders p = false) :
    (classifyHistoricalTarget p).named ∈ namedSlotIDs ∧
      ∀ status body, isPruningError status body (classifyHistoricalTarget p) = false := by
  have hnamed : (classifyHistoricalTarget p).named ∈ namedSlotIDs := by
    rcases named_trimSpace h with ⟨v, hsegs, -⟩ | ⟨v, name, id, extra, extra', hv, hname, hid, -, htrim⟩
    · simp [bareHeaders, hsegs] at hbare
    · obtain ⟨kind, hfront⟩ := identifies_slotKinds hname
      rw [classify_of_identifies ["beacon", name] htrim hv hfront]
      exact parseBlockIdentifier_named.mpr hid
  have hne : (classifyHistoricalTarget p).named ≠ "" := by
    intro hempty
    rw [hempty] at hnamed
    exact absurd hnamed (by decide)
  refine ⟨hnamed, fun status body => ?_⟩
  unfold isPruningError
  rw [if_pos (Or.inl hne)]
  split_ifs <;> rfl

theorem pathHasNamedSlotID_of_take {segs : List String} (hlisted : listedNamed segs = true)
    (h : (pathSegments p).take 5 = segs.take 5) : pathHasNamedSlotID p = true := by
  obtain ⟨v, name, id, extra, hv, hname, hid, rfl⟩ := listedNamed_iff.mp hlisted
  refine pathHasNamedSlotID_iff.mpr (Or.inr ⟨v, name, id, (pathSegments p).drop 5, hv, hname, hid, ?_⟩)
  rw [← List.take_append_drop 5 (pathSegments p), h]
  simp

theorem named_of_unlisted (h : unlistedNamed (pathSegments (trimSpace p)) = true) :
    isDebugPath p = false ∧ (classifyHistoricalTarget p).named ∈ namedSlotIDs ∧
      pathHasNamedSlotID p = false := by
  have hlisted : listedNamed (pathSegments (trimSpace p)) = false ∧
      (pathSegments (trimSpace p)).length ≠ 4 ∧ isDebugPath p = false ∧
      (classifyHistoricalTarget p).named ∈ namedSlotIDs := by
    unfold unlistedNamed at h
    split at h
    · rename_i v name id extra hsegs
      simp only [Bool.and_eq_true, decide_eq_true_eq] at h
      obtain ⟨⟨hv, hname⟩, hid⟩ := h
      refine ⟨?_, ?_, ?_, ?_⟩
      · rw [hsegs]
        simp [listedNamed, slotKinds]
      · simp [hsegs]
      · simp [isDebugPath, hsegs]
      · rw [classify_of_identifies ["beacon", "rewards", name] hsegs hv (.rewards hname)]
        exact parseBlockIdentifier_named.mpr hid
    · rename_i v id extra hsegs
      simp only [Bool.and_eq_true, decide_eq_true_eq] at h
      refine ⟨?_, ?_, ?_, ?_⟩
      · rw [hsegs]
        simp [listedNamed, slotKinds]
      · simp [hsegs]
      · simp [isDebugPath, hsegs]
      · rw [classify_of_identifies ["beacon", "light_client", "bootstrap"] hsegs h.1 .bootstrap]
        exact parseBlockIdentifier_named.mpr h.2
    · cases h
  refine ⟨hlisted.2.2.1, hlisted.2.2.2, ?_⟩
  rw [Bool.eq_false_iff]
  intro hnamed
  rcases named_trimSpace hnamed with ⟨v, -, htrim⟩ | ⟨v, name, id, extra, extra', hv, hname, hid, -, htrim⟩
  · exact hlisted.2.1 (by rw [htrim]; rfl)
  · have := listedNamed_iff.mpr ⟨v, name, id, extra', hv, hname, hid, htrim⟩
    rw [hlisted.1] at this
    cases this

/-- The cache misses a named block on a route it does not list, and where white space around the path
reaches the segments up to the name. -/
theorem namedAgree_iff (p : String) :
    NamedAgree p ↔ unlistedNamed (pathSegments (trimSpace p)) = false ∧
      (listedNamed (pathSegments (trimSpace p)) = true →
        (pathSegments p).take 5 = (pathSegments (trimSpace p)).take 5) := by
  constructor
  · rintro ⟨hagree, -⟩
    constructor
    · rw [Bool.eq_false_iff]
      intro hunlisted
      obtain ⟨hdebug, hnamed, hcache⟩ := named_of_unlisted hunlisted
      rw [hagree hdebug hnamed] at hcache
      cases hcache
    · intro hlisted
      obtain ⟨v, name, id, extra, hv, hname, hid, hsegs⟩ := listedNamed_iff.mp hlisted
      obtain ⟨kind, hfront⟩ := identifies_slotKinds hname
      have hnamed : (classifyHistoricalTarget p).named ∈ namedSlotIDs := by
        rw [classify_of_identifies ["beacon", name] hsegs hv hfront]
        exact parseBlockIdentifier_named.mpr hid
      have hcache := hagree (by simp [isDebugPath, hsegs]) hnamed
      rcases named_trimSpace hcache with ⟨v', -, htrim⟩ | ⟨v', name', id', extra₁, extra₂, -, -, -, hpath, htrim⟩
      · rw [htrim] at hsegs
        simp at hsegs
      · rw [hpath, htrim]
        rfl
  · rintro ⟨hunlisted, hlisted⟩
    refine ⟨fun hdebug hnamed => ?_, classify_of_named⟩
    obtain ⟨v, front, seg, extra, kind, hsegs, hv, hfront, hseg⟩ := classify_named hnamed
    have hslot : ∀ name, name ∈ slotKinds → front = ["beacon", name] → pathHasNamedSlotID p = true := by
      rintro name hname rfl
      have hlist := listedNamed_iff.mpr ⟨v, name, seg, extra, hv, hname, hseg, hsegs⟩
      exact pathHasNamedSlotID_of_take hlist (hlisted hlist)
    cases hfront with
    | block h =>
      have hsub : ["blocks", "blinded_blocks", "headers"] ⊆ slotKinds := by decide
      exact hslot _ (hsub h) rfl
    | blob h =>
      have hsub : ["blobs", "blob_sidecars"] ⊆ slotKinds := by decide
      exact hslot _ (hsub h) rfl
    | state => exact hslot _ (by decide) rfl
    | envelope => exact hslot _ (by decide) rfl
    | rewards h =>
      rw [hsegs] at hunlisted
      simp [unlistedNamed, hv, hseg] at hunlisted
      simp [hunlisted] at h
    | bootstrap =>
      rw [hsegs] at hunlisted
      simp [unlistedNamed, hv, hseg] at hunlisted
    | debugState => simp [isDebugPath, hsegs] at hdebug
    | debugColumns => simp [isDebugPath, hsegs] at hdebug

theorem rewards_head_not_named : ¬ NamedAgree "/eth/v1/beacon/rewards/blocks/head" := by
  intro h
  have hnamed := h.1 (by decide +kernel) (by decide +kernel)
  exact absurd hnamed (by decide +kernel)

end Names

end EBeacon.Network
