import EBeacon.Library.Marks
import EBeacon.Network.KeyCodec

namespace EBeacon.Network

open Text Text.Mark State

structure DedupRequest where
  networkID : String
  method : String
  url : URL
  body : String
  scope : String
  acceptBinary : Bool
  deriving DecidableEq, Repr

namespace DedupRequest

def pathQuery (r : DedupRequest) : String := pathAndQueryForUpstream r.url

def key (d : Digest) (r : DedupRequest) : String :=
  dedupKey d r.networkID r.method r.url r.body r.scope r.acceptBinary

structure Multiplexed (r : DedupRequest) : Prop where
  networkID : validIdentifier r.networkID = true
  method : r.method = "GET" ∨ r.method = "HEAD"

def suffix (d : Digest) (r : DedupRequest) : List Char :=
  (d.tag r.body).toList ++ tags ":scope=" r.acceptBinary r.scope

structure Same (r r' : DedupRequest) : Prop where
  networkID : r.networkID = r'.networkID
  method : r.method = r'.method
  pathQuery : r.pathQuery = r'.pathQuery
  body : r.body = r'.body
  scope : r.scope = r'.scope
  acceptBinary : r.acceptBinary = r'.acceptBinary

inductive Absorbs (d : Digest) (r r' : DedupRequest) : Prop
  | digest (hpath : r.pathQuery = r'.pathQuery ++ ":" ++ d.hex r'.body) (hbody : r'.body ≠ "")
      (hnone : r.body = "") (haccept : r.acceptBinary = r'.acceptBinary) (hscope : r.scope = r'.scope)
  | accept (hpath : r.pathQuery = r'.pathQuery ++ d.tag r'.body ++ ":accept=binary")
      (hnone : r.body = "") (hjson : r.acceptBinary = false) (hbinary : r'.acceptBinary = true)
      (hscope : r.scope = r'.scope)
  | scope (s : String) (hne : r'.scope ≠ "")
      (hpath : r.pathQuery = r'.pathQuery ++ d.tag r'.body ++ acceptTag r'.acceptBinary ++ ":scope=" ++ s)
      (hscope : r'.scope = s ++ d.tag r.body ++ acceptTag r.acceptBinary ++ scopeTag ":scope=" r.scope)

end DedupRequest

theorem append_of_boundary {c : Char} {w x t rest : List Char} (hw : c ∉ w) (ht : Boundary c t)
    (h : w ++ rest = x ++ t) : ∃ y, x = w ++ y ∧ rest = y ++ t := by
  rcases List.append_eq_append_iff.mp h with ⟨y, hx, hrest⟩ | ⟨y, hword, hy⟩
  · exact ⟨y, hx, hrest⟩
  · cases y with
    | nil => exact ⟨[], by simpa using hword.symm, by simpa using hy.symm⟩
    | cons e y =>
      rcases ht with rfl | ht
      · cases hy
      · rw [hy] at ht
        cases ht
        exact absurd (by simp [hword]) hw

theorem append_of_tag {c : Char} {w x t rest : List Char} (hw : w = [] ∨ ∃ v, c ∉ v ∧ w = c :: v)
    (hx : x ≠ []) (ht : Boundary c t) (h : w ++ rest = x ++ t) : ∃ y, x = w ++ y ∧ rest = y ++ t := by
  rcases hw with rfl | ⟨v, hv, rfl⟩
  · exact ⟨x, rfl, h⟩
  · obtain ⟨e, x, rfl⟩ := List.exists_cons_of_ne_nil hx
    rw [List.cons_append, List.cons_append, List.cons.injEq] at h
    obtain ⟨y, rfl, hrest⟩ := append_of_boundary hv ht h.2
    exact ⟨y, by rw [h.1, List.cons_append], hrest⟩

section Tags

variable {d : Digest} {r r' : DedupRequest}

theorem acceptTag_inj {b b' : Bool} (h : acceptTag b = acceptTag b') : b = b' := by
  revert b b'
  decide

theorem tags_eq_iff {mark : String} {m : Char} {ms : List Char} (hm : mark.toList = ':' :: m :: ms)
    (hne : m ≠ 'a') {b b' : Bool} {scope scope' : String} :
    tags mark b scope = tags mark b' scope' ↔ b = b' ∧ scope = scope' := by
  constructor
  · intro h
    have hscope := tags_inj hm hne h
    subst hscope
    exact ⟨acceptTag_inj (String.toList_injective (List.append_cancel_right h)), rfl⟩
  · rintro ⟨rfl, rfl⟩
    rfl

namespace DedupRequest

theorem suffix_of_empty (hbody : r.body = "") : r.suffix d = tags ":scope=" r.acceptBinary r.scope := by
  rw [suffix, Digest.tag, if_pos hbody]
  rfl

theorem suffix_of_ne (hbody : r.body ≠ "") :
    r.suffix d = ':' :: ((d.hex r.body).toList ++ tags ":scope=" r.acceptBinary r.scope) := by
  rw [suffix, Digest.tag, if_neg hbody, String.toList_append]
  rfl

theorem suffix_boundary (d : Digest) (r : DedupRequest) : Boundary ':' (r.suffix d) := by
  by_cases hbody : r.body = ""
  · rw [suffix_of_empty hbody]
    exact tags_head scopeMark r.acceptBinary r.scope
  · rw [suffix_of_ne hbody]
    exact Or.inr rfl

theorem body_of_suffix {b : Bool} {scope : String} (h : r.suffix d = tags ":scope=" b scope) :
    r.body = "" ∧ r.acceptBinary = b ∧ r.scope = scope := by
  by_cases hbody : r.body = ""
  · rw [suffix_of_empty hbody] at h
    exact ⟨hbody, (tags_eq_iff scopeMark (by decide)).mp h⟩
  · rw [suffix_of_ne hbody] at h
    exact absurd h (d.hex_append_ne r.body (tags_head scopeMark _ _) b scope)

theorem suffix_inj (hinj : d.hex r.body = d.hex r'.body → r.body = r'.body)
    (h : r.suffix d = r'.suffix d) :
    r.body = r'.body ∧ r.acceptBinary = r'.acceptBinary ∧ r.scope = r'.scope := by
  by_cases hbody : r.body = ""
  · rw [suffix_of_empty hbody] at h
    obtain ⟨hbody', haccept, hscope⟩ := body_of_suffix h.symm
    exact ⟨hbody.trans hbody'.symm, haccept.symm, hscope.symm⟩
  · by_cases hbody' : r'.body = ""
    · rw [suffix_of_empty hbody'] at h
      exact absurd (body_of_suffix h).1 hbody
    · rw [suffix_of_ne hbody, suffix_of_ne hbody'] at h
      have hcolon := d.notMem_hex (c := ':') (by decide)
      obtain ⟨hhex, htags⟩ := append_inj_of_notMem (hcolon r.body) (hcolon r'.body)
        (tags_head scopeMark _ _) (tags_head scopeMark _ _) (List.cons.inj h).2
      exact ⟨hinj (String.toList_injective hhex), (tags_eq_iff scopeMark (by decide)).mp htags⟩

theorem colon_notMem_pathQuery (h : ':' ∉ r.url.escapedPath.toList) : ':' ∉ r.pathQuery.toList := by
  obtain ⟨rest, hpq, -, hcolon⟩ := pathAndQueryForUpstream_toList r.url
  unfold pathQuery
  rw [hpq, List.mem_append, not_or]
  refine ⟨?_, hcolon⟩
  unfold rootedPath
  split_ifs
  · decide
  · exact h

theorem key_toList (d : Digest) (r : DedupRequest) : (r.key d).toList =
    r.networkID.toList ++ ':' :: (r.method.toList ++ ':' :: (r.pathQuery.toList ++ r.suffix d)) := by
  simp [key, dedupKey, suffix, tags, pathQuery]

theorem key_eq_iff (hr : r.Multiplexed) (hr' : r'.Multiplexed) :
    r.key d = r'.key d ↔ r.networkID = r'.networkID ∧ r.method = r'.method ∧
      r.pathQuery.toList ++ r.suffix d = r'.pathQuery.toList ++ r'.suffix d := by
  have hmethod : ∀ {r : DedupRequest}, r.Multiplexed → ':' ∉ r.method.toList := by
    intro r hr
    rcases hr.method with h | h <;> rw [h] <;> decide
  rw [← String.toList_inj, key_toList, key_toList]
  constructor
  · intro h
    obtain ⟨hid, hrest⟩ := append_inj_of_notMem (colon_notMem_of_validIdentifier hr.networkID)
      (colon_notMem_of_validIdentifier hr'.networkID) (Or.inr rfl) (Or.inr rfl) h
    obtain ⟨hm, hrest⟩ := append_inj_of_notMem (hmethod hr) (hmethod hr') (Or.inr rfl) (Or.inr rfl)
      (List.cons.inj hrest).2
    exact ⟨String.toList_injective hid, String.toList_injective hm, (List.cons.inj hrest).2⟩
  · rintro ⟨hid, hm, hrest⟩
    rw [hid, hm, hrest]

theorem Absorbs.of_append {x : List Char} (hx : x ≠ []) (hpath : r.pathQuery.toList = r'.pathQuery.toList ++ x)
    (hsuffix : r'.suffix d = x ++ r.suffix d) : Absorbs d r r' := by
  have hpq : ∀ w : String, x = w.toList → r.pathQuery = r'.pathQuery ++ w := by
    intro w hw
    apply String.toList_injective
    rw [hpath, hw, String.toList_append]
  have hboundary := r.suffix_boundary d
  have hdigest : (d.tag r'.body).toList = [] ∨ ∃ v, ':' ∉ v ∧ (d.tag r'.body).toList = ':' :: v :=
    (d.tag_toList r'.body).imp_right (fun h => ⟨_, d.notMem_hex (by decide) r'.body, h⟩)
  have haccept : (acceptTag r'.acceptBinary).toList = [] ∨
      ∃ v, ':' ∉ v ∧ (acceptTag r'.acceptBinary).toList = ':' :: v := by
    cases r'.acceptBinary with
    | false => exact Or.inl rfl
    | true => exact Or.inr ⟨"accept=binary".toList, by decide, rfl⟩
  -- The digest of `r'` comes first, then its accept mark, then its scope.
  obtain ⟨y, rfl, hy⟩ := append_of_tag hdigest hx hboundary hsuffix
  by_cases hyne : y = []
  · subst hyne
    obtain ⟨hbody, hflag, hscope⟩ := body_of_suffix hy.symm
    have hbody' : r'.body ≠ "" := by
      intro hempty
      rw [Digest.tag, if_pos hempty] at hx
      exact hx rfl
    have htag : d.tag r'.body = ":" ++ d.hex r'.body := if_neg hbody'
    refine .digest ?_ hbody' hbody hflag hscope
    rw [String.append_assoc, ← htag]
    exact hpq _ (List.append_nil _)
  obtain ⟨z, rfl, hz⟩ := append_of_tag haccept hyne hboundary hy
  by_cases hzne : z = []
  · subst hzne
    obtain ⟨hbody, hflag, hscope⟩ := body_of_suffix (b := false) hz.symm
    have hbinary : r'.acceptBinary = true := by
      cases hflag' : r'.acceptBinary with
      | true => rfl
      | false =>
        rw [hflag'] at hyne
        exact absurd rfl hyne
    refine .accept ?_ hbody hflag hbinary hscope
    rw [String.append_assoc]
    apply hpq
    rw [hbinary, List.append_nil, String.toList_append]
    rfl
  have hscope' : r'.scope ≠ "" := by
    intro hempty
    rw [scopeTag, if_pos hempty] at hz
    exact hzne (List.append_eq_nil_iff.mp hz.symm).1
  rw [scopeTag, if_neg hscope', String.toList_append] at hz
  obtain ⟨t, rfl, ht⟩ := append_of_tag (Or.inr ⟨"scope=".toList, by decide, rfl⟩) hzne hboundary hz
  refine .scope (String.ofList t) hscope' ?_ ?_
  · simp only [String.append_assoc]
    apply hpq
    simp only [String.toList_append, String.toList_ofList]
    rfl
  · apply String.toList_injective
    simp only [String.toList_append, String.toList_ofList, List.append_assoc]
    exact ht

theorem append_of_suffix {w : String} (hw : ':' ∈ w.toList) (hpath : r.pathQuery = r'.pathQuery ++ w)
    (hsuffix : r'.suffix d = w.toList ++ r.suffix d) :
    r.pathQuery.toList ++ r.suffix d = r'.pathQuery.toList ++ r'.suffix d ∧ r.pathQuery ≠ r'.pathQuery := by
  constructor
  · rw [hpath, hsuffix, String.toList_append, List.append_assoc]
  · intro hsame
    rw [hsame] at hpath
    have hlist := congrArg String.toList hpath
    rw [String.toList_append] at hlist
    rw [List.self_eq_append_right.mp hlist] at hw
    exact absurd hw List.not_mem_nil

theorem Absorbs.append (h : Absorbs d r r') :
    r.pathQuery.toList ++ r.suffix d = r'.pathQuery.toList ++ r'.suffix d ∧ r.pathQuery ≠ r'.pathQuery := by
  cases h with
  | digest hpath hbody hnone haccept hscope =>
    rw [String.append_assoc] at hpath
    apply append_of_suffix (by simp) hpath
    rw [suffix_of_empty hnone, suffix_of_ne hbody, haccept, hscope, String.toList_append]
    rfl
  | accept hpath hnone hjson hbinary hscope =>
    rw [String.append_assoc] at hpath
    apply append_of_suffix (by simp) hpath
    rw [suffix_of_empty hnone, hjson, hscope, suffix, hbinary, String.toList_append, List.append_assoc]
    rfl
  | scope s hscope' hpath hscope =>
    simp only [String.append_assoc] at hpath
    apply append_of_suffix (by simp) hpath
    have hlist := congrArg String.toList hscope
    simp only [String.toList_append, List.append_assoc] at hlist
    rw [suffix, tags, scopeTag, if_neg hscope']
    simp only [String.toList_append, List.append_assoc]
    rw [hlist]
    rfl

/-- Requests with equal keys are the same unless the path of one absorbs a part of the key of the
other. -/
theorem same_of_key_iff (hr : r.Multiplexed) (hr' : r'.Multiplexed)
    (hinj : d.hex r.body = d.hex r'.body → r.body = r'.body) :
    ((r.key d = r'.key d → r.Same r') ↔
      ¬ (r.networkID = r'.networkID ∧ r.method = r'.method ∧ (Absorbs d r r' ∨ Absorbs d r' r))) ∧
    (':' ∉ r.url.escapedPath.toList → ':' ∉ r'.url.escapedPath.toList → r.key d = r'.key d → r.Same r') := by
  have hsame : r.networkID = r'.networkID → r.method = r'.method → r.pathQuery = r'.pathQuery →
      r.suffix d = r'.suffix d → r.Same r' := by
    intro hid hm hpath hsuffix
    obtain ⟨hbody, haccept, hscope⟩ := suffix_inj hinj hsuffix
    exact ⟨hid, hm, hpath, hbody, hscope, haccept⟩
  rw [key_eq_iff hr hr']
  refine ⟨⟨?_, ?_⟩, ?_⟩
  · rintro h ⟨hid, hm, habsorbs | habsorbs⟩
    · exact habsorbs.append.2 (h ⟨hid, hm, habsorbs.append.1⟩).pathQuery
    · exact habsorbs.append.2 (h ⟨hid, hm, habsorbs.append.1.symm⟩).pathQuery.symm
  · rintro h ⟨hid, hm, hrest⟩
    rcases List.append_eq_append_iff.mp hrest with ⟨x, hpath, hsuffix⟩ | ⟨x, hpath, hsuffix⟩
    · by_cases hx : x = []
      · subst hx
        exact hsame hid hm (String.toList_injective (by simpa using hpath.symm)) hsuffix
      · exact absurd ⟨hid, hm, Or.inr (Absorbs.of_append hx hpath hsuffix)⟩ h
    · by_cases hx : x = []
      · subst hx
        exact hsame hid hm (String.toList_injective (by simpa using hpath)) hsuffix.symm
      · exact absurd ⟨hid, hm, Or.inl (Absorbs.of_append hx hpath hsuffix)⟩ h
  · rintro hpath hpath' ⟨hid, hm, hrest⟩
    obtain ⟨hpq, hsuffix⟩ := append_inj_of_notMem (colon_notMem_pathQuery hpath) (colon_notMem_pathQuery hpath')
      (r.suffix_boundary d) (r'.suffix_boundary d) hrest
    exact hsame hid hm (String.toList_injective hpq) hsuffix

theorem same_of_key_token :
    let first : DedupRequest := ⟨"mainnet", "GET", ⟨"/eth", "", [("token", "x")]⟩, "", "", true⟩
    let second : DedupRequest := ⟨"mainnet", "GET", ⟨"/eth", "", [("token", "y")]⟩, "", "", true⟩
    first.key (Config.caching []).digest = second.key (Config.caching []).digest ∧ first.Same second := by
  intro first second
  have hkey : first.key (Config.caching []).digest = second.key (Config.caching []).digest := by decide
  have hfirst : first.Multiplexed := ⟨by decide, Or.inl rfl⟩
  have hsecond : second.Multiplexed := ⟨by decide, Or.inl rfl⟩
  exact ⟨hkey, (same_of_key_iff hfirst hsecond (fun _ => rfl)).2 (by decide) (by decide) hkey⟩

theorem accept_mark_shared :
    let marked : DedupRequest := ⟨"mainnet", "GET", ⟨"/eth:accept=binary", "", []⟩, "", "", false⟩
    let binary : DedupRequest := ⟨"mainnet", "GET", ⟨"/eth", "", []⟩, "", "", true⟩
    marked.key (Config.caching []).digest = binary.key (Config.caching []).digest ∧
      marked.pathQuery ≠ binary.pathQuery ∧ marked.acceptBinary ≠ binary.acceptBinary := by
  decide

end DedupRequest

end Tags

end EBeacon.Network
