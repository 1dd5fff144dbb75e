import EBeacon.Library.Cleaning
import EBeacon.Proxy.Credentials

/-!
What is left of an escaped path behind its prefixes. The proxy strips networks and keys from the decoded and from
the escaped path, a network strips clients from the decoded path only.
-/

namespace EBeacon.Proxy

open Text Network Upstream

def forwarded (p : Proxy) (cfg : Config) (pool : Pool) (rawPath rawQuery : List Char) : Option String :=
  (p.networkURL cfg pool rawPath rawQuery).map pathAndQueryForUpstream

def PlainSlashes (l : List Char) : Prop := (Percent.unescape l).map (List.count '/') = some (l.count '/')

instance decidablePlainSlashes (l : List Char) : Decidable (PlainSlashes l) := inferInstanceAs (Decidable (_ = _))

section Stripping

theorem routeRequest_rest {p : Proxy} {path : String} {route : Route} (h : p.routeRequest path = some route) :
    route.rest = stripPathSegments path route.strip := by
  unfold routeRequest at h
  unfold stripPathSegments
  dsimp only at h
  split_ifs at h
  rcases hsplit : split '/' (trimPrefix path "/") with _ | ⟨seg0, _ | ⟨seg1, segs⟩⟩
  · rw [hsplit] at h
    cases h
  · rw [hsplit] at h
    dsimp only at h
    split_ifs at h
    cases h
    rfl
  · rw [hsplit] at h
    dsimp only at h
    split_ifs at h
    all_goals
      cases h
      rfl

theorem stripPathSegments_zero {e : List Char} (he : e.head? = some '/') :
    (stripPathSegments (String.ofList e) 0).toList = e := by
  obtain ⟨l, rfl⟩ := List.head?_eq_some_iff.mp he
  rw [stripPathSegments_toList String.toList_ofList, List.drop_zero, if_neg (List.splitOn_ne_nil _ _),
    separated_splitOn]

theorem stripPathSegments_append {outer e : List Char} (houter : outer.head? = some '/') (he : e.head? = some '/')
    (k : ℕ) : stripPathSegments (String.ofList (outer ++ e)) (outer.count '/' + k) =
      stripPathSegments (String.ofList e) k := by
  obtain ⟨o, rfl⟩ := List.head?_eq_some_iff.mp houter
  obtain ⟨l, rfl⟩ := List.head?_eq_some_iff.mp he
  have hlist : (String.ofList ('/' :: o ++ '/' :: l)).toList = '/' :: (o ++ '/' :: l) := String.toList_ofList
  apply String.toList_injective
  rw [stripPathSegments_toList hlist, stripPathSegments_toList String.toList_ofList, List.splitOn_append_cons_self,
    ← length_splitOn, List.drop_append, List.drop_eq_nil_of_le (Nat.le_add_right _ _), Nat.add_sub_cancel_left,
    List.nil_append]

theorem stripPathSegments_suffix {e : List Char} (he : e.head? = some '/') {k : ℕ} (hk : k ≠ 0) :
    (stripPathSegments (String.ofList e) k).toList = ['/'] ∨
      ∃ front, front ≠ [] ∧ e = front ++ (stripPathSegments (String.ofList e) k).toList := by
  obtain ⟨l, rfl⟩ := List.head?_eq_some_iff.mp he
  rw [stripPathSegments_toList String.toList_ofList]
  split_ifs with hnil
  · exact Or.inl rfl
  · refine Or.inr ⟨separated '/' ((l.splitOn '/').take k), ?_, ?_⟩
    · obtain ⟨w, words, hw⟩ := List.exists_cons_of_ne_nil (List.splitOn_ne_nil '/' l)
      obtain ⟨k, rfl⟩ := Nat.exists_eq_succ_of_ne_zero hk
      rw [hw]
      exact List.cons_ne_nil _ _
    · rw [← separated_splitOn]
      nth_rewrite 1 [← List.take_append_drop k (l.splitOn '/')]
      exact List.flatMap_append

theorem count_stripPathSegments {path : String} (hpath : path.toList.head? = some '/') {n : ℕ}
    (hne : stripPathSegments path n ≠ "/") :
    (stripPathSegments path n).toList.count '/' + n = path.toList.count '/' := by
  obtain ⟨l, hl⟩ := List.head?_eq_some_iff.mp hpath
  have hlist : (stripPathSegments path n).toList ≠ ['/'] := fun h => hne (String.toList_injective h)
  rw [stripPathSegments_toList hl] at hlist ⊢
  split_ifs at hlist ⊢ with hnil
  · exact absurd rfl hlist
  · have hlt : n < (l.splitOn '/').length := by
      rw [← not_le, ← List.drop_eq_nil_iff]
      exact hnil
    rw [count_separated fun w hw => notMem_of_mem_splitOn (List.mem_of_mem_drop hw), List.length_drop, hl,
      ← length_splitOn]
    omega

end Stripping

structure Prefixed (p : Proxy) (cfg : Config) (pool : Pool) (outer inner e : List Char) (rest resource : String) :
    Prop where
  head : e.head? = some '/'
  decodes : Percent.unescape e = some resource.toList
  beacon : hasPrefix resource "/eth/v" = true
  client : inner = [] ∨ inner.head? = some '/'
  decodes_rest : Percent.unescape (inner ++ e) = some rest.toList
  clientPath : cfg.clientPath pool rest = resource
  served : ∃ path : String, Percent.unescape (outer ++ inner ++ e) = some path.toList ∧
    (outer = [] ∧ p.routeRequest path = none ∧ p.networks.length = 1 ∨
      outer.head? = some '/' ∧ ∃ network key strip, p.routeRequest path = some ⟨network, rest, key, strip⟩)

def Kept (outer inner e : List Char) (resource : String) : Prop :=
  URL.validEncoded e = true → e = Percent.escape URL.pathByte resource.toList ∨
    inner = [] ∧ (outer = [] ∨ URL.validEncoded outer = true ∧ PlainSlashes outer ∧ e ≠ resource.toList)

section Prefixes

variable {p : Proxy} {cfg : Config} {pool : Pool} {outer inner e : List Char} {rest resource : String}

theorem two_le_count_of_beacon (h : hasPrefix resource "/eth/v" = true) : 2 ≤ resource.toList.count '/' := by
  obtain ⟨t, rfl⟩ := exists_of_hasPrefix h
  rw [String.toList_append, List.count_append]
  exact Nat.le_add_right _ _

theorem head_of_beacon (h : hasPrefix resource "/eth/v" = true) : resource.toList.head? = some '/' := by
  obtain ⟨t, rfl⟩ := exists_of_hasPrefix h
  rw [String.toList_append]
  rfl

theorem ne_of_beacon (h : hasPrefix resource "/eth/v" = true) {s : String} (hs : s.toList.count '/' < 2) :
    resource ≠ s := by
  rintro rfl
  exact absurd (two_le_count_of_beacon h) (not_le.mpr hs)

theorem exists_setPath {raw x : List Char} (h : Percent.unescape raw = some x) :
    ∃ u, URL.setPath raw [] = some u := by
  unfold URL.setPath
  rw [h]
  exact ⟨_, rfl⟩

theorem validEncoded_append {a b : List Char} :
    URL.validEncoded (a ++ b) = true ↔ URL.validEncoded a = true ∧ URL.validEncoded b = true := by
  unfold URL.validEncoded
  rw [List.all_append, Bool.and_eq_true]

theorem unescape_prefixed (he : e.head? = some '/') {x : List Char} (h : Percent.unescape (outer ++ e) = some x)
    (hdecodes : Percent.unescape e = some resource.toList) :
    ∃ front, Percent.unescape outer = some front ∧ x = front ++ resource.toList := by
  obtain ⟨l, rfl⟩ := List.head?_eq_some_iff.mp he
  rw [Percent.unescape_append (by decide), hdecodes] at h
  obtain ⟨front, hfront, h⟩ := Option.bind_eq_some_iff.mp h
  exact ⟨front, hfront, (Option.some.inj h).symm⟩

theorem head_unescape {raw x : List Char} (hraw : raw.head? = some '/') (h : Percent.unescape raw = some x) :
    x.head? = some '/' := by
  obtain ⟨l, rfl⟩ := List.head?_eq_some_iff.mp hraw
  rw [URL.unescape_slash] at h
  obtain ⟨y, -, rfl⟩ := Option.map_eq_some_iff.mp h
  rfl

section Stripped

variable {front : List Char} {path : String} {strip : ℕ} (hbeacon : hasPrefix resource "/eth/v" = true)
  (houter : outer.head? = some '/') (hfront : Percent.unescape outer = some front)
  (hpath : path.toList = front ++ resource.toList) (hrest : resource = stripPathSegments path strip)

include houter hfront hpath

theorem head_of_prefixed : path.toList.head? = some '/' := by
  rw [hpath, List.head?_append, head_unescape houter hfront]
  rfl

include hbeacon hrest

theorem strip_eq_count : strip = front.count '/' := by
  have hne : stripPathSegments path strip ≠ "/" := hrest ▸ ne_of_beacon hbeacon (by decide)
  have hcount := count_stripPathSegments (head_of_prefixed houter hfront hpath) hne
  rw [← hrest, hpath, List.count_append] at hcount
  omega

theorem strip_cases (he : e.head? = some '/') (hdecodes : Percent.unescape e = some resource.toList) :
    PlainSlashes outer ∧ (stripPathSegments (String.ofList (outer ++ e)) strip).toList = e ∨
      ¬PlainSlashes outer ∧
        Percent.unescape (stripPathSegments (String.ofList (outer ++ e)) strip).toList ≠ some resource.toList := by
  have hplain : PlainSlashes outer ↔ front.count '/' = outer.count '/' := by
    unfold PlainSlashes
    rw [hfront, Option.map_some, Option.some.injEq]
  have hle : outer.count '/' ≤ front.count '/' := Percent.count_le_unescape (by decide) (by decide) hfront
  obtain ⟨k, hk⟩ := Nat.exists_eq_add_of_le hle
  rw [strip_eq_count hbeacon houter hfront hpath hrest, hk, stripPathSegments_append houter he]
  by_cases hzero : k = 0
  · subst hzero
    exact Or.inl ⟨hplain.mpr hk, stripPathSegments_zero he⟩
  · refine Or.inr ⟨fun h => hzero (by have := hplain.mp h; omega), fun hsame => ?_⟩
    rcases stripPathSegments_suffix he hzero with hroot | ⟨a, ha, hsplit⟩
    · rw [hroot] at hsame
      have hslash : resource = "/" := String.toList_injective (Option.some.inj hsame).symm
      exact ne_of_beacon hbeacon (by decide) hslash
    · have hhead : (stripPathSegments (String.ofList e) k).toList.head? = some '/' := by
        obtain ⟨l, rfl⟩ := List.head?_eq_some_iff.mp he
        exact stripPathSegments_head String.toList_ofList k
      rw [hsplit] at hdecodes
      obtain ⟨x, hx, heq⟩ := unescape_prefixed hhead hdecodes hsame
      have hnil : x = [] := List.self_eq_append_left.mp heq
      exact Percent.unescape_ne_nil ha (hnil ▸ hx)

end Stripped

theorem escapedPath_of_sent {v : URL} {sent : String} (hbeacon : hasPrefix resource "/eth/v" = true)
    (hpath : v.path = resource) (hraw : v.rawPath = if sent ≠ resource then sent else "")
    (hvalid : URL.validEncoded sent.toList = true) (hdecodes : Percent.unescape sent.toList = some resource.toList) :
    v.escapedPath.toList =
      if sent.toList ≠ resource.toList then sent.toList else Percent.escape URL.pathByte resource.toList := by
  have hstar : resource ≠ "*" := ne_of_beacon hbeacon (by decide)
  by_cases hsame : sent = resource
  · rw [if_neg (not_not.mpr (congrArg String.toList hsame))]
    exact escapedPath_not_own hpath hraw hstar fun hown => hown.ne_path hsame
  · rw [if_pos fun heq => hsame (String.toList_injective heq)]
    by_cases hdefault : sent.toList = Percent.escape URL.pathByte resource.toList
    · rw [escapedPath_not_own hpath hraw hstar fun hown => hown.ne_default hdefault, hdefault]
    · rw [escapedPath_own hpath hraw (ne_of_beacon hbeacon (by decide)) ⟨hsame, hvalid, hdecodes, hdefault⟩]

theorem escapedPath_stripped {u : URL} {path network key : String} {strip : ℕ}
    (hbeacon : hasPrefix resource "/eth/v" = true) (he : e.head? = some '/') (houter : outer.head? = some '/')
    (hdecodes : Percent.unescape e = some resource.toList)
    (hpath : Percent.unescape (outer ++ e) = some path.toList)
    (hu : URL.setPath (outer ++ e) [] = some u)
    (hroute : p.routeRequest path = some ⟨network, resource, key, strip⟩) :
    (stripURL ⟨network, resource, key, strip⟩ u).escapedPath.toList =
      if URL.validEncoded (outer ++ e) = true ∧ PlainSlashes outer ∧ e ≠ resource.toList then e
      else Percent.escape URL.pathByte resource.toList := by
  obtain ⟨front, hfront, hwhole⟩ := unescape_prefixed he hpath hdecodes
  have hrest := routeRequest_rest hroute
  have hhead := head_of_prefixed houter hfront hwhole
  obtain ⟨hupath, hescaped⟩ := escapedPath_setPath hhead hpath hu
  cases hvalid : URL.validEncoded (outer ++ e) with
  | false =>
    obtain ⟨l, hl⟩ := List.head?_eq_some_iff.mp hhead
    rw [hvalid] at hescaped
    rw [if_neg (fun h => Bool.false_ne_true h.1)]
    exact escapedPath_stripURL_default hl hrest hescaped
  | true =>
    rw [hvalid, if_pos rfl] at hescaped
    have hesc : u.escapedPath = String.ofList (outer ++ e) :=
      String.toList_injective (by rw [hescaped, String.toList_ofList])
    have hne : u.escapedPath ≠ resource := by
      intro hsame
      have hle := Percent.length_unescape hpath
      have hlonger : front ≠ [] := by
        rintro rfl
        exact Percent.unescape_ne_nil (by rintro rfl; cases houter) hfront
      have hpos := List.length_pos_iff.mpr hlonger
      rw [← hescaped, hsame, hwhole, List.length_append] at hle
      omega
    have hraw : (stripURL ⟨network, resource, key, strip⟩ u).rawPath = _ := rawPath_stripURL rfl hne
    rw [hesc] at hraw
    -- What is stripped from the escaped path is right exactly if no slash of `outer` is escaped.
    rcases strip_cases hbeacon houter hfront hwhole hrest he hdecodes with ⟨hplain, hsent⟩ | ⟨hplain, hsent⟩
    · have hvalid' := (validEncoded_append.mp hvalid).2
      rw [← hsent] at hvalid' hdecodes
      rw [escapedPath_of_sent hbeacon rfl hraw hvalid' hdecodes, hsent]
      exact if_congr (by simp [hplain]) rfl rfl
    · rw [if_neg (fun h => hplain h.2.1)]
      apply escapedPath_not_own rfl hraw (ne_of_beacon hbeacon (by decide))
      exact fun hown => hsent hown.decodes

theorem Prefixed.path_ne_healthz (h : Prefixed p cfg pool outer inner e rest resource) {path : String}
    (hpath : Percent.unescape (outer ++ inner ++ e) = some path.toList) : path ≠ "/healthz" := by
  obtain ⟨front, -, hwhole⟩ := unescape_prefixed h.head hpath h.decodes
  rintro rfl
  have hone : "/healthz".toList.count '/' = 1 := by decide
  have htwo := two_le_count_of_beacon h.beacon
  rw [hwhole, List.count_append] at hone
  omega

theorem Prefixed.head_path (h : Prefixed p cfg pool outer inner e rest resource) :
    (outer ++ inner ++ e).head? = some '/' := by
  obtain ⟨path, -, hserved⟩ := h.served
  rcases hserved with ⟨rfl, -⟩ | ⟨houter, -⟩
  · rcases h.client with rfl | hinner
    · exact h.head
    · rw [List.nil_append, List.head?_append, hinner]
      rfl
  · rw [List.append_assoc, List.head?_append, houter]
    rfl

theorem Prefixed.serve (h : Prefixed p cfg pool outer inner e rest resource) :
    ∃ s, (URL.setPath (outer ++ inner ++ e) []).bind p.serve = some s ∧ s.2.path = rest ∧
      (inner = [] → s.2.escapedPath.toList =
        if URL.validEncoded e = true ∧
            (outer = [] ∨ URL.validEncoded outer = true ∧ PlainSlashes outer ∧ e ≠ resource.toList) then e
        else Percent.escape URL.pathByte resource.toList) := by
  obtain ⟨path, hpath, hserved⟩ := h.served
  obtain ⟨u, hu⟩ := exists_setPath hpath
  obtain ⟨hupath, hescaped⟩ := escapedPath_setPath (head_unescape h.head_path hpath) hpath hu
  rw [hu, Option.bind_some]
  unfold Proxy.serve
  rw [hupath, if_neg (h.path_ne_healthz hpath)]
  rcases hserved with ⟨rfl, hroute, hsingle⟩ | ⟨houter, network, key, strip, hroute⟩
  · obtain ⟨single, hnetworks⟩ := List.length_eq_one_iff.mp hsingle
    rw [hroute, hnetworks]
    refine ⟨_, rfl, ?_, fun hinner => ?_⟩
    · rw [hupath]
      exact String.toList_injective (Option.some.inj (hpath.symm.trans h.decodes_rest))
    · subst hinner
      have hsame : path.toList = resource.toList := Option.some.inj (hpath.symm.trans h.decodes)
      rw [hsame] at hescaped
      rw [hescaped]
      simp
  · rw [hroute]
    refine ⟨_, rfl, rfl, fun hinner => ?_⟩
    subst hinner
    have hsame : rest = resource :=
      String.toList_injective (Option.some.inj (h.decodes_rest.symm.trans h.decodes))
    subst hsame
    rw [List.append_nil] at hpath hu
    have hne : outer ≠ [] := by
      rintro rfl
      cases houter
    rw [escapedPath_stripped h.beacon h.head houter h.decodes hpath hu hroute]
    refine if_congr ?_ rfl rfl
    rw [validEncoded_append]
    tauto

theorem escapedPath_unprefixed (h : Prefixed p cfg pool outer inner e rest resource) :
    ∃ u, URL.setPath e [] = some u ∧ u.path = resource ∧ u.escapedPath.toList =
      if URL.validEncoded e = true then e else Percent.escape URL.pathByte resource.toList := by
  obtain ⟨u, hu⟩ := exists_setPath h.decodes
  exact ⟨u, hu, escapedPath_setPath (head_of_beacon h.beacon) h.decodes hu⟩

theorem pathAndQuery_eq_iff {u v : URL} (hu : u.path ≠ "") (hv : v.path ≠ "") (query : List (String × String)) :
    pathAndQueryForUpstream { u with query := query } = pathAndQueryForUpstream { v with query := query } ↔
      u.escapedPath.toList = v.escapedPath.toList := by
  unfold pathAndQueryForUpstream
  rw [rootedPath_query hu, rootedPath_query hv]
  constructor
  · intro h
    rw [withQuery_inj h]
  · intro h
    rw [String.toList_injective h]
    rfl

theorem escapedPath_cloned (h : Prefixed p cfg pool outer inner e rest resource) {v : URL} (hpath : v.path = rest)
    (hinner : inner ≠ []) :
    (cloneWithPath v resource).path = resource ∧
      (cloneWithPath v resource).escapedPath.toList = Percent.escape URL.pathByte resource.toList := by
  obtain ⟨front, hfront, hwhole⟩ := unescape_prefixed h.head h.decodes_rest h.decodes
  have hne : resource ≠ v.path := by
    rintro hsame
    rw [← hpath, ← hsame] at hwhole
    have hnil : front = [] := List.self_eq_append_left.mp hwhole
    exact Percent.unescape_ne_nil hinner (hnil ▸ hfront)
  rw [cloneWithPath, if_neg hne]
  exact ⟨rfl, escapedPath_default (ne_of_beacon h.beacon (by decide)) (Or.inl rfl)⟩

/-- What the upstream is asked for is that of the request without prefixes exactly if its encoding is kept. -/
theorem forwarded_prefixed_iff (h : Prefixed p cfg pool outer inner e rest resource) (rawQuery : List Char) :
    p.forwarded cfg pool (outer ++ inner ++ e) rawQuery = (URL.setPath e rawQuery).map pathAndQueryForUpstream ↔
      Kept outer inner e resource := by
  obtain ⟨s, hserve, hspath, hsescaped⟩ := h.serve
  obtain ⟨u, hu, hupath, huescaped⟩ := escapedPath_unprefixed h
  have hresource : resource ≠ "" := ne_of_beacon h.beacon (by decide)
  have hcloned : (cloneWithPath s.2 resource).path = resource ∧
      (cloneWithPath s.2 resource).escapedPath.toList =
        if URL.validEncoded e = true ∧ inner = [] ∧
            (outer = [] ∨ URL.validEncoded outer = true ∧ PlainSlashes outer ∧ e ≠ resource.toList) then e
        else Percent.escape URL.pathByte resource.toList := by
    by_cases hinner : inner = []
    · have hsame : resource = s.2.path := by
        rw [hspath]
        have hdecodes := h.decodes_rest
        rw [hinner, List.nil_append, h.decodes] at hdecodes
        exact String.toList_injective (Option.some.inj hdecodes)
      rw [cloneWithPath, if_pos hsame, hsescaped hinner]
      exact ⟨hsame.symm, if_congr (by tauto) rfl rfl⟩
    · rw [if_neg (fun hkept => hinner hkept.2.1)]
      exact escapedPath_cloned h hspath hinner
  unfold forwarded
  rw [networkURL_eq, hserve, setPath_eq, hu, Option.map_some, Option.map_some, Option.map_some, Option.map_some,
    Option.some.injEq, hspath, h.clientPath]
  refine (pathAndQuery_eq_iff (ne_of_eq_of_ne hcloned.1 hresource) (ne_of_eq_of_ne hupath hresource) _).trans ?_
  rw [hcloned.2, huescaped]
  unfold Kept
  by_cases hvalid : URL.validEncoded e = true
  · rw [if_pos hvalid]
    split_ifs with hkept
    · exact iff_of_true rfl fun _ => Or.inr hkept.2
    · constructor
      · exact fun heq _ => Or.inl heq.symm
      · intro hor
        rcases hor hvalid with heq | hkept'
        · exact heq.symm
        · exact absurd ⟨hvalid, hkept'⟩ hkept
  · rw [if_neg hvalid, if_neg (fun hkept => hvalid hkept.1)]
    exact iff_of_true rfl fun hvalid' => absurd hvalid' hvalid

end Prefixes

def mainnetOnly : Proxy := ⟨["mainnet"], none⟩

theorem forwarded_prefixed_network :
    mainnetOnly.forwarded (.caching []) (.allReady []) ("/mainnet".toList ++ [] ++ "/eth/v1/a%2Fb".toList) [] =
      (URL.setPath "/eth/v1/a%2Fb".toList []).map pathAndQueryForUpstream := by
  have hprefixed : Prefixed mainnetOnly (.caching []) (.allReady []) "/mainnet".toList [] "/eth/v1/a%2Fb".toList
      "/eth/v1/a/b" "/eth/v1/a/b" :=
    ⟨by decide, by decide, by decide, Or.inl rfl, by decide, by decide +kernel,
      "/mainnet/eth/v1/a/b", by decide, Or.inr ⟨by decide, "mainnet", "", 1, by decide +kernel⟩⟩
  exact (forwarded_prefixed_iff hprefixed []).mpr fun _ =>
    Or.inr ⟨rfl, Or.inr ⟨by decide, by decide, by decide⟩⟩

theorem client_unescapes_slash :
    mainnetOnly.forwarded (.caching []) (.allReady [⟨"node", false⟩]) "/lighthouse/eth/v1/a%2Fb".toList [] =
        some "/eth/v1/a/b" ∧
      (URL.setPath "/eth/v1/a%2Fb".toList []).map pathAndQueryForUpstream = some "/eth/v1/a%2Fb" := by
  decide +kernel

end EBeacon.Proxy
