import EBeacon.Network.Server
import EBeacon.Network.UpstreamRequest
import EBeacon.Proxy.Routing

namespace EBeacon

open Text Upstream

namespace Network

def Config.clientPath (cfg : Config) (pool : Pool) (path : String) : String :=
  let (newPath, clientUpstream) := applyClientPrefix cfg.clientRoutes path
  if clientUpstream ≠ "" then newPath
  else ((inferClientSelectorPath pool path).map Prod.fst).getD path

theorem Config.rewriteClientPath_fst (cfg : Config) (pool : Pool) (u : URL) :
    (cfg.rewriteClientPath pool u).1 = cloneWithPath u (cfg.clientPath pool u.path) := by
  unfold Config.rewriteClientPath Config.clientPath
  dsimp only
  split_ifs
  · rfl
  · cases inferClientSelectorPath pool u.path with
    | none => simp [cloneWithPath]
    | some q => rfl

end Network

namespace Proxy

open Network

structure ClientRequest where
  rawPath : List Char
  rawQuery : List Char
  header : Header

def upstreamRequest (p : Proxy) (cfg : Config) (pool : Pool) (b : Backend) (r : ClientRequest) :
    Option UpstreamRequest := do
  let u ← URL.setPath r.rawPath r.rawQuery
  let (_, u) ← p.serve u
  return newUpstreamRequest b (cfg.rewriteClientPath pool u).1 r.header

def networkURL (p : Proxy) (cfg : Config) (pool : Pool) (rawPath rawQuery : List Char) : Option URL := do
  let u ← URL.setPath rawPath rawQuery
  let (_, u) ← p.serve u
  return (cfg.rewriteClientPath pool u).1

section Queries

variable {cfg : Config} {pool : Pool} {b : Backend}

theorem newUpstreamRequest_eq {u v : URL} {h h' : Header} (hpath : rootedPath u = rootedPath v)
    (hquery : forwardableQuery u = forwardableQuery v) (hheader : SameHeaders h h') :
    newUpstreamRequest b u h = newUpstreamRequest b v h' := by
  unfold newUpstreamRequest pathAndQueryForUpstream
  rw [hpath, hquery, copyEndToEndHeaders_eq hheader]

theorem withQuery_inj {path path' : String} {query : List (String × String)}
    (h : withQuery path query = withQuery path' query) : path = path' := by
  unfold withQuery at h
  dsimp only at h
  split_ifs at h
  · exact h
  · have hlist := congrArg String.toList h
    simp only [String.toList_append, List.append_cancel_right_eq] at hlist
    exact String.toList_injective hlist

theorem newUpstreamRequest_eq_iff {u v : URL} {h h' : Header} (hquery : forwardableQuery u = forwardableQuery v)
    (hheader : SameHeaders h h') :
    newUpstreamRequest b u h = newUpstreamRequest b v h' ↔ rootedPath u = rootedPath v := by
  constructor
  · intro heq
    have hurl : b.url ++ pathAndQueryForUpstream u = b.url ++ pathAndQueryForUpstream v :=
      congrArg UpstreamRequest.url heq
    have hlist := congrArg String.toList hurl
    rw [String.toList_append, String.toList_append] at hlist
    have hpq := String.toList_injective (List.append_cancel_left hlist)
    unfold pathAndQueryForUpstream at hpq
    rw [hquery] at hpq
    exact withQuery_inj hpq
  · exact fun hpath => newUpstreamRequest_eq hpath hquery hheader

theorem serve_query (p : Proxy) (u : URL) (query : List (String × String)) :
    p.serve { u with query := query } = (p.serve u).map (fun s => (s.1, { s.2 with query := query })) := by
  unfold serve
  dsimp only
  split_ifs
  · rfl
  · cases p.routeRequest u.path with
    | some route => rfl
    | none =>
      dsimp only
      split <;> rfl

theorem cloneWithPath_query (u : URL) (path : String) (query : List (String × String)) :
    cloneWithPath { u with query := query } path = { cloneWithPath u path with query := query } := by
  unfold cloneWithPath
  dsimp only
  split_ifs <;> rfl

theorem setPath_eq (raw query : List Char) :
    URL.setPath raw query = (URL.setPath raw []).map (fun u => { u with query := URL.parseQuery query }) := by
  unfold URL.setPath
  rw [Option.map_map]
  rfl

theorem networkURL_eq (p : Proxy) (rawPath rawQuery : List Char) :
    p.networkURL cfg pool rawPath rawQuery = ((URL.setPath rawPath []).bind p.serve).map (fun s =>
      { cloneWithPath s.2 (cfg.clientPath pool s.2.path) with query := URL.parseQuery rawQuery }) := by
  unfold networkURL
  rw [setPath_eq]
  cases URL.setPath rawPath [] with
  | none => rfl
  | some u =>
    simp only [Option.map_some, Option.bind_eq_bind, Option.bind_some, serve_query]
    cases p.serve u with
    | none => rfl
    | some s =>
      simp only [Option.map_some, Option.bind_some, Config.rewriteClientPath_fst, cloneWithPath_query]
      rfl

theorem upstreamRequest_eq (p : Proxy) (r : ClientRequest) :
    p.upstreamRequest cfg pool b r = ((URL.setPath r.rawPath []).bind p.serve).map (fun s =>
      newUpstreamRequest b { cloneWithPath s.2 (cfg.clientPath pool s.2.path) with
        query := URL.parseQuery r.rawQuery } r.header) := by
  have hurl : p.upstreamRequest cfg pool b r =
      (p.networkURL cfg pool r.rawPath r.rawQuery).map (fun u => newUpstreamRequest b u r.header) := by
    unfold upstreamRequest networkURL
    cases URL.setPath r.rawPath r.rawQuery with
    | none => rfl
    | some u => cases hserve : p.serve u <;> simp [hserve]
  rw [hurl, networkURL_eq, Option.map_map]
  rfl

theorem upstreamRequest_of_rawPath (p : Proxy) {r r' : ClientRequest} (hpath : r.rawPath = r'.rawPath)
    (hquery : SameQuery r.rawQuery r'.rawQuery) (hheader : SameHeaders r.header r'.header) :
    p.upstreamRequest cfg pool b r = p.upstreamRequest cfg pool b r' := by
  rw [upstreamRequest_eq, upstreamRequest_eq, hpath]
  refine congrArg (fun f => Option.map f _) (funext fun s => ?_)
  exact newUpstreamRequest_eq rfl (forwardableQuery_parse hquery _ _ _ _) hheader

end Queries

section Keys

structure PathKey (p : Proxy) (before raw after : List Char) (key network rest : String) : Prop where
  decodes : Percent.unescape raw = some key.toList
  place : before = ['/'] ∨
    before.head? = some '/' ∧ Percent.unescape before = some ('/' :: (network.toList ++ ['/']))
  routed : ∃ path : String, Percent.unescape (before ++ raw ++ after) = some path.toList ∧
    p.routeRequest path = some ⟨network, rest, key, 2⟩

structure OwnEncoding (e path : String) : Prop where
  ne_path : e ≠ path
  valid : URL.validEncoded e.toList = true
  decodes : Percent.unescape e.toList = some path.toList
  ne_default : e.toList ≠ Percent.escape URL.pathByte path.toList

theorem escapedPath_default {u : URL} (hstar : u.path ≠ "*")
    (hraw : u.rawPath = "" ∨ u.rawPath.toList = Percent.escape URL.pathByte u.path.toList ∨
      ¬ (URL.validEncoded u.rawPath.toList = true ∧ Percent.unescape u.rawPath.toList = some u.path.toList)) :
    u.escapedPath.toList = Percent.escape URL.pathByte u.path.toList := by
  unfold URL.escapedPath
  split_ifs with hown
  · rcases hraw with hraw | hraw | hraw
    · exact absurd hraw hown.1
    · exact hraw
    · exact absurd hown.2 hraw
  · exact String.toList_ofList

section OwnEncoding

variable {v : URL} {sent rest : String}

theorem escapedPath_own (hpath : v.path = rest) (hraw : v.rawPath = if sent ≠ rest then sent else "")
    (hrest : rest ≠ "") (hown : OwnEncoding sent rest) : v.escapedPath = sent := by
  have hsent : sent ≠ "" := by
    rintro rfl
    have hnil : [] = rest.toList := Option.some.inj hown.decodes
    exact hrest (String.toList_injective hnil.symm)
  rw [URL.escapedPath, hraw, hpath, if_pos hown.ne_path, if_pos ⟨hsent, hown.valid, hown.decodes⟩]

theorem escapedPath_not_own (hpath : v.path = rest) (hraw : v.rawPath = if sent ≠ rest then sent else "")
    (hstar : rest ≠ "*") (hown : ¬OwnEncoding sent rest) :
    v.escapedPath.toList = Percent.escape URL.pathByte rest.toList := by
  subst hpath
  apply escapedPath_default hstar
  rw [hraw]
  by_cases hsent : sent = v.path
  · exact Or.inl (if_neg (fun h => h hsent))
  · rw [if_pos hsent]
    by_cases hdefault : sent.toList = Percent.escape URL.pathByte v.path.toList
    · exact Or.inr (Or.inl hdefault)
    · exact Or.inr (Or.inr (fun h => hown ⟨hsent, h.1, h.2, hdefault⟩))

theorem rawPath_stripURL {route : Route} {u : URL} (hsent : stripPathSegments u.escapedPath route.strip = sent)
    (hne : u.escapedPath ≠ route.rest) :
    (stripURL route u).rawPath = if sent ≠ route.rest then sent else "" := by
  unfold stripURL
  dsimp only
  rw [hsent]
  by_cases hsame : sent = route.rest
  · rw [if_neg (fun h => h.2 hsame), if_neg (fun h => h hsame)]
  · rw [if_pos ⟨hne, hsame⟩, if_pos hsame]

end OwnEncoding

theorem escapedPath_setPath {raw : List Char} {path : String} {u : URL} (hhead : path.toList.head? = some '/')
    (hpath : Percent.unescape raw = some path.toList) (hu : URL.setPath raw [] = some u) :
    u.path = path ∧ u.escapedPath.toList =
      if URL.validEncoded raw then raw else Percent.escape URL.pathByte path.toList := by
  have hstar : path ≠ "*" := by
    rintro rfl
    exact absurd hhead (by decide)
  have hne : raw ≠ [] := by
    rintro rfl
    have hnil : [] = path.toList := Option.some.inj hpath
    rw [← hnil] at hhead
    cases hhead
  unfold URL.setPath at hu
  rw [hpath, Option.map_some, String.ofList_toList] at hu
  cases hu
  refine ⟨rfl, ?_⟩
  by_cases hdefault : raw = Percent.escape URL.pathByte path.toList
  · rw [if_pos hdefault, escapedPath_default hstar (Or.inl rfl), ← hdefault, ite_self]
  · rw [if_neg hdefault]
    split_ifs with hvalid
    · have hraw : String.ofList raw ≠ "" := by
        intro hempty
        have hlist := congrArg String.toList hempty
        rw [String.toList_ofList] at hlist
        exact hne hlist
      unfold URL.escapedPath
      rw [if_pos ⟨hraw, by rwa [String.toList_ofList], by rwa [String.toList_ofList]⟩, String.toList_ofList]
    · apply escapedPath_default hstar
      refine Or.inr (Or.inr (fun h => hvalid ?_))
      rw [← String.toList_ofList (l := raw)]
      exact h.1

theorem drop_splitOn_append {a : List Char} (ha : '/' ∉ a) (rest : List Char) :
    ((a ++ rest).splitOn '/').drop 1 = (rest.splitOn '/').drop 1 := by
  by_cases hc : '/' ∈ rest
  · obtain ⟨x, y, rfl, hx⟩ := List.eq_append_cons_of_mem hc
    have hax : '/' ∉ a ++ x := by
      rw [List.mem_append, not_or]
      exact ⟨ha, hx⟩
    rw [← List.append_assoc, List.splitOn_append_cons_self, List.splitOn_append_cons_self,
      List.splitOn_eq_singleton hx, List.splitOn_eq_singleton hax]
    rfl
  · have hax : '/' ∉ a ++ rest := by
      rw [List.mem_append, not_or]
      exact ⟨ha, hc⟩
    rw [List.splitOn_eq_singleton hc, List.splitOn_eq_singleton hax]
    rfl

theorem slash_last {a : List Char} {network : String} (hnetwork : '/' ∉ network.toList)
    (h : Percent.unescape a = some (network.toList ++ ['/'])) :
    '/' ∉ a ∨ ∃ x, '/' ∉ x ∧ a = x ++ ['/'] := by
  by_cases hc : '/' ∈ a
  · obtain ⟨x, y, rfl, hx⟩ := List.eq_append_cons_of_mem hc
    refine Or.inr ⟨x, hx, ?_⟩
    rw [Percent.unescape_append rfl, URL.unescape_slash] at h
    obtain ⟨dx, -, h⟩ := Option.bind_eq_some_iff.mp h
    rw [Option.map_map] at h
    obtain ⟨dy, hdy, h⟩ := Option.map_eq_some_iff.mp h
    have hnil : dy = [] := by
      rcases List.append_eq_append_iff.mp h with ⟨z, hz, hy⟩ | ⟨z, hz, hy⟩
      · cases z with
        | nil => exact (List.cons.inj hy).2
        | cons e z =>
          rw [List.cons_append, List.cons.injEq] at hy
          exact absurd (by rw [hz, ← hy.1]; simp) hnetwork
      · cases z with
        | nil => exact (List.cons.inj hy).2.symm
        | cons e z => simp at hy
    rw [hnil] at hdy
    have hy : y = [] := by
      by_contra hne
      exact Percent.unescape_ne_nil hne hdy
    rw [hy]
  · exact Or.inl hc

theorem PathKey.head {p : Proxy} {before raw after : List Char} {key network rest : String}
    (h : PathKey p before raw after key network rest) : ∃ a, before = '/' :: a := by
  rcases h.place with hplace | ⟨hhead, -⟩
  · exact ⟨[], hplace⟩
  · obtain ⟨a, ha⟩ := List.head?_eq_some_iff.mp hhead
    exact ⟨a, ha⟩

theorem PathKey.route {p : Proxy} {before raw after : List Char} {key network rest : String}
    (h : PathKey p before raw after key network rest) :
    ∃ path l : _, path.toList = '/' :: l ∧ Percent.unescape (before ++ raw ++ after) = some path.toList ∧
      p.routeRequest path = some ⟨network, rest, key, 2⟩ := by
  obtain ⟨path, hpath, hroute⟩ := h.routed
  obtain ⟨a, rfl⟩ := h.head
  have hslash := hpath
  rw [List.cons_append, List.cons_append, URL.unescape_slash] at hslash
  obtain ⟨l, -, hl⟩ := Option.map_eq_some_iff.mp hslash
  exact ⟨path, l, hl.symm, hpath, hroute⟩

theorem PathKey.slash_notMem {p : Proxy} {before raw after : List Char} {key network rest : String}
    (h : PathKey p before raw after key network rest) : '/' ∉ raw ∧ '/' ∉ network.toList := by
  obtain ⟨path, l, hl, -, hroute⟩ := h.route
  obtain ⟨-, -, hkey, hnetwork⟩ := route_segments hl hroute
  refine ⟨fun hmem => hkey ?_, hnetwork⟩
  obtain ⟨x, y, hxy, -⟩ := List.eq_append_cons_of_mem hmem
  have hdecode := h.decodes
  rw [hxy, Percent.unescape_append rfl, URL.unescape_slash] at hdecode
  obtain ⟨dx, -, hdecode⟩ := Option.bind_eq_some_iff.mp hdecode
  rw [Option.map_map] at hdecode
  obtain ⟨dy, -, hdecode⟩ := Option.map_eq_some_iff.mp hdecode
  rw [← hdecode]
  simp

theorem stripPathSegments_key {p : Proxy} {before raw raw' after : List Char} {key key' network rest : String}
    (h : PathKey p before raw after key network rest) (h' : PathKey p before raw' after key' network rest) :
    stripPathSegments (String.ofList (before ++ raw ++ after)) 2 =
      stripPathSegments (String.ofList (before ++ raw' ++ after)) 2 := by
  obtain ⟨hraw, hnetwork⟩ := h.slash_notMem
  have hraw' := h'.slash_notMem.1
  obtain ⟨a, rfl⟩ := h.head
  have ha : '/' ∉ a ∨ ∃ x, '/' ∉ x ∧ a = x ++ ['/'] := by
    rcases h.place with hplace | ⟨-, hplace⟩
    · rw [(List.cons.inj hplace).2]
      exact Or.inl nofun
    · rw [URL.unescape_slash] at hplace
      obtain ⟨z, hz, heq⟩ := Option.map_eq_some_iff.mp hplace
      rw [(List.cons.inj heq).2] at hz
      exact slash_last hnetwork hz
  have hdrop : ∀ {k : List Char}, '/' ∉ k → ((a ++ k ++ after).splitOn '/').drop 2 =
      if '/' ∈ a then (after.splitOn '/').drop 1 else (after.splitOn '/').drop 2 := by
    intro k hk
    rcases ha with ha | ⟨x, hx, rfl⟩
    · have hak : '/' ∉ a ++ k := by
        rw [List.mem_append, not_or]
        exact ⟨ha, hk⟩
      have hone := congrArg (List.drop 1) (drop_splitOn_append hak after)
      rw [List.drop_drop, List.drop_drop] at hone
      rw [if_neg ha, hone]
    · have hcons : x ++ ['/'] ++ k ++ after = x ++ '/' :: (k ++ after) := by simp
      rw [if_pos (by simp), hcons, List.splitOn_append_cons_self, List.splitOn_eq_singleton hx]
      exact drop_splitOn_append hk after
  have hlist : ∀ k : List Char, (String.ofList ('/' :: a ++ k ++ after)).toList = '/' :: (a ++ k ++ after) :=
    fun k => String.toList_ofList
  apply String.toList_injective
  rw [stripPathSegments_toList (hlist raw), stripPathSegments_toList (hlist raw'), hdrop hraw, hdrop hraw']

theorem length_stripPathSegments {path : String} {l : List Char} (h : path.toList = '/' :: l)
    (hlength : 2 ≤ (l.splitOn '/').length) :
    (stripPathSegments path 2).toList.length < path.toList.length := by
  rw [stripPathSegments_toList h, h]
  rcases hsplit : l.splitOn '/' with _ | ⟨s0, _ | ⟨s1, segs⟩⟩
  · rw [hsplit] at hlength
    exact absurd hlength (by decide)
  · rw [hsplit] at hlength
    exact absurd hlength (by simp)
  · rw [eq_separated_of_splitOn hsplit]
    have hcons : separated '/' (s1 :: segs) = '/' :: (s1 ++ separated '/' segs) := rfl
    rw [hcons]
    simp only [List.drop_succ_cons, List.drop_zero, List.length_cons, List.length_append]
    split_ifs
    · simp only [List.length_cons, List.length_nil]
      omega
    · omega

theorem stripPathSegments_head {path : String} {l : List Char} (h : path.toList = '/' :: l) (n : ℕ) :
    (stripPathSegments path n).toList.head? = some '/' := by
  rw [stripPathSegments_toList h]
  split_ifs with hnil
  · rfl
  · obtain ⟨w, words, hw⟩ := List.exists_cons_of_ne_nil hnil
    rw [hw]
    rfl

theorem stripPathSegments_ne_star {path : String} {l : List Char} (h : path.toList = '/' :: l) (n : ℕ) :
    stripPathSegments path n ≠ "*" := by
  intro hstar
  have hhead := stripPathSegments_head h n
  rw [hstar] at hhead
  exact absurd hhead (by decide)

theorem escapedPath_stripURL_default {route : Route} {path : String} {l : List Char} (hl : path.toList = '/' :: l)
    (hrest : route.rest = stripPathSegments path route.strip) {u : URL}
    (hescaped : u.escapedPath.toList = Percent.escape URL.pathByte path.toList) :
    (stripURL route u).escapedPath.toList = Percent.escape URL.pathByte route.rest.toList := by
  have hesc : u.escapedPath = String.ofList (Percent.escape URL.pathByte path.toList) :=
    String.toList_injective (by rw [hescaped, String.toList_ofList])
  have hstripped : (stripPathSegments u.escapedPath route.strip).toList =
      Percent.escape URL.pathByte route.rest.toList := by
    rw [hesc, stripPathSegments_escape hl, hrest]
  have hstar : route.rest ≠ "*" := by
    rw [hrest]
    exact stripPathSegments_ne_star hl _
  refine escapedPath_default hstar ?_
  unfold stripURL
  dsimp only
  split_ifs
  · exact Or.inr (Or.inl hstripped)
  · exact Or.inl rfl

theorem PathKey.rest_ne_empty {p : Proxy} {before raw after : List Char} {key network rest : String}
    (h : PathKey p before raw after key network rest) : rest ≠ "" := by
  obtain ⟨path, l, hl, -, hroute⟩ := h.route
  have hhead := stripPathSegments_head hl 2
  rw [← (route_segments hl hroute).1] at hhead
  rintro rfl
  cases hhead

theorem escapedPath_stripURL {p : Proxy} {before raw after : List Char} {key network rest : String}
    (h : PathKey p before raw after key network rest) :
    ∃ u v, URL.setPath (before ++ raw ++ after) [] = some u ∧ p.serve u = some (network, v) ∧ v.path = rest ∧
      let sent := stripPathSegments (String.ofList (before ++ raw ++ after)) 2
      (URL.validEncoded (before ++ raw ++ after) = true → OwnEncoding sent rest → v.escapedPath = sent) ∧
      (URL.validEncoded (before ++ raw ++ after) = false ∨ ¬ OwnEncoding sent rest →
        v.escapedPath.toList = Percent.escape URL.pathByte rest.toList) := by
  obtain ⟨path, l, hl, hpath, hroute⟩ := h.route
  obtain ⟨hrest, hsegs, -, -⟩ := route_segments hl hroute
  obtain ⟨u, hu⟩ : ∃ u, URL.setPath (before ++ raw ++ after) [] = some u := by
    unfold URL.setPath
    rw [hpath]
    exact ⟨_, rfl⟩
  obtain ⟨hupath, hescaped⟩ := escapedPath_setPath (by rw [hl]; rfl) hpath hu
  have hhealthz : u.path ≠ "/healthz" := by
    rw [hupath]
    rintro rfl
    rw [← (List.cons.inj hl).2] at hsegs
    exact absurd hsegs (by decide)
  refine ⟨u, stripURL ⟨network, rest, key, 2⟩ u, hu, ?_, rfl, ?_⟩
  · rw [serve, if_neg hhealthz, hupath, hroute]
  intro sent
  have hstar : rest ≠ "*" := by
    rw [hrest]
    exact stripPathSegments_ne_star hl 2
  cases hvalid : URL.validEncoded (before ++ raw ++ after) with
  | false =>
    rw [hvalid] at hescaped
    exact ⟨nofun, fun _ => escapedPath_stripURL_default hl hrest (hescaped.trans (if_neg Bool.false_ne_true))⟩
  | true =>
    rw [hvalid, if_pos rfl] at hescaped
    have hesc : u.escapedPath = String.ofList (before ++ raw ++ after) :=
      String.toList_injective (by rw [hescaped, String.toList_ofList])
    have hne : u.escapedPath ≠ rest := by
      intro hsame
      have hlt := length_stripPathSegments hl hsegs
      have hle := Percent.length_unescape hpath
      rw [← hrest, ← hsame, hescaped] at hlt
      omega
    have hrawPath : (stripURL ⟨network, rest, key, 2⟩ u).rawPath = if sent ≠ rest then sent else "" :=
      rawPath_stripURL (by rw [hesc]) hne
    refine ⟨fun _ hown => escapedPath_own rfl hrawPath h.rest_ne_empty hown, ?_⟩
    rintro (hfalse | hown)
    · cases hfalse
    · exact escapedPath_not_own rfl hrawPath hstar hown

end Keys

section NonInterference

theorem escaped_eq_iff {e e' sent rest : String} {valid valid' : Bool}
    (hown : valid = true → OwnEncoding sent rest → e = sent)
    (hdefault : valid = false ∨ ¬ OwnEncoding sent rest → e.toList = Percent.escape URL.pathByte rest.toList)
    (hown' : valid' = true → OwnEncoding sent rest → e' = sent)
    (hdefault' : valid' = false ∨ ¬ OwnEncoding sent rest → e'.toList = Percent.escape URL.pathByte rest.toList) :
    e = e' ↔ ¬ (valid ≠ valid' ∧ OwnEncoding sent rest) := by
  by_cases hencoding : OwnEncoding sent rest
  · have hne := hencoding.ne_default
    generalize Percent.escape URL.pathByte rest.toList = d at *
    cases valid <;> cases valid'
    · refine iff_of_true (String.toList_injective ?_) (fun h => h.1 rfl)
      rw [hdefault (Or.inl rfl), hdefault' (Or.inl rfl)]
    · refine iff_of_false (fun h => hne ?_) (fun h => h ⟨Bool.false_ne_true, hencoding⟩)
      rw [← hown' rfl hencoding, ← h, hdefault (Or.inl rfl)]
    · refine iff_of_false (fun h => hne ?_) (fun h => h ⟨Bool.false_ne_true.symm, hencoding⟩)
      rw [← hown rfl hencoding, h, hdefault' (Or.inl rfl)]
    · refine iff_of_true ?_ (fun h => h.1 rfl)
      rw [hown rfl hencoding, hown' rfl hencoding]
  · refine iff_of_true (String.toList_injective ?_) (fun h => hencoding h.2)
    rw [hdefault (Or.inr hencoding), hdefault' (Or.inr hencoding)]

theorem rootedPath_query {u : URL} (hpath : u.path ≠ "") (query : List (String × String)) :
    rootedPath { u with query := query } = u.escapedPath := by
  have hne : u.escapedPath ≠ "" := by
    intro hempty
    have hdecode := URL.unescape_escapedPath u
    rw [hempty] at hdecode
    exact hpath (String.toList_injective (Option.some.inj hdecode).symm)
  exact if_neg hne

theorem rootedPath_clone {v : URL} {rest : String} (hpath : v.path = rest) (hrest : rest ≠ "")
    (query : List (String × String)) :
    rootedPath { cloneWithPath v rest with query := query } = v.escapedPath := by
  rw [cloneWithPath, if_pos hpath.symm]
  exact rootedPath_query (hpath ▸ hrest) query

variable {p : Proxy} {cfg : Config} {pool : Pool} {b : Backend} {r r' : ClientRequest}

/-- Requests that differ in credentials give the same upstream request, unless one of two keys in the
path is sent with a byte that an escaped path cannot have, the rest of the path has an encoding of
its own, and no client prefix is taken off it. -/
theorem upstreamRequest_eq_iff (hquery : SameQuery r.rawQuery r'.rawQuery)
    (hheader : SameHeaders r.header r'.header) :
    (r.rawPath = r'.rawPath → p.upstreamRequest cfg pool b r = p.upstreamRequest cfg pool b r') ∧
    ∀ before raw raw' after key key' network rest, PathKey p before raw after key network rest →
      PathKey p before raw' after key' network rest → r.rawPath = before ++ raw ++ after →
      r'.rawPath = before ++ raw' ++ after →
      (p.upstreamRequest cfg pool b r = p.upstreamRequest cfg pool b r' ↔
        ¬ (URL.validEncoded r.rawPath ≠ URL.validEncoded r'.rawPath ∧
          OwnEncoding (stripPathSegments (String.ofList r.rawPath) 2) rest ∧ cfg.clientPath pool rest = rest)) := by
  refine ⟨fun hpath => upstreamRequest_of_rawPath p hpath hquery hheader, ?_⟩
  intro before raw raw' after key key' network rest hkey hkey' hraw hraw'
  obtain ⟨u, v, hu, hserve, hpath, hown, hdefault⟩ := escapedPath_stripURL hkey
  obtain ⟨u', v', hu', hserve', hpath', hown', hdefault'⟩ := escapedPath_stripURL hkey'
  rw [← hraw'] at hu'
  rw [← stripPathSegments_key hkey hkey', ← hraw, ← hraw'] at hown' hdefault'
  rw [← hraw] at hu hown hdefault
  rw [upstreamRequest_eq, upstreamRequest_eq, hu, hu', Option.bind_some, Option.bind_some, hserve, hserve',
    Option.map_some, Option.map_some, Option.some.injEq,
    newUpstreamRequest_eq_iff (forwardableQuery_parse hquery _ _ _ _) hheader, hpath, hpath']
  by_cases hclient : cfg.clientPath pool rest = rest
  · rw [hclient, rootedPath_clone hpath hkey.rest_ne_empty, rootedPath_clone hpath' hkey.rest_ne_empty]
    rw [and_iff_left (show rest = rest from rfl)]
    exact escaped_eq_iff hown hdefault hown' hdefault'
  · have hclone : ∀ w : URL, w.path = rest → ∀ query, ({ cloneWithPath w (cfg.clientPath pool rest) with
        query := query } : URL) = ⟨cfg.clientPath pool rest, "", query⟩ := by
      rintro w rfl query
      rw [cloneWithPath, if_neg hclient]
    rw [hclone v hpath, hclone v' hpath']
    exact iff_of_true rfl (fun h => hclient h.2.2)

def twoSecrets : Proxy := ⟨["mainnet"], some ["key", "k|y"]⟩

def request (path : String) : ClientRequest := ⟨path.toList, [], []⟩

theorem twoSecrets_key {raw key : String} (hraw : raw = "key" ∧ key = "key" ∨ raw = "k%7Cy" ∧ key = "k|y") :
    PathKey twoSecrets ['/'] raw.toList "/mainnet/eth/v1/a%2Fb".toList key "mainnet" "/eth/v1/a/b" := by
  rcases hraw with ⟨rfl, rfl⟩ | ⟨rfl, rfl⟩
  · exact ⟨by decide, Or.inl rfl, "/key/mainnet/eth/v1/a/b", by decide, by decide⟩
  · exact ⟨by decide, Or.inl rfl, "/k|y/mainnet/eth/v1/a/b", by decide, by decide⟩

theorem upstreamRequest_eq_encoded_key :
    twoSecrets.upstreamRequest (.caching []) (.allReady []) ⟨"http://node", []⟩
        (request "/key/mainnet/eth/v1/a%2Fb") =
      twoSecrets.upstreamRequest (.caching []) (.allReady []) ⟨"http://node", []⟩
        (request "/k%7Cy/mainnet/eth/v1/a%2Fb") := by
  have hquery : SameQuery [] [] := List.Forall₂.cons (Or.inl rfl) List.Forall₂.nil
  have hvalid : URL.validEncoded (request "/key/mainnet/eth/v1/a%2Fb").rawPath =
      URL.validEncoded (request "/k%7Cy/mainnet/eth/v1/a%2Fb").rawPath := by decide
  have hkeys := (@upstreamRequest_eq_iff twoSecrets (.caching []) (.allReady []) ⟨"http://node", []⟩
    (request "/key/mainnet/eth/v1/a%2Fb") (request "/k%7Cy/mainnet/eth/v1/a%2Fb") hquery
    (fun _ _ => rfl)).2 _ _ _ _ _ _ _ _ (twoSecrets_key (Or.inl ⟨rfl, rfl⟩))
    (twoSecrets_key (Or.inr ⟨rfl, rfl⟩)) rfl rfl
  exact hkeys.mpr (fun h => h.1 hvalid)

theorem raw_key_changes_path :
    (twoSecrets.upstreamRequest (.caching []) (.allReady []) ⟨"http://node", []⟩
        (request "/key/mainnet/eth/v1/a%2Fb")).map UpstreamRequest.url = some "http://node/eth/v1/a%2Fb" ∧
      (twoSecrets.upstreamRequest (.caching []) (.allReady []) ⟨"http://node", []⟩
        (request "/k|y/mainnet/eth/v1/a%2Fb")).map UpstreamRequest.url = some "http://node/eth/v1/a/b" := by
  decide +kernel

end NonInterference

end Proxy

end EBeacon
