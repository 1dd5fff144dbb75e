import EBeacon.Library.Segments
import EBeacon.Library.URLParse
import EBeacon.Network.Routing

namespace EBeacon

open Text

structure Proxy where
  networks : List String
  secrets : Option (List String)

structure Route where
  networkID : String
  rest : String
  pathKey : String
  strip : ℕ
  deriving DecidableEq, Repr

namespace Proxy

def isPathKey (p : Proxy) (candidate : String) : Bool :=
  candidate ≠ "" && p.secrets.any (fun secrets => secrets.contains candidate)

def joinRest (segments : List String) : String :=
  if segments = [] then "/" else "/" ++ "/".intercalate segments

def routeRequest (p : Proxy) (path : String) : Option Route :=
  let path := trimPrefix path "/"
  if path = "" then none
  else match split '/' path with
    | [] => none
    | seg0 :: segs =>
      if p.networks.contains seg0 then
        match segs with
        | [] => some ⟨seg0, joinRest [], "", 1⟩
        | seg1 :: rest =>
          if p.isPathKey seg1 then some ⟨seg0, joinRest rest, seg1, 2⟩
          else some ⟨seg0, joinRest (seg1 :: rest), "", 1⟩
      else match segs with
        | [] => none
        | seg1 :: rest =>
          if p.secrets.isSome && p.networks.contains seg1 then some ⟨seg1, joinRest rest, seg0, 2⟩ else none

def stripPathSegments (path : String) (n : ℕ) : String :=
  joinRest ((split '/' (trimPrefix path "/")).drop n)

def stripURL (route : Route) (u : URL) : URL :=
  let stripped := stripPathSegments u.escapedPath route.strip
  { u with
    path := route.rest
    rawPath := if u.escapedPath ≠ route.rest ∧ stripped ≠ route.rest then stripped else "" }

-- the network that serves an authenticated request, and its URL there; `none` stands for `/healthz` and for
-- unknown networks
def serve (p : Proxy) (u : URL) : Option (String × URL) :=
  if u.path = "/healthz" then none
  else match p.routeRequest u.path with
    | some route => some (route.networkID, stripURL route u)
    | none => match p.networks with
      | [single] => some (single, u)
      | _ => none

example : (Proxy.mk ["mainnet"] (some ["k"])).serve ⟨"/k/mainnet/eth", "", []⟩ =
    some ("mainnet", ⟨"/eth", "", []⟩) := by decide

section Segments

theorem joinRest_toList (segs : List String) :
    (joinRest segs).toList = if segs = [] then ['/'] else separated '/' (segs.map String.toList) := by
  cases segs with
  | nil => rfl
  | cons s segs =>
    rw [joinRest, if_neg (List.cons_ne_nil _ _), if_neg (List.cons_ne_nil _ _), String.toList_append,
      String.toList_intercalate, List.map_cons]
    change ['/'] ++ ['/'].intercalate _ = _
    rw [intercalate_eq_separated]
    rfl

theorem split_trimPrefix {path : String} {l : List Char} (h : path.toList = '/' :: l) :
    split '/' (trimPrefix path "/") = (l.splitOn '/').map String.ofList := by
  have hpath : path = "/" ++ String.ofList l := by
    apply String.toList_injective
    simp [h]
  rw [hpath, trimPrefix_append, split, String.toList_ofList]

theorem stripPathSegments_toList {path : String} {l : List Char} (h : path.toList = '/' :: l) (n : ℕ) :
    (stripPathSegments path n).toList =
      if (l.splitOn '/').drop n = [] then ['/'] else separated '/' ((l.splitOn '/').drop n) := by
  rw [stripPathSegments, split_trimPrefix h, joinRest_toList, ← List.map_drop, List.map_map]
  simp only [List.map_eq_nil_iff, Function.comp_def, String.toList_ofList, List.map_id']

theorem route_segments {p : Proxy} {path : String} {l : List Char} {network rest key : String}
    (h : path.toList = '/' :: l) (hroute : p.routeRequest path = some ⟨network, rest, key, 2⟩) :
    rest = stripPathSegments path 2 ∧ 2 ≤ (l.splitOn '/').length ∧ '/' ∉ key.toList ∧
      '/' ∉ network.toList := by
  have hfree : ∀ s ∈ (l.splitOn '/').map String.ofList, '/' ∉ s.toList := by
    intro s hs
    obtain ⟨w, hw, rfl⟩ := List.mem_map.mp hs
    rw [String.toList_ofList]
    exact notMem_of_mem_splitOn hw
  have hsplit := split_trimPrefix h
  have hlength : ((l.splitOn '/').map String.ofList).length = (l.splitOn '/').length := List.length_map _
  rw [stripPathSegments, hsplit, ← hlength]
  unfold routeRequest at hroute
  dsimp only at hroute
  by_cases hempty : trimPrefix path "/" = ""
  · rw [if_pos hempty] at hroute
    cases hroute
  rw [if_neg hempty, hsplit] at hroute
  clear hlength hsplit
  generalize (l.splitOn '/').map String.ofList = all at hroute hfree ⊢
  rcases all with _ | ⟨s0, _ | ⟨s1, segs⟩⟩
  · cases hroute
  · dsimp only at hroute
    split_ifs at hroute
    cases hroute
  · dsimp only at hroute
    have hs0 := hfree s0 (by simp)
    have hs1 := hfree s1 (by simp)
    split_ifs at hroute
    · cases hroute
      exact ⟨rfl, by simp, hs1, hs0⟩
    · cases hroute
    · cases hroute
      exact ⟨rfl, by simp, hs0, hs1⟩

theorem splitOn_escape (l : List Char) :
    (Percent.escape URL.pathByte l).splitOn '/' = (l.splitOn '/').map (Percent.escape URL.pathByte) := by
  have hfree : ∀ {w : List Char}, '/' ∉ w → '/' ∉ Percent.escape URL.pathByte w := by
    intro w hw hmem
    rcases Percent.mem_escape_cases hmem with ⟨hin, -⟩ | hhex
    · exact hw hin
    · revert hhex
      decide
  induction hn : l.length using Nat.strong_induction_on generalizing l with
  | h n ih =>
    by_cases hc : '/' ∈ l
    · obtain ⟨a, b, rfl, ha⟩ := List.eq_append_cons_of_mem hc
      have hlt : b.length < n := by
        rw [← hn, List.length_append, List.length_cons]
        omega
      rw [Percent.escape_append, Percent.escape_cons_of_keep (by decide), List.splitOn_append_cons_self,
        List.splitOn_append_cons_self, ih b.length hlt b rfl, List.splitOn_eq_singleton ha,
        List.splitOn_eq_singleton (hfree ha)]
      rfl
    · rw [List.splitOn_eq_singleton hc, List.splitOn_eq_singleton (hfree hc)]
      rfl

theorem escape_separated (words : List (List Char)) :
    Percent.escape URL.pathByte (separated '/' words) = separated '/' (words.map (Percent.escape URL.pathByte)) := by
  induction words with
  | nil => rfl
  | cons w words ih =>
    have hcons : separated '/' (w :: words) = '/' :: (w ++ separated '/' words) := rfl
    rw [hcons, Percent.escape_cons_of_keep (by decide), Percent.escape_append, ih]
    rfl

theorem stripPathSegments_escape {path : String} {l : List Char} (h : path.toList = '/' :: l) (n : ℕ) :
    (stripPathSegments (String.ofList (Percent.escape URL.pathByte path.toList)) n).toList =
      Percent.escape URL.pathByte (stripPathSegments path n).toList := by
  have hescape : (String.ofList (Percent.escape URL.pathByte path.toList)).toList =
      '/' :: Percent.escape URL.pathByte l := by
    rw [String.toList_ofList, h, Percent.escape_cons_of_keep (by decide)]
  rw [stripPathSegments_toList hescape, stripPathSegments_toList h, splitOn_escape, ← List.map_drop]
  simp only [List.map_eq_nil_iff]
  split_ifs
  · decide
  · rw [escape_separated]

end Segments

end Proxy

end EBeacon
