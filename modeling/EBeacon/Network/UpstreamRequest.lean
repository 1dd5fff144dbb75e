import Mathlib.Logic.Function.Basic
import EBeacon.Library.Header
import EBeacon.Library.URLParse
import EBeacon.Network.CacheKey

namespace EBeacon.Network

open Text

-- `http.Header` of a request that is built: the values of each canonical name
abbrev HeaderMap := String → List String

def hopByHopHeaders : List String :=
  ["Connection", "Keep-Alive", "Proxy-Authenticate", "Proxy-Authorization", "Proxy-Connection", "Te",
    "Trailer", "Trailers", "Transfer-Encoding", "Upgrade", "X-EBEACON-Use-Upstream",
    "X-EBEACON-Secret-Token", "X-API-Key", "Authorization"]

def nominatedHeaders (h : Header) : List String :=
  (((h.values "Connection").flatMap (split ',')).map (fun token => toLower (trimSpace token))).filter (· ≠ "")

def hopByHopHeadersFor (h : Header) : List String := hopByHopHeaders.map toLower ++ nominatedHeaders h

def copyEndToEndHeaders (src : Header) : HeaderMap := fun name =>
  if (hopByHopHeadersFor src).contains (toLower name) then [] else src.values name

def isTokenByte (c : Char) : Bool := URL.isAlnum c || "!#$%&'*+-.^_|~".toList.contains c || c.toNat = 96

def canonicalHeaderKey (name : String) : String :=
  let canonical (upper : Bool) (c : Char) : Char := if upper then c.toUpper else c.toLower
  let step (acc : Bool × List Char) (c : Char) : Bool × List Char := (c = '-', canonical acc.1 c :: acc.2)
  if name.toList.all isTokenByte then String.ofList (name.toList.foldl step (true, [])).2.reverse else name

structure Backend where
  url : String
  headers : List (String × String)

structure UpstreamRequest where
  url : String
  header : HeaderMap

def newUpstreamRequest (b : Backend) (u : URL) (h : Header) : UpstreamRequest where
  url := b.url ++ pathAndQueryForUpstream u
  header := b.headers.foldl (fun m kv => Function.update m (canonicalHeaderKey kv.1) [kv.2])
    (copyEndToEndHeaders h)

example : canonicalHeaderKey "x-api-key" = "X-Api-Key" := by decide

def credentialHeaders : List String :=
  ["x-ebeacon-secret-token", "x-api-key", "authorization", "proxy-authorization"]

def isCredentialHeader (name : String) : Bool := credentialHeaders.contains (toLower name)

def SameHeaders (h h' : Header) : Prop :=
  ∀ name, isCredentialHeader name = false → h.values name = h'.values name

theorem copyEndToEndHeaders_eq {h h' : Header} (hsame : SameHeaders h h') :
    copyEndToEndHeaders h = copyEndToEndHeaders h' := by
  have hfor : hopByHopHeadersFor h = hopByHopHeadersFor h' := by
    unfold hopByHopHeadersFor nominatedHeaders
    rw [hsame "Connection" (by decide)]
  funext name
  unfold copyEndToEndHeaders
  rw [hfor]
  by_cases hcred : isCredentialHeader name = true
  · -- Every header that carries a credential is stripped.
    have hstatic : ∀ lower ∈ credentialHeaders, lower ∈ hopByHopHeaders.map toLower := by decide
    have hmem : (hopByHopHeadersFor h').contains (toLower name) = true := by
      rw [List.contains_iff_mem]
      exact List.mem_append_left _ (hstatic _ (List.contains_iff_mem.mp hcred))
    rw [if_pos hmem, if_pos hmem]
  · rw [hsame name (Bool.not_eq_true _ ▸ hcred)]

def credentialParams : List String := ["secret", "use-upstream", "token"]

def isCredentialSegment (seg : List Char) : Bool :=
  (URL.queryUnescape (URL.cutAt '=' seg).1).any (fun key => credentialParams.contains (String.ofList key))

def SameQuery (q q' : List Char) : Prop :=
  List.Forall₂ (fun s s' => s = s' ∨ isCredentialSegment s = true ∧ isCredentialSegment s' = true)
    (q.splitOn '&') (q'.splitOn '&')

section Query

theorem parsePair_credential {seg : List Char} (h : isCredentialSegment seg = true) :
    ∀ q, URL.parsePair seg = some q → q.1 ∈ credentialParams := by
  intro q hq
  unfold URL.parsePair at hq
  split_ifs at hq
  obtain ⟨key, hkey, hq⟩ := Option.bind_eq_some_iff.mp hq
  obtain ⟨value, -, hq⟩ := Option.bind_eq_some_iff.mp hq
  cases hq
  rw [isCredentialSegment, hkey] at h
  exact List.contains_iff_mem.mp h

theorem not_forwardable {q : String × String} (h : q.1 ∈ credentialParams) :
    (q.1 ≠ "token" && (q.1 ≠ "use-upstream" && q.1 ≠ "secret")) = false := by
  simp only [credentialParams, List.mem_cons, List.not_mem_nil, or_false] at h
  rcases h with h | h | h <;> rw [h] <;> decide

theorem filter_parsePair {seg : List Char} (h : isCredentialSegment seg = true) (rest : List (List Char)) :
    ((seg :: rest).filterMap URL.parsePair).filter (fun q =>
        q.1 ≠ "token" && (q.1 ≠ "use-upstream" && q.1 ≠ "secret")) =
      (rest.filterMap URL.parsePair).filter (fun q =>
        q.1 ≠ "token" && (q.1 ≠ "use-upstream" && q.1 ≠ "secret")) := by
  cases hq : URL.parsePair seg with
  | none => rw [List.filterMap_cons_none hq]
  | some q =>
    have hdrop := not_forwardable (parsePair_credential h q hq)
    rw [List.filterMap_cons_some hq, List.filter_cons_of_neg (by rw [hdrop]; exact Bool.false_ne_true)]

theorem forwardableQuery_parse {q q' : List Char} (h : SameQuery q q') (path rawPath path' rawPath' : String) :
    forwardableQuery ⟨path, rawPath, URL.parseQuery q⟩ = forwardableQuery ⟨path', rawPath', URL.parseQuery q'⟩ := by
  rw [forwardableQuery_eq, forwardableQuery_eq]
  unfold URL.parseQuery
  unfold SameQuery at h
  generalize q.splitOn '&' = segs at h
  generalize q'.splitOn '&' = segs' at h
  dsimp only
  induction h with
  | nil => rfl
  | cons hseg _ ih =>
    rcases hseg with rfl | ⟨hleft, hright⟩
    · rw [List.filterMap_cons, List.filterMap_cons]
      split
      · exact ih
      · rw [List.filter_cons, List.filter_cons, ih]
    · rw [filter_parsePair hleft, filter_parsePair hright, ih]

end Query

end EBeacon.Network
