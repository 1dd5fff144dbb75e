import EBeacon.Library.Text
import EBeacon.Library.URL

namespace EBeacon.Network

open Text

def forwardableQuery (u : URL) : List (String × String) :=
  URL.del (URL.del (URL.del u.query "secret") "use-upstream") "token"

theorem forwardableQuery_eq (u : URL) : forwardableQuery u = u.query.filter (fun q =>
    q.1 ≠ "token" && (q.1 ≠ "use-upstream" && q.1 ≠ "secret")) := by
  simp only [forwardableQuery, URL.del, List.filter_filter]

def rootedPath (u : URL) : String := if u.escapedPath = "" then "/" else u.escapedPath

def withQuery (path : String) (query : List (String × String)) : String :=
  let enc := URL.encode query
  if enc = "" then path else path ++ "?" ++ enc

def pathAndQueryForUpstream (u : URL) : String := withQuery (rootedPath u) (forwardableQuery u)

def isNodePath (names : List String) (path : String) : Bool :=
  match split '/' path with
  | [root, eth, version, node, name] =>
    root = "" && eth = "eth" && node = "node" && names.contains name &&
      hasPrefix version "v" && (version.toList.drop 1 ≠ [] && (version.toList.drop 1).all isDigit)
  | _ => false

def pathAndQueryForCache (u : URL) : String :=
  let path := rootedPath u
  if isNodePath ["peer_count", "syncing"] path then path
  else if isNodePath ["peers"] path then
    withQuery path ((forwardableQuery u).filter (fun q => q.1 = "state" || q.1 = "direction"))
  else withQuery path (forwardableQuery u)

def acceptTag (binary : Bool) : String := if binary then ":accept=binary" else ""

def scopeTag (mark scope : String) : String := if scope = "" then "" else mark ++ scope

def buildCacheKey (networkID method : String) (u : URL) (acceptBinary : Bool) (scope : String) : String :=
  networkID ++ ":" ++ method ++ ":" ++ pathAndQueryForCache u ++ acceptTag acceptBinary ++
    scopeTag ":upstream=" scope

-- the first eight bytes of the SHA-256 of a body, in hexadecimal
structure Digest where
  hex : String → String
  digits : ∀ body, ∀ c ∈ (hex body).toList, c ∈ "0123456789abcdef".toList

def Digest.tag (d : Digest) (body : String) : String := if body = "" then "" else ":" ++ d.hex body

def dedupKey (d : Digest) (networkID method : String) (u : URL) (body scope : String)
    (acceptBinary : Bool) : String :=
  networkID ++ ":" ++ method ++ ":" ++ pathAndQueryForUpstream u ++ d.tag body ++
    acceptTag acceptBinary ++ scopeTag ":scope=" scope

structure ParsedCacheKey where
  method : String
  pathQuery : String
  path : String
  scope : String
  acceptBinary : Bool
  deriving DecidableEq, Repr

def cutColon (s : String) : Option (String × String) :=
  match index s ":" with
  | none => none
  | some i => if i + 1 = s.length then none else some (take s i, drop s (i + 1))

def parseCacheKey (key : String) : Option ParsedCacheKey := do
  let (_, key) ← cutColon key
  let (method, rest) ← cutColon key
  let stop := min ((index rest ":accept=").getD rest.length) ((index rest ":upstream=").getD rest.length)
  let pathQuery := take rest stop
  let suffix := drop rest stop
  if pathQuery = "" then none
  else some {
    method := method
    pathQuery := pathQuery
    path := take pathQuery ((index pathQuery "?").getD pathQuery.length)
    scope := match index suffix ":upstream=" with
      | some j => drop suffix (j + ":upstream=".length)
      | none => ""
    acceptBinary := contains suffix ":accept=binary" }

def cacheKeyPath (key : String) : String := ((parseCacheKey key).map ParsedCacheKey.path).getD ""

example : parseCacheKey (buildCacheKey "m" "GET" ⟨"/eth", "", [("token", "x"), ("slot", "7")]⟩ true
    "client:teku") = some ⟨"GET", "/eth?slot=7", "/eth", "client:teku", true⟩ := by decide

def PlainPath (u : URL) : Prop := u.path ≠ "" ∧ ':' ∉ u.escapedPath.toList

theorem PlainPath.rooted {u : URL} (h : PlainPath u) : rootedPath u = u.escapedPath := by
  unfold rootedPath
  split_ifs with hempty
  · have hdecode := URL.unescape_escapedPath u
    rw [hempty] at hdecode
    have hpath : u.path.toList = [] := (Option.some.inj hdecode).symm
    exact absurd (String.toList_eq_nil_iff.mp hpath) h.1
  · rfl

theorem withQuery_toList (path : String) (query : List (String × String)) :
    ∃ rest : List Char, (withQuery path query).toList = path.toList ++ rest ∧
      (rest = [] ∨ rest.head? = some '?') ∧ ':' ∉ rest := by
  unfold withQuery
  dsimp only
  split_ifs with henc
  · exact ⟨[], by simp, Or.inl rfl, nofun⟩
  · refine ⟨'?' :: (URL.encode query).toList, by simp, Or.inr rfl, ?_⟩
    rw [List.mem_cons, not_or]
    exact ⟨by decide, URL.colon_notMem_encode query⟩

theorem pathAndQueryForCache_toList (u : URL) :
    ∃ rest : List Char, (pathAndQueryForCache u).toList = (rootedPath u).toList ++ rest ∧
      (rest = [] ∨ rest.head? = some '?') ∧ ':' ∉ rest := by
  unfold pathAndQueryForCache
  dsimp only
  split_ifs
  · exact ⟨[], by simp, Or.inl rfl, nofun⟩
  · exact withQuery_toList _ _
  · exact withQuery_toList _ _

theorem pathAndQueryForUpstream_toList (u : URL) :
    ∃ rest : List Char, (pathAndQueryForUpstream u).toList = (rootedPath u).toList ++ rest ∧
      (rest = [] ∨ rest.head? = some '?') ∧ ':' ∉ rest :=
  withQuery_toList _ _

def tags (mark : String) (binary : Bool) (scope : String) : List Char :=
  (acceptTag binary).toList ++ (scopeTag mark scope).toList

section Tags

variable {mark : String} {m : Char} {ms : List Char}

theorem tags_head (hm : mark.toList = ':' :: m :: ms) (binary : Bool) (scope : String) :
    tags mark binary scope = [] ∨ (tags mark binary scope).head? = some ':' := by
  unfold tags acceptTag scopeTag
  cases binary <;> split_ifs <;> simp [hm]

theorem scopeTag_inj (hm : mark.toList = ':' :: m :: ms) {scope scope' : String}
    (h : (scopeTag mark scope).toList = (scopeTag mark scope').toList) : scope = scope' := by
  unfold scopeTag at h
  split_ifs at h with hs hs' hs'
  · rw [hs, hs']
  · simp [hm] at h
  · simp [hm] at h
  · rw [String.toList_append, String.toList_append] at h
    exact String.toList_injective (List.append_cancel_left h)

theorem tags_inj (hm : mark.toList = ':' :: m :: ms) (hne : m ≠ 'a') {b b' : Bool}
    {scope scope' : String} (h : tags mark b scope = tags mark b' scope') : scope = scope' := by
  have hmark : ∀ s rest, (scopeTag mark s).toList ≠ ":accept=binary".toList ++ rest := by
    intro s rest heq
    unfold scopeTag at heq
    split_ifs at heq
    · simp at heq
    · simp [hm, hne] at heq
  unfold tags acceptTag at h
  cases b with
  | false =>
    cases b' with
    | false => exact scopeTag_inj hm h
    | true => exact absurd h (hmark scope _)
  | true =>
    cases b' with
    | false => exact absurd h.symm (hmark scope' _)
    | true => exact scopeTag_inj hm (List.append_cancel_left h)

end Tags

def PathThenQuery (f : URL → String) : Prop :=
  ∀ u, ∃ rest : List Char, (f u).toList = (rootedPath u).toList ++ rest ∧
    (rest = [] ∨ rest.head? = some '?') ∧ ':' ∉ rest

theorem scopeMark : ":scope=".toList = ':' :: 's' :: "cope=".toList := rfl

section Keys

variable {u v : URL}

theorem PathThenQuery.split {f : URL → String} (hf : PathThenQuery f) (hu : PlainPath u)
    (hv : PlainPath v) {x y : List Char} (hx : x = [] ∨ x.head? = some ':')
    (hy : y = [] ∨ y.head? = some ':') (h : (f u).toList ++ x = (f v).toList ++ y) :
    u.path = v.path ∧ x = y := by
  obtain ⟨restu, heu, hqu, hcu⟩ := hf u
  obtain ⟨restv, hev, hqv, hcv⟩ := hf v
  rw [hu.rooted] at heu
  rw [hv.rooted] at hev
  have hcolonu : ':' ∉ (f u).toList := by
    rw [heu, List.mem_append, not_or]
    exact ⟨hu.2, hcu⟩
  have hcolonv : ':' ∉ (f v).toList := by
    rw [hev, List.mem_append, not_or]
    exact ⟨hv.2, hcv⟩
  obtain ⟨hpq, hxy⟩ := append_inj_of_notMem hcolonu hcolonv hx hy h
  rw [heu, hev] at hpq
  have hescaped := (append_inj_of_notMem (URL.question_notMem_escapedPath u)
    (URL.question_notMem_escapedPath v) hqu hqv hpq).1
  exact ⟨URL.path_eq_of_escapedPath (String.toList_injective hescaped), hxy⟩

theorem buildCacheKey_inj (hu : PlainPath u) (hv : PlainPath v) {id method scope scope' : String}
    {b b' : Bool} (h : buildCacheKey id method u b scope = buildCacheKey id method v b' scope') :
    u.path = v.path ∧ scope = scope' := by
  have hlist := congrArg String.toList h
  simp only [buildCacheKey, String.toList_append, List.append_assoc, List.append_cancel_left_eq] at hlist
  have hmark : ":upstream=".toList = ':' :: 'u' :: "pstream=".toList := rfl
  obtain ⟨hpath, htags⟩ := PathThenQuery.split pathAndQueryForCache_toList hu hv
    (tags_head hmark b scope) (tags_head hmark b' scope') hlist
  exact ⟨hpath, tags_inj hmark (by decide) htags⟩

namespace Digest

variable (d : Digest)

theorem notMem_hex {c : Char} (hc : c ∉ "0123456789abcdef".toList) (body : String) :
    c ∉ (d.hex body).toList :=
  fun h => hc (d.digits body c h)

theorem hex_append_ne (body : String) {x : List Char} (hx : x = [] ∨ x.head? = some ':')
    (binary : Bool) (scope : String) :
    ':' :: ((d.hex body).toList ++ x) ≠ tags ":scope=" binary scope := by
  intro h
  have hscope := tags_head scopeMark false scope
  cases binary with
  | true =>
    have hlist : (d.hex body).toList ++ x = "accept=binary".toList ++ tags ":scope=" false scope :=
      (List.cons.inj h).2
    have hhex := (append_inj_of_notMem (d.notMem_hex (by decide) body) (by decide) hx hscope hlist).1
    have hp : 'p' ∈ (d.hex body).toList := by
      rw [hhex]
      decide
    exact d.notMem_hex (by decide) body hp
  | false =>
    by_cases hempty : scope = ""
    · simp [tags, acceptTag, scopeTag, hempty] at h
    · have hlist : (d.hex body).toList ++ x = 's' :: ("cope=".toList ++ scope.toList) := by
        simpa [tags, acceptTag, scopeTag, hempty] using h
      cases hhex : (d.hex body).toList with
      | nil =>
        rw [hhex, List.nil_append] at hlist
        simp [hlist] at hx
      | cons c cs =>
        rw [hhex, List.cons_append, List.cons.injEq] at hlist
        have hs : 's' ∈ (d.hex body).toList := by
          rw [hhex, hlist.1]
          exact List.mem_cons_self
        exact d.notMem_hex (by decide) body hs

theorem tag_toList (body : String) :
    (d.tag body).toList = [] ∨ (d.tag body).toList = ':' :: (d.hex body).toList := by
  unfold tag
  split_ifs
  · exact Or.inl rfl
  · exact Or.inr (by simp)

theorem tag_inj {body body' scope scope' : String} {b b' : Bool}
    (h : (d.tag body).toList ++ tags ":scope=" b scope =
      (d.tag body').toList ++ tags ":scope=" b' scope') : scope = scope' := by
  have hhead := tags_head scopeMark b scope
  have hhead' := tags_head scopeMark b' scope'
  rcases d.tag_toList body with hb | hb <;> rcases d.tag_toList body' with hb' | hb' <;>
    rw [hb, hb'] at h
  · exact tags_inj scopeMark (by decide) h
  · exact absurd h.symm (d.hex_append_ne body' hhead' b scope)
  · exact absurd h (d.hex_append_ne body hhead b' scope')
  · have hcolon := d.notMem_hex (c := ':') (by decide)
    have htags := (append_inj_of_notMem (hcolon body) (hcolon body') hhead hhead' (List.cons.inj h).2).2
    exact tags_inj scopeMark (by decide) htags

end Digest

theorem dedupKey_inj {d : Digest} (hu : PlainPath u) (hv : PlainPath v)
    {id method body body' scope scope' : String} {b b' : Bool}
    (h : dedupKey d id method u body scope b = dedupKey d id method v body' scope' b') :
    u.path = v.path ∧ scope = scope' := by
  have hlist := congrArg String.toList h
  simp only [dedupKey, String.toList_append, List.append_assoc, List.append_cancel_left_eq] at hlist
  have hhead : ∀ body scope b, (d.tag body).toList ++ tags ":scope=" b scope = [] ∨
      ((d.tag body).toList ++ tags ":scope=" b scope).head? = some ':' := by
    intro body scope b
    rcases d.tag_toList body with hb | hb
    · rw [hb]
      exact tags_head scopeMark b scope
    · rw [hb]
      exact Or.inr rfl
  obtain ⟨hpath, htags⟩ := PathThenQuery.split pathAndQueryForUpstream_toList hu hv
    (hhead body scope b) (hhead body' scope' b') hlist
  exact ⟨hpath, d.tag_inj htags⟩

end Keys

end EBeacon.Network
