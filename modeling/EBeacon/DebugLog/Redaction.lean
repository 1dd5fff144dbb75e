import EBeacon.Network.APIPath
import EBeacon.Proxy.Auth
import EBeacon.Proxy.Credentials

/-!
What the debug log shows of a request, and that it is the same for every secret.
-/

namespace EBeacon.DebugLog

open Text Network Proxy

def sensitiveHeaderKeys : List String :=
  ["authorization", "cookie", "proxy-authorization", "set-cookie", "x-api-key", "x-ebeacon-secret-token"]

def isSensitiveHeader (name : String) : Bool := sensitiveHeaderKeys.contains (toLower name)

def sensitiveQueryKeys : List String :=
  ["access_token", "api_key", "authorization", "key", "secret", "token", "use-upstream"]

def isSensitiveKey (key : String) : Bool := sensitiveQueryKeys.contains (toLower key)

def sanitizeHeaders (h : Header) : HeaderMap := fun name =>
  if h.values name = [] then []
  else if isSensitiveHeader name then ["[REDACTED]"] else h.values name

def parseValues (raw : List Char) : Option (List (String × String)) :=
  ((raw.splitOn '&').filter (· ≠ [])).mapM URL.parsePair

def redact : List (String × String) → List (String × String)
  | [] => []
  | q :: rest =>
    if isSensitiveKey q.1 then (q.1, "[REDACTED]") :: (redact rest).filter (fun r => r.1 ≠ q.1)
    else q :: redact rest

def sanitizeQuery (raw : List Char) : String :=
  if raw = [] then ""
  else match parseValues raw with
    | none => "[UNPARSEABLE_QUERY_REDACTED]"
    | some q => URL.encode (redact q)

structure LoggedRequest (γ : Type) where
  apiPath : String
  path : String
  query : String
  headers : HeaderMap
  body : Option γ

section Log

variable {β γ : Type} (preview : String → String → β → Option γ)

-- what `LogEvent` writes of a request; `preview` is `previewBody`, which reads the type and the encoding of
-- the body
def logEvent (u : URL) (rawQuery : List Char) (h : Header) (body : β) : LoggedRequest γ where
  apiPath := normalizeAPIPath u.path
  path := u.path
  query := sanitizeQuery rawQuery
  headers := sanitizeHeaders h
  body := preview (h.get "Content-Type") (h.get "Content-Encoding") body

def logFailure (p : Proxy) (cfg : Network.Config) (pool : Upstream.Pool) (r : ClientRequest) (body : β) :
    Option (LoggedRequest γ) :=
  (p.networkURL cfg pool r.rawPath r.rawQuery).map (fun u => logEvent preview u r.rawQuery r.header body)

end Log

section Headers

variable {h h' : Header}

theorem sanitizeHeaders_eq (hplain : ∀ name, isSensitiveHeader name = false → h.values name = h'.values name)
    (hpresent : ∀ name, h.values name = [] ↔ h'.values name = []) : sanitizeHeaders h = sanitizeHeaders h' := by
  funext name
  unfold sanitizeHeaders
  cases hname : isSensitiveHeader name with
  | false => rw [hplain name hname]
  | true => rw [if_congr (hpresent name) rfl rfl, if_pos rfl, if_pos rfl]

theorem get_eq_of_sensitive (hsecret : ∀ name, isSensitiveHeader name = true → h.values name = h'.values name)
    {name : String} (hname : isSensitiveHeader name = true) : h.get name = h'.get name := by
  unfold Header.get
  rw [hsecret name hname]

end Headers

section Query

def SameParam (q q' : String × String) : Prop := q = q' ∨ q.1 = q'.1 ∧ isSensitiveKey q.1 = true

def SameSegment (s s' : List Char) : Prop :=
  s = s' ∨ ∃ q q', URL.parsePair s = some q ∧ URL.parsePair s' = some q' ∧ q.1 = q'.1 ∧ isSensitiveKey q.1 = true

theorem SameParam.key {q q' : String × String} (h : SameParam q q') : q.1 = q'.1 := by
  rcases h with rfl | h
  · rfl
  · exact h.1

theorem redact_eq {l l' : List (String × String)} (h : List.Forall₂ SameParam l l') : redact l = redact l' := by
  induction h with
  | nil => rfl
  | @cons q q' rest rest' hq _ ih =>
    rw [redact, redact, ih, hq.key]
    cases hkey : isSensitiveKey q'.1 with
    | true => rfl
    | false =>
      rcases hq with rfl | ⟨heq, hsensitive⟩
      · rfl
      · rw [heq, hkey] at hsensitive
        cases hsensitive

theorem parsePair_nil : URL.parsePair [] = none := rfl

theorem SameSegment.cases {s s' : List Char} (h : SameSegment s s') :
    (s = [] ∧ s' = []) ∨ (s ≠ [] ∧ s' ≠ [] ∧ Option.Rel SameParam (URL.parsePair s) (URL.parsePair s')) := by
  rcases h with rfl | ⟨q, q', hq, hq', hkey, hsensitive⟩
  · by_cases hs : s = []
    · exact Or.inl ⟨hs, hs⟩
    · refine Or.inr ⟨hs, hs, ?_⟩
      cases URL.parsePair s with
      | none => exact Option.Rel.none
      | some q => exact Option.Rel.some (Or.inl rfl)
  · refine Or.inr ⟨?_, ?_, ?_⟩
    · rintro rfl
      rw [parsePair_nil] at hq
      cases hq
    · rintro rfl
      rw [parsePair_nil] at hq'
      cases hq'
    · rw [hq, hq']
      exact Option.Rel.some (Or.inr ⟨hkey, hsensitive⟩)

theorem parseSegments_rel {segs segs' : List (List Char)} (h : List.Forall₂ SameSegment segs segs') :
    Option.Rel (List.Forall₂ SameParam) ((segs.filter (· ≠ [])).mapM URL.parsePair)
      ((segs'.filter (· ≠ [])).mapM URL.parsePair) := by
  induction h with
  | nil => exact Option.Rel.some List.Forall₂.nil
  | @cons s s' rest rest' hs _ ih =>
    rcases hs.cases with ⟨rfl, rfl⟩ | ⟨hne, hne', hrel⟩
    · exact ih
    · rw [List.filter_cons_of_pos (by simpa using hne), List.filter_cons_of_pos (by simpa using hne'),
        List.mapM_cons, List.mapM_cons]
      generalize URL.parsePair s = pair at hrel
      generalize URL.parsePair s' = pair' at hrel
      generalize (rest.filter (· ≠ [])).mapM URL.parsePair = pairs at ih
      generalize (rest'.filter (· ≠ [])).mapM URL.parsePair = pairs' at ih
      cases hrel with
      | none => exact Option.Rel.none
      | some hq =>
        cases ih with
        | none => exact Option.Rel.none
        | some hqs => exact Option.Rel.some (List.Forall₂.cons hq hqs)

theorem sanitizeQuery_eq_elim (raw : List Char) :
    sanitizeQuery raw = (parseValues raw).elim "[UNPARSEABLE_QUERY_REDACTED]" (fun q => URL.encode (redact q)) := by
  unfold sanitizeQuery
  split_ifs with hraw
  · rw [hraw]
    rfl
  · cases parseValues raw <;> rfl

theorem sanitizeQuery_eq {raw raw' : List Char}
    (h : List.Forall₂ SameSegment (raw.splitOn '&') (raw'.splitOn '&')) : sanitizeQuery raw = sanitizeQuery raw' := by
  rw [sanitizeQuery_eq_elim, sanitizeQuery_eq_elim]
  have hrel : Option.Rel (List.Forall₂ SameParam) (parseValues raw) (parseValues raw') := parseSegments_rel h
  generalize parseValues raw = values at hrel
  generalize parseValues raw' = values' at hrel
  cases hrel with
  | none => rfl
  | some hq =>
    dsimp only [Option.elim]
    rw [redact_eq hq]

theorem get_filter (query : List (String × String)) {key : String} (hkey : isSensitiveKey key = true) :
    URL.get (query.filter (fun q => isSensitiveKey q.1)) key = URL.get query key := by
  unfold URL.get
  rw [List.find?_filter]
  refine congrArg (fun q : Option (String × String) => (q.map Prod.snd).getD "") (congrArg (List.find? · query) ?_)
  funext q
  by_cases hq : q.1 = key
  · simp [hq, hkey]
  · simp [hq]

end Query

/-- Requests that differ in secrets at most: in the values of sensitive headers and parameters that both have,
and in the key in the path. -/
structure Alike (p : Proxy) (r r' : ClientRequest) : Prop where
  header : ∀ name, isSensitiveHeader name = false → r.header.values name = r'.header.values name
  present : ∀ name, r.header.values name = [] ↔ r'.header.values name = []
  query : List.Forall₂ SameSegment (r.rawQuery.splitOn '&') (r'.rawQuery.splitOn '&')
  path : r.rawPath = r'.rawPath ∨ ∃ before raw raw' after key key' network rest,
    PathKey p before raw after key network rest ∧ PathKey p before raw' after key' network rest ∧
      r.rawPath = before ++ raw ++ after ∧ r'.rawPath = before ++ raw' ++ after

section NonInterference

variable {β γ : Type} (preview : String → String → β → Option γ) (p : Proxy) (cfg : Network.Config)
  (pool : Upstream.Pool)

theorem path_cloneWithPath (u : URL) (path : String) : (cloneWithPath u path).path = path := by
  unfold cloneWithPath
  split_ifs with hpath
  · exact hpath.symm
  · rfl

theorem networkURL_path (rawPath rawQuery : List Char) :
    (p.networkURL cfg pool rawPath rawQuery).map URL.path =
      ((URL.setPath rawPath []).bind p.serve).map (fun s => cfg.clientPath pool s.2.path) := by
  rw [networkURL_eq, Option.map_map]
  refine congrArg (fun f => Option.map f _) (funext fun s => ?_)
  exact path_cloneWithPath s.2 _

theorem networkURL_path_key {before raw after : List Char} {key network rest : String}
    (h : PathKey p before raw after key network rest) (rawQuery : List Char) :
    (p.networkURL cfg pool (before ++ raw ++ after) rawQuery).map URL.path = some (cfg.clientPath pool rest) := by
  obtain ⟨u, v, hu, hserve, hpath, -⟩ := escapedPath_stripURL h
  rw [networkURL_path, hu, Option.bind_some, hserve, Option.map_some, hpath]

theorem networkURL_path_alike {r r' : ClientRequest} (h : Alike p r r') :
    (p.networkURL cfg pool r.rawPath r.rawQuery).map URL.path =
      (p.networkURL cfg pool r'.rawPath r'.rawQuery).map URL.path := by
  rcases h.path with hpath | ⟨before, raw, raw', after, key, key', network, rest, hkey, hkey', hraw, hraw'⟩
  · rw [networkURL_path, networkURL_path, hpath]
  · rw [hraw, hraw', networkURL_path_key p cfg pool hkey, networkURL_path_key p cfg pool hkey']

theorem logEvent_eq {r r' : ClientRequest} (h : Alike p r r') {u u' : URL} (hpath : u.path = u'.path) (body : β) :
    logEvent preview u r.rawQuery r.header body = logEvent preview u' r'.rawQuery r'.header body := by
  have htype : r.header.get "Content-Type" = r'.header.get "Content-Type" := by
    unfold Header.get
    rw [h.header _ (by decide)]
  have hencoding : r.header.get "Content-Encoding" = r'.header.get "Content-Encoding" := by
    unfold Header.get
    rw [h.header _ (by decide)]
  unfold logEvent
  rw [hpath, sanitizeQuery_eq h.query, sanitizeHeaders_eq h.header h.present, htype, hencoding]

theorem presented_eq {header header' : Header} {query query' : List (String × String)}
    (hheader : ∀ name, isSensitiveHeader name = true → header.values name = header'.values name)
    (hquery : query.filter (fun q => isSensitiveKey q.1) = query'.filter (fun q => isSensitiveKey q.1))
    (extra : String) : presented header query extra = presented header' query' extra := by
  have hsecret : URL.get query "secret" = URL.get query' "secret" := by
    rw [← get_filter query (by decide), hquery, get_filter query' (by decide)]
  unfold presented extractSecret
  rw [get_eq_of_sensitive hheader (by decide), get_eq_of_sensitive hheader (by decide),
    get_eq_of_sensitive hheader (by decide), hsecret]

/-- The log shows no secret: requests that differ in secrets at most are logged alike, and what a client
presents is found in those places only. -/
theorem logFailure_secrets (body : β) :
    (∀ r r', Alike p r r' → logFailure preview p cfg pool r body = logFailure preview p cfg pool r' body) ∧
    ∀ (header header' : Header) (query query' : List (String × String)) (extra : String),
      (∀ name, isSensitiveHeader name = true → header.values name = header'.values name) →
      query.filter (fun q => isSensitiveKey q.1) = query'.filter (fun q => isSensitiveKey q.1) →
      presented header query extra = presented header' query' extra := by
  refine ⟨fun r r' h => ?_, fun _ _ _ _ extra hheader hquery => presented_eq hheader hquery extra⟩
  have hpath := networkURL_path_alike p cfg pool h
  unfold logFailure
  generalize p.networkURL cfg pool r.rawPath r.rawQuery = u at hpath ⊢
  generalize p.networkURL cfg pool r'.rawPath r'.rawQuery = u' at hpath ⊢
  cases u with
  | none =>
    cases u' with
    | none => rfl
    | some u' => cases hpath
  | some u =>
    cases u' with
    | none => cases hpath
    | some u' => exact congrArg some (logEvent_eq preview p h (Option.some.inj hpath) body)

def withSecrets (key secret token : String) : ClientRequest :=
  ⟨['/'] ++ key.toList ++ "/mainnet/eth/v1/a%2Fb".toList, "id=1&secret=".toList ++ secret.toList,
    [("X-Api-Key", token), ("Accept", "text/plain")]⟩

theorem alike_withSecrets :
    Alike twoSecrets (withSecrets "key" "one" "1") (withSecrets "k%7Cy" "two%20words" "2") where
  header := by
    intro name hname
    by_cases hkey : name = "X-Api-Key"
    · rw [hkey] at hname
      exact absurd hname (by decide)
    · simp [withSecrets, Header.values, Ne.symm hkey]
  present := by
    intro name
    simp [withSecrets, Header.values, List.filter_cons]
    split_ifs <;> simp
  query := by
    refine List.Forall₂.cons (Or.inl (by decide)) (List.Forall₂.cons (Or.inr ?_) List.Forall₂.nil)
    exact ⟨("secret", "one"), ("secret", "two words"), by decide, by decide, rfl, by decide⟩
  path := Or.inr ⟨['/'], "key".toList, "k%7Cy".toList, _, _, _, _, _, twoSecrets_key (Or.inl ⟨rfl, rfl⟩),
    twoSecrets_key (Or.inr ⟨rfl, rfl⟩), rfl, rfl⟩

theorem logFailure_secrets_redacted :
    let preview : String → String → Unit → Option Unit := fun _ _ _ => none
    let shown := logFailure preview twoSecrets (.caching []) (.allReady []) (withSecrets "key" "one" "1") ()
    shown = logFailure preview twoSecrets (.caching []) (.allReady [])
        (withSecrets "k%7Cy" "two%20words" "2") () ∧
      shown.map LoggedRequest.query = some "id=1&secret=%5BREDACTED%5D" ∧
      shown.map (fun l => l.headers "X-Api-Key") = some ["[REDACTED]"] :=
  ⟨(logFailure_secrets _ twoSecrets (.caching []) (.allReady []) ()).1 _ _ alike_withSecrets, by decide +kernel,
    by decide +kernel⟩

end NonInterference

end EBeacon.DebugLog
