import EBeacon.Network.UpstreamRequest

/-!
`WrapWithCORS` around a network: who decides on the `Access-Control-Allow-Origin` of a response.
-/

namespace EBeacon

open Text Network

namespace Proxy

section Header

variable (m : HeaderMap) (name value : String)

def setHeader : HeaderMap := Function.update m name [value]

def addHeader : HeaderMap := Function.update m name (m name ++ [value])

def delHeader : HeaderMap := Function.update m name []

def copyInto (src : Header) : HeaderMap := fun name => m name ++ copyEndToEndHeaders src name

variable {m name value} {other : String}

@[simp] theorem setHeader_of_ne (h : other ≠ name) : setHeader m name value other = m other :=
  Function.update_of_ne h _ _

@[simp] theorem addHeader_of_ne (h : other ≠ name) : addHeader m name value other = m other :=
  Function.update_of_ne h _ _

@[simp] theorem delHeader_of_ne (h : other ≠ name) : delHeader m name other = m other :=
  Function.update_of_ne h _ _

@[simp] theorem setHeader_self : setHeader m name value name = [value] := Function.update_self _ _ _

end Header

structure CORSConfig where
  allowedOrigins : List String
  allowedMethods : List String
  allowedHeaders : List String
  exposedHeaders : List String
  allowCredentials : Option Bool
  maxAge : ℤ

def CORSConfig.credentials (cors : CORSConfig) : Bool := cors.allowCredentials.getD false

section CORS

-- `strings.EqualFold`
variable (equalFold : String → String → Bool)

def allowedCORSOrigin (origin : String) (allowCredentials : Bool) : List String → Option String
  | [] => none
  | allowedOrigin :: rest =>
    let allowedOrigin := trimSpace allowedOrigin
    if allowedOrigin = "" then allowedCORSOrigin origin allowCredentials rest
    else if allowedOrigin = "*" then some (if allowCredentials then origin else "*")
    else if equalFold allowedOrigin origin then some origin
    else allowedCORSOrigin origin allowCredentials rest

def mergeVaryHeader (m : HeaderMap) (value : String) : HeaderMap :=
  if (m "Vary").any (fun existing => (split ',' existing).any (fun part => equalFold (trimSpace part) value)) then m
  else addHeader m "Vary" value

def addCORSVary (method : String) (m : HeaderMap) : HeaderMap :=
  let m := mergeVaryHeader equalFold m "Origin"
  if method = "OPTIONS" then
    mergeVaryHeader equalFold (mergeVaryHeader equalFold m "Access-Control-Request-Method")
      "Access-Control-Request-Headers"
  else m

def setUnlessEmpty (m : HeaderMap) (name value : String) : HeaderMap :=
  if value ≠ "" then setHeader m name value else m

def setCORSHeaders (cors : CORSConfig) (method allowedOrigin : String) (m : HeaderMap) : HeaderMap :=
  let m := addCORSVary equalFold method (setHeader m "Access-Control-Allow-Origin" allowedOrigin)
  let m := setUnlessEmpty m "Access-Control-Allow-Methods" (", ".intercalate cors.allowedMethods)
  let m := setUnlessEmpty m "Access-Control-Allow-Headers" (", ".intercalate cors.allowedHeaders)
  let m := setUnlessEmpty m "Access-Control-Expose-Headers" (", ".intercalate cors.exposedHeaders)
  let m := if cors.credentials then setHeader m "Access-Control-Allow-Credentials" "true" else m
  setUnlessEmpty m "Access-Control-Max-Age" (if 0 < cors.maxAge then toString cors.maxAge else "")

def wrapWithCORS (next : HeaderMap → HeaderMap) (cors : Option CORSConfig) (method : String) (request : Header)
    (m : HeaderMap) : HeaderMap :=
  match cors with
  | none => next m
  | some cors =>
    let m := addCORSVary equalFold method m
    let origin := trimSpace (request.get "Origin")
    if origin = "" then next m
    else match allowedCORSOrigin equalFold origin cors.credentials cors.allowedOrigins with
      | some allowedOrigin =>
        let m := setCORSHeaders equalFold cors method allowedOrigin m
        if method = "OPTIONS" then m else next m
      | none => if method = "OPTIONS" then m else next m

inductive Response
  | fresh (upstreamID clientType : String) (header : Header) (bodyLength : ℕ)
  | cached (header : Header) (bodyLength : ℕ)
  | events (upstreamID : String) (header : Header)

def Response.header : Response → Header
  | fresh _ _ header _ => header
  | cached header _ => header
  | events _ header => header

section Serve

variable (obfuscateUpstreamID : String → String) (gzipEnabled : Bool) (request : Header)

def writeBody (header : Header) (bodyLength : ℕ) (m : HeaderMap) : HeaderMap :=
  if !gzipEnabled || !contains (request.get "Accept-Encoding") "gzip" || header.get "Content-Encoding" ≠ "" ||
      bodyLength ≤ 1024 || equalFold (header.get "Content-Type") "application/octet-stream" then m
  else delHeader (setHeader m "Content-Encoding" "gzip") "Content-Length"

def serveHTTP (response : Response) (m : HeaderMap) : HeaderMap :=
  match response with
  | .fresh upstreamID clientType header bodyLength =>
    let m := setHeader m "X-Ebeacon-Upstream" (obfuscateUpstreamID upstreamID)
    let m := if clientType ≠ "" ∧ clientType ≠ "unknown" then setHeader m "X-Ebeacon-Client-Type" clientType else m
    writeBody equalFold gzipEnabled request header bodyLength (copyInto m header)
  | .cached header bodyLength =>
    let m := setHeader (copyInto m header) "X-Ebeacon-Cache" "HIT"
    writeBody equalFold gzipEnabled request header bodyLength m
  | .events upstreamID header =>
    let m := setHeader (copyInto m header) "Content-Type" "text/event-stream"
    let m := setHeader m "Cache-Control" "no-cache"
    let m := setHeader m "X-Accel-Buffering" "no"
    let m := setHeader m "Connection" "keep-alive"
    setHeader m "X-Ebeacon-Upstream" (obfuscateUpstreamID upstreamID)

end Serve

end CORS

section Grants

variable {equalFold : String → String → Bool} {obfuscateUpstreamID : String → String} {gzipEnabled : Bool}
  {request : Header} {method : String} {m : HeaderMap}

def allowOrigin : String := "Access-Control-Allow-Origin"

theorem mergeVaryHeader_allowOrigin (value : String) :
    mergeVaryHeader equalFold m value allowOrigin = m allowOrigin := by
  unfold mergeVaryHeader
  split_ifs
  · rfl
  · exact addHeader_of_ne (by decide)

theorem addCORSVary_allowOrigin : addCORSVary equalFold method m allowOrigin = m allowOrigin := by
  unfold addCORSVary
  split_ifs
  · rw [mergeVaryHeader_allowOrigin, mergeVaryHeader_allowOrigin, mergeVaryHeader_allowOrigin]
  · exact mergeVaryHeader_allowOrigin "Origin"

theorem setUnlessEmpty_of_ne {name other value : String} (h : other ≠ name) :
    setUnlessEmpty m name value other = m other := by
  unfold setUnlessEmpty
  split_ifs
  · exact setHeader_of_ne h
  · rfl

theorem setCORSHeaders_allowOrigin (cors : CORSConfig) (allowedOrigin : String) :
    setCORSHeaders equalFold cors method allowedOrigin m allowOrigin = [allowedOrigin] := by
  unfold setCORSHeaders
  rw [setUnlessEmpty_of_ne (by decide), apply_ite (fun m : HeaderMap => m allowOrigin), setHeader_of_ne (by decide),
    ite_self, setUnlessEmpty_of_ne (by decide), setUnlessEmpty_of_ne (by decide), setUnlessEmpty_of_ne (by decide),
    addCORSVary_allowOrigin]
  exact setHeader_self

theorem serveHTTP_allowOrigin (response : Response) :
    serveHTTP equalFold obfuscateUpstreamID gzipEnabled request response m allowOrigin =
      m allowOrigin ++ copyEndToEndHeaders response.header allowOrigin := by
  have hbody : ∀ header bodyLength m,
      writeBody equalFold gzipEnabled request header bodyLength m allowOrigin = m allowOrigin := by
    intro header bodyLength m
    unfold writeBody
    split_ifs
    · rfl
    · rw [delHeader_of_ne (by decide), setHeader_of_ne (by decide)]
  cases response with
  | fresh upstreamID clientType header bodyLength =>
    unfold serveHTTP
    dsimp only
    rw [hbody, copyInto, apply_ite (fun m : HeaderMap => m allowOrigin), setHeader_of_ne (by decide), ite_self,
      setHeader_of_ne (by decide)]
    rfl
  | cached header bodyLength =>
    unfold serveHTTP
    dsimp only
    rw [hbody, setHeader_of_ne (by decide)]
    rfl
  | events upstreamID header =>
    unfold serveHTTP
    dsimp only
    rw [setHeader_of_ne (by decide), setHeader_of_ne (by decide), setHeader_of_ne (by decide),
      setHeader_of_ne (by decide), setHeader_of_ne (by decide)]
    rfl

def granted (equalFold : String → String → Bool) (cors : CORSConfig) (request : Header) : List String :=
  (allowedCORSOrigin equalFold (trimSpace (request.get "Origin")) cors.credentials cors.allowedOrigins).toList

def passedOn (header : Header) : List String :=
  if "access-control-allow-origin" ∈ nominatedHeaders header then [] else header.values allowOrigin

theorem copyEndToEndHeaders_allowOrigin (header : Header) :
    copyEndToEndHeaders header allowOrigin = passedOn header := by
  have hstatic : "access-control-allow-origin" ∉ hopByHopHeaders.map toLower := by decide +kernel
  have hlower : toLower allowOrigin = "access-control-allow-origin" := by decide +kernel
  unfold copyEndToEndHeaders passedOn hopByHopHeadersFor
  rw [hlower]
  simp only [List.contains_iff_mem, List.mem_append, hstatic, false_or]

theorem wrapWithCORS_allowOrigin (cors : CORSConfig) (response : Response) (hmethod : method ≠ "OPTIONS") :
    wrapWithCORS equalFold (serveHTTP equalFold obfuscateUpstreamID gzipEnabled request response) (some cors) method
        request (fun _ => []) allowOrigin =
      (if trimSpace (request.get "Origin") = "" then [] else granted equalFold cors request) ++
        passedOn response.header := by
  unfold wrapWithCORS granted
  dsimp only
  split_ifs with hblank
  · rw [serveHTTP_allowOrigin, addCORSVary_allowOrigin, copyEndToEndHeaders_allowOrigin]
  · cases allowedCORSOrigin equalFold (trimSpace (request.get "Origin")) cors.credentials cors.allowedOrigins with
    | none =>
      dsimp only
      rw [serveHTTP_allowOrigin, addCORSVary_allowOrigin, copyEndToEndHeaders_allowOrigin]
      rfl
    | some allowedOrigin =>
      dsimp only
      rw [serveHTTP_allowOrigin, setCORSHeaders_allowOrigin, copyEndToEndHeaders_allowOrigin]
      rfl

/-- The policy decides alone when the upstream makes no grants of its own. -/
theorem only_policy_grants_iff (cors : CORSConfig) (response : Response) (hmethod : method ≠ "OPTIONS") :
    wrapWithCORS equalFold (serveHTTP equalFold obfuscateUpstreamID gzipEnabled request response) (some cors) method
        request (fun _ => []) allowOrigin = granted equalFold cors request ↔
      passedOn response.header =
        if trimSpace (request.get "Origin") = "" then granted equalFold cors request else [] := by
  rw [wrapWithCORS_allowOrigin cors response hmethod]
  split_ifs
  · exact Iff.rfl
  · exact List.append_right_eq_self

def oneApp : CORSConfig := ⟨["https://app.example.com"], ["GET", "OPTIONS"], ["content-type"], [], some false, 3600⟩

def equalLower (a b : String) : Bool := toLower a = toLower b

theorem only_policy_grants_app :
    "GET" ≠ "OPTIONS" ∧
      wrapWithCORS equalLower (serveHTTP equalLower id true [("Origin", "https://app.example.com")]
          (.cached [("Content-Type", "application/json")] 100)) (some oneApp) "GET"
          [("Origin", "https://app.example.com")] (fun _ => []) allowOrigin = ["https://app.example.com"] :=
  ⟨by decide, (only_policy_grants_iff oneApp (.cached [("Content-Type", "application/json")] 100) (by decide)).mpr
    (by decide)⟩

theorem upstream_grants_reach_client :
    wrapWithCORS equalLower (serveHTTP equalLower id true [("Origin", "https://evil.example.com")]
        (.fresh "node" "lighthouse" [(allowOrigin, "*")] 100)) (some oneApp) "GET"
        [("Origin", "https://evil.example.com")] (fun _ => []) allowOrigin = ["*"] ∧
      granted equalLower oneApp [("Origin", "https://evil.example.com")] = [] ∧
      wrapWithCORS equalLower (serveHTTP equalLower id true [("Origin", "https://app.example.com")]
        (.fresh "node" "lighthouse" [(allowOrigin, "*")] 100)) (some oneApp) "GET"
        [("Origin", "https://app.example.com")] (fun _ => []) allowOrigin = ["https://app.example.com", "*"] := by
  decide +kernel

end Grants

end Proxy

end EBeacon
