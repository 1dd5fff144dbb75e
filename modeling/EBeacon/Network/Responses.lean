import EBeacon.Library.Folding
import EBeacon.Network.BodilessReplies
import EBeacon.Network.UpstreamRequest

/-!
How the reply of an upstream becomes the response to a client: it is decompressed and read, perhaps kept in the
cache, and compressed again for clients that accept it.
-/

namespace EBeacon.Network

open Text

def Header.set (h : Header) (name value : String) : Header := h.filter (fun l => l.1 ≠ name) ++ [(name, value)]

-- `compress/gzip`, in both directions
structure Gzip extends Gunzip where
  compress : String → String
  run_compress : ∀ s, run (.whole (compress s)) = .ok (.whole s)

structure Buffered where
  status : ℕ
  header : Header
  body : String
  deriving DecidableEq, Repr

structure Written where
  status : ℕ
  header : HeaderMap
  body : String

section Serving

variable (gzip : Gzip)

def finalizeResponseBody (method : String) (header : Header) (body : String) : Header :=
  if method = "HEAD" then header else Header.set header "Content-Length" (toString body.length)

def UpstreamReply.buffered (method : String) (limit : Int64) (r : UpstreamReply) : Option Buffered :=
  match r.delivery gzip.toGunzip with
  | .replied status encoding body =>
    match encoding, readBodyCapped body limit with
    | .badGzip _, _ => none
    | _, .ok content => some ⟨status, finalizeResponseBody method r.forwardedHeader content, content⟩
    | _, .error _ => none
  | .failed _ => none

def writeBody (gzipEnabled : Bool) (acceptEncoding : String) (w : HeaderMap) (r : Buffered) : Written :=
  if !gzipEnabled || !contains acceptEncoding "gzip" || r.header.get "Content-Encoding" ≠ "" || r.body.length ≤ 1024 ||
      equalFold (r.header.get "Content-Type") "application/octet-stream" then ⟨r.status, w, r.body⟩
  else ⟨r.status, Function.update (Function.update w "Content-Encoding" ["gzip"]) "Content-Length" [],
    gzip.compress r.body⟩

def addEndToEndHeaders (w : HeaderMap) (src : Header) : HeaderMap := fun name => w name ++ copyEndToEndHeaders src name

def serveResponse (gzipEnabled : Bool) (acceptEncoding upstreamToken clientType : String) (w : HeaderMap)
    (r : Buffered) : Written :=
  let w := Function.update w "X-Ebeacon-Upstream" [upstreamToken]
  let w := if clientType ≠ "" ∧ clientType ≠ "unknown" then Function.update w "X-Ebeacon-Client-Type" [clientType] else w
  writeBody gzip gzipEnabled acceptEncoding (addEndToEndHeaders w r.header) r

def serveEntry (gzipEnabled : Bool) (acceptEncoding : String) (w : HeaderMap) (r : Buffered) : Written :=
  writeBody gzip gzipEnabled acceptEncoding
    (Function.update (addEndToEndHeaders w r.header) "X-Ebeacon-Cache" ["HIT"]) r

end Serving

inductive Content
  | text (s : String)
  | coded (codings : List String) (body : Body)
  | garbled
  deriving DecidableEq

def content (gunzip : Gunzip) (codings : List String) (body : Body) : Content :=
  if codings = ["gzip"] then
    match gunzip.run body with
    | .ok (.whole s) => .text s
    | _ => .garbled
  else if codings = [] ∨ codings = [""] then
    match body with
    | .whole s => .text s
    | .broken _ _ => .garbled
  else .coded codings body

section Faithful

variable {gzip : Gzip} {r : UpstreamReply} {b : Buffered} {method : String} {limit : Int64}

theorem toInt_succ (hlimit : limit.toInt < 2 ^ 63 - 1) (hpos : 0 < limit.toInt) :
    (limit + 1).toInt = limit.toInt + 1 := by
  rw [Int64.toInt_add]
  have hone : (1 : Int64).toInt = 1 := rfl
  rw [hone]
  apply Int.bmod_eq_of_le <;> omega

theorem whole_of_readBodyCapped {body : Body} {c : String} (hlimit : limit.toInt < 2 ^ 63 - 1)
    (h : readBodyCapped body limit = .ok c) : body = .whole c := by
  unfold readBodyCapped at h
  split_ifs at h with hzero
  · cases body with
    | whole s => cases h; rfl
    | broken s canceled => cases h
  have hpos : 0 < limit.toInt := Int64.lt_iff_toInt_lt.mp (Int64.not_le.mp hzero)
  have hsucc := toInt_succ hlimit hpos
  have hn : (limit + 1).toNatClampNeg = limit.toInt.toNat + 1 := by
    rw [Int64.toNatClampNeg, hsucc]
    omega
  have hread : ¬ limit + 1 ≤ 0 := by
    rw [Int64.le_iff_toInt_le, hsucc]
    change ¬ limit.toInt + 1 ≤ 0
    omega
  unfold readAtMost at h
  rw [if_neg hread, hn] at h
  cases body with
  | whole s =>
    dsimp only at h
    split_ifs at h with hlong
    cases h
    rw [length_take] at hlong
    rw [take_of_length_le (by omega)]
  | broken s canceled =>
    dsimp only at h
    split_ifs at h with hfits
    dsimp only at h
    rw [length_take, if_pos (by omega)] at h
    cases h

theorem buffered_cases (hlimit : limit.toInt < 2 ^ 63 - 1) (h : r.buffered gzip method limit = some b) :
    b.status = r.status ∧ b.header = finalizeResponseBody method r.forwardedHeader b.body ∧
      ((r.gzipped = true ∧ gzip.run r.body = .ok (.whole b.body)) ∨ (r.gzipped = false ∧ r.body = .whole b.body)) := by
  unfold UpstreamReply.buffered UpstreamReply.delivery at h
  cases hgzipped : r.gzipped with
  | true =>
    rw [hgzipped, if_pos rfl] at h
    cases hrun : gzip.run r.body with
    | error canceled =>
      rw [hrun] at h
      cases h
    | ok body =>
      rw [hrun] at h
      dsimp only at h
      cases hread : readBodyCapped body limit with
      | error e =>
        rw [hread] at h
        cases h
      | ok c =>
        rw [hread] at h
        cases h
        exact ⟨rfl, rfl, Or.inl ⟨rfl, by rw [whole_of_readBodyCapped hlimit hread]⟩⟩
  | false =>
    rw [hgzipped, if_neg Bool.false_ne_true] at h
    dsimp only at h
    cases hread : readBodyCapped r.body limit with
    | error e =>
      rw [hread] at h
      cases h
    | ok c =>
      rw [hread] at h
      cases h
      exact ⟨rfl, rfl, Or.inr ⟨rfl, whole_of_readBodyCapped hlimit hread⟩⟩

theorem content_plain {codings : List String} (hplain : codings = [] ∨ codings = [""]) (s : String) :
    content gzip.toGunzip codings (.whole s) = .text s := by
  unfold content
  rw [if_neg (by rcases hplain with rfl | rfl <;> simp), if_pos hplain]

theorem values_single {h : Header} {name : String} (hsingle : (h.values name).length ≤ 1) :
    (h.values name = [] ∧ h.get name = "") ∨ h.values name = [h.get name] := by
  unfold Header.get
  cases hv : h.values name with
  | nil => exact Or.inl ⟨rfl, rfl⟩
  | cons v vs =>
    rw [hv, List.length_cons] at hsingle
    rw [List.eq_nil_of_length_eq_zero (by omega : vs.length = 0)]
    exact Or.inr rfl

theorem codings_plain {h : Header} (hsingle : (h.values "Content-Encoding").length ≤ 1)
    (hget : h.get "Content-Encoding" = "") :
    h.values "Content-Encoding" = [] ∨ h.values "Content-Encoding" = [""] := by
  rcases values_single hsingle with ⟨hnone, -⟩ | hone
  · exact Or.inl hnone
  · exact Or.inr (hget ▸ hone)

theorem codings_gzipped (hsingle : (r.header.values "Content-Encoding").length ≤ 1) (hgzipped : r.gzipped = true) :
    r.header.values "Content-Encoding" = ["gzip"] := by
  have hget : r.header.get "Content-Encoding" = "gzip" := of_decide_eq_true hgzipped
  rcases values_single hsingle with ⟨-, hempty⟩ | hone
  · exact absurd (hempty.symm.trans hget) (by decide)
  · exact hget ▸ hone

theorem values_set {h : Header} {name name' value : String} (hne : name' ≠ name) :
    (Header.set h name value).values name' = h.values name' := by
  unfold Header.set Header.values
  rw [List.filter_append, List.filter_filter, List.filter_cons_of_neg (by simpa using hne.symm), List.filter_nil,
    List.append_nil]
  congr 1
  apply List.filter_congr
  intro l _
  by_cases hl : l.1 = name'
  · simp [hl, hne]
  · simp [hl]

theorem values_set_self (h : Header) (name value : String) : (Header.set h name value).values name = [value] := by
  unfold Header.set Header.values
  rw [List.filter_append, List.filter_filter]
  simp

theorem values_finalize {h : Header} {body name : String} (hname : name ≠ "Content-Length") :
    (finalizeResponseBody method h body).values name = h.values name := by
  unfold finalizeResponseBody
  split_ifs
  · rfl
  · exact values_set hname

theorem copyEndToEndHeaders_of_kept {h : Header} {name : String}
    (hstatic : (hopByHopHeaders.map toLower).contains (toLower name) = false) (hkept : toLower name ∉ nominatedHeaders h) :
    copyEndToEndHeaders h name = h.values name := by
  unfold copyEndToEndHeaders hopByHopHeadersFor
  rw [if_neg]
  rw [List.contains_iff_mem, List.mem_append, not_or]
  refine ⟨?_, hkept⟩
  rw [← List.contains_iff_mem, hstatic]
  simp

theorem writeBody_faithful (gzipEnabled : Bool) (acceptEncoding : String) {w : HeaderMap}
    (hsingle : (b.header.values "Content-Encoding").length ≤ 1)
    (hcodings : w "Content-Encoding" = b.header.values "Content-Encoding") :
    (writeBody gzip gzipEnabled acceptEncoding w b).status = b.status ∧
      content gzip.toGunzip ((writeBody gzip gzipEnabled acceptEncoding w b).header "Content-Encoding")
          (.whole (writeBody gzip gzipEnabled acceptEncoding w b).body) =
        content gzip.toGunzip (b.header.values "Content-Encoding") (.whole b.body) ∧
      (writeBody gzip gzipEnabled acceptEncoding w b).header "Content-Type" = w "Content-Type" ∧
      ((writeBody gzip gzipEnabled acceptEncoding w b).header "Content-Length" = [] ∨
        (writeBody gzip gzipEnabled acceptEncoding w b).header "Content-Length" = w "Content-Length" ∧
          (writeBody gzip gzipEnabled acceptEncoding w b).body = b.body) := by
  unfold writeBody
  split_ifs with hplain
  · exact ⟨rfl, congrArg (content gzip.toGunzip · (.whole b.body)) hcodings, rfl, Or.inr ⟨rfl, rfl⟩⟩
  · simp only [Bool.or_eq_true, decide_eq_true_eq, not_or, not_not] at hplain
    have hget : b.header.get "Content-Encoding" = "" := hplain.1.1.2
    refine ⟨rfl, ?_, rfl, Or.inl rfl⟩
    rw [content_plain (codings_plain hsingle hget)]
    change content gzip.toGunzip ["gzip"] (.whole (gzip.compress b.body)) = _
    unfold content
    rw [if_pos rfl, gzip.run_compress]

theorem values_forwardedHeader {name : String} (hcoding : name ≠ "Content-Encoding") (hlength : name ≠ "Content-Length") :
    r.forwardedHeader.values name = r.header.values name := by
  unfold UpstreamReply.forwardedHeader Header.values
  split_ifs
  · rw [List.filter_filter]
    congr 1
    apply List.filter_congr
    intro l _
    by_cases hl : l.1 = name
    · simp [hl, hcoding, hlength]
    · simp [hl]
  · rfl

theorem codings_forwardedHeader :
    r.forwardedHeader.values "Content-Encoding" = if r.gzipped then [] else r.header.values "Content-Encoding" := by
  unfold UpstreamReply.forwardedHeader Header.values
  split_ifs
  · rw [List.filter_filter, List.map_eq_nil_iff, List.filter_eq_nil_iff]
    intro l _
    simp
    tauto
  · rfl

theorem serve_cases (gzipEnabled : Bool) (acceptEncoding token clientType : String) (w : HeaderMap) {out : Written}
    (hout : out = serveEntry gzip gzipEnabled acceptEncoding w b ∨
      out = serveResponse gzip gzipEnabled acceptEncoding token clientType w b) :
    ∃ w', out = writeBody gzip gzipEnabled acceptEncoding w' b ∧
      ∀ name, hasPrefix name "Content-" = true → w' name = w name ++ copyEndToEndHeaders b.header name := by
  have hother : ∀ {name}, hasPrefix name "Content-" = true →
      name ≠ "X-Ebeacon-Cache" ∧ name ≠ "X-Ebeacon-Upstream" ∧ name ≠ "X-Ebeacon-Client-Type" := by
    intro name hname
    refine ⟨?_, ?_, ?_⟩ <;> rintro rfl <;> revert hname <;> decide
  rcases hout with rfl | rfl
  · refine ⟨_, rfl, fun name hname => ?_⟩
    rw [Function.update_of_ne (hother hname).1]
    rfl
  · refine ⟨_, rfl, fun name hname => ?_⟩
    unfold addEndToEndHeaders
    congr 1
    split_ifs
    · rw [Function.update_of_ne (hother hname).2.2, Function.update_of_ne (hother hname).2.1]
    · rw [Function.update_of_ne (hother hname).2.1]

/-- Whether it is fresh or from the cache, and whether or not the client has it compressed, a response has the content,
the type and the status of the reply and, unless it answers `HEAD`, a length, if any, that is its own. -/
theorem response_faithful (hlimit : limit.toInt < 2 ^ 63 - 1)
    (hsingle : (r.header.values "Content-Encoding").length ≤ 1)
    (hcoding : "content-encoding" ∉ nominatedHeaders r.header) (htype : "content-type" ∉ nominatedHeaders r.header)
    (h : r.buffered gzip method limit = some b) {w : HeaderMap} (hcodings : w "Content-Encoding" = [])
    (htypes : w "Content-Type" = []) (hlengths : w "Content-Length" = []) (gzipEnabled : Bool)
    (acceptEncoding token clientType : String) {out : Written}
    (hout : out = serveEntry gzip gzipEnabled acceptEncoding w b ∨
      out = serveResponse gzip gzipEnabled acceptEncoding token clientType w b) :
    out.status = r.status ∧
      content gzip.toGunzip (out.header "Content-Encoding") (.whole out.body) =
        content gzip.toGunzip (r.header.values "Content-Encoding") r.body ∧
      out.header "Content-Type" = r.header.values "Content-Type" ∧
      (method ≠ "HEAD" → out.header "Content-Length" = [] ∨ out.header "Content-Length" = [toString out.body.length]) := by
  obtain ⟨hstatus, hheader, hbody⟩ := buffered_cases hlimit h
  have hvalues : ∀ name, name ≠ "Content-Encoding" → name ≠ "Content-Length" →
      b.header.values name = r.header.values name := by
    intro name hce hcl
    rw [hheader, values_finalize hcl, values_forwardedHeader hce hcl]
  have hce : b.header.values "Content-Encoding" = if r.gzipped then [] else r.header.values "Content-Encoding" := by
    rw [hheader, values_finalize (by decide), codings_forwardedHeader]
  have hnominated : nominatedHeaders b.header = nominatedHeaders r.header := by
    unfold nominatedHeaders
    rw [hvalues "Connection" (by decide) (by decide)]
  have hcopied : copyEndToEndHeaders b.header "Content-Encoding" = b.header.values "Content-Encoding" :=
    copyEndToEndHeaders_of_kept (by decide) (by rw [hnominated]; exact hcoding)
  have hcopiedType : copyEndToEndHeaders b.header "Content-Type" = r.header.values "Content-Type" := by
    rw [copyEndToEndHeaders_of_kept (by decide) (by rw [hnominated]; exact htype), hvalues _ (by decide) (by decide)]
  obtain ⟨w', rfl, hw'⟩ := serve_cases gzipEnabled acceptEncoding token clientType w hout
  obtain ⟨hout, hcontent, htype', hlength⟩ := writeBody_faithful gzipEnabled acceptEncoding (b := b) (w := w')
    (by rw [hce]; split_ifs; exacts [Nat.zero_le _, hsingle])
    (by rw [hw' _ (by decide), hcodings, List.nil_append, hcopied])
  refine ⟨hout.trans hstatus, hcontent.trans ?_, ?_, fun hmethod => ?_⟩
  · rw [hce]
    rcases hbody with ⟨hgzipped, hrun⟩ | ⟨hplain, hwhole⟩
    · rw [if_pos hgzipped, content_plain (Or.inl rfl), codings_gzipped hsingle hgzipped]
      unfold content
      rw [if_pos rfl, hrun]
    · rw [if_neg (by simp [hplain]), hwhole]
  · rw [htype', hw' _ (by decide), htypes, List.nil_append, hcopiedType]
  · rcases hlength with hnone | ⟨hsame, hbody⟩
    · exact Or.inl hnone
    rw [hsame, hbody, hw' _ (by decide), hlengths, List.nil_append]
    unfold copyEndToEndHeaders
    split_ifs
    · exact Or.inl rfl
    · right
      rw [hheader, finalizeResponseBody, if_neg hmethod, values_set_self]

def marking : Gzip where
  run
    | .whole s => if hasPrefix s "gz" then .ok (.whole (drop s 2)) else .error false
    | .broken s _ => .error (hasPrefix s "gz")
  run_empty := rfl
  compress s := "gz" ++ s
  run_compress s := by
    have hdrop : drop ("gz" ++ s) 2 = s := drop_append "gz" s
    dsimp only
    rw [if_pos (hasPrefix_append "gz" s), hdrop]

def gzippedReply : UpstreamReply :=
  ⟨200, [("Content-Type", "application/json"), ("Content-Encoding", "gzip"), ("Content-Length", "4")], .whole "gz42"⟩

def gunzipped : Buffered := ⟨200, [("Content-Type", "application/json"), ("Content-Length", "2")], "42"⟩

theorem response_faithful_gzipped :
    gzippedReply.buffered marking "GET" 100 = some gunzipped ∧
      content marking.toGunzip ((serveEntry marking true "gzip" (fun _ => []) gunzipped).header "Content-Encoding")
        (.whole (serveEntry marking true "gzip" (fun _ => []) gunzipped).body) = .text "42" := by
  have hbuffered : gzippedReply.buffered marking "GET" 100 = some gunzipped := rfl
  exact ⟨hbuffered, (response_faithful (by decide) (by decide) (by decide) (by decide) hbuffered rfl rfl rfl true "gzip"
    "" "" (Or.inl rfl)).2.1⟩

end Faithful

end EBeacon.Network
