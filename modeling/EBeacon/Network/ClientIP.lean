import EBeacon.Library.Header

namespace EBeacon.Network

open Text

inductive Addr
  | v4 (bits : BitVec 32)
  | v6 (bits : BitVec 128) (zone : String)
  deriving DecidableEq

namespace Addr

def unmap : Addr → Addr
  | .v6 bits zone => if bits >>> 32 = 0xffff then .v4 (bits.setWidth 32) else .v6 bits zone
  | a => a

end Addr

structure Subnet where
  addr : Addr
  bits : ℕ
  deriving DecidableEq

def Subnet.contains (p : Subnet) : Addr → Bool
  | .v4 a => match p.addr with
    | .v4 b => (a ^^^ b) >>> (32 - p.bits) = 0
    | .v6 _ _ => false
  | .v6 a zone => match p.addr with
    | .v4 _ => false
    | .v6 b _ => zone = "" && (a ^^^ b) >>> (128 - p.bits) = 0

structure Incoming where
  remoteAddr : String
  header : Header

def lastIndexByte (c : Char) (l : List Char) : Option ℕ :=
  (l.reverse.findIdx? (· = c)).map (fun i => l.length - 1 - i)

def splitHost (hostport : List Char) : Option (List Char) :=
  match lastIndexByte ':' hostport with
  | none => none
  | some i =>
    if hostport.head? = some '[' then
      match hostport.findIdx? (· = ']') with
      | none => none
      | some stop =>
        if stop + 1 ≠ i ∨ '[' ∈ hostport.drop 1 ∨ ']' ∈ hostport.drop (stop + 1) then none
        else some ((hostport.take stop).drop 1)
    else
      let host := hostport.take i
      if ':' ∈ host ∨ '[' ∈ hostport ∨ ']' ∈ hostport then none else some host

def remoteAddrHost (r : Incoming) : String :=
  match splitHost r.remoteAddr.toList with
  | none => r.remoteAddr
  | some host => String.ofList host

section Trust

variable (parseAddr : String → Option Addr)

def isTrustedProxyAddr (prefixes : List Subnet) (ip : String) : Bool :=
  match parseAddr ip with
  | none => false
  | some a => prefixes.any (fun p => p.contains a.unmap)

def lastUntrusted (prefixes : List Subnet) : List String → Option String
  | [] => none
  | part :: rest =>
    let entry := trimSpace part
    if entry = "" then lastUntrusted prefixes rest
    else if isTrustedProxyAddr parseAddr prefixes entry then lastUntrusted prefixes rest
    else some entry

def realIP (r : Incoming) (peer : String) : String :=
  let xri := trimSpace (r.header.get "X-Real-Ip")
  if xri ≠ "" then xri else peer

def forwardedIP (prefixes : List Subnet) (r : Incoming) (peer : String) : String :=
  let xff := r.header.get "X-Forwarded-For"
  if xff = "" then realIP r peer
  else
    let parts := split ',' xff
    match lastUntrusted parseAddr prefixes parts.reverse with
    | some entry => entry
    | none =>
      let first := trimSpace (parts.head?.getD "")
      if first ≠ "" then first else realIP r peer

-- `ClientIP`; without trusted proxies every peer is trusted
def clientIP (trustedProxies : Option (List Subnet)) (r : Incoming) : String :=
  match trustedProxies with
  | none =>
    let xff := r.header.get "X-Forwarded-For"
    let xri := r.header.get "X-Real-Ip"
    if xff ≠ "" then trimSpace ((split ',' xff).head?.getD "")
    else if xri ≠ "" then trimSpace xri
    else remoteAddrHost r
  | some prefixes =>
    let peer := remoteAddrHost r
    if !isTrustedProxyAddr parseAddr prefixes peer then peer
    else forwardedIP parseAddr prefixes r peer

def untrustedEntries (prefixes : List Subnet) (chain : String) : List String :=
  ((split ',' chain).map trimSpace).filter
    (fun e => e ≠ "" && !isTrustedProxyAddr parseAddr prefixes e)

end Trust

def combinedChain (r : Incoming) : String := ",".intercalate (r.header.values "X-Forwarded-For")

section Spoofing

variable {parseAddr : String → Option Addr} {prefixes : List Subnet}

theorem lastUntrusted_reverse (chain : String) :
    lastUntrusted parseAddr prefixes (split ',' chain).reverse =
      (untrustedEntries parseAddr prefixes chain).getLast? := by
  have hwalk : ∀ parts, lastUntrusted parseAddr prefixes parts = ((parts.map trimSpace).filter
      (fun e => e ≠ "" && !isTrustedProxyAddr parseAddr prefixes e)).head? := by
    intro parts
    induction parts with
    | nil => rfl
    | cons part parts ih =>
      unfold lastUntrusted
      dsimp only
      split_ifs with hempty htrusted
      · simp [hempty, ih]
      · simp [hempty, htrusted, ih]
      · simp [hempty, htrusted]
  rw [hwalk, untrustedEntries, List.map_reverse, List.filter_reverse, List.head?_reverse]

theorem untrustedEntries_empty : untrustedEntries parseAddr prefixes "" = [] := by
  have hsplit : (split ',' "").map trimSpace = [""] := by decide
  rw [untrustedEntries, hsplit]
  rfl

theorem untrustedEntries_intercalate (lines : List String) :
    untrustedEntries parseAddr prefixes (",".intercalate lines) =
      lines.flatMap (untrustedEntries parseAddr prefixes) := by
  induction lines with
  | nil => exact untrustedEntries_empty
  | cons line lines ih =>
    cases lines with
    | nil => simp
    | cons next lines =>
      have hcomma : "," = String.singleton ',' := rfl
      rw [String.intercalate_cons_cons, List.flatMap_cons, ← ih]
      nth_rewrite 1 [hcomma]
      rw [untrustedEntries, split_append_cons, List.map_append, List.filter_append]
      rfl

theorem untrustedEntries_combinedChain (r : Incoming) :
    untrustedEntries parseAddr prefixes (combinedChain r) =
      untrustedEntries parseAddr prefixes (r.header.get "X-Forwarded-For") ++
        (r.header.values "X-Forwarded-For").tail.flatMap (untrustedEntries parseAddr prefixes) := by
  unfold combinedChain Header.get
  rw [untrustedEntries_intercalate]
  cases r.header.values "X-Forwarded-For" with
  | nil =>
    rw [List.head?_nil, Option.getD_none, untrustedEntries_empty]
    rfl
  | cons line lines => rfl

theorem forwardedIP_of_untrusted {r : Incoming} {entry : String} (peer : String)
    (h : (untrustedEntries parseAddr prefixes (r.header.get "X-Forwarded-For")).getLast? = some entry) :
    forwardedIP parseAddr prefixes r peer = entry := by
  have hline : r.header.get "X-Forwarded-For" ≠ "" := by
    intro hempty
    rw [hempty, untrustedEntries_empty] at h
    cases h
  unfold forwardedIP
  dsimp only
  rw [if_neg hline, lastUntrusted_reverse, h]

theorem forwardedIP_of_trusted {r : Incoming} {peer entry : String}
    (h : untrustedEntries parseAddr prefixes (r.header.get "X-Forwarded-For") = [])
    (hpeer : isTrustedProxyAddr parseAddr prefixes peer = true) (hentry : entry ≠ "")
    (huntrusted : isTrustedProxyAddr parseAddr prefixes entry = false) :
    forwardedIP parseAddr prefixes r peer = entry ↔
      trimSpace ((split ',' (r.header.get "X-Forwarded-For")).head?.getD "") = "" ∧
        trimSpace (r.header.get "X-Real-Ip") = entry := by
  have hreal : realIP r peer = entry ↔ trimSpace (r.header.get "X-Real-Ip") = entry := by
    unfold realIP
    dsimp only
    split_ifs with hxri
    · exact Iff.rfl
    · rw [not_not.mp hxri]
      refine iff_of_false ?_ hentry.symm
      rintro rfl
      rw [hpeer] at huntrusted
      cases huntrusted
  unfold forwardedIP
  dsimp only
  by_cases hline : r.header.get "X-Forwarded-For" = ""
  · have hfirst : trimSpace ((split ',' "").head?.getD "") = "" := by decide
    rw [if_pos hline, hline, hreal]
    exact ⟨fun heq => ⟨hfirst, heq⟩, And.right⟩
  · rw [if_neg hline, lastUntrusted_reverse, h]
    have hmem : (split ',' (r.header.get "X-Forwarded-For")).head?.getD "" ∈
        split ',' (r.header.get "X-Forwarded-For") := by
      cases hparts : split ',' (r.header.get "X-Forwarded-For") with
      | nil => exact absurd hparts (split_ne_nil _ _)
      | cons first rest => exact List.mem_cons_self
    generalize (split ',' (r.header.get "X-Forwarded-For")).head?.getD "" = first at hmem
    dsimp only [List.getLast?_nil]
    by_cases hfirst : trimSpace first ≠ ""
    · rw [if_pos hfirst]
      refine iff_of_false ?_ (fun hboth => hfirst hboth.1)
      intro heq
      have hin : trimSpace first ∈ untrustedEntries parseAddr prefixes (r.header.get "X-Forwarded-For") :=
        List.mem_filter.mpr ⟨List.mem_map_of_mem hmem, by simp [heq, hentry, huntrusted]⟩
      rw [h] at hin
      cases hin
    · rw [if_neg hfirst, hreal]
      exact ⟨fun heq => ⟨not_not.mp hfirst, heq⟩, And.right⟩

variable (parseAddr prefixes) in
def Unspoofed (r : Incoming) : Prop :=
  (isTrustedProxyAddr parseAddr prefixes (remoteAddrHost r) = false →
      clientIP parseAddr (some prefixes) r = remoteAddrHost r) ∧
    (isTrustedProxyAddr parseAddr prefixes (remoteAddrHost r) = true → ∀ entry,
      (untrustedEntries parseAddr prefixes (combinedChain r)).getLast? = some entry →
        clientIP parseAddr (some prefixes) r = entry)

variable (parseAddr prefixes) in
def FirstLineDecides (r : Incoming) : Prop :=
  isTrustedProxyAddr parseAddr prefixes (remoteAddrHost r) = true → ∀ entry,
    ((r.header.values "X-Forwarded-For").tail.flatMap
        (untrustedEntries parseAddr prefixes)).getLast? = some entry →
      (untrustedEntries parseAddr prefixes (r.header.get "X-Forwarded-For")).getLast? = some entry ∨
        untrustedEntries parseAddr prefixes (r.header.get "X-Forwarded-For") = [] ∧
          trimSpace ((split ',' (r.header.get "X-Forwarded-For")).head?.getD "") = "" ∧
          trimSpace (r.header.get "X-Real-Ip") = entry

theorem clientIP_trusted {r : Incoming}
    (h : isTrustedProxyAddr parseAddr prefixes (remoteAddrHost r) = true) :
    clientIP parseAddr (some prefixes) r = forwardedIP parseAddr prefixes r (remoteAddrHost r) := by
  simp [clientIP, h]

theorem clientIP_untrusted {r : Incoming}
    (h : isTrustedProxyAddr parseAddr prefixes (remoteAddrHost r) = false) :
    clientIP parseAddr (some prefixes) r = remoteAddrHost r := by
  simp [clientIP, h]

theorem unspoofed_firstLine (r : Incoming) :
    Unspoofed parseAddr prefixes r ↔ FirstLineDecides parseAddr prefixes r := by
  unfold Unspoofed FirstLineDecides
  rw [and_iff_right clientIP_untrusted]
  apply forall_congr'
  intro hpeer
  rw [clientIP_trusted hpeer, untrustedEntries_combinedChain]
  apply forall_congr'
  intro entry
  rw [List.getLast?_append]
  cases hlater : ((r.header.values "X-Forwarded-For").tail.flatMap
      (untrustedEntries parseAddr prefixes)).getLast? with
  | none =>
    refine iff_of_true (fun hfirst => ?_) nofun
    exact forwardedIP_of_untrusted _ (by simpa using hfirst)
  | some last =>
    rw [Option.some_or, Option.some.injEq]
    apply forall_congr'
    rintro rfl
    cases hfirst : (untrustedEntries parseAddr prefixes (r.header.get "X-Forwarded-For")).getLast? with
    | some entry =>
      have hsome : untrustedEntries parseAddr prefixes (r.header.get "X-Forwarded-For") ≠ [] := by
        intro hnone
        rw [hnone] at hfirst
        cases hfirst
      rw [forwardedIP_of_untrusted _ hfirst, Option.some.injEq]
      exact ⟨Or.inl, fun h => h.resolve_right (fun hnone => hsome hnone.1)⟩
    | none =>
      have hnone := List.getLast?_eq_none_iff.mp hfirst
      obtain ⟨line, -, hmem⟩ := List.mem_flatMap.mp (List.mem_of_getLast? hlater)
      have huntrusted : last ≠ "" ∧ isTrustedProxyAddr parseAddr prefixes last = false := by
        simpa using (List.mem_filter.mp hmem).2
      rw [forwardedIP_of_trusted hnone hpeer huntrusted.1 huntrusted.2]
      exact ⟨fun h => Or.inr ⟨hnone, h⟩, fun h => (h.resolve_left nofun).2⟩

/-- The address is the rightmost untrusted entry of the chain exactly when the first line decides.
Then requests of one peer whose chains end in the same untrusted entry have the same address. -/
theorem unspoofed_iff (parseAddr : String → Option Addr) (prefixes : List Subnet) (r : Incoming) :
    (Unspoofed parseAddr prefixes r ↔ FirstLineDecides parseAddr prefixes r) ∧
      ∀ r' entry, FirstLineDecides parseAddr prefixes r → FirstLineDecides parseAddr prefixes r' →
        r'.remoteAddr = r.remoteAddr →
        (untrustedEntries parseAddr prefixes (combinedChain r)).getLast? = some entry →
        (untrustedEntries parseAddr prefixes (combinedChain r')).getLast? = some entry →
        clientIP parseAddr (some prefixes) r = clientIP parseAddr (some prefixes) r' := by
  refine ⟨unspoofed_firstLine r, ?_⟩
  intro r' entry h h' hpeer hlast hlast'
  have hhost : remoteAddrHost r' = remoteAddrHost r := by rw [remoteAddrHost, hpeer, ← remoteAddrHost]
  obtain ⟨huntrusted, htrusted⟩ := (unspoofed_firstLine r).mpr h
  obtain ⟨huntrusted', htrusted'⟩ := (unspoofed_firstLine r').mpr h'
  rw [hhost] at huntrusted' htrusted'
  cases ht : isTrustedProxyAddr parseAddr prefixes (remoteAddrHost r) with
  | false => rw [huntrusted ht, huntrusted' ht]
  | true => rw [htrusted ht entry hlast, htrusted' ht entry hlast']

end Spoofing

def parseOctet (field : String) : Option (BitVec 8) :=
  let digits := field.toList
  let value := digits.foldl (fun v c => v * 10 + (c.toNat - 48)) 0
  if digits ≠ [] ∧ digits.all Char.isDigit ∧ (digits.length = 1 ∨ digits.head? ≠ some '0') ∧
    digits.length ≤ 3 ∧ value ≤ 255 then some (BitVec.ofNat 8 value) else none

def parseIPv4 (s : String) : Option Addr :=
  match (split '.' s).map parseOctet with
  | [some a, some b, some c, some d] => some (.v4 (a ++ b ++ c ++ d))
  | _ => none

def twoLines : Incoming where
  remoteAddr := "10.0.0.1:443"
  header := [("X-Forwarded-For", "1.2.3.4"), ("X-Forwarded-For", "203.0.113.9")]

theorem spoofed_twoLines : ¬ Unspoofed parseIPv4 [⟨.v4 0x0a000000, 8⟩] twoLines := by
  intro h
  have hentry := h.2 (by decide) "203.0.113.9" (by decide)
  have hclient : clientIP parseIPv4 (some [⟨.v4 0x0a000000, 8⟩]) twoLines = "1.2.3.4" := by decide
  rw [hclient] at hentry
  revert hentry
  decide

end EBeacon.Network
