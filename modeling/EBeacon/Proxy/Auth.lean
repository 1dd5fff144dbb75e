import EBeacon.Library.Header
import EBeacon.Network.Gates
import EBeacon.Proxy.Routing

/-!
Who may use the proxy, and the limiters of keys and tiers.
-/

namespace EBeacon.Proxy

open Text Config Network

structure AuthResult where
  authenticated : Bool
  keyID : String
  tier : String
  deriving DecidableEq, Repr

def AuthResult.denied : AuthResult := ⟨false, "", ""⟩

def constantTimeEquals (a b : String) : Bool := a ≠ "" && b ≠ "" && a = b

def bearerToken (authorization : String) : String :=
  let auth := trimSpace authorization
  if 6 < auth.length ∧ toLower (take auth 6) = "bearer" then trimSpace (drop auth 6) else ""

def extractSecret (header : Header) (query : List (String × String)) : String :=
  let places := [trimSpace (header.get "X-Ebeacon-Secret-Token"), trimSpace (header.get "X-Api-Key"),
    bearerToken (header.get "Authorization"), URL.get query "secret"]
  (places.find? (· ≠ "")).getD ""

def presented (header : Header) (query : List (String × String)) (extra : String) : String :=
  if extractSecret header query = "" then extra else extractSecret header query

def authenticateRequest (header : Header) (query : List (String × String)) (auth : Option AuthConfig)
    (extra : String) : AuthResult :=
  match auth with
  | none => ⟨true, "", ""⟩
  | some auth =>
    let secret := presented header query extra
    match auth.keys.find? (fun key => key.secret ≠ "" && constantTimeEquals secret key.secret) with
    | some key => ⟨true, key.id, key.tier⟩
    | none =>
      if auth.secret = "" then if auth.keys ≠ [] then .denied else ⟨true, "", ""⟩
      else if constantTimeEquals secret auth.secret then ⟨true, "default", ""⟩ else .denied

def credentials (auth : AuthConfig) : List String :=
  (auth.keys.map (·.secret) ++ [auth.secret]).filter (· ≠ "")

abbrev Limiters (L : RateLimiter) := AList (fun _ : String => L.Limiter)

section Limiters

variable {α : Type} (L : RateLimiter) (name : α → String) (limits : α → Option RateLimitConfig)

def limiterBurst (rl : RateLimitConfig) : Int64 :=
  if rl.burst ≤ 0 then max rl.limit.toInt64 1 else rl.burst

def authLimiter (rl : Option RateLimitConfig) (now : ℤ) : Option L.Limiter :=
  (rl.filter (fun rl => 0 < rl.limit)).map (fun rl => L.new rl.limit (limiterBurst rl) now)

def buildLimiters (now : ℤ) (l : List α) : Limiters L :=
  l.foldl (fun m x => (authLimiter L (limits x) now).elim m (m.insert (name x))) ∅

end Limiters

def buildAuthRateLimiters (L : RateLimiter) (auth : Option AuthConfig) (now : ℤ) : Limiters L × Limiters L :=
  match auth with
  | none => (∅, ∅)
  | some auth => (buildLimiters L (·.id) (·.rateLimiting) now auth.keys,
      buildLimiters L (·.name) (·.rateLimiting) now auth.tiers)

-- the limiter that refuses, and the limiters after the request; the limiter of a key replaces that of its
-- tier
def applyAuthRateLimits {L : RateLimiter} (keyLimiters tierLimiters : Limiters L) (result : AuthResult) (now : ℤ) :
    Option String × Limiters L × Limiters L :=
  if result.keyID = "" then (none, keyLimiters, tierLimiters)
  else match keyLimiters.lookup result.keyID with
    | some l => (if (L.allow l now).1 then none else some "per-key",
        keyLimiters.insert result.keyID (L.allow l now).2, tierLimiters)
    | none =>
      if result.tier = "" then (none, keyLimiters, tierLimiters)
      else match tierLimiters.lookup result.tier with
        | some l => (if (L.allow l now).1 then none else some ("tier:" ++ result.tier),
            keyLimiters, tierLimiters.insert result.tier (L.allow l now).2)
        | none => (none, keyLimiters, tierLimiters)

section Identity

variable {auth : AuthConfig}

theorem constantTimeEquals_iff {a b : String} : constantTimeEquals a b = true ↔ a ≠ "" ∧ a = b := by
  unfold constantTimeEquals
  constructor
  · simp only [Bool.and_eq_true, decide_eq_true_eq]
    exact fun h => ⟨h.1.1, h.2⟩
  · rintro ⟨ha, rfl⟩
    simp [ha]

theorem mem_credentials {secret : String} :
    secret ∈ credentials auth ↔ secret ≠ "" ∧ ((∃ key ∈ auth.keys, key.secret = secret) ∨ secret = auth.secret) := by
  unfold credentials
  rw [List.mem_filter, List.mem_append, List.mem_map, List.mem_singleton, decide_eq_true_eq, and_comm]

theorem authenticateRequest_cases (header : Header) (query : List (String × String)) (extra : String)
    (hopen : auth.secret ≠ "" ∨ auth.keys ≠ []) :
    (∃ key ∈ auth.keys, key.secret = presented header query extra ∧
        authenticateRequest header query (some auth) extra = ⟨true, key.id, key.tier⟩ ∧
        presented header query extra ∈ credentials auth) ∨
      (presented header query extra = auth.secret ∧
        authenticateRequest header query (some auth) extra = ⟨true, "default", ""⟩ ∧
        presented header query extra ∈ credentials auth) ∨
      (authenticateRequest header query (some auth) extra = .denied ∧
        presented header query extra ∉ credentials auth) := by
  unfold authenticateRequest
  dsimp only
  generalize presented header query extra = secret
  cases hfind : auth.keys.find? (fun key => key.secret ≠ "" && constantTimeEquals secret key.secret) with
  | some key =>
    have hkey := List.find?_some hfind
    rw [Bool.and_eq_true, constantTimeEquals_iff] at hkey
    have hmem := List.mem_of_find?_eq_some hfind
    exact Or.inl ⟨key, hmem, hkey.2.2.symm, rfl, mem_credentials.mpr ⟨hkey.2.1, Or.inl ⟨key, hmem, hkey.2.2.symm⟩⟩⟩
  | none =>
    rw [List.find?_eq_none] at hfind
    have hkeys : secret ≠ "" → ∀ key ∈ auth.keys, key.secret ≠ secret := by
      rintro hsecret key hmem rfl
      apply hfind key hmem
      simp [hsecret, constantTimeEquals]
    right
    by_cases hlegacy : auth.secret = ""
    · right
      rw [if_pos hlegacy, if_pos (hopen.resolve_left (not_not_intro hlegacy))]
      refine ⟨rfl, fun hmem => ?_⟩
      obtain ⟨hsecret, ⟨key, hkey, heq⟩ | heq⟩ := mem_credentials.mp hmem
      · exact hkeys hsecret key hkey heq
      · exact hsecret (heq.trans hlegacy)
    · rw [if_neg hlegacy]
      by_cases heq : secret = auth.secret
      · left
        have hsecret : secret ≠ "" := heq ▸ hlegacy
        rw [if_pos (constantTimeEquals_iff.mpr ⟨hsecret, heq⟩)]
        exact ⟨heq, rfl, mem_credentials.mpr ⟨hsecret, Or.inr heq⟩⟩
      · right
        rw [if_neg (fun h => heq (constantTimeEquals_iff.mp h).2)]
        refine ⟨rfl, fun hmem => ?_⟩
        obtain ⟨hsecret, ⟨key, hkey, hkeq⟩ | hleq⟩ := mem_credentials.mp hmem
        · exact hkeys hsecret key hkey hkeq
        · exact heq hleq

end Identity

section Building

variable {α : Type} {L : RateLimiter} {name : α → String} {limits : α → Option RateLimitConfig} {now : ℤ}

theorem lookup_foldl_notMem {l : List α} {n : String} (h : n ∉ l.map name) (m : Limiters L) :
    (l.foldl (fun m x => (authLimiter L (limits x) now).elim m (m.insert (name x))) m).lookup n = m.lookup n := by
  induction l generalizing m with
  | nil => rfl
  | cons x l ih =>
    rw [List.map_cons, List.mem_cons, not_or] at h
    rw [List.foldl_cons, ih h.2]
    cases authLimiter L (limits x) now with
    | none => rfl
    | some limiter => exact AList.lookup_insert_ne h.1

theorem lookup_buildLimiters {l : List α} (hnodup : (l.map name).Nodup) {x : α} (hx : x ∈ l) :
    (buildLimiters L name limits now l).lookup (name x) = authLimiter L (limits x) now := by
  unfold buildLimiters
  have hempty : (∅ : Limiters L).lookup (name x) = none := AList.lookup_empty _
  generalize (∅ : Limiters L) = m at hempty
  induction l generalizing m with
  | nil => cases hx
  | cons y l ih =>
    rw [List.map_cons, List.nodup_cons] at hnodup
    rw [List.foldl_cons]
    rcases List.mem_cons.mp hx with rfl | hx
    · rw [lookup_foldl_notMem hnodup.1]
      cases authLimiter L (limits x) now with
      | none => exact hempty
      | some limiter => exact AList.lookup_insert m
    · refine ih hnodup.2 hx _ ?_
      have hne : name x ≠ name y := by
        intro heq
        exact hnodup.1 (heq ▸ List.mem_map_of_mem hx)
      cases authLimiter L (limits y) now with
      | none => exact hempty
      | some limiter => exact (AList.lookup_insert_ne hne).trans hempty

end Building

end EBeacon.Proxy
