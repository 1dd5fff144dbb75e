import EBeacon.Config.Accepted
import EBeacon.Network.Budgets
import EBeacon.Network.ClientIP
import EBeacon.Proxy.Auth

/-!
`ServeHTTP` of the proxy with those of the networks behind it: which requests get in, and what they use up.
-/

namespace EBeacon.Proxy

open Text Config Network Upstream

structure Site where
  auth : Option AuthConfig
  networks : List (String × Network.Config)
  parseAddr : String → Option Addr
  trustedProxies : Option (List Subnet)

structure Arrival where
  time : ℤ
  method : String
  remoteAddr : String
  header : Header
  url : URL
  body : String
  pools : String → Pool

structure Front (L : RateLimiter) where
  keyLimiters : Limiters L
  tierLimiters : Limiters L
  gates : String → Gates L

inductive Outcome
  | healthz
  | unauthorized
  | limited (limiter : String)
  | unknownNetwork (id available : String)
  | served (network keyID : String) (v : Verdict)

namespace Site

variable (site : Site) (a : Arrival)

def proxy : Proxy := ⟨site.networks.map Prod.fst, site.auth.map credentials⟩

def pathKey : String := ((site.proxy.routeRequest a.url.path).map (·.pathKey)).getD ""

def presented : String := Proxy.presented a.header a.url.query (site.pathKey a)

def identify : AuthResult := authenticateRequest a.header a.url.query site.auth (site.pathKey a)

def target : Option (String × Network.Config × URL) := do
  let (id, url) ← site.proxy.serve a.url
  let cfg ← site.networks.lookup id
  return (id, cfg, url)

def firstSegment (path : String) : String := (split '/' (trimPrefix path "/")).headD ""

def availableNetworks : String :=
  ", ".intercalate (site.proxy.networks.mergeSort (fun a b => decide (a ≤ b)))

end Site

def Arrival.request (a : Arrival) (url : URL) : Request :=
  ⟨url, a.header.get "X-Ebeacon-Use-Upstream", a.header.get "Accept", a.body⟩

namespace Front

variable {L : RateLimiter} (site : Site) (f : Front L) (a : Arrival)

def setAuth (f : Front L) (auth : Option AuthConfig) (now : ℤ) : Front L :=
  { f with keyLimiters := (buildAuthRateLimiters L auth now).1, tierLimiters := (buildAuthRateLimiters L auth now).2 }

def authenticate : Option Outcome × Front L :=
  if (site.identify a).authenticated = false then (some .unauthorized, f)
  else
    let asked := applyAuthRateLimits f.keyLimiters f.tierLimiters (site.identify a) a.time
    (asked.1.map .limited, { f with keyLimiters := asked.2.1, tierLimiters := asked.2.2 })

def forward : Outcome × Front L :=
  match site.target a with
  | none => (.unknownNetwork (Site.firstSegment a.url.path) site.availableNetworks, f)
  | some (id, cfg, url) =>
    let ip := clientIP site.parseAddr site.trustedProxies ⟨a.remoteAddr, a.header⟩
    let served := cfg.serveHTTP (a.pools id) (f.gates id) a.method (a.request url) ip a.time
    (.served id (site.identify a).keyID served.1, { f with gates := Function.update f.gates id served.2 })

def serveHTTP : Outcome × Front L :=
  if a.url.path = "/healthz" then (.healthz, f)
  else match (f.authenticate site a).1 with
    | some o => (o, (f.authenticate site a).2)
    | none => (f.authenticate site a).2.forward site a

end Front

section Access

variable {L : RateLimiter} {site : Site} {auth : AuthConfig} {env : Env} {c : Config.Config} {f : Front L}
  {a : Arrival}

theorem authenticate_unauthorized :
    (f.authenticate site a).1 = some .unauthorized ↔ (site.identify a).authenticated = false := by
  unfold Front.authenticate
  split_ifs with h
  · simp [h]
  · simp [h]

theorem serveHTTP_unauthorized (hpath : a.url.path ≠ "/healthz") :
    (f.serveHTTP site a).1 = .unauthorized ↔ (site.identify a).authenticated = false := by
  unfold Front.serveHTTP
  rw [if_neg hpath, ← authenticate_unauthorized (f := f)]
  cases (f.authenticate site a).1 with
  | some o => simp
  | none =>
    simp only [reduceCtorEq, iff_false]
    unfold Front.forward
    split
    · simp
    · simp

theorem serveHTTP_denied (hpath : a.url.path ≠ "/healthz") (h : (site.identify a).authenticated = false) :
    (f.serveHTTP site a).2 = f := by
  have hdenied : f.authenticate site a = (some .unauthorized, f) := if_pos h
  unfold Front.serveHTTP
  rw [if_neg hpath, hdenied]

theorem serveHTTP_served {network keyID : String} {v : Verdict}
    (h : (f.serveHTTP site a).1 = .served network keyID v) :
    (site.identify a).authenticated = true ∧ keyID = (site.identify a).keyID := by
  unfold Front.serveHTTP at h
  split_ifs at h with hpath
  cases hauth : (f.authenticate site a).1 with
  | some o =>
    rw [hauth] at h
    cases h
    unfold Front.authenticate at hauth
    split_ifs at hauth
    · cases hauth
    · obtain ⟨_, -, hlimited⟩ := Option.map_eq_some_iff.mp hauth
      cases hlimited
  | none =>
    rw [hauth] at h
    change ((f.authenticate site a).2.forward site a).1 = _ at h
    refine ⟨?_, ?_⟩
    · by_contra hdenied
      rw [authenticate_unauthorized.mpr (by simpa using hdenied)] at hauth
      cases hauth
    · unfold Front.forward at h
      split at h
      · cases h
      · cases h
        rfl

/-- With the `auth` section of an accepted file, a request is turned away exactly when what it presents is not a
configured secret, and then it uses up nothing; the requests that are served carry the name of the key whose
secret they have. -/
theorem access (hvalid : c.validate env = .ok ()) (hauth : c.auth = some auth) (hsite : site.auth = c.auth)
    (f : Front L) (hpath : a.url.path ≠ "/healthz") :
    ((f.serveHTTP site a).1 = .unauthorized ↔ site.presented a ∉ credentials auth) ∧
      ((f.serveHTTP site a).1 = .unauthorized → (f.serveHTTP site a).2 = f) ∧
      ∀ network keyID v, (f.serveHTTP site a).1 = .served network keyID v →
        (∃ key ∈ auth.keys, key.id = keyID ∧ key.secret = site.presented a) ∨
          keyID = "default" ∧ auth.secret = site.presented a := by
  have hidentify : site.identify a = authenticateRequest a.header a.url.query (some auth) (site.pathKey a) := by
    unfold Site.identify
    rw [hsite, hauth]
  have hcases := authenticateRequest_cases a.header a.url.query (site.pathKey a) (auth_accepted hvalid hauth).closed
  rw [← hidentify] at hcases
  refine ⟨?_, fun h => serveHTTP_denied hpath ((serveHTTP_unauthorized hpath).mp h), fun network keyID v h => ?_⟩
  · rw [serveHTTP_unauthorized hpath]
    rcases hcases with ⟨key, -, -, hresult, hmem⟩ | ⟨-, hresult, hmem⟩ | ⟨hresult, hmem⟩
    · rw [hresult]
      exact iff_of_false (by simp) (not_not_intro hmem)
    · rw [hresult]
      exact iff_of_false (by simp) (not_not_intro hmem)
    · rw [hresult]
      exact iff_of_true rfl hmem
  · obtain ⟨htrue, rfl⟩ := serveHTTP_served h
    rcases hcases with ⟨key, hkey, hsecret, hresult, -⟩ | ⟨hsecret, hresult, -⟩ | ⟨hresult, -⟩
    · rw [hresult]
      exact Or.inl ⟨key, hkey, rfl, hsecret⟩
    · rw [hresult]
      exact Or.inr ⟨rfl, hsecret.symm⟩
    · rw [hresult] at htrue
      cases htrue

def guardedConfig : Config.Config := { sampleConfig [] with auth := some { secret := "s3cret" } }

def guardedSite : Site := ⟨guardedConfig.auth, [], fun _ => none, none⟩

def guess : Arrival :=
  ⟨0, "GET", "192.0.2.1:4711", [("X-Api-Key", "guess")], ⟨"/eth/v1/node/version", "", []⟩, "", fun _ => .allReady []⟩

def untouched : Front .bucket := ⟨∅, ∅, fun _ => ⟨none, none, false⟩⟩

theorem access_guess : untouched.serveHTTP guardedSite guess = (.unauthorized, untouched) := by
  have hvalid : guardedConfig.validate literalEnv = .ok () := by decide +kernel
  have hpath : guess.url.path ≠ "/healthz" := by decide
  have hsite : guardedSite.auth = guardedConfig.auth := rfl
  obtain ⟨hiff, hkept, -⟩ := access hvalid rfl hsite untouched hpath
  have hturned := hiff.mpr (by decide +kernel)
  exact Prod.ext hturned (hkept hturned)

end Access

end EBeacon.Proxy
