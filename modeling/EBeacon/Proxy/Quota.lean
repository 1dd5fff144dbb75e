import EBeacon.Library.Metering
import EBeacon.Proxy.Front

/-!
What keys, tiers and networks are granted over a run of the proxy.
-/

namespace EBeacon.Proxy

open Config Network

inductive Meter
  | key (id : String)
  | tier (name : String)
  | network (id : String)
  deriving DecidableEq

inductive Label
  | arrival (a : Arrival)
  | sessions (network : String) (sm : Option SessionManager)

def Label.time : Label → Option ℤ
  | .arrival a => some a.time
  | .sessions _ _ => none

namespace Front

variable {L : RateLimiter} (site : Site) (f : Front L)

def step : Label → Front L
  | .arrival a => (f.serveHTTP site a).2
  | .sessions network sm => { f with gates := Function.update f.gates network { f.gates network with sessions := sm } }

def limiter : Meter → Option L.Limiter
  | .key id => f.keyLimiters.lookup id
  | .tier name => f.tierLimiters.lookup name
  | .network id => (f.gates id).global

def authMeter (a : Arrival) : Option Meter :=
  let result := site.identify a
  if a.url.path = "/healthz" ∨ result.authenticated = false ∨ result.keyID = "" then none
  else if (f.keyLimiters.lookup result.keyID).isSome then some (.key result.keyID)
  else if result.tier ≠ "" ∧ (f.tierLimiters.lookup result.tier).isSome then some (.tier result.tier)
  else none

def networkMeter (a : Arrival) : Option Meter :=
  if a.url.path = "/healthz" ∨ (f.authenticate site a).1.isSome then none
  else (site.target a).bind (fun t =>
    if t.2.1.metered (a.pools t.1) a.method (a.request t.2.2) then some (.network t.1) else none)

def asks (m : Meter) : Label → Option ℤ
  | .arrival a => if f.authMeter site a = some m ∨ f.networkMeter site a = some m then some a.time else none
  | .sessions _ _ => none

end Front

def Outcome.passes (o : Outcome) : Meter → Bool
  | .network _ => match o with
    | .served _ _ (.limited limiter) => limiter ≠ "global"
    | _ => true
  | _ => match o with
    | .limited _ => false
    | _ => true

namespace Front

variable {L : RateLimiter} (site : Site) (f : Front L)

def passes (m : Meter) : Label → Bool
  | .arrival a => (f.serveHTTP site a).1.passes m
  | .sessions _ _ => true

def asked (m : Meter) (run : List Label) : List ℤ := Metering.times (step site) (fun f l => f.asks site m l) f run

def passed (m : Meter) (run : List Label) : List ℤ :=
  Metering.times (step site) (fun f l => (f.asks site m l).filter (fun _ => f.passes site m l)) f run

end Front

section Limits

variable {L : RateLimiter} {site : Site} {f : Front L} {a : Arrival} {m : Meter}

theorem authenticate_gates : (f.authenticate site a).2.gates = f.gates := by
  unfold Front.authenticate
  split_ifs
  · rfl
  · rfl

theorem forward_limiter (hm : ∀ id, m ≠ .network id) : (f.forward site a).2.limiter m = f.limiter m := by
  unfold Front.forward
  split
  · rfl
  · cases m with
    | key id => rfl
    | tier name => rfl
    | network id => exact absurd rfl (hm id)

theorem authenticate_cases (site : Site) (f : Front L) {a : Arrival} (hpath : a.url.path ≠ "/healthz") :
    (f.authMeter site a = none ∧ (f.authenticate site a).2 = f) ∨
      (∃ id l, f.authMeter site a = some (.key id) ∧ f.keyLimiters.lookup id = some l ∧
        (f.authenticate site a).1.isNone = (L.allow l a.time).1 ∧
        (f.authenticate site a).2 = { f with keyLimiters := f.keyLimiters.insert id (L.allow l a.time).2 }) ∨
      ∃ name l, f.authMeter site a = some (.tier name) ∧ f.tierLimiters.lookup name = some l ∧
        (f.authenticate site a).1.isNone = (L.allow l a.time).1 ∧
        (f.authenticate site a).2 = { f with tierLimiters := f.tierLimiters.insert name (L.allow l a.time).2 } := by
  unfold Front.authMeter Front.authenticate applyAuthRateLimits
  dsimp only
  generalize site.identify a = result
  by_cases hdenied : result.authenticated = false
  · left
    rw [if_pos (Or.inr (Or.inl hdenied)), if_pos hdenied]
    exact ⟨rfl, rfl⟩
  rw [if_neg hdenied]
  by_cases hkey : result.keyID = ""
  · left
    rw [if_pos (Or.inr (Or.inr hkey)), if_pos hkey]
    exact ⟨rfl, rfl⟩
  rw [if_neg (not_or.mpr ⟨hpath, not_or.mpr ⟨hdenied, hkey⟩⟩), if_neg hkey]
  cases hlookup : f.keyLimiters.lookup result.keyID with
  | some l =>
    right; left
    refine ⟨result.keyID, l, if_pos rfl, hlookup, ?_, rfl⟩
    dsimp only
    cases (L.allow l a.time).1 with
    | true => rfl
    | false => rfl
  | none =>
    rw [if_neg (by simp)]
    dsimp only
    by_cases htier : result.tier = ""
    · left
      rw [if_neg (by simp [htier]), if_pos htier]
      exact ⟨rfl, rfl⟩
    rw [if_neg htier]
    cases hlookup' : f.tierLimiters.lookup result.tier with
    | some l =>
      right; right
      refine ⟨result.tier, l, if_pos ⟨htier, rfl⟩, hlookup', ?_, rfl⟩
      dsimp only
      cases (L.allow l a.time).1 with
      | true => rfl
      | false => rfl
    | none =>
      left
      rw [if_neg (by simp)]
      exact ⟨rfl, rfl⟩

theorem limiter_insert_key (f : Front L) (id : String) (l : L.Limiter) (m : Meter) :
    Front.limiter { f with keyLimiters := f.keyLimiters.insert id l } m =
      if m = .key id then some l else f.limiter m := by
  cases m with
  | key other =>
    change AList.lookup other _ = _
    rw [Maps.lookup_insert_ite]
    simp [Front.limiter]
  | tier name => simp [Front.limiter]
  | network name => simp [Front.limiter]

theorem limiter_insert_tier (f : Front L) (name : String) (l : L.Limiter) (m : Meter) :
    Front.limiter { f with tierLimiters := f.tierLimiters.insert name l } m =
      if m = .tier name then some l else f.limiter m := by
  cases m with
  | key id => simp [Front.limiter]
  | tier other =>
    change AList.lookup other _ = _
    rw [Maps.lookup_insert_ite]
    simp [Front.limiter]
  | network id => simp [Front.limiter]

theorem authenticate_idle (hpath : a.url.path ≠ "/healthz") (h : f.authMeter site a ≠ some m) :
    (f.authenticate site a).2.limiter m = f.limiter m := by
  rcases authenticate_cases site f hpath with ⟨-, heq⟩ | ⟨id, l, hmeter, -, -, heq⟩ | ⟨name, l, hmeter, -, -, heq⟩
  · rw [heq]
  · rw [heq, limiter_insert_key, if_neg fun hm => h (hmeter.trans (congrArg some hm.symm))]
  · rw [heq, limiter_insert_tier, if_neg fun hm => h (hmeter.trans (congrArg some hm.symm))]

theorem authenticate_asked (hpath : a.url.path ≠ "/healthz") (h : f.authMeter site a = some m) {l : L.Limiter}
    (hl : f.limiter m = some l) :
    (f.authenticate site a).1.isNone = (L.allow l a.time).1 ∧
      (f.authenticate site a).2.limiter m = some (L.allow l a.time).2 := by
  rcases authenticate_cases site f hpath with ⟨hmeter, -⟩ | ⟨id, l', hmeter, hl', hnone, heq⟩ | ⟨name, l', hmeter, hl', hnone, heq⟩
  · rw [h] at hmeter
    cases hmeter
  · cases h.symm.trans hmeter
    cases hl.symm.trans hl'
    exact ⟨hnone, by rw [heq, limiter_insert_key, if_pos rfl]⟩
  · cases h.symm.trans hmeter
    cases hl.symm.trans hl'
    exact ⟨hnone, by rw [heq, limiter_insert_tier, if_pos rfl]⟩

theorem authMeter_ne_network {id : String} : f.authMeter site a ≠ some (.network id) := by
  unfold Front.authMeter
  dsimp only
  split_ifs
  · simp
  · simp
  · simp
  · simp

theorem networkMeter_eq_some (h : f.networkMeter site a = some m) :
    a.url.path ≠ "/healthz" ∧ (f.authenticate site a).1 = none ∧ ∃ id cfg url, m = .network id ∧
      site.target a = some (id, cfg, url) ∧ cfg.metered (a.pools id) a.method (a.request url) = true := by
  unfold Front.networkMeter at h
  split_ifs at h with hstop
  rw [not_or] at hstop
  obtain ⟨⟨id, cfg, url⟩, htarget, hmeter⟩ := Option.bind_eq_some_iff.mp h
  split_ifs at hmeter with hmetered
  exact ⟨hstop.1, by simpa using hstop.2, id, cfg, url, (Option.some.inj hmeter).symm, htarget, hmetered⟩

theorem authMeter_eq_some (h : f.authMeter site a = some m) :
    a.url.path ≠ "/healthz" ∧ (site.identify a).authenticated = true := by
  unfold Front.authMeter at h
  dsimp only at h
  split_ifs at h with hstop
  · simp only [not_or] at hstop
    exact ⟨hstop.1, by simpa using hstop.2.1⟩
  · simp only [not_or] at hstop
    exact ⟨hstop.1, by simpa using hstop.2.1⟩

theorem serveHTTP_healthz (hpath : a.url.path = "/healthz") : f.serveHTTP site a = (.healthz, f) := if_pos hpath

theorem serveHTTP_stopped (hpath : a.url.path ≠ "/healthz") {o : Outcome}
    (h : (f.authenticate site a).1 = some o) : f.serveHTTP site a = (o, (f.authenticate site a).2) := by
  unfold Front.serveHTTP
  rw [if_neg hpath, h]

theorem serveHTTP_forward (hpath : a.url.path ≠ "/healthz") (h : (f.authenticate site a).1 = none) :
    f.serveHTTP site a = (f.authenticate site a).2.forward site a := by
  unfold Front.serveHTTP
  rw [if_neg hpath, h]

section Keys

theorem serveHTTP_limiter (hpath : a.url.path ≠ "/healthz") (hm : ∀ id, m ≠ .network id) :
    (f.serveHTTP site a).2.limiter m = (f.authenticate site a).2.limiter m := by
  cases h : (f.authenticate site a).1 with
  | some o => rw [serveHTTP_stopped hpath h]
  | none => rw [serveHTTP_forward hpath h, forward_limiter hm]

theorem passes_key (h : f.authMeter site a = some m) :
    (f.serveHTTP site a).1.passes m = (f.authenticate site a).1.isNone := by
  obtain ⟨hpath, hauth⟩ := authMeter_eq_some h
  have hm : ∀ id, m ≠ .network id := by
    rintro id rfl
    exact authMeter_ne_network h
  cases ho : (f.authenticate site a).1 with
  | some o =>
    rw [serveHTTP_stopped hpath ho]
    unfold Front.authenticate at ho
    rw [if_neg (by simp [hauth])] at ho
    obtain ⟨limiter, -, rfl⟩ := Option.map_eq_some_iff.mp ho
    cases m with
    | key id => rfl
    | tier name => rfl
    | network id => exact absurd rfl (hm id)
  | none =>
    rw [serveHTTP_forward hpath ho]
    unfold Front.forward
    split
    all_goals
      cases m with
      | key id => rfl
      | tier name => rfl
      | network id => exact absurd rfl (hm id)

end Keys

section Networks

variable {id : String}

theorem forward_global_ne (h : ∀ cfg url, site.target a = some (id, cfg, url) →
    cfg.metered (a.pools id) a.method (a.request url) = false) :
    ((f.forward site a).2.gates id).global = (f.gates id).global := by
  unfold Front.forward
  split
  · rfl
  · rename_i other cfg url htarget
    dsimp only
    by_cases hid : id = other
    · cases hid
      rw [Function.update_self, (serveHTTP_of_not_metered (h cfg url htarget) ..).1]
    · rw [Function.update_of_ne hid]

theorem passes_served {network keyID : String} {v : Verdict} :
    (Outcome.served network keyID v).passes (.network id) = true ↔ v ≠ .limited "global" := by
  cases v with
  | limited limiter => simp [Outcome.passes]
  | answered => simp [Outcome.passes]
  | rejected status => simp [Outcome.passes]
  | eventStream routed => simp [Outcome.passes]
  | admitted routed => simp [Outcome.passes]

theorem forward_global {cfg : Network.Config} {url : URL} (htarget : site.target a = some (id, cfg, url))
    (hmetered : cfg.metered (a.pools id) a.method (a.request url) = true) :
    (f.forward site a).1.passes (.network id) = ((f.gates id).askGlobal a.time).1 ∧
      ((f.forward site a).2.gates id).global = ((f.gates id).askGlobal a.time).2.global := by
  unfold Front.forward
  rw [htarget]
  obtain ⟨hlimited, hglobal⟩ := serveHTTP_of_metered hmetered (f.gates id)
    (clientIP site.parseAddr site.trustedProxies ⟨a.remoteAddr, a.header⟩) a.time
  constructor
  · rw [Bool.eq_iff_iff, passes_served, ne_eq, hlimited, Bool.not_eq_false]
  · dsimp only
    rw [Function.update_self, hglobal]

theorem askGlobal_of_global {g : Gates L} {l : L.Limiter} (h : g.global = some l) (now : ℤ) :
    (g.askGlobal now).1 = (L.allow l now).1 ∧ (g.askGlobal now).2.global = some (L.allow l now).2 := by
  unfold Gates.askGlobal
  rw [h]
  exact ⟨rfl, rfl⟩

end Networks

end Limits

section Runs

variable {L : RateLimiter} {site : Site}

theorem step_idle (f : Front L) (l : Label) (m : Meter) (h : f.asks site m l = none) :
    (f.step site l).limiter m = f.limiter m := by
  cases l with
  | sessions network sm =>
    cases m with
    | key id => rfl
    | tier name => rfl
    | network id =>
      change (Function.update f.gates network _ id).global = (f.gates id).global
      by_cases hid : id = network
      · rw [hid, Function.update_self]
      · rw [Function.update_of_ne hid]
  | arrival a =>
    simp only [Front.asks] at h
    split_ifs at h with hasks
    rw [not_or] at hasks
    change (f.serveHTTP site a).2.limiter m = f.limiter m
    by_cases hpath : a.url.path = "/healthz"
    · rw [serveHTTP_healthz hpath]
    cases m with
    | key id => rw [serveHTTP_limiter hpath (by simp), authenticate_idle hpath hasks.1]
    | tier name => rw [serveHTTP_limiter hpath (by simp), authenticate_idle hpath hasks.1]
    | network id =>
      change ((f.serveHTTP site a).2.gates id).global = (f.gates id).global
      cases ho : (f.authenticate site a).1 with
      | some o => rw [serveHTTP_stopped hpath ho, authenticate_gates]
      | none =>
        rw [serveHTTP_forward hpath ho, forward_global_ne, authenticate_gates]
        intro cfg url htarget
        by_contra hmetered
        apply hasks.2
        unfold Front.networkMeter
        rw [if_neg (by simp [hpath, ho]), htarget]
        exact if_pos (by simpa using hmetered)

theorem step_asked (f : Front L) (l : Label) (m : Meter) (t : ℤ) (limiter : L.Limiter)
    (h : f.asks site m l = some t) (hlimiter : f.limiter m = some limiter) :
    f.passes site m l = (L.allow limiter t).1 ∧ (f.step site l).limiter m = some (L.allow limiter t).2 := by
  cases l with
  | sessions network sm => cases h
  | arrival a =>
    simp only [Front.asks] at h
    split_ifs at h with hasks
    cases h
    change (f.serveHTTP site a).1.passes m = _ ∧ (f.serveHTTP site a).2.limiter m = _
    rcases hasks with hmeter | hmeter
    · obtain ⟨hpath, -⟩ := authMeter_eq_some hmeter
      obtain ⟨hnone, hlim⟩ := authenticate_asked hpath hmeter hlimiter
      have hm : ∀ id, m ≠ .network id := by
        rintro id rfl
        exact authMeter_ne_network hmeter
      rw [passes_key hmeter, hnone, serveHTTP_limiter hpath hm, hlim]
      exact ⟨rfl, rfl⟩
    · obtain ⟨hpath, hnone, id, cfg, url, rfl, htarget, hmetered⟩ := networkMeter_eq_some hmeter
      rw [serveHTTP_forward hpath hnone]
      obtain ⟨hpasses, hglobal⟩ := forward_global (f := (f.authenticate site a).2) htarget hmetered
      have hgate : ((f.authenticate site a).2.gates id).global = some limiter := by
        rw [authenticate_gates]
        exact hlimiter
      obtain ⟨hask, hglobal'⟩ := askGlobal_of_global hgate a.time
      rw [hpasses, hask]
      refine ⟨rfl, ?_⟩
      change (((f.authenticate site a).2.forward site a).2.gates id).global = _
      rw [hglobal, hglobal']

theorem passed_eq_granted {f : Front L} {m : Meter} {limiter : L.Limiter} (h : f.limiter m = some limiter)
    (run : List Label) : f.passed site m run = L.granted limiter (f.asked site m run) :=
  Metering.times_eq_granted (fun f l hl => step_idle f l m hl) (fun f l t b hl hb => step_asked f l m t b hl hb) h run

theorem passed_le {f : Front L} {m : Meter} {q : ℚ} {burst : Int64} {slack : ℤ → ℚ} {now : ℤ}
    (hmeters : L.Meters q burst slack) (h : f.limiter m = some (L.new (.finite q) burst now)) {run : List Label}
    (hsorted : (run.filterMap Label.time).Pairwise (· ≤ ·)) (hstart : ∀ t ∈ run.filterMap Label.time, now ≤ t)
    {x d : ℤ} (hd : 0 ≤ d) :
    ((f.passed site m run).countP (fun t => x ≤ t ∧ t ≤ x + d) : ℚ) ≤ burst.toInt + q * seconds d + slack d := by
  have hsub : (f.asked site m run).Sublist (run.filterMap Label.time) := by
    refine Metering.times_sublist (fun f l t hl => ?_) f run
    cases l with
    | arrival a =>
      simp only [Front.asks] at hl
      split_ifs at hl
      exact hl
    | sessions network sm => cases hl
  rw [passed_eq_granted h]
  exact hmeters now _ (hsorted.sublist hsub) (fun t ht => hstart t (hsub.subset ht)) x d hd

theorem step_isSome (f : Front L) (l : Label) {m : Meter} (hm : ∀ id, m ≠ .network id) :
    ((f.step site l).limiter m).isSome = (f.limiter m).isSome := by
  cases l with
  | sessions network sm =>
    cases m with
    | key id => rfl
    | tier name => rfl
    | network id => exact absurd rfl (hm id)
  | arrival a =>
    change ((f.serveHTTP site a).2.limiter m).isSome = _
    by_cases hpath : a.url.path = "/healthz"
    · rw [serveHTTP_healthz hpath]
    rw [serveHTTP_limiter hpath hm]
    rcases authenticate_cases site f hpath with
      ⟨-, heq⟩ | ⟨id, l, -, hl, -, heq⟩ | ⟨name, l, -, hl, -, heq⟩
    · rw [heq]
    · rw [heq, limiter_insert_key]
      split_ifs with hkey
      · rw [hkey, Front.limiter, hl]
        rfl
      · rfl
    · rw [heq, limiter_insert_tier]
      split_ifs with htier
      · rw [htier, Front.limiter, hl]
        rfl
      · rfl

theorem authMeter_congr {f f' : Front L}
    (h : ∀ m, (∀ id, m ≠ .network id) → (f'.limiter m).isSome = (f.limiter m).isSome) (a : Arrival) :
    f'.authMeter site a = f.authMeter site a := by
  have hkey : (f'.keyLimiters.lookup _).isSome = (f.keyLimiters.lookup _).isSome :=
    h (.key (site.identify a).keyID) (by simp)
  have htier : (f'.tierLimiters.lookup _).isSome = (f.tierLimiters.lookup _).isSome :=
    h (.tier (site.identify a).tier) (by simp)
  unfold Front.authMeter
  dsimp only
  rw [hkey, htier]

theorem asked_eq_filterMap (f : Front L) {m : Meter} (hm : ∀ id, m ≠ .network id) (run : List Label) :
    f.asked site m run = run.filterMap (f.asks site m) := by
  refine Metering.times_congr (I := fun f' => ∀ m, (∀ id, m ≠ .network id) →
    (f'.limiter m).isSome = (f.limiter m).isSome) (fun f' l hf' m hm => ?_) (fun f' l hf' => ?_) (fun _ _ => rfl) run
  · rw [step_isSome f' l hm, hf' m hm]
  · cases l with
    | sessions network sm => rfl
    | arrival a =>
      have hnetwork : ∀ f : Front L, f.networkMeter site a ≠ some m := by
        intro f hmeter
        obtain ⟨-, -, id, -, -, rfl, -⟩ := networkMeter_eq_some hmeter
        exact hm id rfl
      simp only [Front.asks, authMeter_congr hf' a, hnetwork, or_false]

end Runs

section Configured

variable {L : RateLimiter} {site : Site} {auth : AuthConfig} {env : Env} {c : Config.Config} {net : NetworkConfig}
  {m : Meter} {rl : RateLimitConfig} {q : ℚ} {slack : ℤ → ℚ} {now : ℤ} {run : List Label}

def Meter.limit (auth : AuthConfig) : Meter → Option RateLimitConfig
  | .key id => (auth.keys.find? (fun key => key.id = id)).bind (·.rateLimiting)
  | .tier name => (auth.tiers.find? (fun tier => tier.name = name)).bind (·.rateLimiting)
  | .network _ => none

theorem limiter_setAuth (haccepted : auth.Accepted) (f : Front L) (h : m.limit auth = some rl) :
    (f.setAuth (some auth) now).limiter m = authLimiter L (some rl) now := by
  cases m with
  | key id =>
    obtain ⟨key, hfind, hrl⟩ := Option.bind_eq_some_iff.mp h
    have hid : key.id = id := by simpa using List.find?_some hfind
    rw [← hrl, ← hid]
    exact lookup_buildLimiters haccepted.ids (List.mem_of_find?_eq_some hfind)
  | tier name =>
    obtain ⟨tier, hfind, hrl⟩ := Option.bind_eq_some_iff.mp h
    have hname : tier.name = name := by simpa using List.find?_some hfind
    rw [← hrl, ← hname]
    exact lookup_buildLimiters haccepted.names (List.mem_of_find?_eq_some hfind)
  | network id => cases h

theorem limit_positive (haccepted : auth.Accepted) (h : m.limit auth = some rl) : rl.Accepted 0 := by
  cases m with
  | key id =>
    obtain ⟨key, hfind, hrl⟩ := Option.bind_eq_some_iff.mp h
    exact (haccepted.key key (List.mem_of_find?_eq_some hfind)).2.2.2 rl hrl
  | tier name =>
    obtain ⟨tier, hfind, hrl⟩ := Option.bind_eq_some_iff.mp h
    exact (haccepted.tier tier (List.mem_of_find?_eq_some hfind)).2 rl hrl
  | network id => cases h

theorem RateLimitConfig.positive {least : Int64} (h : rl.Accepted least) (hq : rl.limit = .finite q) : 0 < q := by
  have hlimit := h.1
  rw [hq] at hlimit
  change ¬Float64.finite q ≤ Float64.finite 0 at hlimit
  rw [Float64.finite_le] at hlimit
  exact not_le.mp hlimit

/-- A key or a tier with a limit is granted what a limiter of its own, which no other request touches, grants to its
own requests; so whatever that limiter keeps to in every window, the key or the tier does. -/
theorem auth_quota (hvalid : c.validate env = .ok ()) (hauth : c.auth = some auth) (hsite : site.auth = c.auth)
    (f : Front L) (hlimit : m.limit auth = some rl) (hq : rl.limit = .finite q)
    (hmeters : L.Meters q (limiterBurst rl) slack) (hsorted : (run.filterMap Label.time).Pairwise (· ≤ ·))
    (hstart : ∀ t ∈ run.filterMap Label.time, now ≤ t) :
    (f.setAuth site.auth now).passed site m run =
        L.granted (L.new (.finite q) (limiterBurst rl) now)
          (run.filterMap ((f.setAuth site.auth now).asks site m)) ∧
      ∀ x d : ℤ, 0 ≤ d → (((f.setAuth site.auth now).passed site m run).countP (fun t => x ≤ t ∧ t ≤ x + d) : ℚ) ≤
        (limiterBurst rl).toInt + q * seconds d + slack d := by
  have haccepted := auth_accepted hvalid hauth
  have hpositive := RateLimitConfig.positive (limit_positive haccepted hlimit) hq
  have hm : ∀ id, m ≠ .network id := by
    rintro id rfl
    cases hlimit
  have hlimiter : (f.setAuth site.auth now).limiter m = some (L.new (.finite q) (limiterBurst rl) now) := by
    have hfilter : decide (0 < rl.limit) = true := by
      rw [hq, decide_eq_true_eq]
      exact hpositive
    rw [hsite, hauth, limiter_setAuth haccepted f hlimit, authLimiter, Option.filter_some, if_pos hfilter, ← hq]
    rfl
  constructor
  · rw [passed_eq_granted hlimiter, asked_eq_filterMap _ hm]
  · intro x d hd
    exact passed_le hmeters hlimiter hsorted hstart hd

end Configured

section Samples

def meteredConfig : Config.Config :=
  { sampleConfig [] with
    auth := some { keys := [{ id := "k", secret := "s3cret", rateLimiting := some ⟨.finite 1, 2⟩ }] }
    rateLimiting := { global := some ⟨.finite 1, 2⟩ } }

def meteredSite : Site := ⟨meteredConfig.auth, [], fun _ => none, none⟩

def meteredFront : Front .bucket := ⟨∅, ∅, fun _ => Gates.new meteredConfig.rateLimiting false 0 0⟩

def burstRun : List Label := List.replicate 3 (.arrival { guess with header := [("X-Api-Key", "s3cret")] })

theorem bucket_meters_two : RateLimiter.bucket.Meters 1 2 (fun _ => 0) :=
  RateLimiter.bucket_meters zero_le_one (by decide +kernel) (by decide)

theorem auth_quota_burst :
    (((meteredFront.setAuth meteredSite.auth 0).passed meteredSite (.key "k") burstRun).countP
      (fun t => 0 ≤ t ∧ t ≤ 0 + 0) : ℚ) ≤ (2 : Int64).toInt + 1 * seconds 0 + 0 := by
  have hvalid : meteredConfig.validate literalEnv = .ok () := by decide +kernel
  have hlimit : (Meter.key "k").limit ⟨"", [⟨"k", "s3cret", "", some ⟨.finite 1, 2⟩⟩], []⟩ = some ⟨.finite 1, 2⟩ := rfl
  have hsorted : (burstRun.filterMap Label.time).Pairwise (· ≤ ·) := by decide +kernel
  have hstart : ∀ t ∈ burstRun.filterMap Label.time, 0 ≤ t := by decide +kernel
  exact (auth_quota hvalid rfl rfl meteredFront hlimit rfl bucket_meters_two hsorted hstart).2 0 0 le_rfl

end Samples

end EBeacon.Proxy
