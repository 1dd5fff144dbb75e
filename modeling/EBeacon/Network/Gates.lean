import EBeacon.Config.Validate
import EBeacon.Library.Metering
import EBeacon.Network.Routing
import EBeacon.Network.SessionLimit

/-!
`ServeHTTP` of a network up to the lookup in the cache, with its limiters.
-/

namespace EBeacon.Network

open Text Upstream

/-- `rate.NewLimiter` and `Allow`. Nothing is known of them but what a theorem asks for. -/
structure RateLimiter where
  Limiter : Type
  new : Float64 → Int64 → ℤ → Limiter
  allow : Limiter → ℤ → Bool × Limiter

namespace RateLimiter

def granted (L : RateLimiter) : L.Limiter → List ℤ → List ℤ := Metering.granted L.allow

/-- In a window a new limiter allows the burst and what its rate gives, up to a slack. The slack is not zero where a
limiter rounds: it may allow a request for which a part of a token is missing. -/
def Meters (L : RateLimiter) (rate : ℚ) (burst : Int64) (slack : ℤ → ℚ) : Prop :=
  ∀ (now : ℤ) (times : List ℤ), times.Pairwise (· ≤ ·) → (∀ t ∈ times, now ≤ t) → ∀ x d : ℤ, 0 ≤ d →
    ((L.granted (L.new (.finite rate) burst now) times).countP (fun t => x ≤ t ∧ t ≤ x + d) : ℚ) ≤
      burst.toInt + rate * seconds d + slack d

def bucket : RateLimiter where
  Limiter := Option (TokenBucket ℚ)
  new limit burst now := match limit with
    | .finite q => if q = rateInf then none else some (.full q burst.toInt (seconds now))
    | _ => none
  allow l now := match l with
    | none => (true, none)
    | some b => ((b.allow (seconds now)).1, some (b.allow (seconds now)).2)

theorem bucket_meters {q : ℚ} (hq : 0 ≤ q) (hfinite : q ≠ rateInf) {burst : Int64} (hburst : 0 ≤ burst.toInt) :
    bucket.Meters q burst (fun _ => 0) := by
  intro now times hsorted hstart x d hd
  have hproper : (TokenBucket.full q (burst.toInt : ℚ) (seconds now)).Proper :=
    ⟨hq, Int.cast_nonneg hburst, Int.cast_nonneg hburst⟩
  have hnew : bucket.new (.finite q) burst now = some (.full q burst.toInt (seconds now)) := if_neg hfinite
  have hmap : (bucket.granted (some (.full q burst.toInt (seconds now))) times).map seconds =
      (TokenBucket.full q (burst.toInt : ℚ) (seconds now)).granted (times.map seconds) :=
    Metering.granted_bucket (fun _ _ => rfl) _ times
  have hlength : 0 ≤ seconds d := div_nonneg (Int.cast_nonneg hd) (by norm_num)
  have hle := TokenBucket.granted_le hproper (a := seconds x) hlength
    (List.pairwise_map.mpr (hsorted.imp seconds_le.mpr))
    (List.forall_mem_map.mpr fun t ht => seconds_le.mpr (hstart t ht))
  rw [← hmap, List.countP_map] at hle
  dsimp only
  rw [hnew, add_zero]
  refine le_trans (le_of_eq ?_) hle
  congr 1
  apply List.countP_congr
  intro t _
  simp only [Function.comp_apply, decide_eq_true_eq, ← seconds_add, seconds_le]

end RateLimiter

structure Gates (L : RateLimiter) where
  global : Option L.Limiter
  sessions : Option SessionManager
  perIP : Bool

namespace Gates

variable {L : RateLimiter}

def newSessions (perIP : Option Config.RateLimitConfig) (stickyTimeout : Int64) : SessionManager :=
  match perIP with
  | none => .new 0 0 stickyTimeout
  | some rl => match rl.limit with
    | .finite q => .new q rl.burst.toInt stickyTimeout
    | _ => .new 0 rl.burst.toInt stickyTimeout

def new (rl : Config.RateLimitingConfig) (stickySession : Bool) (stickyTimeout : Int64) (now : ℤ) : Gates L where
  global := rl.global.map (fun l => L.new l.limit l.burst now)
  sessions := if rl.perIP.isSome || stickySession then some (newSessions rl.perIP stickyTimeout) else none
  perIP := rl.perIP.isSome

def askGlobal (g : Gates L) (now : ℤ) : Bool × Gates L :=
  match g.global with
  | none => (true, g)
  | some l => ((L.allow l now).1, { g with global := some (L.allow l now).2 })

def askSession (g : Gates L) (ip : String) (now : ℤ) : Bool × String × Gates L :=
  match g.sessions with
  | none => (true, "", g)
  | some sm =>
    let sticky := (sm.get ip now).1.stickyID
    if g.perIP then ((sm.request ip now).1, sticky, { g with sessions := some (sm.request ip now).2 })
    else (true, sticky, { g with sessions := some (sm.get ip now).2 })

end Gates

inductive Verdict
  | answered
  | rejected (status : ℕ)
  | limited (limiter : String)
  | eventStream (routed : Routed)
  | admitted (routed : Routed)

def Verdict.admission : Verdict → Admission
  | .answered => .answered
  | .rejected status => .rejected status
  | .limited _ => .rejected 429
  | .eventStream routed => .eventStream routed
  | .admitted routed => .admitted routed

def Config.metered (cfg : Config) (pool : Pool) (method : String) (r : Request) : Bool :=
  let path := (cfg.rewriteClientPath pool r.url).1.path
  path ≠ "/eth/v1/node/health" && path ≠ "/healthz" && isCleanPath path && !cfg.blocked.any (· path) &&
    !(matchRouteRule cfg.routeRules (toUpper method) path).any Prod.fst

def Config.serveHTTP {L : RateLimiter} (cfg : Config) (pool : Pool) (g : Gates L) (method : String) (r : Request)
    (ip : String) (now : ℤ) : Verdict × Gates L :=
  let (url, clientUpstream) := cfg.rewriteClientPath pool r.url
  let rule := matchRouteRule cfg.routeRules (toUpper method) url.path
  if url.path = "/eth/v1/node/health" ∨ url.path = "/healthz" then (.answered, g)
  else if !isCleanPath url.path then (.rejected 400, g)
  else if cfg.blocked.any (· url.path) then (.rejected 403, g)
  else if rule.any Prod.fst then (.rejected 403, g)
  else
    let asked := g.askGlobal now
    if !asked.1 then (.limited "global", asked.2)
    else
      let session := asked.2.askSession ip now
      if !session.1 then (.limited "per-ip", session.2.2)
      else
        let routed := cfg.route pool session.2.1 r url clientUpstream ((rule.map Prod.snd).getD "")
        (if method = "GET" ∧ isEventStream r url.path then .eventStream routed else .admitted routed, session.2.2)

section Serving

variable {L : RateLimiter} {cfg : Config} {pool : Pool} {method : String} {r : Request}

theorem askSession_global (g : Gates L) (ip : String) (now : ℤ) : (g.askSession ip now).2.2.global = g.global := by
  unfold Gates.askSession
  split
  · rfl
  · dsimp only
    split_ifs
    · rfl
    · rfl

theorem serveHTTP_of_not_metered (h : cfg.metered pool method r = false) (g : Gates L) (ip : String) (now : ℤ) :
    (cfg.serveHTTP pool g method r ip now).2 = g ∧
      ∀ limiter, (cfg.serveHTTP pool g method r ip now).1 ≠ .limited limiter := by
  unfold Config.metered at h
  unfold Config.serveHTTP
  dsimp only at h ⊢
  split_ifs with hhealth hclean hblocked hdeny
  · exact ⟨rfl, by simp⟩
  · exact ⟨rfl, by simp⟩
  · exact ⟨rfl, by simp⟩
  · exact ⟨rfl, by simp⟩
  all_goals simp_all

theorem serveHTTP_of_metered (h : cfg.metered pool method r = true) (g : Gates L) (ip : String) (now : ℤ) :
    ((cfg.serveHTTP pool g method r ip now).1 = .limited "global" ↔ (g.askGlobal now).1 = false) ∧
      (cfg.serveHTTP pool g method r ip now).2.global = (g.askGlobal now).2.global := by
  unfold Config.metered at h
  simp only [Bool.and_eq_true, decide_eq_true_eq, Bool.not_eq_true'] at h
  obtain ⟨⟨⟨⟨hhealth, hhealthz⟩, hclean⟩, hblocked⟩, hdeny⟩ := h
  unfold Config.serveHTTP
  dsimp only
  rw [if_neg (not_or.mpr ⟨hhealth, hhealthz⟩), if_neg (by simp [hclean]), if_neg (by simp [hblocked]),
    if_neg (by simp [hdeny])]
  cases hasked : (g.askGlobal now).1 with
  | false => simp
  | true =>
    simp only [Bool.not_true, Bool.false_eq_true, if_false]
    split_ifs
    · exact ⟨by simp, askSession_global _ ip now⟩
    · exact ⟨by simp, askSession_global _ ip now⟩
    · exact ⟨by simp, askSession_global _ ip now⟩

theorem serveHTTP_admission (cfg : Config) (pool : Pool) (g : Gates L) (r : Request) (ip : String) (now : ℤ) :
    (cfg.serveHTTP pool g "GET" r ip now).1.admission =
      cfg.admission pool ⟨(g.askGlobal now).1, ((g.askGlobal now).2.askSession ip now).1⟩
        ((g.askGlobal now).2.askSession ip now).2.1 r := by
  unfold Config.serveHTTP Config.admission
  dsimp only
  have hget : toUpper "GET" = "GET" := by decide
  rw [hget]
  split_ifs
  all_goals simp_all [Verdict.admission]

end Serving

end EBeacon.Network
