import EBeacon.Network.Session

namespace EBeacon.Network

theorem seconds_le {s t : ℤ} : seconds s ≤ seconds t ↔ s ≤ t := by
  unfold seconds
  rw [div_le_div_iff_of_pos_right (by norm_num), Int.cast_le]

theorem seconds_add (s t : ℤ) : seconds (s + t) = seconds s + seconds t := by
  unfold seconds
  rw [Int.cast_add, add_div]

theorem seconds_sub (s t : ℤ) : seconds (s - t) = seconds s - seconds t := by
  unfold seconds
  rw [Int.cast_sub, sub_div]

namespace SessionManager

variable {sm : SessionManager} {ip : String} {now : ℤ}

theorem request_allowed (sm : SessionManager) (ip : String) (now : ℤ) :
    (sm.request ip now).1 = ((sm.get ip now).1.allow now).1 := rfl

theorem get_lookup_of_ne {ip' : String} (h : ip' ≠ ip) :
    (sm.get ip now).2.byIP.lookup ip' = sm.byIP.lookup ip' := by
  unfold get
  split
  · exact AList.lookup_insert_ne h
  · exact AList.lookup_insert_ne h

theorem lookup_request (sm : SessionManager) (ip ip' : String) (now : ℤ) :
    (sm.request ip now).2.byIP.lookup ip' =
      if ip' = ip then some ((sm.get ip now).1.allow now).2 else sm.byIP.lookup ip' := by
  change ((sm.get ip now).2.byIP.insert ip _).lookup ip' = _
  rw [Maps.lookup_insert_ite]
  split_ifs with h
  · rfl
  · exact get_lookup_of_ne h

theorem lookup_cleanup (sm : SessionManager) (ip : String) (now : ℤ) :
    (sm.cleanup now).byIP.lookup ip =
      (sm.byIP.lookup ip).filter (fun s => ¬s.lastSeen < now + (-sm.timeout).toInt) := by
  unfold cleanup
  generalize now + (-sm.timeout).toInt = cutoff
  rw [Maps.lookup_foldl_erase]
  split_ifs with h
  · obtain ⟨e, he, rfl⟩ := List.mem_map.mp h
    obtain ⟨hmem, hidle⟩ := List.mem_filter.mp he
    rw [(Maps.lookup_some_iff sm.byIP e.1 e.2).mpr hmem]
    simpa [Option.filter] using hidle
  · cases hs : sm.byIP.lookup ip with
    | none => rfl
    | some s =>
      have hmem := (Maps.lookup_some_iff sm.byIP ip s).mp hs
      have hkept : ¬s.lastSeen < cutoff := fun hidle =>
        h (List.mem_map.mpr ⟨⟨ip, s⟩, List.mem_filter.mpr ⟨hmem, by simpa using hidle⟩, rfl⟩)
      simp [Option.filter, hkept]

@[simp] theorem request_lim : (sm.request ip now).2.lim = sm.lim := by
  unfold request get
  dsimp only
  split <;> rfl

@[simp] theorem request_burst : (sm.request ip now).2.burst = sm.burst := by
  unfold request get
  dsimp only
  split <;> rfl

@[simp] theorem request_timeout : (sm.request ip now).2.timeout = sm.timeout := by
  unfold request get
  dsimp only
  split <;> rfl

section OnePerIP

def Keyed (sm : SessionManager) : Prop := ∀ ip s, sm.byIP.lookup ip = some s → s.ip = ip

theorem allow_ip (s : Session) (now : ℤ) : (s.allow now).2.ip = s.ip := by
  unfold Session.allow
  split <;> rfl

theorem Keyed.get (h : sm.Keyed) (ip : String) (now : ℤ) : (sm.get ip now).1.ip = ip := by
  unfold SessionManager.get
  split
  · rename_i s hs
    exact h ip s hs
  · rfl

theorem Keyed.step (h : sm.Keyed) (e : Timed) : (sm.step e).Keyed := by
  intro ip s hs
  unfold SessionManager.step at hs
  split at hs
  · rename_i ip' _
    rw [lookup_request] at hs
    split_ifs at hs with hip
    · cases hs
      rw [allow_ip, h.get, hip]
    · exact h ip s hs
  · rw [lookup_cleanup] at hs
    exact h ip s (Option.filter_eq_some_iff.mp hs).1

theorem Keyed.after (h : sm.Keyed) (run : List Timed) : (sm.after run).Keyed :=
  Runs.foldl_invariant (fun _ e h => h.step e) run h

theorem keyed_new (limit : ℚ) (burst : ℤ) (timeout : Int64) : (new limit burst timeout).Keyed := by
  intro ip s hs
  cases hs

def sessionsOf (sm : SessionManager) (ip : String) : List Session :=
  (sm.byIP.entries.map (·.2)).filter (fun s => s.ip = ip)

theorem Keyed.sessionsOf_le (h : sm.Keyed) (ip : String) : (sm.sessionsOf ip).length ≤ 1 := by
  have hkeys : ((sm.byIP.entries.filter (fun e => e.2.ip = ip)).map (·.1)).Nodup :=
    (sm.byIP.keys_nodup).sublist (List.filter_sublist.map _)
  have hsub : (sm.byIP.entries.filter (fun e => e.2.ip = ip)).map (·.1) ⊆ [ip] := by
    intro k hk
    obtain ⟨e, he, rfl⟩ := List.mem_map.mp hk
    obtain ⟨hmem, hip⟩ := List.mem_filter.mp he
    have hkey := h e.1 e.2 ((Maps.lookup_some_iff sm.byIP e.1 e.2).mpr hmem)
    rw [← hkey]
    simpa using hip
  have hle := (List.subperm_of_subset hkeys hsub).length_le
  rw [List.length_map] at hle
  rw [sessionsOf, List.filter_map, List.length_map]
  exact hle

end OnePerIP

section Tracking

variable {b : TokenBucket ℚ} {clock : ℤ}

def idleTime (timeout : Int64) : ℤ := -(-timeout).toInt

structure Refills (sm : SessionManager) : Prop where
  limited : sm.lim ≠ rateInf
  lim : 0 ≤ sm.lim
  burst : 0 ≤ sm.burst
  full : (sm.burst : ℚ) ≤ sm.lim * seconds (idleTime sm.timeout + 1)

structure Tracks (sm : SessionManager) (ip : String) (b : TokenBucket ℚ) (clock : ℤ) : Prop where
  proper : b.Proper
  rate : b.rate = sm.lim
  burst : b.burst = sm.burst
  last : b.last ≤ seconds clock
  evicted : sm.byIP.lookup ip = none → b.level (seconds clock) = b.burst
  kept : ∀ s, sm.byIP.lookup ip = some s → s.limiter = some b ∧ b.last = seconds s.lastSeen

theorem allow_congr {b' : TokenBucket ℚ} {t : ℚ} (hrate : b.rate = b'.rate) (hburst : b.burst = b'.burst)
    (hlevel : b.level t = b'.level t) : b.allow t = b'.allow t := by
  simp only [TokenBucket.allow, TokenBucket.holding, hlevel, hrate, hburst]

theorem level_fresh (rate burst now : ℚ) : (TokenBucket.full rate burst now).level now = burst := by
  simp [TokenBucket.level, TokenBucket.full]

theorem Tracks.get (h : Tracks sm ip b clock) (hsm : sm.Refills) (hnow : clock ≤ now) :
    ∃ b', (sm.get ip now).1.limiter = some b' ∧ b'.allow (seconds now) = b.allow (seconds now) := by
  unfold SessionManager.get
  split
  · rename_i s hs
    exact ⟨b, (h.kept s hs).1, rfl⟩
  · rename_i hnone
    have hfull := TokenBucket.level_of_full h.proper.rate (seconds_le.mpr hnow) (h.evicted hnone)
    refine ⟨.full sm.lim sm.burst (seconds now), if_pos hsm.limited, ?_⟩
    refine allow_congr h.rate.symm h.burst.symm ?_
    rw [level_fresh, hfull, h.burst]

theorem get_lastSeen (sm : SessionManager) (ip : String) (now : ℤ) : (sm.get ip now).1.lastSeen = now := by
  unfold get
  split <;> rfl

theorem allow_limited {s : Session} (h : s.limiter = some b) :
    s.allow now = ((b.allow (seconds now)).1, { s with limiter := some (b.allow (seconds now)).2 }) := by
  unfold Session.allow
  rw [h]

theorem Tracks.request (h : Tracks sm ip b clock) (hsm : sm.Refills) (hnow : clock ≤ now) :
    (sm.request ip now).1 = (b.allow (seconds now)).1 ∧
      Tracks (sm.request ip now).2 ip (b.allow (seconds now)).2 now := by
  obtain ⟨b', hlimiter, hallow⟩ := h.get hsm hnow
  have hasked : (sm.get ip now).1.allow now =
      ((b.allow (seconds now)).1, { (sm.get ip now).1 with limiter := some (b.allow (seconds now)).2 }) := by
    rw [allow_limited hlimiter, hallow]
  refine ⟨by rw [request_allowed, hasked], ?_⟩
  have hlast := le_trans h.last (seconds_le.mpr hnow)
  refine ⟨h.proper.allow hlast, ?_, ?_, ?_, fun hnone => ?_, fun s hs => ?_⟩
  · rw [TokenBucket.allow_rate, request_lim, h.rate]
  · rw [TokenBucket.allow_burst, request_burst, h.burst]
  · rw [TokenBucket.allow_last]
  · rw [lookup_request, if_pos rfl] at hnone
    cases hnone
  · rw [lookup_request, if_pos rfl, hasked] at hs
    cases hs
    exact ⟨rfl, by rw [TokenBucket.allow_last, get_lastSeen]⟩

theorem Tracks.stay (h : Tracks sm ip b clock) {sm' : SessionManager} (hnow : clock ≤ now)
    (hlim : sm'.lim = sm.lim) (hburst : sm'.burst = sm.burst)
    (hlookup : sm'.byIP.lookup ip = sm.byIP.lookup ip) : Tracks sm' ip b now := by
  have hlast := le_trans h.last (seconds_le.mpr hnow)
  refine ⟨h.proper, h.rate.trans hlim.symm, h.burst.trans (congrArg _ hburst.symm), hlast, fun hnone => ?_,
    fun s hs => ?_⟩
  · exact TokenBucket.level_of_full h.proper.rate (seconds_le.mpr hnow) (h.evicted (hlookup ▸ hnone))
  · exact h.kept s (hlookup ▸ hs)

theorem Tracks.cleanup (h : Tracks sm ip b clock) (hsm : sm.Refills) (hnow : clock ≤ now) :
    Tracks (sm.cleanup now) ip b now := by
  cases hs : sm.byIP.lookup ip with
  | none => exact h.stay hnow rfl rfl (by rw [lookup_cleanup, hs]; rfl)
  | some s =>
    by_cases hidle : s.lastSeen < now + (-sm.timeout).toInt
    · -- evicted: by now the bucket is full
      obtain ⟨_, hlast⟩ := h.kept s hs
      have hwait : idleTime sm.timeout + 1 ≤ now - s.lastSeen := by
        unfold idleTime
        omega
      have hfull : b.level (seconds now) = b.burst := by
        refine h.proper.level_eq_burst ?_
        rw [hlast, ← seconds_sub, h.rate, h.burst]
        exact le_trans hsm.full (mul_le_mul_of_nonneg_left (seconds_le.mpr hwait) hsm.lim)
      refine ⟨h.proper, h.rate, h.burst, le_trans h.last (seconds_le.mpr hnow), fun _ => hfull, fun s' hs' => ?_⟩
      rw [lookup_cleanup, hs] at hs'
      have hkept := (Option.filter_eq_some_iff.mp hs').2
      cases (Option.filter_eq_some_iff.mp hs').1
      exact absurd hidle (by simpa using hkept)
    · have hkept : (sm.cleanup now).byIP.lookup ip = sm.byIP.lookup ip := by
        rw [lookup_cleanup, hs, Option.filter_some, if_pos (decide_eq_true hidle)]
      exact h.stay hnow rfl rfl hkept

theorem Refills.step (h : sm.Refills) (e : Timed) : (sm.step e).Refills := by
  unfold SessionManager.step
  split
  · exact ⟨by rw [request_lim]; exact h.limited, by rw [request_lim]; exact h.lim,
      by rw [request_burst]; exact h.burst, by rw [request_burst, request_lim, request_timeout]; exact h.full⟩
  · exact ⟨h.limited, h.lim, h.burst, h.full⟩

theorem allowed_request (ip' : String) (run : List Timed) :
    allowed ip sm (⟨now, .request ip'⟩ :: run) =
      if ip' = ip ∧ (sm.request ip' now).1 then now :: allowed ip (sm.request ip' now).2 run
      else allowed ip (sm.request ip' now).2 run := rfl

theorem requests_request (ip' : String) (run : List Timed) :
    requests ip (⟨now, .request ip'⟩ :: run) =
      if ip' = ip then now :: requests ip run else requests ip run := by
  by_cases h : ip' = ip
  · simp [requests, h]
  · simp [requests, h]

theorem mem_requests {run : List Timed} {t : ℤ} (h : t ∈ requests ip run) : ∃ e ∈ run, e.time = t := by
  obtain ⟨e, he, ht⟩ := List.mem_filterMap.mp h
  refine ⟨e, he, ?_⟩
  split at ht
  · split_ifs at ht
    exact Option.some.inj ht
  · cases ht

theorem requests_sorted {run : List Timed} (h : run.Pairwise (fun e f => e.time ≤ f.time)) :
    (requests ip run).Pairwise (· ≤ ·) := by
  induction run with
  | nil => exact .nil
  | cons e run ih =>
    obtain ⟨hfirst, hrest⟩ := List.pairwise_cons.mp h
    obtain ⟨now, event⟩ := e
    cases event with
    | cleanup => exact ih hrest
    | request ip' =>
      rw [requests_request]
      split_ifs
      · refine List.pairwise_cons.mpr ⟨fun t ht => ?_, ih hrest⟩
        obtain ⟨e, he, rfl⟩ := mem_requests ht
        exact hfirst e he
      · exact ih hrest

/-- With sessions that refill before they are evicted, the requests of an IP are allowed as one
bucket that is never dropped would allow them. -/
theorem Tracks.allowed_eq (h : Tracks sm ip b clock) (hsm : sm.Refills) {run : List Timed}
    (hsorted : run.Pairwise (fun e f => e.time ≤ f.time)) (hclock : ∀ e ∈ run, clock ≤ e.time) :
    (allowed ip sm run).map seconds = b.granted ((requests ip run).map seconds) := by
  induction run generalizing sm b clock with
  | nil => rfl
  | cons e run ih =>
    obtain ⟨hfirst, hrest⟩ := List.pairwise_cons.mp hsorted
    have hnow : clock ≤ e.time := hclock e List.mem_cons_self
    have hsm' := hsm.step e
    obtain ⟨now, event⟩ := e
    cases event with
    | cleanup => exact ih (h.cleanup hsm hnow) hsm' hrest hfirst
    | request ip' =>
      rw [allowed_request, requests_request]
      by_cases hip : ip' = ip
      · subst hip
        obtain ⟨hallowed, htracks⟩ := h.request hsm hnow
        have ih := ih htracks hsm' hrest hfirst
        rw [if_pos rfl, List.map_cons, TokenBucket.granted, hallowed, ← ih]
        split_ifs with hboth hgrant
        · rfl
        · exact absurd hboth.2 hgrant
        · exact absurd ⟨rfl, by assumption⟩ hboth
        · rfl
      · have hstay : Tracks (sm.request ip' now).2 ip b now :=
          h.stay hnow request_lim request_burst (by rw [lookup_request, if_neg (fun h => hip h.symm)])
        rw [if_neg fun hboth => hip hboth.1, if_neg hip]
        exact ih hstay hsm' hrest hfirst

theorem tracks_new {limit : ℚ} {burst : ℤ} {timeout : Int64} (h : (new limit burst timeout).Refills) (ip : String)
    (clock : ℤ) :
    Tracks (new limit burst timeout) ip
      (.full (new limit burst timeout).lim (new limit burst timeout).burst (seconds clock)) clock where
  proper := ⟨h.lim, Int.cast_nonneg h.burst, Int.cast_nonneg h.burst⟩
  rate := rfl
  burst := rfl
  last := le_refl _
  evicted := fun _ => level_fresh _ _ _
  kept := fun s hs => by cases hs

def within (start d : ℤ) (ts : List ℤ) : ℕ := ts.countP (fun t => start ≤ t ∧ t ≤ start + d)

theorem within_seconds (start d : ℤ) (ts : List ℤ) :
    within start d ts = (ts.map seconds).countP (fun t => seconds start ≤ t ∧ t ≤ seconds start + seconds d) := by
  rw [within, List.countP_map]
  refine List.countP_congr fun t _ => ?_
  simp only [Function.comp_apply, decide_eq_true_eq, ← seconds_add, seconds_le]

theorem Refills.within_le {limit : ℚ} {burst : ℤ} {timeout : Int64} (h : (new limit burst timeout).Refills)
    {run : List Timed} (hsorted : run.Pairwise (fun e f => e.time ≤ f.time)) (ip : String) (start : ℤ) {d : ℤ}
    (hd : 0 ≤ d) :
    (within start d (allowed ip (new limit burst timeout) run) : ℚ) ≤
      (new limit burst timeout).burst + (new limit burst timeout).lim * seconds d := by
  have hseconds : 0 ≤ seconds d := by simpa [seconds] using seconds_le.mpr hd
  -- a bucket that is full when the run begins
  obtain ⟨clock, hclock⟩ : ∃ clock, ∀ e ∈ run, clock ≤ e.time := by
    cases run with
    | nil => exact ⟨0, nofun⟩
    | cons e run =>
      refine ⟨e.time, fun f hf => ?_⟩
      rcases List.mem_cons.mp hf with rfl | hf
      · exact le_refl _
      · exact (List.pairwise_cons.mp hsorted).1 f hf
  have htracks := tracks_new h ip clock
  rw [within_seconds, htracks.allowed_eq h hsorted hclock]
  refine TokenBucket.granted_le htracks.proper hseconds ?_ fun t ht => ?_
  · exact (requests_sorted hsorted).map seconds fun s t => seconds_le.mpr
  · obtain ⟨t, hmem, rfl⟩ := List.mem_map.mp ht
    obtain ⟨e, he, rfl⟩ := mem_requests hmem
    exact seconds_le.mpr (hclock e he)

end Tracking

section Bursts

def Holds (sm : SessionManager) (ip : String) (now : ℤ) (n : ℕ) : Prop :=
  ∀ b, (sm.get ip now).1.limiter = some b → (n : ℚ) ≤ b.level (seconds now)

theorem get_of_lookup {s : Session} (h : sm.byIP.lookup ip = some s) : (sm.get ip now).1 = s.touch now := by
  unfold get
  rw [h]

theorem Holds.request {n : ℕ} (h : sm.Holds ip now (n + 1)) :
    (sm.request ip now).1 = true ∧ (sm.request ip now).2.Holds ip now n := by
  have hlookup := lookup_request sm ip ip now
  rw [if_pos rfl] at hlookup
  rw [request_allowed]
  unfold Holds
  rw [get_of_lookup hlookup]
  cases hlimiter : (sm.get ip now).1.limiter with
  | none =>
    have hasked : (sm.get ip now).1.allow now = (true, (sm.get ip now).1) := by
      rw [Session.allow, hlimiter]
    rw [hasked]
    refine ⟨rfl, fun b hb => ?_⟩
    rw [Session.touch, hlimiter] at hb
    cases hb
  | some b =>
    have hlevel := h b hlimiter
    rw [Nat.cast_add, Nat.cast_one] at hlevel
    have hone : 1 ≤ b.level (seconds now) := by linarith [(Nat.cast_nonneg n : (0 : ℚ) ≤ n)]
    rw [allow_limited hlimiter]
    refine ⟨by rw [TokenBucket.allow_of_le hone], fun b' hb' => ?_⟩
    cases hb'
    rw [TokenBucket.level_allow, TokenBucket.allow_of_le hone]
    simpa using by linarith

def burstOf (ip : String) (now : ℤ) (n : ℕ) : List Timed := List.replicate n ⟨now, .request ip⟩

theorem Holds.allowed_burst {n : ℕ} (h : sm.Holds ip now n) (run : List Timed) :
    allowed ip sm (burstOf ip now n ++ run) =
      List.replicate n now ++ allowed ip (sm.after (burstOf ip now n)) run := by
  induction n generalizing sm with
  | zero => rfl
  | succ n ih =>
    obtain ⟨hallowed, hrest⟩ := h.request
    rw [burstOf, List.replicate_succ, List.cons_append, allowed_request, if_pos ⟨rfl, hallowed⟩]
    exact congrArg (now :: ·) (ih hrest)

theorem holds_fresh {n : ℕ} (hnone : sm.byIP.lookup ip = none) (h : sm.lim = rateInf ∨ (n : ℤ) ≤ sm.burst) :
    sm.Holds ip now n := by
  intro b hb
  have hlimiter : sm.newLimiter now = some b := by
    unfold get at hb
    rw [hnone] at hb
    exact hb
  unfold newLimiter at hlimiter
  split_ifs at hlimiter with hlim
  cases hlimiter
  rw [level_fresh]
  exact_mod_cast h.resolve_left hlim

theorem lookup_after_burst (sm : SessionManager) (ip : String) (now : ℤ) (n : ℕ) :
    ∃ s, (sm.after (burstOf ip now (n + 1))).byIP.lookup ip = some s ∧ s.lastSeen = now := by
  have hlast : sm.after (burstOf ip now (n + 1)) = ((sm.after (burstOf ip now n)).request ip now).2 := by
    rw [burstOf, List.replicate_succ', after, List.foldl_append]
    rfl
  have hallow (s : Session) : (s.allow now).2.lastSeen = s.lastSeen := by
    unfold Session.allow
    split <;> rfl
  refine ⟨_, ?_, (hallow _).trans (get_lastSeen (sm.after (burstOf ip now n)) ip now)⟩
  rw [hlast, lookup_request, if_pos rfl]

theorem after_settings (sm : SessionManager) (run : List Timed) :
    (sm.after run).lim = sm.lim ∧ (sm.after run).burst = sm.burst ∧ (sm.after run).timeout = sm.timeout := by
  refine Runs.foldl_invariant (I := fun sm' : SessionManager =>
    sm'.lim = sm.lim ∧ sm'.burst = sm.burst ∧ sm'.timeout = sm.timeout) ?_ run ⟨rfl, rfl, rfl⟩
  rintro sm' ⟨now, event⟩ h
  cases event with
  | cleanup => exact h
  | request ip =>
    change (sm'.request ip now).2.lim = _ ∧ (sm'.request ip now).2.burst = _ ∧ (sm'.request ip now).2.timeout = _
    rwa [request_lim, request_burst, request_timeout]

theorem within_replicate {start d t : ℤ} (h : start ≤ t ∧ t ≤ start + d) (n : ℕ) :
    within start d (List.replicate n t) = n := by
  simp [within, List.countP_replicate, h]

def evictedBurst (ip : String) (gap : ℤ) (n : ℕ) : List Timed :=
  burstOf ip 0 n ++ ⟨gap, .cleanup⟩ :: burstOf ip gap n

theorem evictedBurst_sorted (ip : String) {gap : ℤ} (h : 0 ≤ gap) (n : ℕ) :
    (evictedBurst ip gap n).Pairwise (fun e f => e.time ≤ f.time) := by
  have htime : ∀ {now : ℤ} {e : Timed}, e ∈ burstOf ip now n → e.time = now := by
    intro now e he
    rw [List.eq_of_mem_replicate he]
  refine List.pairwise_append.mpr ⟨List.pairwise_replicate.mpr (Or.inr (le_refl _)), ?_, fun e he f hf => ?_⟩
  · refine List.pairwise_cons.mpr ⟨fun f hf => ?_, List.pairwise_replicate.mpr (Or.inr (le_refl _))⟩
    rw [htime hf]
  · rw [htime he]
    rcases List.mem_cons.mp hf with rfl | hf
    · exact h
    · rw [htime hf]
      exact h

theorem allowed_evictedBurst {gap : ℤ} {n : ℕ} (hnew : sm.byIP.lookup ip = none) (hburst : (n + 1 : ℤ) ≤ sm.burst)
    (hgap : idleTime sm.timeout < gap) :
    allowed ip sm (evictedBurst ip gap (n + 1)) = List.replicate (n + 1) 0 ++ List.replicate (n + 1) gap := by
  obtain ⟨hlim, hb, htimeout⟩ := after_settings sm (burstOf ip 0 (n + 1))
  obtain ⟨s, hs, hseen⟩ := lookup_after_burst sm ip 0 n
  have hevicted : ((sm.after (burstOf ip 0 (n + 1))).cleanup gap).byIP.lookup ip = none := by
    rw [lookup_cleanup, hs, Option.filter_some, if_neg]
    rw [hseen, htimeout]
    unfold idleTime at hgap
    simp only [decide_eq_true_eq, not_not]
    omega
  have hfirst : sm.Holds ip 0 (n + 1) := holds_fresh hnew (Or.inr (by push_cast; exact hburst))
  have hsecond : ((sm.after (burstOf ip 0 (n + 1))).cleanup gap).Holds ip gap (n + 1) :=
    holds_fresh hevicted (Or.inr (by push_cast; exact hb ▸ hburst))
  rw [evictedBurst, hfirst.allowed_burst]
  have hrest := hsecond.allowed_burst []
  rw [List.append_nil] at hrest
  exact congrArg (List.replicate (n + 1) 0 ++ ·) (hrest.trans (List.append_nil _))

end Bursts

section Bound

variable (limit : ℚ) (burst : ℤ) (timeout : Int64)

def Limited (run : List Timed) (ip : String) : Prop :=
  (((new limit burst timeout).after run).sessionsOf ip).length ≤ 1 ∧
    ∀ start d, 0 ≤ d →
      (within start d (allowed ip (new limit burst timeout) run) : ℚ) ≤ burst + limit * seconds d

variable {limit burst timeout}

theorem new_lim (h : 0 < limit) : (new limit burst timeout).lim = limit := if_pos h

theorem new_burst (h : 1 ≤ burst) : (new limit burst timeout).burst = burst := if_neg (by omega)

theorem seconds_zero : seconds 0 = 0 := by simp [seconds]

theorem Limited.burst_le {n : ℕ} {ip : String} (h : Limited limit burst timeout (burstOf ip 0 n) ip)
    (hholds : (new limit burst timeout).Holds ip 0 n) : (n : ℤ) ≤ burst := by
  have hbound := h.2 0 0 (le_refl 0)
  have hallowed := hholds.allowed_burst []
  rw [List.append_nil] at hallowed
  rw [hallowed, allowed, List.append_nil, within_replicate (by omega), seconds_zero, mul_zero, add_zero] at hbound
  exact_mod_cast hbound

theorem limited_iff :
    (∀ run : List Timed, run.Pairwise (fun e f => e.time ≤ f.time) → ∀ ip, Limited limit burst timeout run ip) ↔
    0 < limit ∧ limit ≠ rateInf ∧ 1 ≤ burst ∧ (burst : ℚ) ≤ limit * seconds (idleTime timeout + 1) := by
  constructor
  · intro h
    have hsorted (n : ℕ) : (burstOf "client" 0 n).Pairwise (fun e f => e.time ≤ f.time) :=
      List.pairwise_replicate.mpr (Or.inr (le_refl _))
    have hburst : 1 ≤ burst := by
      rcases lt_trichotomy burst 0 with hneg | rfl | hpos
      · have hempty := (h [] .nil "client").2 0 0 (le_refl 0)
        rw [allowed, within, List.countP_nil, seconds_zero, mul_zero, add_zero, Nat.cast_zero] at hempty
        exact absurd (Int.cast_nonneg_iff.mp hempty) (not_le.mpr hneg)
      · exact (h _ (hsorted 1) "client").burst_le (holds_fresh rfl (Or.inr (le_refl 1)))
      · exact hpos
    have hlimited : 0 < limit ∧ limit ≠ rateInf := by
      by_contra hnot
      have hlim : (new limit burst timeout).lim = rateInf := by
        change (if 0 < limit then limit else rateInf) = rateInf
        split_ifs with hlimit
        · exact not_not.mp fun hne => hnot ⟨hlimit, hne⟩
        · rfl
      have hle := (h _ (hsorted (burst.toNat + 1)) "client").burst_le (holds_fresh rfl (Or.inl hlim))
      omega
    refine ⟨hlimited.1, hlimited.2, hburst, not_lt.mp fun hslow => ?_⟩
    -- the bucket is not full when the session is dropped, and a new one is
    obtain ⟨n, rfl⟩ : ∃ n : ℕ, burst = n + 1 := ⟨(burst - 1).toNat, by omega⟩
    have hbound := (h _ (evictedBurst_sorted "client" (le_max_left 0 (idleTime timeout + 1)) (n + 1)) "client").2
      0 (max 0 (idleTime timeout + 1)) (le_max_left _ _)
    have hallowed : allowed "client" (new limit (n + 1) timeout)
        (evictedBurst "client" (max 0 (idleTime timeout + 1)) (n + 1)) =
        List.replicate (n + 1) 0 ++ List.replicate (n + 1) (max 0 (idleTime timeout + 1)) :=
      allowed_evictedBurst rfl (new_burst hburst).ge (lt_of_lt_of_le (lt_add_one _) (le_max_right _ _))
    rw [hallowed, within, List.countP_append] at hbound
    change ((within _ _ _ + within _ _ _ : ℕ) : ℚ) ≤ _ at hbound
    rw [within_replicate (by omega), within_replicate (by omega)] at hbound
    have hgap : limit * seconds (max 0 (idleTime timeout + 1)) < ((n + 1 : ℤ) : ℚ) := by
      rcases max_cases 0 (idleTime timeout + 1) with ⟨hmax, _⟩ | ⟨hmax, _⟩
      · rw [hmax, seconds_zero, mul_zero]
        exact_mod_cast Nat.succ_pos n
      · rw [hmax]
        exact hslow
    push_cast at hbound hgap
    linarith
  · rintro ⟨hlimit, hfinite, hburst, hfull⟩ run hsorted ip
    have hlim : (new limit burst timeout).lim = limit := new_lim hlimit
    have hb : (new limit burst timeout).burst = burst := new_burst hburst
    have hrefills : (new limit burst timeout).Refills :=
      ⟨by rwa [hlim], by rw [hlim]; exact hlimit.le, by rw [hb]; omega, by rw [hb, hlim]; exact hfull⟩
    refine ⟨((keyed_new limit burst timeout).after run).sessionsOf_le ip, fun start d hd => ?_⟩
    have hwithin := hrefills.within_le hsorted ip start hd
    rwa [hb, hlim] at hwithin

theorem eviction_refills :
    (evictedBurst "client" 600000000001 2).Pairwise (fun e f => e.time ≤ f.time) ∧
    within 0 600000000001 (allowed "client" (new (1 / 1000) 2 600000000000)
      (evictedBurst "client" 600000000001 2)) = 4 ∧
    (2 : ℚ) + 1 / 1000 * seconds 600000000001 < 3 := by
  decide +kernel

end Bound

end SessionManager

end EBeacon.Network
