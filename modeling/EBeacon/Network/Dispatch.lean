import EBeacon.Network.HedgeTurns
import EBeacon.Network.Server

namespace EBeacon.Network

open Upstream Proc

def Allows (required : Selector) (pools : List Pool) (u : Upstream) : Prop :=
  required.enabled = true → ∃ p ∈ pools, p.isMatch required u = true

theorem admits_allows {c : Call} (hid : c.required.id ≠ "" → c.required.clientType = "" ∧ c.required.glob = "") :
    Turn.Admits (Allows c.required) c where
  any hdisabled ps u henabled := absurd (hdisabled.symm.trans henabled) nofun
  byID hne p ps u hu _ := by
    obtain ⟨hclient, hglob⟩ := hid hne
    have hsame : u.id = c.required.id := by simpa using List.find?_some hu
    refine ⟨p, List.mem_cons_self, ?_⟩
    simp [Pool.isMatch, Selector.isMatch, hclient, hglob, hsame]
  matching _ p ps n u hu _ := ⟨p, List.mem_cons_self, p.selectMatching_isMatch _ _ _ _ hu⟩

structure Follows (s : Server) (i : ℕ) (c : Call) (g : Turn) (t : Server) (f : Flight) : Prop where
  flight : t.flights[i]? = some f
  call : f.call = c
  running : f.result = none
  role : g.role = .main
  pools : g.pools ⊆ f.pools
  dispatches : ∀ u ∈ g.tried, ∃ o ∈ f.dispatches, o.upstream = u
  rest : t = { s with pool := t.pool, flights := s.flights.set i f }

namespace Follows

variable (cfg : Config) {s t : Server} {i : ℕ} {c : Call} {g g' : Turn} {f : Flight}

theorem exec_flight {a : Server.FlightStep} {f' : Flight} (h : Follows s i c g t f) (hstep : f.step t a = some f') :
    Runs.exec (Server.next cfg) t [.flight i a] = some { t with flights := t.flights.set i f' } := by
  simp [Runs.exec, Server.next, h.flight, hstep]

theorem setFlight (h : Follows s i c g t f) (f' : Flight) :
    { t with flights := t.flights.set i f' } = { s with pool := t.pool, flights := s.flights.set i f' } := by
  have hflights : t.flights = s.flights.set i f := congrArg Server.flights h.rest
  rw [hflights, List.set_set]
  conv_lhs => rw [h.rest]

theorem flight_set (h : Follows s i c g t f) (f' : Flight) : (t.flights.set i f')[i]? = some f' := by
  obtain ⟨hi, -⟩ := List.getElem?_eq_some_iff.mp h.flight
  exact List.getElem?_set_self hi

theorem select (h : Follows s i c g t f) (p : Pool) :
    ∃ t', Runs.exec (Server.next cfg) t [.pool p, .flight i .select] = some t' ∧
      Follows s i c (g.see p) t' { f with pools := p :: f.pools } := by
  have hstep : f.step { t with pool := p } .select = some { f with pools := p :: f.pools } := by
    simp [Flight.step, h.running]
  have hp : Follows s i c g { t with pool := p } f := { h with rest := by rw [h.rest] }
  refine ⟨{ t with pool := p, flights := t.flights.set i { f with pools := p :: f.pools } }, ?_, ?_⟩
  · rw [Runs.exec_cons]
    exact hp.exec_flight cfg hstep
  · exact ⟨h.flight_set _, h.call, h.running, h.role, List.cons_subset_cons _ h.pools, h.dispatches,
      hp.setFlight _⟩

theorem dispatch (h : Follows s i c g t f) {u : Upstream} (hallow : Allows c.required g.pools u)
    (hrole : g'.role = .main) (hpools : g'.pools = g.pools) (htried : g'.tried = u :: g.tried) :
    ∃ t' f', Runs.exec (Server.next cfg) t [.flight i (.dispatch u)] = some t' ∧ Follows s i c g' t' f' := by
  have hmay : f.mayDispatch u = true := by
    unfold Flight.mayDispatch
    rw [h.call]
    by_cases henabled : c.required.enabled = true
    · obtain ⟨p, hp, hmatch⟩ := hallow henabled
      have hany : f.pools.any (fun p => p.isMatch c.required u) = true :=
        List.any_eq_true.mpr ⟨p, h.pools hp, hmatch⟩
      rw [hany, Bool.or_true]
    · rw [Bool.eq_false_iff.mpr henabled]
      rfl
  have hstep : f.step t (.dispatch u) =
      some { f with dispatches := f.dispatches ++ [⟨u, t.pool, t.purges.length⟩] } := by
    simp [Flight.step, h.running, hmay]
  refine ⟨_, _, h.exec_flight cfg hstep, h.flight_set _, h.call, h.running, hrole, hpools ▸ h.pools, ?_,
    h.setFlight _⟩
  intro v hv
  rw [htried] at hv
  rcases List.mem_cons.mp hv with rfl | hv
  · exact ⟨_, List.mem_append_right _ List.mem_cons_self, rfl⟩
  · obtain ⟨o, ho, hsame⟩ := h.dispatches v hv
    exact ⟨o, List.mem_append_left _ ho, hsame⟩

theorem stay (h : Follows s i c g t f) (hrole : g'.role = g.role) (hpools : g'.pools = g.pools)
    (htried : g'.tried = g.tried) :
    ∃ t' f', Runs.exec (Server.next cfg) t [] = some t' ∧ Follows s i c g' t' f' :=
  ⟨t, f, rfl, { h with role := hrole.trans h.role, pools := hpools ▸ h.pools, dispatches := htried ▸ h.dispatches }⟩

def labels (i : ℕ) : (e : Eff) → e.Answer → List Server.Label
  | .pool _, p => [.pool p, .flight i .select]
  | .acquire u, _ => [.flight i (.dispatch u)]
  | .fire u, _ => [.flight i (.dispatch u)]
  | _, _ => []

theorem step (h : Follows s i c g t f) {limit : ℕ} {e : Eff} {r : e.Answer}
    (hneed : Turn.need limit (Allows c.required) g e) :
    ∃ t' f', Runs.exec (Server.next cfg) t (labels i e r) = some t' ∧
      Follows s i c (Turn.after g e r) t' f' := by
  cases e with
  | pool site =>
    obtain ⟨t', hexec, hfollows⟩ := h.select cfg r
    exact ⟨t', _, hexec, hfollows⟩
  | acquire u =>
    have hneed : g.mayAcquire limit (Allows c.required) u := hneed
    rw [Turn.mayAcquire, h.role] at hneed
    change ∃ t' f', _ ∧ Follows s i c (g.acquired u _) t' f'
    rw [Turn.acquired_main h.role]
    exact h.dispatch cfg hneed.allowed h.role rfl rfl
  | fire u => exact h.dispatch cfg hneed.2.2.2 h.role rfl rfl
  | select armed => cases r <;> exact h.stay cfg rfl rfl rfl
  | _ => exact h.stay cfg rfl rfl rfl

end Follows

def Flight.EndsAs (f : Flight) (reply : Reply) : Except ExecError Served → Prop
  | .ok served => ∃ o, f.result = some (some ⟨reply, o⟩) ∧ o.upstream = served.upstream
  | .error _ => f.result = some none

/-- The server's flights can follow every run of `executeFS`: they read the same pools and dispatch
to the same upstreams, and end as it does. -/
theorem flight_follows_executeFS (cfg : Config) (s : Server) {i : ℕ} {c : Call} {key : Option String}
    (hi : s.flights[i]? = some ⟨c, key, [], [], none⟩)
    (hid : c.required.id ≠ "" → c.required.clientType = "" ∧ c.required.glob = "")
    {result : Except ExecError Served} {g : Turn}
    (hrun : Returns (Turn.protocol c.fs.maxAttempts (Allows c.required)) (executeFS c) .first result g)
    (reply : Reply) :
    ∃ labels t f, Runs.exec (Server.next cfg) s labels = some t ∧ t.flights[i]? = some f ∧ f.call = c ∧
      t = { s with pool := t.pool, flights := s.flights.set i f } ∧ f.EndsAs reply result := by
  have hstart : Follows s i c .first s ⟨c, key, [], [], none⟩ := by
    refine ⟨hi, rfl, rfl, rfl, List.Subset.refl _, nofun, ?_⟩
    obtain ⟨hlt, hget⟩ := List.getElem?_eq_some_iff.mp hi
    rw [← hget, List.set_getElem_self]
  have hsafe := Turn.safe_executeFS (admits_allows hid) Turn.starting_first
  have hstep : ∀ g t e r, (∃ f, Follows s i c g t f) → Turn.need c.fs.maxAttempts (Allows c.required) g e →
      Turn.may g e r → ∃ labels t', (∀ l ∈ labels, True) ∧ Runs.exec (Server.next cfg) t labels = some t' ∧
        ∃ f, Follows s i c (Turn.after g e r) t' f := by
    rintro g t e r ⟨f, hf⟩ hneed -
    obtain ⟨t', f', hexec, hfollows⟩ := hf.step cfg (r := r) hneed
    exact ⟨_, t', fun _ _ => trivial, hexec, f', hfollows⟩
  obtain ⟨hanswered, labels, t, -, hexec, f, hfollows⟩ := hrun.simulate hstep hsafe ⟨_, hstart⟩
  cases result with
  | ok served =>
    obtain ⟨o, ho, hsame⟩ := hfollows.dispatches _ (hanswered.upstream served rfl)
    obtain ⟨j, hj⟩ := List.getElem?_of_mem ho
    have hfinish : f.step t (.finish j reply) = some { f with result := some (some ⟨reply, o⟩) } := by
      simp [Flight.step, hfollows.running, hj]
    refine ⟨labels ++ [.flight i (.finish j reply)], _, { f with result := some (some ⟨reply, o⟩) }, ?_, hfollows.flight_set _, hfollows.call,
      hfollows.setFlight _, o, rfl, hsame⟩
    rw [Runs.exec_append, hexec]
    exact hfollows.exec_flight cfg hfinish
  | error e =>
    have hfail : f.step t .fail = some { f with result := some none } := by
      simp [Flight.step, hfollows.running]
    refine ⟨labels ++ [.flight i .fail], _, { f with result := some none }, ?_, hfollows.flight_set _, hfollows.call,
      hfollows.setFlight _, rfl⟩
    rw [Runs.exec_append, hexec]
    exact hfollows.exec_flight cfg hfail

end EBeacon.Network
