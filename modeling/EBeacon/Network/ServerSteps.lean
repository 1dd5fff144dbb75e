import EBeacon.Network.Server

namespace EBeacon.Network.Server

open Text Upstream Cache

variable (cfg : Config)

def setPhase (s : Server) (i : ℕ) (t : Task) (phase : Phase) : Server :=
  { s with tasks := s.tasks.set i { t with phase := phase } }

def setWarm (s : Server) (i : ℕ) (w : Warm) : Server := { s with warms := s.warms.set i w }

def addFlight (s : Server) (call : Call) (key : Option String) : Server :=
  { s with flights := s.flights ++ [⟨call, key, [], [], none⟩] }

inductive Stepped (s : Server) : Label → Server → Prop
  | ignored (l : Label) : Stepped s l s
  | request {r : Request} {limits : Limits} {sticky : String} {routed : Routed}
      (h : cfg.admission s.pool limits sticky r = .admitted routed) :
      Stepped s (.request r limits sticky)
        { s with tasks := s.tasks ++ [⟨cfg.hardSelector s.pool r, r, routed, .lookup⟩] }
  | flight {i : ℕ} {a : FlightStep} {f f' : Flight} (hi : s.flights[i]? = some f)
      (h : f.step s a = some f') : Stepped s (.flight i a) { s with flights := s.flights.set i f' }
  | bypass {i : ℕ} {t : Task} (now : ℤ) (hi : s.tasks[i]? = some t) (hp : t.phase = .lookup) :
      Stepped s (.task i (.lookup now)) (s.setPhase i t .join)
  | hit {i : ℕ} {t : Task} {now : ℤ} {e : Entry Stored} (hi : s.tasks[i]? = some t)
      (hp : t.phase = .lookup) (h : (s.store.get (cfg.job t).key now).1 = some e) :
      Stepped s (.task i (.lookup now))
        ({ s with store := (s.store.get (cfg.job t).key now).2 }.setPhase i t (.served e.content))
  | miss {i : ℕ} {t : Task} {now : ℤ} (hi : s.tasks[i]? = some t) (hp : t.phase = .lookup) :
      Stepped s (.task i (.lookup now))
        ({ s with store := (s.store.get (cfg.job t).key now).2 }.setPhase i t .join)
  | follow {i j : ℕ} {t : Task} {f : Flight} (hi : s.tasks[i]? = some t) (hp : t.phase = .join)
      (hj : s.flights[j]? = some f) (hk : f.key = some (cfg.dedupKey t)) :
      Stepped s (.task i .join) (s.setPhase i t (.wait j))
  | lead {i : ℕ} {t : Task} (hi : s.tasks[i]? = some t) (hp : t.phase = .join) :
      Stepped s (.task i .join)
        ((s.addFlight (cfg.call t) (some (cfg.dedupKey t))).setPhase i t (.wait s.flights.length))
  | received {i j : ℕ} {t : Task} {r : Stored} (hi : s.tasks[i]? = some t) (hp : t.phase = .wait j)
      (hr : s.resultOf j = some (some r)) :
      Stepped s (.task i .receive) (s.setPhase i t (.respond r))
  | ended {i : ℕ} {a : TaskStep} {t : Task} (hi : s.tasks[i]? = some t) :
      Stepped s (.task i a) (s.setPhase i t .ended)
  | stored {i : ℕ} {t : Task} {r : Stored} (now : ℤ) (hi : s.tasks[i]? = some t)
      (hp : t.phase = .respond r) :
      Stepped s (.task i (.store now))
        ((s.put (cfg.entry s.pool now (cfg.job t) r)).setPhase i t (.served r))
  | warmIdle {i : ℕ} {a : WarmStep} {w : Warm} (keys seen : List String) (hi : s.warms[i]? = some w) :
      Stepped s (.warm i a) (s.setWarm i { w with keys := keys, seen := seen, phase := .idle })
  | warmFetched {i : ℕ} {w : Warm} {key : String} {keys : List String} {job : Job} {call : Call}
      (hi : s.warms[i]? = some w) (hk : w.keys = key :: keys)
      (h : cfg.prewarm w.source key = some (job, call)) :
      Stepped s (.warm i .next) ((s.addFlight call none).setWarm i
        { w with keys := keys, seen := key :: w.seen, phase := .wait job s.flights.length })
  | warmReceived {i j : ℕ} {w : Warm} {job : Job} {r : Stored} (hi : s.warms[i]? = some w)
      (hp : w.phase = .wait job j) (hr : s.resultOf j = some (some r)) :
      Stepped s (.warm i .receive) (s.setWarm i { w with phase := .respond job r })
  | warmStored {i : ℕ} {w : Warm} {job : Job} {r : Stored} (now : ℤ) (hi : s.warms[i]? = some w)
      (hp : w.phase = .respond job r) :
      Stepped s (.warm i (.store now))
        ((s.put (cfg.entry s.pool now job r)).setWarm i { w with phase := .idle })
  | purged {l : Label} {p : Purge} {fn : String → Bool} {warms : List Warm} (now : ℤ)
      (hfn : ∀ key, cfg.ownsKey key = true → p.covers (cacheKeyPath key) = true → fn key = true)
      (hw : ∀ w ∈ warms, w ∈ s.warms ∨ w.phase = .idle) :
      Stepped s l { s with
        store := (s.store.purgeCollect fn now).2, purges := s.purges ++ [p], warms := warms }
  | finalized (epoch : String) (now : ℤ) (pool : Pool) (fn : String → Bool) :
      Stepped s (.finalized epoch now) { s with pool := pool, store := s.store.promoteIf fn now }
  | pool (l : Label) (p : Pool) : Stepped s l { s with pool := p }

variable {cfg}

theorem stepTask_cases {s s' : Server} {i : ℕ} {t : Task} {a : TaskStep} {phase : Phase}
    (hi : s.tasks[i]? = some t) (h : stepTask cfg s t a = some (phase, s')) :
    Stepped cfg s (.task i a) (s'.setPhase i t phase) := by
  cases a with
  | lookup now =>
    cases hp : t.phase <;> simp only [stepTask, hp, reduceCtorEq] at h
    split_ifs at h
    · cases h
      exact .bypass now hi hp
    · cases hget : (s.store.get (cfg.job t).key now).1 with
      | none =>
        simp only [hget, Option.elim_none] at h
        cases h
        exact .miss hi hp
      | some e =>
        simp only [hget, Option.elim_some] at h
        cases h
        exact .hit hi hp hget
  | join =>
    cases hp : t.phase <;> simp only [stepTask, hp, reduceCtorEq] at h
    split at h
    · rename_i j hj
      cases h
      obtain ⟨running, hcall⟩ := cfg.inflight.join_key _ _ j hj
      rw [List.getElem?_map] at hcall
      obtain ⟨f, hf, hkey⟩ := Option.map_eq_some_iff.mp hcall
      exact .follow hi hp hf (congrArg Prod.fst hkey)
    · cases h
      exact .lead hi hp
  | receive =>
    cases hp : t.phase <;> simp only [stepTask, hp, reduceCtorEq] at h
    obtain ⟨result, hr, hout⟩ := Option.map_eq_some_iff.mp h
    cases result with
    | none =>
      cases hout
      exact .ended hi
    | some r =>
      cases hout
      exact .received hi hp hr
  | cancel =>
    cases hp : t.phase <;> simp only [stepTask, hp, reduceCtorEq] at h
    cases h
    exact .ended hi
  | store now =>
    cases hp : t.phase <;> simp only [stepTask, hp, reduceCtorEq] at h
    cases h
    exact .stored now hi hp

theorem stepWarm_cases {s s' : Server} {i : ℕ} {w w' : Warm} {a : WarmStep}
    (hi : s.warms[i]? = some w) (h : stepWarm cfg s w a = some (w', s')) :
    Stepped cfg s (.warm i a) (s'.setWarm i w') := by
  cases a with
  | next =>
    cases hp : w.phase <;> cases hk : w.keys <;> simp only [stepWarm, hp, hk, reduceCtorEq] at h
    rename_i key keys
    split_ifs at h
    · cases h
      exact .warmIdle keys w.seen hi
    · split at h
      · cases h
        exact .warmIdle keys (key :: w.seen) hi
      · rename_i job call hprewarm
        cases h
        exact .warmFetched hi hk hprewarm
  | receive =>
    cases hp : w.phase <;> simp only [stepWarm, hp, reduceCtorEq] at h
    obtain ⟨result, hr, hout⟩ := Option.map_eq_some_iff.mp h
    cases result with
    | none =>
      cases hout
      exact .warmIdle w.keys w.seen hi
    | some r =>
      cases hout
      exact .warmReceived hi hp hr
  | store now =>
    cases hp : w.phase <;> simp only [stepWarm, hp, reduceCtorEq] at h
    cases h
    exact .warmStored now hi hp

theorem entry_some {pool : Pool} {now : ℤ} {job : Job} {r : Stored} {e : Entry Stored}
    (h : cfg.entry pool now job r = some e) : e.key = job.key ∧ e.content = r := by
  unfold Config.entry at h
  split at h
  · cases h
  · split_ifs at h
    cases h
    exact ⟨rfl, rfl⟩

theorem covers_reorgPurges {slot : UInt64} {key : String}
    (h : (Purge.reorg slot).covers (cacheKeyPath key) = true) : reorgPurges slot key = true := by
  have h : (pathNumericSlot (cacheKeyPath key)).any (slot ≤ ·) = true := h
  have hnone : pathNumericSlot "" = none := by decide
  have hne : cacheKeyPath key ≠ "" := by
    intro hempty
    rw [hempty, hnone] at h
    cases h
  simp [reorgPurges, hne, h]

theorem invalidateHead_cases (s : Server) (source : String) (now : ℤ) :
    Stepped cfg s (.head source now) (s.invalidateHead cfg source now) := by
  unfold invalidateHead
  split_ifs
  · exact .ignored _
  · apply Stepped.purged now
    · intro key howns hcovers
      rw [howns, Bool.true_and]
      exact hcovers
    · intro w hw
      split_ifs at hw
      · exact Or.inl hw
      · rcases List.mem_append.mp hw with hw | hw
        · exact Or.inl hw
        · rw [List.mem_singleton.mp hw]
          exact Or.inr rfl

theorem chainReorg_cases (s : Server) (slot : String) (now : ℤ) :
    Stepped cfg s (.reorg slot now) (s.chainReorg cfg slot now) := by
  unfold chainReorg
  split_ifs
  · exact .ignored _
  · split
    · exact .ignored _
    · apply Stepped.purged now
      · intro key howns hcovers
        rw [howns, Bool.true_and]
        exact covers_reorgPurges hcovers
      · exact fun w hw => Or.inl hw

theorem next_cases {s s' : Server} {l : Label} (h : next cfg s l = some s') : Stepped cfg s l s' := by
  cases l with
  | request r limits sticky =>
    simp only [next] at h
    split at h
    · rename_i routed hadmission
      cases h
      exact .request hadmission
    · cases h
      exact .ignored _
  | flight i a =>
    obtain ⟨f, hi, hrest⟩ := Option.bind_eq_some_iff.mp h
    obtain ⟨f', hstep, hout⟩ := Option.bind_eq_some_iff.mp hrest
    cases hout
    exact .flight hi hstep
  | task i a =>
    obtain ⟨t, hi, hrest⟩ := Option.bind_eq_some_iff.mp h
    obtain ⟨⟨phase, s''⟩, hstep, hout⟩ := Option.bind_eq_some_iff.mp hrest
    cases hout
    exact stepTask_cases hi hstep
  | warm i a =>
    obtain ⟨w, hi, hrest⟩ := Option.bind_eq_some_iff.mp h
    obtain ⟨⟨w', s''⟩, hstep, hout⟩ := Option.bind_eq_some_iff.mp hrest
    cases hout
    exact stepWarm_cases hi hstep
  | head source now =>
    cases h
    exact invalidateHead_cases s source now
  | reorg slot now =>
    cases h
    exact chainReorg_cases s slot now
  | finalized epoch now =>
    cases h
    unfold finalizedCheckpoint
    split
    · exact .ignored _
    · dsimp only
      split_ifs
      · exact .pool _ _
      · exact .finalized epoch now _ _
  | pool p =>
    cases h
    exact .pool _ p

end EBeacon.Network.Server
