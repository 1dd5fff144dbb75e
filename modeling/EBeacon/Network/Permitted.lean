import EBeacon.Network.CleanPath
import EBeacon.Network.Isolation
import EBeacon.Network.KeyCodec

/-!
Blocked paths and rules that deny hold for everything that is sent to an upstream, not only for the requests they are
checked against: a pre-warm sends what it reads from the keys of cached responses.
-/

namespace EBeacon.Network

open Text Upstream Cache

structure Config.Permits (cfg : Config) (path : String) : Prop where
  clean : isCleanPath path = true
  blocked : cfg.blocked.any (· path) = false
  denied : (matchRouteRule cfg.routeRules "GET" path).any Prod.fst = false

structure Config.Open (cfg : Config) (form : String → Prop) (u : URL) : Prop where
  request : RequestURL u
  unmarked : Network.unmarked u.escapedPath = true
  form : form u.escapedPath
  permits : cfg.Permits u.path

def Config.OpenKey (cfg : Config) (form : String → Prop) (key : String) : Prop :=
  ∃ u binary scope, cfg.Open form u ∧ key = buildCacheKey cfg.id "GET" u binary scope

theorem admission_permits {cfg : Config} {pool : Pool} {limits : Limits} {sticky : String} {r : Request}
    {routed : Routed} (h : cfg.admission pool limits sticky r = .admitted routed) : cfg.Permits routed.url.path := by
  rw [admission_url h]
  unfold Config.admission at h
  dsimp only at h
  split_ifs at h with hanswered hclean hblocked hdenied hlimits hstream
  exact ⟨by simpa using hclean, by simpa using hblocked, by simpa using hdenied⟩

section Prewarm

variable {F : Type} {qv : QValues F} {authority : List Char → Bool} {cfg : Config} {form : String → Prop} {u v : URL}

theorem Config.Open.of_escapedPath (h : cfg.Open form u) (hpath : v.escapedPath = u.escapedPath) :
    cfg.Open form v := by
  have hsame : v.path = u.path := URL.path_eq_of_escapedPath hpath
  refine ⟨?_, ?_, ?_, ?_⟩
  · unfold RequestURL
    rw [hpath]
    exact h.request
  · rw [hpath]
    exact h.unmarked
  · rw [hpath]
    exact h.form
  · rw [hsame]
    exact h.permits

theorem not_plainSegments_root (q : String) : ¬ PlainSegments ("/" ++ q) := by
  intro h
  have hsplit : split '/' ("/" ++ q) = [""] ++ split '/' q := split_append_cons '/' "" q
  have hmem : "" ∈ split '/' ("/" ++ q) := by
    rw [hsplit]
    exact List.mem_cons_self
  exact (plainSegments_iff.mp h "" hmem).1 rfl

theorem isCleanPath_double_slash {q : String} (h : isCleanPath ("/" ++ ("/" ++ q)) = true) : q = "" := by
  rcases (isCleanPath_root_iff _).mp h with ⟨-, hroot | ⟨r, hr, hq | hq⟩⟩ | hq
  · have hlist := congrArg (fun p => p.toList.length) hroot
    simp at hlist
  · rw [String.append_right_inj] at hq
    exact absurd (hq ▸ hr) (not_plainSegments_root q)
  · rw [String.append_assoc, String.append_right_inj] at hq
    have hlist := congrArg String.toList hq
    rw [String.toList_append, String.toList_append] at hlist
    cases hr' : r.toList with
    | nil => exact absurd ((String.toList_eq_nil_iff.mp hr') ▸ hr) not_plainSegments_empty
    | cons c l =>
      rw [hr'] at hlist
      have hc : '/' = c := (List.cons.inj hlist).1
      have hroot : r = "/" ++ String.ofList l := by
        apply String.toList_injective
        simp [hr', hc.symm]
      exact absurd (hroot ▸ hr) (not_plainSegments_root _)
  · exact String.append_right_inj "/" |>.mp (hq.trans (String.append_empty).symm)

theorem escapedPath_of_doubleSlash (hclean : isCleanPath u.path = true)
    (hslash : URL.doubleSlash u.escapedPath.toList = true) : u.escapedPath = "//" := by
  have heq := URL.doubleSlash_eq hslash
  have hdecode := URL.unescape_escapedPath u
  rw [heq, URL.unescape_slash, URL.unescape_slash, Option.map_map] at hdecode
  obtain ⟨l, hl, hpath⟩ := Option.map_eq_some_iff.mp hdecode
  have hroot : u.path = "/" ++ ("/" ++ String.ofList l) := by
    apply String.toList_injective
    simp [← hpath]
  rw [hroot] at hclean
  have hnil : l = [] := by
    have hempty := congrArg String.toList (isCleanPath_double_slash hclean)
    rwa [String.toList_ofList] at hempty
  rw [hnil] at hl
  have hrest : List.drop 2 u.escapedPath.toList = [] := by
    by_contra hne
    exact Percent.unescape_ne_nil hne hl
  apply String.toList_injective
  rw [heq, hrest]
  rfl

structure Config.Prewarms (cfg : Config) (key : String) (job : Job) (call : Call) (u : URL) : Prop where
  sent : ∃ parsed, parseCacheKey key = some parsed ∧ cfg.parseURL parsed.pathQuery = some u
  key : ∃ binary scope, job.key = buildCacheKey cfg.id "GET" u binary scope
  path : call.path = u.path

theorem prewarm_open (hcfg : cfg.Standard qv authority) {source key : String} {job : Job} {call : Call}
    (hkey : cfg.OpenKey form key) (h : cfg.prewarm source key = some (job, call)) :
    ∃ v, cfg.Open form v ∧ cfg.Prewarms key job call v := by
  obtain ⟨u, binary, scope, hopen, rfl⟩ := hkey
  have hmark : unmarked (rootedPath u) = true := by
    rw [unmarked_rootedPath]
    exact hopen.unmarked
  have hparse := parseCacheKey_buildCacheKey hcfg.colon_notMem (by decide : ':' ∉ "GET".toList) hmark binary scope
  unfold Config.prewarm at h
  rw [hparse, Option.bind_eq_bind, Option.bind_some] at h
  dsimp only at h
  by_cases hguard : ("GET" : String) ≠ "GET" ∨ (!pathHasNamedSlotID (rootedPath u)) = true
  · rw [if_pos hguard] at h
    cases h
  rw [if_neg hguard] at h
  have hnamed : pathHasNamedSlotID (rootedPath u) = true := by
    by_contra hnot
    exact hguard (Or.inr (by simpa using hnot))
  have hrooted : rootedPath u = u.escapedPath := by
    refine if_neg (fun hempty => ?_)
    rw [rootedPath, if_pos hempty] at hnamed
    exact absurd hnamed (by decide)
  have hslash : URL.doubleSlash u.escapedPath.toList = false := by
    by_contra hdouble
    rw [hrooted, escapedPath_of_doubleSlash hopen.permits.clean (by simpa using hdouble)] at hnamed
    exact absurd hnamed (by decide)
  obtain ⟨policy, -, h⟩ := Option.bind_eq_some_iff.mp h
  obtain ⟨url, hurl, h⟩ := Option.bind_eq_some_iff.mp h
  obtain ⟨w, hw, hstar⟩ := hopen.request.rooted
  rw [hrooted] at hw
  obtain ⟨v, hv, hpath, -⟩ :=
    URL.parse_reference_of_not_doubleSlash authority (cacheQuery u) hstar (by rw [hw]; exact hslash)
  have hsame : v = url := by
    rw [hcfg.url, pathAndQueryForCache_eq, hrooted, ← hw, hv] at hurl
    exact Option.some.inj hurl
  rw [hsame] at hpath
  cases h
  exact ⟨url, hopen.of_escapedPath (hpath.trans hw), ⟨_, hparse, hurl⟩, ⟨_, _, rfl⟩, rfl⟩

theorem Config.Prewarms.openKey {key : String} {job : Job} {call : Call} (h : cfg.Prewarms key job call u)
    (hopen : cfg.Open form u) : cfg.OpenKey form job.key := by
  obtain ⟨binary, scope, hkey⟩ := h.key
  exact ⟨u, binary, scope, hopen, hkey⟩

end Prewarm

namespace Server

def jobOf : WarmPhase → Option Job
  | .idle => none
  | .wait job _ => some job
  | .respond job _ => some job

theorem jobOf_idle_ne (job : Job) : jobOf .idle ≠ some job := (Option.some_ne_none job).symm

structure WarmOpen (cfg : Config) (form : String → Prop) (w : Warm) : Prop where
  keys : ∀ key ∈ w.keys, cfg.OpenKey form key
  job : ∀ job, jobOf w.phase = some job → cfg.OpenKey form job.key

structure Permitted (cfg : Config) (form : String → Prop) (s : Server) : Prop where
  tasks : ∀ t ∈ s.tasks, cfg.Open form t.routed.url
  flights : ∀ f ∈ s.flights, cfg.Permits f.call.path
  warms : ∀ w ∈ s.warms, WarmOpen cfg form w
  store : ∀ e ∈ s.store.lru, cfg.OpenKey form e.key

def Formed (cfg : Config) (form : String → Prop) (s : Server) : Label → Prop
  | .request r limits sticky => ∀ routed, cfg.admission s.pool limits sticky r = .admitted routed →
      RequestURL routed.url ∧ form routed.url.escapedPath
  | _ => True

def Unmarked (escapedPath : String) : Prop := unmarked escapedPath = true

section Steps

variable {cfg : Config} {s s' : Server}

theorem flight_step {f f' : Flight} {a : FlightStep} (h : f.step s a = some f') :
    f'.key = f.key ∧ f'.call = f.call ∧ f.result.isSome = false := by
  cases a with
  | select =>
    simp only [Flight.step] at h
    split_ifs at h with hdone
    cases h
    exact ⟨rfl, rfl, by simpa using hdone⟩
  | dispatch u =>
    simp only [Flight.step] at h
    split_ifs at h with hdone
    cases h
    exact ⟨rfl, rfl, by simpa using fun h => hdone (Or.inl h)⟩
  | finish i r =>
    simp only [Flight.step] at h
    split_ifs at h with hdone
    obtain ⟨o, -, rfl⟩ := Option.map_eq_some_iff.mp h
    exact ⟨rfl, rfl, by simpa using hdone⟩
  | fail =>
    simp only [Flight.step] at h
    split_ifs at h with hdone
    cases h
    exact ⟨rfl, rfl, by simpa using hdone⟩

structure TaskEffect (cfg : Config) (s : Server) (t : Task) (s' : Server) : Prop where
  tasks : s'.tasks = s.tasks
  warms : s'.warms = s.warms
  flights : ∀ f ∈ s'.flights, f ∈ s.flights ∨ f.call = cfg.call t
  store : ∀ e ∈ s'.store.lru, e ∈ s.store.lru ∨ e.key = (cfg.job t).key

theorem TaskEffect.refl (t : Task) : TaskEffect cfg s t s := ⟨rfl, rfl, fun _ => Or.inl, fun _ => Or.inl⟩

theorem mem_put {e : Entry Stored} {now : ℤ} {job : Job} {r : Stored}
    (h : e ∈ (s.put (cfg.entry s.pool now job r)).store.lru) : e ∈ s.store.lru ∨ e.key = job.key := by
  cases hentry : cfg.entry s.pool now job r with
  | none =>
    rw [hentry] at h
    exact Or.inl h
  | some e' =>
    rw [hentry] at h
    rcases MemoryStore.mem_set h with rfl | hold
    · exact Or.inr (entry_some hentry).1
    · exact Or.inl hold

theorem put_eq (s : Server) (e : Option (Entry Stored)) : ∃ store, s.put e = { s with store := store } := by
  cases e with
  | none => exact ⟨s.store, rfl⟩
  | some e => exact ⟨_, rfl⟩

theorem stepTask_effect {t : Task} {a : TaskStep} {phase : Phase} (h : stepTask cfg s t a = some (phase, s')) :
    TaskEffect cfg s t s' := by
  cases a with
  | lookup now =>
    cases hp : t.phase <;> simp only [stepTask, hp, reduceCtorEq] at h
    split_ifs at h
    · cases h
      exact .refl t
    · cases h
      exact ⟨rfl, rfl, fun _ => Or.inl, fun e he => Or.inl (MemoryStore.mem_get he)⟩
  | join =>
    cases hp : t.phase <;> simp only [stepTask, hp, reduceCtorEq] at h
    split at h
    · cases h
      exact .refl t
    · cases h
      refine ⟨rfl, rfl, fun f hf => ?_, fun _ => Or.inl⟩
      rcases List.mem_append.mp hf with hf | hf
      · exact Or.inl hf
      · rw [List.mem_singleton.mp hf]
        exact Or.inr rfl
  | receive =>
    cases hp : t.phase <;> simp only [stepTask, hp, reduceCtorEq] at h
    obtain ⟨result, -, hout⟩ := Option.map_eq_some_iff.mp h
    cases hout
    exact .refl t
  | cancel =>
    cases hp : t.phase <;> simp only [stepTask, hp, reduceCtorEq] at h
    cases h
    exact .refl t
  | store now =>
    cases hp : t.phase <;> simp only [stepTask, hp, reduceCtorEq] at h
    cases h
    rename_i r
    obtain ⟨store, hput⟩ := put_eq s (cfg.entry s.pool now (cfg.job t) r)
    have hmem := fun e => @mem_put cfg s e now (cfg.job t) r
    rw [hput] at hmem ⊢
    exact ⟨rfl, rfl, fun _ => Or.inl, hmem⟩

structure WarmEffect (cfg : Config) (s : Server) (w : Warm) (w' : Warm) (s' : Server) : Prop where
  tasks : s'.tasks = s.tasks
  warms : s'.warms = s.warms
  keys : ∀ key ∈ w'.keys, key ∈ w.keys
  flights : ∀ f ∈ s'.flights, f ∈ s.flights ∨
    ∃ key ∈ w.keys, ∃ job, cfg.prewarm w.source key = some (job, f.call)
  job : ∀ job, jobOf w'.phase = some job → jobOf w.phase = some job ∨
    ∃ key ∈ w.keys, ∃ call, cfg.prewarm w.source key = some (job, call)
  store : ∀ e ∈ s'.store.lru, e ∈ s.store.lru ∨ ∃ job, jobOf w.phase = some job ∧ e.key = job.key

theorem WarmEffect.idle {w : Warm} {keys : List String} (seen : List String) (hkeys : ∀ key ∈ keys, key ∈ w.keys) :
    WarmEffect cfg s w { w with keys := keys, seen := seen, phase := .idle } s :=
  ⟨rfl, rfl, hkeys, fun _ => Or.inl, fun job hjob => absurd hjob (jobOf_idle_ne job), fun _ => Or.inl⟩

theorem stepWarm_effect {w w' : Warm} {a : WarmStep} (h : stepWarm cfg s w a = some (w', s')) :
    WarmEffect cfg s w w' s' := by
  cases a with
  | next =>
    cases hp : w.phase <;> cases hk : w.keys <;> simp only [stepWarm, hp, hk, reduceCtorEq] at h
    rename_i key keys
    have hkeys : ∀ k ∈ keys, k ∈ w.keys := by
      intro k hin
      rw [hk]
      exact List.mem_cons_of_mem key hin
    have hfirst : key ∈ w.keys := by
      rw [hk]
      exact List.mem_cons_self
    split_ifs at h
    · cases h
      exact .idle w.seen hkeys
    · split at h
      · cases h
        exact .idle (key :: w.seen) hkeys
      · rename_i job call hprewarm
        cases h
        refine ⟨rfl, rfl, hkeys, fun f hf => ?_, fun job' hjob => ?_, fun _ => Or.inl⟩
        · rcases List.mem_append.mp hf with hf | hf
          · exact Or.inl hf
          · rw [List.mem_singleton.mp hf]
            exact Or.inr ⟨key, hfirst, job, hprewarm⟩
        · cases hjob
          exact Or.inr ⟨key, hfirst, call, hprewarm⟩
  | receive =>
    cases hp : w.phase <;> simp only [stepWarm, hp, reduceCtorEq] at h
    obtain ⟨result, -, hout⟩ := Option.map_eq_some_iff.mp h
    cases result with
    | none =>
      cases hout
      exact .idle w.seen (fun _ => id)
    | some r =>
      cases hout
      refine ⟨rfl, rfl, fun _ => id, fun _ => Or.inl, fun job' hjob => ?_, fun _ => Or.inl⟩
      rw [hp]
      exact Or.inl hjob
  | store now =>
    cases hp : w.phase <;> simp only [stepWarm, hp, reduceCtorEq] at h
    cases h
    rename_i job r
    obtain ⟨store, hput⟩ := put_eq s (cfg.entry s.pool now job r)
    have hmem := fun e => @mem_put cfg s e now job r
    rw [hput] at hmem ⊢
    refine ⟨rfl, rfl, fun _ => id, fun _ => Or.inl, fun job hjob => absurd hjob (jobOf_idle_ne job), fun e he => ?_⟩
    rw [hp]
    exact (hmem e he).imp_right (fun hkey => ⟨job, rfl, hkey⟩)

end Steps

section Invariant

variable {F : Type} {qv : QValues F} {authority : List Char → Bool} {cfg : Config} {form : String → Prop}
  {s s' : Server}

namespace Permitted

theorem task (h : Permitted cfg form s) {i : ℕ} {t : Task} {phase : Phase} (hi : s.tasks[i]? = some t)
    (heffect : TaskEffect cfg s t s') :
    Permitted cfg form { s' with tasks := s'.tasks.set i { t with phase := phase } } := by
  have hopen : cfg.Open form t.routed.url := h.tasks t (List.mem_of_getElem? hi)
  refine ⟨fun t' ht' => ?_, fun f hf => ?_, fun w hw => ?_, fun e he => ?_⟩
  · rcases List.mem_or_eq_of_mem_set ht' with ht' | rfl
    · rw [heffect.tasks] at ht'
      exact h.tasks t' ht'
    · exact hopen
  · rcases heffect.flights f hf with hf | hcall
    · exact h.flights f hf
    · rw [hcall]
      exact hopen.permits
  · rw [heffect.warms] at hw
    exact h.warms w hw
  · rcases heffect.store e he with he | hkey
    · exact h.store e he
    · exact ⟨t.routed.url, _, _, hopen, hkey⟩

theorem warm (hcfg : cfg.Standard qv authority) (h : Permitted cfg form s) {i : ℕ} {w w' : Warm}
    (hi : s.warms[i]? = some w) (heffect : WarmEffect cfg s w w' s') :
    Permitted cfg form { s' with warms := s'.warms.set i w' } := by
  have hwarm : WarmOpen cfg form w := h.warms w (List.mem_of_getElem? hi)
  refine ⟨fun t ht => ?_, fun f hf => ?_, fun v hv => ?_, fun e he => ?_⟩
  · rw [heffect.tasks] at ht
    exact h.tasks t ht
  · rcases heffect.flights f hf with hf | ⟨key, hkey, job, hprewarm⟩
    · exact h.flights f hf
    · obtain ⟨v, hopen, hsent⟩ := prewarm_open hcfg (hwarm.keys key hkey) hprewarm
      rw [hsent.path]
      exact hopen.permits
  · rcases List.mem_or_eq_of_mem_set hv with hv | rfl
    · rw [heffect.warms] at hv
      exact h.warms v hv
    · refine ⟨fun key hkey => hwarm.keys key (heffect.keys key hkey), fun job hjob => ?_⟩
      rcases heffect.job job hjob with hjob | ⟨key, hkey, call, hprewarm⟩
      · exact hwarm.job job hjob
      · obtain ⟨v, hopen, hsent⟩ := prewarm_open hcfg (hwarm.keys key hkey) hprewarm
        exact hsent.openKey hopen
  · rcases heffect.store e he with he | ⟨job, hjob, hkey⟩
    · exact h.store e he
    · rw [hkey]
      exact hwarm.job job hjob

theorem flight (h : Permitted cfg form s) {i : ℕ} {f f' : Flight} {a : FlightStep} (hi : s.flights[i]? = some f)
    (hstep : f.step s a = some f') : Permitted cfg form { s with flights := s.flights.set i f' } := by
  obtain ⟨-, hcall, -⟩ := flight_step hstep
  refine ⟨h.tasks, fun g hg => ?_, h.warms, h.store⟩
  rcases List.mem_or_eq_of_mem_set hg with hg | rfl
  · exact h.flights g hg
  · rw [hcall]
    exact h.flights f (List.mem_of_getElem? hi)

theorem setStore (h : Permitted cfg form s) {store : MemoryStore Stored} (pool : Pool) (purges : List Purge)
    (hstore : ∀ e ∈ store.lru, ∃ e' ∈ s.store.lru, e.key = e'.key) :
    Permitted cfg form { s with pool := pool, store := store, purges := purges } := by
  refine ⟨h.tasks, h.flights, h.warms, fun e he => ?_⟩
  obtain ⟨e', he', hkey⟩ := hstore e he
  rw [hkey]
  exact h.store e' he'

theorem purge (h : Permitted cfg form s) (fn : String → Bool) (now : ℤ) (purges : List Purge) :
    Permitted cfg form { s with store := (s.store.purgeCollect fn now).2, purges := purges } :=
  h.setStore s.pool purges (fun e he => ⟨e, (MemoryStore.mem_purgeCollect he).1, rfl⟩)

theorem purgedKeys (h : Permitted cfg form s) {fn : String → Bool} {now : ℤ} {key : String}
    (hkey : key ∈ (s.store.purgeCollect fn now).1) : cfg.OpenKey form key := by
  obtain ⟨e, he, rfl⟩ := List.mem_map.mp (List.mem_filter.mp hkey).1
  exact h.store e (List.mem_filter.mp he).1

theorem head (h : Permitted cfg form s) (source : String) (now : ℤ) :
    Permitted cfg form (s.invalidateHead cfg source now) := by
  unfold invalidateHead
  split_ifs
  · exact h
  · have hpurge := h.purge (fun key => cfg.ownsKey key && isNamedHeadCacheKey key) now (s.purges ++ [.head])
    refine ⟨hpurge.tasks, hpurge.flights, fun w hw => ?_, hpurge.store⟩
    dsimp only at hw
    split_ifs at hw
    · exact h.warms w hw
    · rcases List.mem_append.mp hw with hw | hw
      · exact h.warms w hw
      · rw [List.mem_singleton.mp hw]
        exact ⟨fun key hkey => h.purgedKeys hkey, fun job hjob => absurd hjob (jobOf_idle_ne job)⟩

theorem reorg (h : Permitted cfg form s) (slot : String) (now : ℤ) :
    Permitted cfg form (s.chainReorg cfg slot now) := by
  unfold chainReorg
  split_ifs
  · exact h
  · split
    · exact h
    · exact h.purge _ now _

theorem finalized (h : Permitted cfg form s) (epoch : String) (now : ℤ) :
    Permitted cfg form (s.finalizedCheckpoint cfg epoch now) := by
  unfold finalizedCheckpoint
  split
  · exact h
  · dsimp only
    split_ifs
    · exact ⟨h.tasks, h.flights, h.warms, h.store⟩
    · refine h.setStore _ s.purges (fun e he => ?_)
      obtain ⟨e', he', hkey, -⟩ := MemoryStore.mem_promoteIf he
      exact ⟨e', he', hkey⟩

theorem step (hcfg : cfg.Standard qv authority) (hform : ∀ path, form path → Unmarked path)
    (h : Permitted cfg form s) {l : Label} (hl : Formed cfg form s l) (hs : next cfg s l = some s') :
    Permitted cfg form s' := by
  cases l with
  | request r limits sticky =>
    simp only [next] at hs
    split at hs
    · rename_i routed hadmission
      cases hs
      obtain ⟨hrequest, hpath⟩ := hl routed hadmission
      refine ⟨fun t ht => ?_, h.flights, h.warms, h.store⟩
      rcases List.mem_append.mp ht with ht | ht
      · exact h.tasks t ht
      · rw [List.mem_singleton.mp ht]
        exact ⟨hrequest, hform _ hpath, hpath, admission_permits hadmission⟩
    · cases hs
      exact h
  | flight i a =>
    obtain ⟨f, hi, hrest⟩ := Option.bind_eq_some_iff.mp hs
    obtain ⟨f', hstep, hout⟩ := Option.bind_eq_some_iff.mp hrest
    cases hout
    exact h.flight hi hstep
  | task i a =>
    obtain ⟨t, hi, hrest⟩ := Option.bind_eq_some_iff.mp hs
    obtain ⟨⟨phase, s''⟩, hstep, hout⟩ := Option.bind_eq_some_iff.mp hrest
    cases hout
    exact h.task hi (stepTask_effect hstep)
  | warm i a =>
    obtain ⟨w, hi, hrest⟩ := Option.bind_eq_some_iff.mp hs
    obtain ⟨⟨w', s''⟩, hstep, hout⟩ := Option.bind_eq_some_iff.mp hrest
    cases hout
    exact h.warm hcfg hi (stepWarm_effect hstep)
  | head source now =>
    cases hs
    exact h.head source now
  | reorg slot now =>
    cases hs
    exact h.reorg slot now
  | finalized epoch now =>
    cases hs
    exact h.finalized epoch now
  | pool p =>
    cases hs
    exact ⟨h.tasks, h.flights, h.warms, h.store⟩

theorem init (pool : Pool) (maxSize : ℤ) : Permitted cfg form (.init pool maxSize) where
  tasks := fun _ h => absurd h List.not_mem_nil
  flights := fun _ h => absurd h List.not_mem_nil
  warms := fun _ h => absurd h List.not_mem_nil
  store := fun _ h => absurd h List.not_mem_nil

end Permitted

theorem permitted_throughout (hcfg : cfg.Standard qv authority) (hform : ∀ path, form path → Unmarked path)
    {pool : Pool} {maxSize : ℤ} {labels : List Label}
    (h : Runs.Along (next cfg) (Formed cfg form) (.init pool maxSize) labels) :
    Runs.Throughout (next cfg) (Permitted cfg form) (.init pool maxSize) labels :=
  Runs.throughout_of_along (fun _ _ _ hi hs hc => hi.step hcfg hform hc hs) (Permitted.init pool maxSize) h

/-- Neither for a `GET` request, event streams apart, nor for a pre-warm is a path sent to an upstream that a blocked
pattern matches or a route rule denies, as long as no request has a mark of keys in its path. -/
theorem sent_permitted (hcfg : cfg.Standard qv authority) (pool : Pool) (maxSize : ℤ) (labels : List Label)
    (h : Runs.Along (next cfg) (Formed cfg Unmarked) (.init pool maxSize) labels) :
    Runs.Throughout (next cfg) (fun s => ∀ f ∈ s.flights, cfg.Permits f.call.path) (.init pool maxSize) labels :=
  (permitted_throughout hcfg (fun _ => id) h).mono (fun _ hi => hi.flights)

section Example

def headBlocked : Config where
  __ := Config.standard
  blocked := [fun path => path = "/eth/v1/beacon/headers/head"]

theorem headBlocked_standard : headBlocked.Standard QValues.whole (fun _ => true) := ⟨by decide, rfl, rfl⟩

def oneNode : Pool := .allReady [⟨"node", false⟩]

def asked (path : String) : List Label :=
  [.request ⟨⟨path, "", []⟩, "", "", ""⟩ ⟨true, true⟩ "", .task 0 (.lookup 0), .task 0 .join]

theorem asked_unmarked :
    Runs.Along (next headBlocked) (Formed headBlocked Unmarked) (.init oneNode 10)
      (asked "/eth/v1/beacon/blocks/head") := by
  refine fun _ _ => ⟨fun routed hrouted => ?_, fun _ _ => ⟨trivial, fun _ _ => ⟨trivial, trivial⟩⟩⟩
  rw [admission_url hrouted, Unmarked]
  exact ⟨Or.inr (Or.inr (by decide +kernel)), by decide +kernel⟩

theorem sent_permitted_head :
    Runs.Throughout (next headBlocked) (fun s => ∀ f ∈ s.flights, headBlocked.Permits f.call.path) (.init oneNode 10)
      (asked "/eth/v1/beacon/blocks/head") :=
  sent_permitted headBlocked_standard oneNode 10 _ asked_unmarked

def markedRun : List Label :=
  asked "/eth/v1/beacon/headers/head:accept=json" ++
    [.flight 0 (.dispatch ⟨"node", false⟩), .flight 0 (.finish 0 ⟨200, "application/json", ""⟩), .task 0 .receive,
      .task 0 (.store 0), .head "node" 1, .warm 0 .next]

theorem marked_sends_blocked :
    (Runs.exec (next headBlocked) (.init oneNode 10) markedRun).map (fun s => s.flights.map (fun f => f.call.path)) =
        some ["/eth/v1/beacon/headers/head:accept=json", "/eth/v1/beacon/headers/head"] ∧
      headBlocked.blocked.any (· "/eth/v1/beacon/headers/head") = true := by
  decide +kernel

end Example

end Invariant

end Server

end EBeacon.Network
