import EBeacon.Network.ServerSteps

namespace EBeacon.Network

open Text Upstream Cache

section Routing

variable {cfg : Config} {pool : Pool} {limits : Limits} {sticky : String} {r : Request}

def Config.pinned (cfg : Config) (path : String) : String :=
  ((matchRouteRule cfg.routeRules "GET" path).map Prod.snd).getD ""

theorem admission_routed {routed : Routed} (h : cfg.admission pool limits sticky r = .admitted routed) :
    routed = cfg.route pool sticky r (cfg.rewriteClientPath pool r.url).1
      (cfg.rewriteClientPath pool r.url).2 (cfg.pinned (cfg.rewriteClientPath pool r.url).1.path) := by
  unfold Config.admission at h
  dsimp only at h
  split_ifs at h
  exact (Admission.admitted.inj h).symm

theorem route_url (url : URL) (clientUpstream ruleUpstream : String) :
    (cfg.route pool sticky r url clientUpstream ruleUpstream).url = url := by
  unfold Config.route
  dsimp only
  split_ifs <;> rfl

theorem directiveSelector_string (directive : String) :
    Selector.parseSelector (directiveSelector pool directive).string =
      directiveSelector pool directive := by
  unfold directiveSelector promoteClientType
  dsimp only
  split_ifs
  · exact Selector.parseSelector_client _
  · exact Selector.parseSelector_string directive

theorem hardSelector_string (pool : Pool) (r : Request) :
    Selector.parseSelector (cfg.hardSelector pool r).string = cfg.hardSelector pool r := by
  unfold Config.hardSelector
  dsimp only
  split_ifs
  · exact directiveSelector_string _
  · exact directiveSelector_string _
  · exact Selector.parseSelector_string _

theorem directiveSelector_empty : (directiveSelector pool "").enabled = false := rfl

theorem hardSelector_of_directive (h : (directiveSelector pool (upstreamDirective r)).enabled = true) :
    cfg.hardSelector pool r = directiveSelector pool (upstreamDirective r) := by
  unfold upstreamDirective at h ⊢
  unfold Config.hardSelector
  dsimp only at h ⊢
  by_cases hheader : trimSpace r.useUpstream ≠ ""
  · rw [if_pos hheader] at h ⊢
    rw [if_pos h]
  · have hempty := not_not.mp hheader
    rw [if_neg hheader] at h ⊢
    rw [hempty, if_neg (by rw [directiveSelector_empty]; decide), if_pos h]

theorem hardSelector_of_empty (h : upstreamDirective r = "") :
    cfg.hardSelector pool r = .parseSelector (cfg.rewriteClientPath pool r.url).2 := by
  unfold upstreamDirective at h
  dsimp only at h
  have hempty : trimSpace r.useUpstream = "" := by
    by_contra hheader
    rw [if_pos hheader] at h
    exact hheader h
  rw [if_neg (not_not.mpr hempty)] at h
  unfold Config.hardSelector
  dsimp only
  rw [hempty, h, if_neg (by rw [directiveSelector_empty]; decide), if_neg (by rw [directiveSelector_empty]; decide)]

theorem route_scope (url : URL) (clientUpstream ruleUpstream : String) :
    let routed := cfg.route pool sticky r url clientUpstream ruleUpstream
    routed.cacheScope = "" ∨ routed.required = .parseSelector routed.cacheScope ∨
      routed.cacheScope = ruleUpstream := by
  unfold Config.route
  dsimp only
  by_cases hd : upstreamDirective r ≠ ""
  · rw [if_pos hd]
    dsimp only
    rw [directiveSelector_string]
    exact Or.inr (Or.inl rfl)
  rw [if_neg hd]
  by_cases hrule : ruleUpstream ≠ ""
  · rw [if_pos hrule]
    exact Or.inr (Or.inr rfl)
  rw [if_neg hrule]
  by_cases hclient : clientUpstream ≠ ""
  · rw [if_pos hclient]
    dsimp only
    rw [Selector.parseSelector_string]
    exact Or.inr (Or.inl rfl)
  · rw [if_neg hclient]
    exact Or.inl rfl

theorem route_hard {ruleUpstream : String} (he : (cfg.hardSelector pool r).enabled = true)
    (hdirective : upstreamDirective r ≠ "" → (directiveSelector pool (upstreamDirective r)).enabled = true)
    (hrule : ruleUpstream ≠ "" → upstreamDirective r ≠ "") :
    (cfg.route pool sticky r (cfg.rewriteClientPath pool r.url).1
      (cfg.rewriteClientPath pool r.url).2 ruleUpstream).cacheScope =
        (cfg.hardSelector pool r).string := by
  unfold Config.route
  dsimp only
  by_cases hd : upstreamDirective r ≠ ""
  · rw [if_pos hd, hardSelector_of_directive (hdirective hd)]
  · rw [hardSelector_of_empty (not_not.mp hd)] at he ⊢
    have hnorule : ¬ ruleUpstream ≠ "" := fun h => hd (hrule h)
    have hclient : (cfg.rewriteClientPath pool r.url).2 ≠ "" := by
      intro hempty
      rw [hempty] at he
      exact absurd he (by decide)
    rw [if_neg hd, if_neg hnorule, if_pos hclient]

theorem admission_url {routed : Routed} (h : cfg.admission pool limits sticky r = .admitted routed) :
    routed.url = (cfg.rewriteClientPath pool r.url).1 := by
  rw [admission_routed h]
  exact route_url _ _ _

theorem admission_scope {routed : Routed} (h : cfg.admission pool limits sticky r = .admitted routed) :
    routed.cacheScope = "" ∨ routed.required = .parseSelector routed.cacheScope ∨
      routed.cacheScope = cfg.pinned routed.url.path := by
  rw [admission_url h, admission_routed h]
  exact route_scope _ _ _

theorem admission_hard {routed : Routed} (h : cfg.admission pool limits sticky r = .admitted routed)
    (he : (cfg.hardSelector pool r).enabled = true)
    (hdirective : upstreamDirective r ≠ "" → (directiveSelector pool (upstreamDirective r)).enabled = true)
    (hrule : cfg.pinned routed.url.path ≠ "" → upstreamDirective r ≠ "") :
    routed.cacheScope = (cfg.hardSelector pool r).string := by
  rw [admission_url h] at hrule
  rw [admission_routed h]
  exact route_hard he hdirective hrule

end Routing

namespace Server

structure Admitted (cfg : Config) (hard : Selector) (routed : Routed) : Prop where
  plain : PlainPath routed.url
  scope : routed.cacheScope = "" ∨ routed.required = .parseSelector routed.cacheScope ∨
    routed.cacheScope = cfg.pinned routed.url.path
  parsed : .parseSelector hard.string = hard
  hard : hard.enabled = true → routed.cacheScope = hard.string ∧
    cfg.pinned routed.url.path ≠ hard.string

def Proper (cfg : Config) (key : String) (o : Origin) : Prop :=
  ∀ (u : URL) (binary : Bool) (sel : Selector), PlainPath u → sel.enabled = true →
    .parseSelector sel.string = sel → cfg.pinned u.path ≠ sel.string →
    key = buildCacheKey cfg.id "GET" u binary sel.string → o.isMatch sel = true

structure FlightOK (cfg : Config) (f : Flight) : Prop where
  dispatched : f.call.required.enabled = true → ∀ o ∈ f.dispatches, o.isMatch f.call.required = true
  result : ∀ r, f.result = some (some r) → r.origin ∈ f.dispatches
  key : ∀ k, f.key = some k → ∃ t : Task, Admitted cfg t.hard t.routed ∧ k = cfg.dedupKey t ∧
    f.call.required = t.routed.required

def PhaseOK (cfg : Config) (flights : List Flight) (t : Task) : Phase → Prop
  | .wait j => ∃ f, flights[j]? = some f ∧ f.key = some (cfg.dedupKey t)
  | .respond r | .served r => Proper cfg (cfg.job t).key r.origin
  | _ => True

def WarmKey (cfg : Config) (key : String) (required : Selector) : Prop :=
  ∃ u binary scope, PlainPath u ∧ key = buildCacheKey cfg.id "GET" u binary scope ∧
    (scope ≠ "" → required = .parseSelector scope)

def WarmOK (cfg : Config) (flights : List Flight) (w : Warm) : Prop :=
  match w.phase with
  | .idle => True
  | .wait job j => ∃ f, flights[j]? = some f ∧ WarmKey cfg job.key f.call.required
  | .respond job r => Proper cfg job.key r.origin

structure Inv (cfg : Config) (s : Server) : Prop where
  tasks : ∀ t ∈ s.tasks, Admitted cfg t.hard t.routed ∧ PhaseOK cfg s.flights t t.phase
  flights : ∀ f ∈ s.flights, FlightOK cfg f
  warms : ∀ w ∈ s.warms, WarmOK cfg s.flights w
  store : ∀ e ∈ s.store.lru, Proper cfg e.key e.content.origin

/-- What a request or a step must meet for hard selectors to be kept apart. A request with an enabled selector has a
plain path and no directive that is disabled, and no route rule applies to one with a client path or pins one with a
directive to the very upstream that the directive names. An upstream that matched when a flight read the pool matches
when the flight dispatches to it. -/
def Isolated (cfg : Config) (s : Server) : Label → Prop
  | .request r limits sticky => ∀ routed, cfg.admission s.pool limits sticky r = .admitted routed →
      PlainPath routed.url ∧ ((cfg.hardSelector s.pool r).enabled = true →
        (upstreamDirective r ≠ "" → (directiveSelector s.pool (upstreamDirective r)).enabled = true) ∧
        (cfg.pinned routed.url.path ≠ "" → upstreamDirective r ≠ "" ∧
          cfg.pinned routed.url.path ≠ (cfg.hardSelector s.pool r).string))
  | .flight i (.dispatch u) => ∀ f, s.flights[i]? = some f → ∀ p ∈ f.pools,
      p.isMatch f.call.required u = true → s.pool.isMatch f.call.required u = true
  | .warm i .next => ∀ w key parsed url, s.warms[i]? = some w → w.keys.head? = some key →
      parseCacheKey key = some parsed → cfg.parseURL parsed.pathQuery = some url → PlainPath url
  | _ => True

section Invariant

variable {cfg : Config} {s s' : Server}

theorem Admitted.of_admission {limits : Limits} {sticky : String} {r : Request} {routed : Routed}
    (ha : cfg.admission s.pool limits sticky r = .admitted routed)
    (h : Isolated cfg s (.request r limits sticky)) :
    Admitted cfg (cfg.hardSelector s.pool r) routed := by
  obtain ⟨hplain, hselected⟩ := h routed ha
  have hhard : (cfg.hardSelector s.pool r).enabled = true →
      routed.cacheScope = (cfg.hardSelector s.pool r).string ∧
        cfg.pinned routed.url.path ≠ (cfg.hardSelector s.pool r).string := by
    intro he
    obtain ⟨hdirective, hrule⟩ := hselected he
    refine ⟨admission_hard ha he hdirective (fun hpinned => (hrule hpinned).1), ?_⟩
    by_cases hpinned : cfg.pinned routed.url.path = ""
    · rw [hpinned]
      exact (Selector.string_ne_empty he).symm
    · exact (hrule hpinned).2
  exact ⟨hplain, admission_scope ha, hardSelector_string s.pool r, hhard⟩

theorem FlightOK.proper {f : Flight} {t : Task} {r : Stored} (h : FlightOK cfg f)
    (ht : Admitted cfg t.hard t.routed) (hk : f.key = some (cfg.dedupKey t)) (hr : f.result = some (some r)) :
    Proper cfg (cfg.job t).key r.origin := by
  intro u binary sel hu he hparse hpinned hkey
  obtain ⟨t', ht', hk', hcall⟩ := h.key _ hk
  obtain ⟨hpath, hscope⟩ := dedupKey_inj ht.plain ht'.plain hk'
  obtain ⟨hpathu, hscopeu⟩ := buildCacheKey_inj ht.plain hu hkey
  have hscope' : t'.routed.cacheScope = sel.string := hscope.symm.trans hscopeu
  have hrequired : f.call.required = sel := by
    rw [hcall]
    rcases ht'.scope with hempty | hselector | hrule
    · exact absurd (hscope'.symm.trans hempty) (Selector.string_ne_empty he)
    · rw [hselector, hscope', hparse]
    · rw [← hpath, hpathu] at hrule
      exact absurd (hrule.symm.trans hscope') hpinned
  have hmatch := h.dispatched (hrequired ▸ he) r.origin (h.result r hr)
  rwa [hrequired] at hmatch

theorem FlightOK.properWarm {f : Flight} {key : String} {r : Stored} (h : FlightOK cfg f)
    (hw : WarmKey cfg key f.call.required) (hr : f.result = some (some r)) :
    Proper cfg key r.origin := by
  intro u binary sel hu he hparse hpinned hkey
  obtain ⟨v, binary', scope, hv, hbuilt, hrequired⟩ := hw
  have hscope := (buildCacheKey_inj hv hu (hbuilt.symm.trans hkey)).2
  have hsel : f.call.required = sel := by
    rw [hrequired (hscope ▸ Selector.string_ne_empty he), hscope, hparse]
  have hmatch := h.dispatched (hsel ▸ he) r.origin (h.result r hr)
  rwa [hsel] at hmatch

theorem FlightOK.step {f f' : Flight} {i : ℕ} {a : FlightStep} (h : FlightOK cfg f)
    (hi : s.flights[i]? = some f) (hs : f.step s a = some f') (hc : Isolated cfg s (.flight i a)) :
    FlightOK cfg f' ∧ f'.key = f.key ∧ f'.call = f.call := by
  cases a with
  | select =>
    simp only [Flight.step] at hs
    split_ifs at hs
    cases hs
    exact ⟨⟨h.dispatched, h.result, h.key⟩, rfl, rfl⟩
  | fail =>
    simp only [Flight.step] at hs
    split_ifs at hs
    cases hs
    exact ⟨⟨h.dispatched, nofun, h.key⟩, rfl, rfl⟩
  | finish d reply =>
    simp only [Flight.step] at hs
    split_ifs at hs
    obtain ⟨o, ho, rfl⟩ := Option.map_eq_some_iff.mp hs
    refine ⟨⟨h.dispatched, fun r hr => ?_, h.key⟩, rfl, rfl⟩
    cases hr
    exact List.mem_of_getElem? ho
  | dispatch u =>
    simp only [Flight.step] at hs
    split_ifs at hs with hmay
    cases hs
    simp only [not_or, Bool.not_eq_true, Bool.not_eq_false'] at hmay
    refine ⟨⟨fun he o ho => ?_, fun r hr => List.mem_append_left _ (h.result r hr), h.key⟩, rfl, rfl⟩
    rcases List.mem_append.mp ho with ho | ho
    · exact h.dispatched he o ho
    · rw [List.mem_singleton] at ho
      subst ho
      have he : f.call.required.enabled = true := he
      have hany : f.pools.any (fun p => p.isMatch f.call.required u) = true := by
        simpa [Flight.mayDispatch, he] using hmay.2
      obtain ⟨p, hp, hmatch⟩ := List.any_eq_true.mp hany
      exact hc f hi p hp hmatch

def Extends (fs fs' : List Flight) : Prop :=
  ∀ (j : ℕ) (f : Flight), fs[j]? = some f →
    ∃ f' : Flight, fs'[j]? = some f' ∧ f'.key = f.key ∧ f'.call = f.call

theorem extends_append (fs rest : List Flight) : Extends fs (fs ++ rest) := by
  intro j f hj
  have hlt := (List.getElem?_eq_some_iff.mp hj).1
  exact ⟨f, by rw [List.getElem?_append_left hlt, hj], rfl, rfl⟩

theorem extends_set {fs : List Flight} {i : ℕ} {f f' : Flight} (hi : fs[i]? = some f)
    (hk : f'.key = f.key) (hc : f'.call = f.call) : Extends fs (fs.set i f') := by
  intro j g hj
  by_cases hij : i = j
  · subst hij
    rw [hi, Option.some.injEq] at hj
    subst hj
    have hlt := (List.getElem?_eq_some_iff.mp hi).1
    exact ⟨f', List.getElem?_set_self hlt, hk, hc⟩
  · exact ⟨g, by rw [List.getElem?_set_ne hij, hj], rfl, rfl⟩

theorem PhaseOK.extend {fs fs' : List Flight} {t : Task} {phase : Phase}
    (h : PhaseOK cfg fs t phase) (he : Extends fs fs') : PhaseOK cfg fs' t phase := by
  cases phase with
  | wait j =>
    obtain ⟨f, hj, hk⟩ := h
    obtain ⟨f', hj', hk', -⟩ := he j f hj
    exact ⟨f', hj', hk'.trans hk⟩
  | respond r => exact h
  | served r => exact h
  | lookup => trivial
  | join => trivial
  | ended => trivial

theorem WarmOK.extend {fs fs' : List Flight} {w : Warm} (h : WarmOK cfg fs w) (he : Extends fs fs') :
    WarmOK cfg fs' w := by
  unfold WarmOK at h ⊢
  cases hp : w.phase <;> simp only [hp] at h ⊢
  case wait job j =>
    obtain ⟨f, hj, hkey⟩ := h
    obtain ⟨f', hj', -, hcall⟩ := he j f hj
    exact ⟨f', hj', hcall ▸ hkey⟩
  case respond job r => exact h

namespace Inv

theorem setFlights (h : Inv cfg s) {fs : List Flight} (he : Extends s.flights fs)
    (hok : ∀ f ∈ fs, FlightOK cfg f) : Inv cfg { s with flights := fs } :=
  ⟨fun t ht => ⟨(h.tasks t ht).1, (h.tasks t ht).2.extend he⟩, hok,
    fun w hw => (h.warms w hw).extend he, h.store⟩

theorem addFlight (h : Inv cfg s) {call : Call} {key : Option String}
    (hk : ∀ k, key = some k → ∃ t : Task, Admitted cfg t.hard t.routed ∧ k = cfg.dedupKey t ∧
      call.required = t.routed.required) : Inv cfg (s.addFlight call key) := by
  apply h.setFlights (extends_append _ _)
  intro f hf
  rcases List.mem_append.mp hf with hf | hf
  · exact h.flights f hf
  · rw [List.mem_singleton] at hf
    subst hf
    exact ⟨fun _ _ => nofun, nofun, hk⟩

theorem admitted (h : Inv cfg s) {i : ℕ} {t : Task} (hi : s.tasks[i]? = some t) :
    Admitted cfg t.hard t.routed :=
  (h.tasks t (List.mem_of_getElem? hi)).1

theorem addTask (h : Inv cfg s) {t : Task} (ht : Admitted cfg t.hard t.routed)
    (hp : PhaseOK cfg s.flights t t.phase) : Inv cfg { s with tasks := s.tasks ++ [t] } := by
  refine ⟨fun t' ht' => ?_, h.flights, h.warms, h.store⟩
  rcases List.mem_append.mp ht' with ht' | ht'
  · exact h.tasks t' ht'
  · rw [List.mem_singleton] at ht'
    subst ht'
    exact ⟨ht, hp⟩

theorem setPhase (h : Inv cfg s) {i : ℕ} {t : Task} {phase : Phase} (ht : Admitted cfg t.hard t.routed)
    (hp : PhaseOK cfg s.flights t phase) : Inv cfg (s.setPhase i t phase) := by
  refine ⟨fun t' ht' => ?_, h.flights, h.warms, h.store⟩
  rcases List.mem_or_eq_of_mem_set ht' with ht' | rfl
  · exact h.tasks t' ht'
  · exact ⟨ht, hp⟩

theorem setWarm (h : Inv cfg s) {i : ℕ} {w : Warm} (hw : WarmOK cfg s.flights w) :
    Inv cfg (s.setWarm i w) := by
  refine ⟨h.tasks, h.flights, fun w' hw' => ?_, h.store⟩
  rcases List.mem_or_eq_of_mem_set hw' with hw' | rfl
  · exact h.warms w' hw'
  · exact hw

theorem setStore (h : Inv cfg s) {store : MemoryStore Stored}
    (hs : ∀ e ∈ store.lru, ∃ e' ∈ s.store.lru, e.key = e'.key ∧ e.content = e'.content) :
    Inv cfg { s with store := store } := by
  refine ⟨h.tasks, h.flights, h.warms, fun e he => ?_⟩
  obtain ⟨e', he', hkey, hcontent⟩ := hs e he
  rw [hkey, hcontent]
  exact h.store e' he'

theorem looked (h : Inv cfg s) (key : String) (now : ℤ) :
    Inv cfg { s with store := (s.store.get key now).2 } :=
  h.setStore (fun e he => ⟨e, MemoryStore.mem_get he, rfl, rfl⟩)

theorem purge (h : Inv cfg s) {fn : String → Bool} {now : ℤ} {purges : List Purge}
    {warms : List Warm} (hw : ∀ w ∈ warms, w ∈ s.warms ∨ w.phase = .idle) :
    Inv cfg { s with
      store := (s.store.purgeCollect fn now).2, purges := purges, warms := warms } := by
  refine ⟨h.tasks, h.flights, fun w hin => ?_, fun e he => ?_⟩
  · rcases hw w hin with hold | hidle
    · exact h.warms w hold
    · rw [WarmOK, hidle]
      trivial
  · exact h.store e (MemoryStore.mem_purgeCollect he).1

theorem put (h : Inv cfg s) {now : ℤ} {job : Job} {r : Stored} (hr : Proper cfg job.key r.origin) :
    Inv cfg (s.put (cfg.entry s.pool now job r)) := by
  cases he : cfg.entry s.pool now job r with
  | none => exact h
  | some e =>
    obtain ⟨hkey, hcontent⟩ := entry_some he
    refine ⟨h.tasks, h.flights, h.warms, fun e' he' => ?_⟩
    rcases MemoryStore.mem_set he' with rfl | hold
    · rw [hkey, hcontent]
      exact hr
    · exact h.store e' hold

theorem responded (h : Inv cfg s) {i : ℕ} {t : Task} {r : Stored} (hi : s.tasks[i]? = some t)
    (hp : t.phase = .respond r) : Proper cfg (cfg.job t).key r.origin := by
  have hphase := (h.tasks t (List.mem_of_getElem? hi)).2
  rwa [hp] at hphase

theorem received (h : Inv cfg s) {i j : ℕ} {t : Task} {r : Stored} (hi : s.tasks[i]? = some t)
    (hp : t.phase = .wait j) (hr : s.resultOf j = some (some r)) :
    Proper cfg (cfg.job t).key r.origin := by
  have hphase := (h.tasks t (List.mem_of_getElem? hi)).2
  rw [hp] at hphase
  obtain ⟨f, hj, hk⟩ := hphase
  rw [resultOf, hj, Option.bind_some] at hr
  exact (h.flights f (List.mem_of_getElem? hj)).proper (h.admitted hi) hk hr

theorem warmReceived (h : Inv cfg s) {i j : ℕ} {w : Warm} {job : Job} {r : Stored}
    (hi : s.warms[i]? = some w) (hp : w.phase = .wait job j) (hr : s.resultOf j = some (some r)) :
    Proper cfg job.key r.origin := by
  have hphase := h.warms w (List.mem_of_getElem? hi)
  rw [WarmOK, hp] at hphase
  obtain ⟨f, hj, hkey⟩ := hphase
  rw [resultOf, hj, Option.bind_some] at hr
  exact (h.flights f (List.mem_of_getElem? hj)).properWarm hkey hr

end Inv

theorem prewarm_key {source key : String} {job : Job} {call : Call}
    (h : cfg.prewarm source key = some (job, call))
    (hplain : ∀ parsed url, parseCacheKey key = some parsed →
      cfg.parseURL parsed.pathQuery = some url → PlainPath url) :
    WarmKey cfg job.key call.required := by
  obtain ⟨parsed, hparsed, h⟩ := Option.bind_eq_some_iff.mp h
  split at h
  · cases h
  obtain ⟨policy, -, h⟩ := Option.bind_eq_some_iff.mp h
  obtain ⟨url, hurl, h⟩ := Option.bind_eq_some_iff.mp h
  cases h
  exact ⟨url, _, parsed.scope, hplain parsed url hparsed hurl, rfl, fun hscope => if_pos hscope⟩

theorem Inv.step (h : Inv cfg s) {l : Label} (hc : Isolated cfg s l) (hs : next cfg s l = some s') :
    Inv cfg s' := by
  cases next_cases hs with
  | ignored => exact h
  | request ha =>
    have hadmitted := Admitted.of_admission ha hc
    apply h.addTask
    · dsimp only
      exact hadmitted
    · trivial
  | flight hi hstep =>
    obtain ⟨hok, hkey, hcall⟩ := (h.flights _ (List.mem_of_getElem? hi)).step hi hstep hc
    apply h.setFlights (extends_set hi hkey hcall)
    intro f hf
    rcases List.mem_or_eq_of_mem_set hf with hf | rfl
    · exact h.flights f hf
    · exact hok
  | bypass now hi => exact h.setPhase (h.admitted hi) trivial
  | @hit i t now e hi hp hget =>
    have hentry := MemoryStore.get_entry hget
    have hproper : Proper cfg (cfg.job t).key e.content.origin := hentry.2 ▸ h.store e hentry.1
    exact (h.looked _ now).setPhase (h.admitted hi) hproper
  | miss hi => exact (h.looked _ _).setPhase (h.admitted hi) trivial
  | follow hi hp hj hk => exact h.setPhase (h.admitted hi) ⟨_, hj, hk⟩
  | @lead i t hi hp =>
    have hadd : Inv cfg (s.addFlight (cfg.call t) (some (cfg.dedupKey t))) := by
      apply h.addFlight
      intro k hk
      cases hk
      exact ⟨t, h.admitted hi, rfl, rfl⟩
    exact hadd.setPhase (h.admitted hi) ⟨_, List.getElem?_concat_length, rfl⟩
  | received hi hp hr => exact h.setPhase (h.admitted hi) (h.received hi hp hr)
  | ended hi => exact h.setPhase (h.admitted hi) trivial
  | stored now hi hp =>
    have hproper := h.responded hi hp
    exact (h.put hproper).setPhase (h.admitted hi) hproper
  | warmIdle keys seen hi => exact h.setWarm trivial
  | @warmFetched i w key keys job call hi hk hprewarm =>
    have hadd : Inv cfg (s.addFlight call none) := h.addFlight nofun
    have hplain : ∀ parsed url, parseCacheKey key = some parsed →
        cfg.parseURL parsed.pathQuery = some url → PlainPath url := by
      intro parsed url
      exact hc w key parsed url hi (by rw [hk]; rfl)
    exact hadd.setWarm ⟨_, List.getElem?_concat_length, prewarm_key hprewarm hplain⟩
  | warmReceived hi hp hr => exact h.setWarm (h.warmReceived hi hp hr)
  | @warmStored i w job r now hi hp =>
    have hproper := h.warms w (List.mem_of_getElem? hi)
    rw [WarmOK, hp] at hproper
    exact (h.put hproper).setWarm trivial
  | purged now hfn hw => exact h.purge hw
  | finalized epoch now p fn =>
    have hkeep : ∀ e ∈ (s.store.promoteIf fn now).lru,
        ∃ e' ∈ s.store.lru, e.key = e'.key ∧ e.content = e'.content :=
      fun e he => MemoryStore.mem_promoteIf he
    have hstore := h.setStore hkeep
    exact ⟨hstore.tasks, hstore.flights, hstore.warms, hstore.store⟩
  | pool => exact ⟨h.tasks, h.flights, h.warms, h.store⟩

theorem Inv.init (pool : Pool) (maxSize : ℤ) : Inv cfg (.init pool maxSize) where
  tasks := fun _ h => absurd h List.not_mem_nil
  flights := fun _ h => absurd h List.not_mem_nil
  warms := fun _ h => absurd h List.not_mem_nil
  store := fun _ h => absurd h List.not_mem_nil

def Selected (s : Server) : Prop :=
  ∀ t ∈ s.tasks, ∀ r, t.phase = .served r → t.hard.enabled = true → r.origin.isMatch t.hard = true

theorem Inv.selected (h : Inv cfg s) : Selected s := by
  intro t ht r hp he
  obtain ⟨hadmitted, hphase⟩ := h.tasks t ht
  obtain ⟨hscope, hpinned⟩ := hadmitted.hard he
  rw [hp] at hphase
  apply hphase t.routed.url (cfg.acceptBinary t.request) t.hard hadmitted.plain he hadmitted.parsed hpinned
  rw [← hscope]
  rfl

end Invariant

section Example

def versionRequest (useUpstream : String) : Request :=
  ⟨⟨"/eth/v1/node/version", "", []⟩, useUpstream, "", ""⟩

def primaryAndBackup : Pool := .allReady [⟨"primary", false⟩, ⟨"backup", false⟩]

def servedBy (useUpstream id : String) : List Label :=
  [.request (versionRequest useUpstream) ⟨true, true⟩ "", .task 0 (.lookup 0), .task 0 .join,
    .flight 0 .select, .flight 0 (.dispatch ⟨id, false⟩),
    .flight 0 (.finish 0 ⟨200, "application/json", "version"⟩), .task 0 .receive, .task 0 (.store 1)]

def thenCached : List Label :=
  [.request (versionRequest "primary") ⟨true, true⟩ "", .task 1 (.lookup 2)]

theorem versionRequest_isolated {s : Server} (hs : s.pool = primaryAndBackup) :
    Isolated (.caching []) s (.request (versionRequest "primary") ⟨true, true⟩ "") := by
  have hadmission : (Config.caching []).admission primaryAndBackup ⟨true, true⟩ "" (versionRequest "primary") =
      .admitted ⟨(versionRequest "primary").url, "", "primary", ⟨"primary", "", ""⟩⟩ := by decide +kernel
  intro routed ha
  rw [hs, hadmission] at ha
  cases ha
  refine ⟨⟨by decide, by decide⟩, fun _ => ⟨fun _ => ?_, fun hpinned => absurd rfl hpinned⟩⟩
  rw [hs]
  decide +kernel

def preferPrimary : Config := .caching [⟨⟨fun _ => true, some ["GET"]⟩, "primary", false⟩]

def primaryOpen : (e : Eff) → e.Answer
  | .pool _ => primaryAndBackup
  | .build _ => true
  | .acquire u => if u.id = "primary" then none else some 0
  | .send _ => .replied 200 .identity (.whole "version")
  | .retryDelay _ => false
  | .select _ => .done
  | .receive => ⟨⟨"", false⟩, ⟨none, .error .contextDone⟩⟩
  | .read _ _ | .close _ | .settle _ _ | .fire _ | .post _ | .drain _ => ()

end Example

end Server

end EBeacon.Network
