import EBeacon.Library.Sorting
import EBeacon.Network.Permitted

/-!
Responses are shared by requests at the same time and kept for later ones. Every response that is served is the answer
of an upstream to the path and query of the request.
-/

namespace EBeacon.Network

open Text Upstream Cache

section Keys

variable {u v : URL}

theorem PathThenQuery.eq {f : URL → String} (hf : PathThenQuery f) (hu : PlainPath u) (hv : PlainPath v)
    {x y : List Char} (hx : x = [] ∨ x.head? = some ':') (hy : y = [] ∨ y.head? = some ':')
    (h : (f u).toList ++ x = (f v).toList ++ y) : f u = f v := by
  have hcolon : ∀ {w : URL}, PlainPath w → ':' ∉ (f w).toList := by
    intro w hw
    obtain ⟨rest, heq, -, hrest⟩ := hf w
    rw [heq, hw.rooted, List.mem_append, not_or]
    exact ⟨hw.2, hrest⟩
  exact String.toList_injective (append_inj_of_notMem (hcolon hu) (hcolon hv) hx hy h).1

theorem pathAndQuery_of_dedupKey {d : Digest} (hu : PlainPath u) (hv : PlainPath v)
    {id method body body' scope scope' : String} {b b' : Bool}
    (h : dedupKey d id method u body scope b = dedupKey d id method v body' scope' b') :
    pathAndQueryForUpstream u = pathAndQueryForUpstream v := by
  have hlist := congrArg String.toList h
  simp only [dedupKey, String.toList_append, List.append_assoc, List.append_cancel_left_eq] at hlist
  have hhead : ∀ body scope b, (d.tag body).toList ++ tags ":scope=" b scope = [] ∨
      ((d.tag body).toList ++ tags ":scope=" b scope).head? = some ':' := by
    intro body scope b
    rcases d.tag_toList body with hb | hb
    · rw [hb]
      exact tags_head scopeMark b scope
    · rw [hb]
      exact Or.inr rfl
  exact PathThenQuery.eq pathAndQueryForUpstream_toList hu hv (hhead body scope b) (hhead body' scope' b') hlist

theorem pathAndQuery_of_buildCacheKey (hu : PlainPath u) (hv : PlainPath v) {id method scope scope' : String}
    {b b' : Bool} (h : buildCacheKey id method u b scope = buildCacheKey id method v b' scope') :
    pathAndQueryForCache u = pathAndQueryForCache v := by
  have hlist := congrArg String.toList h
  simp only [buildCacheKey, String.toList_append, List.append_assoc, List.append_cancel_left_eq] at hlist
  have hmark : ":upstream=".toList = ':' :: 'u' :: "pstream=".toList := rfl
  exact PathThenQuery.eq pathAndQueryForCache_toList hu hv (tags_head hmark b scope) (tags_head hmark b' scope') hlist

theorem encode_filter {q q' : List (String × String)} (p : String × String → Bool)
    (h : URL.encode q = URL.encode q') : URL.encode (q.filter p) = URL.encode (q'.filter p) := by
  have htotal : Std.Total (fun a b : String × String => a.1 ≤ b.1) := ⟨fun a b => String.le_total a.1 b.1⟩
  have htrans : IsTrans (String × String) (fun a b => a.1 ≤ b.1) := ⟨fun a b c hab hbc => String.le_trans hab hbc⟩
  have hsorted := congrArg (fun s : String => URL.parseQuery s.toList) h
  rw [URL.parseQuery_encode, URL.parseQuery_encode] at hsorted
  rw [← URL.encode_sorted, ← URL.encode_sorted (q'.filter p), ← Sorting.filter_insertionSort,
    ← Sorting.filter_insertionSort, hsorted]

theorem pathAndQueryForCache_of_upstream (hu : PlainPath u) (hv : PlainPath v)
    (h : pathAndQueryForUpstream u = pathAndQueryForUpstream v) : pathAndQueryForCache u = pathAndQueryForCache v := by
  have hcut : ∀ {w : URL}, PlainPath w → URL.cutAt '?' (pathAndQueryForUpstream w).toList =
      (w.escapedPath.toList, (URL.encode (forwardableQuery w)).toList) := by
    intro w hw
    have href : pathAndQueryForUpstream w = URL.reference w.escapedPath (forwardableQuery w) := by
      unfold pathAndQueryForUpstream
      rw [hw.rooted]
      rfl
    rw [href]
    exact URL.cutAt_reference w _
  have hparts := hcut hu
  rw [h, hcut hv, Prod.mk.injEq] at hparts
  have hpath : rootedPath u = rootedPath v := by
    rw [hu.rooted, hv.rooted]
    exact (String.toList_injective hparts.1).symm
  have hquery := (String.toList_injective hparts.2).symm
  have hcache : URL.encode (cacheQuery u) = URL.encode (cacheQuery v) := by
    unfold cacheQuery
    rw [hpath]
    split_ifs
    · rfl
    · exact encode_filter _ hquery
    · exact hquery
  rw [pathAndQueryForCache_eq, pathAndQueryForCache_eq, URL.reference, URL.reference, hcache, hpath]

end Keys

namespace Server

inductive Sends (cfg : Config) (tasks : List Task) (f : Flight) : URL → Prop
  | request {t : Task} (ht : t ∈ tasks) (hkey : f.key = some (cfg.dedupKey t)) (hcall : f.call = cfg.call t) :
      Sends cfg tasks f t.routed.url
  | prewarm {key : String} {job : Job} {u : URL} (hkey : f.key = none) (hsent : cfg.Prewarms key job f.call u) :
      Sends cfg tasks f u

def Fetches (cfg : Config) (s : Server) (f : Flight) (u : URL) : Prop :=
  ∃ v, Sends cfg s.tasks f v ∧ pathAndQueryForCache v = pathAndQueryForCache u

def Answers (cfg : Config) (s : Server) (r : Stored) (u : URL) : Prop :=
  ∃ f ∈ s.flights, f.result = some (some r) ∧ Fetches cfg s f u

def Awaits (cfg : Config) (s : Server) (j : ℕ) (u : URL) : Prop :=
  ∃ f, s.flights[j]? = some f ∧ Fetches cfg s f u

def PhaseMatched (cfg : Config) (s : Server) (u : URL) : Phase → Prop
  | .wait j => Awaits cfg s j u
  | .respond r => Answers cfg s r u
  | .served r => Answers cfg s r u
  | _ => True

def WarmMatched (cfg : Config) (s : Server) : WarmPhase → Prop
  | .idle => True
  | .wait job j => ∃ u binary scope, PlainPath u ∧ job.key = buildCacheKey cfg.id "GET" u binary scope ∧ Awaits cfg s j u
  | .respond job r =>
    ∃ u binary scope, PlainPath u ∧ job.key = buildCacheKey cfg.id "GET" u binary scope ∧ Answers cfg s r u

structure Matched (cfg : Config) (s : Server) : Prop where
  tasks : ∀ t ∈ s.tasks, PlainPath t.routed.url ∧ PhaseMatched cfg s t.routed.url t.phase
  flights : ∀ f ∈ s.flights, ∀ k, f.key = some k → ∃ t ∈ s.tasks, k = cfg.dedupKey t ∧ f.call = cfg.call t
  warms : ∀ w ∈ s.warms, WarmMatched cfg s w.phase
  store : ∀ e ∈ s.store.lru, ∃ u binary scope, PlainPath u ∧
    e.key = buildCacheKey cfg.id "GET" u binary scope ∧ Answers cfg s e.content u

section Growth

variable {cfg : Config} {s s' : Server}

structure Grows (s s' : Server) : Prop where
  tasks : ∀ t ∈ s.tasks, ∃ t' ∈ s'.tasks, t'.request = t.request ∧ t'.routed = t.routed
  flights : ∀ (j : ℕ) (f : Flight), s.flights[j]? = some f → ∃ f', s'.flights[j]? = some f' ∧ f'.key = f.key ∧
    f'.call = f.call ∧ ∀ r, f.result = some (some r) → f'.result = some (some r)

theorem Grows.of_eq (htasks : s'.tasks = s.tasks) (hflights : s'.flights = s.flights) : Grows s s' := by
  constructor
  · intro t ht
    exact ⟨t, htasks ▸ ht, rfl, rfl⟩
  · intro j f hj
    exact ⟨f, hflights ▸ hj, rfl, rfl, fun _ => id⟩

theorem Grows.setPhase {i : ℕ} {t : Task} (hi : s.tasks[i]? = some t) (phase : Phase) :
    Grows s (s.setPhase i t phase) := by
  have hlt := (List.getElem?_eq_some_iff.mp hi).1
  refine ⟨fun t' ht' => ?_, fun j f hj => ⟨f, hj, rfl, rfl, fun _ => id⟩⟩
  obtain ⟨j, hj⟩ := List.getElem?_of_mem ht'
  by_cases hij : i = j
  · subst hij
    rw [hi, Option.some.injEq] at hj
    subst hj
    exact ⟨_, List.mem_of_getElem? (List.getElem?_set_self hlt), rfl, rfl⟩
  · refine ⟨t', List.mem_of_getElem? (i := j) ?_, rfl, rfl⟩
    rw [Server.setPhase, List.getElem?_set_ne hij]
    exact hj

theorem Grows.addFlight (call : Call) (key : Option String) : Grows s (s.addFlight call key) := by
  refine ⟨fun t ht => ⟨t, ht, rfl, rfl⟩, fun j f hj => ?_⟩
  have hlt := (List.getElem?_eq_some_iff.mp hj).1
  exact ⟨f, by rw [Server.addFlight, List.getElem?_append_left hlt, hj], rfl, rfl, fun _ => id⟩

theorem Grows.trans {s'' : Server} (h : Grows s s') (h' : Grows s' s'') : Grows s s'' := by
  constructor
  · intro t ht
    obtain ⟨t', ht', hrequest, hrouted⟩ := h.tasks t ht
    obtain ⟨t'', ht'', hrequest', hrouted'⟩ := h'.tasks t' ht'
    exact ⟨t'', ht'', hrequest'.trans hrequest, hrouted'.trans hrouted⟩
  · intro j f hj
    obtain ⟨f', hj', hkey, hcall, hresult⟩ := h.flights j f hj
    obtain ⟨f'', hj'', hkey', hcall', hresult'⟩ := h'.flights j f' hj'
    exact ⟨f'', hj'', hkey'.trans hkey, hcall'.trans hcall, fun r hr => hresult' r (hresult r hr)⟩

theorem dedupKey_congr {t t' : Task} (hrequest : t'.request = t.request) (hrouted : t'.routed = t.routed) :
    cfg.dedupKey t' = cfg.dedupKey t := by
  unfold Config.dedupKey
  rw [hrequest, hrouted]

theorem call_congr {t t' : Task} (hrouted : t'.routed = t.routed) : cfg.call t' = cfg.call t := by
  unfold Config.call
  rw [hrouted]

theorem Fetches.grow (h : Grows s s') {f f' : Flight} {u : URL} (hkey : f'.key = f.key) (hcall : f'.call = f.call)
    (hf : Fetches cfg s f u) : Fetches cfg s' f' u := by
  obtain ⟨v, hsends, hsame⟩ := hf
  cases hsends with
  | @request t ht hled hledCall =>
    obtain ⟨t', ht', hrequest, hrouted⟩ := h.tasks t ht
    refine ⟨t'.routed.url, .request ht' ?_ ?_, by rw [hrouted]; exact hsame⟩
    · rw [hkey, hled, dedupKey_congr hrequest hrouted]
    · rw [hcall, hledCall, call_congr hrouted]
  | prewarm hwarm hsent => exact ⟨v, .prewarm (hkey.trans hwarm) (hcall ▸ hsent), hsame⟩

theorem Awaits.grow (h : Grows s s') {j : ℕ} {u : URL} (hj : Awaits cfg s j u) : Awaits cfg s' j u := by
  obtain ⟨f, hf, hfetches⟩ := hj
  obtain ⟨f', hf', hkey, hcall, -⟩ := h.flights j f hf
  exact ⟨f', hf', hfetches.grow h hkey hcall⟩

theorem Answers.grow (h : Grows s s') {r : Stored} {u : URL} (hr : Answers cfg s r u) : Answers cfg s' r u := by
  obtain ⟨f, hf, hresult, hfetches⟩ := hr
  obtain ⟨j, hj⟩ := List.getElem?_of_mem hf
  obtain ⟨f', hf', hkey, hcall, hkeeps⟩ := h.flights j f hj
  exact ⟨f', List.mem_of_getElem? hf', hkeeps r hresult, hfetches.grow h hkey hcall⟩

theorem PhaseMatched.grow (h : Grows s s') {u : URL} {phase : Phase} (hphase : PhaseMatched cfg s u phase) :
    PhaseMatched cfg s' u phase := by
  cases phase with
  | wait j => exact Awaits.grow h hphase
  | respond r => exact Answers.grow h hphase
  | served r => exact Answers.grow h hphase
  | lookup => trivial
  | join => trivial
  | ended => trivial

theorem WarmMatched.grow (h : Grows s s') {phase : WarmPhase} (hphase : WarmMatched cfg s phase) :
    WarmMatched cfg s' phase := by
  cases phase with
  | idle => trivial
  | wait job j =>
    obtain ⟨u, binary, scope, hplain, hkey, hawaits⟩ := hphase
    exact ⟨u, binary, scope, hplain, hkey, hawaits.grow h⟩
  | respond job r =>
    obtain ⟨u, binary, scope, hplain, hkey, hanswers⟩ := hphase
    exact ⟨u, binary, scope, hplain, hkey, hanswers.grow h⟩

theorem Awaits.answers {j : ℕ} {u : URL} {r : Stored} (h : Awaits cfg s j u) (hr : s.resultOf j = some (some r)) :
    Answers cfg s r u := by
  obtain ⟨f, hf, hfetches⟩ := h
  rw [resultOf, hf, Option.bind_some] at hr
  exact ⟨f, List.mem_of_getElem? hf, hr, hfetches⟩

theorem Answers.congr {r : Stored} {u v : URL} (h : Answers cfg s r u)
    (hsame : pathAndQueryForCache u = pathAndQueryForCache v) : Answers cfg s r v := by
  obtain ⟨f, hf, hresult, w, hsends, hw⟩ := h
  exact ⟨f, hf, hresult, w, hsends, hw.trans hsame⟩

end Growth

def PlainForm (escapedPath : String) : Prop := escapedPath ≠ "" ∧ ':' ∉ escapedPath.toList

theorem PlainForm.unmarked {escapedPath : String} (h : PlainForm escapedPath) : Unmarked escapedPath := by
  have hfree : ∀ m : Mark ':', ¬ m.word <:+: escapedPath.toList :=
    fun m hin => h.2 (hin.subset List.mem_cons_self)
  rw [Unmarked, Network.unmarked, Bool.and_eq_true, Bool.not_eq_true', Bool.not_eq_true', ← Bool.not_eq_true,
    ← Bool.not_eq_true, contains_iff acceptMark rfl, contains_iff upstreamMark rfl]
  exact ⟨hfree acceptMark, hfree upstreamMark⟩

theorem PlainForm.plainPath {u : URL} (h : PlainForm u.escapedPath) : PlainPath u := by
  refine ⟨fun hempty => h.1 ?_, h.2⟩
  by_contra hne
  have hdecode := URL.unescape_escapedPath u
  rw [hempty] at hdecode
  exact Percent.unescape_ne_nil (fun hnil => hne (String.toList_eq_nil_iff.mp hnil)) hdecode

section Steps

variable {cfg : Config} {s s' : Server}

namespace Matched

theorem plain (h : Matched cfg s) {i : ℕ} {t : Task} (hi : s.tasks[i]? = some t) : PlainPath t.routed.url :=
  (h.tasks t (List.mem_of_getElem? hi)).1

theorem phase (h : Matched cfg s) {i : ℕ} {t : Task} (hi : s.tasks[i]? = some t) :
    PhaseMatched cfg s t.routed.url t.phase :=
  (h.tasks t (List.mem_of_getElem? hi)).2

theorem grow (h : Matched cfg s) (hg : Grows s s')
    (htasks : ∀ t ∈ s'.tasks, t ∈ s.tasks ∨ PlainPath t.routed.url ∧ PhaseMatched cfg s' t.routed.url t.phase)
    (hflights : ∀ f ∈ s'.flights, (∃ f₀ ∈ s.flights, f.key = f₀.key ∧ f.call = f₀.call) ∨
      ∀ k, f.key = some k → ∃ t ∈ s'.tasks, k = cfg.dedupKey t ∧ f.call = cfg.call t)
    (hwarms : ∀ w ∈ s'.warms, w ∈ s.warms ∨ WarmMatched cfg s' w.phase)
    (hstore : ∀ e ∈ s'.store.lru, (∃ e₀ ∈ s.store.lru, e.key = e₀.key ∧ e.content = e₀.content) ∨
      ∃ u binary scope, PlainPath u ∧ e.key = buildCacheKey cfg.id "GET" u binary scope ∧
        Answers cfg s' e.content u) : Matched cfg s' := by
  refine ⟨fun t ht => ?_, fun f hf k hk => ?_, fun w hw => ?_, fun e he => ?_⟩
  · rcases htasks t ht with hold | hnew
    · exact ⟨(h.tasks t hold).1, (h.tasks t hold).2.grow hg⟩
    · exact hnew
  · rcases hflights f hf with ⟨f₀, hf₀, hkey, hcall⟩ | hnew
    · obtain ⟨t, ht, hkt, hct⟩ := h.flights f₀ hf₀ k (hkey ▸ hk)
      obtain ⟨t', ht', hrequest, hrouted⟩ := hg.tasks t ht
      refine ⟨t', ht', ?_, ?_⟩
      · rw [hkt, dedupKey_congr hrequest hrouted]
      · rw [hcall, hct, call_congr hrouted]
    · exact hnew k hk
  · rcases hwarms w hw with hold | hnew
    · exact (h.warms w hold).grow hg
    · exact hnew
  · rcases hstore e he with ⟨e₀, he₀, hkey, hcontent⟩ | hnew
    · obtain ⟨u, binary, scope, hplain, hbuild, hanswers⟩ := h.store e₀ he₀
      refine ⟨u, binary, scope, hplain, hkey.trans hbuild, ?_⟩
      rw [hcontent]
      exact hanswers.grow hg
    · exact hnew

theorem setPhase (h : Matched cfg s) {i : ℕ} {t : Task} {phase : Phase} (hi : s.tasks[i]? = some t)
    (hphase : PhaseMatched cfg s t.routed.url phase) : Matched cfg (s.setPhase i t phase) := by
  have hg := Grows.setPhase hi phase
  have hplain := h.plain hi
  refine h.grow hg (fun t' ht' => ?_) (fun f hf => Or.inl ⟨f, hf, rfl, rfl⟩) (fun w => Or.inl)
    (fun e he => Or.inl ⟨e, he, rfl, rfl⟩)
  rcases List.mem_or_eq_of_mem_set ht' with ht' | rfl
  · exact Or.inl ht'
  · exact Or.inr ⟨hplain, hphase.grow hg⟩

theorem addFlight (h : Matched cfg s) {call : Call} {key : Option String}
    (hkey : ∀ k, key = some k → ∃ t ∈ s.tasks, k = cfg.dedupKey t ∧ call = cfg.call t) :
    Matched cfg (s.addFlight call key) := by
  refine h.grow (.addFlight call key) (fun t => Or.inl) (fun f hf => ?_) (fun w => Or.inl)
    (fun e he => Or.inl ⟨e, he, rfl, rfl⟩)
  rcases List.mem_append.mp hf with hf | hf
  · exact Or.inl ⟨f, hf, rfl, rfl⟩
  · rw [List.mem_singleton.mp hf]
    exact Or.inr hkey

theorem setWarms (h : Matched cfg s) {warms : List Warm}
    (hw : ∀ w ∈ warms, w ∈ s.warms ∨ WarmMatched cfg s w.phase) : Matched cfg { s with warms := warms } := by
  have hg : Grows s { s with warms := warms } := .of_eq rfl rfl
  refine h.grow hg (fun t => Or.inl) (fun f hf => Or.inl ⟨f, hf, rfl, rfl⟩) (fun w hin => ?_)
    (fun e he => Or.inl ⟨e, he, rfl, rfl⟩)
  exact (hw w hin).imp_right (·.grow hg)

theorem setWarm (h : Matched cfg s) {i : ℕ} {w : Warm} (hw : WarmMatched cfg s w.phase) :
    Matched cfg (s.setWarm i w) := by
  refine h.setWarms (fun w' hw' => ?_)
  rcases List.mem_or_eq_of_mem_set hw' with hw' | rfl
  · exact Or.inl hw'
  · exact Or.inr hw

theorem setStore (h : Matched cfg s) (store : MemoryStore Stored) (pool : Pool) (purges : List Purge)
    (hstore : ∀ e ∈ store.lru, (∃ e₀ ∈ s.store.lru, e.key = e₀.key ∧ e.content = e₀.content) ∨
      ∃ u binary scope, PlainPath u ∧ e.key = buildCacheKey cfg.id "GET" u binary scope ∧
        Answers cfg s e.content u) :
    Matched cfg { s with pool := pool, store := store, purges := purges } := by
  have hg : Grows s { s with pool := pool, store := store, purges := purges } := .of_eq rfl rfl
  refine h.grow hg (fun t => Or.inl) (fun f hf => Or.inl ⟨f, hf, rfl, rfl⟩) (fun w => Or.inl) (fun e he => ?_)
  refine (hstore e he).imp_right ?_
  rintro ⟨u, binary, scope, hplain, hkey, hanswers⟩
  exact ⟨u, binary, scope, hplain, hkey, hanswers.grow hg⟩

theorem looked (h : Matched cfg s) (key : String) (now : ℤ) :
    Matched cfg { s with store := (s.store.get key now).2 } :=
  h.setStore _ s.pool s.purges (fun e he => Or.inl ⟨e, MemoryStore.mem_get he, rfl, rfl⟩)

theorem put (h : Matched cfg s) (now : ℤ) {job : Job} {r : Stored} {u : URL} {binary : Bool} {scope : String}
    (hplain : PlainPath u) (hkey : job.key = buildCacheKey cfg.id "GET" u binary scope) (hr : Answers cfg s r u) :
    Matched cfg (s.put (cfg.entry s.pool now job r)) := by
  cases hentry : cfg.entry s.pool now job r with
  | none => exact h
  | some e =>
    obtain ⟨hkeyEntry, hcontent⟩ := entry_some hentry
    refine h.setStore _ s.pool s.purges (fun e' he' => ?_)
    rcases MemoryStore.mem_set he' with rfl | hold
    · refine Or.inr ⟨u, binary, scope, hplain, hkeyEntry.trans hkey, ?_⟩
      rw [hcontent]
      exact hr
    · exact Or.inl ⟨e', hold, rfl, rfl⟩

theorem flight (h : Matched cfg s) {i : ℕ} {f f' : Flight} {a : FlightStep} (hi : s.flights[i]? = some f)
    (hstep : f.step s a = some f') : Matched cfg { s with flights := s.flights.set i f' } := by
  obtain ⟨hkey, hcall, hopen⟩ := flight_step hstep
  have hlt := (List.getElem?_eq_some_iff.mp hi).1
  have hg : Grows s { s with flights := s.flights.set i f' } := by
    refine ⟨fun t ht => ⟨t, ht, rfl, rfl⟩, fun j g hj => ?_⟩
    by_cases hij : i = j
    · subst hij
      rw [hi, Option.some.injEq] at hj
      subst hj
      refine ⟨f', List.getElem?_set_self hlt, hkey, hcall, fun r hr => ?_⟩
      rw [hr] at hopen
      cases hopen
    · exact ⟨g, by rw [List.getElem?_set_ne hij, hj], rfl, rfl, fun _ => id⟩
  refine h.grow hg (fun t => Or.inl) (fun g hin => ?_) (fun w => Or.inl) (fun e he => Or.inl ⟨e, he, rfl, rfl⟩)
  rcases List.mem_or_eq_of_mem_set hin with hin | rfl
  · exact Or.inl ⟨g, hin, rfl, rfl⟩
  · exact Or.inl ⟨f, List.mem_of_getElem? hi, hkey, hcall⟩

theorem follows (h : Matched cfg s) {i j : ℕ} {t : Task} {f : Flight} (hi : s.tasks[i]? = some t)
    (hj : s.flights[j]? = some f) (hk : f.key = some (cfg.dedupKey t)) : Awaits cfg s j t.routed.url := by
  obtain ⟨leader, hleader, hkey, hcall⟩ := h.flights f (List.mem_of_getElem? hj) _ hk
  have hplain := (h.tasks leader hleader).1
  have hsent := pathAndQuery_of_dedupKey (h.plain hi) hplain hkey
  refine ⟨f, hj, leader.routed.url, .request hleader (hk.trans (congrArg some hkey)) hcall, ?_⟩
  exact (pathAndQueryForCache_of_upstream (h.plain hi) hplain hsent).symm

theorem cached (h : Matched cfg s) {i : ℕ} {t : Task} {e : Entry Stored} (hi : s.tasks[i]? = some t)
    (he : e ∈ s.store.lru) (hkey : e.key = (cfg.job t).key) : Answers cfg s e.content t.routed.url := by
  obtain ⟨u, binary, scope, hplain, hbuild, hanswers⟩ := h.store e he
  exact hanswers.congr (pathAndQuery_of_buildCacheKey hplain (h.plain hi) (hbuild.symm.trans hkey))

end Matched

end Steps

section Invariant

variable {F : Type} {qv : QValues F} {authority : List Char → Bool} {cfg : Config} {s s' : Server}

theorem Matched.step (hcfg : cfg.Standard qv authority) (hp : Permitted cfg PlainForm s) (h : Matched cfg s)
    {l : Label} (hl : Formed cfg PlainForm s l) (hs : next cfg s l = some s') : Matched cfg s' := by
  cases next_cases hs with
  | ignored => exact h
  | @request r limits sticky routed ha =>
    have hplain : PlainPath routed.url := (hl routed ha).2.plainPath
    refine h.grow ⟨fun t ht => ⟨t, List.mem_append_left _ ht, rfl, rfl⟩, fun j f hj => ⟨f, hj, rfl, rfl, fun _ => id⟩⟩
      (fun t ht => ?_) (fun f hf => Or.inl ⟨f, hf, rfl, rfl⟩) (fun w => Or.inl) (fun e he => Or.inl ⟨e, he, rfl, rfl⟩)
    rcases List.mem_append.mp ht with ht | ht
    · exact Or.inl ht
    · rw [List.mem_singleton.mp ht]
      exact Or.inr ⟨hplain, trivial⟩
  | flight hi hstep => exact h.flight hi hstep
  | bypass now hi => exact h.setPhase hi trivial
  | @hit i t now e hi hphase hget =>
    have hentry := MemoryStore.get_entry hget
    have hg : Grows s { s with store := (s.store.get (cfg.job t).key now).2 } := .of_eq rfl rfl
    exact (h.looked _ now).setPhase hi ((h.cached hi hentry.1 hentry.2).grow hg)
  | miss hi => exact (h.looked _ _).setPhase hi trivial
  | follow hi hphase hj hk => exact h.setPhase hi (h.follows hi hj hk)
  | @lead i t hi hphase =>
    have ht := List.mem_of_getElem? hi
    have hadd : Matched cfg (s.addFlight (cfg.call t) (some (cfg.dedupKey t))) := by
      apply h.addFlight
      rintro k hk
      cases hk
      exact ⟨t, ht, rfl, rfl⟩
    exact hadd.setPhase hi ⟨_, List.getElem?_concat_length, t.routed.url, .request ht rfl rfl, rfl⟩
  | @received i j t r hi hphase hr =>
    have hawaits := h.phase hi
    rw [hphase] at hawaits
    exact h.setPhase hi (Awaits.answers hawaits hr)
  | ended hi => exact h.setPhase hi trivial
  | @stored i t r now hi hphase =>
    have hanswers := h.phase hi
    rw [hphase] at hanswers
    have hput := h.put now (h.plain hi) (rfl : (cfg.job t).key = _) hanswers
    obtain ⟨store, heq⟩ := put_eq s (cfg.entry s.pool now (cfg.job t) r)
    rw [heq] at hput ⊢
    exact hput.setPhase hi (Answers.grow (.of_eq rfl rfl) hanswers)
  | warmIdle keys seen hi => exact h.setWarm trivial
  | @warmFetched i w key keys job call hi hk hprewarm =>
    have hkey := (hp.warms w (List.mem_of_getElem? hi)).keys key (by rw [hk]; exact List.mem_cons_self)
    obtain ⟨v, hopen, hsent⟩ := prewarm_open hcfg hkey hprewarm
    obtain ⟨binary, scope, hjob⟩ := hsent.key
    have hadd : Matched cfg (s.addFlight call none) := h.addFlight nofun
    exact hadd.setWarm
      ⟨v, binary, scope, hopen.form.plainPath, hjob, _, List.getElem?_concat_length, v, .prewarm rfl hsent, rfl⟩
  | @warmReceived i j w job r hi hphase hr =>
    have hwarm := h.warms w (List.mem_of_getElem? hi)
    rw [hphase] at hwarm
    obtain ⟨u, binary, scope, hplain, hkey, hawaits⟩ := hwarm
    exact h.setWarm ⟨u, binary, scope, hplain, hkey, hawaits.answers hr⟩
  | @warmStored i w job r now hi hphase =>
    have hwarm := h.warms w (List.mem_of_getElem? hi)
    rw [hphase] at hwarm
    obtain ⟨u, binary, scope, hplain, hkey, hanswers⟩ := hwarm
    exact (h.put now hplain hkey hanswers).setWarm trivial
  | @purged l p fn warms now hfn hw =>
    have hpurged := h.setStore (s.store.purgeCollect fn now).2 s.pool (s.purges ++ [p])
      (fun e he => Or.inl ⟨e, (MemoryStore.mem_purgeCollect he).1, rfl, rfl⟩)
    refine hpurged.setWarms (fun w hin => (hw w hin).imp_right (fun hidle => ?_))
    rw [hidle]
    trivial
  | finalized epoch now p fn =>
    exact h.setStore _ p s.purges (fun e he => Or.inl (MemoryStore.mem_promoteIf he))
  | pool l p => exact h.setStore _ p s.purges (fun e he => Or.inl ⟨e, he, rfl, rfl⟩)

theorem Matched.init (pool : Pool) (maxSize : ℤ) : Matched cfg (.init pool maxSize) where
  tasks := fun _ h => absurd h List.not_mem_nil
  flights := fun _ h => absurd h List.not_mem_nil
  warms := fun _ h => absurd h List.not_mem_nil
  store := fun _ h => absurd h List.not_mem_nil

/-- Fetched, shared or cached, every response that is served is the result of a flight whose path and query are, as
the cache reads them, those of the request. -/
theorem served_matches (hcfg : cfg.Standard qv authority) (pool : Pool) (maxSize : ℤ) (labels : List Label)
    (h : Runs.Along (next cfg) (Formed cfg PlainForm) (.init pool maxSize) labels) :
    Runs.Throughout (next cfg) (fun s => ∀ t ∈ s.tasks, ∀ r, t.phase = .served r →
      ∃ f ∈ s.flights, f.result = some (some r) ∧ ∃ u, Sends cfg s.tasks f u ∧
        pathAndQueryForCache u = pathAndQueryForCache t.routed.url) (.init pool maxSize) labels := by
  have hinv : Runs.Throughout (next cfg) (fun s => Permitted cfg PlainForm s ∧ Matched cfg s) (.init pool maxSize)
      labels :=
    Runs.throughout_of_along (fun _ _ _ hi hs hc =>
      ⟨hi.1.step hcfg (fun _ hform => hform.unmarked) hc hs, hi.2.step hcfg hi.1 hc hs⟩)
      ⟨.init pool maxSize, .init pool maxSize⟩ h
  refine hinv.mono (fun s hi t ht r hserved => ?_)
  have hphase := (hi.2.tasks t ht).2
  rw [hserved] at hphase
  exact hphase

def askedTwice : List Label :=
  asked "/eth/v1/beacon/blocks/head" ++
    [.flight 0 (.dispatch ⟨"node", false⟩), .flight 0 (.finish 0 ⟨200, "application/json", ""⟩), .task 0 .receive,
      .task 0 (.store 0), .request ⟨⟨"/eth/v1/beacon/blocks/head", "", []⟩, "", "", ""⟩ ⟨true, true⟩ "",
      .task 1 (.lookup 1)]

theorem asked_formed {s : Server} (hs : s.pool = oneNode) :
    Formed headBlocked PlainForm s (.request ⟨⟨"/eth/v1/beacon/blocks/head", "", []⟩, "", "", ""⟩ ⟨true, true⟩ "") := by
  intro routed hrouted
  rw [hs] at hrouted
  rw [admission_url hrouted, PlainForm]
  exact ⟨Or.inr (Or.inr (by decide +kernel)), by decide +kernel, by decide +kernel⟩

theorem served_matches_twice :
    (Runs.exec (next headBlocked) (.init oneNode 10) askedTwice).isSome = true ∧
      Runs.Throughout (next headBlocked) (fun s => ∀ t ∈ s.tasks, ∀ r, t.phase = .served r →
        ∃ f ∈ s.flights, f.result = some (some r) ∧ ∃ u, Sends headBlocked s.tasks f u ∧
          pathAndQueryForCache u = pathAndQueryForCache t.routed.url) (.init oneNode 10) askedTwice := by
  refine ⟨by decide +kernel, served_matches headBlocked_standard oneNode 10 _ ?_⟩
  apply Runs.along_cons rfl (asked_formed rfl)
  apply Runs.along_cons rfl trivial
  apply Runs.along_cons rfl trivial
  apply Runs.along_cons rfl trivial
  apply Runs.along_cons rfl trivial
  apply Runs.along_cons rfl trivial
  apply Runs.along_cons rfl trivial
  apply Runs.along_cons rfl (asked_formed rfl)
  exact Runs.along_cons rfl trivial trivial

end Invariant

end Server

end EBeacon.Network
