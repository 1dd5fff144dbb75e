import EBeacon.Library.Runs
import EBeacon.Upstream.PoolHeads

/-!
The finalized epochs that instances share through Redis. Goroutines of any number of instances are
inside `UpdateFinalizedEpoch`, `StartStateSync`, `PublishFinalized` and `GetFinalized`, and their
loads, swaps, locked sections and Redis commands interleave.
-/

namespace EBeacon.State

open Upstream

inductive Point
  | check (seed : Bool) (epoch : UInt64)
  | load (seed : Bool) (epoch : UInt64)
  | swap (seed : Bool) (epoch old : UInt64)
  | reload
  | skip (epoch : UInt64)
  | script (epoch : UInt64)
  | record (epoch : UInt64)
  | get (seed : Bool)
  | merge (seed : Bool) (remote : UInt64)
  | finished
  deriving DecidableEq, Repr

abbrev Site (ι : Type) := ι × String

structure FinalityCall (ι : Type) where
  site : Site ι
  point : Point

/-- The finality of a cluster. A pool is listed under its `networkID`, and an absent key or map
entry is 0. `offered` and `published` are history: the plausible epochs offered to each pool, and
the epochs of the calls of `PublishFinalized` that returned without a script error. -/
structure Finality (ι : Type) where
  pools : Site ι → PoolHeads
  finalized : Site ι → UInt64
  redis : String → UInt64
  calls : List (FinalityCall ι)
  offered : Site ι → List UInt64
  published : List (String × UInt64)

inductive Reply
  | answered
  | lost
  | unanswered
  deriving DecidableEq, Repr

inductive FinalityStep (ι : Type)
  | updateFinalizedEpoch (site : Site ι) (epoch : UInt64)
  | publishFinalized (site : Site ι) (epoch : UInt64)
  | getFinalized (site : Site ι)
  | startStateSync (site : Site ι)
  | track (site : Site ι) (blockCache : BlockCache)
  | step (k : ℕ) (now : Int64) (reply : Reply)

def finalizedEpochScript (cur epoch : UInt64) : UInt64 := if epoch > cur then epoch else cur

namespace Finality

variable {ι : Type} [DecidableEq ι]

def start (pools : Site ι → PoolHeads) (redis : String → UInt64) : Finality ι where
  pools := pools
  finalized := fun _ => 0
  redis := redis
  calls := []
  offered := fun _ => []
  published := []

def setPool (s : Finality ι) (site : Site ι) (p : PoolHeads) : Finality ι :=
  { s with pools := Function.update s.pools site p }

def setRedis (s : Finality ι) (network : String) (epoch : UInt64) : Finality ι :=
  { s with redis := Function.update s.redis network epoch }

def offer (s : Finality ι) (site : Site ι) (epoch : UInt64) : Finality ι :=
  { s with offered := Function.update s.offered site (epoch :: s.offered site) }

def raiseFinalized (s : Finality ι) (site : Site ι) (epoch : UInt64) : Finality ι :=
  { s with finalized :=
      if epoch > s.finalized site then Function.update s.finalized site epoch else s.finalized }

def returned (s : Finality ι) (network : String) (epoch : UInt64) : Finality ι :=
  { s with published := (network, epoch) :: s.published }

def merged (seed : Bool) : Point := if seed then .finished else .reload

def act (s : Finality ι) (site : Site ι) (now : Int64) (reply : Reply) : Point → Finality ι × Point
  | .check seed epoch =>
    if (s.pools site).plausibleFinalizedEpoch now epoch then (s.offer site epoch, .load seed epoch)
    else (s, merged seed)
  | .load seed epoch =>
    let old := (s.pools site).finalizedEpoch
    (s, if epoch ≤ old then merged seed else .swap seed epoch old)
  | .swap seed epoch old =>
    if (s.pools site).finalizedEpoch = old then
      (s.setPool site { s.pools site with finalizedEpoch := epoch }, merged seed)
    else (s, .load seed epoch)
  | .reload =>
    let merged := (s.pools site).finalizedEpoch
    (s, if (s.pools site).sharedState ∧ merged > 0 then .skip merged else .finished)
  | .skip epoch =>
    if epoch ≤ s.finalized site then (s.returned site.2 epoch, .finished) else (s, .script epoch)
  | .script epoch =>
    let written := s.setRedis site.2 (finalizedEpochScript (s.redis site.2) epoch)
    match reply with
    | .answered => (written, .record epoch)
    | .lost => (s, .finished)
    | .unanswered => (written, .finished)
  | .record epoch => ((s.raiseFinalized site epoch).returned site.2 epoch, .finished)
  | .get seed => (s, .merge seed (if reply = .answered then s.redis site.2 else 0))
  | .merge seed remote =>
    let s := s.raiseFinalized site remote
    (s, if seed then .check true (s.finalized site) else .finished)
  | .finished => (s, .finished)

def call (s : Finality ι) (site : Site ι) (point : Point) : Finality ι :=
  { s with calls := s.calls ++ [⟨site, point⟩] }

def next (s : Finality ι) : FinalityStep ι → Option (Finality ι)
  | .updateFinalizedEpoch site epoch => some (s.call site (.check false epoch))
  | .publishFinalized site epoch => some (s.call site (.skip epoch))
  | .getFinalized site => some (s.call site (.get false))
  | .startStateSync site =>
    some (if (s.pools site).sharedState then s.call site (.get true) else s)
  | .track site blockCache =>
    some (s.setPool site { s.pools site with blockCache := blockCache })
  | .step k now reply =>
    match s.calls[k]? with
    | none => none
    | some c =>
      let result := s.act c.site now reply c.point
      some { result.1 with calls := s.calls.set k ⟨c.site, result.2⟩ }

end Finality

def Point.Merging (e : UInt64) : Point → Prop
  | .load _ epoch => epoch = e
  | .swap _ epoch _ => epoch = e
  | _ => False

namespace Finality

variable {ι : Type}

def Fits (s : Finality ι) (site : Site ι) : Point → Prop
  | .load _ epoch => epoch ∈ s.offered site
  | .swap _ epoch old => epoch ∈ s.offered site ∧ old < epoch
  | .record epoch => epoch ≤ s.redis site.2
  | .merge _ remote => remote ≤ s.redis site.2
  | _ => True

structure Grows (s t : Finality ι) : Prop where
  pools : ∀ site, (s.pools site).finalizedEpoch ≤ (t.pools site).finalizedEpoch
  redis : ∀ network, s.redis network ≤ t.redis network
  offered : ∀ site, s.offered site ⊆ t.offered site

theorem Grows.refl (s : Finality ι) : Grows s s :=
  ⟨fun _ => UInt64.le_refl _, fun _ => UInt64.le_refl _, fun _ _ h => h⟩

theorem Grows.trans {s t u : Finality ι} (h : Grows s t) (h' : Grows t u) : Grows s u where
  pools site := UInt64.le_trans (h.pools site) (h'.pools site)
  redis network := UInt64.le_trans (h.redis network) (h'.redis network)
  offered site := fun _ he => h'.offered site (h.offered site he)

theorem Fits.mono {s t : Finality ι} (h : Grows s t) {site : Site ι} {point : Point}
    (hp : s.Fits site point) : t.Fits site point := by
  cases point with
  | load seed epoch => exact h.offered site hp
  | swap seed epoch old => exact ⟨h.offered site hp.1, hp.2⟩
  | record epoch => exact UInt64.le_trans hp (h.redis site.2)
  | merge seed remote => exact UInt64.le_trans hp (h.redis site.2)
  | _ => trivial

theorem fits_merged (s : Finality ι) (site : Site ι) (seed : Bool) : s.Fits site (merged seed) := by
  cases seed <;> trivial

theorem le_script (cur epoch : UInt64) :
    cur ≤ finalizedEpochScript cur epoch ∧ epoch ≤ finalizedEpochScript cur epoch := by
  unfold finalizedEpochScript
  split_ifs with h
  · exact ⟨UInt64.le_of_lt h, UInt64.le_refl _⟩
  · exact ⟨UInt64.le_refl _, UInt64.not_lt.mp h⟩

variable [DecidableEq ι]

theorem pools_setPool (s : Finality ι) (site x : Site ι) (p : PoolHeads) :
    (s.setPool site p).pools x = if x = site then p else s.pools x := Function.update_apply ..

omit [DecidableEq ι] in
theorem redis_setRedis (s : Finality ι) (network n : String) (epoch : UInt64) :
    (s.setRedis network epoch).redis n = if n = network then epoch else s.redis n :=
  Function.update_apply ..

theorem offered_offer (s : Finality ι) (site x : Site ι) (epoch : UInt64) :
    (s.offer site epoch).offered x = if x = site then epoch :: s.offered site else s.offered x :=
  Function.update_apply ..

inductive Effect (s : Finality ι) (site : Site ι) : Point → Finality ι → Point → Prop
  | quiet {p p' : Point} (fits : s.Fits site p')
      (settled : ∀ e, p.Merging e → p'.Merging e ∨ e ≤ (s.pools site).finalizedEpoch) :
      Effect s site p s p'
  | offer (seed : Bool) (epoch : UInt64) :
      Effect s site (.check seed epoch) (s.offer site epoch) (.load seed epoch)
  | swap (seed : Bool) (epoch : UInt64) (new : epoch ∈ s.offered site)
      (above : (s.pools site).finalizedEpoch < epoch) :
      Effect s site (.swap seed epoch (s.pools site).finalizedEpoch)
        (s.setPool site { s.pools site with finalizedEpoch := epoch }) (merged seed)
  | skip (epoch : UInt64) (known : epoch ≤ s.finalized site) :
      Effect s site (.skip epoch) (s.returned site.2 epoch) .finished
  | script (epoch : UInt64) {p' : Point} (after : p' = .record epoch ∨ p' = .finished) :
      Effect s site (.script epoch)
        (s.setRedis site.2 (finalizedEpochScript (s.redis site.2) epoch)) p'
  | record (epoch : UInt64) (written : epoch ≤ s.redis site.2) :
      Effect s site (.record epoch) ((s.raiseFinalized site epoch).returned site.2 epoch) .finished
  | merge (seed : Bool) (remote : UInt64) (written : remote ≤ s.redis site.2) {p' : Point}
      (after : ∀ t : Finality ι, t.Fits site p') :
      Effect s site (.merge seed remote) (s.raiseFinalized site remote) p'

theorem act_effect {s : Finality ι} {site : Site ι} {p : Point} (h : s.Fits site p) (now : Int64)
    (reply : Reply) :
    Effect s site p (s.act site now reply p).1 (s.act site now reply p).2 := by
  cases p with
  | check seed epoch =>
    dsimp only [act]
    split_ifs with hplausible
    · exact .offer seed epoch
    · exact .quiet (fits_merged s site seed) nofun
  | load seed epoch =>
    dsimp only [act]
    split_ifs with hle
    · refine .quiet (fits_merged s site seed) ?_
      rintro e rfl
      exact .inr hle
    · refine .quiet ⟨h, UInt64.not_le.mp hle⟩ ?_
      rintro e rfl
      exact .inl rfl
  | swap seed epoch old =>
    dsimp only [act]
    split_ifs with heq
    · obtain ⟨hnew, hlt⟩ := h
      subst heq
      exact .swap seed epoch hnew hlt
    · refine .quiet h.1 ?_
      rintro e rfl
      exact .inl rfl
  | reload =>
    dsimp only [act]
    split_ifs <;> exact .quiet trivial nofun
  | skip epoch =>
    dsimp only [act]
    split_ifs with hle
    · exact .skip epoch hle
    · exact .quiet trivial nofun
  | script epoch =>
    cases reply with
    | answered => exact .script epoch (.inl rfl)
    | lost => exact .quiet trivial nofun
    | unanswered => exact .script epoch (.inr rfl)
  | record epoch => exact .record epoch h
  | get seed =>
    dsimp only [act]
    refine .quiet ?_ nofun
    split_ifs
    · exact UInt64.le_refl _
    · exact UInt64.zero_le
  | merge seed remote =>
    refine .merge seed remote h ?_
    intro t
    cases seed <;> trivial
  | finished => exact .quiet trivial nofun

theorem grows_setPool {s : Finality ι} {site : Site ι} {p : PoolHeads}
    (h : (s.pools site).finalizedEpoch ≤ p.finalizedEpoch) : Grows s (s.setPool site p) where
  redis := (Grows.refl s).redis
  offered := (Grows.refl s).offered
  pools := by
    intro x
    rw [pools_setPool]
    split_ifs with hx
    · rwa [hx]
    · exact UInt64.le_refl _

section Effect

variable {s t : Finality ι} {site : Site ι} {p p' : Point}

theorem Effect.grows (h : Effect s site p t p') : Grows s t := by
  cases h with
  | offer seed epoch =>
    refine ⟨(Grows.refl s).pools, (Grows.refl s).redis, ?_⟩
    intro x e he
    rw [offered_offer]
    split_ifs with hx
    · rw [← hx]
      exact List.mem_cons_of_mem epoch he
    · exact he
  | swap seed epoch new above => exact grows_setPool (UInt64.le_of_lt above)
  | script epoch after =>
    refine ⟨(Grows.refl s).pools, ?_, (Grows.refl s).offered⟩
    intro network
    rw [redis_setRedis]
    split_ifs with hn
    · rw [hn]
      exact (le_script _ _).1
    · exact UInt64.le_refl _
  | _ => exact ⟨(Grows.refl s).pools, (Grows.refl s).redis, (Grows.refl s).offered⟩

theorem Effect.fits (h : Effect s site p t p') : t.Fits site p' := by
  cases h with
  | quiet fits settled => exact fits
  | offer seed epoch => simp [Fits, offered_offer]
  | swap seed epoch new above => exact fits_merged _ site seed
  | skip epoch known => trivial
  | script epoch after =>
    rcases after with rfl | rfl
    · simpa [Fits, redis_setRedis] using (le_script (s.redis site.2) epoch).2
    · trivial
  | record epoch written => trivial
  | merge seed remote written after => exact after _

theorem Effect.settled (h : Effect s site p t p') {e : UInt64} (he : p.Merging e) :
    p'.Merging e ∨ e ≤ (t.pools site).finalizedEpoch := by
  cases h with
  | quiet fits settled => exact settled e he
  | swap seed epoch new above =>
    rw [pools_setPool, if_pos rfl]
    exact .inr (UInt64.le_of_eq he.symm)
  | _ => cases he

theorem Effect.offered (h : Effect s site p t p') {x : Site ι} {e : UInt64} (he : e ∈ t.offered x) :
    e ∈ s.offered x ∨ x = site ∧ p'.Merging e := by
  cases h with
  | offer seed epoch =>
    rw [offered_offer] at he
    split_ifs at he with hx
    · rcases List.mem_cons.mp he with rfl | he
      · exact .inr ⟨hx, rfl⟩
      · exact .inl (hx ▸ he)
    · exact .inl he
  | _ => exact .inl he

theorem Effect.pools (h : Effect s site p t p') (x : Site ι) :
    (t.pools x).finalizedEpoch = (s.pools x).finalizedEpoch ∨
      (t.pools x).finalizedEpoch ∈ s.offered x := by
  cases h with
  | swap seed epoch new above =>
    rw [pools_setPool]
    split_ifs with hx
    · exact .inr (hx ▸ new)
    · exact .inl rfl
  | _ => exact .inl rfl

theorem raiseFinalized_le {epoch : UInt64} (h : epoch ≤ s.redis site.2)
    (hmap : ∀ x, s.finalized x ≤ s.redis x.2) (x : Site ι) :
    (s.raiseFinalized site epoch).finalized x ≤ s.redis x.2 := by
  unfold raiseFinalized
  dsimp only
  split_ifs with hlt
  · rw [Function.update_apply]
    split_ifs with hx
    · rwa [hx]
    · exact hmap x
  · exact hmap x

theorem Effect.finalized (h : Effect s site p t p') (hmap : ∀ x, s.finalized x ≤ s.redis x.2)
    (x : Site ι) : t.finalized x ≤ t.redis x.2 := by
  cases h with
  | script epoch after => exact UInt64.le_trans (hmap x) ((Effect.script epoch after).grows.redis x.2)
  | record epoch written => exact raiseFinalized_le written hmap x
  | merge seed remote written after => exact raiseFinalized_le written hmap x
  | _ => exact hmap x

theorem Effect.published (h : Effect s site p t p') (hmap : ∀ x, s.finalized x ≤ s.redis x.2)
    (hpub : ∀ q ∈ s.published, q.2 ≤ s.redis q.1) : ∀ q ∈ t.published, q.2 ≤ t.redis q.1 := by
  intro q hq
  cases h with
  | skip epoch known =>
    rcases List.mem_cons.mp hq with rfl | hq
    · exact UInt64.le_trans known (hmap site)
    · exact hpub q hq
  | script epoch after =>
    exact UInt64.le_trans (hpub q hq) ((Effect.script epoch after).grows.redis q.1)
  | record epoch written =>
    rcases List.mem_cons.mp hq with rfl | hq
    · exact written
    · exact hpub q hq
  | _ => exact hpub q hq

end Effect

structure FinalityInv (initial : Site ι → UInt64) (s : Finality ι) : Prop where
  above : ∀ x, initial x ≤ (s.pools x).finalizedEpoch
  source : ∀ x, (s.pools x).finalizedEpoch ∈ initial x :: s.offered x
  offers : ∀ x, ∀ e ∈ s.offered x, e ≤ (s.pools x).finalizedEpoch ∨
    ∃ c ∈ s.calls, c.site = x ∧ c.point.Merging e
  calls : ∀ c ∈ s.calls, s.Fits c.site c.point
  finalized : ∀ x, s.finalized x ≤ s.redis x.2
  published : ∀ q ∈ s.published, q.2 ≤ s.redis q.1

section Inv

variable {initial : Site ι → UInt64} {s t : Finality ι}

omit [DecidableEq ι] in
theorem FinalityInv.start (pools : Site ι → PoolHeads) (redis : String → UInt64) :
    FinalityInv (fun x => (pools x).finalizedEpoch) (start pools redis) where
  above _ := UInt64.le_refl _
  source _ := List.mem_cons_self
  offers _ := nofun
  calls := nofun
  finalized _ := UInt64.zero_le
  published := nofun

omit [DecidableEq ι] in
theorem FinalityInv.call (h : FinalityInv initial s) {site : Site ι} {point : Point}
    (hp : s.Fits site point) : FinalityInv initial (s.call site point) where
  above := h.above
  source := h.source
  finalized := h.finalized
  published := h.published
  offers := by
    intro x e he
    rcases h.offers x e he with hle | ⟨c, hc, hpoint⟩
    · exact .inl hle
    · exact .inr ⟨c, List.mem_append_left _ hc, hpoint⟩
  calls := by
    intro c hc
    rcases List.mem_append.mp hc with hc | hc
    · exact h.calls c hc
    · rw [List.mem_singleton.mp hc]
      exact hp

theorem FinalityInv.setPool (h : FinalityInv initial s) {site : Site ι} {p : PoolHeads}
    (hp : p.finalizedEpoch = (s.pools site).finalizedEpoch) : FinalityInv initial (s.setPool site p) := by
  have hpools : ∀ x, ((s.setPool site p).pools x).finalizedEpoch = (s.pools x).finalizedEpoch := by
    intro x
    rw [pools_setPool]
    split_ifs with hx
    · rw [hp, hx]
    · rfl
  constructor
  · intro x
    rw [hpools]
    exact h.above x
  · intro x
    rw [hpools]
    exact h.source x
  · intro x
    rw [hpools]
    exact h.offers x
  · intro c hc
    exact (h.calls c hc).mono (grows_setPool (UInt64.le_of_eq hp.symm))
  · exact h.finalized
  · exact h.published

omit [DecidableEq ι] in
theorem mem_set_or {α : Type} {l : List α} {k : ℕ} {a b c : α} (hk : l[k]? = some a) (hc : c ∈ l) :
    c = a ∨ c ∈ l.set k b := by
  obtain ⟨j, hj⟩ := List.mem_iff_getElem?.mp hc
  rcases eq_or_ne k j with rfl | hne
  · exact .inl (Option.some.inj (hj.symm.trans hk))
  · refine .inr (List.mem_iff_getElem?.mpr ⟨j, ?_⟩)
    rw [List.getElem?_set_ne hne, hj]

theorem FinalityInv.effect (h : FinalityInv initial s) {k : ℕ} {c : FinalityCall ι}
    (hk : s.calls[k]? = some c) {p' : Point} (he : Effect s c.site c.point t p') :
    FinalityInv initial { t with calls := s.calls.set k ⟨c.site, p'⟩ } where
  above x := UInt64.le_trans (h.above x) (he.grows.pools x)
  finalized := he.finalized h.finalized
  published := he.published h.finalized h.published
  source := by
    intro x
    have hsub := he.grows.offered x
    rcases he.pools x with hsame | hnew
    · rw [hsame]
      exact List.cons_subset_cons _ hsub (h.source x)
    · exact List.mem_cons_of_mem _ (hsub hnew)
  calls := by
    intro d hd
    rcases List.mem_or_eq_of_mem_set hd with hd | rfl
    · exact (h.calls d hd).mono he.grows
    · exact he.fits
  offers := by
    intro x e hoffer
    have hset : (⟨c.site, p'⟩ : FinalityCall ι) ∈ s.calls.set k ⟨c.site, p'⟩ :=
      List.mem_set (List.getElem?_eq_some_iff.mp hk).1 _
    rcases he.offered hoffer with hold | ⟨rfl, hmerging⟩
    · rcases h.offers x e hold with hle | ⟨d, hd, rfl, hmerging⟩
      · exact .inl (UInt64.le_trans hle (he.grows.pools x))
      · rcases mem_set_or hk hd with rfl | hd
        · rcases he.settled hmerging with hmerging | hle
          · exact .inr ⟨_, hset, rfl, hmerging⟩
          · exact .inl hle
        · exact .inr ⟨d, hd, rfl, hmerging⟩
    · exact .inr ⟨_, hset, rfl, hmerging⟩

theorem FinalityInv.step (h : FinalityInv initial s) {label : FinalityStep ι}
    (hs : s.next label = some t) : FinalityInv initial t ∧ Grows s t := by
  have hcall : ∀ site point, Grows s (s.call site point) := fun _ _ =>
    ⟨(Grows.refl s).pools, (Grows.refl s).redis, (Grows.refl s).offered⟩
  cases label with
  | updateFinalizedEpoch site epoch =>
    cases hs
    exact ⟨h.call trivial, hcall _ _⟩
  | publishFinalized site epoch =>
    cases hs
    exact ⟨h.call trivial, hcall _ _⟩
  | getFinalized site =>
    cases hs
    exact ⟨h.call trivial, hcall _ _⟩
  | startStateSync site =>
    cases hs
    split_ifs
    · exact ⟨h.call trivial, hcall _ _⟩
    · exact ⟨h, Grows.refl s⟩
  | track site blockCache =>
    cases hs
    exact ⟨h.setPool rfl, grows_setPool (UInt64.le_refl _)⟩
  | step k now reply =>
    dsimp only [next] at hs
    split at hs
    · cases hs
    · rename_i c hk
      have he := act_effect (h.calls c (List.mem_of_getElem? hk)) now reply
      cases hs
      exact ⟨h.effect hk he, he.grows.pools, he.grows.redis, he.grows.offered⟩

theorem FinalityInv.run (h : FinalityInv initial s) {labels : List (FinalityStep ι)}
    (run : Runs.exec next s labels = some t) : FinalityInv initial t ∧ Grows s t := by
  refine Runs.exec_invariant (I := fun t => FinalityInv initial t ∧ Grows s t) ⟨h, Grows.refl s⟩ ?_ run
  intro t label u ht hu
  obtain ⟨hinv, hgrows⟩ := ht.1.step hu
  exact ⟨hinv, ht.2.trans hgrows⟩

end Inv

def Settled (s : Finality ι) (site : Site ι) : Prop :=
  ∀ c ∈ s.calls, c.site = site → c.point = .finished

/-- Shared finality neither regresses nor loses an update, however the calls of the instances
interleave and whichever Redis commands fail. -/
theorem finality_monotone (pools : Site ι → PoolHeads) (redis : String → UInt64)
    {labels more : List (FinalityStep ι)} {s t : Finality ι}
    (hs : Runs.exec next (start pools redis) labels = some s) (ht : Runs.exec next s more = some t) :
    (∀ x, (s.pools x).finalizedEpoch ≤ (t.pools x).finalizedEpoch) ∧
      (∀ network, s.redis network ≤ t.redis network) ∧
      (∀ x, t.Settled x → (t.pools x).finalizedEpoch ∈ (pools x).finalizedEpoch :: t.offered x ∧
        ∀ e ∈ (pools x).finalizedEpoch :: t.offered x, e ≤ (t.pools x).finalizedEpoch) ∧
      (∀ x, t.finalized x ≤ t.redis x.2) ∧
      ∀ network epoch, (network, epoch) ∈ s.published → epoch ≤ t.redis network := by
  obtain ⟨hinv, -⟩ := (FinalityInv.start pools redis).run hs
  obtain ⟨hinv', hgrows⟩ := hinv.run ht
  refine ⟨hgrows.pools, hgrows.redis, ?_, hinv'.finalized, ?_⟩
  · intro x hx
    refine ⟨hinv'.source x, ?_⟩
    intro e he
    rcases List.mem_cons.mp he with rfl | he
    · exact hinv'.above x
    · rcases hinv'.offers x e he with hle | ⟨c, hc, hsite, hmerging⟩
      · exact hle
      · rw [hx c hc hsite] at hmerging
        cases hmerging
  · intro network epoch hq
    exact UInt64.le_trans (hinv.published _ hq) (hgrows.redis network)

def twoInstances : Finality Bool :=
  start (fun _ => .new ⟨"mainnet", 0, 0, 0, 0, 32⟩ true) (fun _ => 0)

def race : List (FinalityStep Bool) :=
  [.updateFinalizedEpoch (true, "mainnet") 7, .step 0 0 .answered, .step 0 0 .answered,
    .updateFinalizedEpoch (true, "mainnet") 5, .step 1 0 .answered, .step 1 0 .answered,
    .step 1 0 .answered, .step 0 0 .answered, .step 0 0 .answered, .step 0 0 .answered,
    .step 0 0 .answered, .step 0 0 .answered, .step 0 0 .answered, .step 1 0 .answered,
    .step 1 0 .answered, .step 0 0 .answered, .step 1 0 .lost]

def restart : List (FinalityStep Bool) :=
  [.startStateSync (false, "mainnet"), .step 2 0 .answered, .step 2 0 .answered, .step 2 0 .answered,
    .step 2 0 .answered, .step 2 0 .answered]

theorem finality_monotone_race : ∃ s t, Runs.exec next twoInstances race = some s ∧
    Runs.exec next s restart = some t ∧
    s.published = [("mainnet", 7)] ∧ (t.pools (false, "mainnet")).finalizedEpoch = 7 ∧
    7 ≤ t.redis "mainnet" := by
  refine ⟨_, _, rfl, rfl, rfl, rfl, ?_⟩
  have h : ∀ s t, Runs.exec next twoInstances race = some s → Runs.exec next s restart = some t →
      ("mainnet", 7) ∈ s.published → 7 ≤ t.redis "mainnet" := fun s t hs ht hq =>
    (finality_monotone _ _ hs ht).2.2.2.2 "mainnet" 7 hq
  exact h _ _ rfl rfl List.mem_cons_self

end Finality

end EBeacon.State
