import EBeacon.Library.Runs
import EBeacon.Upstream.PoolHeads

namespace EBeacon.State

open Upstream

structure HeadUpdate where
  network : String
  slot : UInt64
  root : String
  origin : String
  deriving DecidableEq, Repr

def HeadUpdate.passes (u : HeadUpdate) (instanceID : String) : Bool :=
  !(u.network = "" || u.root = "" || u.slot = 0 || u.origin = instanceID)

structure Instance where
  instanceID : String
  pools : String → Option PoolHeads

structure LocalReport (ι : Type) where
  inst : ι
  network : String
  upstreamID : String
  root : String

/-- The instances that share one Redis. `published` holds every update ever published, so that
an update may be delivered late, out of order or not at all; `reports` is history. -/
structure Cluster (ι : Type) where
  instances : ι → Instance
  published : List HeadUpdate
  reports : List (LocalReport ι)

inductive Step (ι : Type)
  | report (i : ι) (network : String) (now : Int64) (upstreamID : String) (slot : UInt64)
      (root parentRoot : String)
  | sync (i : ι) (network : String)
  | deliver (i : ι) (now : Int64) (update : ℕ)
  | cleanup (i : ι) (network : String)

def identifierStart (c : Char) : Bool :=
  ('A' ≤ c && c ≤ 'Z') || ('a' ≤ c && c ≤ 'z') || ('0' ≤ c && c ≤ '9')

def validIdentifier (s : String) : Bool :=
  match s.toList with
  | [] => false
  | c :: cs => identifierStart c && cs.all (fun c => identifierStart c || c = '.' || c = '_' || c = '-')

namespace Cluster

variable {ι : Type} [DecidableEq ι]

def init (ids : ι → String) (networks : ι → List ChainConfig) : Cluster ι where
  instances := fun i => ⟨ids i, fun network =>
    ((networks i).find? (fun cfg => cfg.id = network)).map (fun cfg => .new cfg true)⟩
  published := []
  reports := []

def pool (s : Cluster ι) (i : ι) (network : String) : Option PoolHeads := (s.instances i).pools network

def setPool (s : Cluster ι) (i : ι) (network : String) (p : PoolHeads) : Cluster ι :=
  let pools := Function.update (s.instances i).pools network (some p)
  { s with instances := Function.update s.instances i ⟨(s.instances i).instanceID, pools⟩ }

def next (s : Cluster ι) : Step ι → Option (Cluster ι)
  | .report i network now upstreamID slot root parentRoot =>
    if upstreamID = remoteVoter then none
    else (s.pool i network).map (fun p =>
      { s.setPool i network (p.addBlock now upstreamID slot root parentRoot) with
        reports := ⟨i, network, upstreamID, root⟩ :: s.reports })
  | .sync i network =>
    (s.pool i network).map (fun p =>
      let result := p.syncCanonicalHead
      let update := result.2.map (fun head =>
        (⟨p.networkID, head.1, head.2, (s.instances i).instanceID⟩ : HeadUpdate))
      { s.setPool i network result.1 with published := s.published ++ update.toList })
  | .deliver i now k =>
    match s.published[k]? with
    | none => none
    | some u =>
      if !u.passes (s.instances i).instanceID then some s
      else match s.pool i u.network with
        | none => some s
        | some p => some (s.setPool i u.network (p.recordRemoteHead now u.slot u.root))
  | .cleanup i network => (s.pool i network).map (fun p => s.setPool i network p.cleanup)

def Reachable (ids : ι → String) (networks : ι → List ChainConfig) (s : Cluster ι) : Prop :=
  ∃ steps, Runs.exec next (init ids networks) steps = some s

def Reported (s : Cluster ι) (i : ι) (network root : String) : Prop :=
  ∃ a ∈ s.reports, a.inst = i ∧ a.network = network ∧ a.root = root ∧ a.upstreamID ≠ remoteVoter

def Justified (s : Cluster ι) (i : ι) (network root voter : String) : Prop :=
  if voter = remoteVoter then ∃ j, j ≠ i ∧ s.Reported j network root else s.Reported i network root

structure PoolInv (s : Cluster ι) (i : ι) (network : String) (p : PoolHeads) : Prop where
  named : p.networkID = network
  consistent : p.blockCache.Consistent
  votes : ∀ root voter, p.blockCache.hasVote root voter = true → s.Justified i network root voter

structure Inv (s : Cluster ι) : Prop where
  pools : ∀ i network p, s.pool i network = some p → s.PoolInv i network p
  messages : ∀ u ∈ s.published, ∃ j, (s.instances j).instanceID = u.origin ∧
    s.Reported j u.network u.root

omit [DecidableEq ι] in
theorem Reported.mono {s t : Cluster ι} (h : ∀ a ∈ s.reports, a ∈ t.reports) {i : ι}
    {network root : String} (hr : s.Reported i network root) : t.Reported i network root := by
  obtain ⟨a, ha, hrest⟩ := hr
  exact ⟨a, h a ha, hrest⟩

omit [DecidableEq ι] in
theorem Justified.mono {s t : Cluster ι} (h : ∀ a ∈ s.reports, a ∈ t.reports) {i : ι}
    {network root voter : String} (hj : s.Justified i network root voter) :
    t.Justified i network root voter := by
  unfold Justified at hj ⊢
  split
  · rw [if_pos ‹_›] at hj
    obtain ⟨j, hne, hr⟩ := hj
    exact ⟨j, hne, hr.mono h⟩
  · rw [if_neg ‹_›] at hj
    exact hj.mono h

omit [DecidableEq ι] in
theorem PoolInv.mono {s t : Cluster ι} (h : ∀ a ∈ s.reports, a ∈ t.reports) {i : ι}
    {network : String} {p : PoolHeads} (hp : s.PoolInv i network p) : t.PoolInv i network p :=
  ⟨hp.named, hp.consistent, fun root voter hv => (hp.votes root voter hv).mono h⟩

theorem pool_setPool (s : Cluster ι) (i j : ι) (network network' : String) (p : PoolHeads) :
    (s.setPool i network p).pool j network' =
      if j = i ∧ network' = network then some p else s.pool j network' := by
  unfold pool setPool
  by_cases hj : j = i
  · subst hj
    by_cases hn : network' = network
    · simp [hn]
    · simp [hn]
  · simp [hj]

theorem instanceID_setPool (s : Cluster ι) (i j : ι) (network : String) (p : PoolHeads) :
    ((s.setPool i network p).instances j).instanceID = (s.instances j).instanceID := by
  unfold setPool
  by_cases hj : j = i
  · subst hj
    simp
  · simp [hj]

omit [DecidableEq ι] in
theorem Inv.init (ids : ι → String) (networks : ι → List ChainConfig) : (init ids networks).Inv where
  pools := by
    intro i network p hp
    obtain ⟨cfg, hcfg, rfl⟩ := Option.map_eq_some_iff.mp hp
    have hid : cfg.id = network := by simpa using List.find?_some hcfg
    refine ⟨hid, ?_, fun root voter hv => ?_⟩
    · exact (BlockCache.Consistent.new _ _).apply (.setSlotTiming _ _)
    · simp [BlockCache.hasVote, PoolHeads.new, PoolHeads.setChainTiming, BlockCache.setSlotTiming,
        BlockCache.new] at hv
  messages := fun u hu => absurd hu List.not_mem_nil

theorem Inv.update {s : Cluster ι} (h : s.Inv) (i : ι) (network : String) (p : PoolHeads)
    (reports : List (LocalReport ι)) (updates : List HeadUpdate) (t : Cluster ι)
    (ht : t = { s.setPool i network p with
      reports := reports ++ s.reports, published := s.published ++ updates })
    (hp : t.PoolInv i network p)
    (hu : ∀ u ∈ updates, u.origin = (s.instances i).instanceID ∧ t.Reported i u.network u.root) :
    t.Inv := by
  have hmono : ∀ a ∈ s.reports, a ∈ t.reports := by
    rw [ht]
    exact fun a ha => List.mem_append_right _ ha
  have hpool : ∀ j network', t.pool j network' =
      if j = i ∧ network' = network then some p else s.pool j network' := by
    rw [ht]
    exact fun j network' => pool_setPool s i j network network' p
  have hid : ∀ j, (t.instances j).instanceID = (s.instances j).instanceID := by
    rw [ht]
    exact fun j => instanceID_setPool s i j network p
  constructor
  · intro j network' q hq
    rw [hpool] at hq
    split at hq
    · rename_i hsame
      obtain ⟨rfl, rfl⟩ := hsame
      exact Option.some.inj hq ▸ hp
    · exact (h.pools j network' q hq).mono hmono
  · intro u hmem
    have hmem : u ∈ s.published ++ updates := by
      rw [ht] at hmem
      exact hmem
    rcases List.mem_append.mp hmem with hmem | hmem
    · obtain ⟨j, hj, hr⟩ := h.messages u hmem
      exact ⟨j, (hid j).trans hj, hr.mono hmono⟩
    · obtain ⟨horigin, hr⟩ := hu u hmem
      exact ⟨i, (hid i).trans horigin.symm, hr⟩

theorem Inv.report {s t : Cluster ι} (h : s.Inv) {i : ι} {network : String} {now : Int64}
    {upstreamID : String} {slot : UInt64} {root parentRoot : String}
    (hn : s.next (.report i network now upstreamID slot root parentRoot) = some t) : t.Inv := by
  simp only [next] at hn
  split at hn
  · exact absurd hn.symm (Option.some_ne_none t)
  · rename_i hlocal
    obtain ⟨p, hp, rfl⟩ := Option.map_eq_some_iff.mp hn
    have hpool := h.pools i network p hp
    refine h.update i network (p.addBlock now upstreamID slot root parentRoot)
      [⟨i, network, upstreamID, root⟩] [] _ (by simp [setPool]) ?_ (by simp)
    refine ⟨hpool.named, hpool.consistent.addBlock _ _ _ _ _, fun root' voter hv => ?_⟩
    rcases BlockCache.hasVote_addBlock hpool.consistent hv with ⟨rfl, rfl⟩ | hv
    · rw [Justified, if_neg hlocal]
      exact ⟨_, List.mem_cons_self, rfl, rfl, rfl, hlocal⟩
    · exact (hpool.votes root' voter hv).mono (fun a ha => List.mem_cons_of_mem _ ha)

theorem Inv.sync {s t : Cluster ι} (h : s.Inv) {i : ι} {network : String}
    (hn : s.next (.sync i network) = some t) : t.Inv := by
  obtain ⟨p, hp, rfl⟩ := Option.map_eq_some_iff.mp hn
  have hpool := h.pools i network p hp
  obtain ⟨hcache, hname⟩ := p.syncCanonicalHead_blockCache
  refine h.update i network p.syncCanonicalHead.1 [] _ _ rfl ⟨hname.trans hpool.named, ?_, ?_⟩ ?_
  · rw [hcache]
    exact hpool.consistent
  · intro root voter hv
    rw [hcache] at hv
    exact hpool.votes root voter hv
  · intro u hu
    obtain ⟨head, hhead, rfl⟩ := Option.map_eq_some_iff.mp (Option.mem_toList.mp hu)
    obtain ⟨voter, hne, hv⟩ := PoolHeads.syncCanonicalHead_local hpool.consistent hhead
    have hj := hpool.votes head.2 voter hv
    rw [Justified, if_neg hne] at hj
    exact ⟨rfl, hpool.named ▸ hj⟩

theorem Inv.deliver {s t : Cluster ι} (h : s.Inv) {i : ι} {now : Int64} {k : ℕ}
    (hn : s.next (.deliver i now k) = some t) : t.Inv := by
  simp only [next] at hn
  split at hn
  · exact absurd hn.symm (Option.some_ne_none t)
  · rename_i u hu
    split at hn
    · exact Option.some.inj hn ▸ h
    · rename_i hpasses
      split at hn
      · exact Option.some.inj hn ▸ h
      · rename_i p hp
        obtain rfl := Option.some.inj hn
        have hpool := h.pools i u.network p hp
        obtain ⟨j, horigin, hr⟩ := h.messages u (List.mem_of_getElem? hu)
        have hne : j ≠ i := by
          rintro rfl
          simp [HeadUpdate.passes, horigin] at hpasses
        refine h.update i u.network (p.recordRemoteHead now u.slot u.root) [] [] _ (by simp [setPool]) ?_
          (by simp)
        refine ⟨hpool.named, hpool.consistent.addBlock _ _ _ _ _, fun root voter hv => ?_⟩
        rcases BlockCache.hasVote_addBlock hpool.consistent hv with ⟨rfl, rfl⟩ | hv
        · rw [Justified, if_pos rfl]
          exact ⟨j, hne, hr⟩
        · exact hpool.votes root voter hv

theorem Inv.cleanup {s t : Cluster ι} (h : s.Inv) {i : ι} {network : String}
    (hn : s.next (.cleanup i network) = some t) : t.Inv := by
  obtain ⟨p, hp, rfl⟩ := Option.map_eq_some_iff.mp hn
  have hpool := h.pools i network p hp
  refine h.update i network p.cleanup [] [] _ (by simp [setPool]) ?_ (by simp)
  exact ⟨hpool.named, hpool.consistent.cleanup,
    fun root voter hv => hpool.votes root voter (BlockCache.hasVote_cleanup hv)⟩

theorem Inv.step {s t : Cluster ι} (h : s.Inv) (a : Step ι) (hn : s.next a = some t) : t.Inv := by
  cases a with
  | report => exact h.report hn
  | sync => exact h.sync hn
  | deliver => exact h.deliver hn
  | cleanup => exact h.cleanup hn

theorem no_vote_echo {ids : ι → String} {networks : ι → List ChainConfig} {s : Cluster ι}
    (h : Reachable ids networks s) {i : ι} {network root : String} {p : PoolHeads}
    (hp : s.pool i network = some p) (hv : p.blockCache.hasVote root remoteVoter = true) :
    ∃ j, j ≠ i ∧ ∃ a ∈ s.reports, a.inst = j ∧ a.network = network ∧ a.root = root ∧
      a.upstreamID ≠ remoteVoter := by
  obtain ⟨steps, run⟩ := h
  have hinv : s.Inv := Runs.exec_invariant (.init ids networks) (fun _ a _ h hn => h.step a hn) run
  have hj := (hinv.pools i network p hp).votes root remoteVoter hv
  rwa [Justified, if_pos rfl] at hj

def exchange : List (Step Bool) :=
  [.report false "mainnet" 0 "node" 42 "0x1" "0x0", .sync false "mainnet", .deliver true 0 0]

theorem no_vote_echo_exchange :
    ∃ s p, Runs.exec next (init (fun b => if b then "B" else "A")
        (fun _ => [⟨"mainnet", 64, 2, 0, 12, 32⟩])) exchange = some s ∧
      s.pool true "mainnet" = some p ∧ p.blockCache.hasVote "0x1" remoteVoter = true ∧
      ∃ j, j ≠ true ∧ ∃ a ∈ s.reports, a.inst = j ∧ a.network = "mainnet" ∧ a.root = "0x1" ∧
        a.upstreamID ≠ remoteVoter := by
  have hrun : (Runs.exec next (init (fun b => if b then "B" else "A")
      (fun _ => [⟨"mainnet", 64, 2, 0, 12, 32⟩])) exchange).any (fun s =>
        (s.pool true "mainnet").any (fun p => p.blockCache.hasVote "0x1" remoteVoter)) = true := by decide
  obtain ⟨s, hs, hp⟩ := (Option.any_eq_true _ _).mp hrun
  obtain ⟨p, hp, hv⟩ := (Option.any_eq_true _ _).mp hp
  exact ⟨s, p, hs, hp, hv, no_vote_echo ⟨exchange, hs⟩ hp hv⟩

end Cluster

end EBeacon.State
