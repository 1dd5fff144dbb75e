import EBeacon.Network.HedgeOutcome
import EBeacon.Network.Promotion
import EBeacon.Upstream.Selection

namespace EBeacon.Network.ArchiveReach

open Upstream Proc Promotion

section Ranking

variable (p : Pool) (apiPath : String) (tried : List String)

def ranking : List Upstream :=
  let archives := p.upstreams.filter (·.archive)
  p.orderForPath (archives.filter (p.eligible archives false)) apiPath

def WithinBudget (budget : ℕ) : Prop :=
  (ranking p apiPath).findIdx (fun u => u.id ∉ tried) < min budget (ranking p apiPath).length

def HasUntried : Prop := ∃ u ∈ p.upstreams, u.archive = true ∧ u.id ∉ tried

def ReachesUntried (later : List Upstream) : Prop :=
  HasUntried p tried → ∃ u ∈ later, u.archive = true ∧ u.id ∉ tried

variable {p apiPath tried}

theorem withinBudget_iff {budget : ℕ} :
    WithinBudget p apiPath tried budget ↔ ∃ u ∈ p.selectForPathArchive apiPath budget, u.id ∉ tried := by
  have hselect : p.selectForPathArchive apiPath budget = (ranking p apiPath).take budget :=
    p.selectFromCandidatesForPath_eq _ _ _ _
  have hfind := @List.findIdx_lt_length _ (fun u : Upstream => decide (u.id ∉ tried))
    ((ranking p apiPath).take budget)
  rw [List.findIdx_take, List.length_take] at hfind
  rw [hselect, WithinBudget]
  simp only [decide_eq_true_eq] at hfind
  rw [← hfind]
  omega

theorem archive_of_selected {n : ℕ} {u : Upstream} (hu : u ∈ p.selectForPathArchive apiPath n) :
    u.archive = true :=
  (List.mem_filter.mp (p.selectFromCandidatesForPath_subset _ _ _ _ hu)).2

theorem reachesUntried_iff {budget : ℕ} {later : List Upstream}
    (hsub : later ⊆ p.selectForPathArchive apiPath budget)
    (hfirst : (∃ u ∈ p.selectForPathArchive apiPath budget, u.id ∉ tried) → ∃ u ∈ later, u.id ∉ tried) :
    ReachesUntried p tried later ↔ (HasUntried p tried → WithinBudget p apiPath tried budget) := by
  rw [withinBudget_iff]
  refine imp_congr_right fun _ => ⟨?_, fun hselected => ?_⟩
  · rintro ⟨u, hu, _, hnot⟩
    exact ⟨u, hsub hu, hnot⟩
  · obtain ⟨u, hu, hnot⟩ := hfirst hselected
    exact ⟨u, hu, archive_of_selected (hsub hu), hnot⟩

theorem reachesUntried_congr {tried' : List String} (hmem : ∀ id, id ∈ tried ↔ id ∈ tried') {budget : ℕ}
    {later : List Upstream}
    (h : ReachesUntried p tried later ↔ (HasUntried p tried → WithinBudget p apiPath tried budget)) :
    ReachesUntried p tried' later ↔ (HasUntried p tried' → WithinBudget p apiPath tried' budget) := by
  simpa only [ReachesUntried, HasUntried, WithinBudget, hmem] using h

end Ranking

section Sequential

variable {h : (e : Eff) → e.Answer}

def candidatesFor (h : (e : Eff) → e.Answer) (c : Call) (preferID : String) : List Upstream :=
  ensurePreferredUpstreamFirst (h (.pool .preferred))
    (c.selectForPath false (h (.pool .sequential)) c.fs.maxAttempts) preferID c.fs.maxAttempts

theorem archiveLoop_dispatched (hq : Quiet h) (c : Call) (total i : ℕ) (tried : List String)
    (last : Option AttemptError) (ups : List Upstream) :
    dispatched h (sequentialLoop c archiveBiased total i tried last ups) ⊆ ups ∧
      ((∃ u ∈ ups, u.id ∉ tried) →
        ∃ u ∈ dispatched h (sequentialLoop c archiveBiased total i tried last ups), u.id ∉ tried) := by
  induction ups generalizing i tried last with
  | nil => exact ⟨List.Subset.refl _, fun ⟨u, hu, _⟩ => absurd hu nofun⟩
  | cons u rest ih =>
    by_cases ht : u.id ∈ tried
    · rw [sequentialLoop, if_pos ht]
      obtain ⟨hsub, hfirst⟩ := ih (i + 1) tried last
      refine ⟨List.subset_cons_of_subset _ hsub, ?_⟩
      rintro ⟨v, hv, hnot⟩
      rcases List.mem_cons.mp hv with rfl | hv
      · exact absurd ht hnot
      · exact hfirst ⟨v, hv, hnot⟩
    · suffices hhead : ∃ later ⊆ rest,
          dispatched h (sequentialLoop c archiveBiased total i tried last (u :: rest)) = u :: later by
        obtain ⟨later, hsub, hd⟩ := hhead
        rw [hd]
        exact ⟨List.cons_subset_cons _ hsub, fun _ => ⟨u, List.mem_cons_self, ht⟩⟩
      cases ha : answered h u with
      | some r =>
        obtain ⟨_, hd⟩ := loop_hit hq c archiveBiased total i tried last u rest r ht ha
        rw [(respond_archive c _).2] at hd
        exact ⟨[], List.nil_subset _, hd⟩
      | none =>
        obtain ⟨last', _, hd⟩ := loop_miss hq c archiveBiased total i tried last u rest ht ha
        exact ⟨_, (ih (i + 1) (u.id :: tried) last').1, hd⟩

theorem respond_dispatched (hq : Quiet h) (c : Call) {f : Found} (hf : pruningShaped c f.response = true) :
    let later := dispatched h (respond h c (promoteMidLoop c) f)
    later ⊆ archiveCandidates h c f.pos ∧
      ((∃ u ∈ archiveCandidates h c f.pos, u.id ∉ f.tried) → ∃ u ∈ later, u.id ∉ f.tried) := by
  intro later
  by_cases hnone : archiveCandidates h c f.pos = []
  · have hlater : later = [] := (respond_noArchive c f hnone).2
    rw [hlater, hnone]
    exact ⟨List.Subset.refl _, id⟩
  · obtain ⟨total, last, _, hd⟩ := respond_promoted (h := h) c f hf hnone
    have hlater : later = _ := hd
    rw [hlater]
    exact archiveLoop_dispatched hq c total (f.pos + 1) f.tried last _

theorem dispatched_executeSequential (c : Call) (preferID : String) {f : Found}
    (hf : firstAnswer h 0 [] (candidatesFor h c preferID) = some f) : ∃ total,
      dispatched h (executeSequential c preferID false) =
        dispatched h (sequentialLoop c (promoteMidLoop c) total 0 [] none (candidatesFor h c preferID)) := by
  have hne : c.selectForPath false (h (.pool .sequential)) c.fs.maxAttempts ≠ [] := by
    intro hnil
    simp [candidatesFor, hnil, ensurePreferredUpstreamFirst, firstAnswer] at hf
  have hpool (site : Site) : dispatched h (Go.pool site) = [] := rfl
  have hsite (site : Site) : eval h (Go.pool site) = h (.pool site) := rfl
  refine ⟨(candidatesFor h c preferID).length, ?_⟩
  simp only [executeSequential, dispatched_bind, hpool, hsite, List.nil_append, if_neg hne, Call.promote,
    Bool.false_eq_true, if_false, candidatesFor]

def SequentialPromotion (h : (e : Eff) → e.Answer) (c : Call) (preferID : String) (f : Found) : Prop :=
  let pool := h (.pool .promotion)
  ∃ before after, dispatched h (executeSequential c preferID false) = before ++ after ∧
    f.tried = (before.map (·.id)).reverse ∧
    (ReachesUntried pool f.tried after ↔ (HasUntried pool f.tried →
      WithinBudget pool c.apiPath f.tried (max (c.fs.maxAttempts - (f.pos + 1)) 1)))

theorem sequentialPromotion (hq : Quiet h) (c : Call) (preferID : String) {f : Found}
    (hf : firstAnswer h 0 [] (candidatesFor h c preferID) = some f) (hp : pruningShaped c f.response = true) :
    SequentialPromotion h c preferID f := by
  obtain ⟨total, hd⟩ := dispatched_executeSequential c preferID hf
  obtain ⟨_, before, hbefore, _, htried⟩ := loop_found hq c (promoteMidLoop c) total 0 [] none _ hf
  obtain ⟨hsub, hfirst⟩ := respond_dispatched hq c hp
  rw [List.append_nil] at htried
  exact ⟨before, _, hd.trans hbefore, htried, reachesUntried_iff hsub hfirst⟩

end Sequential

section Hedged

def dispatches (h : Hedge.History) : List Upstream :=
  h.filterMap fun | ⟨.build u, _⟩ => some u | _ => none

theorem mem_dispatches {h : Hedge.History} {u : Upstream} :
    u ∈ dispatches h ↔ ∃ built, (⟨.build u, built⟩ : Σ e : Eff, e.Answer) ∈ h := by
  unfold dispatches
  rw [List.mem_filterMap]
  constructor
  · rintro ⟨⟨e, r⟩, hx, hu⟩
    cases e with
    | build v =>
      cases hu
      exact ⟨r, hx⟩
    | _ => cases hu
  · rintro ⟨built, hx⟩
    exact ⟨_, hx, rfl⟩

theorem forward_build (u : Upstream) : ∃ k, forward u = .call (.build u) k := ⟨_, rfl⟩

theorem archivePass_first (c : Call) (tried : List String) (last : Option AttemptError) {ups : List Upstream}
    (h : ∃ u ∈ ups, u.id ∉ tried) :
    ∃ u k, archivePass c tried last ups = .call (.build u) k ∧ u.id ∉ tried := by
  induction ups with
  | nil =>
    obtain ⟨u, hu, _⟩ := h
    cases hu
  | cons v rest ih =>
    unfold archivePass
    split_ifs with hv
    · obtain ⟨u, hu, hnot⟩ := h
      rcases List.mem_cons.mp hu with rfl | hu
      · exact absurd hv hnot
      · exact ih ⟨u, hu, hnot⟩
    · obtain ⟨k, hk⟩ := forward_build v
      rw [hk, call_bind]
      exact ⟨v, _, rfl, hv⟩

variable {archive : Bool} {maxFire : ℕ} {cands : Pool → List Upstream}

theorem archivePass_dispatches {c : Call} {tried : List String} {last : Option AttemptError}
    {ups : List Upstream} {before h : Hedge.History} {archived : Except (Option AttemptError) Served}
    (hreach : Reaches (Hedge.protocol archive maxFire cands) (archivePass c tried last ups) before
      (.ret archived) h) :
    ∃ after, h = before ++ after ∧ (∀ x ∈ after, x.1.archives tried ups) ∧ dispatches after ⊆ ups ∧
      ((∃ u ∈ ups, u.id ∉ tried) → ∃ u ∈ dispatches after, u.id ∉ tried) := by
  obtain ⟨after, hh, hall⟩ := hreach.records (archives_archivePass c tried last ups)
  refine ⟨after, hh, hall, fun u hu => ?_, fun huntried => ?_⟩
  · obtain ⟨built, hmem⟩ := mem_dispatches.mp hu
    exact (hall _ hmem).1
  · obtain ⟨u, k, hfirst, hnot⟩ := archivePass_first c tried last huntried
    rw [hfirst] at hreach
    obtain ⟨built, _, hrest⟩ := reaches_ret hreach
    obtain ⟨more, hmore, _⟩ := hrest.records (.all _)
    have hafter : after = ⟨.build u, built⟩ :: more := by
      refine (List.append_right_inj before).mp ?_
      rw [← hh, hmore]
      exact List.append_assoc _ _ _
    exact ⟨u, mem_dispatches.mpr ⟨built, by simp [hafter]⟩, hnot⟩

variable (archive) in
def HedgePromotion (c : Call) (maxFire : ℕ) (h : Hedge.History) : Prop :=
  Hedge.NoWinner c false archive (Hedge.received h) →
    (∃ r ∈ Hedge.received h, ∃ s, Hedge.verdict c archive r = .pruned s) →
  ∃ before pool after, h = before ++ ⟨.pool .promotion, pool⟩ :: after ∧
    Hedge.fired before = Hedge.fired h ∧ (∀ x ∈ after, ∀ site, x.1 ≠ .pool site) ∧
    let tried := (Hedge.fired h).map (·.id)
    (ReachesUntried pool tried (dispatches after) ↔ (HasUntried pool tried →
      WithinBudget pool c.apiPath tried (max (max maxFire c.fs.maxAttempts) 1)))

theorem hedgePromotion_of_outcome {c : Call} {result : Except ExecError Served} {h : Hedge.History}
    (ho : Hedge.Outcome c false archive maxFire cands result h) : HedgePromotion archive c maxFire h := by
  rintro hno ⟨r, hr, s, hs⟩
  cases ho with
  | won hreceived _ hwinner => exact absurd hwinner (hno _ (by simp [hreceived]) _)
  | lost _ _ _ hall _ hanswer =>
    rw [Hedge.Answered] at hanswer
    cases hbuffered : (Hedge.received h).findSome? (fun r => (Hedge.verdict c (!false && archive) r).buffered) with
    | none =>
      have hr := List.findSome?_eq_none_iff.mp hbuffered r hr
      change (Hedge.verdict c archive r).buffered = none at hr
      rw [hs] at hr
      cases hr
    | some s =>
      simp only [hbuffered] at hanswer
      obtain ⟨before, archived, hreach, _⟩ := hanswer
      obtain ⟨pool, _, hpass⟩ := reaches_ret hreach
      obtain ⟨after, hh, harchives, hsub, hfirst⟩ := archivePass_dispatches hpass
      have hh : h = before ++ ⟨.pool .promotion, pool⟩ :: after := hh.trans (List.append_assoc _ _ _)
      refine ⟨before, pool, after, hh, ?_, ?_, ?_⟩
      · have hnone : Hedge.fired (⟨.pool .promotion, pool⟩ :: after) = [] := by
          refine List.filterMap_eq_nil_iff.mpr fun x hx => ?_
          rcases List.mem_cons.mp hx with rfl | hx
          · rfl
          · have hx := harchives x hx
            obtain ⟨e, r⟩ := x
            cases e <;> first | rfl | exact hx.elim
        rw [hh, Hedge.fired, Hedge.fired, List.filterMap_append, ← Hedge.fired, ← Hedge.fired, hnone,
          List.append_nil]
      · intro x hx site hsite
        have hx := harchives x hx
        rw [hsite] at hx
        exact hx
      · refine reachesUntried_congr (fun id => ?_) (reachesUntried_iff hsub hfirst)
        rw [List.mem_reverse, ← (hall.map (·.id)).mem_iff, List.map_map]
        rfl

end Hedged

theorem promotion_iff (c : Call) (preferID : String) :
    (∀ h f, Quiet h → firstAnswer h 0 [] (candidatesFor h c preferID) = some f →
      pruningShaped c f.response = true → SequentialPromotion h c preferID f) ∧
    ∀ maxCount ups archive, ups ≠ [] →
      Safe (Hedge.protocol archive (Hedge.width maxCount ups) (Hedge.rewritten maxCount preferID ups))
        (fun _ h => HedgePromotion archive c (Hedge.width maxCount ups) h)
        (executeHedgeFS c ⟨maxCount⟩ preferID ups false) [] := by
  refine ⟨fun h f hq hf hp => sequentialPromotion hq c preferID hf hp, fun maxCount ups archive hups => ?_⟩
  exact (Hedge.safe_executeHedgeFS c maxCount preferID hups false archive).mono
    fun _ _ => hedgePromotion_of_outcome

def prunedFirst : Found := ⟨0, ["pruned"], ⟨"pruned", false⟩, ⟨404, .whole "", some ⟨"pruned", 0⟩⟩⟩

theorem promotion_served : Quiet (answering 200) ∧
    firstAnswer (answering 200) 0 [] (candidatesFor (answering 200) blockByRoot "") = some prunedFirst ∧
    SequentialPromotion (answering 200) blockByRoot "" prunedFirst ∧
    Safe (Hedge.protocol true (Hedge.width 1 twoNodes.upstreams) (Hedge.rewritten 1 "" twoNodes.upstreams))
      (fun _ h => HedgePromotion true blockByRoot (Hedge.width 1 twoNodes.upstreams) h)
      (executeHedgeFS blockByRoot ⟨1⟩ "" twoNodes.upstreams false) [] := by
  have hfirst : firstAnswer (answering 200) 0 [] (candidatesFor (answering 200) blockByRoot "") =
      some prunedFirst := by rfl
  refine ⟨answering_quiet 200, hfirst, ?_, (promotion_iff blockByRoot "").2 1 _ true (by decide)⟩
  exact (promotion_iff blockByRoot "").1 _ _ (answering_quiet 200) hfirst (by decide)

def threeNodes : Pool := .allReady [⟨"failing", true⟩, ⟨"pruned", false⟩, ⟨"archive", true⟩]

def failingFirst : (e : Eff) → e.Answer
  | .pool _ => threeNodes
  | .send t => .replied (if t.upstream = "failing" then 503 else if t.upstream = "pruned" then 404 else 200)
      .identity (.whole "")
  | e => answering 200 e

/-- Two attempts are allowed and made, so the one archive upstream that the promotion may select is
the failing one, which is skipped. -/
theorem promotion_misses_archive : Quiet failingFirst ∧
    dispatched failingFirst (executeSequential blockByRoot "" false) =
      [⟨"failing", true⟩, ⟨"pruned", false⟩] ∧
    answers failingFirst [⟨"failing", true⟩, ⟨"pruned", false⟩] =
      [(⟨"pruned", false⟩, ⟨404, .whole "", some ⟨"pruned", 0⟩⟩)] ∧
    pruningShaped blockByRoot ⟨404, .whole "", some ⟨"pruned", 0⟩⟩ = true ∧
    eval failingFirst (executeSequential blockByRoot "" false) = .error (.allFailed 3 (some (.pruned 404))) ∧
    ¬ReachesUntried threeNodes ["failing", "pruned"] [] := by
  refine ⟨⟨fun _ => rfl, fun t => ?_, fun t _ _ => ?_⟩, by decide, by decide, by decide, rfl, fun hreaches => ?_⟩
  · simp [failingFirst]
  · simp [failingFirst]
  · obtain ⟨u, hu, _⟩ := hreaches ⟨⟨"archive", true⟩, by decide, by decide, by decide⟩
    cases hu

end EBeacon.Network.ArchiveReach
