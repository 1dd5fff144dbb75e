import EBeacon.Upstream.HeadOrder

namespace EBeacon.Upstream

def reporters (l : List BlockCache.Report) (slot : UInt64) (root : String) : Finset String :=
  ((l.filter fun a => a.slot = slot ∧ a.root = root).map BlockCache.Report.upstreamID).toFinset

theorem mem_reporters {l : List BlockCache.Report} {slot : UInt64} {root u : String} :
    u ∈ reporters l slot root ↔ ∃ a ∈ l, a.slot = slot ∧ a.root = root ∧ a.upstreamID = u := by
  simp [reporters, and_assoc]

namespace Tally

structure Counts (l : List BlockCache.Report) (t : Tally) : Prop where
  unknown : ∀ root, t.voters root = none → ∀ a ∈ l, a.root ≠ root
  known : ∀ root s V, t.voters root = some (s, V) →
    V = reporters l s root ∧ ∃ a ∈ l, a.slot = s ∧ a.root = root
  bound : ∀ a ∈ l, a.slot ≤ t.maxSlot
  attained : t.maxSlot = 0 ∨ ∃ a ∈ l, a.slot = t.maxSlot

section Counts

variable {l : List BlockCache.Report} {t : Tally}

theorem reporters_append_of_ne {a : BlockCache.Report} {root : String} (h : a.root ≠ root) (slot : UInt64) :
    reporters (l ++ [a]) slot root = reporters l slot root := by
  ext u
  simp only [mem_reporters, List.mem_append, List.mem_singleton]
  constructor
  · rintro ⟨b, hb | rfl, hs, hr, hu⟩
    · exact ⟨b, hb, hs, hr, hu⟩
    · exact absurd hr h
  · rintro ⟨b, hb, hs, hr, hu⟩
    exact ⟨b, .inl hb, hs, hr, hu⟩

theorem reporters_append_self (a : BlockCache.Report) :
    reporters (l ++ [a]) a.slot a.root = insert a.upstreamID (reporters l a.slot a.root) := by
  ext u
  simp only [mem_reporters, List.mem_append, List.mem_singleton, Finset.mem_insert]
  constructor
  · rintro ⟨b, hb | rfl, hs, hr, hu⟩
    · exact .inr ⟨b, hb, hs, hr, hu⟩
    · exact .inl hu.symm
  · rintro (rfl | ⟨b, hb, hs, hr, hu⟩)
    · exact ⟨a, .inr rfl, rfl, rfl, rfl⟩
    · exact ⟨b, .inl hb, hs, hr, hu⟩

theorem Counts.report (h : Counts l t) (a : BlockCache.Report)
    (hslot : ∀ b ∈ l, b.root = a.root → b.slot = a.slot) :
    Counts (l ++ [a]) (t.report a.upstreamID a.slot a.root) where
  unknown := by
    intro root hnone b hb
    by_cases hr : root = a.root
    · subst hr
      simp [Tally.report] at hnone
    · simp only [Tally.report, Function.update_of_ne hr] at hnone
      rcases List.mem_append.mp hb with hb | hb
      · exact h.unknown root hnone b hb
      · rw [List.mem_singleton.mp hb]
        exact Ne.symm hr
  known := by
    intro root s V hsome
    by_cases hr : root = a.root
    · subst hr
      simp only [Tally.report, Function.update_self, Option.some.injEq] at hsome
      rcases hold : t.voters a.root with _ | ⟨s', V'⟩
      · -- the first report of this root
        simp only [hold, addVote, Prod.mk.injEq] at hsome
        obtain ⟨rfl, rfl⟩ := hsome
        have hempty : reporters l a.slot a.root = ∅ := by
          refine Finset.eq_empty_of_forall_notMem fun u hu => ?_
          obtain ⟨b, hb, _, hr, _⟩ := mem_reporters.mp hu
          exact h.unknown a.root hold b hb hr
        refine ⟨?_, a, by simp, rfl, rfl⟩
        rw [reporters_append_self, hempty]
        rfl
      · simp only [hold, addVote, Prod.mk.injEq] at hsome
        obtain ⟨rfl, rfl⟩ := hsome
        obtain ⟨hV, b, hb, hs, hr⟩ := h.known a.root s' V' hold
        have hsa : s' = a.slot := hs.symm.trans (hslot b hb hr)
        subst hsa
        exact ⟨by rw [reporters_append_self, hV], a, by simp, rfl, rfl⟩
    · simp only [Tally.report, Function.update_of_ne hr] at hsome
      obtain ⟨hV, b, hb, hs⟩ := h.known root s V hsome
      exact ⟨by rw [reporters_append_of_ne (Ne.symm hr), hV], b, List.mem_append_left _ hb, hs⟩
  bound := by
    intro b hb
    rcases List.mem_append.mp hb with hb | hb
    · exact (h.bound b hb).trans (le_max_left _ _)
    · rw [List.mem_singleton.mp hb]
      exact le_max_right _ _
  attained := by
    rcases le_total t.maxSlot a.slot with hle | hle
    · exact .inr ⟨a, by simp, (max_eq_right hle).symm⟩
    · have hmax : (t.report a.upstreamID a.slot a.root).maxSlot = t.maxSlot := max_eq_left hle
      rw [hmax]
      refine h.attained.imp_right fun hattained => ?_
      obtain ⟨b, hb, hs⟩ := hattained
      exact ⟨b, List.mem_append_left _ hb, hs⟩

theorem Counts.score (h : Counts l t) (hslot : ∀ a ∈ l, ∀ b ∈ l, a.root = b.root → a.slot = b.slot)
    (countRemote : Bool) (slot : UInt64) (root : String) :
    t.score countRemote slot root = (countedVoters countRemote (reporters l slot root)).card := by
  have hnone : (∀ a ∈ l, a.slot = slot → a.root ≠ root) →
      (countedVoters countRemote (reporters l slot root)).card = 0 := by
    intro hno
    have hempty : reporters l slot root = ∅ := by
      refine Finset.eq_empty_of_forall_notMem fun u hu => ?_
      obtain ⟨b, hb, hs, hr, _⟩ := mem_reporters.mp hu
      exact hno b hb hs hr
    rw [hempty]
    cases countRemote <;> rfl
  rcases hv : t.voters root with _ | ⟨s, V⟩
  · simp only [Tally.score, hv]
    exact (hnone fun a ha _ => h.unknown root hv a ha).symm
  · obtain ⟨hV, a, ha, hs, hr⟩ := h.known root s V hv
    simp only [Tally.score, hv]
    by_cases hss : s = slot
    · rw [if_pos hss, hV, hss]
    · rw [if_neg hss, hnone]
      intro b hb hbs hbr
      exact hss (hs.symm.trans ((hslot a ha b hb (hr.trans hbr.symm)).trans hbs))

theorem Counts.exists_local (h : Counts l t) (hslot : ∀ a ∈ l, ∀ b ∈ l, a.root = b.root → a.slot = b.slot)
    {slot : UInt64} {root : String} (hpos : 0 < t.score false slot root) :
    ∃ a ∈ l, a.upstreamID ≠ remoteVoter ∧ a.slot = slot ∧ a.root = root := by
  rw [h.score hslot, Finset.card_pos] at hpos
  obtain ⟨u, hu⟩ := hpos
  obtain ⟨hne, hu⟩ := Finset.mem_erase.mp hu
  obtain ⟨a, ha, hs, hr, rfl⟩ := mem_reporters.mp hu
  exact ⟨a, ha, hne, hs, hr⟩

theorem Counts.maxSlot_le {l' : List BlockCache.Report} {t' : Tally} (h : Counts l t) (h' : Counts l' t')
    (hsub : l' ⊆ l) : t'.maxSlot ≤ t.maxSlot := by
  rcases h'.attained with hzero | ⟨a, ha, hs⟩
  · rw [hzero]
    exact UInt64.zero_le
  · rw [← hs]
    exact h.bound a (hsub ha)

end Counts

end Tally

namespace BlockCache

def admitted (bc : BlockCache) (now : Int64) (l : List Report) : List Report :=
  l.filter fun a => !bc.aheadOfClock now a.slot

theorem admitted_subset (bc : BlockCache) (now : Int64) (l : List Report) : bc.admitted now l ⊆ l :=
  List.filter_subset_self l

section Admitted

variable (followDistance maxHeadDistance : UInt64) (genesisTime secondsPerSlot now : Int64)

theorem counts_addReports (l : List Report) (hslot : ∀ a ∈ l, ∀ b ∈ l, a.root = b.root → a.slot = b.slot) :
    let empty := (new followDistance maxHeadDistance).setSlotTiming genesisTime secondsPerSlot
    Tally.Counts (empty.admitted now l) (empty.addReports now l).tally := by
  intro empty
  have he : empty.Consistent :=
    (Consistent.new followDistance maxHeadDistance).apply (.setSlotTiming genesisTime secondsPerSlot)
  rw [tally_addReports now l he]
  induction l using List.reverseRecOn with
  | nil =>
    refine ⟨fun _ _ => nofun, fun _ _ _ hsome => ?_, nofun, .inl rfl⟩
    exact absurd hsome nofun
  | append_singleton l a ih =>
    have hl : ∀ b ∈ l, ∀ c ∈ l, b.root = c.root → b.slot = c.slot := fun b hb c hc =>
      hslot b (List.mem_append_left _ hb) c (List.mem_append_left _ hc)
    rw [List.foldl_append, List.foldl_cons, List.foldl_nil, admitted, List.filter_append]
    cases hahead : empty.aheadOfClock now a.slot with
    | true =>
      simpa [tallyReport, hahead, admitted] using ih hl
    | false =>
      have hrest := (ih hl).report a fun b hb => hslot b (by
        exact List.mem_append_left _ (List.mem_of_mem_filter hb)) a (by simp)
      simpa [tallyReport, hahead, admitted] using hrest

end Admitted

def localReports (l : List Report) : List Report := l.filter fun a => a.upstreamID ≠ remoteVoter

theorem localReports_subset (l : List Report) : localReports l ⊆ l :=
  List.filter_subset_self l

theorem countedVoters_localReports (bc : BlockCache) (now : Int64) (l : List Report) (slot : UInt64)
    (root : String) :
    Tally.countedVoters false (reporters (bc.admitted now (localReports l)) slot root) =
      Tally.countedVoters false (reporters (bc.admitted now l) slot root) := by
  ext u
  simp only [Tally.countedVoters, Bool.false_eq_true, if_false, Finset.mem_erase, mem_reporters,
    admitted, localReports, List.mem_filter, decide_eq_true_eq]
  constructor
  · rintro ⟨hu, a, ⟨⟨ha, _⟩, hadm⟩, hrest⟩
    exact ⟨hu, a, ⟨ha, hadm⟩, hrest⟩
  · rintro ⟨hu, a, ⟨ha, hadm⟩, hs, hr, rfl⟩
    exact ⟨hu, a, ⟨⟨ha, hu⟩, hadm⟩, hs, hr, rfl⟩

theorem admitted_localReports_subset (bc : BlockCache) (now : Int64) (l : List Report) :
    bc.admitted now (localReports l) ⊆ bc.admitted now l :=
  List.filter_subset _ (localReports_subset l)

theorem local_head_ignores_remote (followDistance maxHeadDistance : UInt64)
    (genesisTime secondsPerSlot now : Int64) (l : List Report)
    (hslot : ∀ a ∈ l, ∀ b ∈ l, a.root = b.root → a.slot = b.slot) :
    let empty := (new followDistance maxHeadDistance).setSlotTiming genesisTime secondsPerSlot
    let head := (empty.addReports now l).localCanonicalHead
    let head' := (empty.addReports now (localReports l)).localCanonicalHead
    (head ≠ (0, "") → head' ≠ (0, "") → head = head') ∧
      (head ≠ (0, "") → ∃ a ∈ l, a.upstreamID ≠ remoteVoter ∧ (a.slot, a.root) = head) := by
  intro empty head head'
  have he : empty.Consistent :=
    (Consistent.new followDistance maxHeadDistance).apply (.setSlotTiming genesisTime secondsPerSlot)
  let bc := empty.addReports now l
  let bc' := empty.addReports now (localReports l)
  have hsub : ∀ {l' : List Report}, l' ⊆ l → ∀ a ∈ l', ∀ b ∈ l', a.root = b.root → a.slot = b.slot :=
    fun h a ha b hb => hslot a (h ha) b (h hb)
  have hadm := hsub (admitted_subset empty now l)
  have hadm' := hsub (List.Subset.trans (admitted_localReports_subset empty now l) (admitted_subset empty now l))
  have hcounts : Tally.Counts (empty.admitted now l) bc.tally :=
    counts_addReports followDistance maxHeadDistance genesisTime secondsPerSlot now l hslot
  have hcounts' : Tally.Counts (empty.admitted now (localReports l)) bc'.tally :=
    counts_addReports followDistance maxHeadDistance genesisTime secondsPerSlot now (localReports l)
      (hsub (localReports_subset l))
  have hscore : bc'.tally.score false = bc.tally.score false := by
    funext slot root
    rw [hcounts.score hadm, hcounts'.score hadm', countedVoters_localReports]
  have hmax : bc'.tally.maxSlot ≤ bc.tally.maxSlot :=
    hcounts.maxSlot_le hcounts' (admitted_localReports_subset empty now l)
  have hd : bc'.maxHeadDistance = bc.maxHeadDistance :=
    (maxHeadDistance_addReports now _).trans (maxHeadDistance_addReports now l).symm
  have helected : head ≠ (0, "") → Election.Elected (bc.tally.score false)
      (bc.tally.window bc.maxHeadDistance) head.1 head.2 := fun hne =>
    ((he.addReports now l).canonicalHead_outcome false).resolve_right fun h => hne h.1
  have helected' : head' ≠ (0, "") → Election.Elected (bc.tally.score false)
      (bc'.tally.window bc.maxHeadDistance) head'.1 head'.2 := by
    intro hne
    have h := ((he.addReports now (localReports l)).canonicalHead_outcome false).resolve_right fun h => hne h.1
    rwa [← hscore, ← hd]
  constructor
  · intro hne hne'
    have h := helected hne
    have h' := helected' hne'
    -- the head of all reports has a vote of a local upstream, which the other run counts too
    have hreach : head.1 ≤ bc'.tally.maxSlot := by
      obtain ⟨a, ha, _, hs, _⟩ := hcounts'.exists_local hadm' (by rw [hscore]; exact h.leads.1)
      exact hs ▸ hcounts'.bound a ha
    have hagree := h.unique_across h'
      (fun hlt => ⟨h'.inWindow.1, h'.inWindow.2.1.trans hmax, h.inWindow.2.2.trans hlt⟩)
      (fun hlt => ⟨h.inWindow.1, hreach, h'.inWindow.2.2.trans hlt⟩)
    exact Prod.ext hagree.1 hagree.2
  · intro hne
    obtain ⟨a, ha, hlocal, hs, hr⟩ := hcounts.exists_local hadm (helected hne).leads.1
    exact ⟨a, List.mem_of_mem_filter ha, hlocal, Prod.ext hs hr⟩

theorem local_head_ignores_remote_sample :
    let empty := (new 64 2).setSlotTiming 0 0
    let own : Report := ⟨"lighthouse", 9, "0x1", ""⟩
    let remote : Report := ⟨remoteVoter, 10, "0x2", "0x1"⟩
    (empty.addReports 0 [remote, own]).localCanonicalHead = (9, "0x1") ∧
      (empty.addReports 0 [remote, own]).localCanonicalHead =
        (empty.addReports 0 (localReports [remote, own])).localCanonicalHead := by
  intro empty own remote
  have h := local_head_ignores_remote 64 2 0 0 0 [remote, own] (by decide)
  exact ⟨by decide, h.1 (by decide) (by decide)⟩

end BlockCache

end EBeacon.Upstream
