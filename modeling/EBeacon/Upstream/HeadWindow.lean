import EBeacon.Upstream.HeadOrder

namespace EBeacon.Upstream.BlockCache

section Window

variable {bc : BlockCache} {countRemote : Bool}

def Recent (bc : BlockCache) (s : UInt64) : Prop :=
  1 ≤ s.toNat ∧ (bc.maxSlot.toNat : ℤ) - bc.maxHeadDistance.toNat ≤ s.toNat ∧ s.toNat ≤ bc.maxSlot.toNat

def HasVotes (bc : BlockCache) (countRemote : Bool) (s : UInt64) : Prop :=
  ∃ b ∈ bc.blocksAt s, 0 < b.votes countRemote

/-- The head is the best block of the highest recent slot that has votes, and is empty if none has. -/
structure HeadSpec (bc : BlockCache) (countRemote : Bool) (head : UInt64 × String) : Prop where
  empty_iff : head = (0, "") ↔ ∀ s, bc.Recent s → ¬bc.HasVotes countRemote s
  best : (∃ s, bc.Recent s ∧ bc.HasVotes countRemote s) →
    bc.Recent head.1 ∧ (∀ s, bc.Recent s → bc.HasVotes countRemote s → s ≤ head.1) ∧
    ∃ b ∈ bc.blocksAt head.1, b.root = head.2 ∧ ∀ c ∈ bc.blocksAt head.1,
      c.votes countRemote < b.votes countRemote ∨
        c.votes countRemote = b.votes countRemote ∧ b.root ≤ c.root

theorem window_toNat (s : UInt64) :
    bc.tally.window bc.maxHeadDistance s ↔ 0 < s.toNat ∧ s.toNat ≤ bc.maxSlot.toNat ∧
      (2 ^ 64 - 1 + (2 ^ 64 - bc.maxHeadDistance.toNat + bc.maxSlot.toNat) % 2 ^ 64) % 2 ^ 64 < s.toNat := by
  have hsub : (bc.maxSlot - bc.maxHeadDistance - 1).toNat =
      (2 ^ 64 - 1 + (2 ^ 64 - bc.maxHeadDistance.toNat + bc.maxSlot.toNat) % 2 ^ 64) % 2 ^ 64 := by
    rw [UInt64.toNat_sub, UInt64.toNat_sub, UInt64.toNat_one]
  rw [← hsub, ← UInt64.lt_iff_toNat_lt, ← UInt64.le_iff_toNat_le]
  exact and_congr_left' UInt64.lt_iff_toNat_lt

theorem window_iff (h : bc.maxHeadDistance < bc.maxSlot) (s : UInt64) :
    bc.tally.window bc.maxHeadDistance s ↔ bc.Recent s := by
  have hlt := bc.maxSlot.toNat_lt
  rw [UInt64.lt_iff_toNat_lt] at h
  rw [window_toNat, Recent]
  omega

theorem window_empty (h : bc.maxSlot ≤ bc.maxHeadDistance) (s : UInt64) :
    ¬bc.tally.window bc.maxHeadDistance s := by
  have hlt := bc.maxHeadDistance.toNat_lt
  rw [UInt64.le_iff_toNat_le] at h
  rw [window_toNat]
  omega

theorem Consistent.hasVotes_iff (h : bc.Consistent) (s : UInt64) :
    bc.HasVotes countRemote s ↔ ∃ root, 0 < bc.tally.score countRemote s root := by
  constructor
  · rintro ⟨b, hb, hpos⟩
    exact ⟨b.root, by rwa [h.score_block countRemote hb]⟩
  · rintro ⟨root, hpos⟩
    rcases h.score_cases countRemote s root with hz | ⟨b, hb, rfl⟩
    · omega
    · exact ⟨b, hb, by rwa [← h.score_block countRemote hb]⟩

theorem Consistent.headSpec (h : bc.Consistent) (hd : bc.maxHeadDistance < bc.maxSlot) :
    bc.HeadSpec countRemote (bc.canonicalHead countRemote) := by
  have hwindow := window_iff hd
  rcases h.canonicalHead_outcome countRemote with helected | ⟨hempty, hnone⟩
  · generalize bc.canonicalHead countRemote = head at helected
    have hrecent := (hwindow _).mp helected.inWindow
    have hvotes : bc.HasVotes countRemote head.1 := (h.hasVotes_iff _).mpr ⟨_, helected.leads.1⟩
    constructor
    · refine ⟨fun hzero => ?_, fun hno => absurd hvotes (hno _ hrecent)⟩
      rw [hzero] at hrecent
      exact absurd hrecent.1 (by decide)
    · intro _
      refine ⟨hrecent, fun s hs hsv => ?_, ?_⟩
      · by_contra hgt
        obtain ⟨root, hpos⟩ := (h.hasVotes_iff s).mp hsv
        have hzero := helected.above s (not_le.mp hgt) ((hwindow s).mpr hs) root
        omega
      · obtain ⟨hpos, hmax⟩ := helected.leads
        rcases h.score_cases countRemote head.1 head.2 with hz | ⟨b, hb, hroot⟩
        · omega
        · refine ⟨b, hb, hroot, fun c hc => ?_⟩
          have hcmp := hmax c.root
          rwa [← hroot, h.score_block countRemote hb, h.score_block countRemote hc] at hcmp
  · have hno : ∀ s, bc.Recent s → ¬bc.HasVotes countRemote s := by
      intro s hs hv
      obtain ⟨root, hpos⟩ := (h.hasVotes_iff s).mp hv
      have hzero := hnone s ((hwindow s).mpr hs) root
      omega
    rw [hempty]
    exact ⟨⟨fun _ => hno, fun _ => rfl⟩, fun ⟨s, hs, hv⟩ => absurd hv (hno s hs)⟩

theorem Consistent.canonicalHead_wrapped (h : bc.Consistent) (hd : bc.maxSlot ≤ bc.maxHeadDistance) :
    bc.canonicalHead countRemote = (0, "") := by
  rcases h.canonicalHead_outcome countRemote with helected | ⟨hempty, _⟩
  · exact absurd helected.inWindow (window_empty hd _)
  · exact hempty

end Window

theorem canonicalHead_spec_iff (followDistance maxHeadDistance : UInt64) (ops : List Op) (countRemote : Bool) :
    let bc := ops.foldl apply (new followDistance maxHeadDistance)
    bc.HeadSpec countRemote (bc.canonicalHead countRemote) ↔
      bc.maxHeadDistance < bc.maxSlot ∨ ∀ s, 1 ≤ s → s ≤ bc.maxSlot → ¬bc.HasVotes countRemote s := by
  intro bc
  have h : bc.Consistent := consistent_run followDistance maxHeadDistance ops
  rcases lt_or_ge bc.maxHeadDistance bc.maxSlot with hd | hd
  · exact ⟨fun _ => Or.inl hd, fun _ => h.headSpec hd⟩
  · rw [h.canonicalHead_wrapped hd]
    -- every slot up to the top one is recent here
    have hrecent : ∀ s, bc.Recent s ↔ 1 ≤ s ∧ s ≤ bc.maxSlot := by
      intro s
      rw [UInt64.le_iff_toNat_le] at hd
      rw [Recent, UInt64.le_iff_toNat_le, UInt64.le_iff_toNat_le, UInt64.toNat_one]
      omega
    constructor
    · intro hspec
      exact Or.inr fun s hs hs' => hspec.empty_iff.mp rfl s ((hrecent s).mpr ⟨hs, hs'⟩)
    · rintro (hlt | hno)
      · exact absurd hlt (not_lt.mpr hd)
      · have hnone : ∀ s, bc.Recent s → ¬bc.HasVotes countRemote s := fun s hs =>
          hno s ((hrecent s).mp hs).1 ((hrecent s).mp hs).2
        exact ⟨⟨fun _ => hnone, fun _ => rfl⟩, fun ⟨s, hs, hv⟩ => absurd hv (hnone s hs)⟩

theorem canonicalHead_misses_first_slot :
    let bc := [Op.addBlock 0 "lighthouse" 1 "0x1" "0x0"].foldl apply (new 64 2)
    bc.canonicalHead true = (0, "") ∧ bc.Recent 1 ∧ bc.HasVotes true 1 ∧
      ¬bc.HeadSpec true (bc.canonicalHead true) := by
  intro bc
  have hempty : bc.canonicalHead true = (0, "") := by decide
  have hrecent : bc.Recent 1 := by simp only [Recent]; decide
  have hvotes : bc.HasVotes true 1 := by simp only [HasVotes]; decide
  exact ⟨hempty, hrecent, hvotes, fun h => h.empty_iff.mp hempty 1 hrecent hvotes⟩

end EBeacon.Upstream.BlockCache
