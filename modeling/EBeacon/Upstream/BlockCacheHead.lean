import EBeacon.Upstream.BlockTally

namespace EBeacon.Upstream.BlockCache

open Words

theorem betterBlock_eq (countRemote : Bool) :
    betterBlock countRemote = Election.better (Block.votes countRemote) Block.root := by
  funext best b
  simp only [betterBlock, Election.better]

theorem votes_eq (countRemote : Bool) (b : Block) :
    b.votes countRemote = (Tally.countedVoters countRemote b.seenBy).card := by
  cases countRemote with
  | true => simp [Block.votes, Tally.countedVoters]
  | false =>
    by_cases hr : remoteVoter ∈ b.seenBy
    · simp [Block.votes, Tally.countedVoters, hr]
    · simp [Block.votes, Tally.countedVoters, hr]

theorem Consistent.score_block {bc : BlockCache} (h : bc.Consistent) (countRemote : Bool)
    {s : UInt64} {b : Block} (hb : b ∈ bc.blocksAt s) :
    bc.tally.score countRemote s b.root = b.votes countRemote := by
  have hv := (h.mem_blocksAt s b.root b.seenBy).mp ⟨b, hb, rfl, rfl⟩
  simp only [Tally.score, hv, if_true, votes_eq]

theorem Consistent.score_cases {bc : BlockCache} (h : bc.Consistent) (countRemote : Bool)
    (s : UInt64) (root : String) :
    bc.tally.score countRemote s root = 0 ∨ ∃ b ∈ bc.blocksAt s, b.root = root := by
  cases hv : bc.tally.voters root with
  | none => exact .inl (by simp [Tally.score, hv])
  | some e =>
    by_cases hs : e.1 = s
    · obtain ⟨b, hb, hroot, _⟩ := (h.mem_blocksAt s root e.2).mpr (by rw [hv, ← hs])
      exact .inr ⟨b, hb, hroot⟩
    · exact .inl (by simp [Tally.score, hv, hs])

theorem Consistent.bestBlock_some {bc : BlockCache} (h : bc.Consistent) {countRemote : Bool}
    {s : UInt64} {b : Block} (hb : bestBlock countRemote (bc.blocksAt s) = some b) :
    b.slot = s ∧ Election.Leads (bc.tally.score countRemote) s b.root := by
  have hbest := Election.best_scan (Block.votes countRemote) Block.root (bc.blocksAt s)
  rw [bestBlock, betterBlock_eq] at hb
  simp only [Election.Best, hb] at hbest
  obtain ⟨hmem, _, hpos, hmax⟩ := hbest
  obtain ⟨r, hr, rfl⟩ := List.mem_map.mp hmem
  refine ⟨h.slot s r hr, ?_, fun root => ?_⟩
  · rwa [h.score_block countRemote hmem]
  · rw [h.score_block countRemote hmem]
    rcases h.score_cases countRemote s root with hz | ⟨c, hc, rfl⟩
    · exact .inl (hz ▸ hpos)
    · rw [h.score_block countRemote hc]
      exact hmax c hc

theorem Consistent.bestBlock_none {bc : BlockCache} (h : bc.Consistent) {countRemote : Bool}
    {s : UInt64} (hb : bestBlock countRemote (bc.blocksAt s) = none) (root : String) :
    bc.tally.score countRemote s root = 0 := by
  have hbest := Election.best_scan (Block.votes countRemote) Block.root (bc.blocksAt s)
  rw [bestBlock, betterBlock_eq] at hb
  simp only [Election.Best, hb] at hbest
  rcases h.score_cases countRemote s root with hz | ⟨c, hc, rfl⟩
  · exact hz
  · rw [h.score_block countRemote hc]
    exact hbest.2 c hc

theorem headWalk_spec (limit : UInt64) (best : UInt64 → Option Block) (n : ℕ) (hn : n < 2 ^ 64) :
    (∃ s b, 0 < s ∧ s.toNat ≤ n ∧ limit < s ∧ best s = some b ∧
      headWalk limit best n = (b.slot, b.root) ∧
      ∀ s', s < s' → s'.toNat ≤ n → best s' = none) ∨
    (headWalk limit best n = (0, "") ∧
      ∀ s, 0 < s → s.toNat ≤ n → limit < s → best s = none) := by
  induction n with
  | zero =>
    refine .inr ⟨rfl, fun s hs hz => ?_⟩
    rw [UInt64.lt_iff_toNat_lt] at hs
    exact absurd hs (Nat.not_lt.mpr hz)
  | succ n ih =>
    have htop : (UInt64.ofNat (n + 1)).toNat = n + 1 := UInt64.toNat_ofNat_of_lt' hn
    have hpos : 0 < UInt64.ofNat (n + 1) := by
      rw [UInt64.lt_iff_toNat_lt, htop]
      exact Nat.succ_pos n
    -- a slot of the range is the top one or is in the range of the rest of the walk
    have hrange : ∀ s : UInt64, s.toNat ≤ n + 1 → s = UInt64.ofNat (n + 1) ∨ s.toNat ≤ n := by
      intro s hs
      rcases Nat.lt_or_eq_of_le hs with hlt | heq
      · exact .inr (Nat.le_of_lt_succ hlt)
      · exact .inl (UInt64.toNat_inj.mp (heq.trans htop.symm))
    simp only [headWalk]
    by_cases hl : limit < UInt64.ofNat (n + 1)
    · rw [if_pos hl]
      cases hb : best (UInt64.ofNat (n + 1)) with
      | some b =>
        refine .inl ⟨_, b, hpos, htop.le, hl, hb, rfl, fun s' hs' hle => ?_⟩
        rw [UInt64.lt_iff_toNat_lt, htop] at hs'
        omega
      | none =>
        rcases ih (Nat.lt_of_succ_lt hn) with ⟨s, b, hs, hle, hlim, hsb, hw, habove⟩ | ⟨hw, hall⟩
        · refine .inl ⟨s, b, hs, Nat.le_succ_of_le hle, hlim, hsb, hw, fun s' hs' hle' => ?_⟩
          rcases hrange s' hle' with rfl | hle'
          · exact hb
          · exact habove s' hs' hle'
        · refine .inr ⟨hw, fun s hs hle hlim => ?_⟩
          rcases hrange s hle with rfl | hle
          · exact hb
          · exact hall s hs hle hlim
    · rw [if_neg hl]
      refine .inr ⟨rfl, fun s _ hle hlim => absurd ?_ hl⟩
      refine lt_of_lt_of_le hlim ?_
      rw [UInt64.le_iff_toNat_le, htop]
      exact hle

theorem Consistent.canonicalHead_outcome {bc : BlockCache} (h : bc.Consistent) (countRemote : Bool) :
    Election.Outcome (bc.tally.score countRemote) (bc.tally.window bc.maxHeadDistance) (0, "")
      (bc.canonicalHead countRemote) := by
  unfold canonicalHead
  split
  · rename_i hz
    refine .inr ⟨rfl, fun s hs => ?_⟩
    have hmax : bc.tally.maxSlot = 0 := hz
    exact absurd (hmax ▸ lt_of_lt_of_le hs.1 hs.2.1) (lt_irrefl _)
  · have hle : ∀ s : UInt64, s.toNat ≤ bc.maxSlot.toNat ↔ s ≤ bc.maxSlot :=
      fun s => UInt64.le_iff_toNat_le.symm
    rcases headWalk_spec (bc.maxSlot - bc.maxHeadDistance - 1)
        (fun s => bestBlock countRemote (bc.blocksAt s)) bc.maxSlot.toNat bc.maxSlot.toNat_lt with
      ⟨s, b, hs, hm, hlim, hb, hw, habove⟩ | ⟨hw, hall⟩
    · obtain ⟨hslot, hleads⟩ := h.bestBlock_some hb
      rw [hw, hslot]
      refine .inl ⟨⟨hs, (hle s).mp hm, hlim⟩, hleads, fun s' hs' hwin root => ?_⟩
      exact h.bestBlock_none (habove s' hs' ((hle s').mpr hwin.2.1)) root
    · rw [hw]
      refine .inr ⟨rfl, fun s hwin root => ?_⟩
      exact h.bestBlock_none (hall s hwin.1 ((hle s).mpr hwin.2.1) hwin.2.2) root

theorem Consistent.seenAt_iff {bc : BlockCache} (h : bc.Consistent) (s : UInt64) (upstreamID : String) :
    bc.seenAt s upstreamID = true ↔
      ∃ root V, bc.tally.voters root = some (s, V) ∧ upstreamID ∈ V := by
  simp only [seenAt, List.any_eq_true, decide_eq_true_eq]
  constructor
  · rintro ⟨b, hb, hid⟩
    exact ⟨b.root, b.seenBy, (h.mem_blocksAt s _ _).mp ⟨b, hb, rfl, rfl⟩, hid⟩
  · rintro ⟨root, V, hv, hid⟩
    obtain ⟨b, hb, _, rfl⟩ := (h.mem_blocksAt s root V).mpr hv
    exact ⟨b, hb, hid⟩

theorem canonicalHeadSeenBy_tally (bc : BlockCache) :
    bc.canonicalHeadSeenBy = if bc.canonRoot = "" then none
      else (bc.tally.voters bc.canonRoot).bind (fun e =>
        if e.2.erase remoteVoter = ∅ then none else some (e.2.erase remoteVoter)) := by
  simp only [canonicalHeadSeenBy, tally]
  cases bc.rootMap.lookup bc.canonRoot <;> rfl

section SameTally

variable {bc bc' : BlockCache} (h : bc.Consistent) (h' : bc'.Consistent) (ht : bc.tally = bc'.tally)
include h h' ht

theorem seenAt_congr (s : UInt64) (upstreamID : String) :
    bc.seenAt s upstreamID = bc'.seenAt s upstreamID := by
  rw [Bool.eq_iff_iff, h.seenAt_iff, h'.seenAt_iff, ht]

variable (hd : bc.maxHeadDistance = bc'.maxHeadDistance)
include hd

theorem canonicalHead_congr (countRemote : Bool) :
    bc.canonicalHead countRemote = bc'.canonicalHead countRemote := by
  have ho := h.canonicalHead_outcome countRemote
  rw [ht, hd] at ho
  exact ho.unique (h'.canonicalHead_outcome countRemote)

theorem seenBehind_congr (canonSlot : UInt64) (upstreamID : String) (n : ℕ) :
    bc.seenBehind canonSlot upstreamID n = bc'.seenBehind canonSlot upstreamID n := by
  induction n with
  | zero => rfl
  | succ n ih => simp only [seenBehind, ih, seenAt_congr h h' ht, hd]

variable (hc : bc.Cached) (hc' : bc'.Cached)
include hc hc'

theorem canonicalHeadLocked_congr : bc.canonicalHeadLocked = bc'.canonicalHeadLocked :=
  hc.trans ((canonicalHead_congr h h' ht hd true).trans hc'.symm)

theorem forkStatus_congr (upstreamID : String) : bc.forkStatus upstreamID = bc'.forkStatus upstreamID := by
  have hvote : ∀ root, bc.hasVote root upstreamID = bc'.hasVote root upstreamID := by
    intro root
    rw [hasVote_eq, hasVote_eq, ht]
  simp only [forkStatus]
  rw [canonicalHeadLocked_congr h h' ht hd hc hc', hvote, seenAt_congr h h' ht,
    seenBehind_congr h h' ht hd]

theorem canonicalHeadSeenBy_congr : bc.canonicalHeadSeenBy = bc'.canonicalHeadSeenBy := by
  have hroot : bc.canonRoot = bc'.canonRoot :=
    congrArg Prod.snd (canonicalHeadLocked_congr h h' ht hd hc hc')
  rw [canonicalHeadSeenBy_tally, canonicalHeadSeenBy_tally, hroot, ht]

end SameTally

end EBeacon.Upstream.BlockCache
