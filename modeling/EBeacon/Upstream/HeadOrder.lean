import EBeacon.Upstream.BlockCacheHead

namespace EBeacon.Upstream.BlockCache

structure Report where
  upstreamID : String
  slot : UInt64
  root : String
  parentRoot : String
  deriving DecidableEq, Repr

def addReport (now : Int64) (bc : BlockCache) (a : Report) : BlockCache :=
  bc.addBlock now a.upstreamID a.slot a.root a.parentRoot

def addReports (now : Int64) (bc : BlockCache) (reports : List Report) : BlockCache :=
  reports.foldl (addReport now) bc

def tallyReport (bc : BlockCache) (now : Int64) (t : Tally) (a : Report) : Tally :=
  if bc.aheadOfClock now a.slot then t else t.report a.upstreamID a.slot a.root

theorem aheadOfClock_addReport (now : Int64) (bc : BlockCache) (a : Report) (slot : UInt64) :
    (addReport now bc a).aheadOfClock now slot = bc.aheadOfClock now slot := by
  obtain ⟨hg, hs, _⟩ := addBlock_settings bc now a.upstreamID a.slot a.root a.parentRoot
  simp only [addReport, aheadOfClock, currentWallClockSlotLocked, hg, hs]

theorem tallyReport_comm (bc : BlockCache) (now : Int64) (t : Tally) {a b : Report}
    (h : a.root = b.root → a.slot = b.slot) :
    tallyReport bc now (tallyReport bc now t a) b = tallyReport bc now (tallyReport bc now t b) a := by
  simp only [tallyReport]
  split <;> split
  · rfl
  · rfl
  · rfl
  · exact t.report_comm h

section Reports

variable {bc : BlockCache} (now : Int64) (reports : List Report)

theorem Consistent.addReports (h : bc.Consistent) : (bc.addReports now reports).Consistent :=
  Runs.foldl_invariant (fun _ a h => h.addBlock now a.upstreamID a.slot a.root a.parentRoot) reports h

theorem Cached.addReports (h : bc.Cached) : (bc.addReports now reports).Cached :=
  Runs.foldl_invariant (I := Cached)
    (fun _ a h => h.apply (.addBlock now a.upstreamID a.slot a.root a.parentRoot)) reports h

theorem maxHeadDistance_addReports :
    (bc.addReports now reports).maxHeadDistance = bc.maxHeadDistance :=
  Runs.foldl_invariant (I := fun bc' : BlockCache => bc'.maxHeadDistance = bc.maxHeadDistance)
    (fun bc' _ h => (addBlock_settings bc' now _ _ _ _).2.2.trans h) reports rfl

theorem tally_addReports (h : bc.Consistent) :
    (bc.addReports now reports).tally = reports.foldl (tallyReport bc now) bc.tally := by
  -- the timing, and with it the verdict on each report, stays that of the first cache
  suffices hgen : ∀ bc' : BlockCache, bc'.Consistent →
      (∀ slot, bc'.aheadOfClock now slot = bc.aheadOfClock now slot) →
      (bc'.addReports now reports).tally = reports.foldl (tallyReport bc now) bc'.tally from
    hgen bc h (fun _ => rfl)
  induction reports with
  | nil => exact fun _ _ _ => rfl
  | cons a reports ih =>
    intro bc' h' ht
    have hstep : (addReport now bc' a).tally = tallyReport bc now bc'.tally a := by
      rw [addReport, tally_addBlock h', ht]
      rfl
    have hrest := ih (addReport now bc' a) (h'.addBlock now _ _ _ _)
      (fun slot => (aheadOfClock_addReport now bc' a slot).trans (ht slot))
    rw [hstep] at hrest
    exact hrest

end Reports

theorem reports_order_insensitive (followDistance maxHeadDistance : UInt64)
    (genesisTime secondsPerSlot now : Int64) {l l' : List Report} (hp : l.Perm l')
    (hslot : ∀ a ∈ l, ∀ b ∈ l, a.root = b.root → a.slot = b.slot) :
    let empty := (new followDistance maxHeadDistance).setSlotTiming genesisTime secondsPerSlot
    let bc := empty.addReports now l
    let bc' := empty.addReports now l'
    bc.maxSlot = bc'.maxSlot ∧ bc.canonicalHeadLocked = bc'.canonicalHeadLocked ∧
      bc.localCanonicalHead = bc'.localCanonicalHead ∧
      bc.canonicalHeadSeenBy = bc'.canonicalHeadSeenBy ∧
      ∀ upstreamID, bc.forkStatus upstreamID = bc'.forkStatus upstreamID := by
  intro empty bc bc'
  have he : empty.Consistent :=
    (Consistent.new followDistance maxHeadDistance).apply (.setSlotTiming genesisTime secondsPerSlot)
  have hec : empty.Cached := rfl
  have h : bc.Consistent := he.addReports now l
  have h' : bc'.Consistent := he.addReports now l'
  have hc : bc.Cached := hec.addReports now l
  have hc' : bc'.Cached := hec.addReports now l'
  have ht : bc.tally = bc'.tally := by
    rw [tally_addReports now l he, tally_addReports now l' he]
    exact hp.foldl_eq' (fun a ha b hb t => tallyReport_comm empty now t (hslot a ha b hb)) _
  have hd : bc.maxHeadDistance = bc'.maxHeadDistance :=
    (maxHeadDistance_addReports now l).trans (maxHeadDistance_addReports now l').symm
  exact ⟨congrArg Tally.maxSlot ht, canonicalHeadLocked_congr h h' ht hd hc hc',
    canonicalHead_congr h h' ht hd false, canonicalHeadSeenBy_congr h h' ht hd hc hc',
    forkStatus_congr h h' ht hd hc hc'⟩

theorem reports_order_insensitive_fork :
    let empty := (new 64 4).setSlotTiming 0 0
    let a : Report := ⟨"a", 9, "0x1", ""⟩
    let b : Report := ⟨"b", 9, "0x2", ""⟩
    (empty.addReports 0 [a, b]).canonicalHeadLocked = (empty.addReports 0 [b, a]).canonicalHeadLocked ∧
      (empty.addReports 0 [a, b]).forkStatus "b" = .forked := by
  intro empty a b
  have h := reports_order_insensitive 64 4 0 0 0 (List.Perm.swap b a []) (by decide)
  exact ⟨h.2.1, by decide⟩

end EBeacon.Upstream.BlockCache
