import EBeacon.Network.Classifiers

/-!
Which data is final and which is only with an archive node: the words of the program against the same
bounds over the natural numbers.
-/

namespace EBeacon.Network

open Text

section Finality

variable {path : String}

def Finalized (path : String) (E spe : ℕ) : Prop :=
  1 ≤ E ∧ ((∃ n, pathNumericSlot path = some n ∧ isPayloadEnvelopePath path = false ∧ n.toNat ≤ E * spe) ∨
    (∃ n, pathNumericSlot path = some n ∧ isPayloadEnvelopePath path = true ∧ 2 ≤ E ∧
      n.toNat < (E - 1) * spe) ∨
    ∃ e, pathNumericEpoch path = some e ∧ e.toNat + 2 ≤ E)

theorem Finalized.mono {E E' spe : ℕ} (h : Finalized path E spe) (hE : E ≤ E') : Finalized path E' spe := by
  obtain ⟨hpos, h⟩ := h
  refine ⟨hpos.trans hE, ?_⟩
  rcases h with ⟨n, hslot, hplain, hle⟩ | ⟨n, hslot, henvelope, htwo, hlt⟩ | ⟨e, hepoch, hle⟩
  · exact Or.inl ⟨n, hslot, hplain, hle.trans (Nat.mul_le_mul_right spe hE)⟩
  · refine Or.inr (Or.inl ⟨n, hslot, henvelope, htwo.trans hE, hlt.trans_le ?_⟩)
    exact Nat.mul_le_mul_right spe (Nat.sub_le_sub_right hE 1)
  · exact Or.inr (Or.inr ⟨e, hepoch, hle.trans hE⟩)

theorem le_sub_two_iff {e E : UInt64} : (2 ≤ E ∧ e ≤ E - 2) ↔ e.toNat + 2 ≤ E.toNat := by
  have htwo : (2 ≤ E) ↔ 2 ≤ E.toNat := UInt64.le_iff_toNat_le
  constructor
  · rintro ⟨hE, he⟩
    rw [UInt64.le_iff_toNat_le, UInt64.toNat_sub_of_le _ _ hE] at he
    change e.toNat ≤ E.toNat - 2 at he
    have := htwo.mp hE
    omega
  · intro h
    have hE : 2 ≤ E := htwo.mpr (by omega)
    refine ⟨hE, ?_⟩
    rw [UInt64.le_iff_toNat_le, UInt64.toNat_sub_of_le _ _ hE]
    change e.toNat ≤ E.toNat - 2
    omega

theorem isFinalizedPath_iff {E spe : UInt64} : isFinalizedPath path E spe = true ↔
    1 ≤ E.toNat ∧ ((∃ n, pathNumericSlot path = some n ∧ isPayloadEnvelopePath path = false ∧
        n.toNat ≤ (E * spe).toNat) ∨
      (∃ n, pathNumericSlot path = some n ∧ isPayloadEnvelopePath path = true ∧ 2 ≤ E.toNat ∧
        n.toNat < ((E - 1) * spe).toNat) ∨
      ∃ e, pathNumericEpoch path = some e ∧ e.toNat + 2 ≤ E.toNat) := by
  have hpos : E ≠ 0 ↔ 1 ≤ E.toNat := by
    rw [Nat.one_le_iff_ne_zero, ne_eq, ne_eq, ← UInt64.toNat_inj]
    rfl
  have htwo : (2 ≤ E) ↔ 2 ≤ E.toNat := UInt64.le_iff_toNat_le
  have hepoch : ((pathNumericEpoch path).any (fun epoch => 2 ≤ E && epoch ≤ E - 2)) = true ↔
      ∃ e, pathNumericEpoch path = some e ∧ e.toNat + 2 ≤ E.toNat := by
    rw [Option.any_eq_true]
    simp only [Bool.and_eq_true, decide_eq_true_eq, le_sub_two_iff]
  unfold isFinalizedPath
  dsimp only
  by_cases hE : E = 0
  · simp [hE]
  · rw [if_neg hE, ← hpos]
    cases hslot : pathNumericSlot path with
    | none => simp [hE, hepoch]
    | some slot =>
      have hnone := (numeric_not_named hslot).2
      cases henvelope : isPayloadEnvelopePath path with
      | true => simp [hE, hnone, htwo, UInt64.lt_iff_toNat_lt]
      | false => simp [hE, hnone, UInt64.le_iff_toNat_le]

theorem toNat_mul_le (a b : UInt64) : (a * b).toNat ≤ a.toNat * b.toNat := by
  rw [UInt64.toNat_mul]
  exact Nat.mod_le _ _

theorem toNat_mul_of_lt {a b : UInt64} (h : a.toNat * b.toNat < 2 ^ 64) :
    (a * b).toNat = a.toNat * b.toNat := by
  rw [UInt64.toNat_mul]
  exact Nat.mod_eq_of_lt h

theorem toNat_pred {E : UInt64} (h : 1 ≤ E.toNat) : (E - 1).toNat = E.toNat - 1 :=
  UInt64.toNat_sub_of_le _ _ (UInt64.le_iff_toNat_le.mpr h)

theorem finalized_of_isFinalizedPath {E spe : UInt64} (h : isFinalizedPath path E spe = true) :
    Finalized path E.toNat spe.toNat := by
  obtain ⟨hpos, h⟩ := isFinalizedPath_iff.mp h
  refine ⟨hpos, ?_⟩
  rcases h with ⟨n, hslot, hplain, hle⟩ | ⟨n, hslot, henvelope, htwo, hlt⟩ | hepoch
  · exact Or.inl ⟨n, hslot, hplain, hle.trans (toNat_mul_le E spe)⟩
  · have hprod := toNat_mul_le (E - 1) spe
    rw [toNat_pred hpos] at hprod
    exact Or.inr (Or.inl ⟨n, hslot, henvelope, htwo, hlt.trans_le hprod⟩)
  · exact Or.inr (Or.inr hepoch)

theorem isFinalizedPath_of_finalized {E spe : UInt64} (hfits : E.toNat * spe.toNat < 2 ^ 64)
    (h : Finalized path E.toNat spe.toNat) : isFinalizedPath path E spe = true := by
  obtain ⟨hpos, h⟩ := h
  rw [isFinalizedPath_iff]
  refine ⟨hpos, ?_⟩
  rcases h with ⟨n, hslot, hplain, hle⟩ | ⟨n, hslot, henvelope, htwo, hlt⟩ | hepoch
  · exact Or.inl ⟨n, hslot, hplain, by rwa [toNat_mul_of_lt hfits]⟩
  · have hpred : (E - 1).toNat * spe.toNat < 2 ^ 64 := by
      rw [toNat_pred hpos]
      exact (Nat.mul_le_mul_right _ (Nat.sub_le _ _)).trans_lt hfits
    refine Or.inr (Or.inl ⟨n, hslot, henvelope, htwo, ?_⟩)
    rwa [toNat_mul_of_lt hpred, toNat_pred hpos]
  · exact Or.inr (Or.inr hepoch)

/-- Nothing is promoted before it is final, and everything is as long as the slot of the checkpoint
fits into a word. -/
theorem isFinalizedPath_exact (path : String) (E spe : UInt64) :
    (isFinalizedPath path E spe = true → Finalized path E.toNat spe.toNat) ∧
      (E.toNat * spe.toNat < 2 ^ 64 →
        (Finalized path E.toNat spe.toNat → isFinalizedPath path E spe = true) ∧
          ∀ E' ≤ E, isFinalizedPath path E' spe = true → isFinalizedPath path E spe = true) := by
  refine ⟨finalized_of_isFinalizedPath, fun hfits => ⟨isFinalizedPath_of_finalized hfits, ?_⟩⟩
  intro E' hE h
  have hmono := (finalized_of_isFinalizedPath h).mono (UInt64.le_iff_toNat_le.mp hE)
  exact isFinalizedPath_of_finalized hfits hmono

theorem isFinalizedPath_exact_header : isFinalizedPath "/eth/v1/beacon/headers/320" 11 32 = true :=
  ((isFinalizedPath_exact "/eth/v1/beacon/headers/320" 11 32).2 (by decide)).2 10 (by decide) (by decide)

end Finality

namespace HistoricalTarget

def retention (spe : ℕ) : HistoricalKind → Option ℕ
  | .blockByID | .payloadEnvelope => some (33024 * spe)
  | .blobSidecars => some (4096 * spe)
  | .stateByID => some 8192
  | _ => none

def isEpochKind : HistoricalKind → Bool
  | .attesterDuties | .proposerDuties | .syncDuties | .ptcDuties | .rewardsEpoch | .liveness => true
  | _ => false

end HistoricalTarget

section Retention

open HistoricalTarget

theorem Identifies.retention {front : List String} {kind : HistoricalKind} (h : Identifies front kind) (spe : ℕ) :
    ∃ R, HistoricalTarget.retention spe kind = some R := by
  cases h <;> exact ⟨_, rfl⟩

theorem Epochal.isEpochKind {front : List String} {kind : HistoricalKind} (h : Epochal front kind) :
    HistoricalTarget.isEpochKind kind = true := by
  cases h <;> rfl

theorem classify_number (p : String) :
    ((classifyHistoricalTarget p).slot = none ∧ (classifyHistoricalTarget p).epoch = none) ∨
      (∃ front kind n, Identifies front kind ∧
        classifyHistoricalTarget p = { zero with kind := kind, slot := some n }) ∨
      ∃ front kind e, Epochal front kind ∧ classifyHistoricalTarget p = ofEpoch kind e := by
  have htarget := target_classify p
  generalize classifyHistoricalTarget p = t at htarget
  cases htarget with
  | zero => exact Or.inl ⟨rfl, rfl⟩
  | @identifier v seg front extra kind hsegs hv hfront =>
    cases hparse : parseUint64 seg with
    | some n => exact Or.inr (Or.inl ⟨front, kind, n, hfront, parseBlockIdentifier_of_digits hparse kind⟩)
    | none =>
      left
      unfold parseBlockIdentifier
      dsimp only
      rw [hparse]
      split_ifs <;> exact ⟨rfl, rfl⟩
  | @epoch v seg front extra kind e hsegs hv hfront he => exact Or.inr (Or.inr ⟨front, kind, e, hfront, rfl⟩)

theorem olderThan_iff {n h R : UInt64} : olderThan n h R = true ↔ n.toNat + R.toNat < h.toNat := by
  unfold olderThan
  split_ifs with hle
  · have := UInt64.le_iff_toNat_le.mp hle
    simp only [false_iff]
    omega
  · have hlt : R.toNat < h.toNat := by
      rw [UInt64.le_iff_toNat_le] at hle
      omega
    have hsub : (h - R).toNat = h.toNat - R.toNat :=
      UInt64.toNat_sub_of_le _ _ (UInt64.le_iff_toNat_le.mpr hlt.le)
    rw [decide_eq_true_eq, UInt64.lt_iff_toNat_lt, hsub]
    omega

theorem requiresArchive_slot {kind : HistoricalKind} {n h spe : UInt64} {R : ℕ} (hspe : spe ≠ 0)
    (hR : retention spe.toNat kind = some R) :
    ({ zero with kind := kind, slot := some n } : HistoricalTarget).requiresArchive h spe = true ↔
      n.toNat + R % 2 ^ 64 < h.toNat := by
  have hblocks : (blocksRetentionEpochs * spe).toNat = 33024 * spe.toNat % 2 ^ 64 := UInt64.toNat_mul _ _
  have hblobs : (blobSidecarsRetentionEpochs * spe).toNat = 4096 * spe.toNat % 2 ^ 64 := UInt64.toNat_mul _ _
  have hstates : statesRetentionSlots.toNat = 8192 % 2 ^ 64 := rfl
  have hzero : (0 : UInt64).toNat = 0 := rfl
  unfold requiresArchive
  by_cases hh : h = 0
  · subst hh
    simp [hzero]
  · rw [if_neg (by simp [hh, zero])]
    dsimp only
    rw [if_neg hspe]
    cases kind <;> simp only [retention, Option.some.injEq, reduceCtorEq] at hR <;> subst hR <;>
      simp only [Option.any_some, olderThan_iff, hblocks, hblobs, hstates]

theorem requiresArchive_epoch {kind : HistoricalKind} {e h spe : UInt64} (hspe : spe ≠ 0)
    (hkind : isEpochKind kind = true) :
    (ofEpoch kind e).requiresArchive h spe = true ↔ (e.toNat + 1) % 2 ^ 64 < h.toNat / spe.toNat := by
  have hsucc : (e + 1).toNat = (e.toNat + 1) % 2 ^ 64 := UInt64.toNat_add _ _
  unfold requiresArchive
  by_cases hh : h = 0
  · subst hh
    simp
  · rw [if_neg (by simp [hh, zero, ofEpoch])]
    dsimp only
    rw [if_neg hspe]
    cases kind <;> simp only [isEpochKind, Bool.false_eq_true] at hkind <;>
      simp only [ofEpoch, Option.any_some, decide_eq_true_eq, UInt64.lt_iff_toNat_lt, UInt64.toNat_div, hsucc]

theorem requiresArchive_none {t : HistoricalTarget} (hslot : t.slot = none) (hepoch : t.epoch = none)
    (h spe : UInt64) : t.requiresArchive h spe = false := by
  unfold requiresArchive
  rw [hslot, hepoch]
  dsimp only
  split_ifs
  · rfl
  · cases t.kind <;> rfl
  · cases t.kind <;> rfl

def HistoricalTarget.Old (t : HistoricalTarget) (h spe : ℕ) : Prop :=
  (∃ n R, t.slot = some n ∧ retention spe t.kind = some R ∧ n.toNat + R < h) ∨
    ∃ e, t.epoch = some e ∧ e.toNat + 1 < h / spe

def HistoricalTarget.ArchiveSound (t : HistoricalTarget) (h spe : UInt64) : Prop :=
  t.requiresArchive h spe = true → t.Old h.toNat spe.toNat ∧
    (∀ h', h ≤ h' → t.requiresArchive h' spe = true) ∧
    (∀ n n', t.slot = some n → n' ≤ n → { t with slot := some n' }.requiresArchive h spe = true) ∧
    ∀ e e', t.epoch = some e → e' ≤ e → { t with epoch := some e' }.requiresArchive h spe = true

def HistoricalTarget.Fits (t : HistoricalTarget) (h spe : ℕ) : Prop :=
  (∀ n R, t.slot = some n → retention spe t.kind = some R → R < 2 ^ 64 ∨ h ≤ n.toNat + R % 2 ^ 64) ∧
    ∀ e, t.epoch = some e → e.toNat + 1 < 2 ^ 64 ∨ h < spe

theorem archiveSound_slot {kind : HistoricalKind} {n h spe : UInt64} {R : ℕ} (hspe : spe ≠ 0)
    (hR : retention spe.toNat kind = some R) :
    ArchiveSound { zero with kind := kind, slot := some n } h spe ↔
      R < 2 ^ 64 ∨ h.toNat ≤ n.toNat + R % 2 ^ 64 := by
  have hlt := h.toNat_lt
  constructor
  · intro hsound
    by_contra hnot
    rw [not_or, not_lt, not_le] at hnot
    rcases (hsound ((requiresArchive_slot hspe hR).mpr hnot.2)).1 with ⟨n', R', hn, hR', hold⟩ | ⟨e, he, -⟩
    · cases hR.symm.trans hR'
      omega
    · cases he
  · intro hfits hrequires
    have hold := (requiresArchive_slot hspe hR).mp hrequires
    have hmod : R % 2 ^ 64 = R := by
      apply Nat.mod_eq_of_lt
      omega
    refine ⟨Or.inl ⟨n, R, rfl, hR, by omega⟩, fun h' hh => ?_, fun m m' hm hle => ?_, fun e e' he => (by cases he)⟩
    · rw [requiresArchive_slot hspe hR]
      have := UInt64.le_iff_toNat_le.mp hh
      omega
    · cases hm
      have := UInt64.le_iff_toNat_le.mp hle
      exact (requiresArchive_slot hspe hR).mpr (by omega)

theorem archiveSound_epoch {kind : HistoricalKind} {e h spe : UInt64} (hspe : spe ≠ 0)
    (hkind : isEpochKind kind = true) :
    ArchiveSound (ofEpoch kind e) h spe ↔ e.toNat + 1 < 2 ^ 64 ∨ h.toNat < spe.toNat := by
  have hlt := e.toNat_lt
  have hpos : 0 < spe.toNat := Nat.pos_of_ne_zero (fun hzero => hspe (UInt64.toNat_inj.mp hzero))
  constructor
  · intro hsound
    by_contra hnot
    rw [not_or, not_lt, not_lt] at hnot
    -- the last epoch plus one is zero, so every head after the first epoch makes it old
    have hwrap : (e.toNat + 1) % 2 ^ 64 = 0 := by omega
    have hrequires : (ofEpoch kind e).requiresArchive h spe = true := by
      rw [requiresArchive_epoch hspe hkind, hwrap]
      exact Nat.div_pos hnot.2 hpos
    rcases (hsound hrequires).1 with ⟨n, R, hn, -⟩ | ⟨e', he, hold⟩
    · cases hn
    · cases he
      have hdiv := Nat.div_le_self h.toNat spe.toNat
      have := h.toNat_lt
      omega
  · intro hfits hrequires
    have hold := (requiresArchive_epoch hspe hkind).mp hrequires
    have hmod : (e.toNat + 1) % 2 ^ 64 = e.toNat + 1 := by
      apply Nat.mod_eq_of_lt
      rcases hfits with hfits | hlow
      · exact hfits
      · rw [Nat.div_eq_of_lt hlow] at hold
        omega
    rw [hmod] at hold
    refine ⟨Or.inr ⟨e, rfl, hold⟩, fun h' hh => ?_, fun n n' hn => (by cases hn), fun d d' hd hle => ?_⟩
    · rw [requiresArchive_epoch hspe hkind, hmod]
      exact hold.trans_le (Nat.div_le_div_right (UInt64.le_iff_toNat_le.mp hh))
    · cases hd
      have := UInt64.le_iff_toNat_le.mp hle
      have hrequires' : (ofEpoch kind d').requiresArchive h spe = true := by
        rw [requiresArchive_epoch hspe hkind, Nat.mod_eq_of_lt (by omega)]
        omega
      exact hrequires'

theorem archiveSound_iff (p : String) (h : UInt64) (spe : Int64) (hspe : 0 < spe) :
    (classifyHistoricalTarget p).ArchiveSound h spe.toUInt64 ↔
      (classifyHistoricalTarget p).Fits h.toNat spe.toUInt64.toNat := by
  have hne : spe.toUInt64 ≠ 0 := by
    intro hzero
    cases spe
    subst hzero
    exact absurd hspe (by decide)
  rcases classify_number p with ⟨hslot, hepoch⟩ | ⟨front, kind, n, hfront, ht⟩ | ⟨front, kind, e, hfront, ht⟩
  · unfold ArchiveSound Fits
    rw [hslot, hepoch, requiresArchive_none hslot hepoch]
    simp
  · obtain ⟨R, hR⟩ := hfront.retention spe.toUInt64.toNat
    rw [ht, archiveSound_slot hne hR]
    simp [Fits, zero, hR]
  · rw [ht, archiveSound_epoch hne hfront.isEpochKind]
    simp [Fits, zero, ofEpoch]

theorem archiveSound_iff_block : (classifyHistoricalTarget "/eth/v2/beacon/blocks/100").ArchiveSound 1056869 32 :=
  (archiveSound_iff "/eth/v2/beacon/blocks/100" 1056869 32 (by decide)).mpr (by
    have ht : classifyHistoricalTarget "/eth/v2/beacon/blocks/100" =
        { zero with kind := .blockByID, slot := some 100 } := by decide
    rw [ht]
    refine ⟨fun n R _ hR => ?_, fun e he => by cases he⟩
    cases hR
    exact Or.inl (by decide))

theorem last_epoch_not_sound :
    ¬ (classifyHistoricalTarget "/eth/v1/validator/duties/proposer/18446744073709551615").ArchiveSound 64 32 := by
  have ht : classifyHistoricalTarget "/eth/v1/validator/duties/proposer/18446744073709551615" =
      ofEpoch .proposerDuties 18446744073709551615 := by decide
  rw [ht]
  intro hsound
  rcases (hsound (by decide)).1 with ⟨n, R, hn, -⟩ | ⟨e, he, hold⟩
  · cases hn
  · cases he
    exact absurd hold (by decide)

end Retention

end EBeacon.Network
