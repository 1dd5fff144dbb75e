import EBeacon.Library.Words
import EBeacon.Network.Server

/-!
How long answers about the head stay in the cache: until the slot ends, reckoned in whole seconds.
-/

namespace EBeacon.Network

open Upstream Cache

structure Instant where
  sec : Int64
  nsec : ℕ
  nsec_lt : nsec < 1000000000

def Instant.nanos (t : Instant) : ℤ := t.sec.toInt * 1000000000 + t.nsec

def nextSlotStart (genesis slot t : ℤ) : ℤ :=
  (genesis + ((t - genesis * 1000000000) / (slot * 1000000000) + 1) * slot) * 1000000000

def secondsLeft (since slot : ℤ) : ℤ := slot - since % slot

theorem secondsLeft_bounds {slot : ℤ} (since : ℤ) (h : 0 < slot) :
    1 ≤ secondsLeft since slot ∧ secondsLeft since slot ≤ slot := by
  have := Int.emod_nonneg since h.ne'
  have := Int.emod_lt_of_pos since h
  unfold secondsLeft
  omega

theorem unixSeconds_nanos (t : Instant) : unixSeconds t.nanos = t.sec := by
  have hlt := t.nsec_lt
  have hdiv : t.nanos / 1000000000 = t.sec.toInt := by
    unfold Instant.nanos
    omega
  rw [unixSeconds, hdiv, Int64.ofInt_toInt]

theorem nextSlotStart_sub (genesis slot : ℤ) (t : Instant) :
    nextSlotStart genesis slot t.nanos - t.nanos =
      secondsLeft (t.sec.toInt - genesis) slot * 1000000000 - t.nsec := by
  have hlt := t.nsec_lt
  have hsince : (t.nanos - genesis * 1000000000) / 1000000000 = t.sec.toInt - genesis := by
    unfold Instant.nanos
    omega
  have hk : (t.nanos - genesis * 1000000000) / (slot * 1000000000) = (t.sec.toInt - genesis) / slot := by
    rw [Int.mul_comm slot, ← Int.ediv_ediv_of_nonneg (by omega), hsince]
  have hdiv := Int.mul_ediv_add_emod (t.sec.toInt - genesis) slot
  have hnext : ((t.sec.toInt - genesis) / slot + 1) * slot = slot * ((t.sec.toInt - genesis) / slot) + slot := by
    rw [Int.add_mul, Int.one_mul, Int.mul_comm]
  unfold nextSlotStart secondsLeft
  rw [hk, hnext]
  unfold Instant.nanos
  omega

theorem toInt_elapsed (since : Int64) {slot : Int64} (hslot : 0 < slot.toInt) :
    (if since % slot < 0 then since % slot + slot else since % slot).toInt = since.toInt % slot.toInt := by
  have hzero : (0 : Int64).toInt = 0 := rfl
  have hlt := Int64.toInt_lt slot
  have hnonneg := Int.emod_nonneg since.toInt hslot.ne'
  have hbound := Int.emod_lt_of_pos since.toInt hslot
  have hmod : (since % slot).toInt = since.toInt.tmod slot.toInt := Int64.toInt_mod _ _
  rw [Int.tmod_eq_emod] at hmod
  split_ifs at hmod with hsign
  · rw [if_neg (by rw [Int64.lt_iff_toInt_lt, hmod, hzero]; omega), hmod]
    omega
  · have hpos : 0 < since.toInt % slot.toInt := by
      have hne : since.toInt % slot.toInt ≠ 0 := fun h => hsign (Or.inr (Int.dvd_of_emod_eq_zero h))
      omega
    rw [if_pos (by rw [Int64.lt_iff_toInt_lt, hmod, hzero]; omega), Int64.toInt_add, hmod,
      Int.bmod_eq_of_le (by omega) (by omega)]
    omega

section Expiry

variable (cfg : Config) (pool : Pool) (t : Instant) (policyTTL : Int64) (path : String)

def Config.expiry (now : ℤ) : Option ℤ :=
  let ttl := cfg.effectiveCacheTTL pool now policyTTL path
  if 0 < ttl then some (now + ttl.toInt) else none

def Config.ExpiresInSlot : Prop :=
  ∃ expires, cfg.expiry pool policyTTL path t.nanos = some expires ∧
    expires ≤ max (nextSlotStart cfg.genesisTime.toInt cfg.secondsPerSlot.toInt t.nanos) (t.nanos + 1000000000) ∧
    expires ≤ t.nanos + policyTTL.toInt

def Config.room : ℤ :=
  max (secondsLeft (t.sec.toInt - cfg.genesisTime.toInt) cfg.secondsPerSlot.toInt * 1000000000 - t.nsec) 1000000000

/-- The policy is short enough, or the whole seconds left are exact or too many for a duration. Where the
seconds since genesis do not fit into a word, the slot is that of the wrapped number. -/
def Config.SlotSafe : Prop :=
  let since := t.sec.toInt - cfg.genesisTime.toInt
  let left := secondsLeft since cfg.secondsPerSlot.toInt
  policyTTL.toInt ≤ cfg.room t ∨
    (-2 ^ 63 ≤ since ∧ (t.nsec = 0 ∨ left = 1 ∨ 2 ^ 63 ≤ left * 1000000000)) ∨
    (since < -2 ^ 63 ∧
      (secondsLeft (since + 2 ^ 64) cfg.secondsPerSlot.toInt * 1000000000).bmod (2 ^ 64) ≤ cfg.room t)

end Expiry

section Safe

variable {cfg : Config} {pool : Pool} {t : Instant} {policyTTL : Int64} {path : String}

theorem toInt_remaining (left : Int64) :
    (if left * 1000000000 < 1000000000 then 1000000000 else left * 1000000000).toInt =
      max ((left.toInt * 1000000000).bmod (2 ^ 64)) 1000000000 := by
  have hsecond : (1000000000 : Int64).toInt = 1000000000 := rfl
  have hmul : (left * 1000000000).toInt = (left.toInt * 1000000000).bmod (2 ^ 64) := by
    rw [Int64.toInt_mul, hsecond]
  split_ifs with h
  · rw [Int64.lt_iff_toInt_lt, hmul, hsecond] at h
    omega
  · rw [Int64.lt_iff_toInt_lt, hmul, hsecond] at h
    omega

theorem toInt_effectiveCacheTTL (hgenesis : 0 < cfg.genesisTime) (hslot : 0 < cfg.secondsPerSlot)
    (hnamed : pathHasNamedSlotID path = true)
    (hfinal : isFinalizedPath path pool.heads.finalizedEpoch pool.heads.slotsPerEpochOrDefault = false)
    (hpolicy : 0 < policyTTL) :
    (cfg.effectiveCacheTTL pool t.nanos policyTTL path).toInt =
      min (max ((secondsLeft ((t.sec.toInt - cfg.genesisTime.toInt).bmod (2 ^ 64)) cfg.secondsPerSlot.toInt *
        1000000000).bmod (2 ^ 64)) 1000000000) policyTTL.toInt := by
  have hpos : 0 < cfg.secondsPerSlot.toInt := Int64.lt_iff_toInt_lt.mp hslot
  have hgne : cfg.genesisTime ≠ 0 := by
    rintro hzero
    rw [hzero] at hgenesis
    exact absurd hgenesis (by decide)
  have hslotle : ¬ cfg.secondsPerSlot ≤ 0 := by
    rw [Int64.le_iff_toInt_le]
    exact not_le.mpr hpos
  unfold Config.effectiveCacheTTL
  rw [hfinal, if_neg Bool.false_ne_true, if_pos ⟨hpolicy, hgne, hnamed⟩]
  dsimp only
  rw [if_neg hslotle, unixSeconds_nanos]
  have helapsed := toInt_elapsed (t.sec - cfg.genesisTime) hpos
  rw [Int64.toInt_sub] at helapsed
  generalize (if (t.sec - cfg.genesisTime) % cfg.secondsPerSlot < 0
    then (t.sec - cfg.genesisTime) % cfg.secondsPerSlot + cfg.secondsPerSlot
    else (t.sec - cfg.genesisTime) % cfg.secondsPerSlot) = elapsed at helapsed ⊢
  have hleft : (cfg.secondsPerSlot - elapsed).toInt =
      secondsLeft ((t.sec.toInt - cfg.genesisTime.toInt).bmod (2 ^ 64)) cfg.secondsPerSlot.toInt := by
    have hbounds := secondsLeft_bounds ((t.sec.toInt - cfg.genesisTime.toInt).bmod (2 ^ 64)) hpos
    have hlt := Int64.toInt_lt cfg.secondsPerSlot
    unfold secondsLeft at *
    rw [Int64.toInt_sub, helapsed, Int.bmod_eq_of_le (by omega) (by omega)]
  have hremaining := toInt_remaining (cfg.secondsPerSlot - elapsed)
  rw [hleft] at hremaining
  rw [← hremaining]
  split_ifs with h h' h'
  all_goals
    rw [Int64.lt_iff_toInt_lt] at h'
    omega

theorem remaining_le_iff {left nsec : ℤ} (hleft : 1 ≤ left) (hnonneg : 0 ≤ nsec) (hlt : nsec < 1000000000) :
    max ((left * 1000000000).bmod (2 ^ 64)) 1000000000 ≤ max (left * 1000000000 - nsec) 1000000000 ↔
      nsec = 0 ∨ left = 1 ∨ 2 ^ 63 ≤ left * 1000000000 := by
  by_cases hfits : left * 1000000000 < 2 ^ 63
  · rw [Int.bmod_eq_of_le (by omega) (by omega)]
    omega
  · -- the wrapped product is at least 2 ^ 64 below the exact one
    obtain ⟨m, hm, -, hlow⟩ := Words.bmod_shift (left * 1000000000)
    omega

theorem expiresInSlot_iff (cfg : Config) (pool : Pool) (t : Instant) (policyTTL : Int64) (path : String)
    (hgenesis : 0 < cfg.genesisTime) (hslot : 0 < cfg.secondsPerSlot) (hnamed : pathHasNamedSlotID path = true)
    (hfinal : isFinalizedPath path pool.heads.finalizedEpoch pool.heads.slotsPerEpochOrDefault = false)
    (hpolicy : 0 < policyTTL) :
    cfg.ExpiresInSlot pool t policyTTL path ↔ cfg.SlotSafe t policyTTL := by
  have hpos : 0 < cfg.secondsPerSlot.toInt := Int64.lt_iff_toInt_lt.mp hslot
  have hpolicyPos : 0 < policyTTL.toInt := Int64.lt_iff_toInt_lt.mp hpolicy
  have hgenesisPos : 0 < cfg.genesisTime.toInt := Int64.lt_iff_toInt_lt.mp hgenesis
  have hsec := Int64.toInt_lt t.sec
  have hsecLe := Int64.le_toInt t.sec
  have hgenesisLt := Int64.toInt_lt cfg.genesisTime
  have hnsec := t.nsec_lt
  have hnext := nextSlotStart_sub cfg.genesisTime.toInt cfg.secondsPerSlot.toInt t
  have hleft := secondsLeft_bounds (t.sec.toInt - cfg.genesisTime.toInt) hpos
  have hexact := remaining_le_iff hleft.1 (Int.natCast_nonneg t.nsec) (by omega)
  have httl := toInt_effectiveCacheTTL (t := t) hgenesis hslot hnamed hfinal hpolicy
  -- the entry expires, and its time to live is within the room exactly if it is within the slot
  have hroom : cfg.ExpiresInSlot pool t policyTTL path ↔
      (cfg.effectiveCacheTTL pool t.nanos policyTTL path).toInt ≤ cfg.room t := by
    have hzero : (0 : Int64).toInt = 0 := rfl
    have hlive : 0 < cfg.effectiveCacheTTL pool t.nanos policyTTL path := by
      rw [Int64.lt_iff_toInt_lt, httl, hzero]
      omega
    unfold Config.ExpiresInSlot Config.expiry Config.room
    dsimp only
    rw [if_pos hlive]
    simp only [Option.some.injEq, exists_eq_left']
    omega
  rw [hroom, httl, min_le_iff, or_comm]
  unfold Config.SlotSafe
  dsimp only
  refine or_congr Iff.rfl ?_
  obtain ⟨m, hshift, hlow, hhigh⟩ := Words.bmod_shift (t.sec.toInt - cfg.genesisTime.toInt)
  by_cases hsince : -2 ^ 63 ≤ t.sec.toInt - cfg.genesisTime.toInt
  · have hkept : (t.sec.toInt - cfg.genesisTime.toInt).bmod (2 ^ 64) =
        t.sec.toInt - cfg.genesisTime.toInt := by omega
    rw [hkept]
    unfold Config.room
    rw [hexact]
    omega
  · have hwrap : (t.sec.toInt - cfg.genesisTime.toInt).bmod (2 ^ 64) =
        t.sec.toInt - cfg.genesisTime.toInt + 2 ^ 64 := by omega
    have hroomLe : 1000000000 ≤ cfg.room t := le_max_right _ _
    rw [hwrap]
    omega

def mainnetTiming : Config := { Config.caching [] with genesisTime := 1606824023, secondsPerSlot := 12 }

def afterGenesis (sec : Int64) (nsec : Fin 1000000000) : Instant := ⟨1606824023 + sec, nsec, nsec.isLt⟩

theorem expiresInSlot_iff_start :
    mainnetTiming.ExpiresInSlot (.allReady []) (afterGenesis 10 0) 4000000000 "/eth/v1/beacon/headers/head" :=
  (expiresInSlot_iff _ _ _ _ _ (by decide) (by decide) (by decide) (by decide) (by decide)).mpr
    (Or.inr (Or.inl ⟨by decide, Or.inl rfl⟩))

theorem head_crosses_slot :
    ¬ mainnetTiming.ExpiresInSlot (.allReady []) (afterGenesis 10 500000000) 4000000000
      "/eth/v1/beacon/headers/head" := by
  rintro ⟨expires, hexpires, hslot, -⟩
  have hrun : mainnetTiming.expiry (.allReady []) 4000000000 "/eth/v1/beacon/headers/head"
      (afterGenesis 10 500000000).nanos = some ((afterGenesis 10 500000000).nanos + 2000000000) := by decide
  cases hrun.symm.trans hexpires
  exact absurd hslot (by decide)

end Safe

end EBeacon.Network
