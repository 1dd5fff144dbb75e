import EBeacon.Network.Classifiers
import EBeacon.Network.Server

/-!
A `chain_reorg` event carries the slot of the new head and the depth of the reorganisation, which has
replaced blocks in the slots above their difference.
-/

namespace EBeacon.Network

open Text Cache

def Orphaned (slot depth : ℕ) (key : String) : Prop :=
  pathHasNamedSlotID (cacheKeyPath key) = true ∨
    ∃ n, pathNumericSlot (cacheKeyPath key) = some n ∧ slot < n.toNat + depth

def Settled (slot depth : ℕ) (key : String) : Prop :=
  ∃ n, pathNumericSlot (cacheKeyPath key) = some n ∧ n.toNat + depth ≤ slot

theorem reorgPurges_iff {reorgSlot : UInt64} {key : String} : reorgPurges reorgSlot key = true ↔
    pathHasNamedSlotID (cacheKeyPath key) = true ∨
      ∃ n, pathNumericSlot (cacheKeyPath key) = some n ∧ reorgSlot.toNat ≤ n.toNat := by
  have hread : cacheKeyPath key = "" →
      pathHasNamedSlotID (cacheKeyPath key) = false ∧ pathNumericSlot (cacheKeyPath key) = none := by
    intro hempty
    rw [hempty]
    decide
  unfold reorgPurges
  dsimp only
  by_cases hempty : cacheKeyPath key = ""
  · simp [hread hempty]
  · simp [hempty, Option.any_eq_true, UInt64.le_iff_toNat_le]

namespace Server

variable (cfg : Config) (s : Server) (slot : String) (now : ℤ)

def ReorgCovered (S depth : ℕ) : Prop :=
  (∀ e ∈ (s.chainReorg cfg slot now).store.lru, e.expired now = false → cfg.ownsKey e.key = true →
    ¬ Orphaned S depth e.key) ∧
  ∀ e ∈ s.store.lru, e.expired now = false → cfg.ownsKey e.key = false ∨ Settled S depth e.key →
    e ∈ (s.chainReorg cfg slot now).store.lru

def NoneBelowHead (S depth : ℕ) : Prop :=
  ∀ e ∈ s.store.lru, e.expired now = false → cfg.ownsKey e.key = true →
    (S = 0 → ¬ Orphaned S depth e.key) ∧
      ∀ n, pathNumericSlot (cacheKeyPath e.key) = some n → S < n.toNat + depth → S ≤ n.toNat

variable {cfg s slot now} {S : UInt64} {depth : ℕ}

theorem mem_chainReorg {e : Entry Stored} (hcache : cfg.policies.isSome = true) (hslot : parseUint64 slot = some S)
    (hlive : e.expired now = false) :
    e ∈ (s.chainReorg cfg slot now).store.lru ↔
      e ∈ s.store.lru ∧ (S = 0 ∨ cfg.ownsKey e.key = false ∨ reorgPurges S e.key = false) := by
  unfold chainReorg
  rw [if_neg (by simpa [Option.isSome_iff_ne_none] using hcache), hslot]
  by_cases hzero : S = 0
  · simp [hzero, Option.filter]
  · have hfilter : (some S).filter (· ≠ 0) = some S := by simp [Option.filter, hzero]
    rw [hfilter]
    dsimp only
    rw [MemoryStore.mem_purgeCollect_iff, Bool.and_eq_false_iff]
    simp [hlive, hzero]

theorem not_reorgPurges_of_settled {key : String} (hdepth : 1 ≤ depth) (h : Settled S.toNat depth key) :
    reorgPurges S key = false := by
  obtain ⟨n, hn, hle⟩ := h
  rw [Bool.eq_false_iff]
  intro hpurges
  rcases reorgPurges_iff.mp hpurges with hnamed | ⟨m, hm, hlow⟩
  · rw [(numeric_not_named hn).1] at hnamed
    cases hnamed
  · cases hn.symm.trans hm
    omega

/-- Entries for replaced slots below the new head stay in the cache. -/
theorem reorgCovered_iff (hcache : cfg.policies.isSome = true) (hslot : parseUint64 slot = some S)
    (hdepth : 1 ≤ depth) :
    s.ReorgCovered cfg slot now S.toNat depth ↔ s.NoneBelowHead cfg now S.toNat depth := by
  have hzero : S = 0 ↔ S.toNat = 0 := UInt64.toNat_inj.symm
  constructor
  · rintro ⟨hpurged, -⟩ e he hlive howns
    constructor
    · intro hS
      exact hpurged e ((mem_chainReorg hcache hslot hlive).mpr ⟨he, Or.inl (hzero.mpr hS)⟩) hlive howns
    · intro n hn hlt
      by_contra hlow
      have hkept : reorgPurges S e.key = false := by
        rw [Bool.eq_false_iff]
        intro hpurges
        rcases reorgPurges_iff.mp hpurges with hnamed | ⟨m, hm, hle⟩
        · rw [(numeric_not_named hn).1] at hnamed
          cases hnamed
        · cases hn.symm.trans hm
          exact hlow hle
      have hin := (mem_chainReorg hcache hslot hlive).mpr ⟨he, Or.inr (Or.inr hkept)⟩
      exact hpurged e hin hlive howns (Or.inr ⟨n, hn, hlt⟩)
  · intro hnone
    constructor
    · intro e he hlive howns horphaned
      obtain ⟨hin, hkept⟩ := (mem_chainReorg hcache hslot hlive).mp he
      obtain ⟨hgenesis, hbelow⟩ := hnone e hin hlive howns
      rcases hkept with hS | hother | hkept
      · exact hgenesis (hzero.mp hS) horphaned
      · rw [howns] at hother
        cases hother
      · rw [Bool.eq_false_iff, ne_eq, reorgPurges_iff, not_or] at hkept
        rcases horphaned with hnamed | ⟨n, hn, hlt⟩
        · exact hkept.1 hnamed
        · exact hkept.2 ⟨n, hn, hbelow n hn hlt⟩
    · rintro e he hlive (hother | hsettled)
      · exact (mem_chainReorg hcache hslot hlive).mpr ⟨he, Or.inr (Or.inl hother)⟩
      · exact (mem_chainReorg hcache hslot hlive).mpr
          ⟨he, Or.inr (Or.inr (not_reorgPurges_of_settled hdepth hsettled))⟩

def cachedHeader (slot : String) : Server :=
  let s := Server.init (.allReady [⟨"a", false⟩]) 16
  let header : Stored := ⟨⟨200, "application/json", "header"⟩, ⟨⟨"a", false⟩, s.pool, 0⟩⟩
  s.put (some ⟨"mainnet:GET:/eth/v1/beacon/headers/" ++ slot, header, none⟩)

theorem mem_cachedHeader {slot : String} {e : Entry Stored} (h : e ∈ (cachedHeader slot).store.lru) :
    e.key = "mainnet:GET:/eth/v1/beacon/headers/" ++ slot := by
  have hone : (cachedHeader slot).store.lru = [_] := rfl
  rw [hone, List.mem_singleton] at h
  rw [h]

theorem reorgCovered_iff_head : (cachedHeader "101").ReorgCovered (.caching []) "100" 0 100 3 :=
  (reorgCovered_iff (S := 100) rfl (by decide) (by decide)).mpr (by
    intro e he hlive howns
    rw [mem_cachedHeader he]
    refine ⟨fun h => absurd h (by decide), fun n hn hlt => ?_⟩
    have hslot : pathNumericSlot (cacheKeyPath ("mainnet:GET:/eth/v1/beacon/headers/" ++ "101")) = some 101 := by
      decide
    cases hslot.symm.trans hn
    decide)

theorem deep_reorg_keeps_header : ¬ (cachedHeader "98").ReorgCovered (.caching []) "100" 0 100 3 := by
  rintro ⟨hpurged, -⟩
  have hone : ∃ e, (cachedHeader "98").store.lru = [e] ∧ e.expires = none := ⟨_, rfl, rfl⟩
  obtain ⟨e, he, hexpires⟩ := hone
  have hin : e ∈ (cachedHeader "98").store.lru := by simp [he]
  have hkey := mem_cachedHeader hin
  have hlive : e.expired 0 = false := by simp [Entry.expired, hexpires]
  have hkept : e ∈ ((cachedHeader "98").chainReorg (.caching []) "100" 0).store.lru := by
    refine (mem_chainReorg (S := 100) rfl (by decide) hlive).mpr ⟨hin, Or.inr (Or.inr ?_)⟩
    rw [hkey]
    decide
  refine hpurged e hkept hlive (by rw [hkey]; decide) (Or.inr ⟨98, ?_, by decide⟩)
  rw [hkey]
  decide

end Server

end EBeacon.Network
