import EBeacon.Library.Election
import EBeacon.Network.Execute
import Mathlib.Data.Set.Function

namespace EBeacon.Network

open Upstream

structure ConsensusPolicy where
  maxParticipants : ℕ
  agreementThreshold : ℕ
  maxBodyBytes : Int64
  deriving DecidableEq

inductive Outcome
  | buildFailed
  | gated
  | failed (canceled : Bool)
  | replied (status : ℕ) (headers : List (String × String)) (body : Body)

inductive ParticipantError
  | buildRequest
  | circuitUnavailable
  | transport (canceled : Bool)
  | read (e : ReadError)
  deriving DecidableEq

structure ConsensusResult where
  status : ℕ := 0
  headers : List (String × String) := []
  body : String := ""
  upstream : Option Upstream := none
  err : Option ParticipantError := none
  deriving DecidableEq

inductive ConsensusError
  | noUpstreams
  | unavailable (gated participants needed : ℕ)
  | notReached (participants needed : ℕ)
  deriving DecidableEq

def ConsensusError.wrapsCircuitUnavailable : ConsensusError → Bool
  | .unavailable _ _ _ => true
  | _ => false

namespace ConsensusResult

def pair (r : ConsensusResult) : Option (ℕ × String) :=
  if r.err = none then some (r.status, r.body) else none

def isGated (r : ConsensusResult) : Bool := r.err = some .circuitUnavailable

variable {δ : Type} (hash : String → δ)

def bodyKey (r : ConsensusResult) : Option (ℕ × δ) := r.pair.map (fun p => (p.1, hash p.2))

end ConsensusResult

namespace ConsensusPolicy

variable {δ : Type} [DecidableEq δ] (cp : ConsensusPolicy) (hash : String → δ)
  (upstreams : List Upstream) (outcome : ℕ → Outcome) (order : List ℕ)

def participate (idx : ℕ) : ConsensusResult :=
  let u := upstreams[idx]?
  match outcome idx with
  | .buildFailed => { upstream := u, err := some .buildRequest }
  | .gated => { upstream := u, err := some .circuitUnavailable }
  | .failed canceled => { upstream := u, err := some (.transport canceled) }
  | .replied status headers body =>
    match readBodyCapped body cp.maxBodyBytes with
    | .ok content => { status := status, headers := headers, body := content, upstream := u }
    | .error e => { upstream := u, err := some (.read e) }

def participants : ℕ := min cp.maxParticipants upstreams.length

def results : List ConsensusResult :=
  order.foldl (fun rs idx => rs.set idx (cp.participate upstreams outcome idx))
    (List.replicate (cp.participants upstreams) {})

def counts (rs : List ConsensusResult) : ℕ × δ → ℕ :=
  rs.foldl (fun counts r => match r.bodyKey hash with
    | none => counts
    | some key => Function.update counts key (counts key + 1)) (fun _ => 0)

def support (rs : List ConsensusResult) (r : ConsensusResult) : ℕ :=
  ((r.bodyKey hash).map (counts hash rs)).getD 0

def execute : Except ConsensusError ConsensusResult :=
  let n := cp.participants upstreams
  if n = 0 then .error .noUpstreams
  else
    let rs := cp.results upstreams outcome order
    let (best, bestCount) := rs.foldl (Election.raise (support hash rs)) (none, 0)
    if cp.agreementThreshold ≤ bestCount then .ok (best.getD {})
    else
      let gated := rs.countP ConsensusResult.isGated
      if 0 < gated ∧ n - gated < cp.agreementThreshold then
        .error (.unavailable gated n cp.agreementThreshold)
      else .error (.notReached n cp.agreementThreshold)

def finished : List ConsensusResult :=
  (List.range (cp.participants upstreams)).map (cp.participate upstreams outcome)

def supporters (p : ℕ × String) : ℕ :=
  (cp.finished upstreams outcome).countP (fun r => r.pair = some p)

theorem getElem?_foldl_set {α : Type} (f : ℕ → α) (order : List ℕ) (l : List α) (j : ℕ) :
    (order.foldl (fun l i => l.set i (f i)) l)[j]? =
      if j ∈ order then l[j]?.map (fun _ => f j) else l[j]? := by
  induction order generalizing l with
  | nil => simp
  | cons i order ih =>
    rw [List.foldl_cons, ih, List.getElem?_set]
    by_cases hij : i = j
    · subst hij
      by_cases hlt : i < l.length
      · simp [hlt]
      · simp [hlt]
    · simp [hij, Ne.symm hij]

variable {cp upstreams outcome order}

theorem results_eq (h : order.Perm (List.range (cp.participants upstreams))) :
    cp.results upstreams outcome order = cp.finished upstreams outcome := by
  apply List.ext_getElem?
  intro j
  rw [results, getElem?_foldl_set, finished, List.getElem?_map]
  by_cases hj : j < cp.participants upstreams
  · have hmem : j ∈ order := h.mem_iff.mpr (List.mem_range.mpr hj)
    simp [hmem, hj]
  · have hmem : j ∉ order := fun hin => hj (List.mem_range.mp (h.mem_iff.mp hin))
    simp [hmem, hj]

theorem counts_eq (rs : List ConsensusResult) (key : ℕ × δ) :
    counts hash rs key = rs.countP (fun r => r.bodyKey hash = some key) := by
  induction rs using List.reverseRecOn with
  | nil => rfl
  | append_singleton rs r ih =>
    rw [counts, List.foldl_append, List.foldl_cons, List.foldl_nil, List.countP_append]
    change (match r.bodyKey hash with
      | none => counts hash rs
      | some k => Function.update (counts hash rs) k (counts hash rs k + 1)) key = _
    cases hk : r.bodyKey hash with
    | none => simp [hk, ih]
    | some k =>
      by_cases hkey : k = key
      · subst hkey
        simp [hk, ih]
      · simp [hk, ih, hkey, Ne.symm hkey]

section Support

variable {hash} {rs : List ConsensusResult} {r : ConsensusResult}

theorem support_of_error (hr : r.pair = none) : support hash rs r = 0 := by
  simp [support, ConsensusResult.bodyKey, hr]

theorem support_of_pair (hinj : Set.InjOn hash {body | ∃ r ∈ rs, ∃ status, r.pair = some (status, body)})
    (hr : r ∈ rs) {p : ℕ × String} (hp : r.pair = some p) :
    support hash rs r = rs.countP (fun r' => r'.pair = some p) := by
  have hkey : r.bodyKey hash = some (p.1, hash p.2) := by simp [ConsensusResult.bodyKey, hp]
  rw [support, hkey, Option.map_some, Option.getD_some, counts_eq]
  apply List.countP_congr
  intro r' hr'
  simp only [decide_eq_true_eq]
  constructor
  · intro h
    cases hp' : r'.pair with
    | none => simp [ConsensusResult.bodyKey, hp'] at h
    | some p' =>
      simp only [ConsensusResult.bodyKey, hp', Option.map_some, Option.some.injEq, Prod.mk.injEq] at h
      have hbody : p'.2 = p.2 := hinj ⟨r', hr', p'.1, hp'⟩ ⟨r, hr, p.1, hp⟩ h.2
      exact congrArg some (Prod.ext h.1 hbody)
  · intro h
    simp [ConsensusResult.bodyKey, h]

theorem pair_of_support (hpos : 0 < support hash rs r) : ∃ p, r.pair = some p := by
  cases hp : r.pair with
  | none =>
    rw [support_of_error hp] at hpos
    omega
  | some p => exact ⟨p, rfl⟩

end Support

variable (outcome) in
theorem finished_getElem? {idx : ℕ} (h : idx < cp.participants upstreams) :
    (cp.finished upstreams outcome)[idx]? = some (cp.participate upstreams outcome idx) := by
  simp [finished, h]

section Winner

variable {hash} (hhash : Set.InjOn hash
  {body | ∃ r ∈ cp.finished upstreams outcome, ∃ status, r.pair = some (status, body)})
include hhash

theorem supporters_le {bound : ℕ}
    (h : ∀ r ∈ cp.finished upstreams outcome, support hash (cp.finished upstreams outcome) r ≤ bound)
    (p : ℕ × String) : cp.supporters upstreams outcome p ≤ bound := by
  by_cases hzero : cp.supporters upstreams outcome p = 0
  · omega
  · obtain ⟨r, hr, hp⟩ := List.countP_pos_iff.mp (Nat.pos_of_ne_zero hzero)
    have hsupport := support_of_pair hhash hr (of_decide_eq_true hp)
    have hle := h r hr
    rw [hsupport] at hle
    exact hle

theorem winner {r : ConsensusResult} {count : ℕ}
    (h : Election.First (support hash (cp.finished upstreams outcome)) (cp.finished upstreams outcome)
      (some r, count)) :
    ∃ idx < cp.participants upstreams, r = cp.participate upstreams outcome idx ∧
      ∃ p, r.pair = some p ∧ count = cp.supporters upstreams outcome p ∧
        (∀ p', cp.supporters upstreams outcome p' ≤ cp.supporters upstreams outcome p) ∧
        ∀ j < idx, ∀ p', (cp.participate upstreams outcome j).pair = some p' →
          cp.supporters upstreams outcome p' < cp.supporters upstreams outcome p := by
  obtain ⟨hcount, hpos, hmax, before, after, hsplit, hbefore⟩ := h
  have hr : r ∈ cp.finished upstreams outcome := by rw [hsplit]; simp
  obtain ⟨p, hp⟩ := pair_of_support hpos
  have hsupport : support hash (cp.finished upstreams outcome) r = cp.supporters upstreams outcome p :=
    support_of_pair hhash hr hp
  have hlen : before.length < cp.participants upstreams := by
    have hlength := congrArg List.length hsplit
    simp only [finished, List.length_map, List.length_range, List.length_append,
      List.length_cons] at hlength
    omega
  have hat : r = cp.participate upstreams outcome before.length := by
    have hget := finished_getElem? outcome hlen
    rw [hsplit, List.getElem?_append_right (Nat.le_refl _), Nat.sub_self] at hget
    exact Option.some.inj hget
  refine ⟨before.length, hlen, hat, p, hp, hcount.trans hsupport, ?_, ?_⟩
  · intro p'
    rw [← hsupport]
    exact supporters_le hhash hmax p'
  · intro j hj p' hp'
    have hget := finished_getElem? outcome (hj.trans hlen)
    rw [hsplit, List.getElem?_append_left hj] at hget
    have hlt := hbefore _ (List.mem_of_getElem? hget)
    have hin : cp.participate upstreams outcome j ∈ cp.finished upstreams outcome := by
      rw [hsplit]
      exact List.mem_append_left _ (List.mem_of_getElem? hget)
    rw [support_of_pair hhash hin hp', hsupport] at hlt
    exact hlt

end Winner

theorem gated_split :
    cp.participants upstreams - (cp.finished upstreams outcome).countP ConsensusResult.isGated =
      (cp.finished upstreams outcome).countP (fun r => !r.isGated) := by
  have hlength : (cp.finished upstreams outcome).length = cp.participants upstreams := by
    simp [finished]
  have hsplit := List.length_eq_countP_add_countP ConsensusResult.isGated (l := cp.finished upstreams outcome)
  simp only [Bool.not_eq_true] at hsplit
  have hnot : (cp.finished upstreams outcome).countP (fun r => decide (r.isGated = false)) =
      (cp.finished upstreams outcome).countP (fun r => !r.isGated) := by
    apply List.countP_congr
    intro r _
    simp
  omega

variable (cp upstreams outcome) in
def Gated : Prop :=
  0 < (cp.finished upstreams outcome).countP ConsensusResult.isGated ∧
    (cp.finished upstreams outcome).countP (fun r => !r.isGated) < cp.agreementThreshold

variable (outcome) in
theorem execute_cases (horder : order.Perm (List.range (cp.participants upstreams))) :
    ∃ best count, Election.First (support hash (cp.finished upstreams outcome))
        (cp.finished upstreams outcome) (best, count) ∧
      (cp.agreementThreshold ≤ count ∧ cp.finished upstreams outcome ≠ [] ∧
          cp.execute hash upstreams outcome order = .ok (best.getD {}) ∨
        (count < cp.agreementThreshold ∨ cp.finished upstreams outcome = []) ∧
          ∃ e, cp.execute hash upstreams outcome order = .error e ∧
            (e.wrapsCircuitUnavailable = true ↔ cp.Gated upstreams outcome)) := by
  refine ⟨_, _, Election.first_scan _ _, ?_⟩
  unfold execute Gated
  dsimp only
  rw [results_eq horder, ← gated_split]
  by_cases hn : cp.participants upstreams = 0
  · have hnone : cp.finished upstreams outcome = [] := by simp [finished, hn]
    right
    exact ⟨Or.inr hnone, _, if_pos hn, by simp [hnone, ConsensusError.wrapsCircuitUnavailable]⟩
  · have hsome : cp.finished upstreams outcome ≠ [] := by simp [finished, hn]
    rw [if_neg hn]
    split_ifs with hreached hgated
    · exact Or.inl ⟨hreached, hsome, rfl⟩
    · exact Or.inr ⟨Or.inl (Nat.lt_of_not_le hreached), _, rfl, iff_of_true rfl hgated⟩
    · exact Or.inr ⟨Or.inl (Nat.lt_of_not_le hreached), _, rfl, iff_of_false Bool.false_ne_true hgated⟩

/-- A response is returned exactly when enough participants agree. It is that of the earliest
participant in a largest group. The error tells whether gates kept the participants from agreeing. -/
theorem agreement (hthreshold : 1 ≤ cp.agreementThreshold)
    (horder : order.Perm (List.range (cp.participants upstreams)))
    (hhash : Set.InjOn hash
      {body | ∃ r ∈ cp.finished upstreams outcome, ∃ status, r.pair = some (status, body)}) :
    ((∃ r, cp.execute hash upstreams outcome order = .ok r) ↔
        ∃ p, cp.agreementThreshold ≤ cp.supporters upstreams outcome p) ∧
      (∀ r, cp.execute hash upstreams outcome order = .ok r →
        ∃ idx < cp.participants upstreams, r = cp.participate upstreams outcome idx ∧
          ∃ p, r.pair = some p ∧
            (∀ p', cp.supporters upstreams outcome p' ≤ cp.supporters upstreams outcome p) ∧
            ∀ j < idx, ∀ p', (cp.participate upstreams outcome j).pair = some p' →
              cp.supporters upstreams outcome p' < cp.supporters upstreams outcome p) ∧
      ∀ e, cp.execute hash upstreams outcome order = .error e →
        (e.wrapsCircuitUnavailable = true ↔ cp.Gated upstreams outcome) := by
  obtain ⟨best, count, hfirst, hend⟩ := execute_cases hash outcome horder
  have hbound : ∀ p, cp.supporters upstreams outcome p ≤ count := by
    apply supporters_le hhash
    intro r hr
    cases best with
    | none => exact (Nat.le_of_eq (hfirst.2 r hr)).trans (Nat.zero_le count)
    | some b => exact (hfirst.2.2.1 r hr).trans (Nat.le_of_eq hfirst.1.symm)
  rcases hend with ⟨hreached, -, hok⟩ | ⟨hfailed, e, herror, hwraps⟩
  · cases best with
    | none =>
      have hcount : count = 0 := hfirst.1
      omega
    | some r =>
      obtain ⟨idx, hidx, hr, p, hp, hcount, hmost, hearliest⟩ := winner hhash hfirst
      rw [hok]
      refine ⟨iff_of_true ⟨_, rfl⟩ ⟨p, hcount ▸ hreached⟩, ?_, nofun⟩
      rintro _ ⟨⟩
      exact ⟨idx, hidx, hr, p, hp, hmost, hearliest⟩
  · rw [herror]
    have hfew : ∀ p, cp.supporters upstreams outcome p < cp.agreementThreshold := by
      intro p
      rcases hfailed with hlt | hnone
      · exact (hbound p).trans_lt hlt
      · simp only [supporters, hnone, List.countP_nil]
        omega
    refine ⟨iff_of_false nofun ?_, nofun, ?_⟩
    · rintro ⟨p, hp⟩
      exact absurd (hfew p) (Nat.not_lt.mpr hp)
    · rintro _ ⟨⟩
      exact hwraps

section Example

def anyGroup : ConsensusPolicy := ⟨3, 1, 0⟩

def threeNodes : List Upstream := [⟨"a", false⟩, ⟨"b", false⟩, ⟨"c", false⟩]

def twoAgree (idx : ℕ) : Outcome := .replied 200 [] (.whole (if idx = 1 then "minority" else "majority"))

theorem agreement_largestGroup :
    ∃ r, anyGroup.execute id threeNodes twoAgree [1, 2, 0] = .ok r ∧
      ∃ p, r.pair = some p ∧
        ∀ p', anyGroup.supporters threeNodes twoAgree p' ≤ anyGroup.supporters threeNodes twoAgree p := by
  have horder : [1, 2, 0].Perm (List.range (anyGroup.participants threeNodes)) := by decide
  have hagreed : anyGroup.agreementThreshold ≤ anyGroup.supporters threeNodes twoAgree (200, "majority") := by
    decide
  obtain ⟨hiff, hbest, -⟩ := agreement id (Nat.le_refl 1) horder (Function.injective_id.injOn)
  obtain ⟨r, hr⟩ := hiff.mpr ⟨_, hagreed⟩
  obtain ⟨idx, -, -, p, hp, hmost, -⟩ := hbest r hr
  exact ⟨r, hr, p, hp, hmost⟩

end Example

end ConsensusPolicy

end EBeacon.Network
