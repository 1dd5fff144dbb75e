import EBeacon.Network.HedgeTurns
import Mathlib.Algebra.BigOperators.Group.Multiset.Basic
import Mathlib.Algebra.Order.Group.Multiset
import Mathlib.Tactic.Abel

namespace EBeacon.Network

open Upstream Proc

def Turn.claims (g : Turn) : Multiset String :=
  (match g.ready with
    | none => 0
    | some t => {t.upstream}) +
  match g.role with
    | .worker (some u) => {u.id}
    | _ => 0

structure Sends (limit : ℕ) (sent : Multiset String) (G : Multiset Turn) : Prop where
  main : G.countP (fun g => g.role = .main) = 1
  nodup : (sent + (G.map Turn.claims).sum).Nodup
  tried : ∀ g ∈ G, g.role = .main → ∀ x ∈ sent + (G.map Turn.claims).sum, ∃ u ∈ g.tried, u.id = x
  hedged : ∀ g ∈ G, g.role = .main → g.hedged = true → 2 ≤ G.card
  count : ∀ g ∈ G, g.role = .main → g.hedged = true ∨ g.tried.length ≤ limit + 1

structure Results (channel : List HedgeResult) (G : Multiset Turn) : Prop where
  reader : G.countP (fun g => g.reader = true) ≤ 1
  waiting : ∀ g ∈ G, g.waiting ≠ 0 → g.reader = true
  owing : ∀ g ∈ G, g.owes ≠ 0 → g.reader = false
  balance : (G.map Turn.waiting).sum = (G.map Turn.owes).sum + (channel.map (·.upstream) : List Upstream)

variable {limit : ℕ} {sent : Multiset String} {g g' : Turn} {G : Multiset Turn} {u : Upstream}

namespace Sends

theorem others_workers (h : Sends limit sent (g ::ₘ G)) (hg : g.role = .main) : ∀ x ∈ G, x.role ≠ .main := by
  have hone := h.main
  simp only [Multiset.countP_cons, hg, if_true] at hone
  exact Multiset.countP_eq_zero.mp (by omega)

theorem exists_main (h : Sends limit sent G) : ∃ g ∈ G, g.role = .main := by
  have hpos : 0 < G.countP (fun g => g.role = .main) := by
    rw [h.main]
    exact Nat.one_pos
  exact Multiset.countP_pos.mp hpos

theorem replace {sent' : Multiset String} (h : Sends limit sent (g ::ₘ G))
    (hrole : g'.role = .main ↔ g.role = .main) (htried : g'.tried = g.tried) (hhedged : g'.hedged = g.hedged)
    (hclaims : sent' + g'.claims ≤ sent + g.claims) : Sends limit sent' (g' ::ₘ G) := by
  have hle : sent' + ((g' ::ₘ G).map Turn.claims).sum ≤ sent + ((g ::ₘ G).map Turn.claims).sum := by
    simp only [Multiset.map_cons, Multiset.sum_cons, ← add_assoc]
    exact add_le_add_left hclaims _
  have hmem : ∀ x ∈ g' ::ₘ G, x.role = .main → ∃ y ∈ g ::ₘ G, y.role = .main ∧ x.tried = y.tried ∧
      x.hedged = y.hedged := by
    intro x hx hmain
    rcases Multiset.mem_cons.mp hx with rfl | hx
    · exact ⟨g, Multiset.mem_cons_self g G, hrole.mp hmain, htried, hhedged⟩
    · exact ⟨x, Multiset.mem_cons_of_mem hx, hmain, rfl, rfl⟩
  refine ⟨?_, Multiset.nodup_of_le hle h.nodup, ?_, ?_, ?_⟩
  · have hone := h.main
    simp only [Multiset.countP_cons, hrole] at hone ⊢
    exact hone
  · intro x hx hmain y hy
    obtain ⟨z, hz, hz_main, hsame, -⟩ := hmem x hx hmain
    rw [hsame]
    exact h.tried z hz hz_main y (Multiset.mem_of_le hle hy)
  · intro x hx hmain hx_hedged
    obtain ⟨z, hz, hz_main, -, hsame⟩ := hmem x hx hmain
    simpa using h.hedged z hz hz_main (hsame ▸ hx_hedged)
  · intro x hx hmain
    obtain ⟨z, hz, hz_main, hsame, hsame'⟩ := hmem x hx hmain
    rw [hsame, hsame']
    exact h.count z hz hz_main

theorem grow {claims : Multiset String} (h : Sends limit sent (g ::ₘ G)) (hg : g.role = .main)
    (hu : g.Fresh u) (hle : claims ≤ u.id ::ₘ (sent + ((g ::ₘ G).map Turn.claims).sum)) :
    claims.Nodup ∧ ∀ x ∈ claims, ∃ v ∈ u :: g.tried, v.id = x := by
  have htried := h.tried g (Multiset.mem_cons_self g G) hg
  constructor
  · refine Multiset.nodup_of_le hle (Multiset.nodup_cons.mpr ⟨fun hmem => ?_, h.nodup⟩)
    obtain ⟨v, hv, hsame⟩ := htried u.id hmem
    exact hu v hv hsame
  · intro x hx
    rcases Multiset.mem_cons.mp (Multiset.mem_of_le hle hx) with rfl | hx
    · exact ⟨u, List.mem_cons_self, rfl⟩
    · obtain ⟨v, hv, hsame⟩ := htried x hx
      exact ⟨v, List.mem_cons_of_mem _ hv, hsame⟩

theorem forall_main {P : Turn → Prop} (hothers : ∀ x ∈ G, x.role ≠ .main) (hg : P g) :
    ∀ x ∈ g ::ₘ G, x.role = .main → P x := by
  intro x hx hmain
  rcases Multiset.mem_cons.mp hx with rfl | hx
  · exact hg
  · exact absurd hmain (hothers x hx)

theorem claims_attempt {ready : Option Ticket} (hready : ∀ t, ready = some t → t.upstream = u.id)
    (hg : g.role = .main) :
    Turn.claims { g with tried := u :: g.tried, ready := ready } ≤ {u.id} := by
  unfold Turn.claims
  dsimp only
  rw [hg, Multiset.add_zero]
  cases ready with
  | none => exact Multiset.zero_le _
  | some t =>
    dsimp only
    rw [hready t rfl]

theorem attempt (h : Sends limit sent (g ::ₘ G)) {ready : Option Ticket}
    (hready : ∀ t, ready = some t → t.upstream = u.id) (hg : g.role = .main) (hu : g.Fresh u)
    (hcount : g.hedged = true ∨ g.tried.length ≤ limit) :
    Sends limit sent ({ g with tried := u :: g.tried, ready := ready } ::ₘ G) := by
  have hle : sent + (({ g with tried := u :: g.tried, ready := ready } ::ₘ G).map Turn.claims).sum ≤
      u.id ::ₘ (sent + ((g ::ₘ G).map Turn.claims).sum) := by
    simp only [Multiset.map_cons, Multiset.sum_cons]
    calc sent + (Turn.claims { g with tried := u :: g.tried, ready := ready } + (G.map Turn.claims).sum)
        ≤ sent + ({u.id} + (G.map Turn.claims).sum) :=
          add_le_add_right (add_le_add_left (claims_attempt hready hg) _) _
      _ = u.id ::ₘ (sent + (G.map Turn.claims).sum) := by
          rw [← Multiset.singleton_add]
          abel
      _ ≤ u.id ::ₘ (sent + (g.claims + (G.map Turn.claims).sum)) :=
          Multiset.cons_le_cons _ (add_le_add_right (le_add_of_nonneg_left (Multiset.zero_le _)) _)
  obtain ⟨hnodup, htried⟩ := h.grow hg hu hle
  have hothers := h.others_workers hg
  refine ⟨?_, hnodup, ?_, ?_, ?_⟩
  · have hone := h.main
    simp only [Multiset.countP_cons, hg] at hone ⊢
    exact hone
  · exact forall_main hothers htried
  · refine forall_main hothers (fun hhedged => ?_)
    simpa using h.hedged g (Multiset.mem_cons_self g G) hg hhedged
  · exact forall_main hothers (hcount.imp_right (fun hlen => Nat.succ_le_succ hlen))

theorem fire (h : Sends limit sent (g ::ₘ G)) (hg : g.role = .main) (hu : g.Fresh u) :
    Sends limit sent (g.fired u ::ₘ (G + {Turn.hedge u})) := by
  have hclaims : (g.fired u).claims = g.claims := rfl
  have hle : sent + ((g.fired u ::ₘ (G + {Turn.hedge u})).map Turn.claims).sum ≤
      u.id ::ₘ (sent + ((g ::ₘ G).map Turn.claims).sum) := by
    have hworker : (Turn.hedge u).claims = {u.id} := rfl
    simp only [Multiset.map_cons, Multiset.map_add, Multiset.map_singleton, Multiset.sum_cons,
      Multiset.sum_add, Multiset.sum_singleton, hclaims, hworker]
    apply le_of_eq
    rw [← Multiset.singleton_add]
    abel
  obtain ⟨hnodup, htried⟩ := h.grow hg hu hle
  have hothers : ∀ x ∈ G + {Turn.hedge u}, x.role ≠ .main := by
    intro x hx
    rcases Multiset.mem_add.mp hx with hx | hx
    · exact h.others_workers hg x hx
    · rw [Multiset.mem_singleton.mp hx]
      exact nofun
  refine ⟨?_, hnodup, ?_, ?_, ?_⟩
  · have hmain : (g.fired u).role = .main := hg
    simp only [Multiset.countP_cons, hmain, if_true, Multiset.countP_eq_zero.mpr hothers]
  · exact forall_main hothers htried
  · intro x _ _ _
    simp
  · exact forall_main hothers (Or.inl rfl)

theorem start (h : Sends limit sent G) (hrole : g'.role = .worker none) (hready : g'.ready = none) :
    Sends limit sent (G + {g'}) := by
  have hclaims : g'.claims = 0 := by
    unfold Turn.claims
    rw [hrole, hready]
    rfl
  have hsum : ((G + {g'}).map Turn.claims).sum = (G.map Turn.claims).sum := by
    rw [Multiset.map_add, Multiset.sum_add, Multiset.map_singleton, Multiset.sum_singleton, hclaims, add_zero]
  have hmem : ∀ x ∈ G + {g'}, x.role = .main → x ∈ G := by
    intro x hx hmain
    rcases Multiset.mem_add.mp hx with hx | hx
    · exact hx
    · rw [Multiset.mem_singleton.mp hx, hrole] at hmain
      cases hmain
  refine ⟨?_, ?_, ?_, ?_, ?_⟩
  · rw [Multiset.countP_add, h.main, ← Multiset.cons_zero, Multiset.countP_cons_of_neg _ (by rw [hrole]; exact nofun),
      Multiset.countP_zero]
  · rw [hsum]
    exact h.nodup
  · intro x hx hmain
    rw [hsum]
    exact h.tried x (hmem x hx hmain) hmain
  · intro x hx hmain hhedged
    have htwo := h.hedged x (hmem x hx hmain) hmain hhedged
    rw [Multiset.card_add]
    omega
  · intro x hx hmain
    exact h.count x (hmem x hx hmain) hmain

end Sends

namespace Results

variable {channel : List HedgeResult}

theorem replace {channel' : List HedgeResult} (h : Results channel (g ::ₘ G)) (hreader : g'.reader = g.reader)
    (hwaiting : g'.waiting ≠ 0 → g'.reader = true) (howes : g'.owes ≠ 0 → g.owes ≠ 0)
    (hbalance : g'.waiting + g.owes + (channel.map (·.upstream) : List Upstream) =
      g.waiting + g'.owes + (channel'.map (·.upstream) : List Upstream)) : Results channel' (g' ::ₘ G) := by
  refine ⟨?_, ?_, ?_, ?_⟩
  · have hone := h.reader
    simp only [Multiset.countP_cons, hreader] at hone ⊢
    exact hone
  · intro x hx
    rcases Multiset.mem_cons.mp hx with rfl | hx
    · exact hwaiting
    · exact h.waiting x (Multiset.mem_cons_of_mem hx)
  · intro x hx
    rcases Multiset.mem_cons.mp hx with rfl | hx
    · exact fun hne => hreader.trans (h.owing g (Multiset.mem_cons_self g G) (howes hne))
    · exact h.owing x (Multiset.mem_cons_of_mem hx)
  · have hold := h.balance
    simp only [Multiset.map_cons, Multiset.sum_cons] at hold ⊢
    -- the turn's own share cancels from both sides
    have hshare : (g'.waiting + (G.map Turn.waiting).sum) +
          (g.owes + (channel.map (·.upstream) : List Upstream)) =
        (g'.owes + (G.map Turn.owes).sum + (channel'.map (·.upstream) : List Upstream)) +
          (g.owes + (channel.map (·.upstream) : List Upstream)) := by
      calc (g'.waiting + (G.map Turn.waiting).sum) + (g.owes + (channel.map (·.upstream) : List Upstream))
          = (g'.waiting + g.owes + (channel.map (·.upstream) : List Upstream)) + (G.map Turn.waiting).sum := by
            abel
        _ = (g.waiting + g'.owes + (channel'.map (·.upstream) : List Upstream)) + (G.map Turn.waiting).sum := by
            rw [hbalance]
        _ = (g.waiting + (G.map Turn.waiting).sum) + g'.owes + (channel'.map (·.upstream) : List Upstream) := by
            abel
        _ = (g.owes + (G.map Turn.owes).sum + (channel.map (·.upstream) : List Upstream)) + g'.owes +
              (channel'.map (·.upstream) : List Upstream) := by rw [hold]
        _ = _ := by abel
    exact add_right_cancel hshare

theorem reads_all (h : Results channel (g ::ₘ G)) (hg : g.reader = true) :
    (G.map Turn.waiting).sum = 0 := by
  have hone := h.reader
  simp only [Multiset.countP_cons, hg, if_true] at hone
  have hnone := Multiset.countP_eq_zero.mp (show G.countP (fun g => g.reader = true) = 0 by omega)
  apply Multiset.sum_eq_zero
  intro y hy
  obtain ⟨x, hx, rfl⟩ := Multiset.mem_map.mp hy
  by_contra hne
  exact hnone x hx (h.waiting x (Multiset.mem_cons_of_mem hx) hne)

theorem waits_for (h : Results channel (g ::ₘ G)) (hg : g.reader = true) :
    g.waiting = g.owes + (G.map Turn.owes).sum + (channel.map (·.upstream) : List Upstream) := by
  have hbalance := h.balance
  rw [Multiset.map_cons, Multiset.sum_cons, h.reads_all hg, add_zero, Multiset.map_cons,
    Multiset.sum_cons] at hbalance
  exact hbalance

theorem receive {r : HedgeResult} (h : Results (r :: channel) (g ::ₘ G)) (hg : g.reader = true) :
    r.upstream ∈ g.waiting ∧ Results channel (g.received r.upstream ::ₘ G) := by
  have hmem : r.upstream ∈ g.waiting := by
    rw [h.waits_for hg]
    simp
  refine ⟨hmem, h.replace rfl (fun _ => hg) id ?_⟩
  have herase : g.waiting = {r.upstream} + g.waiting.erase r.upstream := by
    rw [Multiset.singleton_add, Multiset.cons_erase hmem]
  have hcons : (((r :: channel).map (·.upstream) : List Upstream) : Multiset Upstream) =
      {r.upstream} + (channel.map (·.upstream) : List Upstream) := by
    rw [List.map_cons, ← Multiset.cons_coe, Multiset.singleton_add]
  rw [hcons]
  conv_rhs => rw [herase]
  change g.waiting.erase r.upstream + g.owes + _ = {r.upstream} + g.waiting.erase r.upstream + g.owes + _
  abel

theorem post {r : HedgeResult} (h : Results channel (g ::ₘ G)) (hr : r.upstream ∈ g.owes) :
    Results (channel ++ [r]) ({ g with owes := g.owes.erase r.upstream } ::ₘ G) := by
  have hne : g.owes ≠ 0 := by
    intro hzero
    simp [hzero] at hr
  refine h.replace rfl (h.waiting g (Multiset.mem_cons_self g G)) (fun _ => hne) ?_
  have herase : g.owes = {r.upstream} + g.owes.erase r.upstream := by
    rw [Multiset.singleton_add, Multiset.cons_erase hr]
  rw [List.map_append, ← Multiset.coe_add, List.map_cons, List.map_nil, Multiset.coe_singleton]
  conv_lhs => rw [herase]
  abel

theorem fire (h : Results channel (g ::ₘ G)) (hg : g.reader = true) :
    Results channel (g.fired u ::ₘ (G + {Turn.hedge u})) := by
  refine ⟨?_, ?_, ?_, ?_⟩
  · have hone := h.reader
    simpa [Multiset.countP_cons, Turn.fired, Turn.hedge, ← Multiset.cons_zero] using hone
  · intro x hx
    rcases Multiset.mem_cons.mp hx with rfl | hx
    · exact fun _ => hg
    rcases Multiset.mem_add.mp hx with hx | hx
    · exact h.waiting x (Multiset.mem_cons_of_mem hx)
    · rw [Multiset.mem_singleton.mp hx]
      exact fun hne => absurd rfl hne
  · intro x hx
    rcases Multiset.mem_cons.mp hx with rfl | hx
    · exact h.owing g (Multiset.mem_cons_self g G)
    rcases Multiset.mem_add.mp hx with hx | hx
    · exact h.owing x (Multiset.mem_cons_of_mem hx)
    · rw [Multiset.mem_singleton.mp hx]
      exact fun _ => rfl
  · have hbalance := h.balance
    have hfired : (g.fired u).waiting = {u} + g.waiting := (Multiset.singleton_add _ _).symm
    have howes : (g.fired u).owes = g.owes := rfl
    have hworker : (Turn.hedge u).waiting = 0 ∧ (Turn.hedge u).owes = {u} := ⟨rfl, rfl⟩
    simp only [Multiset.map_cons, Multiset.map_add, Multiset.map_singleton, Multiset.sum_cons,
      Multiset.sum_add, Multiset.sum_singleton, hfired, howes, hworker.1, hworker.2] at hbalance ⊢
    rw [add_assoc, add_zero, hbalance]
    abel

theorem drain (h : Results channel (g ::ₘ G)) (hg : g.reader = true) :
    Results channel ({ g with reader := false, waiting := 0 } ::ₘ (G + {Turn.drainer g.waiting})) := by
  refine ⟨?_, ?_, ?_, ?_⟩
  · have hone := h.reader
    simpa [Multiset.countP_cons, Turn.drainer, hg, ← Multiset.cons_zero] using hone
  · intro x hx
    rcases Multiset.mem_cons.mp hx with rfl | hx
    · exact fun hne => absurd rfl hne
    rcases Multiset.mem_add.mp hx with hx | hx
    · exact h.waiting x (Multiset.mem_cons_of_mem hx)
    · rw [Multiset.mem_singleton.mp hx]
      exact fun _ => rfl
  · intro x hx
    rcases Multiset.mem_cons.mp hx with rfl | hx
    · exact fun _ => rfl
    rcases Multiset.mem_add.mp hx with hx | hx
    · exact h.owing x (Multiset.mem_cons_of_mem hx)
    · rw [Multiset.mem_singleton.mp hx]
      exact fun hne => absurd rfl hne
  · have hbalance := h.balance
    have hdrainer : (Turn.drainer g.waiting).waiting = g.waiting ∧ (Turn.drainer g.waiting).owes = 0 :=
      ⟨rfl, rfl⟩
    simp only [Multiset.map_cons, Multiset.map_add, Multiset.map_singleton, Multiset.sum_cons,
      Multiset.sum_add, Multiset.sum_singleton, hdrainer.1, hdrainer.2] at hbalance ⊢
    rw [zero_add, add_zero, add_comm _ g.waiting, hbalance]

end Results

end EBeacon.Network
