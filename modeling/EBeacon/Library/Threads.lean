import EBeacon.Library.Process
import EBeacon.Library.Runs
import Mathlib.Data.Multiset.AddSub
import Mathlib.Data.Multiset.MapFold

/-!
Threads over a shared state. Every thread keeps a protocol with a ghost state of its own, and an
invariant relates the shared state to the ghost states of all threads.
-/

namespace EBeacon.Threads

open Proc

variable {σ E χ γ : Type} {R : E → Type}

structure System (σ E : Type) (R : E → Type) where
  shared : σ
  threads : List (Proc E R Unit)

def step (perform : σ → (e : E) → χ → Option (R e × σ)) (spawn : E → List (Proc E R Unit))
    (m : System σ E R) (i : ℕ) (c : χ) : Option (System σ E R) :=
  match m.threads[i]? with
  | some (.call e k) =>
    (perform m.shared e c).map (fun out => ⟨out.2, m.threads.set i (k out.1) ++ spawn e⟩)
  | _ => none

/-- Ghost states for the threads, under which every thread keeps the protocol. -/
def Owned (P : Protocol E R γ) (final : γ → Prop) (J : σ → Multiset γ → Prop) (m : System σ E R) : Prop :=
  ∃ ps : List (Proc E R Unit × γ), ps.map Prod.fst = m.threads ∧
    (∀ p ∈ ps, Safe P (fun _ g => final g) p.1 p.2) ∧ J m.shared (ps.map Prod.snd : List γ)

def Preserves (P : Protocol E R γ) (final : γ → Prop) (J : σ → Multiset γ → Prop)
    (perform : σ → (e : E) → χ → Option (R e × σ)) (spawn : E → List (Proc E R Unit)) : Prop :=
  ∀ s g G e c r s', J s (g ::ₘ G) → P.need g e → perform s e c = some (r, s') →
    P.may g e r ∧ ∃ qs : List (Proc E R Unit × γ), qs.map Prod.fst = spawn e ∧
      (∀ q ∈ qs, Safe P (fun _ g => final g) q.1 q.2) ∧
      J s' (P.after g e r ::ₘ (G + (qs.map Prod.snd : List γ)))

variable {P : Protocol E R γ} {final : γ → Prop} {J : σ → Multiset γ → Prop}
  {perform : σ → (e : E) → χ → Option (R e × σ)} {spawn : E → List (Proc E R Unit)}
  {m m' : System σ E R} {i : ℕ} {c : χ}

theorem step_some (h : step perform spawn m i c = some m') :
    ∃ e k r s', m.threads[i]? = some (.call e k) ∧ perform m.shared e c = some (r, s') ∧
      m' = ⟨s', m.threads.set i (k r) ++ spawn e⟩ := by
  unfold step at h
  split at h
  · rename_i e k hi
    obtain ⟨⟨r, s'⟩, hp, rfl⟩ := Option.map_eq_some_iff.mp h
    exact ⟨e, k, r, s', hi, hp, rfl⟩
  · cases h

theorem split_at {α : Type} {l : List α} {i : ℕ} {x : α} (h : l[i]? = some x) :
    ∃ before after, l = before ++ x :: after ∧ before.length = i := by
  obtain ⟨hi, rfl⟩ := List.getElem?_eq_some_iff.mp h
  refine ⟨l.take i, l.drop (i + 1), ?_, ?_⟩
  · rw [List.getElem_cons_drop, List.take_append_drop]
  · exact List.length_take_of_le hi.le

theorem Owned.thread {p : Proc E R Unit} (h : Owned P final J m) (hi : m.threads[i]? = some p) :
    ∃ g G, J m.shared (g ::ₘ G) ∧ Safe P (fun _ g => final g) p g ∧
      ∀ x ∈ G, ∃ q ∈ m.threads, Safe P (fun _ g => final g) q x := by
  obtain ⟨ps, hps, hsafe, hJ⟩ := h
  rw [← hps, List.getElem?_map, Option.map_eq_some_iff] at hi
  obtain ⟨⟨p, g⟩, hp, rfl⟩ := hi
  obtain ⟨before, after, rfl, -⟩ := split_at hp
  refine ⟨g, (before.map Prod.snd : List γ) + (after.map Prod.snd : List γ), ?_, hsafe _ (by simp), ?_⟩
  · simpa only [List.map_append, List.map_cons, ← Multiset.coe_add, ← Multiset.cons_coe,
      Multiset.add_cons] using hJ
  · intro x hx
    rw [Multiset.coe_add, ← List.map_append, Multiset.mem_coe, List.mem_map] at hx
    obtain ⟨q, hq, rfl⟩ := hx
    have hq : q ∈ before ++ (p, g) :: after := by
      rcases List.mem_append.mp hq with hq | hq
      · exact List.mem_append_left _ hq
      · exact List.mem_append_right _ (List.mem_cons_of_mem _ hq)
    exact ⟨q.1, hps ▸ List.mem_map_of_mem hq, hsafe q hq⟩

theorem Owned.call (h : Owned P final J m) {e : E} {k : R e → Proc E R Unit}
    (hi : m.threads[i]? = some (.call e k)) :
    ∃ g G, J m.shared (g ::ₘ G) ∧ P.need g e := by
  obtain ⟨g, G, hJ, hsafe, -⟩ := h.thread hi
  exact ⟨g, G, hJ, (safe_call.mp hsafe).1⟩

theorem Owned.advance {J' : σ → Multiset γ → Prop} {e : E} {k : R e → Proc E R Unit} {r : R e} {s' : σ}
    (h : Owned P final J m) (hi : m.threads[i]? = some (.call e k))
    (hcall : ∀ g G, J m.shared (g ::ₘ G) → P.need g e → P.may g e r ∧
      ∃ qs : List (Proc E R Unit × γ), qs.map Prod.fst = spawn e ∧
        (∀ q ∈ qs, Safe P (fun _ g => final g) q.1 q.2) ∧
        J' s' (P.after g e r ::ₘ (G + (qs.map Prod.snd : List γ)))) :
    Owned P final J' ⟨s', m.threads.set i (k r) ++ spawn e⟩ := by
  obtain ⟨ps, hps, hsafe, hJ⟩ := h
  rw [← hps, List.getElem?_map, Option.map_eq_some_iff] at hi
  obtain ⟨⟨p, g⟩, hpg, rfl⟩ := hi
  obtain ⟨before, after, rfl, hlen⟩ := split_at hpg
  have hthread := safe_call.mp (hsafe (.call e k, g) (by simp))
  have hJ' : J m.shared (g ::ₘ ((before.map Prod.snd : List γ) + (after.map Prod.snd : List γ))) := by
    simpa only [List.map_append, List.map_cons, ← Multiset.coe_add, ← Multiset.cons_coe,
      Multiset.add_cons] using hJ
  obtain ⟨hmay, qs, hqs, hqsafe, hJnew⟩ := hcall _ _ hJ' hthread.1
  refine ⟨before ++ (k r, P.after g e r) :: after ++ qs, ?_, ?_, ?_⟩
  · simp only [← hps, ← hqs, List.map_append, List.map_cons]
    rw [List.set_append_right _ _ (by simp [hlen])]
    simp [hlen]
  · intro q hq
    simp only [List.mem_append, List.mem_cons] at hq
    rcases hq with (hq | rfl | hq) | hq
    · exact hsafe q (by simp [hq])
    · exact hthread.2 r hmay
    · exact hsafe q (by simp [hq])
    · exact hqsafe q hq
  · simpa only [List.map_append, List.map_cons, ← Multiset.coe_add, ← Multiset.cons_coe,
      Multiset.add_cons, Multiset.cons_add, Multiset.add_assoc] using hJnew

theorem Owned.step (hp : Preserves P final J perform spawn) (h : Owned P final J m)
    (hs : step perform spawn m i c = some m') : Owned P final J m' := by
  obtain ⟨e, k, r, s', hi, hperform, rfl⟩ := step_some hs
  exact h.advance hi (fun g G hJ hneed => hp _ _ _ _ _ _ _ hJ hneed hperform)

theorem Owned.finished (h : Owned P final J m) (hret : ∀ p ∈ m.threads, p = .ret ()) :
    ∃ G, J m.shared G ∧ ∀ g ∈ G, final g := by
  obtain ⟨ps, hps, hsafe, hJ⟩ := h
  refine ⟨(ps.map Prod.snd : List γ), hJ, ?_⟩
  intro g hg
  obtain ⟨⟨p, g⟩, hp, rfl⟩ := List.mem_map.mp (Multiset.mem_coe.mp hg)
  have hpr : p = .ret () := hret p (by rw [← hps]; exact List.mem_map_of_mem hp)
  have hs := hsafe _ hp
  rw [hpr] at hs
  exact safe_ret.mp hs

end EBeacon.Threads
