import EBeacon.Library.Process
import EBeacon.Library.Runs

namespace EBeacon.Proc

variable {E : Type} {R : E → Type} {α β γ σ ℓ : Type}

def Only (S : E → Prop) : Proc E R α → Prop
  | ret _ => True
  | call e k => S e ∧ ∀ r, Only S (k r)

section Only

variable {S T : E → Prop} {p q : Proc E R α}

theorem only_call {e : E} {k : R e → Proc E R α} : Only S (call e k) ↔ S e ∧ ∀ r, Only S (k r) := Iff.rfl

theorem Only.pure (a : α) : Only S (Pure.pure a : Proc E R α) := trivial

theorem Only.single {e : E} (he : S e) : Only S (Proc.perform e : Proc E R (R e)) := ⟨he, fun _ => trivial⟩

theorem Only.perform {e : E} {f : R e → Proc E R β} (he : S e) (hf : ∀ r, Only S (f r)) :
    Only S (Proc.perform e >>= f) :=
  ⟨he, hf⟩

theorem Only.bind {f : α → Proc E R β} (hp : Only S p) (hf : ∀ a, Only S (f a)) : Only S (p >>= f) := by
  induction p with
  | ret a => exact hf a
  | call e k ih => exact ⟨hp.1, fun r => ih r (hp.2 r)⟩

theorem Only.ite {P : Prop} [Decidable P] (hp : Only S p) (hq : Only S q) : Only S (if P then p else q) := by
  by_cases h : P
  · rwa [if_pos h]
  · rwa [if_neg h]

theorem Only.mono (hp : Only S p) (hST : ∀ e, S e → T e) : Only T p := by
  induction p with
  | ret a => trivial
  | call e k ih => exact ⟨hST e hp.1, fun r => ih r (hp.2 r)⟩

theorem Only.all (p : Proc E R α) : Only (fun _ => True) p := by
  induction p with
  | ret a => trivial
  | call e k ih => exact ⟨trivial, ih⟩

end Only

attribute [irreducible] Only

theorem Only.safe_along {S : E → Prop} {P : Protocol E R γ} {rel : γ → γ → Prop} (hrefl : ∀ g, rel g g)
    (htrans : ∀ g g' g'', rel g g' → rel g' g'' → rel g g'') (hS : ∀ g e, S e → P.need g e)
    (hafter : ∀ g e r, S e → rel g (P.after g e r)) {p : Proc E R α} (hp : Only S p) (g : γ) :
    Safe P (fun _ g' => rel g g') p g := by
  induction p generalizing g with
  | ret a => exact safe_ret.mpr (hrefl g)
  | call e k ih =>
    obtain ⟨he, hk⟩ := only_call.mp hp
    refine safe_call.mpr ⟨hS g e he, fun r _ => (ih r (hk r) _).mono fun _ g' hg' => ?_⟩
    exact htrans _ _ _ (hafter g e r he) hg'

theorem Only.safe {S : E → Prop} {P : Protocol E R γ} (hS : ∀ g e, S e → P.need g e)
    (hafter : ∀ g e r, S e → P.after g e r = g) {p : Proc E R α} (hp : Only S p) (g : γ) :
    Safe P (fun _ g' => g' = g) p g :=
  @Only.safe_along _ _ _ _ _ P (fun g g' => g' = g) (fun _ => rfl) (fun _ _ _ h h' => h'.trans h) hS hafter p hp g

inductive Returns (P : Protocol E R γ) : Proc E R α → γ → α → γ → Prop
  | ret (a : α) (g : γ) : Returns P (.ret a) g a g
  | call {e : E} {k : R e → Proc E R α} {r : R e} {g g' : γ} {a : α} (hr : P.may g e r)
      (h : Returns P (k r) (P.after g e r) a g') : Returns P (.call e k) g a g'

inductive Reaches (P : Protocol E R γ) : Proc E R α → γ → Proc E R α → γ → Prop
  | refl (p : Proc E R α) (g : γ) : Reaches P p g p g
  | call {e : E} {k : R e → Proc E R α} {r : R e} {q : Proc E R α} {g g' : γ} (hr : P.may g e r)
      (h : Reaches P (k r) (P.after g e r) q g') : Reaches P (.call e k) g q g'

theorem reaches_ret {P : Protocol E R γ} {e : E} {k : R e → Proc E R α} {a : α} {g g' : γ}
    (h : Reaches P (.call e k) g (.ret a) g') :
    ∃ r, P.may g e r ∧ Reaches P (k r) (P.after g e r) (.ret a) g' := by
  cases h with
  | call hr hrest => exact ⟨_, hr, hrest⟩

def Protocol.recording (need : List (Σ e, R e) → E → Prop) (may : List (Σ e, R e) → (e : E) → R e → Prop) :
    Protocol E R (List (Σ e, R e)) :=
  ⟨need, may, fun h e r => h ++ [⟨e, r⟩]⟩

theorem Reaches.records {need : List (Σ e, R e) → E → Prop} {may : List (Σ e, R e) → (e : E) → R e → Prop}
    {S : E → Prop} {p q : Proc E R α} {h h' : List (Σ e, R e)} (hp : Only S p)
    (hreach : Reaches (Protocol.recording need may) p h q h') :
    ∃ calls, h' = h ++ calls ∧ ∀ x ∈ calls, S x.1 := by
  induction hreach with
  | refl p g => exact ⟨[], (List.append_nil _).symm, nofun⟩
  | @call e k r q g g' _ _ ih =>
    obtain ⟨he, hk⟩ := only_call.mp hp
    obtain ⟨calls, hcalls, hall⟩ := ih (hk r)
    refine ⟨⟨e, r⟩ :: calls, ?_, ?_⟩
    · rw [hcalls]
      exact List.append_assoc _ _ _
    · intro x hx
      rcases List.mem_cons.mp hx with rfl | hx
      · exact he
      · exact hall x hx

theorem Safe.reached {P : Protocol E R γ} {post : α → γ → Prop} {p : Proc E R α} {g : γ}
    (h : Safe P post p g) : Safe P (fun a g' => post a g' ∧ Reaches P p g (.ret a) g') p g := by
  induction p generalizing g with
  | ret a => exact safe_ret.mpr ⟨safe_ret.mp h, .refl _ _⟩
  | call e k ih =>
    rw [safe_call] at h ⊢
    refine ⟨h.1, fun r hr => (ih r (h.2 r hr)).mono ?_⟩
    rintro a g' ⟨hpost, hreach⟩
    exact ⟨hpost, .call hr hreach⟩

theorem Returns.simulate {P : Protocol E R γ} {next : σ → ℓ → Option σ} {allowed : ℓ → Prop}
    {rel : γ → σ → Prop}
    (follow : ∀ g s e r, rel g s → P.need g e → P.may g e r →
      ∃ labels t, (∀ l ∈ labels, allowed l) ∧ Runs.exec next s labels = some t ∧ rel (P.after g e r) t)
    {post : α → γ → Prop} {p : Proc E R α} {g g' : γ} {a : α} (hrun : Returns P p g a g')
    (hsafe : Safe P post p g) {s : σ} (hrel : rel g s) :
    post a g' ∧ ∃ labels t, (∀ l ∈ labels, allowed l) ∧ Runs.exec next s labels = some t ∧ rel g' t := by
  induction hrun generalizing s with
  | ret a g => exact ⟨safe_ret.mp hsafe, [], s, nofun, rfl, hrel⟩
  | @call e k r g g' a hr hrest ih =>
    rw [safe_call] at hsafe
    obtain ⟨first, t, hfirst, hexec, hrel'⟩ := follow g s e r hrel hsafe.1 hr
    obtain ⟨hpost, rest, u, hallowed, hexec', hrel''⟩ := ih (hsafe.2 r hr) hrel'
    refine ⟨hpost, first ++ rest, u, ?_, ?_, hrel''⟩
    · intro l hl
      rcases List.mem_append.mp hl with hl | hl
      · exact hfirst l hl
      · exact hallowed l hl
    · rw [Runs.exec_append, hexec]
      exact hexec'

end EBeacon.Proc
