import Mathlib.Data.List.Basic

namespace EBeacon

/-- A program that calls its environment: `call e k` performs `e` and goes on with the answer. -/
inductive Proc (E : Type) (R : E → Type) (α : Type) : Type
  | ret (a : α)
  | call (e : E) (k : R e → Proc E R α)

namespace Proc

variable {E : Type} {R : E → Type} {α β γ : Type}

def bind (p : Proc E R α) (f : α → Proc E R β) : Proc E R β :=
  match p with
  | ret a => f a
  | call e k => call e (fun r => (k r).bind f)

instance : Monad (Proc E R) where
  pure := ret
  bind := bind

def perform (e : E) : Proc E R (R e) := call e ret

@[simp] theorem pure_eq (a : α) : (pure a : Proc E R α) = ret a := rfl

@[simp] theorem ret_bind (a : α) (f : α → Proc E R β) : (ret a : Proc E R α) >>= f = f a := rfl

@[simp] theorem call_bind (e : E) (k : R e → Proc E R α) (f : α → Proc E R β) :
    call e k >>= f = call e (fun r => k r >>= f) := rfl

@[simp] theorem perform_bind (e : E) (f : R e → Proc E R β) : perform e >>= f = call e f := rfl

theorem bind_bind {δ : Type} (p : Proc E R α) (f : α → Proc E R β) (k : β → Proc E R δ) :
    p >>= f >>= k = p >>= fun a => f a >>= k := by
  induction p with
  | ret a => rfl
  | call e next ih => exact congrArg (call e) (funext ih)

section Handlers

variable (h : (e : E) → R e)

def eval : Proc E R α → α
  | ret a => a
  | call e k => eval (k (h e))

def calls : Proc E R α → List E
  | ret _ => []
  | call e k => e :: calls (k (h e))

@[simp] theorem eval_ret (a : α) : eval h (ret a : Proc E R α) = a := rfl

@[simp] theorem eval_call (e : E) (k : R e → Proc E R α) : eval h (call e k) = eval h (k (h e)) := rfl

@[simp] theorem calls_ret (a : α) : calls h (ret a : Proc E R α) = [] := rfl

@[simp] theorem calls_call (e : E) (k : R e → Proc E R α) :
    calls h (call e k) = e :: calls h (k (h e)) := rfl

theorem eval_bind (p : Proc E R α) (f : α → Proc E R β) :
    eval h (p >>= f) = eval h (f (eval h p)) := by
  induction p with
  | ret a => rfl
  | call e k ih => exact ih (h e)

theorem calls_bind (p : Proc E R α) (f : α → Proc E R β) :
    calls h (p >>= f) = calls h p ++ calls h (f (eval h p)) := by
  induction p with
  | ret a => rfl
  | call e k ih => exact congrArg (List.cons e) (ih (h e))

end Handlers

/-- A discipline for calls: with ghost state `g` a program must establish `need g e` before `e`,
may rely on `may g e r` for its answer `r`, and goes on with the ghost state `after g e r`. -/
structure Protocol (E : Type) (R : E → Type) (γ : Type) where
  need : γ → E → Prop
  may : γ → (e : E) → R e → Prop
  after : γ → (e : E) → R e → γ

def Safe (P : Protocol E R γ) (post : α → γ → Prop) : Proc E R α → γ → Prop
  | ret a, g => post a g
  | call e k, g => P.need g e ∧ ∀ r, P.may g e r → Safe P post (k r) (P.after g e r)

section Rules

variable {P : Protocol E R γ}

theorem safe_ret {post : α → γ → Prop} {a : α} {g : γ} : Safe P post (ret a) g ↔ post a g := Iff.rfl

theorem Safe.pure {post : α → γ → Prop} {a : α} {g : γ} (h : post a g) : Safe P post (Pure.pure a) g := h

theorem Safe.perform {post : β → γ → Prop} {e : E} {f : R e → Proc E R β} {g : γ} (hneed : P.need g e)
    (hf : ∀ r, P.may g e r → Safe P post (f r) (P.after g e r)) : Safe P post (Proc.perform e >>= f) g :=
  ⟨hneed, hf⟩

theorem safe_call {post : α → γ → Prop} {e : E} {k : R e → Proc E R α} {g : γ} :
    Safe P post (call e k) g ↔
      P.need g e ∧ ∀ r, P.may g e r → Safe P post (k r) (P.after g e r) := Iff.rfl

theorem safe_perform {post : β → γ → Prop} {e : E} {f : R e → Proc E R β} {g : γ} :
    Safe P post (perform e >>= f) g ↔
      P.need g e ∧ ∀ r, P.may g e r → Safe P post (f r) (P.after g e r) := Iff.rfl

theorem Safe.bind {mid : α → γ → Prop} {post : β → γ → Prop} {p : Proc E R α}
    {f : α → Proc E R β} {g : γ} (hp : Safe P mid p g)
    (hf : ∀ a g, mid a g → Safe P post (f a) g) : Safe P post (p >>= f) g := by
  induction p generalizing g with
  | ret a => exact hf a g hp
  | call e k ih => exact ⟨hp.1, fun r hr => ih r (hp.2 r hr)⟩

theorem Safe.mono {mid post : α → γ → Prop} {p : Proc E R α} {g : γ} (hp : Safe P mid p g)
    (himp : ∀ a g, mid a g → post a g) : Safe P post p g := by
  induction p generalizing g with
  | ret a => exact himp a g hp
  | call e k ih => exact ⟨hp.1, fun r hr => ih r (hp.2 r hr)⟩

theorem Safe.seq {post : β → γ → Prop} {p : Proc E R Unit} {f : Unit → Proc E R β} {g g' : γ}
    (hp : Safe P (fun _ s => s = g') p g) (hf : Safe P post (f ()) g') : Safe P post (p >>= f) g :=
  hp.bind (fun _ _ hg => hg ▸ hf)

end Rules

-- the rules say all that proofs about programs need, and evaluating a program is slow
attribute [irreducible] Safe

end Proc

end EBeacon
