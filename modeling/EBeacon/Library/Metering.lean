import EBeacon.Library.TokenBucket

/-!
A limiter that is a part of a machine.
-/

namespace EBeacon.Metering

variable {σ α β K : Type} (step : σ → α → σ)

def granted (allow : β → K → Bool × β) : β → List K → List K
  | _, [] => []
  | b, t :: ts => if (allow b t).1 then t :: granted allow (allow b t).2 ts else granted allow (allow b t).2 ts

def times (counts : σ → α → Option K) : σ → List α → List K
  | _, [] => []
  | s, a :: run => (counts s a).toList ++ times counts (step s a) run

variable {step}

theorem times_congr {counts : σ → α → Option K} {counts₀ : α → Option K} {I : σ → Prop}
    (preserved : ∀ s a, I s → I (step s a)) (agree : ∀ s a, I s → counts s a = counts₀ a) {s : σ} (h : I s)
    (run : List α) : times step counts s run = run.filterMap counts₀ := by
  induction run generalizing s with
  | nil => rfl
  | cons a run ih =>
    unfold times
    rw [agree s a h, ih (preserved s a h), List.filterMap_cons]
    cases counts₀ a with
    | none => rfl
    | some t => rfl

theorem times_sublist {counts : σ → α → Option K} {clock : α → Option K}
    (hclock : ∀ s a t, counts s a = some t → clock a = some t) (s : σ) (run : List α) :
    (times step counts s run).Sublist (run.filterMap clock) := by
  induction run generalizing s with
  | nil => exact .slnil
  | cons a run ih =>
    unfold times
    rw [List.filterMap_cons]
    cases ha : counts s a with
    | none =>
      cases clock a with
      | none => exact ih _
      | some t => exact (ih _).cons t
    | some t =>
      rw [hclock s a t ha]
      exact (ih _).cons_cons t

theorem times_eq_granted {allow : β → K → Bool × β} {limiter : σ → Option β} {asks : σ → α → Option K}
    {passes : σ → α → Bool} (idle : ∀ s a, asks s a = none → limiter (step s a) = limiter s)
    (asked : ∀ s a t b, asks s a = some t → limiter s = some b →
      passes s a = (allow b t).1 ∧ limiter (step s a) = some (allow b t).2)
    {s : σ} {b : β} (h : limiter s = some b) (run : List α) :
    times step (fun s a => (asks s a).filter (fun _ => passes s a)) s run =
      granted allow b (times step asks s run) := by
  induction run generalizing s b with
  | nil => rfl
  | cons a run ih =>
    unfold times
    cases ha : asks s a with
    | none =>
      rw [ih ((idle s a ha).trans h)]
      rfl
    | some t =>
      obtain ⟨hpasses, hlimiter⟩ := asked s a t b ha h
      have hgranted : ∀ ts, granted allow b ((some t).toList ++ ts) =
          if (allow b t).1 then t :: granted allow (allow b t).2 ts else granted allow (allow b t).2 ts := fun _ => rfl
      rw [ih hlimiter, Option.filter_some, hpasses, hgranted]
      split_ifs
      · rfl
      · rfl

theorem granted_bucket [Field β] [LinearOrder β] {allow : Option (TokenBucket β) → K → Bool × Option (TokenBucket β)}
    {clock : K → β} (hallow : ∀ b t, allow (some b) t = ((b.allow (clock t)).1, some (b.allow (clock t)).2))
    (b : TokenBucket β) (ts : List K) : (granted allow (some b) ts).map clock = b.granted (ts.map clock) := by
  induction ts generalizing b with
  | nil => rfl
  | cons t ts ih =>
    rw [List.map_cons, granted, TokenBucket.granted, hallow]
    dsimp only
    split_ifs
    · rw [List.map_cons, ih]
    · exact ih _

end EBeacon.Metering
