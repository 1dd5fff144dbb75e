import Mathlib.Data.List.Induction

namespace EBeacon.Runs

variable {σ α : Type}

-- plays the labels from a state; a label that is not enabled stops the run
def exec (next : σ → α → Option σ) (s : σ) (labels : List α) : Option σ :=
  labels.foldlM next s

theorem exec_nil (next : σ → α → Option σ) (s : σ) : exec next s [] = some s := rfl

theorem exec_cons (next : σ → α → Option σ) (s : σ) (a : α) (labels : List α) :
    exec next s (a :: labels) = (next s a).bind (fun t => exec next t labels) := rfl

theorem exec_append (next : σ → α → Option σ) (s : σ) (xs ys : List α) :
    exec next s (xs ++ ys) = (exec next s xs).bind (fun t => exec next t ys) := by
  simp only [exec, List.foldlM_append]
  rfl

theorem exec_concat_some {next : σ → α → Option σ} {s u : σ} {labels : List α} {a : α} :
    exec next s (labels ++ [a]) = some u ↔
      ∃ t, exec next s labels = some t ∧ next t a = some u := by
  simp [exec_append, exec_cons, exec_nil, Option.bind_eq_some_iff]

theorem exec_induction {next : σ → α → Option σ} {s : σ} {P : List α → σ → Prop}
    (start : P [] s)
    (step : ∀ labels t a u, exec next s labels = some t → P labels t → next t a = some u →
      P (labels ++ [a]) u)
    {labels : List α} {t : σ} (run : exec next s labels = some t) : P labels t := by
  induction labels using List.reverseRecOn generalizing t with
  | nil =>
    simp only [exec_nil, Option.some.injEq] at run
    exact run ▸ start
  | append_singleton labels a ih =>
    obtain ⟨u, hu, ha⟩ := exec_concat_some.mp run
    exact step labels u a t hu (ih hu) ha

theorem exec_invariant {next : σ → α → Option σ} {s : σ} {I : σ → Prop} (start : I s)
    (step : ∀ t a u, I t → next t a = some u → I u)
    {labels : List α} {t : σ} (run : exec next s labels = some t) : I t := by
  refine exec_induction (P := fun _ t => I t) start ?_ run
  intro labels t a u _ ht ha
  exact step t a u ht ha

theorem exec_invariant_of_mem {next : σ → α → Option σ} {s t : σ} {I : σ → Prop} {labels : List α} (start : I s)
    (step : ∀ a ∈ labels, ∀ t u, I t → next t a = some u → I u) (run : exec next s labels = some t) : I t := by
  induction labels generalizing s with
  | nil =>
    simp only [exec_nil, Option.some.injEq] at run
    exact run ▸ start
  | cons a labels ih =>
    rw [exec_cons, Option.bind_eq_some_iff] at run
    obtain ⟨u, hu, hrest⟩ := run
    exact ih (step a List.mem_cons_self s u start hu) (fun b hb => step b (List.mem_cons_of_mem a hb)) hrest

theorem exec_becomes {next : σ → α → Option σ} {s t : σ} {P : σ → Prop} {labels : List α} (start : ¬P s)
    (run : exec next s labels = some t) (finish : P t) :
    ∃ before a after u v, labels = before ++ a :: after ∧ exec next s before = some u ∧ next u a = some v ∧
      ¬P u ∧ P v := by
  induction labels generalizing s with
  | nil =>
    simp only [exec_nil, Option.some.injEq] at run
    exact absurd finish (run ▸ start)
  | cons a labels ih =>
    rw [exec_cons, Option.bind_eq_some_iff] at run
    obtain ⟨u, hu, hrest⟩ := run
    by_cases hP : P u
    · exact ⟨[], a, labels, s, u, rfl, exec_nil next s, hu, start, hP⟩
    · obtain ⟨before, b, after, v, w, rfl, hv, hstep⟩ := ih hP hrest
      refine ⟨a :: before, b, after, v, w, rfl, ?_, hstep⟩
      rw [exec_cons, hu]
      exact hv

theorem exec_filter {τ : Type} {next : σ → α → Option σ} {next' : τ → α → Option τ} {R : σ → τ → Prop}
    {own : α → Bool} {labels : List α} {s s' : σ} {t : τ}
    (seen : ∀ a ∈ labels, own a = true → ∀ s t s', R s t → next s a = some s' → ∃ t', next' t a = some t' ∧ R s' t')
    (unseen : ∀ a ∈ labels, own a = false → ∀ s t s', R s t → next s a = some s' → R s' t)
    (start : R s t) (run : exec next s labels = some s') :
    ∃ t', exec next' t (labels.filter own) = some t' ∧ R s' t' := by
  induction labels generalizing s t with
  | nil =>
    simp only [exec_nil, Option.some.injEq] at run
    exact ⟨t, rfl, run ▸ start⟩
  | cons a labels ih =>
    rw [exec_cons, Option.bind_eq_some_iff] at run
    obtain ⟨u, hu, hrest⟩ := run
    have hrun := fun {t} => @ih u t (fun b hb => seen b (List.mem_cons_of_mem a hb))
      (fun b hb => unseen b (List.mem_cons_of_mem a hb))
    cases ha : own a with
    | false =>
      rw [List.filter_cons_of_neg (by simp [ha])]
      exact hrun (unseen a List.mem_cons_self ha s t u start hu) hrest
    | true =>
      obtain ⟨v, hv, hR⟩ := seen a List.mem_cons_self ha s t u start hu
      obtain ⟨t', ht', hR'⟩ := hrun hR hrest
      refine ⟨t', ?_, hR'⟩
      rw [List.filter_cons_of_pos (by simp [ha]), exec_cons, hv]
      exact ht'

def Throughout (next : σ → α → Option σ) (I : σ → Prop) : σ → List α → Prop
  | s, [] => I s
  | s, a :: labels => I s ∧ ∀ t, next s a = some t → Throughout next I t labels

def Along (next : σ → α → Option σ) (C : σ → α → Prop) : σ → List α → Prop
  | _, [] => True
  | s, a :: labels => ∀ t, next s a = some t → C s a ∧ Along next C t labels

theorem along_cons {next : σ → α → Option σ} {C : σ → α → Prop} {s t : σ} {a : α} {labels : List α}
    (hs : next s a = some t) (hc : C s a) (h : Along next C t labels) :
    Along next C s (a :: labels) := by
  intro t' ht'
  rw [hs, Option.some.injEq] at ht'
  exact ⟨hc, ht' ▸ h⟩

theorem Throughout.start {next : σ → α → Option σ} {I : σ → Prop} {s : σ} {labels : List α}
    (h : Throughout next I s labels) : I s := by
  cases labels with
  | nil => exact h
  | cons a labels => exact h.1

theorem throughout_of_along {next : σ → α → Option σ} {I : σ → Prop} {C : σ → α → Prop}
    (step : ∀ t a u, I t → next t a = some u → C t a → I u) {labels : List α} {s : σ} (start : I s)
    (h : Along next C s labels) : Throughout next I s labels := by
  induction labels generalizing s with
  | nil => exact start
  | cons a labels ih =>
    refine ⟨start, fun t ht => ?_⟩
    obtain ⟨hc, hrest⟩ := h t ht
    exact ih (step s a t start ht hc) hrest

theorem along_of_throughout {next : σ → α → Option σ} {I : σ → Prop} {C : σ → α → Prop}
    (step : ∀ t a u, next t a = some u → I u → C t a) {labels : List α} {s : σ}
    (h : Throughout next I s labels) : Along next C s labels := by
  induction labels generalizing s with
  | nil => trivial
  | cons a labels ih => exact fun t ht => ⟨step s a t ht (h.2 t ht).start, ih (h.2 t ht)⟩

theorem Throughout.mono {next : σ → α → Option σ} {I J : σ → Prop} (hIJ : ∀ s, I s → J s)
    {labels : List α} {s : σ} (h : Throughout next I s labels) : Throughout next J s labels := by
  induction labels generalizing s with
  | nil => exact hIJ s h
  | cons a labels ih => exact ⟨hIJ s h.1, fun t ht => ih (h.2 t ht)⟩

theorem foldl_invariant {step : σ → α → σ} {I : σ → Prop} (preserved : ∀ s a, I s → I (step s a))
    (labels : List α) {s : σ} (start : I s) : I (labels.foldl step s) := by
  induction labels generalizing s with
  | nil => exact start
  | cons a labels ih => exact ih (preserved s a start)

def collect {β : Type} (next : σ → α → Option σ) (out : σ → α → List β) : σ → List α → List β
  | _, [] => []
  | s, a :: labels =>
    match next s a with
    | none => []
    | some t => out s a ++ collect next out t labels

theorem collect_invariant {β : Type} {next : σ → α → Option σ} {out : σ → α → List β}
    {I : List β → σ → Prop} {labels : List α}
    (step : ∀ a ∈ labels, ∀ acc t u, I acc t → next t a = some u → I (acc ++ out t a) u)
    {acc : List β} {s t : σ} (start : I acc s) (run : exec next s labels = some t) :
    I (acc ++ collect next out s labels) t := by
  induction labels generalizing acc s with
  | nil =>
    simp only [exec_nil, Option.some.injEq] at run
    simpa [collect, run] using start
  | cons a labels ih =>
    rw [exec_cons, Option.bind_eq_some_iff] at run
    obtain ⟨u, hu, hrest⟩ := run
    have hstep := step a List.mem_cons_self acc s u start hu
    have hih := ih (fun b hb => step b (List.mem_cons_of_mem a hb)) hstep hrest
    simpa [collect, hu] using hih

def play {β : Type} (step : σ → α → β × σ) : σ → List α → List β × σ
  | s, [] => ([], s)
  | s, a :: inputs =>
    ((step s a).1 :: (play step (step s a).2 inputs).1, (play step (step s a).2 inputs).2)

theorem play_agree {τ β : Type} {step : σ → α → β × σ} {step' : τ → α → β × τ} {R : σ → τ → Prop}
    (agree : ∀ s t a, R s t → (step s a).1 = (step' t a).1 ∧ R (step s a).2 (step' t a).2)
    (inputs : List α) {s : σ} {t : τ} (start : R s t) :
    (play step s inputs).1 = (play step' t inputs).1 ∧
      R (play step s inputs).2 (play step' t inputs).2 := by
  induction inputs generalizing s t with
  | nil => exact ⟨rfl, start⟩
  | cons a inputs ih =>
    obtain ⟨houtput, hstep⟩ := agree s t a start
    obtain ⟨houtputs, hrun⟩ := ih hstep
    exact ⟨congrArg₂ List.cons houtput houtputs, hrun⟩

end EBeacon.Runs
