import Mathlib.Data.Option.Defs

/-!
# Related runs

Two computations that may be undefined, where each one is defined exactly if the other is and
their results are related. The rules follow the way in which the computations are put together.
For a single computation there is the invariant rule of a fold.
-/

variable {α β σ τ : Type} {R : σ → τ → Prop} {Q : α → β → Prop}

theorem rel_bind {a : Option σ} {b : Option τ} {f : σ → Option α} {g : τ → Option β}
    (related : Option.Rel R a b) (later : ∀ s t, R s t → Option.Rel Q (f s) (g t)) :
    Option.Rel Q (a.bind f) (b.bind g) := by
  cases related with
  | none => exact .none
  | some first => exact later _ _ first

theorem rel_map {a : Option σ} {b : Option τ} {f : σ → α} {g : τ → β} (related : Option.Rel R a b)
    (later : ∀ s t, R s t → Q (f s) (g t)) : Option.Rel Q (a.map f) (b.map g) := by
  cases related with
  | none => exact .none
  | some first => exact .some (later _ _ first)

/-- What every step keeps holds at the end of a fold, where there is one. -/
theorem foldlM_invariant {P : σ → Prop} {f : σ → α → Option σ}
    (step : ∀ {s a s'}, P s → f s a = some s' → P s') (l : List α) {s s' : σ} (start : P s)
    (folded : l.foldlM f s = some s') : P s' := by
  induction l generalizing s with
  | nil =>
    cases folded
    exact start
  | cons a rest ih =>
    rw [List.foldlM_cons] at folded
    obtain ⟨mid, first, later⟩ := Option.bind_eq_some_iff.mp folded
    exact ih (step start first) later

/-- Two folds that keep a relation between their states. -/
theorem rel_foldlM {f : σ → α → Option σ} {g : τ → α → Option τ}
    (step : ∀ a s t, R s t → Option.Rel R (f s a) (g t a)) (l : List α) {s : σ} {t : τ} (start : R s t) :
    Option.Rel R (l.foldlM f s) (l.foldlM g t) := by
  induction l generalizing s t with
  | nil => exact .some start
  | cons a rest ih =>
    rw [List.foldlM_cons, List.foldlM_cons]
    exact rel_bind (step a s t start) fun s t => ih
