import Mathlib.Order.Defs.Unbundled

/-!
# Programs that only move forward

A program over a state may stop without a result. Here each one carries the proof that a
run which returns has moved along a preorder, so that whatever is put together from such
programs with `pure` and `bind` needs no proof of its own.
-/

namespace RtpDecoder

structure Advancing {σ : Type} (R : σ → σ → Prop) (α : Type) where
  run : σ → Option (α × σ)
  forward : ∀ {s t : σ} {a : α}, run s = some (a, t) → R s t

namespace Advancing

variable {σ α β : Type} {R : σ → σ → Prop}

/-- The program that has no result. -/
def fail : Advancing R α where
  run _ := none
  forward returned := nomatch returned

section

variable [IsPreorder σ R]

protected def pure (a : α) : Advancing R α where
  run s := some (a, s)
  forward returned := by
    cases returned
    exact refl_of R _

protected def bind (p : Advancing R α) (f : α → Advancing R β) : Advancing R β where
  run s := match p.run s with
    | none => none
    | some (a, t) => (f a).run t
  forward returned := by
    split at returned
    · cases returned
    next first => exact trans_of R (p.forward first) ((f _).forward returned)

instance : Monad (Advancing R) where
  pure := Advancing.pure
  bind := Advancing.bind

theorem run_bind_some {p : Advancing R α} {f : α → Advancing R β} {s t : σ} {a : α}
    (first : p.run s = some (a, t)) : (p >>= f).run s = (f a).run t := by
  change (Advancing.bind p f).run s = _
  simp only [Advancing.bind, first]

theorem run_bind_eq_some {p : Advancing R α} {f : α → Advancing R β} {s u : σ} {b : β} :
    (p >>= f).run s = some (b, u) ↔ ∃ a t, p.run s = some (a, t) ∧ (f a).run t = some (b, u) := by
  constructor
  · intro returned
    cases first : p.run s with
    | none =>
      change (Advancing.bind p f).run s = _ at returned
      simp only [Advancing.bind, first] at returned
      cases returned
    | some r =>
      rw [run_bind_some first] at returned
      exact ⟨r.1, r.2, rfl, returned⟩
  · rintro ⟨a, t, first, later⟩
    rw [run_bind_some first]
    exact later

/-! ### What a program can return -/

/-- Whatever the program returns is of this kind. -/
def Returns (p : Advancing R α) (Q : α → Prop) : Prop := ∀ {s t : σ} {a : α}, p.run s = some (a, t) → Q a

theorem returns_pure {Q : α → Prop} {a : α} (holds : Q a) : (pure a : Advancing R α).Returns Q := by
  intro s t b returned
  cases returned
  exact holds

theorem returns_bind {p : Advancing R α} {f : α → Advancing R β} {Q : β → Prop} (later : ∀ a, (f a).Returns Q) :
    (p >>= f).Returns Q := by
  intro s u b returned
  obtain ⟨a, t, _, there⟩ := run_bind_eq_some.mp returned
  exact later a there

/-! ### What a program leaves alone -/

/-- A run that returns leaves what `f` sees of the state. -/
def Keeps {τ : Type} (p : Advancing R α) (f : σ → τ) : Prop :=
  ∀ (s t : σ) (a : α), p.run s = some (a, t) → f t = f s

section

variable {τ : Type} {g : σ → τ}

omit [IsPreorder σ R] in
theorem keeps_fail : (fail : Advancing R α).Keeps g := by
  intro s t a returned
  cases returned

theorem keeps_pure (a : α) : (pure a : Advancing R α).Keeps g := by
  intro s t b returned
  cases returned
  rfl

theorem Keeps.bind {p : Advancing R α} {f : α → Advancing R β} (first : p.Keeps g) (later : ∀ a, (f a).Keeps g) :
    (p >>= f).Keeps g := by
  intro s u b returned
  obtain ⟨a, t, here, there⟩ := run_bind_eq_some.mp returned
  exact (later a t u b there).trans (first s t a here)

private theorem keeps_mapM_loop {p : β → Advancing R α} (each : ∀ b, (p b).Keeps g) (l : List β) (acc : List α) :
    (List.mapM.loop p l acc).Keeps g := by
  induction l generalizing acc with
  | nil => exact keeps_pure _
  | cons b l ih => exact (each b).bind fun a => ih (a :: acc)

theorem keeps_mapM {p : β → Advancing R α} (each : ∀ b, (p b).Keeps g) (l : List β) : (l.mapM p).Keeps g :=
  keeps_mapM_loop each l []

end

/-! ### Programs that always return -/

/-- A program that returns from everywhere, with such a result. -/
def Yields (p : Advancing R α) (Q : α → Prop) : Prop := ∀ s, ∃ a t, p.run s = some (a, t) ∧ Q a

theorem yields_pure {Q : α → Prop} {a : α} (holds : Q a) : (pure a : Advancing R α).Yields Q :=
  fun s => ⟨a, s, rfl, holds⟩

theorem Yields.bind {P : α → Prop} {Q : β → Prop} {p : Advancing R α} {f : α → Advancing R β}
    (first : p.Yields P) (later : ∀ a, P a → (f a).Yields Q) : (p >>= f).Yields Q := by
  intro s
  obtain ⟨a, t, here, holds⟩ := first s
  obtain ⟨b, u, there, after⟩ := later a holds t
  exact ⟨b, u, run_bind_eq_some.mpr ⟨a, t, here, there⟩, after⟩

private theorem yields_mapM_loop {p : β → Advancing R α} (each : ∀ b, (p b).Yields fun _ => True)
    (l : List β) (acc : List α) : (List.mapM.loop p l acc).Yields fun _ => True := by
  induction l generalizing acc with
  | nil => exact yields_pure trivial
  | cons b l ih => exact (each b).bind fun a _ => ih (a :: acc)

theorem yields_mapM {p : β → Advancing R α} (each : ∀ b, (p b).Yields fun _ => True) (l : List β) :
    (l.mapM p).Yields fun _ => True :=
  yields_mapM_loop each l []

end

end Advancing

end RtpDecoder
