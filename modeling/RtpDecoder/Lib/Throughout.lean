import Mathlib.Data.List.Basic

/-!
# Properties of every step of a run

A system takes one step for each input. A property of a state and the input that it finds
holds throughout a run when it holds at each of its steps.
-/

namespace RtpDecoder

variable {S A : Type} {step : S → A → S} {P Q : S → A → Prop} {s : S} {inputs : List A}

def Throughout (step : S → A → S) (P : S → A → Prop) : S → List A → Prop
  | _, [] => True
  | s, a :: rest => P s a ∧ Throughout step P (step s a) rest

instance [∀ s a, Decidable (P s a)] : ∀ s inputs, Decidable (Throughout step P s inputs)
  | _, [] => isTrue trivial
  | s, a :: rest =>
    let _ := instDecidableThroughout (step s a) rest
    inferInstanceAs (Decidable (_ ∧ _))

theorem throughout_append {later : List A} : Throughout step P s (inputs ++ later) ↔
    Throughout step P s inputs ∧ Throughout step P (inputs.foldl step s) later := by
  induction inputs generalizing s with
  | nil => simp [Throughout]
  | cons a rest ih => rw [List.cons_append, Throughout, Throughout, ih, List.foldl_cons, and_assoc]

/-- The steps of a run are those behind its prefixes. -/
theorem throughout_iff : Throughout step P s inputs ↔
    ∀ before a after, inputs = before ++ a :: after → P (before.foldl step s) a := by
  induction inputs generalizing s with
  | nil => simp [Throughout]
  | cons a rest ih =>
    rw [Throughout, ih]
    constructor
    · rintro ⟨now, later⟩ before b after cut
      rcases List.cons_eq_append_iff.mp cut with ⟨rfl, same⟩ | ⟨before', rfl, tail⟩
      · cases same
        exact now
      · exact later before' b after tail
    · intro all
      exact ⟨all [] a rest rfl, fun before b after cut => all (a :: before) b after (cut ▸ rfl)⟩

/-- Steps that meet a condition keep an invariant, and in its states the condition is enough. -/
theorem Throughout.of_invariant (Inv : S → Prop) (start : Inv s)
    (keeps : ∀ {s a}, a ∈ inputs → Inv s → Q s a → Inv (step s a))
    (enough : ∀ {s a}, a ∈ inputs → Inv s → Q s a → P s a)
    (holds : Throughout step Q s inputs) : Throughout step P s inputs := by
  induction inputs generalizing s with
  | nil => trivial
  | cons a rest ih =>
    have first := List.mem_cons_self (a := a) (l := rest)
    exact ⟨enough first start holds.1,
      ih (keeps first start holds.1) (fun later => keeps (List.mem_cons_of_mem a later))
        (fun later => enough (List.mem_cons_of_mem a later)) holds.2⟩

/-- A property that every step has in the states of an invariant. -/
theorem Throughout.of_step (Inv : S → Prop) (start : Inv s)
    (each : ∀ {s a}, Inv s → P s a ∧ Inv (step s a)) : Throughout step P s inputs := by
  induction inputs generalizing s with
  | nil => trivial
  | cons a rest ih => exact ⟨(each start).1, ih (each start).2⟩

/-- Two properties that agree in the states of an invariant hold throughout the same runs. -/
theorem throughout_congr (Inv : S → Prop) (start : Inv s) (keeps : ∀ {s a}, Inv s → Inv (step s a))
    (agree : ∀ {s a}, Inv s → (P s a ↔ Q s a)) :
    Throughout step P s inputs ↔ Throughout step Q s inputs := by
  induction inputs generalizing s with
  | nil => exact Iff.rfl
  | cons a rest ih => exact and_congr (agree start) (ih (keeps start))

end RtpDecoder
