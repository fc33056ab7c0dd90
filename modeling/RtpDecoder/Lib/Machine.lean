import Mathlib.Data.List.Basic

/-!
# Machines and refinement

A machine answers every operation with a value and goes over to a new state. A machine
refines a simpler one along an abstraction function when, in good states and for operations
that the simpler one admits, both give the same values and the new states correspond.
-/

namespace RtpDecoder

structure Machine (O V S : Type) where
  step : S → O → V × S

namespace Machine

variable {O V S T : Type}

/-- The values of a sequence of operations, and the state that it leaves. -/
def run (m : Machine O V S) : S → List O → List V × S
  | s, [] => ([], s)
  | s, o :: rest =>
    ((m.step s o).1 :: (m.run (m.step s o).2 rest).1, (m.run (m.step s o).2 rest).2)

/-- Each operation is admitted in the state that it finds. -/
def Admits (m : Machine O V S) (may : S → O → Prop) : S → List O → Prop
  | _, [] => True
  | s, o :: rest => may s o ∧ m.Admits may (m.step s o).2 rest

theorem admits_append {m : Machine O V S} {may : S → O → Prop} {s : S} {before after : List O} :
    m.Admits may s (before ++ after) ↔
      m.Admits may s before ∧ m.Admits may (m.run s before).2 after := by
  induction before generalizing s with
  | nil => simp [Admits, run]
  | cons o rest ih => simp only [List.cons_append, Admits, run, ih, and_assoc]

/-- What every admitted operation keeps holds behind a sequence of them. -/
theorem Admits.invariant {m : Machine O V S} {may : S → O → Prop} {good : S → Prop}
    (keeps : ∀ {s o}, good s → may s o → good (m.step s o).2) {s : S} (start : good s) {ops : List O}
    (admitted : m.Admits may s ops) : good (m.run s ops).2 := by
  induction ops generalizing s with
  | nil => exact start
  | cons o rest ih =>
    obtain ⟨now, later⟩ := admitted
    exact ih (keeps start now) later

/-- `c` does what `a` does on the abstractions of its states, as long as they are good. -/
structure Refines (c : Machine O V S) (a : Machine O V T) (abs : S → T) (good : S → Prop)
    (may : T → O → Prop) : Prop where
  value : ∀ {s o}, good s → may (abs s) o → (c.step s o).1 = (a.step (abs s) o).1
  state : ∀ {s o}, good s → may (abs s) o → abs (c.step s o).2 = (a.step (abs s) o).2
  stays : ∀ {s o}, good s → may (abs s) o → good (c.step s o).2

theorem Refines.run {c : Machine O V S} {a : Machine O V T} {abs : S → T} {good : S → Prop}
    {may : T → O → Prop} (refines : Refines c a abs good may) {s : S} (start : good s)
    (ops : List O) (admitted : a.Admits may (abs s) ops) :
    (c.run s ops).1 = (a.run (abs s) ops).1 ∧ abs (c.run s ops).2 = (a.run (abs s) ops).2 ∧
      good (c.run s ops).2 := by
  induction ops generalizing s with
  | nil => exact ⟨rfl, rfl, start⟩
  | cons o rest ih =>
    obtain ⟨now, later⟩ := admitted
    have same := refines.state start now
    rw [← same] at later
    obtain ⟨values, final, good⟩ := ih (refines.stays start now) later
    simp only [Machine.run, ← same, refines.value start now]
    exact ⟨by rw [values], final, good⟩

end Machine

end RtpDecoder
