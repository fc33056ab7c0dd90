import Mathlib.Data.List.Basic

/-!
# Monitors of event traces

A trace lists the events of a run, the latest first. A monitor folds the past of an event
into a view and says which events may follow it; a trace is accepted when every event in it
was allowed by its own past.
-/

namespace RtpDecoder

structure Monitor (E V : Type) where
  start : V
  next : V → E → V
  law : V → E → Prop

namespace Monitor

variable {E V : Type} (m : Monitor E V)

/-- What the monitor remembers of a trace. -/
def view : List E → V
  | [] => m.start
  | e :: past => m.next (view past) e

def Accepts : List E → Prop
  | [] => True
  | e :: past => m.law (m.view past) e ∧ Accepts past

/-- An event that the monitor neither forbids nor remembers. -/
def Silent (e : E) : Prop := ∀ v, m.law v e ∧ m.next v e = v

@[simp] theorem view_cons (e : E) (past : List E) : m.view (e :: past) = m.next (m.view past) e := rfl

@[simp] theorem accepts_nil : m.Accepts [] := trivial

@[simp] theorem accepts_cons (e : E) (past : List E) :
    m.Accepts (e :: past) ↔ m.law (m.view past) e ∧ m.Accepts past := Iff.rfl

theorem accepts_iff (trace : List E) :
    m.Accepts trace ↔ ∀ later e past, trace = later ++ e :: past → m.law (m.view past) e := by
  induction trace with
  | nil => simp
  | cons first rest ih =>
    rw [accepts_cons, ih]
    constructor
    · rintro ⟨head, tail⟩ later e past split
      cases later with
      | nil =>
        cases split
        exact head
      | cons x later =>
        cases split
        exact tail later e past rfl
    · intro all
      refine ⟨all [] first rest rfl, ?_⟩
      intro later e past split
      exact all (first :: later) e past (by rw [split]; rfl)

variable {m}

theorem Accepts.of_suffix {past trace : List E} (suffix : past <:+ trace) (accepted : m.Accepts trace) :
    m.Accepts past := by
  obtain ⟨new, rfl⟩ := suffix
  rw [accepts_iff] at accepted ⊢
  intro later e before split
  exact accepted (new ++ later) e before (by rw [split, List.append_assoc])

theorem silent_append {new : List E} (silent : ∀ e ∈ new, m.Silent e) (past : List E) :
    m.view (new ++ past) = m.view past ∧ (m.Accepts (new ++ past) ↔ m.Accepts past) := by
  induction new with
  | nil => exact ⟨rfl, Iff.rfl⟩
  | cons e rest ih =>
    obtain ⟨view, accepts⟩ := ih fun e mem => silent e (List.mem_cons_of_mem _ mem)
    have quiet := silent e List.mem_cons_self (m.view (rest ++ past))
    refine ⟨?_, ?_⟩
    · rw [List.cons_append, view_cons, quiet.2, view]
    · rw [List.cons_append, accepts_cons, accepts]
      exact and_iff_right quiet.1

end Monitor

end RtpDecoder
