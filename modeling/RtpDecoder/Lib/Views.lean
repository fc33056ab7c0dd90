import Mathlib.Data.List.Basic

/-!
# Runs seen through a view

A view shows a part of a system's state. When it can change at some inputs only, and what
these make of it depends on nothing else, then a run shows in the end what these inputs alone
would show, and runs that have them in the same order end alike.
-/

namespace RtpDecoder

variable {S A B : Type} {step : S → A → S} {view : S → B} {sees : A → Bool} {s s' : S} {l l' : List A}

/-- Nothing but the inputs that are seen has an effect on the view. -/
structure View (step : S → A → S) (view : S → B) (sees : A → Bool) : Prop where
  skips : ∀ s {a}, sees a = false → view (step s a) = view s
  reads : ∀ {s s' a}, sees a = true → view s = view s' → view (step s a) = view (step s' a)

namespace View

theorem foldl_filter (shows : View step view sees) (same : view s = view s') :
    view (l.foldl step s) = view ((l.filter sees).foldl step s') := by
  induction l generalizing s s' with
  | nil => exact same
  | cons a rest ih =>
    cases seen : sees a with
    | false =>
      rw [List.filter_cons_of_neg (by simp [seen])]
      exact ih ((shows.skips s seen).trans same)
    | true =>
      rw [List.filter_cons_of_pos seen]
      exact ih (shows.reads seen same)

/-- The inputs that are seen stand in the same order in both runs. -/
theorem foldl_congr (shows : View step view sees) (order : l.filter sees = l'.filter sees) :
    view (l.foldl step s) = view (l'.foldl step s) := by
  rw [shows.foldl_filter rfl, order, ← shows.foldl_filter rfl]

end View

/-- Inputs that leave the view alone. -/
theorem view_foldl_kept (leaves : ∀ s, ∀ a ∈ l, view (step s a) = view s) : view (l.foldl step s) = view s := by
  induction l generalizing s with
  | nil => rfl
  | cons a rest ih =>
    rw [List.foldl_cons, ih fun s b later => leaves s b (List.mem_cons_of_mem a later)]
    exact leaves s a List.mem_cons_self

/-- A permutation that leaves the list of the labels as it is, where these are all different. -/
theorem eq_of_perm_of_map {f : A → B} (perm : l.Perm l') (labels : l.map f = l'.map f)
    (distinct : (l.map f).Nodup) : l = l' := by
  induction l generalizing l' with
  | nil => exact (List.nil_perm.mp perm).symm
  | cons a rest ih =>
    cases l' with
    | nil => simp at labels
    | cons b rest' =>
      simp only [List.map_cons, List.cons.injEq] at labels
      rw [List.map_cons, List.nodup_cons] at distinct
      -- Another place would give the label of `a` twice.
      have first : a = b := by
        rcases List.mem_cons.mp (perm.symm.subset (List.mem_cons_self (a := b) (l := rest'))) with same | later
        · exact same.symm
        · exact absurd (labels.1 ▸ List.mem_map_of_mem (f := f) later) distinct.1
      subst first
      rw [ih ((List.perm_cons a).mp perm) labels.2 distinct.2]

end RtpDecoder
