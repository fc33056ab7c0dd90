import Mathlib.Data.List.Basic
import Mathlib.Data.Nat.Bitwise

/-!
# An arena that is only filled

Each request takes the next bytes of a buffer. One that does not fit gets no memory and
leaves the rest to later, smaller ones. The index is a machine word, so the test for room can
wrap around; nothing of this shows as long as everything that is asked for fits.
-/

namespace RtpDecoder

structure Region where
  start : Nat
  size : Nat
deriving DecidableEq, Repr

def Region.Apart (r r' : Region) : Prop := r.start + r.size ≤ r'.start ∨ r'.start + r'.size ≤ r.start

/-- Where the next region starts, with what was handed out and what was asked for in vain,
the latest first. -/
structure Arena where
  index : Nat := 0
  granted : List Region := []
  refused : List Nat := []
deriving DecidableEq, Repr

/-- A number of bytes, and whether something is written through the pointer to them. -/
structure Request where
  size : Nat
  written : Bool
deriving DecidableEq, Repr

def Request.total (reqs : List Request) : Nat := (reqs.map Request.size).sum

theorem Request.total_cons (req : Request) (reqs : List Request) :
    Request.total (req :: reqs) = req.size + Request.total reqs := by
  rw [total, List.map_cons, List.sum_cons, total]

namespace Arena

section

variable (capacity word : Nat)

/-- There are `n` more bytes, in the arithmetic of words. -/
def HasRoom (a : Arena) (n : Nat) : Prop := (a.index + n) % 2 ^ word ≤ capacity

instance (a : Arena) (n : Nat) : Decidable (a.HasRoom capacity word n) := Nat.decLe _ _

def alloc (n : Nat) (a : Arena) : Option Region × Arena :=
  if a.HasRoom capacity word n then
    (some ⟨a.index, n⟩,
      { a with index := (a.index + n) % 2 ^ word, granted := ⟨a.index, n⟩ :: a.granted })
  else (none, { a with refused := n :: a.refused })

/-- One request after the other. There is no result if something is written through a pointer that
was refused. -/
def serve : List Request → Arena → Option Arena
  | [], a => some a
  | req :: reqs, a =>
    if a.HasRoom capacity word req.size ∨ req.written = false then serve reqs (a.alloc capacity word req.size).2
    else none

/-- What all requests together do to the arena. -/
def after (reqs : List Request) (a : Arena) : Arena :=
  reqs.foldl (fun a req => (a.alloc capacity word req.size).2) a

/-- Everything asked for was handed out, aligned, inside the buffer and no byte twice. -/
structure Sound (align : Nat) (a : Arena) : Prop where
  complete : a.refused = []
  apart : a.granted.Pairwise Region.Apart
  aligned : ∀ r ∈ a.granted, align ∣ r.start
  inside : ∀ r ∈ a.granted, r.start + r.size ≤ capacity

end

variable {capacity word align n : Nat} {a a' : Arena} {reqs : List Request}

theorem alloc_room (room : a.HasRoom capacity word n) :
    a.alloc capacity word n = (some ⟨a.index, n⟩,
      { a with index := (a.index + n) % 2 ^ word, granted := ⟨a.index, n⟩ :: a.granted }) := if_pos room

theorem alloc_full (full : ¬ a.HasRoom capacity word n) :
    a.alloc capacity word n = (none, { a with refused := n :: a.refused }) := if_neg full

theorem serve_append (reqs reqs' : List Request) (a : Arena) :
    serve capacity word (reqs ++ reqs') a = (serve capacity word reqs a).bind (serve capacity word reqs') := by
  induction reqs generalizing a with
  | nil => rfl
  | cons req reqs ih =>
    simp only [List.cons_append, serve]
    split
    · exact ih _
    · rfl

/-! ### Requests that fit -/

/-- The regions lie one above the other, below the index. -/
structure Stacked (capacity align : Nat) (a : Arena) : Prop extends a.Sound capacity align where
  below : ∀ r ∈ a.granted, r.start + r.size ≤ a.index
  index_aligned : align ∣ a.index

theorem stacked_empty : ({} : Arena).Stacked capacity align where
  complete := rfl
  apart := .nil
  aligned _ member := nomatch member
  inside _ member := nomatch member
  below _ member := nomatch member
  index_aligned := Nat.dvd_zero align

theorem Stacked.alloc (stacked : a.Stacked capacity align) (small : capacity < 2 ^ word)
    (fits : a.index + n ≤ capacity) (aligned : align ∣ n) :
    a.HasRoom capacity word n ∧ (a.alloc capacity word n).2.index = a.index + n ∧
      (a.alloc capacity word n).2.Stacked capacity align := by
  have exact_index : (a.index + n) % 2 ^ word = a.index + n := Nat.mod_eq_of_lt (by omega)
  have room : a.HasRoom capacity word n := Nat.le_trans (Nat.le_of_eq exact_index) fits
  rw [alloc_room room, exact_index]
  refine ⟨room, rfl, ?_⟩
  constructor
  · constructor
    · exact stacked.complete
    -- The others end at the index at the latest, where this one starts.
    · exact List.pairwise_cons.mpr ⟨fun r member => .inr (stacked.below r member), stacked.apart⟩
    · exact List.forall_mem_cons.mpr ⟨stacked.index_aligned, stacked.aligned⟩
    · exact List.forall_mem_cons.mpr ⟨fits, stacked.inside⟩
  · intro r member
    rcases List.mem_cons.mp member with rfl | lower
    · exact Nat.le_refl _
    · exact Nat.le_trans (stacked.below r lower) (Nat.le_add_right _ _)
  · exact Nat.dvd_add stacked.index_aligned aligned

theorem Stacked.serve (stacked : a.Stacked capacity align) (small : capacity < 2 ^ word)
    (fits : a.index + Request.total reqs ≤ capacity) (aligned : ∀ req ∈ reqs, align ∣ req.size) :
    ∃ a', Arena.serve capacity word reqs a = some a' ∧ a'.Stacked capacity align := by
  induction reqs generalizing a with
  | nil => exact ⟨a, rfl, stacked⟩
  | cons req reqs ih =>
    rw [Request.total_cons] at fits
    obtain ⟨first, rest⟩ := List.forall_mem_cons.mp aligned
    obtain ⟨room, index, higher⟩ := stacked.alloc small (by omega : a.index + req.size ≤ capacity) first
    rw [Arena.serve, if_pos (.inl room)]
    exact ih higher (by omega) rest

/-! ### Requests that do not fit -/

theorem serve_keeps (served : serve capacity word reqs a = some a') :
    a.granted ⊆ a'.granted ∧ a.refused ⊆ a'.refused := by
  induction reqs generalizing a with
  | nil =>
    cases served
    exact ⟨List.Subset.refl _, List.Subset.refl _⟩
  | cons req reqs ih =>
    rw [serve] at served
    split at served
    · obtain ⟨granted, refused⟩ := ih served
      by_cases room : a.HasRoom capacity word req.size
      · rw [alloc_room room] at granted refused
        exact ⟨List.Subset.trans (List.subset_cons_self _ _) granted, refused⟩
      · rw [alloc_full room] at granted refused
        exact ⟨granted, List.Subset.trans (List.subset_cons_self _ _) refused⟩
    · cases served

/-- If nothing is refused in the end and all regions are inside, the index has not wrapped around:
everything has fitted. -/
theorem fits_of_served (small : capacity < 2 ^ word) (start : a.index ≤ capacity)
    (served : serve capacity word reqs a = some a') (complete : a'.refused = [])
    (inside : ∀ r ∈ a'.granted, r.start + r.size ≤ capacity) : a.index + Request.total reqs ≤ capacity := by
  induction reqs generalizing a with
  | nil => exact start
  | cons req reqs ih =>
    rw [serve] at served
    split at served
    · obtain ⟨granted, refused⟩ := serve_keeps served
      -- A refusal would still be there at the end.
      have room : a.HasRoom capacity word req.size := by
        by_contra full
        rw [alloc_full full, complete] at refused
        exact List.not_mem_nil (refused List.mem_cons_self)
      rw [alloc_room room] at granted served
      -- Nor does the test for room pass by wrapping around: the region would stick out.
      have fits : a.index + req.size ≤ capacity := inside _ (granted List.mem_cons_self)
      have exact_index : (a.index + req.size) % 2 ^ word = a.index + req.size := Nat.mod_eq_of_lt (by omega)
      have rest : (a.index + req.size) % 2 ^ word + Request.total reqs ≤ capacity :=
        ih (Nat.le_trans (Nat.le_of_eq exact_index) fits) served
      rw [Request.total_cons]
      omega
    · cases served

/-- All requests are served, and well, exactly when they fit together. -/
theorem served_sound_iff (small : capacity < 2 ^ word) (aligned : ∀ req ∈ reqs, align ∣ req.size) :
    (∃ a, serve capacity word reqs {} = some a ∧ a.Sound capacity align) ↔ Request.total reqs ≤ capacity := by
  constructor
  · rintro ⟨a, served, sound⟩
    have fits := fits_of_served small (Nat.zero_le _) served sound.complete sound.inside
    exact Nat.le_trans (Nat.le_add_left _ _) fits
  · intro fits
    have room : ({} : Arena).index + Request.total reqs ≤ capacity := by
      rw [Nat.zero_add]
      exact fits
    obtain ⟨a, served, stacked⟩ := stacked_empty.serve small room aligned
    exact ⟨a, served, stacked.toSound⟩

/-- Nothing is written through a refused pointer, exactly when every request that is written
through finds room behind those before it. -/
theorem exists_served_iff :
    (∃ a', serve capacity word reqs a = some a') ↔
      ∀ pre req post, reqs = pre ++ req :: post → req.written = true →
        (after capacity word pre a).HasRoom capacity word req.size := by
  induction reqs generalizing a with
  | nil => simp [serve]
  | cons req reqs ih =>
    have later : (∃ a', serve capacity word (req :: reqs) a = some a') ↔
        (a.HasRoom capacity word req.size ∨ req.written = false) ∧
          ∃ a', serve capacity word reqs (a.alloc capacity word req.size).2 = some a' := by
      simp only [serve]
      split
      next served => simp only [served, true_and]
      next unserved => simp [unserved]
    rw [later, ih]
    -- A request in the list is this one, or it stands behind it with a longer list in front.
    constructor
    · rintro ⟨here, rest⟩ pre req' post split written
      cases pre with
      | nil =>
        cases split
        exact here.resolve_right (by simp [written])
      | cons first pre =>
        cases split
        exact rest pre req' post rfl written
    · intro all
      constructor
      · by_cases written : req.written = true
        · exact .inl (all [] req reqs rfl written)
        · exact .inr (Bool.not_eq_true _ ▸ written)
      · intro pre req' post split written
        exact all (req :: pre) req' post (by rw [split]; rfl) written

end Arena

end RtpDecoder
