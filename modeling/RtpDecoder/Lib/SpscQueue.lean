import Mathlib.Data.List.Basic
import Mathlib.Logic.Function.Basic

/-!
# A bounded single-producer single-consumer queue

A circular buffer with a consumer index `head` and a producer index `tail`. One
cell is always kept free, so `head = tail` means empty and a producer whose next
index would meet `head` finds the queue full. The results below refine the two
operations to appending to, and taking from, a list.
-/

variable {α : Type}

/-- The circular buffer. The bounds of both indices are part of the value. -/
structure SpscQueue (α : Type) (cap : Nat) where
  buf : Nat → α
  head : Nat
  tail : Nat
  head_lt : head < cap
  tail_lt : tail < cap

namespace SpscQueue

variable {cap : Nat}

/-- The index after `i`, wrapping at the capacity. -/
def next (cap i : Nat) : Nat := if i + 1 = cap then 0 else i + 1

/-- The physical index of the `k`-th element counted from `head`. -/
def cell (cap head k : Nat) : Nat := if head + k < cap then head + k else head + k - cap

theorem next_lt {i : Nat} (bound : i < cap) : next cap i < cap := by
  unfold next
  split <;> omega

/-- The number of queued elements. -/
def size (q : SpscQueue α cap) : Nat :=
  if q.head ≤ q.tail then q.tail - q.head else q.tail + cap - q.head

/-- The queued elements, oldest first. -/
def contents (q : SpscQueue α cap) : List α :=
  (List.range q.size).map fun k => q.buf (cell cap q.head k)

def empty (default : α) (h : 0 < cap) : SpscQueue α cap := ⟨fun _ => default, 0, 0, h, h⟩

/-- Producer side: refuse when full, else write the cell and publish the new tail. -/
def enqueue (q : SpscQueue α cap) (x : α) : Option (SpscQueue α cap) :=
  if next cap q.tail = q.head then none
  else some { q with
    buf := Function.update q.buf q.tail x
    tail := next cap q.tail
    tail_lt := next_lt q.tail_lt }

/-- Consumer side: nothing when empty, else the oldest element and the advanced head. -/
def dequeue (q : SpscQueue α cap) : Option (α × SpscQueue α cap) :=
  if q.head = q.tail then none
  else some (q.buf q.head, { q with head := next cap q.head, head_lt := next_lt q.head_lt })

@[simp] theorem contents_empty (default : α) (h : 0 < cap) : (empty default h : SpscQueue α cap).contents = [] := by
  simp [contents, size, empty]

private theorem size_lt (q : SpscQueue α cap) : q.size < cap := by
  have hh := q.head_lt
  have ht := q.tail_lt
  unfold size
  split <;> omega

private theorem cell_ne_tail (q : SpscQueue α cap) {k : Nat} (bound : k < q.size) : cell cap q.head k ≠ q.tail := by
  have hh := q.head_lt
  have ht := q.tail_lt
  unfold size at bound
  unfold cell
  split at bound <;> split <;> omega

private theorem cell_size (q : SpscQueue α cap) : cell cap q.head q.size = q.tail := by
  have hh := q.head_lt
  have ht := q.tail_lt
  unfold size cell
  split <;> split <;> omega

theorem length_contents (q : SpscQueue α cap) : q.contents.length = q.size := by
  simp [contents]

theorem length_contents_lt (q : SpscQueue α cap) : q.contents.length < cap := by
  rw [length_contents]
  exact size_lt q

theorem enqueue_eq_none_iff {q : SpscQueue α cap} {x : α} : q.enqueue x = none ↔ q.contents.length + 1 = cap := by
  have hh := q.head_lt
  have ht := q.tail_lt
  have full : next cap q.tail = q.head ↔ q.size + 1 = cap := by
    unfold size next
    split <;> split <;> omega
  rw [length_contents, ← full, enqueue, ite_eq_left_iff]
  simp

theorem dequeue_eq_none_iff {q : SpscQueue α cap} : q.dequeue = none ↔ q.contents = [] := by
  have hh := q.head_lt
  have ht := q.tail_lt
  rw [← List.length_eq_zero_iff, length_contents]
  unfold dequeue size
  split
  · simp only [true_iff]
    split <;> omega
  · simp only [reduceCtorEq, false_iff]
    split <;> omega

theorem contents_enqueue {q q' : SpscQueue α cap} {x : α} (pushed : q.enqueue x = some q') :
    q'.contents = q.contents ++ [x] := by
  unfold enqueue at pushed
  split at pushed
  · cases pushed
  next free =>
    cases pushed
    have hh := q.head_lt
    have ht := q.tail_lt
    have grown : ({ q with
        buf := Function.update q.buf q.tail x
        tail := next cap q.tail
        tail_lt := next_lt q.tail_lt } : SpscQueue α cap).size = q.size + 1 := by
      unfold size next at *
      dsimp only
      split at free <;> split <;> split <;> split <;> omega
    unfold contents
    rw [grown, List.range_succ, List.map_append]
    congr 1
    · apply List.map_congr_left
      intro k member
      exact Function.update_of_ne (cell_ne_tail q (List.mem_range.mp member)) _ _
    · simp [cell_size q]

theorem contents_dequeue {q q' : SpscQueue α cap} {x : α} (taken : q.dequeue = some (x, q')) :
    q.contents = x :: q'.contents := by
  unfold dequeue at taken
  split at taken
  · cases taken
  next nonempty =>
    cases taken
    have hh := q.head_lt
    have ht := q.tail_lt
    have shrunk : q.size = ({ q with
        head := next cap q.head
        head_lt := next_lt q.head_lt } : SpscQueue α cap).size + 1 := by
      unfold size next
      dsimp only
      split <;> split <;> split <;> omega
    have bound := size_lt q
    unfold contents
    rw [shrunk, List.range_succ_eq_map, List.map_cons, List.map_map]
    congr 1
    · simp [cell, hh]
    · apply List.map_congr_left
      intro k member
      have inside := List.mem_range.mp member
      have moved : cell cap q.head (k + 1) = cell cap (next cap q.head) k := by
        unfold cell next
        split <;> split <;> split <;> omega
      simp only [Function.comp, Nat.succ_eq_add_one, moved]

end SpscQueue
