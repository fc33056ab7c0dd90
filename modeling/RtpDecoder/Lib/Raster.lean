import Mathlib.Data.Int.ConditionallyCompleteOrder
import Mathlib.Data.Nat.SuccPred
import Mathlib.Order.CompletePartialOrder
import Mathlib.Order.Interval.Set.Disjoint
import Mathlib.Order.Interval.Set.Monotone
import Mathlib.Order.Interval.Set.Union

/-!
# Areas cut into rows and columns

An interval is cut at increasing borders, and a rectangle by cutting both of its sides. The
pieces of the rectangle are numbered row by row.
-/

namespace RtpDecoder

/-! ### Intervals -/

section

variable {α : Type*} [LinearOrder α] {border : Nat → α} {n : Nat}

theorem disjoint_pieces (increasing : StrictMonoOn border (Set.Iic n)) {i j : Nat}
    (first : i < n) (second : j < n) (ne : i ≠ j) :
    Disjoint (Set.Ico (border i) (border (i + 1))) (Set.Ico (border j) (border (j + 1))) := by
  wlog before : i < j generalizing i j
  · exact (this second first ne.symm (by omega)).symm
  · have after : border (i + 1) ≤ border j :=
      increasing.monotoneOn (Set.mem_Iic.mpr (by omega)) (Set.mem_Iic.mpr (by omega)) before
    exact (Set.Iio_disjoint_Ici after).mono (fun _ inside => inside.2) (fun _ inside => inside.1)

theorem mem_piece {x : α} (inside : x ∈ Set.Ico (border 0) (border n)) :
    ∃ i < n, x ∈ Set.Ico (border i) (border (i + 1)) := by
  obtain ⟨i, among, piece⟩ := Set.mem_iUnion₂.mp (Ico_subset_biUnion_Ico n border inside)
  exact ⟨i, Finset.mem_range.mp among, piece⟩

theorem piece_subset (increasing : StrictMonoOn border (Set.Iic n)) {i : Nat} (among : i < n) :
    Set.Ico (border i) (border (i + 1)) ⊆ Set.Ico (border 0) (border n) := by
  apply Set.Ico_subset_Ico
  · exact increasing.monotoneOn (Set.mem_Iic.mpr (by omega)) (Set.mem_Iic.mpr (by omega)) (by omega)
  · exact increasing.monotoneOn (Set.mem_Iic.mpr (by omega)) (Set.mem_Iic.mpr (by omega)) among

end

/-! ### Rectangles -/

section

variable {α β : Type*} [LinearOrder α] [LinearOrder β] {columns : Nat → α} {rows : Nat → β}

/-- Piece `k` of a rectangle with `width` pieces in a row. -/
def rasterPiece (columns : Nat → α) (rows : Nat → β) (width k : Nat) : Set (α × β) :=
  Set.Ico (columns (k % width)) (columns (k % width + 1)) ×ˢ
    Set.Ico (rows (k / width)) (rows (k / width + 1))

variable {width height : Nat}

theorem raster_index_lt {i j : Nat} (column : i < width) (row : j < height) : width * j + i < width * height :=
  calc width * j + i < width * j + width := Nat.add_lt_add_left column _
    _ = width * (j + 1) := (Nat.mul_succ width j).symm
    _ ≤ width * height := Nat.mul_le_mul_left width row

theorem raster_index_mod {i : Nat} (column : i < width) (j : Nat) : (width * j + i) % width = i := by
  rw [Nat.mul_add_mod, Nat.mod_eq_of_lt column]

theorem raster_index_div {i : Nat} (column : i < width) (j : Nat) : (width * j + i) / width = j := by
  rw [Nat.mul_add_div (by omega), Nat.div_eq_of_lt column, Nat.add_zero]

theorem raster_column_lt {k : Nat} (among : k < width * height) : k % width < width :=
  Nat.mod_lt k (Nat.pos_of_mul_pos_right (Nat.lt_of_le_of_lt (Nat.zero_le k) among))

theorem raster_row_lt {k : Nat} (among : k < width * height) : k / width < height :=
  Nat.div_lt_of_lt_mul among

theorem raster_nonempty (wide : StrictMonoOn columns (Set.Iic width))
    (high : StrictMonoOn rows (Set.Iic height)) {k : Nat} (among : k < width * height) :
    (rasterPiece columns rows width k).Nonempty := by
  have column := raster_column_lt among
  have row := raster_row_lt among
  apply Set.Nonempty.prod
  · exact Set.nonempty_Ico.mpr (wide (Set.mem_Iic.mpr (by omega)) (Set.mem_Iic.mpr (by omega)) (by omega))
  · exact Set.nonempty_Ico.mpr (high (Set.mem_Iic.mpr (by omega)) (Set.mem_Iic.mpr (by omega)) (by omega))

theorem raster_disjoint (wide : StrictMonoOn columns (Set.Iic width))
    (high : StrictMonoOn rows (Set.Iic height)) {k l : Nat} (first : k < width * height)
    (second : l < width * height) (ne : k ≠ l) :
    Disjoint (rasterPiece columns rows width k) (rasterPiece columns rows width l) := by
  rw [rasterPiece, rasterPiece, Set.disjoint_prod]
  by_cases same : k % width = l % width
  · have rows_ne : k / width ≠ l / width := by
      intro row
      apply ne
      rw [← Nat.div_add_mod k width, ← Nat.div_add_mod l width, row, same]
    exact .inr (disjoint_pieces high (raster_row_lt first) (raster_row_lt second) rows_ne)
  · exact .inl (disjoint_pieces wide (raster_column_lt first) (raster_column_lt second) same)

theorem raster_order (wide : StrictMonoOn columns (Set.Iic width))
    (high : StrictMonoOn rows (Set.Iic height)) {k l : Nat} (second : l < width * height)
    (before : k < l) :
    rows (k / width) < rows (l / width) ∨
      rows (k / width) = rows (l / width) ∧ columns (k % width) < columns (l % width) := by
  have first : k < width * height := by omega
  rcases Nat.lt_or_eq_of_le (Nat.div_le_div_right before.le : k / width ≤ l / width) with above | same
  · have row := raster_row_lt second
    exact .inl (high (Set.mem_Iic.mpr (by omega)) (Set.mem_Iic.mpr (by omega)) above)
  · have further : k % width < l % width := by
      have start := Nat.div_add_mod k width
      have stop := Nat.div_add_mod l width
      rw [same] at start
      omega
    have column := raster_column_lt second
    exact .inr ⟨congrArg rows same,
      wide (Set.mem_Iic.mpr (by omega)) (Set.mem_Iic.mpr (by omega)) further⟩

theorem raster_cover (wide : StrictMonoOn columns (Set.Iic width))
    (high : StrictMonoOn rows (Set.Iic height)) (p : α × β) :
    (∃ k < width * height, p ∈ rasterPiece columns rows width k) ↔
      p ∈ Set.Ico (columns 0) (columns width) ×ˢ Set.Ico (rows 0) (rows height) := by
  constructor
  · rintro ⟨k, among, inside⟩
    exact Set.prod_mono (piece_subset wide (raster_column_lt among))
      (piece_subset high (raster_row_lt among)) inside
  · rintro ⟨across, down⟩
    obtain ⟨i, column, across⟩ := mem_piece across
    obtain ⟨j, row, down⟩ := mem_piece down
    -- The piece in column `i` of row `j`.
    refine ⟨width * j + i, raster_index_lt column row, ?_⟩
    rw [rasterPiece, raster_index_mod column, raster_index_div column]
    exact ⟨across, down⟩

/-- A loop over the rows with one over the columns inside it goes through the pieces in order. -/
theorem flatMap_rows {γ : Type*} (f : Nat → Nat → γ) (width height : Nat) :
    ((List.range height).flatMap fun j => (List.range width).map (f j)) =
      (List.range (width * height)).map fun k => f (k / width) (k % width) := by
  induction height with
  | zero => simp
  | succ height ih =>
    rw [List.range_succ, List.flatMap_append, ih, Nat.mul_succ, List.range_add, List.map_append,
      List.flatMap_singleton, List.map_map]
    congr 1
    apply List.map_congr_left
    intro i among
    have column := List.mem_range.mp among
    simp only [Function.comp_apply, raster_index_div column, raster_index_mod column]

end

/-! ### Cutting along a grid -/

/-- The borders of an interval cut at the multiples of `size`. -/
def gridBorder (lo hi size : Int) (i : Nat) : Int := max lo (min hi (size * (lo / size + i)))

section

variable {lo hi size : Int}

theorem gridBorder_zero (pos : 0 < size) : gridBorder lo hi size 0 = lo := by
  have down : size * (lo / size) ≤ lo := Int.mul_ediv_self_le (by omega)
  simp only [gridBorder]
  rw [Int.natCast_zero, Int.add_zero]
  omega

theorem gridBorder_last {n : Nat} (le : lo ≤ hi) (all : hi ≤ size * (lo / size + n)) :
    gridBorder lo hi size n = hi := by
  simp only [gridBorder]
  omega

theorem lt_grid_succ (pos : 0 < size) (lo : Int) (i : Nat) : lo < size * (lo / size + (i + 1 : Nat)) := by
  have next : lo < size * (lo / size + 1) := by
    have split := Int.mul_ediv_add_emod lo size
    have rest := Int.emod_lt_of_pos lo pos
    rw [Int.mul_add]
    omega
  have further : size * (lo / size + 1) ≤ size * (lo / size + (i + 1 : Nat)) :=
    Int.mul_le_mul_of_nonneg_left (by omega) (by omega)
  omega

/-- Every cell that starts before `hi` gives a piece. -/
theorem gridBorder_strictMonoOn (pos : 0 < size) (some : lo < hi) {n : Nat}
    (before : ∀ i < n, size * (lo / size + i) < hi) :
    StrictMonoOn (gridBorder lo hi size) (Set.Iic n) := by
  apply strictMonoOn_Iic_of_lt_succ
  intro i among
  have start := before i among
  have stop := lt_grid_succ pos lo i
  have step : size * (lo / size + i) < size * (lo / size + (i + 1 : Nat)) :=
    Int.mul_lt_mul_of_pos_left (by omega) pos
  rw [Nat.succ_eq_succ, Nat.succ_eq_add_one]
  simp only [gridBorder]
  omega

theorem piece_subset_cell {i : Nat} (pos : 0 < size) (before : size * (lo / size + i) < hi) :
    Set.Ico (gridBorder lo hi size i) (gridBorder lo hi size (i + 1)) ⊆
      Set.Ico (size * (lo / size + i)) (size * (lo / size + i + 1)) := by
  have stop := lt_grid_succ pos lo i
  have cast : lo / size + ((i + 1 : Nat) : Int) = lo / size + i + 1 := by omega
  apply Set.Ico_subset_Ico
  · simp only [gridBorder]
    omega
  · simp only [gridBorder]
    rw [cast] at stop ⊢
    omega

end

end RtpDecoder
