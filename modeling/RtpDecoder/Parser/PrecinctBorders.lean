import Mathlib.Tactic.Ring
import RtpDecoder.Lib.Raster
import RtpDecoder.Parser.CodeBlocks

/-!
# The borders of the precincts

`parepare_tcomp_structure` counts the precincts of a resolution in each direction by rounding
its far border up and its near border down, and it computes the borders of each precinct from
its column and its row. The number of turns of the loop is the product of the counts in 32
bits, whereas the memory is taken for the product in `size_t`.
-/

namespace RtpDecoder.Parser

namespace Level

/-! ### One direction -/

/-- What is computed in one direction fits into the types of the source: the sum that is
rounded up, the difference that is the count, and the far border of each cell. -/
structure DirectionFits (lo hi : Int) (size : Nat) : Prop where
  sum : hi + (size - 1) < 2 ^ 31
  difference : (precinctCount lo hi size : Int) = ceildivInt hi size - lo.tdiv size
  border : ∀ x < precinctCount lo hi size, size * (x + 1 + lo.toNat / size) < 2 ^ 31

/-- In addition the number of precincts fits. -/
structure Fits (lv : Level) (rp : Geometry) : Prop where
  columns : DirectionFits rp.x0 rp.x1 (2 ^ lv.prw)
  rows : DirectionFits rp.y0 rp.y1 (2 ^ lv.prh)
  product : precinctCount rp.x0 rp.x1 (2 ^ lv.prw) * precinctCount rp.y0 rp.y1 (2 ^ lv.prh) < 2 ^ 32

section

variable {lo hi size : Nat} (pos : 0 < size) (some : lo < hi)

private theorem cast_cell (size x q : Nat) : (size : Int) * (q + x) = (size * (x + q) : Nat) := by
  push_cast
  ring

include pos some

/-- The cells that are counted start inside the interval. -/
private theorem cell_start {x : Nat} (among : x < gridCells lo hi size) : size * (x + lo / size) < hi := by
  rw [gridCells, if_pos some] at among
  have before : x + lo / size < hi ⌈/⌉ size := by omega
  rwa [← Nat.not_le, ceilDiv_le_iff_le_mul pos, Nat.not_le] at before

private theorem grid_start {i : Nat} (among : i < gridCells lo hi size) :
    (size : Int) * ((lo : Int) / size + i) < hi := by
  have start := cell_start pos some among
  have cast : (size : Int) * (lo / size + i) = (size * (i + lo / size) : Nat) := cast_cell size i (lo / size)
  rw [cast]
  exact Int.ofNat_lt.mpr start

private theorem borders_increase : StrictMonoOn (gridBorder lo hi size) (Set.Iic (gridCells lo hi size)) := by
  apply gridBorder_strictMonoOn (Int.natCast_pos.mpr pos) (Int.ofNat_lt.mpr some)
  intro i among
  exact grid_start pos some among

private theorem last_border : gridBorder lo hi size (gridCells lo hi size) = hi := by
  apply gridBorder_last (Int.ofNat_le.mpr some.le)
  have covered : hi ≤ size * (hi ⌈/⌉ size) := (ceilDiv_le_iff_le_mul pos).mp (Nat.le_refl _)
  have below := div_lt_ceilDiv pos some
  have cells : (lo : Int) / size + gridCells lo hi size = (hi ⌈/⌉ size : Nat) := by
    rw [gridCells, if_pos some]
    omega
  rw [cells]
  exact_mod_cast covered

variable (room : hi + size ≤ 2 ^ 31)

include room

private theorem cells_of_count :
    (precinctCount lo hi size : Int) = ceildivInt hi size - (lo : Int).tdiv size ∧
      precinctCount lo hi size = gridCells lo hi size := by
  have below := div_lt_ceilDiv pos some
  have bound : hi ⌈/⌉ size ≤ hi := ceilDiv_le_self pos hi
  have quotient : (lo : Int).tdiv size = (lo / size : Nat) := (Int.ofNat_tdiv lo size).symm
  have ordered : (lo : Int) < hi := Int.ofNat_lt.mpr some
  rw [precinctCount, if_pos ordered, gridCells, if_pos some, ceildivInt_eq pos room, quotient]
  generalize lo / size = q at below
  generalize hi ⌈/⌉ size = n at below bound
  simp only [uint32]
  omega

private theorem cell_stop {x : Nat} (among : x < gridCells lo hi size) : size * (x + 1 + lo / size) < 2 ^ 31 := by
  have start := cell_start pos some among
  have next : size * (x + 1 + lo / size) = size * (x + lo / size) + size := by ring
  omega

private theorem near_eq_border {x : Nat} (among : x < gridCells lo hi size) :
    int32 (max (uint32 lo) (size * (x + uint32 lo / size) % 2 ^ 32) : Nat) =
      gridBorder lo hi size x := by
  have start := cell_start pos some among
  have cast : (size : Int) * (lo / size + x) = (size * (x + lo / size) : Nat) := cast_cell size x (lo / size)
  rw [uint32_of_lt (by omega), Nat.mod_eq_of_lt (by omega), int32_of_lt (by omega), gridBorder, cast]
  omega

private theorem far_eq_border {x : Nat} (among : x < gridCells lo hi size) :
    int32 (min (uint32 hi) (size * (x + 1 + uint32 lo / size) % 2 ^ 32) : Nat) =
      gridBorder lo hi size (x + 1) := by
  have stop := cell_stop pos some room among
  have behind := lt_grid_succ (Int.natCast_pos.mpr pos) lo x
  have cast : (size : Int) * (lo / size + (x + 1 : Nat)) = (size * (x + 1 + lo / size) : Nat) :=
    cast_cell size (x + 1) (lo / size)
  rw [cast] at behind
  rw [uint32_of_lt (by omega), uint32_of_lt (by omega), Nat.mod_eq_of_lt (by omega),
    int32_of_lt (by omega), gridBorder, cast]
  omega

end

/-- One direction as it is cut: the count and the borders of the source are those of the grid. -/
private structure Cut (lo hi : Int) (size : Nat) : Prop where
  fits : DirectionFits lo hi size
  count : precinctCount lo hi size = gridCells lo.toNat hi.toNat size
  cells_pos : 0 < gridCells lo.toNat hi.toNat size
  first : gridBorder lo hi size 0 = lo
  last : gridBorder lo hi size (gridCells lo.toNat hi.toNat size) = hi
  increase : StrictMonoOn (gridBorder lo hi size) (Set.Iic (gridCells lo.toNat hi.toNat size))
  start : ∀ x < gridCells lo.toNat hi.toNat size, size * (lo / size + x) < hi
  near : ∀ x < gridCells lo.toNat hi.toNat size,
    int32 (max (uint32 lo) (size * (x + uint32 lo / size) % 2 ^ 32) : Nat) = gridBorder lo hi size x
  far : ∀ x < gridCells lo.toNat hi.toNat size,
    int32 (min (uint32 hi) (size * (x + 1 + uint32 lo / size) % 2 ^ 32) : Nat) =
      gridBorder lo hi size (x + 1)

private theorem cut {lo hi : Int} {size : Nat} (pos : 0 < size) (nonneg : 0 ≤ lo) (some : lo < hi)
    (room : hi + size ≤ 2 ^ 31) : Cut lo hi size := by
  lift lo to Nat using nonneg
  lift hi to Nat using by omega
  have some : lo < hi := by omega
  have room : hi + size ≤ 2 ^ 31 := by omega
  have counted := cells_of_count pos some room
  exact {
    fits := {
      sum := by omega
      difference := counted.1
      border := by
        rw [counted.2]
        intro x among
        exact cell_stop pos some room among }
    count := counted.2
    cells_pos := by
      have below := div_lt_ceilDiv pos some
      rw [Int.toNat_natCast, Int.toNat_natCast, gridCells, if_pos some]
      omega
    first := gridBorder_zero (Int.natCast_pos.mpr pos)
    last := last_border pos some
    increase := borders_increase pos some
    start := fun x among => grid_start pos some among
    near := fun x among => near_eq_border pos some room among
    far := fun x among => far_eq_border pos some room among }

/-! ### Both directions -/

/-- How many cells of the precinct grid meet the resolution. -/
def cells (lv : Level) (rp : Geometry) : Nat :=
  gridCells rp.x0.toNat rp.x1.toNat (2 ^ lv.prw) * gridCells rp.y0.toNat rp.y1.toNat (2 ^ lv.prh)

section

variable {lv : Level} {rp : Geometry} (columns : Cut rp.x0 rp.x1 (2 ^ lv.prw))
  (rows : Cut rp.y0 rp.y1 (2 ^ lv.prh))

/-- Precinct `np`. -/
private def nth (lv : Level) (rp : Geometry) (np : Nat) : Geometry :=
  let npw := gridCells rp.x0.toNat rp.x1.toNat (2 ^ lv.prw)
  lv.precCoord rp (np % npw) (np / npw)

/-- Piece `np` of the resolution when it is cut along the grid. -/
private def piece (lv : Level) (rp : Geometry) (np : Nat) : Set (Int × Int) :=
  rasterPiece (gridBorder rp.x0 rp.x1 (2 ^ lv.prw : Nat)) (gridBorder rp.y0 rp.y1 (2 ^ lv.prh : Nat))
    (gridCells rp.x0.toNat rp.x1.toNat (2 ^ lv.prw)) np

include columns rows

private theorem nth_eq {np : Nat} (among : np < lv.cells rp) :
    let npw := gridCells rp.x0.toNat rp.x1.toNat (2 ^ lv.prw)
    lv.nth rp np =
      ⟨gridBorder rp.x0 rp.x1 (2 ^ lv.prw : Nat) (np % npw), gridBorder rp.y0 rp.y1 (2 ^ lv.prh : Nat) (np / npw),
        gridBorder rp.x0 rp.x1 (2 ^ lv.prw : Nat) (np % npw + 1),
        gridBorder rp.y0 rp.y1 (2 ^ lv.prh : Nat) (np / npw + 1)⟩ := by
  have column := raster_column_lt among
  have row := raster_row_lt among
  simp only [nth, precCoord, columns.near _ column, columns.far _ column, rows.near _ row, rows.far _ row]

private theorem region_nth {np : Nat} (among : np < lv.cells rp) : (lv.nth rp np).region = lv.piece rp np := by
  rw [nth_eq columns rows among]
  rfl

private theorem mem_piece_iff (p : Int × Int) : (∃ k < lv.cells rp, p ∈ lv.piece rp k) ↔ p ∈ rp.region := by
  have covered := raster_cover columns.increase rows.increase p
  rwa [columns.first, columns.last, rows.first, rows.last] at covered

private theorem partition_cells :
    Partitions ((List.range (lv.cells rp)).map (lv.nth rp)) rp.region (2 ^ lv.prw) (2 ^ lv.prh) := by
  constructor
  case nonempty =>
    intro g listed
    obtain ⟨k, among, rfl⟩ := List.mem_map.mp listed
    rw [region_nth columns rows (List.mem_range.mp among)]
    exact raster_nonempty columns.increase rows.increase (List.mem_range.mp among)
  case disjoint =>
    rw [List.pairwise_map]
    apply List.pairwise_lt_range.imp_of_mem
    intro k l first second before
    rw [region_nth columns rows (List.mem_range.mp first), region_nth columns rows (List.mem_range.mp second)]
    exact raster_disjoint columns.increase rows.increase (List.mem_range.mp first) (List.mem_range.mp second) before.ne
  case cell =>
    intro g listed
    obtain ⟨k, among, rfl⟩ := List.mem_map.mp listed
    have among := List.mem_range.mp among
    rw [region_nth columns rows among]
    refine ⟨_, _, Set.prod_mono (piece_subset_cell ?_ ?_) (piece_subset_cell ?_ ?_)⟩
    · exact Int.natCast_pos.mpr (Nat.two_pow_pos _)
    · exact columns.start _ (raster_column_lt among)
    · exact Int.natCast_pos.mpr (Nat.two_pow_pos _)
    · exact rows.start _ (raster_row_lt among)
  case raster =>
    rw [List.pairwise_map]
    apply List.pairwise_lt_range.imp_of_mem
    intro k l first second before
    rw [nth_eq columns rows (List.mem_range.mp first), nth_eq columns rows (List.mem_range.mp second)]
    exact raster_order columns.increase rows.increase (List.mem_range.mp second) before
  case cover =>
    ext p
    rw [← mem_piece_iff columns rows p]
    simp only [Set.mem_iUnion, List.mem_map, List.mem_range, exists_prop, exists_exists_and_eq_and]
    constructor
    · rintro ⟨k, among, inside⟩
      exact ⟨k, among, region_nth columns rows among ▸ inside⟩
    · rintro ⟨k, among, inside⟩
      exact ⟨k, among, (region_nth columns rows among).symm ▸ inside⟩

/-- The first `n` precincts are pieces of the resolution, and all of it if none is left out. -/
private theorem first_partition_iff {n : Nat} (within : n ≤ lv.cells rp) (nonempty : 0 < lv.cells rp) :
    Partitions ((List.range n).map (lv.nth rp)) rp.region (2 ^ lv.prw) (2 ^ lv.prh) ↔ n = lv.cells rp := by
  constructor
  · intro cut
    by_contra fewer
    -- The last piece is not among the first `n`, which are all disjoint from it.
    have last : lv.cells rp - 1 < lv.cells rp := by omega
    obtain ⟨p, inside⟩ := raster_nonempty columns.increase rows.increase last
    have covered : p ∈ ⋃ g ∈ (List.range n).map (lv.nth rp), g.region :=
      cut.cover ▸ (mem_piece_iff columns rows p).mp ⟨_, last, inside⟩
    simp only [Set.mem_iUnion, List.mem_map, List.mem_range, exists_prop] at covered
    obtain ⟨_, ⟨k, early, rfl⟩, elsewhere⟩ := covered
    rw [region_nth columns rows (by omega)] at elsewhere
    have apart := raster_disjoint columns.increase rows.increase (show k < lv.cells rp by omega) last (by omega)
    exact Set.disjoint_left.mp apart elsewhere inside
  · rintro rfl
    exact partition_cells columns rows

end

end Level

/-- The precincts of a resolution partition it along their grid, without overflow, exactly if
the cells of the grid that meet the resolution can be counted in 32 bits. -/
theorem precincts_partition_iff {tcp : Geometry} {lvs : List Level} {ress : List Res}
    (built : parepareTcompStructure tcp lvs = some ress) {r : Nat} {lv : Level} {res : Res}
    (level : lvs[r]? = some lv) (resolution : ress[r]? = some res)
    (columns : 0 ≤ res.coord.x0 ∧ res.coord.x0 < res.coord.x1 ∧ res.coord.x1 < 2 ^ 31 - 2 ^ 15)
    (rows : 0 ≤ res.coord.y0 ∧ res.coord.y0 < res.coord.y1 ∧ res.coord.y1 < 2 ^ 31 - 2 ^ 15)
    (exponents : lv.prw ≤ 15 ∧ lv.prh ≤ 15) :
    (res.prec.length = res.npw * res.nph ∧
      Partitions (res.prec.map Prec.coord) res.coord.region (2 ^ lv.prw) (2 ^ lv.prh) ∧
      lv.Fits res.coord) ↔ lv.cells res.coord < 2 ^ 32 := by
  have same : res = lv.resolution lvs[r + 1]? tcp :=
    Option.some_inj.mp (resolution.symm.trans (parepareTcompStructure_res built level))
  have powers {k : Nat} (small : k ≤ 15) : 2 ^ k ≤ 2 ^ 15 := Nat.pow_le_pow_right (by decide) small
  have wide := powers exponents.1
  have high := powers exponents.2
  have columns := Level.cut (Nat.two_pow_pos lv.prw) columns.1 columns.2.1 (by omega)
  have rows := Level.cut (Nat.two_pow_pos lv.prh) rows.1 rows.2.1 (by omega)
  have npw : res.npw = gridCells res.coord.x0.toNat res.coord.x1.toNat (2 ^ lv.prw) := by
    rw [← columns.count, same]
    rfl
  have nph : res.nph = gridCells res.coord.y0.toNat res.coord.y1.toNat (2 ^ lv.prh) := by
    rw [← rows.count, same]
    rfl
  have product : res.npw * res.nph = lv.cells res.coord := by rw [npw, nph, Level.cells]
  -- The loop counts the precincts in 32 bits, which is all that can go wrong.
  have listed : res.prec.map Prec.coord = (List.range (lv.cells res.coord % 2 ^ 32)).map (lv.nth res.coord) := by
    have all : res.prec = (List.range (res.npw * res.nph % 2 ^ 32)).map fun np =>
        lv.precinct (lv.precCoord res.coord (np % res.npw) (np / res.npw)) := by
      rw [same]
      rfl
    rw [all, product, List.map_map, npw]
    rfl
  have count : res.prec.length = lv.cells res.coord % 2 ^ 32 := by
    rw [← List.length_map Prec.coord, listed, List.length_map, List.length_range]
  have nonempty : 0 < lv.cells res.coord := Nat.mul_pos columns.cells_pos rows.cells_pos
  have partition := Level.first_partition_iff columns rows (Nat.mod_le _ (2 ^ 32)) nonempty
  rw [listed, count, product, partition]
  constructor
  · rintro ⟨all, -⟩
    rw [← all]
    exact Nat.mod_lt _ (by decide)
  · intro small
    have all := Nat.mod_eq_of_lt small
    exact ⟨all, all, columns.fits, rows.fits, columns.count ▸ rows.count ▸ small⟩

/-- A component that is not split, with precincts of the given sizes. -/
def unsplitLevel (prw prh : Nat) : Level :=
  { nl := 0, r := 0, hor := 0, ver := 0, prw := prw, prh := prh, type := 0, cbw := 6, cbh := 6 }

/-- Off the grid on all four sides. -/
theorem precincts_partition_unaligned : ∃ ress res,
    parepareTcompStructure ⟨3, 5, 21, 18⟩ [unsplitLevel 2 3] = some ress ∧ ress[0]? = some res ∧
      res.prec.length = 18 ∧ Partitions (res.prec.map Prec.coord) res.coord.region 4 8 := by
  obtain ⟨ress, built⟩ : ∃ ress, parepareTcompStructure ⟨3, 5, 21, 18⟩ [unsplitLevel 2 3] = some ress :=
    ⟨_, rfl⟩
  have resolution := parepareTcompStructure_res built (r := 0) rfl
  have partition := (precincts_partition_iff built (r := 0) rfl resolution (by decide +kernel)
    (by decide +kernel) (by decide)).mpr (by decide +kernel)
  exact ⟨ress, _, built, resolution, by decide +kernel, partition.2.1⟩

/-- A square of `2 ^ 32` precincts of one sample each: the loop makes no turn at all. -/
theorem precincts_lost_square : ∃ ress res,
    parepareTcompStructure ⟨0, 0, 65536, 65536⟩ [unsplitLevel 0 0] = some ress ∧ ress[0]? = some res ∧
      res.coord = ⟨0, 0, 65536, 65536⟩ ∧ res.npw = 65536 ∧ res.nph = 65536 ∧ res.prec = [] ∧
      ¬ Partitions (res.prec.map Prec.coord) res.coord.region 1 1 := by
  obtain ⟨ress, built⟩ : ∃ ress,
      parepareTcompStructure ⟨0, 0, 65536, 65536⟩ [unsplitLevel 0 0] = some ress := ⟨_, rfl⟩
  have resolution := parepareTcompStructure_res built (r := 0) rfl
  have none : ((unsplitLevel 0 0).resolution [unsplitLevel 0 0][0 + 1]? ⟨0, 0, 65536, 65536⟩).prec = [] := by
    decide +kernel
  refine ⟨ress, _, built, resolution, by decide +kernel, by decide +kernel, by decide +kernel, none, ?_⟩
  rw [none]
  intro partition
  have corner : ((0, 0) : Int × Int) ∈
      ((unsplitLevel 0 0).resolution [unsplitLevel 0 0][0 + 1]? ⟨0, 0, 65536, 65536⟩).coord.region := by
    constructor <;> constructor <;> decide +kernel
  rw [← partition.cover] at corner
  simp at corner

end RtpDecoder.Parser
