import Mathlib.Algebra.Order.SuccPred
import Mathlib.Data.Int.ConditionallyCompleteOrder
import Mathlib.Data.Nat.Bitwise
import Mathlib.Order.CompletePartialOrder
import RtpDecoder.Parser.Precincts

/-!
# The code-blocks of a precinct

`parepare_tcomp_structure` cuts the part of a precinct in each of its subbands into
code-blocks. Their numbers are kept once for the precinct, as its last subband sets them, and
their coordinates are computed from a column that is no remainder and from the far edge of the
subband. Here stands what the numbers and the coordinates should be, and for which precincts
they are so.
-/

namespace RtpDecoder.Parser

open Header

/-! ### Numbers -/

/-- How many cells of a grid meet an interval. -/
def gridCells (lo hi size : Nat) : Nat := if lo < hi then hi ⌈/⌉ size - lo / size else 0

theorem ceildivUint_eq {hi size : Nat} (pos : 0 < size) (fits : hi + size ≤ 2 ^ 32) :
    ceildivUint hi size = hi ⌈/⌉ size := by
  rw [ceildivUint, Nat.ceilDiv_eq_add_pred_div, Nat.mod_eq_of_lt (by omega)]
  congr 1
  omega

theorem div_lt_ceilDiv {lo hi size : Nat} (pos : 0 < size) (some : lo < hi) : lo / size < hi ⌈/⌉ size := by
  have covered : hi ≤ size * (hi ⌈/⌉ size) := (ceilDiv_le_iff_le_mul pos).mp (Nat.le_refl _)
  exact Nat.div_lt_of_lt_mul (Nat.lt_of_lt_of_le some covered)

/-- The count of the source is the number of cells exactly if rounding up does not overflow. -/
theorem blockCount_eq_iff {lo hi k : Nat} (shift : k < 32) (word : hi < 2 ^ 32) (some : lo < hi) :
    Level.blockCount lo hi (2 ^ k) = gridCells lo hi (2 ^ k) ↔ hi + 2 ^ k ≤ 2 ^ 32 := by
  have pos : 0 < 2 ^ k := Nat.two_pow_pos k
  have below := div_lt_ceilDiv pos some
  have bound : hi ⌈/⌉ 2 ^ k ≤ hi := ceilDiv_le_self pos hi
  simp only [Level.blockCount, gridCells, if_pos some]
  constructor
  · intro same
    by_contra wraps
    -- The sum wraps around to less than one cell.
    have wrapped : ceildivUint hi (2 ^ k) = 0 := by
      have small : 2 ^ k < 2 ^ 32 := Nat.pow_lt_pow_right (by decide) shift
      rw [ceildivUint, Nat.div_eq_zero_iff_lt pos]
      omega
    rw [wrapped, sub32] at same
    generalize lo / 2 ^ k = q at same below
    generalize hi ⌈/⌉ 2 ^ k = n at same below bound
    omega
  · intro fits
    rw [ceildivUint_eq pos fits, sub32]
    generalize lo / 2 ^ k = q at below ⊢
    generalize hi ⌈/⌉ 2 ^ k = n at below bound ⊢
    omega

private theorem gridCells_eq_zero {lo hi size : Nat} (pos : 0 < size) : gridCells lo hi size = 0 ↔ hi ≤ lo := by
  simp only [gridCells]
  split
  next some =>
    have below := div_lt_ceilDiv pos some
    omega
  next empty => simp [Nat.le_of_not_lt empty]

private theorem blockCount_of_le {lo hi : Nat} (empty : hi ≤ lo) (size : Nat) :
    Level.blockCount lo hi size = 0 := if_neg (Nat.not_lt.mpr empty)

namespace Level

/-- The columns of a precinct in the subbands with the offset `ob`, and its rows. -/
def columnSpan (lv : Level) (prec : Geometry) (ob : Nat) : Nat × Nat :=
  (ceildivUint (uint32 (prec.x0 - ob)) lv.subsampling.1,
    ceildivUint (uint32 (prec.x1 - ob)) lv.subsampling.1)

def rowSpan (lv : Level) (prec : Geometry) (ob : Nat) : Nat × Nat :=
  (ceildivUint (uint32 (prec.y0 - ob)) lv.subsampling.2,
    ceildivUint (uint32 (prec.y1 - ob)) lv.subsampling.2)

/-- Columns and rows of code-blocks, by these bounds. -/
def blockColumns (lv : Level) (prec : Geometry) (ob : Nat) : Nat :=
  gridCells (lv.columnSpan prec ob).1 (lv.columnSpan prec ob).2 (2 ^ lv.cbw)

def blockRows (lv : Level) (prec : Geometry) (ob : Nat) : Nat :=
  gridCells (lv.rowSpan prec ob).1 (lv.rowSpan prec ob).2 (2 ^ lv.cbh)

/-- The code-blocks of subband `b`, by its own bounds. -/
def ownGrid (lv : Level) (prec : Geometry) (b : Nat) : Nat × Nat :=
  (lv.blockColumns prec (lv.offsets b).1, lv.blockRows prec (lv.offsets b).2)

def ownBlocks (lv : Level) (prec : Geometry) (b : Nat) : Nat :=
  (lv.ownGrid prec b).1 * (lv.ownGrid prec b).2

/-- The numbers of a subband can be computed in 32 bits. -/
def CountsFit (lv : Level) (prec : Geometry) (b : Nat) : Prop :=
  lv.ownBlocks prec b < 2 ^ 32 ∧ (lv.ownBlocks prec b ≠ 0 →
    (lv.columnSpan prec (lv.offsets b).1).2 + 2 ^ lv.cbw ≤ 2 ^ 32 ∧
    (lv.rowSpan prec (lv.offsets b).2).2 + 2 ^ lv.cbh ≤ 2 ^ 32)

instance (lv : Level) (prec : Geometry) (b : Nat) : Decidable (lv.CountsFit prec b) :=
  inferInstanceAs (Decidable (_ ∧ _))

/-- Low-pass and high-pass subbands have equally many rows of code-blocks, unless the high-pass
subbands have no columns, and equally many columns, unless they have no rows. -/
def Even (lv : Level) (prec : Geometry) : Prop :=
  lv.numBands = 1 ∨
    (lv.blockColumns prec 1 = 0 ∨ lv.blockRows prec 0 = lv.blockRows prec 1) ∧
    (lv.blockRows prec 1 = 0 ∨ lv.blockColumns prec 0 = lv.blockColumns prec 1)

instance (lv : Level) (prec : Geometry) : Decidable (lv.Even prec) :=
  inferInstanceAs (Decidable (_ ∨ _))

/-- A subband is parsed with the grid of its own: the packet header has an entry for each of its
code-blocks, and arrays and tag trees have been allocated for them. -/
structure HasOwnGrid (lv : Level) (prec : Prec) (b : Nat) : Prop where
  visited : prec.numBlocks = lv.ownBlocks prec.coord b
  blocks : (prec.band b).blk.length = lv.ownBlocks prec.coord b
  counted : lv.ownBlocks prec.coord b ≠ 0 → lv.blockCounts prec.coord b = lv.ownGrid prec.coord b
  trees : lv.ownBlocks prec.coord b ≠ 0 →
    (prec.band b).incl.length = tagTreeSize (lv.ownGrid prec.coord b).1 (lv.ownGrid prec.coord b).2 ∧
    (prec.band b).zbp.length = tagTreeSize (lv.ownGrid prec.coord b).1 (lv.ownGrid prec.coord b).2

section

variable {lv : Level} {prec : Geometry} {b : Nat}

private theorem span_lt (z : Int) (n : Nat) : ceildivUint (uint32 z) n < 2 ^ 32 := by
  rw [ceildivUint]
  exact Nat.lt_of_le_of_lt (Nat.div_le_self _ _) (Nat.mod_lt _ (by decide))

theorem numBands_cases (lv : Level) : lv.numBands = 1 ∨ lv.numBands = 3 := by
  simp only [numBands]
  split <;> simp

private theorem blockCounts_of_empty (empty : lv.ownBlocks prec b = 0) :
    (lv.blockCounts prec b).1 = 0 ∨ (lv.blockCounts prec b).2 = 0 := by
  rcases Nat.mul_eq_zero.mp empty with none_wide | none_high
  · exact .inl (blockCount_of_le ((gridCells_eq_zero (Nat.two_pow_pos _)).mp none_wide) _)
  · exact .inr (blockCount_of_le ((gridCells_eq_zero (Nat.two_pow_pos _)).mp none_high) _)

private theorem blockCounts_eq_iff (shifts : lv.cbw < 32 ∧ lv.cbh < 32)
    (some : lv.ownBlocks prec b ≠ 0) :
    lv.blockCounts prec b = lv.ownGrid prec b ↔
      (lv.columnSpan prec (lv.offsets b).1).2 + 2 ^ lv.cbw ≤ 2 ^ 32 ∧
      (lv.rowSpan prec (lv.offsets b).2).2 + 2 ^ lv.cbh ≤ 2 ^ 32 := by
  obtain ⟨wide, high⟩ := Nat.mul_ne_zero_iff.mp some
  have columns : (lv.columnSpan prec (lv.offsets b).1).1 < (lv.columnSpan prec (lv.offsets b).1).2 :=
    Nat.lt_of_not_le fun empty => wide ((gridCells_eq_zero (Nat.two_pow_pos _)).mpr empty)
  have rows : (lv.rowSpan prec (lv.offsets b).2).1 < (lv.rowSpan prec (lv.offsets b).2).2 :=
    Nat.lt_of_not_le fun empty => high ((gridCells_eq_zero (Nat.two_pow_pos _)).mpr empty)
  have columnCount : (lv.blockCounts prec b).1 = (lv.ownGrid prec b).1 ↔ _ :=
    blockCount_eq_iff shifts.1 (span_lt _ _) columns
  have rowCount : (lv.blockCounts prec b).2 = (lv.ownGrid prec b).2 ↔ _ :=
    blockCount_eq_iff shifts.2 (span_lt _ _) rows
  exact Prod.ext_iff.trans (and_congr columnCount rowCount)

/-- Without overflow the product of the counts is the number of code-blocks. -/
private theorem product_blockCounts (shifts : lv.cbw < 32 ∧ lv.cbh < 32) (fits : lv.CountsFit prec b) :
    (lv.blockCounts prec b).1 * (lv.blockCounts prec b).2 % 2 ^ 32 = lv.ownBlocks prec b := by
  by_cases empty : lv.ownBlocks prec b = 0
  · rw [empty]
    rcases blockCounts_of_empty empty with none_wide | none_high
    · simp [none_wide]
    · simp [none_high]
  · rw [(blockCounts_eq_iff shifts empty).mpr (fits.2 empty)]
    exact Nat.mod_eq_of_lt fits.1

/-- The array of a subband has the product of its counts, which is zero if one of them is. -/
theorem blk_pband (lv : Level) (prec : Geometry) (b : Nat) :
    (lv.pband prec b).blk =
      (List.range ((lv.blockCounts prec b).1 * (lv.blockCounts prec b).2 % 2 ^ 32)).map
        fun cb => { coord := lv.blkCoord prec b cb } := by
  by_cases filled : (lv.blockCounts prec b).1 ≠ 0 ∧ (lv.blockCounts prec b).2 ≠ 0
  · simp [pband, filled]
  · have zero : (lv.blockCounts prec b).1 * (lv.blockCounts prec b).2 = 0 := by
      rw [Nat.mul_eq_zero]
      omega
    simp only [pband, if_neg filled, zero]
    rfl

/-- Of the three subbands the first two differ from the last one in one direction each. -/
private theorem even_iff :
    lv.Even prec ↔ ∀ b < lv.numBands, lv.ownBlocks prec b = lv.ownBlocks prec (lv.numBands - 1) := by
  rcases lv.numBands_cases with one | three
  · simp [Even, one]
  · have offsets (b : Nat) : lv.offsets b = ((b + 1) % 2, (b + 1) / 2) := by
      simp [Level.offsets, three]
    have own (b : Nat) : lv.ownBlocks prec b =
        lv.blockColumns prec ((b + 1) % 2) * lv.blockRows prec ((b + 1) / 2) := by
      simp only [ownBlocks, ownGrid, offsets]
    have bands (P : Nat → Prop) : (∀ b < 3, P b) ↔ P 0 ∧ P 1 ∧ P 2 := by
      constructor
      · intro all
        exact ⟨all 0 (by decide), all 1 (by decide), all 2 (by decide)⟩
      · rintro ⟨first, second, last⟩ b small
        have which : b = 0 ∨ b = 1 ∨ b = 2 := by omega
        rcases which with rfl | rfl | rfl
        · exact first
        · exact second
        · exact last
    rw [three, bands]
    simp [Even, three, own, or_comm]

end

theorem band_precinct (lv : Level) (coord : Geometry) {b : Nat} (band : b < lv.numBands) :
    (lv.precinct coord).band b = lv.pband coord b := by
  simp [precinct, Prec.band, List.getD_eq_getElem?_getD, List.getElem?_range band]

theorem mem_resolution {lv : Level} {above : Option Level} {tcp : Geometry} {prec : Prec}
    (listed : prec ∈ (lv.resolution above tcp).prec) : ∃ coord, prec = lv.precinct coord := by
  simp only [resolution, List.mem_map] at listed
  obtain ⟨np, _, rfl⟩ := listed
  exact ⟨_, rfl⟩

/-- The numbers that a precinct ends up with are right for all its subbands. -/
theorem precinct_hasOwnGrid_iff {lv : Level} (shifts : lv.cbw < 32 ∧ lv.cbh < 32) (coord : Geometry) :
    (∀ b < lv.numBands, lv.HasOwnGrid (lv.precinct coord) b) ↔
      lv.Even coord ∧ ∀ b < lv.numBands, lv.CountsFit coord b := by
  have last : lv.numBands - 1 < lv.numBands := by
    rcases lv.numBands_cases with one | three <;> omega
  have stored : (lv.precinct coord).numBlocks = (lv.blockCounts coord (lv.numBands - 1)).1 *
      (lv.blockCounts coord (lv.numBands - 1)).2 % 2 ^ 32 := rfl
  -- The array of the last subband is the one whose size the precinct stores.
  constructor
  · intro all
    refine ⟨even_iff.mpr fun b band => ?_, fun b band => ⟨?_, fun some => ?_⟩⟩
    · exact (all b band).visited.symm.trans (all _ last).visited
    · have visited : (lv.precinct coord).numBlocks = lv.ownBlocks coord b := (all b band).visited
      rw [← visited, stored]
      exact Nat.mod_lt _ (by decide)
    · exact (blockCounts_eq_iff shifts some).mp ((all b band).counted some)
  -- Conversely all the products are the one that is stored.
  · rintro ⟨even, fits⟩ b band
    have product {b : Nat} (band : b < lv.numBands) :
        (lv.blockCounts coord b).1 * (lv.blockCounts coord b).2 % 2 ^ 32 = lv.ownBlocks coord b :=
      product_blockCounts shifts (fits b band)
    have counted (some : lv.ownBlocks coord b ≠ 0) : lv.blockCounts coord b = lv.ownGrid coord b :=
      (blockCounts_eq_iff shifts some).mpr ((fits b band).2 some)
    refine ⟨?_, ?_, counted, fun some => ?_⟩
    · exact (stored.trans (product last)).trans (even_iff.mp even b band).symm
    · rw [band_precinct lv coord band, blk_pband, List.length_map, List.length_range, product band]
      rfl
    · rw [band_precinct lv coord band]
      have grid : lv.ownGrid (lv.precinct coord).coord b = lv.blockCounts coord b := (counted some).symm
      have filled := Nat.mul_ne_zero_iff.mp some
      rw [grid] at filled ⊢
      simp [pband, filled]

end Level

/-! ### The precincts of a created tile -/

/-- A precinct of a created tile is the one of its level, at its own borders. -/
theorem TileHandler.create_precinct {h h' : TileHandler} {ok : Bool} (created : h.create = some (ok, h'))
    {tile : Tile} (member : tile ∈ h'.tiles) {c r : Nat} (component : c < h.markers.siz.csiz)
    (resolution : r ≤ ((resolveLevels h.markers).coc c).nl) {prec : Prec}
    (listed : prec ∈ (tile.resAt c r).prec) :
    let lv := level ((resolveLevels h.markers).coc c) h.markers.dfs r
    (lv.cbw < 32 ∧ lv.cbh < 32) ∧ prec = lv.precinct prec.coord := by
  intro lv
  obtain ⟨t, ok', turn⟩ := Plan.tiles_mem (TileHandler.create_inv created).1 member
  have built := createTile_built turn
  constructor
  · have planned : Component.mk (entry h.markers.siz.xRsiz c) (entry h.markers.siz.yRsiz c)
        (levels ((resolveLevels h.markers).coc c) h.markers.dfs) ∈ (plan (resolveLevels h.markers)).comps :=
      List.mem_map.mpr ⟨c, List.mem_range.mpr component, rfl⟩
    have among : lv ∈ levels ((resolveLevels h.markers).coc c) h.markers.dfs :=
      List.mem_of_getElem? (getElem?_levels _ _ resolution)
    exact (createTile_usable turn _ planned).2 lv among
  · rw [built.resAt component resolution] at listed
    obtain ⟨coord, rfl⟩ := Level.mem_resolution listed
    rfl

/-- All subbands of a precinct are parsed with their own grids exactly if low-pass and
high-pass subbands have equally many code-blocks and no number overflows. -/
theorem bands_have_own_grids_iff {h h' : TileHandler} (created : h.create = some (true, h'))
    {tile : Tile} (member : tile ∈ h'.tiles) {c r : Nat} (component : c < h.markers.siz.csiz)
    (resolution : r ≤ ((resolveLevels h.markers).coc c).nl) {prec : Prec}
    (listed : prec ∈ (tile.resAt c r).prec) :
    let lv := level ((resolveLevels h.markers).coc c) h.markers.dfs r
    (∀ b < prec.numBands, lv.HasOwnGrid prec b) ↔
      lv.Even prec.coord ∧ ∀ b < prec.numBands, lv.CountsFit prec.coord b := by
  intro lv
  obtain ⟨shifts, same⟩ := TileHandler.create_precinct created member component resolution listed
  rw [same]
  exact Level.precinct_hasOwnGrid_iff shifts prec.coord

/-- A main header for an image of `width` by 8 samples, split once in both directions, with
code-blocks of 4 by 4 samples. -/
def bandHeader (width : UInt8) : List UInt8 :=
  [0xFF, 0x4F,
   0xFF, 0x51, 0, 47, 0, 0, 0, 0, 0, width, 0, 0, 0, 8, 0, 0, 0, 0, 0, 0, 0, 0, 0, 0, 0, width,
     0, 0, 0, 8, 0, 0, 0, 0, 0, 0, 0, 0, 0, 3, 7, 1, 1, 7, 1, 1, 7, 1, 1,
   0xFF, 0x52, 0, 14, 1, 3, 0, 1, 0, 1, 0, 0, 0x48, 1, 0xFF, 0xFF,
   0xFF, 0x72, 0, 6, 0, 0, 1, 0x40,
   0xFF, 0x93]

/-- The markers of the header. -/
def bandMarkers (width : UInt8) : Markers :=
  ((parseMainHeader {} (streamOf (bandHeader width))).map (·.2.1)).getD {}

/-- The upper level of the first component. -/
def bandLevel (width : UInt8) : Level :=
  level ((resolveLevels (bandMarkers width)).coc 0) (bandMarkers width).dfs 1

/-- The upper resolution has one precinct. -/
private theorem create_bandMarkers (width : UInt8) (coord : Geometry)
    (made : (TileHandler.create { markers := bandMarkers width }).map
      (fun made => (made.1, made.2.tiles.map fun tile => (tile.resAt 0 1).prec)) =
        some (true, [[(bandLevel width).precinct coord]])) :
    ∃ h' tile, TileHandler.create { markers := bandMarkers width } = some (true, h') ∧
      tile ∈ h'.tiles ∧ (bandLevel width).precinct coord ∈ (tile.resAt 0 1).prec := by
  obtain ⟨⟨ok, h'⟩, created, same⟩ := Option.map_eq_some_iff.mp made
  obtain ⟨rfl, tiles⟩ := Prod.mk.inj same
  obtain ⟨tile, only, precincts⟩ := List.map_eq_singleton_iff.mp tiles
  have member : tile ∈ h'.tiles := only ▸ List.mem_singleton.mpr rfl
  exact ⟨h', tile, created, member, precincts ▸ List.mem_singleton.mpr rfl⟩

theorem bands_have_own_grids_even :
    ∃ h' tile prec, TileHandler.create { markers := bandMarkers 8 } = some (true, h') ∧
      tile ∈ h'.tiles ∧ prec ∈ (tile.resAt 0 1).prec ∧ prec.numBands = 3 ∧
      ∀ b < prec.numBands, (bandLevel 8).HasOwnGrid prec b := by
  obtain ⟨h', tile, created, member, listed⟩ :=
    create_bandMarkers 8 ⟨0, 0, 8, 8⟩ (by decide +kernel)
  refine ⟨h', tile, _, created, member, listed, by decide +kernel, ?_⟩
  exact (bands_have_own_grids_iff created member (by decide +kernel) (by decide +kernel) listed).mpr
    (by decide +kernel)

/-- With 9 columns, the low-pass rows have two code-blocks, of which one is parsed. -/
theorem bands_share_grid_odd :
    ∃ h' tile prec, TileHandler.create { markers := bandMarkers 9 } = some (true, h') ∧
      tile ∈ h'.tiles ∧ prec ∈ (tile.resAt 0 1).prec ∧ 1 < prec.numBands ∧
      (bandLevel 9).ownBlocks prec.coord 1 = 2 ∧ (prec.band 1).blk.length = 2 ∧ prec.numBlocks = 1 ∧
      ¬ ∀ b < prec.numBands, (bandLevel 9).HasOwnGrid prec b := by
  obtain ⟨h', tile, created, member, listed⟩ :=
    create_bandMarkers 9 ⟨0, 0, 9, 8⟩ (by decide +kernel)
  refine ⟨h', tile, _, created, member, listed, by decide +kernel, by decide +kernel,
    by decide +kernel, by decide +kernel, ?_⟩
  intro all
  have visited := (all 1 (by decide +kernel)).visited
  exact absurd visited (by decide +kernel)

/-! ### Coordinates -/

/-- The samples between the borders. -/
def Geometry.region (g : Geometry) : Set (Int × Int) := Set.Ico g.x0 g.x1 ×ˢ Set.Ico g.y0 g.y1

/-- One cell of a grid. -/
def gridCell (width height : Nat) (i j : Int) : Set (Int × Int) :=
  Set.Ico (width * i) (width * (i + 1)) ×ˢ Set.Ico (height * j) (height * (j + 1))

/-- The rectangles cut an area along a grid, row by row. -/
structure Partitions (rects : List Geometry) (area : Set (Int × Int)) (width height : Nat) : Prop where
  nonempty : ∀ g ∈ rects, g.region.Nonempty
  disjoint : rects.Pairwise fun g g' => Disjoint g.region g'.region
  cell : ∀ g ∈ rects, ∃ i j, g.region ⊆ gridCell width height i j
  raster : rects.Pairwise fun g g' => g.y0 < g'.y0 ∨ g.y0 = g'.y0 ∧ g.x0 < g'.x0
  cover : ⋃ g ∈ rects, g.region = area

namespace Level

/-- The part of a precinct in subband `b`. -/
def bandRegion (lv : Level) (prec : Geometry) (b : Nat) : Set (Int × Int) :=
  Set.Ico ((lv.pbandCoord prec b).1 : Int) (lv.pbandCoord prec b).2.1 ×ˢ
    Set.Ico ((lv.pbandCoord prec b).2.2.1 : Int) (lv.pbandCoord prec b).2.2.2

/-- It lies in one cell of the grid, and its far borders fit into the coordinates. -/
def OneCell (lv : Level) (prec : Geometry) (b : Nat) : Prop :=
  let (pbx0, pbx1, pby0, pby1) := lv.pbandCoord prec b
  (pbx0 / 2 ^ lv.cbw = (pbx1 - 1) / 2 ^ lv.cbw ∧ pbx1 < 2 ^ 31) ∧
    (pby0 / 2 ^ lv.cbh = (pby1 - 1) / 2 ^ lv.cbh ∧ pby1 < 2 ^ 31)

instance (lv : Level) (prec : Geometry) (b : Nat) : Decidable (lv.OneCell prec b) :=
  inferInstanceAs (Decidable (_ ∧ _))

/-! One direction of the first code-block. -/

section

variable {lo hi k : Nat}

theorem int32_of_lt {n : Nat} (small : n < 2 ^ 31) : int32 n = n := by
  apply Int.bmod_eq_of_le <;> omega

private theorem near_border (word : lo < 2 ^ 32) : max lo (2 ^ k * (0 + lo / 2 ^ k) % 2 ^ 32) = lo := by
  have down : 2 ^ k * (0 + lo / 2 ^ k) ≤ lo := by
    rw [Nat.zero_add]
    exact Nat.mul_div_le lo _
  rw [Nat.mod_eq_of_lt (Nat.lt_of_le_of_lt down word)]
  exact Nat.max_eq_left down

private theorem lt_next_cell (hi k : Nat) : hi < 2 ^ k * (0 + 1 + hi / 2 ^ k) := by
  rw [Nat.zero_add, Nat.add_comm]
  exact Nat.lt_mul_div_succ hi (Nat.two_pow_pos k)

/-- The next cell starts behind the band, unless that is where the numbers end. -/
private theorem far_border (shift : k < 32) (word : hi < 2 ^ 32) :
    2 ^ k * (0 + 1 + hi / 2 ^ k) % 2 ^ 32 = 0 ∨ hi < 2 ^ k * (0 + 1 + hi / 2 ^ k) % 2 ^ 32 := by
  have split : 2 ^ k * 2 ^ (32 - k) = 2 ^ 32 := by
    rw [← Nat.pow_add, Nat.add_sub_cancel' (Nat.le_of_lt shift)]
  have behind := lt_next_cell hi k
  have cells : hi / 2 ^ k < 2 ^ (32 - k) := Nat.div_lt_of_lt_mul (split ▸ word)
  -- The last cell of the numbers ends at `2 ^ 32`, which is 0 again.
  rcases Nat.lt_or_eq_of_le (show 0 + 1 + hi / 2 ^ k ≤ 2 ^ (32 - k) by omega) with inside | last
  · have small : 2 ^ k * (0 + 1 + hi / 2 ^ k) < 2 ^ 32 :=
      split ▸ Nat.mul_lt_mul_of_pos_left inside (Nat.two_pow_pos k)
    exact .inr (by rwa [Nat.mod_eq_of_lt small])
  · exact .inl (by rw [last, split, Nat.mod_self])

private theorem far_border_eq (shift : k < 32) (small : hi < 2 ^ 31) :
    min hi (2 ^ k * (0 + 1 + hi / 2 ^ k) % 2 ^ 32) = hi := by
  have cell : 2 ^ k * (0 + 1 + hi / 2 ^ k) ≤ hi + 2 ^ k := by
    have down := Nat.mul_div_le hi (2 ^ k)
    rw [Nat.zero_add, Nat.mul_add, Nat.mul_one]
    omega
  have power : 2 ^ k ≤ 2 ^ 31 := Nat.pow_le_pow_right (by decide) (Nat.le_of_lt_succ shift)
  have behind := lt_next_cell hi k
  rw [Nat.mod_eq_of_lt (by omega)]
  exact Nat.min_eq_left (Nat.le_of_lt behind)

/-- A positive far border is that of the band, which then fits into a coordinate. -/
private theorem small_of_far_border (shift : k < 32) (word : hi < 2 ^ 32)
    (positive : 0 < int32 (min hi (2 ^ k * (0 + 1 + hi / 2 ^ k) % 2 ^ 32) : Nat)) : hi < 2 ^ 31 := by
  rcases far_border shift word with zero | behind
  · rw [zero, Nat.min_zero] at positive
    exact absurd positive (by decide)
  · rw [Nat.min_eq_left (Nat.le_of_lt behind)] at positive
    by_contra large
    -- A border from `2 ^ 31` on is a negative coordinate.
    simp only [int32, Int.bmod] at positive
    omega

private theorem blockCount_one (shift : k < 32) (some : lo < hi) (small : hi < 2 ^ 31)
    (cell : lo / 2 ^ k = (hi - 1) / 2 ^ k) : blockCount lo hi (2 ^ k) = 1 := by
  have power : 2 ^ k ≤ 2 ^ 31 := Nat.pow_le_pow_right (by decide) (Nat.le_of_lt_succ shift)
  have cells := (blockCount_eq_iff shift (by omega) some).mpr (by omega)
  have up : hi ⌈/⌉ 2 ^ k = (hi - 1) / 2 ^ k + 1 := by
    have positive := Nat.two_pow_pos k
    rw [Nat.ceilDiv_eq_add_pred_div, ← Nat.add_div_right _ positive]
    congr 1
    omega
  rw [cells, gridCells, if_pos some, up, cell, Nat.add_sub_cancel_left]

private theorem Ico_subset_cell (cell : lo / 2 ^ k = (hi - 1) / 2 ^ k) :
    Set.Ico (lo : Int) hi ⊆
      Set.Ico ((2 ^ k : Nat) * ((lo / 2 ^ k : Nat) : Int)) ((2 ^ k : Nat) * ((lo / 2 ^ k : Nat) + 1)) := by
  rintro x ⟨low, high⟩
  have down := Nat.mul_div_le lo (2 ^ k)
  have up := Nat.lt_mul_div_succ (hi - 1) (Nat.two_pow_pos k)
  rw [← cell] at up
  constructor
  · exact Int.le_trans (by exact_mod_cast down) low
  · have last : (hi : Int) ≤ (2 ^ k : Nat) * ((lo / 2 ^ k : Nat) + 1) := by
      have bound : hi ≤ 2 ^ k * (lo / 2 ^ k + 1) := by omega
      exact_mod_cast bound
    exact Int.lt_of_lt_of_le high last

private theorem cell_of_Ico_subset {i : Int} (some : lo < hi)
    (inside : Set.Ico (lo : Int) hi ⊆ Set.Ico ((2 ^ k : Nat) * i) ((2 ^ k : Nat) * (i + 1))) :
    lo / 2 ^ k = (hi - 1) / 2 ^ k := by
  have positive : (0 : Int) < (2 ^ k : Nat) := by exact_mod_cast Nat.two_pow_pos k
  have low : ((2 ^ k : Nat) : Int) * i ≤ lo := (inside (Set.left_mem_Ico.mpr (by omega))).1
  have high : ((hi - 1 : Nat) : Int) < (2 ^ k : Nat) * (i + 1) :=
    (inside ⟨by omega, by omega⟩).2
  -- The first and the last sample lie in the cell `i`, so their quotients are the same.
  have first : i ≤ (lo : Int) / (2 ^ k : Nat) := (Int.le_ediv_iff_mul_le positive).mpr (by rwa [Int.mul_comm])
  have last : ((hi - 1 : Nat) : Int) / (2 ^ k : Nat) < i + 1 :=
    (Int.ediv_lt_iff_lt_mul positive).mpr (by rwa [Int.mul_comm])
  have ordered : lo / 2 ^ k ≤ (hi - 1) / 2 ^ k := Nat.div_le_div_right (by omega)
  have back : (hi - 1) / 2 ^ k ≤ lo / 2 ^ k := by
    have := Int.lt_of_lt_of_le last (Int.add_le_add_right first 1)
    exact Nat.le_of_lt_succ (by exact_mod_cast this)
  exact Nat.le_antisymm ordered back

end

section

variable {lv : Level} {prec : Geometry} {b : Nat}

private theorem pbandCoord_lt (lv : Level) (prec : Geometry) (b : Nat) :
    ((lv.pbandCoord prec b).1 < 2 ^ 32 ∧ (lv.pbandCoord prec b).2.1 < 2 ^ 32) ∧
      (lv.pbandCoord prec b).2.2.1 < 2 ^ 32 ∧ (lv.pbandCoord prec b).2.2.2 < 2 ^ 32 :=
  ⟨⟨span_lt _ _, span_lt _ _⟩, span_lt _ _, span_lt _ _⟩

private theorem bandRegion_nonempty : (lv.bandRegion prec b).Nonempty ↔
    (lv.pbandCoord prec b).1 < (lv.pbandCoord prec b).2.1 ∧
      (lv.pbandCoord prec b).2.2.1 < (lv.pbandCoord prec b).2.2.2 := by
  rw [bandRegion, Set.prod_nonempty_iff, Set.nonempty_Ico, Set.nonempty_Ico, Int.ofNat_lt, Int.ofNat_lt]

/-- The first code-block is given the whole band. -/
private theorem region_first (shifts : lv.cbw < 32 ∧ lv.cbh < 32)
    (small : (lv.pbandCoord prec b).2.1 < 2 ^ 31 ∧ (lv.pbandCoord prec b).2.2.2 < 2 ^ 31)
    (filled : (lv.bandRegion prec b).Nonempty) :
    (lv.blkCoord prec b 0).region = lv.bandRegion prec b := by
  obtain ⟨⟨wordX, _⟩, wordY, _⟩ := pbandCoord_lt lv prec b
  obtain ⟨wide, high⟩ := bandRegion_nonempty.mp filled
  have low : (lv.pbandCoord prec b).1 < 2 ^ 31 ∧ (lv.pbandCoord prec b).2.2.1 < 2 ^ 31 :=
    ⟨Nat.lt_trans wide small.1, Nat.lt_trans high small.2⟩
  simp only [Geometry.region, blkCoord, bandRegion, Nat.zero_and, Nat.zero_div, near_border wordX,
    near_border wordY, far_border_eq shifts.1 small.1, far_border_eq shifts.2 small.2,
    int32_of_lt low.1, int32_of_lt low.2, int32_of_lt small.1, int32_of_lt small.2]

/-- The far borders fit if the first code-block lies inside the band. -/
private theorem small_of_first (shifts : lv.cbw < 32 ∧ lv.cbh < 32)
    (filled : (lv.blkCoord prec b 0).region.Nonempty)
    (inside : (lv.blkCoord prec b 0).region ⊆ lv.bandRegion prec b) :
    (lv.pbandCoord prec b).2.1 < 2 ^ 31 ∧ (lv.pbandCoord prec b).2.2.2 < 2 ^ 31 := by
  obtain ⟨⟨_, wordX⟩, _, wordY⟩ := pbandCoord_lt lv prec b
  obtain ⟨⟨x, y⟩, member⟩ := filled
  obtain ⟨⟨left, _⟩, top, _⟩ := inside member
  obtain ⟨⟨_, right⟩, _, bottom⟩ := member
  have zero : (lv.blkCoord prec b 0).x1 = int32 (min (lv.pbandCoord prec b).2.1
      (2 ^ lv.cbw * (0 + 1 + (lv.pbandCoord prec b).2.1 / 2 ^ lv.cbw) % 2 ^ 32) : Nat) := by
    simp only [blkCoord, Nat.zero_and]
  have zero' : (lv.blkCoord prec b 0).y1 = int32 (min (lv.pbandCoord prec b).2.2.2
      (2 ^ lv.cbh * (0 + 1 + (lv.pbandCoord prec b).2.2.2 / 2 ^ lv.cbh) % 2 ^ 32) : Nat) := by
    simp only [blkCoord, Nat.zero_div]
  constructor
  · refine small_of_far_border shifts.1 wordX (zero ▸ ?_)
    exact Int.lt_of_le_of_lt (Int.le_trans (Int.natCast_nonneg _) left) right
  · refine small_of_far_border shifts.2 wordY (zero' ▸ ?_)
    exact Int.lt_of_le_of_lt (Int.le_trans (Int.natCast_nonneg _) top) bottom

/-- The code-blocks of a band partition it exactly if there is no more than one. -/
theorem partitions_iff (shifts : lv.cbw < 32 ∧ lv.cbh < 32) (filled : (lv.bandRegion prec b).Nonempty) :
    Partitions ((lv.pband prec b).blk.map Blk.coord) (lv.bandRegion prec b) (2 ^ lv.cbw) (2 ^ lv.cbh) ↔
      lv.OneCell prec b := by
  obtain ⟨wide, high⟩ := bandRegion_nonempty.mp filled
  constructor
  · intro parts
    -- The first code-block is given the whole band, so the band has to lie in one cell.
    have first : lv.blkCoord prec b 0 ∈ (lv.pband prec b).blk.map Blk.coord := by
      have cover := parts.cover
      rw [blk_pband] at cover ⊢
      rcases Nat.eq_zero_or_pos ((lv.blockCounts prec b).1 * (lv.blockCounts prec b).2 % 2 ^ 32) with
        none | some
      · rw [none] at cover
        exact absurd (by simpa using cover.symm) filled.ne_empty
      · simpa using ⟨0, some, rfl⟩
    have inside : (lv.blkCoord prec b 0).region ⊆ lv.bandRegion prec b := by
      rw [← parts.cover]
      exact Set.subset_biUnion_of_mem (u := Geometry.region) first
    have small := small_of_first shifts (parts.nonempty _ first) inside
    obtain ⟨i, j, cell⟩ := parts.cell _ first
    rw [region_first shifts small filled] at cell
    rcases Set.prod_subset_prod_iff.mp cell with ⟨columns, rows⟩ | empty | empty
    · exact ⟨⟨cell_of_Ico_subset wide columns, small.1⟩, cell_of_Ico_subset high rows, small.2⟩
    · exact absurd empty (Set.nonempty_Ico.mpr (Int.ofNat_lt.mpr wide)).ne_empty
    · exact absurd empty (Set.nonempty_Ico.mpr (Int.ofNat_lt.mpr high)).ne_empty
  -- In one cell there is one code-block, and it is the whole band.
  · intro one
    have counts : lv.blockCounts prec b = (1, 1) :=
      Prod.ext (blockCount_one shifts.1 wide one.1.2 one.1.1) (blockCount_one shifts.2 high one.2.2 one.2.1)
    have only : (lv.pband prec b).blk.map Blk.coord = [lv.blkCoord prec b 0] := by
      simp [pband, counts]
    have region := region_first shifts ⟨one.1.2, one.2.2⟩ filled
    rw [only]
    exact {
      nonempty := by simpa [region] using filled
      disjoint := List.pairwise_singleton _ _
      cell := by
        simp only [List.mem_singleton, forall_eq, region]
        exact ⟨_, _, Set.prod_mono (Ico_subset_cell one.1.1) (Ico_subset_cell one.2.1)⟩
      raster := List.pairwise_singleton _ _
      cover := by simp [region] }

end

end Level

/-- The code-blocks of a subband partition its part of a precinct exactly if it lies in one
cell of their grid. -/
theorem codeblocks_partition_iff {h h' : TileHandler} (created : h.create = some (true, h'))
    {tile : Tile} (member : tile ∈ h'.tiles) {c r : Nat} (component : c < h.markers.siz.csiz)
    (resolution : r ≤ ((resolveLevels h.markers).coc c).nl) {prec : Prec}
    (listed : prec ∈ (tile.resAt c r).prec) {b : Nat} (band : b < prec.numBands) :
    let lv := level ((resolveLevels h.markers).coc c) h.markers.dfs r
    (lv.bandRegion prec.coord b).Nonempty →
      (Partitions ((prec.band b).blk.map Blk.coord) (lv.bandRegion prec.coord b)
        (2 ^ lv.cbw) (2 ^ lv.cbh) ↔ lv.OneCell prec.coord b) := by
  intro lv filled
  obtain ⟨shifts, same⟩ := TileHandler.create_precinct created member component resolution listed
  have inside : b < lv.numBands := by
    rw [same] at band
    exact band
  rw [same, Level.band_precinct lv _ inside]
  exact Level.partitions_iff shifts filled

theorem codeblocks_partition_single :
    ∃ h' tile prec, TileHandler.create { markers := bandMarkers 8 } = some (true, h') ∧
      tile ∈ h'.tiles ∧ prec ∈ (tile.resAt 0 1).prec ∧ 1 < prec.numBands ∧
      Partitions ((prec.band 1).blk.map Blk.coord) ((bandLevel 8).bandRegion prec.coord 1)
        (2 ^ (bandLevel 8).cbw) (2 ^ (bandLevel 8).cbh) := by
  obtain ⟨h', tile, created, member, listed⟩ :=
    create_bandMarkers 8 ⟨0, 0, 8, 8⟩ (by decide +kernel)
  have band : 1 < ((bandLevel 8).precinct ⟨0, 0, 8, 8⟩).numBands := by decide +kernel
  have filled : ((bandLevel 8).bandRegion ⟨0, 0, 8, 8⟩ 1).Nonempty :=
    ⟨(0, 0), by decide +kernel, by decide +kernel⟩
  refine ⟨h', tile, _, created, member, listed, band, ?_⟩
  exact (codeblocks_partition_iff created member (by decide +kernel) (by decide +kernel) listed band
    filled).mpr (by decide +kernel)

/-- With 9 columns, the two code-blocks of the low-pass rows are both given all of them. -/
theorem codeblocks_overlap :
    ∃ h' tile prec, TileHandler.create { markers := bandMarkers 9 } = some (true, h') ∧
      tile ∈ h'.tiles ∧ prec ∈ (tile.resAt 0 1).prec ∧ 1 < prec.numBands ∧
      ((bandLevel 9).bandRegion prec.coord 1).Nonempty ∧
      (prec.band 1).blk.map Blk.coord = [⟨0, 0, 5, 4⟩, ⟨0, 0, 5, 4⟩] ∧
      ¬ Partitions ((prec.band 1).blk.map Blk.coord) ((bandLevel 9).bandRegion prec.coord 1)
        (2 ^ (bandLevel 9).cbw) (2 ^ (bandLevel 9).cbh) := by
  obtain ⟨h', tile, created, member, listed⟩ :=
    create_bandMarkers 9 ⟨0, 0, 9, 8⟩ (by decide +kernel)
  have coords : (((bandLevel 9).precinct ⟨0, 0, 9, 8⟩).band 1).blk.map Blk.coord =
      [⟨0, 0, 5, 4⟩, ⟨0, 0, 5, 4⟩] := by decide +kernel
  refine ⟨h', tile, _, created, member, listed, by decide +kernel,
    ⟨(0, 0), by decide +kernel, by decide +kernel⟩, coords, ?_⟩
  intro parts
  have apart := parts.disjoint
  rw [coords, List.pairwise_pair, disjoint_self] at apart
  have first : ((0, 0) : Int × Int) ∈ Geometry.region ⟨0, 0, 5, 4⟩ :=
    ⟨⟨by decide, by decide⟩, by decide, by decide⟩
  rw [apart] at first
  exact first

end RtpDecoder.Parser
