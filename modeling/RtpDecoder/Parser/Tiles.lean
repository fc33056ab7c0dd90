import RtpDecoder.Parser.CodeBlocks

/-!
# The tiles of an image

The tile grid of SIZ starts at `(XTOsiz, YTOsiz)`, and the tiles are its cells, clipped to the
image. `create` counts them in each direction, but its loop makes one turn for each column only
and divides by the number of rows to find the row. Both do no harm to a single tile.
-/

namespace RtpDecoder.Parser

open Header

/-! ### What the tiles should be -/

/-- The image on the reference grid. -/
def imageArea (siz : SizMarker) : Set (Int × Int) :=
  Set.Ico (siz.xOsiz : Int) siz.xsiz ×ˢ Set.Ico (siz.yOsiz : Int) siz.ysiz

/-- The tile in column `p` and row `q`. -/
def clippedTile (siz : SizMarker) (p q : Nat) : Geometry where
  x0 := (max (siz.xTOsiz + p * siz.xTsiz) siz.xOsiz : Nat)
  y0 := (max (siz.yTOsiz + q * siz.yTsiz) siz.yOsiz : Nat)
  x1 := (min (siz.xTOsiz + (p + 1) * siz.xTsiz) siz.xsiz : Nat)
  y1 := (min (siz.yTOsiz + (q + 1) * siz.yTsiz) siz.ysiz : Nat)

/-- The tiles partition the image, row by row. -/
structure TilesImage (siz : SizMarker) (numTilesX numTilesY : Nat) (coords : List Geometry) : Prop where
  count : coords.length = numTilesX * numTilesY
  place : ∀ t g, coords[t]? = some g → g = clippedTile siz (t % numTilesX) (t / numTilesX)
  nonempty : ∀ g ∈ coords, g.region.Nonempty
  disjoint : coords.Pairwise fun g g' => Disjoint g.region g'.region
  cover : ⋃ g ∈ coords, g.region = imageArea siz

/-- One direction of a grid whose first tile meets the image, in numbers that do not overflow:
neither does the count, nor the far border of the last tile, nor a border as `int32_t`. -/
structure OrdinaryGrid (siz offset tileSize tileOffset : Nat) : Prop where
  size : 0 < tileSize
  starts : tileOffset ≤ offset
  image : offset < siz
  meets : offset < tileOffset + tileSize
  counted : siz - tileOffset + tileSize ≤ 2 ^ 32
  last : tileOffset + (siz - tileOffset) ⌈/⌉ tileSize * tileSize < 2 ^ 32
  signed : siz < 2 ^ 31

/-! ### One direction -/

namespace OrdinaryGrid

variable {siz offset tileSize tileOffset : Nat} (grid : OrdinaryGrid siz offset tileSize tileOffset)

include grid

theorem count_eq : ceildivUint (sub32 siz tileOffset) tileSize = (siz - tileOffset) ⌈/⌉ tileSize := by
  have difference : sub32 siz tileOffset = siz - tileOffset := by
    have bounds := And.intro grid.starts (And.intro grid.image grid.signed)
    rw [sub32]
    omega
  rw [difference, ceildivUint_eq grid.size grid.counted]

theorem count_pos : 1 ≤ (siz - tileOffset) ⌈/⌉ tileSize := by
  have bounds := And.intro grid.starts grid.image
  rw [Nat.one_le_iff_ne_zero]
  intro none
  have covered := (ceilDiv_le_iff_le_mul grid.size).mp (Nat.le_of_eq none)
  omega

/-- There is one tile exactly if it reaches to the end of the image. -/
theorem count_eq_one : (siz - tileOffset) ⌈/⌉ tileSize = 1 ↔ siz ≤ tileOffset + tileSize := by
  have pos := grid.count_pos
  have one := ceilDiv_le_iff_le_mul grid.size (b := siz - tileOffset) (c := 1)
  omega

theorem single (one : siz ≤ tileOffset + tileSize) :
    int32 (max ((tileOffset + 0 * tileSize) % 2 ^ 32) offset : Nat) = offset ∧
      int32 (min ((tileOffset + (0 + 1) * tileSize) % 2 ^ 32) siz : Nat) = siz := by
  have bounds := And.intro grid.starts (And.intro grid.image grid.signed)
  have far := grid.last
  rw [grid.count_eq_one.mpr one, Nat.one_mul] at far
  constructor
  · have near : max ((tileOffset + 0 * tileSize) % 2 ^ 32) offset = offset := by omega
    rw [near, Level.int32_of_lt (by omega)]
  · have stop : min ((tileOffset + (0 + 1) * tileSize) % 2 ^ 32) siz = siz := by omega
    rw [stop, Level.int32_of_lt grid.signed]

theorem behind_single (one : siz ≤ tileOffset + tileSize) :
    int32 (max ((tileOffset + 1 * tileSize) % 2 ^ 32) offset : Nat) ≠ offset := by
  have bounds := And.intro grid.starts (And.intro grid.image grid.signed)
  have far := grid.last
  rw [grid.count_eq_one.mpr one, Nat.one_mul] at far
  have near : max ((tileOffset + 1 * tileSize) % 2 ^ 32) offset = tileOffset + tileSize := by omega
  rw [near, int32]
  intro same
  -- The conversion keeps the remainder modulo `2 ^ 32`, by which the two numbers differ.
  have remainder := Int.bmod_emod (x := (tileOffset + tileSize : Nat)) (m := 2 ^ 32)
  rw [same] at remainder
  omega

end OrdinaryGrid

/-! ### Both directions -/

private theorem length_tiles {h h' : TileHandler} (created : h.create = some (true, h')) (rows : h'.numTilesY ≠ 0) :
    h'.tiles.length = h'.numTilesX := by
  have built := (TileHandler.create_inv created).1
  simp only [Plan.tiles] at built
  split at built
  · cases built
  · obtain ⟨⟨ok, tiles⟩, loop, same⟩ := Option.map_eq_some_iff.mp built
    simp only [Prod.mk.injEq] at same
    obtain ⟨columnCount, rowCount, rfl, rfl⟩ := same
    rw [← (createTiles_built loop).length_eq, List.length_range, rowCount, if_neg rows, columnCount]

private theorem coord_tile {h h' : TileHandler} (created : h.create = some (true, h')) {t : Nat} {g : Geometry}
    (listed : (h'.tiles.map Tile.coord)[t]? = some g) : g = tileAt h.markers.siz t := by
  rw [List.getElem?_map] at listed
  obtain ⟨tile, here, rfl⟩ := Option.map_eq_some_iff.mp listed
  exact (Plan.tiles_built (TileHandler.create_inv created).1 here).coord

private theorem numTiles_eq {h h' : TileHandler} (created : h.create = some (true, h')) :
    h'.numTilesX = ceildivUint (sub32 h.markers.siz.xsiz h.markers.siz.xTOsiz) h.markers.siz.xTsiz ∧
      h'.numTilesY = ceildivUint (sub32 h.markers.siz.ysiz h.markers.siz.yTOsiz) h.markers.siz.yTsiz := by
  have built := (TileHandler.create_inv created).1
  simp only [Plan.tiles] at built
  split at built
  · cases built
  · obtain ⟨⟨ok, tiles⟩, loop, same⟩ := Option.map_eq_some_iff.mp built
    simp only [Prod.mk.injEq] at same
    exact ⟨same.1.symm, same.2.1.symm⟩

private theorem single_tile {siz : SizMarker}
    (columns : OrdinaryGrid siz.xsiz siz.xOsiz siz.xTsiz siz.xTOsiz)
    (rows : OrdinaryGrid siz.ysiz siz.yOsiz siz.yTsiz siz.yTOsiz)
    (oneX : siz.xsiz ≤ siz.xTOsiz + siz.xTsiz) (oneY : siz.ysiz ≤ siz.yTOsiz + siz.yTsiz) :
    TilesImage siz 1 1 [tileCoord siz (0 % 1) (0 / 1)] := by
  have whole : tileCoord siz (0 % 1) (0 / 1) = ⟨siz.xOsiz, siz.yOsiz, siz.xsiz, siz.ysiz⟩ := by
    obtain ⟨left, right⟩ := columns.single oneX
    obtain ⟨top, bottom⟩ := rows.single oneY
    simp only [tileCoord, Nat.zero_mod, Nat.zero_div, left, right, top, bottom]
  rw [whole]
  constructor
  case count => rfl
  case place =>
    intro t g listed
    cases t with
    | zero =>
      cases listed
      have near := And.intro columns.starts rows.starts
      simp only [clippedTile, Geometry.mk.injEq]
      omega
    | succ t => cases listed
  case nonempty =>
    intro g listed
    rw [List.mem_singleton.mp listed]
    exact ⟨(siz.xOsiz, siz.yOsiz), ⟨Int.le_refl _, Int.ofNat_lt.mpr columns.image⟩,
      ⟨Int.le_refl _, Int.ofNat_lt.mpr rows.image⟩⟩
  case disjoint => exact List.pairwise_singleton _ _
  case cover =>
    simp only [List.mem_singleton, Set.iUnion_iUnion_eq_left]
    rfl

/-- In a single row of tiles the second one is looked for in the second row. -/
private theorem second_tile_misplaced {siz : SizMarker}
    (rows : OrdinaryGrid siz.ysiz siz.yOsiz siz.yTsiz siz.yTOsiz) (oneY : siz.ysiz ≤ siz.yTOsiz + siz.yTsiz)
    {p q : Nat} : tileCoord siz p 1 ≠ clippedTile siz q 0 := by
  intro same
  have near := congrArg Geometry.y0 same
  have first : max (siz.yTOsiz + 0 * siz.yTsiz) siz.yOsiz = siz.yOsiz := by
    have starts := rows.starts
    omega
  simp only [tileCoord, clippedTile, first] at near
  exact rows.behind_single oneY near

/-- The tiles that `create` builds partition the image exactly if one tile covers it. -/
theorem tiles_partition_iff {h h' : TileHandler} (created : h.create = some (true, h'))
    (columns : OrdinaryGrid h.markers.siz.xsiz h.markers.siz.xOsiz h.markers.siz.xTsiz h.markers.siz.xTOsiz)
    (rows : OrdinaryGrid h.markers.siz.ysiz h.markers.siz.yOsiz h.markers.siz.yTsiz h.markers.siz.yTOsiz) :
    TilesImage h.markers.siz h'.numTilesX h'.numTilesY (h'.tiles.map Tile.coord) ↔
      h.markers.siz.xsiz ≤ h.markers.siz.xTOsiz + h.markers.siz.xTsiz ∧
        h.markers.siz.ysiz ≤ h.markers.siz.yTOsiz + h.markers.siz.yTsiz := by
  obtain ⟨numX, numY⟩ := numTiles_eq created
  rw [columns.count_eq] at numX
  rw [rows.count_eq] at numY
  have posX := columns.count_pos
  have posY := rows.count_pos
  rw [← columns.count_eq_one, ← rows.count_eq_one, ← numX, ← numY]
  rw [← numX] at posX
  rw [← numY] at posY
  have length := length_tiles created (by omega)
  constructor
  · intro image
    have count := image.count
    rw [List.length_map, length] at count
    -- As many tiles as columns are built, so there is one row; then a second tile is misplaced.
    have one : h'.numTilesY = 1 := Nat.eq_of_mul_eq_mul_left posX (by rw [← count, Nat.mul_one])
    refine ⟨?_, one⟩
    by_contra many
    obtain ⟨second, listed⟩ : ∃ g, (h'.tiles.map Tile.coord)[1]? = some g :=
      ⟨_, List.getElem?_eq_getElem (by rw [List.length_map, length]; omega)⟩
    have placed := image.place 1 second listed
    have built := coord_tile created listed
    rw [tileAt, columns.count_eq, rows.count_eq, ← numX, ← numY, one, Nat.div_one] at built
    rw [Nat.div_eq_of_lt (by omega)] at placed
    exact second_tile_misplaced rows (rows.count_eq_one.mp (numY ▸ one)) (built.symm.trans placed)
  · rintro ⟨oneX, oneY⟩
    rw [oneX] at length
    obtain ⟨tile, only⟩ := List.length_eq_one_iff.mp length
    have built : tile.coord = tileAt h.markers.siz 0 := coord_tile created (by rw [only]; rfl)
    rw [tileAt, columns.count_eq, rows.count_eq, ← numX, ← numY, oneX, oneY] at built
    have whole := single_tile columns rows (columns.count_eq_one.mp (numX ▸ oneX))
      (rows.count_eq_one.mp (numY ▸ oneY))
    rw [only, List.map_singleton, oneX, oneY, built]
    exact whole

/-- A main header for an image with tiles of 8 by 8 samples. -/
def tileHeader (width height : UInt8) : List UInt8 :=
  [0xFF, 0x4F,
   0xFF, 0x51, 0, 47, 0, 0, 0, 0, 0, width, 0, 0, 0, height, 0, 0, 0, 0, 0, 0, 0, 0, 0, 0, 0, 8,
     0, 0, 0, 8, 0, 0, 0, 0, 0, 0, 0, 0, 0, 3, 7, 1, 1, 7, 1, 1, 7, 1, 1,
   0xFF, 0x52, 0, 14, 1, 3, 0, 1, 0, 1, 0, 0, 0x48, 1, 0xFF, 0xFF,
   0xFF, 0x72, 0, 6, 0, 0, 1, 0x40,
   0xFF, 0x93]

/-- The markers of the header. -/
def tileMarkers (width height : UInt8) : Markers :=
  ((parseMainHeader {} (streamOf (tileHeader width height))).map (·.2.1)).getD {}

/-- `create` on such a header, and the borders it gives to the tiles. -/
private theorem create_tileMarkers (width height : UInt8) (nums : Nat × Nat) (coords : List Geometry)
    (made : (TileHandler.create { markers := tileMarkers width height }).map
      (fun made => (made.1, (made.2.numTilesX, made.2.numTilesY), made.2.tiles.map Tile.coord)) =
        some (true, nums, coords)) :
    ∃ h', TileHandler.create { markers := tileMarkers width height } = some (true, h') ∧
      (h'.numTilesX, h'.numTilesY) = nums ∧ h'.tiles.map Tile.coord = coords := by
  obtain ⟨⟨ok, h'⟩, created, same⟩ := Option.map_eq_some_iff.mp made
  obtain ⟨rfl, rest⟩ := Prod.mk.inj same
  exact ⟨h', created, Prod.mk.inj rest⟩

theorem tiles_partition_single : ∃ h', TileHandler.create { markers := tileMarkers 7 5 } = some (true, h') ∧
    TilesImage (tileMarkers 7 5).siz h'.numTilesX h'.numTilesY (h'.tiles.map Tile.coord) := by
  obtain ⟨h', created, -⟩ :=
    create_tileMarkers 7 5 (1, 1) [⟨0, 0, 7, 5⟩] (by decide +kernel)
  exact ⟨h', created, (tiles_partition_iff created (by constructor <;> decide +kernel)
    (by constructor <;> decide +kernel)).mpr (by decide +kernel)⟩

/-- Of two tiles side by side, the second one is put below the image. -/
theorem tiles_misplaced : OrdinaryGrid 16 0 8 0 ∧ OrdinaryGrid 8 0 8 0 ∧
    (tileMarkers 16 8).siz.xsiz = 16 ∧ (tileMarkers 16 8).siz.ysiz = 8 ∧
    ∃ h', TileHandler.create { markers := tileMarkers 16 8 } = some (true, h') ∧
    (h'.numTilesX, h'.numTilesY) = (2, 1) ∧ h'.tiles.map Tile.coord = [⟨0, 0, 8, 8⟩, ⟨8, 8, 16, 8⟩] ∧
      ¬ TilesImage (tileMarkers 16 8).siz h'.numTilesX h'.numTilesY (h'.tiles.map Tile.coord) := by
  obtain ⟨h', created, nums, coords⟩ := create_tileMarkers 16 8 (2, 1)
    [⟨0, 0, 8, 8⟩, ⟨8, 8, 16, 8⟩] (by decide +kernel)
  refine ⟨by constructor <;> decide +kernel, by constructor <;> decide +kernel, by decide +kernel,
    by decide +kernel, h', created, nums, coords, fun image => ?_⟩
  have nonempty := image.nonempty ⟨8, 8, 16, 8⟩ (by rw [coords]; simp)
  obtain ⟨p, -, top, bottom⟩ := nonempty
  exact absurd bottom (Int.not_lt.mpr top)

end RtpDecoder.Parser
