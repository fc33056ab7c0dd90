import Mathlib.Data.List.Forall2
import RtpDecoder.Header.MainHeader
import RtpDecoder.Parser.TileHandler

/-!
# Building the precinct structure

`create` turns the marker structs into tiles: for each component and resolution the
precincts with their code-blocks (`parepare_tcomp_structure`), and the order in which their
packets come (`prepare_precinct_structure`). Coordinates are `int32_t`, counts `uint32_t`,
and mixed arithmetic is unsigned, as in the source. A division by zero, an index outside an
array, a shift by 32 or more, a loop that never ends and a component that was never set up
are undefined; there is no result then. The arena that the source takes its memory from is
left out.
-/

namespace RtpDecoder.Parser

open Header

variable {numTilesX numTilesY t : Nat} {ok : Bool}

/-! ### Arithmetic of the source -/

/-- Conversion to `int32_t`. -/
def int32 (z : Int) : Int := z.bmod (2 ^ 32)

/-- Conversion to `uint32_t`. -/
def uint32 (z : Int) : Nat := (z % 2 ^ 32).toNat

/-- `ceildiv_int` of two `int32_t`. -/
def ceildivInt (a b : Int) : Int := (int32 (a + (b - 1))).tdiv b

/-- `ceildiv_int` of two `uint32_t`. -/
def ceildivUint (a b : Nat) : Nat := (a + (b - 1)) % 2 ^ 32 / b

/-! ### One resolution -/

/-- What one resolution takes from `coc` and `dfs` for its place in the packet order. -/
structure Grid where
  hor : Nat
  ver : Nat
  prw : Nat
  prh : Nat
deriving DecidableEq, Repr

/-- What one resolution takes from `coc` and `dfs`. -/
structure Level extends Grid where
  nl : Nat
  r : Nat
  type : Nat
  cbw : Nat
  cbh : Nat
deriving DecidableEq, Repr

/-- Resolution `r` of a component. Note the index of the type: at resolution 0 it is
`NL + 1`, which no level of the DFS has. -/
def level (coc : CocMarker) (dfs : DfsMarker) (r : Nat) : Level where
  hor := entry dfs.horDepth (coc.nl - r)
  ver := entry dfs.verDepth (coc.nl - r)
  prw := entry coc.prw r
  prh := entry coc.prh r
  nl := coc.nl
  r := r
  type := entry dfs.type (coc.nl - r + 1)
  cbw := coc.cbw
  cbh := coc.cbh

/-- The resolutions of a component, from 0 to `NL`. -/
def levels (coc : CocMarker) (dfs : DfsMarker) : List Level :=
  (List.range (coc.nl + 1)).map (level coc dfs)

namespace Level

def resCoord (lv : Level) (tcp : Geometry) : Geometry where
  x0 := ceildivInt tcp.x0 (2 ^ lv.hor)
  y0 := ceildivInt tcp.y0 (2 ^ lv.ver)
  x1 := ceildivInt tcp.x1 (2 ^ lv.hor)
  y1 := ceildivInt tcp.y1 (2 ^ lv.ver)

/-- Only a level that is split both ways has three subbands. -/
def numBands (lv : Level) : Nat := if lv.type ≠ both ∨ lv.r = 0 then 1 else 3

/-- The offsets `xob` and `yob` of a subband. -/
def offsets (lv : Level) (b : Nat) : Nat × Nat :=
  let i := if lv.numBands = 1 then 0 else b + 1
  (i % 2, i / 2)

/-- The subbands; `above` is the resolution above this one. -/
def bandCoord (lv : Level) (above : Option Level) (tcp : Geometry) (b : Nat) : Geometry :=
  let rp := lv.resCoord tcp
  let nb := if lv.r = 0 then lv.nl - lv.r else lv.nl - lv.r + 1
  let shifted (z : Int) (ob : Nat) : Int :=
    int32 (ceildivUint (uint32 (z - 2 ^ (nb - 1) * ob)) (2 ^ nb))
  let quarter : Geometry :=
    ⟨shifted tcp.x0 (lv.offsets b).1, shifted tcp.y0 (lv.offsets b).2,
      shifted tcp.x1 (lv.offsets b).1, shifted tcp.y1 (lv.offsets b).2⟩
  if lv.type = horz then ⟨(rp.x0 + 1) / 2, rp.y0, (rp.x1 + 1) / 2, rp.y1⟩
  else if lv.type = vert then ⟨rp.x0, (rp.y0 + 1) / 2, rp.x1, (rp.y1 + 1) / 2⟩
  else if lv.type = both then quarter
  -- Without a type of its own, as at resolution 0, the resolution above decides.
  else match above with
    | none => default
    | some up =>
      let upper := up.resCoord tcp
      if up.type ≠ both then
        ⟨upper.x0, upper.y0,
          if up.type = horz then int32 (upper.x1 - rp.x1) else upper.x1,
          if up.type = vert then int32 (upper.y1 - rp.y1) else upper.y1⟩
      else quarter

def precinctCount (lo hi : Int) (size : Nat) : Nat :=
  if lo < hi then uint32 (ceildivInt hi size - lo.tdiv size) else 0

def precCoord (lv : Level) (rp : Geometry) (x y : Nat) : Geometry :=
  let ppx := 2 ^ lv.prw
  let ppy := 2 ^ lv.prh
  { x0 := int32 (max (uint32 rp.x0) (ppx * (x + uint32 rp.x0 / ppx) % 2 ^ 32) : Nat)
    y0 := int32 (max (uint32 rp.y0) (ppy * (y + uint32 rp.y0 / ppy) % 2 ^ 32) : Nat)
    x1 := int32 (min (uint32 rp.x1) (ppx * (x + 1 + uint32 rp.x0 / ppx) % 2 ^ 32) : Nat)
    y1 := int32 (min (uint32 rp.y1) (ppy * (y + 1 + uint32 rp.y0 / ppy) % 2 ^ 32) : Nat) }

/-- `srx` and `sry`. -/
def subsampling (lv : Level) : Nat × Nat :=
  if lv.type = both then (2, 2)
  else if lv.type = horz then (2, 1)
  else if lv.type = vert then (1, 2)
  else (1, 1)

/-- The part of a precinct in subband `b`: `pbx0`, `pbx1`, `pby0`, `pby1`. -/
def pbandCoord (lv : Level) (prec : Geometry) (b : Nat) : Nat × Nat × Nat × Nat :=
  let ob := lv.offsets b
  let sr := lv.subsampling
  (ceildivUint (uint32 (prec.x0 - ob.1)) sr.1, ceildivUint (uint32 (prec.x1 - ob.1)) sr.1,
    ceildivUint (uint32 (prec.y0 - ob.2)) sr.2, ceildivUint (uint32 (prec.y1 - ob.2)) sr.2)

def blockCount (lo hi size : Nat) : Nat :=
  if lo < hi then sub32 (ceildivUint hi size) (lo / size) else 0

/-- `ncbw` and `ncbh` as subband `b` sets them. -/
def blockCounts (lv : Level) (prec : Geometry) (b : Nat) : Nat × Nat :=
  let (pbx0, pbx1, pby0, pby1) := lv.pbandCoord prec b
  (blockCount pbx0 pbx1 (2 ^ lv.cbw), blockCount pby0 pby1 (2 ^ lv.cbh))

def blkCoord (lv : Level) (prec : Geometry) (b cb : Nat) : Geometry :=
  let (pbx0, pbx1, pby0, pby1) := lv.pbandCoord prec b
  let cbw := 2 ^ lv.cbw
  let cbh := 2 ^ lv.cbh
  -- The column is a bitwise and in the source, where a remainder is meant.
  let x := cb &&& (lv.blockCounts prec b).1
  let y := cb / (lv.blockCounts prec b).1
  { x0 := int32 (max pbx0 (cbw * (x + pbx0 / cbw) % 2 ^ 32) : Nat)
    y0 := int32 (max pby0 (cbh * (y + pby0 / cbh) % 2 ^ 32) : Nat)
    x1 := int32 (min pbx1 (cbw * (x + 1 + pbx1 / cbw) % 2 ^ 32) : Nat)
    y1 := int32 (min pby1 (cbh * (y + 1 + pby1 / cbh) % 2 ^ 32) : Nat) }

/-- A subband without code-blocks keeps its pointers unset. Of a code-block `data`, `scup`, `modes`,
`zbp` and `ht_plhd` are not written and keep what the arena held; where that matters, `Blk.written`
says what can be relied on. -/
def pband (lv : Level) (prec : Geometry) (b : Nat) : Pband :=
  let (ncbw, ncbh) := lv.blockCounts prec b
  if ncbw ≠ 0 ∧ ncbh ≠ 0 then
    { incl := List.replicate (tagTreeSize ncbw ncbh) {}
      zbp := List.replicate (tagTreeSize ncbw ncbh) {}
      blk := (List.range (ncbw * ncbh % 2 ^ 32)).map fun cb => { coord := lv.blkCoord prec b cb } }
  else {}

/-- The counts of code-blocks that a precinct ends up with are those of its last subband. -/
def precinct (lv : Level) (coord : Geometry) : Prec :=
  { pband := (List.range lv.numBands).map (lv.pband coord)
    coord := coord
    resNum := lv.r
    numBands := lv.numBands
    ncbw := (lv.blockCounts coord (lv.numBands - 1)).1
    ncbh := (lv.blockCounts coord (lv.numBands - 1)).2 }

def resolution (lv : Level) (above : Option Level) (tcp : Geometry) : Res :=
  let rp := lv.resCoord tcp
  let npw := precinctCount rp.x0 rp.x1 (2 ^ lv.prw)
  let nph := precinctCount rp.y0 rp.y1 (2 ^ lv.prh)
  { prec := (List.range (npw * nph % 2 ^ 32)).map fun np =>
      lv.precinct (lv.precCoord rp (np % npw) (np / npw))
    band := (List.range lv.numBands).map (lv.bandCoord above tcp)
    coord := rp
    npw := npw
    nph := nph
    transformDirection := lv.type
    numBands := lv.numBands }

/-- The coordinates of the precincts of a resolution, in the order of the source. -/
def precCoords (lv : Level) (tcp : Geometry) : List Geometry :=
  let rp := lv.resCoord tcp
  let npw := precinctCount rp.x0 rp.x1 (2 ^ lv.prw)
  let nph := precinctCount rp.y0 rp.y1 (2 ^ lv.prh)
  (List.range (npw * nph % 2 ^ 32)).map fun np => lv.precCoord rp (np % npw) (np / npw)

end Level

/-- `parepare_tcomp_structure`: `res[r]` for every level, or nothing when a level does not
exist or a code-block size cannot be shifted. -/
def parepareTcompStructure (tcp : Geometry) (lvs : List Level) : Option (List Res) :=
  if lvs.length ≤ maxDwtLevel + 1 ∧ ∀ lv ∈ lvs, lv.cbw < 32 ∧ lv.cbh < 32 then
    some (lvs.mapIdx fun r lv => lv.resolution lvs[r + 1]? tcp)
  else none

theorem parepareTcompStructure_res {tcp : Geometry} {lvs : List Level} {ress : List Res}
    (built : parepareTcompStructure tcp lvs = some ress) {r : Nat} {lv : Level}
    (level : lvs[r]? = some lv) : ress[r]? = some (lv.resolution lvs[r + 1]? tcp) := by
  simp only [parepareTcompStructure] at built
  split at built
  · cases built
    rw [List.getElem?_mapIdx, level, Option.map_some]
  · cases built

theorem parepareTcompStructure_length {tcp : Geometry} {lvs : List Level} {ress : List Res}
    (built : parepareTcompStructure tcp lvs = some ress) :
    ress.length = lvs.length ∧ lvs.length ≤ maxDwtLevel + 1 := by
  simp only [parepareTcompStructure] at built
  split at built
  next usable =>
    cases built
    exact ⟨List.length_mapIdx, usable.1⟩
  · cases built

/-! ### The order of the packets -/

/-- The values of a `uint32_t` loop counter from `pos` in steps of `step` up to `hi`. -/
def positions : Nat → Nat → Nat → Nat → Option (List Nat)
  | 0, _, _, _ => none
  | fuel + 1, pos, hi, step =>
    if pos < hi then (positions fuel ((pos + step) % 2 ^ 32) hi step).map (pos :: ·)
    else some []

/-- A loop that is not over after `hi + 1` turns has wrapped around and never is. -/
def loopPositions (lo hi : Int) (step : Nat) : Option (List Nat) :=
  positions (uint32 hi + 1) (uint32 lo) (uint32 hi) step

/-- A component of a tile: its sampling and its resolutions. -/
structure Component where
  xRsiz : Nat
  yRsiz : Nat
  levels : List Level
deriving DecidableEq, Repr

/-- What `create` takes from the marker structs: `comps` are the components of a tile,
`grids` belong to all three components, as the packet order looks at all of them. -/
structure Plan where
  siz : SizMarker
  order : Nat
  comps : List Component
  grids : List (List Grid)
deriving DecidableEq, Repr

def pcrl : Nat := 3
def prcl : Nat := 5

/-- Component and resolution, in the order of the two inner loops; nothing for an order
that is not supported. -/
def Plan.innerOrder (plan : Plan) : Option (List (Nat × Nat)) :=
  let count (c : Nat) : Nat := (plan.grids[c]?.getD []).length
  if plan.order = pcrl then
    some ((List.range maxNumComponents).flatMap fun c => (List.range (count c)).map fun r => (c, r))
  else if plan.order = prcl then
    -- The components may have different numbers of resolutions.
    let reMax := (List.range maxNumComponents).foldl (fun most c => max most (count c)) 0
    some ((List.range reMax).flatMap fun r =>
      ((List.range maxNumComponents).filter fun c => decide (r < count c)).map fun c => (c, r))
  else none

/-- Whether a position is one where a packet of a resolution comes. -/
def onGrid (pos sub pr depth : Nat) (tile0 res0 : Int) : Bool :=
  decide (pos % (sub * 2 ^ (pr + depth) % 2 ^ 32) = 0) ||
    -- At the edge of the tile a precinct may start off the grid.
    (decide (pos = uint32 tile0) &&
      decide (uint32 res0 * 2 ^ depth % 2 ^ 32 % 2 ^ (pr + depth) ≠ 0))

/-- The state of the walk: `px` and `py` for each component and resolution, and the entries
of `crp`, the latest first. -/
structure Visits where
  cursor : Nat → Nat → Nat × Nat := fun _ _ => (0, 0)
  crp : List Crp := []

/-- The innermost body: one component and resolution at one position. -/
def visit (plan : Plan) (tile : Tile) (y x : Nat) (st : Visits) (cr : Nat × Nat) : Option Visits :=
  do
    let tcp ← tile.tcomp[cr.1]?
    let rp ← tcp.res[cr.2]?
    let grid ← (plan.grids[cr.1]?.getD [])[cr.2]?
    if onGrid x tcp.subX grid.prw grid.hor tile.coord.x0 rp.coord.x0 &&
        onGrid y tcp.subY grid.prh grid.ver tile.coord.y0 rp.coord.y0 then
      let (px, py) := st.cursor cr.1 cr.2
      let next := if px + 1 = rp.npw then (0, py + 1) else (px + 1, py)
      some
        { cursor := fun c r => if (c, r) = cr then next else st.cursor c r
          -- The precinct number is a `uint16_t`.
          crp := ⟨cr.1, cr.2, (py * rp.npw + px) % 2 ^ 16⟩ :: st.crp }
    else some st

/-- `prepare_precinct_structure`, `none` inside for an unsupported order. -/
def preparePrecinctStructure (plan : Plan) (tile : Tile) : Option (Option (List Crp)) :=
  match plan.innerOrder with
  | none => some none
  | some inner =>
    if ∀ grid ∈ plan.grids, grid.length ≤ maxDwtLevel + 1 then
      -- The positions are apart by the smallest precincts of all components.
      let stepX := 2 ^ plan.grids.flatten.foldl (fun step grid => min step grid.prw) 32
      let stepY := 2 ^ plan.grids.flatten.foldl (fun step grid => min step grid.prh) 32
      do
        let ys ← loopPositions tile.coord.y0 tile.coord.y1 stepY
        let st ← ys.foldlM (fun st y => do
          let xs ← loopPositions tile.coord.x0 tile.coord.x1 stepX
          xs.foldlM (fun st x => inner.foldlM (visit plan tile y x) st) st) ({} : Visits)
        some (some st.crp.reverse)
    else none

/-! ### `create` -/

/-- A number of levels above 32 refers to the DFS. -/
def resolveLevels (m : Markers) : Markers :=
  { m with
    cocs := m.cocs.mapIdx fun c coc =>
      if c < m.siz.csiz ∧ 32 < coc.nl then
        { coc with toCodMarker := { coc.toCodMarker with nl := m.dfs.idfs % 256 } }
      else coc }

theorem coc_resolveLevels (m : Markers) (c : Nat) :
    (resolveLevels m).coc c =
      if c < m.siz.csiz ∧ 32 < (m.coc c).nl then
        { m.coc c with toCodMarker := { (m.coc c).toCodMarker with nl := m.dfs.idfs % 256 } }
      else m.coc c := by
  by_cases inside : c < maxNumComponents
  · simp only [resolveLevels, Markers.coc, Vector.getElem?_eq_getElem inside, Vector.getElem_mapIdx,
      Option.getD_some]
  · have beyond := Nat.not_lt.mp inside
    rw [Markers.coc_beyond _ beyond, Markers.coc_beyond _ beyond, if_neg]
    rintro ⟨_, large⟩
    exact absurd large (by decide)

def plan (m : Markers) : Plan where
  siz := m.siz.frame
  order := (m.coc 0).progressionOrder
  comps := (List.range m.siz.csiz).map fun c =>
    ⟨entry m.siz.xRsiz c, entry m.siz.yRsiz c, levels (m.coc c) m.dfs⟩
  grids := (List.range maxNumComponents).map fun c => (levels (m.coc c) m.dfs).map Level.toGrid

def tileCoord (siz : SizMarker) (p q : Nat) : Geometry where
  x0 := int32 (max ((siz.xTOsiz + p * siz.xTsiz) % 2 ^ 32) siz.xOsiz : Nat)
  y0 := int32 (max ((siz.yTOsiz + q * siz.yTsiz) % 2 ^ 32) siz.yOsiz : Nat)
  x1 := int32 (min ((siz.xTOsiz + (p + 1) * siz.xTsiz) % 2 ^ 32) siz.xsiz : Nat)
  y1 := int32 (min ((siz.yTOsiz + (q + 1) * siz.yTsiz) % 2 ^ 32) siz.ysiz : Nat)

def createTcomp (tile : Geometry) (comp : Component) : Option Tcomp :=
  if comp.xRsiz = 0 ∨ comp.yRsiz = 0 then none
  else
    let coord : Geometry :=
      ⟨ceildivInt tile.x0 comp.xRsiz, ceildivInt tile.y0 comp.yRsiz,
        ceildivInt tile.x1 comp.xRsiz, ceildivInt tile.y1 comp.yRsiz⟩
    (parepareTcompStructure coord comp.levels).map fun res =>
      { res := res, coord := coord, subX := comp.xRsiz, subY := comp.yRsiz }

/-- One turn of the loop over the tiles. The Boolean is `false` for a stream whose packet
order is not supported. -/
def createTile (plan : Plan) (numTilesX numTilesY t : Nat) : Option (Bool × Tile) :=
  -- `tcomp` has room for three components.
  if maxNumComponents < plan.siz.csiz then none
  else do
    -- The row is `t / num_tiles_y` in the source.
    let coord := tileCoord plan.siz (t % numTilesX) (t / numTilesY)
    let tcomp ← plan.comps.mapM (createTcomp coord)
    let tile : Tile :=
      { tcomp := tcomp, coord := coord, numComponents := plan.siz.csiz,
        progressionOrder := plan.order }
    match ← preparePrecinctStructure plan tile with
    | none => some (false, tile)
    | some crp => some (true, { tile with crp := crp })

/-- The loop over the tiles, until one of them fails. -/
def createTiles (plan : Plan) (numTilesX numTilesY : Nat) : List Nat → Option (Bool × List Tile)
  | [] => some (true, [])
  | t :: rest =>
    match createTile plan numTilesX numTilesY t with
    | none => none
    | some (false, tile) => some (false, [tile])
    | some (true, tile) =>
      (createTiles plan numTilesX numTilesY rest).map fun r => (r.1, tile :: r.2)

/-- The tiles that `create` builds from a plan, with their numbers in each direction. -/
def Plan.tiles (plan : Plan) : Option (Nat × Nat × Bool × List Tile) :=
  let siz := plan.siz
  if siz.xTsiz = 0 ∨ siz.yTsiz = 0 then none
  else
    let numTilesX := ceildivUint (sub32 siz.xsiz siz.xTOsiz) siz.xTsiz
    let numTilesY := ceildivUint (sub32 siz.ysiz siz.yTOsiz) siz.yTsiz
    -- Only `num_tiles_x` tiles are built; the other number is just tested.
    (createTiles plan numTilesX numTilesY
      (List.range (if numTilesY = 0 then 0 else numTilesX))).map fun r =>
        (numTilesX, numTilesY, r.1, r.2)

/-- The positions in `crp` of each component's packets. -/
def crpIndex (crp : List Crp) : List (List Nat) :=
  (List.range maxNumComponents).map fun c =>
    (List.range crp.length).filter fun i => (crp.map Crp.c)[i]? = some c

namespace TileHandler

/-- `create`: `false` when the caller has to fail the frame. -/
def create (h : TileHandler) : Option (Bool × TileHandler) :=
  -- The levels are resolved while the first tile is built.
  (plan (resolveLevels h.markers)).tiles.map fun (numTilesX, numTilesY, ok, tiles) =>
    (ok, { h with
      numTilesX := numTilesX
      numTilesY := numTilesY
      tiles := tiles
      markers := if tiles.isEmpty then h.markers else resolveLevels h.markers
      crpIdxByPid := if ok && !tiles.isEmpty then crpIndex (tiles.headD {}).crp else h.crpIdxByPid
      ready := ok })

/-- A main header, as `pull_data` has it processed on a stream that is not latched. -/
def latch (h : TileHandler) (s : Codestream) : Option (Bool × TileHandler) :=
  match parseMainHeader h.markers s with
  | none => none
  | some (sod, m, _) =>
    if sod = 0 then some (false, { h with markers := m }) else { h with markers := m }.create

end TileHandler

/-! ### What is built -/

def Component.coord (comp : Component) (tile : Geometry) : Geometry where
  x0 := ceildivInt tile.x0 comp.xRsiz
  y0 := ceildivInt tile.y0 comp.yRsiz
  x1 := ceildivInt tile.x1 comp.xRsiz
  y1 := ceildivInt tile.y1 comp.yRsiz

/-- A component as it was planned, in a tile with these borders. -/
structure Tcomp.Built (tile : Geometry) (comp : Component) (tcp : Tcomp) : Prop where
  sampled : comp.xRsiz ≠ 0 ∧ comp.yRsiz ≠ 0
  sub : tcp.subX = comp.xRsiz ∧ tcp.subY = comp.yRsiz
  res : tcp.res = comp.levels.mapIdx fun r lv => lv.resolution comp.levels[r + 1]? (comp.coord tile)

theorem createTcomp_built {tile : Geometry} {comp : Component} {tcp : Tcomp}
    (built : createTcomp tile comp = some tcp) : Tcomp.Built tile comp tcp := by
  simp only [createTcomp] at built
  split at built
  · cases built
  next sampled =>
    obtain ⟨res, prepared, rfl⟩ := Option.map_eq_some_iff.mp built
    simp only [parepareTcompStructure] at prepared
    split at prepared
    · cases prepared
      exact ⟨not_or.mp sampled, ⟨rfl, rfl⟩, rfl⟩
    · cases prepared

/-- A tile as it was planned; without success it has no packets. -/
structure Tile.Built (plan : Plan) (coord : Geometry) (ok : Bool) (tile : Tile) : Prop where
  room : plan.siz.csiz ≤ maxNumComponents
  tcomp : List.Forall₂ (Tcomp.Built coord) plan.comps tile.tcomp
  coord : tile.coord = coord
  crp : preparePrecinctStructure plan { tile with crp := [] } = some (if ok then some tile.crp else none)

private theorem forall₂_of_mapM {α β : Type} {f : α → Option β} {p : α → β → Prop}
    (each : ∀ a b, f a = some b → p a b) {xs : List α} {ys : List β}
    (built : xs.mapM f = some ys) : List.Forall₂ p xs ys := by
  induction xs generalizing ys with
  | nil =>
    cases built
    exact .nil
  | cons x xs ih =>
    rw [List.mapM_cons] at built
    obtain ⟨y, first, rest⟩ := Option.bind_eq_some_iff.mp built
    obtain ⟨ys', others, same⟩ := Option.bind_eq_some_iff.mp rest
    cases same
    exact .cons (each x y first) (ih others)

theorem createTile_built {plan : Plan} {tile : Tile}
    (built : createTile plan numTilesX numTilesY t = some (ok, tile)) :
    tile.Built plan (tileCoord plan.siz (t % numTilesX) (t / numTilesY)) ok := by
  simp only [createTile] at built
  split at built
  · cases built
  next few =>
    obtain ⟨tcomp, comps, rest⟩ := Option.bind_eq_some_iff.mp built
    obtain ⟨order, prepared, same⟩ := Option.bind_eq_some_iff.mp rest
    have each := forall₂_of_mapM (fun _ _ => createTcomp_built) comps
    cases order with
    | none =>
      cases same
      exact ⟨Nat.not_lt.mp few, each, rfl, prepared⟩
    | some crp =>
      cases same
      exact ⟨Nat.not_lt.mp few, each, rfl, prepared⟩

theorem createTiles_built {plan : Plan} {ts : List Nat} {tiles : List Tile}
    (built : createTiles plan numTilesX numTilesY ts = some (true, tiles)) :
    List.Forall₂ (fun t tile => tile.Built plan (tileCoord plan.siz (t % numTilesX) (t / numTilesY)) true)
      ts tiles := by
  induction ts generalizing tiles with
  | nil =>
    cases built
    exact .nil
  | cons t rest ih =>
    simp only [createTiles] at built
    split at built
    · cases built
    · cases built
    next first =>
      obtain ⟨⟨ok, later⟩, others, same⟩ := Option.map_eq_some_iff.mp built
      cases same
      exact .cons (createTile_built first) (ih others)

/-- The borders of tile `t`. -/
def tileAt (siz : SizMarker) (t : Nat) : Geometry :=
  tileCoord siz (t % ceildivUint (sub32 siz.xsiz siz.xTOsiz) siz.xTsiz)
    (t / ceildivUint (sub32 siz.ysiz siz.yTOsiz) siz.yTsiz)

theorem Plan.tiles_built {plan : Plan} {tiles : List Tile} {tile : Tile}
    (built : plan.tiles = some (numTilesX, numTilesY, true, tiles)) (here : tiles[t]? = some tile) :
    tile.Built plan (tileAt plan.siz t) true := by
  simp only [Plan.tiles] at built
  split at built
  · cases built
  · obtain ⟨⟨ok, tiles'⟩, loop, same⟩ := Option.map_eq_some_iff.mp built
    cases same
    have all := createTiles_built loop
    obtain ⟨inside, rfl⟩ := List.getElem?_eq_some_iff.mp here
    have listed : t < (List.range _).length := Nat.lt_of_lt_of_eq inside all.length_eq.symm
    have numbered := (List.forall₂_iff_get.mp all).2 t listed inside
    rw [List.get_eq_getElem, List.getElem_range] at numbered
    exact numbered

/-- A tile is only finished with levels that exist and code-block sizes that can be shifted. -/
theorem createTile_usable {plan : Plan} {tile : Tile}
    (built : createTile plan numTilesX numTilesY t = some (ok, tile)) :
    ∀ comp ∈ plan.comps, comp.levels.length ≤ maxDwtLevel + 1 ∧
      ∀ lv ∈ comp.levels, lv.cbw < 32 ∧ lv.cbh < 32 := by
  simp only [createTile] at built
  split at built
  · cases built
  · obtain ⟨tcomp, comps, _⟩ := Option.bind_eq_some_iff.mp built
    have each := forall₂_of_mapM (fun _ _ made => made) comps
    intro comp member
    obtain ⟨c, inside, rfl⟩ := List.getElem_of_mem member
    have made := (List.forall₂_iff_get.mp each).2 c inside (Nat.lt_of_lt_of_eq inside each.length_eq)
    simp only [createTcomp] at made
    split at made
    · cases made
    · obtain ⟨res, prepared, _⟩ := Option.map_eq_some_iff.mp made
      simp only [parepareTcompStructure] at prepared
      split at prepared
      next usable => exact usable
      · cases prepared

theorem createTiles_mem {plan : Plan} {ts : List Nat}
    {tiles : List Tile} {tile : Tile} (built : createTiles plan numTilesX numTilesY ts = some (ok, tiles))
    (member : tile ∈ tiles) : ∃ t ok', createTile plan numTilesX numTilesY t = some (ok', tile) := by
  induction ts generalizing ok tiles with
  | nil =>
    cases built
    cases member
  | cons t rest ih =>
    simp only [createTiles] at built
    split at built
    · cases built
    next first =>
      cases built
      rw [List.mem_singleton] at member
      exact ⟨t, false, member ▸ first⟩
    next first =>
      obtain ⟨⟨ok', later⟩, others, same⟩ := Option.map_eq_some_iff.mp built
      cases same
      rcases List.mem_cons.mp member with rfl | later
      · exact ⟨t, true, first⟩
      · exact ih others later

theorem Plan.tiles_mem {plan : Plan} {tiles : List Tile}
    {tile : Tile} (built : plan.tiles = some (numTilesX, numTilesY, ok, tiles)) (member : tile ∈ tiles) :
    ∃ t ok', createTile plan numTilesX numTilesY t = some (ok', tile) := by
  simp only [Plan.tiles] at built
  split at built
  · cases built
  · obtain ⟨⟨ok', tiles'⟩, loop, same⟩ := Option.map_eq_some_iff.mp built
    cases same
    exact createTiles_mem loop member

theorem TileHandler.create_inv {h h' : TileHandler} (created : h.create = some (ok, h')) :
    (plan (resolveLevels h.markers)).tiles = some (h'.numTilesX, h'.numTilesY, ok, h'.tiles) ∧
      (h'.tiles ≠ [] → h'.markers = resolveLevels h.markers) := by
  obtain ⟨⟨numTilesX, numTilesY, ok', tiles⟩, built, same⟩ := Option.map_eq_some_iff.mp created
  cases same
  refine ⟨built, fun some_tile => ?_⟩
  cases tiles with
  | nil => exact absurd rfl some_tile
  | cons tile rest => rfl

/-- A main header for an image of 1024 by 8 samples, three components, `nl` levels of the
types given and one precinct for each resolution. -/
def streamHeader (nl : Nat) (types : UInt8) : List UInt8 :=
  [0xFF, 0x4F,
   0xFF, 0x51, 0, 47, 0, 0, 0, 0, 4, 0, 0, 0, 0, 8, 0, 0, 0, 0, 0, 0, 0, 0, 0, 0, 4, 0, 0, 0, 0, 8,
     0, 0, 0, 0, 0, 0, 0, 0, 0, 3, 7, 1, 1, 7, 1, 1, 7, 1, 1,
   0xFF, 0x52, 0, UInt8.ofNat (13 + nl), 1, 3, 0, 1, 0, UInt8.ofNat nl, 5, 2, 0x48, 1] ++
  List.replicate (nl + 1) 0xFF ++
  [0xFF, 0x72, 0, 6, 0, 0, UInt8.ofNat nl, types,
   0xFF, 0x5C, 0, UInt8.ofNat (4 + 3 * nl), 0] ++ List.replicate (3 * nl + 1) 8 ++
  [0xFF, 0x93]

end RtpDecoder.Parser
