import RtpDecoder.Lib.Related
import RtpDecoder.Parser.CodeBlocks

/-!
# What `restart` walks over

`restart` goes through six resolutions of every component, whatever the header says, and clears
in every subband what the last subband of the precinct has counted. Here stands what it finds
there after any sequence of main headers: which resolutions and which arrays the latest
`create` has made.
-/

namespace RtpDecoder.Parser

open Header

variable {numTilesX numTilesY t : Nat} {ok : Bool}

/-! ### What has to be there -/

/-- Both tag trees and the code-blocks of every subband are as large as what is cleared. -/
def Prec.RestartLive (prec : Prec) : Prop :=
  ∀ b < prec.numBands, ∃ pband, prec.pband[b]? = some pband ∧
    tagTreeSize prec.ncbw prec.ncbh ≤ pband.incl.length ∧
    tagTreeSize prec.ncbw prec.ncbh ≤ pband.zbp.length ∧ prec.numBlocks ≤ pband.blk.length

def Res.RestartLive (res : Res) : Prop :=
  ∀ p < res.npw * res.nph % 2 ^ 32, ∃ prec, res.prec[p]? = some prec ∧ prec.RestartLive

/-- The loop over the resolutions starts at `MAX_DWT_LEVEL`. -/
def Tcomp.RestartLive (tcp : Tcomp) : Prop :=
  ∀ r < maxDwtLevel + 1, ∃ res, tcp.res[r]? = some res ∧ res.RestartLive

def Tile.RestartLive (tile : Tile) : Prop :=
  ∀ c < tile.numComponents, ∃ tcp, tile.tcomp[c]? = some tcp ∧ tcp.RestartLive

/-- Everything that `restart` touches has been initialised, and is large enough. -/
def TileHandler.RestartLive (h : TileHandler) : Prop := ∀ tile ∈ h.tiles, tile.RestartLive

instance decidableExistsSome {α : Type} {P : α → Prop} [DecidablePred P] :
    (o : Option α) → Decidable (∃ a, o = some a ∧ P a)
  | none => isFalse (by simp)
  | some a => decidable_of_iff (P a) (by simp)

instance (prec : Prec) : Decidable prec.RestartLive := inferInstanceAs (Decidable (∀ b < prec.numBands, _))
instance (res : Res) : Decidable res.RestartLive := inferInstanceAs (Decidable (∀ p < res.npw * res.nph % 2 ^ 32, _))
instance (tcp : Tcomp) : Decidable tcp.RestartLive := inferInstanceAs (Decidable (∀ r < maxDwtLevel + 1, _))
instance (tile : Tile) : Decidable tile.RestartLive := inferInstanceAs (Decidable (∀ c < tile.numComponents, _))
instance (h : TileHandler) : Decidable h.RestartLive := inferInstanceAs (Decidable (∀ tile ∈ h.tiles, _))

theorem exists_map {α β : Type} {o : Option α} {f : α → β} {p : β → Prop} :
    (∃ b, o.map f = some b ∧ p b) ↔ ∃ a, o = some a ∧ p (f a) := by
  cases o <;> simp

/-- `restart` itself allocates nothing and drops nothing. -/
theorem Prec.restartLive_restart (prec : Prec) : prec.restart.RestartLive ↔ prec.RestartLive := by
  apply forall₂_congr
  intro b band
  have inside : b < prec.numBands := band
  simp only [Prec.restart, List.getElem?_mapIdx, exists_map, if_pos inside, tagTreeZero, List.length_mapIdx]
  rfl

theorem Res.restartLive_restart (res : Res) : res.restart.RestartLive ↔ res.RestartLive := by
  apply forall₂_congr
  intro p walked
  have inside : p < res.npw * res.nph % 2 ^ 32 := walked
  simp only [Res.restart, List.getElem?_mapIdx, exists_map, if_pos inside, Prec.restartLive_restart]

theorem Tile.restartLive_restart (tile : Tile) : tile.restart.RestartLive ↔ tile.RestartLive := by
  apply forall₂_congr
  intro c component
  have inside : c < tile.numComponents := component
  simp only [Tile.restart, List.getElem?_mapIdx, exists_map, if_pos inside, Tcomp.RestartLive, List.getElem?_map,
    Res.restartLive_restart]

theorem TileHandler.restartLive_restart (h : TileHandler) : h.restart.RestartLive ↔ h.RestartLive := by
  simp only [TileHandler.RestartLive, TileHandler.restart, List.forall_mem_map, Tile.restartLive_restart]

/-! ### What is there -/

namespace Level

/-- The nodes that `tag_tree_init` makes for a subband; there is none for a subband without
code-blocks. -/
def treeNodes (counts : Nat × Nat) : Nat :=
  if counts.1 ≠ 0 ∧ counts.2 ≠ 0 then tagTreeSize counts.1 counts.2 else 0

/-- The counts of the last subband fit into what every subband of the precinct has. -/
def Clears (lv : Level) (prec : Geometry) : Prop :=
  ∀ b < lv.numBands,
    tagTreeSize (lv.blockCounts prec (lv.numBands - 1)).1 (lv.blockCounts prec (lv.numBands - 1)).2 ≤
      treeNodes (lv.blockCounts prec b) ∧
    (lv.blockCounts prec (lv.numBands - 1)).1 * (lv.blockCounts prec (lv.numBands - 1)).2 % 2 ^ 32 ≤
      (lv.blockCounts prec b).1 * (lv.blockCounts prec b).2 % 2 ^ 32

instance (lv : Level) (prec : Geometry) : Decidable (lv.Clears prec) :=
  inferInstanceAs (Decidable (∀ b < lv.numBands, _))

theorem length_incl_pband (lv : Level) (prec : Geometry) (b : Nat) :
    (lv.pband prec b).incl.length = treeNodes (lv.blockCounts prec b) ∧
      (lv.pband prec b).zbp.length = treeNodes (lv.blockCounts prec b) := by
  by_cases filled : (lv.blockCounts prec b).1 ≠ 0 ∧ (lv.blockCounts prec b).2 ≠ 0
  · simp [pband, treeNodes, filled]
  · simp [pband, treeNodes, filled]

theorem restartLive_precinct (lv : Level) (coord : Geometry) : (lv.precinct coord).RestartLive ↔ lv.Clears coord := by
  apply forall₂_congr
  intro b band
  have inside : b < lv.numBands := band
  simp only [precinct, List.getElem?_map, List.getElem?_range inside, Option.map_some, Option.some.injEq,
    exists_eq_left', Prec.numBlocks]
  rw [(lv.length_incl_pband coord b).1, (lv.length_incl_pband coord b).2, blk_pband, List.length_map,
    List.length_range, ← and_assoc, and_self]

theorem tagTreeSizeLoop_mono {w h w' h' res res' : Nat} (fuel : Nat) (wide : w ≤ w') (high : h ≤ h')
    (start : res ≤ res') (small : w' + 1 < 2 ^ 32 ∧ h' + 1 < 2 ^ 32) :
    tagTreeSizeLoop fuel w h res ≤ tagTreeSizeLoop fuel w' h' res' := by
  induction fuel generalizing w h w' h' res res' with
  | zero => exact start
  | succ fuel ih =>
    simp only [tagTreeSizeLoop]
    by_cases many : 1 < w ∨ 1 < h
    · rw [if_pos many, if_pos (by omega)]
      apply ih
      · omega
      · omega
      · exact Nat.add_le_add start (Nat.mul_le_mul wide high)
      · omega
    -- The smaller tree has no further level; the larger one may have.
    · rw [if_neg many]
      split
      · exact Nat.le_trans (Nat.le_trans start (Nat.le_add_right _ _)) (le_tagTreeSizeLoop _ _ _ _)
      · exact start

/-- The last subband has its columns in common with the first and its rows with the second. -/
theorem blockCounts_last (lv : Level) (prec : Geometry) (three : lv.numBands = 3) :
    (lv.blockCounts prec 2).1 = (lv.blockCounts prec 0).1 ∧
      (lv.blockCounts prec 2).2 = (lv.blockCounts prec 1).2 := by
  simp [blockCounts, pbandCoord, offsets, three]

/-- Where the nodes of all tag trees can be counted, which `tag_tree_size` asserts, `restart`
needs code-blocks in every subband, and no fewer columns or rows of them than in the last one. -/
theorem clears_iff {lv : Level} {prec : Geometry}
    (counted : ∀ b < lv.numBands,
      tagTreeSizeLoop 33 (lv.blockCounts prec b).1 (lv.blockCounts prec b).2 0 + 1 < 2 ^ 31 - 1) :
    lv.Clears prec ↔ ∀ b < lv.numBands,
      ((lv.blockCounts prec b).1 ≠ 0 ∧ (lv.blockCounts prec b).2 ≠ 0) ∧
      (lv.blockCounts prec (lv.numBands - 1)).1 ≤ (lv.blockCounts prec b).1 ∧
      (lv.blockCounts prec (lv.numBands - 1)).2 ≤ (lv.blockCounts prec b).2 := by
  have bands := lv.numBands_cases
  have size {b : Nat} (band : b < lv.numBands) :
      tagTreeSize (lv.blockCounts prec b).1 (lv.blockCounts prec b).2 =
        tagTreeSizeLoop 33 (lv.blockCounts prec b).1 (lv.blockCounts prec b).2 0 + 1 :=
    Nat.mod_eq_of_lt (Nat.lt_trans (counted b band) (by decide))
  have blocks {b : Nat} (band : b < lv.numBands) :
      (lv.blockCounts prec b).1 * (lv.blockCounts prec b).2 < 2 ^ 31 - 1 :=
    Nat.lt_of_le_of_lt (mul_le_tagTreeSizeLoop _ _) (counted b band)
  have product {b : Nat} (band : b < lv.numBands) :
      (lv.blockCounts prec b).1 * (lv.blockCounts prec b).2 % 2 ^ 32 =
        (lv.blockCounts prec b).1 * (lv.blockCounts prec b).2 :=
    Nat.mod_eq_of_lt (Nat.lt_trans (blocks band) (by decide))
  constructor
  · intro clears
    -- `tag_tree_zero` clears at least one node, and a subband without code-blocks has none.
    have filled : ∀ b < lv.numBands, (lv.blockCounts prec b).1 ≠ 0 ∧ (lv.blockCounts prec b).2 ≠ 0 := by
      intro b band
      by_contra empty
      have nodes := (clears b band).1
      rw [size (by omega), treeNodes, if_neg empty] at nodes
      omega
    intro b band
    refine ⟨filled b band, ?_⟩
    have fewer := (clears b band).2
    rw [product (by omega), product band] at fewer
    rcases bands with one | three
    · have same : b = lv.numBands - 1 := by omega
      simp [same]
    -- The products can be compared factor by factor, as one factor is common.
    · have common := lv.blockCounts_last prec three
      have some_there := filled 2 (by omega)
      have which : b = 0 ∨ b = 1 ∨ b = 2 := by omega
      simp only [three] at fewer ⊢
      rcases which with rfl | rfl | rfl
      · rw [common.1] at fewer some_there ⊢
        exact ⟨Nat.le_refl _, Nat.le_of_mul_le_mul_left fewer (Nat.pos_of_ne_zero some_there.1)⟩
      · rw [common.2] at fewer some_there ⊢
        exact ⟨Nat.le_of_mul_le_mul_right fewer (Nat.pos_of_ne_zero some_there.2), Nat.le_refl _⟩
      · exact ⟨Nat.le_refl _, Nat.le_refl _⟩
  · intro enough b band
    obtain ⟨filled, wide, high⟩ := enough b band
    rw [treeNodes, if_pos filled, size (by omega), size band, product (by omega), product band]
    have columns := Nat.le_mul_of_pos_right (lv.blockCounts prec b).1 (Nat.pos_of_ne_zero filled.2)
    have rows := Nat.le_mul_of_pos_left (lv.blockCounts prec b).2 (Nat.pos_of_ne_zero filled.1)
    have bound := blocks band
    exact ⟨Nat.succ_le_succ (tagTreeSizeLoop_mono 33 wide high (Nat.le_refl 0) (by omega)),
      Nat.mul_le_mul wide high⟩

theorem restartLive_resolution (lv : Level) (above : Option Level) (tcp : Geometry) :
    (lv.resolution above tcp).RestartLive ↔ ∀ prec ∈ lv.precCoords tcp, lv.Clears prec := by
  simp only [Res.RestartLive, resolution, precCoords, List.forall_mem_map, List.mem_range]
  apply forall₂_congr
  intro p walked
  simp only [List.getElem?_map, List.getElem?_range walked, Option.map_some, Option.some.injEq,
    exists_eq_left', restartLive_precinct]

end Level

/-- A component has been built with all six resolutions, and all its precincts can be cleared. -/
def Component.Clears (comp : Component) (tile : Geometry) : Prop :=
  comp.levels.length = maxDwtLevel + 1 ∧
    ∀ lv ∈ comp.levels, ∀ prec ∈ lv.precCoords (comp.coord tile), lv.Clears prec

instance (comp : Component) (tile : Geometry) : Decidable (comp.Clears tile) :=
  inferInstanceAs (Decidable (_ ∧ _))

theorem Tcomp.Built.restartLive_iff {tile : Geometry} {comp : Component} {tcp : Tcomp}
    (built : tcp.Built tile comp) (few : comp.levels.length ≤ maxDwtLevel + 1) :
    tcp.RestartLive ↔ comp.Clears tile := by
  simp only [Tcomp.RestartLive, built.res, List.getElem?_mapIdx, exists_map, Level.restartLive_resolution,
    Component.Clears]
  constructor
  · intro live
    -- The last resolution that is walked over has to exist.
    have all : maxDwtLevel < comp.levels.length := by
      obtain ⟨lv, here, _⟩ := live maxDwtLevel (Nat.lt_succ_self _)
      exact (List.getElem?_eq_some_iff.mp here).1
    refine ⟨Nat.le_antisymm few all, fun lv listed => ?_⟩
    obtain ⟨r, inside, rfl⟩ := List.getElem_of_mem listed
    obtain ⟨lv, here, clears⟩ := live r (Nat.lt_of_lt_of_le inside few)
    rw [List.getElem?_eq_getElem inside] at here
    cases here
    exact clears
  · rintro ⟨all, clears⟩ r small
    have inside : r < comp.levels.length := all ▸ small
    exact ⟨comp.levels[r], List.getElem?_eq_getElem inside, clears _ (List.getElem_mem inside)⟩

/-- The tiles that `create` builds: one for every turn of its loop, but only the first if the
packet order is not supported. -/
def Plan.tileCount (plan : Plan) : Nat :=
  if ceildivUint (sub32 plan.siz.ysiz plan.siz.yTOsiz) plan.siz.yTsiz = 0 then 0
  else if plan.innerOrder.isSome then ceildivUint (sub32 plan.siz.xsiz plan.siz.xTOsiz) plan.siz.xTsiz
  else min 1 (ceildivUint (sub32 plan.siz.xsiz plan.siz.xTOsiz) plan.siz.xTsiz)

/-- All components of all tiles can be cleared by `restart`. -/
def Plan.Clears (plan : Plan) : Prop :=
  ∀ t < plan.tileCount, ∀ comp ∈ plan.comps, comp.Clears (tileAt plan.siz t)

instance (plan : Plan) : Decidable plan.Clears :=
  inferInstanceAs (Decidable (∀ t < plan.tileCount, _))

theorem createTile_fields {plan : Plan} {tile : Tile}
    (built : createTile plan numTilesX numTilesY t = some (ok, tile)) :
    tile.numComponents = plan.siz.csiz ∧ tile.crpIdx = 0 := by
  simp only [createTile] at built
  split at built
  · cases built
  · obtain ⟨tcomp, _, rest⟩ := Option.bind_eq_some_iff.mp built
    obtain ⟨order, _, same⟩ := Option.bind_eq_some_iff.mp rest
    cases order <;> cases same <;> exact ⟨rfl, rfl⟩

theorem createTile_restartLive_iff {plan : Plan} {tile : Tile}
    (turn : createTile plan numTilesX numTilesY t = some (ok, tile))
    (complete : plan.comps.length = plan.siz.csiz) :
    tile.RestartLive ↔
      ∀ comp ∈ plan.comps, comp.Clears (tileCoord plan.siz (t % numTilesX) (t / numTilesY)) := by
  have built := (createTile_built turn).tcomp
  have each {c : Nat} (here : c < plan.comps.length) (stored : c < tile.tcomp.length) :
      tile.tcomp[c].RestartLive ↔
        plan.comps[c].Clears (tileCoord plan.siz (t % numTilesX) (t / numTilesY)) :=
    ((List.forall₂_iff_get.mp built).2 c here stored).restartLive_iff
      (createTile_usable turn _ (List.getElem_mem here)).1
  have same := built.length_eq
  rw [Tile.RestartLive, (createTile_fields turn).1, ← complete]
  constructor
  · intro live comp member
    obtain ⟨c, here, rfl⟩ := List.getElem_of_mem member
    have stored : c < tile.tcomp.length := same ▸ here
    obtain ⟨tcp, found, lives⟩ := live c here
    rw [List.getElem?_eq_getElem stored] at found
    cases found
    exact (each here stored).mp lives
  · intro clears c here
    have stored : c < tile.tcomp.length := same ▸ here
    exact ⟨_, List.getElem?_eq_getElem stored, (each here stored).mpr (clears _ (List.getElem_mem here))⟩

/-- A tile succeeds exactly if the packet order is supported. -/
theorem createTile_ok {plan : Plan} {tile : Tile}
    (turn : createTile plan numTilesX numTilesY t = some (ok, tile)) : ok = plan.innerOrder.isSome := by
  have crp := (createTile_built turn).crp
  simp only [preparePrecinctStructure] at crp
  cases order : plan.innerOrder with
  | none =>
    simp only [order] at crp
    cases ok with
    | true => cases crp
    | false => rfl
  | some inner =>
    simp only [order] at crp
    split at crp
    · obtain ⟨ys, _, crp⟩ := Option.bind_eq_some_iff.mp crp
      obtain ⟨st, _, crp⟩ := Option.bind_eq_some_iff.mp crp
      cases ok with
      | true => rfl
      | false => cases crp
    · cases crp

theorem createTiles_forall₂ {plan : Plan} {ts : List Nat}
    {tiles : List Tile} (built : createTiles plan numTilesX numTilesY ts = some (ok, tiles)) :
    List.Forall₂ (fun t tile => ∃ ok', createTile plan numTilesX numTilesY t = some (ok', tile))
      (if plan.innerOrder.isSome then ts else ts.take 1) tiles := by
  induction ts generalizing ok tiles with
  | nil =>
    cases built
    split <;> exact .nil
  | cons t rest ih =>
    simp only [createTiles] at built
    split at built
    · cases built
    -- The loop stops at a tile that fails, which it has built nevertheless.
    next first =>
      cases built
      rw [← createTile_ok first]
      exact .cons ⟨_, first⟩ .nil
    next first =>
      obtain ⟨⟨ok', later⟩, others, same⟩ := Option.map_eq_some_iff.mp built
      cases same
      have all := ih others
      rw [← createTile_ok first] at all ⊢
      exact .cons ⟨_, first⟩ all

theorem Plan.tiles_forall₂ {plan : Plan} {tiles : List Tile}
    (built : plan.tiles = some (numTilesX, numTilesY, ok, tiles))
    (complete : plan.comps.length = plan.siz.csiz) :
    List.Forall₂ (fun t tile => tile.RestartLive ↔ ∀ comp ∈ plan.comps, comp.Clears (tileAt plan.siz t))
      (List.range plan.tileCount) tiles := by
  have turns (supported : Bool) (numTilesX numTilesY : Nat) :
      (if supported then List.range (if numTilesY = 0 then 0 else numTilesX)
        else (List.range (if numTilesY = 0 then 0 else numTilesX)).take 1) =
      List.range (if numTilesY = 0 then 0 else if supported then numTilesX else min 1 numTilesX) := by
    rw [List.take_range]
    split <;> split <;> rfl
  simp only [Plan.tiles] at built
  split at built
  · cases built
  · obtain ⟨⟨ok', tiles'⟩, loop, same⟩ := Option.map_eq_some_iff.mp built
    cases same
    have all := createTiles_forall₂ loop
    rw [turns] at all
    exact all.imp fun t tile made => createTile_restartLive_iff made.choose_spec complete

theorem Plan.restartLive_iff {plan : Plan} {tiles : List Tile}
    (built : plan.tiles = some (numTilesX, numTilesY, ok, tiles))
    (complete : plan.comps.length = plan.siz.csiz) :
    (∀ tile ∈ tiles, tile.RestartLive) ↔ plan.Clears := by
  have all := Plan.tiles_forall₂ built complete
  simp only [Plan.Clears, ← List.mem_range]
  clear built
  generalize List.range plan.tileCount = ts at all ⊢
  induction all with
  | nil => simp
  | cons first _ ih => simp only [List.forall_mem_cons, first, ih]

theorem TileHandler.create_restartLive_iff {h h' : TileHandler}
    (created : h.create = some (ok, h')) :
    h'.RestartLive ↔ (plan (resolveLevels h.markers)).Clears :=
  Plan.restartLive_iff (TileHandler.create_inv created).1 (by simp [plan, SizMarker.frame])

/-! ### Any sequence of main headers -/

/-- What happens to one `tile_handler`: a main header is parsed and, if it is complete, given to
`create`; or `restart` runs. -/
inductive TileOp where
  | header (s : Codestream)
  | restart

/-- The handler, and what the latest `create` was asked to build. -/
structure TileHistory where
  handler : TileHandler := {}
  latest : Option Plan := none

namespace TileHistory

def step (s : TileHistory) : TileOp → Option TileHistory
  | .header cs =>
    match parseMainHeader s.handler.markers cs with
    | none => none
    | some (sod, m, _) =>
      if sod = 0 then some { s with handler := { s.handler with markers := m } }
      else (TileHandler.create { s.handler with markers := m }).map fun r =>
        ⟨r.2, some (plan (resolveLevels m))⟩
  | .restart => some { s with handler := s.handler.restart }

def run (ops : List TileOp) : Option TileHistory := ops.foldlM step {}

/-- What `restart` finds is decided by the latest `create`. -/
def Settled (s : TileHistory) : Prop :=
  s.handler.RestartLive ↔ ∀ plan, s.latest = some plan → plan.Clears

theorem settled_step {s s' : TileHistory} {op : TileOp} (settled : s.Settled)
    (stepped : s.step op = some s') : s'.Settled := by
  cases op with
  | restart =>
    cases stepped
    exact s.handler.restartLive_restart.trans settled
  | header cs =>
    simp only [step] at stepped
    split at stepped
    · cases stepped
    -- A malformed header changes the markers and leaves the tiles.
    · split at stepped
      · cases stepped
        exact settled
      · obtain ⟨⟨ok, h'⟩, created, rfl⟩ := Option.map_eq_some_iff.mp stepped
        simp only [Settled, Option.some.injEq, forall_eq']
        have live := TileHandler.create_restartLive_iff created
        exact live

end TileHistory

/-- After any sequence of main headers and restarts, `restart` touches only what the latest
`create` has made exactly if that header has five levels for every component and, in every
precinct, no subband with fewer code-blocks than are cleared. `Level.clears_iff` puts the latter
in numbers of code-blocks. -/
theorem restart_live_iff {ops : List TileOp} {s : TileHistory} (ran : TileHistory.run ops = some s) :
    s.handler.RestartLive ↔ ∀ plan, s.latest = some plan → plan.Clears := by
  -- Before the first header there is no tile, and nothing to touch.
  have start : TileHistory.Settled {} := by simp [TileHistory.Settled, TileHandler.RestartLive]
  exact foldlM_invariant TileHistory.settled_step ops start ran

/-- A main header for an image of 32 by 32 samples, with a packet order and `nl` levels. -/
def squareHeader (order : UInt8) (nl : Nat) (types : List UInt8) : List UInt8 :=
  [0xFF, 0x4F,
   0xFF, 0x51, 0, 47, 0, 0, 0, 0, 0, 32, 0, 0, 0, 32, 0, 0, 0, 0, 0, 0, 0, 0, 0, 0, 0, 32,
     0, 0, 0, 32, 0, 0, 0, 0, 0, 0, 0, 0, 0, 3, 7, 1, 1, 7, 1, 1, 7, 1, 1,
   0xFF, 0x52, 0, UInt8.ofNat (13 + nl), 1, order, 0, 1, 0, UInt8.ofNat nl, 5, 2, 0x48, 1] ++
  List.replicate (nl + 1) 0xFF ++
  [0xFF, 0x72, 0, UInt8.ofNat (5 + types.length), 0, 0, UInt8.ofNat nl] ++ types ++ [0xFF, 0x93]

/-- A stream with five levels, after a stream whose packet order is not supported. -/
theorem restart_live_square : ∃ s,
    TileHistory.run [.header (streamOf (squareHeader 0 4 [0x55])), .restart,
      .header (streamOf (squareHeader 3 5 [0x55, 0x40])), .restart] = some s ∧
    s.handler.tiles ≠ [] ∧ s.handler.RestartLive := by
  have found : (TileHistory.run [.header (streamOf (squareHeader 0 4 [0x55])), .restart,
      .header (streamOf (squareHeader 3 5 [0x55, 0x40])), .restart]).map
        (fun s => (s.handler.tiles.isEmpty, s.latest.map fun plan => decide plan.Clears)) =
      some (false, some true) := by decide +kernel
  obtain ⟨s, ran, same⟩ := Option.map_eq_some_iff.mp found
  obtain ⟨tiles, latest⟩ := Prod.mk.inj same
  refine ⟨s, ran, by simpa using tiles, (restart_live_iff ran).mpr ?_⟩
  intro plan built
  simpa [built] using latest

/-- With four levels, `restart` walks over a sixth resolution that nothing has initialised. -/
theorem restart_beyond_levels : ∃ s,
    TileHistory.run [.header (streamOf (squareHeader 3 4 [0x55]))] = some s ∧
    s.handler.ready = true ∧ (s.handler.tiles.map fun tile => (tile.tcomp.getD 0 default).res.length) = [5] ∧
    ¬ s.handler.RestartLive := by
  have found : (TileHistory.run [.header (streamOf (squareHeader 3 4 [0x55]))]).map
      (fun s => (s.handler.ready, s.handler.tiles.map fun tile =>
        (tile.numComponents, (tile.tcomp.getD 0 default).res.length))) =
      some (true, [(3, 5)]) := by decide +kernel
  obtain ⟨s, ran, same⟩ := Option.map_eq_some_iff.mp found
  obtain ⟨ready, tiles⟩ := Prod.mk.inj same
  obtain ⟨tile, only, shape⟩ := List.map_eq_singleton_iff.mp tiles
  obtain ⟨components, levels⟩ := Prod.mk.inj shape
  refine ⟨s, ran, ready, by rw [only, List.map_singleton, levels], fun live => ?_⟩
  obtain ⟨tcp, first, walked⟩ := live tile (only ▸ List.mem_singleton.mpr rfl) 0 (by omega)
  obtain ⟨res, sixth, _⟩ := walked 5 (by decide)
  rw [List.getD_eq_getElem?_getD, first, Option.getD_some] at levels
  have inside := (List.getElem?_eq_some_iff.mp sixth).1
  omega

end RtpDecoder.Parser
