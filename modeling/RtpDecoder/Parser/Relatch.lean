import RtpDecoder.Parser.Leftover

/-!
# Latching a second stream

A tile handler that has processed one main header and is invalidated processes a second
one. The precinct structure it builds is compared with the one that a new handler builds
from the second header alone. The one entry that gets in the way for a well-ordered header
is `dfs.type[NL + 1]`: it is read at resolution 0, but a DFS with `NL` levels does not
write it.
-/

namespace RtpDecoder.Parser

open Header

variable {numTilesX numTilesY : Nat} {ok : Bool} {tiles : List Tile}

/-! ### The same header on two handlers -/

namespace Agree

variable {l : Leftover} {m n : Markers}

private theorem stepPlaces_congr {f g : Nat → Nat} {nl : Nat}
    (same : ∀ i, 1 ≤ i → i ≤ nl → f i = g i) : stepPlaces nl f = stepPlaces nl g := by
  have level : ∀ k ∈ List.range nl,
      (if f (k + 1) = both then [3 * k + 1, 3 * k + 2, 3 * k + 3] else [3 * k + 1]) =
        if g (k + 1) = both then [3 * k + 1, 3 * k + 2, 3 * k + 3] else [3 * k + 1] := by
    intro k listed
    have bound := List.mem_range.mp listed
    rw [same (k + 1) (by omega) (by omega)]
  simp only [stepPlaces, List.flatMap_def, List.map_congr_left level]

/-- A segment that no left-over entry steers is read alike. -/
theorem parseSegment (agree : Agree l m n) (marker : Nat) (free : l.steers m marker = false) :
    Header.parseSegment m marker = Header.parseSegment n marker := by
  have rsiz : marker = MarkerCode.cod ∨ marker = MarkerCode.coc → m.siz.rsiz = n.siz.rsiz := by
    intro style
    rw [Leftover.steers, if_pos style] at free
    have same : m.siz.frame.rsiz = n.siz.frame.rsiz := by rw [agree.frame free]
    exact same
  have steps : marker = MarkerCode.qcd →
      parseQCD m.cod.nl (entry m.dfs.type) = parseQCD n.cod.nl (entry n.dfs.type) := by
    intro quant
    have other : ¬ (marker = MarkerCode.cod ∨ marker = MarkerCode.coc) := by
      rw [quant]
      decide
    rw [Leftover.steers, if_neg other, if_pos quant, Bool.or_eq_false_iff] at free
    have types : ∀ i, 1 ≤ i → i ≤ max 1 m.cod.nl → entry m.dfs.type i = entry n.dfs.type i := by
      intro i least most
      rw [← agree.type i]
      have clean := List.any_eq_false.mp free.2 (i - 1) (List.mem_range.mpr (by omega))
      rw [Nat.sub_add_cancel least] at clean
      simpa using clean
    have places : ∀ q : Nat, stepPlaces (if q = 1 then 1 else m.cod.nl) (entry m.dfs.type) =
        stepPlaces (if q = 1 then 1 else m.cod.nl) (entry n.dfs.type) := by
      intro q
      apply stepPlaces_congr
      intro i least most
      refine types i least (Nat.le_trans most ?_)
      split <;> omega
    rw [← agree.codNL free.1]
    simp only [parseQCD, places]
  -- No other segment is read by way of the structs.
  simp only [Header.parseSegment]
  by_cases cod : marker = MarkerCode.cod
  · rw [rsiz (Or.inl cod)]
    simp [cod, MarkerCode.cod]
  · by_cases coc : marker = MarkerCode.coc
    · rw [rsiz (Or.inr coc)]
      simp [coc, MarkerCode.coc, MarkerCode.qcd]
    · by_cases qcd : marker = MarkerCode.qcd
      · rw [steps qcd]
        simp [cod, coc]
      · simp only [cod, coc, qcd, if_false]

/-- The scan of a header finds SOD at the same place, and leaves structs that agree. -/
theorem scanMarkers (fuel : Nat) (agree : Agree l m n) (s : Codestream) {left : Leftover}
    {m' : Markers} {t : Codestream} (kept : Leftover.survey fuel l m s = some left)
    (scanned : Header.scanMarkers fuel m s = some (true, m', t)) :
    ∃ n', Header.scanMarkers fuel n s = some (true, n', t) ∧ Agree left m' n' := by
  induction fuel generalizing l m n s with
  | zero => cases scanned
  | succ fuel ih =>
    simp only [Leftover.survey] at kept
    simp only [Header.scanMarkers] at scanned ⊢
    split at scanned
    next sod =>
      rw [if_pos sod] at kept ⊢
      cases scanned
      cases kept
      exact ⟨n, rfl, agree⟩
    next more =>
      rw [if_neg more] at kept ⊢
      split at scanned
      · cases scanned
      next legal =>
        rw [if_neg legal]
        split at kept
        · cases kept
        -- Nothing that is left over steers the segment, so both read it alike.
        next free =>
          rw [← agree.parseSegment _ (Bool.not_eq_true _ ▸ free)]
          split at scanned
          · cases scanned
          next seg u read =>
            rw [read] at kept
            exact ih (agree.store seg) u kept scanned

end Agree

/-- What a used handler has left after a second header, which a new handler can read. -/
def leftAfter (m : Markers) (s : Codestream) : Option Leftover :=
  Leftover.survey (s.getWord.2.remaining + 1) (.ofMarkers m) {} s.getWord.2

private theorem parseMainHeader_agree {m m' : Markers} {s t : Codestream} {sod : BitVec 32}
    {left : Leftover} (kept : leftAfter m s = some left)
    (parsed : parseMainHeader {} s = some (sod, m', t)) (found : sod ≠ 0) :
    ∃ n', parseMainHeader m s = some (sod, n', t) ∧ Agree left m' n' := by
  simp only [parseMainHeader] at parsed ⊢
  split at parsed
  · cases parsed
    exact absurd rfl found
  next soc =>
    rw [if_neg soc]
    split at parsed
    · cases parsed
    next ok m'' t' scanned =>
      cases parsed
      -- Without SOD the offset would be 0.
      cases ok with
      | false => exact absurd rfl found
      | true =>
        obtain ⟨n', again, agree⟩ := (Agree.fresh m).scanMarkers _ _ kept scanned
        rw [again]
        exact ⟨n', rfl, agree⟩

/-! ### The same plan -/

/-- No left-over entry but a type of the DFS is read by `create`; `m` are the structs of the
new handler afterwards. -/
def Leftover.Harmless (l : Leftover) (m : Markers) : Prop :=
  l.frame = false ∧ l.sampling = false ∧ l.order = false ∧ l.idfs = false ∧
    ∀ c < maxNumComponents, l.style c = false ∧
      ∀ i ≤ (m.coc c).nl, l.prec c i = false ∧ l.depth i = false

instance (l : Leftover) (m : Markers) : Decidable (l.Harmless m) :=
  inferInstanceAs (Decidable (_ ∧ _ ∧ _ ∧ _ ∧ _))

/-- No type of the DFS that `create` reads is left over. -/
def Leftover.TypesClean (l : Leftover) (m : Markers) : Prop :=
  ∀ c < m.siz.csiz, ∀ r ≤ (m.coc c).nl, l.type ((m.coc c).nl - r + 1) = false

instance (l : Leftover) (m : Markers) : Decidable (l.TypesClean m) :=
  inferInstanceAs (Decidable (∀ c < _, _))

namespace Agree

variable {l : Leftover} {m n : Markers}

private theorem csiz (agree : Agree l m n) (clean : l.frame = false) : m.siz.csiz = n.siz.csiz := by
  have same : m.siz.frame.csiz = n.siz.frame.csiz := by rw [agree.frame clean]
  exact same

private theorem resolve (agree : Agree l m n) (frame : l.frame = false) (idfs : l.idfs = false) :
    Agree l (resolveLevels m) (resolveLevels n) := by
  have order : ∀ k : Markers,
      ((resolveLevels k).coc 0).progressionOrder = (k.coc 0).progressionOrder := by
    intro k
    rw [coc_resolveLevels]
    split <;> rfl
  have sizes : ∀ (k : Markers) (c : Nat), ((resolveLevels k).coc c).prw = (k.coc c).prw ∧
      ((resolveLevels k).coc c).prh = (k.coc c).prh := by
    intro k c
    rw [coc_resolveLevels]
    split <;> exact ⟨rfl, rfl⟩
  refine { agree with order := ?_, style := ?_, prec := ?_ }
  · intro clean
    rw [order, order]
    exact agree.order clean
  · intro c clean
    obtain ⟨nl, cbw, cbh⟩ := agree.style c clean
    rw [coc_resolveLevels, coc_resolveLevels, ← agree.csiz frame, ← nl, ← agree.idfs idfs]
    split
    · exact ⟨rfl, cbw, cbh⟩
    · exact ⟨nl, cbw, cbh⟩
  · intro c i clean
    rw [(sizes m c).1, (sizes m c).2, (sizes n c).1, (sizes n c).2]
    exact agree.prec c i clean

private theorem level (agree : Agree l m n) (harmless : l.Harmless m) {c r : Nat}
    (inside : c < maxNumComponents) (real : r ≤ (m.coc c).nl) :
    level (n.coc c) n.dfs r =
      { level (m.coc c) m.dfs r with type := entry n.dfs.type ((m.coc c).nl - r + 1) } := by
  obtain ⟨_, _, _, _, comps⟩ := harmless
  obtain ⟨style, entries⟩ := comps c inside
  obtain ⟨nl, cbw, cbh⟩ := agree.style c style
  obtain ⟨prw, prh⟩ := agree.prec c r (entries r real).1
  obtain ⟨hor, ver⟩ := agree.depth _ (entries ((m.coc c).nl - r) (Nat.sub_le _ _)).2
  simp only [Parser.level, ← nl, cbw, cbh, prw, prh, hor, ver]

/-- A resolution that reads no left-over type is the same on both sides, and all of them
have the same place in the packet order. -/
private theorem levels (agree : Agree l m n) (harmless : l.Harmless m) {c : Nat}
    (inside : c < maxNumComponents) :
    (levels (m.coc c) m.dfs).map Level.toGrid = (levels (n.coc c) n.dfs).map Level.toGrid ∧
      ((∀ r ≤ (m.coc c).nl, l.type ((m.coc c).nl - r + 1) = false) →
        levels (m.coc c) m.dfs = levels (n.coc c) n.dfs) := by
  obtain ⟨nl, _, _⟩ := agree.style c (harmless.2.2.2.2 c inside).1
  have real : ∀ r ∈ List.range ((m.coc c).nl + 1), r ≤ (m.coc c).nl := fun r listed =>
    Nat.le_of_lt_succ (List.mem_range.mp listed)
  simp only [Parser.levels, ← nl, List.map_map]
  constructor
  · apply List.map_congr_left
    intro r listed
    simp only [Function.comp_apply, agree.level harmless inside (real r listed)]
  · intro clean
    apply List.map_congr_left
    intro r listed
    rw [agree.level harmless inside (real r listed), ← (agree.type _).mp (clean r (real r listed))]
    rfl

private theorem plan (agree : Agree l m n) (harmless : l.Harmless m)
    (few : m.siz.csiz ≤ maxNumComponents) (clean : l.TypesClean m) : plan m = plan n := by
  have ⟨frame, sampling, order, _, _⟩ := harmless
  have comps : ∀ c ∈ List.range m.siz.csiz,
      (⟨entry m.siz.xRsiz c, entry m.siz.yRsiz c, Parser.levels (m.coc c) m.dfs⟩ : Component) =
        ⟨entry n.siz.xRsiz c, entry n.siz.yRsiz c, Parser.levels (n.coc c) n.dfs⟩ := by
    intro c listed
    have inside := List.mem_range.mp listed
    rw [(agree.sampling sampling c).1, (agree.sampling sampling c).2,
      (agree.levels harmless (Nat.lt_of_lt_of_le inside few)).2 (clean c inside)]
  have grids : ∀ c ∈ List.range maxNumComponents,
      (Parser.levels (m.coc c) m.dfs).map Level.toGrid =
        (Parser.levels (n.coc c) n.dfs).map Level.toGrid := by
    intro c listed
    exact (agree.levels harmless (List.mem_range.mp listed)).1
  simp only [Parser.plan, agree.frame frame, agree.order order, ← agree.csiz frame,
    List.map_congr_left comps, List.map_congr_left grids]

end Agree

/-! ### Tiles -/

private theorem Tcomp.Built.types {coord : Geometry} {comp : Component} {tcp : Tcomp}
    (built : tcp.Built coord comp) :
    tcp.res.map Res.transformDirection = comp.levels.map Level.type := by
  rw [built.res]
  apply List.ext_getElem?
  intro r
  simp only [List.getElem?_map, List.getElem?_mapIdx, Option.map_map]
  rfl

private theorem Tile.Built.types {plan : Plan} {coord : Geometry} {tile : Tile}
    (built : tile.Built plan coord ok) :
    tile.tcomp.map (fun tcp => tcp.res.map Res.transformDirection) =
      plan.comps.map fun comp => comp.levels.map Level.type := by
  have each := built.tcomp
  generalize tile.tcomp = tcomp, plan.comps = comps at each
  induction each with
  | nil => rfl
  | cons first _ ih => rw [List.map_cons, List.map_cons, first.types, ih]

/-- A plan with tiles has its types in the first one. -/
private theorem Plan.tiles_types {plan : Plan}
    (built : plan.tiles = some (numTilesX, numTilesY, ok, tiles)) (columns : numTilesX ≠ 0)
    (rows : numTilesY ≠ 0) :
    plan.siz.csiz ≤ maxNumComponents ∧ ∃ tile rest, tiles = tile :: rest ∧
      tile.tcomp.map (fun tcp => tcp.res.map Res.transformDirection) =
        plan.comps.map fun comp => comp.levels.map Level.type := by
  simp only [Plan.tiles] at built
  split at built
  · cases built
  · obtain ⟨r, loop, same⟩ := Option.map_eq_some_iff.mp built
    cases same
    -- There is a row and a column, so the loop has a first turn.
    obtain ⟨k, succ⟩ := Nat.exists_eq_succ_of_ne_zero columns
    rw [if_neg rows, succ, List.range_succ_eq_map, createTiles, ← succ] at loop
    split at loop
    · cases loop
    next first =>
      cases loop
      exact ⟨(createTile_built first).room, _, _, rfl, (createTile_built first).types⟩
    next first =>
      obtain ⟨r', _, same⟩ := Option.map_eq_some_iff.mp loop
      cases same
      exact ⟨(createTile_built first).room, _, _, rfl, (createTile_built first).types⟩

/-- A plan without tiles builds nothing else. -/
private theorem Plan.tiles_nil {plan plan' : Plan}
    (same : plan'.siz = plan.siz)
    (built : plan.tiles = some (numTilesX, numTilesY, ok, tiles))
    (bare : numTilesX = 0 ∨ numTilesY = 0) :
    tiles = [] ∧ plan'.tiles = some (numTilesX, numTilesY, true, []) := by
  simp only [Plan.tiles, same] at built ⊢
  split at built
  · cases built
  next sized =>
    obtain ⟨r, loop, eq⟩ := Option.map_eq_some_iff.mp built
    cases eq
    have empty : ∀ x y : Nat, x = 0 ∨ y = 0 → List.range (if y = 0 then 0 else x) = [] := by
      intro x y bare
      split
      · rfl
      · rw [bare.resolve_right ‹_›]
        rfl
    rw [empty _ _ bare] at loop ⊢
    cases loop
    rw [if_neg sized]
    exact ⟨rfl, rfl⟩

private theorem Plan.numTiles_eq {plan plan' : Plan}
    {numTilesX' numTilesY' : Nat} {ok' : Bool} {tiles' : List Tile}
    (same : plan'.siz = plan.siz)
    (built : plan.tiles = some (numTilesX, numTilesY, ok, tiles))
    (built' : plan'.tiles = some (numTilesX', numTilesY', ok', tiles')) :
    numTilesX = numTilesX' ∧ numTilesY = numTilesY' := by
  simp only [Plan.tiles, same] at built built'
  split at built
  · cases built
  next sized =>
    rw [if_neg sized] at built'
    obtain ⟨r, _, eq⟩ := Option.map_eq_some_iff.mp built
    obtain ⟨r', _, eq'⟩ := Option.map_eq_some_iff.mp built'
    cases eq
    cases eq'
    exact ⟨rfl, rfl⟩

/-! ### Latching -/

namespace TileHandler

private theorem create_of_tiles {h : TileHandler}
    (built : (plan (resolveLevels h.markers)).tiles = some (numTilesX, numTilesY, ok, tiles)) :
    ∃ h', h.create = some (ok, h') ∧ h'.tiles = tiles := by
  refine ⟨_, Option.map_eq_some_iff.mpr ⟨_, built, rfl⟩, rfl⟩

private theorem latch_inv {h h' : TileHandler} {s : Codestream} (latched : h.latch s = some (true, h')) :
    ∃ sod m t, parseMainHeader h.markers s = some (sod, m, t) ∧ sod ≠ 0 ∧
      { h with markers := m }.create = some (true, h') := by
  simp only [latch] at latched
  split at latched
  · cases latched
  next sod m t parsed =>
    split at latched
    · cases latched
    next found => exact ⟨sod, m, t, parsed, found, latched⟩

end TileHandler

/-! ### Live structure -/

/-- What is compared of a resolution: the code-block counts are those of its precincts. -/
structure ResShape where
  transformDirection : Nat
  numBands : Nat
  npw : Nat
  nph : Nat
  blocks : List (Nat × Nat)
deriving DecidableEq, Repr

/-- What is compared of a tile: the resolutions of each component, up to its `NL`, and the
packet order. -/
structure TileShape where
  comps : List (List ResShape)
  crp : List Crp
deriving DecidableEq, Repr

def Res.shape (res : Res) : ResShape where
  transformDirection := res.transformDirection
  numBands := res.numBands
  npw := res.npw
  nph := res.nph
  blocks := res.prec.map fun prec => (prec.ncbw, prec.ncbh)

/-- The live precinct structure of a handler. -/
def TileHandler.shape (h : TileHandler) : List TileShape :=
  h.tiles.map fun tile => ⟨tile.tcomp.map fun tcp => tcp.res.map Res.shape, tile.crp⟩

private theorem directions_of_shape {h h' : TileHandler} {tile tile' : Tile} {rest rest' : List Tile}
    (same : h.shape = h'.shape) (first : h.tiles = tile :: rest) (first' : h'.tiles = tile' :: rest') :
    tile.tcomp.map (fun tcp => tcp.res.map Res.transformDirection) =
      tile'.tcomp.map fun tcp => tcp.res.map Res.transformDirection := by
  simp only [TileHandler.shape, first, first', List.map_cons, List.cons.injEq, TileShape.mk.injEq]
    at same
  have directions := congrArg (List.map (List.map ResShape.transformDirection)) same.1.1
  simp only [List.map_map, Function.comp_def] at directions
  exact directions

/-- The types of a component that agree on both sides are those that are not left over. -/
private theorem types_of_plan {l : Leftover} {m n : Markers} (agree : Agree l m n)
    (harmless : l.Harmless m) (few : m.siz.csiz ≤ maxNumComponents)
    (same : ((plan m).comps.map fun comp => comp.levels.map Level.type) =
      (plan n).comps.map fun comp => comp.levels.map Level.type) : l.TypesClean m := by
  intro c inside r real
  have within : c < maxNumComponents := Nat.lt_of_lt_of_le inside few
  obtain ⟨nl, _, _⟩ := agree.style c (harmless.2.2.2.2 c within).1
  have listed : r < (m.coc c).nl + 1 := Nat.lt_succ_of_le real
  simp only [plan, levels, List.map_map, ← agree.csiz harmless.1] at same
  have comp := (List.map_inj_left.mp same) c (List.mem_range.mpr inside)
  simp only [Function.comp_apply, ← nl, List.map_map] at comp
  have type := (List.map_inj_left.mp comp) r (List.mem_range.mpr listed)
  simp only [Function.comp_apply, level, ← nl] at type
  exact (agree.type _).mpr type

/-- The handler `first`, invalidated, builds from the header the structure of `second`. -/
def TileHandler.RelatchesAs (first second : TileHandler) (s : Codestream) : Prop :=
  ∃ again, first.invalidate.latch s = some (true, again) ∧ again.shape = second.shape

/-- Nothing that the stream of `first` has left behind gets in the way of the header: no left-over
entry steers how it is read, and `create` reads none of them, or there are no tiles to read types
for. -/
def TileHandler.Unspoilt (first second : TileHandler) (s : Codestream) : Prop :=
  ∃ left, leftAfter first.markers s = some left ∧ left.Harmless second.markers ∧
    (second.numTilesX = 0 ∨ second.numTilesY = 0 ∨ left.TypesClean second.markers)

private theorem relatchesAs_iff {s₂ : Codestream} {first second : TileHandler} {left : Leftover}
    (accepted₂ : TileHandler.latch {} s₂ = some (true, second))
    (kept : leftAfter first.markers s₂ = some left) (harmless : left.Harmless second.markers) :
    first.RelatchesAs second s₂ ↔
      second.numTilesX = 0 ∨ second.numTilesY = 0 ∨ left.TypesClean second.markers := by
  rw [TileHandler.RelatchesAs]
  obtain ⟨sod, m, t, parsed, found, created⟩ := TileHandler.latch_inv accepted₂
  obtain ⟨built, resolved⟩ := TileHandler.create_inv created
  -- Read again on the used handler, the second header leaves structs that agree.
  obtain ⟨n, reparsed, agree⟩ := parseMainHeader_agree kept parsed found
  have latched : first.invalidate.latch s₂ = { first.invalidate with markers := n }.create := by
    have header : parseMainHeader first.invalidate.markers s₂ = some (sod, n, t) := reparsed
    simp only [TileHandler.latch, header, found, if_false]
  have agree' := agree.resolve harmless.1 harmless.2.2.2.1
  have siz : (plan (resolveLevels n)).siz = (plan (resolveLevels m)).siz :=
    (agree'.frame harmless.1).symm
  rw [latched]
  by_cases bare : second.numTilesX = 0 ∨ second.numTilesY = 0
  · -- No tiles: both structures are empty.
    obtain ⟨none_new, built'⟩ := Plan.tiles_nil siz built bare
    obtain ⟨again, created', none_again⟩ :=
      TileHandler.create_of_tiles (h := { first.invalidate with markers := n }) built'
    constructor
    · rintro _
      exact bare.elim Or.inl fun rows => Or.inr (Or.inl rows)
    · rintro _
      refine ⟨again, created', ?_⟩
      rw [TileHandler.shape, TileHandler.shape, none_new, none_again]
  · have columns : second.numTilesX ≠ 0 := fun zero => bare (Or.inl zero)
    have rows : second.numTilesY ≠ 0 := fun zero => bare (Or.inr zero)
    obtain ⟨few, tile, rest, tiles, types⟩ := Plan.tiles_types built columns rows
    have markers := resolved (by rw [tiles]; exact List.cons_ne_nil _ _)
    simp only [columns, rows, false_or]
    rw [markers] at harmless ⊢
    constructor
    · rintro ⟨again, created', same⟩
      -- Equal structures have equal directions, which are the types that were planned.
      obtain ⟨built', _⟩ := TileHandler.create_inv created'
      obtain ⟨columns', rows'⟩ := Plan.numTiles_eq siz built built'
      obtain ⟨_, tile', rest', tiles', types'⟩ :=
        Plan.tiles_types built' (columns' ▸ columns) (rows' ▸ rows)
      apply types_of_plan agree' harmless few
      rw [← types, ← types']
      exact directions_of_shape same.symm tiles tiles'
    · intro clean
      -- With no type left over, the two plans are the same.
      rw [agree'.plan harmless few clean] at built
      obtain ⟨again, created', tiles'⟩ :=
        TileHandler.create_of_tiles (h := { first.invalidate with markers := n }) built
      refine ⟨again, created', ?_⟩
      rw [TileHandler.shape, TileHandler.shape, tiles']

end RtpDecoder.Parser
