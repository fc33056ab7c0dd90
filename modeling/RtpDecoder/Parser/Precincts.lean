import RtpDecoder.Header.Usable
import RtpDecoder.Parser.Coverage

/-!
# Whether every precinct comes once

A resolution has as many packets in the order as the loops find columns and rows on its
grid (`count_crp`), and as many precincts as `parepare_tcomp_structure` counts in each
direction. Here both numbers are taken from the marker structs and compared.
-/

namespace RtpDecoder.Parser

open Header

/-! ### One direction -/

/-- One direction of a resolution as the header gives it: the borders of the tile, the
sampling of the component, the splits below the resolution and its precinct exponent. -/
structure Axis where
  lo : Int
  hi : Int
  sub : Nat
  depth : Nat
  pr : Nat
deriving DecidableEq, Repr

namespace Axis

/-- A border of the tile on the scale of the resolution. -/
def scaled (axis : Axis) (z : Int) : Int := ceildivInt (ceildivInt z axis.sub) (2 ^ axis.depth)

def precincts (axis : Axis) : Nat :=
  Level.precinctCount (axis.scaled axis.lo) (axis.scaled axis.hi) (2 ^ axis.pr)

/-- The lines that a loop over the tile with this step finds. -/
def lines (axis : Axis) (step : Nat) : Nat :=
  gridLines (uint32 axis.lo) (uint32 axis.hi) step (axis.sub * 2 ^ (axis.pr + axis.depth)) axis.pr
    (uint32 (axis.scaled axis.lo))

end Axis

/-- The two directions of resolution `r` of component `c`, in tile `t`. -/
def xAxis (m : Markers) (t c r : Nat) : Axis where
  lo := (tileAt m.siz t).x0
  hi := (tileAt m.siz t).x1
  sub := entry m.siz.xRsiz c
  depth := entry m.dfs.horDepth ((m.coc c).nl - r)
  pr := entry (m.coc c).prw r

def yAxis (m : Markers) (t c r : Nat) : Axis where
  lo := (tileAt m.siz t).y0
  hi := (tileAt m.siz t).y1
  sub := entry m.siz.yRsiz c
  depth := entry m.dfs.verDepth ((m.coc c).nl - r)
  pr := entry (m.coc c).prh r

/-- The loops find as many positions on the grid of a resolution as it has precincts, and
their numbers fit into 16 bits. -/
def Matched (m : Markers) (t c r : Nat) : Prop :=
  let x := xAxis m t c r
  let y := yAxis m t c r
  x.lines (2 ^ (plan m).stepExpX) * y.lines (2 ^ (plan m).stepExpY) = x.precincts * y.precincts ∧
    x.precincts * y.precincts ≤ 2 ^ 16

instance (m : Markers) (t c r : Nat) : Decidable (Matched m t c r) :=
  inferInstanceAs (Decidable (_ ∧ _))

/-! ### Without overflow -/

theorem ceildivInt_eq {a b : Nat} (pos : 0 < b) (room : a + b ≤ 2 ^ 31) : ceildivInt a b = (a ⌈/⌉ b : Nat) := by
  have sum : (a : Int) + (b - 1) = ((a + b - 1 : Nat) : Int) := by omega
  have small : int32 ((a + b - 1 : Nat) : Int) = ((a + b - 1 : Nat) : Int) := by
    apply Int.bmod_eq_of_le <;> omega
  rw [ceildivInt, sum, small, Nat.ceilDiv_eq_add_pred_div]
  rfl

theorem uint32_of_lt {a : Nat} (small : a < 2 ^ 32) : uint32 a = a := by
  simp only [uint32]
  omega

namespace Axis

/-- The samples of the reference grid to one of the resolution. -/
def unit (axis : Axis) : Nat := axis.sub * 2 ^ axis.depth

/-- The range in which nothing overflows. -/
structure Ordinary (axis : Axis) (lo hi : Nat) : Prop where
  low : axis.lo = lo
  high : axis.hi = hi
  nonempty : lo < hi
  sampled : 0 < axis.sub
  room : hi + axis.sub ≤ 2 ^ 31 ∧ hi + 2 ^ axis.depth ≤ 2 ^ 31 ∧ hi + 2 ^ axis.pr ≤ 2 ^ 31

instance (axis : Axis) (lo hi : Nat) : Decidable (axis.Ordinary lo hi) :=
  decidable_of_iff (axis.lo = lo ∧ axis.hi = hi ∧ lo < hi ∧ 0 < axis.sub ∧
      hi + axis.sub ≤ 2 ^ 31 ∧ hi + 2 ^ axis.depth ≤ 2 ^ 31 ∧ hi + 2 ^ axis.pr ≤ 2 ^ 31)
    ⟨fun ⟨low, high, nonempty, sampled, room⟩ => ⟨low, high, nonempty, sampled, room⟩,
      fun ordinary => ⟨ordinary.low, ordinary.high, ordinary.nonempty, ordinary.sampled, ordinary.room⟩⟩

namespace Ordinary

variable {axis : Axis} {lo hi : Nat} (ordinary : axis.Ordinary lo hi)

include ordinary

private theorem unit_pos : 0 < axis.unit := Nat.mul_pos ordinary.sampled (Nat.two_pow_pos _)

private theorem scaled_eq {z : Nat} (inside : z ≤ hi) : axis.scaled z = (z ⌈/⌉ axis.unit : Nat) := by
  obtain ⟨sub, depth, _⟩ := ordinary.room
  have smaller : z ⌈/⌉ axis.sub ≤ z := ceilDiv_le_self ordinary.sampled z
  have power : (2 : Int) ^ axis.depth = ((2 ^ axis.depth : Nat) : Int) := by simp
  rw [scaled, ceildivInt_eq ordinary.sampled (by omega), power,
    ceildivInt_eq (Nat.two_pow_pos _) (by omega), ceilDiv_ceilDiv ordinary.sampled (Nat.two_pow_pos _)]
  rfl

private theorem start : axis.scaled axis.lo = (lo ⌈/⌉ axis.unit : Nat) :=
  ordinary.low ▸ ordinary.scaled_eq (Nat.le_of_lt ordinary.nonempty)

private theorem stop : axis.scaled axis.hi = (hi ⌈/⌉ axis.unit : Nat) :=
  ordinary.high ▸ ordinary.scaled_eq (Nat.le_refl hi)

private theorem precincts_eq :
    axis.precincts = if lo ⌈/⌉ axis.unit < hi ⌈/⌉ axis.unit then
      hi ⌈/⌉ axis.unit ⌈/⌉ 2 ^ axis.pr - lo ⌈/⌉ axis.unit / 2 ^ axis.pr else 0 := by
  obtain ⟨_, _, room⟩ := ordinary.room
  have positive := Nat.two_pow_pos axis.pr
  have behind : hi ⌈/⌉ axis.unit ≤ hi := ceilDiv_le_self ordinary.unit_pos hi
  have borders := ceilDiv_le_self positive (hi ⌈/⌉ axis.unit)
  rw [precincts, ordinary.start, ordinary.stop]
  generalize lo ⌈/⌉ axis.unit = first, hi ⌈/⌉ axis.unit = last at behind borders
  have quotient : (first : Int).tdiv ((2 ^ axis.pr : Nat) : Int) = (first / 2 ^ axis.pr : Nat) := rfl
  rw [Level.precinctCount, ceildivInt_eq positive (by omega), quotient]
  simp only [Int.ofNat_lt]
  split
  next filled =>
    have below : first / 2 ^ axis.pr ≤ last ⌈/⌉ 2 ^ axis.pr :=
      Nat.le_trans (Nat.div_le_div_right (Nat.le_of_lt filled)) (by rw [ceilDiv_eq_div positive]; omega)
    rw [← Int.ofNat_sub below, uint32_of_lt (Nat.lt_of_le_of_lt (Nat.sub_le _ _) (by omega))]
  · rfl

private theorem lines_eq (step : Nat) :
    axis.lines step =
      (if step ∣ lo then hi ⌈/⌉ axis.unit ⌈/⌉ 2 ^ axis.pr - lo ⌈/⌉ axis.unit ⌈/⌉ 2 ^ axis.pr else 0) +
        if 2 ^ axis.pr ∣ lo ⌈/⌉ axis.unit then 0 else 1 := by
  obtain ⟨room, _, _⟩ := ordinary.room
  have less := ordinary.nonempty
  have first := ceilDiv_le_self ordinary.unit_pos lo
  have grid : axis.sub * 2 ^ (axis.pr + axis.depth) = axis.unit * 2 ^ axis.pr := by
    rw [unit, Nat.mul_assoc, ← Nat.pow_add, Nat.add_comm]
  -- A tile that starts on the grid of the resolution starts with a precinct.
  have aligned (whole : axis.unit * 2 ^ axis.pr ∣ lo) : 2 ^ axis.pr ∣ lo ⌈/⌉ axis.unit := by
    obtain ⟨k, rfl⟩ := whole
    refine ⟨k, ?_⟩
    rw [Nat.mul_assoc, ← smul_eq_mul, smul_ceilDiv ordinary.unit_pos]
  have edge : (lo < hi ∧ ¬ axis.unit * 2 ^ axis.pr ∣ lo ∧ ¬ 2 ^ axis.pr ∣ lo ⌈/⌉ axis.unit) ↔
      ¬ 2 ^ axis.pr ∣ lo ⌈/⌉ axis.unit :=
    ⟨fun all => all.2.2, fun off => ⟨less, fun whole => off (aligned whole), off⟩⟩
  rw [lines, gridLines, ordinary.start, ordinary.low, ordinary.high, uint32_of_lt (by omega),
    uint32_of_lt (by omega), uint32_of_lt (by omega), grid,
    ceilDiv_ceilDiv ordinary.unit_pos (Nat.two_pow_pos _),
    ceilDiv_ceilDiv ordinary.unit_pos (Nat.two_pow_pos _)]
  simp only [edge, ite_not]

/-- The lines are the precincts unless the loop steps over borders of precincts, or the
resolution is empty and starts inside a precinct. -/
theorem lines_eq_precincts_iff (step : Nat) : let first := lo ⌈/⌉ axis.unit
    let last := hi ⌈/⌉ axis.unit
    axis.lines step = axis.precincts ↔
      (step ∣ lo ∨ first ⌈/⌉ 2 ^ axis.pr = last ⌈/⌉ 2 ^ axis.pr) ∧
        (first < last ∨ 2 ^ axis.pr ∣ first) := by
  intro first last
  have ordered : first ≤ last := ceilDiv_le_ceilDiv (Nat.le_of_lt ordinary.nonempty) _
  rw [ordinary.lines_eq step, ordinary.precincts_eq]
  change (if step ∣ lo then last ⌈/⌉ 2 ^ axis.pr - first ⌈/⌉ 2 ^ axis.pr else 0) +
    (if 2 ^ axis.pr ∣ first then 0 else 1) =
      (if first < last then last ⌈/⌉ 2 ^ axis.pr - first / 2 ^ axis.pr else 0) ↔ _
  generalize first = a, last = b at ordered
  have borders : a ⌈/⌉ 2 ^ axis.pr ≤ b ⌈/⌉ 2 ^ axis.pr := ceilDiv_le_ceilDiv ordered _
  have floor := ceilDiv_eq_div (a := a) (Nat.two_pow_pos axis.pr)
  rcases Nat.lt_or_eq_of_le ordered with filled | rfl
  · simp only [filled, if_true, true_or, and_true]
    by_cases aligned : step ∣ lo
    · simp only [aligned, if_true, true_or, iff_true]
      omega
    · simp only [aligned, if_false, false_or]
      omega
  · simp

end Ordinary

end Axis

/-- A tile that starts at a multiple of the smallest precinct has each precinct once, as long
as no resolution is empty and the precincts are not too many. -/
theorem matched_of_aligned {m : Markers} {t c r x0 x1 y0 y1 : Nat} (x : (xAxis m t c r).Ordinary x0 x1)
    (y : (yAxis m t c r).Ordinary y0 y1) (left : 2 ^ (plan m).stepExpX ∣ x0)
    (top : 2 ^ (plan m).stepExpY ∣ y0)
    (wide : x0 ⌈/⌉ (xAxis m t c r).unit < x1 ⌈/⌉ (xAxis m t c r).unit)
    (tall : y0 ⌈/⌉ (yAxis m t c r).unit < y1 ⌈/⌉ (yAxis m t c r).unit)
    (few : (xAxis m t c r).precincts * (yAxis m t c r).precincts ≤ 2 ^ 16) : Matched m t c r := by
  have columns := (x.lines_eq_precincts_iff _).mpr ⟨.inl left, .inl wide⟩
  have rows := (y.lines_eq_precincts_iff _).mpr ⟨.inl top, .inl tall⟩
  exact ⟨by rw [columns, rows], few⟩

/-! ### The built tile -/

section

variable {m : Markers} {coord : Geometry} {ok : Bool} {tile : Tile} {c r : Nat}

theorem Tile.Built.length_tcomp (built : tile.Built (plan m) coord ok) : tile.tcomp.length = m.siz.csiz := by
  rw [← built.tcomp.length_eq]
  simp [plan]

theorem Tile.Built.tcompAt (built : tile.Built (plan m) coord ok) (inside : c < m.siz.csiz) :
    (tile.tcomp.getD c default).Built coord
      ⟨entry m.siz.xRsiz c, entry m.siz.yRsiz c, levels (m.coc c) m.dfs⟩ := by
  have here : c < tile.tcomp.length := Nat.lt_of_lt_of_eq inside built.length_tcomp.symm
  have planned : c < (plan m).comps.length := Nat.lt_of_lt_of_eq here built.tcomp.length_eq.symm
  have each := (List.forall₂_iff_get.mp built.tcomp).2 c planned here
  rw [List.getD_eq_getElem _ _ here]
  simpa [plan] using each

theorem getElem?_levels (coc : CocMarker) (dfs : DfsMarker) (small : r ≤ coc.nl) :
    (levels coc dfs)[r]? = some (level coc dfs r) := by
  rw [levels, List.getElem?_map, List.getElem?_range (Nat.lt_succ_of_le small)]
  rfl

theorem Tile.Built.resAt (built : tile.Built (plan m) coord ok) (inside : c < m.siz.csiz)
    (small : r ≤ (m.coc c).nl) :
    tile.resAt c r = (level (m.coc c) m.dfs r).resolution (levels (m.coc c) m.dfs)[r + 1]?
      (Component.coord ⟨entry m.siz.xRsiz c, entry m.siz.yRsiz c, levels (m.coc c) m.dfs⟩ coord) := by
  rw [Tile.resAt, (built.tcompAt inside).res, List.getD_eq_getElem?_getD, List.getElem?_mapIdx,
    getElem?_levels _ _ small]
  rfl

private theorem resolutions_plan (m : Markers) (inside : c < maxNumComponents) :
    (plan m).resolutions c = (m.coc c).nl + 1 := by
  simp [Plan.resolutions, plan, List.getElem?_range inside, levels]

private theorem gridAt_plan (m : Markers) (inside : c < maxNumComponents) (small : r ≤ (m.coc c).nl) :
    (plan m).gridAt c r = (level (m.coc c) m.dfs r).toGrid := by
  simp only [Plan.gridAt, plan, List.getD_eq_getElem?_getD, List.getElem?_map,
    List.getElem?_range inside, Option.map_some, Option.getD_some, getElem?_levels _ _ small]

end

section

variable {m : Markers} {ok : Bool} {t c r : Nat} {tile : Tile}

/-- The numbers of a built resolution, by the marker structs. -/
private theorem Tile.Built.axes (built : tile.Built (plan m) (tileAt m.siz t) ok)
    (inside : c < m.siz.csiz) (small : r ≤ (m.coc c).nl) :
    ((tile.resAt c r).npw = (xAxis m t c r).precincts ∧
      (tile.resAt c r).nph = (yAxis m t c r).precincts) ∧
    (plan m).columns tile c r = (xAxis m t c r).lines (2 ^ (plan m).stepExpX) ∧
    (plan m).rows tile c r = (yAxis m t c r).lines (2 ^ (plan m).stepExpY) := by
  have room : c < maxNumComponents := Nat.lt_of_lt_of_le inside built.room
  obtain ⟨subX, subY⟩ := (built.tcompAt inside).sub
  simp only [Plan.columns, Plan.rows, gridAt_plan m room small, built.resAt inside small, built.coord,
    subX, subY, Level.resolution, Level.resCoord, Component.coord, level, xAxis, yAxis, Axis.precincts,
    Axis.lines, Axis.scaled, and_self]

private theorem Tile.Built.sampled (fits : m.Fits) (built : tile.Built (plan m) (tileAt m.siz t) ok) :
    tile.Sampled := by
  intro tcp member
  obtain ⟨c, here, rfl⟩ := List.getElem_of_mem member
  have made := built.tcompAt (Nat.lt_of_lt_of_eq here built.length_tcomp)
  rw [List.getD_eq_getElem _ _ here] at made
  rw [made.sub.1, made.sub.2]
  exact ⟨⟨Nat.pos_of_ne_zero made.sampled.1, (fits.sampling c).1⟩,
    Nat.pos_of_ne_zero made.sampled.2, (fits.sampling c).2⟩

end

theorem fits_resolveLevels {m : Markers} (fits : m.Fits) : (resolveLevels m).Fits where
  sampling := fits.sampling
  cod := fits.cod
  cocs c := by
    rw [coc_resolveLevels]
    split <;> exact fits.cocs c
  depths := fits.depths

private theorem fits_plan {m : Markers} (fits : m.Fits) : (plan m).Fits := by
  intro grid member
  obtain ⟨grids, listed, inside⟩ := List.mem_flatten.mp member
  obtain ⟨c, _, rfl⟩ := List.mem_map.mp listed
  obtain ⟨lv, at_level, rfl⟩ := List.mem_map.mp inside
  obtain ⟨r, _, rfl⟩ := List.mem_map.mp at_level
  exact ⟨(fits.cocs c r).1, (fits.cocs c r).2, (fits.depths _).1, (fits.depths _).2⟩

/-! ### Each precinct once -/

/-- `crp` has every precinct of every resolution once, and nothing else. -/
def Tile.CoversOnce (tile : Tile) (m : Markers) : Prop :=
  ∀ c r p, tile.crp.count ⟨c, r, p⟩ =
    if c < maxNumComponents ∧ r ≤ (m.coc c).nl ∧ p < (tile.resAt c r).npw * (tile.resAt c r).nph
    then 1 else 0

private theorem countP_small {k : Nat} (small : k ≤ 2 ^ 16) (p : Nat) :
    (List.range k).countP (fun i => i % 2 ^ 16 = p) = if p < k then 1 else 0 := by
  have same : (List.range k).countP (fun i => i % 2 ^ 16 = p) = (List.range k).count p := by
    apply List.countP_congr
    intro i member
    have below := List.mem_range.mp member
    rw [Nat.mod_eq_of_lt (Nat.lt_of_lt_of_le below small)]
    simp
  rw [same, List.nodup_range.count]
  simp

/-- Numbers from 0 on, cut to 16 bits, are those below `n` exactly if there are `n` of them
and nothing was cut. -/
private theorem countP_low16 {k n : Nat} :
    (∀ p, (List.range k).countP (fun i => i % 2 ^ 16 = p) = if p < n then 1 else 0) ↔
      k = n ∧ n ≤ 2 ^ 16 := by
  constructor
  · intro each
    have few : k ≤ 2 ^ 16 := by
      by_contra many
      -- The number 2 ^ 16 is a second 0.
      obtain ⟨rest, rfl⟩ := Nat.exists_eq_add_of_lt (Nat.lt_of_not_le many)
      have twice : 2 ≤ (List.range (2 ^ 16 + rest + 1)).countP fun i => i % 2 ^ 16 = 0 := by
        rw [Nat.add_assoc, List.range_add, List.countP_append, countP_small (Nat.le_refl _)]
        have second : 0 < ((List.range (rest + 1)).map (2 ^ 16 + ·)).countP fun i => i % 2 ^ 16 = 0 :=
          List.countP_pos_iff.mpr ⟨2 ^ 16, List.mem_map.mpr ⟨0, by simp, rfl⟩, by decide⟩
        simp only [Nat.two_pow_pos, if_true]
        omega
      have once := each 0
      split at once <;> omega
    have below (p : Nat) : p < k ↔ p < n := by
      have here := each p
      rw [countP_small few] at here
      by_cases left : p < k <;> by_cases right : p < n <;> simp [left, right] at here ⊢
    have le := Nat.le_of_not_lt fun less => Nat.lt_irrefl _ ((below n).mp less)
    have ge := Nat.le_of_not_lt fun less => Nat.lt_irrefl _ ((below k).mpr less)
    have same : k = n := Nat.le_antisymm le ge
    exact ⟨same, same ▸ few⟩
  · rintro ⟨rfl, few⟩ p
    exact countP_small few p

private theorem Tile.Built.resAt_beyond {m : Markers} {coord : Geometry} {ok : Bool} {tile : Tile} {c : Nat}
    (built : tile.Built (plan m) coord ok) (beyond : m.siz.csiz ≤ c) (r : Nat) :
    tile.resAt c r = default := by
  have none_there : tile.tcomp.length ≤ c := Nat.le_trans built.length_tcomp.le beyond
  rw [Tile.resAt, List.getD_eq_default _ _ none_there]
  exact List.getD_nil

private theorem covered_iff {m : Markers} {t : Nat} {tile : Tile} (fits : m.Fits)
    (built : tile.Built (plan m) (tileAt m.siz t) true) (c r : Nat) :
    (∀ p, tile.crp.count ⟨c, r, p⟩ =
      if c < maxNumComponents ∧ r ≤ (m.coc c).nl ∧ p < (tile.resAt c r).npw * (tile.resAt c r).nph
      then 1 else 0) ↔ (c < m.siz.csiz → r ≤ (m.coc c).nl → Matched m t c r) := by
  have room : tile.tcomp.length ≤ maxNumComponents := Nat.le_trans built.length_tcomp.le built.room
  have sampled : tile.Sampled := built.sampled fits
  have counts (p : Nat) := count_crp (fits_plan fits)
    (show Tile.Sampled { tile with crp := [] } from sampled) room built.crp c r p
  simp only [counts, built.length_tcomp]
  by_cases inside : c < m.siz.csiz ∧ r ≤ (m.coc c).nl
  · have component : c < maxNumComponents := Nat.lt_of_lt_of_le inside.1 built.room
    obtain ⟨⟨npw, nph⟩, columns, rows⟩ := built.axes inside.1 inside.2
    have columns' : (plan m).columns { tile with crp := [] } c r = _ := columns
    have rows' : (plan m).rows { tile with crp := [] } c r = _ := rows
    simp only [resolutions_plan m component, Nat.lt_succ_iff, inside, component, true_and, and_self,
      if_true, columns', rows', npw, nph, forall_const]
    exact countP_low16
  · have nothing : ¬ (c < m.siz.csiz ∧ r < (plan m).resolutions c) := by
      rintro ⟨left, right⟩
      rw [resolutions_plan m (Nat.lt_of_lt_of_le left built.room)] at right
      exact inside ⟨left, Nat.le_of_lt_succ right⟩
    have nowhere (p : Nat) : ¬ (c < maxNumComponents ∧ r ≤ (m.coc c).nl ∧
        p < (tile.resAt c r).npw * (tile.resAt c r).nph) := by
      rintro ⟨_, level, small⟩
      have beyond : m.siz.csiz ≤ c := Nat.le_of_not_lt fun left => inside ⟨left, level⟩
      rw [built.resAt_beyond beyond] at small
      exact Nat.not_lt_zero p small
    simp only [if_neg nothing, if_neg (nowhere _), List.range_zero, List.countP_nil, true_iff,
      implies_true]
    exact fun left level => absurd ⟨left, level⟩ inside

/-- The packet order of a tile has every precinct once exactly if, for each resolution of each
component, the loops find as many positions as there are precincts, 65536 at most. -/
theorem covers_once_iff {h h' : TileHandler} (fits : h.markers.Fits)
    (created : h.create = some (true, h')) {t : Nat} {tile : Tile} (here : h'.tiles[t]? = some tile) :
    tile.CoversOnce h'.markers ↔
      ∀ c < h.markers.siz.csiz, ∀ r ≤ ((resolveLevels h.markers).coc c).nl,
        Matched (resolveLevels h.markers) t c r := by
  obtain ⟨tiles, resolved⟩ := TileHandler.create_inv created
  have filled : h'.tiles ≠ [] := by
    intro empty
    rw [empty] at here
    cases here
  have built : tile.Built (plan (resolveLevels h.markers)) (tileAt h.markers.siz t) true :=
    Plan.tiles_built tiles here
  have each (c r : Nat) := covered_iff (fits_resolveLevels fits) built c r
  rw [resolved filled]
  constructor
  · intro covers c component r level
    exact (each c r).mp (covers c r) component level
  · intro matched c r
    exact (each c r).mpr fun component level => matched c component r level

/-- A main header for an image of 17 by 8 samples without decomposition, with precincts of 8 by
8 samples; the first `xOsiz` columns are left out. -/
def offsetHeader (xOsiz : UInt8) : List UInt8 :=
  [0xFF, 0x4F,
   0xFF, 0x51, 0, 47, 0, 0, 0, 0, 0, 17, 0, 0, 0, 8, 0, 0, 0, xOsiz, 0, 0, 0, 0, 0, 0, 0, 17,
     0, 0, 0, 8, 0, 0, 0, 0, 0, 0, 0, 0, 0, 3, 7, 1, 1, 7, 1, 1, 7, 1, 1,
   0xFF, 0x52, 0, 13, 1, 3, 0, 1, 0, 0, 5, 2, 0x48, 1, 0x33,
   0xFF, 0x93]

/-- The markers of the header. -/
def offsetMarkers (xOsiz : UInt8) : Markers :=
  ((parseMainHeader {} (streamOf (offsetHeader xOsiz))).map (·.2.1)).getD {}

private theorem fits_offsetMarkers (xOsiz : UInt8) : (offsetMarkers xOsiz).Fits := by
  have start : StandsAt _ 0 (streamOf (offsetHeader xOsiz)) := standsAt_start (by simp [offsetHeader])
  simp only [offsetMarkers]
  cases parsed : parseMainHeader {} (streamOf (offsetHeader xOsiz)) with
  | none => exact Markers.fits_fresh
  | some result => exact parseMainHeader_fits Markers.fits_fresh start parsed

theorem covers_once_iff_origin :
    ∃ h' tile, TileHandler.create { markers := offsetMarkers 0 } = some (true, h') ∧
      h'.tiles[0]? = some tile ∧ tile.crp.length = 9 ∧ tile.CoversOnce h'.markers := by
  have made : (TileHandler.create { markers := offsetMarkers 0 }).map
      (fun made => (made.1, made.2.tiles.map fun tile => tile.crp.length)) = some (true, [9]) := by
    decide +kernel
  obtain ⟨⟨ok, h'⟩, created, same⟩ := Option.map_eq_some_iff.mp made
  obtain ⟨rfl, lengths⟩ := Prod.mk.inj same
  obtain ⟨tile, only, length⟩ := List.map_eq_singleton_iff.mp lengths
  refine ⟨h', tile, created, by rw [only]; rfl, length, ?_⟩
  have here : h'.tiles[0]? = some tile := by rw [only]; rfl
  apply (covers_once_iff (fits_offsetMarkers 0) created here).mpr
  -- The tile starts at the origin, which is a multiple of every step.
  have ordinary : ∀ c < (offsetMarkers 0).siz.csiz, ∀ r ≤ ((resolveLevels (offsetMarkers 0)).coc c).nl,
      let x := xAxis (resolveLevels (offsetMarkers 0)) 0 c r
      let y := yAxis (resolveLevels (offsetMarkers 0)) 0 c r
      (x.Ordinary 0 17 ∧ y.Ordinary 0 8) ∧
        (0 ⌈/⌉ x.unit < 17 ⌈/⌉ x.unit ∧ 0 ⌈/⌉ y.unit < 8 ⌈/⌉ y.unit) ∧ x.precincts * y.precincts ≤ 2 ^ 16 := by
    decide +kernel
  intro c component r level
  obtain ⟨⟨x, y⟩, ⟨wide, tall⟩, few⟩ := ordinary c component r level
  exact matched_of_aligned x y (Nat.dvd_zero _) (Nat.dvd_zero _) wide tall few

/-- With one column left out, two of the three precincts of each component are missing. -/
theorem covers_once_fails_offset :
    ∃ h' tile, TileHandler.create { markers := offsetMarkers 1 } = some (true, h') ∧
      h'.tiles[0]? = some tile ∧ ((tile.resAt 0 0).npw, (tile.resAt 0 0).nph) = (3, 1) ∧
      tile.crp = [⟨0, 0, 0⟩, ⟨1, 0, 0⟩, ⟨2, 0, 0⟩] ∧ ¬ tile.CoversOnce h'.markers := by
  have made : (TileHandler.create { markers := offsetMarkers 1 }).map
      (fun made => (made.1, made.2.tiles.map fun tile =>
        (((tile.resAt 0 0).npw, (tile.resAt 0 0).nph), tile.crp))) =
      some (true, [((3, 1), [⟨0, 0, 0⟩, ⟨1, 0, 0⟩, ⟨2, 0, 0⟩])]) := by
    decide +kernel
  obtain ⟨⟨ok, h'⟩, created, same⟩ := Option.map_eq_some_iff.mp made
  obtain ⟨rfl, tiles⟩ := Prod.mk.inj same
  obtain ⟨tile, only, shape⟩ := List.map_eq_singleton_iff.mp tiles
  obtain ⟨counts, crp⟩ := Prod.mk.inj shape
  obtain ⟨npw, nph⟩ := Prod.mk.inj counts
  refine ⟨h', tile, created, by rw [only]; rfl, counts, crp, ?_⟩
  intro covers
  have second := covers 0 0 1
  rw [crp, npw, nph] at second
  simp [maxNumComponents] at second

end RtpDecoder.Parser
