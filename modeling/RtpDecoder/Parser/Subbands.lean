import Mathlib.Algebra.Order.Ring.Int
import Mathlib.Tactic.Positivity.Basic
import Mathlib.Tactic.Ring
import RtpDecoder.Parser.CodeBlocks

/-!
# The samples of the subbands

A resolution is split into the resolution below it and its subbands, and no sample may be lost
or come twice. `parepare_tcomp_structure` computes the borders of resolutions from the number of
splits in each direction, and those of subbands by formulas of their own: a level that is split
one way gets the borders of its low-pass half, one that is split both ways takes the number of
levels for the depth in both directions, and resolution 0 looks at the type of a level that does
not exist and at the resolution above.
-/

namespace RtpDecoder.Parser

open Header

variable {n nl type : Nat}

/-- The number of samples between the borders. -/
def Geometry.area (g : Geometry) : Nat := (g.x1 - g.x0).toNat * (g.y1 - g.y0).toNat

/-- Every resolution has the samples of the one below and of its subbands, and the single
subband of the lowest one is the resolution itself. -/
structure SamplesAccounted (ress : List Res) : Prop where
  split : ∀ r lower upper, ress[r]? = some lower → ress[r + 1]? = some upper →
    upper.coord.area = lower.coord.area + (upper.band.map Geometry.area).sum
  lowest : ∀ res, ress[0]? = some res → res.band = [res.coord]

/-! ### Borders and samples at a depth -/

/-- A border after `k` splits. -/
def splitBorder (z : Int) (k : Nat) : Nat := z.toNat ⌈/⌉ 2 ^ k

/-- The samples between two borders after `k` splits. -/
def splitSamples (lo hi : Int) (k : Nat) : Nat := splitBorder hi k - splitBorder lo k

/-- How many of the first `n` levels are split in a direction: all that are not split only in the
other one. -/
def splits (other : Nat) (types : List Nat) (n : Nat) : Nat := (types.take n).countP (· ≠ other)

/-- Level `n` of a tile-component, counted from the top, loses nothing. -/
def LevelExact (tcp : Geometry) (types : List Nat) (n type : Nat) : Prop :=
  let hor := splits vert types n
  let ver := splits horz types n
  if type = horz then
    splitSamples tcp.y0 tcp.y1 ver = 0 ∨ splitBorder tcp.x0 hor % 2 = splitBorder tcp.x1 hor % 2
  else if type = vert then
    splitSamples tcp.x0 tcp.x1 hor = 0 ∨ splitBorder tcp.y0 ver % 2 = splitBorder tcp.y1 ver % 2
  else
    -- With both depths equal to `n` this is always so.
    splitSamples tcp.x0 tcp.x1 hor * splitSamples tcp.y0 tcp.y1 ver +
        splitSamples tcp.x0 tcp.x1 (n + 1) * splitSamples tcp.y0 tcp.y1 (n + 1) =
      splitSamples tcp.x0 tcp.x1 (hor + 1) * splitSamples tcp.y0 tcp.y1 (ver + 1) +
        splitSamples tcp.x0 tcp.x1 n * splitSamples tcp.y0 tcp.y1 n

/-- The subband of resolution 0 has its borders; `stale` is the type behind the last level, left
there by an earlier header, and `last` that of the last level. -/
def LowestExact (tcp : Geometry) (types : List Nat) (stale last : Nat) : Prop :=
  let nl := types.length
  let hor := splits vert types nl
  let ver := splits horz types nl
  if stale = horz then splitBorder tcp.x0 hor ≤ 1 ∧ splitBorder tcp.x1 hor ≤ 1
  else if stale = vert then splitBorder tcp.y0 ver ≤ 1 ∧ splitBorder tcp.y1 ver ≤ 1
  else if stale = both ∨ last = both then
    (splitBorder tcp.x0 nl = splitBorder tcp.x0 hor ∧ splitBorder tcp.x1 nl = splitBorder tcp.x1 hor) ∧
      splitBorder tcp.y0 nl = splitBorder tcp.y0 ver ∧ splitBorder tcp.y1 nl = splitBorder tcp.y1 ver
  else if last = horz then
    splitBorder tcp.x0 (splits vert types (nl - 1)) ≤ 1 ∧
      splitBorder tcp.x1 (splits vert types (nl - 1)) % 2 = 0
  else
    splitBorder tcp.y0 (splits horz types (nl - 1)) ≤ 1 ∧
      splitBorder tcp.y1 (splits horz types (nl - 1)) % 2 = 0

/-- Nothing is lost anywhere. -/
structure SplitsExact (tcp : Geometry) (types : List Nat) (stale : Nat) : Prop where
  levels : ∀ n type, types[n]? = some type → LevelExact tcp types n type
  lowest : ∀ last, types.getLast? = some last → LowestExact tcp types stale last

/-- Borders of a tile-component for which no sum of the source overflows. -/
structure Geometry.Splittable (tcp : Geometry) (nl : Nat) : Prop where
  columns : 0 ≤ tcp.x0 ∧ tcp.x0 ≤ tcp.x1 ∧ tcp.x1 + 2 ^ nl < 2 ^ 31
  rows : 0 ≤ tcp.y0 ∧ tcp.y0 ≤ tcp.y1 ∧ tcp.y1 + 2 ^ nl < 2 ^ 31

section

variable {lo hi z : Int} {k : Nat}

theorem splitBorder_succ (z : Int) (k : Nat) : splitBorder z (k + 1) = (splitBorder z k + 1) / 2 :=
  ceilDiv_two_pow_succ z.toNat k

theorem splitBorder_mono (le : lo ≤ hi) (k : Nat) : splitBorder lo k ≤ splitBorder hi k :=
  ceilDiv_le_ceilDiv (Int.toNat_le_toNat le) _

/-- A border of a resolution is that after its splits. -/
theorem ceildivInt_two_pow (nonneg : 0 ≤ z) (room : z + 2 ^ k < 2 ^ 31) : ceildivInt z (2 ^ k) = splitBorder z k := by
  lift z to Nat using nonneg
  have power : (2 : Int) ^ k = ((2 ^ k : Nat) : Int) := by push_cast; rfl
  rw [power] at room ⊢
  rw [ceildivInt_eq (Nat.two_pow_pos k) (by omega)]
  rfl

theorem lowpass_border (nonneg : 0 ≤ z) (room : z + 2 ^ k < 2 ^ 31) :
    int32 (ceildivUint (uint32 z) (2 ^ k)) = splitBorder z k := by
  lift z to Nat using nonneg
  have power : (2 : Int) ^ k = ((2 ^ k : Nat) : Int) := by push_cast; rfl
  rw [power] at room
  have pos := Nat.two_pow_pos k
  have bound : z ⌈/⌉ 2 ^ k ≤ z := ceilDiv_le_self (Nat.two_pow_pos k) z
  rw [uint32_of_lt (by omega), ceildivUint_eq (Nat.two_pow_pos k) (by omega), Level.int32_of_lt (by omega)]
  rfl

/-- The border of a high-pass subband, computed from a difference that may wrap around. -/
theorem highpass_border (nonneg : 0 ≤ z) (room : z + 2 ^ (k + 1) < 2 ^ 31) :
    int32 (ceildivUint (uint32 (z - 2 ^ k)) (2 ^ (k + 1))) = (splitBorder z k / 2 : Nat) := by
  lift z to Nat using nonneg
  have double : 2 ^ (k + 1) = 2 * 2 ^ k := by rw [Nat.pow_succ, Nat.mul_comm]
  have power : (2 : Int) ^ k = ((2 ^ k : Nat) : Int) := by push_cast; rfl
  have pos := Nat.two_pow_pos k
  have room : z + 2 * 2 ^ k < 2 ^ 31 := by
    rw [← double]
    exact_mod_cast room
  have wraps : (uint32 ((z : Int) - 2 ^ k) + (2 ^ (k + 1) - 1)) % 2 ^ 32 = z + 2 ^ k - 1 := by
    rw [power, double, uint32]
    omega
  have half : (z + 2 ^ k - 1) / 2 ^ (k + 1) = splitBorder z k / 2 := by
    rw [splitBorder, Int.toNat_natCast, Nat.ceilDiv_eq_add_pred_div, Nat.div_div_eq_div_mul, Nat.pow_succ]
  have bound : splitBorder z k ≤ z := ceilDiv_le_self pos z
  rw [ceildivUint, wraps, half, Level.int32_of_lt (by omega)]

end

/-! ### What `parse_DFS` leaves -/

section

variable {types : List Nat}

theorem splits_succ (here : types[n]? = some type) (other : Nat) :
    splits other types (n + 1) = splits other types n + if type = other then 0 else 1 := by
  rw [splits, List.take_add_one, here, Option.toList_some, List.countP_append, ← splits, List.countP_singleton]
  by_cases same : type = other <;> simp [same]

theorem splits_le (other : Nat) (types : List Nat) (n : Nat) : splits other types n ≤ n :=
  Nat.le_trans List.countP_le_length (List.length_take_le n types)

private theorem depth_eq_splits (other : Nat) (types : List Nat) (n : Nat) :
    depth (types.map fun t => if t = other then 1 else 0) n = splits other types n := by
  rw [depth, ← List.map_take, List.countP_map, splits]
  congr 1
  funext t
  by_cases same : t = other <;> simp [same]

variable (prior : DfsMarker) (idx : Nat) (short : types.length ≤ maxDwtLevel)

include short

private theorem depths_setTypes (level : n ≤ types.length) :
    entry (prior.setTypes idx types.length types).horDepth n = splits vert types n ∧
      entry (prior.setTypes idx types.length types).verDepth n = splits horz types n := by
  have inside : n < maxDwtLevel + 1 := by omega
  simp only [DfsMarker.setTypes, entry_fillFrom, Nat.zero_le, inside, and_self, if_true, Nat.sub_zero,
    List.getElem?_map, List.getElem?_range (Nat.lt_succ_of_le level), Option.map_some, Option.getD_some,
    depth_eq_splits]

private theorem type_setTypes (here : types[n]? = some type) :
    entry (prior.setTypes idx types.length types).type (n + 1) = type := by
  have inside : n + 1 < maxDwtLevel + 1 := by
    have listed := (List.getElem?_eq_some_iff.mp here).1
    omega
  rw [DfsMarker.setTypes, entry_fillFrom, if_pos ⟨by omega, inside⟩, Nat.add_sub_cancel, here, Option.getD_some]

omit short in
private theorem stale_setTypes :
    entry (prior.setTypes idx types.length types).type (types.length + 1) = entry prior.type (types.length + 1) :=
  entry_fillFrom_kept _ (Or.inr (by omega))

end

/-! ### One level -/

section

variable {lo hi : Int} {k : Nat}

private theorem toNat_samples (lo hi : Int) (k : Nat) :
    ((splitBorder hi k : Int) - splitBorder lo k).toNat = splitSamples lo hi k := by
  rw [splitSamples]
  omega

/-- The border of the low-pass half is that after one more split. -/
private theorem half_border (z : Int) (k : Nat) : ((splitBorder z k : Int) + 1) / 2 = splitBorder z (k + 1) := by
  rw [splitBorder_succ]
  omega

/-- The high-pass half has the rest of the samples. -/
private theorem highpass_samples (le : lo ≤ hi) (k : Nat) :
    ((splitBorder hi k / 2 : Nat) - (splitBorder lo k / 2 : Nat) : Int).toNat + splitSamples lo hi (k + 1) =
      splitSamples lo hi k := by
  have mono := splitBorder_mono le k
  rw [splitSamples, splitSamples, splitBorder_succ, splitBorder_succ]
  omega

private theorem splitSamples_succ_le (le : lo ≤ hi) (k : Nat) :
    splitSamples lo hi (k + 1) ≤ splitSamples lo hi k := by
  have mono := splitBorder_mono le k
  rw [splitSamples, splitSamples, splitBorder_succ, splitBorder_succ]
  omega

/-- The low-pass half is one half exactly if both borders are even or both are odd. -/
private theorem halves_iff (le : lo ≤ hi) (k : Nat) :
    splitSamples lo hi k = splitSamples lo hi (k + 1) + splitSamples lo hi (k + 1) ↔
      splitBorder lo k % 2 = splitBorder hi k % 2 := by
  have mono := splitBorder_mono le k
  rw [splitSamples, splitSamples, splitBorder_succ, splitBorder_succ]
  omega

end

/-- The three subbands of a level that is split both ways have what the low-pass quarter lacks. -/
private theorem quarters {wide high wideLow highLow wideHigh highHigh : Nat} (columns : wideHigh + wideLow = wide)
    (rows : highHigh + highLow = high) :
    wideHigh * highLow + (wideLow * highHigh + wideHigh * highHigh) + wideLow * highLow = wide * high := by
  subst columns rows
  ring

namespace Level

/-- A level of the decomposition: its depths are those after `n` splits. -/
private structure Splits (lv : Level) (types : List Nat) (n : Nat) : Prop where
  hor : lv.hor = splits vert types n
  ver : lv.ver = splits horz types n

variable {lv : Level} {types : List Nat} {n : Nat} {tcp : Geometry}

private theorem Splits.resCoord_eq (level : lv.Splits types n) (within : n ≤ nl)
    (range : tcp.Splittable nl) :
    lv.resCoord tcp =
      ⟨splitBorder tcp.x0 (splits vert types n), splitBorder tcp.y0 (splits horz types n),
        splitBorder tcp.x1 (splits vert types n), splitBorder tcp.y1 (splits horz types n)⟩ := by
  obtain ⟨left, wide, right⟩ := range.columns
  obtain ⟨top, high, bottom⟩ := range.rows
  have power (other : Nat) : (2 : Int) ^ splits other types n ≤ 2 ^ nl :=
    pow_le_pow_right₀ (by decide) (Nat.le_trans (splits_le other types n) within)
  have columns := power vert
  have rows := power horz
  rw [resCoord, level.hor, level.ver, ceildivInt_two_pow left (by omega), ceildivInt_two_pow top (by omega),
    ceildivInt_two_pow (by omega) (by omega), ceildivInt_two_pow (by omega) (by omega)]

private theorem Splits.area_eq (level : lv.Splits types n) (within : n ≤ nl)
    (range : tcp.Splittable nl) :
    (lv.resCoord tcp).area = splitSamples tcp.x0 tcp.x1 (splits vert types n) *
      splitSamples tcp.y0 tcp.y1 (splits horz types n) := by
  rw [level.resCoord_eq within range, Geometry.area, toNat_samples, toNat_samples]

private theorem bandCoord_horz (split : lv.type = horz) (above : Option Level) (tcp : Geometry) (b : Nat) :
    lv.bandCoord above tcp b =
      ⟨((lv.resCoord tcp).x0 + 1) / 2, (lv.resCoord tcp).y0, ((lv.resCoord tcp).x1 + 1) / 2,
        (lv.resCoord tcp).y1⟩ := by
  simp only [bandCoord, split, if_true]

private theorem bandCoord_vert (split : lv.type = vert) (above : Option Level) (tcp : Geometry) (b : Nat) :
    lv.bandCoord above tcp b =
      ⟨(lv.resCoord tcp).x0, ((lv.resCoord tcp).y0 + 1) / 2, (lv.resCoord tcp).x1,
        ((lv.resCoord tcp).y1 + 1) / 2⟩ := by
  have other : vert ≠ horz := by decide
  simp only [bandCoord, split, if_neg other, if_true]

/-- The border of a subband at depth `nb`. -/
private def bandBorder (nb : Nat) (z : Int) (ob : Nat) : Int :=
  int32 (ceildivUint (uint32 (z - 2 ^ (nb - 1) * ob)) (2 ^ nb))

private theorem bandCoord_both (split : lv.type = both) (above : Option Level) (tcp : Geometry) (b : Nat) :
    let nb := if lv.r = 0 then lv.nl - lv.r else lv.nl - lv.r + 1
    lv.bandCoord above tcp b =
      ⟨bandBorder nb tcp.x0 (lv.offsets b).1, bandBorder nb tcp.y0 (lv.offsets b).2,
        bandBorder nb tcp.x1 (lv.offsets b).1, bandBorder nb tcp.y1 (lv.offsets b).2⟩ := by
  have horizontal : both ≠ horz := by decide
  have vertical : both ≠ vert := by decide
  simp only [bandCoord, split, if_neg horizontal, if_neg vertical, if_true, bandBorder]

private theorem bandBorder_samples {lo hi : Int} (nonneg : 0 ≤ lo) (le : lo ≤ hi)
    (room : hi + 2 ^ nl < 2 ^ 31) (within : n < nl) :
    (bandBorder (n + 1) hi 0 - bandBorder (n + 1) lo 0).toNat = splitSamples lo hi (n + 1) ∧
      (bandBorder (n + 1) hi 1 - bandBorder (n + 1) lo 1).toNat + splitSamples lo hi (n + 1) =
        splitSamples lo hi n := by
  have power : (2 : Int) ^ (n + 1) ≤ 2 ^ nl := pow_le_pow_right₀ (by decide) within
  simp only [bandBorder, Nat.add_sub_cancel, Int.natCast_zero, Int.mul_zero, Int.sub_zero, Int.natCast_one,
    Int.mul_one]
  rw [lowpass_border nonneg (by omega), lowpass_border (by omega) (by omega),
    highpass_border nonneg (by omega), highpass_border (by omega) (by omega), toNat_samples]
  exact ⟨rfl, highpass_samples le n⟩

private theorem Splits.bands_eq (level : lv.Splits types n) (within : n < nl)
    (range : tcp.Splittable nl) (above : Option Level) (upper : lv.r ≠ 0) (index : lv.nl - lv.r = n)
    (here : lv.type = type) (kind : type = both ∨ type = horz ∨ type = vert) :
    (((List.range lv.numBands).map (lv.bandCoord above tcp)).map Geometry.area).sum =
      if type = horz then splitSamples tcp.x0 tcp.x1 (splits vert types n + 1) *
        splitSamples tcp.y0 tcp.y1 (splits horz types n)
      else if type = vert then splitSamples tcp.x0 tcp.x1 (splits vert types n) *
        splitSamples tcp.y0 tcp.y1 (splits horz types n + 1)
      else splitSamples tcp.x0 tcp.x1 n * splitSamples tcp.y0 tcp.y1 n -
        splitSamples tcp.x0 tcp.x1 (n + 1) * splitSamples tcp.y0 tcp.y1 (n + 1) := by
  have coord := level.resCoord_eq within.le range
  rcases kind with rfl | rfl | rfl
  · have three : lv.numBands = 3 := by simp [numBands, here, upper]
    obtain ⟨lowColumns, columns⟩ := bandBorder_samples range.columns.1 range.columns.2.1 range.columns.2.2 within
    obtain ⟨lowRows, rows⟩ := bandBorder_samples range.rows.1 range.rows.2.1 range.rows.2.2 within
    have bands : (List.range 3).map (lv.bandCoord above tcp) =
        [lv.bandCoord above tcp 0, lv.bandCoord above tcp 1, lv.bandCoord above tcp 2] := by
      simp only [List.range_succ, List.range_zero, List.nil_append, List.cons_append, List.map_cons, List.map_nil]
    have offsets : lv.offsets 0 = (1, 0) ∧ lv.offsets 1 = (0, 1) ∧ lv.offsets 2 = (1, 1) := by
      simp [Level.offsets, three]
    have horizontal : both ≠ horz := by decide
    have vertical : both ≠ vert := by decide
    have parts := quarters columns rows
    have area {b i j : Nat} (ob : lv.offsets b = (i, j)) : (lv.bandCoord above tcp b).area =
        (bandBorder (n + 1) tcp.x1 i - bandBorder (n + 1) tcp.x0 i).toNat *
          (bandBorder (n + 1) tcp.y1 j - bandBorder (n + 1) tcp.y0 j).toNat := by
      rw [bandCoord_both here, if_neg upper, index, ob, Geometry.area]
    rw [three, bands, if_neg horizontal, if_neg vertical]
    simp only [List.map_cons, List.map_nil, List.sum_cons, List.sum_nil]
    rw [area offsets.1, area offsets.2.1, area offsets.2.2, lowColumns, lowRows]
    omega
  · have one : lv.numBands = 1 := by simp [numBands, here, both, horz]
    simp only [one, List.range_one, List.map_singleton, List.sum_singleton, if_true, bandCoord_horz here, coord,
      half_border, Geometry.area, toNat_samples]
  · have one : lv.numBands = 1 := by simp [numBands, here, both, vert]
    have other : vert ≠ horz := by decide
    simp only [one, List.range_one, List.map_singleton, List.sum_singleton, if_neg other, if_true,
      bandCoord_vert here, coord, half_border, Geometry.area, toNat_samples]

private theorem Splits.accounted_iff {lower : Level} (level : lv.Splits types n) (below : lower.Splits types (n + 1))
    (within : n < nl) (range : tcp.Splittable nl) (above : Option Level) (upper : lv.r ≠ 0)
    (index : lv.nl - lv.r = n) (here : types[n]? = some type) (own : lv.type = type)
    (kind : type = both ∨ type = horz ∨ type = vert) :
    (lv.resCoord tcp).area = (lower.resCoord tcp).area +
        (((List.range lv.numBands).map (lv.bandCoord above tcp)).map Geometry.area).sum ↔
      LevelExact tcp types n type := by
  rw [level.bands_eq within range above upper index own kind, level.area_eq within.le range,
    below.area_eq within range, splits_succ here, splits_succ here, LevelExact]
  have other : vert ≠ horz := by decide
  rcases kind with rfl | rfl | rfl
  · have horizontal : both ≠ horz := by decide
    have vertical : both ≠ vert := by decide
    have smaller := Nat.mul_le_mul (splitSamples_succ_le range.columns.2.1 n)
      (splitSamples_succ_le range.rows.2.1 n)
    simp only [if_neg horizontal, if_neg vertical]
    omega
  · have horizontal : horz ≠ vert := by decide
    simp only [if_true, if_neg horizontal, Nat.add_zero]
    rw [← Nat.add_mul, mul_eq_mul_right_iff, halves_iff range.columns.2.1, or_comm]
  · simp only [if_true, if_neg other, Nat.add_zero]
    rw [← Nat.mul_add, mul_eq_mul_left_iff, halves_iff range.rows.2.1, or_comm]

private theorem bandBorder_low {z : Int} (nonneg : 0 ≤ z) (room : z + 2 ^ nl < 2 ^ 31) :
    bandBorder nl z 0 = splitBorder z nl := by
  rw [bandBorder, Int.natCast_zero, Int.mul_zero, Int.sub_zero, lowpass_border nonneg room]

/-- The subband of resolution 0 if its own type is none of the three. -/
private theorem bandCoord_above (typeless : lv.type ≠ horz ∧ lv.type ≠ vert ∧ lv.type ≠ both) (up : Level)
    (tcp : Geometry) (lowest : lv.r = 0) (b : Nat) :
    lv.bandCoord (some up) tcp b =
      if up.type ≠ both then
        ⟨(up.resCoord tcp).x0, (up.resCoord tcp).y0,
          if up.type = horz then int32 ((up.resCoord tcp).x1 - (lv.resCoord tcp).x1) else (up.resCoord tcp).x1,
          if up.type = vert then int32 ((up.resCoord tcp).y1 - (lv.resCoord tcp).y1) else (up.resCoord tcp).y1⟩
      else ⟨bandBorder lv.nl tcp.x0 (lv.offsets b).1, bandBorder lv.nl tcp.y0 (lv.offsets b).2,
        bandBorder lv.nl tcp.x1 (lv.offsets b).1, bandBorder lv.nl tcp.y1 (lv.offsets b).2⟩ := by
  simp only [bandCoord, typeless, if_false, lowest, if_true, Nat.sub_zero, bandBorder]

private theorem high_half {z : Int} {k : Nat} (room : z + 2 ^ nl < 2 ^ 31) :
    int32 ((splitBorder z k : Int) - splitBorder z (k + 1)) = splitBorder z (k + 1) ↔ splitBorder z k % 2 = 0 := by
  have bound : splitBorder z k ≤ z.toNat := ceilDiv_le_self (Nat.two_pow_pos k) _
  have power : (0 : Int) < 2 ^ nl := by positivity
  have rest : (splitBorder z k : Int) - splitBorder z (k + 1) = (splitBorder z k / 2 : Nat) := by
    rw [splitBorder_succ]
    omega
  rw [rest, int32_of_lt (by omega), splitBorder_succ]
  omega

/-- Two branches compute the borders at the depth of all levels. -/
private theorem Splits.quarter_iff (level : lv.Splits types nl) (range : tcp.Splittable nl) :
    (⟨bandBorder nl tcp.x0 0, bandBorder nl tcp.y0 0, bandBorder nl tcp.x1 0, bandBorder nl tcp.y1 0⟩ : Geometry) =
      lv.resCoord tcp ↔
    (splitBorder tcp.x0 nl = splitBorder tcp.x0 (splits vert types nl) ∧
      splitBorder tcp.x1 nl = splitBorder tcp.x1 (splits vert types nl)) ∧
    splitBorder tcp.y0 nl = splitBorder tcp.y0 (splits horz types nl) ∧
      splitBorder tcp.y1 nl = splitBorder tcp.y1 (splits horz types nl) := by
  obtain ⟨left, wide, right⟩ := range.columns
  obtain ⟨top, high, bottom⟩ := range.rows
  rw [level.resCoord_eq (Nat.le_refl nl) range, bandBorder_low left (by omega), bandBorder_low top (by omega),
    bandBorder_low (by omega) right, bandBorder_low (by omega) bottom]
  simp only [Geometry.mk.injEq, Int.natCast_inj]
  tauto

private theorem Splits.lowest_iff {up : Level} {last : Nat} (level : lv.Splits types nl)
    (above : up.Splits types (nl - 1)) (length : types.length = nl) (range : tcp.Splittable nl) (lowest : lv.r = 0)
    (levels : lv.nl = nl) (final : types[nl - 1]? = some last) (pos : 0 < nl) (own : up.type = last)
    (kind : last = both ∨ last = horz ∨ last = vert) :
    lv.bandCoord (some up) tcp 0 = lv.resCoord tcp ↔ LowestExact tcp types lv.type last := by
  have one : lv.numBands = 1 := by simp [numBands, lowest]
  have offset : lv.offsets 0 = (0, 0) := by simp [offsets, one]
  have coord := level.resCoord_eq (Nat.le_refl nl) range
  have upper := above.resCoord_eq (by omega) range
  have other : vert ≠ horz := by decide
  have horizontal : both ≠ horz := by decide
  have vertical : both ≠ vert := by decide
  have small (b : Nat) : (b + 1) / 2 = b ↔ b ≤ 1 := by omega
  rw [LowestExact, length]
  by_cases isHorz : lv.type = horz
  · rw [bandCoord_horz isHorz, coord, if_pos isHorz]
    simp only [half_border, Geometry.mk.injEq, Int.natCast_inj, true_and, and_true, splitBorder_succ, small]
  by_cases isVert : lv.type = vert
  · rw [bandCoord_vert isVert, coord, if_neg isHorz, if_pos isVert]
    simp only [half_border, Geometry.mk.injEq, Int.natCast_inj, true_and, splitBorder_succ, small]
  rw [if_neg isHorz, if_neg isVert]
  by_cases isBoth : lv.type = both
  · rw [bandCoord_both isBoth, if_pos lowest, lowest, levels, Nat.sub_zero, offset, if_pos (Or.inl isBoth)]
    exact level.quarter_iff range
  rw [bandCoord_above ⟨isHorz, isVert, isBoth⟩ up tcp lowest, own, levels, offset]
  have step : nl - 1 + 1 = nl := by omega
  have hor := splits_succ final vert
  have ver := splits_succ final horz
  rw [step] at hor ver
  rcases kind with rfl | rfl | rfl
  · rw [if_neg (not_not.mpr rfl), if_pos (Or.inr rfl)]
    exact level.quarter_iff range
  · rw [if_neg other.symm] at hor
    rw [if_pos rfl, Nat.add_zero] at ver
    rw [if_pos horizontal.symm, if_pos rfl, if_neg other.symm, if_neg (not_or.mpr ⟨isBoth, horizontal.symm⟩),
      if_pos rfl, upper, coord, hor, ver]
    simp only [Geometry.mk.injEq, Int.natCast_inj, high_half range.columns.2.2, true_and, and_true]
    rw [splitBorder_succ, eq_comm, small]
  · rw [if_pos rfl, Nat.add_zero] at hor
    rw [if_neg other] at ver
    rw [if_pos vertical.symm, if_neg other, if_pos rfl, if_neg (not_or.mpr ⟨isBoth, vertical.symm⟩), if_neg other,
      upper, coord, hor, ver]
    simp only [Geometry.mk.injEq, Int.natCast_inj, high_half range.rows.2.2, true_and]
    rw [splitBorder_succ, eq_comm, small]

end Level

/-! ### All levels -/

section

variable {coc : CocMarker} (prior : DfsMarker) (idx : Nat) {types : List Nat} (short : types.length ≤ maxDwtLevel)
  (levels : coc.nl = types.length)

include short levels

/-- Resolution `NL - n` is level `n` of the decomposition. -/
private theorem splits_level (within : n ≤ types.length) :
    (level coc (prior.setTypes idx types.length types) (types.length - n)).Splits types n := by
  obtain ⟨hor, ver⟩ := depths_setTypes prior idx short within
  have index : coc.nl - (types.length - n) = n := by omega
  constructor
  · rw [level, index, hor]
  · rw [level, index, ver]

private theorem type_level (here : types[n]? = some type) :
    (level coc (prior.setTypes idx types.length types) (types.length - n)).type = type := by
  have within := (List.getElem?_eq_some_iff.mp here).1
  have index : coc.nl - (types.length - n) = n := by omega
  rw [level, index, type_setTypes prior idx short here]

end

section

variable {tcp : Geometry} {coc : CocMarker} (prior : DfsMarker) (idx : Nat) {types : List Nat}
  (kinds : ∀ type ∈ types, type = both ∨ type = horz ∨ type = vert) (levels : coc.nl = types.length)
  (range : tcp.Splittable types.length) {ress : List Res}
  (built : parepareTcompStructure tcp (Parser.levels coc (prior.setTypes idx types.length types)) = some ress)

include levels built

private theorem length_built : ress.length = types.length + 1 ∧ types.length ≤ maxDwtLevel := by
  have length := parepareTcompStructure_length built
  rw [Parser.levels, List.length_map, List.length_range, levels] at length
  omega

private theorem res_built {r : Nat} (small : r ≤ types.length) :
    ress[r]? = some ((level coc (prior.setTypes idx types.length types) r).resolution
      (Parser.levels coc (prior.setTypes idx types.length types))[r + 1]? tcp) :=
  parepareTcompStructure_res built (getElem?_levels coc (prior.setTypes idx types.length types) (levels ▸ small))

include kinds range

/-- Resolution `r + 1` is level `n` if the two add up to the number of levels less one. -/
private theorem level_accounted_iff {r : Nat} (place : n + (r + 1) = types.length)
    (here : types[n]? = some type) :
    (∀ lower upper, ress[r]? = some lower → ress[r + 1]? = some upper →
      upper.coord.area = lower.coord.area + (upper.band.map Geometry.area).sum) ↔
    LevelExact tcp types n type := by
  have short := (length_built prior idx levels built).2
  have upper : types.length - n = r + 1 := by omega
  have lower : types.length - (n + 1) = r := by omega
  have splits := splits_level prior idx short levels (n := n) (by omega)
  have below := splits_level prior idx short levels (n := n + 1) (by omega)
  have own := type_level prior idx short levels here
  rw [upper] at splits own
  rw [lower] at below
  have exact_iff := splits.accounted_iff below (by omega) range
    (Parser.levels coc (prior.setTypes idx types.length types))[r + 1 + 1]? (Nat.succ_ne_zero r)
    (show coc.nl - (r + 1) = n by omega) here own (kinds type (List.mem_of_getElem? here))
  rw [← exact_iff]
  have isLower := res_built prior idx levels built (r := r) (by omega)
  have isUpper := res_built prior idx levels built (r := r + 1) (by omega)
  constructor
  · intro all
    exact all _ _ isLower isUpper
  · intro same lower' upper' isLower' isUpper'
    cases isLower'.symm.trans isLower
    cases isUpper'.symm.trans isUpper
    exact same

private theorem lowest_accounted_iff {last : Nat} (final : types[types.length - 1]? = some last) :
    (∀ res, ress[0]? = some res → res.band = [res.coord]) ↔
      LowestExact tcp types (entry prior.type (types.length + 1)) last := by
  have short := (length_built prior idx levels built).2
  have pos : 0 < types.length := by
    have listed := (List.getElem?_eq_some_iff.mp final).1
    omega
  have splits := splits_level prior idx short levels (n := types.length) (Nat.le_refl _)
  have above := splits_level prior idx short levels (n := types.length - 1) (by omega)
  have own := type_level prior idx short levels final
  have first : types.length - (types.length - 1) = 1 := by omega
  rw [Nat.sub_self] at splits
  rw [first] at above own
  have stale : (level coc (prior.setTypes idx types.length types) 0).type = entry prior.type (types.length + 1) := by
    rw [level, levels, Nat.sub_zero, stale_setTypes]
  have exact_iff := splits.lowest_iff above rfl range rfl levels final pos own (kinds last (List.mem_of_getElem? final))
  rw [stale] at exact_iff
  rw [← exact_iff]
  have one : (level coc (prior.setTypes idx types.length types) 0).numBands = 1 := by simp [Level.numBands, level]
  have made := res_built prior idx levels built (Nat.zero_le _)
  rw [getElem?_levels coc _ (by omega)] at made
  have band : ∀ lv : Level, lv.numBands = 1 → ∀ up, (lv.resolution up tcp).band = [lv.bandCoord up tcp 0] := by
    intro lv single up
    rw [Level.resolution, single, List.range_one, List.map_singleton]
  constructor
  · intro all
    have single := all _ made
    rw [band _ one] at single
    exact List.singleton_inj.mp single
  · intro same res' isLowest
    cases isLowest.symm.trans made
    rw [band _ one, same, Level.resolution]

end

/-- The subbands and the lower resolution account for every sample exactly if no level loses any:
at a level that is split one way the two borders are both even or both odd, and otherwise the
depths do not differ by what counts. -/
theorem samples_accounted_iff {tcp : Geometry} {coc : CocMarker} (prior : DfsMarker) (idx : Nat) {types : List Nat}
    (some_level : types ≠ []) (kinds : ∀ type ∈ types, type = both ∨ type = horz ∨ type = vert)
    (levels : coc.nl = types.length) (range : tcp.Splittable types.length) {ress : List Res}
    (built : parepareTcompStructure tcp (Parser.levels coc (prior.setTypes idx types.length types)) = some ress) :
    SamplesAccounted ress ↔ SplitsExact tcp types (entry prior.type (types.length + 1)) := by
  have length := (length_built prior idx levels built).1
  have pos : 0 < types.length := List.length_pos_iff.mpr some_level
  constructor
  · intro accounted
    constructor
    · intro n type here
      have listed := (List.getElem?_eq_some_iff.mp here).1
      have place : n + (types.length - (n + 1) + 1) = types.length := by omega
      exact (level_accounted_iff prior idx kinds levels range built place here).mp (accounted.split _)
    · intro last final
      rw [List.getLast?_eq_getElem?] at final
      exact (lowest_accounted_iff prior idx kinds levels range built final).mp accounted.lowest
  · intro whole
    constructor
    · intro r lower upper isLower isUpper
      have listed : r + 1 < ress.length := (List.getElem?_eq_some_iff.mp isUpper).1
      have place : types.length - (r + 1) + (r + 1) = types.length := by omega
      obtain ⟨type, here⟩ : ∃ type, types[types.length - (r + 1)]? = some type :=
        ⟨_, List.getElem?_eq_getElem (by omega)⟩
      exact (level_accounted_iff prior idx kinds levels range built place here).mpr (whole.levels _ _ here) lower upper
        isLower isUpper
    · obtain ⟨last, final⟩ : ∃ last, types[types.length - 1]? = some last :=
        ⟨_, List.getElem?_eq_getElem (by omega)⟩
      exact (lowest_accounted_iff prior idx kinds levels range built final).mpr
        (whole.lowest last (by rw [List.getLast?_eq_getElem?, final]))

/-- Levels that are all split both ways lose nothing, whatever the borders. -/
theorem splitsExact_of_both (tcp : Geometry) {types : List Nat} (all : ∀ type ∈ types, type = both) {stale : Nat}
    (own : stale ≠ horz ∧ stale ≠ vert) : SplitsExact tcp types stale := by
  have depth {other : Nat} (one_way : other ≠ both) {n : Nat} (within : n ≤ types.length) :
      splits other types n = n := by
    rw [splits, List.countP_eq_length.mpr, List.length_take_of_le within]
    intro type listed
    rw [all type (List.mem_of_mem_take listed)]
    exact decide_eq_true one_way.symm
  constructor
  · intro n type here
    have within := (List.getElem?_eq_some_iff.mp here).1
    rw [all type (List.mem_of_getElem? here), LevelExact, depth (by decide) within.le, depth (by decide) within.le,
      if_neg (by decide), if_neg (by decide), Nat.add_comm]
  · intro last final
    rw [all last (List.mem_of_getLast? final), LowestExact, if_neg own.1, if_neg own.2, if_pos (Or.inr rfl),
      depth (by decide) (Nat.le_refl _), depth (by decide) (Nat.le_refl _)]
    exact ⟨⟨rfl, rfl⟩, rfl, rfl⟩

/-- A component with as many levels as it has types. -/
def splitLevels (types : List Nat) : List Level :=
  levels { toCodMarker := { nl := types.length } } (DfsMarker.setTypes {} 0 types.length types)

theorem samples_accounted_both : ∃ ress, parepareTcompStructure ⟨3, 5, 22, 18⟩ (splitLevels [both, both]) = some ress ∧
    SamplesAccounted ress := by
  obtain ⟨ress, built⟩ : ∃ ress, parepareTcompStructure ⟨3, 5, 22, 18⟩ (splitLevels [both, both]) = some ress :=
    ⟨_, rfl⟩
  refine ⟨ress, built, (samples_accounted_iff {} 0 (by decide) (by decide) rfl ⟨by decide, by decide⟩ built).mpr ?_⟩
  exact splitsExact_of_both _ (by decide) (by decide)

/-- Five columns that are split once horizontally: both halves get three of them. -/
theorem samples_counted_twice : ∃ ress lower upper,
    parepareTcompStructure ⟨0, 0, 5, 1⟩ (splitLevels [horz]) = some ress ∧ ress[0]? = some lower ∧
      ress[1]? = some upper ∧ upper.coord.area = 5 ∧ lower.coord.area = 3 ∧
      upper.band.map Geometry.area = [3] ∧ ¬ SamplesAccounted ress := by
  obtain ⟨ress, built⟩ : ∃ ress, parepareTcompStructure ⟨0, 0, 5, 1⟩ (splitLevels [horz]) = some ress := ⟨_, rfl⟩
  have lower := parepareTcompStructure_res built (r := 0) rfl
  have upper := parepareTcompStructure_res built (r := 1) rfl
  refine ⟨ress, _, _, built, lower, upper, by decide +kernel, by decide +kernel, by decide +kernel, ?_⟩
  intro accounted
  exact absurd (accounted.split 0 _ _ lower upper) (by decide +kernel)

end RtpDecoder.Parser
