import Mathlib.Data.Vector.Basic

/-!
# Marker segments of the main header

The marker structs that `parse_main_header` fills and `create` reads. A `tile_handler`
starts with all of them zero and keeps them across frames. Arrays have the source's length,
and are read through `entry` and written through `fillFrom`.
-/

namespace RtpDecoder.Header

def maxNumComponents : Nat := 3
def maxDwtLevel : Nat := 5

/-! ### Arrays -/

/-- `v[i]`. The source reads one entry beyond an array, `type[6]`, where the next member
starts with a 0 that nothing overwrites. -/
def entry {n : Nat} (v : Vector Nat n) (i : Nat) : Nat := v[i]?.getD 0

/-- The array after the entries from `k` on were written. -/
def fillFrom {n : Nat} (v : Vector Nat n) (k : Nat) (values : List Nat) : Vector Nat n :=
  Vector.ofFn fun i => if k ≤ i.val then values[i.val - k]?.getD (entry v i) else entry v i

theorem entry_beyond {n : Nat} (v : Vector Nat n) {i : Nat} (beyond : n ≤ i) : entry v i = 0 := by
  rw [entry, Vector.getElem?_eq_none beyond, Option.getD_none]

theorem entry_replicate (n i : Nat) : entry (Vector.replicate n 0) i = 0 := by
  rw [entry, Vector.getElem?_replicate]
  split <;> rfl

theorem entry_fillFrom {n : Nat} (v : Vector Nat n) (k : Nat) (values : List Nat) (i : Nat) :
    entry (fillFrom v k values) i =
      if k ≤ i ∧ i < n then values[i - k]?.getD (entry v i) else entry v i := by
  by_cases inside : i < n
  · have here : entry (fillFrom v k values) i =
        if k ≤ i then values[i - k]?.getD (entry v i) else entry v i := by
      conv_lhs => rw [entry, Vector.getElem?_eq_getElem inside]
      simp only [fillFrom, Vector.getElem_ofFn, Option.getD_some]
    simp only [here, inside, and_true]
  · simp only [entry_beyond _ (Nat.not_lt.mp inside), inside, and_false, if_false]

theorem entry_fillFrom_kept {n : Nat} (v : Vector Nat n) {k i : Nat} {values : List Nat}
    (outside : i < k ∨ k + values.length ≤ i) : entry (fillFrom v k values) i = entry v i := by
  rw [entry_fillFrom]
  split
  next inside =>
    have after : values.length ≤ i - k := by omega
    rw [List.getElem?_eq_none after, Option.getD_none]
  · rfl

/-- Two arrays into which the same values were written agree wherever these stand. -/
theorem entry_fillFrom_congr {n : Nat} {v w : Vector Nat n} {k i : Nat} {values : List Nat}
    (kept : (i < k ∨ k + values.length ≤ i) → entry v i = entry w i) :
    entry (fillFrom v k values) i = entry (fillFrom w k values) i := by
  by_cases outside : i < k ∨ k + values.length ≤ i
  · rw [entry_fillFrom_kept v outside, entry_fillFrom_kept w outside]
    exact kept outside
  · have written : i - k < values.length := by omega
    rw [entry_fillFrom, entry_fillFrom, List.getElem?_eq_getElem written]
    split
    · rfl
    next beyond =>
      have outside : n ≤ i := by omega
      rw [entry_beyond v outside, entry_beyond w outside]

/-! ### Structs -/

structure SizMarker where
  rsiz : Nat := 0
  xsiz : Nat := 0
  ysiz : Nat := 0
  xOsiz : Nat := 0
  yOsiz : Nat := 0
  xTsiz : Nat := 0
  yTsiz : Nat := 0
  xTOsiz : Nat := 0
  yTOsiz : Nat := 0
  csiz : Nat := 0
  ssiz : Vector Nat maxNumComponents := .replicate _ 0
  xRsiz : Vector Nat maxNumComponents := .replicate _ 0
  yRsiz : Vector Nat maxNumComponents := .replicate _ 0
deriving DecidableEq, Repr

/-- The fields other than those of the components. -/
def SizMarker.frame (siz : SizMarker) : SizMarker :=
  { siz with ssiz := .replicate _ 0, xRsiz := .replicate _ 0, yRsiz := .replicate _ 0 }

/-- `SSO` is left out: no function writes it. -/
structure CodMarker where
  maxPrecinct : Bool := false
  useSOP : Bool := false
  useEPH : Bool := false
  useHOffset : Bool := false
  useVOffset : Bool := false
  useBlkcoderExtension : Bool := false
  progressionOrder : Nat := 0
  numLayers : Nat := 0
  mct : Nat := 0
  nl : Nat := 0
  cbw : Nat := 0
  cbh : Nat := 0
  cbs : Nat := 0
  transform : Nat := 0
  prw : Vector Nat (maxDwtLevel + 1) := .replicate _ 0
  prh : Vector Nat (maxDwtLevel + 1) := .replicate _ 0
deriving DecidableEq, Repr

/-- `coc_marker` has the fields of `cod_marker`, its own index and the precinct steps. -/
structure CocMarker extends CodMarker where
  idx : Nat := 0
  stepX : Nat := 0
  stepY : Nat := 0
deriving DecidableEq, Repr

structure QcdMarker where
  type : Nat := 0
  numGuardBits : Nat := 0
  exponent : Vector Nat (maxDwtLevel * 3 + 1) := .replicate _ 0
  mantissa : Vector Nat (maxDwtLevel * 3 + 1) := .replicate _ 0
deriving DecidableEq, Repr

structure DfsMarker where
  idx : Nat := 0
  idfs : Nat := 0
  type : Vector Nat (maxDwtLevel + 1) := .replicate _ 0
  hOrient : Vector Nat (maxDwtLevel + 1) := .replicate _ 0
  vOrient : Vector Nat (maxDwtLevel + 1) := .replicate _ 0
  horDepth : Vector Nat (maxDwtLevel + 1) := .replicate _ 0
  verDepth : Vector Nat (maxDwtLevel + 1) := .replicate _ 0
deriving DecidableEq, Repr

/-- The marker members of one `tile_handler`. -/
structure Markers where
  siz : SizMarker := {}
  cod : CodMarker := {}
  cocs : Vector CocMarker maxNumComponents := .replicate _ {}
  qcd : QcdMarker := {}
  dfs : DfsMarker := {}
deriving DecidableEq, Repr, Inhabited

def Markers.coc (m : Markers) (c : Nat) : CocMarker := m.cocs[c]?.getD {}

theorem Markers.cocs_ext {m m' : Markers} (same : ∀ c < maxNumComponents, m.coc c = m'.coc c) : m.cocs = m'.cocs := by
  apply Vector.ext
  intro c inside
  have eq := same c inside
  simpa only [coc, Vector.getElem?_eq_getElem inside, Option.getD_some] using eq

theorem Markers.coc_beyond (m : Markers) {c : Nat} (beyond : maxNumComponents ≤ c) : m.coc c = {} := by
  rw [coc, Vector.getElem?_eq_none beyond, Option.getD_none]

theorem Markers.coc_fresh (c : Nat) : ({} : Markers).coc c = {} := by
  rw [coc, Vector.getElem?_replicate]
  split <;> rfl

end RtpDecoder.Header
