import Mathlib.Data.List.GetD
import RtpDecoder.Lib.Stride
import RtpDecoder.Parser.Structure

/-!
# What the packet order covers

`prepare_precinct_structure` steps over the tile by the smallest precinct of all and numbers
the packets of each resolution as it finds positions on its grid. How many it finds is a
product of columns and rows, which need not be the number of precincts that the resolution
has.
-/

namespace RtpDecoder.Parser

open Header

/-! ### The positions of the loops -/

/-- A loop that reaches the last position before `2 ^ 32` starts over, and never ends. -/
private theorem positions_wrapped {hi step last : Nat} (divides : step ∣ 2 ^ 32) (inside : last < hi)
    (top : 2 ^ 32 ≤ last + step) (fuel : Nat) {pos : Nat} (small : pos < 2 ^ 32)
    (same : pos % step = last % step) : positions fuel pos hi step = none := by
  induction fuel generalizing pos with
  | zero => rfl
  | succ fuel ih =>
    have le : pos ≤ last := by
      by_contra above
      have steps : step ∣ pos - last := Nat.dvd_of_mod_eq_zero (Nat.sub_mod_eq_zero_of_mod_eq same)
      have := Nat.le_of_dvd (by omega) steps
      omega
    rw [positions, if_pos (by omega), ih (Nat.mod_lt _ (by decide))]
    · rfl
    · rw [Nat.mod_mod_of_dvd _ divides, Nat.add_mod_right, same]

private theorem positions_eq {hi step : Nat} (pos_step : 0 < step) (divides : step ∣ 2 ^ 32)
    (fuel : Nat) {pos : Nat} {l : List Nat} (small : pos < 2 ^ 32)
    (ended : positions fuel pos hi step = some l) : l = stride pos hi step := by
  induction fuel generalizing pos l with
  | zero => cases ended
  | succ fuel ih =>
    simp only [positions] at ended
    split at ended
    next inside =>
      obtain ⟨rest, later, rfl⟩ := Option.map_eq_some_iff.mp ended
      by_cases wraps : 2 ^ 32 ≤ pos + step
      · rw [positions_wrapped divides inside wraps fuel (Nat.mod_lt _ (by decide))] at later
        · cases later
        · rw [Nat.mod_mod_of_dvd _ divides, Nat.add_mod_right]
      · have next := Nat.lt_of_not_le wraps
        rw [Nat.mod_eq_of_lt next] at later
        rw [stride_of_lt pos_step inside, ih next later]
    next beyond =>
      cases ended
      exact (stride_of_le (Nat.not_lt.mp beyond) step).symm

theorem uint32_lt (z : Int) : uint32 z < 2 ^ 32 := by
  simp only [uint32]
  omega

theorem loopPositions_eq {lo hi : Int} {step : Nat} {l : List Nat} (pos_step : 0 < step)
    (divides : step ∣ 2 ^ 32) (ended : loopPositions lo hi step = some l) :
    l = stride (uint32 lo) (uint32 hi) step :=
  positions_eq pos_step divides _ (uint32_lt lo) ended

/-! ### One component and resolution -/

namespace Tile

def resAt (tile : Tile) (c r : Nat) : Res := (tile.tcomp.getD c default).res.getD r default

end Tile

namespace Plan

def gridAt (plan : Plan) (c r : Nat) : Grid := (plan.grids.getD c []).getD r ⟨0, 0, 0, 0⟩

/-- The columns and the rows at which packets of a resolution come. -/
def onColumn (plan : Plan) (tile : Tile) (cr : Nat × Nat) (x : Nat) : Bool :=
  onGrid x (tile.tcomp.getD cr.1 default).subX (plan.gridAt cr.1 cr.2).prw (plan.gridAt cr.1 cr.2).hor
    tile.coord.x0 (tile.resAt cr.1 cr.2).coord.x0

def onRow (plan : Plan) (tile : Tile) (cr : Nat × Nat) (y : Nat) : Bool :=
  onGrid y (tile.tcomp.getD cr.1 default).subY (plan.gridAt cr.1 cr.2).prh (plan.gridAt cr.1 cr.2).ver
    tile.coord.y0 (tile.resAt cr.1 cr.2).coord.y0

/-- The component and the resolution exist. -/
def present (plan : Plan) (tile : Tile) (cr : Nat × Nat) : Bool :=
  (tile.tcomp[cr.1]?.bind fun tcp => tcp.res[cr.2]?).isSome && ((plan.grids[cr.1]?.getD [])[cr.2]?).isSome

/-- The position is on the grid of the resolution. -/
def onPosition (plan : Plan) (tile : Tile) (y x : Nat) (cr : Nat × Nat) : Bool :=
  plan.onColumn tile cr x && plan.onRow tile cr y

end Plan

namespace Visits

/-- The entry that the next packet of a resolution gets. -/
def entry (tile : Tile) (st : Visits) (cr : Nat × Nat) : Crp :=
  ⟨cr.1, cr.2, ((st.cursor cr.1 cr.2).2 * (tile.resAt cr.1 cr.2).npw + (st.cursor cr.1 cr.2).1) % 2 ^ 16⟩

/-- The cursor of a resolution behind its next packet. -/
def next (tile : Tile) (st : Visits) (cr : Nat × Nat) : Nat × Nat :=
  if (st.cursor cr.1 cr.2).1 + 1 = (tile.resAt cr.1 cr.2).npw then (0, (st.cursor cr.1 cr.2).2 + 1)
  else ((st.cursor cr.1 cr.2).1 + 1, (st.cursor cr.1 cr.2).2)

/-- The visit of a resolution that has a packet here. -/
def add (tile : Tile) (st : Visits) (cr : Nat × Nat) : Visits where
  cursor c r := if (c, r) = cr then st.next tile cr else st.cursor c r
  crp := st.entry tile cr :: st.crp

theorem cursor_add_of_ne {tile : Tile} {st : Visits} {cr cr' : Nat × Nat} (apart : cr' ≠ cr) :
    (st.add tile cr).cursor cr'.1 cr'.2 = st.cursor cr'.1 cr'.2 :=
  if_neg apart

end Visits

/-- After `k` packets of a resolution: the cursor stands at number `k`, and the entries have
the numbers before, as far as 16 bits hold them. -/
structure Tracks (npw : Nat) (cr : Nat × Nat) (k : Nat) (st : Visits) : Prop where
  cursor : (st.cursor cr.1 cr.2).2 * npw + (st.cursor cr.1 cr.2).1 = k
  counts : ∀ p, st.crp.count ⟨cr.1, cr.2, p⟩ = (List.range k).countP fun i => i % 2 ^ 16 = p

variable {plan : Plan} {tile : Tile} {cr : Nat × Nat} {k : Nat} {st st' : Visits}

/-- A visit is undefined whatever the cursors are, or adds a packet, or does nothing. -/
theorem visit_cases (plan : Plan) (tile : Tile) (y x : Nat) (st : Visits) (cr : Nat × Nat) :
    visit plan tile y x st cr =
      if plan.present tile cr then some (if plan.onPosition tile y x cr then st.add tile cr else st)
      else none := by
  cases component : tile.tcomp[cr.1]? with
  | none => simp [visit, Plan.present, component]
  | some tcp =>
    cases resolution : tcp.res[cr.2]? with
    | none => simp [visit, Plan.present, component, resolution]
    | some rp =>
      cases level : (plan.grids[cr.1]?.getD [])[cr.2]? with
      | none => simp [visit, Plan.present, component, level]
      | some grid =>
        have present : plan.present tile cr = true := by
          simp [Plan.present, component, resolution, level]
        simp only [visit, component, resolution, level, Option.bind_eq_bind, Option.bind_some, present,
          if_true]
        simp only [Plan.onPosition, Plan.onColumn, Plan.onRow, Plan.gridAt, Tile.resAt, Visits.add,
          Visits.entry, Visits.next, List.getD_eq_getElem?_getD, component, resolution, level,
          Option.getD_some]
        split <;> rfl

private theorem Tracks.add (tracks : Tracks (tile.resAt cr.1 cr.2).npw cr k st) :
    Tracks (tile.resAt cr.1 cr.2).npw cr (k + 1) (st.add tile cr) := by
  have number := tracks.cursor
  refine ⟨?_, ?_⟩
  -- The cursor goes to the next column, or to the next row behind the last one.
  · simp only [Visits.add, Visits.next, if_true]
    split
    · rw [Nat.succ_mul]
      omega
    · simp only
      omega
  · intro p
    simp only [Visits.add, Visits.entry, List.count_cons, tracks.counts, List.range_succ,
      List.countP_append, number]
    simp

private theorem Tracks.add_of_ne {npw : Nat} {cr' : Nat × Nat} (tracks : Tracks npw cr k st) (apart : cr' ≠ cr) :
    Tracks npw cr k (st.add tile cr') := by
  refine ⟨?_, ?_⟩
  · rw [Visits.cursor_add_of_ne apart.symm]
    exact tracks.cursor
  · intro p
    rw [Visits.add, List.count_cons_of_ne, tracks.counts]
    intro equal
    exact apart (Prod.ext (congrArg Crp.c equal) (congrArg Crp.r equal))

private theorem visit_tracks {y x : Nat} {cr' : Nat × Nat}
    (tracks : Tracks (tile.resAt cr.1 cr.2).npw cr k st)
    (went : visit plan tile y x st cr' = some st') :
    Tracks (tile.resAt cr.1 cr.2).npw cr
      (k + (cr' == cr && (plan.onColumn tile cr x && plan.onRow tile cr y)).toNat) st' := by
  rw [visit_cases] at went
  split at went
  swap
  · cases went
  cases went
  by_cases same : cr' = cr
  · subst same
    rw [beq_self_eq_true, Bool.true_and, ← Plan.onPosition]
    cases plan.onPosition tile y x cr' with
    | true => exact tracks.add
    | false => exact tracks
  · have other : (cr' == cr) = false := by simpa using same
    rw [other, Bool.false_and]
    split
    · exact tracks.add_of_ne same
    · exact tracks

/-- Steps that each add at most `n` packets. -/
private theorem foldlM_tracks {α : Type} {f : Visits → α → Option Visits} {npw n : Nat} {p : α → Bool}
    (step : ∀ {st st' : Visits} {a : α} {k : Nat}, Tracks npw cr k st → f st a = some st' →
      Tracks npw cr (k + n * (p a).toNat) st')
    (l : List α) {st st' : Visits} {k : Nat} (tracks : Tracks npw cr k st)
    (folded : l.foldlM f st = some st') : Tracks npw cr (k + n * l.countP p) st' := by
  induction l generalizing st k with
  | nil =>
    cases folded
    exact tracks
  | cons a rest ih =>
    rw [List.foldlM_cons] at folded
    obtain ⟨mid, first, later⟩ := Option.bind_eq_some_iff.mp folded
    have all := ih (step tracks first) later
    rw [List.countP_cons, Nat.mul_add, ← Nat.add_assoc]
    rw [Nat.add_right_comm] at all
    cases here : p a <;> simpa [here] using all

/-! ### The three loops -/

private theorem inner_tracks {inner : List (Nat × Nat)} {y x : Nat}
    (tracks : Tracks (tile.resAt cr.1 cr.2).npw cr k st)
    (folded : inner.foldlM (visit plan tile y x) st = some st') :
    Tracks (tile.resAt cr.1 cr.2).npw cr
      (k + inner.count cr * (plan.onColumn tile cr x && plan.onRow tile cr y).toNat) st' := by
  have all := foldlM_tracks (n := 1)
    (p := fun cr' => cr' == cr && (plan.onColumn tile cr x && plan.onRow tile cr y))
    (fun tracks went => by simpa using visit_tracks tracks went) inner tracks folded
  rw [Nat.one_mul] at all
  cases here : plan.onColumn tile cr x && plan.onRow tile cr y with
  | true => simpa [here, List.count] using all
  | false => simpa [here] using all

private theorem columns_tracks {inner : List (Nat × Nat)} {xs : List Nat} {y : Nat}
    (tracks : Tracks (tile.resAt cr.1 cr.2).npw cr k st)
    (folded : xs.foldlM (fun st x => inner.foldlM (visit plan tile y x) st) st = some st') :
    Tracks (tile.resAt cr.1 cr.2).npw cr
      (k + inner.count cr * xs.countP (plan.onColumn tile cr) * (plan.onRow tile cr y).toNat) st' := by
  have all := foldlM_tracks (n := inner.count cr)
    (p := fun x => plan.onColumn tile cr x && plan.onRow tile cr y)
    (fun tracks went => inner_tracks tracks went) xs tracks folded
  cases here : plan.onRow tile cr y with
  | true => simpa [here] using all
  | false => simpa [here] using all

private theorem rows_tracks {inner : List (Nat × Nat)} {xs : Option (List Nat)} {ys : List Nat}
    (tracks : Tracks (tile.resAt cr.1 cr.2).npw cr k st)
    (folded : ys.foldlM (fun st y => do
      let xs ← xs
      xs.foldlM (fun st x => inner.foldlM (visit plan tile y x) st) st) st = some st') :
    Tracks (tile.resAt cr.1 cr.2).npw cr
      (k + inner.count cr * (xs.getD []).countP (plan.onColumn tile cr) *
        ys.countP (plan.onRow tile cr)) st' := by
  apply foldlM_tracks _ ys tracks folded
  intro st st' y k tracks went
  obtain ⟨columns, found, went⟩ := Option.bind_eq_some_iff.mp went
  rw [found]
  exact columns_tracks tracks went

/-! ### The inner order -/

/-- The number of resolutions of a component. -/
def Plan.resolutions (plan : Plan) (c : Nat) : Nat := (plan.grids[c]?.getD []).length

private theorem pcrl_nodup (count : Nat → Nat) (n : Nat) :
    ((List.range n).flatMap fun c => (List.range (count c)).map fun r => (c, r)).Nodup := by
  rw [List.nodup_flatMap]
  refine ⟨?_, ?_⟩
  · intro c _
    exact List.nodup_range.map fun a b same => congrArg Prod.snd same
  · apply List.nodup_range.pairwise_of_forall_ne
    intro c _ c' _ apart cr first second
    obtain ⟨r, _, rfl⟩ := List.mem_map.mp first
    obtain ⟨r', _, same⟩ := List.mem_map.mp second
    exact apart (congrArg Prod.fst same).symm

private theorem prcl_nodup (inside : Nat → Nat → Bool) (n k : Nat) :
    ((List.range n).flatMap fun r =>
      ((List.range k).filter fun c => inside c r).map fun c => (c, r)).Nodup := by
  rw [List.nodup_flatMap]
  refine ⟨?_, ?_⟩
  · intro r _
    exact (List.nodup_range.filter _).map fun a b same => congrArg Prod.fst same
  · apply List.nodup_range.pairwise_of_forall_ne
    intro r _ r' _ apart cr first second
    obtain ⟨c, _, rfl⟩ := List.mem_map.mp first
    obtain ⟨c', _, same⟩ := List.mem_map.mp second
    exact apart (congrArg Prod.snd same).symm

private theorem le_foldl_max (count : Nat → Nat) (cs : List Nat) {most c : Nat}
    (known : count c ≤ most ∨ c ∈ cs) : count c ≤ cs.foldl (fun most c => max most (count c)) most := by
  induction cs generalizing most with
  | nil => exact known.resolve_right List.not_mem_nil
  | cons c' rest ih =>
    apply ih
    rcases known with small | member
    · exact .inl (Nat.le_trans small (Nat.le_max_left _ _))
    · rcases List.mem_cons.mp member with rfl | later
      · exact .inl (Nat.le_max_right _ _)
      · exact .inr later

theorem count_innerOrder {inner : List (Nat × Nat)} (order : plan.innerOrder = some inner) (c r : Nat) :
    inner.count (c, r) = if c < maxNumComponents ∧ r < plan.resolutions c then 1 else 0 := by
  have once : inner.Nodup ∧
      ((c, r) ∈ inner ↔ c < maxNumComponents ∧ r < plan.resolutions c) := by
    simp only [Plan.innerOrder] at order
    split at order
    · cases order
      refine ⟨pcrl_nodup _ _, ?_⟩
      simp only [List.mem_flatMap, List.mem_map, List.mem_range, Prod.mk.injEq]
      constructor
      · rintro ⟨c', inside, r', small, rfl, rfl⟩
        exact ⟨inside, small⟩
      · rintro ⟨inside, small⟩
        exact ⟨c, inside, r, small, rfl, rfl⟩
    · split at order
      · cases order
        refine ⟨prcl_nodup (fun c r => decide (r < (plan.grids[c]?.getD []).length)) _ _, ?_⟩
        simp only [List.mem_flatMap, List.mem_map, List.mem_filter, List.mem_range, Prod.mk.injEq,
          decide_eq_true_eq]
        constructor
        · rintro ⟨r', _, c', ⟨inside, small⟩, rfl, rfl⟩
          exact ⟨inside, small⟩
        · rintro ⟨inside, small⟩
          refine ⟨r, ?_, c, ⟨inside, small⟩, rfl, rfl⟩
          exact Nat.lt_of_lt_of_le small (le_foldl_max plan.resolutions _
            (.inr (List.mem_range.mpr inside)))
      · cases order
  rw [once.1.count]
  simp only [once.2]

/-! ### Columns and rows by arithmetic -/

/-- How many of the positions from `lo` to `hi` in steps of `step` are on a grid of width `m`.
Off the grid, only the first position counts, if the resolution starts inside a precinct. -/
def gridLines (lo hi step m pr res0 : Nat) : Nat :=
  (if step ∣ lo then hi ⌈/⌉ m - lo ⌈/⌉ m else 0) +
    if lo < hi ∧ ¬ m ∣ lo ∧ ¬ 2 ^ pr ∣ res0 then 1 else 0

private theorem edge_iff {pr depth res0 : Nat} (fits : pr + depth ≤ 32) :
    res0 * 2 ^ depth % 2 ^ 32 % 2 ^ (pr + depth) ≠ 0 ↔ ¬ 2 ^ pr ∣ res0 := by
  rw [Nat.mod_mod_of_dvd _ (Nat.pow_dvd_pow 2 fits), Nat.pow_add, Nat.mul_mod_mul_right, ne_eq,
    Nat.mul_eq_zero, Nat.dvd_iff_mod_eq_zero]
  simp

private theorem countP_or_of_disjoint {α : Type} {p q : α → Bool}
    (disjoint : ∀ a, p a = true → q a = false) (l : List α) :
    l.countP (fun a => p a || q a) = l.countP p + l.countP q := by
  induction l with
  | nil => rfl
  | cons a rest ih =>
    simp only [List.countP_cons, ih]
    cases first : p a with
    | true =>
      simp only [disjoint a first, Bool.true_or, if_true, Bool.false_eq_true, if_false]
      omega
    | false =>
      simp only [Bool.false_or, Bool.false_eq_true, if_false]
      omega

theorem countP_onGrid {sub pr depth step : Nat} {tile0 tile1 res0 : Int} (pos_step : 0 < step)
    (divides : step ∣ 2 ^ pr) (pos_sub : 0 < sub) (fits : sub * 2 ^ (pr + depth) < 2 ^ 32) :
    (stride (uint32 tile0) (uint32 tile1) step).countP (fun x => onGrid x sub pr depth tile0 res0) =
      gridLines (uint32 tile0) (uint32 tile1) step (sub * 2 ^ (pr + depth)) pr (uint32 res0) := by
  have positive : 0 < sub * 2 ^ (pr + depth) := Nat.mul_pos pos_sub (Nat.two_pow_pos _)
  have whole : step ∣ sub * 2 ^ (pr + depth) := by
    rw [Nat.pow_add]
    exact Dvd.dvd.mul_left (divides.mul_right _) sub
  have small : pr + depth ≤ 32 := by
    have bound : 2 ^ (pr + depth) < 2 ^ 32 :=
      Nat.lt_of_le_of_lt (Nat.le_mul_of_pos_left _ pos_sub) fits
    exact Nat.le_of_lt ((Nat.pow_lt_pow_iff_right (by decide)).mp bound)
  rw [gridLines, ← countP_dvd_stride pos_step positive whole,
    ← countP_first_stride pos_step (¬ sub * 2 ^ (pr + depth) ∣ uint32 tile0 ∧ ¬ 2 ^ pr ∣ uint32 res0),
    ← countP_or_of_disjoint]
  · apply List.countP_congr
    intro x _
    simp only [onGrid, Nat.mod_eq_of_lt fits, Bool.or_eq_true, Bool.and_eq_true, decide_eq_true_eq,
      edge_iff small, ← Nat.dvd_iff_mod_eq_zero]
    constructor
    · rintro (grid | ⟨first, edge⟩)
      · exact .inl grid
      · by_cases grid : sub * 2 ^ (pr + depth) ∣ x
        · exact .inl grid
        · exact .inr ⟨first, first ▸ grid, edge⟩
    · rintro (grid | ⟨first, _, edge⟩)
      · exact .inl grid
      · exact .inr ⟨first, edge⟩
  · intro x grid
    rw [decide_eq_false_iff_not]
    rintro ⟨rfl, off, _⟩
    exact off (of_decide_eq_true grid)

private theorem gridLines_of_le {lo hi : Nat} (empty : hi ≤ lo) (step m pr res0 : Nat) :
    gridLines lo hi step m pr res0 = 0 := by
  have none_between : hi ⌈/⌉ m - lo ⌈/⌉ m = 0 := by
    apply Nat.sub_eq_zero_of_le
    rcases Nat.eq_zero_or_pos m with rfl | positive
    · simp
    · rw [ceilDiv_le_iff_le_mul positive]
      exact Nat.le_trans empty ((ceilDiv_le_iff_le_mul positive).mp (Nat.le_refl _))
  simp [gridLines, none_between, Nat.not_lt.mpr empty]

namespace Plan

/-- The exponents of the steps of the two loops. -/
def stepExpX (plan : Plan) : Nat := plan.grids.flatten.foldl (fun step grid => min step grid.prw) 32
def stepExpY (plan : Plan) : Nat := plan.grids.flatten.foldl (fun step grid => min step grid.prh) 32

/-- The columns and rows of a resolution in which the loops find a position on its grid. -/
def columns (plan : Plan) (tile : Tile) (c r : Nat) : Nat :=
  let grid := plan.gridAt c r
  gridLines (uint32 tile.coord.x0) (uint32 tile.coord.x1) (2 ^ plan.stepExpX)
    ((tile.tcomp.getD c default).subX * 2 ^ (grid.prw + grid.hor)) grid.prw
    (uint32 (tile.resAt c r).coord.x0)

def rows (plan : Plan) (tile : Tile) (c r : Nat) : Nat :=
  let grid := plan.gridAt c r
  gridLines (uint32 tile.coord.y0) (uint32 tile.coord.y1) (2 ^ plan.stepExpY)
    ((tile.tcomp.getD c default).subY * 2 ^ (grid.prh + grid.ver)) grid.prh
    (uint32 (tile.resAt c r).coord.y0)

/-- What the marker structs have room for. -/
def Fits (plan : Plan) : Prop :=
  ∀ grid ∈ plan.grids.flatten, grid.prw < 16 ∧ grid.prh < 16 ∧
    grid.hor ≤ maxDwtLevel ∧ grid.ver ≤ maxDwtLevel

end Plan

private theorem foldl_min_le {α : Type} (f : α → Nat) (l : List α) {start : Nat} :
    l.foldl (fun step a => min step (f a)) start ≤ start ∧
      ∀ a ∈ l, l.foldl (fun step a => min step (f a)) start ≤ f a := by
  induction l generalizing start with
  | nil => exact ⟨Nat.le_refl _, fun _ member => nomatch member⟩
  | cons a rest ih =>
    obtain ⟨below, each⟩ : rest.foldl _ (min start (f a)) ≤ _ ∧ _ := ih
    refine ⟨Nat.le_trans below (Nat.min_le_left _ _), ?_⟩
    intro b member
    rcases List.mem_cons.mp member with rfl | later
    · exact Nat.le_trans below (Nat.min_le_right _ _)
    · exact each b later

/-- Whatever a loop over a list does, it does with each of its elements. -/
private theorem exists_of_foldlM {α σ : Type} {f : σ → α → Option σ} (l : List α) {s s' : σ}
    (folded : l.foldlM f s = some s') {a : α} (member : a ∈ l) : ∃ u u', f u a = some u' := by
  induction l generalizing s with
  | nil => cases member
  | cons b rest ih =>
    rw [List.foldlM_cons] at folded
    obtain ⟨mid, first, later⟩ := Option.bind_eq_some_iff.mp folded
    rcases List.mem_cons.mp member with rfl | member
    · exact ⟨s, mid, first⟩
    · exact ih later member

private theorem tcomp_of_visit {y x : Nat} (went : visit plan tile y x st cr = some st') :
    cr.1 < tile.tcomp.length := by
  by_contra beyond
  have none_there : tile.tcomp[cr.1]? = none := List.getElem?_eq_none (Nat.not_lt.mp beyond)
  simp [visit, none_there] at went

private theorem prepare_inv {crp : List Crp}
    (prepared : preparePrecinctStructure plan tile = some (some crp)) :
    ∃ inner ys st, plan.innerOrder = some inner ∧
      loopPositions tile.coord.y0 tile.coord.y1 (2 ^ plan.stepExpY) = some ys ∧
      ys.foldlM (fun st y => do
        let xs ← loopPositions tile.coord.x0 tile.coord.x1 (2 ^ plan.stepExpX)
        xs.foldlM (fun st x => inner.foldlM (visit plan tile y x) st) st) ({} : Visits) = some st ∧
      crp = st.crp.reverse := by
  simp only [preparePrecinctStructure] at prepared
  split at prepared
  · cases prepared
  next inner order =>
    split at prepared
    · obtain ⟨ys, rows, rest⟩ := Option.bind_eq_some_iff.mp prepared
      obtain ⟨st, folded, result⟩ := Option.bind_eq_some_iff.mp rest
      cases result
      exact ⟨inner, ys, st, order, rows, folded, rfl⟩
    · cases prepared

/-- The components of a tile have a sampling that is a byte and not zero. -/
def Tile.Sampled (tile : Tile) : Prop :=
  ∀ tcp ∈ tile.tcomp, (0 < tcp.subX ∧ tcp.subX < 256) ∧ 0 < tcp.subY ∧ tcp.subY < 256

private theorem countP_onGrid_of_fits {sub pr depth step : Nat} {tile0 tile1 res0 : Int}
    (smaller : step ≤ pr) (sampled : 0 < sub ∧ sub < 256) (small : pr < 16) (shallow : depth ≤ maxDwtLevel) :
    (stride (uint32 tile0) (uint32 tile1) (2 ^ step)).countP
        (fun x => onGrid x sub pr depth tile0 res0) =
      gridLines (uint32 tile0) (uint32 tile1) (2 ^ step) (sub * 2 ^ (pr + depth)) pr (uint32 res0) := by
  apply countP_onGrid (Nat.two_pow_pos step) (Nat.pow_dvd_pow 2 smaller) sampled.1
  have room : pr + depth ≤ 20 := by
    have : maxDwtLevel = 5 := rfl
    omega
  calc sub * 2 ^ (pr + depth) ≤ 255 * 2 ^ 20 :=
        Nat.mul_le_mul (by omega) (Nat.pow_le_pow_right (by decide) room)
    _ < 2 ^ 32 := by decide

/-- With a row there are columns, and with a column the component of every visit exists. -/
private theorem columns_of_row {inner : List (Nat × Nat)} {xs : Option (List Nat)} {ys : List Nat} {y : Nat}
    (folded : ys.foldlM (fun st y => do
      let xs ← xs
      xs.foldlM (fun st x => inner.foldlM (visit plan tile y x) st) st) st = some st')
    (member : y ∈ ys) (listed : cr ∈ inner) :
    ∃ columns, xs = some columns ∧ ∀ x ∈ columns, cr.1 < tile.tcomp.length := by
  obtain ⟨u, u', row⟩ := exists_of_foldlM ys folded member
  obtain ⟨columns, found, line⟩ := Option.bind_eq_some_iff.mp row
  refine ⟨columns, found, ?_⟩
  intro x inside
  obtain ⟨_, _, position⟩ := exists_of_foldlM columns line inside
  obtain ⟨_, _, went⟩ := exists_of_foldlM inner position listed
  exact tcomp_of_visit went

private theorem first_mem_stride {lo hi step : Nat} (some : lo < hi) (pos : 0 < step) : lo ∈ stride lo hi step :=
  (mem_stride pos).mpr ⟨Nat.le_refl _, some, by simp⟩

private theorem gridAt_mem {c r : Nat} (small : r < plan.resolutions c) : plan.gridAt c r ∈ plan.grids.flatten := by
  simp only [Plan.resolutions] at small
  cases component : plan.grids[c]? with
  | none => simp [component] at small
  | some grids =>
    rw [component, Option.getD_some] at small
    rw [List.mem_flatten]
    refine ⟨grids, List.mem_of_getElem? component, ?_⟩
    simp only [Plan.gridAt, List.getD_eq_getElem?_getD, component, Option.getD_some,
      List.getElem?_eq_getElem small]
    exact List.getElem_mem small

/-- The columns and rows that the loops find are those of the arithmetic; a component that does
not exist is only left alone by loops that find no position. -/
private theorem found_eq (fits : plan.Fits) (sampled : tile.Sampled) {inner : List (Nat × Nat)}
    {ys : List Nat} {c r : Nat} (small : r < plan.resolutions c) (listed : (c, r) ∈ inner)
    (rows : loopPositions tile.coord.y0 tile.coord.y1 (2 ^ plan.stepExpY) = some ys)
    (folded : ys.foldlM (fun st y => do
      let xs ← loopPositions tile.coord.x0 tile.coord.x1 (2 ^ plan.stepExpX)
      xs.foldlM (fun st x => inner.foldlM (visit plan tile y x) st) st) st = some st') :
    ((loopPositions tile.coord.x0 tile.coord.x1 (2 ^ plan.stepExpX)).getD []).countP
        (plan.onColumn tile (c, r)) * ys.countP (plan.onRow tile (c, r)) =
      if c < tile.tcomp.length then plan.columns tile c r * plan.rows tile c r else 0 := by
  have member := gridAt_mem small
  obtain ⟨narrow, low, shallow, shallow'⟩ := fits _ member
  obtain ⟨below, smaller⟩ : plan.stepExpX ≤ 32 ∧ _ := foldl_min_le Grid.prw plan.grids.flatten
  obtain ⟨below', smaller'⟩ : plan.stepExpY ≤ 32 ∧ _ := foldl_min_le Grid.prh plan.grids.flatten
  have ysStride := loopPositions_eq (Nat.two_pow_pos _) (Nat.pow_dvd_pow 2 below') rows
  by_cases tall : uint32 tile.coord.y0 < uint32 tile.coord.y1
  · have first : uint32 tile.coord.y0 ∈ ys := ysStride ▸ first_mem_stride tall (Nat.two_pow_pos _)
    obtain ⟨xs, found, exist⟩ := columns_of_row folded first listed
    have xsStride := loopPositions_eq (Nat.two_pow_pos _) (Nat.pow_dvd_pow 2 below) found
    rw [found, Option.getD_some]
    by_cases wide : uint32 tile.coord.x0 < uint32 tile.coord.x1
    · have component := exist _ (xsStride ▸ first_mem_stride wide (Nat.two_pow_pos _))
      have sampling := sampled _ (List.getElem_mem component)
      rw [← List.getD_eq_getElem _ default component] at sampling
      have columns : xs.countP (plan.onColumn tile (c, r)) = plan.columns tile c r :=
        xsStride ▸ countP_onGrid_of_fits (smaller _ member) sampling.1 narrow shallow
      have rows : ys.countP (plan.onRow tile (c, r)) = plan.rows tile c r :=
        ysStride ▸ countP_onGrid_of_fits (smaller' _ member) sampling.2 low shallow'
      rw [columns, rows, if_pos component]
    · have empty := Nat.not_lt.mp wide
      rw [xsStride, stride_of_le empty, Plan.columns, gridLines_of_le empty, List.countP_nil,
        Nat.zero_mul, Nat.zero_mul, ite_self]
  · have empty := Nat.not_lt.mp tall
    rw [ysStride, stride_of_le empty, Plan.rows, gridLines_of_le empty, List.countP_nil, Nat.mul_zero,
      Nat.mul_zero, ite_self]

/-- The packets of a resolution are numbered from 0 on, as many as it has columns and rows. -/
theorem count_crp (fits : plan.Fits) (sampled : tile.Sampled)
    (room : tile.tcomp.length ≤ maxNumComponents) {crp : List Crp}
    (prepared : preparePrecinctStructure plan tile = some (some crp)) (c r p : Nat) :
    crp.count ⟨c, r, p⟩ =
      (List.range (if c < tile.tcomp.length ∧ r < plan.resolutions c then
        plan.columns tile c r * plan.rows tile c r else 0)).countP fun i => i % 2 ^ 16 = p := by
  obtain ⟨inner, ys, st, order, rows, folded, rfl⟩ := prepare_inv prepared
  have start : Tracks (tile.resAt c r).npw (c, r) 0 {} := ⟨by simp, fun _ => rfl⟩
  have tracks : Tracks _ (c, r) _ st := rows_tracks start folded
  have once := count_innerOrder order c r
  rw [List.count_reverse, tracks.counts, Nat.zero_add, once]
  by_cases inside : c < maxNumComponents ∧ r < plan.resolutions c
  · rw [if_pos inside] at once ⊢
    have listed : (c, r) ∈ inner := List.count_pos_iff.mp (by omega)
    rw [Nat.one_mul, found_eq fits sampled inside.2 listed rows folded]
    simp only [inside.2, and_true]
  · have outside : ¬ (c < tile.tcomp.length ∧ r < plan.resolutions c) :=
      fun both => inside ⟨Nat.lt_of_lt_of_le both.1 room, both.2⟩
    rw [if_neg inside, if_neg outside, Nat.zero_mul, Nat.zero_mul]

end RtpDecoder.Parser
