import Mathlib.Data.List.Forall2
import RtpDecoder.Lib.Related
import RtpDecoder.Parser.Coverage

/-!
# The two orders of the packets, position by position

The loops of `prepare_precinct_structure` are written twice, for PCRL and for PRCL. At one
position no component and resolution is visited twice, so that the order of the visits does
not reach the cursors: both loops go from position to position with the same cursors, and
differ in the order of the entries of one position only.
-/

namespace RtpDecoder.Parser

open Header

/-! ### The visits of one position -/

namespace Visits

variable {tile : Tile} {st : Visits} {cr : Nat × Nat}

/-- What is next for a resolution is decided by its own cursor. -/
theorem entry_congr {other : Visits} (same : st.cursor cr.1 cr.2 = other.cursor cr.1 cr.2) :
    st.entry tile cr = other.entry tile cr := by
  simp only [entry, same]

theorem next_congr {other : Visits} (same : st.cursor cr.1 cr.2 = other.cursor cr.1 cr.2) :
    st.next tile cr = other.next tile cr := by
  simp only [next, same]

end Visits

variable {plan : Plan} {tile : Tile} {y x : Nat}

/-- The entries that a position gets from the cursors before it. -/
def entriesAt (plan : Plan) (tile : Tile) (y x : Nat) (inner : List (Nat × Nat)) (st : Visits) : List Crp :=
  (inner.filter (plan.onPosition tile y x)).map (st.entry tile)

/-- The cursors behind a position. -/
def cursorAt (plan : Plan) (tile : Tile) (y x : Nat) (inner : List (Nat × Nat)) (st : Visits) (c r : Nat) :
    Nat × Nat :=
  if (c, r) ∈ inner ∧ plan.onPosition tile y x (c, r) then st.next tile (c, r) else st.cursor c r

/-- All the visits of a position at once: as no resolution comes twice, each one is made with
the cursor before the position. -/
theorem foldlM_visit {inner : List (Nat × Nat)} (once : inner.Nodup) (st : Visits) :
    inner.foldlM (visit plan tile y x) st =
      if inner.all (plan.present tile) then
        some ⟨cursorAt plan tile y x inner st, (entriesAt plan tile y x inner st).reverse ++ st.crp⟩
      else none := by
  induction inner generalizing st with
  | nil =>
    have kept : cursorAt plan tile y x [] st = st.cursor := by
      funext c r
      simp [cursorAt]
    simp [kept, entriesAt]
  | cons cr rest ih =>
    have fresh : cr ∉ rest := (List.nodup_cons.mp once).1
    rw [List.foldlM_cons, visit_cases, List.all_cons]
    cases plan.present tile cr with
    | false => rfl
    | true =>
      simp only [if_true, Option.bind_eq_bind, Option.bind_some, Bool.true_and]
      rw [ih (List.nodup_cons.mp once).2]
      split
      swap
      · rfl
      cases here : plan.onPosition tile y x cr with
      -- Off its grid the visit does nothing.
      | false =>
        congr 2
        · funext c r
          have other : ((c, r) = cr ∧ plan.onPosition tile y x (c, r)) ↔ False := by
            constructor
            · rintro ⟨rfl, on⟩
              simp [here] at on
            · exact False.elim
          simp only [cursorAt, List.mem_cons, or_and_right, other, false_or, Bool.false_eq_true, if_false]
        · simp [entriesAt, here]
      | true =>
        -- This visit moves its own cursor, which no later visit of the position looks at.
        have kept : ∀ cr' ∈ rest, (st.add tile cr).cursor cr'.1 cr'.2 = st.cursor cr'.1 cr'.2 :=
          fun cr' listed => Visits.cursor_add_of_ne fun same => fresh (same ▸ listed)
        congr 2
        · funext c r
          simp only [cursorAt, if_true, List.mem_cons]
          by_cases same : (c, r) = cr
          · simp only [same, fresh, true_or, true_and, here, false_and, if_true, if_false]
            exact if_pos same
          · simp only [same, false_or]
            split
            next on => exact Visits.next_congr (kept (c, r) on.1)
            · exact if_neg same
        · have entries : entriesAt plan tile y x rest (st.add tile cr) = entriesAt plan tile y x rest st := by
            apply List.map_congr_left
            intro cr' listed
            exact Visits.entry_congr (kept cr' (List.mem_of_mem_filter listed))
          simp only [if_true, entries]
          simp [entriesAt, here, Visits.add]

/-! ### The entries of each position -/

/-- A position of the two outer loops, and the entries that it adds. -/
structure PositionStep where
  y : Nat
  x : Nat
  entries : List Crp
deriving DecidableEq, Repr

/-- The loops of `prepare_precinct_structure`, with a record of what each position adds. -/
structure Record where
  st : Visits := {}
  steps : List PositionStep := []

def Record.position (plan : Plan) (tile : Tile) (inner : List (Nat × Nat)) (y : Nat) (record : Record)
    (x : Nat) : Option Record :=
  (inner.foldlM (visit plan tile y x) record.st).map fun st =>
    { st
      steps := record.steps ++
        [⟨y, x, (st.crp.take (st.crp.length - record.st.crp.length)).reverse⟩] }

/-- What each position adds to `crp`, `none` inside for an unsupported order. -/
def positionSteps (plan : Plan) (tile : Tile) : Option (Option (List PositionStep)) :=
  match plan.innerOrder with
  | none => some none
  | some inner =>
    if ∀ grid ∈ plan.grids, grid.length ≤ maxDwtLevel + 1 then
      let stepX := 2 ^ plan.grids.flatten.foldl (fun step grid => min step grid.prw) 32
      let stepY := 2 ^ plan.grids.flatten.foldl (fun step grid => min step grid.prh) 32
      do
        let ys ← loopPositions tile.coord.y0 tile.coord.y1 stepY
        let record ← ys.foldlM (fun record y => do
          let xs ← loopPositions tile.coord.x0 tile.coord.x1 stepX
          xs.foldlM (Record.position plan tile inner y) record) ({} : Record)
        some (some record.steps)
    else none

section Related

variable {α β σ τ : Type} {R : σ → τ → Prop} {Q : α → β → Prop}

/-- Two nests of loops over the same rows and columns. -/
theorem rel_loops {f : Nat → σ → Nat → Option σ} {g : Nat → τ → Nat → Option τ} (rows columns : Option (List Nat))
    (step : ∀ y x s t, R s t → Option.Rel R (f y s x) (g y t x)) {s : σ} {t : τ} (start : R s t)
    {h : σ → Option α} {k : τ → Option β} (later : ∀ s t, R s t → Option.Rel Q (h s) (k t)) :
    Option.Rel Q
      (do
        let ys ← rows
        let s ← ys.foldlM (fun s y => do
          let xs ← columns
          xs.foldlM (f y) s) s
        h s)
      (do
        let ys ← rows
        let t ← ys.foldlM (fun t y => do
          let xs ← columns
          xs.foldlM (g y) t) t
        k t) := by
  cases rows with
  | none => exact .none
  | some ys =>
    simp only [Option.bind_eq_bind, Option.bind_some]
    refine rel_bind (rel_foldlM ?_ ys start) later
    intro y s t related
    cases columns with
    | none => exact .none
    | some xs => exact rel_foldlM (step y) xs related

end Related

theorem Record.position_eq {inner : List (Nat × Nat)} (once : inner.Nodup) (record : Record) :
    record.position plan tile inner y x =
      if inner.all (plan.present tile) then
        some
          { st := ⟨cursorAt plan tile y x inner record.st,
              (entriesAt plan tile y x inner record.st).reverse ++ record.st.crp⟩
            steps := record.steps ++ [⟨y, x, entriesAt plan tile y x inner record.st⟩] }
      else none := by
  rw [Record.position, foldlM_visit once]
  split
  · have added : ∀ new old : List Crp, ((new.reverse ++ old).take ((new.reverse ++ old).length - old.length)) =
        new.reverse := by
      intro new old
      rw [List.length_append, Nat.add_sub_cancel, List.take_left]
    simp only [Option.map_some, added, List.reverse_reverse]
  · rfl

/-- The record tells `crp` apart by positions. -/
def Record.Covers (record : Record) (st : Visits) : Prop :=
  record.st = st ∧ record.steps.flatMap PositionStep.entries = st.crp.reverse

theorem Record.Covers.position {inner : List (Nat × Nat)} (once : inner.Nodup) {st : Visits}
    {record : Record} (covers : record.Covers st) (x : Nat) :
    Option.Rel Record.Covers (record.position plan tile inner y x)
      (inner.foldlM (visit plan tile y x) st) := by
  obtain ⟨rfl, told⟩ := covers
  rw [record.position_eq once, foldlM_visit once]
  split
  · refine .some ⟨rfl, ?_⟩
    simp [told]
  · exact .none

theorem nodup_innerOrder {inner : List (Nat × Nat)} (order : plan.innerOrder = some inner) : inner.Nodup := by
  rw [List.nodup_iff_count_le_one]
  rintro ⟨c, r⟩
  rw [count_innerOrder order]
  split <;> omega

private theorem map_of_rel {α β : Type} {f : α → β} {a : Option α} {b : Option β}
    (related : Option.Rel (fun s t => t = f s) a b) : b = a.map f := by
  cases related with
  | none => rfl
  | some same => exact congrArg some same

/-- `crp` is what the positions add, one after the other. -/
theorem preparePrecinctStructure_eq (plan : Plan) (tile : Tile) :
    preparePrecinctStructure plan tile =
      (positionSteps plan tile).map (Option.map (List.flatMap PositionStep.entries)) := by
  simp only [preparePrecinctStructure, positionSteps]
  cases order : plan.innerOrder with
  | none => rfl
  | some inner =>
    simp only
    split
    · apply map_of_rel
      apply rel_loops (R := Record.Covers) _ _ _ ⟨rfl, rfl⟩
      · intro record st covers
        exact .some (congrArg some covers.2.symm)
      · intro y x record st covers
        exact covers.position (nodup_innerOrder order) x
    · rfl

/-! ### PCRL and PRCL -/

/-- A position of both loops: the same entries, by component in the one and by resolution in
the other. -/
structure SameStep (a b : PositionStep) : Prop where
  y : a.y = b.y
  x : a.x = b.x
  perm : a.entries.Perm b.entries
  byComponent : a.entries.Pairwise fun e f => e.c < f.c ∨ e.c = f.c ∧ e.r < f.r
  byResolution : b.entries.Pairwise fun e f => e.r < f.r ∨ e.r = f.r ∧ e.c < f.c

/-- The precinct numbers of a resolution, in the order of its packets. -/
def numbersOf (c r : Nat) (crp : List Crp) : List Nat :=
  (crp.filter fun e => decide (e.c = c ∧ e.r = r)).map Crp.p

/-- One position has at most one packet of a resolution. -/
theorem SameStep.filter_eq {a b : PositionStep} (same : SameStep a b) (c r : Nat) :
    (a.entries.filter fun e => decide (e.c = c ∧ e.r = r)) =
      b.entries.filter fun e => decide (e.c = c ∧ e.r = r) := by
  have perm := same.perm.filter fun e => decide (e.c = c ∧ e.r = r)
  have few := same.byComponent.filter fun e => decide (e.c = c ∧ e.r = r)
  have its : ∀ e ∈ a.entries.filter (fun e => decide (e.c = c ∧ e.r = r)), e.c = c ∧ e.r = r :=
    fun e listed => of_decide_eq_true (List.mem_filter.mp listed).2
  generalize a.entries.filter (fun e => decide (e.c = c ∧ e.r = r)) = mine at perm few its
  match mine with
  | [] => exact (List.nil_perm.mp perm).symm
  | [e] => exact List.singleton_perm.mp perm
  | e :: f :: rest =>
    -- Two entries of one resolution would not be in order.
    have first := its e (by simp)
    have second := its f (by simp)
    have less := (List.pairwise_cons.mp few).1 f (by simp)
    omega

theorem forall₂_perm {a b : List PositionStep} (same : List.Forall₂ SameStep a b) :
    (a.flatMap PositionStep.entries).Perm (b.flatMap PositionStep.entries) := by
  induction same with
  | nil => exact .nil
  | cons first _ ih =>
    rw [List.flatMap_cons, List.flatMap_cons]
    exact first.perm.append ih

theorem forall₂_numbersOf {a b : List PositionStep} (same : List.Forall₂ SameStep a b) (c r : Nat) :
    numbersOf c r (a.flatMap PositionStep.entries) = numbersOf c r (b.flatMap PositionStep.entries) := by
  induction same with
  | nil => rfl
  | cons first _ ih =>
    simp only [numbersOf] at ih ⊢
    rw [List.flatMap_cons, List.flatMap_cons, List.filter_append, List.filter_append, List.map_append,
      List.map_append, first.filter_eq, ih]

theorem innerOrder_pcrl (plan : Plan) : ∃ inner, { plan with order := pcrl }.innerOrder = some inner ∧
    inner.Pairwise fun cr cr' => cr.1 < cr'.1 ∨ cr.1 = cr'.1 ∧ cr.2 < cr'.2 := by
  refine ⟨_, rfl, ?_⟩
  rw [List.pairwise_flatMap]
  refine ⟨?_, ?_⟩
  · intro c _
    rw [List.pairwise_map]
    exact List.pairwise_lt_range.imp fun less => .inr ⟨rfl, less⟩
  · apply List.pairwise_lt_range.imp
    intro c c' less cr first cr' second
    obtain ⟨r, _, rfl⟩ := List.mem_map.mp first
    obtain ⟨r', _, rfl⟩ := List.mem_map.mp second
    exact .inl less

theorem innerOrder_prcl (plan : Plan) : ∃ inner, { plan with order := prcl }.innerOrder = some inner ∧
    inner.Pairwise fun cr cr' => cr.2 < cr'.2 ∨ cr.2 = cr'.2 ∧ cr.1 < cr'.1 := by
  refine ⟨_, rfl, ?_⟩
  rw [List.pairwise_flatMap]
  refine ⟨?_, ?_⟩
  · intro r _
    rw [List.pairwise_map]
    exact (List.pairwise_lt_range.filter _).imp fun less => .inr ⟨rfl, less⟩
  · apply List.pairwise_lt_range.imp
    intro r r' less cr first cr' second
    obtain ⟨c, _, rfl⟩ := List.mem_map.mp first
    obtain ⟨c', _, rfl⟩ := List.mem_map.mp second
    exact .inl less

/-- The cursors agree, and so do the positions so far. -/
structure Alongside (a b : Record) : Prop where
  cursor : a.st.cursor = b.st.cursor
  steps : List.Forall₂ SameStep a.steps b.steps

theorem Alongside.position {a b : Record} (alongside : Alongside a b) {left right : List (Nat × Nat)}
    (perm : left.Perm right) (once : left.Nodup)
    (byComponent : left.Pairwise fun cr cr' => cr.1 < cr'.1 ∨ cr.1 = cr'.1 ∧ cr.2 < cr'.2)
    (byResolution : right.Pairwise fun cr cr' => cr.2 < cr'.2 ∨ cr.2 = cr'.2 ∧ cr.1 < cr'.1) :
    Option.Rel Alongside (a.position plan tile left y x) (b.position plan tile right y x) := by
  -- From the same cursors the same visits are made, in whatever order.
  have entry : a.st.entry tile = b.st.entry tile :=
    funext fun cr => Visits.entry_congr (by rw [alongside.cursor])
  have next : a.st.next tile = b.st.next tile :=
    funext fun cr => Visits.next_congr (by rw [alongside.cursor])
  rw [a.position_eq once, b.position_eq (perm.nodup_iff.mp once), perm.all_eq]
  split
  · refine .some ⟨?_, List.rel_append alongside.steps (.cons ?_ .nil)⟩
    · funext c r
      simp only [cursorAt, next, alongside.cursor, perm.mem_iff]
    · refine ⟨rfl, rfl, ?_, ?_, ?_⟩
      · simp only [entriesAt, entry]
        exact (perm.filter _).map _
      · exact List.pairwise_map.mpr (byComponent.filter _)
      · exact List.pairwise_map.mpr (byResolution.filter _)
  · exact .none

/-- Position by position, the two loops add the same packets. -/
theorem rel_positionSteps (plan : Plan) (tile : Tile) :
    Option.Rel (fun a b => ∃ steps steps', a = some steps ∧ b = some steps' ∧ List.Forall₂ SameStep steps steps')
      (positionSteps { plan with order := pcrl } tile) (positionSteps { plan with order := prcl } tile) := by
  obtain ⟨left, leftOrder, byComponent⟩ := innerOrder_pcrl plan
  obtain ⟨right, rightOrder, byResolution⟩ := innerOrder_prcl plan
  have perm : left.Perm right := by
    -- In both orders every resolution comes once.
    rw [List.perm_iff_count]
    rintro ⟨c, r⟩
    rw [count_innerOrder leftOrder, count_innerOrder rightOrder]
    rfl
  simp only [positionSteps, leftOrder, rightOrder]
  split
  · apply rel_loops (R := Alongside) _ _ _ ⟨rfl, .nil⟩
    · intro a b alongside
      exact .some ⟨_, _, rfl, rfl, alongside.steps⟩
    · intro y x a b alongside
      -- No visit looks at the order.
      have step : Option.Rel Alongside (a.position plan tile left y x) (b.position plan tile right y x) :=
        alongside.position perm (nodup_innerOrder leftOrder) byComponent byResolution
      exact step
  · exact .none

/-- PRCL is a local permutation of PCRL. Either both orders are undefined or both are built;
then they have the same positions, each with the same entries in the order of the inner loops,
every resolution has its precincts in the same order, and the whole is a permutation. -/
theorem prcl_permutes_pcrl (plan : Plan) (tile : Tile) :
    (preparePrecinctStructure { plan with order := pcrl } tile = none ∧
      preparePrecinctStructure { plan with order := prcl } tile = none) ∨
    ∃ steps steps',
      positionSteps { plan with order := pcrl } tile = some (some steps) ∧
      positionSteps { plan with order := prcl } tile = some (some steps') ∧
      List.Forall₂ SameStep steps steps' ∧
      ∃ crp crp',
        preparePrecinctStructure { plan with order := pcrl } tile = some (some crp) ∧
        preparePrecinctStructure { plan with order := prcl } tile = some (some crp') ∧
        crp = steps.flatMap PositionStep.entries ∧ crp' = steps'.flatMap PositionStep.entries ∧
        crp.Perm crp' ∧ ∀ c r, numbersOf c r crp = numbersOf c r crp' := by
  have related := rel_positionSteps plan tile
  rw [preparePrecinctStructure_eq, preparePrecinctStructure_eq]
  generalize positionSteps { plan with order := pcrl } tile = left at related ⊢
  generalize positionSteps { plan with order := prcl } tile = right at related ⊢
  cases related with
  | none => exact .inl ⟨rfl, rfl⟩
  | some supported =>
    obtain ⟨steps, steps', rfl, rfl, same⟩ := supported
    exact .inr ⟨steps, steps', rfl, rfl, same, _, _, rfl, rfl, rfl, rfl, forall₂_perm same,
      forall₂_numbersOf same⟩

end RtpDecoder.Parser
