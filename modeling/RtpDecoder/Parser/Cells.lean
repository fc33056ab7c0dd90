import Mathlib.Data.List.Nodup
import RtpDecoder.Parser.TileHandler

/-!
# The cells of a precinct

`parse_packet_header` goes through a precinct cell by cell: a code-block with the leaf nodes
of the two tag trees that belong to it. What it does to one cell leaves the others alone.
-/

namespace RtpDecoder.Parser

/-- A code-block and its nodes. -/
structure Cell where
  incl : TagNode
  zbp : TagNode
  blk : Blk
deriving DecidableEq, Repr

namespace Prec

/-- The cell of a code-block, which is given by its subband and its number there. -/
def cell (prec : Prec) (place : Nat × Nat) : Cell where
  incl := (prec.band place.1).incl.getD place.2 default
  zbp := (prec.band place.1).zbp.getD place.2 default
  blk := (prec.band place.1).blk.getD place.2 default

def setCell (prec : Prec) (place : Nat × Nat) (cell : Cell) : Prec :=
  prec.setBand place.1
    { incl := (prec.band place.1).incl.set place.2 cell.incl
      zbp := (prec.band place.1).zbp.set place.2 cell.zbp
      blk := (prec.band place.1).blk.set place.2 cell.blk }

/-- The precinct has this code-block. -/
def HasBlock (prec : Prec) (place : Nat × Nat) : Prop :=
  place.1 < prec.pband.length ∧ place.2 < (prec.band place.1).blk.length

theorem block_eq (prec : Prec) (place : Nat × Nat) : prec.block place = (prec.cell place).blk := rfl

theorem setBlock_eq (prec : Prec) (place : Nat × Nat) (blk : Blk) :
    prec.setBlock place blk = prec.setCell place { prec.cell place with blk := blk } := by
  have keeps (nodes : List TagNode) : nodes.set place.2 (nodes.getD place.2 default) = nodes := by
    by_cases inside : place.2 < nodes.length
    · rw [List.getD_eq_getElem _ _ inside, List.set_getElem_self]
    · exact List.set_eq_of_length_le (Nat.le_of_not_lt inside)
  simp only [setBlock, setCell, cell, keeps]

@[simp] theorem blockOrder_setCell (prec : Prec) (place : Nat × Nat) (cell : Cell) :
    (prec.setCell place cell).blockOrder = prec.blockOrder := rfl

section

variable {prec : Prec} {place other : Nat × Nat} {c : Cell}

private theorem band_setBand (prec : Prec) (b b' : Nat) (pband : Pband) :
    (prec.setBand b pband).band b' = if b = b' ∧ b < prec.pband.length then pband else prec.band b' := by
  simp only [band, setBand, List.getD_eq_getElem?_getD, List.getElem?_set]
  by_cases same : b = b'
  · by_cases inside : b < prec.pband.length
    · simp only [same, same ▸ inside, if_true, and_self, Option.getD_some]
    · have outside : prec.pband[b']? = none := List.getElem?_eq_none (same ▸ Nat.le_of_not_lt inside)
      simp only [same, same ▸ inside, and_false, if_true, if_false, outside]
  · simp only [same, false_and, if_false]

/-- What is stored where an array is long enough. -/
def clip (prec : Prec) (place : Nat × Nat) (c : Cell) : Cell where
  incl := if place.1 < prec.pband.length ∧ place.2 < (prec.band place.1).incl.length then c.incl else default
  zbp := if place.1 < prec.pband.length ∧ place.2 < (prec.band place.1).zbp.length then c.zbp else default
  blk := if place.1 < prec.pband.length ∧ place.2 < (prec.band place.1).blk.length then c.blk else default

theorem cell_setCell_same (prec : Prec) (place : Nat × Nat) (c : Cell) :
    (prec.setCell place c).cell place = prec.clip place c := by
  have stored {α : Type} (l : List α) (a d : α) :
      (l.set place.2 a).getD place.2 d = if place.2 < l.length then a else d := by
    rw [List.getD_eq_getElem?_getD, List.getElem?_set, if_pos rfl]
    split <;> rfl
  simp only [cell, setCell, band_setBand, clip]
  by_cases inside : place.1 < prec.pband.length
  · simp only [inside, and_self, if_true, true_and, stored]
  · have outside : prec.band place.1 = default := List.getD_eq_default _ _ (Nat.le_of_not_lt inside)
    simp only [inside, and_false, false_and, if_false, outside]
    rfl

theorem block_of_not_has (has : ¬ prec.HasBlock place) : (prec.cell place).blk = default := by
  by_cases inside : place.1 < prec.pband.length
  · have short : (prec.band place.1).blk.length ≤ place.2 := Nat.le_of_not_lt fun inner => has ⟨inside, inner⟩
    exact List.getD_eq_default _ _ short
  · have outside : prec.band place.1 = default := List.getD_eq_default _ _ (Nat.le_of_not_lt inside)
    simp only [cell, outside]
    rfl

theorem block_setCell_same (has : prec.HasBlock place) : ((prec.setCell place c).cell place).blk = c.blk := by
  rw [cell_setCell_same]
  exact if_pos has

theorem cell_setCell_other (apart : other ≠ place) : (prec.setCell place c).cell other = prec.cell other := by
  simp only [cell, setCell, band_setBand]
  split
  next same =>
    have index : place.2 ≠ other.2 := fun index => apart (Prod.ext same.1.symm index.symm)
    simp only [List.getD_eq_getElem?_getD, List.getElem?_set, if_neg index, same.1]
  · rfl

end

/-! ### Shapes -/

/-- Two precincts whose arrays are equally long. -/
structure SameShape (p q : Prec) : Prop where
  fields : p.coord = q.coord ∧ p.resNum = q.resNum ∧ p.numBands = q.numBands ∧ p.ncbw = q.ncbw ∧
    p.ncbh = q.ncbh
  bands : p.pband.length = q.pband.length
  incl : ∀ b, (p.band b).incl.length = (q.band b).incl.length
  zbp : ∀ b, (p.band b).zbp.length = (q.band b).zbp.length
  blk : ∀ b, (p.band b).blk.length = (q.band b).blk.length

section

variable {p q r : Prec} {place : Nat × Nat} {c : Cell}

theorem SameShape.refl (p : Prec) : SameShape p p :=
  ⟨⟨rfl, rfl, rfl, rfl, rfl⟩, rfl, fun _ => rfl, fun _ => rfl, fun _ => rfl⟩

theorem SameShape.symm (same : SameShape p q) : SameShape q p := by
  obtain ⟨⟨coord, num, bands, width, height⟩, lists, incl, zbp, blk⟩ := same
  exact ⟨⟨coord.symm, num.symm, bands.symm, width.symm, height.symm⟩, lists.symm, fun b => (incl b).symm,
    fun b => (zbp b).symm, fun b => (blk b).symm⟩

theorem SameShape.trans (first : SameShape p q) (second : SameShape q r) : SameShape p r := by
  obtain ⟨⟨coord, num, bands, width, height⟩, lists, incl, zbp, blk⟩ := first
  obtain ⟨⟨coord', num', bands', width', height'⟩, lists', incl', zbp', blk'⟩ := second
  exact ⟨⟨coord.trans coord', num.trans num', bands.trans bands', width.trans width', height.trans height'⟩,
    lists.trans lists', fun b => (incl b).trans (incl' b), fun b => (zbp b).trans (zbp' b),
    fun b => (blk b).trans (blk' b)⟩

theorem sameShape_setCell (p : Prec) (place : Nat × Nat) (c : Cell) : SameShape (p.setCell place c) p := by
  have lengths {α : Type} (f : Pband → List α) (b : Nat)
      (set : (f { incl := (p.band place.1).incl.set place.2 c.incl
                  zbp := (p.band place.1).zbp.set place.2 c.zbp
                  blk := (p.band place.1).blk.set place.2 c.blk }).length = (f (p.band place.1)).length) :
      (f ((p.setCell place c).band b)).length = (f (p.band b)).length := by
    rw [setCell, band_setBand]
    split
    next here => rw [set, here.1]
    · rfl
  exact ⟨⟨rfl, rfl, rfl, rfl, rfl⟩, List.length_set, fun b => lengths Pband.incl b List.length_set,
    fun b => lengths Pband.zbp b List.length_set, fun b => lengths Pband.blk b List.length_set⟩

/-- The precinct with every code-block changed in the same way. -/
def mapBlk (f : Blk → Blk) (prec : Prec) : Prec :=
  { prec with pband := prec.pband.map fun pband => { pband with blk := pband.blk.map f } }

private theorem band_mapBlk (f : Blk → Blk) (prec : Prec) (b : Nat) :
    (prec.mapBlk f).band b = { prec.band b with blk := (prec.band b).blk.map f } := by
  simp only [band, mapBlk, List.getD_eq_getElem?_getD, List.getElem?_map]
  cases prec.pband[b]? <;> rfl

theorem cell_mapBlk {f : Blk → Blk} (absent : f default = default) (prec : Prec) (place : Nat × Nat) :
    (prec.mapBlk f).cell place = { prec.cell place with blk := f (prec.cell place).blk } := by
  simp only [cell, band_mapBlk, List.getD_eq_getElem?_getD, List.getElem?_map]
  cases (prec.band place.1).blk[place.2]? with
  | none => simp only [Option.map_none, Option.getD_none, absent]
  | some blk => rfl

theorem sameShape_mapBlk (f : Blk → Blk) (prec : Prec) : SameShape (prec.mapBlk f) prec where
  fields := ⟨rfl, rfl, rfl, rfl, rfl⟩
  bands := List.length_map _
  incl b := by rw [band_mapBlk]
  zbp b := by rw [band_mapBlk]
  blk b := by rw [band_mapBlk, List.length_map]

theorem mapBlk_mapBlk (f g : Blk → Blk) (prec : Prec) : (prec.mapBlk f).mapBlk g = prec.mapBlk (g ∘ f) := by
  simp only [mapBlk, List.map_map, Function.comp_def]

theorem SameShape.hasBlock (same : SameShape p q) (place : Nat × Nat) : p.HasBlock place ↔ q.HasBlock place := by
  rw [HasBlock, HasBlock, same.bands, same.blk]

/-- A loop over different places finds the later ones as they were. -/
theorem cell_setCell_later {places : List (Nat × Nat)} {place other : Nat × Nat} {c : Cell} (outside : place ∉ places)
    (member : other ∈ places) : (p.setCell place c).cell other = p.cell other :=
  cell_setCell_other fun same => outside (same ▸ member)

theorem hasBlock_setCell_later {places : List (Nat × Nat)} {place : Nat × Nat} {c : Cell}
    (has : ∀ other ∈ place :: places, p.HasBlock other) : ∀ other ∈ places, (p.setCell place c).HasBlock other :=
  fun other member => ((sameShape_setCell _ _ _).hasBlock other).mpr (has other (List.mem_cons_of_mem _ member))

theorem SameShape.clip (same : SameShape p q) : p.clip = q.clip := by
  funext place c
  simp only [Prec.clip, same.bands, same.incl, same.zbp, same.blk]

theorem SameShape.blockOrder (same : SameShape p q) : p.blockOrder = q.blockOrder := by
  obtain ⟨_, _, bands, width, height⟩ := same.fields
  simp only [Prec.blockOrder, Prec.numBlocks, bands, width, height]

theorem SameShape.ext (same : SameShape p q) (cells : ∀ place, p.cell place = q.cell place) : p = q := by
  have list {α : Type} {l m : List α} {d : α} (length : l.length = m.length)
      (entries : ∀ i, l.getD i d = m.getD i d) : l = m := by
    apply List.ext_getElem length
    intro i here there
    have entry := entries i
    rwa [List.getD_eq_getElem _ _ here, List.getD_eq_getElem _ _ there] at entry
  -- Every array of a subband is given by its entries, which are parts of cells.
  have bands : p.pband = q.pband := by
    refine list (d := default) same.bands fun b => ?_
    have incl : (p.band b).incl = (q.band b).incl :=
      list (same.incl b) fun i => congrArg Cell.incl (cells (b, i))
    have zbp : (p.band b).zbp = (q.band b).zbp := list (same.zbp b) fun i => congrArg Cell.zbp (cells (b, i))
    have blk : (p.band b).blk = (q.band b).blk := list (same.blk b) fun i => congrArg Cell.blk (cells (b, i))
    change p.band b = q.band b
    generalize p.band b = left at incl zbp blk
    generalize q.band b = right at incl zbp blk
    cases left
    cases right
    simp only at incl zbp blk
    rw [incl, zbp, blk]
  obtain ⟨coord, num, numBands, width, height⟩ := same.fields
  cases p
  cases q
  simp only at bands coord num numBands width height
  rw [bands, coord, num, numBands, width, height]

end

theorem cell_setBlock_other {prec : Prec} {place other : Nat × Nat} (apart : other ≠ place) (blk : Blk) :
    (prec.setBlock place blk).cell other = prec.cell other := by
  rw [setBlock_eq]
  exact cell_setCell_other apart

/-- A body changes nothing else that is looked at later. -/
theorem withBody_eq (blk : Blk) (data : Option (List UInt8)) :
    ∃ scup, withBody blk data = { blk with data := data, scup := scup } := by
  cases data with
  | none => exact ⟨blk.scup, rfl⟩
  | some bytes =>
    simp only [withBody]
    split
    · exact ⟨blk.scup, rfl⟩
    · exact ⟨_, rfl⟩

theorem data_withBody (blk : Blk) (data : Option (List UInt8)) : (withBody blk data).data = data := by
  obtain ⟨scup, eq⟩ := withBody_eq blk data
  rw [eq]

theorem nodup_blockOrder (prec : Prec) : prec.blockOrder.Nodup :=
  List.nodup_range.product List.nodup_range

theorem mem_blockOrder {prec : Prec} {place : Nat × Nat} :
    place ∈ prec.blockOrder ↔ place.1 < prec.numBands ∧ place.2 < prec.numBlocks := by
  simp [blockOrder, Prod.ext_iff]

/-- A tag tree has a node for every code-block, if its nodes can be counted, which
`tag_tree_size` asserts. -/
theorem numBlocks_le_tagTreeSize {prec : Prec}
    (counted : tagTreeSizeLoop 33 prec.ncbw prec.ncbh 0 + 1 < 2 ^ 31 - 1) :
    prec.numBlocks ≤ tagTreeSize prec.ncbw prec.ncbh := by
  have size : tagTreeSize prec.ncbw prec.ncbh = tagTreeSizeLoop 33 prec.ncbw prec.ncbh 0 + 1 :=
    Nat.mod_eq_of_lt (by omega)
  have count : prec.numBlocks ≤ prec.ncbw * prec.ncbh := Nat.mod_le _ _
  rw [size]
  exact Nat.le_trans count (mul_le_tagTreeSizeLoop _ _)

/-! ### Behind `restart` -/

private theorem band_restart (prec : Prec) (b : Nat) :
    prec.restart.band b =
      if b < prec.numBands then
        { incl := tagTreeZero (prec.band b).incl prec.ncbw prec.ncbh
          zbp := tagTreeZero (prec.band b).zbp prec.ncbw prec.ncbh
          blk := (prec.band b).blk.mapIdx fun i blk => if i < prec.numBlocks then blk.restart else blk }
      else prec.band b := by
  simp only [band, restart, List.getD_eq_getElem?_getD, List.getElem?_mapIdx]
  cases prec.pband[b]? with
  | none => split <;> rfl
  | some pband =>
    simp only [Option.map_some, Option.getD_some]

theorem cell_restart (prec : Prec) (place : Nat × Nat) :
    prec.restart.cell place =
      if place.1 < prec.numBands then
        { incl := if place.2 < tagTreeSize prec.ncbw prec.ncbh then {} else (prec.cell place).incl
          zbp := if place.2 < tagTreeSize prec.ncbw prec.ncbh then {} else (prec.cell place).zbp
          blk := if place.2 < prec.numBlocks then (prec.cell place).blk.restart else (prec.cell place).blk }
      else prec.cell place := by
  have entry {α : Type} (l : List α) (f : Nat → α → α) (d : α) (kept : f place.2 d = d) :
      (l.mapIdx f).getD place.2 d = f place.2 (l.getD place.2 d) := by
    rw [List.getD_eq_getElem?_getD, List.getD_eq_getElem?_getD, List.getElem?_mapIdx]
    cases l[place.2]? with
    | none => exact kept.symm
    | some a => rfl
  simp only [cell, band_restart]
  split
  · simp only [tagTreeZero]
    rw [entry _ _ _ (by split <;> rfl), entry _ _ _ (by split <;> rfl), entry _ _ _ (by split <;> rfl)]
  · rfl

theorem sameShape_restart (prec : Prec) : SameShape prec.restart prec := by
  have lengths {α : Type} (f : Pband → List α) (b : Nat)
      (set : (f { incl := tagTreeZero (prec.band b).incl prec.ncbw prec.ncbh
                  zbp := tagTreeZero (prec.band b).zbp prec.ncbw prec.ncbh
                  blk := (prec.band b).blk.mapIdx fun i blk =>
                    if i < prec.numBlocks then blk.restart else blk }).length = (f (prec.band b)).length) :
      (f (prec.restart.band b)).length = (f (prec.band b)).length := by
    rw [band_restart]
    split
    · exact set
    · rfl
  exact ⟨⟨rfl, rfl, rfl, rfl, rfl⟩, List.length_mapIdx, fun b => lengths Pband.incl b List.length_mapIdx,
    fun b => lengths Pband.zbp b List.length_mapIdx, fun b => lengths Pband.blk b List.length_mapIdx⟩

theorem restart_restart (prec : Prec) : prec.restart.restart = prec.restart := by
  have bands : prec.restart.numBands = prec.numBands := rfl
  have blocks : prec.restart.numBlocks = prec.numBlocks := rfl
  have nodes : tagTreeSize prec.restart.ncbw prec.restart.ncbh = tagTreeSize prec.ncbw prec.ncbh := rfl
  refine (sameShape_restart _).ext fun place => ?_
  rw [cell_restart, bands, blocks, nodes, cell_restart]
  by_cases band : place.1 < prec.numBands
  · simp only [if_pos band]
    congr 1 <;> split <;> rfl
  · simp only [if_neg band]

end Prec

end RtpDecoder.Parser
