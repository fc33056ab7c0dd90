import RtpDecoder.Parser.Cells

/-!
# A packet and what earlier frames have left behind

A code-block keeps the fields of earlier frames that neither `restart` nor the packet writes.
Here a packet is read twice: on a precinct as it is, and on the same precinct with all such
fields forgotten. Both times it takes the same bytes and succeeds or fails alike, and what
remains from before is told field by field. One such field does matter to a packet: where the
style does not set it anyway, a placeholder flag from before stays on.
-/

namespace RtpDecoder.Parser

open BitProgram

variable {cbs : Nat}

/-! ### One code-block -/

/-- A relation between nodes of tag trees that the decoder keeps, such as equality. -/
structure TagNode.Decodes (N : TagNode → TagNode → Prop) : Prop where
  refl : ∀ node, N node node
  val : ∀ {node node'}, N node node' → node.val = node'.val
  decode : ∀ {node node'}, N node node' → ∀ threshold,
    InStep N (tagTreeDecode node threshold) (tagTreeDecode node' threshold)

theorem TagNode.decodes_eq : Decodes Eq where
  refl _ := rfl
  val same := same ▸ rfl
  decode := by
    rintro node _ rfl threshold
    exact inStep_self _

namespace Blk

/-- A code-block without what no later packet takes into account. -/
def forget (blk : Blk) : Blk where
  coord := blk.coord
  passLengths0 := blk.passLengths0
  passLengths1 := blk.passLengths1
  length := blk.length
  npasses := blk.npasses

/-- What a packet of this style takes into account. The placeholder flag counts where the style
does not set it. -/
def view (cbs : Nat) (blk : Blk) : Blk := { blk.forget with htPlhd := blk.htPlhd && !decide (cmodeHt ≤ cbs) }

theorem forget_view (cbs : Nat) : forget ∘ view cbs = forget := rfl

/-- The body of the code-block `x` behind the header fields of `blk`. -/
def carry (x blk : Blk) : Blk := { blk with data := x.data, scup := x.scup }

/-- The fields of a code-block that its segments in a packet header do not change. The
placeholder flag can only be cleared. -/
structure Kept (blk blk' : Blk) : Prop where
  coord : blk'.coord = blk.coord
  incl : blk'.incl = blk.incl
  zbp : blk'.zbp = blk.zbp
  plhd : blk'.htPlhd = true → blk.htPlhd = true

theorem Kept.refl (blk : Blk) : Kept blk blk := ⟨rfl, rfl, rfl, id⟩

variable {x blk : Blk}

/-- The outcomes of a first segment, with and without the body of `x`. -/
inductive Opened (x blk : Blk) : Option Segment → Option Segment → Prop where
  | refused : Opened x blk none none
  | opened {seg seg' : Segment} (carried : seg = { seg' with blk := x.carry seg'.blk })
    (kept : Kept blk seg'.blk) : Opened x blk (some seg) (some seg')

private theorem inStep_placeholderSegment (newpasses : Nat) :
    InStep (Opened x blk) (placeholderSegment (x.carry blk) newpasses) (placeholderSegment blk newpasses) := by
  refine inStep_ite (fun _ => ?_) (fun _ => ?_)
  · refine inStep_bind _ fun bytes => inStep_ite (fun _ => ?_) (fun _ => inStep_ite (fun _ => ?_) (fun _ => ?_))
    · exact inStep_pure (.opened rfl (Kept.refl blk))
    · exact inStep_pure (.opened rfl ⟨rfl, rfl, rfl, by simp⟩)
    · exact inStep_pure .refused
  · refine inStep_bind _ fun bytes => inStep_ite (fun _ => ?_) (fun _ => ?_)
    · refine inStep_ite (fun _ => inStep_ite (fun _ => ?_) (fun _ => ?_))
        (fun _ => inStep_ite (fun _ => ?_) (fun _ => inStep_bind _ fun bytes => ?_))
      · exact inStep_pure .refused
      · exact inStep_pure (.opened rfl ⟨rfl, rfl, rfl, by simp⟩)
      · exact inStep_pure (.opened rfl ⟨rfl, rfl, rfl, by simp⟩)
      · exact inStep_pure (.opened rfl ⟨rfl, rfl, rfl, by simp⟩)
    · refine inStep_bind _ fun bytes => inStep_ite (fun _ => ?_) (fun _ => inStep_ite (fun _ => ?_) (fun _ => ?_))
      · exact inStep_pure (.opened rfl (Kept.refl blk))
      · exact inStep_pure (.opened rfl ⟨rfl, rfl, rfl, by simp⟩)
      · exact inStep_pure .refused

private theorem inStep_firstSegment (newpasses : Nat) :
    InStep (Opened x blk) (firstSegment (x.carry blk) newpasses) (firstSegment blk newpasses) := by
  refine inStep_ite (fun _ => inStep_placeholderSegment newpasses) (fun _ => ?_)
  refine inStep_ite (fun _ => inStep_bind _ fun bytes => ?_) (fun _ => ?_)
  · exact inStep_pure (.opened rfl ⟨rfl, rfl, rfl, id⟩)
  refine inStep_ite (fun _ => inStep_bind _ fun bytes => ?_) (fun _ => ?_)
  · exact inStep_pure (.opened rfl (Kept.refl blk))
  refine inStep_ite (fun _ => inStep_bind _ fun bytes => ?_) (fun _ => inStep_bind _ fun bytes => ?_)
  · exact inStep_pure (.opened rfl (Kept.refl blk))
  · exact inStep_pure (.opened rfl (Kept.refl blk))

theorem Kept.trans {a b c : Blk} (first : Kept a b) (second : Kept b c) : Kept a c :=
  ⟨second.coord.trans first.coord, second.incl.trans first.incl, second.zbp.trans first.zbp,
    first.plhd ∘ second.plhd⟩

private theorem inStep_htSegments (fuel newpasses next : Nat) (b : Blk) (kept : Kept blk b) :
    InStep (fun c c' => c = x.carry c' ∧ Kept blk c') (htSegments fuel newpasses next (x.carry b))
      (htSegments fuel newpasses next b) := by
  induction fuel generalizing newpasses next b with
  | zero => exact inStep_pure ⟨rfl, kept⟩
  | succ fuel ih =>
    refine inStep_ite (fun _ => inStep_pure ⟨rfl, kept⟩) (fun _ => inStep_bind _ fun bytes => ?_)
    exact ih _ _
      { b with
        passLengths1 := (b.passLengths1 + bytes) % 2 ^ 32
        npasses := (b.npasses + if 1 < newpasses then next else 1) % 256 }
      ⟨kept.coord, kept.incl, kept.zbp, kept.plhd⟩

private theorem inStep_otherSegments (threshold fuel newpasses next : Nat) (b : Blk) (kept : Kept blk b) :
    InStep (fun r r' => r = (r'.1, x.carry r'.2) ∧ Kept blk r'.2)
      (otherSegments threshold fuel newpasses next (x.carry b))
      (otherSegments threshold fuel newpasses next b) := by
  induction fuel generalizing newpasses next b with
  | zero => exact inStep_pure ⟨rfl, kept⟩
  | succ fuel ih =>
    refine inStep_ite (fun _ => inStep_pure ⟨rfl, kept⟩) (fun _ => ?_)
    refine inStep_ite (fun _ => inStep_bind _ fun bytes => ?_) (fun _ => ?_)
    · exact ih _ _ { b with npasses := (b.npasses + if 1 < newpasses then next else 1) % 256 }
        ⟨kept.coord, kept.incl, kept.zbp, kept.plhd⟩
    refine inStep_ite (fun _ => inStep_pure ⟨rfl, kept⟩) (fun _ => inStep_bind _ fun bytes => ?_)
    exact ih _ _ { b with npasses := (b.npasses + 1) % 256 }
      ⟨kept.coord, kept.incl, kept.zbp, kept.plhd⟩

/-- The segments of an included code-block do not look at an old body. -/
theorem inStep_parseIncluded (x blk : Blk) :
    InStep (fun r r' => r = (r'.1, x.carry r'.2) ∧ Kept blk r'.2) (parseIncluded (x.carry blk))
      (parseIncluded blk) := by
  refine inStep_bind _ fun newpasses => ?_
  refine inStep_ite (fun _ => inStep_pure ⟨rfl, Kept.refl blk⟩) (fun _ => ?_)
  refine inStep_bind _ fun llen => ?_
  refine inStep_ite (fun _ => inStep_pure ⟨rfl, Kept.refl blk⟩) (fun _ => ?_)
  have lengthened : Kept blk { blk with lblock := blk.lblock + llen } := ⟨rfl, rfl, rfl, id⟩
  have first : InStep (Opened x { blk with lblock := blk.lblock + llen })
      (firstSegment (x.carry { blk with lblock := blk.lblock + llen }) newpasses)
      (firstSegment { blk with lblock := blk.lblock + llen } newpasses) := inStep_firstSegment newpasses
  refine first.bind fun o o' outcome => ?_
  cases outcome with
  | refused => exact inStep_pure ⟨rfl, lengthened⟩
  | @opened _ seg carried kept =>
    subst carried
    have counted : Kept blk { seg.blk with npasses := (seg.blk.npasses + seg.passes) % 256 } :=
      lengthened.trans ⟨kept.coord, kept.incl, kept.zbp, kept.plhd⟩
    refine inStep_ite (fun _ => ?_) (fun _ => ?_)
    swap
    · exact inStep_otherSegments _ _ _ _ { seg.blk with npasses := (seg.blk.npasses + seg.passes) % 256 } counted
    have further : InStep (fun c c' => c = x.carry c' ∧ Kept blk c') _ _ :=
      inStep_htSegments (sub32 newpasses seg.passes) (sub32 newpasses seg.passes) seg.nextPasses _ counted
    refine further.bind fun c c' same => ?_
    obtain ⟨rfl, kept⟩ := same
    exact inStep_pure ⟨rfl, kept⟩

/-- Whether a packet takes a code-block for one without a cleanup pass so far. -/
def placeholder (cbs : Nat) (blk : Blk) : Bool := blk.htPlhd || decide (cmodeHt ≤ cbs)

/-- An included code-block in front of its passes, with so many zero bit-planes. -/
def included (cbs planes : Nat) (blk : Blk) : Blk :=
  { blk with modes := cbs, htPlhd := blk.placeholder cbs, incl := 1, zbp := planes, lblock := 3 }

/-- An included code-block gets the zero bit-planes that its tag tree stands for: passes and lengths
leave them alone. -/
theorem zbp_parseBlock {σ : Type} (src : BitSource σ) {u : σ} (cbs : Nat) {incl zbp : TagNode} (blk : Blk)
    (included : ((tagTreeDecode incl 1).run src u).1.val = 0) :
    ((parseBlock cbs incl zbp blk).run src u).1.2.2.2.zbp =
      ((tagTreeDecode zbp 14).run src ((tagTreeDecode incl 1).run src u).2).1.val % 256 := by
  simp only [parseBlock, run_bind, if_pos included]
  generalize (tagTreeDecode zbp 14).run src ((tagTreeDecode incl 1).run src u).2 = planes
  have kept := ((inStep_parseIncluded default (blk.included cbs (planes.1.val % 256))).run src planes.2).1.2.zbp
  refine Eq.trans ?_ kept
  change (if ((parseIncluded _).run src planes.2).1.1 = true then _ else _ : Blk).zbp = _
  split
  · rfl
  · rfl

/-- What a packet makes of a code-block `x` as it is, and of `x` with the rest forgotten. They agree
in what later packets take into account, and in inclusion and bit-planes if the packet includes
the code-block; otherwise these are those of `x`. The placeholder flag does not come on but by
the style. -/
structure Read (cbs : Nat) (x blk clean : Blk) : Prop where
  view : blk.view cbs = clean.view cbs
  coord : blk.coord = x.coord
  incl : blk.incl = if clean.incl = 1 then 1 else x.incl
  zbp : blk.zbp = if clean.incl = 1 then clean.zbp else x.zbp
  plhd : cbs < cmodeHt → blk.htPlhd = true → x.htPlhd = true

theorem view_view (cbs : Nat) (blk : Blk) : (blk.view cbs).view cbs = blk.view cbs := by
  simp only [view, Blk.forget, Bool.and_assoc, Bool.and_self]

theorem placeholder_view (cbs : Nat) (blk : Blk) : (blk.view cbs).placeholder cbs = blk.placeholder cbs := by
  simp only [placeholder, view]
  cases blk.htPlhd <;> cases decide (cmodeHt ≤ cbs) <;> rfl

/-- Both are taken for a code-block without a cleanup pass, or none of them is. -/
theorem included_view (cbs planes : Nat) (x : Blk) :
    x.included cbs planes = x.carry ((x.view cbs).included cbs planes) := by
  simp only [included, placeholder_view]
  rfl

theorem plhd_of_placeholder (low : cbs < cmodeHt) (set : x.placeholder cbs = true) : x.htPlhd = true := by
  simpa [placeholder, Nat.not_le.mpr low] using set

theorem read_self (cbs : Nat) (x : Blk) : Read cbs x x (x.view cbs) :=
  ⟨(view_view cbs x).symm, rfl, rfl, rfl, fun _ => id⟩

/-- One turn of the block loop, with related nodes; the body is not touched. -/
theorem inStep_parseBlock {N : TagNode → TagNode → Prop} (decodes : TagNode.Decodes N) (cbs : Nat) (x : Blk)
    {incl zbp incl' zbp' : TagNode} (node : N incl incl') (planes : N zbp zbp') :
    InStep (fun r r' => r.1 = r'.1 ∧ N r.2.1 r'.2.1 ∧ N r.2.2.1 r'.2.2.1 ∧ Read cbs x r.2.2.2 r'.2.2.2 ∧
        r.2.2.2.data = x.data)
      (parseBlock cbs incl zbp x) (parseBlock cbs incl' zbp' (x.view cbs)) := by
  simp only [parseBlock]
  refine (decodes.decode node 1).bind fun incl incl' node => ?_
  rw [decodes.val node]
  refine inStep_ite (fun _ => ?_) (fun _ => ?_)
  · refine (decodes.decode planes 14).bind fun zbp zbp' planes => ?_
    rw [decodes.val planes]
    have first := inStep_parseIncluded x ((x.view cbs).included cbs (zbp'.val % 256))
    rw [← included_view] at first
    refine first.bind ?_
    rintro _ ⟨went, blk⟩ ⟨rfl, kept⟩
    have read (length : Nat) : Read cbs x (x.carry { blk with length := length }) { blk with length := length } :=
      ⟨rfl, kept.coord, kept.incl.trans (if_pos kept.incl).symm, (if_pos kept.incl).symm,
        fun low set => plhd_of_placeholder low (placeholder_view cbs x ▸ kept.plhd set)⟩
    cases went with
    | false => exact inStep_pure ⟨rfl, node, planes, read blk.length, rfl⟩
    | true => exact inStep_pure ⟨rfl, node, planes, read _, rfl⟩
  · refine inStep_pure ⟨rfl, node, planes, ⟨?_, rfl, rfl, rfl, plhd_of_placeholder⟩, rfl⟩
    exact congrArg
      (fun flag => view cbs { x with length := (x.passLengths0 + x.passLengths1) % 2 ^ 32, htPlhd := flag })
      (placeholder_view cbs x).symm

end Blk

/-! ### All code-blocks -/

def Cell.view (cbs : Nat) (cell : Cell) : Cell := { cell with blk := cell.blk.view cbs }

/-- A cell that the packet has left alone, or has read. -/
structure Cell.Read (N : TagNode → TagNode → Prop) (cbs : Nat) (x cell clean : Cell) : Prop where
  incl : N cell.incl clean.incl
  zbp : N cell.zbp clean.zbp
  blk : Blk.Read cbs x.blk cell.blk clean.blk

namespace Prec

/-- A precinct without what no later packet takes into account. -/
def forget : Prec → Prec := mapBlk Blk.forget

/-- What a packet of this style takes into account. -/
def view (cbs : Nat) : Prec → Prec := mapBlk (Blk.view cbs)

theorem cell_view (cbs : Nat) (prec : Prec) (place : Nat × Nat) :
    (prec.view cbs).cell place = (prec.cell place).view cbs := cell_mapBlk rfl prec place

theorem forget_view (cbs : Nat) (prec : Prec) : (prec.view cbs).forget = prec.forget := by
  rw [view, forget, mapBlk_mapBlk, Blk.forget_view]

/-- The placeholder flags are all that a view has in addition. -/
theorem view_eq {p q : Prec} (same : p.forget = q.forget)
    (flags : cbs < cmodeHt → ∀ place, (p.block place).htPlhd = (q.block place).htPlhd) : p.view cbs = q.view cbs := by
  have shape : SameShape (p.view cbs) (q.view cbs) := by
    have forgotten : SameShape p.forget q := same ▸ sameShape_mapBlk Blk.forget q
    exact (sameShape_mapBlk _ p).trans
      (((sameShape_mapBlk _ p).symm.trans forgotten).trans (sameShape_mapBlk _ q).symm)
  refine shape.ext fun place => ?_
  have cells := congrArg (cell · place) same
  simp only [forget, cell_mapBlk (f := Blk.forget) rfl, Cell.mk.injEq] at cells
  obtain ⟨incl, zbp, blk⟩ := cells
  have flag : ((p.cell place).blk.htPlhd && !decide (cmodeHt ≤ cbs)) =
      ((q.cell place).blk.htPlhd && !decide (cmodeHt ≤ cbs)) := by
    by_cases low : cbs < cmodeHt
    · rw [← block_eq, ← block_eq, flags low place]
    · simp [Nat.le_of_not_lt low]
  simp only [cell_view, Cell.view, Blk.view, incl, zbp, blk, flag]

section

variable {N : TagNode → TagNode → Prop} {cbs : Nat} {prior start cur clean : Prec}

/-- A precinct that shows a packet what `prior` does, and has forgotten the rest. -/
structure Shows (N : TagNode → TagNode → Prop) (cbs : Nat) (prior start : Prec) : Prop where
  shape : SameShape start prior
  incl : ∀ place, N (prior.cell place).incl (start.cell place).incl
  zbp : ∀ place, N (prior.cell place).zbp (start.cell place).zbp
  blk : ∀ place, (start.cell place).blk = (prior.cell place).blk.view cbs

theorem shows_view (prior : Prec) (cbs : Nat) : Shows Eq cbs prior (prior.view cbs) :=
  ⟨sameShape_mapBlk _ prior, fun place => by rw [cell_view]; rfl, fun place => by rw [cell_view]; rfl,
    fun place => by rw [cell_view]; rfl⟩

/-- A packet in progress: what it has made of the precinct as it is, and forgotten. -/
structure Beside (N : TagNode → TagNode → Prop) (cbs : Nat) (prior cur clean : Prec) : Prop where
  shape : SameShape cur prior
  cleanShape : SameShape clean prior
  cells : ∀ place, Cell.Read N cbs (prior.cell place) (cur.cell place) (clean.cell place)

theorem Shows.beside (shown : Shows N cbs prior start) : Beside N cbs prior prior start := by
  refine ⟨.refl prior, shown.shape, fun place => ⟨shown.incl place, shown.zbp place, ?_⟩⟩
  rw [shown.blk]
  exact Blk.read_self cbs _

theorem Beside.alike (beside : Beside N cbs prior cur clean) : SameShape cur clean :=
  beside.shape.trans beside.cleanShape.symm

/-- Only the body of the place itself can be another one, and only if there is a code-block. -/
theorem data_setCell (cur : Prec) {place : Nat × Nat} (c : Cell) (same : c.blk.data = (cur.cell place).blk.data)
    (other : Nat × Nat) : ((cur.setCell place c).cell other).blk.data = (cur.cell other).blk.data := by
  by_cases here : other = place
  · subst here
    by_cases has : cur.HasBlock other
    · rw [block_setCell_same has, same]
    · rw [block_of_not_has has, block_of_not_has fun there => has (((sameShape_setCell _ _ _).hasBlock _).mp there)]
  · rw [cell_setCell_other here]

/-- Related cells are stored in both, or lost in both where an array is too short. -/
theorem Beside.setCell (decodes : TagNode.Decodes N) (beside : Beside N cbs prior cur clean) {place : Nat × Nat}
    {c c' : Cell} (read : Cell.Read N cbs (prior.cell place) c c') :
    Beside N cbs prior (cur.setCell place c) (clean.setCell place c') := by
  refine ⟨(sameShape_setCell _ _ _).trans beside.shape, (sameShape_setCell _ _ _).trans beside.cleanShape, ?_⟩
  intro other
  by_cases here : other = place
  · subst here
    rw [cell_setCell_same, cell_setCell_same, beside.alike.clip]
    refine ⟨?_, ?_, ?_⟩
    · simp only [clip]
      split
      · exact read.incl
      · exact decodes.refl _
    · simp only [clip]
      split
      · exact read.zbp
      · exact decodes.refl _
    · by_cases has : clean.HasBlock other
      · have stored (c : Cell) : (clean.clip other c).blk = c.blk := if_pos has
        rw [stored, stored]
        exact read.blk
      -- Where there is no code-block, both have the default.
      · have lost (c : Cell) : (clean.clip other c).blk = default := if_neg has
        have absent : (prior.cell other).blk = default :=
          block_of_not_has fun there => has ((beside.cleanShape.hasBlock other).mpr there)
        rw [lost, lost, absent]
        exact Blk.read_self cbs default
  · rw [cell_setCell_other here, cell_setCell_other here]
    exact beside.cells other

/-- Outcomes of the block loop: those places that it does not visit keep their cells. -/
structure HeaderRead (N : TagNode → TagNode → Prop) (cbs : Nat) (prior cur : Prec) (places : List (Nat × Nat))
    (r r' : Bool × Prec) : Prop where
  went : r.1 = r'.1
  beside : Beside N cbs prior r.2 r'.2
  others : ∀ place, place ∉ places → r.2.cell place = cur.cell place
  bodies : ∀ place, (r.2.cell place).blk.data = (cur.cell place).blk.data

theorem parseBlocks_cons (cbs : Nat) (place : Nat × Nat) (rest : List (Nat × Nat)) (prec : Prec) :
    parseBlocks cbs (place :: rest) prec =
      parseBlock cbs (prec.cell place).incl (prec.cell place).zbp (prec.cell place).blk >>= fun r =>
        if r.1 then parseBlocks cbs rest (prec.setCell place ⟨r.2.1, r.2.2.1, r.2.2.2⟩)
        else pure (false, prec.setCell place ⟨r.2.1, r.2.2.1, r.2.2.2⟩) := rfl

theorem inStep_parseBlocks (decodes : TagNode.Decodes N) {places : List (Nat × Nat)} (nodup : places.Nodup)
    (shown : Shows N cbs prior start) (beside : Beside N cbs prior cur clean)
    (ahead : ∀ place ∈ places, cur.cell place = prior.cell place ∧ clean.cell place = start.cell place) :
    InStep (HeaderRead N cbs prior cur places) (parseBlocks cbs places cur) (parseBlocks cbs places clean) := by
  -- No place comes twice, so the cells ahead are still those from before the packet.
  induction places generalizing cur clean with
  | nil => exact inStep_pure ⟨rfl, beside, fun _ _ => rfl, fun _ => rfl⟩
  | cons place rest ih =>
    obtain ⟨outside, nodup⟩ := List.nodup_cons.mp nodup
    obtain ⟨before, forgotten⟩ := ahead place List.mem_cons_self
    have first := Blk.inStep_parseBlock decodes cbs (prior.cell place).blk (shown.incl place) (shown.zbp place)
    rw [parseBlocks_cons, parseBlocks_cons, before, forgotten, shown.blk]
    refine first.bind ?_
    rintro ⟨went, incl, zbp, blk⟩ ⟨_, incl', zbp', blk'⟩ ⟨rfl, node, planes, read, data⟩
    have stored : Beside N cbs prior (cur.setCell place ⟨incl, zbp, blk⟩) (clean.setCell place ⟨incl', zbp', blk'⟩) :=
      beside.setCell decodes ⟨node, planes, read⟩
    have kept {other : Nat × Nat} (apart : other ≠ place) :
        (cur.setCell place ⟨incl, zbp, blk⟩).cell other = cur.cell other := cell_setCell_other apart
    have bodies (other : Nat × Nat) := data_setCell cur ⟨incl, zbp, blk⟩ (before ▸ data) other
    refine inStep_ite (fun _ => ?_) (fun _ => ?_)
    · have later := ih nodup stored fun other member => by
        have apart : other ≠ place := fun same => outside (same ▸ member)
        rw [cell_setCell_other apart, cell_setCell_other apart]
        exact ahead other (List.mem_cons_of_mem _ member)
      refine later.mono fun r r' read => ⟨read.went, read.beside, fun other absent => ?_,
        fun other => (read.bodies other).trans (bodies other)⟩
      rw [List.mem_cons, not_or] at absent
      rw [read.others other absent.2, kept absent.1]
    · refine inStep_pure ⟨rfl, stored, fun other absent => kept ?_, bodies⟩
      exact fun same => absent (same ▸ List.mem_cons_self)

private theorem read_withBody {x blk clean : Blk} (read : Blk.Read cbs x blk clean)
    (data : Option (List UInt8)) : Blk.Read cbs x (withBody blk data) (withBody clean data) := by
  obtain ⟨scup, eq⟩ := withBody_eq blk data
  obtain ⟨scup', eq'⟩ := withBody_eq clean data
  rw [eq, eq']
  exact ⟨read.view, read.coord, read.incl, read.zbp, read.plhd⟩

/-- Outcomes of the body loop: the bodies of the places that it visits are the same. -/
structure BodiesRead (N : TagNode → TagNode → Prop) (cbs : Nat) (prior cur clean : Prec)
    (places : List (Nat × Nat)) (r r' : Prec × Codestream) : Prop where
  stream : r.2 = r'.2
  beside : Beside N cbs prior r.1 r'.1
  others : ∀ place, place ∉ places → r.1.cell place = cur.cell place ∧ r'.1.cell place = clean.cell place
  bodies : ∀ place ∈ places, (r.1.cell place).blk.data = (r'.1.cell place).blk.data

theorem bodiesRead_readBodies (decodes : TagNode.Decodes N) {places : List (Nat × Nat)} (nodup : places.Nodup)
    (beside : Beside N cbs prior cur clean) (s : Codestream) :
    BodiesRead N cbs prior cur clean places (readBodies places cur s) (readBodies places clean s) := by
  induction places generalizing cur clean s with
  | nil => exact ⟨rfl, beside, fun _ _ => ⟨rfl, rfl⟩, by simp⟩
  | cons place rest ih =>
    obtain ⟨outside, nodup⟩ := List.nodup_cons.mp nodup
    have cells := beside.cells place
    have length : (cur.block place).length = (clean.block place).length := by
      have same := congrArg Blk.length cells.blk.view
      exact same
    -- The lengths are those of the packet header, so both take the same bytes.
    simp only [readBodies, ← length]
    generalize s.takeContiguous (cur.block place).length = taken
    have stored : Beside N cbs prior (cur.setBlock place (withBody (cur.block place) taken.1))
        (clean.setBlock place (withBody (clean.block place) taken.1)) := by
      rw [setBlock_eq, setBlock_eq]
      exact beside.setCell decodes ⟨cells.incl, cells.zbp, read_withBody cells.blk taken.1⟩
    have later := ih nodup stored taken.2
    refine ⟨later.stream, later.beside, fun other absent => ?_, fun other member => ?_⟩
    · rw [List.mem_cons, not_or] at absent
      rw [(later.others other absent.2).1, (later.others other absent.2).2, cell_setBlock_other absent.1,
        cell_setBlock_other absent.1]
      exact ⟨rfl, rfl⟩
    · rcases List.mem_cons.mp member with rfl | member
      · rw [(later.others other outside).1, (later.others other outside).2, setBlock_eq, setBlock_eq,
          cell_setCell_same, cell_setCell_same, beside.alike.clip]
        simp only [clip]
        split
        · rw [data_withBody, data_withBody]
        · rfl
      · exact later.bodies other member

end

end Prec

/-! ### The whole packet -/

/-- The first bit of a packet says whether it is empty. -/
theorem run_packetBits (cbs : Nat) (prec : Prec) (s : Codestream) :
    (packetBits cbs prec).run Codestream.bitSource s =
      if s.getBit.1 then
        (some ((prec.parseBlocks cbs prec.blockOrder).run Codestream.bitSource s.getBit.2).1,
          ((prec.parseBlocks cbs prec.blockOrder).run Codestream.bitSource s.getBit.2).2)
      else (none, s.getBit.2) := by
  have first : (getBit : BitProgram Bool).run Codestream.bitSource s = s.getBit := rfl
  rw [packetBits, run_bind, first]
  split
  · rw [run_bind]
    rfl
  · rfl

theorem readPacket_empty {s : Codestream} (empty : s.getBit.1 = false) (prec : Prec) (cbs : Nat) :
    readPacket s prec cbs = (true, prec, s.getBit.2.packetheaderFlushBits) := by
  simp only [readPacket, run_packetBits, empty, Bool.false_eq_true, if_false]

/-- `read_packet` on a precinct, against the same packet on what it takes into account. -/
structure PacketRead (N : TagNode → TagNode → Prop) (cbs : Nat) (s : Codestream) (prior : Prec)
    (r clean : Bool × Prec × Codestream) : Prop where
  code : r.1 = clean.1
  stream : r.2.2 = clean.2.2
  beside : Prec.Beside N cbs prior r.2.1 clean.2.1
  others : ∀ place, place ∉ prior.blockOrder → r.2.1.cell place = prior.cell place
  bodies : r.1 = true → s.getBit.1 = true → ∀ place ∈ prior.blockOrder,
    (r.2.1.cell place).blk.data = (clean.2.1.cell place).blk.data
  unread : r.1 = false ∨ s.getBit.1 = false → ∀ place,
    (r.2.1.cell place).blk.data = (prior.cell place).blk.data

theorem Prec.Shows.packetRead {N : TagNode → TagNode → Prop} (decodes : TagNode.Decodes N)
    {prior start : Prec} (shown : prior.Shows N cbs start) (s : Codestream) :
    PacketRead N cbs s prior (readPacket s prior cbs) (readPacket s start cbs) := by
  cases bit : s.getBit.1 with
  | false =>
    rw [readPacket_empty bit, readPacket_empty bit]
    exact ⟨rfl, rfl, shown.beside, fun _ _ => rfl, by simp [bit], fun _ _ => rfl⟩
  | true =>
    have order : start.blockOrder = prior.blockOrder := shown.shape.blockOrder
    obtain ⟨header, same⟩ := (Prec.inStep_parseBlocks decodes prior.nodup_blockOrder shown shown.beside
      fun _ _ => ⟨rfl, rfl⟩).run Codestream.bitSource s.getBit.2
    simp only [readPacket, run_packetBits, bit, if_true, order]
    generalize (prior.parseBlocks cbs prior.blockOrder).run Codestream.bitSource s.getBit.2 = r at header same
    generalize (start.parseBlocks cbs prior.blockOrder).run Codestream.bitSource s.getBit.2 = c at header same
    obtain ⟨⟨went, prec⟩, t⟩ := r
    obtain ⟨⟨went', clean⟩, t'⟩ := c
    obtain ⟨rfl, beside, others, kept⟩ := header
    cases same
    cases went with
    -- A header that is refused leaves the bodies alone.
    | false => exact ⟨rfl, rfl, beside, others, by simp, fun _ => kept⟩
    | true =>
      simp only [beside.shape.blockOrder, beside.cleanShape.blockOrder]
      have bodies := Prec.bodiesRead_readBodies decodes prior.nodup_blockOrder beside t.packetheaderFlushBits
      exact ⟨rfl, bodies.stream, bodies.beside,
        fun place absent => (bodies.others place absent).1.trans (others place absent), fun _ _ => bodies.bodies,
        by simp [bit]⟩

theorem packetRead_readPacket (cbs : Nat) (prior : Prec) (s : Codestream) :
    PacketRead Eq cbs s prior (readPacket s prior cbs) (readPacket s (prior.view cbs) cbs) :=
  (prior.shows_view cbs).packetRead TagNode.decodes_eq s

theorem PacketRead.view_eq {s : Codestream} {prior : Prec} {r clean : Bool × Prec × Codestream}
    (read : PacketRead Eq cbs s prior r clean) : r.2.1.view cbs = clean.2.1.view cbs := by
  have same : Prec.SameShape (r.2.1.view cbs) (clean.2.1.view cbs) :=
    (Prec.sameShape_mapBlk _ _).trans (read.beside.alike.trans (Prec.sameShape_mapBlk _ _).symm)
  refine same.ext fun place => ?_
  obtain ⟨incl, zbp, blk⟩ := read.beside.cells place
  rw [Prec.cell_view, Prec.cell_view, Cell.view, Cell.view, incl, zbp, blk.view]

/-- A packet on two precincts that differ in what it does not take into account. -/
theorem readPacket_congr {prior prior' : Prec} (same : prior.view cbs = prior'.view cbs)
    (s : Codestream) :
    (readPacket s prior cbs).1 = (readPacket s prior' cbs).1 ∧
      (readPacket s prior cbs).2.1.view cbs = (readPacket s prior' cbs).2.1.view cbs ∧
      (readPacket s prior cbs).2.2 = (readPacket s prior' cbs).2.2 := by
  have read := packetRead_readPacket cbs prior s
  have read' := packetRead_readPacket cbs prior' s
  rw [same] at read
  exact ⟨read.code.trans read'.code.symm, read.view_eq.trans read'.view_eq.symm,
    read.stream.trans read'.stream.symm⟩

/-- `restart` takes back what a packet has done, as far as later packets take it into account; a
placeholder flag stays. -/
theorem restart_readPacket (cbs : Nat) {prior : Prec}
    (counted : tagTreeSizeLoop 33 prior.ncbw prior.ncbh 0 + 1 < 2 ^ 31 - 1) (s : Codestream) :
    (readPacket s prior cbs).2.1.restart.forget = prior.restart.forget := by
  have read := packetRead_readPacket cbs prior s
  generalize readPacket s prior cbs = r at read ⊢
  have shape := read.beside.shape
  obtain ⟨_, _, bands, width, height⟩ := shape.fields
  have blocks : r.2.1.numBlocks = prior.numBlocks := by rw [Prec.numBlocks, Prec.numBlocks, width, height]
  have same : Prec.SameShape r.2.1.restart.forget prior.restart.forget :=
    (Prec.sameShape_mapBlk _ _).trans ((Prec.sameShape_restart _).trans
      (shape.trans ((Prec.sameShape_mapBlk _ _).trans (Prec.sameShape_restart _)).symm))
  refine same.ext fun place => ?_
  simp only [Prec.forget, Prec.cell_mapBlk (f := Blk.forget) rfl, Prec.cell_restart, bands, width, height, blocks]
  by_cases visited : place ∈ prior.blockOrder
  · obtain ⟨band, index⟩ := Prec.mem_blockOrder.mp visited
    have node := Nat.lt_of_lt_of_le index (Prec.numBlocks_le_tagTreeSize counted)
    simp only [if_pos band, if_pos node, if_pos index]
    -- Of a cleared code-block only the coordinates are left.
    simp only [Blk.restart, Blk.forget, (read.beside.cells place).blk.coord]
  · rw [read.others place visited]

theorem Prec.plhd_restart (prec : Prec) (place : Nat × Nat) :
    (prec.restart.block place).htPlhd = (prec.block place).htPlhd := by
  rw [block_eq, block_eq, cell_restart]
  split
  · dsimp only
    split <;> rfl
  · rfl

end RtpDecoder.Parser
