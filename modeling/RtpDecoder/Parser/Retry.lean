import RtpDecoder.Parser.Isolation
import RtpDecoder.Parser.Lengths
import RtpDecoder.Parser.Recovery

/-!
# A packet read again

When a packet is refused, `flush` may find a signal that leads to the same precinct again. The
second attempt starts from what the first one has left in the code-blocks and tag trees: the
header is taken back nowhere. Here it is told which refusals leave nothing that a second attempt
could notice.
-/

namespace RtpDecoder.Parser

open BitProgram

/-! ### Precincts that are read alike -/

/-- A packet cannot tell these cells from each other, and they show the same where it leaves them
as they are. -/
structure Cell.Alike (cbs : Nat) (c c' : Cell) : Prop where
  incl : c.incl.val = c'.incl.val
  zbp : c.zbp.val = c'.zbp.val
  view : c.blk.view cbs = c'.blk.view cbs
  planes : c.blk.zbp = c'.blk.zbp
  data : c.blk.data = c'.blk.data

theorem Cell.Alike.refl (cbs : Nat) (c : Cell) : c.Alike cbs c := ⟨rfl, rfl, rfl, rfl, rfl⟩

/-- The decoder of a tag tree goes by the value of the node alone. -/
theorem TagNode.decodes_val : TagNode.Decodes fun n n' => n.val = n'.val where
  refl _ := rfl
  val same := same
  decode := by
    intro node node' same threshold
    rw [tagTreeDecode, tagTreeDecode, same]
    generalize threshold - node'.val = count
    induction count generalizing node node' with
    | zero => exact inStep_pure same
    | succ count ih =>
      refine inStep_bind _ fun bit => inStep_ite (fun _ => inStep_pure same) (fun _ => ?_)
      exact ih (congrArg (· + 1) same)

structure Prec.Alike (cbs : Nat) (p p' : Prec) : Prop where
  shape : SameShape p p'
  cells : ∀ place, (p.cell place).Alike cbs (p'.cell place)

/-- What the second attempt is asked for: the return code, the reader, and these fields of the
code-blocks. -/
structure SameOutcome (places : List (Nat × Nat)) (r r' : Bool × Prec × Codestream) : Prop where
  code : r.1 = r'.1
  reader : r.2.2 = r'.2.2
  blocks : ∀ place ∈ places,
    (r.2.1.block place).zbp = (r'.2.1.block place).zbp ∧
    (r.2.1.block place).npasses = (r'.2.1.block place).npasses ∧
    (r.2.1.block place).passLengths0 = (r'.2.1.block place).passLengths0 ∧
    (r.2.1.block place).passLengths1 = (r'.2.1.block place).passLengths1 ∧
    (r.2.1.block place).length = (r'.2.1.block place).length ∧
    (r.2.1.block place).data = (r'.2.1.block place).data

theorem sameOutcome_of_alike {cbs : Nat} {p p' : Prec} (alike : Prec.Alike cbs p p') (t : Codestream) :
    SameOutcome p'.blockOrder (readPacket t p cbs) (readPacket t p' cbs) := by
  -- Both attempts are held against the packet on what the second precinct shows it.
  have shown : p.Shows (fun n n' => n.val = n'.val) cbs (p'.view cbs) := by
    refine ⟨(Prec.sameShape_mapBlk _ _).trans alike.shape.symm, fun place => ?_, fun place => ?_, fun place => ?_⟩ <;>
      rw [Prec.cell_view]
    · exact (alike.cells place).incl
    · exact (alike.cells place).zbp
    · exact (alike.cells place).view.symm
  have read := shown.packetRead TagNode.decodes_val t
  have read' := packetRead_readPacket cbs p' t
  have code := read.code.trans read'.code.symm
  refine ⟨code, read.stream.trans read'.stream.symm, fun place member => ?_⟩
  have cell := (read.beside.cells place).blk
  have cell' := (read'.beside.cells place).blk
  have fields := cell.view.trans cell'.view.symm
  simp only [Blk.view, Blk.forget, Blk.mk.injEq] at fields
  obtain ⟨_, _, first, second, length, _, _, _, _, _, passes, _⟩ := fields
  refine ⟨?_, passes, first, second, length, ?_⟩
  · rw [Prec.block_eq, Prec.block_eq, cell.zbp, cell'.zbp, (alike.cells place).planes]
  · rw [Prec.block_eq, Prec.block_eq]
    by_cases unread : (readPacket t p' cbs).1 = false ∨ t.getBit.1 = false
    · rw [read.unread (code ▸ unread), read'.unread unread, (alike.cells place).data]
    · rw [not_or, Bool.not_eq_false, Bool.not_eq_false] at unread
      rw [read.bodies (code.trans unread.1) unread.2 place (alike.shape.blockOrder ▸ member),
        read'.bodies unread.1 unread.2 place member]

/-! ### What a code-block keeps of a refusal -/

/-- Whether the bits refuse a code-block at once: it is included without zero bit-planes, and the log
has no first segment. -/
def refusedAtOnce (cbs : Nat) (cell : Cell) : BitProgram Bool := do
  let logged ← blockPassSteps jpeg2000MaxPasses cbs cell.incl cell.zbp cell.blk
  pure (logged.any fun ((_, _, zbp, _), log) => zbp.val = 0 && log.any (·.steps.isEmpty))

theorem ends_tagTreeDecode {node : TagNode} (fresh : node.val = 0) (threshold : Nat) :
    Ends (fun n => n.val ≤ threshold) (tagTreeDecode node threshold) := by
  have loop (count : Nat) (node : TagNode) : Ends (fun n => n.val ≤ node.val + count) (tagTreeLoop count node) := by
    induction count generalizing node with
    | zero => exact ends_pure (Nat.le_refl _)
    | succ count ih =>
      refine ends_bind _ fun bit => ends_ite (fun _ => ends_pure (Nat.le_add_right _ _)) (fun _ => ?_)
      refine (ih _).mono fun n most => Nat.le_trans most ?_
      dsimp only
      omega
  refine (loop _ _).mono fun n most => ?_
  rw [fresh] at most
  omega

/-- What is written in front of the passes a packet of this style does not take into account. -/
theorem Blk.view_included (cbs planes : Nat) (x : Blk) : (x.included cbs planes).view cbs = x.view cbs := by
  simp only [Blk.view, Blk.included, Blk.placeholder, Blk.forget]
  cases x.htPlhd <;> cases decide (cmodeHt ≤ cbs) <;> rfl

theorem ends_parseBlock_nodes (cbs : Nat) {cell : Cell} (fresh : cell.Fresh) :
    Ends (fun r => r.2.1.val ≤ 1 ∧ r.2.2.1.val ≤ 14) (parseBlock cbs cell.incl cell.zbp cell.blk) := by
  refine (ends_tagTreeDecode fresh.incl 1).bind fun incl few => ends_ite (fun _ => ?_) (fun _ => ?_)
  · exact (ends_tagTreeDecode fresh.zbp 14).bind fun zbp planes => ends_bind _ fun r => ends_pure ⟨few, planes⟩
  · exact ends_pure ⟨few, fresh.zbp ▸ Nat.zero_le _⟩

/-- A cell that shows a second attempt what the first one has read: it counts as left out, or it has
zero bit-planes, or it has passes. -/
inductive Marked (cell left : Cell) : Prop where
  | excluded (incl : left.incl.val = 1) (zbp : left.blk.zbp = cell.blk.zbp) : Marked cell left
  | planes (incl : left.incl.val = 0) (some : 0 < left.zbp.val) (few : left.zbp.val ≤ 14) : Marked cell left
  | passes (incl : left.incl.val = 0) (some : 1 ≤ left.blk.npasses) : Marked cell left

/-- What is left of a code-block is as before, up to `zbp`, or it is marked. -/
theorem parseBlock_left {σ : Type} (src : BitSource σ) (u : σ) (cbs : Nat) {cell : Cell} (fresh : cell.Fresh) :
    let r := ((parseBlock cbs cell.incl cell.zbp cell.blk).run src u).1
    if ((refusedAtOnce cbs cell).run src u).1 then
      r.1 = false ∧ Cell.Alike cbs ⟨r.2.1, r.2.2.1, r.2.2.2⟩ { cell with blk := { cell.blk with zbp := 0 } }
    else Marked cell ⟨r.2.1, r.2.2.1, r.2.2.2⟩ := by
  have nodes := (ends_parseBlock_nodes cbs fresh).run src u
  obtain ⟨⟨log, run, logged⟩, _⟩ := (inStep_blockPassSteps cbs cell.incl cell.zbp cell.blk).run src u
  have once : ((refusedAtOnce cbs cell).run src u).1 =
      (((blockPassSteps jpeg2000MaxPasses cbs cell.incl cell.zbp cell.blk).run src u).1.any
        fun ((_, _, zbp, _), log) => zbp.val = 0 && log.any (·.steps.isEmpty)) := by
    rw [refusedAtOnce, run_bind]
    rfl
  rw [once, run]
  generalize ((parseBlock cbs cell.incl cell.zbp cell.blk).run src u).1 = r at nodes logged ⊢
  cases logged with
  | @excluded incl zbp out =>
    simp only [Option.any_some, Option.any_none, Bool.and_false, Bool.false_eq_true, if_false]
    have one : incl.val = 1 := Nat.le_antisymm nodes.1 (Nat.pos_of_ne_zero out)
    exact .excluded one rfl
  | @included went incl zbp b log zero logged =>
    simp only [Option.any_some]
    -- A number of zero bit-planes stays in the node, whatever comes then.
    by_cases none_missing : zbp.val = 0
    swap
    · rw [if_neg (by simp [none_missing])]
      exact .planes zero (Nat.pos_of_ne_zero none_missing) nodes.2
    by_cases nothing : log.steps = []
    -- Without a first segment only fields are touched that the next packet overwrites.
    · rw [if_pos (by simp [none_missing, nothing])]
      obtain ⟨stopped, n, same⟩ := logged.refused nothing
      dsimp only at stopped same
      subst stopped same
      refine ⟨rfl, zero.trans fresh.incl.symm, none_missing.trans fresh.zbp.symm, ?_, ?_, rfl⟩
      · exact Blk.view_included cbs (zbp.val % 256) cell.blk
      · simp [Blk.included, none_missing]
    · rw [if_neg (by simp [nothing])]
      have passes := logged.opened nothing fresh.npasses
      refine .passes zero ?_
      dsimp only
      split <;> exact passes

/-! ### What a packet makes of a code-block by its first bits -/

section

variable {σ : Type} (src : BitSource σ) {u : σ} (cbs : Nat) {cell : Cell}

/-- A code-block that is left out keeps its zero bit-planes and its passes. -/
theorem parseBlock_excluded (out : cell.incl.val = 1 ∨ cell.incl.val = 0 ∧ (src.bit u).1 = false) :
    let blk := ((parseBlock cbs cell.incl cell.zbp cell.blk).run src u).1.2.2.2
    blk.zbp = cell.blk.zbp ∧ blk.npasses = cell.blk.npasses := by
  have decoded : ((tagTreeDecode cell.incl 1).run src u).1.val = 1 := by
    rcases out with one | ⟨zero, bit⟩
    · rw [tagTreeDecode, one]
      exact one
    · have first : (getBit.run src u).1 = false := bit
      rw [tagTreeDecode, zero]
      simp only [tagTreeLoop, run_bind, first, zero, Nat.zero_add]
      rfl
  simp only [parseBlock, run_bind]
  rw [if_neg (by rw [decoded]; decide)]
  exact ⟨rfl, rfl⟩

/-- A code-block that is included gets the zero bit-planes that its tag tree stands for. -/
theorem parseBlock_planes (zero : cell.incl.val = 0) (one : (src.bit u).1 = true) :
    ((parseBlock cbs cell.incl cell.zbp cell.blk).run src u).1.2.2.2.zbp =
      ((tagTreeDecode cell.zbp 14).run src (src.bit u).2).1.val % 256 := by
  have first : getBit.run src u = (true, (src.bit u).2) := Prod.ext one rfl
  have decoded : (tagTreeDecode cell.incl 1).run src u = (⟨0, cell.incl.vis + 1⟩, (src.bit u).2) := by
    rw [tagTreeDecode, zero]
    simp only [tagTreeLoop, run_bind, first, if_true, zero]
    rfl
  rw [Blk.zbp_parseBlock src cbs cell.blk (by rw [decoded]), decoded]

theorem tagTreeDecode_one {node : TagNode} (one : (src.bit u).1 = true) :
    ((tagTreeDecode node 14).run src u).1.val = node.val := by
  have first : (getBit.run src u).1 = true := one
  rw [tagTreeDecode]
  cases 14 - node.val with
  | zero => rfl
  | succ n =>
    simp only [tagTreeLoop, run_bind, first, if_true]
    rfl

theorem tagTreeDecode_zero_one {node : TagNode} (fresh : node.val = 0) (zero : (src.bit u).1 = false)
    (one : (src.bit (src.bit u).2).1 = true) : ((tagTreeDecode node 14).run src u).1.val = 1 := by
  have first : getBit.run src u = (false, (src.bit u).2) := Prod.ext zero rfl
  have second : (getBit.run src (src.bit u).2).1 = true := one
  rw [tagTreeDecode, fresh]
  simp only [tagTreeLoop, run_bind, first, second, if_true, Bool.false_eq_true, if_false, fresh]
  rfl

/-- Behind two ones the number is what the node has already. -/
theorem parseBlock_one (zero : cell.incl.val = 0) (one : (src.bit u).1 = true)
    (next : (src.bit (src.bit u).2).1 = true) :
    ((parseBlock cbs cell.incl cell.zbp cell.blk).run src u).1.2.2.2.zbp = cell.zbp.val % 256 := by
  rw [parseBlock_planes src cbs zero one, tagTreeDecode_one src next]

theorem parseBlock_zero_one (zero : cell.incl.val = 0) (fresh : cell.zbp.val = 0) (one : (src.bit u).1 = true)
    (next : (src.bit (src.bit u).2).1 = false) (last : (src.bit (src.bit (src.bit u).2).2).1 = true) :
    ((parseBlock cbs cell.incl cell.zbp cell.blk).run src u).1.2.2.2.zbp = 1 := by
  rw [parseBlock_planes src cbs zero one, tagTreeDecode_zero_one src fresh next last]

end

namespace Prec

/-- All arrays of a precinct are as large as its counts say. -/
structure Complete (prec : Prec) : Prop extends prec.Allocated where
  incl : ∀ b < prec.numBands, prec.numBlocks ≤ (prec.band b).incl.length
  zbp : ∀ b < prec.numBands, prec.numBlocks ≤ (prec.band b).zbp.length

theorem Complete.cell_setCell {prec q : Prec} (complete : prec.Complete) (shape : SameShape q prec)
    {place : Nat × Nat} (member : place ∈ prec.blockOrder) (c : Cell) : (q.setCell place c).cell place = c := by
  obtain ⟨band, index⟩ := mem_blockOrder.mp member
  have bands : place.1 < prec.pband.length := Nat.lt_of_lt_of_le band complete.bands
  rw [cell_setCell_same, shape.clip, clip, if_pos ⟨bands, Nat.lt_of_lt_of_le index (complete.incl _ band)⟩,
    if_pos ⟨bands, Nat.lt_of_lt_of_le index (complete.zbp _ band)⟩,
    if_pos ⟨bands, Nat.lt_of_lt_of_le index (complete.blocks _ band)⟩]

/-- The block loop leaves alone what it does not visit. -/
theorem ends_parseBlocks (cbs : Nat) (places : List (Nat × Nat)) (prec : Prec) :
    Ends (fun r => SameShape r.2 prec ∧ ∀ place, place ∉ places → r.2.cell place = prec.cell place)
      (parseBlocks cbs places prec) := by
  induction places generalizing prec with
  | nil => exact ends_pure ⟨.refl prec, fun _ _ => rfl⟩
  | cons first places ih =>
    rw [parseBlocks_cons]
    refine ends_bind _ fun r => ?_
    have shape := sameShape_setCell prec first ⟨r.2.1, r.2.2.1, r.2.2.2⟩
    have others {place : Nat × Nat} (absent : place ∉ first :: places) :
        (prec.setCell first ⟨r.2.1, r.2.2.1, r.2.2.2⟩).cell place = prec.cell place :=
      cell_setCell_other fun same => absent (same ▸ List.mem_cons_self)
    refine ends_ite (fun _ => ?_) (fun _ => ends_pure ⟨shape, fun place absent => others absent⟩)
    refine (ih _).mono fun r kept => ⟨kept.1.trans shape, fun place absent => ?_⟩
    rw [kept.2 place fun member => absent (List.mem_cons_of_mem _ member), others absent]

end Prec

theorem parseBlocks_first {prec q : Prec} (complete : prec.Complete) (shape : Prec.SameShape q prec)
    {place : Nat × Nat} {rest : List (Nat × Nat)} (order : prec.blockOrder = place :: rest) (cbs : Nat)
    {σ : Type} (src : BitSource σ) (u : σ) :
    let r := ((parseBlock cbs (q.cell place).incl (q.cell place).zbp (q.cell place).blk).run src u).1
    let after := ((Prec.parseBlocks cbs (place :: rest) q).run src u).1
    Prec.SameShape after.2 prec ∧ after.2.cell place = ⟨r.2.1, r.2.2.1, r.2.2.2⟩ ∧
      (r.1 = false → after = (false, q.setCell place ⟨r.2.1, r.2.2.1, r.2.2.2⟩)) := by
  have member : place ∈ prec.blockOrder := order ▸ List.mem_cons_self
  have outside : place ∉ rest := (List.nodup_cons.mp (order ▸ prec.nodup_blockOrder)).1
  have stored (c : Cell) := complete.cell_setCell shape member c
  have set (c : Cell) := (Prec.sameShape_setCell q place c).trans shape
  rw [Prec.parseBlocks_cons, run_bind]
  generalize (parseBlock cbs (q.cell place).incl (q.cell place).zbp (q.cell place).blk).run src u = r
  obtain ⟨⟨went, incl, zbp, blk⟩, u⟩ := r
  cases went with
  | false => exact ⟨set _, stored _, fun _ => rfl⟩
  | true =>
    obtain ⟨same, others⟩ :=
      (Prec.ends_parseBlocks cbs rest (q.setCell place ⟨incl, zbp, blk⟩)).run src u
    exact ⟨same.trans (set _), (others place outside).trans (stored _), by simp⟩

/-! ### Whole packets -/

section

variable {prec q : Prec} {cbs : Nat} {place : Nat × Nat} {rest : List (Nat × Nat)}

/-- A refused packet has a header, and leaves what the block loop has made of the precinct. -/
theorem readPacket_refused {s : Codestream} (refused : (readPacket s q cbs).1 = false) :
    s.getBit.1 = true ∧
      ((q.parseBlocks cbs q.blockOrder).run Codestream.bitSource s.getBit.2).1 =
        (false, (readPacket s q cbs).2.1) := by
  cases bit : s.getBit.1 with
  | false =>
    rw [readPacket_empty bit] at refused
    cases refused
  | true =>
    refine ⟨rfl, ?_⟩
    simp only [readPacket, run_packetBits, bit, if_true] at refused ⊢
    generalize (q.parseBlocks cbs q.blockOrder).run Codestream.bitSource s.getBit.2 = r at refused ⊢
    obtain ⟨⟨went, header⟩, u⟩ := r
    cases went with
    | false => rfl
    | true => cases refused

/-- Neither the later code-blocks nor the bodies change passes and zero bit-planes of the first one. -/
theorem readPacket_first (cbs : Nat) (complete : prec.Complete) (shape : Prec.SameShape q prec)
    (order : prec.blockOrder = place :: rest) {t : Codestream} (nonempty : t.getBit.1 = true) :
    let r := ((parseBlock cbs (q.cell place).incl (q.cell place).zbp (q.cell place).blk).run
      Codestream.bitSource t.getBit.2).1
    ((readPacket t q cbs).2.1.block place).zbp = r.2.2.2.zbp ∧
      ((readPacket t q cbs).2.1.block place).npasses = r.2.2.2.npasses := by
  obtain ⟨same, first, _⟩ := parseBlocks_first complete shape order cbs Codestream.bitSource t.getBit.2
  have visited : q.blockOrder = place :: rest := shape.blockOrder.trans order
  simp only [readPacket, run_packetBits, nonempty, if_true, visited]
  generalize (Prec.parseBlocks cbs (place :: rest) q).run Codestream.bitSource t.getBit.2 = r at same first ⊢
  obtain ⟨⟨went, header⟩, u⟩ := r
  cases went with
  | false =>
    dsimp only at first ⊢
    rw [Prec.block_eq, first]
    exact ⟨rfl, rfl⟩
  | true =>
    have has : ∀ other ∈ header.blockOrder, header.HasBlock other := by
      intro other member
      rw [same.blockOrder] at member
      obtain ⟨band, index⟩ := Prec.mem_blockOrder.mp member
      exact (same.hasBlock other).mpr
        ⟨Nat.lt_of_lt_of_le band complete.bands, Nat.lt_of_lt_of_le index (complete.blocks _ band)⟩
    have member : place ∈ header.blockOrder := by
      rw [same.blockOrder, order]
      exact List.mem_cons_self
    -- A body is all that the second loop writes.
    obtain ⟨data, scup, block, _⟩ :=
      Prec.readBodies_block header.nodup_blockOrder has u.packetheaderFlushBits member
    dsimp only at first ⊢
    rw [block, Prec.block_eq, first]
    exact ⟨rfl, rfl⟩

/-- The packet is refused in its first code-block, at once, and the code-block has no zero bit-planes
from before. -/
def RefusedAtOnce (cbs : Nat) (prec : Prec) (s : Codestream) : Prop :=
  ∃ place, prec.blockOrder.head? = some place ∧
    ((refusedAtOnce cbs (prec.cell place)).run Codestream.bitSource s.getBit.2).1 = true ∧
    (prec.block place).zbp = 0

/-- No reader that `try_recover` can leave behind shows a difference between the precinct that the
refused packet has left and the precinct before it. -/
def RetryClean (cbs : Nat) (prec : Prec) (s : Codestream) : Prop :=
  ∀ t : Codestream, t.bits = 0 ∧ t.tmp = 0 ∧ t.last = 0 →
    SameOutcome prec.blockOrder (readPacket t (readPacket s prec cbs).2.1 cbs) (readPacket t prec cbs)

theorem RetryClean.of_refusedAtOnce (complete : prec.Complete) {s : Codestream}
    (refused : (readPacket s prec.restart cbs).1 = false) (once : RefusedAtOnce cbs prec.restart s) :
    RetryClean cbs prec.restart s := by
  obtain ⟨place, head, bits, zbp⟩ := once
  obtain ⟨rest, order⟩ := List.head?_eq_some_iff.mp head
  have order : prec.blockOrder = place :: rest := order
  have fresh := (complete.restart (order ▸ List.mem_cons_self)).2
  obtain ⟨_, header⟩ := readPacket_refused refused
  have left := parseBlock_left Codestream.bitSource s.getBit.2 cbs fresh
  dsimp only at left
  rw [if_pos bits] at left
  obtain ⟨_, _, stops⟩ := parseBlocks_first complete prec.sameShape_restart order cbs Codestream.bitSource s.getBit.2
  rw [show prec.restart.blockOrder = place :: rest from order, stops left.1] at header
  have leftover := (congrArg Prod.snd header).symm
  dsimp only at leftover
  -- What is left differs from the precinct in one cell, and a packet does not notice.
  have same : ({ prec.restart.cell place with blk := { (prec.restart.cell place).blk with zbp := 0 } } : Cell) =
      prec.restart.cell place := by
    rw [Prec.block_eq] at zbp
    rw [← zbp]
  rw [same] at left
  intro t _
  rw [leftover]
  refine sameOutcome_of_alike ⟨Prec.sameShape_setCell _ _ _, fun other => ?_⟩ t
  by_cases here : other = place
  · subst here
    rw [complete.cell_setCell prec.sameShape_restart (order ▸ List.mem_cons_self)]
    exact left.2
  · rw [Prec.cell_setCell_other here]
    exact .refl cbs _

/-- Packets that begin with these bits: a code-block that is left out, one without zero bit-planes,
one with one of them. -/
private theorem first_bits :
    (streamOf [0x80]).getBit.1 = true ∧ (streamOf [0x80]).getBit.2.getBit.1 = false ∧
    (streamOf [0xE0]).getBit.1 = true ∧ (streamOf [0xE0]).getBit.2.getBit.1 = true ∧
      (streamOf [0xE0]).getBit.2.getBit.2.getBit.1 = true ∧
    (streamOf [0xD0]).getBit.1 = true ∧ (streamOf [0xD0]).getBit.2.getBit.1 = true ∧
      (streamOf [0xD0]).getBit.2.getBit.2.getBit.1 = false ∧
      (streamOf [0xD0]).getBit.2.getBit.2.getBit.2.getBit.1 = true := by
  decide +kernel

theorem RetryClean.at_once (complete : prec.Complete) {s : Codestream}
    (refused : (readPacket s prec.restart cbs).1 = false) (clean : RetryClean cbs prec.restart s) :
    RefusedAtOnce cbs prec.restart s := by
  obtain ⟨_, header⟩ := readPacket_refused refused
  obtain ⟨out, out', one, one', one'', zero, zero', zero'', zero'''⟩ := first_bits
  -- Without code-blocks nothing is refused.
  cases order : prec.blockOrder with
  | nil =>
    rw [show prec.restart.blockOrder = [] from order] at header
    cases header
  | cons place rest =>
    have member : place ∈ prec.blockOrder := order ▸ List.mem_cons_self
    have fresh := (complete.restart member).2
    have left := parseBlock_left Codestream.bitSource s.getBit.2 cbs fresh
    obtain ⟨shape, cell, _⟩ :=
      parseBlocks_first complete prec.sameShape_restart order cbs Codestream.bitSource s.getBit.2
    rw [show prec.restart.blockOrder = place :: rest from order] at header
    rw [header] at shape cell
    dsimp only at shape cell left
    rw [← cell] at left
    -- What the two attempts say about the first code-block.
    have outcome (t : Codestream) (aligned : t.bits = 0 ∧ t.tmp = 0 ∧ t.last = 0) (nonempty : t.getBit.1 = true) :
        let r (q : Prec) := ((parseBlock cbs (q.cell place).incl (q.cell place).zbp (q.cell place).blk).run
          Codestream.bitSource t.getBit.2).1.2.2.2
        (r (readPacket s prec.restart cbs).2.1).zbp = (r prec.restart).zbp ∧
          (r (readPacket s prec.restart cbs).2.1).npasses = (r prec.restart).npasses := by
      have blocks := (clean t aligned).blocks place member
      have first := readPacket_first cbs complete shape order nonempty
      have second := readPacket_first cbs complete prec.sameShape_restart order nonempty
      exact ⟨first.1.symm.trans (blocks.1.trans second.1), first.2.symm.trans (blocks.2.1.trans second.2)⟩
    have aligned (bytes : List UInt8) : (streamOf bytes).bits = 0 ∧ (streamOf bytes).tmp = 0 ∧
        (streamOf bytes).last = 0 := ⟨rfl, rfl, rfl⟩
    generalize (readPacket s prec.restart cbs).2.1 = after at left outcome
    have none := outcome (streamOf [0x80]) (aligned _) out
    have planes := outcome (streamOf [0xE0]) (aligned _) one
    by_cases once : ((refusedAtOnce cbs (prec.restart.cell place)).run Codestream.bitSource s.getBit.2).1 = true
    -- The refused packet has set `zbp` to 0, and a packet that leaves the code-block out shows it.
    · rw [if_pos once] at left
      obtain ⟨_, incl, _, _, cleared, _⟩ := left
      refine ⟨place, by rw [show prec.restart.blockOrder = place :: rest from order]; rfl, once, ?_⟩
      have excluded := parseBlock_excluded Codestream.bitSource cbs (.inr ⟨incl.trans fresh.incl, out'⟩)
      have excluded' := parseBlock_excluded Codestream.bitSource cbs (.inr ⟨fresh.incl, out'⟩)
      exact excluded'.1.symm.trans (none.1.symm.trans (excluded.1.trans cleared))
    · rw [if_neg once] at left
      exfalso
      have fresh_planes := parseBlock_one Codestream.bitSource cbs fresh.incl one' one''
      rw [fresh.zbp] at fresh_planes
      cases left with
      | excluded incl zbp =>
        have more := outcome (streamOf [0xD0]) (aligned _) zero
        have stored := parseBlock_zero_one Codestream.bitSource cbs fresh.incl fresh.zbp zero' zero'' zero'''
        -- Left out, it shows the same number twice, where the precinct before shows 0 and 1.
        have first := (parseBlock_excluded Codestream.bitSource cbs (.inl incl)).1.symm.trans
          (planes.1.trans fresh_planes)
        have second := (parseBlock_excluded Codestream.bitSource cbs (.inl incl)).1.symm.trans
          (more.1.trans stored)
        omega
      | planes incl some few =>
        -- The node counts on from the number of the refused packet.
        have kept := parseBlock_one Codestream.bitSource cbs incl one' one''
        have same := kept.symm.trans (planes.1.trans fresh_planes)
        omega
      | passes incl some =>
        -- A packet that leaves the code-block out shows the passes it has.
        have excluded := parseBlock_excluded Codestream.bitSource cbs (.inr ⟨incl, out'⟩)
        have excluded' := parseBlock_excluded Codestream.bitSource cbs (.inr ⟨fresh.incl, out'⟩)
        have same := excluded.2.symm.trans (none.2.trans excluded'.2)
        rw [fresh.npasses] at same
        omega

end

/-! ### The second attempt of `flush` -/

theorem Walk.packet_of_tile {w : Walk} {tile : Tile} (here : w.tile = tile) :
    w.packet = readPacket w.cs (tile.prec (tile.crp.getD tile.crpIdx default))
      (w.handler.markers.coc (tile.crp.getD tile.crpIdx default).c).cbs := by
  subst here
  rfl

/-- When `flush` comes back to the precinct of the refused packet, it reads what is left of it. -/
theorem Walk.packet_of_flushBody {w w' : Walk} (left : w.crpIdx < w.crpSize) (refused : w.packet.1 = false)
    (went : w.flushBody = some w') (same : w'.crpIdx = w.crpIdx) :
    w'.packet = readPacket w'.cs w.packet.2.1 (w.handler.markers.coc w.current.c).cbs ∧
      w'.cs.bits = 0 ∧ w'.cs.tmp = 0 ∧ w'.cs.last = 0 := by
  have stored : w.tile.Stored w.current := by
    by_contra absent
    -- A precinct that is not there has no code-blocks.
    obtain ⟨_, header⟩ := readPacket_refused refused
    rw [Tile.prec_of_not_stored absent] at header
    cases header
  simp only [flushBody, refused, Bool.false_eq_true, if_false] at went
  split at went
  next recovered =>
    cases went
    have way := w.parseOnePrecinct.tryRecover_recovering
    generalize w.parseOnePrecinct.tryRecover = r at way recovered same ⊢
    cases way with
    | empty _ | refused _ _ _ _ => cases recovered
    | @snapped passed rest sig i split behind ahead found forward =>
      have back : (w.parseOnePrecinct.handler.setTile { w.parseOnePrecinct.tile with crpIdx := i }).tile =
          { w.tile.setPrec w.current w.packet.2.1 with crpIdx := i } := by
        rw [TileHandler.tile_setTile _ (tiles_parseOnePrecinct left), tile_parseOnePrecinct left]
      have place : i = w.crpIdx := by
        change (w.parseOnePrecinct.handler.setTile { w.parseOnePrecinct.tile with crpIdx := i }).tile.crpIdx = _ at same
        rwa [back] at same
      subst place
      refine ⟨Eq.trans (packet_of_tile (by exact back)) ?_, rfl, rfl, rfl⟩
      change readPacket _ ((w.tile.setPrec w.current w.packet.2.1).prec w.current)
        (w.handler.markers.coc w.current.c).cbs = _
      rw [Tile.prec_setPrec, if_pos ⟨rfl, stored⟩]
  · cases went

/-- A second attempt in `flush` reads what the refused packet has left of the precinct. It does what
it would have done behind `restart` exactly if the packet was refused at once. -/
theorem retry_clean_iff {prec : Prec} (complete : prec.Complete) {cbs : Nat} {s : Codestream}
    (refused : (readPacket s prec.restart cbs).1 = false) :
    (∀ w w' : Walk, w.crpIdx < w.crpSize → w.cs = s → w.tile.prec w.current = prec.restart →
      (w.handler.markers.coc w.current.c).cbs = cbs → w.flushBody = some w' → w'.crpIdx = w.crpIdx →
      w'.packet = readPacket w'.cs (readPacket s prec.restart cbs).2.1 cbs ∧
        w'.cs.bits = 0 ∧ w'.cs.tmp = 0 ∧ w'.cs.last = 0) ∧
    (RetryClean cbs prec.restart s ↔ RefusedAtOnce cbs prec.restart s) := by
  constructor
  · rintro w w' left rfl current rfl went same
    have packet : w.packet = readPacket w.cs prec.restart (w.handler.markers.coc w.current.c).cbs := by
      rw [Walk.packet, current]
    have attempt := Walk.packet_of_flushBody left (by rw [packet]; exact refused) went same
    rwa [packet] at attempt
  · constructor
    · exact fun clean => clean.at_once complete refused
    · exact fun once => .of_refusedAtOnce complete refused once

theorem complete_pairPrec : pairPrec.Complete where
  toAllocated := allocated_pairPrec
  incl := by decide +kernel
  zbp := by decide +kernel

/-- The first code-block has a cleanup segment of one byte, which is refused. -/
theorem retry_clean_pair : (readPacket (streamOf [0xE1]) pairPrec.restart 0x40).1 = false ∧
    RetryClean 0x40 pairPrec.restart (streamOf [0xE1]) := by
  have refused : (readPacket (streamOf [0xE1]) pairPrec.restart 0x40).1 = false ∧
      ((refusedAtOnce 0x40 (pairPrec.restart.cell (0, 0))).run Codestream.bitSource
        (streamOf [0xE1]).getBit.2).1 = true := by
    decide +kernel
  exact ⟨refused.1, (retry_clean_iff complete_pairPrec refused.1).2.mpr ⟨(0, 0), by decide, refused.2, by decide⟩⟩

/-- The second code-block is refused, and a signal says that the packet starts at byte 3. -/
def retryWalk : Walk where
  handler := {
    tiles := [{ tcomp := [{ res := [{ prec := [pairPrec.restart], npw := 1, nph := 1 }] }], crp := [⟨0, 0, 0⟩] }]
    markers := { siz := { csiz := 3 }, cocs := .replicate _ { cbs := 0x40 } }
    crpIdxByPid := [[0], [], []]
    signalQueue := [⟨3, 0⟩] }
  cs := streamOf [0xB0, 0x80, 0x00, 0xE2, 0x00, 0x01, 0x02]

/-- The first code-block, left out by the refused packet, stays out of the second attempt, and the
second one is given its header and its body. -/
theorem retry_reads_other_block :
    let w' := retryWalk.flushBody.getD retryWalk
    let fresh := readPacket w'.cs pairPrec.restart 0x40
    retryWalk.packet.1 = false ∧ retryWalk.flushBody.isSome = true ∧ w'.crpIdx = retryWalk.crpIdx ∧
      w'.cs.pos = 3 ∧ w'.packet.1 = true ∧ fresh.1 = true ∧
      (w'.packet.2.1.block (0, 0)).length = 0 ∧ (fresh.2.1.block (0, 0)).length = 2 ∧
      (w'.packet.2.1.block (0, 1)).data = some [0x00, 0x01] ∧ (fresh.2.1.block (0, 0)).data = some [0x01, 0x02] ∧
      w'.packet.2.2.pos = 6 ∧ fresh.2.2.pos = 7 := by
  decide +kernel

end RtpDecoder.Parser
