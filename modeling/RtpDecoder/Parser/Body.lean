import Mathlib.Data.List.Forall2
import RtpDecoder.Parser.Frames
import RtpDecoder.Parser.HtCoding
import RtpDecoder.Parser.Truncation

/-!
# Encoded frame bodies

A frame body is the packets of the precinct list, one behind the other, as an encoder of HT
code-blocks writes them. `flush` undoes the encoder for the whole body: it reports the precincts
in the order of the list, each with the code-blocks that were written, and stops at the end of
the body. How the body is cut into chunks does not matter.
-/

namespace RtpDecoder.Parser

open BitProgram BitStuffing

/-! ### The encoder -/

/-- What an encoder has to say about a precinct. -/
inductive CodedPacket where
  | empty
  | blocks (coded : List (Option HtBlock))

namespace CodedPacket

def bytes : CodedPacket → List UInt8
  | empty => stuff [false]
  | blocks coded => stuff (true :: coded.flatMap blockBits) ++ coded.flatMap blockBody

/-- The packet has something to say about each code-block of the precinct. -/
def Fits (prec : Prec) : CodedPacket → Prop
  | empty => True
  | blocks coded => coded.length = prec.blockOrder.length

instance (prec : Prec) : (p : CodedPacket) → Decidable (p.Fits prec)
  | empty => inferInstanceAs (Decidable True)
  | blocks _ => inferInstanceAs (Decidable (_ = _))

/-- What a decoder is given. An empty packet gives it nothing: the pointers of an earlier frame
may stand in the code-blocks, but there are no passes and no bytes. -/
def DeliveredIn (prec : Prec) : CodedPacket → Prop
  | empty => ∀ place ∈ prec.blockOrder, (prec.block place).length = 0 ∧ (prec.block place).npasses = 0
  | blocks coded => coded.length = prec.blockOrder.length ∧
    ∀ x ∈ prec.blockOrder.zip coded, DeliveredAs (prec.block x.1) x.2

end CodedPacket

/-- The packets of a body in a row. -/
def bodyBytes (packets : List CodedPacket) : List UInt8 := packets.flatMap CodedPacket.bytes

/-! ### Between two packets -/

/-- A reader in front of the bytes `ahead`, with no bits of a byte left over. -/
structure Codestream.Between (s : Codestream) (ahead : List UInt8) : Prop where
  on : s.OnChain
  aligned : s.bits = 0 ∧ s.tmp = 0
  ahead : (chainBytes s.chunks).drop s.pos = ahead

namespace Codestream.Between

variable {s : Codestream} {body rest : List UInt8}

theorem takeContiguous (between : s.Between (body ++ rest)) : (s.takeContiguous body.length).2.Between rest := by
  obtain ⟨_, ahead, _, on⟩ := Prec.taken between.on (Eq.refl body.length) between.ahead
  have present : (s.flat.takeContiguous body.length).2.Inside := by
    have whole := congrArg List.length between.ahead
    have inside := between.on.inside
    rw [List.length_drop, List.length_append] at whole
    change s.pos + body.length ≤ (chainBytes s.chunks).length
    omega
  obtain ⟨same, _⟩ := between.on.takeContiguous present
  have tmp : (s.takeContiguous body.length).2.tmp = s.tmp := congrArg FlatReader.tmp same.flat
  exact ⟨on, ⟨(takeContiguous_bits s _).trans between.aligned.1, tmp.trans between.aligned.2⟩, ahead⟩

theorem run_stuffed {α : Type} {p : BitProgram α} {l : List Bool} {a : α} (reads : p.Reads l a)
    (between : s.Between (stuff l ++ rest)) :
    (p.run bitSource s).1 = a ∧ (p.run bitSource s).2.packetheaderFlushBits.Between rest := by
  obtain ⟨value, on, position⟩ := between.on.run_stuffed reads between.aligned between.ahead
  have chunks := (run_forward p s).chunks
  constructor
  · exact value
  · refine ⟨on, ⟨rfl, rfl⟩, ?_⟩
    rw [packetheaderFlushBits_chunks, chunks, position, ← List.drop_drop, between.ahead, List.drop_left]

/-- The body loop takes off the bodies that the header has announced. -/
theorem readBodies {places : List (Nat × Nat)} {coded : List (Option HtBlock)}
    (length : coded.length = places.length) {prec : Prec}
    (lengths : ∀ x ∈ places.zip coded, (prec.block x.1).length = (blockBody x.2).length)
    (between : s.Between (coded.flatMap blockBody ++ rest)) : (Prec.readBodies places prec s).2.Between rest := by
  induction places generalizing coded prec s with
  | nil =>
    cases List.length_eq_zero_iff.mp length
    exact between
  | cons place places ih =>
    obtain ⟨d, later, rfl⟩ := List.exists_cons_of_length_eq_add_one length
    have size : (prec.block place).length = (blockBody d).length := lengths (place, d) List.mem_cons_self
    rw [List.flatMap_cons, List.append_assoc] at between
    simp only [Prec.readBodies]
    apply ih (Nat.succ.inj length)
    · intro x member
      rw [Prec.block_setBlock_withBody]
      exact lengths x (List.mem_cons_of_mem _ member)
    · rw [size]
      exact between.takeContiguous

end Codestream.Between

/-! ### One packet -/

theorem Prec.blockOrder_readBodies (places : List (Nat × Nat)) (prec : Prec) (s : Codestream) :
    (Prec.readBodies places prec s).1.blockOrder = prec.blockOrder := by
  induction places generalizing prec s with
  | nil => rfl
  | cons place places ih => rw [Prec.readBodies, ih, Prec.setBlock_eq, Prec.blockOrder_setCell]

/-- A precinct at the start of a frame. -/
structure Prec.Blank (prec : Prec) : Prop where
  has : ∀ place ∈ prec.blockOrder, prec.HasBlock place
  fresh : ∀ place ∈ prec.blockOrder, (prec.cell place).Fresh
  length : ∀ place ∈ prec.blockOrder, (prec.block place).length = 0

theorem Prec.Allocated.blank {prec : Prec} (allocated : prec.Allocated) : prec.restart.Blank where
  has place member := (allocated.restart member).1
  fresh place member := (allocated.restart member).2
  length place member := by
    obtain ⟨band, index⟩ := Prec.mem_blockOrder.mp (show place ∈ prec.blockOrder from member)
    rw [Prec.block_eq, Prec.cell_restart, if_pos band]
    simp only [if_pos index, Blk.restart]

/-- A packet behind `read_packet`. -/
structure PacketDone (p : CodedPacket) (rest : List UInt8) (r : Bool × Prec × Codestream) : Prop where
  success : r.1 = true
  delivered : p.DeliveredIn r.2.1
  between : r.2.2.Between rest

section

variable {cbs : Nat} {prec : Prec} {s : Codestream} {rest : List UInt8}

theorem readPacket_emptyPacket (blank : prec.Blank) (between : s.Between (CodedPacket.empty.bytes ++ rest)) :
    PacketDone .empty rest (readPacket s prec cbs) := by
  have packet : (packetBits cbs prec).Reads [false] none := (reads_getBit false).bind (reads_pure none)
  obtain ⟨value, flushed⟩ := between.run_stuffed packet
  simp only [readPacket, value]
  exact ⟨rfl, fun place member => ⟨blank.length place member, (blank.fresh place member).npasses⟩, flushed⟩

theorem readPacket_blocks (ht : cbs &&& 0xC0 = 0x40) (blank : prec.Blank) {coded : List (Option HtBlock)}
    (length : coded.length = prec.blockOrder.length)
    (between : s.Between ((CodedPacket.blocks coded).bytes ++ rest)) :
    PacketDone (.blocks coded) rest (readPacket s prec cbs) := by
  obtain ⟨header, reads, order, blocks, _, decoded⟩ :=
    Prec.reads_parseBlocks ht prec.nodup_blockOrder length blank.has blank.fresh
  have packet : (packetBits cbs prec).Reads (true :: coded.flatMap blockBits) (some (true, header)) :=
    (reads_getBit true).bind (reads.map some)
  rw [CodedPacket.bytes, List.append_assoc] at between
  obtain ⟨value, flushed⟩ := between.run_stuffed packet
  have sizes : ∀ x ∈ prec.blockOrder.zip coded, (header.block x.1).length = (blockBody x.2).length := by
    intro x member
    rw [decoded x member, length_codedBlock]
  obtain ⟨_, bodies⟩ := Prec.readBodies_eq prec.nodup_blockOrder length
    (fun place member => (blocks place).mpr (blank.has place member)) sizes flushed.on flushed.ahead
  have after := flushed.readBodies length sizes
  -- Neither the header nor the bodies change the order of the code-blocks.
  have same : (Prec.readBodies prec.blockOrder header
      ((packetBits cbs prec).run Codestream.bitSource s).2.packetheaderFlushBits).1.blockOrder = prec.blockOrder :=
    (Prec.blockOrder_readBodies _ _ _).trans order
  simp only [readPacket, value, order]
  refine ⟨rfl, ⟨by rw [same]; exact length, ?_⟩, after⟩
  rw [same]
  intro x member
  have body := bodies x member
  rw [decoded x member] at body
  exact deliveredAs_of_body body

theorem readPacket_coded (ht : cbs &&& 0xC0 = 0x40) (blank : prec.Blank) {p : CodedPacket} (fits : p.Fits prec)
    (between : s.Between (p.bytes ++ rest)) : PacketDone p rest (readPacket s prec cbs) := by
  cases p with
  | empty => exact readPacket_emptyPacket blank between
  | blocks coded => exact readPacket_blocks ht blank fits between

end

/-! ### The walk over a body -/

namespace Walk

/-- An entry of the precinct list and the packet that was written for it. -/
structure Expects (w : Walk) (ct : Crp) (p : CodedPacket) : Prop where
  stored : w.tile.Stored ct
  blank : (w.tile.prec ct).Blank
  fits : p.Fits (w.tile.prec ct)
  ht : (w.handler.markers.coc ct.c).cbs &&& 0xC0 = 0x40

/-- The walk stands in front of the packets of all entries that are left. -/
structure Before (w : Walk) (packets : List CodedPacket) (rest : List UInt8) : Prop where
  once : (w.tile.crp.drop w.crpIdx).Nodup
  expects : List.Forall₂ w.Expects (w.tile.crp.drop w.crpIdx) packets
  between : w.cs.Between (bodyBytes packets ++ rest)

section

variable {w : Walk} {p : CodedPacket} {packets : List CodedPacket} {rest : List UInt8}

theorem Before.left (before : w.Before packets rest) : w.crpSize - w.crpIdx = packets.length := by
  rw [← before.expects.length_eq, List.length_drop]
  rfl

/-- The entry at the index is the one whose packet comes first. -/
theorem Before.current (before : w.Before (p :: packets) rest) :
    w.crpIdx < w.crpSize ∧ w.tile.crp.drop w.crpIdx = w.current :: w.tile.crp.drop (w.crpIdx + 1) ∧
      w.Expects w.current p := by
  have left := before.left
  have inside : w.crpIdx < w.tile.crp.length := by
    change w.crpIdx < w.crpSize
    rw [List.length_cons] at left
    omega
  have split : w.tile.crp.drop w.crpIdx = w.current :: w.tile.crp.drop (w.crpIdx + 1) := by
    rw [List.drop_eq_getElem_cons inside, Walk.current, List.getD_eq_getElem _ _ inside]
  have expects := before.expects
  rw [split] at expects
  cases expects with
  | cons here _ => exact ⟨inside, split, here⟩

/-- Another precinct than the one that is read is expected as it was. -/
theorem Expects.advanceOne (inside : w.crpIdx < w.crpSize) {ct : Crp} (apart : ct ≠ w.current)
    (expects : w.Expects ct p) : w.advanceOne.Expects ct p := by
  have prec : w.advanceOne.tile.prec ct = w.tile.prec ct := by
    rw [advanceOne_tile inside]
    change (w.tile.setPrec w.current w.packet.2.1).prec ct = w.tile.prec ct
    rw [Tile.prec_setPrec, if_neg fun same => apart same.1]
  have stored : w.advanceOne.tile.Stored ct := by
    rw [advanceOne_tile inside]
    exact (Tile.stored_setPrec _ _ _ _).mpr expects.stored
  exact ⟨stored, prec ▸ expects.blank, prec ▸ expects.fits, expects.ht⟩

/-- One packet is read, reported as it was written, and the walk stands in front of the next one. -/
theorem Before.step (before : w.Before (p :: packets) rest) :
    w.packet.1 = true ∧ p.DeliveredIn w.report.prec ∧ w.advanceOne.Before packets rest := by
  obtain ⟨inside, split, here⟩ := before.current
  have between := before.between
  rw [bodyBytes, List.flatMap_cons, List.append_assoc] at between
  have done : PacketDone p (bodyBytes packets ++ rest) w.packet := readPacket_coded here.ht here.blank here.fits between
  have later : w.advanceOne.tile.crp.drop w.advanceOne.crpIdx = w.tile.crp.drop (w.crpIdx + 1) := by
    rw [advanceOne_crpIdx inside, advanceOne_tile inside]
    rfl
  have once := before.once
  have expects := before.expects
  rw [split] at once expects
  obtain ⟨outside, once⟩ := List.nodup_cons.mp once
  cases expects with
  | cons _ expects =>
    refine ⟨done.success, done.delivered, ?_, ?_, done.between⟩
    · rw [later]
      exact once
    · rw [later]
      -- The list names no precinct twice, so those ahead have not been touched.
      refine (List.forall₂_iff_zip.mpr ⟨expects.length_eq, ?_⟩)
      intro ct q member
      have listed : ct ∈ w.tile.crp.drop (w.crpIdx + 1) := (List.of_mem_zip member).1
      have apart : ct ≠ w.current := fun same => outside (same ▸ listed)
      exact (List.forall₂_zip expects member).advanceOne inside apart

/-- The reader stands as many bytes behind its first place as the packets have that it has read. -/
theorem Before.after (before : w.Before packets rest) {i : Nat} (bound : i ≤ packets.length) :
    (w.after i).Before (packets.drop i) rest := by
  induction i with
  | zero => exact before
  | succ i ih =>
    have here := ih (Nat.le_of_succ_le bound)
    rw [List.drop_eq_getElem_cons bound] at here
    rw [after_succ]
    exact here.step.2.2

theorem Before.pos_after (before : w.Before packets rest) {i : Nat} (bound : i ≤ packets.length) :
    (w.after i).cs.pos = w.cs.pos + (bodyBytes (packets.take i)).length := by
  have later := before.after bound
  have chunks := (after_forward (w := w) (Nat.zero_le i)).chunks
  have start := congrArg List.length before.between.ahead
  have stop := congrArg List.length later.between.ahead
  have inside := before.between.on.inside
  have inside' := later.between.on.inside
  have whole : (bodyBytes packets).length =
      (bodyBytes (packets.take i)).length + (bodyBytes (packets.drop i)).length := by
    rw [← List.length_append, bodyBytes, bodyBytes, bodyBytes, ← List.flatMap_append, List.take_append_drop]
  rw [after_zero] at chunks
  rw [List.length_drop, List.length_append] at start stop
  rw [chunks] at stop inside'
  omega

theorem Before.reads (before : w.Before packets rest) : ∀ i < w.crpSize - w.crpIdx, (w.after i).packet.1 = true := by
  intro i bound
  rw [before.left] at bound
  have here := before.after (Nat.le_of_lt bound)
  rw [List.drop_eq_getElem_cons bound] at here
  exact here.step.1

/-- The callbacks for a row of packets, in their order. -/
structure Fired (w : Walk) (packets : List CodedPacket) (fired : List Report) : Prop where
  crp : fired.map Report.crp = w.tile.crp.drop w.crpIdx
  delivered : List.Forall₂ (fun rep (p : CodedPacket) => p.DeliveredIn rep.prec) fired packets

theorem Before.fired (before : w.Before packets rest) :
    ∃ fired, (w.after packets.length).reports = fired.reverse ++ w.reports ∧ w.Fired packets fired := by
  induction packets generalizing w with
  | nil =>
    have nothing : w.tile.crp.drop w.crpIdx = [] := List.forall₂_nil_right_iff.mp before.expects
    exact ⟨[], rfl, by simp [nothing], .nil⟩
  | cons p packets ih =>
    obtain ⟨inside, split, _⟩ := before.current
    obtain ⟨_, delivered, next⟩ := before.step
    obtain ⟨fired, reports, later⟩ := ih next
    have crp := later.crp
    rw [advanceOne_crpIdx inside, advanceOne_tile inside] at crp
    refine ⟨w.report :: fired, ?_, ?_, .cons delivered later.delivered⟩
    · rw [List.length_cons, ← after_advanceOne, reports]
      simp [advanceOne]
    · rw [List.map_cons, split, crp]
      rfl

end

end Walk

/-! ### Frames on a structure -/

theorem Prec.SameShape.allocated {p q : Prec} (same : Prec.SameShape p q) (allocated : q.Allocated) : p.Allocated := by
  obtain ⟨_, _, bands, width, height⟩ := same.fields
  have blocks : p.numBlocks = q.numBlocks := by rw [Prec.numBlocks, Prec.numBlocks, width, height]
  refine ⟨?_, ?_, ?_⟩
  · rw [bands, same.bands]
    exact allocated.bands
  · intro b below
    rw [blocks, same.blk]
    exact allocated.blocks b (bands ▸ below)
  · rw [width, height]
    exact allocated.nodes

instance (prec : Prec) : Decidable prec.Allocated :=
  decidable_of_iff (prec.numBands ≤ prec.pband.length ∧
      (∀ b < prec.numBands, prec.numBlocks ≤ (prec.band b).blk.length) ∧
      tagTreeSizeLoop 33 prec.ncbw prec.ncbh 0 + 1 < 2 ^ 31 - 1)
    ⟨fun ⟨bands, blocks, nodes⟩ => ⟨bands, blocks, nodes⟩,
      fun allocated => ⟨allocated.bands, allocated.blocks, allocated.nodes⟩⟩

namespace TileHandler

/-- A structure that frames of HT code-blocks can be written for. -/
def Writable (h : TileHandler) : Prop :=
  h.tile.crp.Nodup ∧ ∀ ct ∈ h.tile.crp,
    h.tile.Stored ct ∧ (h.tile.prec ct).Allocated ∧ h.style ct.c &&& 0xC0 = 0x40

instance (h : TileHandler) : Decidable h.Writable := inferInstanceAs (Decidable (_ ∧ _))

/-- One packet for each entry of the precinct list. -/
def Matches (h : TileHandler) (packets : List CodedPacket) : Prop :=
  List.Forall₂ (fun ct (p : CodedPacket) => p.Fits (h.tile.prec ct)) h.tile.crp packets

instance (h : TileHandler) (packets : List CodedPacket) : Decidable (h.Matches packets) :=
  inferInstanceAs (Decidable (List.Forall₂ _ _ _))

variable {h cur : TileHandler} {packets : List CodedPacket} {s : Codestream} {rest : List UInt8}

/-- What frames leave of the precincts has still the shape that `create` gave them. -/
theorem Latched.sameShape (latched : h.Latched cur) (ct : Crp) :
    Prec.SameShape (cur.tile.prec ct).restart (h.tile.prec ct) := by
  have same (prec : Prec) : Prec.SameShape prec.restart.forget prec.restart := Prec.sameShape_mapBlk _ _
  have here := same (cur.tile.prec ct)
  rw [latched.prec] at here
  exact here.symm.trans ((same _).trans (Prec.sameShape_restart _))

/-- On every handler of the structure, a frame starts in front of its body. -/
theorem Writable.before (writable : h.Writable) (latched : h.Latched cur) (fits : h.Matches packets)
    (between : s.Between (bodyBytes packets ++ rest)) (reports : List Report) :
    (Walk.mk cur.restart s reports).Before packets rest := by
  have tile : (Walk.mk cur.restart s reports).tile = cur.tile.restart := tile_restart cur
  have crp : (Walk.mk cur.restart s reports).tile.crp.drop (Walk.mk cur.restart s reports).crpIdx = h.tile.crp := by
    rw [Walk.crpIdx, tile]
    exact latched.crp
  refine ⟨crp ▸ writable.1, ?_, between⟩
  rw [crp]
  refine List.forall₂_iff_zip.mpr ⟨List.Forall₂.length_eq fits, ?_⟩
  intro ct p member
  obtain ⟨stored, allocated, ht⟩ := writable.2 ct (List.of_mem_zip member).1
  have shape := latched.sameShape ct
  have prec : (Walk.mk cur.restart s reports).tile.prec ct = (cur.tile.prec ct).restart := by
    rw [tile, Tile.prec_restart latched.covered]
  refine ⟨?_, ?_, ?_, ?_⟩
  · rw [tile, Tile.stored_restart, latched.stored]
    exact stored
  · have before : (cur.tile.prec ct).Allocated :=
      ((Prec.sameShape_restart _).symm.trans shape).allocated allocated
    rw [prec]
    exact before.blank
  · have fits := List.forall₂_zip fits member
    rw [prec]
    cases p with
    | empty => exact fits
    | blocks coded => exact fits.trans (congrArg List.length shape.blockOrder.symm)
  · have same : (Walk.mk cur.restart s reports).handler.markers = h.markers := latched.markers
    rw [same]
    exact ht

section

variable {made : TileHandler} (left : made.written = h.written)

include left

theorem Writable.of_written (writable : h.Writable) : made.Writable := by
  have markers : made.markers = h.markers := by
    have fields := congrArg TileHandler.markers left
    exact fields
  rw [Writable, crp_of_written left]
  refine ⟨writable.1, fun ct listed => ?_⟩
  obtain ⟨stored, allocated, ht⟩ := writable.2 ct listed
  rw [stored_of_written left, TileHandler.style, markers]
  exact ⟨stored, (Prec.sameShape_of_written (prec_of_written left ct)).allocated allocated, ht⟩

theorem Matches.of_written (fits : h.Matches packets) : made.Matches packets := by
  rw [Matches, crp_of_written left]
  refine List.Forall₂.imp (fun ct p fits => ?_) fits
  cases p with
  | empty => exact fits
  | blocks coded =>
    have order := (Prec.sameShape_of_written (prec_of_written left ct)).blockOrder
    exact fits.trans (congrArg List.length order.symm)

end

end TileHandler

/-- Two packets with four code-blocks, three of them included, and sixteen empty ones. -/
def squareBody : List CodedPacket :=
  .blocks (codedPair.drop 1) :: List.replicate 4 .empty ++
    .blocks ((codedPair ++ codedPair).drop 1) :: List.replicate 12 .empty

/-- The body and the EOC behind it, cut inside the header of the first packet. -/
def squareStream : Codestream where
  chunks := [{ bytes := (bodyBytes squareBody).take 3 }, { bytes := (bodyBytes squareBody).drop 3 ++ [0xFF, 0xD9] }]

theorem between_squareStream : squareStream.Between (bodyBytes squareBody ++ [0xFF, 0xD9]) := by
  refine ⟨?_, ⟨rfl, rfl⟩, by decide +kernel⟩
  change squareStream.rewound.OnChain
  exact Codestream.rewound_onChain (by decide +kernel)

end RtpDecoder.Parser
