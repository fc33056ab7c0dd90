import RtpDecoder.Frame.Settled
import RtpDecoder.Parser.Body
import RtpDecoder.Parser.Incremental

/-!
# Frames that arrive whole

A sender cuts a codestream into packets as it likes: the main header into the main packet, the
precincts anywhere, with an ORDB signal in front of some of them. If no packet is lost, the
callbacks get back what the encoder has put in: the bytes chunk by chunk, each precinct once and
in order with its code-blocks, one intact frame, and every slab. What the handler has gone through
before does not matter.
-/

namespace RtpDecoder.Frame

open RtpDecoder.Parser

/-! ### Frames as they are sent -/

theorem Packet.length_j2kBytes (p : Packet) : p.j2kBytes.length = p.size := by
  rw [Packet.j2kBytes, List.length_map, List.length_range]

/-- A body packet behind `base` bytes of its frame, as the parser gets to see it. -/
def Packet.piece (base : Nat) (p : Packet) : Piece where
  chunk := p.chunk
  signal := if p.ordb then some ⟨BitVec.ofNat 32 base + p.pos, p.pid⟩ else none

def pieces : Nat → List Packet → List Piece
  | _, [] => []
  | base, p :: rest => p.piece base :: pieces (base + p.size) rest

/-- Where the precincts of a body start, `base` bytes behind the start of the frame. -/
def precinctStarts (base : Nat) (coded : List CodedPacket) : List Nat :=
  (List.range coded.length).map fun m => base + (bodyBytes (coded.take m)).length

/-- The packets of a frame. -/
structure Sent where
  main : Packet
  inner : List Packet
  last : Packet

namespace Sent

def body (f : Sent) : List Packet := f.inner ++ [f.last]

def packets (f : Sent) : List Packet := f.main :: f.body

def bytes (f : Sent) : List UInt8 := f.packets.flatMap Packet.j2kBytes

/-- A frame that arrives whole: a complete main header, then body packets, none of them empty,
the last one with the marker, and not more than can be held. -/
structure Whole (f : Sent) : Prop where
  main : 2 ≤ f.main.mh ∧ f.main.gap = false ∧ f.main.marker = false ∧ 0 < f.main.size
  body : ∀ p ∈ f.body, p.mh = 0 ∧ p.gap = false ∧ 0 < p.size
  inner : ∀ p ∈ f.inner, p.marker = false
  last : f.last.marker = true
  few : f.inner.length < 3071
  short : f.bytes.length < 2 ^ 32

/-- The bytes are those of a header and of an encoded body. The header is in the main packet,
and ORDB signals tell the truth. -/
structure Carries (f : Sent) (header : List UInt8) (coded : List CodedPacket) (rest : List UInt8) : Prop where
  bytes : f.bytes = header ++ (bodyBytes coded ++ rest)
  fits : header.length ≤ f.main.size
  truthful : Truthful (precinctStarts header.length coded) f.main.size (pieces f.main.size f.body)

end Sent

/-! ### A frame in flight -/

namespace FrameHandler

/-- The walk that `parse` and `flush` go on with. -/
def walk (s : FrameHandler Reporting) : Walk := ⟨s.tileHndr.tile, s.cs, s.tileHndr.reports⟩

/-- The software walk is a part of the walk `f` over the whole frame; `D` are the chunks that have
not come yet. -/
structure InFlight (h : TileHandler) (f : Walk) (D : List Chunk) (s : FrameHandler Reporting) : Prop where
  tracked : s.isPassedHeader = true ∧ s.isParsingFailure = false
  quiet : s.resyncSoft = false ∧ s.resyncArmed = false
  bytes : s.chainTotalBytes = chainLength s.cs.chunks
  latched : h.Latched s.tileHndr.tile ∧ s.tileHndr.tile.ready = true
  path : ∃ i ≤ f.crpSize - f.crpIdx, Synced D s.walk (f.after i) ∧
    ((s.walk.handler.signalQueue = [] ∧ i = 0) ∨ Ahead f s.walk i)

/-- The chunk callbacks of body packets, in their order; `base` bytes came before. -/
def chunkEvents (cb : Callbacks) : Nat → List Packet → List Event
  | _, [] => []
  | base, p :: rest => (if cb.chunk then [.chunk false base p.size] else []) ++ chunkEvents cb (base + p.size) rest

/-- The handler after some body packets, with the outcome of the software walk. -/
def extended (cb : Callbacks) (packets : List Packet) (t : Reporting) (cs : Codestream) (armed : Bool)
    (s : FrameHandler Reporting) : FrameHandler Reporting :=
  { s with
    tileHndr := t
    cs := cs
    heldSlabs := s.heldSlabs ++ packets.map Packet.slabIdx
    chainTotalBytes := s.chainTotalBytes + (packets.map Packet.size).sum
    abortArmed := armed
    trace := (chunkEvents cb s.chainTotalBytes packets).reverse ++ s.trace }

theorem extended_nil (cb : Callbacks) (s : FrameHandler Reporting) :
    s.extended cb [] s.tileHndr s.cs s.abortArmed = s := by
  simp [extended, chunkEvents]

theorem extended_singleton (cb : Callbacks) (p : Packet) (t : Reporting) (cs : Codestream) (armed : Bool)
    (s : FrameHandler Reporting) : s.extended cb [p] t cs armed =
      { s with
        tileHndr := t
        cs := cs
        heldSlabs := s.heldSlabs ++ [p.slabIdx]
        chainTotalBytes := s.chainTotalBytes + p.size
        abortArmed := armed
        trace := (if cb.chunk then [.chunk false s.chainTotalBytes p.size] else []) ++ s.trace } := by
  cases on : cb.chunk <;> simp [extended, chunkEvents, on]

theorem chunkEvents_append (cb : Callbacks) (base : Nat) (xs ys : List Packet) :
    chunkEvents cb base (xs ++ ys) = chunkEvents cb base xs ++ chunkEvents cb (base + (xs.map Packet.size).sum) ys := by
  induction xs generalizing base with
  | nil => simp [chunkEvents]
  | cons p xs ih => simp [chunkEvents, ih, Nat.add_assoc]

theorem extended_extended (cb : Callbacks) (xs ys : List Packet) (t t' : Reporting) (cs cs' : Codestream)
    (armed armed' : Bool) (s : FrameHandler Reporting) :
    (s.extended cb xs t cs armed).extended cb ys t' cs' armed' = s.extended cb (xs ++ ys) t' cs' armed' := by
  simp [extended, chunkEvents_append, Nat.add_assoc]

/-- The handler behind the EOC of an intact frame. -/
def completed (cb : Callbacks) (t : Reporting) (s : FrameHandler Reporting) : FrameHandler Reporting :=
  { s with
    tileHndr := t
    heldSlabs := []
    chainTotalBytes := 0
    cs := {}
    totalFrames := s.totalFrames + 1
    isParsingFailure := false
    isPassedHeader := false
    parseFailStreak := 0
    frameParseFailed := false
    resyncArmed := false
    resyncSoft := false
    abortArmed := false
    trace := [.eoc] ++ ((if cb.releaseSlab then (s.heldSlabs.map Event.releaseSlab).reverse else []) ++
      ((if cb.frameReady then [.frameReady true] else []) ++ s.trace)) }

section

variable (cb : Callbacks) (left : Residue) {h : TileHandler} {f : Walk} {D : List Chunk} {s : FrameHandler Reporting}
  {p : Packet} {rest : List Packet} {starts : List Nat}

theorem InFlight.arrive (flight : s.InFlight h f (p.chunk :: D))
    (known : ∀ q ∈ starts, ∃ m < f.crpSize - f.crpIdx, q = (f.after m).cs.pos)
    (truthful : Truthful starts s.chainTotalBytes (pieces s.chainTotalBytes (p :: rest))) :
    ∃ i ≤ f.crpSize - f.crpIdx,
      Synced D ((s.walk.append p.chunk).announce (p.piece s.chainTotalBytes).signal) (f.after i) ∧
      ((((s.walk.append p.chunk).announce (p.piece s.chainTotalBytes).signal).handler.signalQueue = [] ∧ i = 0) ∨
        Ahead f ((s.walk.append p.chunk).announce (p.piece s.chainTotalBytes).signal) i) := by
  obtain ⟨i, bound, synced, before⟩ := flight.path
  refine ⟨i, bound, synced.append.announce _, ?_⟩
  rw [flight.bytes] at truthful ⊢
  exact Ahead.arrive f known before truthful

theorem InFlight.bodyPacket (flight : s.InFlight h f (p.chunk :: D)) (counted : f.cs.Counted)
    (reads : ∀ i < f.crpSize - f.crpIdx, (f.after i).packet.1 = true)
    (known : ∀ q ∈ starts, ∃ m < f.crpSize - f.crpIdx, q = (f.after m).cs.pos)
    (truthful : Truthful starts s.chainTotalBytes (pieces s.chainTotalBytes (p :: rest)))
    (short : s.chainTotalBytes + p.size < 2 ^ 64) :
    ∃ t cs, s.bodyPacket cb left.ops p = s.extended cb [p] t cs true ∧
      (s.extended cb [p] t cs true).InFlight h f D := by
  have arrived := flight.arrive known truthful
  have total : (s.chainTotalBytes + p.size) % 2 ^ 64 = s.chainTotalBytes + p.size := Nat.mod_eq_of_lt short
  have longer : chainLength (s.cs.appendChunk p.chunk).chunks = s.chainTotalBytes + p.size := by
    rw [Codestream.appendChunk, chainLength_append, flight.bytes, chainLength_cons, chainLength_nil, Packet.chunk,
      Packet.length_j2kBytes, Nat.add_zero]
  have passed : (s.appendPacket cb false p).isPassedHeader = true := flight.tracked.1
  cases signalled : p.ordb with
  | false =>
    simp only [Packet.piece, signalled, Bool.false_eq_true, if_false] at arrived
    refine ⟨s.tileHndr, s.cs.appendChunk p.chunk, ?_, ?_⟩
    · simp only [FrameHandler.bodyPacket, signalled, Bool.false_and, Bool.false_eq_true, if_false]
      simp only [extended_singleton, appendPacket, deliverChunk, emit, total]
    · rw [extended_singleton]
      exact ⟨flight.tracked, flight.quiet, longer.symm, flight.latched, arrived⟩
  | true =>
    simp only [Packet.piece, signalled, if_true] at arrived
    obtain ⟨i, bound, synced, before⟩ := arrived
    -- The signal is in the queue, so it is ahead of the walk.
    have ahead := before.resolve_left fun nothing => by simp [Walk.announce, TileHandler.appendSignal] at nothing
    obtain ⟨w, j, returned, stepped, still, chunks⟩ := parse_synced f counted reads synced ahead
    obtain ⟨_, m, _, behind, within, _⟩ := id still
    have latched : h.Latched w.handler ∧ w.handler.ready = true := by
      have related := (Walk.lockstep_latched h).parse (w := (s.walk.append p.chunk).announce
        (some ⟨BitVec.ofNat 32 s.chainTotalBytes + p.pos, p.pid⟩)) ⟨rfl, flight.latched.1.withQueue _⟩
      have ready := (Walk.kept_ready.parse returned).trans flight.latched.2
      rw [returned] at related
      cases related with
      | some kept => exact ⟨kept.2.2, ready⟩
    refine ⟨⟨w.handler, w.reports, s.tileHndr.built⟩, w.cs, ?_, ?_⟩
    · have parsed : left.ops.parse (left.ops.appendSignal s.tileHndr
          ⟨BitVec.ofNat 32 s.chainTotalBytes + p.pos, p.pid⟩) (s.cs.appendChunk p.chunk) =
          (true, ⟨w.handler, w.reports, s.tileHndr.built⟩, w.cs) := by
        have walk : (Walk.mk (s.tileHndr.tile.appendSignal ⟨BitVec.ofNat 32 s.chainTotalBytes + p.pos, p.pid⟩)
            (s.cs.appendChunk p.chunk) s.tileHndr.reports).parse = some (true, w) := returned
        simp only [Residue.ops, reportingOps, walk]
      obtain ⟨_, sane⟩ := flight.tracked
      obtain ⟨soft, armed⟩ := flight.quiet
      simp only [FrameHandler.bodyPacket, signalled, passed, Bool.and_self, if_true]
      simp only [walkPrecincts, offerPoint, appendPacket, deliverChunk, emit, sane, soft, armed, Bool.not_false,
        Bool.and_self, Bool.false_and, Bool.false_eq_true, if_true, if_false, List.nil_append, parsed, total,
        extended_singleton]
    · rw [extended_singleton]
      refine ⟨flight.tracked, flight.quiet, ?_, latched, j, Nat.le_trans behind (Nat.le_of_lt within), stepped,
        .inr still⟩
      change s.chainTotalBytes + p.size = chainLength w.cs.chunks
      rw [chunks, ← longer]
      rfl

/-- A body packet of a frame in flight is taken up at once. -/
theorem InFlight.pullData (flight : s.InFlight h f D) (body : p.mh = 0) (gapless : p.gap = false)
    (few : s.heldSlabs.length < 3072) : s.pullData cb left.ops p =
      if p.marker then (s.bodyPacket cb left.ops p).endFrame cb left.ops
      else s.bodyPacket cb left.ops p := by
  have entered : s.entered cb left.ops p = s := by
    simp [FrameHandler.entered, onGap, onSlabCap, gapless, Nat.not_le.mpr few]
  have taken : s.skips p = false := by simp [skips, flight.tracked]
  rw [pullData_eq, entered, work, if_neg (by simp [taken]), if_pos body, close, Bool.true_and]

theorem InFlight.run (counted : f.cs.Counted) (reads : ∀ i < f.crpSize - f.crpIdx, (f.after i).packet.1 = true)
    (known : ∀ q ∈ starts, ∃ m < f.crpSize - f.crpIdx, q = (f.after m).cs.pos) {inner : List Packet}
    (flight : s.InFlight h f (inner.map Packet.chunk ++ D))
    (truthful : Truthful starts s.chainTotalBytes (pieces s.chainTotalBytes (inner ++ rest)))
    (plain : ∀ p ∈ inner, p.mh = 0 ∧ p.gap = false ∧ p.marker = false)
    (few : s.heldSlabs.length + inner.length ≤ 3072)
    (short : s.chainTotalBytes + (inner.map Packet.size).sum < 2 ^ 64) :
    ∃ t cs armed, s.run cb left.ops inner = s.extended cb inner t cs armed ∧
      (s.extended cb inner t cs armed).InFlight h f D ∧
      Truthful starts (s.chainTotalBytes + (inner.map Packet.size).sum)
        (pieces (s.chainTotalBytes + (inner.map Packet.size).sum) rest) := by
  induction inner generalizing s with
  | nil =>
    refine ⟨s.tileHndr, s.cs, s.abortArmed, ?_, ?_, truthful⟩
    · rw [extended_nil]
      rfl
    · rw [extended_nil]
      exact flight
  | cons p inner ih =>
    obtain ⟨body, gapless, unmarked⟩ := plain p List.mem_cons_self
    simp only [List.map_cons, List.sum_cons, List.length_cons] at few short ⊢
    obtain ⟨t, cs, taken, next⟩ := flight.bodyPacket cb left counted reads known truthful (by omega)
    have step : s.pullData cb left.ops p = s.extended cb [p] t cs true := by
      rw [flight.pullData cb left body gapless (by omega), unmarked, if_neg Bool.false_ne_true, taken]
    have bytes : (s.extended cb [p] t cs true).chainTotalBytes = s.chainTotalBytes + p.size := by
      rw [extended_singleton]
    have slabs : (s.extended cb [p] t cs true).heldSlabs.length = s.heldSlabs.length + 1 := by
      rw [extended_singleton, List.length_append]
      rfl
    -- The signals of the later packets are counted from the bytes that this one has added.
    obtain ⟨t', cs', armed, ran, later, rest⟩ := ih next
      (by
        rw [bytes]
        have size : (p.piece s.chainTotalBytes).chunk.bytes.length = p.size := p.length_j2kBytes
        have behind := truthful.2
        rwa [size] at behind)
      (fun q member => plain q (List.mem_cons_of_mem _ member)) (by omega) (by omega)
    rw [extended_extended, List.singleton_append] at ran later
    refine ⟨t', cs', armed, ?_, later, ?_⟩
    · rw [← ran, ← step]
      rfl
    · rw [bytes] at rest
      rwa [← Nat.add_assoc]

theorem InFlight.endFrame (reads : ∀ i < f.crpSize - f.crpIdx, (f.after i).packet.1 = true)
    (flight : s.InFlight h f []) :
    ∃ old reports, (h.Latched old ∧ old.ready = true) ∧
      s.endFrame cb left.ops = s.completed cb ⟨old.restart, reports, s.tileHndr.built⟩ ∧
      reports.map Report.seen = (f.after (f.crpSize - f.crpIdx)).reports.map Report.seen := by
  obtain ⟨i, bound, synced, _⟩ := flight.path
  obtain ⟨w, returned, seen⟩ := flush_synced f reads bound synced
  have flushed : s.walk.flush = (true, w) := Option.some.inj returned
  have latched : h.Latched w.handler ∧ w.handler.ready = true := by
    have related := (Walk.lockstep_latched h).flush (w := s.walk) ⟨rfl, flight.latched.1⟩
    have ready := Walk.kept_ready.flush s.walk
    rw [flushed] at related ready
    exact ⟨related.2.2, ready.trans flight.latched.2⟩
  refine ⟨w.handler, w.reports, latched, ?_, seen⟩
  have result : left.ops.flush s.tileHndr s.cs = (true, ⟨w.handler, w.reports, s.tileHndr.built⟩, w.cs) := by
    have walk : (Walk.mk s.tileHndr.tile s.cs s.tileHndr.reports).flush = (true, w) := flushed
    simp only [Residue.ops, reportingOps, walk]
  obtain ⟨passed, sane⟩ := flight.tracked
  obtain ⟨soft, _⟩ := flight.quiet
  simp only [FrameHandler.endFrame, passed, sane, soft, result, Bool.not_false, Bool.and_self, if_true, endFrameStreak,
    emit, releaseHeldSlabs, restartTile, completed, Bool.toNat_false, Nat.add_zero]
  rfl

end

/-! ### From the main packet to the EOC -/

/-- The main packet of a frame has been taken up: the reader stands behind the header, on a tile
handler that has been restarted. -/
structure Started (h : TileHandler) (frame : Sent) (header : List UInt8) (reports : List Report)
    (v : FrameHandler Reporting) : Prop where
  tile : ∃ old n, (h.Latched old ∧ old.ready = true) ∧ v.tileHndr = ⟨old.restart, reports, n⟩
  chunks : v.cs.chunks = [frame.main.chunk]
  reader : v.cs.OnChain ∧ (v.cs.bits = 0 ∧ v.cs.tmp = 0) ∧ v.cs.pos = header.length
  tracked : v.isPassedHeader = true ∧ v.isParsingFailure = false
  quiet : v.resyncSoft = false ∧ v.resyncArmed = false
  held : v.heldSlabs = [frame.main.slabIdx]
  bytes : v.chainTotalBytes = frame.main.size

section

variable (cb : Callbacks) (left : Residue) {h : TileHandler} {frame : Sent} {header rest : List UInt8}
  {coded : List CodedPacket} {reports : List Report} {v : FrameHandler Reporting}

private theorem onChain_extend {s : Codestream} (on : s.OnChain) {D : List Chunk} (nonempty : ∀ c ∈ D, c.bytes ≠ []) :
    (s.extend D).OnChain := by
  induction D generalizing s with
  | nil =>
    have same : s.extend [] = s := by simp [Codestream.extend]
    rw [same]
    exact on
  | cons c D ih =>
    have moved : s.extend (c :: D) = (s.appendChunk c).extend D := by simp [Codestream.extend, Codestream.appendChunk]
    rw [moved]
    exact ih (on.appendChunk (nonempty c List.mem_cons_self)).2 fun c' member =>
      nonempty c' (List.mem_cons_of_mem _ member)

theorem chunk_nonempty {p : Packet} (some : 0 < p.size) : p.chunk.bytes ≠ [] := by
  apply List.ne_nil_of_length_pos
  exact Nat.lt_of_lt_of_eq some p.length_j2kBytes.symm

theorem chainBytes_map_chunk (packets : List Packet) :
    chainBytes (packets.map Packet.chunk) = packets.flatMap Packet.j2kBytes := by
  induction packets with
  | nil => rfl
  | cons p packets ih => rw [List.map_cons, chainBytes_cons, ih, List.flatMap_cons, Packet.chunk]

/-- With the chunks that are still to come, the reader stands in front of the body. -/
theorem Started.between (started : v.Started h frame header reports) (whole : frame.Whole)
    (carries : frame.Carries header coded rest) :
    (v.cs.extend (frame.body.map Packet.chunk)).Between (bodyBytes coded ++ rest) := by
  obtain ⟨on, aligned, place⟩ := started.reader
  refine ⟨?_, aligned, ?_⟩
  · apply onChain_extend on
    intro c member
    obtain ⟨p, sent, rfl⟩ := List.mem_map.mp member
    exact chunk_nonempty (whole.body p sent).2.2
  · have bytes : chainBytes (v.cs.extend (frame.body.map Packet.chunk)).chunks = frame.bytes := by
      rw [Codestream.extend, started.chunks, List.singleton_append, ← List.map_cons, chainBytes_map_chunk]
      rfl
    rw [bytes, Codestream.extend_pos, place, carries.bytes, List.drop_left]

/-- The walk over the whole frame, and the place of the handler on it. -/
theorem Started.inFlight (started : v.Started h frame header reports) (writable : h.Writable)
    (fits : h.Matches coded) (whole : frame.Whole) (carries : frame.Carries header coded rest) :
    ∃ f : Walk, f.Before coded rest ∧ f.reports = reports ∧ f.cs.pos = header.length ∧
      f.tile.crp.drop f.crpIdx = h.tile.crp ∧ v.InFlight h f (frame.body.map Packet.chunk) := by
  obtain ⟨old, _, latched, tile⟩ := started.tile
  refine ⟨⟨old.restart, v.cs.extend (frame.body.map Packet.chunk), reports⟩,
    writable.before latched.1 fits (started.between whole carries) reports, rfl, ?_, ?_, ?_⟩
  · exact (Codestream.extend_pos _ _).trans started.reader.2.2
  · rw [Walk.crpIdx, Walk.tile, TileHandler.tile_restart]
    exact latched.1.crp
  · refine ⟨started.tracked, started.quiet, ?_, ?_, 0, Nat.zero_le _, ?_, .inl ⟨?_, rfl⟩⟩
    · rw [started.bytes, started.chunks, chainLength_cons, chainLength_nil, Packet.chunk, Packet.length_j2kBytes,
        Nat.add_zero]
    · rw [tile]
      exact ⟨latched.1.restart, latched.2⟩
    · rw [walk, tile]
      exact ⟨rfl, rfl, rfl, rfl⟩
    · rw [walk, tile]
      rfl

/-- From the main packet on, a whole frame goes through: its chunks and its precincts are delivered,
it is reported as intact, and all its slabs are given back. -/
theorem Started.run (started : v.Started h frame header reports) (writable : h.Writable)
    (fits : h.Matches coded) (whole : frame.Whole) (carries : frame.Carries header coded rest) :
    ∃ old reports' n t cs, (h.Latched old ∧ old.ready = true) ∧
      v.run cb left.ops frame.body = (v.extended cb frame.body t cs true).completed cb ⟨old.restart, reports', n⟩ ∧
      ∃ fired : List Report, reports'.map Report.seen = (fired.reverse ++ reports).map Report.seen ∧
        fired.map Report.crp = h.tile.crp ∧
        List.Forall₂ (fun rep (p : CodedPacket) => p.DeliveredIn rep.prec) fired coded := by
  obtain ⟨f, before, old_reports, place, crp, flight⟩ := started.inFlight writable fits whole carries
  have reads := before.reads
  have counted := before.between.on.counted
  -- A resync point that tells the truth names a place of the walk over the whole frame.
  have known : ∀ q ∈ precinctStarts header.length coded, ∃ m < f.crpSize - f.crpIdx, q = (f.after m).cs.pos := by
    intro q member
    obtain ⟨m, bound, rfl⟩ := List.mem_map.mp member
    have bound := List.mem_range.mp bound
    refine ⟨m, before.left ▸ bound, ?_⟩
    rw [before.pos_after (Nat.le_of_lt bound), place]
  have sizes : frame.bytes.length = frame.main.size + (frame.inner.map Packet.size).sum + frame.last.size := by
    have each (packets : List Packet) : (packets.flatMap Packet.j2kBytes).length = (packets.map Packet.size).sum := by
      rw [List.length_flatMap]
      simp only [Packet.length_j2kBytes]
    rw [Sent.bytes, each]
    simp [Sent.packets, Sent.body, Nat.add_assoc]
  have short := whole.short
  have few := whole.few
  have held : v.heldSlabs.length = 1 := by rw [started.held]; rfl
  have bytes := started.bytes
  have truthful := carries.truthful
  rw [← bytes, Sent.body] at truthful
  rw [Sent.body, List.map_append] at flight
  have plain : ∀ p ∈ frame.inner, p.mh = 0 ∧ p.gap = false ∧ p.marker = false := by
    intro p member
    obtain ⟨body, gapless, _⟩ := whole.body p (List.mem_append_left _ member)
    exact ⟨body, gapless, whole.inner p member⟩
  -- All packets but the last, then the last one up to the EOC block, then that block.
  obtain ⟨t, cs, armed, ran, inside, truth⟩ :=
    flight.run cb left counted reads known truthful plain (by omega) (by omega)
  generalize same : v.extended cb frame.inner t cs armed = u at ran inside
  have total : u.chainTotalBytes = v.chainTotalBytes + (frame.inner.map Packet.size).sum := by rw [← same]; rfl
  have slabs : u.heldSlabs.length = 1 + frame.inner.length := by
    rw [← same, extended, List.length_append, held, List.length_map]
  obtain ⟨body, gapless, _⟩ := whole.body frame.last (List.mem_append_right _ List.mem_cons_self)
  rw [← total] at truth
  obtain ⟨t', cs', taken, final⟩ := inside.bodyPacket cb left counted reads known truth (by omega)
  obtain ⟨old, reports', latched, ended, seen⟩ := final.endFrame cb left reads
  refine ⟨old, reports', t'.built, t', cs', latched, ?_, ?_⟩
  · have step : u.pullData cb left.ops frame.last =
        (u.extended cb [frame.last] t' cs' true).endFrame cb left.ops := by
      rw [inside.pullData cb left body gapless (by omega), whole.last, if_pos rfl, taken]
    rw [Sent.body, FrameHandler.run, List.foldl_append]
    change (v.run cb left.ops frame.inner).pullData cb left.ops frame.last = _
    rw [ran, step, ended, ← same, extended_extended]
    rfl
  · obtain ⟨fired, made, done⟩ := before.fired
    rw [before.left, made, old_reports] at seen
    exact ⟨fired, seen, done.crp.trans crp, done.delivered⟩

end

end FrameHandler

end RtpDecoder.Frame
