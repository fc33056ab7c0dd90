import RtpDecoder.Parser.TileHandler

/-!
# The frame handler

`frame_handler::pull_data`, one call per received packet: it starts a frame at a main
packet, appends the packet's bytes to the chain, keeps their slabs, lets the tile handler
parse, and ends the frame at its EOC, with a missed EOC, a gap, a parse failure or too many
held slabs on the way. The tile handler is a parameter, so that every outcome of header and
precinct parsing is covered. The calls of the registered callbacks are kept in a ghost
trace, the latest first. Logging, timing and the file output are left out.
-/

namespace RtpDecoder.Frame

open RtpDecoder.Parser (Codestream Chunk Signal)

/-! ### Packets -/

/-- One call of `pull_data`: the memory behind `payload`, and what the two resync callbacks
answer if they are asked. -/
structure Packet where
  payload : Nat → UInt8
  size : Nat
  marker : Bool := false
  slabIdx : Nat := 0
  gap : Bool := false
  gapAnswer : Bool := false
  pointAnswer : Bool := false

namespace Packet

/-- The two top bits say whether this is a main packet: 0 for a body packet, 2 or more for
a complete main header. -/
def mh (p : Packet) : Nat := (p.payload 0).toNat / 64

def ordb (p : Packet) : Bool := (p.payload 1).toNat.testBit 7

/-- The big-endian word at offset 4. -/
def posPid (p : Packet) : BitVec 32 :=
  (p.payload 4).toBitVec ++ (p.payload 5).toBitVec ++ (p.payload 6).toBitVec ++
    (p.payload 7).toBitVec

def pid (p : Packet) : BitVec 32 := p.posPid &&& 0x000FFFFF

def pos (p : Packet) : BitVec 32 := p.posPid >>> 20

/-- The `size` bytes behind `j2k_payload`. -/
def j2kBytes (p : Packet) : List UInt8 := (List.range p.size).map fun i => p.payload (8 + i)

/-- The range that is appended to the chain. -/
def chunk (p : Packet) : Chunk := { slab := p.slabIdx, bytes := p.j2kBytes }

end Packet

/-! ### Callbacks -/

inductive AbortReason where
  | gap | parse | missedEOC | slabCap | damagedEOC
deriving DecidableEq, Repr

inductive RelatchReason where
  | geometry | parseFail
deriving DecidableEq, Repr

/-- A callback call. `chunk` also says whether a main packet delivered it, and `eoc` marks
the end of a call that finished a frame at its marker; both are ghosts. -/
inductive Event where
  | chunk (main : Bool) (offset len : Nat)
  | abort (reason : AbortReason)
  | frameReady (intact : Bool)
  | releaseSlab (idx : Nat)
  | relatch (reason : RelatchReason)
  | resyncGap (seam : Nat)
  | resyncPoint (resyncByte pid : BitVec 32)
  | eoc
deriving DecidableEq, Repr

/-- Which callbacks are registered. -/
structure Callbacks where
  chunk : Bool := true
  frameAbort : Bool := true
  frameReady : Bool := true
  releaseSlab : Bool := true
  relatch : Bool := true
  resyncGap : Bool := true
  resyncPoint : Bool := true
deriving DecidableEq, Repr

/-- The tile handler as `pull_data` uses it. The codestream is the one it was created with;
no operation changes the chunks of the chain. Parse results are `true` for success. -/
structure TileOps (T : Type) where
  isReady : T → Bool
  invalidate : T → T
  geometrySignature : List UInt8 → BitVec 64 × BitVec 32
  parseMainHeader : T → Codestream → BitVec 32 × T × Codestream
  create : T → Bool × T
  appendSignal : T → Signal → T
  parse : T → Codestream → Bool × T × Codestream
  flush : T → Codestream → Bool × T × Codestream
  restart : T → T
  parseMainHeader_chunks : ∀ t cs, (parseMainHeader t cs).2.2.chunks = cs.chunks
  parse_chunks : ∀ t cs, (parse t cs).2.2.chunks = cs.chunks
  flush_chunks : ∀ t cs, (flush t cs).2.2.chunks = cs.chunks

/-- The counters `totalFrames`, `truncFrames` and `relatches` do not wrap around, as the 64 bits of
`size_t` do. -/
structure FrameHandler (T : Type) where
  tileHndr : T
  heldSlabs : List Nat := []
  chainTotalBytes : Nat := 0
  totalFrames : Nat := 0
  truncFrames : Nat := 0
  startSOD : BitVec 32 := 0
  isParsingFailure : Bool := false
  isPassedHeader : Bool := false
  cs : Codestream := {}
  geomSig : BitVec 64 := 0
  relatchK : Nat := 4
  parseFailStreak : Nat := 0
  frameParseFailed : Bool := false
  relatches : Nat := 0
  resyncArmed : Bool := false
  resyncSoft : Bool := false
  abortArmed : Bool := false
  trace : List Event := []

namespace FrameHandler

variable {T : Type} (cb : Callbacks) (ops : TileOps T)

/-- Call a callback, if it is registered. -/
def emit (registered : Bool) (e : Event) (s : FrameHandler T) : FrameHandler T :=
  { s with trace := (if registered then [e] else []) ++ s.trace }

def deliverChunk (main : Bool) (offset len : Nat) (s : FrameHandler T) : FrameHandler T :=
  emit cb.chunk (.chunk main offset len) { s with abortArmed := true }

/-- The abort goes out only while one is armed, and disarms it. -/
def fireAbort (reason : AbortReason) (s : FrameHandler T) : FrameHandler T :=
  emit (s.abortArmed && cb.frameAbort) (.abort reason) { s with
    frameParseFailed := s.frameParseFailed || decide (reason = .parse)
    resyncArmed := false
    resyncSoft := false
    abortArmed := false }

def endFrameStreak (clean : Bool) (s : FrameHandler T) : FrameHandler T :=
  { s with
    parseFailStreak :=
      if clean then 0
      else if s.frameParseFailed then (s.parseFailStreak + 1) % 2 ^ 32
      else s.parseFailStreak
    frameParseFailed := false }

def releaseHeldSlabs (s : FrameHandler T) : FrameHandler T :=
  { s with
    trace := (if cb.releaseSlab then (s.heldSlabs.map Event.releaseSlab).reverse else []) ++ s.trace
    heldSlabs := []
    chainTotalBytes := 0
    cs := s.cs.clear }

def restartTile (s : FrameHandler T) : FrameHandler T := { s with tileHndr := ops.restart s.tileHndr }

/-- `trunc_frames++; total_frames++; end_frame_streak(false)`. -/
def countDamaged (s : FrameHandler T) : FrameHandler T :=
  endFrameStreak false
    { s with truncFrames := s.truncFrames + 1, totalFrames := s.totalFrames + 1 }

/-- Give the frame up but keep its slabs until it ends. -/
def failFrame (reason : AbortReason) (s : FrameHandler T) : FrameHandler T :=
  { s.fireAbort cb reason with isParsingFailure := true }

/-- Append the packet's bytes: chunk callback, chain, held slab, running total. -/
def appendPacket (main : Bool) (p : Packet) (s : FrameHandler T) : FrameHandler T :=
  let s := s.deliverChunk cb main s.chainTotalBytes p.size
  { s with
    cs := s.cs.appendChunk p.chunk
    heldSlabs := s.heldSlabs ++ [p.slabIdx]
    chainTotalBytes := (s.chainTotalBytes + p.size) % 2 ^ 64 }

/-! ### The parts of `pull_data` -/

/-- A gap ends a frame in flight, unless the resync consumer accepts it. -/
def onGap (p : Packet) (s : FrameHandler T) : FrameHandler T :=
  if p.gap && (s.isPassedHeader || !s.heldSlabs.isEmpty) && !s.isParsingFailure then
    let asked := cb.resyncGap && s.isPassedHeader
    let s := s.emit asked (.resyncGap s.chainTotalBytes)
    if asked && p.gapAnswer then { s with resyncArmed := true, resyncSoft := true }
    else s.failFrame cb .gap
  else s

/-- The runaway cap on held slabs. -/
def onSlabCap (s : FrameHandler T) : FrameHandler T :=
  if 3072 ≤ s.heldSlabs.length then
    let s := ((s.fireAbort cb .slabCap).releaseHeldSlabs cb).restartTile ops
    let s := { s with truncFrames := s.truncFrames + 1 }.endFrameStreak false
    { s with isParsingFailure := false, isPassedHeader := false }
  else s

/-- A body packet while no frame is tracked. -/
def skipBody (p : Packet) (s : FrameHandler T) : FrameHandler T :=
  let s := s.emit cb.releaseSlab (.releaseSlab p.slabIdx)
  if p.marker then
    -- Usually the abort went out when the damage was seen, and is not armed any more.
    let s := if s.isParsingFailure || s.isPassedHeader then (s.fireAbort cb .damagedEOC).countDamaged
      else s
    let s := { s with isParsingFailure := false, isPassedHeader := false }
    ((s.releaseHeldSlabs cb).restartTile ops).emit true .eoc
  else s

/-- A main packet that finds slabs held: the EOC of their frame was missed. -/
def closeMissed (s : FrameHandler T) : FrameHandler T :=
  if s.heldSlabs.isEmpty then s
  else
    let s := ((s.fireAbort cb .missedEOC).releaseHeldSlabs cb).restartTile ops
    let s := if s.isPassedHeader || s.isParsingFailure then s.countDamaged else s
    { s with isPassedHeader := false }

/-- Whether a complete main header on a latched stream calls for a re-latch. -/
def relatchReason (sig : BitVec 64) (s : FrameHandler T) : Option RelatchReason :=
  if s.relatchK ≠ 0 ∧ s.relatchK ≤ s.parseFailStreak then some .parseFail
  else if sig ≠ (if s.geomSig = 0 then sig else s.geomSig) then some .geometry
  else none

/-- A complete main header on a stream that is not latched. The Boolean says whether
`pull_data` goes on to the marker. -/
def latch (sig : BitVec 64) (relatch : Option RelatchReason) (s : FrameHandler T) :
    Bool × FrameHandler T :=
  let r := ops.parseMainHeader s.tileHndr (s.cs.reset 0)
  let s := { s with startSOD := r.1, tileHndr := r.2.1, cs := r.2.2 }
  -- An offset of 0 means that there was no main header to parse.
  if r.1 = 0 then (false, s.failFrame cb .parse)
  else
    let created := ops.create s.tileHndr
    let s := { s with tileHndr := created.2 }
    if created.1 then
      let s := { s with isPassedHeader := true, geomSig := sig, parseFailStreak := 0 }
      match relatch with
      | none => (true, s)
      | some reason =>
        (true, { s with relatches := s.relatches + 1 }.emit cb.relatch (.relatch reason))
    else (false, s.failFrame cb .parse)

/-- A main packet on a latched stream, its signature verified or not available. -/
def resume (sod : BitVec 32) (s : FrameHandler T) : FrameHandler T :=
  -- The offset that the signature walk found wins over the latched one.
  let startSOD := if sod = 0 then s.startSOD else sod
  { s with startSOD := startSOD, cs := s.cs.reset startSOD, isPassedHeader := true }

/-- The part of a main header, on a stream that is not latched. -/
def collectHeader (p : Packet) (s : FrameHandler T) : Bool × FrameHandler T :=
  let startSOD := s.startSOD + BitVec.ofNat 32 p.size
  (decide (startSOD ≠ 0), { s with startSOD := startSOD })

def mainPacket (p : Packet) (s : FrameHandler T) : Bool × FrameHandler T :=
  let s := s.closeMissed cb ops
  let s := { s with isParsingFailure := false, frameParseFailed := false }.appendPacket cb true p
  if 2 ≤ p.mh then
    let sig := ops.geometrySignature p.j2kBytes
    if ops.isReady s.tileHndr then
      -- A malformed header must not make use of the latched structure.
      if sig.1 = 0 then (false, s.failFrame cb .parse)
      else
        let relatch := s.relatchReason sig.1
        -- A stream that was latched by split headers has no signature yet.
        let s := { s with geomSig := if s.geomSig = 0 then sig.1 else s.geomSig }
        if relatch.isSome then
          -- `invalidate` leaves the stream unlatched, so the header is parsed anew.
          let s := { s with tileHndr := ops.invalidate s.tileHndr }
          if ops.isReady s.tileHndr then (true, s.resume sig.2) else s.latch cb ops sig.1 relatch
        else (true, s.resume sig.2)
    else s.latch cb ops sig.1 none
  else if ops.isReady s.tileHndr then (true, s.resume 0)
  else s.collectHeader p

/-- A resync point: queue the signal, and offer the point to an armed consumer. -/
def offerPoint (p : Packet) (resyncByte : BitVec 32) (s : FrameHandler T) : FrameHandler T :=
  let s := { s with tileHndr := ops.appendSignal s.tileHndr ⟨resyncByte, p.pid⟩ }
  let offered := s.resyncArmed && cb.resyncPoint
  { s with resyncArmed := s.resyncArmed && !(offered && p.pointAnswer) }.emit offered
    (.resyncPoint resyncByte p.pid)

/-- The software walk, unless it is parked. -/
def walkPrecincts (s : FrameHandler T) : FrameHandler T :=
  if !s.isParsingFailure && !s.resyncSoft then
    let r := ops.parse s.tileHndr s.cs
    let s := { s with tileHndr := r.2.1, cs := r.2.2 }
    if r.1 then s else { s with isPassedHeader := false }.failFrame cb .parse
  else s

/-- A body packet of the frame that is being tracked. -/
def bodyPacket (p : Packet) (s : FrameHandler T) : FrameHandler T :=
  -- The point counts from the start of this packet's bytes.
  let resyncByte := BitVec.ofNat 32 s.chainTotalBytes + p.pos
  let s := s.appendPacket cb false p
  if p.ordb && s.isPassedHeader then (s.offerPoint cb ops p resyncByte).walkPrecincts cb ops else s

/-- The EOC block. -/
def endFrame (s : FrameHandler T) : FrameHandler T :=
  let frameIntact := !s.isParsingFailure && s.isPassedHeader && !s.resyncSoft
  let s := { s with abortArmed := false, resyncArmed := false, resyncSoft := false }
  let s := if frameIntact then
      let r := ops.flush s.tileHndr s.cs
      let s := { s with tileHndr := r.2.1, cs := r.2.2 }
      if r.1 then s
      -- No abort here: all bytes have been delivered, and `intact` is decided already.
      else { s with isParsingFailure := true, isPassedHeader := false, frameParseFailed := true }
    else s
  let s := s.endFrameStreak (frameIntact && !s.isParsingFailure)
  let s := s.emit cb.frameReady (.frameReady frameIntact)
  let s := { s with
    truncFrames := s.truncFrames + s.isParsingFailure.toNat
    totalFrames := s.totalFrames + 1
    isParsingFailure := false
    isPassedHeader := false }
  ((s.releaseHeldSlabs cb).restartTile ops).emit true .eoc

/-- Body packets are skipped while no frame is tracked. -/
def skips (p : Packet) (s : FrameHandler T) : Bool :=
  decide (p.mh = 0) && (!s.isPassedHeader || s.isParsingFailure)

def pullData (s : FrameHandler T) (p : Packet) : FrameHandler T :=
  let s := (s.onGap cb p).onSlabCap cb ops
  if s.skips p then s.skipBody cb ops p
  else
    let r := if p.mh = 0 then (true, s.bodyPacket cb ops p) else s.mainPacket cb ops p
    if r.1 && p.marker then r.2.endFrame cb ops else r.2

/-- Whether the call gets to one of the two marker blocks: the packet is skipped, or it is taken up
without an early return, which only a main packet can take. -/
def goesOn (s : FrameHandler T) (p : Packet) : Bool :=
  let s := (s.onGap cb p).onSlabCap cb ops
  s.skips p || decide (p.mh = 0) || (s.mainPacket cb ops p).1

/-- The handler after a sequence of calls. -/
def run (s : FrameHandler T) (packets : List Packet) : FrameHandler T :=
  packets.foldl (pullData cb ops) s

/-- A new handler: any tile handler, any threshold for the escape hatch. -/
def new (tileHndr : T) (relatchK : Nat) : FrameHandler T := { tileHndr := tileHndr, relatchK := relatchK }

end FrameHandler

end RtpDecoder.Frame
