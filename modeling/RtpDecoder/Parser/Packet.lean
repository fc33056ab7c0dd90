import RtpDecoder.Parser.Codestream

/-!
# Packets

`read_packet` of one precinct: the packet header, decoded bit by bit into the state of
the precinct's code-blocks, and the code-block bodies behind it. Indices outside an
array are undefined in the source; here a read gives the default and a write is lost.
-/

namespace RtpDecoder.Parser

open BitProgram

structure TagNode where
  val : Nat := 0
  vis : Nat := 0
deriving DecidableEq, Repr, Inhabited

structure Geometry where
  x0 : Int := 0
  y0 : Int := 0
  x1 : Int := 0
  y1 : Int := 0
deriving DecidableEq, Repr, Inhabited

structure Blk where
  coord : Geometry := {}
  data : Option (List UInt8) := none
  passLengths0 : Nat := 0
  passLengths1 : Nat := 0
  length : Nat := 0
  scup : Nat := 0
  modes : Nat := 0
  incl : Nat := 0
  lblock : Nat := 3
  zbp : Nat := 0
  npasses : Nat := 0
  htPlhd : Bool := false
deriving DecidableEq, Repr, Inhabited

structure Pband where
  incl : List TagNode := []
  zbp : List TagNode := []
  blk : List Blk := []
deriving DecidableEq, Repr, Inhabited

structure Prec where
  pband : List Pband := []
  coord : Geometry := {}
  resNum : Nat := 0
  numBands : Nat := 0
  ncbw : Nat := 0
  ncbh : Nat := 0
deriving DecidableEq, Repr, Inhabited

def jpeg2000MaxPasses : Nat := 100
def cmodeBypass : Nat := 0x01
def cmodeTermall : Nat := 0x04
def cmodeHt : Nat := 0x40
def htMixed : Nat := 0x80

/-- Whether one of the bits of `mask` is set in `modes`. -/
def hasMode (modes mask : Nat) : Bool := modes &&& mask != 0

/-- `int_log2`: 0 for 0. -/
def intLog2 (x : Nat) : Nat := (x ||| 1).log2

/-- Subtraction of `uint32_t`. -/
def sub32 (a b : Nat) : Nat := (a + 2 ^ 32 - b) % 2 ^ 32

/-! ### One code-block of a packet header -/

def tagTreeLoop : Nat → TagNode → BitProgram TagNode
  | 0, node => pure node
  | n + 1, node => do
    if ← getBit then pure { node with vis := node.vis + 1 }
    else tagTreeLoop n { node with val := node.val + 1 }

/-- The decoded value is the new `val` of the node. -/
def tagTreeDecode (node : TagNode) (threshold : Nat) : BitProgram TagNode :=
  tagTreeLoop (threshold - node.val) node

/-- The number of coding passes, in its variable-length code. -/
def decodePasses : BitProgram Nat := do
  let n := 1 + (← getBit).toNat
  let n ← if 2 ≤ n then do pure (n + (← getBit).toNat) else pure n
  let n ← if 3 ≤ n then do pure (n + (← getBits 2)) else pure n
  let n ← if 6 ≤ n then do pure (n + (← getBits 5)) else pure n
  if 37 ≤ n then do pure (n + (← getBits 7)) else pure n

/-- `bits_to_read` and `pass_bound` after counting the passes of a segment; `fuel` only
has to be at least `segmentPasses`, since `pass_bound` doubles each time. -/
def growBits (segmentPasses : Nat) : Nat → Nat → Nat → Nat × Nat
  | 0, bits, bound => (bits, bound)
  | fuel + 1, bits, bound =>
    if bound ≤ segmentPasses then growBits segmentPasses fuel (bits + 1) (2 * bound)
    else (bits, bound)

/-- Read further bits of a segment length, one for each doubling of `pass_bound`. -/
def extendLength (segmentPasses : Nat) : Nat → Nat → Nat → BitProgram Nat
  | 0, _, bytes => pure bytes
  | fuel + 1, bound, bytes =>
    if bound ≤ segmentPasses then do
      let b ← getBit
      extendLength segmentPasses fuel (2 * bound) (2 * bytes + b.toNat)
    else pure bytes

/-- What the first segment of a code-block leaves for the loops after it, and its length. Most styles
keep the length nowhere else. -/
structure Segment where
  blk : Blk
  passes : Nat
  bytes : Nat
  nextPasses : Nat := 0
  bypassTermThreshold : Nat := 0

/-- `cblk->ht_plhd` is on: no HT cleanup pass has been seen in this block. The result is
`none` where the source returns a failure; the block is unchanged there. -/
def placeholderSegment (blk : Blk) (newpasses : Nat) : BitProgram (Option Segment) := do
  let hrefPasses := (blk.npasses + newpasses - 1) % 3
  if newpasses ≤ hrefPasses then
    -- No cleanup pass is possible: placeholder passes, or a block of the original coder.
    let grown := growBits newpasses newpasses blk.lblock 2
    let bytes ← getBits grown.1
    if bytes = 0 then pure (some ⟨blk, newpasses, bytes, 0, 0⟩)
    else if hasMode blk.modes htMixed then
      pure (some ⟨{ blk with htPlhd := false, modes := blk.modes &&& 0xBF }, newpasses, bytes, 0, 0⟩)
    else pure none
  else
    let segmentPasses := newpasses - hrefPasses
    let grown := growBits segmentPasses segmentPasses blk.lblock 2
    let bytes ← getBits grown.1
    if bytes ≠ 0 then
      let cleanup : Segment :=
        ⟨{ blk with htPlhd := false, passLengths0 := bytes }, segmentPasses, bytes, 2, 0⟩
      if !hasMode blk.modes htMixed then
        -- A cleanup segment has at least two bytes.
        if bytes < 2 then pure none else pure (some cleanup)
      else if 3 < blk.lblock ∧ 1 < bytes ∧ bytes >>> (grown.1 - 1) = 0 then pure (some cleanup)
      else
        -- Not an HT block after all: the bits read are the high bits of its length.
        let bytes ← extendLength newpasses newpasses grown.2 bytes
        pure (some ⟨{ blk with
          modes := blk.modes &&& 0xBF, htPlhd := false, passLengths0 := bytes }, newpasses, bytes, 0, 0⟩)
    else
      -- Probably a placeholder; the number of length bits depends on the number of passes.
      let bytes ← extendLength newpasses newpasses grown.2 0
      if bytes = 0 then pure (some ⟨blk, newpasses, bytes, 0, 0⟩)
      else if hasMode blk.modes htMixed then
        pure (some ⟨{ blk with
          modes := blk.modes &&& 0xBF, htPlhd := false, passLengths0 := bytes }, newpasses, bytes, 0, 0⟩)
      else pure none

/-- The first segment of a code-block, by coding style. -/
def firstSegment (blk : Blk) (newpasses : Nat) : BitProgram (Option Segment) := do
  if blk.htPlhd then placeholderSegment blk newpasses
  else if hasMode blk.modes cmodeHt then
    let atCleanup := blk.npasses % 3 = 0
    let segmentPasses :=
      if atCleanup then 1 else if 1 < newpasses then 3 - blk.npasses % 3 else 1
    let bytes ← getBits ((blk.lblock + intLog2 segmentPasses) % 256)
    pure (some ⟨{ blk with passLengths1 := (blk.passLengths1 + bytes) % 2 ^ 32 }, segmentPasses,
      bytes, if atCleanup then 2 else 1, 0⟩)
  else if !hasMode blk.modes (cmodeTermall ||| cmodeBypass) then
    let bytes ← getBits ((blk.lblock + intLog2 newpasses) % 256)
    pure (some ⟨blk, newpasses, bytes, 0, 0⟩)
  else if hasMode blk.modes cmodeTermall then
    let bytes ← getBits blk.lblock
    pure (some ⟨blk, 1, bytes, 1, 0⟩)
  else
    let early := blk.npasses < 10
    let segmentPasses :=
      if early then min (10 - blk.npasses) newpasses
      else if 1 < newpasses then 2 - (blk.npasses - 10) % 3 else 1
    let bytes ← getBits ((blk.lblock + intLog2 segmentPasses) % 256)
    pure (some ⟨blk, segmentPasses, bytes, if early then 2 else 1, 10⟩)

/-- The further segments of an HT code-block. The fuel is `newpasses`, and each turn takes
at least one pass off it. -/
def htSegments : Nat → Nat → Nat → Blk → BitProgram Blk
  | 0, _, _, blk => pure blk
  | fuel + 1, newpasses, next, blk => do
    if newpasses = 0 then pure blk
    else
      let segmentPasses := if 1 < newpasses then next else 1
      let bytes ← getBits ((blk.lblock + intLog2 segmentPasses) % 256)
      htSegments fuel (sub32 newpasses segmentPasses) ((3 + 256 - next) % 256)
        { blk with
          passLengths1 := (blk.passLengths1 + bytes) % 2 ^ 32
          npasses := (blk.npasses + segmentPasses) % 256 }

/-- The further segments of a code-block in another style; the Boolean is `false` for a corrupt
header, with the block as it is then. -/
def otherSegments (bypassTermThreshold : Nat) :
    Nat → Nat → Nat → Blk → BitProgram (Bool × Blk)
  | 0, _, _, blk => pure (true, blk)
  | fuel + 1, newpasses, next, blk => do
    if newpasses = 0 then pure (true, blk)
    else if bypassTermThreshold ≠ 0 then
      let segmentPasses := if 1 < newpasses then next else 1
      let _ ← getBits ((blk.lblock + intLog2 segmentPasses) % 256)
      otherSegments bypassTermThreshold fuel (sub32 newpasses segmentPasses)
        ((3 + 256 - next) % 256) { blk with npasses := (blk.npasses + segmentPasses) % 256 }
    else if !hasMode blk.modes cmodeTermall then pure (false, blk)
    else
      let _ ← getBits blk.lblock
      otherSegments bypassTermThreshold fuel (sub32 newpasses 1) next
        { blk with npasses := (blk.npasses + 1) % 256 }

/-- Passes, length bits and segment lengths of an included code-block. The Boolean says
whether the source went on; the block keeps what was written before a failure. -/
def parseIncluded (blk : Blk) : BitProgram (Bool × Blk) := do
  let newpasses ← decodePasses
  if jpeg2000MaxPasses ≤ blk.npasses + newpasses then pure (false, blk)
  else
    let llen ← getOnes
    if 16 < blk.lblock + llen + intLog2 newpasses then pure (false, blk)
    else
      let blk := { blk with lblock := blk.lblock + llen }
      match ← firstSegment blk newpasses with
      | none => pure (false, blk)
      | some seg =>
        -- The passes beyond the first segment have segments of their own.
        let blk := { seg.blk with npasses := (seg.blk.npasses + seg.passes) % 256 }
        let rest := sub32 newpasses seg.passes
        if hasMode blk.modes cmodeHt && !blk.htPlhd then
          let blk ← htSegments rest rest seg.nextPasses blk
          pure (true, blk)
        else otherSegments seg.bypassTermThreshold rest rest seg.nextPasses blk

/-- One turn of the block loop of `parse_packet_header`. -/
def parseBlock (cbs : Nat) (incl zbp : TagNode) (blk : Blk) :
    BitProgram (Bool × TagNode × TagNode × Blk) := do
  -- Every packet starts with the styles of the header again.
  let blk := { blk with modes := cbs, htPlhd := blk.htPlhd || decide (cmodeHt ≤ cbs) }
  let incl ← tagTreeDecode incl 1
  if incl.val = 0 then
    let zbp ← tagTreeDecode zbp 14
    let (went, blk) ← parseIncluded { blk with incl := 1, zbp := zbp.val % 256, lblock := 3 }
    -- A failure returns before `length` is written.
    let blk := if went then
        { blk with length := (blk.passLengths0 + blk.passLengths1) % 2 ^ 32 }
      else blk
    pure (went, incl, zbp, blk)
  else
    pure (true, incl, zbp,
      { blk with length := (blk.passLengths0 + blk.passLengths1) % 2 ^ 32 })

/-! ### A whole packet -/

namespace Prec

def numBlocks (prec : Prec) : Nat := prec.ncbw * prec.ncbh % 2 ^ 32

/-- The order in which both loops of `parse_packet_header` visit the code-blocks. -/
def blockOrder (prec : Prec) : List (Nat × Nat) :=
  (List.range prec.numBands).flatMap fun b => (List.range prec.numBlocks).map fun i => (b, i)

def band (prec : Prec) (b : Nat) : Pband := prec.pband.getD b default

def block (prec : Prec) (cell : Nat × Nat) : Blk := (prec.band cell.1).blk.getD cell.2 default

def setBand (prec : Prec) (b : Nat) (pband : Pband) : Prec :=
  { prec with pband := prec.pband.set b pband }

def setBlock (prec : Prec) (cell : Nat × Nat) (blk : Blk) : Prec :=
  prec.setBand cell.1
    { prec.band cell.1 with blk := (prec.band cell.1).blk.set cell.2 blk }

/-- The code-block loop of `parse_packet_header`, stopped by the first failure. -/
def parseBlocks (cbs : Nat) : List (Nat × Nat) → Prec → BitProgram (Bool × Prec)
  | [], prec => pure (true, prec)
  | (b, i) :: rest, prec => do
    let pband := prec.band b
    let (went, incl, zbp, blk) ←
      parseBlock cbs (pband.incl.getD i default) (pband.zbp.getD i default)
        (pband.blk.getD i default)
    let prec := prec.setBand b
      { incl := pband.incl.set i incl, zbp := pband.zbp.set i zbp, blk := pband.blk.set i blk }
    if went then parseBlocks cbs rest prec else pure (false, prec)

/-- A code-block after its body was taken: `Scup` comes from the last two bytes of the
cleanup segment, indexed as `uint32_t`. -/
def withBody (blk : Blk) (data : Option (List UInt8)) : Blk :=
  match data with
  | none => { blk with data := none }
  | some bytes =>
    if blk.length = 0 then { blk with data := some bytes }
    else { blk with
      data := some bytes
      -- Without a cleanup segment both indices wrap and lie outside the body.
      scup := (bytes.getD (sub32 blk.passLengths0 1) 0).toNat * 16 +
        (bytes.getD (sub32 blk.passLengths0 2) 0 &&& 0x0F).toNat }

/-- The body loop of `parse_packet_header`. -/
def readBodies : List (Nat × Nat) → Prec → Codestream → Prec × Codestream
  | [], prec, s => (prec, s)
  | cell :: rest, prec, s =>
    let r := s.takeContiguous (prec.block cell).length
    readBodies rest (prec.setBlock cell (withBody (prec.block cell) r.1)) r.2

end Prec

/-- The bits of one packet: `none` for the empty packet, else the header's outcome. -/
def packetBits (cbs : Nat) (prec : Prec) : BitProgram (Option (Bool × Prec)) := do
  if ← getBit then
    let r ← Prec.parseBlocks cbs prec.blockOrder prec
    pure (some r)
  else pure none

/-- `read_packet`. The Boolean is `true` for `EXIT_SUCCESS`. -/
def readPacket (s : Codestream) (prec : Prec) (cbs : Nat) : Bool × Prec × Codestream :=
  let r := (packetBits cbs prec).run Codestream.bitSource s
  match r.1 with
  -- The empty packet leaves the precinct alone.
  | none => (true, prec, r.2.packetheaderFlushBits)
  -- After a failure the bits of the header are not flushed.
  | some (false, prec) => (false, prec, r.2)
  | some (true, prec) =>
    let bodies := Prec.readBodies prec.blockOrder prec r.2.packetheaderFlushBits
    (true, bodies.1, bodies.2)

end RtpDecoder.Parser
