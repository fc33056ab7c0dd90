import RtpDecoder.Lib.BitProgram
import Mathlib.Algebra.BigOperators.Group.List.Basic
import Mathlib.Algebra.GroupWithZero.Nat

/-!
# The chain reader

`codestream` reads bytes and packet-header bits through an ordered list of chunks
that grows while it is read. A byte read beyond a chunk is undefined in the source
and gives 0 here; the ghost field `short` remembers that some byte asked for was not
in the chain.
-/

namespace RtpDecoder.Parser

/-- A byte range appended by `append_chunk`; `slab` says which slab it points into. -/
structure Chunk where
  slab : Nat := 0
  bytes : List UInt8
deriving DecidableEq, Repr

structure Codestream where
  chunks : List Chunk := []
  curChunk : Nat := 0
  curOffset : Nat := 0
  consumedBeforeCurChunk : Nat := 0
  tmp : UInt8 := 0
  last : UInt8 := 0
  bits : Nat := 0
  /-- Ghost: an access needed a byte that the chain does not have. -/
  short : Bool := false
deriving DecidableEq, Repr

/-- The number of bytes in a list of chunks. -/
def chainLength (chunks : List Chunk) : Nat := (chunks.map fun c => c.bytes.length).sum

/-- The loop shared by `advance` and `reset`: leave chunks behind while the offset is
beyond them. The results are `cur_chunk_`, `cur_offset_`, `consumed_before_cur_chunk_`. -/
def hop : List Chunk → Nat → Nat → Nat → Nat × Nat × Nat
  | [], cur, off, consumed => (cur, off, consumed)
  | c :: rest, cur, off, consumed =>
    if c.bytes.length ≤ off then
      hop rest (cur + 1) (off - c.bytes.length) (consumed + c.bytes.length)
    else (cur, off, consumed)

namespace Codestream

def appendChunk (s : Codestream) (c : Chunk) : Codestream := { s with chunks := s.chunks ++ [c] }

def clear (_ : Codestream) : Codestream := {}

/-- Bytes between the reader and the end of the chain. -/
def remaining (s : Codestream) : Nat := chainLength (s.chunks.drop s.curChunk) - s.curOffset

/-- The absolute position, before `get_pos` narrows it. -/
def pos (s : Codestream) : Nat := s.consumedBeforeCurChunk + s.curOffset

def getPos (s : Codestream) : BitVec 32 := BitVec.ofNat 32 s.pos

def advance (s : Codestream) (n : Nat) : Codestream :=
  let r := hop (s.chunks.drop s.curChunk) s.curChunk (s.curOffset + n) s.consumedBeforeCurChunk
  { s with curChunk := r.1, curOffset := r.2.1, consumedBeforeCurChunk := r.2.2 }

def reset (s : Codestream) (p : BitVec 32) : Codestream :=
  let r := hop s.chunks 0 p.toNat 0
  { s with
    curChunk := r.1, curOffset := r.2.1, consumedBeforeCurChunk := r.2.2
    tmp := 0, last := 0, bits := 0 }

/-- The reader does not stand on a byte of the chain. -/
def missing (s : Codestream) : Bool :=
  match s.chunks[s.curChunk]? with
  | none => true
  | some c => decide (c.bytes.length ≤ s.curOffset)

def getByte (s : Codestream) : UInt8 × Codestream :=
  match s.chunks[s.curChunk]? with
  | none => (0, { s with short := true })
  | some c =>
    (c.bytes.getD s.curOffset 0,
      -- Only the last byte of a chunk moves the reader on, so an empty chunk is never left.
      if s.curOffset + 1 = c.bytes.length then
        { s with
          consumedBeforeCurChunk := s.consumedBeforeCurChunk + c.bytes.length
          curChunk := s.curChunk + 1
          curOffset := 0 }
      else { s with curOffset := s.curOffset + 1, short := s.short || s.missing })

def getWord (s : Codestream) : BitVec 16 × Codestream :=
  let (hi, s) := s.getByte
  let (lo, s) := s.getByte
  (hi.toBitVec ++ lo.toBitVec, s)

def getDword (s : Codestream) : BitVec 32 × Codestream :=
  let (hi, s) := s.getWord
  let (lo, s) := s.getWord
  (hi ++ lo, s)

/-- The refill in `get_bit`: a byte after `0xFF` carries only seven bits. -/
def loadByte (s : Codestream) : Codestream :=
  { s.getByte.2 with
    bits := if s.tmp = 0xFF then 7 else 8
    last := s.tmp
    tmp := s.getByte.1 }

def getBit (s : Codestream) : Bool × Codestream :=
  let s := if s.bits = 0 then s.loadByte else s
  (s.tmp.toNat.testBit (s.bits - 1), { s with bits := s.bits - 1 })

/-- A header that ends in `0xFF` is followed by a stuffed byte, which is skipped. -/
def packetheaderFlushBits (s : Codestream) : Codestream :=
  let s := if s.tmp = 0xFF then
      { s.advance 1 with short := s.short || s.missing }
    else s
  { s with tmp := 0, bits := 0 }

/-- The spanning path of `take_contiguous`: `left` bytes are still to be copied. -/
def copyLoop : Nat → Codestream → Nat → List UInt8 → List UInt8 × Codestream
  | 0, s, _, copied => (copied, s)
  | fuel + 1, s, left, copied =>
    if left = 0 then (copied, s)
    else match s.chunks[s.curChunk]? with
      | none => (copied, s)
      | some c =>
        -- `size_t` subtraction; the second case is undefined behaviour already.
        let avail := if s.curOffset ≤ c.bytes.length then c.bytes.length - s.curOffset
          else 2 ^ 64 + c.bytes.length - s.curOffset
        let toCopy := min left avail
        copyLoop fuel (s.advance toCopy) (left - toCopy)
          (copied ++ (c.bytes.drop s.curOffset).take toCopy)

/-- A null pointer is `none`; otherwise the `len` bytes behind the pointer. The staging
buffer starts out zeroed, so bytes that could not be copied are 0. -/
def takeContiguous (s : Codestream) (len : Nat) : Option (List UInt8) × Codestream :=
  match s.chunks[s.curChunk]? with
  | none => (none, { s with short := s.short || decide (0 < len) })
  | some c =>
    if len = 0 then (some [], s)
    else if s.curOffset + len ≤ c.bytes.length then
      -- The bytes lie in one chunk and are not copied.
      (some ((c.bytes.drop s.curOffset).take len), s.advance len)
    else
      -- The chain may end before `len` bytes are copied.
      let r := copyLoop (s.chunks.length - s.curChunk) s len []
      (some (r.1 ++ List.replicate (len - r.1.length) 0),
        { r.2 with short := r.2.short || decide (r.1.length < len) })

/-! ### Frames: what an operation leaves alone -/

@[simp] theorem advance_chunks (s : Codestream) (n : Nat) : (s.advance n).chunks = s.chunks := rfl

@[simp] theorem reset_chunks (s : Codestream) (p : BitVec 32) : (s.reset p).chunks = s.chunks := rfl

@[simp] theorem getByte_chunks (s : Codestream) : s.getByte.2.chunks = s.chunks := by
  unfold getByte
  split
  · rfl
  · dsimp only
    split <;> rfl

@[simp] theorem loadByte_chunks (s : Codestream) : s.loadByte.chunks = s.chunks :=
  getByte_chunks s

@[simp] theorem getBit_chunks (s : Codestream) : s.getBit.2.chunks = s.chunks := by
  unfold getBit
  dsimp only
  split
  · exact loadByte_chunks s
  · rfl

@[simp] theorem packetheaderFlushBits_chunks (s : Codestream) : s.packetheaderFlushBits.chunks = s.chunks := by
  unfold packetheaderFlushBits
  dsimp only
  split <;> rfl

@[simp] theorem copyLoop_chunks (fuel : Nat) (s : Codestream) (left : Nat) (copied : List UInt8) :
    (copyLoop fuel s left copied).2.chunks = s.chunks := by
  induction fuel generalizing s left copied with
  | zero => rfl
  | succ fuel ih =>
    simp only [copyLoop]
    split
    · rfl
    · split
      · rfl
      · rw [ih]
        rfl

@[simp] theorem takeContiguous_chunks (s : Codestream) (len : Nat) : (s.takeContiguous len).2.chunks = s.chunks := by
  unfold takeContiguous
  dsimp only
  split
  · rfl
  · split
    · rfl
    · split
      · rfl
      · simp

/-! ### Bits -/

theorem drop_of_getElem? {chunks : List Chunk} {i : Nat} {c : Chunk}
    (here : chunks[i]? = some c) : chunks.drop i = c :: chunks.drop (i + 1) := by
  obtain ⟨bound, rfl⟩ := List.getElem?_eq_some_iff.mp here
  exact List.drop_eq_getElem_cons bound

theorem remaining_getByte_lt (s : Codestream) (byte : s.getByte.1 ≠ 0) : s.getByte.2.remaining < s.remaining := by
  unfold getByte at byte ⊢
  split at byte
  · exact absurd rfl byte
  next c here =>
    -- A byte that is not 0 was really there.
    have inside : s.curOffset < c.bytes.length := by
      by_contra beyond
      exact byte (by simp [List.getD, Nat.le_of_not_lt beyond])
    split
    next full =>
      simp only [remaining, drop_of_getElem? here, chainLength, List.map_cons, List.sum_cons]
      omega
    · simp only [remaining, drop_of_getElem? here, chainLength, List.map_cons, List.sum_cons]
      omega

/-- A reader is a source of bits: each one bit takes from the bytes that are left. -/
def bitSource : BitSource Codestream where
  bit := getBit
  fuel s := 8 * s.remaining + s.bits
  fuel_lt := by
    intro s one
    unfold getBit at one ⊢
    dsimp only at one ⊢
    split at one
    next empty =>
      -- A one bit in a fresh byte makes the byte nonzero, so it came from the chain.
      have nonzero : s.getByte.1 ≠ 0 := by
        intro zero
        simp [loadByte, zero] at one
      have less := remaining_getByte_lt s nonzero
      have same : s.loadByte.remaining = s.getByte.2.remaining := rfl
      have few : s.loadByte.bits ≤ 8 := by
        simp only [loadByte]
        split <;> omega
      simp only [empty]
      change 8 * s.loadByte.remaining + (s.loadByte.bits - 1) < _
      omega
    next some =>
      simp only [if_neg some]
      change 8 * s.remaining + (s.bits - 1) < _
      omega

/-- The loop of `packetheader_get_bits` is the decoder `getBits`; its result is an `int`. -/
def packetheaderGetBits (s : Codestream) (n : Int) : BitVec 32 × Codestream :=
  let r := (BitProgram.getBits n.toNat).run bitSource s
  (BitVec.ofNat 32 r.1, r.2)

def moveForward (s : Codestream) (n : BitVec 32) : Codestream := s.advance n.toNat

end Codestream

/-- A chain of one chunk. -/
def streamOf (bytes : List UInt8) : Codestream where
  chunks := [{ bytes := bytes }]

end RtpDecoder.Parser
