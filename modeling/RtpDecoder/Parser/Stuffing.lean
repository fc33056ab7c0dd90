import RtpDecoder.Lib.BitStuffing
import RtpDecoder.Parser.FlatReader

/-!
# Reading stuffed bits from the chain

`get_bit` undoes the stuffing of a packet header as long as every byte it needs can be read
where the reader stands. `get_byte` never leaves an empty chunk, so a reader that comes upon
one inside a header reads beyond it.
-/

namespace RtpDecoder.Parser

open BitStuffing

variable {s : Codestream}

namespace Codestream

/-- The bytes from the reader on, whatever chunks they are in. -/
def ahead (s : Codestream) : List UInt8 := (chainBytes (s.chunks.drop s.curChunk)).drop s.curOffset

/-- No chunk is empty up to the one with the last of `n` bytes from the offset on. -/
def unbroken : List Chunk → Nat → Nat → Prop
  | [], _, n => n = 0
  | c :: rest, off, n => n = 0 ∨ off < c.bytes.length ∧ unbroken rest 0 (n - (c.bytes.length - off))

def Unbroken (s : Codestream) (n : Nat) : Prop := unbroken (s.chunks.drop s.curChunk) s.curOffset n

instance decidableUnbroken : ∀ (chunks : List Chunk) (off n : Nat), Decidable (unbroken chunks off n)
  | [], _, n => inferInstanceAs (Decidable (n = 0))
  | c :: rest, off, n =>
    have := decidableUnbroken rest 0 (n - (c.bytes.length - off))
    inferInstanceAs (Decidable (_ ∨ _))

instance (s : Codestream) (n : Nat) : Decidable (s.Unbroken n) :=
  decidableUnbroken (s.chunks.drop s.curChunk) s.curOffset n

/-! ### One byte -/

theorem unbroken_zero (chunks : List Chunk) (off : Nat) : unbroken chunks off 0 := by
  cases chunks with
  | nil => rfl
  | cons c rest => exact .inl rfl

private theorem unbroken_cons (c : Chunk) (rest : List Chunk) (off n : Nat) :
    unbroken (c :: rest) off (n + 1) ↔
      off < c.bytes.length ∧ unbroken rest 0 (n + 1 - (c.bytes.length - off)) := by
  simp [unbroken]

theorem not_unbroken_of_missing (missing : s.missing = true) (n : Nat) : ¬ s.Unbroken (n + 1) := by
  simp only [Codestream.missing] at missing
  simp only [Unbroken]
  split at missing
  next none_here =>
    rw [List.drop_eq_nil_of_le (List.getElem?_eq_none_iff.mp none_here)]
    simp [unbroken]
  next c here =>
    rw [drop_of_getElem? here, unbroken_cons]
    exact fun solid => absurd solid.1 (Nat.not_lt.mpr (of_decide_eq_true missing))

/-- What reading a byte does on a chunk that has it. -/
structure Advances (s : Codestream) : Prop where
  ahead : s.ahead = s.getByte.1 :: s.getByte.2.ahead
  pos : s.getByte.2.pos = s.pos + 1
  unbroken : ∀ n, s.Unbroken (n + 1) ↔ s.getByte.2.Unbroken n

theorem advances_of_here (here : s.missing = false) : s.Advances := by
  simp only [Codestream.missing] at here
  split at here
  · cases here
  next c chunk =>
    have inside : s.curOffset < c.bytes.length := Nat.lt_of_not_le (of_decide_eq_false here)
    have bytes : c.bytes.drop s.curOffset = c.bytes.getD s.curOffset 0 :: c.bytes.drop (s.curOffset + 1) := by
      rw [List.drop_eq_getElem_cons inside, List.getD_eq_getElem _ _ inside]
    have later := drop_of_getElem? chunk
    -- The reader leaves a chunk together with its last byte.
    by_cases last : s.curOffset + 1 = c.bytes.length
    · have next : s.getByte = (c.bytes.getD s.curOffset 0,
          { s with
            consumedBeforeCurChunk := s.consumedBeforeCurChunk + c.bytes.length
            curChunk := s.curChunk + 1
            curOffset := 0 }) := by
        simp only [getByte, chunk, if_pos last]
      refine ⟨?_, ?_, fun n => ?_⟩
      · simp only [next, Codestream.ahead, later, chainBytes_cons, List.drop_zero]
        rw [List.drop_append_of_le_length (Nat.le_of_lt inside), bytes, last, List.drop_length]
        rfl
      · simp only [next, Codestream.pos]
        omega
      · simp only [next, Unbroken, later, unbroken_cons, inside, true_and]
        rw [show n + 1 - (c.bytes.length - s.curOffset) = n by omega]
    · have next : s.getByte = (c.bytes.getD s.curOffset 0,
          { s with curOffset := s.curOffset + 1, short := s.short || s.missing }) := by
        simp only [getByte, chunk, if_neg last]
      refine ⟨?_, ?_, fun n => ?_⟩
      · simp only [next, Codestream.ahead, later, chainBytes_cons]
        rw [List.drop_append_of_le_length (Nat.le_of_lt inside), bytes,
          List.drop_append_of_le_length inside]
        rfl
      · simp only [next, Codestream.pos]
        omega
      · simp only [next, Unbroken, later, unbroken_cons, inside, true_and]
        cases n with
        | zero =>
          rw [show 0 + 1 - (c.bytes.length - s.curOffset) = 0 by omega]
          exact iff_of_true (unbroken_zero _ _) (unbroken_zero _ _)
        | succ n =>
          rw [unbroken_cons, show n + 1 - (c.bytes.length - (s.curOffset + 1)) =
            n + 1 + 1 - (c.bytes.length - s.curOffset) by omega]
          exact ⟨fun rest => ⟨by omega, rest⟩, fun both => both.2⟩

/-! ### One bit -/

/-- A reader in a stuffed header: the bits `l` are in what is left of its byte and in `bytes`,
which end at `stop` and in front of `after`; `last` is the last byte of the header. -/
structure Reading (stop : Nat) (last : UInt8) (after bytes : List UInt8) (l : List Bool)
    (s : Codestream) : Prop where
  pending : Pending s.tmp s.bits bytes l
  ahead : s.ahead = bytes ++ after
  stop : s.pos + bytes.length = stop
  last : (s.tmp :: bytes).getLast? = some last

section

variable {stop : Nat} {last : UInt8} {after bytes : List UInt8} {b : Bool} {l : List Bool} {s : Codestream}

private theorem Reading.getBit_within (reading : s.Reading stop last after bytes (b :: l))
    (left : s.bits ≠ 0) :
    s.getBit.1 = b ∧ s.getBit.2.Reading stop last after bytes l ∧ s.getBit.2.short = s.short ∧
      ∀ n, s.getBit.2.Unbroken n ↔ s.Unbroken n := by
  obtain ⟨value, rest⟩ := reading.pending.later left
  have next : s.getBit = (s.tmp.toNat.testBit (s.bits - 1), { s with bits := s.bits - 1 }) := by
    simp only [Codestream.getBit, if_neg left]
  rw [next]
  exact ⟨value, ⟨rest, reading.ahead, reading.stop, reading.last⟩, rfl, fun n => Iff.rfl⟩

private theorem Reading.getBit_between (reading : s.Reading stop last after bytes (b :: l))
    (empty : s.bits = 0) (here : s.missing = false) :
    ∃ rest, s.getBit.1 = b ∧ s.getBit.2.Reading stop last after rest l ∧ s.getBit.2.short = s.short ∧
      (s.getBit.2.Unbroken rest.length ↔ s.Unbroken bytes.length) := by
  have pending := reading.pending
  rw [empty] at pending
  obtain ⟨byte, rest, rfl, value, later⟩ := pending.first
  have advances := advances_of_here here
  have loaded : s.getByte.1 :: s.getByte.2.ahead = byte :: (rest ++ after) :=
    advances.ahead.symm.trans reading.ahead
  obtain ⟨same, behind⟩ := List.cons.inj loaded
  have next : s.getBit = (byte.toNat.testBit (capacity s.tmp - 1),
      { s.getByte.2 with bits := capacity s.tmp - 1, last := s.tmp, tmp := byte }) := by
    simp only [Codestream.getBit, if_pos empty, loadByte, same, capacity]
  refine ⟨rest, ?_, ⟨?_, ?_, ?_, ?_⟩, ?_, ?_⟩
  · rw [next]
    exact value
  · rw [next]
    exact later
  · rw [next]
    exact behind
  · have moved := advances.pos
    have stop := reading.stop
    rw [List.length_cons] at stop
    rw [next]
    change s.getByte.2.pos + rest.length = _
    omega
  · rw [next]
    have last := reading.last
    rwa [List.getLast?_cons_cons] at last
  · rw [next]
    change s.getByte.2.short = _
    rw [short_getByte, here, Bool.or_false]
  · rw [next]
    exact (advances.unbroken rest.length).symm

theorem Reading.getBit (reading : s.Reading stop last after bytes (b :: l))
    (here : s.bits = 0 → s.missing = false) :
    ∃ rest, s.getBit.1 = b ∧ s.getBit.2.Reading stop last after rest l ∧ s.getBit.2.short = s.short ∧
      (s.getBit.2.Unbroken rest.length ↔ s.Unbroken bytes.length) := by
  by_cases empty : s.bits = 0
  · exact reading.getBit_between empty (here empty)
  · obtain ⟨value, next, short, unbroken⟩ := reading.getBit_within empty
    exact ⟨bytes, value, next, short, unbroken bytes.length⟩

theorem Reading.here (reading : s.Reading stop last after bytes (b :: l))
    (unbroken : s.Unbroken bytes.length) (empty : s.bits = 0) : s.missing = false := by
  have pending := reading.pending
  rw [empty] at pending
  obtain ⟨byte, rest, rfl, _, _⟩ := pending.first
  by_contra missing
  exact not_unbroken_of_missing (Bool.eq_true_of_not_eq_false missing) rest.length unbroken

/-- The bits come out as they were written, and nothing is missing, if the chunks go on. -/
theorem Reading.takeBits_unbroken (reading : s.Reading stop last after bytes l)
    (unbroken : s.Unbroken bytes.length) :
    ((BitProgram.takeBits l.length).run bitSource s).1 = l ∧
      ((BitProgram.takeBits l.length).run bitSource s).2.short = s.short ∧
      ∃ rest, ((BitProgram.takeBits l.length).run bitSource s).2.Reading stop last after rest [] := by
  induction l generalizing s bytes with
  | nil => exact ⟨rfl, rfl, bytes, reading⟩
  | cons b l ih =>
    obtain ⟨rest, value, next, short, same⟩ := reading.getBit (reading.here unbroken)
    obtain ⟨values, shorts, finished⟩ := ih next (same.mpr unbroken)
    simp only [List.length_cons, BitProgram.takeBits, BitProgram.run_bind]
    refine ⟨?_, shorts.trans short, finished⟩
    exact congrArg₂ List.cons value values

/-- If nothing was missing, the chunks went on. -/
theorem Reading.unbroken_of_takeBits (reading : s.Reading stop last after bytes l)
    (unshort : ((BitProgram.takeBits l.length).run bitSource s).2.short = false) :
    s.Unbroken bytes.length := by
  induction l generalizing s bytes with
  | nil =>
    rw [reading.pending.finish.1]
    exact unbroken_zero _ _
  | cons b l ih =>
    simp only [List.length_cons, BitProgram.takeBits, BitProgram.run_bind] at unshort
    -- Once the flag is set it stays set, so the first bit was there.
    have first : s.getBit.2.short = false :=
      BitProgram.run_reach bitSource (R := fun s t => t.short = false → s.short = false)
        (fun _ h => h) (fun _ _ _ f g h => f (g h)) (fun _ => unshort_of_getBit) _ _ unshort
    have here (empty : s.bits = 0) : s.missing = false := by
      rw [short_getBit, empty] at first
      exact (Bool.or_eq_false_iff.mp first).2
    obtain ⟨rest, _, next, _, same⟩ := reading.getBit here
    exact same.mp (ih next unshort)

/-- The flush skips the zero byte behind a last byte `0xFF`, and nothing else. -/
theorem Reading.flush (reading : s.Reading stop last after bytes []) :
    s.packetheaderFlushBits.pos = stop + (if last = 0xFF then 1 else 0) ∧
      s.packetheaderFlushBits.bits = 0 ∧ s.packetheaderFlushBits.tmp = 0 := by
  have place := reading.stop
  have same := reading.last
  rw [reading.pending.finish.1] at place same
  have same : s.tmp = last := Option.some.inj same
  refine ⟨?_, rfl, rfl⟩
  by_cases full : s.tmp = 0xFF
  · have moved : s.packetheaderFlushBits.pos = (s.advance 1).pos := by
      simp only [packetheaderFlushBits, if_pos full]
      rfl
    rw [moved, pos_advance, if_pos (same ▸ full)]
    exact congrArg (· + 1) place
  · have stays : s.packetheaderFlushBits.pos = s.pos := by
      simp only [packetheaderFlushBits, if_neg full]
      rfl
    rw [stays, if_neg (same ▸ full)]
    exact place

end

theorem reading_start (aligned : s.bits = 0 ∧ s.tmp = 0) {l : List Bool} {rest : List UInt8}
    (written : s.ahead = stuff l ++ rest) :
    s.Reading (s.pos + (packed l).length) (lastByte l) ((if lastByte l = 0xFF then [0] else []) ++ rest)
      (packed l) l := by
  refine ⟨?_, ?_, rfl, ?_⟩
  · rw [aligned.1, aligned.2]
    exact pending_packed l
  · rw [written, stuff_eq, List.append_assoc]
  · rw [aligned.2]
    exact List.getLast?_cons

/-! ### Whole decoders -/

theorem OnChain.ahead_eq (on : s.OnChain) : s.ahead = (chainBytes s.chunks).drop s.pos := by
  have before : (chainBytes (s.chunks.take s.curChunk)).length = s.consumedBeforeCurChunk := by
    rw [length_chainBytes, on.counted.2]
  conv_rhs => rw [← List.take_append_drop s.curChunk s.chunks]
  rw [chainBytes_append, pos, ← before, List.drop_length_add_append]
  rfl

private theorem OnChain.here (on : s.OnChain) {byte : UInt8} {rest : List UInt8}
    (ahead : s.ahead = byte :: rest) : s.pos < (chainBytes s.chunks).length ∧ s.missing = false := by
  rw [on.ahead_eq] at ahead
  have inside : s.pos < (chainBytes s.chunks).length := by
    by_contra beyond
    rw [List.drop_eq_nil_of_le (Nat.le_of_not_lt beyond)] at ahead
    cases ahead
  obtain ⟨c, chunk⟩ := on.chunk_of_lt inside
  exact ⟨inside, by simp [missing, chunk, on.on c chunk]⟩

private theorem OnChain.readingBit (on : s.OnChain) {stop : Nat} {last : UInt8}
    {after bytes : List UInt8} {b : Bool} {l : List Bool}
    (reading : s.Reading stop last after bytes (b :: l)) :
    s.getBit.1 = b ∧ (∃ rest, s.getBit.2.Reading stop last after rest l) ∧ s.getBit.2.OnChain := by
  have loads (empty : s.bits = 0) : s.pos < (chainBytes s.chunks).length ∧ s.missing = false := by
    have pending := reading.pending
    rw [empty] at pending
    obtain ⟨byte, rest, rfl, _, _⟩ := pending.first
    exact on.here reading.ahead
  have inside : s.flat.getBit.2.Inside := by
    have bits : s.flat.bits = s.bits := rfl
    simp only [FlatReader.getBit, bits]
    split
    next empty => exact (loads empty).1
    · exact on.inside
  obtain ⟨rest, value, next, _⟩ := reading.getBit fun empty => (loads empty).2
  exact ⟨value, ⟨rest, next⟩, (on.getBit inside).on⟩

private theorem pos_flat_flush (s : Codestream) : s.flat.packetheaderFlushBits.pos = s.packetheaderFlushBits.pos := by
  have tmp : s.flat.tmp = s.tmp := rfl
  simp only [FlatReader.packetheaderFlushBits, Codestream.packetheaderFlushBits, tmp]
  split
  · exact (pos_advance s 1).symm
  · rfl

/-- A decoder gets the bits of a stuffed header, and the flush leaves the reader behind it. -/
theorem OnChain.run_stuffed (on : s.OnChain) {α : Type} {p : BitProgram α}
    {l : List Bool} {a : α} (reads : p.Reads l a) (aligned : s.bits = 0 ∧ s.tmp = 0) {rest : List UInt8}
    (written : (chainBytes s.chunks).drop s.pos = stuff l ++ rest) :
    (p.run bitSource s).1 = a ∧ (p.run bitSource s).2.packetheaderFlushBits.OnChain ∧
      (p.run bitSource s).2.packetheaderFlushBits.pos = s.pos + (stuff l).length := by
  have first := reading_start aligned (on.ahead_eq.trans written)
  have start : (∃ bytes, s.Reading (s.pos + (packed l).length) (lastByte l)
      ((if lastByte l = 0xFF then [0] else []) ++ rest) bytes (l ++ [])) ∧ s.OnChain := by
    rw [List.append_nil]
    exact ⟨⟨packed l, first⟩, on⟩
  -- The decoder takes one bit after the other, and each one keeps the reader inside the header.
  obtain ⟨value, ⟨bytes, reading⟩, ended⟩ := BitProgram.run_of_reads bitSource
    (fun t m => (∃ bytes, t.Reading (s.pos + (packed l).length) (lastByte l)
      ((if lastByte l = 0xFF then [0] else []) ++ rest) bytes m) ∧ t.OnChain)
    (fun t b m both => by
      obtain ⟨⟨bytes, reading⟩, on⟩ := both
      exact on.readingBit reading)
    reads start
  have position : (p.run bitSource s).2.packetheaderFlushBits.pos = s.pos + (stuff l).length := by
    rw [reading.flush.1, length_stuff, Nat.add_assoc]
  refine ⟨value, (ended.packetheaderFlushBits ?_).2, position⟩
  -- The flush may skip a byte, which is there as it was written.
  have room : s.pos + (stuff l).length ≤ (chainBytes s.chunks).length := by
    have whole := congrArg List.length written
    have inside := on.inside
    rw [List.length_drop, List.length_append] at whole
    omega
  rw [FlatReader.Inside, pos_flat_flush, position]
  have bytes : (p.run bitSource s).2.flat.packetheaderFlushBits.bytes = chainBytes s.chunks := by
    rw [← (run_forward p s).chunks, FlatReader.packetheaderFlushBits]
    split <;> rfl
  rw [bytes]
  exact room

/-! ### Any mixture of reads -/

/-- A call of `get_bit`, or of `packetheader_get_bits` for some bits. -/
inductive BitRead where
  | bit
  | bits (n : Nat)
deriving DecidableEq, Repr

namespace BitRead

def width : BitRead → Nat
  | bit => 1
  | bits n => n

/-- The bits that a call returns, with the reader afterwards. -/
def run (s : Codestream) : BitRead → List Bool × Codestream
  | bit => ([s.getBit.1], s.getBit.2)
  | bits n =>
    let r := s.packetheaderGetBits n
    (BitProgram.digits n r.1.toNat, r.2)

def runAll (s : Codestream) : List BitRead → List Bool × Codestream
  | [] => ([], s)
  | read :: reads =>
    let r := read.run s
    let rest := runAll r.2 reads
    (r.1 ++ rest.1, rest.2)

/-- A call returns the bits one by one, if they fit into its result. -/
theorem run_eq (s : Codestream) (read : BitRead) (small : read.width ≤ 31) :
    read.run s = (BitProgram.takeBits read.width).run bitSource s := by
  cases read with
  | bit => rfl
  | bits n =>
    have length := BitProgram.length_takeBits bitSource n s
    have fits : BitProgram.number ((BitProgram.takeBits n).run bitSource s).1 < 2 ^ 32 := by
      have bound := BitProgram.number_lt ((BitProgram.takeBits n).run bitSource s).1
      rw [length] at bound
      exact Nat.lt_of_lt_of_le bound (Nat.pow_le_pow_right (by decide) (Nat.le_succ_of_le small))
    simp only [run, packetheaderGetBits, Int.toNat_natCast, BitProgram.run_getBits, BitVec.toNat_ofNat,
      Nat.mod_eq_of_lt fits, width]
    exact Prod.ext (BitProgram.digits_number length) rfl

theorem runAll_eq (s : Codestream) (reads : List BitRead) (small : ∀ read ∈ reads, read.width ≤ 31) :
    runAll s reads = (BitProgram.takeBits (reads.map width).sum).run bitSource s := by
  induction reads generalizing s with
  | nil => rfl
  | cons read reads ih =>
    have first := run_eq s read (small read List.mem_cons_self)
    have rest := ih (read.run s).2 fun other member => small other (List.mem_cons_of_mem _ member)
    rw [first] at rest
    simp only [runAll, first, rest, List.map_cons, List.sum_cons, BitProgram.run_takeBits_add]

end BitRead

/-- Reading stuffed bits by these calls gives them back without an access beyond a chunk, and the
flush leaves the reader behind the last byte of the header. -/
structure RoundTrips (s : Codestream) (l : List Bool) (reads : List BitRead) : Prop where
  bits : (BitRead.runAll s reads).1 = l
  present : (BitRead.runAll s reads).2.short = false
  position : (BitRead.runAll s reads).2.packetheaderFlushBits.getPos =
    BitVec.ofNat 32 (s.pos + (stuff l).length)
  aligned : (BitRead.runAll s reads).2.packetheaderFlushBits.bits = 0 ∧
    (BitRead.runAll s reads).2.packetheaderFlushBits.tmp = 0

/-- A stuffed header is read back exactly if no chunk on the way to its last byte is empty. -/
theorem round_trips_iff {s : Codestream} {l : List Bool} {rest : List UInt8} {reads : List BitRead}
    (aligned : s.bits = 0 ∧ s.tmp = 0) (fresh : s.short = false) (written : s.ahead = stuff l ++ rest)
    (small : ∀ read ∈ reads, read.width ≤ 31) (all : (reads.map BitRead.width).sum = l.length) :
    s.RoundTrips l reads ↔ s.Unbroken (packed l).length := by
  have reading := reading_start aligned written
  have run := BitRead.runAll_eq s reads small
  rw [all] at run
  constructor
  · intro trip
    apply reading.unbroken_of_takeBits
    rw [← run]
    exact trip.present
  · intro unbroken
    obtain ⟨bits, short, bytes, finished⟩ := reading.takeBits_unbroken unbroken
    rw [← run] at bits short finished
    obtain ⟨position, flushed⟩ := finished.flush
    refine ⟨bits, short.trans fresh, ?_, flushed⟩
    rw [getPos, position, length_stuff, Nat.add_assoc]

/-- A chain with an empty chunk behind its first byte. -/
def interrupted (first second : List UInt8) : Codestream where
  chunks := [{ bytes := first }, { bytes := [] }, { bytes := second }]

/-- Eight ones end in `0xFF`. The stuffed byte is not read but skipped, over the empty chunk. -/
theorem round_trips_eight :
    (interrupted [0xFF] [0, 5]).ahead = stuff (List.replicate 8 true) ++ [5] ∧
      (interrupted [0xFF] [0, 5]).RoundTrips (List.replicate 8 true) [.bit, .bits 7] :=
  ⟨by decide +kernel, (round_trips_iff (by decide) rfl
    (show (interrupted [0xFF] [0, 5]).ahead = stuff (List.replicate 8 true) ++ [5] by decide +kernel)
    (by decide) (by decide)).mpr (by decide +kernel)⟩

/-- The ninth bit is in a byte behind the empty chunk, which `get_byte` does not leave. -/
theorem round_trip_fails_nine :
    (interrupted [0xFF] [0x40]).ahead = stuff (List.replicate 9 true) ++ [] ∧
      (BitRead.runAll (interrupted [0xFF] [0x40]) [.bits 9]).2.short = true ∧
      ¬ (interrupted [0xFF] [0x40]).RoundTrips (List.replicate 9 true) [.bits 9] := by
  have short : (BitRead.runAll (interrupted [0xFF] [0x40]) [.bits 9]).2.short = true := by decide +kernel
  refine ⟨by decide +kernel, short, fun trip => ?_⟩
  have present := trip.present
  rw [short] at present
  cases present

end Codestream

end RtpDecoder.Parser
