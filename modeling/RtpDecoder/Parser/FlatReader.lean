import RtpDecoder.Lib.Machine
import RtpDecoder.Parser.Remaining

/-!
# The chain reader as a reader of one buffer

What `codestream` is for: the same operations on the bytes of all chunks in one buffer.
As long as no operation goes beyond the bytes appended so far, the chain reader gives the
values that the flat reader gives, however the bytes are cut into chunks and whenever these
are appended.
-/

namespace RtpDecoder.Parser

variable {s : Codestream}

/-! ### The flat reader -/

structure FlatReader where
  bytes : List UInt8 := []
  pos : Nat := 0
  tmp : UInt8 := 0
  last : UInt8 := 0
  bits : Nat := 0
deriving DecidableEq, Repr

namespace FlatReader

def getByte (f : FlatReader) : UInt8 × FlatReader :=
  (f.bytes.getD f.pos 0, { f with pos := f.pos + 1 })

def getWord (f : FlatReader) : BitVec 16 × FlatReader :=
  (f.getByte.1.toBitVec ++ f.getByte.2.getByte.1.toBitVec, f.getByte.2.getByte.2)

def getDword (f : FlatReader) : BitVec 32 × FlatReader :=
  (f.getWord.1 ++ f.getWord.2.getWord.1, f.getWord.2.getWord.2)

/-- The next byte of a packet header; one after `0xFF` carries only seven bits. -/
def loadByte (f : FlatReader) : FlatReader :=
  { f.getByte.2 with bits := if f.tmp = 0xFF then 7 else 8, last := f.tmp, tmp := f.getByte.1 }

def getBit (f : FlatReader) : Bool × FlatReader :=
  let f := if f.bits = 0 then f.loadByte else f
  (f.tmp.toNat.testBit (f.bits - 1), { f with bits := f.bits - 1 })

def bitSource : BitSource FlatReader where
  bit := getBit
  fuel f := 8 * (f.bytes.length - f.pos) + f.bits
  fuel_lt := by
    intro f one
    simp only [getBit] at one ⊢
    split at one
    next empty =>
      -- Beyond the buffer there are only zeros.
      have inside : f.pos < f.bytes.length := by
        by_contra beyond
        simp [loadByte, getByte, List.getD, Nat.le_of_not_lt beyond] at one
      have few : f.loadByte.bits ≤ 8 := by
        simp only [loadByte]
        split <;> omega
      have bytes : f.loadByte.bytes = f.bytes := rfl
      have pos : f.loadByte.pos = f.pos + 1 := rfl
      simp only [empty, if_true, bytes, pos]
      omega
    next some =>
      simp only [if_neg some]
      omega

def packetheaderGetBits (f : FlatReader) (n : Int) : BitVec 32 × FlatReader :=
  let r := (BitProgram.getBits n.toNat).run bitSource f
  (BitVec.ofNat 32 r.1, r.2)

def moveForward (f : FlatReader) (n : Nat) : FlatReader := { f with pos := f.pos + n }

def packetheaderFlushBits (f : FlatReader) : FlatReader :=
  { (if f.tmp = 0xFF then f.moveForward 1 else f) with tmp := 0, bits := 0 }

def takeContiguous (f : FlatReader) (len : Nat) : List UInt8 × FlatReader :=
  ((f.bytes.drop f.pos).take len, f.moveForward len)

def reset (f : FlatReader) (p : BitVec 32) : FlatReader :=
  { f with pos := p.toNat, tmp := 0, last := 0, bits := 0 }

def getPos (f : FlatReader) : BitVec 32 := BitVec.ofNat 32 f.pos

def appendChunk (f : FlatReader) (c : Chunk) : FlatReader := { f with bytes := f.bytes ++ c.bytes }

/-- The reader does not stand beyond the bytes appended so far. -/
def Inside (f : FlatReader) : Prop := f.pos ≤ f.bytes.length

end FlatReader

/-! ### The place of the chain reader -/

/-- All bytes of the chunks, one after the other. -/
def chainBytes (chunks : List Chunk) : List UInt8 := chunks.flatMap Chunk.bytes

@[simp] theorem chainBytes_cons (c : Chunk) (rest : List Chunk) :
    chainBytes (c :: rest) = c.bytes ++ chainBytes rest := rfl

@[simp] theorem chainBytes_append (xs ys : List Chunk) :
    chainBytes (xs ++ ys) = chainBytes xs ++ chainBytes ys := List.flatMap_append

theorem length_chainBytes (chunks : List Chunk) : (chainBytes chunks).length = chainLength chunks := by
  simp [chainBytes, chainLength, List.length_flatMap]

namespace Codestream

/-- The flat reader that the chain reader stands for. -/
def flat (s : Codestream) : FlatReader where
  bytes := chainBytes s.chunks
  pos := s.pos
  tmp := s.tmp
  last := s.last
  bits := s.bits

/-- The reader stands on a byte of the chain or right behind its end. -/
structure OnChain (s : Codestream) : Prop where
  nonempty : ∀ c ∈ s.chunks, c.bytes ≠ []
  counted : s.Counted
  on : ∀ c, s.chunks[s.curChunk]? = some c → s.curOffset < c.bytes.length
  ended : s.curChunk = s.chunks.length → s.curOffset = 0

theorem OnChain.of_place {t : Codestream} (on : s.OnChain) (chunks : t.chunks = s.chunks)
    (curChunk : t.curChunk = s.curChunk) (curOffset : t.curOffset = s.curOffset)
    (consumed : t.consumedBeforeCurChunk = s.consumedBeforeCurChunk) : t.OnChain where
  nonempty := by rw [chunks]; exact on.nonempty
  counted := by
    simp only [Counted, chunks, curChunk, consumed]
    exact on.counted
  on := by rw [chunks, curChunk, curOffset]; exact on.on
  ended := by rw [chunks, curChunk, curOffset]; exact on.ended

/-- The flat buffer at the reader's place: what is left of its chunk, then the later chunks. -/
theorem OnChain.drop_bytes (on : s.OnChain) {c : Chunk}
    (here : s.chunks[s.curChunk]? = some c) :
    (chainBytes s.chunks).drop s.pos =
      c.bytes.drop s.curOffset ++ chainBytes (s.chunks.drop (s.curChunk + 1)) := by
  have before : (chainBytes (s.chunks.take s.curChunk)).length = s.consumedBeforeCurChunk := by
    rw [length_chainBytes, on.counted.2]
  have inside := on.on c here
  conv_lhs => rw [← List.take_append_drop s.curChunk s.chunks, drop_of_getElem? here]
  rw [chainBytes_append, chainBytes_cons, pos, ← before, List.drop_length_add_append,
    List.drop_append_of_le_length (Nat.le_of_lt inside)]

theorem OnChain.chunk_of_lt (on : s.OnChain)
    (left : s.pos < (chainBytes s.chunks).length) : ∃ c, s.chunks[s.curChunk]? = some c := by
  cases here : s.chunks[s.curChunk]? with
  | some c => exact ⟨c, rfl⟩
  | none =>
    have beyond := List.getElem?_eq_none_iff.mp here
    have last : s.curChunk = s.chunks.length := Nat.le_antisymm on.counted.1 beyond
    have consumed := on.counted.2
    rw [last, List.take_length, ← length_chainBytes] at consumed
    rw [pos, on.ended last, consumed] at left
    omega

theorem OnChain.inside (on : s.OnChain) : s.pos ≤ (chainBytes s.chunks).length := by
  cases here : s.chunks[s.curChunk]? with
  | none =>
    have last : s.curChunk = s.chunks.length :=
      Nat.le_antisymm on.counted.1 (List.getElem?_eq_none_iff.mp here)
    have consumed := on.counted.2
    rw [last, List.take_length, ← length_chainBytes] at consumed
    rw [pos, on.ended last, consumed]
    exact Nat.le_refl _
  | some c =>
    have left := congrArg List.length (on.drop_bytes here)
    have offset := on.on c here
    simp only [List.length_drop, List.length_append] at left
    omega

/-! ### Each operation -/

/-- A result of the chain reader is that of the flat reader. -/
structure SameResult {α : Type} (r : α × Codestream) (q : α × FlatReader) : Prop where
  value : r.1 = q.1
  flat : r.2.flat = q.2
  on : r.2.OnChain

theorem flat_advance (s : Codestream) (n : Nat) : (s.advance n).flat = s.flat.moveForward n := by
  simp only [flat, FlatReader.moveForward, pos_advance]
  rfl

theorem OnChain.advance (on : s.OnChain) {n : Nat}
    (inside : (s.flat.moveForward n).Inside) : (s.advance n).OnChain where
  nonempty := on.nonempty
  counted := (advance_forward s n).counted on.counted
  on := advance_on s n
  ended := by
    intro last
    have consumed := ((advance_forward s n).counted on.counted).2
    rw [last, advance_chunks, List.take_length, ← length_chainBytes] at consumed
    rw [← flat_advance] at inside
    have bound : (s.advance n).pos ≤ (chainBytes s.chunks).length := inside
    rw [pos, consumed] at bound
    omega

/-- `reset` goes forward from the first byte. -/
def rewound (s : Codestream) : Codestream :=
  { s with curChunk := 0, curOffset := 0, consumedBeforeCurChunk := 0, tmp := 0, last := 0, bits := 0 }

theorem reset_eq (s : Codestream) (p : BitVec 32) : s.reset p = s.rewound.advance p.toNat := by
  simp only [reset, Codestream.advance, rewound, List.drop_zero, Nat.zero_add]

theorem rewound_onChain (nonempty : ∀ c ∈ s.chunks, c.bytes ≠ []) : s.rewound.OnChain where
  nonempty := nonempty
  counted := ⟨Nat.zero_le _, rfl⟩
  on c here := List.length_pos_iff.mpr (nonempty c (List.mem_of_getElem? here))
  ended _ := rfl

theorem flat_reset (s : Codestream) (p : BitVec 32) : (s.reset p).flat = s.flat.reset p := by
  have start : s.rewound.pos = 0 := rfl
  rw [reset_eq, flat_advance]
  simp only [flat, FlatReader.moveForward, FlatReader.reset, start, Nat.zero_add]
  rfl

theorem OnChain.reset (on : s.OnChain) {p : BitVec 32} (inside : (s.flat.reset p).Inside) : (s.reset p).OnChain := by
  rw [reset_eq]
  apply (rewound_onChain on.nonempty).advance
  rwa [← flat_advance, ← reset_eq, flat_reset]

theorem OnChain.getByte (on : s.OnChain) (inside : s.flat.getByte.2.Inside) :
    SameResult s.getByte s.flat.getByte := by
  obtain ⟨c, here⟩ := on.chunk_of_lt inside
  obtain ⟨bound, _⟩ := List.getElem?_eq_some_iff.mp here
  have offset := on.on c here
  have counted := (getByte_forward s).counted on.counted
  -- The byte at the flat position is the first of what is left.
  have byte : (chainBytes s.chunks).getD s.pos 0 = c.bytes.getD s.curOffset 0 := by
    have head := congrArg List.head? (on.drop_bytes here)
    rw [List.head?_append_of_ne_nil _ (by simpa using offset), List.head?_drop,
      List.head?_drop] at head
    rw [List.getD_eq_getElem?_getD, List.getD_eq_getElem?_getD, head]
  refine ⟨?_, ?_, ?_⟩
  · simp only [Codestream.getByte, here]
    exact byte.symm
  · simp only [Codestream.getByte, here, flat, FlatReader.getByte]
    split <;> simp only [pos, FlatReader.mk.injEq, and_true, true_and] <;> omega
  · refine ⟨?_, counted, ?_, ?_⟩
    · rw [getByte_chunks]
      exact on.nonempty
    · rw [getByte_chunks]
      simp only [Codestream.getByte, here]
      split
      -- The reader goes over to the next chunk, which is not empty.
      · exact fun next there => List.length_pos_iff.mpr (on.nonempty next (List.mem_of_getElem? there))
      · intro same there
        cases here.symm.trans there
        change s.curOffset + 1 < _
        omega
    · rw [getByte_chunks]
      simp only [Codestream.getByte, here]
      split
      · exact fun _ => rfl
      · exact fun last => absurd last (Nat.ne_of_lt bound)

theorem OnChain.getWord (on : s.OnChain) (inside : s.flat.getWord.2.Inside) :
    SameResult s.getWord s.flat.getWord := by
  have first := on.getByte (Nat.le_of_succ_le inside)
  rw [FlatReader.getWord] at inside
  rw [← first.flat] at inside
  have second := first.on.getByte inside
  refine ⟨?_, ?_, second.on⟩
  · simp only [Codestream.getWord, FlatReader.getWord, second.value, first.value, first.flat]
  · simp only [Codestream.getWord, FlatReader.getWord, second.flat, first.flat]

theorem OnChain.getDword (on : s.OnChain) (inside : s.flat.getDword.2.Inside) :
    SameResult s.getDword s.flat.getDword := by
  have first := on.getWord (Nat.le_of_succ_le (Nat.le_of_succ_le inside))
  rw [FlatReader.getDword] at inside
  rw [← first.flat] at inside
  have second := first.on.getWord inside
  refine ⟨?_, ?_, second.on⟩
  · simp only [Codestream.getDword, FlatReader.getDword, second.value, first.value, first.flat]
  · simp only [Codestream.getDword, FlatReader.getDword, second.flat, first.flat]

theorem OnChain.getBit (on : s.OnChain) (inside : s.flat.getBit.2.Inside) : SameResult s.getBit s.flat.getBit := by
  have bits : s.flat.bits = s.bits := rfl
  simp only [Codestream.getBit, FlatReader.getBit, bits] at inside ⊢
  split at inside
  next empty =>
    have byte := on.getByte inside
    have loaded : s.loadByte.flat = s.flat.loadByte := by
      simp only [loadByte, FlatReader.loadByte, ← byte.flat, ← byte.value]
      rfl
    rw [if_pos empty, if_pos empty, ← loaded]
    exact ⟨rfl, rfl, byte.on.of_place rfl rfl rfl rfl⟩
  next some =>
    rw [if_neg some, if_neg some]
    exact ⟨rfl, rfl, on.of_place rfl rfl rfl rfl⟩

/-- Whole decoders, by the rule for sources that agree inside a region. -/
theorem OnChain.run (on : s.OnChain) {α : Type} (p : BitProgram α)
    (inside : (p.run FlatReader.bitSource s.flat).2.Inside) :
    SameResult (p.run bitSource s) (p.run FlatReader.bitSource s.flat) := by
  obtain ⟨value, flat, after⟩ := BitProgram.run_local bitSource FlatReader.bitSource
    (fun s f => s.flat = f ∧ s.OnChain) FlatReader.Inside
    (by
      intro f inside
      simp only [FlatReader.bitSource, FlatReader.getBit] at inside
      split at inside
      · exact Nat.le_of_succ_le inside
      · exact inside)
    (by
      rintro s _ ⟨rfl, on⟩ inside
      have same := on.getBit inside
      exact ⟨same.value, same.flat, same.on⟩)
    p s s.flat ⟨rfl, on⟩ inside
  exact ⟨value, flat, after⟩

theorem OnChain.packetheaderFlushBits (on : s.OnChain)
    (inside : s.flat.packetheaderFlushBits.Inside) :
    s.packetheaderFlushBits.flat = s.flat.packetheaderFlushBits ∧
      s.packetheaderFlushBits.OnChain := by
  have tmp : s.flat.tmp = s.tmp := rfl
  simp only [Codestream.packetheaderFlushBits, FlatReader.packetheaderFlushBits, tmp] at inside ⊢
  split at inside
  next stuffed =>
    rw [if_pos stuffed, if_pos stuffed, ← flat_advance]
    exact ⟨rfl, (on.advance inside).of_place rfl rfl rfl rfl⟩
  next plain =>
    rw [if_neg plain, if_neg plain]
    exact ⟨rfl, on.of_place rfl rfl rfl rfl⟩

/-! ### Bytes in a row -/

theorem OnChain.end_of_none (on : s.OnChain) (none_here : s.chunks[s.curChunk]? = none)
    {n : Nat} (inside : (s.flat.moveForward n).Inside) : n = 0 := by
  by_contra some
  have bound : s.pos + n ≤ (chainBytes s.chunks).length := inside
  obtain ⟨c, here⟩ := on.chunk_of_lt (show s.pos < _ by omega)
  rw [here] at none_here
  cases none_here

/-- The bytes in front of the reader, up to the end of its chunk, are those of the buffer. -/
theorem OnChain.take_bytes (on : s.OnChain) {c : Chunk}
    (here : s.chunks[s.curChunk]? = some c) {n : Nat} (fits : s.curOffset + n ≤ c.bytes.length) :
    (c.bytes.drop s.curOffset).take n = ((chainBytes s.chunks).drop s.pos).take n := by
  rw [on.drop_bytes here, List.take_append_of_le_length (by rw [List.length_drop]; omega)]

theorem inside_moveForward {n : Nat} :
    (s.flat.moveForward n).Inside ↔ s.pos + n ≤ (chainBytes s.chunks).length := Iff.rfl

private theorem OnChain.copyLoop_nothing (on : s.OnChain) (fuel : Nat)
    (copied : List UInt8) :
    SameResult (copyLoop fuel s 0 copied)
      (copied ++ ((chainBytes s.chunks).drop s.pos).take 0, s.flat.moveForward 0) := by
  rw [copyLoop_none_left, List.take_zero, List.append_nil]
  exact ⟨rfl, rfl, on⟩

/-- The copy loop collects the bytes chunk by chunk. -/
theorem OnChain.copyLoop (fuel : Nat) (on : s.OnChain) {left : Nat}
    (copied : List UInt8) (enough : s.chunks.length - s.curChunk ≤ fuel)
    (inside : (s.flat.moveForward left).Inside) :
    SameResult (copyLoop fuel s left copied)
      (copied ++ ((chainBytes s.chunks).drop s.pos).take left, s.flat.moveForward left) := by
  induction fuel generalizing s left copied with
  | zero =>
    cases on.end_of_none (List.getElem?_eq_none_iff.mpr (by omega)) inside
    exact on.copyLoop_nothing 0 copied
  | succ fuel ih =>
    by_cases done : left = 0
    · subst done
      exact on.copyLoop_nothing _ copied
    cases here : s.chunks[s.curChunk]? with
    | none => exact absurd (on.end_of_none here inside) done
    | some c =>
      have offset := on.on c here
      simp only [Codestream.copyLoop, done, if_false, here, if_pos (Nat.le_of_lt offset)]
      by_cases last : left ≤ c.bytes.length - s.curOffset
      · rw [Nat.min_eq_left last, Nat.sub_self, copyLoop_none_left]
        refine ⟨?_, flat_advance s left, on.advance inside⟩
        rw [on.take_bytes here (by omega)]
      · rw [Nat.min_eq_right (Nat.le_of_not_le last)]
        generalize avail : c.bytes.length - s.curOffset = n at last
        have leaves := advance_leaves_chunk here (show c.bytes.length ≤ s.curOffset + n by omega)
        rw [inside_moveForward] at inside
        have step := on.advance (inside_moveForward.mpr (show s.pos + n ≤ _ by omega))
        have later : ((s.advance n).flat.moveForward (left - n)).Inside := by
          rw [inside_moveForward, advance_chunks, pos_advance]
          omega
        have rest := ih step (copied ++ (c.bytes.drop s.curOffset).take n)
          (by rw [advance_chunks]; omega) later
        rw [flat_advance, advance_chunks, pos_advance] at rest
        refine ⟨rest.value.trans ?_, rest.flat.trans ?_, rest.on⟩
        · -- What this chunk gives and what the later ones give are taken together.
          rw [on.take_bytes here (by omega), List.append_assoc, ← List.drop_drop, ← List.take_add,
            Nat.add_sub_of_le (by omega)]
        · simp only [FlatReader.moveForward, Nat.add_assoc, Nat.add_sub_of_le (Nat.le_of_not_le last)]

/-- `take_contiguous` gives the next bytes of the buffer, from one chunk or copied together.
Only at the end of the chain, where it can give none, is its result a null pointer. -/
theorem OnChain.takeContiguous (on : s.OnChain) {len : Nat}
    (inside : (s.flat.takeContiguous len).2.Inside) :
    SameResult ((s.takeContiguous len).1.getD [], (s.takeContiguous len).2)
        (s.flat.takeContiguous len) ∧
      ((s.takeContiguous len).1 = none → len = 0) := by
  simp only [Codestream.takeContiguous, FlatReader.takeContiguous]
  cases here : s.chunks[s.curChunk]? with
  | none =>
    cases on.end_of_none here inside
    exact ⟨⟨rfl, rfl, on.of_place rfl rfl rfl rfl⟩, fun _ => rfl⟩
  | some c =>
    dsimp only
    split
    next nothing =>
      subst nothing
      exact ⟨⟨rfl, rfl, on⟩, by simp⟩
    · split
      next fits =>
        refine ⟨⟨?_, flat_advance s len, on.advance inside⟩, by simp⟩
        exact on.take_bytes here fits
      · have copied := on.copyLoop (s.chunks.length - s.curChunk) [] (Nat.le_refl _) inside
        have full : (((chainBytes s.chunks).drop s.pos).take len).length = len := by
          rw [FlatReader.takeContiguous, inside_moveForward] at inside
          rw [List.length_take, List.length_drop]
          omega
        refine ⟨⟨?_, copied.flat, copied.on.of_place rfl rfl rfl rfl⟩, by simp⟩
        rw [copied.value, List.nil_append, full, Nat.sub_self]
        exact List.append_nil _

theorem OnChain.appendChunk (on : s.OnChain) {c : Chunk} (nonempty : c.bytes ≠ []) :
    (s.appendChunk c).flat = s.flat.appendChunk c ∧ (s.appendChunk c).OnChain := by
  constructor
  · simp only [Codestream.appendChunk, flat, FlatReader.appendChunk, chainBytes_append]
    simp [chainBytes, pos]
  · refine ⟨?_, ?_, ?_, ?_⟩
    · intro c' member
      rcases List.mem_append.mp member with old | new
      · exact on.nonempty c' old
      · rw [List.mem_singleton.mp new]
        exact nonempty
    · obtain ⟨bound, consumed⟩ := on.counted
      refine ⟨?_, ?_⟩
      · simp only [Codestream.appendChunk, List.length_append, List.length_singleton]
        omega
      · simp only [Codestream.appendChunk, List.take_append_of_le_length bound]
        exact consumed
    · -- A reader at the end now stands on the first byte of the new chunk.
      intro c' there
      rcases Nat.lt_or_eq_of_le on.counted.1 with before | last
      · simp only [Codestream.appendChunk, List.getElem?_append_left before] at there
        exact on.on c' there
      · simp only [Codestream.appendChunk, last, List.getElem?_concat_length] at there
        cases there
        rw [Codestream.appendChunk, on.ended last]
        exact List.length_pos_iff.mpr nonempty
    · intro beyond
      have bound := on.counted.1
      simp only [Codestream.appendChunk, List.length_append, List.length_singleton] at beyond
      omega

end Codestream

/-! ### Sequences of operations -/

/-- The public operations of `codestream`. -/
inductive ReaderOp where
  | appendChunk (c : Chunk)
  | getByte
  | getWord
  | getDword
  | getBit
  | packetheaderGetBits (n : Int)
  | packetheaderFlushBits
  | moveForward (n : BitVec 32)
  | takeContiguous (len : Nat)
  | reset (p : BitVec 32)
  | getPos
deriving DecidableEq, Repr

/-- What an operation gives to its caller. -/
inductive ReaderValue where
  | nothing
  | byte (v : UInt8)
  | word (v : BitVec 16)
  | dword (v : BitVec 32)
  | bit (v : Bool)
  | bits (v : BitVec 32)
  | bytes (v : List UInt8)
  | pos (v : BitVec 32)
deriving DecidableEq, Repr

def chainReader : Machine ReaderOp ReaderValue Codestream where
  step s
    | .appendChunk c => (.nothing, s.appendChunk c)
    | .getByte => (.byte s.getByte.1, s.getByte.2)
    | .getWord => (.word s.getWord.1, s.getWord.2)
    | .getDword => (.dword s.getDword.1, s.getDword.2)
    | .getBit => (.bit s.getBit.1, s.getBit.2)
    | .packetheaderGetBits n => (.bits (s.packetheaderGetBits n).1, (s.packetheaderGetBits n).2)
    | .packetheaderFlushBits => (.nothing, s.packetheaderFlushBits)
    | .moveForward n => (.nothing, s.moveForward n)
    -- The bytes behind the pointer; there are none behind a null pointer.
    | .takeContiguous len =>
      (.bytes ((s.takeContiguous len).1.getD []), (s.takeContiguous len).2)
    | .reset p => (.nothing, s.reset p)
    | .getPos => (.pos s.getPos, s)

def flatReader : Machine ReaderOp ReaderValue FlatReader where
  step f
    | .appendChunk c => (.nothing, f.appendChunk c)
    | .getByte => (.byte f.getByte.1, f.getByte.2)
    | .getWord => (.word f.getWord.1, f.getWord.2)
    | .getDword => (.dword f.getDword.1, f.getDword.2)
    | .getBit => (.bit f.getBit.1, f.getBit.2)
    | .packetheaderGetBits n => (.bits (f.packetheaderGetBits n).1, (f.packetheaderGetBits n).2)
    | .packetheaderFlushBits => (.nothing, f.packetheaderFlushBits)
    | .moveForward n => (.nothing, f.moveForward n.toNat)
    | .takeContiguous len => (.bytes (f.takeContiguous len).1, (f.takeContiguous len).2)
    | .reset p => (.nothing, f.reset p)
    | .getPos => (.pos f.getPos, f)

/-- An operation stays within the bytes appended so far: the flat reader is not beyond them
afterwards. Chunks are not empty. -/
def FlatReader.Within (f : FlatReader) (op : ReaderOp) : Prop :=
  (flatReader.step f op).2.Inside ∧ ∀ c, op = .appendChunk c → c.bytes ≠ []

theorem chainReader_refines : Machine.Refines chainReader flatReader Codestream.flat
    Codestream.OnChain FlatReader.Within := by
  have step {s : Codestream} {op : ReaderOp} (on : s.OnChain) (within : s.flat.Within op) :
      Codestream.SameResult (chainReader.step s op) (flatReader.step s.flat op) := by
    obtain ⟨inside, nonempty⟩ := within
    cases op with
    | appendChunk c =>
      obtain ⟨flat, after⟩ := on.appendChunk (nonempty c rfl)
      exact ⟨rfl, flat, after⟩
    | getByte =>
      have same := on.getByte inside
      exact ⟨congrArg _ same.value, same.flat, same.on⟩
    | getWord =>
      have same := on.getWord inside
      exact ⟨congrArg _ same.value, same.flat, same.on⟩
    | getDword =>
      have same := on.getDword inside
      exact ⟨congrArg _ same.value, same.flat, same.on⟩
    | getBit =>
      have same := on.getBit inside
      exact ⟨congrArg _ same.value, same.flat, same.on⟩
    | packetheaderGetBits n =>
      have same := on.run (BitProgram.getBits n.toNat) inside
      refine ⟨?_, same.flat, same.on⟩
      exact congrArg (fun v => ReaderValue.bits (BitVec.ofNat 32 v)) same.value
    | packetheaderFlushBits =>
      obtain ⟨flat, after⟩ := on.packetheaderFlushBits inside
      exact ⟨rfl, flat, after⟩
    | moveForward n => exact ⟨rfl, Codestream.flat_advance s n.toNat, on.advance inside⟩
    | takeContiguous len =>
      have same := (on.takeContiguous inside).1
      exact ⟨congrArg _ same.value, same.flat, same.on⟩
    | reset p => exact ⟨rfl, Codestream.flat_reset s p, on.reset inside⟩
    | getPos => exact ⟨rfl, rfl, on⟩
  exact ⟨fun on within => (step on within).value, fun on within => (step on within).flat,
    fun on within => (step on within).on⟩

theorem onChain_empty : Codestream.OnChain {} where
  nonempty _ member := nomatch member
  counted := ⟨Nat.le_refl _, rfl⟩
  on _ here := nomatch here
  ended _ := rfl

/-- However the bytes are cut into chunks and whenever these are appended: a sequence of
operations that stays within the bytes appended so far gives the values that it gives on one
buffer, and at every point of it the reader has counted the chunks behind it and stands on a
byte, if it stands on a chunk. A null pointer comes only from a request for no bytes. -/
theorem chain_refines_flat (ops : List ReaderOp)
    (within : flatReader.Admits FlatReader.Within {} ops) :
    (chainReader.run {} ops).1 = (flatReader.run {} ops).1 ∧
    ∀ before after, ops = before ++ after →
      let s := (chainReader.run {} before).2
      s.consumedBeforeCurChunk = chainLength (s.chunks.take s.curChunk) ∧
      (∀ c, s.chunks[s.curChunk]? = some c → s.curOffset < c.bytes.length) ∧
      ∀ len rest, after = .takeContiguous len :: rest → (s.takeContiguous len).1 = none → len = 0 := by
  have refines := chainReader_refines
  refine ⟨(refines.run onChain_empty ops within).1, ?_⟩
  rintro before after rfl
  obtain ⟨first, later⟩ := Machine.admits_append.mp within
  obtain ⟨_, flat, on⟩ := refines.run onChain_empty before first
  refine ⟨on.counted.2, on.on, ?_⟩
  rintro len rest rfl
  have start : Codestream.flat {} = {} := rfl
  rw [← start, ← flat] at later
  exact (on.takeContiguous later.1.1).2

/-- Five bytes in two chunks: a word and a block of bytes that lie across the border, a second
chunk that is appended between two reads, and a rewind. -/
def acrossTheBorder : List ReaderOp :=
  [.appendChunk ⟨0, [0xFF, 0x10, 0x21]⟩, .getByte, .getByte,
   .appendChunk ⟨1, [0x32, 0x43]⟩, .getWord, .getPos, .reset 1, .takeContiguous 3, .getBit]

theorem chain_refines_flat_acrossTheBorder :
    flatReader.Admits FlatReader.Within {} acrossTheBorder ∧
    (chainReader.run {} acrossTheBorder).1 =
      [.nothing, .byte 0xFF, .byte 0x10, .nothing, .word 0x2132, .pos 4, .nothing,
       .bytes [0x10, 0x21, 0x32], .bit false] := by
  have within : flatReader.Admits FlatReader.Within {} acrossTheBorder := by
    simp only [acrossTheBorder, Machine.Admits, FlatReader.Within, FlatReader.Inside]
    refine ⟨⟨by decide, ?_⟩, ⟨by decide, ?_⟩, ⟨by decide, ?_⟩, ⟨by decide, ?_⟩, ⟨by decide, ?_⟩,
      ⟨by decide, ?_⟩, ⟨by decide, ?_⟩, ⟨by decide, ?_⟩, ⟨by decide, ?_⟩, trivial⟩ <;> simp
  exact ⟨within, (chain_refines_flat acrossTheBorder within).1.trans (by decide)⟩

end RtpDecoder.Parser
