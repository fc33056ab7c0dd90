import RtpDecoder.Parser.FlatReader

/-!
# Reading inside a chunk

`get_byte` and `take_contiguous` read from the chunk the reader stands on, and only its number
is compared with the number of chunks. That the offset is inside the chunk is up to the other
operations: those that walk over chunks leave it so, and a chunk may be appended under a reader
that stands at the end of the chain.
-/

namespace RtpDecoder.Parser

/-- Bytes in a row that an operation reads from one chunk. -/
structure Span where
  chunk : Nat
  offset : Nat
  count : Nat := 1
deriving DecidableEq, Repr

/-- Every byte of the span is at an offset below the length of its chunk. -/
def Span.Inside (chunks : List Chunk) (span : Span) : Prop :=
  ∀ i < span.count, ∃ c, chunks[span.chunk]? = some c ∧ span.offset + i < c.bytes.length

theorem span_inside {chunks : List Chunk} {k off n : Nat} {c : Chunk} (here : chunks[k]? = some c)
    (fits : off + n ≤ c.bytes.length) : Span.Inside chunks ⟨k, off, n⟩ := by
  intro i below
  have last : off + i < off + n := Nat.add_lt_add_left below off
  exact ⟨c, here, Nat.lt_of_lt_of_le last fits⟩

namespace Codestream

/-! ### What is read -/

/-- The byte that `get_byte` reads, if it does not return early. -/
def byteSpans (s : Codestream) : List Span :=
  if s.curChunk < s.chunks.length then [⟨s.curChunk, s.curOffset, 1⟩] else []

def wordSpans (s : Codestream) : List Span := s.byteSpans ++ s.getByte.2.byteSpans

def bitSpans (s : Codestream) : List Span := if s.bits = 0 then s.byteSpans else []

/-- The bits are read one by one. -/
def bitsSpans : Nat → Codestream → List Span
  | 0, _ => []
  | n + 1, s => s.bitSpans ++ bitsSpans n s.getBit.2

/-- One call of `memcpy` for each turn of the loop. -/
def copySpans : Nat → Codestream → Nat → List Span
  | 0, _, _ => []
  | fuel + 1, s, left =>
    if left = 0 then []
    else match s.chunks[s.curChunk]? with
      | none => []
      | some c =>
        -- `size_t` wraps around when the offset is beyond the chunk.
        let avail := if s.curOffset ≤ c.bytes.length then c.bytes.length - s.curOffset
          else 2 ^ 64 + c.bytes.length - s.curOffset
        ⟨s.curChunk, s.curOffset, min left avail⟩ ::
          copySpans fuel (s.advance (min left avail)) (left - min left avail)

/-- The bytes that are copied, or that the pointer gives to the caller. -/
def takeSpans (s : Codestream) (len : Nat) : List Span :=
  match s.chunks[s.curChunk]? with
  | none => []
  | some c =>
    if len = 0 then []
    -- The caller gets a pointer into the chunk.
    else if s.curOffset + len ≤ c.bytes.length then [⟨s.curChunk, s.curOffset, len⟩]
    else copySpans (s.chunks.length - s.curChunk) s len

/-- All that an operation reads. -/
def spans (s : Codestream) : ReaderOp → List Span
  | .getByte => s.byteSpans
  | .getWord => s.wordSpans
  | .getDword => s.wordSpans ++ s.getWord.2.wordSpans
  | .getBit => s.bitSpans
  | .packetheaderGetBits n => bitsSpans n.toNat s
  | .takeContiguous len => s.takeSpans len
  | .appendChunk _ | .packetheaderFlushBits | .moveForward _ | .reset _ | .getPos => []

/-! ### Standing on a byte -/

/-- No chunk is empty, and a reader that is not behind the last chunk stands on a byte. -/
structure Standing (s : Codestream) : Prop where
  nonempty : ∀ c ∈ s.chunks, c.bytes ≠ []
  bound : s.curChunk ≤ s.chunks.length
  on : ∀ c, s.chunks[s.curChunk]? = some c → s.curOffset < c.bytes.length

section

variable {s : Codestream}

theorem Standing.of_place {t : Codestream} (standing : s.Standing) (chunks : t.chunks = s.chunks)
    (curChunk : t.curChunk = s.curChunk) (curOffset : t.curOffset = s.curOffset) : t.Standing where
  nonempty := by rw [chunks]; exact standing.nonempty
  bound := by rw [chunks, curChunk]; exact standing.bound
  on := by rw [chunks, curChunk, curOffset]; exact standing.on

theorem Standing.advance (standing : s.Standing) (n : Nat) : (s.advance n).Standing where
  nonempty := standing.nonempty
  bound := by
    have last := (hop_counted (s.chunks.drop s.curChunk) s.curChunk (s.curOffset + n)
      s.consumedBeforeCurChunk).1
    rw [List.length_drop, Nat.add_sub_of_le standing.bound] at last
    exact last
  on := advance_on s n

theorem Standing.reset (standing : s.Standing) (p : BitVec 32) : (s.reset p).Standing := by
  have start : s.rewound.Standing :=
    ⟨standing.nonempty, Nat.zero_le _,
      fun c here => List.length_pos_iff.mpr (standing.nonempty c (List.mem_of_getElem? here))⟩
  rw [reset_eq]
  exact start.advance p.toNat

theorem Standing.getByte (standing : s.Standing) : s.getByte.2.Standing := by
  simp only [Codestream.getByte]
  split
  · exact standing.of_place rfl rfl rfl
  next c here =>
    have inside := standing.on c here
    obtain ⟨bound, _⟩ := List.getElem?_eq_some_iff.mp here
    dsimp only
    split
    · -- The reader goes over to the next chunk, which has a first byte.
      constructor
      · exact standing.nonempty
      · exact bound
      · intro next there
        exact List.length_pos_iff.mpr (standing.nonempty next (List.mem_of_getElem? there))
    next more =>
      -- There is another byte in this chunk.
      constructor
      · exact standing.nonempty
      · exact standing.bound
      · intro same there
        cases here.symm.trans there
        change s.curOffset + 1 < c.bytes.length
        omega

theorem Standing.getBit (standing : s.Standing) : s.getBit.2.Standing := by
  simp only [Codestream.getBit]
  split
  · exact standing.getByte.of_place rfl rfl rfl
  · exact standing.of_place rfl rfl rfl

theorem Standing.run {α : Type} (standing : s.Standing) (p : BitProgram α) : (p.run bitSource s).2.Standing :=
  BitProgram.run_reach bitSource (R := fun s t => s.Standing → t.Standing) (fun _ h => h)
    (fun _ _ _ f g h => g (f h)) (fun _ => Standing.getBit) p s standing

theorem Standing.packetheaderFlushBits (standing : s.Standing) : s.packetheaderFlushBits.Standing := by
  simp only [Codestream.packetheaderFlushBits]
  split
  · exact (standing.advance 1).of_place rfl rfl rfl
  · exact standing.of_place rfl rfl rfl

theorem Standing.copyLoop (fuel : Nat) (standing : s.Standing) (left : Nat) (copied : List UInt8) :
    (copyLoop fuel s left copied).2.Standing := by
  induction fuel generalizing s left copied with
  | zero => exact standing
  | succ fuel ih =>
    simp only [Codestream.copyLoop]
    split
    · exact standing
    · split
      · exact standing
      · exact ih (standing.advance _) _ _

theorem Standing.takeContiguous (standing : s.Standing) (len : Nat) : (s.takeContiguous len).2.Standing := by
  simp only [Codestream.takeContiguous]
  split
  · exact standing.of_place rfl rfl rfl
  · split
    · exact standing
    · split
      · exact standing.advance len
      · exact (standing.copyLoop _ len []).of_place rfl rfl rfl

/-- A chunk may be appended if it is not empty and, where the reader is behind the last chunk, so
long that the reader then stands on one of its bytes. -/
def MayAppend (s : Codestream) (c : Chunk) : Prop :=
  c.bytes ≠ [] ∧ (s.curChunk = s.chunks.length → s.curOffset < c.bytes.length)

theorem Standing.appendChunk (standing : s.Standing) {c : Chunk} (may : s.MayAppend c) :
    (s.appendChunk c).Standing := by
  constructor
  · intro c' member
    rcases List.mem_append.mp member with old | new
    · exact standing.nonempty c' old
    · rw [List.mem_singleton.mp new]
      exact may.1
  · have bound := standing.bound
    simp only [Codestream.appendChunk, List.length_append, List.length_singleton]
    omega
  · intro c' there
    -- Only a reader behind the last chunk gets to stand on the new one.
    rcases Nat.lt_or_eq_of_le standing.bound with before | last
    · simp only [Codestream.appendChunk, List.getElem?_append_left before] at there
      exact standing.on c' there
    · simp only [Codestream.appendChunk, last, List.getElem?_concat_length] at there
      cases there
      exact may.2 last

/-! ### Each read -/

theorem Standing.byteSpans (standing : s.Standing) : ∀ span ∈ s.byteSpans, span.Inside s.chunks := by
  intro span member
  simp only [Codestream.byteSpans] at member
  split at member
  next inside =>
    have here := List.getElem?_eq_getElem inside
    rw [List.mem_singleton.mp member]
    exact span_inside here (standing.on _ here)
  · cases member

theorem Standing.wordSpans (standing : s.Standing) : ∀ span ∈ s.wordSpans, span.Inside s.chunks := by
  intro span member
  rcases List.mem_append.mp member with high | low
  · exact standing.byteSpans span high
  · have inside := standing.getByte.byteSpans span low
    rwa [getByte_chunks] at inside

theorem Standing.bitSpans (standing : s.Standing) : ∀ span ∈ s.bitSpans, span.Inside s.chunks := by
  intro span member
  simp only [Codestream.bitSpans] at member
  split at member
  · exact standing.byteSpans span member
  · cases member

theorem Standing.bitsSpans (standing : s.Standing) (n : Nat) : ∀ span ∈ bitsSpans n s, span.Inside s.chunks := by
  induction n generalizing s with
  | zero => simp [Codestream.bitsSpans]
  | succ n ih =>
    intro span member
    rcases List.mem_append.mp member with first | later
    · exact standing.bitSpans span first
    · have inside := ih standing.getBit span later
      rwa [getBit_chunks] at inside

theorem Standing.copySpans (fuel : Nat) (standing : s.Standing) (left : Nat) :
    ∀ span ∈ copySpans fuel s left, span.Inside s.chunks := by
  induction fuel generalizing s left with
  | zero => simp [Codestream.copySpans]
  | succ fuel ih =>
    intro span member
    simp only [Codestream.copySpans] at member
    split at member
    · cases member
    · split at member
      · cases member
      next c here =>
        have inside := standing.on c here
        rcases List.mem_cons.mp member with rfl | later
        · -- Since the offset is inside the chunk, the subtraction for `avail` does not wrap.
          rw [if_pos (Nat.le_of_lt inside)]
          exact span_inside here (by omega)
        · exact ih (standing.advance _) _ span later

theorem Standing.takeSpans (standing : s.Standing) (len : Nat) : ∀ span ∈ s.takeSpans len, span.Inside s.chunks := by
  intro span member
  simp only [Codestream.takeSpans] at member
  split at member
  · cases member
  next c here =>
    split at member
    · cases member
    · split at member
      next fits =>
        rw [List.mem_singleton.mp member]
        exact span_inside here fits
      · exact standing.copySpans _ len span member

theorem Standing.spans (standing : s.Standing) (op : ReaderOp) : ∀ span ∈ s.spans op, span.Inside s.chunks := by
  cases op with
  | getByte => exact standing.byteSpans
  | getWord => exact standing.wordSpans
  | getDword =>
    intro span member
    rcases List.mem_append.mp member with high | low
    · exact standing.wordSpans span high
    · have inside := standing.getByte.getByte.wordSpans span low
      rwa [getByte_chunks, getByte_chunks] at inside
  | getBit => exact standing.bitSpans
  | packetheaderGetBits n => exact standing.bitsSpans n.toNat
  | takeContiguous len => exact standing.takeSpans len
  | appendChunk | packetheaderFlushBits | moveForward | reset | getPos => simp [Codestream.spans]

end

/-! ### Sequences of operations -/

/-- What an operation must find; only `append_chunk` asks for anything. -/
def May (s : Codestream) (op : ReaderOp) : Prop := ∀ c, op = .appendChunk c → s.MayAppend c

theorem Standing.step {s : Codestream} {op : ReaderOp} (standing : s.Standing) (may : s.May op) :
    (chainReader.step s op).2.Standing := by
  cases op with
  | appendChunk c => exact standing.appendChunk (may c rfl)
  | getByte => exact standing.getByte
  | getWord => exact standing.getByte.getByte
  | getDword => exact standing.getByte.getByte.getByte.getByte
  | getBit => exact standing.getBit
  | packetheaderGetBits n => exact standing.run (BitProgram.getBits n.toNat)
  | packetheaderFlushBits => exact standing.packetheaderFlushBits
  | moveForward n => exact standing.advance n.toNat
  | takeContiguous len => exact standing.takeContiguous len
  | reset p => exact standing.reset p
  | getPos => exact standing

theorem standing_empty : Standing {} where
  nonempty _ member := nomatch member
  bound := Nat.le_refl _
  on _ here := nomatch here

/-- In every sequence of operations, each read stays inside its chunk, if only chunks are appended
that are not empty and reach beyond the offset of a reader at the end of the chain. -/
theorem reads_inside_chunk (ops : List ReaderOp) (admitted : chainReader.Admits May {} ops)
    (before : List ReaderOp) (op : ReaderOp) (after : List ReaderOp) (cut : ops = before ++ op :: after) :
    ∀ span ∈ (chainReader.run {} before).2.spans op, span.Inside (chainReader.run {} before).2.chunks := by
  subst cut
  -- The reader stands on a byte after every operation before this one.
  obtain ⟨first, _⟩ := Machine.admits_append.mp admitted
  exact (first.invariant Standing.step standing_empty).spans op

/-- A reset to the end of the chain, a chunk appended there, and a read of its first byte. -/
theorem reads_inside_chunk_appended :
    (chainReader.run {} [.appendChunk ⟨0, [1, 2]⟩, .reset 2, .appendChunk ⟨1, [3]⟩]).2.spans .getByte =
      [⟨1, 0, 1⟩] ∧
    ∀ span ∈ (chainReader.run {} [.appendChunk ⟨0, [1, 2]⟩, .reset 2, .appendChunk ⟨1, [3]⟩]).2.spans .getByte,
      span.Inside (chainReader.run {} [.appendChunk ⟨0, [1, 2]⟩, .reset 2, .appendChunk ⟨1, [3]⟩]).2.chunks := by
  refine ⟨by decide, reads_inside_chunk
    ([.appendChunk ⟨0, [1, 2]⟩, .reset 2, .appendChunk ⟨1, [3]⟩] ++ [.getByte]) ?_ _ .getByte [] rfl⟩
  refine ⟨?_, by simp [May], ?_, by simp [May], trivial⟩
  · rintro c ⟨⟩
    exact ⟨by decide, by decide⟩
  · rintro c ⟨⟩
    exact ⟨by decide, by decide⟩

/-- An empty chunk is read at offset 0, and after a reset behind the end a chunk that is appended
is read at the offset left over. -/
theorem reads_outside_chunk :
    (∃ span ∈ (chainReader.run {} [.appendChunk ⟨0, [0x80]⟩, .appendChunk ⟨1, []⟩, .getByte]).2.spans .getByte,
      ¬ span.Inside (chainReader.run {} [.appendChunk ⟨0, [0x80]⟩, .appendChunk ⟨1, []⟩, .getByte]).2.chunks) ∧
    ∃ span ∈ (chainReader.run {} [.reset 5, .appendChunk ⟨0, [1, 2]⟩]).2.spans .getByte,
      ¬ span.Inside (chainReader.run {} [.reset 5, .appendChunk ⟨0, [1, 2]⟩]).2.chunks := by
  constructor
  · refine ⟨⟨1, 0, 1⟩, by decide, fun inside => ?_⟩
    obtain ⟨c, ⟨⟩, below⟩ := inside 0 (by decide)
    exact absurd below (by decide)
  · refine ⟨⟨0, 5, 1⟩, by decide, fun inside => ?_⟩
    obtain ⟨c, ⟨⟩, below⟩ := inside 0 (by decide)
    exact absurd below (by decide)

end Codestream

end RtpDecoder.Parser
