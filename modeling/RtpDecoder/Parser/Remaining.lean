import RtpDecoder.Parser.ChainReader

/-!
# What is left of the chain

Past the end of the chain `get_byte` gives zeros and `take_contiguous` copies what is
left, and neither is reported as a failure. Here the ghost flag `short` of the reader is
tied to the number of bytes that remain.
-/

namespace RtpDecoder.Parser

variable {s : Codestream}

/-! ### Standing on a byte -/

theorem chainLength_drop_of_getElem? {chunks : List Chunk} {i : Nat} {c : Chunk}
    (here : chunks[i]? = some c) :
    chainLength (chunks.drop i) = c.bytes.length + chainLength (chunks.drop (i + 1)) := by
  rw [Codestream.drop_of_getElem? here, chainLength_cons]

theorem hop_place (L : List Chunk) (cur off consumed : Nat) :
    (∀ c, L[(hop L cur off consumed).1 - cur]? = some c →
      (hop L cur off consumed).2.1 < c.bytes.length) ∧
    chainLength (L.drop ((hop L cur off consumed).1 - cur)) - (hop L cur off consumed).2.1 =
      chainLength L - off := by
  induction L generalizing cur off consumed with
  | nil => simp [hop]
  | cons c rest ih =>
    simp only [hop]
    split
    next beyond =>
      -- One chunk is left behind; where the hop stops is up to the rest.
      obtain ⟨place, left⟩ := ih (cur + 1) (off - c.bytes.length) (consumed + c.bytes.length)
      have forward := hop_cur_ge rest (cur + 1) (off - c.bytes.length) (consumed + c.bytes.length)
      obtain ⟨k, distance⟩ := Nat.exists_eq_add_of_le forward
      rw [distance, show cur + 1 + k - (cur + 1) = k by omega] at place left
      rw [distance, show cur + 1 + k - cur = k + 1 by omega]
      refine ⟨place, ?_⟩
      rw [List.drop_succ_cons, left, chainLength_cons]
      omega
    next inside => simpa using Nat.lt_of_not_le inside

namespace Codestream

theorem remaining_of_getElem? {c : Chunk} (here : s.chunks[s.curChunk]? = some c) :
    s.remaining = c.bytes.length + chainLength (s.chunks.drop (s.curChunk + 1)) - s.curOffset := by
  rw [remaining, chainLength_drop_of_getElem? here]

theorem remaining_of_none (beyond : s.chunks[s.curChunk]? = none) : s.remaining = 0 := by
  rw [remaining, List.drop_eq_nil_of_le (List.getElem?_eq_none_iff.mp beyond), chainLength_nil,
    Nat.zero_sub]

theorem lt_of_remaining (left : 0 < s.remaining) : s.curChunk < s.chunks.length := by
  by_contra beyond
  have none_left := remaining_of_none (List.getElem?_eq_none_iff.mpr (Nat.le_of_not_lt beyond))
  omega

theorem remaining_advance (s : Codestream) (n : Nat) : (s.advance n).remaining = s.remaining - n := by
  obtain ⟨_, left⟩ := hop_place (s.chunks.drop s.curChunk) s.curChunk (s.curOffset + n)
    s.consumedBeforeCurChunk
  have forward := hop_cur_ge (s.chunks.drop s.curChunk) s.curChunk (s.curOffset + n)
    s.consumedBeforeCurChunk
  rw [List.drop_drop, Nat.add_sub_of_le forward] at left
  exact left.trans (by rw [remaining]; omega)

/-- The walk over the chunks stops on a byte of the chunk it stops at, wherever it starts. -/
theorem advance_on (s : Codestream) (n : Nat) (c : Chunk)
    (here : (s.advance n).chunks[(s.advance n).curChunk]? = some c) :
    (s.advance n).curOffset < c.bytes.length := by
  obtain ⟨place, _⟩ := hop_place (s.chunks.drop s.curChunk) s.curChunk (s.curOffset + n)
    s.consumedBeforeCurChunk
  have forward := hop_cur_ge (s.chunks.drop s.curChunk) s.curChunk (s.curOffset + n)
    s.consumedBeforeCurChunk
  rw [List.getElem?_drop, Nat.add_sub_of_le forward] at place
  exact place c here

theorem remaining_packetheaderFlushBits (s : Codestream) :
    s.packetheaderFlushBits.remaining = if s.tmp = 0xFF then s.remaining - 1 else s.remaining := by
  unfold packetheaderFlushBits
  by_cases stuffed : s.tmp = 0xFF
  · simp only [stuffed, if_true]
    exact remaining_advance s 1
  · simp only [stuffed, if_false]
    rfl

theorem short_packetheaderFlushBits (s : Codestream) :
    s.packetheaderFlushBits.short = (s.short || (decide (s.tmp = 0xFF) && s.missing)) := by
  unfold packetheaderFlushBits
  by_cases stuffed : s.tmp = 0xFF <;> simp [stuffed]

/-! ### Code-block bodies -/

/-- The reader is not beyond the chunk it stands on; it may stand behind its last byte. -/
def Placed (s : Codestream) : Prop := ∀ c, s.chunks[s.curChunk]? = some c → s.curOffset ≤ c.bytes.length

theorem advance_placed (s : Codestream) (n : Nat) : (s.advance n).Placed :=
  fun c here => Nat.le_of_lt (advance_on s n c here)

private theorem Placed.copyLoop (fuel : Nat) (placed : s.Placed) (left : Nat)
    (copied : List UInt8) (enough : s.chunks.length - s.curChunk ≤ fuel) :
    (copyLoop fuel s left copied).2.Placed ∧
      (copyLoop fuel s left copied).2.remaining = s.remaining - left ∧
      (copyLoop fuel s left copied).1.length = copied.length + min left s.remaining := by
  induction fuel generalizing s left copied with
  | zero =>
    -- There is fuel for every chunk, so none is left.
    have none_left : s.remaining = 0 :=
      remaining_of_none (List.getElem?_eq_none_iff.mpr (by omega))
    dsimp only [Codestream.copyLoop]
    exact ⟨placed, by omega, by omega⟩
  | succ fuel ih =>
    simp only [Codestream.copyLoop]
    split
    next done => exact ⟨placed, by dsimp only; omega, by dsimp only; omega⟩
    next more =>
      split
      next beyond =>
        have none_left := remaining_of_none beyond
        exact ⟨placed, by dsimp only; omega, by dsimp only; omega⟩
      next c here =>
        have on := placed c here
        have chain := remaining_of_getElem? here
        rw [if_pos on]
        have moved := remaining_advance s (min left (c.bytes.length - s.curOffset))
        by_cases all : left ≤ c.bytes.length - s.curOffset
        · -- Everything was in this chunk: the next turn stops.
          have done : left - min left (c.bytes.length - s.curOffset) = 0 := by omega
          rw [done, copyLoop_none_left]
          refine ⟨advance_placed s _, by dsimp only; omega, ?_⟩
          simp only [List.length_append, List.length_take, List.length_drop]
          omega
        · -- The chunk is used up, so the reader leaves it behind.
          have passed := advance_leaves_chunk (n := min left (c.bytes.length - s.curOffset)) here
            (by omega)
          obtain ⟨final, rest, length⟩ := ih
            (advance_placed s (min left (c.bytes.length - s.curOffset)))
            (left - min left (c.bytes.length - s.curOffset))
            (copied ++ (c.bytes.drop s.curOffset).take (min left (c.bytes.length - s.curOffset)))
            (by rw [advance_chunks]; omega)
          refine ⟨final, by omega, ?_⟩
          rw [length]
          simp only [List.length_append, List.length_take, List.length_drop]
          omega

private theorem copyLoop_bits (fuel : Nat) (s : Codestream) (left : Nat) (copied : List UInt8) :
    (copyLoop fuel s left copied).2.bits = s.bits ∧
      (copyLoop fuel s left copied).2.short = s.short := by
  induction fuel generalizing s left copied with
  | zero => exact ⟨rfl, rfl⟩
  | succ fuel ih =>
    simp only [copyLoop]
    split
    · exact ⟨rfl, rfl⟩
    · split
      · exact ⟨rfl, rfl⟩
      · exact ih _ _ _

theorem takeContiguous_bits (s : Codestream) (len : Nat) : (s.takeContiguous len).2.bits = s.bits := by
  unfold takeContiguous
  split
  · rfl
  · split
    · rfl
    · split
      · rfl
      · exact (copyLoop_bits _ _ _ _).1

theorem unshort_of_takeContiguous {len : Nat}
    (unshort : (s.takeContiguous len).2.short = false) : s.short = false := by
  unfold takeContiguous at unshort
  split at unshort
  · exact (Bool.or_eq_false_iff.mp unshort).1
  · split at unshort
    · exact unshort
    · split at unshort
      · exact unshort
      · rw [← (copyLoop_bits (s.chunks.length - s.curChunk) s len []).2]
        exact (Bool.or_eq_false_iff.mp unshort).1

/-- `take_contiguous` is short when fewer bytes are left than were asked for. -/
theorem Placed.takeContiguous (placed : s.Placed) (len : Nat) :
    (s.takeContiguous len).2.Placed ∧
      (s.takeContiguous len).2.remaining = s.remaining - len ∧
      (s.takeContiguous len).2.short = (s.short || decide (s.remaining < len)) := by
  cases here : s.chunks[s.curChunk]? with
  | none =>
    have none_left := remaining_of_none here
    simp only [Codestream.takeContiguous, here, none_left]
    exact ⟨placed, by change s.remaining = _; omega, trivial⟩
  | some c =>
    have on := placed c here
    have chain := remaining_of_getElem? here
    simp only [Codestream.takeContiguous, here]
    by_cases nothing : len = 0
    · subst nothing
      simp [placed]
    · rw [if_neg nothing]
      by_cases fits : s.curOffset + len ≤ c.bytes.length
      · have enough : ¬ s.remaining < len := by omega
        rw [if_pos fits]
        exact ⟨advance_placed s len, remaining_advance s len, by simp [enough, Codestream.advance]⟩
      · rw [if_neg fits]
        obtain ⟨final, rest, length⟩ := Placed.copyLoop (s.chunks.length - s.curChunk) placed
          len [] (Nat.le_refl _)
        refine ⟨final, rest, ?_⟩
        simp only [(copyLoop_bits (s.chunks.length - s.curChunk) s len []).2, length,
          List.length_nil, Nat.zero_add]
        congr 1
        exact decide_eq_decide.mpr (by omega)

theorem takeContiguous_isSome (s : Codestream) (len : Nat) :
    (s.takeContiguous len).1.isSome = decide (s.curChunk < s.chunks.length) := by
  cases here : s.chunks[s.curChunk]? with
  | none =>
    have beyond := List.getElem?_eq_none_iff.mp here
    simp [takeContiguous, beyond]
  | some c =>
    obtain ⟨bound, _⟩ := List.getElem?_eq_some_iff.mp here
    simp only [takeContiguous, here, bound, decide_true]
    split
    · rfl
    · split <;> rfl

/-! ### Header bytes -/

theorem short_getByte (s : Codestream) : s.getByte.2.short = (s.short || s.missing) := by
  cases here : s.chunks[s.curChunk]? with
  | none => simp [getByte, missing, here]
  | some c =>
    simp only [getByte, here]
    split
    next full =>
      have present : ¬ c.bytes.length ≤ s.curOffset := by omega
      simp [missing, here, present]
    · rfl

theorem short_getBit (s : Codestream) : s.getBit.2.short = (s.short || (decide (s.bits = 0) && s.missing)) := by
  by_cases empty : s.bits = 0
  · simp [getBit, empty, loadByte, short_getByte]
  · simp [getBit, empty]

theorem unshort_of_getBit (unshort : s.getBit.2.short = false) : s.short = false := by
  rw [short_getBit] at unshort
  exact (Bool.or_eq_false_iff.mp unshort).1

theorem remaining_getByte (s : Codestream) :
    s.getByte.2.remaining ≤ s.remaining ∧
      (s.missing = false → s.getByte.2.remaining + 1 = s.remaining) := by
  cases here : s.chunks[s.curChunk]? with
  | none => simp [getByte, missing, here, remaining]
  | some c =>
    have cut := remaining_of_getElem? here
    simp only [getByte, missing, here, decide_eq_false_iff_not]
    split
    next full =>
      change chainLength (s.chunks.drop (s.curChunk + 1)) - 0 ≤ _ ∧
        (_ → chainLength (s.chunks.drop (s.curChunk + 1)) - 0 + 1 = _)
      omega
    next more =>
      have moved := remaining_of_getElem? (s := { s with
        curOffset := s.curOffset + 1, short := s.short || s.missing }) here
      change _ = c.bytes.length + chainLength (s.chunks.drop (s.curChunk + 1)) -
        (s.curOffset + 1) at moved
      refine ⟨?_, fun on => ?_⟩
      · exact moved ▸ (by omega)
      · exact moved ▸ (by omega)

theorem remaining_getBit_le (s : Codestream) : s.getBit.2.remaining ≤ s.remaining := by
  unfold getBit
  dsimp only
  split
  · exact (remaining_getByte s).1
  · exact Nat.le_refl _

/-- A reader that had all bytes so far, and has no empty chunk and no gap before it. -/
structure Whole (s : Codestream) : Prop where
  nonempty : ∀ c ∈ s.chunks.drop s.curChunk, c.bytes ≠ []
  bound : s.curChunk ≤ s.chunks.length
  on : ∀ c, s.chunks[s.curChunk]? = some c → s.curOffset < c.bytes.length
  ended : s.curChunk = s.chunks.length → s.curOffset = 0
  unshort : s.short = false

theorem Whole.of_place {t : Codestream} (whole : s.Whole) (chunks : t.chunks = s.chunks)
    (curChunk : t.curChunk = s.curChunk) (curOffset : t.curOffset = s.curOffset)
    (short : t.short = s.short) : t.Whole where
  nonempty := by rw [chunks, curChunk]; exact whole.nonempty
  bound := by rw [chunks, curChunk]; exact whole.bound
  on := by rw [chunks, curChunk, curOffset]; exact whole.on
  ended := by rw [chunks, curChunk, curOffset]; exact whole.ended
  unshort := by rw [short]; exact whole.unshort

theorem Whole.missing_eq (whole : s.Whole) : s.missing = decide (s.remaining = 0) := by
  cases here : s.chunks[s.curChunk]? with
  | none => simp [missing, here, remaining_of_none here]
  | some c =>
    have on := whole.on c here
    have left := remaining_of_getElem? here
    have present : ¬ c.bytes.length ≤ s.curOffset := Nat.not_le_of_lt on
    have some_left : ¬ s.remaining = 0 := by omega
    simp [missing, here, present, some_left]

theorem Whole.getByte (whole : s.Whole) (left : 0 < s.remaining) : s.getByte.2.Whole := by
  have inside := lt_of_remaining left
  have here := List.getElem?_eq_getElem inside
  have on := whole.on _ here
  simp only [Codestream.getByte, here]
  split
  next full =>
    -- The reader goes over to the next chunk, which is not empty.
    refine ⟨?_, inside, ?_, fun _ => rfl, whole.unshort⟩
    · intro next mem
      refine whole.nonempty next ?_
      rw [List.drop_eq_getElem_cons inside]
      exact List.mem_cons_of_mem _ mem
    · intro next there
      have mem : next ∈ s.chunks.drop s.curChunk :=
        List.mem_of_getElem? (i := 1) (List.getElem?_drop.trans there)
      exact List.length_pos_iff.mpr (whole.nonempty next mem)
  next more =>
    refine ⟨whole.nonempty, whole.bound, ?_, fun ended => absurd ended (Nat.ne_of_lt inside), ?_⟩
    · intro same there
      cases here.symm.trans there
      change s.curOffset + 1 < _
      omega
    · have some_left : ¬ s.remaining = 0 := by omega
      simp [whole.unshort, whole.missing_eq, some_left]

/-- A bit whose byte is in the chain is read alike when the chain goes on. -/
theorem Whole.getBit (whole : s.Whole) (D : List Chunk)
    (byte : s.bits = 0 → 0 < s.remaining) :
    (s.extend D).getBit = (s.getBit.1, s.getBit.2.extend D) ∧ s.getBit.2.Whole := by
  by_cases empty : s.bits = 0
  · have left := byte empty
    refine ⟨extend_getBit D (lt_of_remaining left), ?_⟩
    simp only [Codestream.getBit, empty, if_true]
    exact (whole.getByte left).of_place rfl rfl rfl rfl
  · simp only [Codestream.getBit, extend_bits, empty, if_false]
    exact ⟨rfl, whole.of_place rfl rfl rfl rfl⟩

/-- A decoder that does not leave the chain does the same when the chain goes on. Whether it
leaves the chain may be seen on the reader of the longer chain, by a property `Stays` that
is lost with the first byte of the continuation. -/
theorem Whole.run {α : Type} (p : BitProgram α) (whole : s.Whole) (D : List Chunk)
    (Stays : Codestream → Prop) (back : ∀ b : Codestream, Stays b.getBit.2 → Stays b)
    (byte : ∀ a : Codestream, a.Whole → Stays (a.extend D).getBit.2 → a.bits = 0 → 0 < a.remaining)
    (present : (p.run bitSource s).2.short = false ∨ Stays (p.run bitSource (s.extend D)).2) :
    p.run bitSource (s.extend D) = ((p.run bitSource s).1, (p.run bitSource s).2.extend D) ∧
      (p.run bitSource s).2.Whole := by
  rcases present with unshort | stays
  · obtain ⟨same, after, final⟩ := BitProgram.run_local bitSource bitSource
      (fun b a => b = a.extend D ∧ a.Whole) (fun a => a.short = false) (fun _ => unshort_of_getBit)
      (by
        rintro b a ⟨rfl, whole⟩ unshort
        -- A byte that is not there would have set the flag.
        have here : a.bits = 0 → 0 < a.remaining := by
          intro empty
          rw [show (bitSource.bit a).2 = a.getBit.2 from rfl, short_getBit, empty,
            whole.missing_eq] at unshort
          simp at unshort
          omega
        obtain ⟨same, after⟩ := whole.getBit D here
        exact ⟨(Prod.ext_iff.mp same).1, (Prod.ext_iff.mp same).2, after⟩)
      p (s.extend D) s ⟨rfl, whole⟩ unshort
    exact ⟨Prod.ext same after, final⟩
  -- `Stays` speaks of the reader on the longer chain, so the two change places in the rule.
  · obtain ⟨same, after, final⟩ := BitProgram.run_local bitSource bitSource
      (fun a b => b = a.extend D ∧ a.Whole) Stays back
      (by
        rintro a b ⟨rfl, whole⟩ stays
        obtain ⟨same, after⟩ := whole.getBit D (byte a whole stays)
        exact ⟨(Prod.ext_iff.mp same).1.symm, (Prod.ext_iff.mp same).2, after⟩)
      p s (s.extend D) ⟨rfl, whole⟩ stays
    exact ⟨Prod.ext same.symm after, final⟩

/-! ### One more byte

A read is short exactly when, with one zero byte behind the chain, it would use that byte:
past the end `get_byte` gives zero as well, so both readers go the same way until then. -/

def pad (s : Codestream) : Codestream := s.extend [{ bytes := [0] }]

theorem Whole.remaining_extend (whole : s.Whole) (D : List Chunk) :
    (s.extend D).remaining = s.remaining + chainLength D := by
  change chainLength ((s.chunks ++ D).drop s.curChunk) - s.curOffset = _
  rw [List.drop_append_of_le_length whole.bound, chainLength_append, remaining]
  cases here : s.chunks[s.curChunk]? with
  | none =>
    have start := whole.ended (Nat.le_antisymm whole.bound (List.getElem?_eq_none_iff.mp here))
    omega
  | some c =>
    have on := whole.on c here
    have cut := chainLength_drop_of_getElem? here
    omega

theorem Whole.remaining_pad (whole : s.Whole) : s.pad.remaining = s.remaining + 1 := whole.remaining_extend _

theorem Whole.missing_pad (whole : s.Whole) : s.pad.missing = false := by
  rcases Nat.lt_or_eq_of_le whole.bound with inside | ended
  · have here := List.getElem?_eq_getElem inside
    have on := whole.on _ here
    rw [pad, extend_missing _ inside, missing, here]
    simpa using on
  · simp only [missing, pad, extend, ended, List.getElem?_concat_length, whole.ended ended]
    rfl

theorem Whole.run_pad {α : Type} (p : BitProgram α) (whole : s.Whole)
    (present : (p.run bitSource s).2.short = false ∨ 0 < (p.run bitSource s.pad).2.remaining) :
    p.run bitSource s.pad = ((p.run bitSource s).1, (p.run bitSource s).2.pad) ∧
      (p.run bitSource s).2.Whole := by
  refine whole.run p _ (fun b => 0 < b.remaining)
    (fun b left => Nat.lt_of_lt_of_le left (remaining_getBit_le b)) ?_ present
  intro a whole left empty
  -- If the byte were not in `a`, the padding byte would be used up by it.
  have used := (remaining_getByte a.pad).2 whole.missing_pad
  have shape : (a.extend [{ bytes := [0] }]).getBit.2.remaining = a.pad.getByte.2.remaining := by
    simp only [Codestream.getBit, extend_bits, empty, if_true]
    rfl
  have padded := whole.remaining_pad
  rw [shape] at left
  omega

/-! ### Empty chunks

`get_byte` does not skip an empty chunk but reads beyond it, so for a header the chain ends
at the first empty chunk. -/

/-- The chain up to the first empty chunk before the reader. -/
def solid (s : Codestream) : Codestream :=
  { s with
    chunks := s.chunks.take s.curChunk ++
      (s.chunks.drop s.curChunk).takeWhile fun c => decide (c.bytes ≠ [])
    short := false }

/-- The chunks from the first empty one on. -/
def hidden (s : Codestream) : List Chunk :=
  (s.chunks.drop s.curChunk).dropWhile fun c => decide (c.bytes ≠ [])

theorem solid_extend_hidden (unshort : s.short = false) : s.solid.extend s.hidden = s := by
  have chunks : s.solid.chunks ++ s.hidden = s.chunks := by
    simp only [solid, hidden, List.append_assoc, List.takeWhile_append_dropWhile,
      List.take_append_drop]
  rw [extend, chunks]
  simp only [solid, ← unshort]

theorem hidden_head {c : Chunk} (first : s.hidden[0]? = some c) : c.bytes = [] := by
  unfold hidden at first
  rw [← List.head?_eq_getElem?] at first
  have stopped := List.head?_dropWhile_not (fun c : Chunk => decide (c.bytes ≠ []))
    (s.chunks.drop s.curChunk)
  rw [first] at stopped
  simpa using stopped

theorem solid_whole (here : s.missing = false) : s.solid.Whole := by
  unfold missing at here
  split at here
  · cases here
  next c there =>
    obtain ⟨bound, element⟩ := List.getElem?_eq_some_iff.mp there
    have on : s.curOffset < c.bytes.length := Nat.lt_of_not_le (by simpa using here)
    have nonempty : c.bytes ≠ [] := List.ne_nil_of_length_pos (Nat.zero_lt_of_lt on)
    have before : (s.chunks.take s.curChunk).length = s.curChunk :=
      List.length_take_of_le (Nat.le_of_lt bound)
    -- The reader stands on a byte, so its chunk is in the solid part.
    have inside : s.solid.chunks[s.curChunk]? = some c := by
      simp only [solid]
      rw [List.getElem?_append_right (Nat.le_of_eq before), before, Nat.sub_self,
        List.drop_eq_getElem_cons bound, element,
        List.takeWhile_cons_of_pos (by simpa using nonempty), List.getElem?_cons_zero]
    have lt := (List.getElem?_eq_some_iff.mp inside).1
    refine ⟨?_, Nat.le_of_lt lt, ?_, fun ended => absurd ended (Nat.ne_of_lt lt), rfl⟩
    · intro d mem
      change d ∈ List.drop s.curChunk (s.chunks.take s.curChunk ++ _) at mem
      rw [List.drop_append_of_le_length (Nat.le_of_eq before.symm),
        List.drop_eq_nil_of_le (Nat.le_of_eq before), List.nil_append] at mem
      simpa using List.all_eq_true.mp List.all_takeWhile d mem
    · intro d there
      cases inside.symm.trans there
      exact on

/-- A chain that goes on with an empty chunk misses a byte where the solid part ends. -/
theorem Whole.missing_extend (whole : s.Whole) {D : List Chunk}
    (head : ∀ c, D[0]? = some c → c.bytes = []) :
    (s.extend D).missing = decide (s.remaining = 0) := by
  rcases Nat.lt_or_eq_of_le whole.bound with inside | ended
  · rw [extend_missing D inside, whole.missing_eq]
  · have none_left := remaining_of_none (List.getElem?_eq_none_iff.mpr (Nat.le_of_eq ended.symm))
    have next : (s.extend D).chunks[s.curChunk]? = D[0]? := by
      rw [show (s.extend D).chunks = s.chunks ++ D from rfl,
        List.getElem?_append_right (Nat.le_of_eq ended.symm), ended, Nat.sub_self]
    have start : (s.extend D).curOffset = 0 := whole.ended ended
    rw [none_left, missing, extend_curChunk, next, start]
    cases first : D[0]? with
    | none => rfl
    | some c => simp [head c first]

/-- A header that stays in the solid part is read alike on the whole chain. -/
theorem Whole.run_hidden {α : Type} (p : BitProgram α) (whole : s.Whole)
    {D : List Chunk} (head : ∀ c, D[0]? = some c → c.bytes = [])
    (present : (p.run bitSource s).2.short = false ∨
      (p.run bitSource (s.extend D)).2.short = false) :
    p.run bitSource (s.extend D) = ((p.run bitSource s).1, (p.run bitSource s).2.extend D) ∧
      (p.run bitSource s).2.Whole := by
  refine whole.run p D (fun b => b.short = false) (fun _ => unshort_of_getBit) ?_ present
  intro a whole unshort empty
  rw [short_getBit, whole.missing_extend head] at unshort
  simp [empty] at unshort
  omega

end Codestream

end RtpDecoder.Parser
