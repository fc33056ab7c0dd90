import RtpDecoder.Parser.Packet

/-!
# Reading a growing chain

The reader only moves forward, and what it reads before the end of the chain does not
change when further chunks are appended. Both facts are proved for each operation and
carried to whole packets by the rules for bit programs.
-/

namespace RtpDecoder.Parser

variable {s t u : Codestream}

@[simp] theorem chainLength_nil : chainLength [] = 0 := rfl

@[simp] theorem chainLength_cons (c : Chunk) (rest : List Chunk) :
    chainLength (c :: rest) = c.bytes.length + chainLength rest := rfl

@[simp] theorem chainLength_append (xs ys : List Chunk) :
    chainLength (xs ++ ys) = chainLength xs + chainLength ys := by
  simp [chainLength]

/-! ### The hop loop -/

theorem hop_cur_ge (L : List Chunk) (cur off consumed : Nat) : cur ≤ (hop L cur off consumed).1 := by
  induction L generalizing cur off consumed with
  | nil => exact Nat.le_refl _
  | cons c rest ih =>
    simp only [hop]
    split
    · exact Nat.le_of_succ_le (ih _ _ _)
    · exact Nat.le_refl _

theorem hop_pos (L : List Chunk) (cur off consumed : Nat) :
    (hop L cur off consumed).2.2 + (hop L cur off consumed).2.1 = consumed + off := by
  induction L generalizing cur off consumed with
  | nil => rfl
  | cons c rest ih =>
    simp only [hop]
    split
    next beyond =>
      rw [ih]
      omega
    · rfl

/-- A hop that ends inside the first chunks does not see the ones behind them. -/
theorem hop_append (L D : List Chunk) (cur off consumed : Nat)
    (inside : (hop (L ++ D) cur off consumed).1 < cur + L.length) :
    hop L cur off consumed = hop (L ++ D) cur off consumed := by
  induction L generalizing cur off consumed with
  | nil =>
    -- Before `D` there is nothing left to stop in.
    have forward := hop_cur_ge ([] ++ D) cur off consumed
    exact absurd inside (by simpa using forward)
  | cons c rest ih =>
    simp only [List.cons_append, hop] at inside ⊢
    split
    next beyond =>
      rw [if_pos beyond] at inside
      exact ih _ _ _ (by simp only [List.length_cons] at inside; omega)
    · rfl

theorem hop_counted (L : List Chunk) (cur off consumed : Nat) :
    (hop L cur off consumed).1 ≤ cur + L.length ∧
      (hop L cur off consumed).2.2 =
        consumed + chainLength (L.take ((hop L cur off consumed).1 - cur)) := by
  induction L generalizing cur off consumed with
  | nil => simp [hop]
  | cons c rest ih =>
    simp only [hop]
    split
    -- One chunk is left behind and counted; the rest of the hop starts after it.
    · obtain ⟨bound, count⟩ := ih (cur + 1) (off - c.bytes.length) (consumed + c.bytes.length)
      have forward := hop_cur_ge rest (cur + 1) (off - c.bytes.length) (consumed + c.bytes.length)
      refine ⟨by simp only [List.length_cons]; omega, ?_⟩
      obtain ⟨k, distance⟩ := Nat.exists_eq_add_of_le forward
      rw [count, distance, show cur + 1 + k - (cur + 1) = k by omega,
        show cur + 1 + k - cur = k + 1 by omega, List.take_succ_cons, chainLength_cons]
      omega
    · simp

namespace Codestream

/-! ### Moving forward -/

/-- `consumed_before_cur_chunk_` is what it is called. -/
def Counted (s : Codestream) : Prop :=
  s.curChunk ≤ s.chunks.length ∧ s.consumedBeforeCurChunk = chainLength (s.chunks.take s.curChunk)

/-- What every reading operation does to the reader's place. -/
structure Forward (s t : Codestream) : Prop where
  chunks : t.chunks = s.chunks
  curChunk : s.curChunk ≤ t.curChunk
  pos : s.pos ≤ t.pos
  counted : Counted s → Counted t

theorem Forward.refl (s : Codestream) : Forward s s :=
  ⟨rfl, Nat.le_refl _, Nat.le_refl _, fun h => h⟩

theorem Forward.trans (first : Forward s t) (second : Forward t u) : Forward s u where
  chunks := second.chunks.trans first.chunks
  curChunk := Nat.le_trans first.curChunk second.curChunk
  pos := Nat.le_trans first.pos second.pos
  counted := fun h => second.counted (first.counted h)

/-- Changes outside the reader's place do not count. -/
theorem Forward.of_place (forward : Forward s t) (chunks : u.chunks = t.chunks)
    (curChunk : u.curChunk = t.curChunk) (curOffset : u.curOffset = t.curOffset)
    (consumed : u.consumedBeforeCurChunk = t.consumedBeforeCurChunk) : Forward s u where
  chunks := chunks.trans forward.chunks
  curChunk := by rw [curChunk]; exact forward.curChunk
  pos := by
    have same : u.pos = t.pos := by simp only [Codestream.pos, consumed, curOffset]
    rw [same]
    exact forward.pos
  counted := by
    intro h
    have counted := forward.counted h
    unfold Counted at counted ⊢
    rwa [chunks, curChunk, consumed]

theorem pos_advance (s : Codestream) (n : Nat) : (s.advance n).pos = s.pos + n := by
  have place := hop_pos (s.chunks.drop s.curChunk) s.curChunk (s.curOffset + n)
    s.consumedBeforeCurChunk
  simp only [advance, pos]
  omega

private theorem take_add_drop (chunks : List Chunk) (i j : Nat) :
    chainLength (chunks.take i) + chainLength ((chunks.drop i).take j) =
      chainLength (chunks.take (i + j)) := by
  rw [List.take_add, chainLength_append]

theorem advance_forward (s : Codestream) (n : Nat) : Forward s (s.advance n) where
  chunks := rfl
  curChunk := hop_cur_ge _ _ _ _
  pos := by rw [pos_advance]; exact Nat.le_add_right _ _
  counted := by
    rintro ⟨bound, count⟩
    obtain ⟨last, consumed⟩ := hop_counted (s.chunks.drop s.curChunk) s.curChunk (s.curOffset + n)
      s.consumedBeforeCurChunk
    have forward := hop_cur_ge (s.chunks.drop s.curChunk) s.curChunk (s.curOffset + n)
      s.consumedBeforeCurChunk
    rw [List.length_drop] at last
    refine ⟨by simp only [advance]; omega, ?_⟩
    -- The chunks behind the new place are those behind the old one and those hopped over.
    have total := take_add_drop s.chunks s.curChunk ((s.advance n).curChunk - s.curChunk)
    rw [Nat.add_sub_of_le (show s.curChunk ≤ (s.advance n).curChunk from forward), ← count] at total
    exact consumed.trans total

theorem getByte_forward (s : Codestream) : Forward s s.getByte.2 := by
  unfold getByte
  split
  · exact (Forward.refl s).of_place rfl rfl rfl rfl
  next c here =>
    obtain ⟨bound, element⟩ := List.getElem?_eq_some_iff.mp here
    dsimp only
    split
    next full =>
      refine ⟨rfl, Nat.le_succ _, by simp only [pos]; omega, ?_⟩
      rintro ⟨_, count⟩
      refine ⟨bound, ?_⟩
      rw [List.take_add_one, here, chainLength_append, ← count]
      simp
    · exact ⟨rfl, Nat.le_refl _, by simp only [pos]; omega, fun h => h⟩

theorem getBit_forward (s : Codestream) : Forward s s.getBit.2 := by
  unfold getBit
  dsimp only
  split
  · exact (getByte_forward s).of_place rfl rfl rfl rfl
  · exact (Forward.refl s).of_place rfl rfl rfl rfl

theorem run_forward {α : Type} (p : BitProgram α) (s : Codestream) : Forward s (p.run bitSource s).2 :=
  BitProgram.run_reach bitSource Forward.refl (fun _ _ _ => Forward.trans) getBit_forward p s

theorem packetheaderFlushBits_forward (s : Codestream) : Forward s s.packetheaderFlushBits := by
  unfold packetheaderFlushBits
  dsimp only
  split
  · exact (advance_forward s 1).of_place rfl rfl rfl rfl
  · exact (Forward.refl s).of_place rfl rfl rfl rfl

theorem copyLoop_forward (fuel : Nat) (s : Codestream) (left : Nat) (copied : List UInt8) :
    Forward s (copyLoop fuel s left copied).2 := by
  induction fuel generalizing s left copied with
  | zero => exact Forward.refl s
  | succ fuel ih =>
    simp only [copyLoop]
    split
    · exact Forward.refl s
    · split
      · exact Forward.refl s
      · exact (advance_forward s _).trans (ih _ _ _)

theorem takeContiguous_forward (s : Codestream) (len : Nat) : Forward s (s.takeContiguous len).2 := by
  unfold takeContiguous
  split
  · exact (Forward.refl s).of_place rfl rfl rfl rfl
  · split
    · exact Forward.refl s
    · split
      · exact advance_forward s len
      · exact (copyLoop_forward _ s len []).of_place rfl rfl rfl rfl

end Codestream

theorem Prec.readBodies_forward (cells : List (Nat × Nat)) (prec : Prec) (s : Codestream) :
    s.Forward (readBodies cells prec s).2 := by
  induction cells generalizing prec s with
  | nil => exact Codestream.Forward.refl s
  | cons cell rest ih =>
    simp only [readBodies]
    exact (s.takeContiguous_forward _).trans (ih _ _)

theorem readPacket_forward (s : Codestream) (prec : Prec) (cbs : Nat) : s.Forward (readPacket s prec cbs).2.2 := by
  have bits := Codestream.run_forward (packetBits cbs prec) s
  unfold readPacket
  dsimp only
  split
  · exact bits.trans (Codestream.packetheaderFlushBits_forward _)
  · exact bits
  · exact (bits.trans (Codestream.packetheaderFlushBits_forward _)).trans
      (Prec.readBodies_forward _ _ _)

/-! ### Chunks behind the reader's place -/

namespace Codestream

def extend (D : List Chunk) (s : Codestream) : Codestream := { s with chunks := s.chunks ++ D }

@[simp] theorem extend_curChunk (D : List Chunk) (s : Codestream) : (s.extend D).curChunk = s.curChunk := rfl

@[simp] theorem extend_curOffset (D : List Chunk) (s : Codestream) : (s.extend D).curOffset = s.curOffset := rfl

@[simp] theorem extend_tmp (D : List Chunk) (s : Codestream) : (s.extend D).tmp = s.tmp := rfl

@[simp] theorem extend_bits (D : List Chunk) (s : Codestream) : (s.extend D).bits = s.bits := rfl

@[simp] theorem extend_pos (D : List Chunk) (s : Codestream) : (s.extend D).pos = s.pos := rfl

private theorem extend_lookup (D : List Chunk)
    (inside : s.curChunk < s.chunks.length) :
    (s.extend D).chunks[s.curChunk]? = s.chunks[s.curChunk]? :=
  List.getElem?_append_left inside

theorem extend_missing (D : List Chunk)
    (inside : s.curChunk < s.chunks.length) : (s.extend D).missing = s.missing := by
  unfold missing
  rw [extend_curChunk, extend_lookup D inside]
  rfl

theorem extend_getByte (D : List Chunk)
    (inside : s.curChunk < s.chunks.length) :
    (s.extend D).getByte = (s.getByte.1, s.getByte.2.extend D) := by
  have present := List.getElem?_eq_getElem inside
  unfold getByte
  rw [extend_curChunk, extend_lookup D inside, present, extend_missing D inside]
  simp only [extend_curOffset]
  by_cases full : s.curOffset + 1 = s.chunks[s.curChunk].bytes.length
  · simp only [full, if_true]
    rfl
  · simp only [full, if_false]
    rfl

theorem extend_getBit (D : List Chunk)
    (inside : s.curChunk < s.chunks.length) :
    (s.extend D).getBit = (s.getBit.1, s.getBit.2.extend D) := by
  have load : (s.extend D).loadByte = s.loadByte.extend D := by
    unfold loadByte
    rw [extend_getByte D inside]
    rfl
  simp only [getBit, extend_bits]
  by_cases empty : s.bits = 0
  · simp only [empty, if_true, load]
    rfl
  · simp only [empty, if_false]
    rfl

private theorem extend_advance (D : List Chunk) {n : Nat}
    (inside : ((s.extend D).advance n).curChunk < s.chunks.length) :
    (s.extend D).advance n = (s.advance n).extend D := by
  have before : s.curChunk < s.chunks.length :=
    Nat.lt_of_le_of_lt (advance_forward (s.extend D) n).curChunk inside
  have cut : (s.extend D).chunks.drop s.curChunk = s.chunks.drop s.curChunk ++ D :=
    List.drop_append_of_le_length (Nat.le_of_lt before)
  have same : hop (s.chunks.drop s.curChunk) s.curChunk (s.curOffset + n) s.consumedBeforeCurChunk =
      hop ((s.extend D).chunks.drop s.curChunk) s.curChunk (s.curOffset + n)
        s.consumedBeforeCurChunk := by
    rw [cut]
    apply hop_append
    rw [← cut, List.length_drop, Nat.add_sub_of_le (Nat.le_of_lt before)]
    exact inside
  simp only [advance]
  rw [same]
  rfl

private theorem extend_packetheaderFlushBits (D : List Chunk)
    (inside : (s.extend D).packetheaderFlushBits.curChunk < s.chunks.length) :
    (s.extend D).packetheaderFlushBits = s.packetheaderFlushBits.extend D := by
  have before : s.curChunk < s.chunks.length :=
    Nat.lt_of_le_of_lt (packetheaderFlushBits_forward (s.extend D)).curChunk inside
  simp only [packetheaderFlushBits, extend_tmp] at inside ⊢
  by_cases stuffed : s.tmp = 0xFF
  · simp only [stuffed, if_true] at inside ⊢
    rw [extend_advance D inside, extend_missing D before]
    rfl
  · simp only [stuffed, if_false]
    rfl

theorem copyLoop_none_left (fuel : Nat) (s : Codestream) (copied : List UInt8) :
    copyLoop fuel s 0 copied = (copied, s) := by
  cases fuel <;> rfl

/-- Copying less than what is left uses up the current chunk. -/
theorem advance_leaves_chunk {c : Chunk} {n : Nat}
    (here : s.chunks[s.curChunk]? = some c) (all : c.bytes.length ≤ s.curOffset + n) :
    s.curChunk < (s.advance n).curChunk := by
  simp only [advance, drop_of_getElem? here, hop, if_pos all]
  exact hop_cur_ge _ _ _ _

private theorem extend_copyLoop (D : List Chunk) (fuel fuel' : Nat) (s : Codestream) (left : Nat)
    (copied : List UInt8) (enough : s.chunks.length - s.curChunk ≤ fuel)
    (enough' : (s.extend D).chunks.length - s.curChunk ≤ fuel')
    (inside : (copyLoop fuel' (s.extend D) left copied).2.curChunk < s.chunks.length) :
    copyLoop fuel' (s.extend D) left copied =
      ((copyLoop fuel s left copied).1, (copyLoop fuel s left copied).2.extend D) := by
  induction fuel' generalizing fuel s left copied with
  | zero =>
    -- A reader inside the chain has fuel left.
    have longer : s.chunks.length ≤ (s.extend D).chunks.length := by simp [extend]
    have current : s.curChunk < s.chunks.length := inside
    omega
  | succ fuel' ih =>
    have before : s.curChunk < s.chunks.length :=
      Nat.lt_of_le_of_lt (copyLoop_forward (fuel' + 1) (s.extend D) left copied).curChunk inside
    obtain ⟨fuel, rfl⟩ : ∃ f, fuel = f + 1 := ⟨fuel - 1, by omega⟩
    have present := List.getElem?_eq_getElem before
    simp only [copyLoop, extend_curChunk, extend_lookup D before, present] at inside ⊢
    by_cases finished : left = 0
    · rw [if_pos finished, if_pos finished]
    · rw [if_neg finished] at inside ⊢
      rw [if_neg finished]
      rw [extend_curOffset] at inside ⊢
      generalize available : (if s.curOffset ≤ s.chunks[s.curChunk].bytes.length then
        s.chunks[s.curChunk].bytes.length - s.curOffset
        else 2 ^ 64 + s.chunks[s.curChunk].bytes.length - s.curOffset) = avail at inside ⊢
      have moved := extend_advance D
        (Nat.lt_of_le_of_lt (copyLoop_forward fuel' _ _ _).curChunk inside)
      rw [moved] at inside ⊢
      by_cases last : left ≤ avail
      · have none_left : left - min left avail = 0 := by omega
        rw [none_left, copyLoop_none_left, copyLoop_none_left]
      · -- More is left than this chunk has, so the reader goes to a later chunk.
        have progress : s.curChunk < (s.advance (min left avail)).curChunk := by
          apply advance_leaves_chunk present
          split at available <;> omega
        refine ih fuel _ _ _ ?_ ?_ inside
        · rw [advance_chunks]
          omega
        · change (s.extend D).chunks.length - (s.advance (min left avail)).curChunk ≤ fuel'
          omega

private theorem extend_takeContiguous (D : List Chunk) {len : Nat}
    (inside : ((s.extend D).takeContiguous len).2.curChunk < s.chunks.length) :
    (s.extend D).takeContiguous len =
      ((s.takeContiguous len).1, (s.takeContiguous len).2.extend D) := by
  have before : s.curChunk < s.chunks.length :=
    Nat.lt_of_le_of_lt (takeContiguous_forward (s.extend D) len).curChunk inside
  have present := List.getElem?_eq_getElem before
  unfold takeContiguous at inside ⊢
  rw [extend_curChunk, extend_lookup D before, present] at inside ⊢
  simp only [extend_curOffset] at inside ⊢
  by_cases nothing : len = 0
  · simp only [nothing, if_true]
  · simp only [nothing, if_false] at inside ⊢
    by_cases fits : s.curOffset + len ≤ s.chunks[s.curChunk].bytes.length
    · simp only [fits, if_true] at inside ⊢
      rw [extend_advance D inside]
    · simp only [fits, if_false] at inside ⊢
      rw [extend_copyLoop D (s.chunks.length - s.curChunk) _ s len []
        (Nat.le_refl _) (Nat.le_refl _) inside]
      rfl

/-- A bit program that stays inside the chain does the same on a longer chain. -/
private theorem extend_run {α : Type} (D : List Chunk) (p : BitProgram α)
    (inside : (p.run bitSource (s.extend D)).2.curChunk < s.chunks.length) :
    p.run bitSource (s.extend D) = ((p.run bitSource s).1, (p.run bitSource s).2.extend D) := by
  -- The readers differ by `D` alone, as long as the one on the longer chain is before `D`.
  obtain ⟨value, _, place⟩ := BitProgram.run_local bitSource bitSource
    (fun a b => a.chunks.length = s.chunks.length ∧ b = a.extend D)
    (fun b => b.curChunk < s.chunks.length)
    (fun b after => Nat.lt_of_le_of_lt (getBit_forward b).curChunk after)
    (by
      rintro a b ⟨size, rfl⟩ after
      have before := Nat.lt_of_le_of_lt (getBit_forward (a.extend D)).curChunk after
      have step := extend_getBit D (s := a) (by rw [size]; exact before)
      refine ⟨(congrArg Prod.fst step).symm, ?_, congrArg Prod.snd step⟩
      exact (congrArg List.length (getBit_chunks a)).trans size)
    p s (s.extend D) ⟨rfl, rfl⟩ inside
  exact Prod.ext value.symm place

end Codestream

open Codestream in
private theorem Prec.extend_readBodies (D : List Chunk) (cells : List (Nat × Nat)) (prec : Prec)
    (inside : (readBodies cells prec (s.extend D)).2.curChunk < s.chunks.length) :
    readBodies cells prec (s.extend D) =
      ((readBodies cells prec s).1, (readBodies cells prec s).2.extend D) := by
  induction cells generalizing prec s with
  | nil => rfl
  | cons cell rest ih =>
    simp only [readBodies] at inside ⊢
    have taken := extend_takeContiguous D
      (Nat.lt_of_le_of_lt (readBodies_forward rest _ _).curChunk inside)
    rw [taken] at inside ⊢
    exact ih _ (by rw [takeContiguous_chunks]; exact inside)

open Codestream in
/-- A packet that ends inside the chain is read the same way when chunks follow: same
outcome, same code-blocks, same place. -/
theorem readPacket_extend (D : List Chunk) (prec : Prec) (cbs : Nat)
    (inside : (readPacket (s.extend D) prec cbs).2.2.curChunk < s.chunks.length) :
    readPacket (s.extend D) prec cbs =
      ((readPacket s prec cbs).1, (readPacket s prec cbs).2.1,
        (readPacket s prec cbs).2.2.extend D) := by
  -- No part of the packet goes back, so its header ends inside the chain as well.
  have bits_inside : ((packetBits cbs prec).run bitSource (s.extend D)).2.curChunk <
      s.chunks.length := by
    refine Nat.lt_of_le_of_lt ?_ inside
    unfold readPacket
    dsimp only
    split
    · exact (packetheaderFlushBits_forward _).curChunk
    · exact Nat.le_refl _
    · exact ((packetheaderFlushBits_forward _).trans (Prec.readBodies_forward _ _ _)).curChunk
  have bits := extend_run D (packetBits cbs prec) bits_inside
  have chunks := (run_forward (packetBits cbs prec) s).chunks
  unfold readPacket at inside ⊢
  rw [bits] at inside ⊢
  dsimp only at inside ⊢
  rw [← chunks] at inside
  cases outcome : ((packetBits cbs prec).run bitSource s).1 with
  | none =>
    rw [outcome] at inside
    rw [extend_packetheaderFlushBits D inside]
  | some result =>
    obtain ⟨went, after⟩ := result
    rw [outcome] at inside
    cases went with
    | false => rfl
    | true =>
      have flushed := extend_packetheaderFlushBits D
        (Nat.lt_of_le_of_lt (Prec.readBodies_forward _ _ _).curChunk inside)
      dsimp only at inside ⊢
      rw [flushed] at inside ⊢
      rw [Prec.extend_readBodies D _ _ (by rw [packetheaderFlushBits_chunks]; exact inside)]

end RtpDecoder.Parser
