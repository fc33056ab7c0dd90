import RtpDecoder.Parser.ParseBound
import RtpDecoder.Parser.Remaining

/-!
# Precincts made from bytes that are not there

A precinct that `parse` or `flush` reports has all its bytes exactly when its packet is
complete: the header ends inside the chain and the announced bodies fit behind it. The
two functions do not check this, so a frame that is cut off can be reported as a success.
-/

namespace RtpDecoder.Parser

variable {s : Codestream}

/-! ### Packets -/

namespace Prec

/-- The code-block bytes that a packet header announces. -/
def bodyLength (prec : Prec) : Nat := (prec.blockOrder.map fun cell => (prec.block cell).length).sum

theorem withBody_length (blk : Blk) (data : Option (List UInt8)) : (withBody blk data).length = blk.length := by
  cases data with
  | none => rfl
  | some bytes =>
    simp only [withBody]
    split <;> rfl

theorem block_setBlock_withBody (prec : Prec) (cell other : Nat × Nat) (data : Option (List UInt8)) :
    ((prec.setBlock cell (withBody (prec.block cell) data)).block other).length =
      (prec.block other).length := by
  obtain ⟨b, i⟩ := cell
  obtain ⟨b', i'⟩ := other
  -- At most the block itself is replaced, by one of the same length.
  have inner : ∀ blks : List Blk,
      ((blks.set i (withBody (blks.getD i default) data)).getD i' default).length =
        (blks.getD i' default).length := by
    intro blks
    by_cases hit : i = i' ∧ i < blks.length
    · obtain ⟨rfl, inside⟩ := hit
      simp [List.getD, inside, withBody_length]
    · simp only [List.getD, List.getElem?_set]
      split
      next same =>
        rw [if_neg (fun inside => hit ⟨same, inside⟩), List.getElem?_eq_none (by omega)]
      · rfl
  simp only [block, band, setBlock, setBand]
  by_cases hit : b = b' ∧ b < prec.pband.length
  · obtain ⟨rfl, inside⟩ := hit
    have stored (x : Pband) : (prec.pband.set b x).getD b default = x := by
      simp [List.getD, inside]
    rw [stored]
    exact inner _
  · have kept (x : Pband) : (prec.pband.set b x).getD b' default = prec.pband.getD b' default := by
      simp only [List.getD, List.getElem?_set]
      split
      next same =>
        subst same
        rw [if_neg (fun inside => hit ⟨rfl, inside⟩), List.getElem?_eq_none (by omega)]
      · rfl
    rw [kept]

theorem readBodies_placed (cells : List (Nat × Nat)) (prec : Prec)
    (placed : s.Placed) :
    (readBodies cells prec s).2.short =
      (s.short || decide (s.remaining < (cells.map fun cell => (prec.block cell).length).sum)) := by
  induction cells generalizing prec s with
  | nil => simp [readBodies]
  | cons cell rest ih =>
    obtain ⟨next, left, short⟩ := placed.takeContiguous (prec.block cell).length
    simp only [readBodies]
    rw [ih _ next]
    simp only [block_setBlock_withBody, short, left, List.map_cons, List.sum_cons, Bool.or_assoc,
      ← Bool.decide_or]
    congr 1
    exact decide_eq_decide.mpr (by omega)

theorem readBodies_bits (cells : List (Nat × Nat)) (prec : Prec) (s : Codestream) :
    (readBodies cells prec s).2.bits = s.bits := by
  induction cells generalizing prec s with
  | nil => rfl
  | cons cell rest ih =>
    simp only [readBodies]
    rw [ih, Codestream.takeContiguous_bits]

theorem unshort_of_readBodies {cells : List (Nat × Nat)} {prec : Prec}
    (unshort : (readBodies cells prec s).2.short = false) : s.short = false := by
  induction cells generalizing prec s with
  | nil => exact unshort
  | cons cell rest ih => exact Codestream.unshort_of_takeContiguous (ih unshort)

end Prec

/-- The bytes that a packet asks for are there. The reader stands on a byte; with one zero
byte in place of what follows the solid part of the chain, the header ends before it; and
the announced bodies fit into the chain. -/
def Complete (s : Codestream) (prec : Prec) (cbs : Nat) : Prop :=
  let r := (packetBits cbs prec).run Codestream.bitSource s.solid.pad
  s.missing = false ∧
    match r.1 with
    | none => 0 < r.2.packetheaderFlushBits.remaining
    | some (false, _) => 0 < r.2.remaining
    | some (true, after) =>
      0 < r.2.packetheaderFlushBits.remaining ∧
        after.bodyLength < r.2.packetheaderFlushBits.remaining + chainLength s.hidden

namespace Codestream

private theorem unshort_of_flush (unshort : s.packetheaderFlushBits.short = false) : s.short = false := by
  rw [short_packetheaderFlushBits] at unshort
  exact (Bool.or_eq_false_iff.mp unshort).1

private theorem flush_remaining_pos (left : 0 < s.packetheaderFlushBits.remaining) : 0 < s.remaining := by
  rw [remaining_packetheaderFlushBits] at left
  split at left <;> omega

/-- The stuffed byte after a header: it is missing on the chain exactly when it is the padding
byte on the padded chain. -/
private theorem Whole.flush (whole : s.Whole) {D : List Chunk}
    (head : ∀ c, D[0]? = some c → c.bytes = []) :
    ((s.extend D).packetheaderFlushBits.short = false ↔ 0 < s.pad.packetheaderFlushBits.remaining) ∧
      (0 < s.pad.packetheaderFlushBits.remaining →
        (s.extend D).packetheaderFlushBits.remaining + 1 =
          s.pad.packetheaderFlushBits.remaining + chainLength D) ∧
      (s.extend D).packetheaderFlushBits.Placed := by
  have unshort : (s.extend D).short = false := whole.unshort
  rw [short_packetheaderFlushBits, whole.missing_extend head, remaining_packetheaderFlushBits,
    remaining_packetheaderFlushBits, whole.remaining_pad, whole.remaining_extend, unshort]
  by_cases stuffed : s.tmp = 0xFF
  · simp only [pad, extend_tmp, stuffed, if_true, decide_true, Bool.true_and, Bool.false_or,
      decide_eq_false_iff_not]
    refine ⟨by omega, by omega, ?_⟩
    simp only [packetheaderFlushBits, extend_tmp, stuffed, if_true]
    exact fun c here => advance_placed (s.extend D) 1 c here
  · simp only [pad, extend_tmp, stuffed, if_false, decide_false, Bool.false_and, Bool.or_false,
      true_iff]
    refine ⟨by omega, by omega, ?_⟩
    simp only [packetheaderFlushBits, extend_tmp, stuffed, if_false]
    intro c here
    change (s.chunks ++ D)[s.curChunk]? = some c at here
    change s.curOffset ≤ _
    rcases Nat.lt_or_eq_of_le whole.bound with inside | ended
    · rw [List.getElem?_append_left inside] at here
      exact Nat.le_of_lt (whole.on c here)
    · rw [whole.ended ended]
      exact Nat.zero_le _

end Codestream

theorem readPacket_bits {prec : Prec} {cbs : Nat}
    (went : (readPacket s prec cbs).1 = true) : (readPacket s prec cbs).2.2.bits = 0 := by
  unfold readPacket at went ⊢
  dsimp only at went ⊢
  split at went
  · rfl
  · cases went
  · exact Prec.readBodies_bits _ _ _

private theorem header_of_readPacket {prec : Prec} {cbs : Nat}
    (unshort : (readPacket s prec cbs).2.2.short = false) :
    ((packetBits cbs prec).run Codestream.bitSource s).2.short = false := by
  unfold readPacket at unshort
  dsimp only at unshort
  split at unshort
  · exact Codestream.unshort_of_flush unshort
  · exact unshort
  · exact Codestream.unshort_of_flush (Prec.unshort_of_readBodies unshort)

private theorem header_of_complete {prec : Prec} {cbs : Nat}
    (complete : Complete s prec cbs) :
    0 < ((packetBits cbs prec).run Codestream.bitSource s.solid.pad).2.remaining := by
  obtain ⟨_, complete⟩ := complete
  split at complete
  · exact Codestream.flush_remaining_pos complete
  · exact complete
  · exact Codestream.flush_remaining_pos complete.1

private theorem first_byte {prec : Prec} {cbs : Nat} (aligned : s.bits = 0)
    (unshort : ((packetBits cbs prec).run Codestream.bitSource s).2.short = false) :
    s.missing = false := by
  have shape : packetBits cbs prec = BitProgram.getBit >>= fun b =>
      if b then do pure (some (← Prec.parseBlocks cbs prec.blockOrder prec)) else pure none := rfl
  rw [shape, BitProgram.run_bind] at unshort
  have first : s.getBit.2.short = false :=
    BitProgram.run_reach Codestream.bitSource (R := fun s t => t.short = false → s.short = false)
      (fun _ unshort => unshort) (fun _ _ _ first second unshort => first (second unshort))
      (fun _ => Codestream.unshort_of_getBit) _ _ unshort
  rw [Codestream.short_getBit, aligned] at first
  simpa using (Bool.or_eq_false_iff.mp first).2

/-- A packet read uses bytes that are not in the chain exactly when it is not complete. -/
theorem readPacket_unshort_iff (s : Codestream) (prec : Prec) (cbs : Nat) (aligned : s.bits = 0)
    (unshort : s.short = false) :
    (readPacket s prec cbs).2.2.short = false ↔ Complete s prec cbs := by
  cases here : s.missing with
  | true =>
    -- Not even the first byte is there.
    constructor
    · intro h
      rw [first_byte aligned (header_of_readPacket h)] at here
      cases here
    · intro h
      rw [h.1] at here
      cases here
  | false =>
    have whole := Codestream.solid_whole here
    have chain := Codestream.solid_extend_hidden unshort
    have head : ∀ c, s.hidden[0]? = some c → c.bytes = [] := fun _ => Codestream.hidden_head
    by_cases present : ((packetBits cbs prec).run Codestream.bitSource s.solid).2.short = false
    -- The header stays in the solid part: the chain and the padded chain give the same one.
    · obtain ⟨padded, header⟩ := whole.run_pad (packetBits cbs prec) (Or.inl present)
      obtain ⟨real, _⟩ := whole.run_hidden (packetBits cbs prec) head (Or.inl present)
      rw [chain] at real
      obtain ⟨flush, left, placed⟩ := header.flush head
      unfold readPacket Complete
      dsimp only
      rw [real, padded]
      rcases ((packetBits cbs prec).run Codestream.bitSource s.solid).1 with _ | ⟨_ | _, body⟩
      · dsimp only
        rw [flush]
        exact ⟨fun h => ⟨here, h⟩, fun h => h.2⟩
      · dsimp only
        rw [header.remaining_pad]
        exact ⟨fun _ => ⟨here, Nat.succ_pos _⟩, fun _ => header.unshort⟩
      · dsimp only
        rw [Prec.readBodies_placed _ _ placed, Bool.or_eq_false_iff, decide_eq_false_iff_not,
          Nat.not_lt, flush]
        constructor
        · rintro ⟨stuffed, fits⟩
          refine ⟨here, stuffed, ?_⟩
          rw [← left stuffed]
          exact Nat.lt_succ_of_le fits
        · rintro ⟨_, stuffed, fits⟩
          refine ⟨stuffed, ?_⟩
          rw [← left stuffed] at fits
          exact Nat.le_of_lt_succ fits
    -- It leaves the solid part, so it is short on the chain and uses the padding byte.
    · constructor
      · intro h
        have unshort := header_of_readPacket h
        rw [← chain] at unshort
        obtain ⟨_, header⟩ := whole.run_hidden (packetBits cbs prec) head (Or.inr unshort)
        exact absurd header.unshort present
      · intro h
        obtain ⟨_, header⟩ := whole.run_pad (packetBits cbs prec) (Or.inr (header_of_complete h))
        exact absurd header.unshort present

/-! ### Reported precincts -/

/-- Every byte that the packet of this precinct used was in the chain. -/
def Report.present (rep : Report) : Bool :=
  !(readPacket { rep.start with short := false } rep.prior rep.cbs).2.2.short

/-- The packet of this precinct is complete. -/
def Report.Complete (rep : Report) : Prop := Parser.Complete rep.start rep.prior rep.cbs

namespace Walk

/-- Walks between two packets, with every precinct reported so far read from such a place. -/
structure Aligned (w : Walk) : Prop where
  bits : w.cs.bits = 0
  reports : ∀ rep ∈ w.reports, rep.start.bits = 0

private theorem Aligned.turn {w w' : Walk} (aligned : w.Aligned) (turn : w.Turn w') : w'.Aligned := by
  cases turn with
  | reported next cs ok =>
    refine ⟨by rw [cs]; exact readPacket_bits ok, ?_⟩
    intro rep mem
    rcases List.mem_cons.mp mem with rfl | old
    · exact aligned.bits
    · exact aligned.reports rep old
  | recovered next cs reports ok =>
    refine ⟨?_, by rw [tryRecover_reports, reports]; exact aligned.reports⟩
    -- The reset that comes with a recovery drops the pending bits.
    obtain ⟨sig, rest, newCrpIdx, _, _, result⟩ := tryRecover_spec ok
    rw [result]
    rfl

private theorem Aligned.parseLoop (fuel : Nat) {w w' : Walk} {ok : Bool} (aligned : w.Aligned)
    (ended : w.parseLoop fuel = some (ok, w')) :
    ∀ rep ∈ w'.reports, rep.start.bits = 0 := by
  induction fuel generalizing w with
  | zero => cases ended
  | succ fuel ih =>
    simp only [Walk.parseLoop] at ended
    split at ended
    · cases ended
      exact aligned.reports
    · split at ended
      · cases ended
      · split at ended
        · cases ended
          rw [parseFailed, tryRecover_reports]
          exact aligned.reports
        next next body => exact ih (aligned.turn (parseBody_turn body)) ended

private theorem Aligned.flushLoop (fuel : Nat) {w : Walk} (aligned : w.Aligned) :
    ∀ rep ∈ (w.flushLoop fuel).2.reports, rep.start.bits = 0 := by
  induction fuel generalizing w with
  | zero => exact aligned.reports
  | succ fuel ih =>
    simp only [Walk.flushLoop]
    split
    · exact aligned.reports
    · split
      · rw [tryRecover_reports]
        exact aligned.reports
      next next body => exact ih (aligned.turn (flushBody_turn body))

end Walk

private theorem Report.present_iff {rep : Report} (aligned : rep.start.bits = 0) :
    rep.present = true ↔ rep.Complete := by
  rw [Report.present, Bool.not_eq_true']
  exact readPacket_unshort_iff { rep.start with short := false } rep.prior rep.cbs aligned rfl

/-- For each precinct that `flush` or `parse` reports, when called between two packets: the
bytes it used were in the chain exactly when its packet is complete. And `take_contiguous`
keeps its promise for exactly those lengths that the end of the chain does not cut off. -/
theorem reported_present_iff (w : Walk) (aligned : w.cs.bits = 0) (fresh : w.reports = []) :
    (∀ rep ∈ w.flush.2.reports, rep.present = true ↔ rep.Complete) ∧
    (∀ ok w', w.parse = some (ok, w') → ∀ rep ∈ w'.reports, rep.present = true ↔ rep.Complete) ∧
    (∀ len, ((w.cs.takeContiguous len).1.isSome = true → len ≤ w.cs.remaining) ↔
      ¬ (w.cs.curChunk < w.cs.chunks.length ∧ w.cs.remaining < len)) := by
  have start : w.Aligned := ⟨aligned, by simp [fresh]⟩
  refine ⟨?_, ?_, ?_⟩
  · intro rep mem
    exact Report.present_iff (Walk.Aligned.flushLoop _ start rep mem)
  · intro ok w' ended rep mem
    exact Report.present_iff (Walk.Aligned.parseLoop _ start ended rep mem)
  · intro len
    rw [Codestream.takeContiguous_isSome, decide_eq_true_iff]
    omega

/-- A packet of seven bytes, and one whose body is cut off. -/
def cutWalk : Walk :=
  { smallWalk with
    cs := smallWalk.cs.appendChunk { bytes := [0xDC, 0x8C, 0x20, 1, 2, 3, 9, 0xDC, 0x8C, 0x20, 1, 2] } }

/-- The first packet is complete, which the second and the third are not. -/
theorem reported_present_iff_small :
    cutWalk.flush.2.reports.map Report.present = [false, false, true] ∧
      ∀ rep ∈ cutWalk.flush.2.reports, rep.present = true ↔ rep.Complete :=
  ⟨by decide +kernel, (reported_present_iff cutWalk rfl rfl).1⟩

/-- The three precincts of the small stream are reported although no byte of its body is
in the chain, and a pointer is given for two bytes of which one is there. -/
theorem flush_fabricates :
    smallWalk.flush.1 = true ∧
      smallWalk.flush.2.reports.map Report.present = [false, false, false] ∧
      ((Codestream.appendChunk {} { bytes := [1] }).takeContiguous 2).1 = some [1, 0] := by
  decide +kernel

end RtpDecoder.Parser
