import RtpDecoder.Parser.Walk

/-!
# Incremental parsing equals one-shot parsing

A frame body arrives in pieces, some of them with a signal that names a precinct start
in them. After each piece `parse` reads the precincts before the last signal, and
`flush` reads the rest. The precinct callbacks are those of a single `flush` over the
whole body: the reader never stands behind the last signal, and a precinct that starts
before it ends inside the bytes that have arrived.
-/

namespace RtpDecoder.Parser

/-- One packet's share of the body, with the signal it may carry. -/
structure Piece where
  chunk : Chunk
  signal : Option Signal := none

/-- What the callback's consumer sees. -/
def Report.seen (r : Report) : Crp × Prec := (r.crp, r.prec)

namespace Walk

def append (w : Walk) (c : Chunk) : Walk := { w with cs := w.cs.appendChunk c }

def announce (w : Walk) : Option Signal → Walk
  | none => w
  | some signal => { w with handler := w.handler.appendSignal signal }

/-- For each piece: append it, announce its signal, `parse`. In the end, `flush`. -/
def incremental : Walk → List Piece → Option (Bool × Walk)
  | w, [] => some w.flush
  | w, piece :: rest =>
    match ((w.append piece.chunk).announce piece.signal).parse with
    | none => none
    | some (false, w') => some (false, w')
    | some (true, w') => incremental w' rest

/-- Append everything, then `flush` once. -/
def oneShot (w : Walk) (pieces : List Piece) : Bool × Walk :=
  (pieces.foldl (fun w piece => w.append piece.chunk) w).flush

end Walk

/-- Every signal names one of the positions `starts`, inside its own piece; `base` is the
length of the chain before the first piece. -/
def Truthful (starts : List Nat) : Nat → List Piece → Prop
  | _, [] => True
  | base, piece :: rest =>
    (∀ signal, piece.signal = some signal → ∃ q ∈ starts, signal.byteOffset = BitVec.ofNat 32 q ∧
      base ≤ q ∧ q < base + piece.chunk.bytes.length) ∧
    Truthful starts (base + piece.chunk.bytes.length) rest

/-! ### The two walks side by side -/

/-- `f` reads a chain that goes on behind the chain of `w`; else they are at the same point. -/
structure Synced (D : List Chunk) (w f : Walk) : Prop where
  cs : f.cs = w.cs.extend D
  tiles : f.handler.tiles = w.handler.tiles
  markers : f.handler.markers = w.handler.markers
  seen : f.reports.map Report.seen = w.reports.map Report.seen

namespace Synced

variable {D : List Chunk} {w f : Walk}

private theorem tile (synced : Synced D w f) : f.tile = w.tile := by
  simp only [Walk.tile, TileHandler.tile, synced.tiles]

private theorem current (synced : Synced D w f) : f.current = w.current := by
  simp only [Walk.current, Walk.crpIdx, synced.tile]

private theorem packet (synced : Synced D w f) : f.packet =
    readPacket (w.cs.extend D) (w.tile.prec w.current) (w.handler.markers.coc w.current.c).cbs := by
  simp only [Walk.packet, synced.cs, synced.tile, synced.current, synced.markers]

private theorem next (synced : Synced D w f)
    (same : f.packet = (w.packet.1, w.packet.2.1, w.packet.2.2.extend D)) :
    Synced D w.advanceOne f.advanceOne where
  cs := by
    change f.packet.2.2 = w.packet.2.2.extend D
    rw [same]
  tiles := by
    simp only [Walk.advanceOne, Walk.setCrpIdx, Walk.parseOnePrecinct, TileHandler.setTile,
      Walk.tile, TileHandler.tile, Walk.crpIdx, synced.current, synced.tiles, same]
  markers := synced.markers
  seen := by
    change f.report.seen :: f.reports.map Report.seen = w.report.seen :: w.reports.map Report.seen
    rw [synced.seen]
    simp only [Report.seen, Walk.report, synced.current, same]

/-- The step of the whole body's walk is also the step on the bytes that have arrived, if
it ends among them. -/
private theorem step (synced : Synced D w f)
    (inside : f.advanceOne.cs.curChunk < w.cs.chunks.length) :
    f.packet.1 = w.packet.1 ∧ Synced D w.advanceOne f.advanceOne := by
  have ends : f.packet.2.2.curChunk < w.cs.chunks.length := inside
  rw [synced.packet] at ends
  have same := synced.packet.trans (readPacket_extend D _ _ ends)
  exact ⟨by rw [same]; rfl, synced.next same⟩

theorem append {c : Chunk} (synced : Synced (c :: D) w f) : Synced D (w.append c) f where
  cs := by
    rw [synced.cs]
    simp [Walk.append, Codestream.appendChunk, Codestream.extend]
  tiles := synced.tiles
  markers := synced.markers
  seen := synced.seen

theorem announce (synced : Synced D w f) (signal : Option Signal) : Synced D (w.announce signal) f := by
  cases signal with
  | none => exact synced
  | some signal => exact ⟨synced.cs, synced.tiles, synced.markers, synced.seen⟩

/-- With nothing left to arrive the two walks read the same chain. -/
private theorem rest (synced : Synced [] w f) (i : Nat) :
    Synced [] (w.after i) (f.after i) ∧ (w.after i).packet.1 = (f.after i).packet.1 := by
  have whole (s : Codestream) : s.extend [] = s := by simp [Codestream.extend]
  have packet {w f : Walk} (synced : Synced [] w f) :
      f.packet = (w.packet.1, w.packet.2.1, w.packet.2.2.extend []) := by
    rw [synced.packet, whole, whole]
    rfl
  induction i with
  | zero => exact ⟨synced, by rw [Walk.after_zero, Walk.after_zero, packet synced]⟩
  | succ i ih =>
    have later := ih.1.next (packet ih.1)
    rw [← Walk.after_succ, ← Walk.after_succ] at later
    exact ⟨later, by rw [packet later]⟩

end Synced

private theorem curChunk_lt_of_pos {s : Codestream} (counted : s.Counted) {C D : List Chunk}
    (chunks : s.chunks = C ++ D) (near : s.pos < chainLength C) : s.curChunk < C.length := by
  by_contra beyond
  have consumed := counted.2
  rw [chunks, List.take_append, List.take_of_length_le (Nat.le_of_not_lt beyond),
    chainLength_append] at consumed
  unfold Codestream.pos at near
  omega

/-! ### The gate -/

section Path

-- The walk of the one-shot `flush`, precinct by precinct.
variable (f : Walk) (counted : f.cs.Counted)
  (packets : ∀ i < f.crpSize - f.crpIdx, (f.after i).packet.1 = true)

/-- The last signal of the queue names the start of precinct `m`, inside the chain, and
precinct `i` is not behind it. -/
def Ahead (w : Walk) (i : Nat) : Prop :=
  ∃ signal m, w.handler.signalQueue.getLast? = some signal ∧ i ≤ m ∧ m < f.crpSize - f.crpIdx ∧
    signal.byteOffset = BitVec.ofNat 32 (f.after m).cs.pos ∧
    (f.after m).cs.pos < chainLength w.cs.chunks

private theorem pos_mono {i j : Nat} (le : i ≤ j) : (f.after i).cs.pos ≤ (f.after j).cs.pos :=
  (Walk.after_forward le).pos

include counted packets in
/-- `parse` reads precincts of the one-shot walk and stops before the last signal. -/
private theorem parseLoop_synced {D : List Chunk} (fuel : Nat) (w : Walk) (i : Nat)
    (enough : f.crpSize - f.crpIdx - i < fuel) (synced : Synced D w (f.after i))
    (ahead : Ahead f w i) :
    ∃ w' j, w.parseLoop fuel = some (true, w') ∧ Synced D w' (f.after j) ∧ Ahead f w' j ∧
      w'.cs.chunks = w.cs.chunks := by
  induction fuel generalizing w i with
  | zero => exact absurd enough (Nat.not_lt_zero _)
  | succ fuel ih =>
    simp only [Walk.parseLoop]
    by_cases closed : w.gateOpen = false
    · exact ⟨w, i, by simp [closed], synced, ahead, rfl⟩
    · obtain ⟨signal, m, last, behind, bound, offset, present⟩ := ahead
      have gate : w.gateOpen = true := by simpa using closed
      -- The reader is not at the signal, so the signal's precinct is a later one.
      have strictly : i < m := by
        refine Nat.lt_of_le_of_ne behind ?_
        rintro rfl
        simp only [Walk.gateOpen, last, offset, Codestream.getPos, decide_eq_true_eq] at gate
        rw [synced.cs, Codestream.extend_pos] at gate
        exact absurd gate (BitVec.lt_irrefl _)
      have place := Walk.after_place (w := f) (i := i) (by omega)
      have size : w.crpSize = f.crpSize := by
        rw [← place.1]
        simp only [Walk.crpSize, synced.tile]
      have index : w.crpIdx = f.crpIdx + i := by
        rw [← place.2 (by omega)]
        simp only [Walk.crpIdx, synced.tile]
      -- The step ends no later than the signal's precinct starts, so among the bytes there are.
      have inside : (f.after i).advanceOne.cs.curChunk < w.cs.chunks.length := by
        rw [← Walk.after_succ]
        have forward := Walk.after_forward (w := f) (Nat.zero_le (i + 1))
        refine curChunk_lt_of_pos (D := D) (forward.counted counted) ?_ ?_
        · rw [forward.chunks, ← (Walk.after_forward (w := f) (Nat.zero_le i)).chunks, synced.cs]
          rfl
        · exact Nat.lt_of_le_of_lt (pos_mono f strictly) present
      obtain ⟨same, stepped⟩ := synced.step inside
      have ok : w.packet.1 = true := same ▸ packets i (by omega)
      rw [← Walk.after_succ] at stepped
      have chunks : w.advanceOne.cs.chunks = w.cs.chunks := (Walk.advanceOne_forward w).chunks
      obtain ⟨w', j, returned, later, still, kept⟩ := ih w.advanceOne (i + 1) (by omega) stepped
        ⟨signal, m, last, strictly, bound, offset, by rw [chunks]; exact present⟩
      refine ⟨w', j, ?_, later, still, kept.trans chunks⟩
      have unread : ¬ w.crpSize ≤ w.crpIdx := by omega
      simp only [gate, Bool.not_true, Bool.false_eq_true, if_false, unread,
        Walk.parseBody_of_packet ok]
      exact returned

private theorem parse_without_signals {w : Walk} (quiet : w.handler.signalQueue = []) : w.parse = some (true, w) := by
  simp [Walk.parse, Walk.parseLoop, Walk.gateOpen, quiet]

include counted packets in
theorem parse_synced {D : List Chunk} {w : Walk} {i : Nat}
    (synced : Synced D w (f.after i)) (ahead : Ahead f w i) :
    ∃ w' j, w.parse = some (true, w') ∧ Synced D w' (f.after j) ∧ Ahead f w' j ∧
      w'.cs.chunks = w.cs.chunks := by
  obtain ⟨_, m, _, behind, bound, _⟩ := id ahead
  have place := Walk.after_place (w := f) (i := i) (by omega)
  have size : w.crpSize = (f.after i).crpSize := by simp only [Walk.crpSize, synced.tile]
  have index : w.crpIdx = (f.after i).crpIdx := by simp only [Walk.crpIdx, synced.tile]
  have here := place.2 (by omega)
  exact parseLoop_synced f counted packets _ w i (by omega) synced ahead

/-- A signal in the newest piece lies ahead of every precinct before the older signals. -/
private theorem Ahead.announce {w : Walk} {i : Nat} {signal : Signal} {m : Nat} {base : Nat}
    (before : (w.handler.signalQueue = [] ∧ i = 0) ∨ Ahead f w i)
    (base_eq : base = chainLength w.cs.chunks) (bound : m < f.crpSize - f.crpIdx)
    (offset : signal.byteOffset = BitVec.ofNat 32 (f.after m).cs.pos)
    (low : base ≤ (f.after m).cs.pos) {c : Chunk}
    (high : (f.after m).cs.pos < base + c.bytes.length) :
    Ahead f ((w.append c).announce (some signal)) i := by
  refine ⟨signal, m, ?_, ?_, bound, offset, ?_⟩
  · simp [Walk.announce, TileHandler.appendSignal]
  · rcases before with ⟨_, rfl⟩ | ⟨_, old, _, behind, _, _, present⟩
    · exact Nat.zero_le m
    -- An older signal lies in the bytes before this piece.
    · by_contra earlier
      have mono := pos_mono f (i := m) (j := old) (by omega)
      omega
  · simp only [Walk.announce, Walk.append, Codestream.appendChunk, chainLength_append,
      chainLength_cons, chainLength_nil]
    omega

private theorem announced_length (w : Walk) (piece : Piece) :
    chainLength ((w.append piece.chunk).announce piece.signal).cs.chunks =
      chainLength w.cs.chunks + piece.chunk.bytes.length := by
  cases piece.signal <;> simp [Walk.announce, Walk.append, Codestream.appendChunk]

/-- Once a piece has arrived, either no signal has come and nothing was read, or the last signal is
still ahead. -/
theorem Ahead.arrive {starts : List Nat}
    (known : ∀ q ∈ starts, ∃ m < f.crpSize - f.crpIdx, q = (f.after m).cs.pos)
    {piece : Piece} {rest : List Piece} {w : Walk} {i : Nat}
    (before : (w.handler.signalQueue = [] ∧ i = 0) ∨ Ahead f w i)
    (truthful : Truthful starts (chainLength w.cs.chunks) (piece :: rest)) :
    (((w.append piece.chunk).announce piece.signal).handler.signalQueue = [] ∧ i = 0) ∨
      Ahead f ((w.append piece.chunk).announce piece.signal) i := by
  cases carried : piece.signal with
  | none =>
    rcases before with quiet | ⟨signal, m, last, behind, within, offset, present⟩
    · exact Or.inl quiet
    · refine Or.inr ⟨signal, m, last, behind, within, offset, ?_⟩
      have longer := announced_length w piece
      rw [carried] at longer
      omega
  | some signal =>
    obtain ⟨q, member, offset, low, high⟩ := truthful.1 signal carried
    obtain ⟨m, within, rfl⟩ := known q member
    exact Or.inr (Ahead.announce f before rfl within offset low high)

include packets in
theorem flush_synced {w : Walk} {i : Nat} (bound : i ≤ f.crpSize - f.crpIdx)
    (synced : Synced [] w (f.after i)) :
    ∃ w', w.incremental [] = some (true, w') ∧
      w'.reports.map Report.seen = (f.after (f.crpSize - f.crpIdx)).reports.map Report.seen := by
  have place := Walk.after_place (w := f) (i := i) bound
  have size : w.crpSize = f.crpSize := by
    rw [← place.1]
    simp only [Walk.crpSize, synced.tile]
  have left : w.crpSize - w.crpIdx = f.crpSize - f.crpIdx - i := by
    have index : w.crpIdx = (f.after i).crpIdx := by simp only [Walk.crpIdx, synced.tile]
    by_cases some_left : 0 < f.crpSize - f.crpIdx
    · have here := place.2 some_left
      omega
    · have none_read : i = 0 := by omega
      subst none_read
      rw [Walk.after_zero] at index
      omega
  have reads : ∀ j < w.crpSize - w.crpIdx, (w.after j).packet.1 = true := by
    intro j within
    rw [(synced.rest j).2, Walk.after_after]
    exact packets (i + j) (by omega)
  refine ⟨_, congrArg some (Walk.flushLoop_of_packets _ (Nat.le_add_right _ _) reads), ?_⟩
  rw [← (synced.rest _).1.seen, Walk.after_after, left, Nat.add_sub_of_le bound]

include counted packets in
private theorem incremental_synced {starts : List Nat}
    (known : ∀ q ∈ starts, ∃ m < f.crpSize - f.crpIdx, q = (f.after m).cs.pos)
    (pieces : List Piece) (w : Walk) (i : Nat) (bound : i ≤ f.crpSize - f.crpIdx)
    (synced : Synced (pieces.map Piece.chunk) w (f.after i))
    (before : (w.handler.signalQueue = [] ∧ i = 0) ∨ Ahead f w i)
    (truthful : Truthful starts (chainLength w.cs.chunks) pieces) :
    ∃ w', w.incremental pieces = some (true, w') ∧
      w'.reports.map Report.seen = (f.after (f.crpSize - f.crpIdx)).reports.map Report.seen := by
  induction pieces generalizing w i with
  | nil => exact flush_synced f packets bound synced
  | cons piece rest ih =>
    simp only [Walk.incremental]
    have arrived := (synced.append).announce piece.signal
    have longer := announced_length w piece
    have later := truthful.2
    rcases Ahead.arrive f known before truthful with ⟨quiet, start⟩ | ahead
    · rw [parse_without_signals quiet]
      exact ih _ i bound arrived (Or.inl ⟨quiet, start⟩) (by rw [longer]; exact later)
    · obtain ⟨w', j, returned, stepped, still, chunks⟩ := parse_synced f counted packets arrived ahead
      rw [returned]
      obtain ⟨_, m, _, behind, within, _⟩ := id still
      exact ih w' j (by omega) stepped (Or.inr still) (by rw [chunks, longer]; exact later)

end Path

private theorem oneShot_eq (w : Walk) (pieces : List Piece) :
    w.oneShot pieces = Walk.flush { w with cs := w.cs.extend (pieces.map Piece.chunk) } := by
  have appended : pieces.foldl (fun w piece => w.append piece.chunk) w =
      { w with cs := w.cs.extend (pieces.map Piece.chunk) } := by
    induction pieces generalizing w with
    | nil => simp [Codestream.extend]
    | cons piece rest ih =>
      rw [List.foldl_cons, ih]
      simp [Walk.append, Codestream.appendChunk, Codestream.extend]
  rw [Walk.oneShot, appended]

/-- Take any tile structure, a reader at any place of its chain and an empty signal queue.
If one `flush` over the whole body succeeds, then feeding the body in any pieces, with any
choice of truthful signals, succeeds as well and fires the same precinct callbacks: same
precincts in the same order, with the same code-block state and body bytes. -/
theorem incremental_eq_oneShot (w : Walk) (pieces : List Piece) (counted : w.cs.Counted)
    (quiet : w.handler.signalQueue = []) (fresh : w.reports = [])
    (success : (w.oneShot pieces).1 = true)
    (truthful : Truthful ((w.oneShot pieces).2.reports.map fun rep => rep.start.pos)
      (chainLength w.cs.chunks) pieces) :
    ∃ w', w.incremental pieces = some (true, w') ∧
      w'.reports.map Report.seen = (w.oneShot pieces).2.reports.map Report.seen := by
  rw [oneShot_eq] at success truthful ⊢
  generalize whole : { w with cs := w.cs.extend (pieces.map Piece.chunk) } = f at success truthful ⊢
  have signals : f.handler.signalQueue = [] := by rw [← whole]; exact quiet
  have packets : ∀ i < f.crpSize - f.crpIdx, (f.after i).packet.1 = true := fun i bound =>
    Walk.packets_of_flushLoop _ signals success i bound (by rw [signals]; exact bound)
  have result := Walk.flushLoop_of_packets (f.crpSize - f.crpIdx + f.handler.signalQueue.length)
    (Nat.le_add_right _ _) packets
  have flushed : f.flush.2 = f.after (f.crpSize - f.crpIdx) := congrArg Prod.snd result
  -- The starts in the reports are the reader's places along the one-shot walk.
  have known : ∀ q ∈ f.flush.2.reports.map fun rep => rep.start.pos,
      ∃ m < f.crpSize - f.crpIdx, q = (f.after m).cs.pos := by
    intro q member
    obtain ⟨rep, fired, rfl⟩ := List.mem_map.mp member
    rw [flushed] at fired
    rcases Walk.after_reports _ _ rep fired with old | ⟨m, bound, rfl⟩
    · rw [← whole, fresh] at old
      exact absurd old (List.not_mem_nil)
    · exact ⟨m, bound, rfl⟩
  have whole_counted : f.cs.Counted := by
    rw [← whole]
    refine ⟨?_, ?_⟩
    · exact Nat.le_trans counted.1 (by simp [Codestream.extend])
    · change w.cs.consumedBeforeCurChunk = chainLength ((w.cs.chunks ++ _).take w.cs.curChunk)
      rw [List.take_append_of_le_length counted.1]
      exact counted.2
  have synced : Synced (pieces.map Piece.chunk) w (f.after 0) := by
    rw [Walk.after_zero, ← whole]
    exact ⟨rfl, rfl, rfl, rfl⟩
  rw [flushed]
  exact incremental_synced f whole_counted packets known pieces w 0 (Nat.zero_le _) synced
    (Or.inl ⟨quiet, rfl⟩) truthful

/-- A tile of three precincts with one HT code-block each, at the start of a frame. -/
def smallWalk : Walk where
  handler := {
    tiles := [{
      tcomp := [{ res := [{ prec := List.replicate 3 {
        numBands := 1, ncbw := 1, ncbh := 1,
        pband := [{ incl := [{}], zbp := [{}], blk := [{}] }] } }] }],
      crp := [⟨0, 0, 0⟩, ⟨0, 0, 1⟩, ⟨0, 0, 2⟩] }]
    markers := { cocs := .replicate _ { cbs := 0x40 } }
    ready := true }
  cs := {}

/-- Two packets with a two-byte body and an empty one, cut inside both bodies. -/
def smallPieces : List Piece :=
  [{ chunk := { bytes := [0xE2, 1] } },
   { chunk := { bytes := [2, 0xE2, 3] }, signal := some ⟨3, 1⟩ },
   { chunk := { bytes := [4, 0x00] }, signal := some ⟨6, 2⟩ }]

theorem incremental_eq_oneShot_small : (smallWalk.oneShot smallPieces).2.reports.length = 3 ∧
    ∃ w', smallWalk.incremental smallPieces = some (true, w') ∧
      w'.reports.map Report.seen = (smallWalk.oneShot smallPieces).2.reports.map Report.seen := by
  have starts : (smallWalk.oneShot smallPieces).2.reports.map (fun rep => rep.start.pos) =
      [6, 3, 0] := by decide +kernel
  refine ⟨by decide +kernel, incremental_eq_oneShot smallWalk smallPieces ⟨Nat.le_refl _, rfl⟩ rfl
    rfl (by decide +kernel) ?_⟩
  rw [starts]
  refine ⟨by simp, ?_, ?_, trivial⟩
  · rintro signal carried
    cases carried
    exact ⟨3, by decide, rfl, by decide, by decide⟩
  · rintro signal carried
    cases carried
    exact ⟨6, by decide, rfl, by decide, by decide⟩

end RtpDecoder.Parser
