import RtpDecoder.Frame.Ledger
import RtpDecoder.Frame.Tiles

/-!
# The chunk-delivery contract

Chunks of a frame come in order and without a hole, at most one abort ends a frame, and
after an abort or an EOC nothing is delivered until the next main packet. The contract is a
monitor of the callback trace; the invariant of the ledger ties what the monitor remembers
to the flags. What comes after an EOC is also said of the packets themselves: behind one with
the marker, body packets deliver nothing.
-/

namespace RtpDecoder.Frame

/-- What the contract has to know of the frame since its main chunk. -/
structure FrameView where
  started : Bool := false
  aborted : Bool := false
  ended : Bool := false
  delivered : Nat := 0
deriving DecidableEq, Repr

def FrameView.next (v : FrameView) : Event → FrameView
  | .chunk true _ len => { started := true, delivered := len }
  | .chunk false _ len => { v with delivered := v.delivered + len }
  | .abort _ => { v with aborted := true }
  | .eoc => { v with ended := true }
  | _ => v

/-- A main chunk has offset 0. A body chunk continues a started frame that was neither
aborted nor ended, at the number of bytes delivered so far, as `size_t`. An abort needs a
started frame without an abort. -/
def FrameView.allows (v : FrameView) : Event → Prop
  | .chunk true offset _ => offset = 0
  | .chunk false offset _ =>
    v.started = true ∧ v.aborted = false ∧ v.ended = false ∧ offset = v.delivered % 2 ^ 64
  | .abort _ => v.started = true ∧ v.aborted = false
  | _ => True

def contract : Monitor Event FrameView where
  start := {}
  next := FrameView.next
  law := FrameView.allows

def Event.isChunk : Event → Bool
  | .chunk .. => true
  | _ => false

/-- The chunks that a trace delivers. -/
def chunksOf (trace : List Event) : List Event := trace.filter Event.isChunk

namespace Ledger

variable {cb : Callbacks} {L : Ledger}

/-- The part of the invariant that every operation of the ledger keeps. -/
structure Sound (L : Ledger) : Prop where
  accepted : contract.Accepts L.trace
  empty : L.held = [] → L.chain = 0
  armed : L.armed = true →
    (contract.view L.trace).started = true ∧ (contract.view L.trace).aborted = false

/-- The frame that the monitor sees is open and has delivered `chain_total_bytes_`. -/
def Open (L : Ledger) : Prop :=
  (contract.view L.trace).started = true ∧ (contract.view L.trace).aborted = false ∧
    (contract.view L.trace).ended = false ∧ L.chain = (contract.view L.trace).delivered % 2 ^ 64

/-- The part that holds between the operations: a frame that is tracked is held, and open
unless it has failed. -/
def Tracked (L : Ledger) : Prop :=
  L.passed = true → L.held ≠ [] ∧ (L.failure = false → L.Open)

theorem tracked_of_not_passed (passed : L.passed = false) : L.Tracked :=
  fun h => by rw [passed] at h; cases h

/-! ### Single operations -/

theorem Sound.note (sound : L.Sound) (registered : Bool) {e : Event} (silent : contract.Silent e) :
    (L.note registered e).Sound := by
  obtain ⟨view, accepts⟩ := note_silent L registered silent
  refine ⟨accepts.mpr sound.accepted, sound.empty, ?_⟩
  rw [view]
  exact sound.armed

theorem Open.note (isOpen : L.Open) (registered : Bool) {e : Event} (silent : contract.Silent e) :
    (L.note registered e).Open := by
  unfold Open
  rw [(note_silent L registered silent).1]
  exact isOpen

theorem Tracked.note (tracked : L.Tracked) (registered : Bool) {e : Event}
    (silent : contract.Silent e) : (L.note registered e).Tracked :=
  fun passed => ⟨(tracked passed).1, fun ok => ((tracked passed).2 ok).note registered silent⟩

theorem Sound.eoc (sound : L.Sound) : (L.note true .eoc).Sound :=
  ⟨⟨trivial, sound.accepted⟩, sound.empty, sound.armed⟩

theorem Sound.flags (sound : L.Sound) (failure passed : Bool) :
    { L with failure := failure, passed := passed }.Sound :=
  ⟨sound.accepted, sound.empty, sound.armed⟩

theorem Sound.release (cb : Callbacks) (sound : L.Sound) : (L.release cb).Sound := by
  obtain ⟨view, accepts⟩ := release_silent cb L (m := contract) fun _ _ => ⟨trivial, rfl⟩
  refine ⟨accepts.mpr sound.accepted, fun _ => rfl, ?_⟩
  rw [view]
  exact sound.armed

theorem Sound.abort (cb : Callbacks) (sound : L.Sound) (reason : AbortReason) : (L.abort cb reason).Sound := by
  refine ⟨?_, sound.empty, fun armed => by cases armed⟩
  simp only [Ledger.abort, Ledger.note]
  split
  next fires =>
    have armed := (Bool.and_eq_true _ _ ▸ fires).1
    exact ⟨sound.armed armed, sound.accepted⟩
  · exact sound.accepted

theorem Sound.fail (cb : Callbacks) (sound : L.Sound) (reason : AbortReason) : (L.fail cb reason).Sound :=
  (sound.abort cb reason).flags true _

theorem Tracked.fail (cb : Callbacks) (tracked : L.Tracked) (reason : AbortReason) : (L.fail cb reason).Tracked :=
  fun passed => ⟨(tracked passed).1, fun ok => by cases ok⟩

theorem Sound.append_main (p : Packet) (chunk : cb.chunk = true) (sound : L.Sound)
    (empty : L.held = []) : (L.append cb true p).Sound ∧ (L.append cb true p).Open := by
  have start := sound.empty empty
  have trace : (L.append cb true p).trace = .chunk true 0 p.size :: L.trace := by
    simp [Ledger.append, chunk, start]
  have view : contract.view (L.append cb true p).trace =
      { started := true, delivered := p.size } := by
    rw [trace]
    rfl
  -- The view starts anew with a main chunk, whatever it was before.
  refine ⟨⟨?_, fun held => ?_, fun _ => ?_⟩, ?_⟩
  · rw [trace]
    exact ⟨rfl, sound.accepted⟩
  · exact absurd held (by simp [Ledger.append])
  · rw [view]
    exact ⟨rfl, rfl⟩
  · unfold Open
    rw [view]
    refine ⟨rfl, rfl, rfl, ?_⟩
    change (L.chain + p.size) % 2 ^ 64 = p.size % 2 ^ 64
    rw [start, Nat.zero_add]

theorem Sound.append_body (p : Packet) (chunk : cb.chunk = true) (sound : L.Sound) (isOpen : L.Open) :
    (L.append cb false p).Sound ∧ (L.append cb false p).Open := by
  obtain ⟨started, aborted, ended, chain⟩ := isOpen
  have trace : (L.append cb false p).trace = .chunk false L.chain p.size :: L.trace := by
    simp [Ledger.append, chunk]
  have view : contract.view (L.append cb false p).trace =
      { contract.view L.trace with delivered := (contract.view L.trace).delivered + p.size } := by
    rw [trace]
    rfl
  refine ⟨⟨?_, fun held => ?_, fun _ => ?_⟩, ?_⟩
  · rw [trace]
    exact ⟨⟨started, aborted, ended, chain⟩, sound.accepted⟩
  · exact absurd held (by simp [Ledger.append])
  · rw [view]
    exact ⟨started, aborted⟩
  · unfold Open
    rw [view]
    refine ⟨started, aborted, ended, ?_⟩
    change (L.chain + p.size) % 2 ^ 64 = _
    rw [chain, Nat.mod_add_mod]

/-! ### The parts of a move -/

private theorem gap_contract (p : Packet) (sound : L.Sound) (tracked : L.Tracked) :
    (L.gap cb p).Sound ∧ (L.gap cb p).Tracked := by
  have silent (seam : Nat) : contract.Silent (.resyncGap seam) := fun _ => ⟨trivial, rfl⟩
  unfold gap
  split
  · have asked := sound.note (cb.resyncGap && L.passed) (silent L.chain)
    have same := tracked.note (cb.resyncGap && L.passed) (silent L.chain)
    dsimp only
    split
    · exact ⟨asked, same⟩
    · exact ⟨asked.fail cb .gap, same.fail cb .gap⟩
  · exact ⟨sound, tracked⟩

private theorem cap_contract (sound : L.Sound) (tracked : L.Tracked) : (L.cap cb).Sound ∧ (L.cap cb).Tracked := by
  unfold cap
  split
  · exact ⟨((sound.abort cb .slabCap).release cb).flags _ _, tracked_of_not_passed rfl⟩
  · exact ⟨sound, tracked⟩

private theorem skip_contract (p : Packet) (sound : L.Sound) (tracked : L.Tracked) :
    (L.skip cb p).Sound ∧ (L.skip cb p).Tracked := by
  have silent : contract.Silent (.releaseSlab p.slabIdx) := fun _ => ⟨trivial, rfl⟩
  have released := sound.note cb.releaseSlab silent
  unfold skip
  dsimp only
  split
  · refine ⟨?_, tracked_of_not_passed rfl⟩
    unfold skipEoc
    dsimp only
    split
    · exact (((released.abort cb .damagedEOC).flags _ _).release cb).eoc
    · exact ((released.flags _ _).release cb).eoc
  · exact ⟨released, tracked.note cb.releaseSlab silent⟩

/-- A main packet opens its frame on an empty chain, whatever it found. -/
private theorem openFrame_contract (p : Packet) (chunk : cb.chunk = true) (sound : L.Sound)
    (tracked : L.Tracked) :
    (L.openFrame cb p).Sound ∧ (L.openFrame cb p).Open ∧ (L.openFrame cb p).held ≠ [] ∧
      (L.openFrame cb p).passed = false := by
  obtain ⟨closed, empty, passed⟩ :
      (L.missed cb).Sound ∧ (L.missed cb).held = [] ∧ (L.missed cb).passed = false := by
    unfold missed
    split
    next none_held =>
      have empty := List.isEmpty_iff.mp none_held
      -- A tracked frame is held, so none is tracked here.
      refine ⟨sound, empty, ?_⟩
      cases passed : L.passed with
      | false => rfl
      | true => exact absurd empty (tracked passed).1
    · exact ⟨((sound.abort cb .missedEOC).release cb).flags _ false, rfl, rfl⟩
  obtain ⟨opened, isOpen⟩ := (closed.flags false (L.missed cb).passed).append_main p chunk empty
  exact ⟨opened, isOpen, by simp [openFrame, Ledger.append], passed⟩

private theorem main_contract (p : Packet) (o : MainOutcome) (chunk : cb.chunk = true)
    (sound : L.Sound) (tracked : L.Tracked) :
    (L.main cb p o).Sound ∧ (L.main cb p o).Tracked := by
  have silent (reason : RelatchReason) : contract.Silent (.relatch reason) := fun _ => ⟨trivial, rfl⟩
  obtain ⟨opened, isOpen, held, passed⟩ := openFrame_contract p chunk sound tracked
  cases o with
  | tracked relatch =>
    have same : { L.openFrame cb p with passed := true }.Tracked := fun _ => ⟨held, fun _ => isOpen⟩
    cases relatch with
    | none => exact ⟨opened.flags _ true, same⟩
    | some reason =>
      exact ⟨(opened.flags _ true).note cb.relatch (silent reason), same.note cb.relatch (silent reason)⟩
  | rejected => exact ⟨opened.fail cb .parse, tracked_of_not_passed passed⟩
  | collected more => exact ⟨opened, tracked_of_not_passed passed⟩

private theorem body_contract (p : Packet) (point : Option (BitVec 32)) (failed : Bool)
    (chunk : cb.chunk = true) (sound : L.Sound) (isOpen : L.Open) :
    (L.body cb p point failed).Sound ∧ (L.body cb p point failed).Tracked := by
  have silent (resyncByte : BitVec 32) : contract.Silent (.resyncPoint resyncByte p.pid) :=
    fun _ => ⟨trivial, rfl⟩
  obtain ⟨appended, still⟩ := sound.append_body p chunk isOpen
  have held : (L.append cb false p).held ≠ [] := by simp [Ledger.append]
  have same : (L.append cb false p).Tracked := fun _ => ⟨held, fun _ => still⟩
  unfold body
  dsimp only
  cases point with
  | none =>
    split
    · exact ⟨(appended.flags _ false).fail cb .parse, tracked_of_not_passed rfl⟩
    · exact ⟨appended, same⟩
  | some resyncByte =>
    split
    · exact ⟨((appended.note true (silent resyncByte)).flags _ false).fail cb .parse,
        tracked_of_not_passed rfl⟩
    · exact ⟨appended.note true (silent resyncByte), same.note true (silent resyncByte)⟩

private theorem finish_contract (intact : Bool) (sound : L.Sound) :
    (L.finish cb intact).Sound ∧ (L.finish cb intact).Tracked := by
  have silent : contract.Silent (.frameReady intact) := fun _ => ⟨trivial, rfl⟩
  have disarmed : { L with armed := false }.Sound :=
    ⟨sound.accepted, sound.empty, fun armed => by cases armed⟩
  exact ⟨(((disarmed.note cb.frameReady silent).flags _ _).release cb).eoc,
    tracked_of_not_passed rfl⟩

theorem pull_contract (p : Packet) (o : Outcome) (chunk : cb.chunk = true)
    (inv : L.Sound ∧ L.Tracked) : (L.pull cb p o).Sound ∧ (L.pull cb p o).Tracked := by
  obtain ⟨sound, tracked⟩ := @gap_contract cb L p inv.1 inv.2
  obtain ⟨sound, tracked⟩ := @cap_contract cb (L.gap cb p) sound tracked
  unfold pull
  generalize (L.gap cb p).cap cb = M at sound tracked
  dsimp only
  split
  · exact skip_contract p sound tracked
  next goes =>
    split
    next isBody =>
      -- The packet was not skipped, so the frame is tracked and has not failed.
      have live : M.passed = true ∧ M.failure = false := by
        simp [skips, isBody] at goes
        exact goes
      have result := body_contract p o.point o.failed chunk sound ((tracked live.1).2 live.2)
      split
      · exact finish_contract o.intact result.1
      · exact result
    · have result := main_contract p o.main chunk sound tracked
      split
      · exact finish_contract o.intact result.1
      · exact result

/-! ### The chunks of one call -/

private theorem overlooks_isChunk : Overlooks Event.isChunk :=
  ⟨fun _ => rfl, fun _ => rfl, fun _ => rfl, fun _ => rfl, fun _ => rfl, fun _ _ => rfl⟩

private theorem chunksOf_skip (cb : Callbacks) (p : Packet) (L : Ledger) :
    chunksOf (L.skip cb p).trace = chunksOf L.trace := by
  have released : chunksOf (L.note cb.releaseSlab (.releaseSlab p.slabIdx)).trace = chunksOf L.trace :=
    filter_note L cb.releaseSlab rfl
  unfold skip
  dsimp only
  split
  · unfold skipEoc
    refine (filter_note _ true rfl).trans ((filter_release cb overlooks_isChunk _).trans ?_)
    split
    · exact (filter_abort cb overlooks_isChunk _ .damagedEOC).trans released
    · exact released
  · exact released

private theorem chunksOf_finish (cb : Callbacks) (intact : Bool) (L : Ledger) :
    chunksOf (L.finish cb intact).trace = chunksOf L.trace :=
  (filter_note _ true rfl).trans ((filter_release cb overlooks_isChunk _).trans (filter_note _ _ rfl))

private theorem chunksOf_main (p : Packet) (o : MainOutcome) (chunk : cb.chunk = true)
    (sound : L.Sound) : chunksOf (L.main cb p o).trace = .chunk true 0 p.size :: chunksOf L.trace := by
  have chain : (L.missed cb).chain = 0 := by
    unfold missed
    split
    next none_held => exact sound.empty (List.isEmpty_iff.mp none_held)
    · rfl
  unfold chunksOf
  rw [filter_main cb overlooks_isChunk, filter_openFrame cb overlooks_isChunk, chain, chunk]
  rfl

private theorem chunksOf_body (p : Packet) (point : Option (BitVec 32)) (failed : Bool)
    (chunk : cb.chunk = true) :
    chunksOf (L.body cb p point failed).trace = .chunk false L.chain p.size :: chunksOf L.trace := by
  unfold chunksOf
  rw [filter_body cb overlooks_isChunk, chunk]
  rfl

/-- A main packet delivers one chunk, at offset 0; a body packet at most one. -/
theorem pull_chunks (p : Packet) (o : Outcome) (chunk : cb.chunk = true) (inv : L.Sound ∧ L.Tracked) :
    (p.mh ≠ 0 → chunksOf (L.pull cb p o).trace = .chunk true 0 p.size :: chunksOf L.trace) ∧
    (p.mh = 0 → chunksOf (L.pull cb p o).trace = chunksOf L.trace ∨
      ∃ offset, chunksOf (L.pull cb p o).trace = .chunk false offset p.size :: chunksOf L.trace) := by
  obtain ⟨sound, tracked⟩ := @gap_contract cb L p inv.1 inv.2
  obtain ⟨sound, _⟩ := @cap_contract cb (L.gap cb p) sound tracked
  unfold pull
  -- Neither the gap nor the cap delivers a chunk.
  rw [show chunksOf L.trace = _ from (filter_before cb overlooks_isChunk L p).symm]
  generalize (L.gap cb p).cap cb = M at sound
  dsimp only
  constructor
  · intro main
    rw [if_neg (by simp [skips, main]), if_neg main]
    split
    · exact (chunksOf_finish cb o.intact _).trans (chunksOf_main p o.main chunk sound)
    · exact chunksOf_main p o.main chunk sound
  · intro isBody
    split
    · exact Or.inl (chunksOf_skip cb p M)
    · refine Or.inr ⟨M.chain, ?_⟩
      split
      · exact (chunksOf_finish cb o.intact _).trans (chunksOf_body p o.point o.failed chunk)
      · exact chunksOf_body p o.point o.failed chunk

/-! ### Behind the marker -/

/-- Whether or not its frame came to the EOC block, none is tracked behind a packet with the marker. -/
theorem passed_marked {p : Packet} (marked : p.marker = true) (o : Outcome) (chunk : cb.chunk = true)
    (inv : L.Sound ∧ L.Tracked) : (L.pull cb p o).passed = false := by
  by_cases goes : p.mh = 0 ∨ o.main.goesOn = true
  · exact (pull_marked cb L marked goes).2.1
  · obtain ⟨main, stops⟩ := not_or.mp goes
    rw [Bool.not_eq_true] at stops
    obtain ⟨sound, tracked⟩ := @gap_contract cb L p inv.1 inv.2
    obtain ⟨sound, tracked⟩ := @cap_contract cb (L.gap cb p) sound tracked
    have opened := (openFrame_contract p chunk sound tracked).2.2.2
    simp only [pull, skips, main, decide_false, Bool.false_and, Bool.false_eq_true, if_false, stops]
    generalize o.main = outcome at stops
    cases outcome with
    | tracked relatch => cases stops
    | rejected => exact opened
    | collected more => exact opened

/-- A body packet is skipped while no frame is tracked, and none is tracked then. -/
theorem pull_untracked (cb : Callbacks) (L : Ledger) {p : Packet} (body : p.mh = 0) (o : Outcome)
    (passed : L.passed = false) :
    chunksOf (L.pull cb p o).trace = chunksOf L.trace ∧ (L.pull cb p o).passed = false := by
  have before : ((L.gap cb p).cap cb).passed = false := by
    have gap : (L.gap cb p).passed = false := by
      simp only [gap]
      split
      · split <;> exact passed
      · exact passed
    simp only [cap]
    split
    · rfl
    · exact gap
  have skipped : ((L.gap cb p).cap cb).skips p = true := by simp [skips, body, before]
  simp only [pull, if_pos skipped]
  refine ⟨(chunksOf_skip cb p _).trans (filter_before cb overlooks_isChunk L p), ?_⟩
  simp only [skip]
  split
  · rfl
  · exact before

end Ledger

/-- No body packet behind one with the marker delivers a chunk, until a main packet comes. -/
private theorem FrameHandler.run_untracked {T : Type} {cb : Callbacks} {ops : TileOps T} {s : FrameHandler T}
    (passed : s.isPassedHeader = false) {bodies : List Packet} (body : ∀ q ∈ bodies, q.mh = 0) :
    chunksOf (s.run cb ops bodies).trace = chunksOf s.trace := by
  induction bodies generalizing s with
  | nil => rfl
  | cons q rest ih =>
    obtain ⟨first, rest_body⟩ := List.forall_mem_cons.mp body
    obtain ⟨o, moved, _⟩ := pullData_ledger cb ops q s
    have skipped := Ledger.pull_untracked cb s.ledger first o passed
    rw [← moved] at skipped
    exact (ih skipped.2 rest_body).trans skipped.1

/-- Chunk delivery keeps the contract over every sequence of calls, whatever the tile handler
and the resync callbacks answer: offsets are the number of bytes delivered, modulo `2 ^ 64` as
`size_t` counts. Each main packet delivers its chunk, and after a packet with the marker no body
packet delivers one until the next main packet. -/
theorem chunk_contract {T : Type} (cb : Callbacks) (ops : TileOps T) (tileHndr : T) (relatchK : Nat)
    (packets : List Packet) (chunk : cb.chunk = true) :
    let s := (FrameHandler.new tileHndr relatchK).run cb ops packets
    contract.Accepts s.trace ∧
    ∀ p : Packet,
      (p.mh ≠ 0 → chunksOf (s.pullData cb ops p).trace = .chunk true 0 p.size :: chunksOf s.trace) ∧
      (p.mh = 0 → chunksOf (s.pullData cb ops p).trace = chunksOf s.trace ∨
        ∃ offset, chunksOf (s.pullData cb ops p).trace = .chunk false offset p.size :: chunksOf s.trace) ∧
      (p.marker = true → ∀ bodies : List Packet, (∀ q ∈ bodies, q.mh = 0) →
        chunksOf ((s.pullData cb ops p).run cb ops bodies).trace = chunksOf (s.pullData cb ops p).trace) := by
  intro s
  have inv : s.ledger.Sound ∧ s.ledger.Tracked := by
    refine FrameHandler.run_invariant cb ops (P := fun _ L => L.Sound ∧ L.Tracked) _ ?_ ?_ packets
    · exact ⟨⟨trivial, fun _ => rfl, fun armed => by cases armed⟩, Ledger.tracked_of_not_passed rfl⟩
    · exact fun _ p o L => Ledger.pull_contract p o chunk
  refine ⟨inv.1.accepted, fun p => ?_⟩
  obtain ⟨o, moved, _⟩ := FrameHandler.pullData_ledger cb ops p s
  have chunks := Ledger.pull_chunks p o chunk inv
  rw [← moved] at chunks
  refine ⟨chunks.1, chunks.2, fun marked bodies body => ?_⟩
  have passed := Ledger.passed_marked marked o chunk inv
  rw [← moved] at passed
  exact FrameHandler.run_untracked passed body

/-- A small frame, and a body packet behind its EOC. -/
theorem chunk_contract_emptyFrame :
    let s := (FrameHandler.new {} 4).run {} tileOps (emptyFrame.take 2)
    let ended := s.pullData {} tileOps (packetOf 2 (List.replicate 11 0) true)
    chunksOf ended.trace = [.chunk false 89 3, .chunk false 86 3, .chunk true 0 86] ∧
      contract.Accepts s.trace ∧
      chunksOf (ended.run {} tileOps [packetOf 3 (List.replicate 11 0) false]).trace = chunksOf ended.trace := by
  have seen : chunksOf (((FrameHandler.new {} 4).run {} tileOps (emptyFrame.take 2)).pullData {} tileOps
      (packetOf 2 (List.replicate 11 0) true)).trace =
      [.chunk false 89 3, .chunk false 86 3, .chunk true 0 86] := by decide +kernel
  have kept := chunk_contract {} tileOps {} 4 (emptyFrame.take 2) rfl
  -- The run itself is of no interest any more, and must not be evaluated.
  generalize (FrameHandler.new {} 4).run {} tileOps (emptyFrame.take 2) = s at seen kept ⊢
  exact ⟨seen, kept.1, (kept.2 _).2.2 rfl _ (by simp [packetOf, Packet.mh])⟩

end RtpDecoder.Frame
