import RtpDecoder.Frame.Ledger
import RtpDecoder.Frame.Tiles

/-!
# The end of a frame

A frame should end in one `frame_ready` or one `frame_abort`. Two kinds of packets break
this. A body packet with the marker on which the precinct walk fails aborts the frame and
then completes it. And a body packet with the marker, after a part of a main header on a
stream that is not latched, drops the frame without a word. Runs without such packets are
exactly those in which every frame ends once.
-/

namespace RtpDecoder.Frame

/-- The frame since its main chunk: whether there is one, and how often it has ended. -/
structure EndView where
  started : Bool := false
  ends : Nat := 0
deriving DecidableEq, Repr

/-- A new frame may start when the last one has ended once, and a frame may end when it has
started and not ended. -/
def frameEnds : Monitor Event EndView where
  start := {}
  next v
    | .chunk true _ _ => { started := true, ends := 0 }
    | .abort _ | .frameReady _ => { v with ends := v.ends + 1 }
    | _ => v
  law v
    | .chunk true _ _ => v.started = true → v.ends = 1
    | .abort _ | .frameReady _ => v.started = true ∧ v.ends = 0
    | _ => True

/-- The last frame has ended, once, if there is one. -/
def Ended (trace : List Event) : Prop :=
  frameEnds.Accepts trace ∧
    ((frameEnds.view trace).started = true → (frameEnds.view trace).ends = 1)

/-- The last frame has not ended. -/
def Running (trace : List Event) : Prop :=
  frameEnds.Accepts trace ∧ (frameEnds.view trace).started = true ∧ (frameEnds.view trace).ends = 0

private theorem ended_congr {trace past : List Event}
    (same : frameEnds.view trace = frameEnds.view past ∧
      (frameEnds.Accepts trace ↔ frameEnds.Accepts past)) :
    (Ended trace ↔ Ended past) ∧ (Running trace ↔ Running past) := by
  unfold Ended Running
  rw [same.1, same.2]
  exact ⟨Iff.rfl, Iff.rfl⟩

theorem Running.next {trace : List Event} (running : Running trace) {e : Event}
    (terminal : (∃ reason, e = .abort reason) ∨ ∃ intact, e = .frameReady intact) :
    Ended (e :: trace) := by
  obtain ⟨accepted, started, none_yet⟩ := running
  have one : (frameEnds.view trace).ends + 1 = 1 := by rw [none_yet]
  rcases terminal with ⟨reason, rfl⟩ | ⟨intact, rfl⟩
  · exact ⟨⟨⟨started, none_yet⟩, accepted⟩, fun _ => one⟩
  · exact ⟨⟨⟨started, none_yet⟩, accepted⟩, fun _ => one⟩

namespace Ledger

variable {cb : Callbacks} {L : Ledger}

/-- The callbacks that the contract is about are registered. -/
structure Listening (cb : Callbacks) : Prop where
  chunk : cb.chunk = true
  frameAbort : cb.frameAbort = true
  frameReady : cb.frameReady = true

/-- A frame is held until it ends, and armed until it fails. -/
structure Settled (L : Ledger) : Prop where
  armed : L.armed = true → Running L.trace ∧ L.held ≠ []
  disarmed : L.armed = false → Ended L.trace
  live : L.failure = false → L.held ≠ [] → L.armed = true
  failed : L.failure = true → L.armed = false
  passed : L.passed = true → L.held ≠ []

theorem Settled.accepted (settled : L.Settled) : frameEnds.Accepts L.trace := by
  cases armed : L.armed with
  | false => exact (settled.disarmed armed).1
  | true => exact (settled.armed armed).1.1

/-- A frame was dropped that never ended. -/
structure Lost (L : Ledger) : Prop where
  running : Running L.trace
  held : L.held = []
  passed : L.passed = false
  failure : L.failure = false

/-! ### Single operations -/

private theorem note_ended (L : Ledger) (registered : Bool) {e : Event} (silent : frameEnds.Silent e) :
    (Ended (L.note registered e).trace ↔ Ended L.trace) ∧
      (Running (L.note registered e).trace ↔ Running L.trace) :=
  ended_congr (note_silent L registered silent)

private theorem silent_eoc : frameEnds.Silent .eoc := fun _ => ⟨trivial, rfl⟩

private theorem silent_releaseSlab (idx : Nat) : frameEnds.Silent (.releaseSlab idx) :=
  fun _ => ⟨trivial, rfl⟩

private theorem release_ended (cb : Callbacks) (L : Ledger) :
    (Ended (L.release cb).trace ↔ Ended L.trace) ∧
      (Running (L.release cb).trace ↔ Running L.trace) :=
  ended_congr (release_silent cb L silent_releaseSlab)

theorem Settled.note (settled : L.Settled) (registered : Bool) {e : Event}
    (silent : frameEnds.Silent e) : (L.note registered e).Settled := by
  obtain ⟨ended, running⟩ := note_ended L registered silent
  refine ⟨?_, ?_, settled.live, settled.failed, settled.passed⟩
  · rw [running]
    exact settled.armed
  · rw [ended]
    exact settled.disarmed

/-- After an abort the frame has ended: by it, or before. -/
private theorem Settled.abort (listening : Listening cb) (settled : L.Settled) (reason : AbortReason) :
    Ended (L.abort cb reason).trace := by
  cases armed : L.armed with
  | false =>
    have trace : (L.abort cb reason).trace = L.trace := by simp [Ledger.abort, Ledger.note, armed]
    rw [trace]
    exact settled.disarmed armed
  | true =>
    have trace : (L.abort cb reason).trace = .abort reason :: L.trace := by
      simp [Ledger.abort, Ledger.note, armed, listening.frameAbort]
    rw [trace]
    exact (settled.armed armed).1.next (Or.inl ⟨reason, rfl⟩)

private theorem Settled.fail (listening : Listening cb) (settled : L.Settled) (reason : AbortReason) :
    (L.fail cb reason).Settled :=
  ⟨fun h => (by cases h), fun _ => settled.abort listening reason, fun h => (by cases h),
    fun _ => rfl, settled.passed⟩

/-- A ledger that holds nothing and whose frame has ended. -/
private theorem settled_of_ended (ended : Ended L.trace) (held : L.held = [])
    (armed : L.armed = false) (passed : L.passed = false) : L.Settled where
  armed h := by rw [armed] at h; cases h
  disarmed _ := ended
  live _ h := absurd held h
  failed _ := armed
  passed h := by rw [passed] at h; cases h

private theorem settled_of_running (running : Running L.trace) (held : L.held ≠ [])
    (armed : L.armed = true) (failure : L.failure = false) : L.Settled where
  armed _ := ⟨running, held⟩
  disarmed h := by rw [armed] at h; cases h
  live _ _ := armed
  failed h := by rw [failure] at h; cases h
  passed _ := held

private theorem Settled.unarmed_of_empty (settled : L.Settled) (held : L.held = []) : L.armed = false := by
  cases armed : L.armed with
  | false => rfl
  | true => exact absurd held (settled.armed armed).2

/-! ### The parts of a move -/

private theorem before_settled (listening : Listening cb) (p : Packet) (settled : L.Settled) :
    ((L.gap cb p).cap cb).Settled := by
  have silent (seam : Nat) : frameEnds.Silent (.resyncGap seam) := fun _ => ⟨trivial, rfl⟩
  have gap : (L.gap cb p).Settled := by
    unfold Ledger.gap
    split
    · have asked := settled.note (cb.resyncGap && L.passed) (silent L.chain)
      dsimp only
      split
      · exact asked
      · exact asked.fail listening .gap
    · exact settled
  unfold cap
  split
  · exact settled_of_ended ((release_ended cb _).1.mpr (gap.abort listening .slabCap)) rfl rfl rfl
  · exact gap

/-- A skipped EOC ends nothing: the frame must have ended before. -/
private theorem skipEoc_settled (listening : Listening cb) (settled : L.Settled)
    (kept : ¬ (L.passed = false ∧ L.failure = false ∧ L.held ≠ [])) : (L.skipEoc cb).Settled := by
  -- Without an abort from here nothing is held, so nothing is armed either.
  have unarmed (idle : ¬ (L.failure || L.passed) = true) : L.armed = false := by
    have quiet := Bool.or_eq_false_iff.mp (Bool.eq_false_iff.mpr idle)
    refine settled.unarmed_of_empty ?_
    by_contra held
    exact kept ⟨quiet.2, quiet.1, held⟩
  refine settled_of_ended ?_ rfl ?_ rfl
  · refine (note_ended _ true silent_eoc).1.mpr ((release_ended cb _).1.mpr ?_)
    split
    · exact settled.abort listening .damagedEOC
    next idle => exact settled.disarmed (unarmed idle)
  · unfold skipEoc
    split
    · rfl
    next idle => exact unarmed idle

/-- A frame that is still running is lost by the skipped EOC of an idle handler. -/
private theorem skipEoc_lost (running : Running L.trace) (passed : L.passed = false)
    (failure : L.failure = false) : (L.skipEoc cb).Lost := by
  have idle : ¬ (L.failure || L.passed) = true := by simp [passed, failure]
  refine ⟨(note_ended _ true silent_eoc).2.mpr ((release_ended cb _).2.mpr ?_), rfl, rfl, rfl⟩
  rw [if_neg idle]
  exact running

private theorem openFrame_running (listening : Listening cb) (p : Packet) (settled : L.Settled) :
    Running (L.openFrame cb p).trace := by
  have closed : Ended (L.missed cb).trace := by
    unfold missed
    split
    next none_held =>
      exact settled.disarmed (settled.unarmed_of_empty (List.isEmpty_iff.mp none_held))
    · exact (release_ended cb _).1.mpr (settled.abort listening .missedEOC)
  have trace : (L.openFrame cb p).trace = .chunk true (L.missed cb).chain p.size :: (L.missed cb).trace := by
    simp [openFrame, Ledger.append, listening.chunk]
  rw [trace]
  exact ⟨⟨closed.2, closed.1⟩, rfl, rfl⟩

private theorem main_settled (listening : Listening cb) (p : Packet) (o : MainOutcome)
    (settled : L.Settled) :
    (L.main cb p o).Settled ∧ (o.goesOn = true → (L.main cb p o).armed = true) := by
  have silent (reason : RelatchReason) : frameEnds.Silent (.relatch reason) :=
    fun _ => ⟨trivial, rfl⟩
  have running := openFrame_running listening p settled
  have held : (L.openFrame cb p).held ≠ [] := by simp [openFrame, Ledger.append]
  unfold main
  cases o with
  | tracked relatch =>
    have tracked : { L.openFrame cb p with passed := true }.Settled :=
      settled_of_running running held rfl rfl
    cases relatch with
    | none => exact ⟨tracked, fun _ => rfl⟩
    | some reason => exact ⟨tracked.note cb.relatch (silent reason), fun _ => rfl⟩
  | rejected =>
    have opened : (L.openFrame cb p).Settled := settled_of_running running held rfl rfl
    exact ⟨opened.fail listening .parse, fun h => by cases h⟩
  | collected more => exact ⟨settled_of_running running held rfl rfl, fun _ => rfl⟩

/-- A body packet of a running frame: the frame goes on, or has ended by a parse failure. -/
private theorem body_settled (listening : Listening cb) (p : Packet) (point : Option (BitVec 32))
    (failed : Bool) (settled : L.Settled) (passed : L.passed = true) (failure : L.failure = false) :
    (L.body cb p point failed).Settled ∧
      (L.body cb p point failed).armed = !failed ∧
      (frameEnds.view (L.body cb p point failed).trace).started = true := by
  have silent (offset : Nat) : frameEnds.Silent (.chunk false offset p.size) := fun _ => ⟨trivial, rfl⟩
  have silentPoint (resyncByte : BitVec 32) : frameEnds.Silent (.resyncPoint resyncByte p.pid) :=
    fun _ => ⟨trivial, rfl⟩
  -- A tracked frame is held and, not having failed, armed: it is still running.
  have before := (settled.armed (settled.live failure (settled.passed passed))).1
  have running : Running (L.append cb false p).trace :=
    (note_ended L cb.chunk (silent L.chain)).2.mpr before
  have appended : (L.append cb false p).Settled :=
    settled_of_running running (by simp [Ledger.append]) rfl failure
  -- With or without a resync point, the failure is dealt with alike.
  have fails {M : Ledger} (settled : M.Settled) (running : Running M.trace) :
      ({ M with passed := false }.fail cb .parse).Settled ∧
        (frameEnds.view ({ M with passed := false }.fail cb .parse).trace).started = true := by
    have unpassed : { M with passed := false }.Settled :=
      ⟨settled.armed, settled.disarmed, settled.live, settled.failed, fun h => by cases h⟩
    refine ⟨unpassed.fail listening .parse, ?_⟩
    simp only [Ledger.fail, Ledger.abort, Ledger.note]
    split
    · exact running.2.1
    · exact running.2.1
  unfold body
  dsimp only
  cases point with
  | none =>
    cases failed with
    | true => exact ⟨(fails appended running).1, rfl, (fails appended running).2⟩
    | false => exact ⟨appended, rfl, running.2.1⟩
  | some resyncByte =>
    have noted := appended.note true (silentPoint resyncByte)
    have still := (note_ended (L.append cb false p) true (silentPoint resyncByte)).2.mpr running
    cases failed with
    | true => exact ⟨(fails noted still).1, rfl, (fails noted still).2⟩
    | false => exact ⟨noted, rfl, still.2.1⟩

private theorem finish_settled (listening : Listening cb) (intact : Bool) (settled : L.Settled)
    (armed : L.armed = true) : (L.finish cb intact).Settled := by
  refine settled_of_ended ?_ rfl rfl rfl
  refine (note_ended _ true silent_eoc).1.mpr ((release_ended cb _).1.mpr ?_)
  have trace : ({ L with armed := false }.note cb.frameReady (.frameReady intact)).idle.trace =
      .frameReady intact :: L.trace := by
    simp [idle, Ledger.note, listening.frameReady]
  rw [trace]
  exact (settled.armed armed).1.next (Or.inr ⟨intact, rfl⟩)

/-- A frame that was aborted and is completed ends twice. -/
private theorem finish_twice (listening : Listening cb) (intact : Bool) (settled : L.Settled)
    (armed : L.armed = false) (started : (frameEnds.view L.trace).started = true) :
    ¬ frameEnds.Accepts (L.finish cb intact).trace := by
  intro accepted
  have ready : frameEnds.Accepts (.frameReady intact :: L.trace) := by
    refine accepted.of_suffix ?_
    have trace : ({ L with armed := false }.note cb.frameReady (.frameReady intact)).trace =
        .frameReady intact :: L.trace := by
      simp [Ledger.note, listening.frameReady]
    rw [← trace]
    exact (release_adds cb _).suffix.trans (List.suffix_append _ _)
  -- The abort has ended the frame, and `frame_ready` asks for one that has not ended.
  have one := (settled.disarmed armed).2 started
  have none_yet := ready.1.2
  omega

/-! ### One call -/

/-- A marker on a body packet, while a part of a main header is all there is of the frame. -/
def losesFrame (p : Packet) (L : Ledger) : Bool :=
  decide (p.mh = 0) && p.marker && !p.gap && !L.passed && !L.failure && !L.held.isEmpty &&
    decide (L.held.length < 3072)

/-- The condition, seen where the skip is decided. -/
private theorem losesFrame_iff (cb : Callbacks) (p : Packet) (L : Ledger) (isBody : p.mh = 0)
    (marker : p.marker = true) :
    L.losesFrame p = true ↔ ((L.gap cb p).cap cb).passed = false ∧
      ((L.gap cb p).cap cb).failure = false ∧ ((L.gap cb p).cap cb).held ≠ [] := by
  have held : (L.gap cb p).held = L.held := by
    unfold gap
    split
    · dsimp only
      split <;> rfl
    · rfl
  unfold losesFrame cap
  rw [held]
  by_cases full : 3072 ≤ L.held.length
  · have room : ¬ L.held.length < 3072 := by omega
    simp [full, room, idle, release]
  · have room : L.held.length < 3072 := by omega
    simp only [if_neg full, isBody, marker, room, decide_true, Bool.true_and, Bool.and_true]
    unfold gap
    by_cases hit : (p.gap && (L.passed || !L.held.isEmpty) && !L.failure) = true
    · -- The gap was accepted for a tracked frame, or has failed the frame.
      have here : p.gap = true := by
        simp only [Bool.and_eq_true] at hit
        exact hit.1.1
      rw [if_pos hit]
      dsimp only
      split
      next accepted =>
        have passed : L.passed = true := by
          simp only [Bool.and_eq_true] at accepted
          exact accepted.1.2
        simp [here, Ledger.note, passed]
      · simp [here, Ledger.fail]
    · rw [if_neg hit]
      cases passed : L.passed <;> cases failure : L.failure <;> simp [passed, failure] at hit ⊢
      intro some_held
      cases here : p.gap with
      | false => rfl
      | true => exact absurd (hit here) some_held

private theorem live_of_not_skips {p : Packet} (isBody : p.mh = 0) (goes : L.skips p = false) :
    L.passed = true ∧ L.failure = false := by
  simpa [skips, isBody] using goes

private theorem pull_twice (listening : Listening cb) (p : Packet) (o : Outcome) (settled : L.Settled)
    (isBody : p.mh = 0) (marker : p.marker = true)
    (goes : ((L.gap cb p).cap cb).skips p = false) (failed : o.failed = true) :
    ¬ frameEnds.Accepts (L.pull cb p o).trace := by
  have before := before_settled listening p settled
  unfold pull
  generalize (L.gap cb p).cap cb = M at before goes
  obtain ⟨passed, failure⟩ := live_of_not_skips isBody goes
  obtain ⟨after, armed, started⟩ := body_settled listening p o.point o.failed before passed failure
  simp only [goes, Bool.false_eq_true, if_false, isBody, if_true, marker]
  exact finish_twice listening o.intact after (by rw [armed, failed]; rfl) started

private theorem pull_loses (p : Packet) (o : Outcome) (listening : Listening cb) (settled : L.Settled)
    (loses : L.losesFrame p = true) : (L.pull cb p o).Lost := by
  have before := before_settled listening p settled
  obtain ⟨isBody, marker⟩ : p.mh = 0 ∧ p.marker = true := by
    simp only [losesFrame, Bool.and_eq_true, decide_eq_true_eq] at loses
    exact ⟨loses.1.1.1.1.1.1, loses.1.1.1.1.1.2⟩
  obtain ⟨passed, failure, held⟩ := (losesFrame_iff cb p L isBody marker).mp loses
  unfold pull
  generalize (L.gap cb p).cap cb = M at before passed failure held
  have skipped : M.skips p = true := by simp [skips, isBody, passed]
  have running := (before.armed (before.live failure held)).1
  simp only [skipped, if_true, skip, marker]
  exact skipEoc_lost ((note_ended M _ (silent_releaseSlab p.slabIdx)).2.mpr running) passed failure

private theorem pull_settled (listening : Listening cb) (p : Packet) (o : Outcome) (settled : L.Settled)
    (once : ¬ (p.mh = 0 ∧ p.marker = true ∧ ((L.gap cb p).cap cb).skips p = false ∧ o.failed = true))
    (kept : L.losesFrame p = false) : (L.pull cb p o).Settled := by
  have before := before_settled listening p settled
  have loses := losesFrame_iff cb p L
  unfold pull
  generalize (L.gap cb p).cap cb = M at before loses once
  dsimp only
  split
  next skipped =>
    have released := before.note cb.releaseSlab (silent_releaseSlab p.slabIdx)
    have isBody : p.mh = 0 := by
      simp only [skips, Bool.and_eq_true, decide_eq_true_eq] at skipped
      exact skipped.1
    unfold skip
    dsimp only
    split
    -- A skipped EOC ends nothing, and by hypothesis no frame is still running.
    next marker =>
      refine skipEoc_settled listening released ?_
      rw [← Bool.not_eq_true] at kept
      exact fun lost => kept ((loses isBody marker).mpr lost)
    · exact released
  next goes =>
    rw [Bool.not_eq_true] at goes
    split
    next isBody =>
      obtain ⟨passed, failure⟩ := live_of_not_skips isBody goes
      obtain ⟨after, armed, _⟩ := body_settled listening p o.point o.failed before passed failure
      split
      -- With the marker on it the packet must not fail as well: that would end the frame twice.
      next marker =>
        have parsed : o.failed = false := by
          by_contra failed
          exact once ⟨isBody, marker, goes, Bool.not_eq_false _ ▸ failed⟩
        exact finish_settled listening o.intact after (by rw [armed, parsed]; rfl)
      · exact after
    · obtain ⟨after, armed⟩ := main_settled listening p o.main before
      split
      next more =>
        exact finish_settled listening o.intact after (armed (Bool.and_eq_true _ _ ▸ more).1)
      · exact after

/-- A lost frame stays lost until the next main packet, which then starts a frame too early. -/
private theorem pull_lost (listening : Listening cb) (p : Packet) (o : Outcome) (lost : L.Lost) :
    (L.pull cb p o).Lost ∨ ¬ frameEnds.Accepts (L.pull cb p o).trace := by
  have still : (L.gap cb p).cap cb = L := by
    simp [gap, cap, lost.held, lost.passed]
  unfold pull
  rw [still]
  dsimp only
  split
  · left
    have released := (note_ended L cb.releaseSlab (silent_releaseSlab p.slabIdx)).2.mpr lost.running
    unfold skip
    dsimp only
    split
    · exact skipEoc_lost released lost.passed lost.failure
    · exact ⟨released, lost.held, lost.passed, lost.failure⟩
  next goes =>
    right
    have main : p.mh ≠ 0 := by
      intro isBody
      simp [skips, isBody, lost.passed] at goes
    rw [if_neg main]
    intro accepted
    -- Its chunk starts a frame while the lost one has not ended.
    have opened : frameEnds.Accepts (L.openFrame cb p).trace := by
      refine Monitor.Accepts.of_suffix (main_adds cb L p o.main).suffix ?_
      split at accepted
      · exact accepted.of_suffix (finish_adds cb _ o.intact).suffix
      · exact accepted
    have trace : (L.openFrame cb p).trace = .chunk true L.chain p.size :: L.trace := by
      simp [openFrame, missed, lost.held, Ledger.append, listening.chunk]
    rw [trace] at opened
    have one := opened.1 lost.running.2.1
    have none_yet := lost.running.2.2
    omega

end Ledger

/-! ### Whole runs -/

namespace FrameHandler

variable {T : Type} (cb : Callbacks) (ops : TileOps T)

/-- A body packet with the marker on which the precinct walk fails. -/
def endsTwice (s : FrameHandler T) (p : Packet) : Bool :=
  decide (p.mh = 0) && p.marker && ((s.onGap cb p).onSlabCap cb ops).parseFails ops p

/-- A body packet with the marker and without a gap, while nothing but a part of a main header
is held and neither a header was passed nor a failure seen. -/
def losesFrame (s : FrameHandler T) (p : Packet) : Bool := s.ledger.losesFrame p

/-- No packet of the run meets either condition in the state it finds. -/
def EndsClean : FrameHandler T → List Packet → Prop
  | _, [] => True
  | s, p :: rest =>
    s.endsTwice cb ops p = false ∧ s.losesFrame p = false ∧ EndsClean (s.pullData cb ops p) rest

/-- Every frame ends exactly once: no end before its first chunk and no second one, one end
before the next frame starts, and one end of the last frame unless its slabs are still held. -/
def EndsOnce (s : FrameHandler T) : Prop :=
  frameEnds.Accepts s.trace ∧
    (s.heldSlabs = [] → (frameEnds.view s.trace).started = true → (frameEnds.view s.trace).ends = 1)

variable {cb ops}

private theorem run_lost (listening : Ledger.Listening cb) (s : FrameHandler T) (lost : s.ledger.Lost)
    (packets : List Packet) : ¬ (s.run cb ops packets).EndsOnce := by
  induction packets generalizing s with
  | nil =>
    intro once
    have one := once.2 lost.held lost.running.2.1
    have none_yet := lost.running.2.2
    change (frameEnds.view s.ledger.trace).ends = 1 at one
    omega
  | cons p rest ih =>
    obtain ⟨o, moved, _⟩ := pullData_ledger cb ops p s
    rcases Ledger.pull_lost listening p o lost with still | broken
    · exact ih _ (moved ▸ still)
    · intro once
      rw [← moved] at broken
      exact broken (once.1.of_suffix (suffix_run cb ops (s.pullData cb ops p) rest))

/-- The first kind of packet, in the terms of the ledger. -/
private theorem endsTwice_iff {s : FrameHandler T} {p : Packet} {o : Outcome}
    (failed : o.failed = ((s.onGap cb p).onSlabCap cb ops).parseFails ops p) :
    s.endsTwice cb ops p = true ↔ p.mh = 0 ∧ p.marker = true ∧
      ((s.ledger.gap cb p).cap cb).skips p = false ∧ o.failed = true := by
  have before : ((s.onGap cb p).onSlabCap cb ops).ledger = (s.ledger.gap cb p).cap cb := by
    rw [onSlabCap_ledger, onGap_ledger]
  rw [failed, ← before]
  unfold endsTwice
  generalize (s.onGap cb p).onSlabCap cb ops = u
  simp only [Bool.and_eq_true, decide_eq_true_eq]
  constructor
  · rintro ⟨⟨isBody, marker⟩, fails⟩
    refine ⟨isBody, marker, ?_, fails⟩
    -- The walk only fails on a frame that is tracked.
    simp only [parseFails, Bool.and_eq_true, Bool.not_eq_true'] at fails
    simp [Ledger.skips, ledger, fails.1.2, fails.2.1.1]
  · rintro ⟨isBody, marker, _, fails⟩
    exact ⟨⟨isBody, marker⟩, fails⟩

private theorem run_endsOnce_iff (listening : Ledger.Listening cb) (s : FrameHandler T)
    (settled : s.ledger.Settled) (packets : List Packet) :
    (s.run cb ops packets).EndsOnce ↔ s.EndsClean cb ops packets := by
  induction packets generalizing s with
  | nil =>
    refine iff_of_true ⟨settled.accepted, fun empty => ?_⟩ trivial
    exact (settled.disarmed (settled.unarmed_of_empty empty)).2
  | cons p rest ih =>
    obtain ⟨o, moved, failed, _⟩ := pullData_ledger cb ops p s
    have twice := endsTwice_iff (o := o) failed
    by_cases bad : s.endsTwice cb ops p = true
    -- The trace is refused from this call on, whatever follows.
    · obtain ⟨isBody, marker, goes, fails⟩ := twice.mp bad
      have broken := Ledger.pull_twice listening p o settled isBody marker goes fails
      rw [← moved] at broken
      constructor
      · intro once
        exact absurd (once.1.of_suffix (suffix_run cb ops (s.pullData cb ops p) rest)) broken
      · intro clean
        rw [clean.1] at bad
        cases bad
    · by_cases loses : s.losesFrame p = true
      -- The frame is lost by this call and does not come back.
      · have lost := Ledger.pull_loses p o listening settled loses
        rw [← moved] at lost
        constructor
        · intro once
          exact absurd once (run_lost listening (s.pullData cb ops p) lost rest)
        · intro clean
          rw [clean.2.1] at loses
          cases loses
      · have next := Ledger.pull_settled listening p o settled (fun h => bad (twice.mpr h))
          (Bool.eq_false_iff.mpr loses)
        rw [← moved] at next
        have later := ih (s.pullData cb ops p) next
        constructor
        · intro once
          exact ⟨Bool.eq_false_iff.mpr bad, Bool.eq_false_iff.mpr loses, later.mp once⟩
        · intro clean
          exact later.mpr clean.2.2

end FrameHandler

/-- With the three callbacks registered, every frame of a run ends exactly once if and only
if the run has no packet of the two kinds. -/
theorem endsOnce_iff_endsClean {T : Type} (cb : Callbacks) (ops : TileOps T) (tileHndr : T)
    (relatchK : Nat) (packets : List Packet) (listening : Ledger.Listening cb) :
    ((FrameHandler.new tileHndr relatchK).run cb ops packets).EndsOnce ↔
      (FrameHandler.new tileHndr relatchK).EndsClean cb ops packets := by
  refine FrameHandler.run_endsOnce_iff listening _ ?_ packets
  exact Ledger.settled_of_ended ⟨trivial, fun h => by cases h⟩ rfl rfl rfl

theorem endsOnce_emptyFrame : ((FrameHandler.new {} 4).run {} tileOps emptyFrame).EndsOnce := by
  refine (endsOnce_iff_endsClean {} tileOps {} 4 emptyFrame ⟨rfl, rfl, rfl⟩).mpr ?_
  exact ⟨by decide +kernel, by decide +kernel, by decide +kernel, by decide +kernel,
    by decide +kernel, by decide +kernel, trivial⟩

/-- The last packet of a frame, with a resync point behind its first precinct. That precinct
announces a cleanup segment of one byte, which is not allowed. -/
def corruptFrame : List Packet :=
  [headerPacket 0x80, packetOf 1 [0, 0x80, 0, 0, 0, 0x10, 0, 0, 0xE1] true]

/-- A part of a main header, and a body packet that ends the frame. -/
def headlessFrame : List Packet := [headerPacket 0x40, packetOf 1 (List.replicate 9 0) true]

/-- The first frame is aborted and then completed as well, the second one does not end. -/
theorem frames_end_twice_or_never :
    let twice := (FrameHandler.new {} 4).run {} tileOps corruptFrame
    let never := (FrameHandler.new {} 4).run {} tileOps headlessFrame
    twice.trace = [.eoc, .releaseSlab 1, .releaseSlab 0, .frameReady false, .abort .parse,
      .chunk false 86 1, .chunk true 0 86] ∧ ¬ twice.EndsOnce ∧
    never.trace = [.eoc, .releaseSlab 0, .releaseSlab 1, .chunk true 0 86] ∧ ¬ never.EndsOnce := by
  intro twice never
  have twice_trace : twice.trace = [.eoc, .releaseSlab 1, .releaseSlab 0, .frameReady false,
      .abort .parse, .chunk false 86 1, .chunk true 0 86] := by decide +kernel
  have never_trace : never.trace = [.eoc, .releaseSlab 0, .releaseSlab 1, .chunk true 0 86] := by
    decide +kernel
  have never_held : never.heldSlabs = [] := by decide +kernel
  refine ⟨twice_trace, ?_, never_trace, ?_⟩
  · rintro ⟨accepted, _⟩
    rw [twice_trace] at accepted
    -- `frame_ready` comes when the frame has ended once already.
    exact absurd accepted.2.2.2.1.2 (by decide)
  · rintro ⟨_, ended⟩
    have once := ended never_held
    rw [never_trace] at once
    exact absurd (once rfl) (by decide)

end RtpDecoder.Frame
