import RtpDecoder.Frame.Handler
import RtpDecoder.Lib.Monitor

/-!
# The ledger of a frame handler

What `pull_data` does to the held slabs, the chain and the callback trace depends on the
tile handler only through a few outcomes: what became of a main packet, whether a precinct
failed to parse, and whether a finished frame was intact. The ledger keeps the former and
takes the latter as inputs. Every call of `pull_data` is a move of the ledger, so what holds
for all moves holds for the handler.
-/

namespace RtpDecoder.Frame

open RtpDecoder.Parser (Chunk Codestream)

structure Ledger where
  held : List Nat := []
  chain : Nat := 0
  chunks : List Chunk := []
  failure : Bool := false
  passed : Bool := false
  armed : Bool := false
  trace : List Event := []

/-- What became of a main packet. Only a rejected one and a collected one with `more` false
keep `pull_data` from looking at the marker. -/
inductive MainOutcome where
  | tracked (relatch : Option RelatchReason)
  | rejected
  | collected (more : Bool)
deriving DecidableEq, Repr

def MainOutcome.goesOn : MainOutcome → Bool
  | .tracked _ => true
  | .rejected => false
  | .collected more => more

/-- The outcomes that a move depends on. -/
structure Outcome where
  main : MainOutcome := .collected true
  point : Option (BitVec 32) := none
  failed : Bool := false
  intact : Bool := true
deriving DecidableEq, Repr

namespace Ledger

variable (cb : Callbacks)

def note (registered : Bool) (e : Event) (L : Ledger) : Ledger :=
  { L with trace := (if registered then [e] else []) ++ L.trace }

def abort (reason : AbortReason) (L : Ledger) : Ledger :=
  { L with armed := false }.note (L.armed && cb.frameAbort) (.abort reason)

def fail (reason : AbortReason) (L : Ledger) : Ledger := { L.abort cb reason with failure := true }

def release (L : Ledger) : Ledger :=
  { L with
    trace := (if cb.releaseSlab then (L.held.map Event.releaseSlab).reverse else []) ++ L.trace
    held := []
    chain := 0
    chunks := [] }

def idle (L : Ledger) : Ledger := { L with failure := false, passed := false }

def append (main : Bool) (p : Packet) (L : Ledger) : Ledger :=
  { L with
    armed := true
    trace := (if cb.chunk then [.chunk main L.chain p.size] else []) ++ L.trace
    chunks := L.chunks ++ [p.chunk]
    held := L.held ++ [p.slabIdx]
    chain := (L.chain + p.size) % 2 ^ 64 }

def gap (p : Packet) (L : Ledger) : Ledger :=
  if p.gap && (L.passed || !L.held.isEmpty) && !L.failure then
    let asked := cb.resyncGap && L.passed
    let L := L.note asked (.resyncGap L.chain)
    if asked && p.gapAnswer then L else L.fail cb .gap
  else L

def cap (L : Ledger) : Ledger :=
  if 3072 ≤ L.held.length then ((L.abort cb .slabCap).release cb).idle else L

def skips (p : Packet) (L : Ledger) : Bool := decide (p.mh = 0) && (!L.passed || L.failure)

/-- What is left of a frame whose EOC was skipped. -/
def skipEoc (L : Ledger) : Ledger :=
  let L := if L.failure || L.passed then L.abort cb .damagedEOC else L
  (L.idle.release cb).note true .eoc

def skip (p : Packet) (L : Ledger) : Ledger :=
  let L := L.note cb.releaseSlab (.releaseSlab p.slabIdx)
  if p.marker then L.skipEoc cb else L

def missed (L : Ledger) : Ledger :=
  if L.held.isEmpty then L else { (L.abort cb .missedEOC).release cb with passed := false }

/-- The first chunk of a new frame. -/
def openFrame (p : Packet) (L : Ledger) : Ledger :=
  { L.missed cb with failure := false }.append cb true p

def main (p : Packet) (o : MainOutcome) (L : Ledger) : Ledger :=
  match o with
  | .tracked none => { L.openFrame cb p with passed := true }
  | .tracked (some reason) =>
    { L.openFrame cb p with passed := true }.note cb.relatch (.relatch reason)
  | .rejected => (L.openFrame cb p).fail cb .parse
  | .collected _ => L.openFrame cb p

def body (p : Packet) (point : Option (BitVec 32)) (failed : Bool) (L : Ledger) : Ledger :=
  let L := L.append cb false p
  let L := match point with
    | none => L
    | some resyncByte => L.note true (.resyncPoint resyncByte p.pid)
  if failed then { L with passed := false }.fail cb .parse else L

def finish (intact : Bool) (L : Ledger) : Ledger :=
  (({ L with armed := false }.note cb.frameReady (.frameReady intact)).idle.release cb).note true .eoc

/-- One call of `pull_data`. -/
def pull (p : Packet) (o : Outcome) (L : Ledger) : Ledger :=
  let L := (L.gap cb p).cap cb
  if L.skips p then L.skip cb p
  else if p.mh = 0 then
    let L := L.body cb p o.point o.failed
    if p.marker then L.finish cb o.intact else L
  else
    let L := L.main cb p o.main
    if o.main.goesOn && p.marker then L.finish cb o.intact else L

/-! ### A packet with the marker -/

section Marker

variable (L : Ledger) {p : Packet} {o : Outcome}

/-- At a marker block the frame is over: nothing is held and nothing is tracked any more. -/
theorem pull_marked (marked : p.marker = true) (goes : p.mh = 0 ∨ o.main.goesOn = true) :
    (L.pull cb p o).held = [] ∧ (L.pull cb p o).passed = false ∧ (L.pull cb p o).failure = false := by
  simp only [pull, marked, Bool.and_true, if_true]
  split
  · simp only [skip, marked, if_true]
    exact ⟨rfl, rfl, rfl⟩
  · split
    · exact ⟨rfl, rfl, rfl⟩
    next main =>
      rw [goes.resolve_left main, if_pos rfl]
      exact ⟨rfl, rfl, rfl⟩

/-- A main packet that returns before is held. -/
theorem pull_stopped (main : p.mh ≠ 0) (stops : o.main.goesOn = false) : (L.pull cb p o).held ≠ [] := by
  have opened (M : Ledger) : (M.openFrame cb p).held ≠ [] := by simp [openFrame, append]
  simp only [pull, skips, main, decide_false, Bool.false_and, Bool.false_eq_true, if_false, stops]
  generalize o.main = outcome at stops
  cases outcome with
  | tracked relatch => cases stops
  | rejected => exact opened _
  | collected more => exact opened _

end Marker

/-! ### Growth of the trace -/

/-- The steps from `L` to `M` add events of some kinds to the trace. -/
def Adds (kinds : Event → Prop) (L M : Ledger) : Prop :=
  ∃ added, M.trace = added ++ L.trace ∧ ∀ e ∈ added, kinds e

namespace Adds

variable {kinds : Event → Prop} {L M N : Ledger}

theorem nothing (same : M.trace = L.trace) : Adds kinds L M := ⟨[], same, by simp⟩

theorem trans (first : Adds kinds L M) (second : Adds kinds M N) : Adds kinds L N := by
  obtain ⟨added, trace, all⟩ := first
  obtain ⟨added', trace', all'⟩ := second
  refine ⟨added' ++ added, by rw [trace', trace, List.append_assoc], ?_⟩
  intro e member
  exact (List.mem_append.mp member).elim (all' e) (all e)

theorem any (adds : Adds kinds L M) : Adds (fun _ => True) L M := by
  obtain ⟨added, trace, _⟩ := adds
  exact ⟨added, trace, fun _ _ => trivial⟩

theorem suffix (adds : Adds kinds L M) : L.trace <:+ M.trace := by
  obtain ⟨added, trace, _⟩ := adds
  exact ⟨added, trace.symm⟩

/-- A filter that looks at none of the kinds sees no difference. -/
theorem filter (adds : Adds kinds L M) {f : Event → Bool} (overlooked : ∀ e, kinds e → f e = false) :
    M.trace.filter f = L.trace.filter f := by
  obtain ⟨added, trace, all⟩ := adds
  have none_kept : added.filter f = [] := List.filter_eq_nil_iff.mpr fun e member => by
    simp [overlooked e (all e member)]
  rw [trace, List.filter_append, none_kept, List.nil_append]

end Adds

/-- Neither a chunk nor the end of a call at its marker. -/
def sideEvent : Event → Prop
  | .chunk _ _ _ => False
  | .eoc => False
  | _ => True

section Growth

variable {kinds : Event → Prop} (L : Ledger)

theorem note_adds (registered : Bool) {e : Event} (kind : kinds e) : Adds kinds L (L.note registered e) := by
  refine ⟨_, rfl, ?_⟩
  cases registered <;> simp [kind]

theorem abort_adds (reason : AbortReason) : Adds sideEvent L (L.abort cb reason) :=
  note_adds _ _ (e := .abort reason) trivial

theorem release_adds_of (given : ∀ idx, kinds (.releaseSlab idx)) : Adds kinds L (L.release cb) := by
  refine ⟨_, rfl, ?_⟩
  intro e member
  split at member
  · obtain ⟨idx, _, rfl⟩ := List.mem_map.mp (List.mem_reverse.mp member)
    exact given idx
  · cases member

theorem release_adds : Adds sideEvent L (L.release cb) := release_adds_of cb L fun _ => trivial

theorem before_adds (p : Packet) : Adds sideEvent L ((L.gap cb p).cap cb) := by
  have gap : Adds sideEvent L (L.gap cb p) := by
    have asked : Adds sideEvent L (L.note (cb.resyncGap && L.passed) (.resyncGap L.chain)) :=
      note_adds L _ trivial
    simp only [Ledger.gap]
    split
    · split
      · exact asked
      · exact asked.trans (abort_adds cb _ .gap)
    · exact .nothing rfl
  simp only [cap]
  split
  · exact gap.trans ((abort_adds cb _ .slabCap).trans (release_adds cb _))
  · exact gap

theorem missed_adds : Adds sideEvent L (L.missed cb) := by
  simp only [missed]
  split
  · exact .nothing rfl
  · exact (abort_adds cb L .missedEOC).trans (release_adds cb _)

theorem main_adds (p : Packet) (o : MainOutcome) : Adds sideEvent (L.openFrame cb p) (L.main cb p o) := by
  cases o with
  | tracked relatch =>
    cases relatch with
    | none => exact .nothing rfl
    | some reason => exact note_adds { L.openFrame cb p with passed := true } cb.relatch (e := .relatch reason) trivial
  | rejected => exact abort_adds cb _ .parse
  | collected more => exact .nothing rfl

theorem body_adds (p : Packet) (point : Option (BitVec 32)) (failed : Bool) :
    Adds sideEvent (L.append cb false p) (L.body cb p point failed) := by
  simp only [body]
  cases point with
  | none =>
    split
    · exact abort_adds cb _ .parse
    · exact .nothing rfl
  | some resyncByte =>
    have noted : Adds sideEvent (L.append cb false p)
        ((L.append cb false p).note true (.resyncPoint resyncByte p.pid)) := note_adds _ true trivial
    split
    · exact noted.trans (abort_adds cb _ .parse)
    · exact noted

theorem skip_adds (p : Packet) : Adds (fun _ => True) L (L.skip cb p) := by
  have given : Adds (fun _ => True) L (L.note cb.releaseSlab (.releaseSlab p.slabIdx)) := note_adds L _ trivial
  simp only [skip]
  split
  · refine given.trans (Adds.trans ?_ (note_adds _ true trivial))
    refine Adds.trans ?_ (release_adds cb _).any
    split
    · exact (abort_adds cb _ .damagedEOC).any
    · exact .nothing rfl
  · exact given

theorem finish_adds (intact : Bool) : Adds (fun _ => True) L (L.finish cb intact) := by
  have reported : Adds (fun _ => True) L ({ L with armed := false }.note cb.frameReady (.frameReady intact)) :=
    note_adds { L with armed := false } _ trivial
  exact (reported.trans (release_adds cb _).any).trans (note_adds _ true trivial)

theorem suffix_pull (p : Packet) (o : Outcome) : L.trace <:+ (L.pull cb p o).trace := by
  refine (before_adds cb L p).suffix.trans ?_
  simp only [pull]
  generalize (L.gap cb p).cap cb = M
  split
  · exact (skip_adds cb M p).suffix
  split
  · have added : M.trace <:+ (M.body cb p o.point o.failed).trace :=
      (List.suffix_append _ _).trans (body_adds cb M p o.point o.failed).suffix
    split
    · exact added.trans (finish_adds cb _ o.intact).suffix
    · exact added
  · have opened : M.trace <:+ (M.openFrame cb p).trace :=
      (missed_adds cb M).suffix.trans (List.suffix_append _ _)
    have added := opened.trans (main_adds cb M p o.main).suffix
    split
    · exact added.trans (finish_adds cb _ o.intact).suffix
    · exact added

end Growth

/-! ### Selected events

Most events of a call do not interest a given question about the trace. -/

/-- `f` looks at neither aborts nor frame ends nor the notes to the other consumers. -/
structure Overlooks (f : Event → Bool) : Prop where
  abort : ∀ reason, f (.abort reason) = false
  releaseSlab : ∀ idx, f (.releaseSlab idx) = false
  frameReady : ∀ intact, f (.frameReady intact) = false
  relatch : ∀ reason, f (.relatch reason) = false
  resyncGap : ∀ seam, f (.resyncGap seam) = false
  resyncPoint : ∀ resyncByte pid, f (.resyncPoint resyncByte pid) = false

section Overlooks

variable {f : Event → Bool} (overlooks : Overlooks f) (L : Ledger)

theorem filter_note (registered : Bool) {e : Event} (plain : f e = false) :
    (L.note registered e).trace.filter f = L.trace.filter f :=
  (note_adds L registered plain).filter fun _ overlooked => overlooked

include overlooks

private theorem Overlooks.side (e : Event) (side : sideEvent e) : f e = false := by
  cases e with
  | chunk main offset len => exact side.elim
  | abort reason => exact overlooks.abort reason
  | frameReady intact => exact overlooks.frameReady intact
  | releaseSlab idx => exact overlooks.releaseSlab idx
  | relatch reason => exact overlooks.relatch reason
  | resyncGap seam => exact overlooks.resyncGap seam
  | resyncPoint resyncByte pid => exact overlooks.resyncPoint resyncByte pid
  | eoc => exact side.elim

theorem filter_abort (reason : AbortReason) : (L.abort cb reason).trace.filter f = L.trace.filter f :=
  (abort_adds cb L reason).filter overlooks.side

theorem filter_release : (L.release cb).trace.filter f = L.trace.filter f :=
  (release_adds cb L).filter overlooks.side

theorem filter_before (p : Packet) : ((L.gap cb p).cap cb).trace.filter f = L.trace.filter f :=
  (before_adds cb L p).filter overlooks.side

theorem filter_main (p : Packet) (o : MainOutcome) :
    (L.main cb p o).trace.filter f = (L.openFrame cb p).trace.filter f :=
  (main_adds cb L p o).filter overlooks.side

theorem filter_openFrame (p : Packet) :
    (L.openFrame cb p).trace.filter f =
      (if cb.chunk then [Event.chunk true (L.missed cb).chain p.size] else []).filter f ++
        L.trace.filter f := by
  rw [← (missed_adds cb L).filter overlooks.side, ← List.filter_append]
  rfl

theorem filter_body (p : Packet) (point : Option (BitVec 32)) (failed : Bool) :
    (L.body cb p point failed).trace.filter f =
      (if cb.chunk then [Event.chunk false L.chain p.size] else []).filter f ++ L.trace.filter f := by
  rw [(body_adds cb L p point failed).filter overlooks.side, ← List.filter_append]
  rfl

end Overlooks

/-! ### Monitors -/

section Monitors

variable {V : Type} {m : Monitor Event V} (L : Ledger)

/-- A monitor that does not care for an event does not care for a note of it. -/
theorem note_silent (registered : Bool) {e : Event} (silent : m.Silent e) :
    m.view (L.note registered e).trace = m.view L.trace ∧
      (m.Accepts (L.note registered e).trace ↔ m.Accepts L.trace) := by
  apply Monitor.silent_append
  intro e' mem
  cases registered with
  | false => cases mem
  | true => exact List.mem_singleton.mp mem ▸ silent

theorem release_silent (silent : ∀ idx, m.Silent (.releaseSlab idx)) :
    m.view (L.release cb).trace = m.view L.trace ∧
      (m.Accepts (L.release cb).trace ↔ m.Accepts L.trace) := by
  apply Monitor.silent_append
  intro e mem
  split at mem
  · obtain ⟨idx, _, rfl⟩ := List.mem_map.mp (List.mem_reverse.mp mem)
    exact silent idx
  · cases mem

end Monitors

end Ledger

/-! ### Refinement -/

namespace FrameHandler

variable {T : Type} (cb : Callbacks) (ops : TileOps T)

def ledger (s : FrameHandler T) : Ledger where
  held := s.heldSlabs
  chain := s.chainTotalBytes
  chunks := s.cs.chunks
  failure := s.isParsingFailure
  passed := s.isPassedHeader
  armed := s.abortArmed
  trace := s.trace

theorem onGap_ledger (p : Packet) (s : FrameHandler T) : (s.onGap cb p).ledger = s.ledger.gap cb p := by
  simp only [onGap, apply_ite ledger]
  rfl

theorem onSlabCap_ledger (s : FrameHandler T) : (s.onSlabCap cb ops).ledger = s.ledger.cap cb := by
  simp only [onSlabCap, apply_ite ledger]
  rfl

theorem skipBody_ledger (p : Packet) (s : FrameHandler T) : (s.skipBody cb ops p).ledger = s.ledger.skip cb p := by
  unfold skipBody Ledger.skip
  dsimp only
  cases p.marker with
  | false => rfl
  | true =>
    simp only [if_true, Ledger.skipEoc]
    cases damaged : s.isParsingFailure || s.isPassedHeader with
    | false =>
      rw [if_neg (by simpa [emit] using damaged), if_neg (by simpa [Ledger.note, ledger] using damaged)]
      rfl
    | true =>
      rw [if_pos (by simpa [emit] using damaged), if_pos (by simpa [Ledger.note, ledger] using damaged)]
      rfl

theorem closeMissed_ledger (s : FrameHandler T) : (s.closeMissed cb ops).ledger = s.ledger.missed cb := by
  simp only [closeMissed, Ledger.missed, apply_ite ledger]
  cases held : s.heldSlabs.isEmpty with
  | true => simp [ledger, held]
  | false =>
    simp only [ledger, held, Bool.false_eq_true, if_false]
    split <;> rfl

theorem endFrame_ledger (s : FrameHandler T) : ∃ intact, (s.endFrame cb ops).ledger = s.ledger.finish cb intact := by
  refine ⟨!s.isParsingFailure && s.isPassedHeader && !s.resyncSoft, ?_⟩
  unfold endFrame
  dsimp only
  cases !s.isParsingFailure && s.isPassedHeader && !s.resyncSoft with
  | false => rfl
  | true =>
    simp only [if_true]
    split <;> rfl

/-- The software walk runs and fails. -/
def walkFails (s : FrameHandler T) : Bool :=
  !s.isParsingFailure && !s.resyncSoft && !(ops.parse s.tileHndr s.cs).1

theorem walkPrecincts_ledger (s : FrameHandler T) :
    (s.walkPrecincts cb ops).ledger =
      if s.walkFails ops then { s.ledger with passed := false }.fail cb .parse else s.ledger := by
  have chunks := ops.parse_chunks s.tileHndr s.cs
  unfold walkPrecincts walkFails
  cases walks : !s.isParsingFailure && !s.resyncSoft with
  | false => simp
  | true =>
    cases parsed : (ops.parse s.tileHndr s.cs).1 with
    | true => simp [ledger, chunks, parsed]
    | false =>
      simp only [if_true, parsed, Bool.false_eq_true, if_false, Bool.not_false, Bool.true_and,
        ledger, failFrame, fireAbort, emit, chunks]
      rfl

theorem offerPoint_ledger (p : Packet) (resyncByte : BitVec 32) (s : FrameHandler T) :
    (s.offerPoint cb ops p resyncByte).ledger =
      s.ledger.note (s.resyncArmed && cb.resyncPoint) (.resyncPoint resyncByte p.pid) := rfl

/-- The software walk runs over the chain with this packet and fails. -/
def parseFails (p : Packet) (s : FrameHandler T) : Bool :=
  p.ordb && s.isPassedHeader && (!s.isParsingFailure && !s.resyncSoft &&
    !(ops.parse
      (ops.appendSignal s.tileHndr ⟨BitVec.ofNat 32 s.chainTotalBytes + p.pos, p.pid⟩)
      (s.cs.appendChunk p.chunk)).1)

theorem bodyPacket_ledger (p : Packet) (s : FrameHandler T) :
    ∃ point, (s.bodyPacket cb ops p).ledger = s.ledger.body cb p point (s.parseFails ops p) := by
  have passed : (s.appendPacket cb false p).isPassedHeader = s.isPassedHeader := rfl
  unfold bodyPacket parseFails
  dsimp only
  rw [passed]
  cases p.ordb && s.isPassedHeader with
  | false => exact ⟨none, rfl⟩
  | true =>
    simp only [if_true, Bool.true_and]
    rw [walkPrecincts_ledger, offerPoint_ledger]
    cases (s.appendPacket cb false p).resyncArmed && cb.resyncPoint with
    | false => exact ⟨none, rfl⟩
    | true => exact ⟨some (BitVec.ofNat 32 s.chainTotalBytes + p.pos), rfl⟩

theorem latch_ledger (sig : BitVec 64) (relatch : Option RelatchReason) (s : FrameHandler T) :
    ((s.latch cb ops sig relatch).1 = false ∧
      (s.latch cb ops sig relatch).2.ledger = s.ledger.fail cb .parse) ∨
    ((s.latch cb ops sig relatch).1 = true ∧ ∃ note : Option RelatchReason,
      (s.latch cb ops sig relatch).2.ledger = match note with
        | none => { s.ledger with passed := true }
        | some reason => { s.ledger with passed := true }.note cb.relatch (.relatch reason)) := by
  have chunks := ops.parseMainHeader_chunks s.tileHndr (s.cs.reset 0)
  rw [Codestream.reset_chunks] at chunks
  unfold latch
  dsimp only
  split
  · refine Or.inl ⟨rfl, ?_⟩
    simp only [ledger, failFrame, fireAbort, emit, chunks]
    rfl
  · split
    · refine Or.inr ⟨?_, relatch, ?_⟩
      · cases relatch <;> rfl
      · cases relatch with
        | none =>
          simp only [ledger, chunks]
        | some reason =>
          simp only [ledger, emit, chunks]
          rfl
    · refine Or.inl ⟨rfl, ?_⟩
      simp only [ledger, failFrame, fireAbort, emit, chunks]
      rfl

theorem mainPacket_ledger (p : Packet) (s : FrameHandler T) :
    ∃ o : MainOutcome, (s.mainPacket cb ops p).1 = o.goesOn ∧
      (s.mainPacket cb ops p).2.ledger = s.ledger.main cb p o := by
  unfold mainPacket
  dsimp only
  have opened : (appendPacket cb true p { s.closeMissed cb ops with
      isParsingFailure := false, frameParseFailed := false }).ledger = s.ledger.openFrame cb p := by
    unfold Ledger.openFrame
    rw [← closeMissed_ledger cb ops s]
    rfl
  generalize appendPacket cb true p { s.closeMissed cb ops with
    isParsingFailure := false, frameParseFailed := false } = u at opened
  -- Outcomes of the three ways a main packet can go on from here.
  have tracked (v : FrameHandler T) (sod : BitVec 32) (same : v.ledger = u.ledger) :
      ∃ o : MainOutcome, true = o.goesOn ∧ (v.resume sod).ledger = s.ledger.main cb p o := by
    refine ⟨.tracked none, rfl, ?_⟩
    unfold Ledger.main
    rw [← opened, ← same]
    rfl
  have rejected : ∃ o : MainOutcome, false = o.goesOn ∧
      (u.failFrame cb .parse).ledger = s.ledger.main cb p o := by
    refine ⟨.rejected, rfl, ?_⟩
    unfold Ledger.main
    rw [← opened]
    rfl
  have latched (v : FrameHandler T) (sig : BitVec 64) (relatch : Option RelatchReason)
      (same : v.ledger = u.ledger) :
      ∃ o : MainOutcome, (v.latch cb ops sig relatch).1 = o.goesOn ∧
        (v.latch cb ops sig relatch).2.ledger = s.ledger.main cb p o := by
    unfold Ledger.main
    rw [← opened, ← same]
    rcases latch_ledger cb ops sig relatch v with ⟨stops, result⟩ | ⟨goes, note, result⟩
    · exact ⟨.rejected, stops, result⟩
    · refine ⟨.tracked note, goes, result.trans ?_⟩
      cases note <;> rfl
  split
  · split
    · split
      · exact rejected
      · split
        · split
          · exact tracked _ _ rfl
          · exact latched _ _ _ rfl
        · exact tracked _ _ rfl
    · exact latched _ _ _ rfl
  · split
    · exact tracked _ _ rfl
    · refine ⟨.collected (decide (u.startSOD + BitVec.ofNat 32 p.size ≠ 0)), rfl, ?_⟩
      unfold Ledger.main
      rw [← opened]
      rfl

/-- Every call of `pull_data` is a move of the ledger. -/
theorem pullData_ledger (p : Packet) (s : FrameHandler T) :
    ∃ o : Outcome, (s.pullData cb ops p).ledger = s.ledger.pull cb p o ∧
      o.failed = ((s.onGap cb p).onSlabCap cb ops).parseFails ops p ∧
      (p.mh ≠ 0 → o.main.goesOn = s.goesOn cb ops p) := by
  have before : ((s.onGap cb p).onSlabCap cb ops).ledger = (s.ledger.gap cb p).cap cb := by
    rw [onSlabCap_ledger, onGap_ledger]
  unfold pullData Ledger.pull goesOn
  rw [← before]
  generalize (s.onGap cb p).onSlabCap cb ops = u
  by_cases skipped : u.skips p = true
  -- The ledger does not look at the outcomes of a packet that is skipped.
  · have body : p.mh = 0 := of_decide_eq_true (Bool.and_eq_true_iff.mp skipped).1
    refine ⟨{ failed := u.parseFails ops p }, ?_, rfl, fun main => absurd body main⟩
    rw [if_pos skipped, if_pos (show u.ledger.skips p = true from skipped)]
    exact skipBody_ledger cb ops p u
  · simp only [if_neg skipped, if_neg (show ¬ u.ledger.skips p = true from skipped)]
    by_cases body : p.mh = 0
    · obtain ⟨point, result⟩ := bodyPacket_ledger cb ops p u
      obtain ⟨intact, finished⟩ := endFrame_ledger cb ops (u.bodyPacket cb ops p)
      refine ⟨{ point := point, failed := u.parseFails ops p, intact := intact }, ?_, rfl, absurd body⟩
      simp only [if_pos body, Bool.true_and]
      cases p.marker with
      | false => exact result
      | true => exact finished.trans (by rw [result]; rfl)
    · obtain ⟨main, goes, result⟩ := mainPacket_ledger cb ops p u
      obtain ⟨intact, finished⟩ := endFrame_ledger cb ops (u.mainPacket cb ops p).2
      refine ⟨{ main := main, failed := u.parseFails ops p, intact := intact }, ?_, rfl, ?_⟩
      · simp only [if_neg body, goes]
        cases main.goesOn && p.marker with
        | false => exact result
        | true => exact finished.trans (by rw [result]; rfl)
      · intro _
        simp [skipped, body, goes]

/-- With the marker, a call leaves nothing held exactly if it gets to a marker block, and then no
frame is tracked any more. -/
theorem pullData_marked {p : Packet} (marked : p.marker = true) (s : FrameHandler T) :
    ((s.pullData cb ops p).heldSlabs = [] ↔ s.goesOn cb ops p = true) ∧
      (s.goesOn cb ops p = true → (s.pullData cb ops p).isPassedHeader = false ∧
        (s.pullData cb ops p).isParsingFailure = false) := by
  obtain ⟨o, moved, _, main⟩ := pullData_ledger cb ops p s
  cases goes : s.goesOn cb ops p with
  | true =>
    have there : p.mh = 0 ∨ o.main.goesOn = true := by
      by_cases body : p.mh = 0
      · exact .inl body
      · exact .inr ((main body).trans goes)
    have ended := Ledger.pull_marked cb s.ledger marked there
    rw [← moved] at ended
    exact ⟨iff_of_true ended.1 rfl, fun _ => ended.2⟩
  | false =>
    have body : p.mh ≠ 0 := by
      intro body
      simp [goesOn, body] at goes
    have held := Ledger.pull_stopped cb s.ledger body ((main body).trans goes)
    rw [← moved] at held
    exact ⟨iff_of_false held Bool.false_ne_true, fun on => by cases on⟩

/-- What every move of the ledger keeps holds after every sequence of calls. The property may
speak about the packets seen so far. -/
theorem run_invariant {P : List Packet → Ledger → Prop} (start : FrameHandler T)
    (initial : P [] start.ledger)
    (step : ∀ (seen : List Packet) (p : Packet) (o : Outcome) (L : Ledger),
      P seen L → P (seen ++ [p]) (L.pull cb p o))
    (packets : List Packet) : P packets (start.run cb ops packets).ledger := by
  have later (seen rest : List Packet) (s : FrameHandler T) (now : P seen s.ledger) :
      P (seen ++ rest) (s.run cb ops rest).ledger := by
    -- The packets still to come are the ones to go through; those seen are carried along.
    induction rest generalizing seen s with
    | nil =>
      rw [List.append_nil]
      exact now
    | cons p rest ih =>
      obtain ⟨o, moved, _⟩ := pullData_ledger cb ops p s
      have next := ih (seen ++ [p]) (s.pullData cb ops p) (moved ▸ step seen p o s.ledger now)
      rwa [List.append_assoc, List.singleton_append] at next
  exact later [] packets start initial

theorem suffix_run (s : FrameHandler T) (packets : List Packet) : s.trace <:+ (s.run cb ops packets).trace :=
  run_invariant cb ops (P := fun _ L => s.trace <:+ L.trace) s (List.suffix_refl _)
    (fun _ p o L grown => grown.trans (Ledger.suffix_pull cb L p o)) packets

end FrameHandler

end RtpDecoder.Frame
