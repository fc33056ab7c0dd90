import RtpDecoder.Frame.Intact
import RtpDecoder.Frame.Ledger

/-!
# Split main headers

A main header may come in several packets, `MH = 1` for all of them but the last. It should come
to the same as the whole header in one packet. But a main packet that finds slabs held gives up
the frame that they belong to, and the parts of a header are such packets to each other.
-/

namespace RtpDecoder.Frame

variable {T : Type} {s : FrameHandler T} {p q final : Packet}

/-- The parts of a header in one packet, with `MH = 3`. The other fields are those of the last part. -/
def joined (pieces : List Packet) (final : Packet) : Packet :=
  let header := (pieces ++ [final]).flatMap Packet.j2kBytes
  { final with
    payload := fun i => if i = 0 then 0xC0 else if i < 8 then final.payload i else header.getD (i - 8) 0
    size := header.length }

theorem mh_joined (pieces : List Packet) (final : Packet) : (joined pieces final).mh = 3 := by
  have first : (joined pieces final).payload 0 = 0xC0 := by simp [joined]
  rw [Packet.mh, first]
  rfl

theorem j2kBytes_joined (pieces : List Packet) (final : Packet) :
    (joined pieces final).j2kBytes = (pieces ++ [final]).flatMap Packet.j2kBytes := by
  have byte (i : Nat) : (joined pieces final).payload (8 + i) =
      ((pieces ++ [final]).flatMap Packet.j2kBytes).getD i 0 := by
    simp only [joined]
    rw [if_neg (by omega), if_neg (by omega), Nat.add_sub_cancel_left]
  apply List.ext_getElem
  · simp [Packet.j2kBytes, joined]
  · intro i _ inside
    simp only [Packet.j2kBytes, List.getElem_map, List.getElem_range, byte]
    exact List.getD_eq_getElem _ _ inside

/-! ### What the consumers get -/

namespace Event

def isAbort : Event → Bool
  | .abort _ => true
  | _ => false

def isReady : Event → Bool
  | .frameReady _ => true
  | _ => false

def offset? : Event → Option Nat
  | .chunk _ offset _ => some offset
  | _ => none

end Event

/-! ### Aborts in the ledger -/

namespace Ledger

variable (cb : Callbacks) (L : Ledger)

theorem note_calm (registered : Bool) {e : Event} (calm : e.isAbort = false) :
    Adds (·.isAbort = false) L (L.note registered e) := note_adds L registered calm

/-- Nothing of a main packet is an abort, if it finds no slabs held and is not rejected. -/
theorem main_calm {L : Ledger} (empty : L.held = []) (p : Packet) {o : MainOutcome} (goes : o.goesOn = true) :
    Adds (·.isAbort = false) L (L.main cb p o) := by
  have kept : L.missed cb = L := if_pos (by rw [empty]; rfl)
  have opened : Adds (·.isAbort = false) L (L.openFrame cb p) := by
    rw [openFrame, kept]
    exact note_calm { L with failure := false } cb.chunk (e := .chunk true L.chain p.size) rfl
  cases o with
  | tracked relatch =>
    cases relatch with
    | none => exact opened
    | some reason =>
      exact opened.trans (note_calm { L.openFrame cb p with passed := true } cb.relatch (e := .relatch reason) rfl)
  | rejected => cases goes
  | collected more => exact opened

theorem finish_calm (intact : Bool) : Adds (·.isAbort = false) L (L.finish cb intact) := by
  have reported := note_calm { L with armed := false } cb.frameReady (e := .frameReady intact) rfl
  exact (Adds.trans reported (release_adds_of cb _ fun _ => rfl)).trans (note_calm _ true (e := .eoc) rfl)

/-- A main packet that finds slabs held aborts the frame that they belong to. -/
theorem pull_missed {L : Ledger} (registered : cb.frameAbort = true) (armed : L.armed = true) (held : L.held ≠ [])
    (few : L.held.length < 3072) (main : p.mh ≠ 0) (gapless : p.gap = false) (o : Outcome) :
    .abort .missedEOC :: L.trace <:+ (L.pull cb p o).trace := by
  have entered : (L.gap cb p).cap cb = L := by
    have kept : L.gap cb p = L := by simp [gap, gapless]
    rw [kept, cap, if_neg (by omega)]
  have unskipped : ¬ L.skips p = true := by simp [skips, main]
  have aborted : .abort .missedEOC :: L.trace <:+ (L.missed cb).trace := by
    have fired : (L.abort cb .missedEOC).trace = .abort .missedEOC :: L.trace := by
      simp [abort, note, armed, registered]
    rw [missed, if_neg (by simpa using held), ← fired]
    exact (release_adds cb _).suffix
  have opened : (L.missed cb).trace <:+ (L.openFrame cb p).trace := List.suffix_append _ _
  have added := (aborted.trans opened).trans (main_adds cb L p o.main).suffix
  simp only [pull, entered, if_neg unskipped, if_neg main]
  split
  · exact added.trans (finish_adds cb _ o.intact).suffix
  · exact added

end Ledger

namespace FrameHandler

variable (cb : Callbacks) (ops : TileOps T)

/-- The bytes that `ChunkCb` gets, each with its offset, in order. -/
def written (s : FrameHandler T) : List Packet → List (Nat × UInt8)
  | [] => []
  | p :: rest =>
    ((since s.trace (s.pullData cb ops p).trace).filterMap Event.offset?).flatMap
      (fun offset => p.j2kBytes.mapIdx fun i byte => (offset + i, byte)) ++
    (s.pullData cb ops p).written rest

/-- A header in parts comes to the same as the header in one packet, with these packets behind
it. The parts themselves lead to no abort. -/
structure Equivalent (s : FrameHandler T) (pieces : List Packet) (final : Packet) (body : List Packet) : Prop where
  latched : (s.run cb ops (pieces ++ final :: body)).tileHndr =
    (s.run cb ops (joined pieces final :: body)).tileHndr
  written : s.written cb ops (pieces ++ final :: body) = s.written cb ops (joined pieces final :: body)
  quiet : (s.run cb ops (pieces ++ [final])).trace.filter Event.isAbort = s.trace.filter Event.isAbort
  aborts : (s.run cb ops (pieces ++ final :: body)).trace.filter Event.isAbort =
    (s.run cb ops (joined pieces final :: body)).trace.filter Event.isAbort
  reports : (s.run cb ops (pieces ++ final :: body)).trace.filter Event.isReady =
    (s.run cb ops (joined pieces final :: body)).trace.filter Event.isReady

/-! ### A header in one packet -/

/-- Of a complete main header it does not matter how the packet says that it is complete. -/
theorem mainPacket_congr (complete : 2 ≤ p.mh) (complete' : 2 ≤ q.mh)
    (header : p.j2kBytes = q.j2kBytes) (size : p.size = q.size) (slab : p.slabIdx = q.slabIdx) (u : FrameHandler T) :
    u.mainPacket cb ops p = u.mainPacket cb ops q := by
  have chunk : p.chunk = q.chunk := by simp only [Packet.chunk, header, slab]
  have appended (v : FrameHandler T) : v.appendPacket cb true p = v.appendPacket cb true q := by
    simp only [appendPacket, chunk, size, slab]
  simp only [mainPacket, appended, if_pos complete, if_pos complete', header]

theorem pullData_joined (complete : 2 ≤ final.mh) (s : FrameHandler T) :
    s.pullData cb ops (joined [] final) = s.pullData cb ops final := by
  have whole : 2 ≤ (joined [] final).mh := by rw [mh_joined]; omega
  have header : (joined [] final).j2kBytes = final.j2kBytes := by
    rw [j2kBytes_joined, List.nil_append, List.flatMap_singleton]
  have size : (joined [] final).size = final.size := by simp [joined, Packet.j2kBytes]
  have entered : s.entered cb ops (joined [] final) = s.entered cb ops final := rfl
  rw [pullData_eq, pullData_eq, work_main cb ops (by omega), work_main cb ops (by omega), entered,
    mainPacket_congr cb ops whole complete header size rfl]
  rfl

theorem entered_idle (idle : s.heldSlabs = []) (gapless : p.gap = false) : s.entered cb ops p = s := by
  have kept : s.onGap cb p = s := by simp [onGap, gapless]
  rw [entered, kept, onSlabCap, if_neg (by simp [idle])]

theorem pullData_quiet (lawful : ops.Lawful) (idle : s.heldSlabs = [])
    (complete : 2 ≤ p.mh) (gapless : p.gap = false) (accepted : (s.arrived cb ops p).acceptsHeader ops p = true) :
    (s.pullData cb ops p).trace.filter Event.isAbort = s.trace.filter Event.isAbort := by
  have goes : (s.mainPacket cb ops p).1 = true := by
    have step := mainPacket_step cb ops lawful p (s.entered cb ops p)
    rw [entered_idle cb ops idle gapless] at step
    rw [arrived, entered_idle cb ops idle gapless, acceptsHeader_eq cb ops complete step] at accepted
    exact accepted
  -- Only a packet that is rejected would have aborted the frame, and none was open before.
  rw [pullData_eq, work_main cb ops (by omega), entered_idle cb ops idle gapless, close, goes, Bool.true_and]
  obtain ⟨o, outcome, worked⟩ := mainPacket_ledger cb ops p s
  have main : Ledger.Adds (·.isAbort = false) s.ledger (s.mainPacket cb ops p).2.ledger := by
    rw [worked]
    exact Ledger.main_calm cb idle p (outcome.symm.trans goes)
  split
  · obtain ⟨intact, finished⟩ := endFrame_ledger cb ops (s.mainPacket cb ops p).2
    have ended := Ledger.finish_calm cb (s.mainPacket cb ops p).2.ledger intact
    rw [← finished] at ended
    exact (main.trans ended).filter fun _ calm => calm
  · exact main.filter fun _ calm => calm

/-- A header in one packet is handled alike, whatever it is marked with. -/
theorem equivalent_nil (lawful : ops.Lawful) (idle : s.heldSlabs = [])
    (complete : 2 ≤ final.mh) (gapless : final.gap = false)
    (parses : (s.arrived cb ops (joined [] final)).acceptsHeader ops (joined [] final) = true) (body : List Packet) :
    s.Equivalent cb ops [] final body := by
  have same := pullData_joined cb ops complete s
  have header : (joined [] final).j2kBytes = final.j2kBytes := by
    rw [j2kBytes_joined, List.nil_append, List.flatMap_singleton]
  have runs : s.run cb ops (joined [] final :: body) = s.run cb ops (final :: body) := by
    simp only [FrameHandler.run, List.foldl_cons, same]
  have quiet := pullData_quiet cb ops lawful idle (p := joined [] final) (by rw [mh_joined]; omega) gapless parses
  rw [same] at quiet
  refine ⟨by rw [runs]; rfl, ?_, quiet, by rw [runs]; rfl, by rw [runs]; rfl⟩
  rw [List.nil_append, FrameHandler.written, FrameHandler.written, same, header]

/-! ### A header in several packets -/

/-- A part of a header leaves its slab held, and the abort armed. -/
theorem pullData_part (idle : s.heldSlabs = []) (part : p.mh = 1)
    (gapless : p.gap = false) (unmarked : p.marker = false) :
    (s.pullData cb ops p).heldSlabs = [p.slabIdx] ∧ (s.pullData cb ops p).abortArmed = true := by
  have kept : s.closeMissed cb ops = s := if_pos (by rw [idle]; rfl)
  have held : (s.opened cb ops p).heldSlabs = [p.slabIdx] := by
    rw [opened, kept]
    exact congrArg (· ++ [p.slabIdx]) idle
  have whole : ¬ 2 ≤ p.mh := by omega
  rw [pullData_eq, work_main cb ops (by omega), entered_idle cb ops idle gapless, close, unmarked, Bool.and_false,
    mainPacket_part cb ops whole]
  -- Latched or not, the slab of the part stays held until the frame is over.
  cases ops.isReady (s.opened cb ops p).tileHndr with
  | false => exact ⟨held, rfl⟩
  | true => exact ⟨held, rfl⟩

/-- The second part of a header aborts the frame of the first. -/
theorem run_parts (registered : cb.frameAbort = true) (idle : s.heldSlabs = [])
    (part : p.mh = 1) (gapless : p.gap = false) (unmarked : p.marker = false) (main : q.mh ≠ 0)
    (gapless' : q.gap = false) (rest : List Packet) :
    s.trace.countP Event.isAbort < (s.run cb ops (p :: q :: rest)).trace.countP Event.isAbort := by
  obtain ⟨held, armed⟩ := pullData_part cb ops idle part gapless unmarked
  obtain ⟨o, moved, _⟩ := pullData_ledger cb ops q (s.pullData cb ops p)
  have aborted : .abort .missedEOC :: (s.pullData cb ops p).trace <:+
      ((s.pullData cb ops p).pullData cb ops q).trace := by
    have missed := Ledger.pull_missed cb (L := (s.pullData cb ops p).ledger) registered armed
      (by simp [ledger, held]) (by simp [ledger, held]) main gapless' o
    rwa [← moved] at missed
  have started : s.trace <:+ (s.pullData cb ops p).trace := suffix_run cb ops s [p]
  have later : ((s.pullData cb ops p).pullData cb ops q).trace <:+ (s.run cb ops (p :: q :: rest)).trace :=
    suffix_run cb ops _ rest
  calc s.trace.countP Event.isAbort
    _ ≤ (s.pullData cb ops p).trace.countP Event.isAbort := started.sublist.countP_le
    _ < (.abort .missedEOC :: (s.pullData cb ops p).trace).countP Event.isAbort := by
      rw [List.countP_cons_of_pos rfl]
      exact Nat.lt_succ_self _
    _ ≤ (s.run cb ops (p :: q :: rest)).trace.countP Event.isAbort := (aborted.trans later).sublist.countP_le

end FrameHandler

open FrameHandler in
/-- On a handler between two frames, a header that parses comes to the same in parts as in one
packet if and only if it is not in parts. -/
theorem split_header_iff (cb : Callbacks) (ops : TileOps T) (lawful : ops.Lawful)
    (registered : cb.frameAbort = true) {s : FrameHandler T} (idle : s.heldSlabs = [])
    {pieces : List Packet} {final : Packet}
    (parts : ∀ p ∈ pieces, p.mh = 1 ∧ p.gap = false ∧ p.marker = false) (last : final.mh = 2 ∧ final.gap = false)
    (parses : (s.arrived cb ops (joined pieces final)).acceptsHeader ops (joined pieces final) = true)
    (body : List Packet) : s.Equivalent cb ops pieces final body ↔ pieces = [] := by
  constructor
  · intro equivalent
    by_contra split
    obtain ⟨p, rest, rfl⟩ := List.exists_cons_of_ne_nil split
    obtain ⟨part, gapless, unmarked⟩ := parts p List.mem_cons_self
    -- The packet behind the first part is another part or the last one.
    obtain ⟨q, later, next, main, gapless'⟩ :
        ∃ q later, rest ++ [final] = q :: later ∧ q.mh ≠ 0 ∧ q.gap = false := by
      cases rest with
      | nil => exact ⟨final, [], rfl, by omega, last.2⟩
      | cons q rest =>
        obtain ⟨mh, noGap, _⟩ := parts q (by simp)
        exact ⟨q, rest ++ [final], rfl, by omega, noGap⟩
    have more := run_parts cb ops registered idle part gapless unmarked main gapless' later
    have none := congrArg List.length equivalent.quiet
    rw [← List.countP_eq_length_filter, ← List.countP_eq_length_filter, List.cons_append, next] at none
    exact more.ne none.symm
  · rintro rfl
    exact equivalent_nil cb ops lawful idle last.1.ge last.2 parses body

open FrameHandler in
/-- A small frame, the header in one packet. -/
theorem split_header_emptyFrame :
    (FrameHandler.new {} 4).Equivalent {} tileOps [] (headerPacket 0x80) emptyFrame.tail ∧
    .frameReady true ∈ ((FrameHandler.new {} 4).run {} tileOps emptyFrame).trace :=
  ⟨(split_header_iff {} tileOps tileOps_lawful rfl rfl (by simp) (by decide) (by decide +kernel) _).mpr rfl,
    by decide +kernel⟩

/-- The header of the small frame in two packets. -/
def headerHead : Packet := packetOf 0 (0x40 :: List.replicate 7 0 ++ (Parser.streamHeader 1 0x40).take 40) false

def headerTail : Packet := packetOf 3 (0x80 :: List.replicate 7 0 ++ (Parser.streamHeader 1 0x40).drop 40) false

open FrameHandler in
/-- In two packets the header aborts its own frame and the frame is not reported as intact, on a
new handler and on one that is latched. In one packet it is. -/
theorem split_header_aborts :
    let fresh : FrameHandler Parser.TileHandler := .new {} 4
    let latched := fresh.run {} tileOps emptyFrame
    let body := emptyFrame.tail
    (∀ s ∈ [fresh, latched], s.heldSlabs = [] ∧
      (s.arrived {} tileOps (joined [headerHead] headerTail)).acceptsHeader tileOps (joined [headerHead] headerTail) =
        true ∧
      (since s.trace (s.run {} tileOps (joined [headerHead] headerTail :: body)).trace).filter
        (fun e => e.isAbort || e.isReady) = [.frameReady true] ∧
      .abort .missedEOC ∈ since s.trace (s.run {} tileOps [headerHead, headerTail]).trace ∧
      .frameReady true ∉ since s.trace (s.run {} tileOps (headerHead :: headerTail :: body)).trace ∧
      ¬ s.Equivalent {} tileOps [headerHead] headerTail body) := by
  intro fresh latched body
  have facts : ∀ s ∈ [fresh, latched], s.heldSlabs = [] ∧
      (s.arrived {} tileOps (joined [headerHead] headerTail)).acceptsHeader tileOps (joined [headerHead] headerTail) =
        true ∧
      (since s.trace (s.run {} tileOps (joined [headerHead] headerTail :: body)).trace).filter
        (fun e => e.isAbort || e.isReady) = [.frameReady true] ∧
      .abort .missedEOC ∈ since s.trace (s.run {} tileOps [headerHead, headerTail]).trace ∧
      .frameReady true ∉ since s.trace (s.run {} tileOps (headerHead :: headerTail :: body)).trace ∧
      (s.run {} tileOps [headerHead, headerTail]).trace.filter Event.isAbort ≠ s.trace.filter Event.isAbort := by
    decide +kernel
  intro s member
  obtain ⟨idle, parses, whole, aborted, unreported, different⟩ := facts s member
  exact ⟨idle, parses, whole, aborted, unreported, fun equivalent => different equivalent.quiet⟩

end RtpDecoder.Frame
