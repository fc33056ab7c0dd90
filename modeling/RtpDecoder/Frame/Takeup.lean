import RtpDecoder.Frame.CleanFrame
import RtpDecoder.Header.Bytewise

/-!
# The main packet of a whole frame

The first packet of a whole frame finds one of two ways into the frame. On a stream that is not
latched, or whose geometry is another one, its header is parsed and a structure is built; on a
latched stream the signature walk says where the body starts. Either way the reader stands on the
first byte of the body, on a tile handler that has been restarted.
-/

namespace RtpDecoder.Parser

/-- The tile handler that a structure is built on, with the segments of a new header read. -/
def TileHandler.reread (h : TileHandler) (segments : List Header.RawSegment) : TileHandler :=
  { h.restart with ready := false, markers := segments.foldl Header.Markers.read h.markers }

end RtpDecoder.Parser

namespace RtpDecoder.Frame

open RtpDecoder.Parser RtpDecoder.Header

/-- A frame that arrives whole, with what its encoder has put in. -/
structure WholeFrame where
  sent : Sent
  segments : List RawSegment
  coded : List CodedPacket
  rest : List UInt8
  whole : sent.Whole
  carries : sent.Carries (framed segments []) coded rest

namespace WholeFrame

variable (f : WholeFrame)

def packets : List Packet := f.sent.packets

def header : List UInt8 := framed f.segments []

def signature : BitVec 64 := (geometrySignature f.header).1

/-- The callbacks for the frame, in their order. -/
def events (cb : Callbacks) (reason : Option RelatchReason) : List Event :=
  (if cb.chunk then [.chunk true 0 f.sent.main.size] else []) ++
  (if cb.relatch then reason.toList.map Event.relatch else []) ++
  FrameHandler.chunkEvents cb f.sent.main.size f.sent.body ++
  (if cb.frameReady then [.frameReady true] else []) ++
  (if cb.releaseSlab then f.packets.map fun p => .releaseSlab p.slabIdx else []) ++
  [.eoc]

/-! ### The header of a whole frame -/

/-- The main packet has the whole header, and maybe a part of the body. -/
theorem main_bytes : ∃ extra, f.sent.main.j2kBytes = framed f.segments extra := by
  have bytes : f.sent.main.j2kBytes ++ f.sent.body.flatMap Packet.j2kBytes =
      f.header ++ (bodyBytes f.coded ++ f.rest) := f.carries.bytes
  have inside : f.header.length ≤ f.sent.main.j2kBytes.length := by
    rw [Packet.length_j2kBytes]
    exact f.carries.fits
  obtain ⟨extra, same⟩ := List.prefix_of_prefix_length_le (bytes ▸ List.prefix_append f.header _)
    (List.prefix_append _ _) inside
  refine ⟨extra, ?_⟩
  rw [← same, header, framed, framed, List.append_nil]

theorem length_header : 0 < f.header.length ∧ f.header.length < 2 ^ 32 := by
  have short := f.whole.short
  have bytes := congrArg List.length f.carries.bytes
  have least : 4 ≤ f.header.length := by
    simp only [header, framed, List.length_append, List.length_cons, List.length_nil]
    omega
  rw [List.length_append] at bytes
  change f.sent.bytes.length = f.header.length + _ at bytes
  omega

theorem sod_ne_zero : BitVec.ofNat 32 f.header.length ≠ 0 := by
  obtain ⟨least, most⟩ := f.length_header
  intro zero
  have place := congrArg BitVec.toNat zero
  rw [BitVec.toNat_ofNat, Nat.mod_eq_of_lt most] at place
  exact absurd place (Nat.ne_of_gt least)

theorem signature_main : geometrySignature f.sent.main.j2kBytes = (f.signature, BitVec.ofNat 32 f.header.length) := by
  obtain ⟨extra, bytes⟩ := f.main_bytes
  rw [bytes, signature, header, geometrySignature_eq, geometrySignature_eq, geometry_framed, geometry_framed]

theorem signature_congr {f g : WholeFrame} (same : geometryOf f.segments = geometryOf g.segments) :
    f.signature = g.signature := by
  rw [signature, signature, header, header, geometrySignature_eq, geometrySignature_eq, geometry_framed,
    geometry_framed, same]

theorem signature_ne_zero : f.signature ≠ 0 := geometrySignature_framed_ne_zero _ _

theorem size_main : f.sent.main.size % 2 ^ 64 = f.sent.main.size := by
  apply Nat.mod_eq_of_lt
  have short := f.whole.short
  have least : f.sent.main.size ≤ f.sent.bytes.length := by
    rw [Sent.bytes, Sent.packets, List.flatMap_cons, List.length_append, Packet.length_j2kBytes]
    exact Nat.le_add_right _ _
  omega

end WholeFrame

namespace FrameHandler

/-! ### What an unfinished frame leaves -/

section

variable {T : Type} (cb : Callbacks)

/-- What is said of an unfinished frame when the next one starts. -/
def closing (s : FrameHandler T) : List Event :=
  if s.heldSlabs = [] then []
  else
    (if s.abortArmed && cb.frameAbort then
      [.abort (if 3072 ≤ s.heldSlabs.length then .slabCap else .missedEOC)] else []) ++
    (if cb.releaseSlab then s.heldSlabs.map Event.releaseSlab else [])

/-- What else is left of `s` in the handler that looks at the header of the next frame. -/
structure Reopened (p : Packet) (s u : FrameHandler T) : Prop where
  latch : u.geomSig = s.geomSig ∧ u.relatchK = s.relatchK ∧ u.relatches = s.relatches
  streak : u.parseFailStreak ≤ s.parseFailStreak + 1
  trace : u.trace = (if cb.chunk then [.chunk true 0 p.size] else []) ++ ((s.closing cb).reverse ++ s.trace)
  clean : s.heldSlabs = [] →
    u.totalFrames = s.totalFrames ∧ u.truncFrames = s.truncFrames ∧ u.parseFailStreak = s.parseFailStreak

private theorem streak_le (s : FrameHandler T) : (s.endFrameStreak false).parseFailStreak ≤ s.parseFailStreak + 1 := by
  simp only [endFrameStreak, Bool.false_eq_true, if_false]
  split
  · exact Nat.mod_le _ _
  · exact Nat.le_succ _

theorem reopened {ops : TileOps T} {s : FrameHandler T} (settled : s.Settled ops) {p : Packet}
    (gapless : p.gap = false) : Reopened cb p s (s.arrived cb ops p) := by
  have unasked : s.onGap cb p = s := by simp [onGap, gapless]
  by_cases released : s.heldSlabs = []
  · have entered : s.entered cb ops p = s := by simp [FrameHandler.entered, unasked, onSlabCap, released]
    have closed : s.closeMissed cb ops = s := by simp [closeMissed, released]
    have bytes := (settled.released released).bytes
    rw [arrived, entered, opened, closed]
    refine ⟨⟨rfl, rfl, rfl⟩, Nat.le_succ _, ?_, fun _ => ⟨rfl, rfl, rfl⟩⟩
    simp [appendPacket, deliverChunk, emit, bytes, closing, released]
  · have full : s.heldSlabs.isEmpty = false := by simpa using released
    by_cases capped : 3072 ≤ s.heldSlabs.length
    · -- The slab cap ends the old frame, and the main packet finds nothing left of it.
      rw [arrived, FrameHandler.entered, unasked, onSlabCap, if_pos capped]
      refine ⟨⟨rfl, rfl, rfl⟩, streak_le _, ?_, fun nothing => absurd nothing released⟩
      cases on : cb.releaseSlab <;> cases armed : s.abortArmed && cb.frameAbort <;>
        simp [opened, closeMissed, appendPacket, deliverChunk, emit, endFrameStreak, restartTile, releaseHeldSlabs,
          fireAbort, closing, released, capped, on, armed]
    · rw [arrived, FrameHandler.entered, unasked, onSlabCap, if_neg capped, opened, closeMissed, full]
      have trace : ∀ v : FrameHandler T, v.trace = (s.closing cb).reverse ++ s.trace → v.chainTotalBytes = 0 →
          (appendPacket cb true p v).trace =
            (if cb.chunk then [.chunk true 0 p.size] else []) ++ ((s.closing cb).reverse ++ s.trace) := by
        intro v before bytes
        simp only [appendPacket, deliverChunk, emit, before, bytes]
      simp only [Bool.false_eq_true, if_false]
      have closed : (((s.fireAbort cb .missedEOC).releaseHeldSlabs cb).restartTile ops).trace =
          (s.closing cb).reverse ++ s.trace := by
        cases on : cb.releaseSlab <;> cases armed : s.abortArmed && cb.frameAbort <;>
          simp [restartTile, releaseHeldSlabs, fireAbort, emit, closing, released, capped, on, armed]
      split
      · exact ⟨⟨rfl, rfl, rfl⟩, streak_le _, trace _ closed rfl, fun nothing => absurd nothing released⟩
      · exact ⟨⟨rfl, rfl, rfl⟩, Nat.le_succ _, trace _ closed rfl, fun nothing => absurd nothing released⟩

end

/-! ### Into the frame -/

/-- The main packet of a whole frame has been taken up: the frame has started, and what is left of the
frame before has been ended. -/
structure TakenUp (cb : Callbacks) (h : TileHandler) (f : WholeFrame) (reason : Option RelatchReason)
    (s v : FrameHandler Reporting) : Prop where
  started : v.Started h f.sent f.header s.tileHndr.reports
  signature : v.geomSig = f.signature
  relatches : v.relatches = s.relatches + reason.toList.length
  trace : v.trace = (if cb.relatch then reason.toList.map Event.relatch else []) ++
    ((if cb.chunk then [.chunk true 0 f.sent.main.size] else []) ++ ((s.closing cb).reverse ++ s.trace))
  clean : s.heldSlabs = [] → v.totalFrames = s.totalFrames ∧ v.truncFrames = s.truncFrames

section

variable {cb : Callbacks} {left : Residue} {h : TileHandler} {f : WholeFrame} {s u : FrameHandler Reporting}

/-- The main packet of a whole frame starts on a restarted tile handler, whatever came before. Without the
marker it is over when its header has been looked at. -/
theorem main_starts (settled : s.Settled left.ops) (f : WholeFrame) :
    FirstChunk f.sent.main (left.ops.restart s.tileHndr) (s.arrived cb left.ops f.sent.main) ∧
      Reopened cb f.sent.main s (s.arrived cb left.ops f.sent.main) ∧
      ∃ r, MainStep cb left.ops f.sent.main (s.arrived cb left.ops f.sent.main) r ∧
        s.pullData cb left.ops f.sent.main = r.2 := by
  obtain ⟨complete, gapless, unmarked, _⟩ := f.whole.main
  refine ⟨settled.arrived left.ops_resting gapless, reopened cb settled gapless, _,
    mainPacket_step cb _ left.ops_lawful _ (s.entered cb left.ops f.sent.main), ?_⟩
  rw [pullData_eq, work_main cb _ (Nat.ne_of_gt (by omega)), close, unmarked, Bool.and_false,
    if_neg Bool.false_ne_true]

/-- The reader behind the header, where the signature walk has put it. -/
theorem started_of_resumed {old : TileHandler} {reports : List Report} {n : Nat}
    (opening : FirstChunk f.sent.main ⟨old.restart, reports, n⟩ u) (latched : h.Latched old ∧ old.ready = true) :
    Started h f.sent f.header reports
      (resume (BitVec.ofNat 32 f.header.length) { u with geomSig := f.signature }) := by
  have place : (BitVec.ofNat 32 f.header.length).toNat = f.header.length := by
    rw [BitVec.toNat_ofNat, Nat.mod_eq_of_lt f.length_header.2]
  have start : u.cs.OnChain ∧ u.cs.chunks = [f.sent.main.chunk] := by
    have empty : (Codestream.rewound {}).OnChain :=
      Codestream.rewound_onChain fun c member => absurd member List.not_mem_nil
    rw [opening.cs]
    exact ⟨(empty.appendChunk (chunk_nonempty f.whole.main.2.2.2)).2, List.nil_append _⟩
  obtain ⟨onto, chunks⟩ := start
  have on : (u.cs.reset (BitVec.ofNat 32 f.header.length)).OnChain := by
    apply onto.reset
    change (BitVec.ofNat 32 f.header.length).toNat ≤ (chainBytes u.cs.chunks).length
    rw [place, chunks, chainBytes_cons, Packet.chunk, List.length_append, Packet.length_j2kBytes]
    exact Nat.le_trans f.carries.fits (Nat.le_add_right _ _)
  have same : resume (BitVec.ofNat 32 f.header.length) { u with geomSig := f.signature } =
      { u with
        geomSig := f.signature
        startSOD := BitVec.ofNat 32 f.header.length
        cs := u.cs.reset (BitVec.ofNat 32 f.header.length)
        isPassedHeader := true } := by
    simp only [resume, if_neg f.sod_ne_zero]
  rw [same]
  refine ⟨⟨old, n, latched, opening.tile⟩, chunks, ⟨on, ⟨rfl, rfl⟩, ?_⟩, ⟨rfl, opening.idle.2.1⟩,
    opening.quiet, opening.held, opening.bytes.trans f.size_main⟩
  exact (congrArg FlatReader.pos (Codestream.flat_reset _ _)).trans place

/-- A frame of the latched stream, unless the escape hatch is due. -/
theorem takenUp_of_known (settled : s.Settled left.ops)
    (latched : h.Latched s.tileHndr.tile ∧ s.tileHndr.tile.ready = true)
    (known : s.geomSig = 0 ∨ s.geomSig = f.signature)
    (calm : ¬ ((s.arrived cb left.ops f.sent.main).relatchK ≠ 0 ∧
      (s.arrived cb left.ops f.sent.main).relatchK ≤ (s.arrived cb left.ops f.sent.main).parseFailStreak)) :
    TakenUp cb h f none s (s.pullData cb left.ops f.sent.main) := by
  obtain ⟨opening, again, r, step, pulled⟩ := main_starts settled f
  generalize s.arrived cb left.ops f.sent.main = u at opening again step calm
  have signed : left.ops.geometrySignature f.sent.main.j2kBytes = (f.signature, BitVec.ofNat 32 f.header.length) :=
    f.signature_main
  have ready : left.ops.isReady u.tileHndr = true := by
    rw [opening.tile]
    exact latched.2
  -- Neither the hatch nor another geometry asks for a new latch.
  have kept : u.relatchReason f.signature = none := by
    rw [relatchReason, if_neg calm, again.latch.1]
    rcases known with first | same
    · simp [first]
    · simp [same]
  have reused : u.parsesAnew left.ops f.sent.main = false := by
    simp [parsesAnew, ready, signed, kept]
  rw [pulled]
  cases step with
  | refused _ _ malformed =>
    rw [signed] at malformed
    exact absurd malformed f.signature_ne_zero
  | resumed _ _ _ _ =>
    rw [signed]
    refine ⟨started_of_resumed opening latched, rfl, again.latch.2.2, ?_, fun released => ?_⟩
    · simpa [resume] using again.trace
    · obtain ⟨total, trunc, _⟩ := again.clean released
      exact ⟨total, trunc⟩
  | continued _ incomplete _ | collected _ incomplete _ => exact absurd incomplete (Nat.not_lt.mpr f.whole.main.1)
  | unparsed anew _ _ | uncreated anew _ _ _ | latched anew _ _ => exact absurd anew (Bool.eq_false_iff.mp reused)

/-- A readable header is parsed, and the structure that is built from it stands on the body. -/
theorem structureCreated_whole (left : Residue) {t : TileHandler} {reports : List Report} {n : Nat}
    (opening : FirstChunk f.sent.main ⟨t, reports, n⟩ u)
    (readable : Throughout Markers.read Readable t.markers f.segments)
    (created : TileHandler.create { t with markers := f.segments.foldl Markers.read t.markers } = some (true, h)) :
    (u.headerParsed left.ops).startSOD = BitVec.ofNat 32 f.header.length ∧
    (left.ops.create (u.headerParsed left.ops).tileHndr).1 = true ∧
    ∃ cs : Codestream, u.structureCreated left.ops = { u with
        startSOD := BitVec.ofNat 32 f.header.length
        tileHndr := ⟨left.fill n h, reports, n + 1⟩
        cs := cs } ∧
      cs.chunks = [f.sent.main.chunk] ∧ cs.OnChain ∧ (cs.bits = 0 ∧ cs.tmp = 0) ∧ cs.pos = f.header.length := by
  obtain ⟨extra, bytes⟩ := f.main_bytes
  have nonempty := chunk_nonempty f.whole.main.2.2.2
  have start : u.cs.reset 0 = { chunks := [f.sent.main.chunk] } := by
    rw [opening.cs]
    simp [Codestream.reset, Codestream.appendChunk, hop, nonempty]
  have each : ∀ c ∈ [f.sent.main.chunk], c.bytes ≠ [] := by simpa using nonempty
  have spelled : chainBytes [f.sent.main.chunk] = framed f.segments extra := by
    rw [← bytes, chainBytes_cons]
    exact List.append_nil _
  obtain ⟨cs, parsed, on, aligned, place⟩ := parseMainHeader_stands each spelled readable
  have result : left.ops.parseMainHeader u.tileHndr (u.cs.reset 0) = (BitVec.ofNat 32 f.header.length,
      ⟨{ t with markers := f.segments.foldl Markers.read t.markers }, reports, n⟩, cs) := by
    rw [start, opening.tile]
    simp only [Residue.ops, reportingOps, tileOps, parsed]
    rfl
  have built : left.ops.create ⟨{ t with markers := f.segments.foldl Markers.read t.markers }, reports, n⟩ =
      (true, ⟨left.fill n h, reports, n + 1⟩) := by
    simp only [Residue.ops, tileOps, created, Option.getD_some]
  refine ⟨?_, ?_, cs, ?_, parseMainHeader_chunks parsed, on, aligned, place⟩
  · simp only [headerParsed, result]
  · simp only [headerParsed, result, built]
  · simp only [structureCreated, headerParsed, result, built]

theorem opening_unlatched (left : Residue) {p : Packet} {t : TileHandler} {reports : List Report} {n : Nat}
    (opening : FirstChunk p ⟨t, reports, n⟩ u) (sig : BitVec 64) :
    FirstChunk p ⟨{ t with ready := false }, reports, n⟩ (u.unlatched left.ops sig) := by
  simp only [unlatched]
  split
  · exact ⟨by rw [opening.tile]; rfl, opening.held, opening.cs, opening.bytes, opening.idle, opening.quiet⟩
  next unready =>
    have unready : t.ready = false := by
      rw [opening.tile] at unready
      exact Bool.eq_false_iff.mpr unready
    have same : { t with ready := false } = t := by rw [← unready]
    rw [same]
    exact opening

/-- A frame whose header is parsed anew, because the stream is not latched or not any more. Its structure is
what is written plus what the arena held. -/
theorem takenUp_of_anew (settled : s.Settled left.ops)
    (anew : (s.arrived cb left.ops f.sent.main).parsesAnew left.ops f.sent.main = true)
    (readable : Throughout Markers.read Readable s.tileHndr.tile.markers f.segments)
    (created : (s.tileHndr.tile.reread f.segments).create = some (true, h)) (counted : h.Counted) :
    TakenUp cb (left.fill s.tileHndr.built h) f ((s.arrived cb left.ops f.sent.main).reasonOf left.ops f.signature) s
      (s.pullData cb left.ops f.sent.main) := by
  obtain ⟨opening, again, r, step, pulled⟩ := main_starts settled f
  generalize s.arrived cb left.ops f.sent.main = u at opening again step anew
  have signed : (left.ops.geometrySignature f.sent.main.j2kBytes).1 = f.signature := by
    change (geometrySignature _).1 = _
    rw [f.signature_main]
  have dropped := opening_unlatched left opening f.signature
  have plain := unlatched_eq left.ops f.signature u
  obtain ⟨sod, accepted, cs, built, chunks, on, aligned, place⟩ := structureCreated_whole left dropped readable created
  rw [pulled]
  cases step with
  | refused reused _ _ | resumed reused _ _ _ | continued reused _ _ | collected reused _ _ =>
    exact absurd anew (Bool.eq_false_iff.mp reused)
  | unparsed _ same failed =>
    rw [same, signed, sod] at failed
    exact absurd failed f.sod_ne_zero
  | uncreated _ same _ failed =>
    rw [same, signed, accepted] at failed
    cases failed
  | latched _ same _ =>
    rw [same, signed, built]
    have kept := left.written s.tileHndr.built h
    generalize left.fill s.tileHndr.built h = filled at kept
    have latched := TileHandler.latched_create created counted kept
    -- A structure that was just built has no signals and nothing to zero.
    have rested : filled.restart = filled := by
      obtain ⟨⟨_, _, _, _⟩, _, made⟩ := Option.map_eq_some_iff.mp created
      have queue : h.signalQueue = [] := (congrArg (fun r => r.2.signalQueue) made).symm
      have same : filled.signalQueue = [] := (congrArg TileHandler.signalQueue kept : _ = _).trans queue
      rw [TileHandler.restart_create created kept, ← same]
    have ready : filled.ready = true := by
      obtain ⟨⟨_, _, _, _⟩, _, made⟩ := Option.map_eq_some_iff.mp created
      have same : h.ready = _ := (congrArg (fun r => r.2.ready) made).symm
      exact (congrArg TileHandler.ready kept : _ = _).trans (same.trans (congrArg Prod.fst made))
    have started : Started filled f.sent f.header s.tileHndr.reports (announce cb (u.reasonOf left.ops f.signature)
        { u.unlatched left.ops f.signature with
          startSOD := BitVec.ofNat 32 f.header.length, cs := cs, isPassedHeader := true, geomSig := f.signature,
          tileHndr := ⟨filled, s.tileHndr.reports, s.tileHndr.built + 1⟩, parseFailStreak := 0 }) := by
      rw [announce_eq]
      refine ⟨⟨filled, s.tileHndr.built + 1, ⟨latched, ready⟩, ?_⟩, chunks, ⟨on, aligned, place⟩,
        ⟨rfl, dropped.idle.2.1⟩, dropped.quiet, dropped.held, dropped.bytes.trans f.size_main⟩
      rw [rested]
    refine ⟨started, ?_, ?_, ?_, fun released => ?_⟩
    · rw [announce_eq]
    · rw [plain, ← again.latch.2.2]
      cases u.reasonOf left.ops f.signature <;> rfl
    · rw [plain, ← again.trace]
      cases u.reasonOf left.ops f.signature with
      | none => simp [announce]
      | some reason => simp [announce, emit]
    · obtain ⟨total, trunc, _⟩ := again.clean released
      rw [announce_eq, plain]
      exact ⟨total, trunc⟩

end

end FrameHandler

end RtpDecoder.Frame
