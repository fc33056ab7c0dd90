import RtpDecoder.Frame.Calls
import RtpDecoder.Parser.Isolation

/-!
# The precinct callbacks behind the frame handler

Where one tile handler is seen through another, the frame handler does the same with both. So the log
of the calls changes nothing. Nor does a tile handler that also keeps the precinct callbacks it has
fired: seen without them it is the tile handler itself, and no decision depends on what was reported.
The arena that a structure is built in may hold anything where `create` does not write.
-/

namespace RtpDecoder.Frame

open RtpDecoder.Parser

/-! ### Two tile handlers, one seen through the other -/

variable {T T' : Type}

/-- What `ops` does, seen through `f`, is what `ops'` does. -/
structure TileOps.Hom (ops : TileOps T) (ops' : TileOps T') (f : T → T') : Prop where
  isReady : ∀ t, ops'.isReady (f t) = ops.isReady t
  invalidate : ∀ t, ops'.invalidate (f t) = f (ops.invalidate t)
  geometrySignature : ops'.geometrySignature = ops.geometrySignature
  parseMainHeader : ∀ t cs, ops'.parseMainHeader (f t) cs = (ops.parseMainHeader t cs).map id (Prod.map f id)
  create : ∀ t, ops'.create (f t) = (ops.create t).map id f
  appendSignal : ∀ t signal, ops'.appendSignal (f t) signal = f (ops.appendSignal t signal)
  parse : ∀ t cs, ops'.parse (f t) cs = (ops.parse t cs).map id (Prod.map f id)
  flush : ∀ t cs, ops'.flush (f t) cs = (ops.flush t cs).map id (Prod.map f id)
  restart : ∀ t, ops'.restart (f t) = f (ops.restart t)

namespace FrameHandler

/-- The frame handler with its tile handler seen through `f`. -/
def mapTile (f : T → T') (s : FrameHandler T) : FrameHandler T' := { s with tileHndr := f s.tileHndr }

@[simp] theorem mapTile_trace (f : T → T') (s : FrameHandler T) : (s.mapTile f).trace = s.trace := rfl

section

variable (cb : Callbacks) {ops : TileOps T} {ops' : TileOps T'} {f : T → T'} (hom : ops.Hom ops' f)
  (s : FrameHandler T) (p : Packet)

private theorem mapTile_onGap : (s.onGap cb p).mapTile f = (s.mapTile f).onGap cb p := by
  simp only [onGap, apply_ite (mapTile f)]
  rfl

include hom

private theorem mapTile_restartTile : (s.restartTile ops).mapTile f = (s.mapTile f).restartTile ops' := by
  simp only [restartTile, mapTile, hom.restart]

private theorem mapTile_onSlabCap : (s.onSlabCap cb ops).mapTile f = (s.mapTile f).onSlabCap cb ops' := by
  simp only [onSlabCap, apply_ite (mapTile f)]
  have ended := mapTile_restartTile hom ((s.fireAbort cb .slabCap).releaseHeldSlabs cb)
  have moved : ((s.fireAbort cb .slabCap).releaseHeldSlabs cb).mapTile f =
      ((s.mapTile f).fireAbort cb .slabCap).releaseHeldSlabs cb := rfl
  rw [← moved, ← ended]
  rfl

private theorem mapTile_skipBody : (s.skipBody cb ops p).mapTile f = (s.mapTile f).skipBody cb ops' p := by
  obtain ⟨_, _, _, _, _, _, failure, passed⟩ := s
  simp only [skipBody]
  cases p.marker with
  | false => rfl
  | true =>
    cases failure <;> cases passed <;> exact congrArg (emit true .eoc) (mapTile_restartTile hom (releaseHeldSlabs cb _))

private theorem mapTile_closeMissed : (s.closeMissed cb ops).mapTile f = (s.mapTile f).closeMissed cb ops' := by
  have held : (s.mapTile f).heldSlabs = s.heldSlabs := rfl
  have ended := mapTile_restartTile hom ((s.fireAbort cb .missedEOC).releaseHeldSlabs cb)
  have moved : ((s.fireAbort cb .missedEOC).releaseHeldSlabs cb).mapTile f =
      ((s.mapTile f).fireAbort cb .missedEOC).releaseHeldSlabs cb := rfl
  simp only [closeMissed, apply_ite (mapTile f), held]
  rw [← moved, ← ended]
  split
  · rfl
  · have failure (u : FrameHandler T) : (u.mapTile f).isParsingFailure = u.isParsingFailure := rfl
    have passed (u : FrameHandler T) : (u.mapTile f).isPassedHeader = u.isPassedHeader := rfl
    rw [failure, passed]
    split <;> rfl

private theorem mapTile_walkPrecincts : (s.walkPrecincts cb ops).mapTile f = (s.mapTile f).walkPrecincts cb ops' := by
  have parsed : ops'.parse (s.mapTile f).tileHndr (s.mapTile f).cs =
      (ops.parse s.tileHndr s.cs).map id (Prod.map f id) := hom.parse s.tileHndr s.cs
  simp only [walkPrecincts, apply_ite (mapTile f), parsed]
  rfl

private theorem mapTile_bodyPacket : (s.bodyPacket cb ops p).mapTile f = (s.mapTile f).bodyPacket cb ops' p := by
  have offered (u : FrameHandler T) (resyncByte : BitVec 32) :
      (u.offerPoint cb ops p resyncByte).mapTile f = (u.mapTile f).offerPoint cb ops' p resyncByte := by
    simp only [offerPoint, mapTile, hom.appendSignal]
    rfl
  simp only [bodyPacket, apply_ite (mapTile f), mapTile_walkPrecincts cb hom, offered]
  rfl

private theorem mapTile_latch (sig : BitVec 64) (relatch : Option RelatchReason) :
    (s.latch cb ops sig relatch).map id (mapTile f) = (s.mapTile f).latch cb ops' sig relatch := by
  have parsed : ops'.parseMainHeader (s.mapTile f).tileHndr ((s.mapTile f).cs.reset 0) =
      (ops.parseMainHeader s.tileHndr (s.cs.reset 0)).map id (Prod.map f id) := hom.parseMainHeader _ _
  cases relatch <;>
    simp only [latch, apply_ite (Prod.map id (mapTile f)), parsed, Prod.map_fst, Prod.map_snd, id, hom.create] <;> rfl

private theorem mapTile_mainPacket :
    (s.mainPacket cb ops p).map id (mapTile f) = (s.mapTile f).mainPacket cb ops' p := by
  have opened : (s.opened cb ops p).mapTile f = (s.mapTile f).opened cb ops' p := by
    rw [FrameHandler.opened, FrameHandler.opened, ← mapTile_closeMissed cb hom]
    rfl
  have appended (ops : TileOps T) (s : FrameHandler T) : appendPacket cb true p { s.closeMissed cb ops with
      isParsingFailure := false, frameParseFailed := false } = s.opened cb ops p := rfl
  have appended' (s : FrameHandler T') : appendPacket cb true p { s.closeMissed cb ops' with
      isParsingFailure := false, frameParseFailed := false } = s.opened cb ops' p := rfl
  simp only [mainPacket, appended, appended', ← opened]
  generalize s.opened cb ops p = u
  have ready (u : FrameHandler T) : ops'.isReady (u.mapTile f).tileHndr = ops.isReady u.tileHndr := hom.isReady _
  simp only [apply_ite (Prod.map id (mapTile f)), mapTile_latch cb hom, hom.geometrySignature, ready]
  simp only [mapTile, hom.invalidate, hom.isReady]
  rfl

private theorem mapTile_endFrame : (s.endFrame cb ops).mapTile f = (s.mapTile f).endFrame cb ops' := by
  have flushed : (s.flushFrame ops).mapTile f = (s.mapTile f).flushFrame ops' := by
    have result : ops'.flush (s.mapTile f).tileHndr (s.mapTile f).cs =
      (ops.flush s.tileHndr s.cs).map id (Prod.map f id) := hom.flush s.tileHndr s.cs
    simp only [flushFrame, apply_ite (mapTile f), result]
    rfl
  rw [endFrame_eq, endFrame_eq, ← flushed]
  exact congrArg (emit true .eoc) (mapTile_restartTile hom (releaseHeldSlabs cb _))

theorem mapTile_pullData : (s.pullData cb ops p).mapTile f = (s.mapTile f).pullData cb ops' p := by
  have before : (s.entered cb ops p).mapTile f = (s.mapTile f).entered cb ops' p := by
    rw [entered, entered, mapTile_onSlabCap cb hom, mapTile_onGap]
  rw [pullData_eq, pullData_eq, ← before]
  generalize s.entered cb ops p = u
  have worked : (u.work cb ops p).map id (mapTile f) = (u.mapTile f).work cb ops' p := by
    have skips : (u.mapTile f).skips p = u.skips p := rfl
    simp only [work, skips, apply_ite (Prod.map id (mapTile f)), mapTile_mainPacket cb hom]
    rw [← mapTile_bodyPacket cb hom, ← mapTile_skipBody cb hom]
    rfl
  rw [← worked]
  generalize u.work cb ops p = r
  simp only [close, apply_ite (mapTile f), mapTile_endFrame cb hom]
  rfl

theorem mapTile_run (packets : List Packet) :
    (s.run cb ops packets).mapTile f = (s.mapTile f).run cb ops' packets := by
  induction packets generalizing s with
  | nil => rfl
  | cons p rest ih => exact (ih _).trans (congrArg (fun u => u.run cb ops' rest) (mapTile_pullData cb hom s p))

end

/-! ### The log changes nothing -/

theorem logged_hom (ops : TileOps T) : ops.logged.Hom ops Logged.tile where
  isReady _ := rfl
  invalidate _ := rfl
  geometrySignature := rfl
  parseMainHeader _ _ := rfl
  create _ := rfl
  appendSignal _ _ := rfl
  parse _ _ := rfl
  flush _ _ := rfl
  restart _ := rfl

/-- A run with a log is the run without it. -/
theorem run_erase (cb : Callbacks) (ops : TileOps T) (s : FrameHandler (Logged T)) (packets : List Packet) :
    (s.run cb ops.logged packets).erase = s.erase.run cb ops packets :=
  mapTile_run cb (logged_hom ops) s packets

end FrameHandler

/-! ### The precinct callbacks -/

/-- A tile handler, the precinct callbacks that it has fired, the latest first, and how many structures it
has built. -/
structure Reporting where
  tile : TileHandler := {}
  reports : List Report := []
  built : Nat := 0

/-- The tile handler without its callbacks. -/
def Reporting.bare (t : Reporting) : TileHandler × Nat := (t.tile, t.built)

/-- `parse` and `flush` go on behind the callbacks so far. -/
def reportingOps : TileOps Reporting where
  isReady t := t.tile.ready
  invalidate t := { t with tile := t.tile.invalidate }
  geometrySignature := Header.geometrySignature
  parseMainHeader t s :=
    let r := tileOps.parseMainHeader t.tile s
    (r.1, { t with tile := r.2.1 }, r.2.2)
  create t :=
    let r := tileOps.create t.tile
    (r.1, { t with tile := r.2, built := t.built + 1 })
  appendSignal t signal := { t with tile := t.tile.appendSignal signal }
  parse t s := match (Walk.mk t.tile s t.reports).parse with
    | none => (false, t, s)
    | some (ok, w) => (ok, { t with tile := w.handler, reports := w.reports }, w.cs)
  flush t s :=
    let r := (Walk.mk t.tile s t.reports).flush
    (r.1, { t with tile := r.2.handler, reports := r.2.reports }, r.2.cs)
  restart t := { t with tile := t.tile.restart }
  parseMainHeader_chunks t s := tileOps.parseMainHeader_chunks t.tile s
  parse_chunks t s := by
    split
    · rfl
    next returned => exact Walk.kept_chunks.parse returned
  flush_chunks t s := Walk.kept_chunks.flush _

/-- Two walks that differ in their callbacks only stay so. -/
theorem lockstep_reports : Walk.Lockstep fun w w' => w.handler = w'.handler ∧ w.cs = w'.cs where
  gate := fun ⟨handler, cs⟩ => by simp only [Walk.gateOpen, handler, cs]
  size := fun ⟨handler, _⟩ => by simp only [Walk.crpSize, Walk.tile, handler]
  place := fun ⟨handler, _⟩ => by simp only [Walk.crpIdx, Walk.tile, handler]
  queue := fun ⟨handler, _⟩ => by rw [handler]
  code := fun ⟨handler, cs⟩ => by simp only [Walk.packet, Walk.current, Walk.crpIdx, Walk.tile, handler, cs]
  packet := fun ⟨handler, cs⟩ => by
    simp only [Walk.parseOnePrecinct, Walk.packet, Walk.current, Walk.crpIdx, Walk.tile, handler, cs, and_self]
  index i := fun ⟨handler, cs⟩ => by simp only [Walk.setCrpIdx, Walk.tile, handler, cs, and_self]
  recover := by
    rintro ⟨handler, cs, reports⟩ ⟨_, _, reports'⟩ ⟨rfl, rfl⟩
    have place : (Walk.mk handler cs reports).crpIdx = (Walk.mk handler cs reports').crpIdx := rfl
    simp only [Walk.tryRecover, ← place]
    generalize handler.signalQueue.dropWhile _ = queue
    cases queue with
    | nil => exact ⟨rfl, rfl, rfl⟩
    | cons sig rest =>
      by_cases none_there : handler.markers.siz.csiz = 0
      · simp only [if_pos none_there, and_self]
      simp only [if_neg none_there]
      cases (handler.crpIdxByPid.getD (sig.pid.toNat % handler.markers.siz.csiz) [])[
          sig.pid.toNat / handler.markers.siz.csiz]? with
      | none => exact ⟨rfl, rfl, rfl⟩
      | some newCrpIdx =>
        by_cases behind : newCrpIdx < (Walk.mk handler cs reports).crpIdx
        · simp only [if_pos behind, and_self]
        · simp only [if_neg behind]
          exact ⟨trivial, rfl, trivial⟩
  report i := fun ⟨handler, cs⟩ _ => by
    simp only [Walk.setCrpIdx, Walk.parseOnePrecinct, Walk.packet, Walk.current, Walk.crpIdx, Walk.tile, handler, cs,
      and_self]

private theorem unreported (h : TileHandler) (s : Codestream) (reports : List Report) :
    (Walk.mk h s reports).handler = (Walk.mk h s []).handler ∧ (Walk.mk h s reports).cs = (Walk.mk h s []).cs :=
  ⟨rfl, rfl⟩

/-- Without its callbacks it is the tile handler. -/
theorem reportingOps_hom : reportingOps.Hom tileOps Reporting.tile where
  isReady _ := rfl
  invalidate _ := rfl
  geometrySignature := rfl
  parseMainHeader _ _ := rfl
  create _ := rfl
  appendSignal _ _ := rfl
  parse t s := by
    have same := lockstep_reports.parse (unreported t.tile s t.reports)
    simp only [reportingOps, tileOps]
    generalize (Walk.mk t.tile s t.reports).parse = o at same ⊢
    generalize (Walk.mk t.tile s []).parse = o' at same ⊢
    cases same with
    | none => rfl
    | some related =>
      obtain ⟨code, handler, cs⟩ := related
      simp only [← code, ← handler, ← cs]
      rfl
  flush t s := by
    obtain ⟨code, handler, cs⟩ :=
      lockstep_reports.flush (unreported t.tile s t.reports)
    simp only [reportingOps, tileOps, ← code, ← handler, ← cs]
    rfl
  restart _ := rfl

theorem reportingOps_lawful : reportingOps.Lawful where
  invalidate t := tileOps_lawful.invalidate t.tile
  parseMainHeader t := tileOps_lawful.parseMainHeader t.tile
  create t := tileOps_lawful.create t.tile
  appendSignal t := tileOps_lawful.appendSignal t.tile
  parse t s := by
    have same := congrArg (fun r => r.2.1.ready) (reportingOps_hom.parse t s)
    exact same.symm.trans (tileOps_lawful.parse t.tile s)
  flush t s := by
    have same := congrArg (fun r => r.2.1.ready) (reportingOps_hom.flush t s)
    exact same.symm.trans (tileOps_lawful.flush t.tile s)
  restart t := tileOps_lawful.restart t.tile

/-! ### What the arena holds -/

/-- A tile handler in an arena that is never cleared: what it builds for the `n`-th time is filled up with
what was there. -/
def TileOps.onArena (ops : TileOps T) (fill : Nat → T → T) : TileOps (T × Nat) where
  isReady t := ops.isReady t.1
  invalidate t := (ops.invalidate t.1, t.2)
  geometrySignature := ops.geometrySignature
  parseMainHeader t s :=
    let r := ops.parseMainHeader t.1 s
    (r.1, (r.2.1, t.2), r.2.2)
  create t :=
    let r := ops.create t.1
    (r.1, fill t.2 r.2, t.2 + 1)
  appendSignal t signal := (ops.appendSignal t.1 signal, t.2)
  parse t s :=
    let r := ops.parse t.1 s
    (r.1, (r.2.1, t.2), r.2.2)
  flush t s :=
    let r := ops.flush t.1 s
    (r.1, (r.2.1, t.2), r.2.2)
  restart t := (ops.restart t.1, t.2)
  parseMainHeader_chunks t := ops.parseMainHeader_chunks t.1
  parse_chunks t := ops.parse_chunks t.1
  flush_chunks t := ops.flush_chunks t.1

/-- What the arena holds, each time, where `create` does not write. -/
structure Residue where
  fill : Nat → TileHandler → TileHandler
  written : ∀ n h, (fill n h).written = h.written

namespace Residue

variable (left : Residue)

/-- The tile handler with its callbacks, in this arena. -/
def ops : TileOps Reporting :=
  { reportingOps with
    create := fun t =>
      let r := tileOps.create t.tile
      (r.1, { t with tile := left.fill t.built r.2, built := t.built + 1 }) }

theorem ops_hom : left.ops.Hom (tileOps.onArena left.fill) Reporting.bare where
  isReady _ := rfl
  invalidate _ := rfl
  geometrySignature := rfl
  parseMainHeader _ _ := rfl
  create _ := rfl
  appendSignal _ _ := rfl
  parse t s := by
    have kept : (reportingOps.parse t s).2.1.built = t.built := by
      simp only [reportingOps]
      split <;> rfl
    simp only [TileOps.onArena, Reporting.bare, reportingOps_hom.parse]
    rw [← kept]
    rfl
  flush t s := by
    simp only [TileOps.onArena, Reporting.bare, reportingOps_hom.flush]
    rfl
  restart _ := rfl

theorem ops_lawful : left.ops.Lawful :=
  { reportingOps_lawful with
    create := fun t unready =>
      (congrArg TileHandler.ready (left.written _ _) : _ = _).trans (tileOps_lawful.create t.tile unready) }

end Residue

end RtpDecoder.Frame
