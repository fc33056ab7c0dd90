import RtpDecoder.Frame.Reporting

/-!
# The start of a frame

Whatever a frame handler has gone through, a main packet that comes without a gap finds the same
place: an empty chain, no slab held, a tile handler that has been restarted, no resync underway.
Damage does not outlive the frame in which it happened, except in the counters.
-/

namespace RtpDecoder.Parser

/-! ### Restarting twice -/

private theorem mapIdx_twice {α : Type} {l : List α} {f : Nat → α → α} (again : ∀ i a, f i (f i a) = f i a) :
    (l.mapIdx f).mapIdx f = l.mapIdx f := by
  rw [List.mapIdx_mapIdx]
  congr 1
  funext i a
  exact again i a

theorem Res.restart_restart (res : Res) : res.restart.restart = res.restart := by
  refine congrArg (fun prec => { res with prec := prec }) (mapIdx_twice (l := res.prec)
    (f := fun p prec => if p < res.npw * res.nph % 2 ^ 32 then prec.restart else prec) ?_)
  intro p prec
  by_cases walked : p < res.npw * res.nph % 2 ^ 32
  · simp only [if_pos walked, Prec.restart_restart]
  · simp only [if_neg walked]

theorem Tile.restart_restart (tile : Tile) : tile.restart.restart = tile.restart := by
  refine congrArg (fun tcomp => { tile with crpIdx := 0, tcomp := tcomp }) (mapIdx_twice (l := tile.tcomp)
    (f := fun c tcp => if c < tile.numComponents then { tcp with res := tcp.res.map Res.restart } else tcp) ?_)
  intro c tcp
  by_cases walked : c < tile.numComponents
  · simp only [if_pos walked, List.map_map, Function.comp_def, Res.restart_restart]
  · simp only [if_neg walked]

theorem TileHandler.restart_restart (h : TileHandler) : h.restart.restart = h.restart := by
  simp only [TileHandler.restart, List.map_map, Function.comp_def, Tile.restart_restart]

end RtpDecoder.Parser

namespace RtpDecoder.Frame

open RtpDecoder.Parser

/-! ### What is left between frames -/

variable {T : Type}

/-- To restart twice is to restart once. -/
def TileOps.Resting (ops : TileOps T) : Prop := ∀ t, ops.restart (ops.restart t) = ops.restart t

theorem Residue.ops_resting (left : Residue) : left.ops.Resting := by
  intro t
  simp only [ops, reportingOps, TileHandler.restart_restart]

namespace FrameHandler

/-- Nothing of a frame is left. -/
structure Empty (ops : TileOps T) (s : FrameHandler T) : Prop where
  cs : s.cs = {}
  bytes : s.chainTotalBytes = 0
  passed : s.isPassedHeader = false
  rested : ops.restart s.tileHndr = s.tileHndr

/-- Without a slab nothing of a frame is left. A resync is underway only in a frame that is
tracked, and points are offered only in the course of one. -/
structure Settled (ops : TileOps T) (s : FrameHandler T) : Prop where
  released : s.heldSlabs = [] → s.Empty ops
  soft : s.resyncSoft = true → s.isPassedHeader = true ∧ s.isParsingFailure = false
  armed : s.resyncArmed = true → s.resyncSoft = true

/-- A frame that has only its first chunk: what a main packet makes of any handler, before its
header is looked at. -/
structure FirstChunk (p : Packet) (t : T) (s : FrameHandler T) : Prop where
  tile : s.tileHndr = t
  held : s.heldSlabs = [p.slabIdx]
  cs : s.cs = Codestream.appendChunk {} p.chunk
  bytes : s.chainTotalBytes = p.size % 2 ^ 64
  idle : s.isPassedHeader = false ∧ s.isParsingFailure = false ∧ s.frameParseFailed = false
  quiet : s.resyncSoft = false ∧ s.resyncArmed = false

namespace Settled

variable {cb : Callbacks} {ops : TileOps T} {s u : FrameHandler T}

theorem of_held (held : s.heldSlabs ≠ []) (soft : s.resyncSoft = false) (armed : s.resyncArmed = false) :
    s.Settled ops := by
  refine ⟨fun none_held => absurd none_held held, ?_, ?_⟩
  · simp [soft]
  · simp [armed]

theorem of_empty (empty : s.Empty ops) (soft : s.resyncSoft = false) (armed : s.resyncArmed = false) :
    s.Settled ops := by
  refine ⟨fun _ => empty, ?_, ?_⟩
  · simp [soft]
  · simp [armed]

theorem new {tileHndr : T} (rested : ops.restart tileHndr = tileHndr) (relatchK : Nat) :
    (FrameHandler.new tileHndr relatchK).Settled ops :=
  of_empty ⟨rfl, rfl, rfl, rested⟩ rfl rfl

theorem quiet_of_idle (settled : s.Settled ops) (idle : s.isPassedHeader = false) :
    s.resyncSoft = false ∧ s.resyncArmed = false := by
  have soft : s.resyncSoft = false := by
    by_contra on
    have tracked := (settled.soft (Bool.not_eq_false _ ▸ on)).1
    rw [idle] at tracked
    cases tracked
  refine ⟨soft, ?_⟩
  by_contra on
  have going := settled.armed (Bool.not_eq_false _ ▸ on)
  rw [soft] at going
  cases going

theorem onGap (settled : s.Settled ops) (p : Packet) : (s.onGap cb p).Settled ops := by
  simp only [FrameHandler.onGap]
  split
  next hit =>
    simp only [Bool.and_eq_true, Bool.not_eq_true', Bool.or_eq_true] at hit
    obtain ⟨⟨_, flight⟩, sane⟩ := hit
    split
    -- Only a frame that is tracked is asked about.
    next accepted =>
      simp only [Bool.and_eq_true] at accepted
      have passed : s.isPassedHeader = true := accepted.1.2
      refine ⟨fun released => ?_, fun _ => ⟨passed, sane⟩, fun _ => rfl⟩
      have idle := (settled.released released).passed
      rw [passed] at idle
      cases idle
    · refine ⟨fun released => ?_, by simp [failFrame, fireAbort, emit], by simp [failFrame, fireAbort, emit]⟩
      obtain ⟨cs, bytes, idle, rested⟩ := settled.released released
      exact ⟨cs, bytes, idle, rested⟩
  · exact settled

theorem opening (settled : u.Settled ops) (p : Packet) :
    FirstChunk p (ops.restart u.tileHndr) (u.opened cb ops p) := by
  by_cases released : u.heldSlabs = []
  · obtain ⟨cs, bytes, idle, rested⟩ := settled.released released
    have closed : u.closeMissed cb ops = u := by simp [closeMissed, released]
    have quiet := settled.quiet_of_idle idle
    simp only [opened, closed]
    refine ⟨rested.symm, ?_, ?_, ?_, ⟨idle, rfl, rfl⟩, quiet⟩
    · change u.heldSlabs ++ [p.slabIdx] = _
      rw [released]
      rfl
    · change u.cs.appendChunk p.chunk = _
      rw [cs]
    · change (u.chainTotalBytes + p.size) % 2 ^ 64 = _
      rw [bytes, Nat.zero_add]
  · have full : u.heldSlabs.isEmpty = false := by simpa using released
    have given : FirstChunk p (ops.restart u.tileHndr) (appendPacket cb true p
        { (((u.fireAbort cb .missedEOC).releaseHeldSlabs cb).restartTile ops) with
          isPassedHeader := false, isParsingFailure := false, frameParseFailed := false }) :=
      ⟨rfl, rfl, rfl, by simp [appendPacket, deliverChunk, restartTile, releaseHeldSlabs, emit], ⟨rfl, rfl, rfl⟩,
        rfl, rfl⟩
    simp only [opened, closeMissed, full, Bool.false_eq_true, if_false]
    split
    · exact ⟨given.tile, given.held, given.cs, given.bytes, given.idle, given.quiet⟩
    · exact given

variable (again : ops.Resting)

include again

theorem onSlabCap (settled : s.Settled ops) : (s.onSlabCap cb ops).Settled ops := by
  simp only [FrameHandler.onSlabCap]
  split
  · exact of_empty ⟨rfl, rfl, rfl, again _⟩ rfl rfl
  · exact settled

theorem entered (settled : s.Settled ops) (p : Packet) : (s.entered cb ops p).Settled ops :=
  onSlabCap again (settled.onGap p)

/-- Behind any history, a main packet without a gap starts a frame on a restarted tile handler. -/
theorem arrived (settled : s.Settled ops) {p : Packet} (gapless : p.gap = false) :
    FirstChunk p (ops.restart s.tileHndr) (s.arrived cb ops p) := by
  have ready : (s.entered cb ops p).Settled ops := settled.entered again p
  have start : FirstChunk p _ (s.arrived cb ops p) := ready.opening p
  have unasked : s.onGap cb p = s := by simp [FrameHandler.onGap, gapless]
  have tile : ops.restart (s.entered cb ops p).tileHndr = ops.restart s.tileHndr := by
    simp only [FrameHandler.entered, unasked, FrameHandler.onSlabCap]
    split
    · exact again _
    · rfl
  rw [tile] at start
  exact start

omit again in
theorem main_quiet {p : Packet} {u : FrameHandler T} {r : Bool × FrameHandler T} (step : MainStep cb ops p u r)
    (quiet : u.resyncSoft = false ∧ u.resyncArmed = false) : r.2.resyncSoft = false ∧ r.2.resyncArmed = false := by
  have tried (sig : BitVec 64) :
      (u.unlatched ops sig).resyncSoft = false ∧ (u.unlatched ops sig).resyncArmed = false := by
    rw [unlatched_eq]
    exact quiet
  cases step with
  | refused _ _ _ | unparsed _ _ _ | uncreated _ _ _ _ => exact ⟨rfl, rfl⟩
  | resumed _ _ _ _ | continued _ _ _ | collected _ _ _ => exact quiet
  | latched _ same _ =>
    rw [announce_eq]
    exact same ▸ tried _

theorem work {p : Packet} {r : Bool × FrameHandler T} (settled : u.Settled ops) (way : Work cb ops p u r) :
    r.2.Settled ops := by
  cases way with
  | skipped body skips =>
    simp only [skipBody]
    split
    · -- A resync that is underway is over with the abort of its frame.
      have quiet : ∀ v : FrameHandler T, v.resyncSoft = u.resyncSoft → v.resyncArmed = u.resyncArmed →
          (if u.isParsingFailure || u.isPassedHeader then (v.fireAbort cb .damagedEOC).countDamaged else v).resyncSoft =
              false ∧
            (if u.isParsingFailure || u.isPassedHeader then (v.fireAbort cb .damagedEOC).countDamaged
              else v).resyncArmed = false := by
        intro v soft armed
        split
        · exact ⟨rfl, rfl⟩
        next idle =>
          have idle : u.isPassedHeader = false := by
            simp only [Bool.or_eq_true, not_or, Bool.not_eq_true] at idle
            exact idle.2
          have quiet := settled.quiet_of_idle idle
          exact ⟨soft.trans quiet.1, armed.trans quiet.2⟩
      obtain ⟨soft, armed⟩ := quiet (u.emit cb.releaseSlab (.releaseSlab p.slabIdx)) rfl rfl
      exact of_empty ⟨rfl, rfl, rfl, again _⟩ soft armed
    · obtain ⟨released, soft, armed⟩ := settled
      refine ⟨fun none_held => ?_, soft, armed⟩
      obtain ⟨cs, bytes, idle, rested⟩ := released none_held
      exact ⟨cs, bytes, idle, rested⟩
  | body body passed sane =>
    have held : (u.bodyPacket cb ops p).heldSlabs ≠ [] := Holds.bodyPacket_held p u
    have before : ∀ b : Bool, (u.resyncArmed && b) = true → u.resyncSoft = true := by
      intro b on
      exact settled.armed (Bool.and_eq_true_iff.mp on).1
    generalize moved : u.bodyPacket cb ops p = v at held
    simp only [bodyPacket, walkPrecincts] at moved
    have released : v.heldSlabs = [] → v.Empty ops := fun none_held => absurd none_held held
    split at moved
    · split at moved
      · split at moved <;> subst moved
        · exact ⟨released, settled.soft, before _⟩
        · exact ⟨released, by simp [failFrame, fireAbort, emit], by simp [failFrame, fireAbort, emit]⟩
      · subst moved
        exact ⟨released, settled.soft, before _⟩
    · subst moved
      exact ⟨released, settled.soft, settled.armed⟩
  | main main step =>
    have start : FirstChunk p (ops.restart u.tileHndr) (u.opened cb ops p) := settled.opening p
    have held : r.2.heldSlabs ≠ [] := by
      rw [Holds.main_held step, start.held]
      exact List.cons_ne_nil _ _
    obtain ⟨soft, armed⟩ := main_quiet step start.quiet
    exact of_held held soft armed

theorem pullData (lawful : ops.Lawful) (settled : s.Settled ops) (p : Packet) : (s.pullData cb ops p).Settled ops := by
  have worked := (settled.entered again p).work again (work_cases cb ops lawful p (s.entered cb ops p))
  rw [pullData_eq, close]
  split
  · rw [endFrame_eq]
    have quiet (v : FrameHandler T) :
        (v.flushFrame ops).resyncSoft = false ∧ (v.flushFrame ops).resyncArmed = false := by
      simp only [flushFrame]
      split
      · split <;> exact ⟨rfl, rfl⟩
      · exact ⟨rfl, rfl⟩
    obtain ⟨soft, armed⟩ := quiet (FrameHandler.work cb ops p (s.entered cb ops p)).2
    exact of_empty ⟨rfl, rfl, rfl, again _⟩ soft armed
  · exact worked

theorem run (lawful : ops.Lawful) (settled : s.Settled ops) (packets : List Packet) :
    (s.run cb ops packets).Settled ops := by
  induction packets generalizing s with
  | nil => exact settled
  | cons p rest ih => exact ih (settled.pullData again lawful p)

end Settled

end FrameHandler

end RtpDecoder.Frame
