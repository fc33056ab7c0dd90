import RtpDecoder.Parser.Recovery
import Mathlib.Data.Nat.Bitwise

/-!
# The walk with its statistics

With `PARSER_OVERSHOOT_INSTR` the tile handler counts what its two walks do: precincts read and their
bytes, precincts that failed, recoveries and the precincts they skip, and why a recovery was not
possible. The turns are those of the walk, with the counters beside them. The counters add up, each
walk in its own way: `parse` has moved on before it looks at the outcome, so the precinct that failed
is not among those skipped; in `flush` it is.

The fields for drift and `max_offset_read_` are left out: nothing fills the former, nothing reads the
latter.
-/

namespace RtpDecoder.Parser

structure OvershootStats where
  precinctsParsed : Nat := 0
  sumPrecinctBytes : Nat := 0
  failedParses : Nat := 0
  recoveries : Nat := 0
  skippedPrecincts : Nat := 0
  recoverNoSignal : Nat := 0
  recoverBadPid : Nat := 0
  recoverBackward : Nat := 0
  lastFail : Crp := ⟨0, 0, 0⟩
  lastFailCrpIdx : Nat := 0
  lastFailSrcPos : BitVec 32 := 0
deriving DecidableEq, Repr

namespace OvershootStats

/-- `record_precinct`; the difference of the two positions is taken in `size_t`. -/
def recordPrecinct (before after : BitVec 32) (o : OvershootStats) : OvershootStats :=
  { o with
    precinctsParsed := o.precinctsParsed + 1
    sumPrecinctBytes := (o.sumPrecinctBytes + (after.toNat + 2 ^ 64 - before.toNat)) % 2 ^ 64 }

/-- `record_failure`. -/
def recordFailure (ct : Crp) (crpIdx : Nat) (pos : BitVec 32) (o : OvershootStats) : OvershootStats :=
  { o with
    failedParses := o.failedParses + 1
    lastFail := ct
    lastFailCrpIdx := crpIdx
    lastFailSrcPos := pos }

/-- What `try_recover` counts, called at this place of the walk. -/
def recordRecovery (w : Walk) (o : OvershootStats) : OvershootStats :=
  let nc := w.handler.markers.siz.csiz
  match w.handler.signalQueue.dropWhile fun sig => sig.byteOffset ≤ w.cs.getPos with
  | [] => { o with recoverNoSignal := o.recoverNoSignal + 1 }
  | sig :: _ =>
    -- The one reason that is not counted.
    if nc = 0 then o
    else
      match (w.handler.crpIdxByPid.getD (sig.pid.toNat % nc) [])[sig.pid.toNat / nc]? with
      | none => { o with recoverBadPid := o.recoverBadPid + 1 }
      | some newCrpIdx =>
        if newCrpIdx < w.crpIdx then { o with recoverBackward := o.recoverBackward + 1 }
        else
          { o with
            recoveries := o.recoveries + 1
            skippedPrecincts := o.skippedPrecincts + (newCrpIdx - w.crpIdx) }

/-- The failures that the other counters explain. -/
def explained (o : OvershootStats) : Nat :=
  o.recoveries + o.recoverNoSignal + o.recoverBadPid + o.recoverBackward

end OvershootStats

/-- A walk and its statistics. -/
structure Measured where
  walk : Walk
  stats : OvershootStats := {}
deriving DecidableEq, Repr

namespace Measured

/-- `try_recover`, with what it counts. -/
def tryRecover (m : Measured) : Bool × Measured :=
  (m.walk.tryRecover.1, ⟨m.walk.tryRecover.2, m.stats.recordRecovery m.walk⟩)

/-- A turn of the walk with what it counts; from `next` a refused precinct is recovered. The Boolean is
`false` when the loop is left with a failure. -/
def turn (m : Measured) (body : Option Walk) (next : Walk) : Bool × Measured :=
  let stats :=
    if m.walk.packet.1 then m.stats.recordPrecinct m.walk.cs.getPos next.cs.getPos
    else (m.stats.recordFailure m.walk.current m.walk.crpIdx next.cs.getPos).recordRecovery next
  match body with
  | some w => (true, ⟨w, stats⟩)
  | none => (false, ⟨next.tryRecover.2, stats⟩)

def parseTurn (m : Measured) : Bool × Measured :=
  m.turn m.walk.parseBody (m.walk.parseOnePrecinct.setCrpIdx (m.walk.crpIdx + 1))

def parseLoop : Nat → Measured → Option (Bool × Measured)
  | 0, _ => none
  | fuel + 1, m =>
    if !m.walk.gateOpen then some (true, m)
    else if m.walk.crpSize ≤ m.walk.crpIdx then none
    else if m.parseTurn.1 then parseLoop fuel m.parseTurn.2 else some m.parseTurn

def parse (m : Measured) : Option (Bool × Measured) := parseLoop (m.walk.crpSize - m.walk.crpIdx + 1) m

def flushTurn (m : Measured) : Bool × Measured := m.turn m.walk.flushBody m.walk.parseOnePrecinct

def flushLoop : Nat → Measured → Bool × Measured
  | 0, m => (true, m)
  | fuel + 1, m =>
    if m.walk.crpSize ≤ m.walk.crpIdx then (true, m)
    else if m.flushTurn.1 then flushLoop fuel m.flushTurn.2 else m.flushTurn

def flush (m : Measured) : Bool × Measured :=
  flushLoop (m.walk.crpSize - m.walk.crpIdx + m.walk.handler.signalQueue.length) m

/-! ### The walk is the same -/

/-- What is left of a result without the statistics. -/
def seen (r : Bool × Measured) : Bool × Walk := (r.1, r.2.walk)

theorem turn_seen (m : Measured) (body : Option Walk) (next : Walk) :
    seen (m.turn body next) = match body with
      | none => (false, next.tryRecover.2)
      | some w => (true, w) := by
  cases body <;> rfl

theorem parseLoop_seen (fuel : Nat) (m : Measured) : (parseLoop fuel m).map seen = Walk.parseLoop fuel m.walk := by
  induction fuel generalizing m with
  | zero => rfl
  | succ fuel ih =>
    have turn : seen m.parseTurn = _ := turn_seen m m.walk.parseBody _
    simp only [parseLoop, Walk.parseLoop]
    split
    · rfl
    split
    · rfl
    cases went : m.walk.parseBody with
    | none =>
      rw [went] at turn
      have stops : m.parseTurn.1 = false := congrArg Prod.fst turn
      rw [stops]
      exact congrArg some turn
    | some w =>
      rw [went] at turn
      have goes : m.parseTurn.1 = true := congrArg Prod.fst turn
      have same : m.parseTurn.2.walk = w := congrArg Prod.snd turn
      rw [goes, if_pos rfl, ih, same]

theorem flushLoop_seen (fuel : Nat) (m : Measured) : seen (flushLoop fuel m) = Walk.flushLoop fuel m.walk := by
  induction fuel generalizing m with
  | zero => rfl
  | succ fuel ih =>
    have turn : seen m.flushTurn = _ := turn_seen m m.walk.flushBody _
    simp only [flushLoop, Walk.flushLoop]
    split
    · rfl
    cases went : m.walk.flushBody with
    | none =>
      rw [went] at turn
      have stops : m.flushTurn.1 = false := congrArg Prod.fst turn
      rw [stops]
      exact turn
    | some w =>
      rw [went] at turn
      have goes : m.flushTurn.1 = true := congrArg Prod.fst turn
      have same : m.flushTurn.2.walk = w := congrArg Prod.snd turn
      rw [goes, if_pos rfl, ih, same]

theorem parse_seen (m : Measured) : m.parse.map seen = m.walk.parse := parseLoop_seen _ m

theorem flush_seen (m : Measured) : seen m.flush = m.walk.flush := flushLoop_seen _ m

/-! ### The counters add up -/

/-- From `m` to the result every precinct that the walk has moved on over was reported, skipped or, if
`moves` is 1, refused. A failure is a recovery, or it ends the walk for one of three reasons. Without a
failure the bytes are those read. -/
structure AddsUp (moves : Nat) (m : Measured) (r : Bool × Measured) : Prop where
  parsed : r.2.stats.precinctsParsed + m.walk.reports.length = m.stats.precinctsParsed + r.2.walk.reports.length
  place : r.2.walk.crpIdx + m.stats.precinctsParsed + m.stats.skippedPrecincts + moves * m.stats.failedParses =
    m.walk.crpIdx + r.2.stats.precinctsParsed + r.2.stats.skippedPrecincts + moves * r.2.stats.failedParses
  given_up : r.2.stats.failedParses + m.stats.recoveries =
    m.stats.failedParses + r.2.stats.recoveries + (!r.1).toNat
  explained : m.walk.handler.markers.siz.csiz ≠ 0 →
    r.2.stats.failedParses + m.stats.explained = m.stats.failedParses + r.2.stats.explained
  grown : m.stats.failedParses ≤ r.2.stats.failedParses
  bytes : r.2.stats.failedParses = m.stats.failedParses →
    (r.2.stats.sumPrecinctBytes + m.walk.cs.getPos.toNat) % 2 ^ 64 =
      (m.stats.sumPrecinctBytes + r.2.walk.cs.getPos.toNat) % 2 ^ 64
  markers : r.2.walk.handler.markers = m.walk.handler.markers

theorem AddsUp.stop (moves : Nat) (m : Measured) : AddsUp moves m (true, m) where
  parsed := rfl
  place := rfl
  given_up := rfl
  explained := fun _ => rfl
  grown := Nat.le_refl _
  bytes := fun _ => rfl
  markers := rfl

theorem AddsUp.trans {moves : Nat} {m : Measured} {first second : Bool × Measured} (here : AddsUp moves m first)
    (went_on : first.1 = true) (there : AddsUp moves first.2 second) : AddsUp moves m second where
  parsed := by
    have := here.parsed
    have := there.parsed
    omega
  place := by
    have := here.place
    have := there.place
    omega
  given_up := by
    have early := here.given_up
    have late := there.given_up
    rw [went_on] at early
    simp only [Bool.not_true, Bool.toNat_false] at early
    omega
  explained := by
    intro components
    have := here.explained components
    have := there.explained (by rw [here.markers]; exact components)
    omega
  grown := here.grown.trans there.grown
  bytes := by
    intro same
    have early := here.grown
    have late := there.grown
    have read := here.bytes (by omega)
    have read_on := there.bytes (by omega)
    omega
  markers := there.markers.trans here.markers

/-- What `try_recover` counts, whether it finds a place to go on or not. -/
structure Tried (m : Measured) (r : Bool × Measured) : Prop where
  recovered : r.2.stats.recoveries = m.stats.recoveries + r.1.toNat
  explained : m.walk.handler.markers.siz.csiz ≠ 0 → r.2.stats.explained = m.stats.explained + 1
  place : r.2.walk.crpIdx + m.stats.skippedPrecincts = m.walk.crpIdx + r.2.stats.skippedPrecincts
  parsed : r.2.stats.precinctsParsed = m.stats.precinctsParsed
  failed : r.2.stats.failedParses = m.stats.failedParses
  reports : r.2.walk.reports = m.walk.reports
  markers : r.2.walk.handler.markers = m.walk.handler.markers

theorem tryRecover_tried {m : Measured} (tiled : m.walk.handler.tiles ≠ []) : Tried m m.tryRecover := by
  simp only [tryRecover, Walk.tryRecover, OvershootStats.recordRecovery]
  generalize m.walk.handler.signalQueue.dropWhile _ = queue
  cases queue with
  | nil => exact ⟨rfl, fun _ => by simp only [OvershootStats.explained]; omega, rfl, rfl, rfl, rfl, rfl⟩
  | cons sig rest =>
    -- Without components `try_recover` gives up and does not say why.
    by_cases none_there : m.walk.handler.markers.siz.csiz = 0
    · simp only [if_pos none_there]
      exact ⟨rfl, fun some_there => absurd none_there some_there, rfl, rfl, rfl, rfl, rfl⟩
    simp only [if_neg none_there]
    cases (m.walk.handler.crpIdxByPid.getD (sig.pid.toNat % m.walk.handler.markers.siz.csiz) [])[
        sig.pid.toNat / m.walk.handler.markers.siz.csiz]? with
    | none => exact ⟨rfl, fun _ => by simp only [OvershootStats.explained]; omega, rfl, rfl, rfl, rfl, rfl⟩
    | some newCrpIdx =>
      by_cases behind : newCrpIdx < m.walk.crpIdx
      · simp only [if_pos behind]
        exact ⟨rfl, fun _ => by simp only [OvershootStats.explained]; omega, rfl, rfl, rfl, rfl, rfl⟩
      · simp only [if_neg behind]
        generalize from_queue : { m.walk with
            handler := { m.walk.handler with signalQueue := sig :: rest } } = popped
        have moved : (popped.setCrpIdx newCrpIdx).crpIdx = newCrpIdx := by
          subst from_queue
          exact congrArg Tile.crpIdx (TileHandler.tile_setTile _ tiled)
        have kept : popped.reports = m.walk.reports ∧ popped.handler.markers = m.walk.handler.markers := by
          subst from_queue
          exact ⟨rfl, rfl⟩
        refine ⟨rfl, fun _ => by simp only [OvershootStats.explained]; omega, ?_, rfl, rfl, kept.1, kept.2⟩
        change (popped.setCrpIdx newCrpIdx).crpIdx + _ = _
        rw [moved]
        dsimp only
        omega

private theorem addsUp_read {moves : Nat} {m m' : Measured} (moved : m'.walk.crpIdx = m.walk.crpIdx + 1)
    (reported : m'.walk.reports.length = m.walk.reports.length + 1)
    (stats : m'.stats = m.stats.recordPrecinct m.walk.cs.getPos m'.walk.cs.getPos)
    (markers : m'.walk.handler.markers = m.walk.handler.markers) : AddsUp moves m (true, m') := by
  refine ⟨?_, ?_, ?_, ?_, ?_, ?_, markers⟩ <;> dsimp only <;> rw [stats]
  · simp only [OvershootStats.recordPrecinct]
    omega
  · simp only [OvershootStats.recordPrecinct]
    omega
  · rfl
  · exact fun _ => rfl
  · exact Nat.le_refl _
  · intro _
    have small := m.walk.cs.getPos.isLt
    simp only [OvershootStats.recordPrecinct]
    omega

/-- A precinct that was refused; `w` is the walk that `try_recover` finds. -/
private theorem addsUp_refused {moves : Nat} {m : Measured} {w : Walk} (ct : Crp) (crpIdx : Nat) (pos : BitVec 32)
    (moved : w.crpIdx = m.walk.crpIdx + moves) (reports : w.reports = m.walk.reports)
    (markers : w.handler.markers = m.walk.handler.markers) (tiled : w.handler.tiles ≠ []) :
    AddsUp moves m (tryRecover ⟨w, m.stats.recordFailure ct crpIdx pos⟩) := by
  have tried : Tried ⟨w, m.stats.recordFailure ct crpIdx pos⟩ _ := tryRecover_tried tiled
  generalize tryRecover ⟨w, m.stats.recordFailure ct crpIdx pos⟩ = r at tried
  obtain ⟨recovered, explained, place, parsed, failed, same, kept⟩ := tried
  simp only [OvershootStats.recordFailure] at recovered place parsed failed
  refine ⟨?_, ?_, ?_, ?_, ?_, ?_, kept.trans markers⟩
  · rw [same, reports, parsed]
  · rw [failed, Nat.mul_add, Nat.mul_one]
    omega
  · cases ok : r.1 <;>
      simp only [ok, Bool.not_false, Bool.not_true, Bool.toNat_false, Bool.toNat_true] at recovered ⊢ <;> omega
  · intro components
    have told : r.2.stats.explained = m.stats.explained + 1 := explained (by rw [markers]; exact components)
    omega
  · omega
  · intro unfailed
    omega

/-- In a turn whose precinct was refused, the walk is the one that `try_recover` finds. -/
private theorem turn_of_refused {m : Measured} {body : Option Walk} {next : Walk} (refused : m.walk.packet.1 = false)
    (tries : body = if next.tryRecover.1 then some next.tryRecover.2 else none) :
    m.turn body next = tryRecover ⟨next, m.stats.recordFailure m.walk.current m.walk.crpIdx next.cs.getPos⟩ := by
  subst tries
  simp only [turn, tryRecover, refused, Bool.false_eq_true, if_false]
  cases next.tryRecover.1 <;> rfl

theorem parseTurn_addsUp {m : Measured} (left : m.walk.crpIdx < m.walk.crpSize) : AddsUp 1 m m.parseTurn := by
  have index := Walk.advanceOne_crpIdx left
  cases packet : m.walk.packet.1 with
  | true =>
    simp only [parseTurn, turn, Walk.parseBody_of_packet packet, packet, if_true]
    exact addsUp_read index rfl rfl rfl
  | false =>
    have tiled : (m.walk.parseOnePrecinct.setCrpIdx (m.walk.crpIdx + 1)).handler.tiles ≠ [] := by
      have some := Walk.tiles_parseOnePrecinct left
      simp [Walk.setCrpIdx, TileHandler.setTile, some]
    rw [parseTurn, turn_of_refused packet (by simp only [Walk.parseBody, packet, Bool.false_eq_true, if_false])]
    exact addsUp_refused _ _ _ index rfl rfl tiled

theorem flushTurn_addsUp {m : Measured} (left : m.walk.crpIdx < m.walk.crpSize) : AddsUp 0 m m.flushTurn := by
  have index := Walk.advanceOne_crpIdx left
  have stays : m.walk.parseOnePrecinct.crpIdx = m.walk.crpIdx := by
    rw [Walk.crpIdx, Walk.tile_parseOnePrecinct left]
    rfl
  cases packet : m.walk.packet.1 with
  | true =>
    simp only [flushTurn, turn, Walk.flushBody_of_packet packet, packet, if_true]
    exact addsUp_read index rfl rfl rfl
  | false =>
    rw [flushTurn, turn_of_refused packet (by simp only [Walk.flushBody, packet, Bool.false_eq_true, if_false])]
    exact addsUp_refused _ _ _ stays rfl rfl (Walk.tiles_parseOnePrecinct left)

theorem parseLoop_addsUp (fuel : Nat) {m : Measured} {r : Bool × Measured} (returned : parseLoop fuel m = some r) :
    AddsUp 1 m r := by
  induction fuel generalizing m with
  | zero => cases returned
  | succ fuel ih =>
    simp only [parseLoop] at returned
    split at returned
    · cases returned
      exact .stop 1 m
    split at returned
    · cases returned
    next left =>
      have turn := parseTurn_addsUp (Nat.lt_of_not_le left)
      split at returned
      next went_on => exact turn.trans went_on (ih returned)
      next => cases returned; exact turn

theorem flushLoop_addsUp (fuel : Nat) (m : Measured) : AddsUp 0 m (flushLoop fuel m) := by
  induction fuel generalizing m with
  | zero => exact .stop 0 m
  | succ fuel ih =>
    simp only [flushLoop]
    split
    · exact .stop 0 m
    next left =>
      have turn := flushTurn_addsUp (Nat.lt_of_not_le left)
      split
      next went_on => exact turn.trans went_on (ih _)
      next => exact turn

theorem parse_addsUp {m : Measured} {r : Bool × Measured} (returned : m.parse = some r) : AddsUp 1 m r :=
  parseLoop_addsUp _ returned

theorem flush_addsUp (m : Measured) : AddsUp 0 m m.flush := flushLoop_addsUp _ m

/-- For every walk: with the statistics `parse` and `flush` do what they do without them, and the
counters add up. A `parse` moves on over what it reports, skips and refuses, a `flush` over what it
reports and skips. -/
theorem overshoot_stats_add_up (m : Measured) :
    m.parse.map seen = m.walk.parse ∧ seen m.flush = m.walk.flush ∧
      (∀ r, m.parse = some r → AddsUp 1 m r) ∧ AddsUp 0 m m.flush :=
  ⟨parse_seen m, flush_seen m, fun _ => parse_addsUp, flush_addsUp m⟩

end Measured

end RtpDecoder.Parser
