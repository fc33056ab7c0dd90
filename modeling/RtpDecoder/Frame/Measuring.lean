import RtpDecoder.Frame.Counters
import RtpDecoder.Frame.InUse
import RtpDecoder.Frame.Reporting
import RtpDecoder.Parser.Overshoot

/-!
# The statistics behind the frame handler

The tile handler with `PARSER_OVERSHOOT_INSTR`, driven by the frame handler. The frame handler does
what it does without, and the counters of the two layers agree: a precinct that was refused and not
recovered from costs a frame, and one frame only.
-/

namespace RtpDecoder.Frame

open RtpDecoder.Parser

/-! ### The tile handler with its statistics -/

/-- A tile handler, the precinct callbacks that it has fired, and its statistics. -/
structure Measuring where
  reporting : Reporting
  stats : OvershootStats := {}

/-- The walk of a call, on the codestream that the call is given. -/
def Measuring.walking (t : Measuring) (cs : Codestream) : Measured :=
  ⟨⟨t.reporting.tile, cs, t.reporting.reports⟩, t.stats⟩

/-- `reset_overshoot_stats`. -/
def Measuring.resetOvershootStats (t : Measuring) : Measuring := { t with stats := {} }

/-- The tile handler as a walk leaves it. -/
def Measuring.walked (t : Measuring) (m : Measured) : Measuring :=
  ⟨{ t.reporting with tile := m.walk.handler, reports := m.walk.reports }, m.stats⟩

/-- Neither `restart` nor a new structure touches the statistics. -/
def measuringOps : TileOps Measuring where
  isReady t := reportingOps.isReady t.reporting
  invalidate t := { t with reporting := reportingOps.invalidate t.reporting }
  geometrySignature := reportingOps.geometrySignature
  parseMainHeader t s :=
    let r := reportingOps.parseMainHeader t.reporting s
    (r.1, { t with reporting := r.2.1 }, r.2.2)
  create t :=
    let r := reportingOps.create t.reporting
    (r.1, { t with reporting := r.2 })
  appendSignal t signal := { t with reporting := reportingOps.appendSignal t.reporting signal }
  parse t s := match (t.walking s).parse with
    | none => (false, t, s)
    | some (ok, m) => (ok, t.walked m, m.walk.cs)
  flush t s :=
    let r := (t.walking s).flush
    (r.1, t.walked r.2, r.2.walk.cs)
  restart t := { t with reporting := reportingOps.restart t.reporting }
  parseMainHeader_chunks t s := reportingOps.parseMainHeader_chunks t.reporting s
  parse_chunks t s := by
    split
    · rfl
    next ok m returned =>
      have same : (t.walking s).walk.parse = some (ok, m.walk) := by
        rw [← Measured.parse_seen, returned]
        rfl
      exact Walk.kept_chunks.parse same
  flush_chunks t s := by
    have same : (t.walking s).flush.2.walk = (t.walking s).walk.flush.2 :=
      congrArg Prod.snd (Measured.flush_seen (t.walking s))
    dsimp only
    rw [same]
    exact Walk.kept_chunks.flush _

/-- Without its statistics it is the tile handler with its callbacks. -/
theorem measuringOps_hom : measuringOps.Hom reportingOps Measuring.reporting where
  isReady _ := rfl
  invalidate _ := rfl
  geometrySignature := rfl
  parseMainHeader _ _ := rfl
  create _ := rfl
  appendSignal _ _ := rfl
  parse t s := by
    have same := Measured.parse_seen (t.walking s)
    have walk : (t.walking s).walk = ⟨t.reporting.tile, s, t.reporting.reports⟩ := rfl
    simp only [reportingOps, measuringOps, ← walk, ← same]
    cases (t.walking s).parse with
    | none => rfl
    | some r => rfl
  flush t s := by
    have same := Measured.flush_seen (t.walking s)
    have walk : (t.walking s).walk = ⟨t.reporting.tile, s, t.reporting.reports⟩ := rfl
    simp only [reportingOps, measuringOps, ← walk, ← same]
    rfl
  restart _ := rfl

/-! ### What every operation keeps -/

section

variable {T : Type}

/-- What stays true of a tile handler whatever is done with it. -/
structure TileOps.Closed (ops : TileOps T) (P : T → Prop) : Prop extends ops.Stable P where
  invalidate : ∀ t, P t → P (ops.invalidate t)
  parseMainHeader : ∀ t cs, P t → P (ops.parseMainHeader t cs).2.1
  create : ∀ t, P t → P (ops.create t).2

/-- The operations on the tile handlers of which it is true. -/
def TileOps.restrict (ops : TileOps T) {P : T → Prop} (closed : ops.Closed P) : TileOps { t // P t } where
  isReady t := ops.isReady t.1
  invalidate t := ⟨ops.invalidate t.1, closed.invalidate _ t.2⟩
  geometrySignature := ops.geometrySignature
  parseMainHeader t cs :=
    let r := ops.parseMainHeader t.1 cs
    (r.1, ⟨r.2.1, closed.parseMainHeader _ _ t.2⟩, r.2.2)
  create t := ((ops.create t.1).1, ⟨(ops.create t.1).2, closed.create _ t.2⟩)
  appendSignal t signal := ⟨ops.appendSignal t.1 signal, closed.appendSignal _ _ t.2⟩
  parse t cs :=
    let r := ops.parse t.1 cs
    (r.1, ⟨r.2.1, closed.parse _ _ t.2⟩, r.2.2)
  flush t cs :=
    let r := ops.flush t.1 cs
    (r.1, ⟨r.2.1, closed.flush _ _ t.2⟩, r.2.2)
  restart t := ⟨ops.restart t.1, closed.restart _ t.2⟩
  parseMainHeader_chunks t := ops.parseMainHeader_chunks t.1
  parse_chunks t := ops.parse_chunks t.1
  flush_chunks t := ops.flush_chunks t.1

theorem TileOps.restrict_hom {ops : TileOps T} {P : T → Prop} (closed : ops.Closed P) :
    (ops.restrict closed).Hom ops Subtype.val where
  isReady _ := rfl
  invalidate _ := rfl
  geometrySignature := rfl
  parseMainHeader _ _ := rfl
  create _ := rfl
  appendSignal _ _ := rfl
  parse _ _ := rfl
  flush _ _ := rfl
  restart _ := rfl

theorem FrameHandler.tile_run {ops : TileOps T} {P : T → Prop} (closed : ops.Closed P) {s : FrameHandler T}
    (holds : P s.tileHndr) (cb : Callbacks) (packets : List Packet) : P (s.run cb ops packets).tileHndr := by
  let inside : FrameHandler { t // P t } := { s with tileHndr := ⟨s.tileHndr, holds⟩ }
  have same : ((inside.run cb (ops.restrict closed) packets).mapTile Subtype.val) = s.run cb ops packets :=
    mapTile_run cb (TileOps.restrict_hom closed) inside packets
  rw [← same]
  exact (inside.run cb (ops.restrict closed) packets).tileHndr.2

end

/-! ### Failures and frames -/

section

variable {T : Type}

/-- A count of failures, kept by the tile handler: only a walk adds to it, and only a walk that fails
adds one more. -/
structure TileOps.Counts (ops : TileOps T) (failures : T → Int) : Prop where
  invalidate : ∀ t, failures (ops.invalidate t) = failures t
  parseMainHeader : ∀ t cs, failures (ops.parseMainHeader t cs).2.1 = failures t
  create : ∀ t, failures (ops.create t).2 = failures t
  appendSignal : ∀ t signal, failures (ops.appendSignal t signal) = failures t
  parse : ∀ t cs, failures (ops.parse t cs).2.1 ≤ failures t + (!(ops.parse t cs).1).toNat
  flush : ∀ t cs, failures (ops.flush t cs).2.1 ≤ failures t + (!(ops.flush t cs).1).toNat
  restart : ∀ t, failures (ops.restart t) = failures t

namespace FrameHandler

/-- The frames that count as truncated, the one in flight included. -/
def truncated (s : FrameHandler T) : Nat := s.truncFrames + s.isParsingFailure.toNat

/-- From `s` to `s'` the truncated frames have grown by the failures at least. -/
def Charged (failures : T → Int) (s s' : FrameHandler T) : Prop :=
  failures s'.tileHndr + s.truncated ≤ failures s.tileHndr + s'.truncated

variable {failures : T → Int} {s u v : FrameHandler T}

theorem Charged.trans (here : Charged failures s u) (there : Charged failures u v) : Charged failures s v := by
  unfold Charged at *
  omega

section

variable (same : failures u.tileHndr = failures s.tileHndr)

include same

private theorem charged_flags (trunc : u.truncFrames = s.truncFrames)
    (flag : s.isParsingFailure = true → u.isParsingFailure = true) : Charged failures s u := by
  unfold Charged truncated
  rw [same, trunc]
  cases failed : s.isParsingFailure with
  | true => rw [flag failed]
  | false => simp only [Bool.toNat_false]; omega

private theorem charged_counted (trunc : u.truncFrames = s.truncFrames + 1) : Charged failures s u := by
  have one := Bool.toNat_le s.isParsingFailure
  unfold Charged truncated
  rw [same, trunc]
  omega

end

/-- A walk on behalf of a sound frame, which becomes a failed one if the walk fails. -/
private theorem charged_walked {r : Bool × T × Codestream} (sane : s.isParsingFailure = false)
    (walked : failures r.2.1 ≤ failures s.tileHndr + (!r.1).toNat) (tile : u.tileHndr = r.2.1)
    (trunc : u.truncFrames = s.truncFrames) (flag : u.isParsingFailure = !r.1) : Charged failures s u := by
  unfold Charged truncated
  rw [sane, tile, trunc, flag, Bool.toNat_false]
  omega

variable {cb : Callbacks} {ops : TileOps T}

theorem exists_kept_run (lawful : ops.Lawful) {b : Books} (kept : Kept b s) (packets : List Packet) :
    ∃ b', Kept b' (s.run cb ops packets) := by
  induction packets generalizing s b with
  | nil => exact ⟨b, kept⟩
  | cons p rest ih => exact ih (pullData_kept lawful kept p).1

variable (counts : ops.Counts failures)

include counts

private theorem charged_entered (p : Packet) (s : FrameHandler T) : Charged failures s (s.entered cb ops p) := by
  have asked : Charged failures s (s.onGap cb p) := by
    simp only [onGap]
    split
    · split
      · exact charged_flags rfl rfl id
      · exact charged_flags rfl rfl fun _ => rfl
    · exact charged_flags rfl rfl id
  apply asked.trans
  simp only [entered, onSlabCap]
  split
  · exact charged_counted (counts.restart _) rfl
  · exact charged_flags rfl rfl id

private theorem charged_skipBody (p : Packet) (u : FrameHandler T) : Charged failures u (u.skipBody cb ops p) := by
  simp only [skipBody]
  split
  · split
    · exact charged_counted (counts.restart _) rfl
    next unmarked =>
      -- With neither flag set there is no failure to forget.
      have quiet : u.isParsingFailure = false ∧ u.isPassedHeader = false := by simpa [emit] using unmarked
      exact charged_flags (counts.restart _) rfl fun failed => absurd failed (Bool.eq_false_iff.mp quiet.1)
  · exact charged_flags rfl rfl id

/-- A main packet that finds a failed frame counts it. -/
private theorem charged_opened (p : Packet)
    (tracked : u.isPassedHeader = true ∨ u.isParsingFailure = true → u.heldSlabs ≠ []) :
    Charged failures u (u.opened cb ops p) := by
  obtain ⟨_, _, _, trunc⟩ := closeMissed_counters cb ops u tracked
  have same : failures (u.opened cb ops p).tileHndr = failures u.tileHndr := by
    rcases (latch_opened cb ops p u).1 with kept | restarted
    · rw [kept]
    · rw [restarted, counts.restart]
  have counted : (u.opened cb ops p).truncFrames = (u.closeMissed cb ops).truncFrames := rfl
  cases failed : u.isParsingFailure with
  | true =>
    rw [failed, Bool.or_true, Bool.toNat_true, ← counted] at trunc
    exact charged_counted same trunc
  | false =>
    have one := Nat.zero_le (u.isPassedHeader || u.isParsingFailure).toNat
    -- A frame in flight that has not failed counts too, which the inequality allows.
    unfold Charged truncated
    rw [same, counted, trunc, failed]
    simp only [Bool.toNat_false]
    omega

private theorem charged_main {p : Packet} {r : Bool × FrameHandler T} (step : MainStep cb ops p u r)
    (sane : u.isParsingFailure = false) : Charged failures u r.2 := by
  have trunc := (main_counters step).1.2
  -- The header of a frame that has just opened finds no failure to forget.
  have fresh : u.isParsingFailure = true → r.2.isParsingFailure = true := fun failed =>
    absurd failed (Bool.eq_false_iff.mp sane)
  have unlatched_same (sig : BitVec 64) : failures (u.unlatched ops sig).tileHndr = failures u.tileHndr := by
    simp only [unlatched]
    split
    · exact counts.invalidate _
    · rfl
  refine charged_flags ?_ trunc fresh
  cases step with
  | refused _ _ _ | resumed _ _ _ _ | continued _ _ _ | collected _ _ _ => rfl
  | unparsed _ same _ =>
    rw [same]
    exact (counts.parseMainHeader _ _).trans (unlatched_same _)
  | uncreated _ same _ _ =>
    rw [same]
    exact (counts.create _).trans ((counts.parseMainHeader _ _).trans (unlatched_same _))
  | latched _ same _ =>
    rw [announce_eq, same]
    exact (counts.create _).trans ((counts.parseMainHeader _ _).trans (unlatched_same _))

private theorem charged_walkPrecincts (u : FrameHandler T) : Charged failures u (u.walkPrecincts cb ops) := by
  have walked := counts.parse u.tileHndr u.cs
  simp only [walkPrecincts]
  split
  next sound =>
    have sane : u.isParsingFailure = false := by
      simp only [Bool.and_eq_true, Bool.not_eq_true'] at sound
      exact sound.1
    split
    next went => exact charged_walked sane walked rfl rfl (by rw [went]; exact sane)
    next failed => exact charged_walked sane walked rfl rfl (by rw [Bool.eq_false_iff.mpr failed]; rfl)
  · exact charged_flags rfl rfl id

private theorem charged_bodyPacket (p : Packet) (u : FrameHandler T) : Charged failures u (u.bodyPacket cb ops p) := by
  have taken : Charged failures u (u.appendPacket cb false p) := charged_flags rfl rfl id
  simp only [bodyPacket]
  split
  · have offered (byte : BitVec 32) (v : FrameHandler T) : Charged failures v (v.offerPoint cb ops p byte) :=
      charged_flags (counts.appendSignal _ _) rfl id
    exact taken.trans ((offered _ _).trans (charged_walkPrecincts counts _))
  · exact taken

/-- The EOC block counts the frame that has failed, be it in its `flush`. -/
private theorem charged_endFrame (u : FrameHandler T) : Charged failures u (u.endFrame cb ops) := by
  have flushed : Charged failures u (u.flushFrame ops) := by
    have walked := counts.flush u.tileHndr u.cs
    simp only [flushFrame]
    split
    next intact =>
      have sane : u.isParsingFailure = false := by
        simp only [looksIntact, Bool.and_eq_true, Bool.not_eq_true'] at intact
        exact intact.1.1
      split
      next went => exact charged_walked sane walked rfl rfl (by rw [went]; exact sane)
      next failed => exact charged_walked sane walked rfl rfl (by rw [Bool.eq_false_iff.mpr failed]; rfl)
    · exact charged_flags rfl rfl id
  apply flushed.trans
  have same : failures (u.endFrame cb ops).tileHndr = failures (u.flushFrame ops).tileHndr := counts.restart _
  have trunc : (u.endFrame cb ops).truncFrames =
    (u.flushFrame ops).truncFrames + (u.flushFrame ops).isParsingFailure.toNat := rfl
  have closed : (u.endFrame cb ops).isParsingFailure = false := rfl
  unfold Charged truncated
  rw [same, trunc, closed]
  simp only [Bool.toNat_false]
  omega

theorem charged_pullData (lawful : ops.Lawful) {b : Books} (kept : Kept b s) (p : Packet) :
    Charged failures s (s.pullData cb ops p) := by
  have entry : Charged failures s (s.entered cb ops p) := charged_entered counts p s
  have kept_entered : Kept (b.enter cb ops p s) (s.entered cb ops p) := (kept.entered p).1
  have tracked := kept_entered.tracked
  rw [pullData_eq]
  generalize s.entered cb ops p = u at entry tracked ⊢
  apply entry.trans
  have worked : Charged failures u (u.work cb ops p).2 := by
    have way := work_cases cb ops lawful p u
    generalize u.work cb ops p = r at way ⊢
    cases way with
    | skipped _ _ => exact charged_skipBody counts p u
    | body _ _ _ => exact charged_bodyPacket counts p u
    | main _ step => exact (charged_opened counts p tracked).trans (charged_main counts step rfl)
  rw [close]
  split
  · exact worked.trans (charged_endFrame counts _)
  · exact worked

theorem charged_run (lawful : ops.Lawful) {b : Books} (kept : Kept b s) (packets : List Packet) :
    Charged failures s (s.run cb ops packets) := by
  induction packets generalizing s b with
  | nil => exact Int.le_refl _
  | cons p rest ih =>
    have step : Charged failures s (s.pullData cb ops p) := charged_pullData counts lawful kept p
    exact step.trans (ih (pullData_kept lawful kept p).1)

end FrameHandler

end

/-! ### The counters of the two layers -/

theorem measuringOps_lawful : measuringOps.Lawful where
  invalidate t := reportingOps_lawful.invalidate t.reporting
  parseMainHeader t := reportingOps_lawful.parseMainHeader t.reporting
  create t := reportingOps_lawful.create t.reporting
  appendSignal t := reportingOps_lawful.appendSignal t.reporting
  parse t s := by
    have same := congrArg (fun r => r.2.1.tile.ready) (measuringOps_hom.parse t s)
    exact same.symm.trans (reportingOps_lawful.parse t.reporting s)
  flush t s := by
    have same := congrArg (fun r => r.2.1.tile.ready) (measuringOps_hom.flush t s)
    exact same.symm.trans (reportingOps_lawful.flush t.reporting s)
  restart t := reportingOps_lawful.restart t.reporting

/-- The precincts that were refused and not recovered from. -/
def Measuring.lost (t : Measuring) : Int := t.stats.failedParses - t.stats.recoveries

theorem measuringOps_counts : measuringOps.Counts Measuring.lost where
  invalidate _ := rfl
  parseMainHeader _ _ := rfl
  create _ := rfl
  appendSignal _ _ := rfl
  parse t s := by
    simp only [measuringOps]
    split
    · simp only [Bool.not_false, Bool.toNat_true]
      omega
    next ok m returned =>
      have given_up := (Measured.parse_addsUp returned).given_up
      simp only [Measuring.lost, Measuring.walked, Measuring.walking] at given_up ⊢
      omega
  flush t s := by
    have given_up := (Measured.flush_addsUp (t.walking s)).given_up
    have before : (t.walking s).stats = t.stats := rfl
    rw [before] at given_up
    simp only [measuringOps, Measuring.lost, Measuring.walked]
    omega
  restart _ := rfl

/-- As many precincts were counted as reported, up to what was reported before the last reset. -/
theorem measuringOps_closed (earlier : Nat) :
    measuringOps.Closed fun t => t.reporting.reports.length = earlier + t.stats.precinctsParsed where
  invalidate _ holds := holds
  parseMainHeader _ _ holds := holds
  create _ holds := holds
  appendSignal _ _ holds := holds
  parse t s holds := by
    simp only [measuringOps]
    split
    · exact holds
    next ok m returned =>
      have parsed := (Measured.parse_addsUp returned).parsed
      simp only [Measuring.walked, Measuring.walking] at parsed ⊢
      omega
  flush t s holds := by
    have parsed := (Measured.flush_addsUp (t.walking s)).parsed
    have before : (t.walking s).stats = t.stats ∧ (t.walking s).walk.reports = t.reporting.reports := ⟨rfl, rfl⟩
    rw [before.1, before.2] at parsed
    simp only [measuringOps, Measuring.walked]
    omega
  restart _ holds := holds

namespace FrameHandler

/-- A new handler with its statistics, after the packets `before` a log line and the reset at its end. -/
def window (cb : Callbacks) (tile : TileHandler) (relatchK : Nat) (before : List Packet) : FrameHandler Measuring :=
  ((FrameHandler.new (⟨⟨tile, [], 0⟩, {}⟩ : Measuring) relatchK).run cb measuringOps before).mapTile
    Measuring.resetOvershootStats

/-- The frame handler, its statistics put aside. -/
def plain (s : FrameHandler Measuring) : FrameHandler TileHandler := s.mapTile fun t => t.reporting.tile

theorem plain_run (cb : Callbacks) (s : FrameHandler Measuring) (packets : List Packet) :
    (s.run cb measuringOps packets).plain = s.plain.run cb tileOps packets := by
  have outer := mapTile_run cb measuringOps_hom s packets
  have inner := mapTile_run cb reportingOps_hom (s.mapTile Measuring.reporting) packets
  rw [← outer] at inner
  exact inner

theorem kept_window (cb : Callbacks) (tile : TileHandler) (relatchK : Nat) (before : List Packet) :
    ∃ b, Kept b (window cb tile relatchK before) := by
  have new : Kept {} (FrameHandler.new (⟨⟨tile, [], 0⟩, {}⟩ : Measuring) relatchK) := by
    refine ⟨rfl, ?_, ?_, ?_, fun _ => ⟨rfl, Nat.le_refl 0⟩⟩
    · simp [FrameHandler.new]
    · simp
    · simp [Books.died]
  obtain ⟨b, kept⟩ := (exists_kept_run measuringOps_lawful new before :
    ∃ b, Kept b (run cb measuringOps (.new ⟨⟨tile, [], 0⟩, {}⟩ relatchK) before))
  exact ⟨b, ⟨kept.flight, kept.tracked, kept.current, kept.died, kept.counted⟩⟩

end FrameHandler

/-- For all packets before a log line and after it: with the statistics the frame handler does what it
does without them; since the line as many precincts were counted as reported; and every failure since
then is a recovery or the end of a frame that counts as truncated. -/
theorem failures_cost_frames (cb : Callbacks) (tile : TileHandler) (relatchK : Nat) (before after : List Packet) :
    let start := FrameHandler.window cb tile relatchK before
    let s := start.run cb measuringOps after
    s.plain = (FrameHandler.new tile relatchK).run cb tileOps (before ++ after) ∧
      s.tileHndr.reporting.reports.length =
        start.tileHndr.reporting.reports.length + s.tileHndr.stats.precinctsParsed ∧
      s.tileHndr.stats.failedParses + start.truncated ≤ s.tileHndr.stats.recoveries + s.truncated := by
  intro start s
  refine ⟨?_, ?_, ?_⟩
  · have reset : start.plain = (FrameHandler.new tile relatchK).run cb tileOps before :=
      FrameHandler.plain_run cb (FrameHandler.new ⟨⟨tile, [], 0⟩, {}⟩ relatchK) before
    rw [FrameHandler.plain_run, reset]
    exact (List.foldl_append ..).symm
  · exact FrameHandler.tile_run (measuringOps_closed start.tileHndr.reporting.reports.length) rfl cb after
  · obtain ⟨b, kept⟩ := FrameHandler.kept_window cb tile relatchK before
    have charged : FrameHandler.Charged Measuring.lost start s :=
      FrameHandler.charged_run measuringOps_counts measuringOps_lawful kept after
    have nothing : start.tileHndr.lost = 0 := rfl
    unfold FrameHandler.Charged at charged
    rw [nothing, Measuring.lost] at charged
    omega

end RtpDecoder.Frame
