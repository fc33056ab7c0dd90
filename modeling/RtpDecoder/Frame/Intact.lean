import RtpDecoder.Frame.Calls
import RtpDecoder.Lib.Throughout

/-!
# Intact frames

The frame-ready callback says of a frame whether it is intact. Beside the handler stands
what has become of the frame since its main packet: the header, the gaps and the failed
calls of `parse` and `flush`. The flag is computed before the EOC block calls `flush`, and
the failure of that call alone is not in it.
-/

namespace RtpDecoder.Frame

variable {T : Type} {s u : FrameHandler T} {p : Packet}

def Call.isFailure : Call → Bool
  | .create _ _ => false
  | .parse ok => !ok
  | .flush ok => !ok

def Event.isIntact : Event → Bool
  | .frameReady intact => intact
  | _ => false

/-- A frame: its main header was accepted, a gap hit it after its main packet, one of its
precincts did not parse. -/
structure Health where
  accepted : Bool := false
  gapped : Bool := false
  broken : Bool := false
deriving DecidableEq, Repr

def Health.good (h : Health) : Bool := h.accepted && !h.gapped && !h.broken

namespace FrameHandler

variable (cb : Callbacks) (ops : TileOps T)

/-- Calls of `parse` and `flush` that failed. -/
def failures (s : FrameHandler (Logged T)) : Nat := s.tileHndr.calls.countP Call.isFailure

/-- Frames reported as intact. -/
def intactReports (s : FrameHandler T) : Nat := s.trace.countP Event.isIntact

/-- A header that is parsed anew has to be parsed and its structure created. On a latched stream
the other complete headers have to be well formed; a part of a header is not looked at. -/
def acceptsHeader (p : Packet) (u : FrameHandler T) : Bool :=
  if u.parsesAnew ops p then u.builtBy ops p
  else ops.isReady u.tileHndr &&
    (decide (p.mh < 2) || decide ((ops.geometrySignature p.j2kBytes).1 ≠ 0))

/-- With a complete header that is accepted, and no other, `pull_data` goes on to the marker. -/
theorem acceptsHeader_eq {r : Bool × FrameHandler T}
    (complete : 2 ≤ p.mh) (step : MainStep cb ops p u r) : u.acceptsHeader ops p = r.1 := by
  have whole : ¬ p.mh < 2 := Nat.not_lt.mpr complete
  cases step with
  | refused reused ready malformed => simp [acceptsHeader, reused, malformed, whole]
  | resumed reused ready signed known =>
    simp only [acceptsHeader, reused, ready, decide_eq_true signed, Bool.or_true, Bool.and_self]
    rfl
  | continued _ incomplete _ | collected _ incomplete _ => exact absurd incomplete whole
  | unparsed anew same failed =>
    rw [acceptsHeader, if_pos anew, builtBy, ← same, headerAccepted, failed]
    rfl
  | uncreated anew same parsed failed =>
    rw [acceptsHeader, if_pos anew, builtBy, ← same, headerAccepted, failed, Bool.and_false]
  | latched anew same accepted =>
    rw [acceptsHeader, if_pos anew, builtBy, ← same, accepted]

end FrameHandler

open FrameHandler in
/-- The frame when a packet has taken the handler from `s` to `s'`. A main packet starts a frame. -/
def Health.after (cb : Callbacks) (ops : TileOps T) (p : Packet) (s s' : FrameHandler (Logged T))
    (h : Health) : Health :=
  let failed := decide (s.failures < s'.failures)
  if p.mh = 0 then { h with gapped := h.gapped || p.gap, broken := h.broken || failed }
  else { accepted := (s.arrived cb ops.logged p).acceptsHeader ops.logged p, broken := failed }

namespace FrameHandler

variable (cb : Callbacks) (ops : TileOps T)

/-- A call of `pull_data`, with the health of the frame beside it. -/
def watch (x : FrameHandler (Logged T) × Health) (p : Packet) : FrameHandler (Logged T) × Health :=
  (x.1.pullData cb ops.logged p, x.2.after cb ops p x.1 (x.1.pullData cb ops.logged p))

/-- A frame that is reported as intact is one. -/
def Honest (x : FrameHandler (Logged T) × Health) (p : Packet) : Prop :=
  x.1.intactReports < (x.1.pullData cb ops.logged p).intactReports → (watch cb ops x p).2.good = true

instance (x : FrameHandler (Logged T) × Health) (p : Packet) : Decidable (Honest cb ops x p) :=
  inferInstanceAs (Decidable (_ → _))

/-- The packet ends a frame that looks intact, and the `flush` of its last precincts fails. -/
def flushFails (s : FrameHandler T) (p : Packet) : Bool :=
  let r := (s.entered cb ops p).work cb ops p
  r.1 && p.marker && r.2.looksIntact && !(ops.flush r.2.tileHndr r.2.cs).1

/-! ### What the handler knows of a frame -/

/-- While a frame is tracked, its flags know its health. -/
structure Tracks (h : Health) (s : FrameHandler T) : Prop where
  accepted : s.isPassedHeader = true → h.accepted = true
  whole : s.isPassedHeader = true → s.isParsingFailure = false → h.broken = false
  gapless : s.isPassedHeader = true → s.isParsingFailure = false → s.resyncSoft = false →
    h.gapped = false

private theorem Tracks.of_idle {h : Health} (idle : s.isPassedHeader = false) : Tracks h s := by
  constructor <;> simp [idle]

/-- Of a frame that has failed, the flags need not know more. -/
private theorem Tracks.of_failed {h : Health} (failed : s.isParsingFailure = true)
    (accepted : s.isPassedHeader = true → h.accepted = true) : Tracks h s := by
  refine ⟨accepted, ?_, ?_⟩ <;> simp [failed]

private theorem Tracks.good {h : Health} (tracks : Tracks h s) (intact : s.looksIntact = true) : h.good = true := by
  simp only [looksIntact, Bool.and_eq_true, Bool.not_eq_true'] at intact
  obtain ⟨⟨sane, passed⟩, hard⟩ := intact
  simp [Health.good, tracks.accepted passed, tracks.whole passed sane, tracks.gapless passed sane hard]

section

variable {cb ops} {h : Health}

private theorem onGap_tracks (p : Packet) (tracks : Tracks h s) :
    Tracks { h with gapped := h.gapped || p.gap } (s.onGap cb p) := by
  simp only [onGap]
  split
  · split
    · -- The gap is in the frame, and so is `resync_soft_`.
      refine ⟨tracks.accepted, tracks.whole, ?_⟩
      simp
    · exact .of_failed rfl tracks.accepted
  next quiet =>
    refine ⟨tracks.accepted, tracks.whole, ?_⟩
    intro passed sane hard
    have gapless : p.gap = false := by simpa [passed, sane] using quiet
    rw [gapless, tracks.gapless passed sane hard]
    rfl

private theorem onSlabCap_tracks (tracks : Tracks h s) : Tracks h (s.onSlabCap cb ops) := by
  simp only [onSlabCap]
  split
  · exact .of_idle rfl
  · exact tracks

private theorem skipBody_tracks (tracks : Tracks h u) : Tracks h (u.skipBody cb ops p) := by
  simp only [skipBody]
  split
  · exact .of_idle rfl
  · exact ⟨tracks.accepted, tracks.whole, tracks.gapless⟩

private theorem walkPrecincts_tracks {w : FrameHandler (Logged T)} (tracks : Tracks h w) :
    Tracks { h with broken := h.broken || (w.parseCalls ops).any Call.isFailure }
      (w.walkPrecincts cb ops.logged) := by
  simp only [walkPrecincts, parseCalls]
  split
  · split
    next parsed =>
      have ok : (ops.parse w.tileHndr.tile w.cs).1 = true := parsed
      simp only [ok, List.any_cons, Call.isFailure, Bool.not_true, List.any_nil, Bool.or_false]
      exact ⟨tracks.accepted, tracks.whole, tracks.gapless⟩
    · exact .of_idle rfl
  · simp only [List.any_nil, Bool.or_false]
    exact tracks

/-- A body packet breaks the frame or leaves it as it is. -/
private theorem bodyPacket_tracks (p : Packet) {u : FrameHandler (Logged T)} (tracks : Tracks h u) :
    Tracks { h with broken := h.broken || (u.bodyCalls cb ops p).any Call.isFailure }
      (u.bodyPacket cb ops.logged p) := by
  have appended : Tracks h (u.appendPacket cb false p) :=
    ⟨tracks.accepted, tracks.whole, tracks.gapless⟩
  have passed : (u.appendPacket cb false p).isPassedHeader = u.isPassedHeader := rfl
  simp only [bodyPacket, bodyCalls, passed]
  split
  · exact walkPrecincts_tracks ⟨appended.accepted, appended.whole, appended.gapless⟩
  · simp only [List.any_nil, Bool.or_false]
    exact appended

/-- A frame is tracked from its main packet on if and only if the header is accepted. -/
private theorem main_tracks {r : Bool × FrameHandler T}
    (idle : u.isPassedHeader = false) (step : MainStep cb ops p u r) :
    Tracks { accepted := u.acceptsHeader ops p } r.2 := by
  cases step with
  | refused reused ready malformed => exact .of_idle idle
  | resumed reused ready signed known =>
    have accepted : u.acceptsHeader ops p = true := by
      simp only [acceptsHeader, reused, ready, decide_eq_true signed, Bool.or_true, Bool.and_self]
      rfl
    exact ⟨fun _ => accepted, fun _ _ => rfl, fun _ _ _ => rfl⟩
  | continued reused incomplete ready =>
    have accepted : u.acceptsHeader ops p = true := by simp [acceptsHeader, reused, ready, incomplete]
    exact ⟨fun _ => accepted, fun _ _ => rfl, fun _ _ _ => rfl⟩
  | collected reused incomplete unready => exact .of_idle idle
  | unparsed _ same _ | uncreated _ same _ _ =>
    rw [same, unlatched_eq]
    exact .of_idle idle
  | latched anew same built =>
    have accepted : u.acceptsHeader ops p = true := by
      rw [acceptsHeader, if_pos anew, builtBy, ← same, built]
    rw [announce_eq, same, unlatched_eq]
    exact ⟨fun _ => accepted, fun _ _ => rfl, fun _ _ _ => rfl⟩

end

/-! ### What a call counts -/

section

variable {cb ops} (lawful : ops.Lawful)

private theorem quiet_isIntact : Quiet Event.isIntact :=
  ⟨fun _ _ _ => rfl, fun _ => rfl, fun _ => rfl, fun _ => rfl, fun _ _ => rfl, rfl⟩

private theorem counts_congr {s s' : FrameHandler (Logged T)}
    (same : s'.account ops Event.isIntact = s.account ops Event.isIntact) :
    s'.failures = s.failures ∧ s'.intactReports = s.intactReports := by
  have calls := congrArg Account.calls same
  have events := congrArg Account.events same
  simp only [account] at calls events
  simp only [failures, intactReports, List.countP_eq_length_filter, calls, events, and_self]

omit lawful in
private theorem emit_intactReports (registered : Bool) {e : Event} (other : e.isIntact = false)
    (s : FrameHandler T) : (s.emit registered e).intactReports = s.intactReports := by
  cases registered <;> simp [emit, intactReports, other]

private theorem main_counts {u : FrameHandler (Logged T)} {r : Bool × FrameHandler (Logged T)}
    (step : MainStep cb ops.logged p u r) :
    r.2.failures = u.failures ∧ r.2.intactReports = u.intactReports := by
  have start (sig : BitVec 64) : (u.unlatched ops.logged sig).failures = u.failures ∧
      (u.unlatched ops.logged sig).intactReports = u.intactReports := by
    simp only [unlatched]
    split <;> exact ⟨rfl, rfl⟩
  have aborted (v : FrameHandler (Logged T)) : (v.failFrame cb .parse).intactReports = v.intactReports :=
    emit_intactReports _ rfl _
  cases step with
  | refused reused ready malformed => exact ⟨rfl, aborted u⟩
  | resumed _ _ _ _ | continued _ _ _ | collected _ _ _ => exact ⟨rfl, rfl⟩
  | unparsed _ same _ | uncreated _ same _ _ =>
    obtain ⟨failures, reports⟩ := same ▸ start (ops.logged.geometrySignature p.j2kBytes).1
    exact ⟨failures, (aborted _).trans reports⟩
  | latched anew same accepted =>
    obtain ⟨failures, reports⟩ := same ▸ start (ops.logged.geometrySignature p.j2kBytes).1
    generalize u.reasonOf ops.logged (ops.logged.geometrySignature p.j2kBytes).1 = reason
    cases reason with
    | none => exact ⟨failures, reports⟩
    | some reason => exact ⟨failures, (emit_intactReports cb.relatch rfl _).trans reports⟩

include lawful

private theorem bodyPacket_counts (u : FrameHandler (Logged T)) (p : Packet) :
    (u.bodyPacket cb ops.logged p).failures =
        (u.bodyCalls cb ops p).countP Call.isFailure + u.failures ∧
      (u.bodyPacket cb ops.logged p).intactReports = u.intactReports := by
  have counted : (u.bodyPacket cb ops.logged p).account ops Event.isIntact = _ :=
    bodyPacket_account quiet_isIntact lawful u p
  have calls := congrArg Account.calls counted
  have events := congrArg Account.events counted
  simp only [account] at calls events
  simp only [failures, intactReports, List.countP_eq_length_filter, calls, events, List.filter_append,
    List.length_append, and_self]

/-- Up to the EOC block the flags know all of the frame, and nothing is reported. -/
private theorem work_tracks (p : Packet) {s : FrameHandler (Logged T)} {h : Health} (holds : s.Holds)
    (tracks : Tracks h s) {r : Bool × FrameHandler (Logged T)}
    (way : Work cb ops.logged p (s.entered cb ops.logged p) r) :
    Tracks (h.after cb ops p s r.2) r.2 ∧ s.failures ≤ r.2.failures ∧
      r.2.intactReports = s.intactReports := by
  obtain ⟨failures, reports⟩ : (s.entered cb ops.logged p).failures = s.failures ∧
      (s.entered cb ops.logged p).intactReports = s.intactReports :=
    counts_congr (entered_account quiet_isIntact lawful s p)
  have before : Tracks { h with gapped := h.gapped || p.gap } (s.entered cb ops.logged p) :=
    onSlabCap_tracks (onGap_tracks p tracks)
  cases way with
  | skipped body skips =>
    obtain ⟨failures', reports'⟩ : (skipBody cb ops.logged p (s.entered cb ops.logged p)).failures = _ ∧ _ :=
      counts_congr (skipBody_account quiet_isIntact lawful (s.entered cb ops.logged p) p)
    refine ⟨?_, (failures'.trans failures).ge, reports'.trans reports⟩
    simp only [Health.after, body, if_true, failures', failures, Nat.lt_irrefl, decide_false, Bool.or_false]
    exact skipBody_tracks before
  | body body passed sane =>
    obtain ⟨failures', reports'⟩ : (bodyPacket cb ops.logged p (s.entered cb ops.logged p)).failures = _ ∧ _ :=
      bodyPacket_counts lawful (s.entered cb ops.logged p) p
    rw [failures] at failures'
    refine ⟨?_, failures' ▸ Nat.le_add_left _ _, reports'.trans reports⟩
    -- The number of failures in the log grows exactly if a call of this packet failed.
    have broken : decide (s.failures < (bodyPacket cb ops.logged p (s.entered cb ops.logged p)).failures) =
        ((s.entered cb ops.logged p).bodyCalls cb ops p).any Call.isFailure := by
      rw [failures', Bool.eq_iff_iff, decide_eq_true_eq, List.any_eq_true, ← List.countP_pos_iff]
      omega
    simp only [Health.after, body, if_true, broken]
    exact bodyPacket_tracks p before
  | main main step =>
    obtain ⟨failures', reports'⟩ := main_counts step
    obtain ⟨failures'', reports''⟩ : (s.arrived cb ops.logged p).failures = s.failures ∧ _ :=
      counts_congr (arrived_account quiet_isIntact lawful s p)
    have idle : (s.arrived cb ops.logged p).isPassedHeader = false :=
      ((holds.entered p).opened_fresh p).1
    have same : r.2.failures = s.failures := failures'.trans failures''
    refine ⟨?_, same.ge, reports'.trans reports''⟩
    simp only [Health.after, if_neg main, same, Nat.lt_irrefl, decide_false]
    exact main_tracks idle step

private theorem endFrame_counts (u : FrameHandler (Logged T)) :
    (u.endFrame cb ops.logged).failures =
        (u.looksIntact && !(ops.flush u.tileHndr.tile u.cs).1).toNat + u.failures ∧
      (u.endFrame cb ops.logged).intactReports = (cb.frameReady && u.looksIntact).toNat + u.intactReports := by
  have counted : (u.endFrame cb ops.logged).account ops Event.isIntact = _ :=
    endFrame_account quiet_isIntact lawful u
  have calls := congrArg Account.calls counted
  have events := congrArg Account.events counted
  simp only [account] at calls events
  simp only [failures, intactReports, List.countP_eq_length_filter, calls, events, List.filter_append,
    List.length_append, flushCalls]
  constructor
  · cases u.looksIntact <;> cases (ops.flush u.tileHndr.tile u.cs).1 <;> rfl
  · cases u.looksIntact <;> cases cb.frameReady <;> rfl

private theorem watch_tracks (p : Packet) {x : FrameHandler (Logged T) × Health} (holds : x.1.Holds)
    (tracks : Tracks x.2 x.1) : Tracks (watch cb ops x p).2 (watch cb ops x p).1 := by
  have worked := (work_tracks lawful p holds tracks (work_cases cb ops.logged lawful.logged p _)).1
  simp only [watch, pullData_eq, close]
  split
  · exact .of_idle rfl
  · exact worked

omit lawful in
/-- A good frame stays good if nothing fails in it from then on. -/
private theorem good_after {s v v' : FrameHandler (Logged T)} {h : Health} {failed : Bool}
    (good : (h.after cb ops p s v).good = true) (grown : s.failures ≤ v.failures)
    (counted : v'.failures = failed.toNat + v.failures) :
    (h.after cb ops p s v').good = !failed := by
  have failing : decide (s.failures < v'.failures) = (decide (s.failures < v.failures) || failed) := by
    cases failed
    · simp [counted]
    · simp [counted]
      omega
  by_cases body : p.mh = 0
  · simp only [Health.after, Health.good, body, if_true, Bool.and_eq_true, Bool.not_eq_true',
      Bool.or_eq_false_iff] at good
    simp [Health.after, Health.good, body, failing, good]
  · simp only [Health.after, Health.good, body, if_false, Bool.and_eq_true, Bool.not_eq_true'] at good
    simp [Health.after, Health.good, body, failing, good]

/-- The report at the EOC is wrong of a frame that looks intact and cannot be flushed. -/
private theorem honest_iff (p : Packet) {x : FrameHandler (Logged T) × Health} (holds : x.1.Holds)
    (tracks : Tracks x.2 x.1) :
    Honest cb ops x p ↔ (cb.frameReady && x.1.flushFails cb ops.logged p) = false := by
  obtain ⟨worked, failures, reports⟩ :=
    work_tracks lawful p holds tracks (work_cases cb ops.logged lawful.logged p _)
  simp only [Honest, watch, flushFails, pullData_eq, close]
  generalize (x.1.entered cb ops.logged p).work cb ops.logged p = r at worked failures reports ⊢
  cases ended : r.1 && p.marker with
  | false => simp [reports]
  | true =>
    obtain ⟨failures', reports'⟩ : (r.2.endFrame cb ops.logged).failures = _ ∧ _ :=
      endFrame_counts lawful r.2
    rw [if_pos rfl, reports', reports]
    cases intact : r.2.looksIntact with
    | false => simp
    | true =>
      rw [intact] at failures'
      rw [good_after (worked.good intact) failures failures']
      cases cb.frameReady <;> simp [TileOps.logged]

end

end FrameHandler

open FrameHandler in
/-- Every frame that a run reports as intact is so if and only if no packet of the run ends a
frame that looks intact and whose `flush` fails. By `run_erase` the log changes nothing. -/
theorem intact_reports_iff (cb : Callbacks) (ops : TileOps T) (lawful : ops.Lawful) (tileHndr : T)
    (relatchK : Nat) (packets : List Packet) :
    Throughout (watch cb ops) (Honest cb ops) (.new { tile := tileHndr } relatchK, {}) packets ↔
    Throughout (watch cb ops) (fun x p => (cb.frameReady && x.1.flushFails cb ops.logged p) = false)
      (.new { tile := tileHndr } relatchK, {}) packets := by
  apply throughout_congr fun x => x.1.Holds ∧ Tracks x.2 x.1
  · exact ⟨.new _ _, .of_idle rfl⟩
  · exact fun inv => ⟨inv.1.pullData lawful.logged _, watch_tracks lawful _ inv.1 inv.2⟩
  · exact fun inv => honest_iff lawful _ inv.1 inv.2

open FrameHandler in
theorem intact_reports_iff_emptyFrame :
    Throughout (watch {} tileOps) (Honest {} tileOps) (.new { tile := {} } 4, {}) emptyFrame ∧
    (emptyFrame.foldl (watch {} tileOps) (.new { tile := {} } 4, {})).1.intactReports = 1 :=
  ⟨(intact_reports_iff {} tileOps tileOps_lawful {} 4 emptyFrame).mpr (by decide +kernel), by decide +kernel⟩

/-- The one byte of the frame's body is no packet header. -/
def unflushable : Packet := packetOf 1 (List.replicate 8 0 ++ [0xE1]) true

open FrameHandler in
/-- The frame is reported as intact after its `flush` has failed. -/
theorem intact_report_unflushable :
    let x := watch {} tileOps (.new { tile := {} } 4, {}) (headerPacket 0x80)
    (watch {} tileOps x unflushable).1.tileHndr.calls.head? = some (.flush false) ∧
    (watch {} tileOps x unflushable).1.intactReports = 1 ∧
    (watch {} tileOps x unflushable).2 = { accepted := true, gapped := false, broken := true } ∧
    ¬ Throughout (watch {} tileOps) (Honest {} tileOps) (.new { tile := {} } 4, {})
      [headerPacket 0x80, unflushable] := by
  decide +kernel

end RtpDecoder.Frame
