import RtpDecoder.Frame.Intact

/-!
# The parse-fail escape hatch

A latched structure becomes suspect when frame after frame dies by a parse failure. Beside the
handler stands a tally of such frames, kept from what happens to them and to the tile handler,
and not from the flags by which `pull_data` counts them. At a complete main header of a latched
stream the count decides whether the structure is built anew.
-/

namespace RtpDecoder.Frame

variable {T : Type} {s u v : FrameHandler T} {p : Packet}

/-- A frame ends clean exactly if the EOC block flushes it with success. -/
def Call.isClean : Call → Bool
  | .flush ok => ok
  | _ => false

/-- The frame in flight has died by a parse failure, and how many such frames have ended since
the last clean end of a frame and the last successful `create`. -/
structure Tally where
  failed : Bool := false
  count : Nat := 0
deriving DecidableEq, Repr

namespace Tally

/-- A frame ends that is not clean. -/
def close (t : Tally) : Tally := { count := t.count + t.failed.toNat }

/-- The slab cap and a main packet end the frame before. -/
def before (s : FrameHandler T) (p : Packet) (t : Tally) : Tally :=
  if 3072 ≤ s.heldSlabs.length ∨ p.mh ≠ 0 then t.close else t

/-- What a packet does to its frame: the header is refused, and these calls are made. -/
def note (refused : Bool) (calls : List Call) (t : Tally) : Tally where
  failed := t.failed || refused || calls.any Call.isFailure
  count := if calls.any Call.isBuild then 0 else t.count

def finish (ended : Bool) (calls : List Call) (t : Tally) : Tally :=
  if ended then if calls.any Call.isClean then {} else t.close else t

end Tally

namespace FrameHandler

variable (cb : Callbacks) (ops : TileOps T)

/-- A complete main header that is malformed, or of which no structure can be created. -/
def refuses (s : FrameHandler T) (p : Packet) : Bool :=
  decide (2 ≤ p.mh) && !(s.arrived cb ops p).acceptsHeader ops p

end FrameHandler

open FrameHandler in
/-- The tally when a packet has taken the handler from `s` to `s'`. -/
def Tally.after (cb : Callbacks) (ops : TileOps T) (p : Packet) (s s' : FrameHandler (Logged T))
    (t : Tally) : Tally :=
  ((t.before s p).note (s.refuses cb ops.logged p) (s.callsSince s')).finish
    (s.endsAtMarker cb ops.logged p) (s.callsSince s')

namespace FrameHandler

variable (cb : Callbacks) (ops : TileOps T)

/-- The packet takes the parse-fail path: its stream is latched, and latched again for that reason. -/
def hatches (s : FrameHandler T) (p : Packet) : Bool :=
  (s.arrived cb ops p).parsesAnew ops p &&
    decide ((s.arrived cb ops p).reasonOf ops (ops.geometrySignature p.j2kBytes).1 = some .parseFail)

/-- A call of `pull_data`, with the tally beside it. -/
def count (x : FrameHandler (Logged T) × Tally) (p : Packet) : FrameHandler (Logged T) × Tally :=
  (x.1.pullData cb ops.logged p, x.2.after cb ops p x.1 (x.1.pullData cb ops.logged p))

/-! ### The flags of the handler -/

/-- The counter of the handler is the tally, as far as it fits. The frame in flight cannot have
died without a parsing failure and without slabs held. -/
structure Tallied (k : Nat) (t : Tally) (s : FrameHandler T) : Prop where
  threshold : s.relatchK = k
  streak : s.parseFailStreak = t.count % 2 ^ 32
  failed : s.frameParseFailed = t.failed
  evidence : s.frameParseFailed = true → s.isParsingFailure = true ∧ s.heldSlabs ≠ []

section

variable {cb ops} {k : Nat} {t : Tally}

private theorem Tallied.of_sound (threshold : s.relatchK = k)
    (streak : s.parseFailStreak = t.count % 2 ^ 32) (sound : s.frameParseFailed = false) (none : t.failed = false) :
    Tallied k t s :=
  ⟨threshold, streak, sound.trans none.symm, fun failed => absurd failed (Bool.eq_false_iff.mp sound)⟩

private theorem Tallied.sound (tallied : Tallied k t s) (sane : s.isParsingFailure = false) : t.failed = false := by
  rw [← tallied.failed, Bool.eq_false_iff]
  intro failed
  exact absurd (tallied.evidence failed).1 (Bool.eq_false_iff.mp sane)

private theorem streak_endFrameStreak (streak : s.parseFailStreak = t.count % 2 ^ 32)
    (failed : s.frameParseFailed = t.failed) :
    (s.endFrameStreak false).parseFailStreak = t.close.count % 2 ^ 32 := by
  simp only [endFrameStreak, Tally.close, failed, streak, Bool.false_eq_true, if_false]
  cases t.failed with
  | false => rfl
  | true => simp

private theorem fireAbort_failed {reason : AbortReason} (other : reason ≠ .parse) (s : FrameHandler T) :
    (s.fireAbort cb reason).frameParseFailed = s.frameParseFailed := by
  simp [fireAbort, emit, other]

/-- A frame that is given up for another reason than a parse failure. -/
private theorem Tallied.streak_abandoned (tallied : Tallied k t s) (cb : Callbacks)
    (reason : AbortReason) (other : reason ≠ .parse) :
    ((s.fireAbort cb reason).endFrameStreak false).parseFailStreak = t.close.count % 2 ^ 32 :=
  streak_endFrameStreak tallied.streak ((fireAbort_failed other s).trans tallied.failed)

private theorem Tallied.entered (tallied : Tallied k t s) (p : Packet) :
    Tallied k (if 3072 ≤ s.heldSlabs.length then t.close else t) (s.entered cb ops p) := by
  have gap : Tallied k t (s.onGap cb p) ∧ (s.onGap cb p).heldSlabs = s.heldSlabs := by
    have neutral (asked : Bool) : (fireAbort cb .gap (s.emit asked (.resyncGap s.chainTotalBytes))).frameParseFailed =
        s.frameParseFailed := fireAbort_failed (by simp) _
    simp only [onGap]
    split
    · split
      · exact ⟨⟨tallied.threshold, tallied.streak, tallied.failed, tallied.evidence⟩, rfl⟩
      -- A gap that is not accepted fails the frame, but is no evidence against the structure.
      · refine ⟨⟨tallied.threshold, tallied.streak, (neutral _).trans tallied.failed, fun failed => ?_⟩, rfl⟩
        exact ⟨rfl, (tallied.evidence ((neutral _).symm.trans failed)).2⟩
    · exact ⟨tallied, rfl⟩
  obtain ⟨tallied, held⟩ := gap
  simp only [FrameHandler.entered, onSlabCap, held]
  split
  · exact .of_sound tallied.threshold (tallied.streak_abandoned cb .slabCap (by simp)) rfl rfl
  · exact tallied

/-- A main packet closes the frame before it, if there is one. -/
private theorem Tallied.closeMissed (tallied : Tallied k t u) :
    (u.closeMissed cb ops).relatchK = k ∧ (u.closeMissed cb ops).parseFailStreak = t.close.count % 2 ^ 32 := by
  have untouched (sound : t.failed = false) : u.parseFailStreak = t.close.count % 2 ^ 32 := by
    rw [tallied.streak, Tally.close, sound]
    rfl
  simp only [FrameHandler.closeMissed]
  split
  -- Without slabs held, or without a frame to close, there is no evidence either.
  next empty =>
    refine ⟨tallied.threshold, untouched ?_⟩
    rw [← tallied.failed, Bool.eq_false_iff]
    intro failed
    exact (tallied.evidence failed).2 (List.isEmpty_iff.mp empty)
  · split
    · exact ⟨tallied.threshold, tallied.streak_abandoned cb .missedEOC (by simp)⟩
    next idle =>
      have sane : u.isParsingFailure = false := by
        have flags : ¬ (u.isPassedHeader || u.isParsingFailure) = true := idle
        simp only [Bool.or_eq_true, not_or, Bool.not_eq_true] at flags
        exact flags.2
      exact ⟨tallied.threshold, untouched (tallied.sound sane)⟩

private theorem Tallied.opened (tallied : Tallied k t u) (p : Packet) : Tallied k t.close (u.opened cb ops p) :=
  .of_sound tallied.closeMissed.1 tallied.closeMissed.2 rfl rfl

/-- A packet of a frame that has not died so far and now does, with its slab held. -/
private theorem Tallied.failFrame (tallied : Tallied k t v) (held : v.heldSlabs ≠ []) :
    Tallied k { t with failed := true } (v.failFrame cb .parse) where
  threshold := tallied.threshold
  streak := tallied.streak
  failed := by simp [FrameHandler.failFrame, fireAbort, emit]
  evidence _ := ⟨rfl, held⟩

private theorem Tallied.skipBody (tallied : Tallied k t u) (p : Packet) :
    Tallied k (if p.marker then t.close else t) (u.skipBody cb ops p) := by
  simp only [FrameHandler.skipBody]
  split
  · split
    · exact .of_sound tallied.threshold (tallied.streak_abandoned cb .damagedEOC (by simp)) rfl rfl
    -- A marker without a frame leaves the counter, as nothing has died.
    next idle =>
      have sane : u.isParsingFailure = false := by
        have flags : ¬ (u.isParsingFailure || u.isPassedHeader) = true := idle
        simp only [Bool.or_eq_true, not_or, Bool.not_eq_true] at flags
        exact flags.1
      have sound := tallied.sound sane
      refine .of_sound tallied.threshold ?_ (tallied.failed.trans sound) rfl
      rw [Tally.close, sound]
      exact tallied.streak
  · exact ⟨tallied.threshold, tallied.streak, tallied.failed, tallied.evidence⟩

private theorem walkPrecincts_tallied {w : FrameHandler (Logged T)} (tallied : Tallied k t w)
    (held : w.heldSlabs ≠ []) :
    Tallied k { t with failed := t.failed || (w.parseCalls ops).any Call.isFailure }
      (w.walkPrecincts cb ops.logged) := by
  simp only [walkPrecincts, parseCalls]
  split
  · split
    next parsed =>
      have ok : (ops.parse w.tileHndr.tile w.cs).1 = true := parsed
      simp only [ok, List.any_cons, Call.isFailure, Bool.not_true, List.any_nil, Bool.or_false]
      exact ⟨tallied.threshold, tallied.streak, tallied.failed, tallied.evidence⟩
    next unparsed =>
      have failed : (ops.parse w.tileHndr.tile w.cs).1 = false := Bool.eq_false_iff.mpr unparsed
      simp only [failed, List.any_cons, Call.isFailure, Bool.not_false, List.any_nil, Bool.or_false, Bool.or_true]
      refine ⟨tallied.threshold, tallied.streak, ?_, fun _ => ⟨rfl, held⟩⟩
      simp [FrameHandler.failFrame, fireAbort, emit]
  · simp only [List.any_nil, Bool.or_false]
    exact tallied

private theorem bodyPacket_tallied {u : FrameHandler (Logged T)} (tallied : Tallied k t u) (p : Packet) :
    Tallied k { t with failed := t.failed || (u.bodyCalls cb ops p).any Call.isFailure }
      (u.bodyPacket cb ops.logged p) := by
  have held : (u.appendPacket cb false p).heldSlabs ≠ [] :=
    List.append_ne_nil_of_right_ne_nil _ (List.cons_ne_nil _ _)
  have appended : Tallied k t (u.appendPacket cb false p) :=
    ⟨tallied.threshold, tallied.streak, tallied.failed, fun failed => ⟨(tallied.evidence failed).1, held⟩⟩
  have passed : (u.appendPacket cb false p).isPassedHeader = u.isPassedHeader := rfl
  simp only [bodyPacket, bodyCalls, passed]
  split
  · exact walkPrecincts_tallied ⟨appended.threshold, appended.streak, appended.failed, appended.evidence⟩ held
  · simp only [List.any_nil, Bool.or_false]
    exact appended

/-- What a packet has done up to the EOC block, with these calls. -/
structure Noted (k : Nat) (refused : Bool) (t : Tally) (u v : FrameHandler (Logged T)) (new : List Call) : Prop where
  calls : v.tileHndr.calls = new ++ u.tileHndr.calls
  unclean : new.any Call.isClean = false
  tallied : Tallied k (t.note refused new) v

private theorem note_nothing (t : Tally) : t.note false [] = t := by
  cases t
  simp [Tally.note]

private theorem main_noted {u : FrameHandler (Logged T)} {r : Bool × FrameHandler (Logged T)}
    (complete : 2 ≤ p.mh) (step : MainStep cb ops.logged p u r) (held : u.heldSlabs ≠ [])
    (tallied : Tallied k t u) : ∃ new, Noted k (!r.1) t u r.2 new := by
  have whole : ¬ p.mh < 2 := Nat.not_lt.mpr complete
  -- Neither `invalidate` nor `parse_main_header` touches the counter or is a call in the log.
  have start (sig : BitVec 64) : Tallied k t ((u.unlatched ops.logged sig).headerParsed ops.logged) ∧
      ((u.unlatched ops.logged sig).headerParsed ops.logged).heldSlabs = u.heldSlabs ∧
      ((u.unlatched ops.logged sig).headerParsed ops.logged).tileHndr.calls = u.tileHndr.calls := by
    rw [unlatched_eq]
    refine ⟨⟨tallied.threshold, tallied.streak, tallied.failed, tallied.evidence⟩, rfl, ?_⟩
    simp only [unlatched]
    split <;> rfl
  have died (new : List Call) (harmless : new.any Call.isFailure = false) (none : new.any Call.isBuild = false) :
      t.note true new = { t with failed := true } := by
    simp [Tally.note, harmless, none]
  cases step with
  | refused reused ready malformed =>
    refine ⟨[], rfl, rfl, ?_⟩
    rw [Bool.not_false, died [] rfl rfl]
    exact tallied.failFrame held
  | resumed reused ready signed known =>
    refine ⟨[], rfl, rfl, ?_⟩
    rw [Bool.not_true, note_nothing]
    exact ⟨tallied.threshold, tallied.streak, tallied.failed, tallied.evidence⟩
  | continued _ incomplete _ | collected _ incomplete _ => exact absurd incomplete whole
  | unparsed anew same failed =>
    obtain ⟨parsed, slabs, calls⟩ := same ▸ start (ops.logged.geometrySignature p.j2kBytes).1
    refine ⟨[], calls, rfl, ?_⟩
    rw [Bool.not_false, died [] rfl rfl]
    exact parsed.failFrame (slabs ▸ held)
  | @uncreated _ v same parsed failed =>
    obtain ⟨tried, slabs, calls⟩ := same ▸ start (ops.logged.geometrySignature p.j2kBytes).1
    have outcome : (ops.create (v.headerParsed ops.logged).tileHndr.tile).1 = false := failed
    refine ⟨[.create (v.headerParsed ops.logged).tileHndr.header false], ?_, rfl, ?_⟩
    · rw [List.singleton_append, ← calls, ← outcome]
      rfl
    · rw [Bool.not_false, died _ rfl rfl]
      have created : Tallied k t (v.structureCreated ops.logged) :=
        ⟨tried.threshold, tried.streak, tried.failed, tried.evidence⟩
      exact created.failFrame (slabs ▸ held)
  | @latched _ v same accepted =>
    obtain ⟨parsed, slabs, calls⟩ := same ▸ start (ops.logged.geometrySignature p.j2kBytes).1
    have outcome : (ops.create (v.headerParsed ops.logged).tileHndr.tile).1 = true := by
      simp only [headerAccepted, Bool.and_eq_true] at accepted
      exact accepted.2
    refine ⟨[.create (v.headerParsed ops.logged).tileHndr.header true], ?_, rfl, ?_⟩
    · rw [announce_eq, List.singleton_append, ← calls, ← outcome]
      rfl
    -- A structure that was created sets the counter to zero.
    · rw [announce_eq]
      refine ⟨parsed.threshold, rfl, ?_, parsed.evidence⟩
      rw [Tally.note, Bool.not_true, Bool.or_false]
      exact parsed.failed.trans (Bool.or_false _).symm

private theorem part_noted {u : FrameHandler (Logged T)} (incomplete : ¬ 2 ≤ p.mh)
    (tallied : Tallied k t (u.opened cb ops.logged p)) :
    Noted k false t (u.opened cb ops.logged p) (u.mainPacket cb ops.logged p).2 [] := by
  rw [mainPacket_part cb ops.logged incomplete]
  split
  all_goals
    refine ⟨rfl, rfl, ?_⟩
    rw [note_nothing]
    exact ⟨tallied.threshold, tallied.streak, tallied.failed, tallied.evidence⟩

private theorem note_append (refused : Bool) (t : Tally) (new calls : List Call) :
    (t.note refused calls).note false new = t.note refused (new ++ calls) := by
  simp only [Tally.note, List.any_append, Bool.or_false]
  congr 1
  · rw [Bool.or_assoc, Bool.or_comm (calls.any _)]
  · cases new.any Call.isBuild <;> simp

private theorem endFrame_tallied {v : FrameHandler (Logged T)} (tallied : Tallied k t v) :
    Tallied k ((t.note false (v.flushCalls ops)).finish true (v.flushCalls ops)) (v.endFrame cb ops.logged) := by
  rw [endFrame_eq]
  cases intact : v.looksIntact with
  | false =>
    rw [flushCalls, intact, if_neg Bool.false_ne_true, note_nothing]
    have unflushed : v.flushFrame ops.logged =
        { v with abortArmed := false, resyncArmed := false, resyncSoft := false } := by
      simp [flushFrame, intact]
    rw [unflushed]
    exact .of_sound tallied.threshold (streak_endFrameStreak tallied.streak tallied.failed) rfl rfl
  | true =>
    rw [flushCalls, intact, if_pos rfl]
    have flushed : v.flushFrame ops.logged =
        if (ops.logged.flush v.tileHndr v.cs).1 then _ else _ := if_pos intact
    rw [flushed]
    cases outcome : (ops.flush v.tileHndr.tile v.cs).1 with
    -- A frame that was flushed sets the counter back; one that was not has died just now.
    | true =>
      have sane : v.isParsingFailure = false := by
        simp only [looksIntact, Bool.and_eq_true, Bool.not_eq_true'] at intact
        exact intact.1.1
      rw [if_pos (show (ops.logged.flush v.tileHndr v.cs).1 = true from outcome)]
      refine .of_sound tallied.threshold ?_ rfl rfl
      simp only [reportFrame, sane]
      rfl
    | false =>
      rw [if_neg (show ¬ (ops.logged.flush v.tileHndr v.cs).1 = true from Bool.eq_false_iff.mp outcome)]
      have died : t.note false [.flush false] = { t with failed := true } := by
        simp [Tally.note, Call.isFailure, Call.isBuild]
      rw [died]
      refine .of_sound tallied.threshold ?_ rfl rfl
      exact streak_endFrameStreak (t := { t with failed := true })
        (s := { v with frameParseFailed := true }) tallied.streak rfl

private theorem Tallied.arrived {s : FrameHandler (Logged T)} (tallied : Tallied k t s) (p : Packet) :
    Tallied k t.close (s.arrived cb ops.logged p) := by
  have closed : (if 3072 ≤ s.heldSlabs.length then t.close else t).close = t.close := by split <;> rfl
  have entered : Tallied k _ (s.entered cb ops.logged p) := tallied.entered p
  exact closed ▸ entered.opened p

variable (lawful : ops.Lawful)

include lawful

private theorem Noted.close {refused : Bool} {s u v : FrameHandler (Logged T)} {new : List Call}
    (noted : Noted k refused t u v new) (calls : u.tileHndr.calls = s.tileHndr.calls) (held : v.heldSlabs ≠ [])
    (go : Bool) (p : Packet) :
    Tallied k ((t.note refused (s.callsSince (close cb ops.logged p (go, v)))).finish
        (p.marker && (close cb ops.logged p (go, v)).heldSlabs.isEmpty)
        (s.callsSince (close cb ops.logged p (go, v)))) (close cb ops.logged p (go, v)) := by
  simp only [FrameHandler.close]
  cases ended : go && p.marker with
  | true =>
    have marked : p.marker = true := (Bool.and_eq_true_iff.mp ended).2
    have flushes : (v.endFrame cb ops.logged).tileHndr.calls = v.flushCalls ops ++ v.tileHndr.calls :=
      congrArg Account.calls (endFrame_account quiet_overlookAll lawful v)
    have since : s.callsSince (v.endFrame cb ops.logged) = v.flushCalls ops ++ new := by
      apply since_append
      rw [flushes, noted.calls, calls, List.append_assoc]
    have released : (v.endFrame cb ops.logged).heldSlabs = [] := rfl
    rw [if_pos rfl, since, marked, released, ← note_append]
    have tallied : Tallied k _ (v.endFrame cb ops.logged) := endFrame_tallied noted.tallied
    simp only [Tally.finish, List.any_append, noted.unclean, Bool.or_false] at tallied ⊢
    exact tallied
  | false =>
    have since : s.callsSince v = new := since_append (calls ▸ noted.calls)
    have open_frame : v.heldSlabs.isEmpty = false := by simpa using held
    rw [if_neg Bool.false_ne_true, since, open_frame, Bool.and_false]
    exact noted.tallied

private theorem Tallied.skipped {s u : FrameHandler (Logged T)} (tallied : Tallied k t u)
    (calls : u.tileHndr.calls = s.tileHndr.calls) (p : Packet) :
    Tallied k ((t.note false (s.callsSince (u.skipBody cb ops.logged p))).finish
        (p.marker && (u.skipBody cb ops.logged p).heldSlabs.isEmpty) (s.callsSince (u.skipBody cb ops.logged p)))
      (u.skipBody cb ops.logged p) := by
  have unchanged : (u.skipBody cb ops.logged p).tileHndr.calls = u.tileHndr.calls :=
    congrArg Account.calls (skipBody_account quiet_overlookAll lawful u p)
  have since : s.callsSince (u.skipBody cb ops.logged p) = [] := since_append (unchanged.trans calls)
  have skipped : Tallied k _ (u.skipBody cb ops.logged p) := tallied.skipBody p
  rw [since, note_nothing]
  cases marked : p.marker with
  | false =>
    rw [marked] at skipped
    exact skipped
  | true =>
    rw [marked] at skipped
    rw [skipBody_released cb ops.logged marked]
    exact skipped

private theorem Tallied.body {u : FrameHandler (Logged T)} (tallied : Tallied k t u) (p : Packet) :
    Noted k false t u (u.bodyPacket cb ops.logged p) (u.bodyCalls cb ops p) := by
  have only_parses : (u.bodyCalls cb ops p).any Call.isClean = false ∧
      (u.bodyCalls cb ops p).any Call.isBuild = false := by
    simp only [bodyCalls, parseCalls]
    split
    · split <;> exact ⟨rfl, rfl⟩
    · exact ⟨rfl, rfl⟩
  refine ⟨congrArg Account.calls (bodyPacket_account quiet_overlookAll lawful u p), only_parses.1, ?_⟩
  rw [Tally.note, only_parses.2, Bool.or_false]
  exact bodyPacket_tallied tallied p

/-- A main packet starts a frame, behind the one that it has closed. -/
private theorem Tallied.main {s : FrameHandler (Logged T)} (p : Packet)
    (tallied : Tallied k t (s.arrived cb ops.logged p)) (held : (s.arrived cb ops.logged p).heldSlabs ≠ []) :
    ∃ new, Noted k (s.refuses cb ops.logged p) t (s.arrived cb ops.logged p)
      ((s.entered cb ops.logged p).mainPacket cb ops.logged p).2 new := by
  have step := mainPacket_step cb ops.logged lawful.logged p (s.entered cb ops.logged p)
  by_cases complete : 2 ≤ p.mh
  · have refused : s.refuses cb ops.logged p = !((s.entered cb ops.logged p).mainPacket cb ops.logged p).1 := by
      rw [refuses, FrameHandler.arrived, acceptsHeader_eq cb ops.logged complete step, decide_eq_true complete,
        Bool.true_and]
    rw [refused]
    exact main_noted complete step held tallied
  · have taken : s.refuses cb ops.logged p = false := by simp [refuses, complete]
    rw [taken]
    exact ⟨[], part_noted complete tallied⟩

theorem count_tallied (p : Packet) {x : FrameHandler (Logged T) × Tally} (holds : x.1.Holds)
    (tallied : Tallied k x.2 x.1) : Tallied k (count cb ops x p).2 (count cb ops x p).1 := by
  obtain ⟨s, t⟩ := x
  simp only [count, Tally.after, endsAtMarker_eq, pullData_eq]
  by_cases body : p.mh = 0
  · have before : t.before s p = if 3072 ≤ s.heldSlabs.length then t.close else t := by simp [Tally.before, body]
    have taken : s.refuses cb ops.logged p = false := by simp [refuses, body]
    have entered : Tallied k (t.before s p) (s.entered cb ops.logged p) := before ▸ tallied.entered p
    have calls : (s.entered cb ops.logged p).tileHndr.calls = s.tileHndr.calls :=
      congrArg Account.calls (entered_account quiet_overlookAll lawful s p)
    have way := work_cases cb ops.logged lawful.logged p (s.entered cb ops.logged p)
    generalize (s.entered cb ops.logged p).work cb ops.logged p = r at way ⊢
    rw [taken]
    cases way with
    | skipped _ skips => exact entered.skipped lawful calls p
    | body _ passed sane => exact (entered.body lawful p).close lawful calls (Holds.bodyPacket_held p _) true p
    | main main _ => exact absurd body main
  -- Behind the frame that it closes, a main packet starts with an empty tally of its own.
  · have before : t.before s p = t.close := by simp [Tally.before, body]
    have work := work_main cb ops.logged body (s.entered cb ops.logged p)
    have held : (s.arrived cb ops.logged p).heldSlabs ≠ [] := ((holds.entered p).opened_fresh p).2.1
    have step := mainPacket_step cb ops.logged lawful.logged p (s.entered cb ops.logged p)
    have calls : (s.arrived cb ops.logged p).tileHndr.calls = s.tileHndr.calls :=
      congrArg Account.calls (arrived_account quiet_overlookAll lawful s p)
    rw [work, before]
    obtain ⟨new, noted⟩ := (tallied.arrived p).main lawful p held
    exact noted.close lawful calls (Holds.main_held step ▸ held) _ p

/-- With the counter at hand, the hatch opens from the threshold on. -/
private theorem Tallied.hatches_iff {s : FrameHandler (Logged T)} (tallied : Tallied k t s) (on : 1 ≤ k)
    (complete : 2 ≤ p.mh) (signed : (ops.geometrySignature p.j2kBytes).1 ≠ 0)
    (ready : ops.isReady s.tileHndr.tile = true) :
    s.hatches cb ops.logged p = true ↔ k ≤ t.close.count % 2 ^ 32 := by
  have arrived : Tallied k t.close (s.arrived cb ops.logged p) := tallied.arrived p
  have latched : ops.logged.isReady (s.arrived cb ops.logged p).tileHndr = true :=
    (congrArg Account.ready (arrived_account quiet_overlookAll lawful s p)).trans ready
  have sig : (ops.logged.geometrySignature p.j2kBytes).1 ≠ 0 := signed
  rw [← arrived.streak]
  simp only [hatches, parsesAnew, reasonOf, latched, relatchReason, arrived.threshold, decide_eq_true complete,
    decide_eq_true sig, if_true, Bool.not_true, Bool.false_or, Bool.true_and]
  by_cases reached : k ≤ (s.arrived cb ops.logged p).parseFailStreak
  · have suspect : k ≠ 0 ∧ k ≤ (s.arrived cb ops.logged p).parseFailStreak := ⟨by omega, reached⟩
    simp [suspect]
  · have trusted : ¬ (k ≠ 0 ∧ k ≤ (s.arrived cb ops.logged p).parseFailStreak) := fun both => reached both.2
    rw [if_neg trusted]
    split <;> simp [reached]

theorem foldl_tallied (packets : List Packet) {x : FrameHandler (Logged T) × Tally} (holds : x.1.Holds)
    (tallied : Tallied k x.2 x.1) :
    Tallied k (packets.foldl (count cb ops) x).2 (packets.foldl (count cb ops) x).1 := by
  induction packets generalizing x with
  | nil => exact tallied
  | cons p rest ih => exact ih (holds.pullData lawful.logged p) (count_tallied lawful p holds tallied)

omit lawful in
theorem tallied_new (tile : Logged T) : Tallied k {} (.new tile k) := .of_sound rfl rfl rfl rfl

/-- A malformed header on a latched stream leaves it latched, with a frame more that has died. -/
private theorem count_malformed (complete : 2 ≤ p.mh)
    (malformed : (ops.geometrySignature p.j2kBytes).1 = 0) (unmarked : p.marker = false)
    {x : FrameHandler (Logged T) × Tally} (ready : ops.isReady x.1.tileHndr.tile = true) :
    ops.isReady (count cb ops x p).1.tileHndr.tile = true ∧
      (count cb ops x p).2.close.count = x.2.close.count + 1 := by
  obtain ⟨s, t⟩ := x
  have main : p.mh ≠ 0 := by omega
  have unsigned : (ops.logged.geometrySignature p.j2kBytes).1 = 0 := malformed
  have account : (s.arrived cb ops.logged p).account ops _ = s.account ops _ :=
    arrived_account quiet_overlookAll lawful s p
  have latched : ops.logged.isReady (s.arrived cb ops.logged p).tileHndr = true :=
    (congrArg Account.ready account).trans ready
  -- Without a signature the packet fails its own frame, and calls nothing of the tile handler.
  have refused : s.pullData cb ops.logged p = (s.arrived cb ops.logged p).failFrame cb .parse := by
    have appended : appendPacket cb true p { closeMissed cb ops.logged (s.entered cb ops.logged p) with
        isParsingFailure := false, frameParseFailed := false } = s.arrived cb ops.logged p := rfl
    have work : (s.entered cb ops.logged p).work cb ops.logged p =
        (false, (s.arrived cb ops.logged p).failFrame cb .parse) := by
      rw [work_main cb ops.logged main]
      simp only [mainPacket, appended, if_pos complete, latched, if_true, unsigned]
    rw [pullData_eq, work]
    rfl
  have since : s.callsSince (s.pullData cb ops.logged p) = [] := by
    rw [refused]
    exact since_append (congrArg Account.calls account)
  have refuses : s.refuses cb ops.logged p = true := by
    have whole : ¬ p.mh < 2 := Nat.not_lt.mpr complete
    have reused : (s.arrived cb ops.logged p).parsesAnew ops.logged p = false := by
      simp [parsesAnew, latched, unsigned]
    rw [FrameHandler.refuses, acceptsHeader, reused, decide_eq_true complete, decide_eq_false whole, unsigned]
    simp
  refine ⟨?_, ?_⟩
  · simp only [count, refused]
    exact latched
  · simp [count, Tally.after, endsAtMarker, since, refuses, Tally.before, main, Tally.note, Tally.finish, unmarked,
      Tally.close]

/-- A row of malformed headers, one frame each. -/
private theorem foldl_malformed (complete : 2 ≤ p.mh)
    (malformed : (ops.geometrySignature p.j2kBytes).1 = 0) (unmarked : p.marker = false) (n : Nat)
    {x : FrameHandler (Logged T) × Tally} (ready : ops.isReady x.1.tileHndr.tile = true) :
    ops.isReady ((List.replicate n p).foldl (count cb ops) x).1.tileHndr.tile = true ∧
      ((List.replicate n p).foldl (count cb ops) x).2.close.count = x.2.close.count + n := by
  induction n generalizing x with
  | zero => exact ⟨ready, rfl⟩
  | succ n ih =>
    obtain ⟨still, one⟩ : ops.isReady (count cb ops x p).1.tileHndr.tile = true ∧ _ :=
      count_malformed lawful complete malformed unmarked ready
    obtain ⟨latched, more⟩ := ih still
    rw [List.replicate_succ, List.foldl_cons]
    exact ⟨latched, by rw [more, one]; omega⟩

end

end FrameHandler

open FrameHandler in
/-- In every run, a complete main header with a signature on a latched stream takes the
parse-fail path exactly if the frames that have died by parse failures and ended since the
last clean end of a frame and the last successful `create` reach the threshold, counted modulo
`2 ^ 32`. The calls are those of a log, which by `run_erase` changes nothing. -/
theorem hatch_fires_iff (cb : Callbacks) (ops : TileOps T) (lawful : ops.Lawful) (tileHndr : T) {k : Nat}
    (on : 1 ≤ k) (packets : List Packet) (p : Packet) (complete : 2 ≤ p.mh)
    (signed : (ops.geometrySignature p.j2kBytes).1 ≠ 0) :
    let x := packets.foldl (count cb ops) (.new { tile := tileHndr } k, {})
    ops.isReady x.1.tileHndr.tile = true →
      (x.1.hatches cb ops.logged p = true ↔ k ≤ (x.2.before x.1 p).count % 2 ^ 32) := by
  intro x ready
  have before : x.2.before x.1 p = x.2.close := if_pos (.inr (by omega))
  rw [before]
  exact (foldl_tallied lawful packets (.new _ k) (tallied_new _)).hatches_iff lawful on complete signed ready

open FrameHandler in
/-- A frame whose `flush` fails opens the hatch at a threshold of one. -/
theorem hatch_fires_unflushable :
    ([headerPacket 0x80, unflushable].foldl (count {} tileOps) (.new { tile := {} } 1, {})).1.hatches {} tileOps.logged
      (headerPacket 0x80) = true :=
  (hatch_fires_iff {} tileOps tileOps_lawful {} (Nat.le_refl 1) [headerPacket 0x80, unflushable] (headerPacket 0x80)
    (by decide) (by decide +kernel) (by decide +kernel)).mpr (by decide +kernel)

/-- A main packet of two bytes that are no main header. -/
def malformedHeader : Packet := packetOf 0 (0x80 :: List.replicate 9 0) false

open FrameHandler in
/-- A stream that is latched and gets `n` malformed headers, with the tally beside the handler. -/
def malformedRun (n : Nat) : FrameHandler (Logged Parser.TileHandler) × Tally :=
  (headerPacket 0x80 :: List.replicate n malformedHeader).foldl (count {} tileOps) (.new { tile := {} } 1, {})

open FrameHandler in
private theorem malformedRun_hatches (n : Nat) :
    tileOps.isReady (malformedRun n).1.tileHndr.tile = true ∧
    ((malformedRun n).2.before (malformedRun n).1 (headerPacket 0x80)).count = n ∧
    ((malformedRun n).1.hatches {} tileOps.logged (headerPacket 0x80) = true ↔ 1 ≤ n % 2 ^ 32) := by
  have start : tileOps.isReady (count {} tileOps (.new { tile := {} } 1, {}) (headerPacket 0x80)).1.tileHndr.tile =
      true := by decide +kernel
  have sound : (count {} tileOps (.new { tile := {} } 1, {}) (headerPacket 0x80)).2.close.count = 0 := by
    decide +kernel
  have tallied : Tallied 1 (malformedRun n).2 (malformedRun n).1 :=
    foldl_tallied tileOps_lawful _ (.new _ 1) (tallied_new _)
  obtain ⟨ready, counted⟩ : tileOps.isReady (malformedRun n).1.tileHndr.tile = true ∧
      (malformedRun n).2.close.count = _ :=
    foldl_malformed tileOps_lawful (by decide) (by decide +kernel) rfl n start
  rw [sound, Nat.zero_add] at counted
  have before : (malformedRun n).2.before (malformedRun n).1 (headerPacket 0x80) = (malformedRun n).2.close :=
    if_pos (.inr (by decide))
  have decided : (malformedRun n).1.hatches {} tileOps.logged (headerPacket 0x80) = true ↔ _ :=
    tallied.hatches_iff tileOps_lawful (Nat.le_refl 1) (by decide) (by decide +kernel) ready
  rw [counted] at decided
  exact ⟨ready, by rw [before, counted], decided⟩

/-- After so many frames the counter stands at zero again, and the hatch stays shut. -/
theorem hatch_shut_after_wrap :
    2 ≤ (headerPacket 0x80).mh ∧ (tileOps.geometrySignature (headerPacket 0x80).j2kBytes).1 ≠ 0 ∧
    tileOps.isReady (malformedRun (2 ^ 32)).1.tileHndr.tile = true ∧
    1 ≤ ((malformedRun (2 ^ 32)).2.before (malformedRun (2 ^ 32)).1 (headerPacket 0x80)).count ∧
    (malformedRun (2 ^ 32)).1.hatches {} tileOps.logged (headerPacket 0x80) = false := by
  obtain ⟨ready, counted, decided⟩ := malformedRun_hatches (2 ^ 32)
  refine ⟨by decide, by decide +kernel, ready, ?_, ?_⟩
  · rw [counted]
    exact Nat.one_le_two_pow
  · rw [Nat.mod_self] at decided
    exact Bool.eq_false_iff.mpr fun opened => absurd (decided.mp opened) (by decide)

end RtpDecoder.Frame
