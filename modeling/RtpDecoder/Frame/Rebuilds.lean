import RtpDecoder.Frame.Calls
import RtpDecoder.Lib.Throughout

/-!
# Announced rebuilds

A stream that is built anew has to be announced by the re-latch callback. The reason for a
re-latch is a local variable of one call, and a stream that could not be built again stays
without structure across calls; so a later header that builds it is taken for the first one.
-/

namespace RtpDecoder.Frame

variable {T : Type}

def Event.isRelatch : Event → Bool
  | .relatch _ => true
  | _ => false

/-- What is counted: successful calls of `create`, `relatches_` and calls of the callback. -/
structure Standing where
  ready : Bool
  builds : Nat
  relatches : Nat
  announcements : Nat
deriving DecidableEq, Repr

/-- After a header that was parsed anew. -/
def Standing.after (cb : Callbacks) (st : Standing) (accepted : Bool) : Standing :=
  if accepted then
    { ready := true
      builds := st.builds + 1
      relatches := st.relatches + st.ready.toNat
      announcements := st.announcements + (cb.relatch && st.ready).toNat }
  else { st with ready := false }

/-- A call announces the structure that it builds, unless this is the first one, by one call of
the callback and one step of the counter; and it announces nothing else. -/
structure Announced (cb : Callbacks) (st st' : Standing) : Prop where
  builds : st'.builds ≤ st.builds + 1
  counter : st'.relatches = st.relatches + if 0 < st.builds ∧ st.builds < st'.builds then 1 else 0
  callback : st'.announcements = st.announcements +
    if cb.relatch = true ∧ 0 < st.builds ∧ st.builds < st'.builds then 1 else 0

/-- Only a stream that was built before and is not ready is built in silence. -/
private theorem announced_after_iff (cb : Callbacks) {st : Standing} (known : st.ready = true → 0 < st.builds)
    (accepted : Bool) :
    Announced cb st (st.after cb accepted) ↔
      ¬ (0 < st.builds ∧ st.ready = false ∧ accepted = true) := by
  cases accepted with
  | false =>
    simp only [Bool.false_eq_true, and_false, not_false_eq_true, iff_true]
    exact ⟨Nat.le_succ _, by simp [Standing.after], by simp [Standing.after]⟩
  | true =>
    cases ready : st.ready with
    | true =>
      have before := known ready
      simp only [Bool.true_eq_false, false_and, and_false, not_false_eq_true, iff_true]
      refine ⟨Nat.le_refl _, ?_, ?_⟩
      · simp [Standing.after, ready, before]
      · cases set : cb.relatch <;> simp [Standing.after, ready, before, set]
    | false =>
      simp only [and_true, Nat.not_lt, Nat.le_zero]
      constructor
      · intro announced
        have counter := announced.counter
        simp only [Standing.after, ready, Bool.toNat_false, if_true, Nat.lt_succ_self, and_true] at counter
        by_contra built
        rw [if_pos (Nat.pos_of_ne_zero built)] at counter
        omega
      · intro first
        refine ⟨Nat.le_refl _, ?_, ?_⟩
        · simp [Standing.after, ready, first]
        · simp [Standing.after, ready, first]

namespace FrameHandler

variable (cb : Callbacks) (ops : TileOps T)

def standing (s : FrameHandler (Logged T)) : Standing where
  ready := ops.isReady s.tileHndr.tile
  builds := s.tileHndr.calls.countP Call.isBuild
  relatches := s.relatches
  announcements := s.trace.countP Event.isRelatch

private theorem quiet_isRelatch : Quiet Event.isRelatch :=
  ⟨fun _ _ _ => rfl, fun _ => rfl, fun _ => rfl, fun _ => rfl, fun _ _ => rfl, rfl⟩

private theorem standing_eq (s : FrameHandler (Logged T)) :
    s.standing ops =
      { ready := (s.account ops Event.isRelatch).ready
        builds := (s.account ops Event.isRelatch).calls.countP Call.isBuild
        relatches := (s.account ops Event.isRelatch).relatches
        announcements := (s.account ops Event.isRelatch).events.length } := by
  simp only [standing, account, List.countP_eq_length_filter]

variable {ops} in
private theorem standing_congr {s s' : FrameHandler (Logged T)}
    (same : s'.account ops Event.isRelatch = s.account ops Event.isRelatch) :
    s'.standing ops = s.standing ops := by
  rw [standing_eq, standing_eq, same]

/-! ### What a call counts -/

section

variable {cb ops} (lawful : ops.Lawful)

include lawful

private theorem unlatched_standing (u : FrameHandler (Logged T)) (sig : BitVec 64) :
    (u.unlatched ops.logged sig).standing ops = { u.standing ops with ready := false } := by
  simp only [unlatched]
  split
  · simp only [standing, TileOps.logged, lawful.invalidate]
  next unready =>
    have same : ops.isReady u.tileHndr.tile = false := Bool.eq_false_iff.mpr unready
    simp only [standing, same]

private theorem headerParsed_standing (v : FrameHandler (Logged T)) :
    (v.headerParsed ops.logged).standing ops = v.standing ops := by
  simp only [standing, headerParsed, TileOps.logged, lawful.parseMainHeader]

private theorem structureCreated_standing {v : FrameHandler (Logged T)}
    (unready : ops.isReady v.tileHndr.tile = false) :
    (v.structureCreated ops.logged).standing ops =
      { v.standing ops with
        ready := (ops.logged.create (v.headerParsed ops.logged).tileHndr).1
        builds := (v.standing ops).builds +
          (ops.logged.create (v.headerParsed ops.logged).tileHndr).1.toNat } := by
  have parsed : ops.isReady (v.headerParsed ops.logged).tileHndr.tile = false :=
    (lawful.parseMainHeader v.tileHndr.tile _).trans unready
  have created := lawful.create _ parsed
  have count (t : Logged T) : (ops.logged.create t).2.calls.countP Call.isBuild =
      t.calls.countP Call.isBuild + (ops.logged.create t).1.toNat := by
    simp only [TileOps.logged, List.countP_cons, Call.isBuild]
    cases (ops.create t.tile).1 <;> rfl
  rw [← headerParsed_standing lawful v]
  simp only [standing, structureCreated, count]
  congr 1

omit lawful in
private theorem announce_standing (relatch : Option RelatchReason) (s : FrameHandler (Logged T)) :
    (s.announce cb relatch).standing ops =
      { s.standing ops with
        relatches := (s.standing ops).relatches + relatch.isSome.toNat
        announcements := (s.standing ops).announcements + (cb.relatch && relatch.isSome).toNat } := by
  cases relatch with
  | none => simp [announce, standing]
  | some reason =>
    have noted : (Event.relatch reason :: s.trace).countP Event.isRelatch =
        s.trace.countP Event.isRelatch + 1 := List.countP_cons_of_pos rfl
    cases set : cb.relatch <;> simp [announce, standing, emit, set, noted]

omit lawful in
/-- Of a header that is parsed anew there is a reason exactly if the stream was latched. -/
private theorem isSome_reasonOf {p : Packet} {u : FrameHandler (Logged T)}
    (anew : u.parsesAnew ops.logged p = true) :
    (u.reasonOf ops.logged (ops.logged.geometrySignature p.j2kBytes).1).isSome =
      (u.standing ops).ready := by
  simp only [parsesAnew, Bool.and_eq_true, Bool.or_eq_true, Bool.not_eq_true'] at anew
  simp only [reasonOf]
  split
  next ready =>
    rw [ready] at anew
    exact ((anew.2.resolve_left Bool.noConfusion).2).trans ready.symm
  next unready => exact (Bool.eq_false_iff.mpr unready).symm

/-- A main packet changes the counts only if its header is parsed anew. -/
private theorem main_standing {p : Packet} {u : FrameHandler (Logged T)} {r : Bool × FrameHandler (Logged T)}
    (step : MainStep cb ops.logged p u r) :
    r.2.standing ops =
      if u.parsesAnew ops.logged p then (u.standing ops).after cb (u.builtBy ops.logged p)
      else u.standing ops := by
  cases step with
  | refused reused ready malformed =>
    rw [reused]
    exact standing_congr (fireAbort_account quiet_isRelatch u .parse)
  | resumed reused _ _ _ | continued reused _ _ | collected reused _ _ =>
    rw [reused]
    rfl
  | unparsed anew same failed =>
    have start := same ▸ unlatched_standing lawful u (ops.logged.geometrySignature p.j2kBytes).1
    have rejected : u.builtBy ops.logged p = false := by
      rw [builtBy, ← same, headerAccepted, failed]
      rfl
    rw [if_pos anew, rejected]
    exact (standing_congr (fireAbort_account quiet_isRelatch _ .parse)).trans
      ((headerParsed_standing lawful _).trans start)
  | uncreated anew same parsed failed =>
    have start := same ▸ unlatched_standing lawful u (ops.logged.geometrySignature p.j2kBytes).1
    have rejected : u.builtBy ops.logged p = false := by
      rw [builtBy, ← same, headerAccepted, failed, Bool.and_false]
    have created := structureCreated_standing lawful (congrArg Standing.ready start)
    rw [failed, start] at created
    rw [if_pos anew, rejected]
    exact (standing_congr (fireAbort_account quiet_isRelatch _ .parse)).trans created
  | latched anew same accepted =>
    have start := same ▸ unlatched_standing lawful u (ops.logged.geometrySignature p.j2kBytes).1
    have built : u.builtBy ops.logged p = true := by rw [builtBy, ← same, accepted]
    have created := structureCreated_standing lawful (congrArg Standing.ready start)
    simp only [headerAccepted, Bool.and_eq_true] at accepted
    rw [accepted.2, start] at created
    rw [if_pos anew, built]
    -- Whether there is a reason was decided before `invalidate`: it takes a stream that was latched.
    refine (announce_standing _ _).trans ?_
    rw [isSome_reasonOf anew]
    change ({ standing ops (structureCreated ops.logged _) with
      relatches := (standing ops (structureCreated ops.logged _)).relatches + _
      announcements := (standing ops (structureCreated ops.logged _)).announcements + _ } : Standing) = _
    rw [created]
    rfl

private theorem arrived_standing (s : FrameHandler (Logged T)) (p : Packet) :
    (s.arrived cb ops.logged p).standing ops = s.standing ops :=
  standing_congr (arrived_account quiet_isRelatch lawful s p)

private theorem bodyPacket_standing (s : FrameHandler (Logged T)) (p : Packet) :
    (s.bodyPacket cb ops.logged p).standing ops = s.standing ops := by
  have none_built : (s.bodyCalls cb ops p).countP Call.isBuild = 0 := by
    simp only [bodyCalls, parseCalls]
    split
    · split <;> rfl
    · rfl
  rw [standing_eq, bodyPacket_account quiet_isRelatch lawful, standing_eq]
  simp only [List.countP_append, none_built, Nat.zero_add]
  rfl

private theorem endFrame_standing (s : FrameHandler (Logged T)) :
    (s.endFrame cb ops.logged).standing ops = s.standing ops := by
  have none_built : (s.flushCalls ops).countP Call.isBuild = 0 := by
    simp only [flushCalls]
    split <;> rfl
  have unannounced : [Event.frameReady s.looksIntact].filter Event.isRelatch = [] := rfl
  rw [standing_eq, endFrame_account quiet_isRelatch lawful, standing_eq]
  simp only [List.countP_append, none_built, Nat.zero_add, unannounced, ite_self, List.nil_append]
  rfl

private theorem pullData_standing (s : FrameHandler (Logged T)) (p : Packet) :
    (s.pullData cb ops.logged p).standing ops =
      if (s.arrived cb ops.logged p).parsesAnew ops.logged p then
        (s.standing ops).after cb ((s.arrived cb ops.logged p).builtBy ops.logged p)
      else s.standing ops := by
  have before : (s.entered cb ops.logged p).standing ops = s.standing ops :=
    standing_congr (entered_account quiet_isRelatch lawful s p)
  have closed (r : Bool × FrameHandler (Logged T)) :
      (close cb ops.logged p r).standing ops = r.2.standing ops := by
    simp only [close]
    split
    · exact endFrame_standing lawful r.2
    · rfl
  rw [pullData_eq, closed]
  have way := work_cases cb ops.logged lawful.logged p (s.entered cb ops.logged p)
  generalize (s.entered cb ops.logged p).work cb ops.logged p = r at way ⊢
  cases way with
  | skipped body _ =>
    rw [if_neg (by simp [parsesAnew, body]), standing_congr (skipBody_account quiet_isRelatch lawful _ p), before]
  | body body _ _ => rw [if_neg (by simp [parsesAnew, body]), bodyPacket_standing lawful, before]
  | main _ step =>
    rw [main_standing lawful step, ← arrived_standing lawful s p]
    rfl

end

/-- A complete header that is accepted by a stream which was built before, but is not ready. -/
def rebuildsSilently (s : FrameHandler (Logged T)) (p : Packet) : Bool :=
  decide (0 < (s.standing ops).builds) && decide (2 ≤ p.mh) && !(s.standing ops).ready &&
    (s.arrived cb ops.logged p).headerAccepted ops.logged

private theorem rebuildsSilently_iff {cb : Callbacks} {ops : TileOps T} (lawful : ops.Lawful)
    (s : FrameHandler (Logged T)) (p : Packet) :
    s.rebuildsSilently cb ops p = true ↔
      (s.arrived cb ops.logged p).parsesAnew ops.logged p = true ∧ 0 < (s.standing ops).builds ∧
        (s.standing ops).ready = false ∧ (s.arrived cb ops.logged p).builtBy ops.logged p = true := by
  simp only [rebuildsSilently, Bool.and_eq_true, Bool.not_eq_true', decide_eq_true_eq, and_assoc]
  cases ready : (s.standing ops).ready with
  | true => simp
  | false =>
    -- A stream that is not ready is not invalidated before the header is parsed.
    have unready : ops.logged.isReady (s.arrived cb ops.logged p).tileHndr = false :=
      (congrArg Standing.ready (arrived_standing lawful s p)).trans ready
    simp only [parsesAnew, builtBy, unlatched, unready, Bool.not_false, Bool.true_or, Bool.and_true,
      Bool.false_eq_true, if_false, decide_eq_true_eq, true_and]
    exact and_left_comm

end FrameHandler

open FrameHandler in
/-- Every rebuild of a run is announced if and only if no packet of the run is a complete header
that is accepted while the stream, built before, is not ready. By `run_erase` the log of the
calls changes nothing. -/
theorem rebuilds_announced_iff (cb : Callbacks) (ops : TileOps T) (lawful : ops.Lawful) (tileHndr : T)
    (fresh : ops.isReady tileHndr = false) (relatchK : Nat) (packets : List Packet) :
    Throughout (pullData cb ops.logged)
      (fun s p => Announced cb (s.standing ops) ((s.pullData cb ops.logged p).standing ops))
      (.new { tile := tileHndr } relatchK) packets ↔
    Throughout (pullData cb ops.logged) (fun s p => s.rebuildsSilently cb ops p = false)
      (.new { tile := tileHndr } relatchK) packets := by
  -- A ready stream was built.
  apply throughout_congr fun s => (s.standing ops).ready = true → 0 < (s.standing ops).builds
  · intro ready
    rw [show (standing ops (.new { tile := tileHndr } relatchK)).ready = false from fresh] at ready
    cases ready
  · intro s p known
    rw [pullData_standing lawful]
    split
    · cases (s.arrived cb ops.logged p).builtBy ops.logged p with
      | true => exact fun _ => Nat.succ_pos _
      | false => exact fun ready => Bool.noConfusion ready
    · exact known
  · intro s p known
    rw [pullData_standing lawful, ← Bool.not_eq_true, rebuildsSilently_iff lawful]
    split
    next anew =>
      rw [announced_after_iff cb known]
      simp only [anew, true_and]
    next reused =>
      exact iff_of_true ⟨Nat.le_succ _, by simp, by simp⟩ fun silent => reused silent.1

/-- A stream of one level, then one of two. -/
def redialed : List Packet :=
  [completeHeader (Parser.streamHeader 1 0x40), completeHeader (Parser.streamHeader 2 0x50)]

open FrameHandler in
theorem rebuilds_announced_iff_redialed :
    Throughout (pullData {} tileOps.logged)
      (fun s p => Announced {} (s.standing tileOps) ((s.pullData {} tileOps.logged p).standing tileOps))
      (.new { tile := {} } 4) redialed ∧
    (run {} tileOps.logged (.new { tile := {} } 4) redialed).standing tileOps = ⟨true, 2, 1, 1⟩ :=
  ⟨(rebuilds_announced_iff {} tileOps tileOps_lawful {} rfl 4 redialed).mpr (by decide +kernel),
    by decide +kernel⟩

/-- A header, and the same one with a packet order that is not supported. -/
def failedRedial : List Packet :=
  [completeHeader (Parser.streamHeader 1 0x40), completeHeader ((Parser.streamHeader 1 0x40).set 56 0)]

open FrameHandler in
/-- When the first header comes back, the stream is built again and nobody is told. -/
theorem rebuild_unannounced_failedRedial :
    let back := completeHeader (Parser.streamHeader 1 0x40)
    let failed := run {} tileOps.logged (.new { tile := {} } 4) failedRedial
    failed.standing tileOps = ⟨false, 1, 0, 0⟩ ∧
    (failed.pullData {} tileOps.logged back).standing tileOps = ⟨true, 2, 0, 0⟩ ∧
    ¬ Throughout (pullData {} tileOps.logged)
      (fun s p => Announced {} (s.standing tileOps) ((s.pullData {} tileOps.logged p).standing tileOps))
      (.new { tile := {} } 4) (failedRedial ++ [back]) := by
  intro back failed
  have second : failed.standing tileOps = ⟨false, 1, 0, 0⟩ := by decide +kernel
  have third : (failed.pullData {} tileOps.logged back).standing tileOps = ⟨true, 2, 0, 0⟩ := by
    decide +kernel
  refine ⟨second, third, ?_⟩
  intro announced
  have counter := (throughout_iff.mp announced failedRedial back [] rfl).counter
  change (standing tileOps (failed.pullData {} tileOps.logged back)).relatches =
    (standing tileOps failed).relatches + if 0 < (standing tileOps failed).builds ∧
      (standing tileOps failed).builds < (standing tileOps (failed.pullData {} tileOps.logged back)).builds
      then 1 else 0 at counter
  rw [second, third] at counter
  exact absurd counter (by decide)

end RtpDecoder.Frame
