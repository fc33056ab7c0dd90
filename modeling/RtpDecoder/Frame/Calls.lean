import RtpDecoder.Frame.Ledger
import RtpDecoder.Frame.Tiles
import RtpDecoder.Parser.FlatReader

/-!
# The calls of the tile handler

Which header a stream was built from and how its precincts parsed is not seen in the
callbacks. A logged tile handler writes down its calls. At the end stand the ways that a main
packet can go.
-/

namespace RtpDecoder.Frame

open RtpDecoder.Parser (Codestream chainBytes)

/-- A call, with its outcome. A header is its bytes in the chain. -/
inductive Call where
  | create (header : List UInt8) (ok : Bool)
  | parse (ok : Bool)
  | flush (ok : Bool)
deriving DecidableEq, Repr

def Call.isBuild : Call → Bool
  | .create _ ok => ok
  | _ => false

/-- `header` was given to `parse_main_header` last; the latest call comes first. -/
structure Logged (T : Type) where
  tile : T
  header : List UInt8 := []
  calls : List Call := []

variable {T : Type} {u : FrameHandler T} {p : Packet}

def TileOps.logged (ops : TileOps T) : TileOps (Logged T) where
  isReady t := ops.isReady t.tile
  invalidate t := { t with tile := ops.invalidate t.tile }
  geometrySignature := ops.geometrySignature
  parseMainHeader t cs :=
    let r := ops.parseMainHeader t.tile cs
    (r.1, { t with tile := r.2.1, header := chainBytes cs.chunks }, r.2.2)
  create t :=
    let r := ops.create t.tile
    (r.1, { t with tile := r.2, calls := .create t.header r.1 :: t.calls })
  appendSignal t signal := { t with tile := ops.appendSignal t.tile signal }
  parse t cs :=
    let r := ops.parse t.tile cs
    (r.1, { t with tile := r.2.1, calls := .parse r.1 :: t.calls }, r.2.2)
  flush t cs :=
    let r := ops.flush t.tile cs
    (r.1, { t with tile := r.2.1, calls := .flush r.1 :: t.calls }, r.2.2)
  restart t := { t with tile := ops.restart t.tile }
  parseMainHeader_chunks t := ops.parseMainHeader_chunks t.tile
  parse_chunks t := ops.parse_chunks t.tile
  flush_chunks t := ops.flush_chunks t.tile

/-! ### When a tile handler is ready -/

/-- Only `invalidate` and `create` decide whether the tile handler is ready. -/
structure TileOps.Lawful (ops : TileOps T) : Prop where
  invalidate : ∀ t, ops.isReady (ops.invalidate t) = false
  parseMainHeader : ∀ t cs, ops.isReady (ops.parseMainHeader t cs).2.1 = ops.isReady t
  create : ∀ t, ops.isReady t = false → ops.isReady (ops.create t).2 = (ops.create t).1
  appendSignal : ∀ t signal, ops.isReady (ops.appendSignal t signal) = ops.isReady t
  parse : ∀ t cs, ops.isReady (ops.parse t cs).2.1 = ops.isReady t
  flush : ∀ t cs, ops.isReady (ops.flush t cs).2.1 = ops.isReady t
  restart : ∀ t, ops.isReady (ops.restart t) = ops.isReady t

theorem tileOps_lawful : tileOps.Lawful where
  invalidate _ := rfl
  parseMainHeader h s := by
    simp only [tileOps]
    split <;> rfl
  create h unready := by
    simp only [tileOps]
    cases created : h.create with
    | none => exact unready
    | some r =>
      obtain ⟨_, _, same⟩ := Option.map_eq_some_iff.mp created
      cases same
      rfl
  appendSignal _ _ := rfl
  parse h s := by
    simp only [tileOps]
    split
    · rfl
    next returned => exact Parser.Walk.kept_ready.parse returned
  flush h s := Parser.Walk.kept_ready.flush _
  restart _ := rfl

theorem TileOps.Lawful.logged {ops : TileOps T} (lawful : ops.Lawful) : ops.logged.Lawful where
  invalidate t := lawful.invalidate t.tile
  parseMainHeader t := lawful.parseMainHeader t.tile
  create t := lawful.create t.tile
  appendSignal t := lawful.appendSignal t.tile
  parse t := lawful.parse t.tile
  flush t := lawful.flush t.tile
  restart t := lawful.restart t.tile

namespace FrameHandler

variable (cb : Callbacks) (ops : TileOps T)

/-! ### The EOC block in two parts -/

/-- What the EOC block takes for an intact frame. -/
def looksIntact (s : FrameHandler T) : Bool := !s.isParsingFailure && s.isPassedHeader && !s.resyncSoft

/-- The EOC block up to the outcome of `flush`. -/
def flushFrame (s : FrameHandler T) : FrameHandler T :=
  let r := ops.flush s.tileHndr s.cs
  let quiet := { s with abortArmed := false, resyncArmed := false, resyncSoft := false }
  if s.looksIntact then
    if r.1 then { quiet with tileHndr := r.2.1, cs := r.2.2 }
    else { quiet with
      tileHndr := r.2.1, cs := r.2.2
      isParsingFailure := true, isPassedHeader := false, frameParseFailed := true }
  else quiet

def reportFrame (intact : Bool) (s : FrameHandler T) : FrameHandler T :=
  let s := s.endFrameStreak (intact && !s.isParsingFailure)
  let s := s.emit cb.frameReady (.frameReady intact)
  let s := { s with
    truncFrames := s.truncFrames + s.isParsingFailure.toNat
    totalFrames := s.totalFrames + 1
    isParsingFailure := false
    isPassedHeader := false }
  ((s.releaseHeldSlabs cb).restartTile ops).emit true .eoc

theorem endFrame_eq (s : FrameHandler T) :
    s.endFrame cb ops = (s.flushFrame ops).reportFrame cb ops s.looksIntact := rfl

/-- The frame handler without the log. -/
def erase (s : FrameHandler (Logged T)) : FrameHandler T := { s with tileHndr := s.tileHndr.tile }

/-! ### What the parts of a call leave alone -/

/-- A main packet with its chunk appended, before its header is looked at. -/
def opened (p : Packet) (s : FrameHandler T) : FrameHandler T :=
  appendPacket cb true p { s.closeMissed cb ops with isParsingFailure := false, frameParseFailed := false }

/-- An account of a handler: its structure and the calls so far, `geom_sig_`, `relatches_` and
the events of some kinds. -/
structure Account where
  ready : Bool
  calls : List Call
  geomSig : BitVec 64
  relatches : Nat
  events : List Event
deriving DecidableEq, Repr

def account (ops : TileOps T) (sel : Event → Bool) (s : FrameHandler (Logged T)) : Account where
  ready := ops.isReady s.tileHndr.tile
  calls := s.tileHndr.calls
  geomSig := s.geomSig
  relatches := s.relatches
  events := s.trace.filter sel

/-- The kinds are among the announcements of streams and of frames. -/
structure Quiet (sel : Event → Bool) : Prop where
  chunk : ∀ main offset len, sel (.chunk main offset len) = false
  abort : ∀ reason, sel (.abort reason) = false
  releaseSlab : ∀ idx, sel (.releaseSlab idx) = false
  resyncGap : ∀ seam, sel (.resyncGap seam) = false
  resyncPoint : ∀ resyncByte pid, sel (.resyncPoint resyncByte pid) = false
  eoc : sel .eoc = false

/-- No kind of event; for an account of the calls alone. -/
def overlookAll : Event → Bool := fun _ => false

theorem quiet_overlookAll : Quiet overlookAll :=
  ⟨fun _ _ _ => rfl, fun _ => rfl, fun _ => rfl, fun _ => rfl, fun _ _ => rfl, rfl⟩

/-- What was put in front of a log since it stood at `old`. -/
def since {α : Type} (old now : List α) : List α := now.take (now.length - old.length)

theorem since_append {α : Type} {old now new : List α} (added : now = new ++ old) : since old now = new := by
  rw [since, added, List.length_append, Nat.add_sub_cancel, List.take_left]

/-- The calls between two states of a run, the latest first. -/
def callsSince (s s' : FrameHandler (Logged T)) : List Call := since s.tileHndr.calls s'.tileHndr.calls

/-- The handler that takes a packet up, after the checks for a gap and for the slab cap. -/
def entered (s : FrameHandler T) (p : Packet) : FrameHandler T := (s.onGap cb p).onSlabCap cb ops

/-- The handler in which a main packet has its header looked at. -/
def arrived (s : FrameHandler T) (p : Packet) : FrameHandler T := (s.entered cb ops p).opened cb ops p

/-- What the software walk adds to the calls, and what a body packet and the EOC block do. -/
def parseCalls (s : FrameHandler (Logged T)) : List Call :=
  if !s.isParsingFailure && !s.resyncSoft then [.parse (ops.parse s.tileHndr.tile s.cs).1] else []

def bodyCalls (p : Packet) (s : FrameHandler (Logged T)) : List Call :=
  if p.ordb && s.isPassedHeader then
    parseCalls ops (offerPoint cb ops.logged p (BitVec.ofNat 32 s.chainTotalBytes + p.pos)
      (s.appendPacket cb false p))
  else []

def flushCalls (s : FrameHandler (Logged T)) : List Call :=
  if s.looksIntact then [.flush (ops.flush s.tileHndr.tile s.cs).1] else []

section

variable {cb ops} {sel : Event → Bool} (quiet : Quiet sel) (lawful : ops.Lawful)
  (s : FrameHandler (Logged T)) (p : Packet)

theorem emit_account (registered : Bool) {e : Event} (other : sel e = false) :
    (s.emit registered e).account ops sel = s.account ops sel := by
  cases registered <;> simp [account, emit, other]

include quiet

theorem fireAbort_account (reason : AbortReason) : (s.fireAbort cb reason).account ops sel = s.account ops sel :=
  emit_account _ _ (quiet.abort reason)

private theorem releaseHeldSlabs_account : (s.releaseHeldSlabs cb).account ops sel = s.account ops sel := by
  have others (idxs : List Nat) : (idxs.map Event.releaseSlab).filter sel = [] := by
    simp [quiet.releaseSlab]
  cases set : cb.releaseSlab <;> simp [account, releaseHeldSlabs, set, others]

private theorem appendPacket_account (main : Bool) : (s.appendPacket cb main p).account ops sel = s.account ops sel :=
  emit_account { s with abortArmed := true } cb.chunk (quiet.chunk main _ _)

private theorem onGap_account : (s.onGap cb p).account ops sel = s.account ops sel := by
  simp only [onGap]
  split
  · have asked : (s.emit (cb.resyncGap && s.isPassedHeader) (.resyncGap s.chainTotalBytes)).account
        ops sel = s.account ops sel := emit_account s _ (quiet.resyncGap _)
    split
    · exact asked
    · exact (fireAbort_account quiet _ .gap).trans asked
  · rfl

include lawful

/-- The end of a frame, wherever it is called: slabs back, tile handler restarted. -/
private theorem restartTile_account :
    ((s.releaseHeldSlabs cb).restartTile ops.logged).account ops sel = s.account ops sel := by
  have released : (s.releaseHeldSlabs cb).account ops sel = s.account ops sel :=
    releaseHeldSlabs_account quiet s
  rw [← released]
  simp only [account, restartTile, TileOps.logged, lawful.restart]

private theorem onSlabCap_account : (s.onSlabCap cb ops.logged).account ops sel = s.account ops sel := by
  simp only [onSlabCap]
  split
  · exact (restartTile_account quiet lawful _).trans (fireAbort_account quiet s .slabCap)
  · rfl

theorem skipBody_account : (s.skipBody cb ops.logged p).account ops sel = s.account ops sel := by
  have given : (s.emit cb.releaseSlab (.releaseSlab p.slabIdx)).account ops sel = s.account ops sel :=
    emit_account s _ (quiet.releaseSlab _)
  simp only [skipBody]
  split
  · refine (emit_account _ _ quiet.eoc).trans ((restartTile_account quiet lawful _).trans ?_)
    split
    · exact (fireAbort_account quiet (s.emit cb.releaseSlab (.releaseSlab p.slabIdx))
        .damagedEOC).trans given
    · exact given
  · exact given

private theorem closeMissed_account : (s.closeMissed cb ops.logged).account ops sel = s.account ops sel := by
  have ended : ((releaseHeldSlabs cb (s.fireAbort cb .missedEOC)).restartTile ops.logged).account ops sel =
      s.account ops sel :=
    (restartTile_account quiet lawful _).trans (fireAbort_account quiet s .missedEOC)
  simp only [closeMissed]
  split
  · rfl
  · split <;> exact ended

private theorem opened_account : (s.opened cb ops.logged p).account ops sel = s.account ops sel :=
  (appendPacket_account quiet _ p true).trans (closeMissed_account quiet lawful s)

theorem entered_account : (s.entered cb ops.logged p).account ops sel = s.account ops sel :=
  (onSlabCap_account quiet lawful _).trans (onGap_account quiet s p)

theorem arrived_account : (s.arrived cb ops.logged p).account ops sel = s.account ops sel :=
  (opened_account quiet lawful _ p).trans (entered_account quiet lawful s p)

private theorem walkPrecincts_account :
    (s.walkPrecincts cb ops.logged).account ops sel =
      { s.account ops sel with calls := s.parseCalls ops ++ s.tileHndr.calls } := by
  have walked (passed : Bool) : ({ s with
      tileHndr := (ops.logged.parse s.tileHndr s.cs).2.1, cs := (ops.logged.parse s.tileHndr s.cs).2.2
      isPassedHeader := passed } : FrameHandler (Logged T)).account ops sel =
      { s.account ops sel with
        calls := [.parse (ops.parse s.tileHndr.tile s.cs).1] ++ s.tileHndr.calls } := by
    simp [account, TileOps.logged, lawful.parse]
  simp only [walkPrecincts, parseCalls]
  split
  · split
    · exact walked s.isPassedHeader
    · exact (fireAbort_account quiet _ .parse).trans (walked false)
  · rfl

private theorem offerPoint_account (resyncByte : BitVec 32) :
    (s.offerPoint cb ops.logged p resyncByte).account ops sel = s.account ops sel := by
  refine (emit_account _ _ (quiet.resyncPoint _ _)).trans ?_
  simp only [account, TileOps.logged, lawful.appendSignal]

theorem bodyPacket_account :
    (s.bodyPacket cb ops.logged p).account ops sel =
      { s.account ops sel with calls := s.bodyCalls cb ops p ++ s.tileHndr.calls } := by
  have appended : (s.appendPacket cb false p).account ops sel = s.account ops sel :=
    appendPacket_account quiet s p false
  have passed : (s.appendPacket cb false p).isPassedHeader = s.isPassedHeader := rfl
  simp only [bodyPacket, bodyCalls, passed]
  split
  · rw [walkPrecincts_account quiet lawful, offerPoint_account quiet lawful, appended]
    rfl
  · exact appended

theorem endFrame_account :
    (s.endFrame cb ops.logged).account ops sel =
      { s.account ops sel with
        calls := s.flushCalls ops ++ s.tileHndr.calls
        events := (if cb.frameReady then [Event.frameReady s.looksIntact].filter sel else []) ++
          s.trace.filter sel } := by
  have flushed : (s.flushFrame ops.logged).account ops sel =
      { s.account ops sel with calls := s.flushCalls ops ++ s.tileHndr.calls } := by
    simp only [flushFrame, flushCalls]
    split
    · split <;> simp [account, TileOps.logged, lawful.flush]
    · rfl
  have reported (u : FrameHandler (Logged T)) (intact : Bool) :
      (u.emit cb.frameReady (.frameReady intact)).account ops sel =
        { u.account ops sel with
          events := (if cb.frameReady then [Event.frameReady intact].filter sel else []) ++
            (u.account ops sel).events } := by
    cases set : cb.frameReady with
    | false => rfl
    | true => simp only [account, emit, if_true, List.filter_append]
  rw [endFrame_eq]
  refine (emit_account _ _ quiet.eoc).trans ((restartTile_account quiet lawful _).trans ?_)
  refine (reported (endFrameStreak (s.looksIntact && !(s.flushFrame ops.logged).isParsingFailure)
    (s.flushFrame ops.logged)) s.looksIntact).trans ?_
  have counted (clean : Bool) (u : FrameHandler (Logged T)) :
      (u.endFrameStreak clean).account ops sel = u.account ops sel := rfl
  rw [counted, flushed]
  rfl

end

/-! ### The ways of a main packet -/

/-- A complete header is parsed anew: the stream is not latched, or has to be latched again. -/
def parsesAnew (p : Packet) (u : FrameHandler T) : Bool :=
  decide (2 ≤ p.mh) && (!ops.isReady u.tileHndr ||
    decide ((ops.geometrySignature p.j2kBytes).1 ≠ 0) &&
      (u.relatchReason (ops.geometrySignature p.j2kBytes).1).isSome)

/-- The handler that parses a header anew, and the reason if the stream was latched before. -/
def unlatched (sig : BitVec 64) (u : FrameHandler T) : FrameHandler T :=
  if ops.isReady u.tileHndr then
    { u with
      geomSig := if u.geomSig = 0 then sig else u.geomSig
      tileHndr := ops.invalidate u.tileHndr }
  else u

def reasonOf (sig : BitVec 64) (u : FrameHandler T) : Option RelatchReason :=
  if ops.isReady u.tileHndr then u.relatchReason sig else none

/-- After `parse_main_header`, and after `create`. -/
def headerParsed (u : FrameHandler T) : FrameHandler T :=
  let r := ops.parseMainHeader u.tileHndr (u.cs.reset 0)
  { u with startSOD := r.1, tileHndr := r.2.1, cs := r.2.2 }

def structureCreated (u : FrameHandler T) : FrameHandler T :=
  { u.headerParsed ops with tileHndr := (ops.create (u.headerParsed ops).tileHndr).2 }

def headerAccepted (u : FrameHandler T) : Bool :=
  decide ((u.headerParsed ops).startSOD ≠ 0) && (ops.create (u.headerParsed ops).tileHndr).1

/-- The header of the packet is parsed anew, and accepted. -/
def builtBy (p : Packet) (u : FrameHandler T) : Bool :=
  (u.unlatched ops (ops.geometrySignature p.j2kBytes).1).headerAccepted ops

def announce (relatch : Option RelatchReason) (s : FrameHandler T) : FrameHandler T :=
  match relatch with
  | none => s
  | some reason => { s with relatches := s.relatches + 1 }.emit cb.relatch (.relatch reason)

/-- Nothing but the signature and the tile handler is touched before the header is parsed. -/
theorem unlatched_eq (sig : BitVec 64) (u : FrameHandler T) :
    u.unlatched ops sig = { u with
      geomSig := (u.unlatched ops sig).geomSig
      tileHndr := (u.unlatched ops sig).tileHndr } := by
  simp only [unlatched]
  split <;> rfl

theorem announce_eq (relatch : Option RelatchReason) (s : FrameHandler T) :
    s.announce cb relatch = { s with
      relatches := (s.announce cb relatch).relatches
      trace := (s.announce cb relatch).trace } := by
  cases relatch <;> rfl

/-- What becomes of a main packet, from the handler with its chunk appended. -/
inductive MainStep (p : Packet) (u : FrameHandler T) : Bool × FrameHandler T → Prop where
  | refused (reused : u.parsesAnew ops p = false) (ready : ops.isReady u.tileHndr = true)
    (malformed : (ops.geometrySignature p.j2kBytes).1 = 0) : MainStep p u (false, u.failFrame cb .parse)
  | resumed (reused : u.parsesAnew ops p = false) (ready : ops.isReady u.tileHndr = true)
    (signed : (ops.geometrySignature p.j2kBytes).1 ≠ 0)
    (known : u.geomSig = 0 ∨ u.geomSig = (ops.geometrySignature p.j2kBytes).1) :
    MainStep p u (true, resume (ops.geometrySignature p.j2kBytes).2
      { u with geomSig := (ops.geometrySignature p.j2kBytes).1 })
  | continued (reused : u.parsesAnew ops p = false) (incomplete : p.mh < 2)
    (ready : ops.isReady u.tileHndr = true) :
    MainStep p u (true, u.resume 0)
  | collected (reused : u.parsesAnew ops p = false) (incomplete : p.mh < 2)
    (unready : ops.isReady u.tileHndr = false) :
    MainStep p u (u.collectHeader p)
  | unparsed (anew : u.parsesAnew ops p = true) {v : FrameHandler T}
    (same : v = u.unlatched ops (ops.geometrySignature p.j2kBytes).1)
    (failed : (v.headerParsed ops).startSOD = 0) :
    MainStep p u (false, (v.headerParsed ops).failFrame cb .parse)
  | uncreated (anew : u.parsesAnew ops p = true) {v : FrameHandler T}
    (same : v = u.unlatched ops (ops.geometrySignature p.j2kBytes).1)
    (parsed : (v.headerParsed ops).startSOD ≠ 0)
    (failed : (ops.create (v.headerParsed ops).tileHndr).1 = false) :
    MainStep p u (false, (v.structureCreated ops).failFrame cb .parse)
  | latched (anew : u.parsesAnew ops p = true) {v : FrameHandler T}
    (same : v = u.unlatched ops (ops.geometrySignature p.j2kBytes).1)
    (accepted : v.headerAccepted ops = true) :
    MainStep p u (true, announce cb (u.reasonOf ops (ops.geometrySignature p.j2kBytes).1)
      { v.structureCreated ops with
        isPassedHeader := true, geomSig := (ops.geometrySignature p.j2kBytes).1, parseFailStreak := 0 })

private theorem latch_step (anew : u.parsesAnew ops p = true) :
    MainStep cb ops p u ((u.unlatched ops (ops.geometrySignature p.j2kBytes).1).latch cb ops
      (ops.geometrySignature p.j2kBytes).1 (u.reasonOf ops (ops.geometrySignature p.j2kBytes).1)) := by
  generalize same : u.unlatched ops (ops.geometrySignature p.j2kBytes).1 = v
  simp only [latch]
  split
  next failed => exact .unparsed anew same.symm failed
  next parsed =>
    split
    next created =>
      have accepted : v.headerAccepted ops = true := by
        simp only [headerAccepted, Bool.and_eq_true, decide_eq_true_eq]
        exact ⟨parsed, created⟩
      have step : MainStep cb ops p u _ := .latched anew same.symm accepted
      cases reason : u.reasonOf ops (ops.geometrySignature p.j2kBytes).1 with
      | none =>
        rw [reason] at step
        exact step
      | some r =>
        rw [reason] at step
        exact step
    next failed =>
      exact .uncreated anew same.symm parsed (Bool.eq_false_iff.mpr failed)

/-- Without a reason to latch again, the signature is known or the first one. -/
private theorem known_of_relatchReason {sig : BitVec 64}
    (none_given : u.relatchReason sig = none) : u.geomSig = 0 ∨ u.geomSig = sig := by
  by_cases first : u.geomSig = 0
  · exact .inl first
  · simp only [relatchReason, if_neg first] at none_given
    split at none_given
    · cases none_given
    · by_cases same : sig = u.geomSig
      · exact .inr same.symm
      · rw [if_pos same] at none_given
        cases none_given

theorem mainPacket_step (lawful : ops.Lawful) (p : Packet) (s : FrameHandler T) :
    MainStep cb ops p (s.opened cb ops p) (s.mainPacket cb ops p) := by
  have appended : appendPacket cb true p { s.closeMissed cb ops with
      isParsingFailure := false, frameParseFailed := false } = s.opened cb ops p := rfl
  simp only [mainPacket, appended]
  generalize s.opened cb ops p = u
  by_cases complete : 2 ≤ p.mh
  · rw [if_pos complete]
    cases ready : ops.isReady u.tileHndr with
    | false =>
      have step : MainStep cb ops p u _ := latch_step cb ops (by simp [parsesAnew, complete, ready])
      simpa only [unlatched, reasonOf, ready, Bool.false_eq_true, if_false] using step
    | true =>
      simp only [if_true]
      split
      next malformed => exact .refused (by simp [parsesAnew, ready, malformed]) ready malformed
      next signed =>
        cases reason : u.relatchReason (ops.geometrySignature p.j2kBytes).1 with
        | none =>
          have known := known_of_relatchReason reason
          have adopted : (if u.geomSig = 0 then (ops.geometrySignature p.j2kBytes).1 else u.geomSig) =
              (ops.geometrySignature p.j2kBytes).1 := by
            split
            · rfl
            next old => exact known.resolve_left old
          rw [adopted]
          exact .resumed (by simp [parsesAnew, ready, reason]) ready signed known
        | some r =>
          have anew : u.parsesAnew ops p = true := by
            simp only [parsesAnew, reason, Bool.and_eq_true, Bool.or_eq_true, decide_eq_true_eq]
            exact ⟨complete, .inr ⟨signed, rfl⟩⟩
          have step : MainStep cb ops p u _ := latch_step cb ops anew
          simp only [unlatched, reasonOf, ready, reason, if_true] at step
          -- An invalidated stream is not ready, so the header is parsed.
          simpa only [Option.isSome_some, if_true, lawful.invalidate, Bool.false_eq_true, if_false]
            using step
  · rw [if_neg complete]
    have reused : u.parsesAnew ops p = false := by simp [parsesAnew, complete]
    cases ready : ops.isReady u.tileHndr with
    | false => exact .collected reused (Nat.lt_of_not_le complete) ready
    | true => exact .continued reused (Nat.lt_of_not_le complete) ready

theorem mainPacket_part (incomplete : ¬ 2 ≤ p.mh) (u : FrameHandler T) :
    u.mainPacket cb ops p = if ops.isReady (u.opened cb ops p).tileHndr then (true, (u.opened cb ops p).resume 0)
      else (u.opened cb ops p).collectHeader p := by
  simp only [mainPacket, if_neg incomplete]
  rfl

/-- What follows a packet that was taken up: the EOC block, if it is the last one. -/
def close (p : Packet) (r : Bool × FrameHandler T) : FrameHandler T :=
  if r.1 && p.marker then r.2.endFrame cb ops else r.2

/-- A packet up to the EOC block. The Boolean says whether `pull_data` goes on to the marker. -/
def work (p : Packet) (u : FrameHandler T) : Bool × FrameHandler T :=
  if u.skips p then (false, u.skipBody cb ops p)
  else if p.mh = 0 then (true, u.bodyPacket cb ops p) else u.mainPacket cb ops p

theorem pullData_eq (s : FrameHandler T) (p : Packet) :
    s.pullData cb ops p = close cb ops p ((s.entered cb ops p).work cb ops p) := by
  have start : (s.onGap cb p).onSlabCap cb ops = s.entered cb ops p := rfl
  simp only [pullData, start, work]
  cases skipped : (s.entered cb ops p).skips p with
  | true => rfl
  | false => rfl

theorem work_main (main : p.mh ≠ 0) (u : FrameHandler T) : u.work cb ops p = u.mainPacket cb ops p := by
  simp only [work, skips, main, decide_false, Bool.false_and, Bool.false_eq_true, if_false]

/-- The ways of a packet: skipped, a body packet of the frame in flight, or a main packet. -/
inductive Work (p : Packet) (u : FrameHandler T) : Bool × FrameHandler T → Prop where
  | skipped (body : p.mh = 0) (skips : u.skips p = true) : Work p u (false, u.skipBody cb ops p)
  | body (body : p.mh = 0) (passed : u.isPassedHeader = true) (sane : u.isParsingFailure = false) :
    Work p u (true, u.bodyPacket cb ops p)
  | main {r : Bool × FrameHandler T} (main : p.mh ≠ 0) (step : MainStep cb ops p (u.opened cb ops p) r) :
    Work p u r

theorem work_cases (lawful : ops.Lawful) (p : Packet) (u : FrameHandler T) : Work cb ops p u (u.work cb ops p) := by
  simp only [work]
  by_cases body : p.mh = 0
  · split
    next skips => exact .skipped body skips
    next taken =>
      have tracked : u.isPassedHeader = true ∧ u.isParsingFailure = false := by
        simpa [skips, body] using taken
      exact .body body tracked.1 tracked.2
  · have taken : ¬ u.skips p = true := by simp [skips, body]
    rw [if_neg taken, if_neg body]
    exact .main body (mainPacket_step cb ops lawful p u)

/-! ### Slabs and chain -/

/-- The packet ends the frame in flight, at one of the two marker blocks. -/
def endsAtMarker (s : FrameHandler T) (p : Packet) : Bool := p.marker && s.goesOn cb ops p

/-- After the call it can be seen from the slabs. -/
theorem endsAtMarker_eq (s : FrameHandler T) (p : Packet) :
    s.endsAtMarker cb ops p = (p.marker && (s.pullData cb ops p).heldSlabs.isEmpty) := by
  cases marked : p.marker with
  | false => simp [endsAtMarker, marked]
  | true =>
    have ended := (pullData_marked cb ops marked s).1
    rw [← List.isEmpty_iff] at ended
    rw [endsAtMarker, marked, Bool.true_and, Bool.true_and, Bool.eq_iff_iff, ended]

theorem skipBody_released (marked : p.marker = true) (u : FrameHandler T) : (u.skipBody cb ops p).heldSlabs = [] := by
  simp [skipBody, marked, restartTile, releaseHeldSlabs, emit]

/-- A frame is tracked only while slabs are held, and without slabs there is no chain. -/
structure Holds (s : FrameHandler T) : Prop where
  tracked : s.isPassedHeader = true → s.heldSlabs ≠ []
  chain : s.heldSlabs = [] → s.cs.chunks = []

namespace Holds

variable {cb ops} {s : FrameHandler T}

private theorem of_held (held : s.heldSlabs ≠ []) : s.Holds := ⟨fun _ => held, fun none_held => absurd none_held held⟩

private theorem of_released (idle : s.isPassedHeader = false) (clear : s.cs = {}) : s.Holds :=
  ⟨fun passed => absurd passed (Bool.eq_false_iff.mp idle), fun _ => congrArg Codestream.chunks clear⟩

theorem new (tileHndr : T) (relatchK : Nat) : (FrameHandler.new tileHndr relatchK).Holds := .of_released rfl rfl

protected theorem entered (holds : s.Holds) (p : Packet) : (s.entered cb ops p).Holds := by
  have gap : (s.onGap cb p).Holds := by
    simp only [onGap]
    split
    · split <;> exact ⟨holds.tracked, holds.chain⟩
    · exact holds
  simp only [FrameHandler.entered, onSlabCap]
  split
  · exact .of_released rfl rfl
  · exact gap

theorem opened_fresh (holds : u.Holds) (p : Packet) :
    (u.opened cb ops p).isPassedHeader = false ∧ (u.opened cb ops p).heldSlabs ≠ [] ∧
      (u.opened cb ops p).cs.chunks = [p.chunk] := by
  have closed : (u.closeMissed cb ops).isPassedHeader = false ∧ (u.closeMissed cb ops).cs.chunks = [] := by
    simp only [closeMissed]
    split
    next empty =>
      have none_held := List.isEmpty_iff.mp empty
      exact ⟨Bool.eq_false_iff.mpr fun passed => holds.tracked passed none_held, holds.chain none_held⟩
    · split <;> exact ⟨rfl, rfl⟩
  refine ⟨closed.1, List.append_ne_nil_of_right_ne_nil _ (List.cons_ne_nil _ _), ?_⟩
  change (u.closeMissed cb ops).cs.chunks ++ [p.chunk] = _
  rw [closed.2, List.nil_append]

theorem bodyPacket_held (p : Packet) (u : FrameHandler T) : (u.bodyPacket cb ops p).heldSlabs ≠ [] := by
  have walked (w : FrameHandler T) : (w.walkPrecincts cb ops).heldSlabs = w.heldSlabs := by
    simp only [walkPrecincts]
    split
    · split <;> rfl
    · rfl
  have held : (u.appendPacket cb false p).heldSlabs ≠ [] :=
    List.append_ne_nil_of_right_ne_nil _ (List.cons_ne_nil _ _)
  simp only [bodyPacket]
  split
  · rw [walked]
    exact held
  · exact held

theorem main_held {r : Bool × FrameHandler T} (step : MainStep cb ops p u r) : r.2.heldSlabs = u.heldSlabs := by
  cases step with
  | refused _ _ _ => rfl
  | resumed _ _ _ _ => rfl
  | continued _ _ _ => rfl
  | collected _ _ _ => rfl
  | unparsed _ same _ | uncreated _ same _ _ =>
    rw [same, unlatched_eq]
    rfl
  | latched _ same _ =>
    rw [announce_eq, same, unlatched_eq]
    rfl

private theorem work {r : Bool × FrameHandler T} (holds : u.Holds) (way : Work cb ops p u r) : r.2.Holds := by
  cases way with
  | skipped body skips =>
    simp only [skipBody]
    split
    · exact .of_released rfl rfl
    · exact ⟨holds.tracked, holds.chain⟩
  | body body passed sane => exact .of_held (bodyPacket_held p u)
  | main main step =>
    have held : (u.opened cb ops p).heldSlabs ≠ [] := (holds.opened_fresh p).2.1
    exact .of_held (main_held step ▸ held)

protected theorem pullData (lawful : ops.Lawful) (holds : s.Holds) (p : Packet) : (s.pullData cb ops p).Holds := by
  have worked := (holds.entered p).work (work_cases cb ops lawful p (s.entered cb ops p))
  rw [pullData_eq, close]
  split
  · exact .of_released rfl rfl
  · exact worked

end Holds

end FrameHandler

end RtpDecoder.Frame
