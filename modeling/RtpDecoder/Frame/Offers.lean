import RtpDecoder.Frame.Calls
import RtpDecoder.Lib.Throughout

/-!
# The offers of resync points

A consumer that accepts a gap is offered the resync points of the frame until it takes one.
Beside the handler stands what the consumer knows from the callbacks and its own answers:
whether an offer is due, whether a gap was accepted in the frame, and how many bytes of the
frame it has got.
-/

namespace RtpDecoder.Frame

variable {T : Type} {s u v w : FrameHandler T} {p : Packet}

/-! ### What the consumer sees -/

namespace Event

/-- The events of the protocol: bytes, gaps and points. -/
def isOffer : Event → Bool
  | .chunk _ _ _ => true
  | .resyncGap _ => true
  | .resyncPoint _ _ => true
  | _ => false

def isGap : Event → Bool
  | .resyncGap _ => true
  | _ => false

def isPoint : Event → Bool
  | .resyncPoint _ _ => true
  | _ => false

/-- The bytes that come with an event. -/
def bytes : Event → Nat
  | .chunk _ _ len => len
  | _ => 0

end Event

/-- A frame: a gap was accepted and no point since then; a gap was accepted at all; and the bytes
delivered so far. -/
structure Offer where
  pending : Bool := false
  parked : Bool := false
  delivered : Nat := 0
deriving DecidableEq, Repr

namespace Offer

/-- A gap is accepted if the callback is called and says so; otherwise no frame survives it. -/
def onGap (p : Packet) (events : List Event) (o : Offer) : Offer :=
  let accepted := events.any Event.isGap && p.gapAnswer
  if p.gap then { o with pending := accepted, parked := o.parked || accepted } else o

/-- The frame that a packet finds, with the gap before it. The slab cap and a main packet end the
frame before. -/
def before (s : FrameHandler T) (p : Packet) (events : List Event) (o : Offer) : Offer :=
  if 3072 ≤ s.heldSlabs.length ∨ p.mh ≠ 0 then {} else o.onGap p events

/-- A point that is accepted ends the offers. -/
def take (p : Packet) (events : List Event) (o : Offer) : Offer :=
  { o with
    pending := o.pending && !(events.any Event.isPoint && p.pointAnswer)
    delivered := o.delivered + (events.map Event.bytes).sum }

/-- The frame behind a packet that found the handler `s`, with these events. -/
def after (ended : Bool) (p : Packet) (s : FrameHandler T) (events : List Event) (o : Offer) : Offer :=
  if ended then {} else (o.before s p events).take p events

end Offer

namespace FrameHandler

def offers (s : FrameHandler T) : List Event := s.trace.filter Event.isOffer

/-- The events of the protocol between two states of a run, the latest first. -/
def offersSince (s s' : FrameHandler T) : List Event := since s.offers s'.offers

variable (cb : Callbacks) (ops : TileOps T)

/-- A call of `pull_data`, with the consumer beside it. -/
def attend (x : FrameHandler (Logged T) × Offer) (p : Packet) : FrameHandler (Logged T) × Offer :=
  (x.1.pullData cb ops.logged p,
    x.2.after (x.1.endsAtMarker cb ops.logged p) p x.1 (x.1.offersSince (x.1.pullData cb ops.logged p)))

/-- A packet that takes the handler from `s` to `s'` follows the protocol: it is offered as a point
exactly if it is a body packet with `ORDB` while an offer is due, at the bytes delivered before
it and its position; and with a gap accepted in the frame nothing is parsed or flushed. -/
def Follows (p : Packet) (s s' : FrameHandler (Logged T)) (o : Offer) : Prop :=
  let found := o.before s p (s.offersSince s')
  ((s.offersSince s').filter Event.isPoint =
    if p.mh = 0 ∧ p.ordb = true ∧ found.pending = true ∧ cb.resyncPoint = true then
      [.resyncPoint (BitVec.ofNat 32 (found.delivered + p.pos.toNat)) p.pid]
    else []) ∧
  (found.parked = true → s.callsSince s' = [])

instance (p : Packet) (s s' : FrameHandler (Logged T)) (o : Offer) : Decidable (Follows cb p s s' o) :=
  inferInstanceAs (Decidable (_ ∧ _))

def Offers (x : FrameHandler (Logged T) × Offer) (p : Packet) : Prop :=
  Follows cb p x.1 (x.1.pullData cb ops.logged p) x.2

instance (x : FrameHandler (Logged T) × Offer) (p : Packet) : Decidable (Offers cb ops x p) :=
  inferInstanceAs (Decidable (Follows _ _ _ _ _))

/-! ### The flags of the handler -/

/-- The handler knows whether an offer is due, and how many bytes it has delivered. -/
structure Attends (o : Offer) (s : FrameHandler T) : Prop where
  armed : s.resyncArmed = o.pending
  walking : s.resyncArmed = true → s.resyncSoft = true ∧ s.isPassedHeader = true ∧ s.isParsingFailure = false
  parked : o.parked = true → s.resyncSoft = true ∨ s.isParsingFailure = true
  bytes : s.chainTotalBytes = o.delivered % 2 ^ 64
  empty : s.heldSlabs = [] → s.chainTotalBytes = 0

section

variable {cb ops} {o : Offer}

theorem offers_emit (registered : Bool) {e : Event} (other : e.isOffer = false) (s : FrameHandler T) :
    (s.emit registered e).offers = s.offers := by
  cases registered <;> simp [emit, offers, other]

private theorem offers_releaseHeldSlabs (s : FrameHandler T) : (s.releaseHeldSlabs cb).offers = s.offers := by
  have others (idxs : List Nat) : (idxs.map Event.releaseSlab).filter Event.isOffer = [] := by
    simp [Event.isOffer]
  cases set : cb.releaseSlab <;> simp [offers, releaseHeldSlabs, set, others]

private theorem offers_fireAbort (reason : AbortReason) (s : FrameHandler T) :
    (s.fireAbort cb reason).offers = s.offers := offers_emit _ rfl _

private theorem offers_announce (relatch : Option RelatchReason) (s : FrameHandler T) :
    (s.announce cb relatch).offers = s.offers := by
  cases relatch with
  | none => rfl
  | some reason => exact offers_emit cb.relatch rfl { s with relatches := s.relatches + 1 }

private theorem offers_appendPacket (listening : cb.chunk = true) (main : Bool) (p : Packet) (s : FrameHandler T) :
    (s.appendPacket cb main p).offers = .chunk main s.chainTotalBytes p.size :: s.offers := by
  simp only [appendPacket, deliverChunk, emit, offers, listening, if_true]
  rfl

private theorem Attends.over (disarmed : s.resyncArmed = false) (released : s.chainTotalBytes = 0) : Attends {} s :=
  ⟨disarmed, fun armed => absurd armed (Bool.eq_false_iff.mp disarmed), by simp, released, fun _ => released⟩

/-- The gap callback is asked about a frame in flight. -/
def gapEvents (cb : Callbacks) (p : Packet) (s : FrameHandler T) : List Event :=
  if (p.gap && (s.isPassedHeader || !s.heldSlabs.isEmpty) && !s.isParsingFailure) && (cb.resyncGap && s.isPassedHeader)
  then [.resyncGap s.chainTotalBytes] else []

private theorem Attends.onGap (attends : Attends o s) (p : Packet) :
    (s.onGap cb p).offers = gapEvents cb p s ++ s.offers ∧ (s.onGap cb p).heldSlabs = s.heldSlabs ∧
      Attends (o.onGap p (gapEvents cb p s)) (s.onGap cb p) := by
  simp only [FrameHandler.onGap, gapEvents]
  cases flight : p.gap && (s.isPassedHeader || !s.heldSlabs.isEmpty) && !s.isParsingFailure with
  | false =>
    refine ⟨rfl, rfl, ?_⟩
    cases gap : p.gap with
    | false =>
      rw [Offer.onGap, gap]
      exact attends
    | true =>
      -- Without a frame in flight, or with one that has failed already, nothing was due.
      have disarmed : s.resyncArmed = false := by
        rw [Bool.eq_false_iff]
        intro armed
        obtain ⟨_, passed, sane⟩ := attends.walking armed
        simp [gap, passed, sane] at flight
      rw [Offer.onGap, gap]
      refine ⟨disarmed, attends.walking, fun parked => attends.parked ?_, attends.bytes, attends.empty⟩
      simpa using parked
  | true =>
    simp only [Bool.and_eq_true, Bool.not_eq_true'] at flight
    obtain ⟨⟨gap, _⟩, sane⟩ := flight
    -- A frame that is given up is marked as failed.
    have declined (asked : Bool) (events : List Event) (refused : (events.any Event.isGap && p.gapAnswer) = false) :
        Attends (o.onGap p events) (failFrame cb .gap (s.emit asked (.resyncGap s.chainTotalBytes))) := by
      simp only [Offer.onGap, gap, refused, if_true]
      exact ⟨rfl, by simp [failFrame, fireAbort, emit], fun _ => .inr rfl, attends.bytes, attends.empty⟩
    simp only [Bool.true_and, if_true]
    cases asked : cb.resyncGap && s.isPassedHeader with
    | false => exact ⟨offers_fireAbort _ _, rfl, declined false [] rfl⟩
    | true =>
      have passed : s.isPassedHeader = true := (Bool.and_eq_true_iff.mp asked).2
      cases answer : p.gapAnswer with
      | false => exact ⟨offers_fireAbort _ _, rfl, declined true _ (by rw [answer, Bool.and_false])⟩
      | true =>
        have accepted : o.onGap p [.resyncGap s.chainTotalBytes] = { o with pending := true, parked := true } := by
          simp [Offer.onGap, gap, answer, Event.isGap]
        simp only [Bool.and_self, if_true, accepted]
        exact ⟨rfl, rfl, rfl, fun _ => ⟨rfl, passed, sane⟩, fun _ => .inl rfl, attends.bytes, attends.empty⟩

private theorem Attends.entered (attends : Attends o s) (p : Packet) :
    (s.entered cb ops p).offers = gapEvents cb p s ++ s.offers ∧
      Attends (if 3072 ≤ s.heldSlabs.length then {} else o.onGap p (gapEvents cb p s)) (s.entered cb ops p) := by
  obtain ⟨offers, held, gap⟩ : (s.onGap cb p).offers = _ ∧ _ := attends.onGap p
  simp only [FrameHandler.entered, onSlabCap, held]
  split
  · exact ⟨((offers_releaseHeldSlabs _).trans (offers_fireAbort _ _)).trans offers, .over rfl rfl⟩
  · exact ⟨offers, gap⟩

private theorem Attends.skipBody (attends : Attends o u) (p : Packet) :
    (u.skipBody cb ops p).offers = u.offers ∧ Attends (if p.marker then {} else o) (u.skipBody cb ops p) := by
  have given : (u.emit cb.releaseSlab (.releaseSlab p.slabIdx)).offers = u.offers := offers_emit _ rfl u
  simp only [FrameHandler.skipBody]
  split
  · have ended (v : FrameHandler T) : (((releaseHeldSlabs cb v).restartTile ops).emit true .eoc).offers = v.offers :=
      (offers_emit _ rfl _).trans (offers_releaseHeldSlabs v)
    rw [ended]
    split
    · exact ⟨(offers_fireAbort _ _).trans given, .over rfl rfl⟩
    next idle =>
      have disarmed : u.resyncArmed = false := by
        rw [Bool.eq_false_iff]
        intro armed
        have flags : ¬ (u.isParsingFailure || u.isPassedHeader) = true := idle
        simp [(attends.walking armed).2.1] at flags
      exact ⟨given, .over disarmed rfl⟩
  · exact ⟨given, attends.armed, attends.walking, attends.parked, attends.bytes, attends.empty⟩

/-- A walk that runs at all finds nothing due, and its failure leaves nothing due. -/
private theorem Attends.walkPrecincts (attends : Attends o w) :
    (w.walkPrecincts cb ops).offers = w.offers ∧ Attends o (w.walkPrecincts cb ops) := by
  simp only [FrameHandler.walkPrecincts]
  split
  next free =>
    split
    · exact ⟨rfl, attends.armed, attends.walking, attends.parked, attends.bytes, attends.empty⟩
    -- While an offer is due the walk is off, so its failure comes at another time.
    · have disarmed : o.pending = false := by
        rw [← attends.armed, Bool.eq_false_iff]
        intro armed
        simp [(attends.walking armed).1] at free
      refine ⟨offers_fireAbort _ _, disarmed.symm, ?_, fun _ => .inr rfl, attends.bytes, attends.empty⟩
      simp [failFrame, fireAbort, emit]
  · exact ⟨rfl, attends⟩

private theorem Attends.offerPoint (attends : Attends o w) (p : Packet) (resyncByte : BitVec 32) :
    (w.offerPoint cb ops p resyncByte).offers =
        (if w.resyncArmed && cb.resyncPoint then [.resyncPoint resyncByte p.pid] else []) ++ w.offers ∧
      Attends { o with pending := o.pending && !((w.resyncArmed && cb.resyncPoint) && p.pointAnswer) }
        (w.offerPoint cb ops p resyncByte) := by
  refine ⟨?_, by rw [← attends.armed]; rfl, fun armed => ?_, attends.parked, attends.bytes, attends.empty⟩
  · cases offered : w.resyncArmed && cb.resyncPoint <;>
      simp only [FrameHandler.offerPoint, emit, offers, offered] <;> rfl
  · have before : w.resyncArmed = true := (Bool.and_eq_true_iff.mp armed).1
    exact attends.walking before

/-- A resync point of a frame in flight. -/
def pointEvents (cb : Callbacks) (p : Packet) (u : FrameHandler T) : List Event :=
  if p.ordb && u.resyncArmed && cb.resyncPoint
  then [.resyncPoint (BitVec.ofNat 32 u.chainTotalBytes + p.pos) p.pid] else []

private theorem Attends.bodyPacket (attends : Attends o u) (listening : cb.chunk = true)
    (p : Packet) (passed : u.isPassedHeader = true) :
    (u.bodyPacket cb ops p).offers =
        pointEvents cb p u ++ [.chunk false u.chainTotalBytes p.size] ++ u.offers ∧
      Attends
        { o with
          pending := o.pending && !((pointEvents cb p u).any Event.isPoint && p.pointAnswer)
          delivered := o.delivered + p.size }
        (u.bodyPacket cb ops p) := by
  have appended : Attends { o with delivered := o.delivered + p.size } (u.appendPacket cb false p) := by
    refine ⟨attends.armed, attends.walking, attends.parked, ?_, fun none_held => ?_⟩
    · change (u.chainTotalBytes + p.size) % 2 ^ 64 = _
      rw [attends.bytes, Nat.mod_add_mod]
    · exact absurd none_held (List.append_ne_nil_of_right_ne_nil _ (List.cons_ne_nil _ _))
  have chunk := offers_appendPacket (T := T) listening false p u
  have tracked : (u.appendPacket cb false p).isPassedHeader = true := passed
  simp only [FrameHandler.bodyPacket, tracked, Bool.and_true]
  cases point : p.ordb with
  | false => simpa [pointEvents, point, chunk] using appended
  | true =>
    obtain ⟨offered, after⟩ : (FrameHandler.offerPoint cb ops p (BitVec.ofNat 32 u.chainTotalBytes + p.pos)
        (u.appendPacket cb false p)).offers = _ ∧ _ := appended.offerPoint p _
    obtain ⟨kept, walked⟩ : (FrameHandler.walkPrecincts cb ops (FrameHandler.offerPoint cb ops p
        (BitVec.ofNat 32 u.chainTotalBytes + p.pos) (u.appendPacket cb false p))).offers = _ ∧ _ := after.walkPrecincts
    have armed : (u.appendPacket cb false p).resyncArmed = u.resyncArmed := rfl
    rw [armed, chunk] at offered
    rw [armed] at walked
    simp only [pointEvents, point, Bool.true_and, if_true]
    refine ⟨(kept.trans offered).trans (by simp), ?_⟩
    cases due : u.resyncArmed && cb.resyncPoint with
    | false => simpa [due] using walked
    | true => simpa [due, Event.isPoint] using walked

private theorem Attends.opened (attends : Attends o u) (listening : cb.chunk = true)
    (holds : u.Holds) (p : Packet) :
    (∃ offset, (u.opened cb ops p).offers = [.chunk true offset p.size] ++ u.offers) ∧
      Attends { delivered := p.size } (u.opened cb ops p) := by
  have closed : (u.closeMissed cb ops).offers = u.offers ∧ (u.closeMissed cb ops).resyncArmed = false ∧
      (u.closeMissed cb ops).chainTotalBytes = 0 := by
    have ended : (restartTile ops (releaseHeldSlabs cb (u.fireAbort cb .missedEOC))).offers = u.offers :=
      (offers_releaseHeldSlabs _).trans (offers_fireAbort _ _)
    simp only [closeMissed]
    split
    -- An armed handler tracks a frame, and a tracked frame has slabs.
    next none_held =>
      have empty := List.isEmpty_iff.mp none_held
      refine ⟨rfl, ?_, attends.empty empty⟩
      rw [Bool.eq_false_iff]
      exact fun armed => holds.tracked (attends.walking armed).2.1 empty
    · split <;> exact ⟨ended, rfl, rfl⟩
  obtain ⟨offers, disarmed, released⟩ := closed
  refine ⟨⟨(u.closeMissed cb ops).chainTotalBytes, ?_⟩, disarmed, fun armed => ?_, by simp, ?_, fun none_held => ?_⟩
  · rw [← offers]
    exact offers_appendPacket listening true p _
  · exact absurd armed (Bool.eq_false_iff.mp disarmed)
  · change ((u.closeMissed cb ops).chainTotalBytes + p.size) % 2 ^ 64 = _
    rw [released, Nat.zero_add]
  · exact absurd none_held (holds.opened_fresh p).2.1

private theorem Attends.main {r : Bool × FrameHandler T} {d : Nat}
    (attends : Attends { delivered := d } u) (step : MainStep cb ops p u r) :
    r.2.offers = u.offers ∧ Attends { delivered := d } r.2 := by
  -- A frame at its main packet has nothing due, so only the bytes are to be kept.
  have kept {v : FrameHandler T} (disarmed : v.resyncArmed = false) (bytes : v.chainTotalBytes = u.chainTotalBytes)
      (held : v.heldSlabs = u.heldSlabs) : Attends { delivered := d } v :=
    ⟨disarmed, fun armed => absurd armed (Bool.eq_false_iff.mp disarmed), by simp, bytes.trans attends.bytes,
      fun none_held => bytes.trans (attends.empty (held.symm.trans none_held))⟩
  cases step with
  | refused _ _ _ => exact ⟨offers_fireAbort _ _, kept rfl rfl rfl⟩
  | resumed _ _ _ _ | continued _ _ _ | collected _ _ _ => exact ⟨rfl, kept attends.armed rfl rfl⟩
  | unparsed _ same _ | uncreated _ same _ _ =>
    rw [same, unlatched_eq]
    exact ⟨offers_fireAbort _ _, kept rfl rfl rfl⟩
  -- Parsing a header anew touches the tile handler and the reader only.
  | @latched _ v same _ =>
    have start : v.resyncArmed = false ∧ v.chainTotalBytes = u.chainTotalBytes ∧ v.heldSlabs = u.heldSlabs ∧
        v.offers = u.offers := by
      rw [same, unlatched_eq]
      exact ⟨attends.armed, rfl, rfl, rfl⟩
    obtain ⟨disarmed, bytes, held, offers⟩ := start
    refine ⟨(offers_announce _ _).trans offers, ?_⟩
    rw [announce_eq]
    exact kept disarmed bytes held

private theorem Attends.unflushed {ops : TileOps T} {v : FrameHandler (Logged T)} (attends : Attends o v)
    (parked : o.parked = true) : v.flushCalls ops = [] := by
  have damaged : v.looksIntact = false := by
    rcases attends.parked parked with soft | failed
    · simp [looksIntact, soft]
    · simp [looksIntact, failed]
  rw [flushCalls, damaged]
  rfl

private theorem gapEvents_quiet (p : Packet) (s : FrameHandler T) :
    (gapEvents cb p s).filter Event.isPoint = [] ∧ (gapEvents cb p s).any Event.isPoint = false ∧
      ((gapEvents cb p s).map Event.bytes).sum = 0 := by
  simp only [gapEvents]
  split <;> exact ⟨rfl, rfl, rfl⟩

private theorem pointEvents_quiet (p : Packet) (u : FrameHandler T) :
    (pointEvents cb p u).filter Event.isPoint = pointEvents cb p u ∧ (pointEvents cb p u).any Event.isGap = false ∧
      ((pointEvents cb p u).map Event.bytes).sum = 0 := by
  simp only [pointEvents]
  split <;> exact ⟨rfl, rfl, rfl⟩

/-- Only the gap matters of what comes with a packet. -/
private theorem onGap_append (p : Packet) {new : List Event} (other : new.any Event.isGap = false) (gaps : List Event)
    (o : Offer) : o.onGap p (new ++ gaps) = o.onGap p gaps := by
  simp [Offer.onGap, other]

private theorem take_gapEvents (p : Packet) (s : FrameHandler T) (o : Offer) : o.take p (gapEvents cb p s) = o := by
  obtain ⟨_, points, bytes⟩ : _ ∧ (gapEvents cb p s).any Event.isPoint = false ∧ _ := gapEvents_quiet p s
  simp [Offer.take, points, bytes]

private theorem endFrame_over (v : FrameHandler T) :
    (v.endFrame cb ops).offers = v.offers ∧ Attends {} (v.endFrame cb ops) := by
  have flushed : (v.flushFrame ops).offers = v.offers ∧ (v.flushFrame ops).resyncArmed = false := by
    simp only [flushFrame]
    split
    · split <;> exact ⟨rfl, rfl⟩
    · exact ⟨rfl, rfl⟩
  have reported (intact : Bool) (w : FrameHandler T) : (w.reportFrame cb ops intact).offers = w.offers :=
    (offers_emit _ rfl _).trans ((offers_releaseHeldSlabs _).trans (offers_emit cb.frameReady rfl _))
  rw [endFrame_eq]
  exact ⟨(reported _ _).trans flushed.1, .over flushed.2 rfl⟩

private theorem Attends.close (attends : Attends o v) (held : v.heldSlabs ≠ []) (go : Bool)
    (p : Packet) :
    (close cb ops p (go, v)).offers = v.offers ∧
      Attends (if p.marker && (close cb ops p (go, v)).heldSlabs.isEmpty then {} else o) (close cb ops p (go, v)) := by
  simp only [FrameHandler.close]
  cases ended : go && p.marker with
  | true =>
    have marked : p.marker = true := (Bool.and_eq_true_iff.mp ended).2
    have released : (v.endFrame cb ops).heldSlabs = [] := rfl
    rw [if_pos rfl, marked, released]
    exact endFrame_over v
  | false =>
    have open_frame : v.heldSlabs.isEmpty = false := by simpa using held
    rw [if_neg Bool.false_ne_true, open_frame, Bool.and_false]
    exact ⟨rfl, attends⟩

/-- The frame that a body packet finds, whatever comes after its gap. -/
private theorem before_body (body : p.mh = 0) (s : FrameHandler T) (new : List Event)
    (other : new.any Event.isGap = false) :
    o.before s p (new ++ gapEvents cb p s) =
      if 3072 ≤ s.heldSlabs.length then {} else o.onGap p (gapEvents cb p s) := by
  simp only [Offer.before, body, onGap_append p other, ne_eq, not_true, or_false]

/-- The point is counted in 32 bits. -/
private theorem ofNat_mod_add (d : Nat) (pos : BitVec 32) :
    BitVec.ofNat 32 (d % 2 ^ 64) + pos = BitVec.ofNat 32 (d + pos.toNat) := by
  apply BitVec.eq_of_toNat_eq
  simp only [BitVec.toNat_add, BitVec.toNat_ofNat]
  omega

private theorem bodyCalls_parked {ops : TileOps T} {u : FrameHandler (Logged T)} (soft : u.resyncSoft = true)
    (p : Packet) : u.bodyCalls cb ops p = [] := by
  have parked : (offerPoint cb ops.logged p (BitVec.ofNat 32 u.chainTotalBytes + p.pos)
      (u.appendPacket cb false p)).resyncSoft = true := soft
  simp [bodyCalls, parseCalls, parked]

variable (lawful : ops.Lawful)

include lawful

private theorem calls_close (v : FrameHandler (Logged T)) (go : Bool) (p : Packet) :
    (close cb ops.logged p (go, v)).tileHndr.calls =
      (if go && p.marker then v.flushCalls ops else []) ++ v.tileHndr.calls := by
  simp only [FrameHandler.close]
  cases go && p.marker with
  | true => exact congrArg Account.calls (endFrame_account quiet_overlookAll lawful v)
  | false => rfl

private theorem Attends.skipped {s u : FrameHandler (Logged T)} {found : Offer}
    (attends : Attends found u) (offers : u.offers = gapEvents cb p s ++ s.offers)
    (calls : u.tileHndr.calls = s.tileHndr.calls) (before : o.before s p (gapEvents cb p s) = found)
    (skips : u.skips p = true) :
    Follows cb p s (u.skipBody cb ops.logged p) o ∧
      Attends (o.after (p.marker && (u.skipBody cb ops.logged p).heldSlabs.isEmpty) p s
        (s.offersSince (u.skipBody cb ops.logged p))) (u.skipBody cb ops.logged p) := by
  obtain ⟨kept, skipped⟩ : (u.skipBody cb ops.logged p).offers = u.offers ∧ _ := attends.skipBody p
  have events : s.offersSince (u.skipBody cb ops.logged p) = gapEvents cb p s := since_append (kept.trans offers)
  have unchanged : (u.skipBody cb ops.logged p).tileHndr.calls = u.tileHndr.calls :=
    congrArg Account.calls (skipBody_account quiet_overlookAll lawful u p)
  have silent : s.callsSince (u.skipBody cb ops.logged p) = [] := since_append (unchanged.trans calls)
  simp only [Follows, Offer.after, events, before, take_gapEvents]
  refine ⟨⟨?_, fun _ => silent⟩, ?_⟩
  · -- A frame with an offer due is tracked, and its packets are not skipped.
    have nothing_due : ¬ found.pending = true := by
      rw [← attends.armed]
      intro armed
      obtain ⟨_, passed, sane⟩ := attends.walking armed
      simp [FrameHandler.skips, passed, sane] at skips
    rw [(gapEvents_quiet p s).1, if_neg fun due => nothing_due due.2.2.1]
  · cases marked : p.marker with
    | false =>
      rw [marked] at skipped
      exact skipped
    | true =>
      rw [marked] at skipped
      rw [skipBody_released cb ops.logged marked]
      exact skipped

private theorem Attends.taken {s u : FrameHandler (Logged T)} {found : Offer} (listening : cb.chunk = true)
    (attends : Attends found u) (offers : u.offers = gapEvents cb p s ++ s.offers)
    (calls : u.tileHndr.calls = s.tileHndr.calls) (body : p.mh = 0)
    (before : ∀ new : List Event, new.any Event.isGap = false → o.before s p (new ++ gapEvents cb p s) = found)
    (passed : u.isPassedHeader = true) (sane : u.isParsingFailure = false) :
    let s' := FrameHandler.close cb ops.logged p (true, u.bodyPacket cb ops.logged p)
    Follows cb p s s' o ∧ Attends (o.after (p.marker && s'.heldSlabs.isEmpty) p s (s.offersSince s')) s' := by
  intro s'
  obtain ⟨added, walked⟩ : (u.bodyPacket cb ops.logged p).offers = _ ∧ _ := attends.bodyPacket listening p passed
  obtain ⟨kept, closed⟩ : s'.offers = _ ∧ _ := walked.close (Holds.bodyPacket_held p u) true p
  obtain ⟨points, ungapped, bytes⟩ : (pointEvents cb p u).filter Event.isPoint = pointEvents cb p u ∧ _ :=
    pointEvents_quiet p u
  obtain ⟨gapPoints, gapQuiet, gapBytes⟩ : (gapEvents cb p s).filter Event.isPoint = [] ∧ _ := gapEvents_quiet p s
  have events : s.offersSince s' =
      (pointEvents cb p u ++ [.chunk false u.chainTotalBytes p.size]) ++ gapEvents cb p s := by
    apply since_append
    rw [kept, added, offers, List.append_assoc, List.append_assoc, List.append_assoc]
  have came := before (pointEvents cb p u ++ [.chunk false u.chainTotalBytes p.size])
    (by simp [ungapped, Event.isGap])
  simp only [Follows, Offer.after, events, came]
  -- The point is at its place, an accepted gap keeps the tile handler idle, and the consumer has
  -- taken what the handler has given.
  refine ⟨⟨?_, fun parked => ?_⟩, ?_⟩
  · have chunk : [Event.chunk false u.chainTotalBytes p.size].filter Event.isPoint = [] := rfl
    rw [List.filter_append, List.filter_append, points, chunk, gapPoints, List.append_nil, List.append_nil,
      pointEvents, attends.bytes, ofNat_mod_add, attends.armed]
    simp only [body, true_and, Bool.and_eq_true, and_assoc]
  · have soft : u.resyncSoft = true := by
      rcases attends.parked parked with soft | failed
      · exact soft
      · exact absurd failed (Bool.eq_false_iff.mp sane)
    have parses : (u.bodyPacket cb ops.logged p).tileHndr.calls = u.bodyCalls cb ops p ++ u.tileHndr.calls :=
      congrArg Account.calls (bodyPacket_account quiet_overlookAll lawful u p)
    apply since_append
    rw [calls_close lawful, walked.unflushed parked, parses, bodyCalls_parked soft, calls, ite_self]
    rfl
  · have taken : found.take p ((pointEvents cb p u ++ [.chunk false u.chainTotalBytes p.size]) ++ gapEvents cb p s) =
        { found with
          pending := found.pending && !((pointEvents cb p u).any Event.isPoint && p.pointAnswer)
          delivered := found.delivered + p.size } := by
      simp [Offer.take, gapQuiet, gapBytes, bytes, Event.isPoint, Event.bytes]
    rw [taken]
    exact closed

private theorem Attends.started {s : FrameHandler (Logged T)} {found : Offer} (listening : cb.chunk = true)
    (holds : s.Holds) (attends : Attends found (s.entered cb ops.logged p))
    (offers : (s.entered cb ops.logged p).offers = gapEvents cb p s ++ s.offers) (main : p.mh ≠ 0) :
    let s' := FrameHandler.close cb ops.logged p ((s.entered cb ops.logged p).mainPacket cb ops.logged p)
    Follows cb p s s' o ∧ Attends (o.after (p.marker && s'.heldSlabs.isEmpty) p s (s.offersSince s')) s' := by
  intro s'
  have step := mainPacket_step cb ops.logged lawful.logged p (s.entered cb ops.logged p)
  have held : (s.arrived cb ops.logged p).heldSlabs ≠ [] := ((holds.entered p).opened_fresh p).2.1
  obtain ⟨⟨offset, added⟩, opened⟩ : (∃ offset, (s.arrived cb ops.logged p).offers = _) ∧ _ :=
    attends.opened listening (holds.entered p) p
  obtain ⟨same, stepped⟩ := opened.main step
  obtain ⟨kept, closed⟩ : s'.offers = _ ∧ _ := stepped.close (Holds.main_held step ▸ held) _ p
  have events : s.offersSince s' = [.chunk true offset p.size] ++ gapEvents cb p s := by
    apply since_append
    rw [kept, same]
    exact added.trans (by rw [offers, List.append_assoc])
  obtain ⟨gapPoints, gapQuiet, gapBytes⟩ : (gapEvents cb p s).filter Event.isPoint = [] ∧ _ := gapEvents_quiet p s
  have fresh (new : List Event) : o.before s p new = {} := if_pos (.inr main)
  simp only [Follows, Offer.after, events, fresh]
  refine ⟨⟨?_, by simp⟩, ?_⟩
  · rw [if_neg fun due => main due.1, List.filter_append, gapPoints]
    rfl
  · have taken : Offer.take p ([.chunk true offset p.size] ++ gapEvents cb p s) {} = { delivered := p.size } := by
      simp [Offer.take, gapBytes, Event.bytes]
    rw [taken]
    exact closed

/-- One call of `pull_data` follows the protocol, and keeps the handler and the consumer together. -/
private theorem attend_step (listening : cb.chunk = true) (p : Packet) {x : FrameHandler (Logged T) × Offer}
    (holds : x.1.Holds) (attends : Attends x.2 x.1) :
    Offers cb ops x p ∧ Attends (attend cb ops x p).2 (attend cb ops x p).1 := by
  obtain ⟨s, o⟩ := x
  obtain ⟨offers, entered⟩ : (s.entered cb ops.logged p).offers = gapEvents cb p s ++ s.offers ∧ _ :=
    attends.entered p
  have calls : (s.entered cb ops.logged p).tileHndr.calls = s.tileHndr.calls :=
    congrArg Account.calls (entered_account quiet_overlookAll lawful s p)
  simp only [Offers, attend, endsAtMarker_eq, pullData_eq]
  by_cases body : p.mh = 0
  · have way := work_cases cb ops.logged lawful.logged p (s.entered cb ops.logged p)
    generalize (s.entered cb ops.logged p).work cb ops.logged p = r at way ⊢
    cases way with
    | skipped _ skips => exact entered.skipped lawful offers calls (before_body body s [] rfl) skips
    | body _ passed sane =>
      exact entered.taken lawful listening offers calls body (before_body body s) passed sane
    | main main _ => exact absurd body main
  · rw [work_main cb ops.logged body]
    exact entered.started lawful listening holds offers body

end

end FrameHandler

open FrameHandler in
/-- Every packet of every run follows the protocol of the offers, for any tile handler and any
answers of the consumer. The log of the calls changes nothing (`run_erase`). -/
theorem offers_throughout (cb : Callbacks) (ops : TileOps T) (lawful : ops.Lawful) (tileHndr : T) (relatchK : Nat)
    (listening : cb.chunk = true) (packets : List Packet) :
    Throughout (attend cb ops) (Offers cb ops) (.new { tile := tileHndr } relatchK, {}) packets := by
  apply Throughout.of_step fun x => x.1.Holds ∧ Attends x.2 x.1
  · exact ⟨.new _ _, rfl, by simp [FrameHandler.new], by simp, rfl, fun _ => rfl⟩
  · intro x p inv
    obtain ⟨follows, attends⟩ := attend_step lawful listening p inv.1 inv.2
    exact ⟨follows, inv.1.pullData lawful.logged p, attends⟩

/-- A body packet behind a gap that the consumer accepts, with a resync point at its third byte. -/
def pointPacket : Packet :=
  { packetOf 1 [0, 0x80, 0, 0, 0, 0x20, 0, 0, 0, 0, 0, 0] false with gap := true, gapAnswer := true }

open FrameHandler in
/-- The point is offered at its place in the chain. -/
theorem offers_throughout_pointPacket :
    Throughout (attend {} tileOps) (Offers {} tileOps) (.new { tile := {} } 4, {}) [headerPacket 0x80, pointPacket] ∧
    ((FrameHandler.new {} 4).run {} tileOps [headerPacket 0x80, pointPacket]).trace.head? =
      some (.resyncPoint 88 0) :=
  ⟨offers_throughout {} tileOps tileOps_lawful {} 4 rfl _, by decide +kernel⟩

/-- A body packet of four gibibytes. -/
def hugeBody : Packet where
  payload _ := 0
  size := 2 ^ 32

open FrameHandler in
/-- Behind so many bytes the point that is offered is not at its place. -/
theorem point_misplaced_behind_hugeBody :
    let x := [headerPacket 0x80, hugeBody].foldl (attend {} tileOps) (.new { tile := {} } 4, {})
    let events := x.1.offersSince (x.1.pullData {} tileOps.logged pointPacket)
    x.2.delivered = 86 + 2 ^ 32 ∧ pointPacket.pos = 2 ∧ (x.2.before x.1 pointPacket events).pending = true ∧
    events.filter Event.isPoint = [.resyncPoint 88 pointPacket.pid] ∧
    (88 : BitVec 32).toNat ≠ x.2.delivered + pointPacket.pos.toNat := by
  decide +kernel

end RtpDecoder.Frame
