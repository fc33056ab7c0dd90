import RtpDecoder.Frame.Takeup
import RtpDecoder.Frame.InUse
import RtpDecoder.Lib.Throughout

/-!
# Streams of whole frames

A whole frame whose main packet is taken up goes through, and leaves a handler on which the next
whole frame does. Between two frames anything may come: packets of frames that are lost in part, of
headers that are broken, of streams of another sender.

Every frame ends in a `restart`, so all structures of a run have to be such that it can walk over
them. What the arena held in the code-blocks of a structure when it was built does not show in what is
delivered.
-/

namespace RtpDecoder.Frame

open RtpDecoder.Parser RtpDecoder.Header

namespace FrameHandler

/-- The structure `h` is in use, for headers with this signature. -/
structure Attached (left : Residue) (h : TileHandler) (sig : BitVec 64) (s : FrameHandler Reporting) : Prop where
  latched : h.Latched s.tileHndr.tile ∧ s.tileHndr.tile.ready = true
  signature : s.geomSig = sig
  settled : s.Settled left.ops

/-- A handler between frames of the structure `h`. -/
structure Standby (left : Residue) (h : TileHandler) (sig : BitVec 64) (s : FrameHandler Reporting) : Prop
    extends s.Attached left h sig where
  streak : s.parseFailStreak = 0
  released : s.heldSlabs = []

/-- The frame has gone through: its events follow those that end the frame before, every precinct of
the structure has been reported once, with what was written for it, and the handler is ready for the
next frame. -/
structure Delivered (cb : Callbacks) (left : Residue) (h : TileHandler) (f : WholeFrame)
    (reason : Option RelatchReason) (s r : FrameHandler Reporting) : Prop where
  trace : r.trace = (s.closing cb ++ f.events cb reason).reverse ++ s.trace
  precincts : ∃ fired : List Report,
    r.tileHndr.reports.map Report.seen = (fired.reverse ++ s.tileHndr.reports).map Report.seen ∧
    fired.map Report.crp = h.tile.crp ∧
    List.Forall₂ (fun rep (p : CodedPacket) => p.DeliveredIn rep.prec) fired f.coded
  relatches : r.relatches = s.relatches + reason.toList.length
  counted : s.heldSlabs = [] → r.totalFrames = s.totalFrames + 1 ∧ r.truncFrames = s.truncFrames
  standby : r.Standby left h f.signature

section

variable {cb : Callbacks} {left : Residue} {h : TileHandler} {f : WholeFrame} {s : FrameHandler Reporting}
  {reason : Option RelatchReason}

private theorem reverse_optional (set : Bool) (events : List Event) :
    (if set then events else []).reverse = if set then events.reverse else [] := by
  split <;> rfl

theorem TakenUp.delivered (taken : TakenUp cb h f reason s (s.pullData cb left.ops f.sent.main))
    (writable : h.Writable) (fits : h.Matches f.coded) :
    Delivered cb left h f reason s (s.run cb left.ops f.packets) := by
  have split : s.run cb left.ops f.packets =
      (s.pullData cb left.ops f.sent.main).run cb left.ops f.sent.body := rfl
  rw [split]
  generalize s.pullData cb left.ops f.sent.main = v at taken
  obtain ⟨old, reports, n, t, cs, latched, ran, precincts⟩ := taken.started.run cb left writable fits f.whole f.carries
  rw [ran]
  refine ⟨?_, precincts, ?_, ?_, ?_⟩
  -- The latest event stands first in the trace.
  · have held : (v.extended cb f.sent.body t cs true).heldSlabs = f.packets.map Packet.slabIdx := by
      rw [extended, taken.started.held]
      rfl
    have given : (f.packets.map Packet.slabIdx).map Event.releaseSlab =
        f.packets.map fun p => .releaseSlab p.slabIdx := by
      rw [List.map_map]
      rfl
    have announced : (reason.toList.map Event.relatch).reverse = reason.toList.map Event.relatch := by
      cases reason <;> rfl
    rw [completed, held, given, extended, taken.trace, taken.started.bytes]
    simp only [WholeFrame.events, List.reverse_append, reverse_optional, announced, List.append_assoc,
      List.reverse_cons, List.reverse_nil, List.nil_append]
  · exact taken.relatches
  · intro released
    obtain ⟨total, trunc⟩ := taken.clean released
    exact ⟨congrArg (· + 1) total, trunc⟩
  · refine ⟨⟨⟨latched.1.restart, latched.2⟩, taken.signature, ?_⟩, rfl, rfl⟩
    -- The EOC block has released the slabs and restarted the tile handler.
    apply Settled.of_empty ⟨rfl, rfl, rfl, ?_⟩ rfl rfl
    change (⟨old.restart.restart, reports, n⟩ : Reporting) = _
    rw [TileHandler.restart_restart]
    rfl

end

/-! ### Any number of frames -/

theorem run_append {T : Type} (cb : Callbacks) (ops : TileOps T) (s : FrameHandler T) (packets packets' : List Packet) :
    s.run cb ops (packets ++ packets') = (s.run cb ops packets).run cb ops packets' := List.foldl_append ..

/-- Frames without anything between them. -/
structure AllDelivered (cb : Callbacks) (left : Residue) (h : TileHandler) (frames : List WholeFrame)
    (sig : BitVec 64) (s r : FrameHandler Reporting) : Prop where
  trace : r.trace = (frames.flatMap fun f => f.events cb none).reverse ++ s.trace
  precincts : ∃ fired : List Report,
    r.tileHndr.reports.map Report.seen = (fired.reverse ++ s.tileHndr.reports).map Report.seen ∧
    fired.map Report.crp = frames.flatMap (fun _ => h.tile.crp) ∧
    List.Forall₂ (fun rep (p : CodedPacket) => p.DeliveredIn rep.prec) fired (frames.flatMap WholeFrame.coded)
  counters : r.totalFrames = s.totalFrames + frames.length ∧ r.truncFrames = s.truncFrames ∧ r.relatches = s.relatches
  standby : r.Standby left h sig

section

variable {cb : Callbacks} {left : Residue} {h : TileHandler} {f : WholeFrame} {frames : List WholeFrame}
  {sig : BitVec 64} {s r r' : FrameHandler Reporting}

theorem AllDelivered.cons (released : s.heldSlabs = []) (first : Delivered cb left h f none s r)
    (later : AllDelivered cb left h frames sig r r') : AllDelivered cb left h (f :: frames) sig s r' := by
  have nothing : s.closing cb = [] := if_pos released
  obtain ⟨fired, seen, crp, delivered⟩ := first.precincts
  obtain ⟨fired', seen', crp', delivered'⟩ := later.precincts
  obtain ⟨total, trunc⟩ := first.counted released
  obtain ⟨total', trunc', relatches'⟩ := later.counters
  refine ⟨?_, ⟨fired ++ fired', ?_, ?_, ?_⟩, ⟨?_, trunc'.trans trunc, relatches'.trans first.relatches⟩, later.standby⟩
  · rw [later.trace, first.trace, nothing, List.nil_append, List.flatMap_cons, List.reverse_append, List.append_assoc]
  · rw [seen', List.map_append, seen, ← List.map_append, List.reverse_append, List.append_assoc]
  · rw [List.map_append, crp, crp', List.flatMap_cons]
  · rw [List.flatMap_cons]
    exact List.rel_append delivered delivered'
  · rw [total', total, List.length_cons]
    omega

/-- The escape hatch is never due between frames that went through. -/
theorem Standby.takenUp (standby : s.Standby left h sig) (known : f.signature = sig) :
    TakenUp cb h f none s (s.pullData cb left.ops f.sent.main) := by
  apply takenUp_of_known standby.settled standby.latched
  · exact .inr (standby.signature.trans known.symm)
  · have again := reopened cb standby.settled f.whole.main.2.1
    rw [(again.clean standby.released).2.2, standby.streak]
    rintro ⟨some, due⟩
    exact some (Nat.le_zero.mp due)

theorem Standby.allDelivered (standby : s.Standby left h sig) (writable : h.Writable)
    (fits : ∀ f ∈ frames, h.Matches f.coded) (known : ∀ f ∈ frames, f.signature = sig) :
    AllDelivered cb left h frames sig s (s.run cb left.ops (frames.flatMap WholeFrame.packets)) := by
  induction frames generalizing s with
  | nil => exact ⟨rfl, ⟨[], rfl, rfl, .nil⟩, ⟨rfl, rfl, rfl⟩, standby⟩
  | cons f frames ih =>
    have same := known f List.mem_cons_self
    have first : Delivered cb left h f none s _ := (standby.takenUp same).delivered writable (fits f List.mem_cons_self)
    have later := ih (same ▸ first.standby) (fun g member => fits g (List.mem_cons_of_mem _ member))
      (fun g member => known g (List.mem_cons_of_mem _ member))
    rw [List.flatMap_cons, run_append]
    exact later.cons standby.released first

end

/-! ### Anything between two frames -/

theorem latched_stable (left : Residue) (h : TileHandler) :
    left.ops.Stable fun t => h.Latched t.tile ∧ t.tile.ready = true where
  appendSignal t signal latched := ⟨latched.1.withQueue _, latched.2⟩
  parse t cs latched := by
    refine ⟨?_, (left.ops_lawful.parse t cs).trans latched.2⟩
    have related := (Walk.lockstep_latched h).parse (w := ⟨t.tile, cs, t.reports⟩) ⟨rfl, latched.1⟩
    simp only [Residue.ops, reportingOps]
    cases returned : (Walk.mk t.tile cs t.reports).parse with
    | none => exact latched.1
    | some r =>
      rw [returned] at related
      cases related with
      | some kept => exact kept.2.2
  flush t cs latched :=
    ⟨((Walk.lockstep_latched h).flush (w := ⟨t.tile, cs, t.reports⟩) ⟨rfl, latched.1⟩).2.2,
      (left.ops_lawful.flush t cs).trans latched.2⟩
  restart t latched := ⟨latched.1.restart, latched.2⟩

section

variable {cb : Callbacks} {left : Residue} {h : TileHandler} {sig : BitVec 64} {s : FrameHandler Reporting}

/-- No header of these packets is parsed anew. -/
abbrev Reuses (cb : Callbacks) (left : Residue) : FrameHandler Reporting → List Packet → Prop :=
  Throughout (FrameHandler.pullData cb left.ops) fun s p => (s.arrived cb left.ops p).parsesAnew left.ops p = false

theorem Attached.pullData (some : sig ≠ 0) {p : Packet} (attached : s.Attached left h sig)
    (reused : (s.arrived cb left.ops p).parsesAnew left.ops p = false) :
    (s.pullData cb left.ops p).Attached left h sig := by
  refine ⟨tile_pullData (latched_stable left h) left.ops_lawful reused attached.latched, ?_, ?_⟩
  · rw [geomSig_pullData left.ops_lawful reused (attached.signature ▸ some), attached.signature]
  · exact attached.settled.pullData left.ops_resting left.ops_lawful p

theorem Attached.run (some : sig ≠ 0) {damage : List Packet} (attached : s.Attached left h sig)
    (reused : s.Reuses cb left damage) : (s.run cb left.ops damage).Attached left h sig := by
  induction damage generalizing s with
  | nil => exact attached
  | cons p damage ih => exact ih (attached.pullData some reused.1) reused.2

theorem TakenUp.attached {f : WholeFrame} {reason : Option RelatchReason} {v : FrameHandler Reporting}
    (taken : TakenUp cb h f reason s v) (settled : v.Settled left.ops) : v.Attached left h f.signature := by
  obtain ⟨old, _, latched, tile⟩ := taken.started.tile
  refine ⟨?_, taken.signature, settled⟩
  rw [tile]
  exact ⟨latched.1.restart, latched.2⟩

end

/-! ### What `restart` walks over -/

/-- Before and behind each of the packets, everything that `restart` walks over is there. A
`restart` in the course of a packet finds the structure from before, or the one that the packet has
latched. -/
def StaysLive (cb : Callbacks) (left : Residue) : FrameHandler Reporting → List Packet → Prop :=
  Throughout (FrameHandler.pullData cb left.ops) fun s p =>
    s.tileHndr.tile.RestartLive ∧ (s.pullData cb left.ops p).tileHndr.tile.RestartLive

instance (cb : Callbacks) (left : Residue) (s : FrameHandler Reporting) (packets : List Packet) :
    Decidable (s.StaysLive cb left packets) :=
  inferInstanceAs (Decidable (Throughout _ _ _ _))

section

variable {cb : Callbacks} {left : Residue} {h : TileHandler} {sig : BitVec 64} {f : WholeFrame}
  {s : FrameHandler Reporting}

theorem StaysLive.last {packets : List Packet} (start : s.tileHndr.tile.RestartLive)
    (live : s.StaysLive cb left packets) : (s.run cb left.ops packets).tileHndr.tile.RestartLive := by
  induction packets generalizing s with
  | nil => exact start
  | cons p packets ih => exact ih live.1.2 live.2

theorem Attached.live (attached : s.Attached left h sig) (live : h.RestartLive) : s.tileHndr.tile.RestartLive :=
  attached.latched.1.live.mpr live

theorem Attached.staysLive (some : sig ≠ 0) {damage : List Packet} (attached : s.Attached left h sig)
    (live : h.RestartLive) (reused : s.Reuses cb left damage) : s.StaysLive cb left damage :=
  Throughout.of_invariant (Attached left h sig) attached (fun _ attached reused => attached.pullData some reused)
    (fun _ attached reused => ⟨attached.live live, (attached.pullData some reused).live live⟩) reused

/-- The packets behind the main packet bring no header. -/
theorem TakenUp.staysLive {reason : Option RelatchReason} (settled : s.Settled left.ops)
    (start : s.tileHndr.tile.RestartLive) (live : h.RestartLive)
    (taken : TakenUp cb h f reason s (s.pullData cb left.ops f.sent.main)) : s.StaysLive cb left f.packets := by
  have attached := taken.attached (settled.pullData left.ops_resting left.ops_lawful _)
  refine ⟨⟨start, attached.live live⟩, attached.staysLive f.signature_ne_zero live ?_⟩
  rw [Reuses, throughout_iff]
  intro before p after cut
  have member : p ∈ f.sent.body := by
    rw [cut]
    exact List.mem_append_right _ List.mem_cons_self
  simp [parsesAnew, (f.whole.body p member).1]

theorem Standby.staysLive {frames : List WholeFrame} (standby : s.Standby left h sig) (live : h.RestartLive)
    (writable : h.Writable) (fits : ∀ f ∈ frames, h.Matches f.coded) (known : ∀ f ∈ frames, f.signature = sig) :
    s.StaysLive cb left (frames.flatMap WholeFrame.packets) := by
  induction frames generalizing s with
  | nil => trivial
  | cons f frames ih =>
    have same := known f List.mem_cons_self
    have taken : TakenUp cb h f none s _ := standby.takenUp same
    have first := taken.delivered writable (fits f List.mem_cons_self)
    refine throughout_append.mpr ⟨taken.staysLive standby.settled (standby.live live) live, ?_⟩
    exact ih (same ▸ first.standby) (fun g member => fits g (List.mem_cons_of_mem _ member))
      (fun g member => known g (List.mem_cons_of_mem _ member))

end

end FrameHandler

/-! ### A small frame -/

theorem siz_legal : (0x51 : UInt8) ≠ 0x93 ∧ (0x51 : UInt8) ≠ 0xD9 := by decide
theorem cod_legal : (0x52 : UInt8) ≠ 0x93 ∧ (0x52 : UInt8) ≠ 0xD9 := by decide
theorem dfs_legal : (0x72 : UInt8) ≠ 0x93 ∧ (0x72 : UInt8) ≠ 0xD9 := by decide

/-- The payload of a marker segment in the header of a stream of five levels. -/
def squarePayload (start length : Nat) : List UInt8 := ((squareHeader 3 5 [0x55, 0x40]).drop start).take length

theorem squarePayload_fits {start length : Nat} (short : length + 2 < 2 ^ 16) :
    (squarePayload start length).length + 2 < 2 ^ 16 := by
  have most : (squarePayload start length).length ≤ length := List.length_take_le _ _
  omega

def squareSegments : List RawSegment :=
  [⟨0x51, squarePayload 6 45, siz_legal, squarePayload_fits (by decide)⟩,
   ⟨0x52, squarePayload 55 16, cod_legal, squarePayload_fits (by decide)⟩,
   ⟨0x72, squarePayload 75 5, dfs_legal, squarePayload_fits (by decide)⟩]

/-- The header, ten bytes of the body, and the rest with an ORDB signal for the sixth precinct. -/
def squareSent : Sent where
  main := packetOf 0 (0x80 :: List.replicate 7 0 ++ squareHeader 3 5 [0x55, 0x40]) false
  inner := [packetOf 1 (List.replicate 8 0 ++ (bodyBytes squareBody).take 10) false]
  last := packetOf 2 ([0, 0x80, 0, 0, 0, 0x10, 0, 15] ++ ((bodyBytes squareBody).drop 10 ++ [0xFF, 0xD9])) true

theorem squareSent_whole : squareSent.Whole where
  main := by decide +kernel
  body := by decide +kernel
  inner := by decide +kernel
  last := by decide +kernel
  few := by decide +kernel
  short := by decide +kernel

theorem squareSent_carries : squareSent.Carries (framed squareSegments []) squareBody [0xFF, 0xD9] where
  bytes := by decide +kernel
  fits := by decide +kernel
  truthful := by
    refine ⟨fun signal announced => ?_, fun signal announced => ?_, trivial⟩
    · have silent : (Packet.piece 82 (packetOf 1 (List.replicate 8 0 ++ (bodyBytes squareBody).take 10) false)).signal =
          none := by decide +kernel
      exact absurd (silent.symm.trans announced) (Option.some_ne_none signal).symm
    · have told : (Packet.piece 92 squareSent.last).signal = some ⟨93, 15⟩ := by decide +kernel
      obtain rfl := Option.some.inj (told.symm.trans announced)
      exact ⟨93, by decide +kernel, by decide +kernel⟩

/-- The small frame. -/
def squareWhole : WholeFrame :=
  ⟨squareSent, squareSegments, squareBody, [0xFF, 0xD9], squareSent_whole, squareSent_carries⟩

/-- An arena with something from before in the first code-block. -/
def litter : Residue where
  fill _ h := if h.littered.written = h.written then h.littered else h
  written _ h := by
    split
    next same => exact same
    · rfl

/-- What the header of the small frame is latched to, on a tile handler that can read it. -/
theorem squareWhole_latches {t : TileHandler}
    (found : ((t.reread squareWhole.segments).create.map fun r =>
      (r.1, decide (litter.fill 0 r.2 ≠ r.2 ∧ r.2.RestartLive ∧ r.2.Counted ∧ r.2.Writable ∧
        r.2.Matches squareWhole.coded))) = some (true, true)) :
    ∃ h, (t.reread squareWhole.segments).create = some (true, h) ∧ litter.fill 0 h ≠ h ∧ h.RestartLive ∧
      h.Counted ∧ h.Writable ∧ h.Matches squareWhole.coded := by
  obtain ⟨⟨ok, h⟩, created, found⟩ := Option.map_eq_some_iff.mp found
  obtain ⟨rfl, shown⟩ := Prod.mk.inj found
  exact ⟨h, created, of_decide_eq_true shown⟩

open FrameHandler

/-- Whole frames of one structure: the first header can be read and its structure `h` be built, such
that `restart` can walk over it, the later headers have the same geometry, and the bodies are
written for the structure. -/
structure Playable (h : TileHandler) (first : WholeFrame) (later : List WholeFrame) : Prop where
  readable : Throughout Markers.read Readable {} first.segments
  created : (TileHandler.reread {} first.segments).create = some (true, h)
  live : h.RestartLive
  counted : h.Counted
  writable : h.Writable
  same : ∀ f ∈ later, geometryOf f.segments = geometryOf first.segments
  fits : ∀ f ∈ first :: later, h.Matches f.coded

/-- The frames have gone through a handler that was new. The callbacks have come exactly as they
should, each frame was reported as intact, each precinct of each frame was reported once, in the
order of the list and with what was written for it, no header was latched again, every slab has
been given back, and the last `restart` has found all that it walks over. -/
structure WentThrough (cb : Callbacks) (h : TileHandler) (frames : List WholeFrame) (s : FrameHandler Reporting) :
    Prop where
  trace : s.trace.reverse = frames.flatMap fun f => f.events cb none
  places : s.tileHndr.reports.reverse.map Report.crp = frames.flatMap fun _ => h.tile.crp
  precincts : List.Forall₂ (fun rep (p : CodedPacket) => p.DeliveredIn rep.prec) s.tileHndr.reports.reverse
    (frames.flatMap WholeFrame.coded)
  counters : s.totalFrames = frames.length ∧ s.truncFrames = 0 ∧ s.relatches = 0
  released : s.heldSlabs = []
  live : s.tileHndr.tile.RestartLive

private theorem reports_of_seen {reports fired : List Report} (seen : reports.map Report.seen = fired.map Report.seen) :
    reports.map Report.crp = fired.map Report.crp ∧ ∀ coded : List CodedPacket,
      List.Forall₂ (fun rep (p : CodedPacket) => p.DeliveredIn rep.prec) fired coded →
        List.Forall₂ (fun rep (p : CodedPacket) => p.DeliveredIn rep.prec) reports coded := by
  have places (l : List Report) : l.map Report.crp = (l.map Report.seen).map Prod.fst := by
    rw [List.map_map]
    rfl
  have blocks (l : List Report) (ps : List CodedPacket) :
      List.Forall₂ (fun rep (p : CodedPacket) => p.DeliveredIn rep.prec) l ps ↔
        List.Forall₂ (fun (x : Crp × Prec) (p : CodedPacket) => p.DeliveredIn x.2) (l.map Report.seen) ps := by
    rw [List.forall₂_map_left_iff]
    rfl
  constructor
  · rw [places, seen, ← places]
  · intro coded delivered
    rw [blocks, seen, ← blocks]
    exact delivered

section

variable {first : WholeFrame} {later : List WholeFrame} {h : TileHandler}

/-- What the arena held does not make a difference to what can be played. -/
theorem Playable.filled (playable : Playable h first later) (left : Residue) :
    (left.fill 0 h).RestartLive ∧ (left.fill 0 h).Writable ∧
      ∀ f ∈ first :: later, (left.fill 0 h).Matches f.coded := by
  have kept := left.written 0 h
  exact ⟨TileHandler.restartLive_of_written kept playable.live, playable.writable.of_written kept,
    fun f member => (playable.fits f member).of_written kept⟩

/-- The first header is parsed, for nothing is latched. -/
theorem Playable.takenUp (playable : Playable h first later) (cb : Callbacks) (left : Residue) (relatchK : Nat) :
    TakenUp cb (left.fill 0 h) first none (FrameHandler.new {} relatchK)
      ((FrameHandler.new {} relatchK).pullData cb left.ops first.sent.main) := by
  have settled : (FrameHandler.new {} relatchK).Settled left.ops := Settled.new rfl relatchK
  have opening : FirstChunk _ _ ((FrameHandler.new {} relatchK).arrived cb left.ops first.sent.main) :=
    settled.arrived left.ops_resting first.whole.main.2.1
  have unready : left.ops.isReady
      ((FrameHandler.new {} relatchK).arrived cb left.ops first.sent.main).tileHndr = false := by
    rw [opening.tile]
    rfl
  have anew : ((FrameHandler.new {} relatchK).arrived cb left.ops first.sent.main).parsesAnew left.ops
      first.sent.main = true := by
    simp [parsesAnew, unready, first.whole.main.1]
  have taken := takenUp_of_anew settled anew playable.readable playable.created playable.counted
  rwa [reasonOf, unready, if_neg Bool.false_ne_true] at taken

theorem Playable.known (playable : Playable h first later) : ∀ f ∈ later, f.signature = first.signature :=
  fun f member => WholeFrame.signature_congr (playable.same f member)

theorem restartLive_new (relatchK : Nat) :
    (FrameHandler.new ({} : Reporting) relatchK).tileHndr.tile.RestartLive := by
  intro tile member
  cases member

theorem Playable.staysLive (playable : Playable h first later) (cb : Callbacks) (left : Residue) (relatchK : Nat) :
    (FrameHandler.new {} relatchK).StaysLive cb left ((first :: later).flatMap WholeFrame.packets) := by
  have taken := playable.takenUp cb left relatchK
  obtain ⟨live, writable, fits⟩ := playable.filled left
  have start := taken.delivered writable (fits first List.mem_cons_self)
  refine throughout_append.mpr ⟨taken.staysLive (Settled.new rfl relatchK) (restartLive_new relatchK) live, ?_⟩
  exact start.standby.staysLive live writable (fun f member => fits f (List.mem_cons_of_mem _ member)) playable.known

theorem Playable.wentThrough (playable : Playable h first later) (cb : Callbacks) (left : Residue) (relatchK : Nat) :
    WentThrough cb h (first :: later) ((FrameHandler.new {} relatchK).run cb left.ops
      ((first :: later).flatMap WholeFrame.packets)) := by
  obtain ⟨live, writable, fits⟩ := playable.filled left
  have start := (playable.takenUp cb left relatchK).delivered writable (fits first List.mem_cons_self)
  -- The later headers are known by their signature.
  have rest : AllDelivered cb left _ later first.signature _ _ := start.standby.allDelivered writable
    (fun f member => fits f (List.mem_cons_of_mem _ member)) playable.known
  have all := rest.cons rfl start
  rw [← run_append, ← List.flatMap_cons] at all
  generalize (FrameHandler.new {} relatchK).run cb left.ops ((first :: later).flatMap WholeFrame.packets) = s
    at all
  obtain ⟨fired, seen, crp, delivered⟩ := all.precincts
  rw [TileHandler.crp_of_written (left.written 0 h)] at crp
  have reported : s.tileHndr.reports.reverse.map Report.seen = fired.map Report.seen := by
    have empty : fired.reverse ++ (FrameHandler.new ({} : Reporting) relatchK).tileHndr.reports = fired.reverse :=
      List.append_nil _
    rw [List.map_reverse, seen, empty, List.map_reverse, List.reverse_reverse]
  obtain ⟨places, blocks⟩ := reports_of_seen reported
  refine ⟨?_, places.trans crp, blocks _ delivered, ⟨?_, all.counters.2⟩, all.standby.released,
    all.standby.live live⟩
  · rw [all.trace, List.reverse_append, List.reverse_reverse]
    exact List.nil_append _
  · rw [all.counters.1]
    exact Nat.zero_add _

end

/-- The small frame, any number of times. -/
theorem squareWhole_playable (n : Nat) : ∃ h, litter.fill 0 h ≠ h ∧
    Playable h squareWhole (List.replicate n squareWhole) := by
  obtain ⟨h, created, other, live, counted, writable, fits⟩ := squareWhole_latches (t := {}) (by decide +kernel)
  have each : ∀ f ∈ squareWhole :: List.replicate n squareWhole, f = squareWhole := by
    intro f member
    rcases List.mem_cons.mp member with here | later
    · exact here
    · exact List.eq_of_mem_replicate later
  refine ⟨h, other, by decide +kernel, created, live, counted, writable, ?_, ?_⟩
  · intro f member
    rw [each f (List.mem_cons_of_mem _ member)]
  · intro f member
    rw [each f member]
    exact fits

/-- A header of another packet order. -/
def otherHeader : Packet := completeHeader (squareHeader 5 5 [0x55, 0x40])

/-- A handler that has latched it. -/
def otherLatched : FrameHandler Reporting := (FrameHandler.new {} 4).run {} litter.ops [otherHeader]

/-- A body packet, a gap before the last one, and a second frame that breaks off. -/
def brokenOff : List Packet := squareSent.inner ++ [{ squareSent.last with gap := true }, squareSent.main]

def afterBreak : FrameHandler Reporting :=
  ((FrameHandler.new {} 4).pullData {} litter.ops squareSent.main).run {} litter.ops brokenOff

end RtpDecoder.Frame
