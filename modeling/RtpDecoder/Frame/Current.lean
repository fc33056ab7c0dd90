import RtpDecoder.Frame.Calls
import RtpDecoder.Header.Geometry
import RtpDecoder.Lib.Throughout

/-!
# The structure of the current header

A complete main header on a latched stream makes use of the structure that an earlier header
was built from. The signature tells whether the two have the same geometry segments, as long
as it is a hash of the segments: a header that the parser accepts although its declared
lengths lead nowhere is latched with the signature 0, and the signature of the next header is
adopted without a look at its geometry.
-/

namespace RtpDecoder.Frame

open RtpDecoder.Parser (TileHandler Codestream chainBytes)
open RtpDecoder.Header (Geometry geometry geometrySignature Conforms StandsAt)

/-- The header of the latest `create`, and its outcome. -/
def latestCreate (calls : List Call) : Option (List UInt8 × Bool) :=
  calls.findSome? fun
    | .create header ok => some (header, ok)
    | _ => none

def geometrySegments (mh : List UInt8) : Option (List (List UInt8)) := (geometry mh).map Geometry.segments

namespace FrameHandler

variable (cb : Callbacks)

/-- The structure in use was built from a header with the geometry segments of this packet's,
the reader stands behind this packet's header, and `geom_sig_` is its signature. -/
structure Current (p : Packet) (s : FrameHandler (Logged TileHandler)) : Prop where
  ready : s.tileHndr.tile.ready = true
  built : ∃ header, latestCreate s.tileHndr.calls = some (header, true) ∧
    geometrySegments header = geometrySegments p.j2kBytes
  position : (geometry p.j2kBytes).map Geometry.sodEnd = some s.cs.pos
  signature : s.geomSig = (geometrySignature p.j2kBytes).1

/-- A complete header that is parsed anew and accepted declares of each segment the length that
its function takes; and `sod_off` has 32 bits. -/
def HeaderConforms (s : FrameHandler (Logged TileHandler)) (p : Packet) : Prop :=
  let u := s.arrived cb tileOps.logged p
  2 ≤ p.mh → p.size < 2 ^ 32 ∧ (u.parsesAnew tileOps.logged p = true → u.builtBy tileOps.logged p = true →
    Conforms u.tileHndr.tile.markers p.j2kBytes)

instance (s : FrameHandler (Logged TileHandler)) (p : Packet) : Decidable (HeaderConforms cb s p) :=
  inferInstanceAs (Decidable (_ → _ ∧ _))

/-! ### What the latched signature stands for -/

/-- A ready structure was built from the well-formed header of a packet, and `geom_sig_` is the
signature of that header. -/
def Built (packets : List Packet) (s : FrameHandler (Logged TileHandler)) : Prop :=
  s.tileHndr.tile.ready = true → ∃ q ∈ packets, ∃ g,
    latestCreate s.tileHndr.calls = some (q.j2kBytes, true) ∧
    geometry q.j2kBytes = some g ∧ s.geomSig = (geometrySignature q.j2kBytes).1

section

variable {cb} {packets : List Packet} {s s' u : FrameHandler (Logged TileHandler)}

private theorem Built.congr (built : Built packets s) (ready : s'.tileHndr.tile.ready = s.tileHndr.tile.ready)
    (calls : latestCreate s'.tileHndr.calls = latestCreate s.tileHndr.calls)
    (sig : s'.geomSig = s.geomSig) : Built packets s' := by
  simp only [Built, ready, calls, sig]
  exact built

private theorem Built.of_account (built : Built packets s)
    (same : s'.account tileOps overlookAll = s.account tileOps overlookAll) : Built packets s' :=
  built.congr (congrArg Account.ready same) (congrArg (fun a => latestCreate a.calls) same)
    (congrArg Account.geomSig same)

private theorem Built.bodyPacket (built : Built packets u) (p : Packet) :
    Built packets (u.bodyPacket cb tileOps.logged p) := by
  have same : (u.bodyPacket cb tileOps.logged p).account tileOps overlookAll = _ :=
    bodyPacket_account quiet_overlookAll tileOps_lawful u p
  have parses : latestCreate (u.bodyCalls cb tileOps p ++ u.tileHndr.calls) = latestCreate u.tileHndr.calls := by
    simp only [bodyCalls, parseCalls]
    split
    · split <;> rfl
    · rfl
  exact built.congr (congrArg Account.ready same)
    ((congrArg (fun a => latestCreate a.calls) same).trans parses) (congrArg Account.geomSig same)

private theorem Built.endFrame (built : Built packets u) : Built packets (u.endFrame cb tileOps.logged) := by
  have same : (u.endFrame cb tileOps.logged).account tileOps overlookAll = _ :=
    endFrame_account quiet_overlookAll tileOps_lawful u
  have flushes : latestCreate (u.flushCalls tileOps ++ u.tileHndr.calls) = latestCreate u.tileHndr.calls := by
    simp only [flushCalls]
    split <;> rfl
  exact built.congr (congrArg Account.ready same)
    ((congrArg (fun a => latestCreate a.calls) same).trans flushes) (congrArg Account.geomSig same)

private theorem signature_ne_zero {mh : List UInt8} {g : Geometry} (formed : geometry mh = some g) :
    (geometrySignature mh).1 ≠ 0 := by
  rw [Header.geometrySignature_eq, formed]
  exact Header.segmentsHash_ne_zero _ _

private theorem geometry_of_signature {mh : List UInt8} (signed : (geometrySignature mh).1 ≠ 0) :
    ∃ g, geometry mh = some g ∧ (geometrySignature mh).2 = BitVec.ofNat 32 g.sodEnd := by
  rw [Header.geometrySignature_eq] at signed ⊢
  cases formed : geometry mh with
  | none =>
    rw [formed] at signed
    exact absurd rfl signed
  | some g => exact ⟨g, rfl, rfl⟩

end

/-! ### The header of a main packet -/

/-- What `parse_main_header` of the tile handler says of an accepted header. -/
private theorem parseMainHeader_accepted {h : TileHandler} {cs : Codestream}
    (accepted : (tileOps.parseMainHeader h cs).1 ≠ 0) :
    ∃ m, Header.parseMainHeader h.markers cs =
      some ((tileOps.parseMainHeader h cs).1, m, (tileOps.parseMainHeader h cs).2.2) := by
  simp only [tileOps] at accepted ⊢
  cases parsed : Header.parseMainHeader h.markers cs with
  | none =>
    rw [parsed] at accepted
    exact absurd rfl accepted
  | some r => exact ⟨r.2.1, rfl⟩

private theorem standsAt_header {p : Packet} {cs : Codestream} (alone : cs.chunks = [p.chunk])
    (nonempty : p.j2kBytes ≠ []) : StandsAt p.j2kBytes 0 (cs.reset 0) := by
  have rewound : cs.reset 0 = cs.rewound := by
    simp [Codestream.reset, Codestream.rewound, Parser.hop, alone, Packet.chunk, nonempty]
  have bytes : chainBytes cs.chunks = p.j2kBytes := by simp [chainBytes, alone, Packet.chunk]
  have each : ∀ c ∈ cs.chunks, c.bytes ≠ [] := by simpa [alone, Packet.chunk] using nonempty
  rw [rewound]
  exact ⟨Codestream.rewound_onChain each, bytes, (Nat.zero_min _).symm⟩

private theorem nonempty_of_accepted {p : Packet} {h : TileHandler} {cs : Codestream} (alone : cs.chunks = [p.chunk])
    (accepted : (tileOps.parseMainHeader h (cs.reset 0)).1 ≠ 0) : p.j2kBytes ≠ [] := by
  intro empty
  have word : (cs.reset 0).getWord.1 = 0 := by
    simp [Codestream.reset, Parser.hop, alone, Packet.chunk, empty, Codestream.getWord, Codestream.getByte]
  apply accepted
  simp only [tileOps, Header.parseMainHeader, word]
  rfl

/-- The signature of a structure that is ready is not adopted from a later header. -/
private theorem geomSig_of_known {packets : List Packet} {u : FrameHandler (Logged TileHandler)} {sig : BitVec 64}
    (built : Built packets u) (ready : u.tileHndr.tile.ready = true) (known : u.geomSig = 0 ∨ u.geomSig = sig) :
    u.geomSig = sig := by
  obtain ⟨q, _, g, _, formed, latched⟩ := built ready
  exact known.resolve_left (latched ▸ signature_ne_zero formed)

private theorem current_resumed {packets : List Packet} {p : Packet} {u : FrameHandler (Logged TileHandler)}
    (distinct : ∀ q ∈ packets, (geometrySignature q.j2kBytes).1 = (geometrySignature p.j2kBytes).1 →
      geometrySegments q.j2kBytes = geometrySegments p.j2kBytes)
    (short : p.size < 2 ^ 32) (built : Built packets u)
    (ready : u.tileHndr.tile.ready = true) (signed : (geometrySignature p.j2kBytes).1 ≠ 0)
    (same : u.geomSig = (geometrySignature p.j2kBytes).1) :
    Current p (resume (geometrySignature p.j2kBytes).2
      { u with geomSig := (geometrySignature p.j2kBytes).1 }) := by
  obtain ⟨q, member, _, created, _, latched⟩ := built ready
  obtain ⟨g, formed, sod⟩ := geometry_of_signature signed
  obtain ⟨start, stop⟩ := Header.geometry_inside formed
  refine ⟨ready, ⟨_, created, distinct q member (latched.symm.trans same)⟩, ?_, rfl⟩
  have size : p.j2kBytes.length = p.size := by simp [Packet.j2kBytes]
  have sodNat : (geometrySignature p.j2kBytes).2.toNat = g.sodEnd := by
    rw [sod, BitVec.toNat_ofNat, Nat.mod_eq_of_lt (by omega)]
  have found : (geometrySignature p.j2kBytes).2 ≠ 0 := by
    intro zero
    have none_found : 0 = g.sodEnd := (congrArg BitVec.toNat zero).symm.trans sodNat
    omega
  have place : (u.cs.reset (geometrySignature p.j2kBytes).2).pos = g.sodEnd := by
    rw [Codestream.reset_eq, Codestream.pos_advance, sodNat]
    exact Nat.zero_add _
  simp only [resume, if_neg found, formed, Option.map_some, place]

private theorem current_latched {p : Packet} {v : FrameHandler (Logged TileHandler)}
    (alone : v.cs.chunks = [p.chunk]) (unready : v.tileHndr.tile.ready = false)
    (accepted : v.headerAccepted tileOps.logged = true)
    (conforms : Conforms v.tileHndr.tile.markers p.j2kBytes) :
    (∃ g, geometry p.j2kBytes = some g) ∧
    latestCreate (v.structureCreated tileOps.logged).tileHndr.calls = some (p.j2kBytes, true) ∧
    Current p { v.structureCreated tileOps.logged with
      isPassedHeader := true, geomSig := (geometrySignature p.j2kBytes).1, parseFailStreak := 0 } := by
  simp only [headerAccepted, Bool.and_eq_true, decide_eq_true_eq] at accepted
  obtain ⟨found, created⟩ := accepted
  have bytes : chainBytes (v.cs.reset 0).chunks = p.j2kBytes := by simp [chainBytes, alone, Packet.chunk]
  have latest : latestCreate (v.structureCreated tileOps.logged).tileHndr.calls = some (p.j2kBytes, true) := by
    have call : latestCreate (v.structureCreated tileOps.logged).tileHndr.calls =
        some (chainBytes (v.cs.reset 0).chunks, (tileOps.logged.create (v.headerParsed tileOps.logged).tileHndr).1) :=
      rfl
    rw [call, bytes, created]
  have here := standsAt_header alone (nonempty_of_accepted alone found)
  obtain ⟨m, parsed⟩ := parseMainHeader_accepted found
  obtain ⟨g, formed, place⟩ := Header.geometry_of_conforms here conforms parsed found
  refine ⟨⟨g, formed⟩, latest, ?_, ⟨_, latest, rfl⟩, ?_, rfl⟩
  · have parsedUnready : tileOps.isReady (v.headerParsed tileOps.logged).tileHndr.tile = false :=
      (tileOps_lawful.parseMainHeader v.tileHndr.tile _).trans unready
    exact (tileOps_lawful.create _ parsedUnready).trans created
  · rw [formed, Option.map_some]
    exact congrArg some place.symm

/-- Before a header is parsed anew the structure of another geometry is torn down. -/
private theorem unlatched_unready (u : FrameHandler (Logged TileHandler)) (sig : BitVec 64) :
    (u.unlatched tileOps.logged sig).tileHndr.tile.ready = false := by
  simp only [unlatched]
  split
  · rfl
  next unready => exact Bool.eq_false_iff.mpr unready

private theorem unlatched_kept (u : FrameHandler (Logged TileHandler)) (sig : BitVec 64) :
    (u.unlatched tileOps.logged sig).isPassedHeader = u.isPassedHeader ∧
      (u.unlatched tileOps.logged sig).cs = u.cs ∧
      (u.unlatched tileOps.logged sig).tileHndr.tile.markers = u.tileHndr.tile.markers := by
  simp only [unlatched]
  split <;> exact ⟨rfl, rfl, rfl⟩

/-- What a main packet keeps, and what it makes current. -/
private theorem main_current {packets : List Packet} {p : Packet} {u : FrameHandler (Logged TileHandler)}
    {r : Bool × FrameHandler (Logged TileHandler)}
    (distinct : ∀ q ∈ packets, (geometrySignature q.j2kBytes).1 = (geometrySignature p.j2kBytes).1 →
      geometrySegments q.j2kBytes = geometrySegments p.j2kBytes)
    (member : p ∈ packets) (idle : u.isPassedHeader = false) (alone : u.cs.chunks = [p.chunk])
    (conforms : 2 ≤ p.mh → p.size < 2 ^ 32 ∧ (u.parsesAnew tileOps.logged p = true →
      u.builtBy tileOps.logged p = true → Conforms u.tileHndr.tile.markers p.j2kBytes))
    (built : Built packets u) (step : MainStep cb tileOps.logged p u r) :
    Built packets r.2 ∧ (2 ≤ p.mh → r.2.isPassedHeader = true → Current p r.2) := by
  -- A main packet finds no frame tracked, so a case that tracks none has nothing to show.
  have tracked {s : FrameHandler (Logged TileHandler)} {P : Prop} (same : s.isPassedHeader = u.isPassedHeader)
      (passed : s.isPassedHeader = true) : P :=
    absurd (same.symm.trans passed) (Bool.eq_false_iff.mp idle)
  have kept := unlatched_kept u
  have parsedUnready (sig : BitVec 64) : tileOps.isReady
      ((u.unlatched tileOps.logged sig).headerParsed tileOps.logged).tileHndr.tile = false :=
    (tileOps_lawful.parseMainHeader _ _).trans (unlatched_unready u sig)
  cases step with
  | refused reused ready malformed =>
    exact ⟨built.congr rfl rfl rfl, fun _ passed => tracked rfl passed⟩
  | resumed reused ready signed known =>
    have same := geomSig_of_known built ready known
    exact ⟨built.congr rfl rfl same.symm,
      fun complete _ => current_resumed distinct (conforms complete).1 built ready signed same⟩
  | continued reused incomplete ready =>
    exact ⟨built.congr rfl rfl rfl, fun complete => absurd complete (Nat.not_le.mpr incomplete)⟩
  | collected reused incomplete unready =>
    exact ⟨built.congr rfl rfl rfl, fun _ passed => tracked rfl passed⟩
  | unparsed anew same failed =>
    subst same
    exact ⟨fun ready => absurd ready (Bool.eq_false_iff.mp (parsedUnready _)),
      fun _ passed => tracked (kept _).1 passed⟩
  | uncreated anew same parsed failed =>
    subst same
    have created := (tileOps_lawful.create _ (parsedUnready _)).trans failed
    exact ⟨fun ready => absurd ready (Bool.eq_false_iff.mp created),
      fun _ passed => tracked (kept _).1 passed⟩
  -- Only here the structure changes, to that of the header.
  | latched anew same accepted =>
    have complete : 2 ≤ p.mh := by
      simp only [parsesAnew, Bool.and_eq_true, decide_eq_true_eq] at anew
      exact anew.1
    subst same
    have conforming := (conforms complete).2 anew accepted
    obtain ⟨⟨g, formed⟩, latest, current⟩ := current_latched ((congrArg Codestream.chunks (kept _).2.1).trans alone)
      (unlatched_unready u _) accepted ((kept _).2.2 ▸ conforming)
    rw [announce_eq]
    exact ⟨fun _ => ⟨p, member, g, latest, formed, rfl⟩,
      fun _ _ => ⟨current.ready, current.built, current.position, current.signature⟩⟩

private theorem pullData_current {packets : List Packet} {p : Packet} {s : FrameHandler (Logged TileHandler)}
    (distinct : ∀ q ∈ packets, (geometrySignature q.j2kBytes).1 = (geometrySignature p.j2kBytes).1 →
      geometrySegments q.j2kBytes = geometrySegments p.j2kBytes)
    (member : p ∈ packets) (holds : s.Holds) (built : Built packets s) (conforms : HeaderConforms cb s p) :
    Built packets (s.pullData cb tileOps.logged p) ∧
    (2 ≤ p.mh → (s.pullData cb tileOps.logged p).isPassedHeader = true →
      Current p (s.pullData cb tileOps.logged p)) := by
  have worked : Built packets ((s.entered cb tileOps.logged p).work cb tileOps.logged p).2 ∧
      (2 ≤ p.mh → ((s.entered cb tileOps.logged p).work cb tileOps.logged p).2.isPassedHeader = true →
        Current p ((s.entered cb tileOps.logged p).work cb tileOps.logged p).2) := by
    have entered : Built packets (s.entered cb tileOps.logged p) :=
      built.of_account (entered_account quiet_overlookAll tileOps_lawful s p)
    have way := work_cases cb tileOps.logged tileOps_lawful.logged p (s.entered cb tileOps.logged p)
    generalize (s.entered cb tileOps.logged p).work cb tileOps.logged p = r at way ⊢
    cases way with
    | skipped body skips =>
      exact ⟨entered.of_account (skipBody_account quiet_overlookAll tileOps_lawful _ p),
        fun complete => by omega⟩
    | body body passed sane => exact ⟨entered.bodyPacket p, fun complete => by omega⟩
    | main main step =>
      have arrived : Built packets (s.arrived cb tileOps.logged p) :=
        built.of_account (arrived_account quiet_overlookAll tileOps_lawful s p)
      obtain ⟨idle, _, alone⟩ : (s.arrived cb tileOps.logged p).isPassedHeader = false ∧ _ ∧ _ :=
        (holds.entered p).opened_fresh p
      exact main_current cb distinct member idle alone conforms arrived step
  rw [pullData_eq, close]
  split
  · exact ⟨worked.1.endFrame, fun _ passed => Bool.noConfusion passed⟩
  · exact worked

end FrameHandler

open FrameHandler in
/-- In every run whose accepted headers conform, a complete header that a frame is tracked by has
the geometry of the structure in use, provided that no two headers of the run with different
geometry segments have one signature. -/
theorem structure_current (cb : Callbacks) (relatchK : Nat) (packets : List Packet)
    (distinct : ∀ p ∈ packets, ∀ q ∈ packets,
      (geometrySignature q.j2kBytes).1 = (geometrySignature p.j2kBytes).1 →
        geometrySegments q.j2kBytes = geometrySegments p.j2kBytes)
    (conforms : Throughout (pullData cb tileOps.logged) (HeaderConforms cb)
      (.new { tile := {} } relatchK) packets) :
    Throughout (pullData cb tileOps.logged)
      (fun s p => 2 ≤ p.mh → (s.pullData cb tileOps.logged p).isPassedHeader = true →
        Current p (s.pullData cb tileOps.logged p))
      (.new { tile := {} } relatchK) packets := by
  refine conforms.of_invariant (fun s => s.Holds ∧ Built packets s) ?_ ?_ ?_
  · exact ⟨.new _ _, fun ready => Bool.noConfusion ready⟩
  · intro s p member inv met
    exact ⟨inv.1.pullData tileOps_lawful.logged p,
      (pullData_current cb (distinct p member) member inv.1 inv.2 met).1⟩
  · intro s p member inv met
    exact (pullData_current cb (distinct p member) member inv.1 inv.2 met).2

/-- A header that builds the structure, the same header again, and one with another geometry. -/
def repeatedThenOther : List Packet :=
  [completeHeader (Parser.streamHeader 1 0x40), completeHeader (Parser.streamHeader 1 0x40),
   completeHeader (Parser.streamHeader 2 0x50)]

open FrameHandler in
theorem structure_current_repeatedThenOther :
    Throughout (pullData {} tileOps.logged)
      (fun s p => 2 ≤ p.mh → (s.pullData {} tileOps.logged p).isPassedHeader = true →
        Current p (s.pullData {} tileOps.logged p))
      (.new { tile := {} } 4) repeatedThenOther ∧
    (run {} tileOps.logged (.new { tile := {} } 4) repeatedThenOther).isPassedHeader = true ∧
    (run {} tileOps.logged (.new { tile := {} } 4) repeatedThenOther).tileHndr.calls.length = 2 :=
  ⟨structure_current {} 4 repeatedThenOther (by decide +kernel) (by decide +kernel),
    by decide +kernel, by decide +kernel⟩

/-- A header whose QCD declares more bytes than there are, which `parse_main_header` does not
look at. -/
def unsignedHeader : List UInt8 := (Parser.streamHeader 1 0x40).set 77 0xFF

open FrameHandler in
/-- The stream is built from it, and then another header finds its own signature adopted. -/
theorem structure_stale_unsignedHeader :
    let other := completeHeader (Parser.streamHeader 2 0x50)
    let s := run {} tileOps.logged (.new { tile := {} } 4) [completeHeader unsignedHeader]
    (geometrySignature unsignedHeader).1 ≠ (geometrySignature other.j2kBytes).1 ∧
    s.isPassedHeader = true ∧ s.geomSig = 0 ∧
    (s.pullData {} tileOps.logged other).isPassedHeader = true ∧
    (s.pullData {} tileOps.logged other).geomSig = (geometrySignature other.j2kBytes).1 ∧
    (s.pullData {} tileOps.logged other).tileHndr.calls = [.create unsignedHeader true] ∧
    (∃ g, geometry other.j2kBytes = some g) ∧ geometry unsignedHeader = none ∧
    ¬ Current other (s.pullData {} tileOps.logged other) := by
  intro other s
  obtain ⟨different, passed, unsigned, passed', adopted, calls⟩ :
      (geometrySignature unsignedHeader).1 ≠ (geometrySignature other.j2kBytes).1 ∧
      s.isPassedHeader = true ∧ s.geomSig = 0 ∧
      (s.pullData {} tileOps.logged other).isPassedHeader = true ∧
      (s.pullData {} tileOps.logged other).geomSig = (geometrySignature other.j2kBytes).1 ∧
      (s.pullData {} tileOps.logged other).tileHndr.calls = [.create unsignedHeader true] := by
    decide +kernel
  have formed : (geometry other.j2kBytes).isSome = true := by decide +kernel
  have malformed : geometry unsignedHeader = none := by decide +kernel
  obtain ⟨g, found⟩ := Option.isSome_iff_exists.mp formed
  refine ⟨different, passed, unsigned, passed', adopted, calls, ⟨g, found⟩, malformed, ?_⟩
  intro current
  obtain ⟨header, latest, segments⟩ := current.built
  rw [calls] at latest
  cases latest
  simp only [geometrySegments, malformed, found, Option.map_none, Option.map_some] at segments
  cases segments

end RtpDecoder.Frame
