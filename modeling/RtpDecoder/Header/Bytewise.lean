import RtpDecoder.Header.Walk

/-!
# Headers are read by the byte

Packet headers are read bit by bit, main headers byte by byte. So `parse_main_header` leaves the
bit buffer of the reader as it is, and behind an accepted header the body can be read at once.
-/

namespace RtpDecoder.Header

open RtpDecoder.Parser (Chunk Codestream chainBytes)

/-- What `get_bit` has taken from the chain and not given out yet. -/
def bitBuffer (s : Codestream) : Nat × UInt8 := (s.bits, s.tmp)

/-! ### The functions of the segments -/

theorem bitBuffer_getByte (s : Codestream) : bitBuffer s.getByte.2 = bitBuffer s := by
  simp only [Codestream.getByte]
  split
  · rfl
  · split <;> rfl

theorem bitBuffer_getWord (s : Codestream) : bitBuffer s.getWord.2 = bitBuffer s :=
  (bitBuffer_getByte _).trans (bitBuffer_getByte s)

theorem keeps_byte : byte.Keeps bitBuffer := by
  intro s t a returned
  cases returned
  exact bitBuffer_getByte s

theorem keeps_word : word.Keeps bitBuffer := by
  intro s t a returned
  cases returned
  exact bitBuffer_getWord s

theorem keeps_dword : dword.Keeps bitBuffer := by
  intro s t a returned
  obtain ⟨_, behind⟩ := Prod.mk.inj (Option.some.inj returned)
  have twice : s.getDword.2 = s.getWord.2.getWord.2 := rfl
  rw [← behind, twice, bitBuffer_getWord, bitBuffer_getWord]

theorem keeps_times {α : Type} {p : HeaderParser α} (each : p.Keeps bitBuffer) (n : Nat) :
    (times n p).Keeps bitBuffer :=
  Advancing.keeps_mapM (fun _ => each) _

open Advancing (keeps_pure keeps_fail keeps_mapM)

theorem keeps_parseSIZ : parseSIZ.Keeps bitBuffer := by
  have frame : sizFrame.Keeps bitBuffer := by
    unfold sizFrame
    iterate 2 apply keeps_word.bind; intro _
    iterate 8 apply keeps_dword.bind; intro _
    exact keeps_word.bind fun _ => keeps_pure _
  have component : sizComponent.Keeps bitBuffer :=
    keeps_byte.bind fun _ => keeps_byte.bind fun _ => keeps_byte.bind fun _ => keeps_pure _
  apply frame.bind
  intro frame
  split
  · exact keeps_pure _
  · exact (keeps_times component _).bind fun _ => keeps_pure _

theorem keeps_styleTail (rsiz n : Nat) : (styleTail rsiz n).Keeps bitBuffer := by
  have fixed : (styleBytes rsiz).Keeps bitBuffer := by
    unfold styleBytes
    iterate 2 apply keeps_byte.bind; intro _
    dsimp only
    split
    · exact keeps_word.bind fun _ => keeps_pure _
    · exact keeps_pure _
  exact fixed.bind fun _ => (keeps_times keeps_byte n).bind fun _ => keeps_pure _

theorem keeps_parseCOD (rsiz : Nat) : (parseCOD rsiz).Keeps bitBuffer := by
  have head : codHead.Keeps bitBuffer := by
    unfold codHead
    apply keeps_word.bind; intro _
    iterate 2 apply keeps_byte.bind; intro _
    apply keeps_word.bind; intro _
    iterate 4 apply keeps_byte.bind; intro _
    exact keeps_pure _
  apply head.bind
  intro _
  dsimp only
  split
  · exact keeps_fail
  split
  · exact keeps_pure _
  · exact (keeps_styleTail _ _).bind fun _ => keeps_pure _

theorem keeps_parseCOC (rsiz : Nat) : (parseCOC rsiz).Keeps bitBuffer := by
  have head : cocHead.Keeps bitBuffer := by
    unfold cocHead
    apply keeps_word.bind; intro _
    iterate 5 apply keeps_byte.bind; intro _
    exact keeps_pure _
  apply head.bind
  intro _
  dsimp only
  split
  · exact keeps_fail
  split
  · exact keeps_pure _
  split
  · exact keeps_fail
  · exact (keeps_styleTail _ _).bind fun _ => keeps_pure _

theorem keeps_parseDFS : parseDFS.Keeps bitBuffer := by
  unfold parseDFS
  apply keeps_word.bind
  intro ldfs
  split
  · exact keeps_pure _
  apply keeps_word.bind; intro _
  apply keeps_byte.bind; intro _
  apply (keeps_times keeps_byte _).bind; intro _
  split
  · exact keeps_fail
  · exact keeps_pure _

theorem keeps_parseQCD (codNL : Nat) (type : Nat → Nat) : (parseQCD codNL type).Keeps bitBuffer := by
  unfold parseQCD
  apply keeps_word.bind; intro _
  apply keeps_byte.bind; intro sqcd
  refine (keeps_mapM (fun i => ?_) _).bind fun _ => keeps_pure _
  split
  · exact keeps_byte.bind fun _ => keeps_pure _
  · exact keeps_word.bind fun _ => keeps_pure _

theorem keeps_parseCAP : parseCAP.Keeps bitBuffer := by
  unfold parseCAP
  apply keeps_word.bind; intro _
  apply keeps_dword.bind; intro _
  iterate 2 apply (keeps_times keeps_word _).bind; intro _
  exact keeps_pure _

theorem keeps_skipMarker : skipMarker.Keeps bitBuffer :=
  keeps_word.bind fun _ => (keeps_times keeps_byte _).bind fun _ => keeps_pure _

theorem keeps_parseSegment (m : Markers) (marker : Nat) : (parseSegment m marker).Keeps bitBuffer := by
  unfold parseSegment
  split
  · exact keeps_parseSIZ
  split
  · exact keeps_parseCAP
  split
  · exact keeps_parseCOD _
  split
  · exact keeps_parseQCD _ _
  split
  · exact keeps_parseCOC _
  split
  · exact keeps_parseDFS
  · exact keeps_skipMarker

/-! ### The whole header -/

theorem bitBuffer_scanMarkers (fuel : Nat) (m : Markers) (s : Codestream) {r : Bool × Markers × Codestream}
    (scanned : scanMarkers fuel m s = some r) : bitBuffer r.2.2 = bitBuffer s := by
  induction fuel generalizing m s with
  | zero => cases scanned
  | succ fuel ih =>
    have behind := bitBuffer_getWord s
    simp only [scanMarkers] at scanned
    split at scanned
    · cases scanned
      exact behind
    split at scanned
    · cases scanned
      exact behind
    split at scanned
    · cases scanned
    next read => exact (ih _ _ scanned).trans ((keeps_parseSegment m _ _ _ _ read).trans behind)

theorem bitBuffer_parseMainHeader {m : Markers} {s : Codestream} {r : BitVec 32 × Markers × Codestream}
    (parsed : parseMainHeader m s = some r) : bitBuffer r.2.2 = bitBuffer s := by
  have behind := bitBuffer_getWord s
  simp only [parseMainHeader] at parsed
  split at parsed
  · cases parsed
    exact behind
  split at parsed
  · cases parsed
  next scanned =>
    cases parsed
    exact (bitBuffer_scanMarkers _ _ _ scanned).trans behind

/-- Behind a header of readable segments the reader stands on the first byte of the body, with
nothing in its bit buffer. -/
theorem parseMainHeader_stands {m : Markers} {segments : List RawSegment} {rest : List UInt8} {chunks : List Chunk}
    (nonempty : ∀ c ∈ chunks, c.bytes ≠ []) (spelled : chainBytes chunks = framed segments rest)
    (readable : Throughout Markers.read Readable m segments) :
    ∃ t, parseMainHeader m { chunks := chunks } =
        some (BitVec.ofNat 32 (framed segments []).length, segments.foldl Markers.read m, t) ∧
      t.OnChain ∧ (t.bits = 0 ∧ t.tmp = 0) ∧ t.pos = (framed segments []).length := by
  obtain ⟨s, here, fuel, parsed⟩ := parseMainHeader_scan nonempty spelled
  obtain ⟨u, scanned, there⟩ := scanMarkers_spelled (fuel + 1) here (framed_drop segments rest) readable
  have sod : (framed segments rest).drop (2 + (segments.flatMap RawSegment.bytes).length) = 0xFF :: 0x93 :: rest := by
    rw [← List.drop_drop, framed_drop, List.drop_left]
  obtain ⟨marker, length, _⟩ := rd16_of_drop sod
  obtain ⟨word, after⟩ := there.getWord
  have found : scanMarkers (fuel + 1) (segments.foldl Markers.read m) u =
      some (true, segments.foldl Markers.read m, u.getWord.2) := by
    have last : u.getWord.1.toNat = MarkerCode.sod := word.trans marker
    simp only [scanMarkers, if_pos last]
  have whole : (framed segments []).length = 2 + (segments.flatMap RawSegment.bytes).length + 2 := by
    simp only [framed, List.length_append, List.length_cons, List.length_nil]
  have place : u.getWord.2.pos = (framed segments []).length := by
    rw [after.place, Nat.min_eq_left (by omega), whole]
  have result : parseMainHeader m { chunks := chunks } =
      some (BitVec.ofNat 32 (framed segments []).length, segments.foldl Markers.read m, u.getWord.2) := by
    rw [parsed segments.length, scanned, found, Option.map_some, if_pos rfl, Codestream.getPos, place]
  have buffer := Prod.mk.inj (bitBuffer_parseMainHeader result)
  exact ⟨u.getWord.2, result, after.on, buffer, place⟩

end RtpDecoder.Header
