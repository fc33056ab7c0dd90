import RtpDecoder.Header.Agreement
import RtpDecoder.Header.Framed
import RtpDecoder.Lib.Throughout

/-!
# The walk of the parser over a framed header

Where the segments of a framed header declare what their functions take, `parse_main_header`
finds them one by one, and what it makes of a segment depends on the bytes of the segment
only, with the marker structs as the segments before leave them.
-/

namespace RtpDecoder.Header

open RtpDecoder.Parser (Chunk Codestream chainBytes)

/-! ### A segment by its own bytes -/

/-- The same `n` bytes in two buffers. -/
def Alike (n : Nat) (mh : List UInt8) (off : Nat) (mh' : List UInt8) (off' : Nat) : Prop :=
  ∀ k < n, mh'.getD (off' + k) 0 = mh.getD (off + k) 0

section

variable {ctx : Context} {mh mh' : List UInt8} {n marker off off' : Nat}

theorem Alike.byteAt (alike : Alike n mh off mh' off') {k : Nat} (inside : k < n) :
    byteAt mh' (off' + k) = byteAt mh (off + k) := by
  rw [Header.byteAt, Header.byteAt, alike k inside]

theorem Alike.rd16 (alike : Alike n mh off mh' off') {k : Nat} (inside : k + 1 < n) :
    rd16 mh' (off' + k) = rd16 mh (off + k) := by
  rw [Header.rd16, Header.rd16, alike k (by omega), Nat.add_assoc, Nat.add_assoc, alike (k + 1) inside]

theorem Alike.rd32 (alike : Alike n mh off mh' off') {k : Nat} (inside : k + 3 < n) :
    rd32 mh' (off' + k) = rd32 mh (off + k) := by
  rw [Header.rd32, Header.rd32, alike.rd16 (by omega), Nat.add_assoc, Nat.add_assoc, alike.rd16 (by omega)]

theorem Alike.bytesAt (alike : Alike n mh off mh' off') {k count : Nat} (inside : k + count ≤ n) :
    bytesAt mh' (off' + k) count = bytesAt mh (off + k) count := by
  apply List.map_congr_left
  intro i listed
  have place := List.mem_range.mp listed
  rw [Nat.add_assoc, Nat.add_assoc, alike.byteAt (by omega)]

theorem Alike.tailAt (alike : Alike n mh off mh' off') {k count : Nat}
    (inside : k + 2 + ctx.overlap + count ≤ n) :
    tailAt ctx mh' (off' + k) count = tailAt ctx mh (off + k) count := by
  simp only [Header.tailAt, Nat.add_assoc]
  rw [alike.byteAt (by omega), alike.byteAt (by omega), alike.bytesAt (by omega)]

/-- What the reading of a segment comes to. -/
structure SameReading (ctx : Context) (marker : Nat) (mh : List UInt8) (off : Nat) (mh' : List UInt8) (off' : Nat) :
    Prop where
  length : segmentLength ctx mh' marker off' = segmentLength ctx mh marker off
  reading : segmentAt ctx mh' marker off' = segmentAt ctx mh marker off
  faulty : Faulty mh' marker off' ↔ Faulty mh marker off

private theorem sameReading_siz (alike : Alike (segmentLength ctx mh MarkerCode.siz off) mh off mh' off') :
    SameReading ctx MarkerCode.siz mh off mh' off' := by
  have length (mh : List UInt8) (off : Nat) : segmentLength ctx mh MarkerCode.siz off =
      if rd16 mh (off + 36) = 3 then 47 else 38 := if_pos rfl
  have least : 38 ≤ segmentLength ctx mh MarkerCode.siz off := by
    rw [length]
    split <;> omega
  have csiz := alike.rd16 (k := 36) (by omega)
  have frame : sizAt mh' off' = sizAt mh off := by
    simp (disch := omega) only [sizAt, alike.rd16, alike.rd32]
  have components (three : rd16 mh (off + 36) = 3) : componentsAt mh' off' = componentsAt mh off := by
    rw [length, if_pos three] at alike
    apply List.map_congr_left
    intro c listed
    have component := List.mem_range.mp listed
    simp only [Nat.add_assoc]
    rw [alike.byteAt (by omega), alike.byteAt (by omega), alike.byteAt (by omega)]
  refine ⟨by rw [length, length, csiz], ?_, ?_⟩
  · simp only [segmentAt, if_true, csiz, frame]
    split
    next three => rw [components three]
    · rfl
  · simp [Faulty, MarkerCode.siz, MarkerCode.cod, MarkerCode.coc, MarkerCode.dfs]

private theorem sameReading_cod (alike : Alike (segmentLength ctx mh MarkerCode.cod off) mh off mh' off') :
    SameReading ctx MarkerCode.cod mh off mh' off' := by
  have length (mh : List UInt8) (off : Nat) : segmentLength ctx mh MarkerCode.cod off =
      if refused (byteAt mh (off + 9)) then 10 else 13 + ctx.overlap + byteAt mh (off + 7) := by
    simp [segmentLength, MarkerCode.siz, MarkerCode.cod, MarkerCode.cap]
  have least : 10 ≤ segmentLength ctx mh MarkerCode.cod off := by
    rw [length]
    split <;> omega
  have levels := alike.byteAt (k := 7) (by omega)
  have height := alike.byteAt (k := 9) (by omega)
  have tail (kept : ¬ refused (byteAt mh (off + 9))) :
      tailAt ctx mh' (off' + 10) (byteAt mh (off + 7) + 1) =
        tailAt ctx mh (off + 10) (byteAt mh (off + 7) + 1) := by
    rw [length, if_neg kept] at alike
    exact alike.tailAt (by omega)
  refine ⟨by rw [length, length, levels, height], ?_, ?_⟩
  · have other : ¬ MarkerCode.cod = MarkerCode.siz := by decide
    simp (disch := omega) only [segmentAt, if_neg other, if_true, alike.byteAt, alike.rd16]
    by_cases kept : refused (byteAt mh (off + 9))
    · simp only [if_pos kept]
    · simp only [if_neg kept, tail kept]
  · simp [Faulty, MarkerCode.cod, MarkerCode.coc, MarkerCode.dfs, levels]

private theorem sameReading_coc (alike : Alike (segmentLength ctx mh MarkerCode.coc off) mh off mh' off') :
    SameReading ctx MarkerCode.coc mh off mh' off' := by
  have length (mh : List UInt8) (off : Nat) : segmentLength ctx mh MarkerCode.coc off =
      if refused (byteAt mh (off + 6)) then 7 else 9 + ctx.overlap + cocSizes mh off := by
    simp [segmentLength, MarkerCode.siz, MarkerCode.cod, MarkerCode.cap, MarkerCode.qcd, MarkerCode.coc]
  have least : 7 ≤ segmentLength ctx mh MarkerCode.coc off := by
    rw [length]
    split <;> omega
  have component := alike.byteAt (k := 2) (by omega)
  have height := alike.byteAt (k := 6) (by omega)
  have sizes : cocSizes mh' off' = cocSizes mh off := by
    have declared := alike.rd16 (k := 0) (by omega)
    rw [cocSizes, cocSizes, ← Nat.add_zero off', declared, Nat.add_zero]
  have tail (kept : ¬ refused (byteAt mh (off + 6))) :
      tailAt ctx mh' (off' + 7) (cocSizes mh off) = tailAt ctx mh (off + 7) (cocSizes mh off) := by
    rw [length, if_neg kept] at alike
    exact alike.tailAt (by omega)
  refine ⟨by rw [length, length, sizes, height], ?_, ?_⟩
  · have siz : ¬ MarkerCode.coc = MarkerCode.siz := by decide
    have cod : ¬ MarkerCode.coc = MarkerCode.cod := by decide
    have qcd : ¬ MarkerCode.coc = MarkerCode.qcd := by decide
    simp (disch := omega) only [segmentAt, if_neg siz, if_neg cod, if_neg qcd, if_true, alike.byteAt, sizes]
    by_cases kept : refused (byteAt mh (off + 6))
    · simp only [if_pos kept]
    · simp only [if_neg kept, tail kept]
  · simp [Faulty, MarkerCode.cod, MarkerCode.coc, MarkerCode.dfs, component, height, sizes]

private theorem sameReading_qcd (alike : Alike (segmentLength ctx mh MarkerCode.qcd off) mh off mh' off') :
    SameReading ctx MarkerCode.qcd mh off mh' off' := by
  have length (mh : List UInt8) (off : Nat) : segmentLength ctx mh MarkerCode.qcd off =
      3 + (qcdPlaces ctx mh off).length * qcdWidth (byteAt mh (off + 2) &&& 0x1F) := by
    simp [segmentLength, MarkerCode.siz, MarkerCode.cod, MarkerCode.cap, MarkerCode.qcd]
  have style := alike.byteAt (k := 2) (by rw [length]; omega)
  have places : qcdPlaces ctx mh' off' = qcdPlaces ctx mh off := by rw [qcdPlaces, qcdPlaces, style]
  rw [length] at alike
  refine ⟨by rw [length, length, style, places], ?_, ?_⟩
  · have siz : ¬ MarkerCode.qcd = MarkerCode.siz := by decide
    have cod : ¬ MarkerCode.qcd = MarkerCode.cod := by decide
    simp only [segmentAt, if_neg siz, if_neg cod, if_true, style, places]
    rw [List.mapIdx_eq_mapIdx_iff.mpr]
    intro k listed
    generalize byteAt mh (off + 2) &&& 0x1F = type at *
    -- The place of a step ends where that of the next one starts.
    have room : (k + 1) * qcdWidth type ≤ (qcdPlaces ctx mh off).length * qcdWidth type :=
      Nat.mul_le_mul_right _ listed
    rw [Nat.succ_mul] at room
    simp only [qcdStepAt, Nat.add_assoc]
    split
    next plain =>
      have width : qcdWidth type = 1 := if_pos plain
      rw [alike.byteAt (by omega)]
    next other =>
      have width : qcdWidth type = 2 := if_neg other
      rw [alike.rd16 (by omega)]
  · simp [Faulty, MarkerCode.cod, MarkerCode.coc, MarkerCode.dfs, MarkerCode.qcd]

private theorem sameReading_dfs (alike : Alike (segmentLength ctx mh MarkerCode.dfs off) mh off mh' off') :
    SameReading ctx MarkerCode.dfs mh off mh' off' := by
  have length (mh : List UInt8) (off : Nat) : segmentLength ctx mh MarkerCode.dfs off =
      if rd16 mh off < 5 then 2 else max 2 (rd16 mh off) := by
    simp [segmentLength, MarkerCode.siz, MarkerCode.cod, MarkerCode.cap, MarkerCode.qcd, MarkerCode.coc,
      MarkerCode.dfs]
  have reading (mh : List UInt8) (off : Nat) : segmentAt ctx mh MarkerCode.dfs off =
      if 5 ≤ rd16 mh off then
        .dfs (rd16 mh (off + 2)) (byteAt mh (off + 4))
          (dfsTypes (byteAt mh (off + 4)) (bytesAt mh (off + 5) (rd16 mh off - 5)))
      else .skipped := by
    simp [segmentAt, MarkerCode.siz, MarkerCode.cod, MarkerCode.qcd, MarkerCode.coc, MarkerCode.dfs]
  have declared : rd16 mh' off' = rd16 mh off :=
    alike.rd16 (k := 0) (by rw [length]; split <;> omega)
  refine ⟨by rw [length, length, declared], ?_, ?_⟩
  · rw [reading, reading, declared]
    split
    next long =>
      rw [length, if_neg (Nat.not_lt.mpr long)] at alike
      rw [alike.rd16 (by omega), alike.byteAt (by omega), alike.bytesAt (by omega)]
    · rfl
  · have levels (long : 5 ≤ rd16 mh off) : byteAt mh' (off' + 4) = byteAt mh (off + 4) := by
      rw [length, if_neg (Nat.not_lt.mpr long)] at alike
      exact alike.byteAt (by omega)
    have faulty (mh : List UInt8) (off : Nat) : Faulty mh MarkerCode.dfs off ↔
        5 ≤ rd16 mh off ∧ maxDwtLevel < byteAt mh (off + 4) := by
      simp [Faulty, MarkerCode.cod, MarkerCode.coc, MarkerCode.dfs]
    rw [faulty, faulty, declared]
    exact and_congr_right fun long => by rw [levels long]

private theorem sameReading_cap (alike : Alike (segmentLength ctx mh MarkerCode.cap off) mh off mh' off') :
    SameReading ctx MarkerCode.cap mh off mh' off' := by
  have length (mh : List UInt8) (off : Nat) : segmentLength ctx mh MarkerCode.cap off =
      6 + 2 * max (capParts mh off) ((rd16 mh off - 6) / 2) := by
    simp [segmentLength, MarkerCode.siz, MarkerCode.cap]
  have declared : rd16 mh' off' = rd16 mh off := alike.rd16 (k := 0) (by rw [length]; omega)
  have parts : capParts mh' off' = capParts mh off := by
    rw [capParts, capParts, alike.rd32 (by rw [length]; omega)]
  refine ⟨by rw [length, length, declared, parts], ?_, ?_⟩
  · simp [segmentAt, MarkerCode.siz, MarkerCode.cod, MarkerCode.qcd, MarkerCode.coc, MarkerCode.dfs, MarkerCode.cap]
  · simp [Faulty, MarkerCode.cod, MarkerCode.coc, MarkerCode.dfs, MarkerCode.cap]

private theorem sameReading_skipped (siz : marker ≠ MarkerCode.siz) (cap : marker ≠ MarkerCode.cap)
    (cod : marker ≠ MarkerCode.cod) (qcd : marker ≠ MarkerCode.qcd) (coc : marker ≠ MarkerCode.coc)
    (dfs : marker ≠ MarkerCode.dfs) (alike : Alike (segmentLength ctx mh marker off) mh off mh' off') :
    SameReading ctx marker mh off mh' off' := by
  have length (mh : List UInt8) (off : Nat) : segmentLength ctx mh marker off = max 2 (rd16 mh off) := by
    simp [segmentLength, siz, cap, cod, qcd, coc, dfs]
  have declared : rd16 mh' off' = rd16 mh off := alike.rd16 (k := 0) (by rw [length]; omega)
  exact ⟨by rw [length, length, declared], by simp [segmentAt, siz, cod, qcd, coc, dfs],
    by simp [Faulty, cod, coc, dfs]⟩

/-- The reading of a segment depends on the bytes that its function takes only. -/
theorem sameReading_of_alike (alike : Alike (segmentLength ctx mh marker off) mh off mh' off') :
    SameReading ctx marker mh off mh' off' := by
  by_cases siz : marker = MarkerCode.siz
  · subst siz
    exact sameReading_siz alike
  by_cases cap : marker = MarkerCode.cap
  · subst cap
    exact sameReading_cap alike
  by_cases cod : marker = MarkerCode.cod
  · subst cod
    exact sameReading_cod alike
  by_cases qcd : marker = MarkerCode.qcd
  · subst qcd
    exact sameReading_qcd alike
  by_cases coc : marker = MarkerCode.coc
  · subst coc
    exact sameReading_coc alike
  by_cases dfs : marker = MarkerCode.dfs
  · subst dfs
    exact sameReading_dfs alike
  exact sameReading_skipped siz cap cod qcd coc dfs alike

end

namespace RawSegment

/-- The declared length is what the function of the segment takes. -/
def Declares (g : RawSegment) (ctx : Context) : Prop := segmentLength ctx g.bytes g.marker 2 = g.length

def Sound (g : RawSegment) : Prop := ¬ Faulty g.bytes g.marker 2

/-- What the segment says. -/
def reading (g : RawSegment) (ctx : Context) : MarkerSegment := segmentAt ctx g.bytes g.marker 2

instance (g : RawSegment) (ctx : Context) : Decidable (g.Declares ctx) := inferInstanceAs (Decidable (_ = _))
instance (g : RawSegment) : Decidable g.Sound := inferInstanceAs (Decidable (¬ _))

end RawSegment

/-- The marker structs after a segment. -/
def Markers.read (m : Markers) (g : RawSegment) : Markers := (g.reading m.context).store m

/-- A segment that the parser takes as a whole. -/
def Readable (m : Markers) (g : RawSegment) : Prop := g.Declares m.context ∧ g.Sound

instance (m : Markers) (g : RawSegment) : Decidable (Readable m g) := inferInstanceAs (Decidable (_ ∧ _))

section

variable {m : Markers} {g : RawSegment} {segments : List RawSegment} {mh tail : List UInt8} {off : Nat}
  {s : Codestream}

private theorem alike_at (spelled : mh.drop off = g.bytes ++ tail) : Alike g.length g.bytes 2 mh (off + 2) := by
  intro k inside
  have length := bytes_length g
  simp only [List.getD]
  rw [Nat.add_assoc, ← List.getElem?_drop, spelled, List.getElem?_append_left (by omega)]

theorem declares_at {ctx : Context} (spelled : mh.drop off = g.bytes ++ tail) :
    segmentLength ctx mh g.marker (off + 2) = g.length ↔ g.Declares ctx := by
  have alike := alike_at spelled
  constructor
  · intro there
    have back : Alike (segmentLength ctx mh g.marker (off + 2)) mh (off + 2) g.bytes 2 :=
      there ▸ fun k inside => (alike k inside).symm
    exact (sameReading_of_alike back).length.trans there
  · intro declares
    exact (sameReading_of_alike (declares.symm ▸ alike)).length.trans declares

/-- A function that does not read beyond its segment. -/
theorem sameReading_at {ctx : Context} (spelled : mh.drop off = g.bytes ++ tail)
    (within : segmentLength ctx g.bytes g.marker 2 ≤ g.length) : SameReading ctx g.marker g.bytes 2 mh (off + 2) :=
  sameReading_of_alike fun k inside => alike_at spelled k (Nat.lt_of_lt_of_le inside within)

theorem after_at (spelled : mh.drop off = g.bytes ++ tail) (declares : g.Declares m.context) :
    m.after mh g.marker (off + 2) = m.read g := by
  rw [Markers.after, (sameReading_at spelled (Nat.le_of_eq declares)).reading]
  rfl

/-! ### The scan -/

theorem scanMarkers_step (fuel : Nat) (m : Markers) (here : StandsAt mh off s)
    (legal : MarkerCode.legal (rd16 mh off) = true) (other : rd16 mh off ≠ MarkerCode.sod)
    (sound : ¬ Faulty mh (rd16 mh off) (off + 2)) :
    ∃ u, scanMarkers (fuel + 1) m s = scanMarkers fuel (m.after mh (rd16 mh off) (off + 2)) u ∧
      StandsAt mh (off + 2 + segmentLength m.context mh (rd16 mh off) (off + 2)) u := by
  obtain ⟨word, behind⟩ := here.getWord
  obtain ⟨u, read, there⟩ := gives_parseSegment m sound _ behind
  refine ⟨u, ?_, there⟩
  simp only [scanMarkers, word, if_neg other, legal, Bool.not_true, Bool.false_eq_true, if_false, read]
  rfl

theorem scanMarkers_spelled_cons (fuel : Nat) (here : StandsAt mh off s) (spelled : mh.drop off = g.bytes ++ tail)
    (readable : Readable m g) :
    ∃ u, scanMarkers (fuel + 1) m s = scanMarkers fuel (m.read g) u ∧ StandsAt mh (off + 2 + g.length) u := by
  obtain ⟨declares, sound⟩ := readable
  obtain ⟨marker, _⟩ := segment_at spelled
  obtain ⟨legal, other⟩ := marker_legal g
  have same := sameReading_at spelled (Nat.le_of_eq declares)
  obtain ⟨u, scanned, there⟩ := scanMarkers_step fuel m here (marker ▸ legal) (marker ▸ other)
    (marker.symm ▸ fun faulty => sound (same.faulty.mp faulty))
  rw [marker, after_at spelled declares] at scanned
  rw [marker, (declares_at spelled).mpr declares] at there
  exact ⟨u, scanned, there⟩

theorem scanMarkers_spelled (fuel : Nat) (here : StandsAt mh off s)
    (spelled : mh.drop off = segments.flatMap RawSegment.bytes ++ tail)
    (readable : Throughout Markers.read Readable m segments) :
    ∃ u, scanMarkers (fuel + segments.length) m s = scanMarkers fuel (segments.foldl Markers.read m) u ∧
      StandsAt mh (off + (segments.flatMap RawSegment.bytes).length) u := by
  induction segments generalizing m off s with
  | nil => exact ⟨s, rfl, here⟩
  | cons g later ih =>
    rw [List.flatMap_cons, List.append_assoc] at spelled
    obtain ⟨u, scanned, there⟩ := scanMarkers_spelled_cons (fuel + later.length) here spelled readable.1
    obtain ⟨_, _, _, _, behind⟩ := segment_at spelled
    obtain ⟨v, then_scanned, after⟩ := ih there behind readable.2
    refine ⟨v, scanned.trans then_scanned, ?_⟩
    rw [List.flatMap_cons, List.length_append, bytes_length]
    convert after using 1
    omega

theorem sound_of_scanned {fuel : Nat} {r : Bool × Markers × Codestream} (here : StandsAt mh off s)
    (spelled : mh.drop off = segments.flatMap RawSegment.bytes ++ tail)
    (declares : Throughout Markers.read (fun m g => g.Declares m.context) m segments)
    (scanned : scanMarkers fuel m s = some r) : Throughout Markers.read Readable m segments := by
  induction segments generalizing m off s fuel with
  | nil => trivial
  | cons g later ih =>
    rw [List.flatMap_cons, List.append_assoc] at spelled
    cases fuel with
    | zero => cases scanned
    | succ fuel =>
      have sound : g.Sound := by
        intro faulty
        have same := sameReading_at spelled (Nat.le_of_eq declares.1)
        obtain ⟨marker, _⟩ := segment_at spelled
        obtain ⟨legal, other⟩ := marker_legal g
        obtain ⟨word, behind⟩ := here.getWord
        have failed := fails_parseSegment m (same.faulty.mpr faulty) _ behind
        simp only [scanMarkers, word, marker, if_neg other, legal, Bool.not_true, Bool.false_eq_true, if_false,
          failed] at scanned
        cases scanned
      obtain ⟨u, step, there⟩ := scanMarkers_spelled_cons fuel here spelled ⟨declares.1, sound⟩
      obtain ⟨_, _, _, _, behind⟩ := segment_at spelled
      exact ⟨⟨declares.1, sound⟩, ih there behind declares.2 (step ▸ scanned)⟩

end

/-! ### The whole header -/

section

variable {m : Markers} {segments : List RawSegment} {rest : List UInt8} {chunks : List Chunk}

theorem framed_drop (segments : List RawSegment) (rest : List UInt8) :
    (framed segments rest).drop 2 = segments.flatMap RawSegment.bytes ++ 0xFF :: 0x93 :: rest := by
  simp [framed]

theorem parseMainHeader_scan (nonempty : ∀ c ∈ chunks, c.bytes ≠ [])
    (spelled : chainBytes chunks = framed segments rest) :
    ∃ s, StandsAt (framed segments rest) 2 s ∧ ∃ fuel, ∀ extra m, parseMainHeader m { chunks := chunks } =
      (scanMarkers (fuel + 1 + extra) m s).map fun r => (if r.1 then r.2.2.getPos else 0, r.2) := by
  obtain ⟨word, behind⟩ := (standsAt_start nonempty).getWord
  rw [spelled] at word behind
  have start : (framed segments rest).drop 0 = 0xFF :: 0x4F :: _ := rfl
  have soc : rd16 (framed segments rest) 0 = MarkerCode.soc := (rd16_of_drop start).1
  refine ⟨_, behind, (Codestream.getWord { chunks := chunks }).2.remaining, fun extra m => ?_⟩
  rw [scanMarkers_enough _ extra m _ (Nat.lt_succ_self _)]
  simp only [parseMainHeader, word, soc, ne_eq, not_true, if_false]
  cases scanMarkers _ m _ <;> rfl

/-- A header of readable segments is accepted, unless its length is 0 in `uint32_t`. -/
theorem parseMainHeader_framed (nonempty : ∀ c ∈ chunks, c.bytes ≠ [])
    (spelled : chainBytes chunks = framed segments rest)
    (readable : Throughout Markers.read Readable m segments) :
    ∃ t, parseMainHeader m { chunks := chunks } =
      some (BitVec.ofNat 32 (framed segments []).length, segments.foldl Markers.read m, t) := by
  obtain ⟨s, here, fuel, parsed⟩ := parseMainHeader_scan nonempty spelled
  have behind := framed_drop segments rest
  obtain ⟨u, scanned, there⟩ := scanMarkers_spelled (fuel + 1) here behind readable
  have sod : (framed segments rest).drop (2 + (segments.flatMap RawSegment.bytes).length) = 0xFF :: 0x93 :: rest := by
    rw [← List.drop_drop, behind, List.drop_left]
  obtain ⟨_, length, _⟩ := rd16_of_drop sod
  have marker : rd16 _ _ = MarkerCode.sod := (rd16_of_drop sod).1
  obtain ⟨word, after⟩ := there.getWord
  have found : scanMarkers (fuel + 1) (segments.foldl Markers.read m) u =
      some (true, segments.foldl Markers.read m, u.getWord.2) := by
    rw [marker] at word
    simp only [scanMarkers]
    rw [if_pos word]
  refine ⟨u.getWord.2, ?_⟩
  have place := after.place
  have whole : (framed segments []).length = 2 + (segments.flatMap RawSegment.bytes).length + 2 := by
    simp [framed]
    omega
  rw [Nat.min_eq_left (by omega)] at place
  rw [parsed segments.length, scanned, found, Option.map_some, if_pos rfl, Codestream.getPos, place, whole]

private theorem conformsFrom_spelled {mh : List UInt8} {fuel off : Nat} (enough : segments.length < fuel)
    (spelled : mh.drop off = segments.flatMap RawSegment.bytes ++ 0xFF :: 0x93 :: rest) :
    ConformsFrom mh fuel m off ↔ Throughout Markers.read (fun m g => g.Declares m.context) m segments := by
  induction segments generalizing m off fuel with
  | nil =>
    obtain ⟨fuel, rfl⟩ : ∃ n, fuel = n + 1 := ⟨fuel - 1, by omega⟩
    obtain ⟨marker, _⟩ := rd16_of_drop spelled
    exact iff_of_true (.inl marker) trivial
  | cons g later ih =>
    obtain ⟨fuel, rfl⟩ : ∃ n, fuel = n + 1 := ⟨fuel - 1, by omega⟩
    rw [List.flatMap_cons, List.append_assoc] at spelled
    obtain ⟨marker, declared, _, _, behind⟩ := segment_at spelled
    simp only [ConformsFrom, marker, declared, (marker_legal g).2, false_or, declares_at spelled, Throughout]
    refine and_congr_right fun declares => ?_
    rw [after_at spelled declares]
    exact ih (by simpa using enough) behind

/-- What the segments of a framed header declare is what they declare on their own. -/
theorem conforms_framed : Conforms m (framed segments rest) ↔
    Throughout Markers.read (fun m g => g.Declares m.context) m segments := by
  have few := length_le_flatMap segments
  apply conformsFrom_spelled _ (framed_drop segments rest)
  simp only [framed, List.length_append, List.length_cons]
  omega

private theorem sod_legal : MarkerCode.legal MarkerCode.sod = true := by decide

/-- Framing is lost behind a segment of which its function leaves two bytes that are no marker. -/
theorem parseMainHeader_lost {before after : List RawSegment} {g : RawSegment}
    (nonempty : ∀ c ∈ chunks, c.bytes ≠ []) (spelled : chainBytes chunks = framed (before ++ g :: after) rest)
    (readable : Throughout Markers.read Readable m before) (sound : g.Sound) {n : Nat}
    (takes : segmentLength (before.foldl Markers.read m).context g.bytes g.marker 2 = n) (left : n + 2 ≤ g.length)
    (lost : MarkerCode.legal (rd16 g.bytes (2 + n)) = false) :
    ∃ m' t, parseMainHeader m { chunks := chunks } = some (0, m', t) := by
  obtain ⟨s, here, fuel, parsed⟩ := parseMainHeader_scan nonempty spelled
  have behind := framed_drop (before ++ g :: after) rest
  rw [List.flatMap_append, List.flatMap_cons, List.append_assoc, List.append_assoc] at behind
  obtain ⟨u, scanned, there⟩ := scanMarkers_spelled (fuel + 2) here behind readable
  have place := congrArg (List.drop (before.flatMap RawSegment.bytes).length) behind
  rw [List.drop_drop, List.drop_left] at place
  obtain ⟨marker, _⟩ := segment_at place
  obtain ⟨legal, other⟩ := marker_legal g
  have within : segmentLength (before.foldl Markers.read m).context g.bytes g.marker 2 ≤ g.length := by omega
  have same := sameReading_at place within
  -- The function of the segment stops inside it, in front of the two bytes.
  obtain ⟨v, step, inside⟩ := scanMarkers_step (fuel + 1) (before.foldl Markers.read m) there (marker ▸ legal)
    (marker ▸ other) (marker.symm ▸ fun faulty => sound (same.faulty.mp faulty))
  rw [marker, same.length, takes] at inside
  obtain ⟨word, _⟩ := inside.getWord
  rw [(alike_at place).rd16 (by omega)] at word
  have gone (m : Markers) : scanMarkers (fuel + 1) m v = some (false, m, v.getWord.2) := by
    have apart : ¬ rd16 g.bytes (2 + n) = MarkerCode.sod := fun sod => by simp [sod, sod_legal] at lost
    simp only [scanMarkers, word, if_neg apart, lost, Bool.not_false, if_true]
  have turns : fuel + 1 + (before.length + 1) = fuel + 2 + before.length := by omega
  have failed := parsed (before.length + 1) m
  rw [turns, scanned, step, gone] at failed
  exact ⟨_, _, failed⟩

/-- A header with a result, in which the segments declare what their functions take. -/
theorem readable_of_parsed {r : BitVec 32 × Markers × Codestream} (nonempty : ∀ c ∈ chunks, c.bytes ≠ [])
    (spelled : chainBytes chunks = framed segments rest) (conforms : Conforms m (framed segments rest))
    (parsed : parseMainHeader m { chunks := chunks } = some r) : Throughout Markers.read Readable m segments := by
  obtain ⟨s, here, fuel, eq⟩ := parseMainHeader_scan nonempty spelled
  rw [eq 0] at parsed
  obtain ⟨r, scanned, _⟩ := Option.map_eq_some_iff.mp parsed
  exact sound_of_scanned here (framed_drop segments rest) (conforms_framed.mp conforms) scanned

end

end RtpDecoder.Header
