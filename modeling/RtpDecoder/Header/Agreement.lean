import RtpDecoder.Header.Layout

/-!
# The two walks over a main header

`parse_main_header` goes from marker to marker by what it reads of each segment,
`geometry_signature` by the length that the segment declares. The two read the same markers
exactly when every segment declares the length that its function takes, and then they find
the end of the header at the same offset.
-/

namespace RtpDecoder.Header

open RtpDecoder.Parser (Chunk Codestream chainBytes)

/-! ### The markers that a walk reads -/

/-- Where the loop of `parse_main_header` reads its markers. -/
def markerPlaces : Nat → Markers → Codestream → List Nat
  | 0, _, _ => []
  | fuel + 1, m, s =>
    let marker := s.getWord.1.toNat
    s.pos ::
      if marker = MarkerCode.sod ∨ MarkerCode.legal marker = false then []
      else match (parseSegment m marker).run s.getWord.2 with
        | none => []
        | some (seg, t) => markerPlaces fuel (seg.store m) t

def parserPlaces (m : Markers) (s : Codestream) : List Nat :=
  markerPlaces (s.getWord.2.remaining + 1) m s.getWord.2

/-- Where the loop of `geometry_signature` reads its markers. -/
def signaturePlacesFrom (mh : List UInt8) : Nat → Nat → List Nat
  | 0, _ => []
  | fuel + 1, off =>
    let marker := rd16 mh off
    off ::
      if marker = MarkerCode.sod ∨ MarkerCode.legal marker = false then []
      else signaturePlacesFrom mh fuel (off + 2 + rd16 mh (off + 2))

def signaturePlaces (mh : List UInt8) : List Nat := signaturePlacesFrom mh mh.length 2

/-- The segments found by their declared lengths all declare what their functions take, each
with the marker structs as the segments before it leave them. -/
def ConformsFrom (mh : List UInt8) : Nat → Markers → Nat → Prop
  | 0, _, _ => True
  | fuel + 1, m, off =>
    let marker := rd16 mh off
    let declared := rd16 mh (off + 2)
    marker = MarkerCode.sod ∨ segmentLength m.context mh marker (off + 2) = declared ∧
      ConformsFrom mh fuel (m.after mh marker (off + 2)) (off + 2 + declared)

instance (mh : List UInt8) : ∀ fuel m off, Decidable (ConformsFrom mh fuel m off)
  | 0, _, _ => isTrue trivial
  | fuel + 1, m, off =>
    let _ := instDecidableConformsFrom mh fuel (m.after mh (rd16 mh off) (off + 2))
      (off + 2 + rd16 mh (off + 2))
    inferInstanceAs (Decidable (_ ∨ _ ∧ _))

def Conforms (m : Markers) (mh : List UInt8) : Prop := ConformsFrom mh mh.length m 2

instance (m : Markers) (mh : List UInt8) : Decidable (Conforms m mh) :=
  inferInstanceAs (Decidable (ConformsFrom _ _ _ _))

/-! ### One marker -/

private theorem signatureLoop_inv {mh : List UInt8} {fuel off : Nat} {h sig : BitVec 64} {sod : BitVec 32}
    (signed : signatureLoop mh (fuel + 1) off h = (sig, sod)) (complete : sig ≠ 0) :
    off + 2 ≤ mh.length ∧
    (rd16 mh off = MarkerCode.sod ∧ sod = BitVec.ofNat 32 (off + 2) ∨
      rd16 mh off ≠ MarkerCode.sod ∧ MarkerCode.legal (rd16 mh off) = true ∧
      ∃ h', signatureLoop mh fuel (off + 2 + rd16 mh (off + 2)) h' = (sig, sod)) := by
  have zero {p : Prop} (failed : ((0 : BitVec 64), (0 : BitVec 32)) = (sig, sod)) : p :=
    absurd (congrArg Prod.fst failed).symm complete
  simp only [signatureLoop] at signed
  split at signed
  · exact zero signed
  next inside =>
    refine ⟨Nat.not_lt.mp inside, ?_⟩
    split at signed
    next marker => exact .inl ⟨marker, (congrArg Prod.snd signed).symm⟩
    next marker =>
      split at signed
      · exact zero signed
      next legal =>
        split at signed
        · exact zero signed
        split at signed
        · exact zero signed
        exact .inr ⟨marker, by simpa using legal, _, signed⟩

theorem scanMarkers_inv {mh : List UInt8} {fuel off : Nat} {m m' : Markers} {s t : Codestream}
    (here : StandsAt mh off s) (scanned : scanMarkers (fuel + 1) m s = some (true, m', t)) :
    rd16 mh off = MarkerCode.sod ∧ t = s.getWord.2 ∨
    rd16 mh off ≠ MarkerCode.sod ∧ MarkerCode.legal (rd16 mh off) = true ∧ ∃ u,
      (parseSegment m (rd16 mh off)).run s.getWord.2 =
        some (segmentAt m.context mh (rd16 mh off) (off + 2), u) ∧
      StandsAt mh (off + 2 + segmentLength m.context mh (rd16 mh off) (off + 2)) u ∧
      scanMarkers fuel (m.after mh (rd16 mh off) (off + 2)) u = some (true, m', t) := by
  obtain ⟨word, behind⟩ := here.getWord
  simp only [scanMarkers, word] at scanned
  split at scanned
  next marker =>
    cases scanned
    exact .inl ⟨marker, rfl⟩
  next marker =>
    split at scanned
    · cases scanned
    next illegal =>
    have legal : MarkerCode.legal (rd16 mh off) = true := by simpa using illegal
    by_cases faulty : Faulty mh (rd16 mh off) (off + 2)
    · rw [fails_parseSegment m faulty _ behind] at scanned
      cases scanned
    · obtain ⟨u, read, there⟩ := gives_parseSegment m faulty _ behind
      rw [read] at scanned
      exact .inr ⟨marker, legal, u, read, there, scanned⟩

/-! ### The whole walk -/

private theorem head?_markerPlaces {fuel : Nat} {m : Markers} {s : Codestream}
    {r : Bool × Markers × Codestream} (scanned : scanMarkers fuel m s = some r) :
    (markerPlaces fuel m s).head? = some s.pos := by
  cases fuel with
  | zero => cases scanned
  | succ fuel => rfl

private theorem head?_signaturePlacesFrom {mh : List UInt8} {fuel off : Nat} {h sig : BitVec 64}
    {sod : BitVec 32} (signed : signatureLoop mh fuel off h = (sig, sod)) (complete : sig ≠ 0) :
    (signaturePlacesFrom mh fuel off).head? = some off ∧ off + 2 ≤ mh.length := by
  cases fuel with
  | zero => exact absurd (congrArg Prod.fst signed).symm complete
  | succ fuel => exact ⟨rfl, (signatureLoop_inv signed complete).1⟩

private theorem walks_agree_from {mh : List UInt8} {sig : BitVec 64} {sod : BitVec 32}
    {m' : Markers} {t : Codestream} (complete : sig ≠ 0) (fuel : Nat) {off : Nat} {h : BitVec 64}
    (signed : signatureLoop mh fuel off h = (sig, sod)) {fuel' : Nat} {m : Markers} {s : Codestream}
    (here : StandsAt mh off s) (scanned : scanMarkers fuel' m s = some (true, m', t)) :
    (markerPlaces fuel' m s = signaturePlacesFrom mh fuel off ↔ ConformsFrom mh fuel m off) ∧
    (ConformsFrom mh fuel m off → t.getPos = sod) := by
  induction fuel generalizing off h fuel' m s with
  | zero => exact absurd (congrArg Prod.fst signed).symm complete
  | succ fuel ih =>
    cases fuel' with
    | zero => cases scanned
    | succ fuel' =>
      obtain ⟨inside, signature⟩ := signatureLoop_inv signed complete
      obtain ⟨word, behind⟩ := here.getWord
      have place : s.pos = off := here.place.trans (Nat.min_eq_left (by omega))
      simp only [markerPlaces, signaturePlacesFrom, ConformsFrom, word, place, List.cons.injEq, true_and]
      rcases scanMarkers_inv here scanned with ⟨marker, rfl⟩ | ⟨marker, _, u, read, there, scanned'⟩
      · rcases signature with ⟨_, rfl⟩ | ⟨other, _⟩
        · refine ⟨by simp only [marker, true_or, if_true], fun _ => ?_⟩
          rw [Codestream.getPos, behind.place, Nat.min_eq_left inside]
        · exact absurd marker other
      · rcases signature with ⟨same, _⟩ | ⟨_, legal, h', signed'⟩
        · exact absurd same marker
        · simp only [marker, legal, read, Bool.true_eq_false, or_self, if_false, false_or]
          obtain ⟨signatureHead, inside'⟩ := head?_signaturePlacesFrom signed' complete
          have parserHead := head?_markerPlaces scanned'
          have next (same : segmentLength m.context mh (rd16 mh off) (off + 2) = rd16 mh (off + 2)) :=
            ih signed' (same ▸ there) scanned'
          refine ⟨⟨fun places => ?_, fun conforms => (next conforms.1).1.mpr conforms.2⟩,
            fun conforms => (next conforms.1).2 conforms.2⟩
          -- Equal lists start with equal places, and the second is inside the buffer.
          have same : segmentLength m.context mh (rd16 mh off) (off + 2) = rd16 mh (off + 2) := by
            change markerPlaces fuel' (m.after mh (rd16 mh off) (off + 2)) u = _ at places
            rw [places, signatureHead, there.place] at parserHead
            have heads := Option.some.inj parserHead
            omega
          exact ⟨same, (next same).1.mp places⟩

/-- On a header that both walks get through, they read the same markers exactly when every
segment declares the length that its function takes; and then they end at the same offset. -/
theorem header_walks_agree (m : Markers) (chunks : List Chunk)
    (nonempty : ∀ c ∈ chunks, c.bytes ≠ []) {sig : BitVec 64} {r sod : BitVec 32} {m' : Markers}
    {t : Codestream} (signed : geometrySignature (chainBytes chunks) = (sig, sod)) (complete : sig ≠ 0)
    (parsed : parseMainHeader m { chunks := chunks } = some (r, m', t)) (accepted : r ≠ 0) :
    (parserPlaces m { chunks := chunks } = signaturePlaces (chainBytes chunks) ↔
      Conforms m (chainBytes chunks)) ∧
    (Conforms m (chainBytes chunks) → r = sod) := by
  obtain ⟨_, behind⟩ := (standsAt_start nonempty).getWord
  simp only [geometrySignature] at signed
  split at signed
  · exact absurd (congrArg Prod.fst signed).symm complete
  simp only [parseMainHeader] at parsed
  split at parsed
  · cases parsed
    exact absurd rfl accepted
  split at parsed
  · cases parsed
  next found _ _ scanned =>
    cases found with
    | false =>
      cases parsed
      exact absurd rfl accepted
    | true =>
      cases parsed
      exact walks_agree_from complete _ signed behind scanned

/-- A header of a COD and a comment, cut inside the COD. -/
def plainHeader : List Chunk :=
  [⟨0, [0xFF, 0x4F, 0xFF, 0x52, 0, 14, 1, 3, 0]⟩,
   ⟨1, [1, 0, 1, 5, 2, 0x48, 1, 0xFF, 0xFF, 0xFF, 0x64, 0, 3, 7, 0xFF, 0x93]⟩]

theorem header_walks_agree_plainHeader :
    Conforms {} (chainBytes plainHeader) ∧
    ∃ r m' t, parseMainHeader {} { chunks := plainHeader } = some (r, m', t) ∧ r ≠ 0 ∧
      r = (geometrySignature (chainBytes plainHeader)).2 := by
  have conforms : Conforms {} (chainBytes plainHeader) := by decide +kernel
  have first : (parseMainHeader {} { chunks := plainHeader }).map Prod.fst = some 25 := by
    decide +kernel
  obtain ⟨⟨r, m', t⟩, parsed, rfl⟩ := Option.map_eq_some_iff.mp first
  refine ⟨conforms, 25, m', t, parsed, by decide, ?_⟩
  exact (header_walks_agree {} plainHeader (by decide) Prod.mk.eta.symm (by decide +kernel)
    parsed (by decide)).2 conforms

/-- A DFS that declares four bytes is left behind its length word, so that the two bytes
after it are taken for a marker, here SOD. -/
def shortDfs : List Chunk := [⟨0, [0xFF, 0x4F, 0xFF, 0x72, 0, 4, 0xFF, 0x93, 0xFF, 0x93]⟩]

theorem walks_disagree_shortDfs : (∀ c ∈ shortDfs, c.bytes ≠ []) ∧
    (geometrySignature (chainBytes shortDfs)).1 ≠ 0 ∧
    (geometrySignature (chainBytes shortDfs)).2 = 10 ∧
    ∃ m' t, parseMainHeader {} { chunks := shortDfs } = some (8, m', t) := by
  have first : (parseMainHeader {} { chunks := shortDfs }).map Prod.fst = some 8 := by
    decide +kernel
  obtain ⟨⟨r, m', t⟩, parsed, rfl⟩ := Option.map_eq_some_iff.mp first
  exact ⟨by decide, by decide +kernel, by decide +kernel, m', t, parsed⟩

/-- Behind the code-block height that it refuses, this COD holds what looks like an empty
comment. -/
def luckyHeader : List UInt8 :=
  [0xFF, 0x4F, 0xFF, 0x52, 0, 14, 1, 3, 0, 1, 0, 1, 5, 9, 0xFF, 0x64, 0, 2, 0xFF, 0x93]

-- So the ends may be the same by chance.
example : ¬ Conforms {} luckyHeader ∧
    (parseMainHeader {} { chunks := [⟨0, luckyHeader⟩] }).map Prod.fst =
      some (geometrySignature luckyHeader).2 := by
  decide +kernel

end RtpDecoder.Header
