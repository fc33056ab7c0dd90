import RtpDecoder.Header.Geometry

/-!
# Framed headers

A main header is SOC, any number of marker segments, each with its code and its length, and SOD.
`geometry_signature` accepts exactly these headers, whatever their segments hold, and what it
returns depends on the geometry segments among them only. On the way it never reads behind the
end of its buffer.
-/

namespace RtpDecoder.Header

variable {mh : List UInt8} {off : Nat}

/-! ### The reads of the scan -/

/-- `rd16`, which fails behind the end of the buffer. -/
def rd16Checked (mh : List UInt8) (off : Nat) : Option Nat :=
  match mh[off]?, mh[off + 1]? with
  | some high, some low => some (high.toNat * 256 + low.toNat)
  | _, _ => none

/-- `mix` byte by byte, with `n` bytes from `off` on. -/
def mixChecked (mh : List UInt8) : Nat → Nat → BitVec 64 → Option (BitVec 64)
  | _, 0, h => some h
  | off, n + 1, h => match mh[off]? with
    | none => none
    | some b => mixChecked mh (off + 1) n ((h ^^^ b.toBitVec.setWidth 64) * 1099511628211#64)

/-- The loop of `geometry_signature`, which fails as soon as a byte behind the buffer is read. -/
def signatureLoopChecked (mh : List UInt8) : Nat → Nat → BitVec 64 → Option (BitVec 64 × BitVec 32)
  | 0, _, _ => some (0, 0)
  | fuel + 1, off, h =>
    if mh.length < off + 2 then some (0, 0)
    else do
      let marker ← rd16Checked mh off
      if marker = MarkerCode.sod then some (if h = 0 then 1 else h, BitVec.ofNat 32 (off + 2))
      else if !MarkerCode.legal marker then some (0, 0)
      else if mh.length < off + 4 then some (0, 0)
      else do
        let seg ← rd16Checked mh (off + 2)
        if seg < 2 ∨ mh.length < off + 2 + seg then some (0, 0)
        else do
          let h ← if MarkerCode.geometric marker then mixChecked mh off (2 + seg) h else some h
          signatureLoopChecked mh fuel (off + 2 + seg) h

def geometrySignatureChecked (mh : List UInt8) : Option (BitVec 64 × BitVec 32) :=
  if mh.length < 4 then some (0, 0)
  else do
    let soc ← rd16Checked mh 0
    if soc ≠ MarkerCode.soc then some (0, 0)
    else signatureLoopChecked mh mh.length 2 1469598103934665603#64

private theorem rd16Checked_eq (inside : off + 2 ≤ mh.length) : rd16Checked mh off = some (rd16 mh off) := by
  have first : off < mh.length := by omega
  have second : off + 1 < mh.length := by omega
  simp [rd16Checked, rd16, first, second]

private theorem mixChecked_eq (n : Nat) (inside : off + n ≤ mh.length)
    (h : BitVec 64) : mixChecked mh off n h = some (mix h ((mh.drop off).take n)) := by
  induction n generalizing off h with
  | zero => rfl
  | succ n ih =>
    have first : off < mh.length := by omega
    rw [List.drop_eq_getElem_cons first, List.take_succ_cons]
    simp only [mixChecked, List.getElem?_eq_getElem first]
    exact ih (by omega) _

private theorem signatureLoopChecked_eq (mh : List UInt8) (fuel off : Nat) (h : BitVec 64) :
    signatureLoopChecked mh fuel off h = some (signatureLoop mh fuel off h) := by
  induction fuel generalizing off h with
  | zero => rfl
  | succ fuel ih =>
    simp only [signatureLoopChecked, signatureLoop]
    by_cases short : mh.length < off + 2
    · simp only [short, if_true]
    rw [if_neg short, if_neg short, rd16Checked_eq (Nat.not_lt.mp short)]
    simp only [Option.bind_eq_bind, Option.bind_some]
    split
    · rfl
    split
    · rfl
    split
    · rfl
    next long =>
      rw [rd16Checked_eq (by omega)]
      simp only [Option.bind_some]
      split
      · rfl
      next fits =>
        -- A segment that is hashed lies inside, with marker and length.
        split
        · rw [mixChecked_eq _ (by omega), Option.bind_some, ih]
        · rw [ih]

/-- No read is behind the end of the buffer. -/
theorem geometrySignatureChecked_eq (mh : List UInt8) :
    geometrySignatureChecked mh = some (geometrySignature mh) := by
  unfold geometrySignatureChecked geometrySignature
  by_cases short : mh.length < 4
  · simp [short]
  · rw [if_neg short, rd16Checked_eq (by omega)]
    simp only [Option.bind_eq_bind, Option.bind_some, signatureLoopChecked_eq, short, false_or]
    split <;> rfl

/-! ### The grammar -/

/-- A marker segment: a code `0xFFxx` other than SOD and EOC, and a payload whose length fits the
length field, which counts itself too. -/
structure RawSegment where
  code : UInt8
  payload : List UInt8
  legal : code ≠ 0x93 ∧ code ≠ 0xD9
  fits : payload.length + 2 < 2 ^ 16

namespace RawSegment

def marker (g : RawSegment) : Nat := 0xFF00 + g.code.toNat

/-- The length field, as the payload gives it. -/
def length (g : RawSegment) : Nat := g.payload.length + 2

def bytes (g : RawSegment) : List UInt8 :=
  [0xFF, g.code, UInt8.ofNat (g.length / 256), UInt8.ofNat g.length] ++ g.payload

def isGeometry (g : RawSegment) : Bool := MarkerCode.geometric g.marker

end RawSegment

/-- SOC, the segments and SOD, with anything behind. -/
def framed (segments : List RawSegment) (rest : List UInt8) : List UInt8 :=
  [0xFF, 0x4F] ++ segments.flatMap RawSegment.bytes ++ [0xFF, 0x93] ++ rest

/-- The geometry segments, byte for byte. -/
def geometryOf (segments : List RawSegment) : List (List UInt8) :=
  (segments.filter RawSegment.isGeometry).map RawSegment.bytes

theorem rd16_of_drop {xs : List UInt8} {a b : UInt8} (here : mh.drop off = a :: b :: xs) :
    rd16 mh off = a.toNat * 256 + b.toNat ∧ off + 2 + xs.length = mh.length ∧ mh.drop (off + 2) = xs := by
  have length := congrArg List.length here
  simp only [List.length_drop, List.length_cons] at length
  have first : mh[off]? = some a := by
    rw [← List.head?_drop, here]
    rfl
  have second : mh[off + 1]? = some b := by
    rw [← List.head?_drop, ← List.drop_drop, here]
    rfl
  refine ⟨?_, by omega, ?_⟩
  · simp [rd16, List.getD, first, second]
  · rw [← List.drop_drop, here]
    rfl

private theorem bytes_of_word {high low a b : UInt8}
    (same : high.toNat * 256 + low.toNat = a.toNat * 256 + b.toNat) : high = a ∧ low = b := by
  have small := And.intro low.toNat_lt b.toNat_lt
  constructor <;> apply UInt8.toNat.inj <;> omega

private theorem word_toNat {n : Nat} (small : n < 2 ^ 16) :
    (UInt8.ofNat (n / 256)).toNat * 256 + (UInt8.ofNat n).toNat = n := by
  simp only [UInt8.toNat_ofNat']
  omega

theorem marker_legal (g : RawSegment) : MarkerCode.legal g.marker = true ∧ g.marker ≠ MarkerCode.sod := by
  have small := g.code.toNat_lt
  have sod : g.code.toNat ≠ 0x93 := fun same => g.legal.1 (UInt8.toNat.inj same)
  have eoc : g.code.toNat ≠ 0xD9 := fun same => g.legal.2 (UInt8.toNat.inj same)
  simp only [MarkerCode.legal, RawSegment.marker, MarkerCode.eoc, MarkerCode.sod, Bool.and_eq_true, beq_iff_eq,
    bne_iff_ne]
  omega

theorem bytes_length (g : RawSegment) : g.bytes.length = 2 + g.length := by
  simp only [RawSegment.bytes, RawSegment.length, List.length_append, List.length_cons, List.length_nil]
  omega

/-- What the scan finds where a segment stands. -/
theorem segment_at {tail : List UInt8} {g : RawSegment}
    (here : mh.drop off = g.bytes ++ tail) :
    rd16 mh off = g.marker ∧ rd16 mh (off + 2) = g.length ∧
      off + 2 + g.length + tail.length = mh.length ∧
      (mh.drop off).take (2 + g.length) = g.bytes ∧ mh.drop (off + 2 + g.length) = tail := by
  have spelled : mh.drop off =
      0xFF :: g.code :: UInt8.ofNat (g.length / 256) :: UInt8.ofNat g.length :: (g.payload ++ tail) := here
  obtain ⟨marker, _, behind⟩ := rd16_of_drop spelled
  obtain ⟨declared, length, _⟩ := rd16_of_drop behind
  have small : g.length < 2 ^ 16 := g.fits
  rw [word_toNat small] at declared
  have whole := bytes_length g
  refine ⟨marker, declared, ?_, ?_, ?_⟩
  · simp only [List.length_append, RawSegment.length] at length ⊢
    omega
  · rw [here, ← whole, List.take_left]
  · rw [Nat.add_assoc, ← List.drop_drop, here, ← whole, List.drop_left]

/-! ### The scan and the grammar -/

private theorem geometryOf_cons (g : RawSegment) (later : List RawSegment) :
    geometryOf (g :: later) = (if MarkerCode.geometric g.marker then [g.bytes] else []) ++ geometryOf later := by
  cases kind : MarkerCode.geometric g.marker <;> simp [geometryOf, RawSegment.isGeometry, kind]

private theorem geometryFrom_framed {rest : List UInt8} (segments : List RawSegment) (fuel : Nat)
    (enough : segments.length < fuel)
    (here : mh.drop off = segments.flatMap RawSegment.bytes ++ 0xFF :: 0x93 :: rest) :
    geometryFrom mh fuel off =
      some ⟨geometryOf segments, off + (segments.flatMap RawSegment.bytes).length + 2⟩ := by
  induction segments generalizing fuel off with
  | nil =>
    obtain ⟨fuel, rfl⟩ : ∃ n, fuel = n + 1 := ⟨fuel - 1, by omega⟩
    obtain ⟨marker, length, _⟩ := rd16_of_drop here
    have sod : rd16 mh off = MarkerCode.sod := marker
    have inside : ¬ mh.length < off + 2 := by omega
    simp only [geometryFrom, if_neg inside, sod, if_true]
    rfl
  | cons g later ih =>
    obtain ⟨fuel, rfl⟩ : ∃ n, fuel = n + 1 := ⟨fuel - 1, by omega⟩
    rw [List.flatMap_cons, List.append_assoc] at here
    obtain ⟨marker, declared, length, bytes, behind⟩ := segment_at here
    obtain ⟨legal, other⟩ := marker_legal g
    have least : 2 ≤ g.length := Nat.le_add_left 2 _
    have inside : ¬ mh.length < off + 2 := by omega
    have fits : ¬ ((!MarkerCode.legal g.marker) = true ∨ g.length < 2 ∨ mh.length < off + 2 + g.length) := by
      simp only [legal, Bool.not_true, Bool.false_eq_true, false_or]
      omega
    have found := ih fuel (by simpa using enough) behind
    simp only [geometryFrom, if_neg inside, marker, declared, if_neg other, if_neg fits, found, Option.map_some, bytes,
      geometryOf_cons, List.flatMap_cons, List.length_append, bytes_length]
    congr 2
    omega

private theorem drop_two (mh : List UInt8) (off : Nat) (inside : off + 2 ≤ mh.length) :
    ∃ a b xs, mh.drop off = a :: b :: xs := by
  rw [List.drop_eq_getElem_cons (by omega), List.drop_eq_getElem_cons (by omega)]
  exact ⟨_, _, _, rfl⟩

/-- A segment stands where the checks of the scan pass. -/
private theorem segment_of_checked (legal : MarkerCode.legal (rd16 mh off) = true)
    (other : rd16 mh off ≠ MarkerCode.sod) (least : 2 ≤ rd16 mh (off + 2))
    (fits : off + 2 + rd16 mh (off + 2) ≤ mh.length) :
    ∃ g : RawSegment, mh.drop off = g.bytes ++ mh.drop (off + 2 + rd16 mh (off + 2)) := by
  obtain ⟨high, low, xs, here⟩ := drop_two mh off (by omega)
  obtain ⟨marker, _, behind⟩ := rd16_of_drop here
  obtain ⟨a, b, ys, there⟩ := drop_two mh (off + 2) (by omega)
  obtain ⟨declared, length, payload⟩ := rd16_of_drop there
  generalize rd16 mh (off + 2) = seg at *
  have bounds := And.intro a.toNat_lt b.toNat_lt
  have code := low.toNat_lt
  -- The code is `0xFFxx`, and neither of the two that are excluded.
  simp only [MarkerCode.legal, MarkerCode.eoc, MarkerCode.sod, Bool.and_eq_true, beq_iff_eq, bne_iff_ne,
    marker] at legal other
  have first : high = 0xFF := UInt8.toNat.inj (by change high.toNat = 0xFF; omega)
  have allowed : low ≠ 0x93 ∧ low ≠ 0xD9 := by
    rw [first] at legal other
    constructor <;> rintro rfl
    · exact other rfl
    · exact legal.2 rfl
  have size : (ys.take (seg - 2)).length + 2 = seg := by
    rw [List.length_take]
    omega
  refine ⟨⟨low, ys.take (seg - 2), allowed, by omega⟩, ?_⟩
  have field : UInt8.ofNat (seg / 256) = a ∧ UInt8.ofNat seg = b := by
    constructor <;> apply UInt8.toNat.inj <;> rw [UInt8.toNat_ofNat'] <;> omega
  have split : mh.drop (off + 2 + seg) = ys.drop (seg - 2) := by
    rw [← payload, List.drop_drop]
    congr 1
    omega
  simp only [RawSegment.bytes, RawSegment.length, size, field, split, first, here, ← behind, there]
  simp

/-- A header that the scan accepts is framed. -/
private theorem framed_of_geometryFrom {fuel : Nat} {g : Geometry}
    (formed : geometryFrom mh fuel off = some g) :
    ∃ (segments : List RawSegment) (rest : List UInt8),
      mh.drop off = segments.flatMap RawSegment.bytes ++ 0xFF :: 0x93 :: rest := by
  induction fuel generalizing off g with
  | zero => cases formed
  | succ fuel ih =>
    simp only [geometryFrom] at formed
    split at formed
    · cases formed
    next inside =>
      obtain ⟨high, low, behind, here⟩ := drop_two mh off (Nat.not_lt.mp inside)
      obtain ⟨marker, length, next⟩ := rd16_of_drop here
      split at formed
      next sod =>
        have codes : high = 0xFF ∧ low = 0x93 := bytes_of_word (marker.symm.trans sod)
        exact ⟨[], behind, by rw [here, codes.1, codes.2]; rfl⟩
      next other =>
        split at formed
        · cases formed
        next checked =>
          simp only [Bool.not_eq_true', not_or, Bool.not_eq_false, Nat.not_lt] at checked
          obtain ⟨legal, least, fits⟩ := checked
          obtain ⟨rest, later, _⟩ := Option.map_eq_some_iff.mp formed
          obtain ⟨segments, rest, there⟩ := ih later
          obtain ⟨segment, here⟩ := segment_of_checked legal other least fits
          exact ⟨segment :: segments, rest, by rw [here, there, List.flatMap_cons, List.append_assoc]⟩

theorem length_le_flatMap (segments : List RawSegment) :
    segments.length ≤ (segments.flatMap RawSegment.bytes).length := by
  induction segments with
  | nil => exact Nat.le_refl _
  | cons g later ih =>
    have whole := bytes_length g
    simp only [List.flatMap_cons, List.length_cons, List.length_append]
    omega

theorem geometry_framed (segments : List RawSegment) (rest : List UInt8) :
    geometry (framed segments rest) = some ⟨geometryOf segments, (framed segments []).length⟩ := by
  have few := length_le_flatMap segments
  have behind : (framed segments rest).drop 2 = segments.flatMap RawSegment.bytes ++ 0xFF :: 0x93 :: rest := by
    simp [framed]
  have start : (framed segments rest).drop 0 = 0xFF :: 0x4F :: _ := rfl
  have soc : rd16 (framed segments rest) 0 = MarkerCode.soc := (rd16_of_drop start).1
  have length : (framed segments rest).length =
      2 + (segments.flatMap RawSegment.bytes).length + 2 + rest.length := by simp [framed]; omega
  have found := geometryFrom_framed segments (framed segments rest).length (by omega) behind
  rw [geometry, if_neg (by simp only [soc, ne_eq, not_true, or_false]; omega), found]
  congr 2
  simp [framed]
  omega

theorem framed_of_geometry {g : Geometry} (formed : geometry mh = some g) :
    ∃ segments rest, mh = framed segments rest := by
  simp only [geometry] at formed
  split at formed
  · cases formed
  next start =>
    simp only [not_or, Nat.not_lt, ne_eq, not_not] at start
    obtain ⟨segments, rest, behind⟩ := framed_of_geometryFrom formed
    obtain ⟨high, low, xs, whole⟩ := drop_two mh 0 (by omega)
    obtain ⟨marker, _, same⟩ := rd16_of_drop whole
    have codes : high = 0xFF ∧ low = 0x4F := bytes_of_word (marker.symm.trans start.2)
    refine ⟨segments, rest, ?_⟩
    rw [Nat.zero_add] at same
    rw [List.drop_zero, ← same, behind, codes.1, codes.2] at whole
    simp [whole, framed]

theorem geometrySignature_framed_ne_zero (segments : List RawSegment) (rest : List UInt8) :
    (geometrySignature (framed segments rest)).1 ≠ 0 := by
  rw [geometrySignature_eq, geometry_framed]
  exact segmentsHash_ne_zero _ _

/-- `geometry_signature` of any buffer: no read behind the end; the signature is not 0 exactly for
framed headers; and for these the offset is the one behind SOD, as far as it fits, and two headers
with the same geometry segments have the same signature. -/
theorem signature_of_framed (mh : List UInt8) :
    geometrySignatureChecked mh = some (geometrySignature mh) ∧
      ((geometrySignature mh).1 ≠ 0 ↔ ∃ segments rest, mh = framed segments rest) ∧
      ∀ segments rest, mh = framed segments rest →
        (geometrySignature mh).2 = BitVec.ofNat 32 (framed segments []).length ∧
        ∀ segments' rest', geometryOf segments' = geometryOf segments →
          (geometrySignature (framed segments' rest')).1 = (geometrySignature mh).1 := by
  refine ⟨geometrySignatureChecked_eq mh, ⟨fun accepted => ?_, ?_⟩, ?_⟩
  · cases formed : geometry mh with
    | none =>
      rw [geometrySignature_eq, formed] at accepted
      exact absurd rfl accepted
    | some g => exact framed_of_geometry formed
  · rintro ⟨segments, rest, rfl⟩
    exact geometrySignature_framed_ne_zero segments rest
  · rintro segments rest rfl
    rw [geometrySignature_eq, geometry_framed]
    refine ⟨rfl, fun segments' rest' same => ?_⟩
    rw [geometrySignature_eq, geometry_framed, same]

/-- A comment in front of the COD segment and bytes behind SOD make no difference. -/
theorem signature_of_framed_comment :
    let cod : RawSegment := ⟨0x52, [1, 2, 3], by decide, by decide⟩
    let com : RawSegment := ⟨0x64, [7], by decide, by decide⟩
    (geometrySignature (framed [com, cod] [9])).1 = (geometrySignature (framed [cod] [])).1 := by
  intro cod com
  exact ((signature_of_framed (framed [cod] [])).2.2 [cod] [] rfl).2 [com, cod] [9] rfl

private theorem length_framed_replicate (n : Nat) (g : RawSegment) :
    n * (2 + g.length) ≤ (framed (List.replicate n g) []).length := by
  have segments : ((List.replicate n g).flatMap RawSegment.bytes).length = n * (2 + g.length) := by
    simp [List.flatMap, bytes_length]
  simp only [framed, List.length_append, segments]
  omega

theorem comment_legal : (0x64 : UInt8) ≠ 0x93 ∧ (0x64 : UInt8) ≠ 0xD9 := by decide

/-- A comment of the greatest length. -/
def longComment : RawSegment :=
  ⟨0x64, List.replicate 65533 0, comment_legal, by rw [List.length_replicate]; decide⟩

private theorem length_of_zeros {n : Nat} {g : RawSegment} (zeros : g.payload = List.replicate n 0) :
    g.length = n + 2 := by
  rw [RawSegment.length, zeros, List.length_replicate]

private theorem offset_wraps_of_long {n : Nat} {g : RawSegment} (long : 2 ^ 32 ≤ n * (2 + g.length)) :
    (geometrySignature (framed (List.replicate n g) [])).2.toNat ≠ (framed (List.replicate n g) []).length := by
  have bound := (geometrySignature (framed (List.replicate n g) [])).2.isLt
  have length := length_framed_replicate n g
  omega

/-- Many comments put SOD behind the range of the offset. -/
theorem sod_offset_wraps :
    ∃ segments, (geometrySignature (framed segments [])).1 ≠ 0 ∧
      (geometrySignature (framed segments [])).2.toNat ≠ (framed segments []).length := by
  have length : longComment.length = 65533 + 2 := length_of_zeros rfl
  refine ⟨List.replicate 65537 longComment, geometrySignature_framed_ne_zero _ [], offset_wraps_of_long ?_⟩
  rw [length]
  decide

end RtpDecoder.Header
