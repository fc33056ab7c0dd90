import RtpDecoder.Header.Agreement

/-!
# The geometry of a header

A header that is well formed by the lengths its segments declare has a sequence of geometry
segments and an end. `geometry_signature` is a hash of that sequence; a header that
`parse_main_header` accepts and whose segments conform to the functions that read them is
well formed, and is left at its end.
-/

namespace RtpDecoder.Header

open RtpDecoder.Parser (Chunk Codestream chainBytes)

/-- The segments with marker and length, and the offset behind SOD. -/
structure Geometry where
  segments : List (List UInt8)
  sodEnd : Nat
deriving DecidableEq, Repr

def geometryFrom (mh : List UInt8) : Nat → Nat → Option Geometry
  | 0, _ => none
  | fuel + 1, off =>
    let marker := rd16 mh off
    let seg := rd16 mh (off + 2)
    if mh.length < off + 2 then none
    else if marker = MarkerCode.sod then some ⟨[], off + 2⟩
    else if !MarkerCode.legal marker ∨ seg < 2 ∨ mh.length < off + 2 + seg then none
    else (geometryFrom mh fuel (off + 2 + seg)).map fun g => { g with
      segments := (if MarkerCode.geometric marker then [(mh.drop off).take (2 + seg)] else []) ++ g.segments }

/-- The geometry of a well-formed header. -/
def geometry (mh : List UInt8) : Option Geometry :=
  if mh.length < 4 ∨ rd16 mh 0 ≠ MarkerCode.soc then none else geometryFrom mh mh.length 2

/-- The hash of a sequence of segments; never 0. -/
def segmentsHash (h : BitVec 64) (segments : List (List UInt8)) : BitVec 64 :=
  if segments.foldl mix h = 0 then 1 else segments.foldl mix h

theorem segmentsHash_ne_zero (h : BitVec 64) (segments : List (List UInt8)) : segmentsHash h segments ≠ 0 := by
  simp only [segmentsHash]
  split
  · decide
  next other => exact other

/-! ### The signature is a hash of the geometry -/

private theorem signatureLoop_eq (mh : List UInt8) (fuel off : Nat) (h : BitVec 64) :
    signatureLoop mh fuel off h = match geometryFrom mh fuel off with
      | none => (0, 0)
      | some g => (segmentsHash h g.segments, BitVec.ofNat 32 g.sodEnd) := by
  induction fuel generalizing off h with
  | zero => rfl
  | succ fuel ih =>
    simp only [signatureLoop, geometryFrom]
    by_cases short : mh.length < off + 2
    · simp only [short, if_true]
    by_cases marker : rd16 mh off = MarkerCode.sod
    · simp only [short, marker, if_false, if_true]
      rfl
    by_cases legal : MarkerCode.legal (rd16 mh off) = true
    · by_cases bad : rd16 mh (off + 2) < 2 ∨ mh.length < off + 2 + rd16 mh (off + 2)
      · simp only [short, marker, legal, bad, if_false, if_true, or_true, ite_self, Bool.not_true,
          Bool.false_eq_true]
      · have long : ¬ mh.length < off + 4 := by omega
        simp only [short, marker, legal, bad, long, if_false, or_false, Bool.not_true, Bool.false_eq_true, ih]
        cases geometryFrom mh fuel (off + 2 + rd16 mh (off + 2)) with
        | none => rfl
        | some g =>
          cases kind : MarkerCode.geometric (rd16 mh off) <;> rfl
    · simp only [short, marker, legal, if_false, if_true, Bool.not_false, true_or]

/-- From the FNV-1a offset basis on; 0 stands for a header that is not well formed. -/
theorem geometrySignature_eq (mh : List UInt8) :
    geometrySignature mh = match geometry mh with
      | none => (0, 0)
      | some g => (segmentsHash 1469598103934665603#64 g.segments, BitVec.ofNat 32 g.sodEnd) := by
  simp only [geometrySignature, geometry]
  split
  · rfl
  · exact signatureLoop_eq mh mh.length 2 _

private theorem geometryFrom_inside {mh : List UInt8} {fuel off : Nat} {g : Geometry}
    (formed : geometryFrom mh fuel off = some g) : off + 2 ≤ mh.length ∧ off + 2 ≤ g.sodEnd ∧
      g.sodEnd ≤ mh.length := by
  induction fuel generalizing off g with
  | zero => cases formed
  | succ fuel ih =>
    simp only [geometryFrom] at formed
    split at formed
    · cases formed
    next inside =>
      split at formed
      · cases formed
        exact ⟨Nat.not_lt.mp inside, Nat.le_refl _, Nat.not_lt.mp inside⟩
      split at formed
      · cases formed
      · obtain ⟨rest, later, rfl⟩ := Option.map_eq_some_iff.mp formed
        obtain ⟨_, start, stop⟩ := ih later
        exact ⟨Nat.not_lt.mp inside, Nat.le_trans (by omega) start, stop⟩

theorem geometry_inside {mh : List UInt8} {g : Geometry} (formed : geometry mh = some g) :
    4 ≤ g.sodEnd ∧ g.sodEnd ≤ mh.length := by
  simp only [geometry] at formed
  split at formed
  · cases formed
  · exact (geometryFrom_inside formed).2

/-! ### Accepted headers that conform -/

private theorem two_le_segmentLength (ctx : Context) (mh : List UInt8) (marker off : Nat) :
    2 ≤ segmentLength ctx mh marker off := by
  simp only [segmentLength]
  split_ifs <;> omega

private theorem geometryFrom_of_conforms {mh : List UInt8} {m' : Markers} {t : Codestream} (fuel : Nat)
    {off fuel' : Nat} {m : Markers} {s : Codestream} (enough : mh.length ≤ off + fuel)
    (here : StandsAt mh off s) (conforms : ConformsFrom mh fuel m off)
    (scanned : scanMarkers fuel' m s = some (true, m', t)) :
    ∃ g, geometryFrom mh fuel off = some g ∧ t.pos = g.sodEnd := by
  induction fuel generalizing off fuel' m s with
  | zero =>
    cases fuel' with
    | zero => cases scanned
    | succ fuel' =>
      rcases scanMarkers_inv here scanned with ⟨marker, _⟩ | ⟨_, legal, _⟩
      · have inside := inside_of_sod marker
        omega
      · have inside := inside_of_legal legal
        omega
  | succ fuel ih =>
    cases fuel' with
    | zero => cases scanned
    | succ fuel' =>
      rcases scanMarkers_inv here scanned with ⟨marker, rfl⟩ | ⟨marker, legal, u, _, there, scanned'⟩
      · have inside := inside_of_sod marker
        refine ⟨⟨[], off + 2⟩, ?_, ?_⟩
        · simp only [geometryFrom, Nat.not_lt.mpr inside, marker, if_false, if_true]
        · exact here.getWord.2.place.trans (Nat.min_eq_left inside)
      · simp only [ConformsFrom] at conforms
        obtain ⟨taken, rest⟩ := conforms.resolve_left marker
        have length := two_le_segmentLength m.context mh (rd16 mh off) (off + 2)
        rw [taken] at there length
        obtain ⟨g, formed, place⟩ := ih (by omega) there rest scanned'
        -- The rest of the header begins inside the buffer, so the segment ends there.
        have inside := (geometryFrom_inside formed).1
        have checked : ¬ ((!MarkerCode.legal (rd16 mh off)) = true ∨ rd16 mh (off + 2) < 2 ∨
            mh.length < off + 2 + rd16 mh (off + 2)) := by
          simp only [legal, Bool.not_true, Bool.false_eq_true, false_or]
          omega
        simp only [geometryFrom, if_neg (show ¬ mh.length < off + 2 by omega), if_neg marker, if_neg checked,
          formed, Option.map_some]
        exact ⟨_, rfl, place⟩

/-- A header that is accepted, and whose segments declare what their functions take, is well
formed, and the reader is left at its end. -/
theorem geometry_of_conforms {mh : List UInt8} {m m' : Markers} {s t : Codestream} {r : BitVec 32}
    (here : StandsAt mh 0 s) (conforms : Conforms m mh)
    (parsed : parseMainHeader m s = some (r, m', t)) (accepted : r ≠ 0) :
    ∃ g, geometry mh = some g ∧ t.pos = g.sodEnd := by
  obtain ⟨word, behind⟩ := here.getWord
  simp only [parseMainHeader] at parsed
  split at parsed
  · cases parsed
    exact absurd rfl accepted
  next soc =>
    rw [word, not_not] at soc
    split at parsed
    · cases parsed
    next found _ _ scanned =>
      cases found with
      | false =>
        cases parsed
        exact absurd rfl accepted
      | true =>
        cases parsed
        obtain ⟨g, formed, place⟩ := geometryFrom_of_conforms mh.length (by omega) behind conforms scanned
        have long := (geometryFrom_inside formed).1
        refine ⟨g, ?_, place⟩
        rw [geometry, if_neg (by omega), formed]

end RtpDecoder.Header
