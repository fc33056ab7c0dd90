import RtpDecoder.Header.Segment

/-!
# The main header

`parse_main_header` reads marker segments up to SOD and stores each into the marker
structs. What a segment looks like in the chain depends on the structs in three places: the
SSO word of COD and COC on `Rsiz`, the steps of QCD on `NL` and on the types of the DFS.
-/

namespace RtpDecoder.Header

open RtpDecoder.Parser (Codestream)

namespace MarkerCode

def soc : Nat := 0xFF4F
def cap : Nat := 0xFF50
def siz : Nat := 0xFF51
def cod : Nat := 0xFF52
def coc : Nat := 0xFF53
def qcd : Nat := 0xFF5C
def qcc : Nat := 0xFF5D
def dfs : Nat := 0xFF72
def atk : Nat := 0xFF79
def sod : Nat := 0xFF93
def eoc : Nat := 0xFFD9

/-- A code that may stand before SOD. -/
def legal (marker : Nat) : Bool := marker / 256 == 0xFF && marker != eoc

end MarkerCode

/-- The `switch` over the marker. -/
def parseSegment (m : Markers) (marker : Nat) : HeaderParser MarkerSegment :=
  if marker = MarkerCode.siz then parseSIZ
  else if marker = MarkerCode.cap then parseCAP
  else if marker = MarkerCode.cod then parseCOD m.siz.rsiz
  else if marker = MarkerCode.qcd then parseQCD m.cod.nl (entry m.dfs.type)
  else if marker = MarkerCode.coc then parseCOC m.siz.rsiz
  else if marker = MarkerCode.dfs then parseDFS
  else skipMarker

/-- The loop up to SOD. The Boolean says whether SOD was found. -/
def scanMarkers : Nat → Markers → Codestream → Option (Bool × Markers × Codestream)
  | 0, _, _ => none
  | fuel + 1, m, s =>
    let marker := s.getWord.1.toNat
    if marker = MarkerCode.sod then some (true, m, s.getWord.2)
    else if !MarkerCode.legal marker then some (false, m, s.getWord.2)
    else match (parseSegment m marker).run s.getWord.2 with
      | none => none
      | some (seg, t) => scanMarkers fuel (seg.store m) t

/-- `parse_main_header`: the offset behind SOD, 0 for a failure. Every turn of the loop
takes a byte from the chain. -/
def parseMainHeader (m : Markers) (s : Codestream) : Option (BitVec 32 × Markers × Codestream) :=
  if s.getWord.1.toNat ≠ MarkerCode.soc then some (0, m, s.getWord.2)
  else match scanMarkers (s.getWord.2.remaining + 1) m s.getWord.2 with
    | none => none
    | some (found, m', t) => some (if found then t.getPos else 0, m', t)

/-! ### The scan ends -/

theorem getWord_toNat (s : Codestream) :
    s.getWord.1.toNat = s.getByte.1.toNat * 256 + s.getByte.2.getByte.1.toNat := by
  have low := s.getByte.2.getByte.1.toBitVec.isLt
  change (s.getByte.1.toBitVec ++ s.getByte.2.getByte.1.toBitVec).toNat = _
  rw [BitVec.toNat_append, ← Nat.shiftLeft_add_eq_or_of_lt low, Nat.shiftLeft_eq]
  rfl

/-- A marker takes at least its first byte from the chain. -/
theorem remaining_of_legal {s : Codestream} (legal : MarkerCode.legal s.getWord.1.toNat = true) :
    s.getWord.2.remaining < s.remaining := by
  -- The high byte of a marker is `0xFF`.
  have first : s.getByte.1 ≠ 0 := by
    intro zero
    have low : s.getByte.2.getByte.1.toNat < 256 := s.getByte.2.getByte.1.toNat_lt
    simp only [MarkerCode.legal, getWord_toNat, zero, Bool.and_eq_true, beq_iff_eq] at legal
    have high := legal.1
    simp only [UInt8.toNat_zero] at high
    omega
  exact Nat.lt_of_le_of_lt (ahead_getByte _).2 (s.remaining_getByte_lt first)

/-- More fuel than there are bytes left changes nothing. -/
theorem scanMarkers_enough (fuel extra : Nat) (m : Markers) (s : Codestream)
    (enough : s.remaining < fuel) : scanMarkers (fuel + extra) m s = scanMarkers fuel m s := by
  induction fuel generalizing m s with
  | zero => omega
  | succ fuel ih =>
    rw [Nat.add_right_comm]
    simp only [scanMarkers]
    split
    · rfl
    split
    · rfl
    next legal =>
      cases read : (parseSegment m s.getWord.1.toNat).run s.getWord.2 with
      | none => rfl
      | some r =>
        have taken := remaining_of_legal (by simpa using legal)
        -- What the marker took is not given back by its segment.
        have moved := ((parseSegment m s.getWord.1.toNat).forward read).2
        exact ih _ _ (by omega)

theorem scanMarkers_chunks (fuel : Nat) (m : Markers) (s : Codestream) {r : Bool × Markers × Codestream}
    (returned : scanMarkers fuel m s = some r) : r.2.2.chunks = s.chunks := by
  induction fuel generalizing m s with
  | zero => cases returned
  | succ fuel ih =>
    have behind : s.getWord.2.chunks = s.chunks := (ahead_getWord s).1
    simp only [scanMarkers] at returned
    split at returned
    · cases returned
      exact behind
    split at returned
    · cases returned
      exact behind
    split at returned
    · cases returned
    next read =>
      exact (ih _ _ returned).trans (((parseSegment m _).forward read).1.trans behind)

theorem parseMainHeader_chunks {m : Markers} {s : Codestream} {r : BitVec 32 × Markers × Codestream}
    (returned : parseMainHeader m s = some r) : r.2.2.chunks = s.chunks := by
  have behind : s.getWord.2.chunks = s.chunks := (ahead_getWord s).1
  simp only [parseMainHeader] at returned
  split at returned
  · cases returned
    exact behind
  split at returned
  · cases returned
  next scanned =>
    cases returned
    exact (scanMarkers_chunks _ _ _ scanned).trans behind

/-! ### The geometry signature -/

def rd16 (mh : List UInt8) (off : Nat) : Nat := (mh.getD off 0).toNat * 256 + (mh.getD (off + 1) 0).toNat

/-- FNV-1a over some bytes. -/
def mix (h : BitVec 64) (bytes : List UInt8) : BitVec 64 :=
  bytes.foldl (fun h b => (h ^^^ b.toBitVec.setWidth 64) * 1099511628211#64) h

/-- The marker segments that define the geometry. -/
def MarkerCode.geometric (marker : Nat) : Bool := [siz, cod, coc, qcd, qcc, dfs, atk].contains marker

/-- The loop of `geometry_signature`: the hash, 0 for a header that is not complete, and the
offset behind SOD. -/
def signatureLoop (mh : List UInt8) : Nat → Nat → BitVec 64 → BitVec 64 × BitVec 32
  | 0, _, _ => (0, 0)
  | fuel + 1, off, h =>
    let marker := rd16 mh off
    let seg := rd16 mh (off + 2)
    if mh.length < off + 2 then (0, 0)
    -- 0 stands for an incomplete header, so it is not used as a hash.
    else if marker = MarkerCode.sod then (if h = 0 then 1 else h, BitVec.ofNat 32 (off + 2))
    else if !MarkerCode.legal marker then (0, 0)
    else if mh.length < off + 4 then (0, 0)
    else if seg < 2 ∨ mh.length < off + 2 + seg then (0, 0)
    else signatureLoop mh fuel (off + 2 + seg)
      (if MarkerCode.geometric marker then mix h ((mh.drop off).take (2 + seg)) else h)

/-- `geometry_signature`; each turn of its loop goes at least four bytes further. -/
def geometrySignature (mh : List UInt8) : BitVec 64 × BitVec 32 :=
  if mh.length < 4 ∨ rd16 mh 0 ≠ MarkerCode.soc then (0, 0)
  else signatureLoop mh mh.length 2 1469598103934665603#64

end RtpDecoder.Header
