import Mathlib.Data.BitVec
import Mathlib.Data.List.Basic

/-!
# RTP datagrams

The header arithmetic at the top of `Receiver::handle_dgram`: version, CSRC list,
extension and padding of one UDP datagram. A datagram that fails a check is
dropped without touching the receiver.
-/

namespace RtpDecoder.Receiver

def kRtpVersion : UInt8 := 2
def kRingSize : Nat := 16384
def kSlotBytes : Nat := 9216

/-- A power of two: to wrap an index of the queue at it is the mask of the source. -/
def kJobQueueSize : Nat := kRingSize

/-- Big-endian 16-bit read at offset `p`. -/
def rdU16 (data : List UInt8) (p : Nat) : BitVec 16 :=
  (data.getD p 0).toBitVec ++ (data.getD (p + 1) 0).toBitVec

/-- What `handle_dgram` knows of a datagram once its header checks passed. -/
structure Dgram where
  data : List UInt8
  hdr : Nat
  effectiveLen : Nat
  seq : BitVec 16
deriving DecidableEq, Repr

/-- The fixed header and the CSRC list. -/
def csrcHeader (b0 : UInt8) : Nat := 12 + 4 * (b0 &&& 0x0F).toNat

/-- The header length including the extension, when its flag is set. -/
def extHeader (data : List UInt8) (hdr : Nat) : Option Nat :=
  if ((data.getD 0 0 >>> 4) &&& 1) = 0 then some hdr
  else if data.length < hdr + 4 then none
  else if data.length < hdr + (4 + 4 * (rdU16 data (hdr + 2)).toNat) then none
  else some (hdr + (4 + 4 * (rdU16 data (hdr + 2)).toNat))

/-- The padding length: the last byte of the datagram, when the flag is set. -/
def padLen (data : List UInt8) : Nat :=
  if ((data.getD 0 0 >>> 5) &&& 1) = 0 then 0 else (data.getD (data.length - 1) 0).toNat

/-- The header checks of `handle_dgram`, up to the read of the sequence number. -/
def parseDgram (data : List UInt8) : Option Dgram :=
  if data.getD 0 0 >>> 6 ≠ kRtpVersion then none
  else if data.length < csrcHeader (data.getD 0 0) then none
  else match extHeader data (csrcHeader (data.getD 0 0)) with
    | none => none
    | some hdr =>
      if padLen data > data.length - hdr then none
      else if data.length - padLen data > kSlotBytes then none
      else some ⟨data, hdr, data.length - padLen data, rdU16 data 2⟩

theorem csrcHeader_ge (b0 : UInt8) : 12 ≤ csrcHeader b0 := Nat.le_add_right _ _

private theorem extHeader_bounds {data : List UInt8} {hdr ext : Nat}
    (fits : hdr ≤ data.length) (extended : extHeader data hdr = some ext) :
    hdr ≤ ext ∧ ext ≤ data.length := by
  unfold extHeader at extended
  split at extended
  · cases extended
    exact ⟨Nat.le_refl _, fits⟩
  · split at extended
    · cases extended
    · split at extended
      · cases extended
      next room =>
        cases extended
        exact ⟨Nat.le_add_right _ _, Nat.le_of_not_lt room⟩

/-- A datagram that passes the checks has its header, then its payload, then its
padding, all inside the datagram and inside one slot. -/
theorem parseDgram_bounds {data : List UInt8} {d : Dgram} (parsed : parseDgram data = some d) :
    d.data = data ∧ 12 ≤ d.hdr ∧ d.hdr ≤ d.effectiveLen ∧
      d.effectiveLen + padLen data = data.length ∧ d.effectiveLen ≤ kSlotBytes := by
  unfold parseDgram at parsed
  split at parsed
  · cases parsed
  · split at parsed
    · cases parsed
    next fits =>
      split at parsed
      · cases parsed
      next hdr extended =>
        obtain ⟨above, below⟩ := extHeader_bounds (Nat.le_of_not_lt fits) extended
        have least := csrcHeader_ge (data.getD 0 0)
        split at parsed
        · cases parsed
        next padded =>
          split at parsed
          · cases parsed
          · cases parsed
            refine ⟨rfl, ?_, ?_, ?_, ?_⟩ <;> dsimp only <;> omega

theorem parseDgram_hdr_narrow {data : List UInt8} {d : Dgram} (parsed : parseDgram data = some d) :
    (BitVec.ofNat 16 d.hdr).toNat = d.hdr := by
  obtain ⟨_, _, within, _, small⟩ := parseDgram_bounds parsed
  simp only [kSlotBytes] at small
  rw [BitVec.toNat_ofNat]
  omega

end RtpDecoder.Receiver
