import RtpDecoder.Frame.Handler
import RtpDecoder.Receiver.Ownership

/-!
# From a job to the parser

`process_job` turns a job into an `rtp::Frame` that points into the slab memory, and
`rtp_receive_hook` passes it on to `pull_data`, less the eight bytes of the payload header.
That subtraction is done in `size_t`: a payload shorter than its header wraps around.
-/

namespace RtpDecoder.Receiver

/-- The byte at an address of `slab_`, all slots one after the other. -/
def slabByte (s : System) (address : Nat) : UInt8 :=
  if bound : address / kSlotBytes < kRingSize then
    (s.slab ⟨address / kSlotBytes, bound⟩).getD (address % kSlotBytes) 0
  else 0

/-- `rtp::Frame`; the payload pointer is an address of the slab memory. -/
structure RtpFrame where
  seq : BitVec 16
  timestamp : BitVec 32
  ssrc : BitVec 32
  marker : Bool
  payloadType : UInt8
  payload : Nat
  payloadLen : Nat
  slabIdx : Fin kRingSize
deriving DecidableEq, Repr

def slabAddress (i : Fin kRingSize) : Nat := i.val * kSlotBytes

/-- Big-endian 32-bit read from the slab memory. -/
def rdU32 (s : System) (address : Nat) : BitVec 32 :=
  (slabByte s address).toBitVec ++ (slabByte s (address + 1)).toBitVec ++
    (slabByte s (address + 2)).toBitVec ++ (slabByte s (address + 3)).toBitVec

/-- The frame that `process_job` makes of a job, `none` when the hook is not called. -/
def frameOf (s : System) (j : Job) : Option RtpFrame :=
  let data := slabAddress j.slabIdx
  if j.hdrLen.toNat ≤ j.len then
    some {
      seq := j.seq
      timestamp := rdU32 s (data + 4)
      ssrc := rdU32 s (data + 8)
      marker := (slabByte s (data + 1)).toNat.testBit 7
      payloadType := slabByte s (data + 1) &&& 0x7F
      payload := data + j.hdrLen.toNat
      payloadLen := j.len - j.hdrLen.toNat
      slabIdx := j.slabIdx }
  else none

/-- `rtp_receive_hook`: the call of `pull_data` for a frame. -/
def rtpReceiveHook (s : System) (f : RtpFrame) : Frame.Packet where
  payload i := slabByte s (f.payload + i)
  size := (f.payloadLen + 2 ^ 64 - 8) % 2 ^ 64
  marker := f.marker
  slabIdx := f.slabIdx

/-- The addresses of the range that `pull_data` appends lie in `[lo, hi)`. -/
def RangeWithin (f : RtpFrame) (p : Frame.Packet) (lo hi : Nat) : Prop :=
  ∀ address, f.payload + 8 ≤ address → address < f.payload + 8 + p.size → lo ≤ address ∧ address < hi

theorem slabByte_slot (s : System) (i : Fin kRingSize) {k : Nat} (bound : k < kSlotBytes) :
    slabByte s (slabAddress i + k) = (s.slab i).getD k 0 := by
  have positive : 0 < kSlotBytes := by decide
  have slot : (slabAddress i + k) / kSlotBytes = i.val := by
    rw [slabAddress, Nat.mul_comm, Nat.mul_add_div positive, Nat.div_eq_of_lt bound, Nat.add_zero]
  have offset : (slabAddress i + k) % kSlotBytes = k := by
    rw [slabAddress, Nat.mul_comm, Nat.mul_add_mod, Nat.mod_eq_of_lt bound]
  unfold slabByte
  simp only [slot, offset, i.isLt, dif_pos]

theorem getD_of_take {xs ys : List UInt8} {n k : Nat} (same : xs.take n = ys.take n)
    (inside : k < n) : xs.getD k 0 = ys.getD k 0 := by
  have here := congrArg (fun l => l[k]?) same
  simp only [List.getElem?_take, inside, if_true] at here
  simp only [List.getD, here]

/-- For a job on its way to the hook, in any interleaving with a hook that releases each slab
at most once: the hook is called; header and payload lie inside the datagram, and the payload
is the datagram without header and padding; and the range given to the parser lies inside
the payload exactly when the datagram has room for the eight bytes of the payload header. -/
theorem range_within_iff {d : Nat} (low : 1 ≤ d) (high : d ≤ kRingSize) {s : System}
    (reach : Reachable HookOk d s) {j : Job} (inHand : s.inHand = some j) :
    ∃ e f, (j.num, e) ∈ s.stored ∧ parseDgram e.data = some e ∧ frameOf s j = some f ∧
      12 ≤ j.hdrLen.toNat ∧ j.hdrLen.toNat ≤ j.len ∧ j.len ≤ e.data.length ∧
      j.hdrLen.toNat = e.hdr ∧ j.len = e.data.length - padLen e.data ∧
      (∀ k, k < f.payloadLen → slabByte s (f.payload + k) = e.data.getD (e.hdr + k) 0) ∧
      (RangeWithin f (rtpReceiveHook s f) (slabAddress j.slabIdx + j.hdrLen.toNat)
          (slabAddress j.slabIdx + j.len) ↔
        e.hdr + 8 + padLen e.data ≤ e.data.length) := by
  have inv := reachable_ownInv low high reach
  obtain ⟨ring, _⟩ := reachable_queueInv low high reach
  have underway : j ∈ s.owned ++ underway s :=
    List.mem_append_right _ (List.mem_append_left _ (by simp [inHand]))
  obtain ⟨e, carries⟩ := inv.content j underway
  have parsed := ring.parsed _ _ carries.stored
  obtain ⟨_, least, ordered, padded, fits⟩ := parseDgram_bounds parsed
  have hdrLen : j.hdrLen.toNat = e.hdr := by
    rw [carries.hdrLen]
    exact parseDgram_hdr_narrow parsed
  have len := carries.len
  have called : j.hdrLen.toNat ≤ j.len := by omega
  refine ⟨e, _, carries.stored, parsed, if_pos called, by omega, called, by omega, hdrLen, by omega,
    ?_, ?_⟩
  · intro k inside
    change k < j.len - j.hdrLen.toNat at inside
    have within : j.hdrLen.toNat + k < kSlotBytes := by omega
    change slabByte s (slabAddress j.slabIdx + j.hdrLen.toNat + k) = _
    rw [Nat.add_assoc, slabByte_slot s j.slabIdx within, ← hdrLen]
    exact getD_of_take carries.bytes (by omega)
  · unfold RangeWithin rtpReceiveHook
    dsimp only
    have small : j.len ≤ 9216 := by
      rw [len]
      exact fits
    constructor
    · intro within
      by_contra short
      -- The size has wrapped around, so the range goes far beyond the payload.
      have wrapped : (j.len - j.hdrLen.toNat + 2 ^ 64 - 8) % 2 ^ 64 =
          j.len - j.hdrLen.toNat + 2 ^ 64 - 8 := Nat.mod_eq_of_lt (by omega)
      have last := within (slabAddress j.slabIdx + j.hdrLen.toNat + 8) (Nat.le_refl _)
        (by rw [wrapped]; omega)
      omega
    · intro room address above below
      have exact_ : (j.len - j.hdrLen.toNat + 2 ^ 64 - 8) % 2 ^ 64 = j.len - j.hdrLen.toNat - 8 := by
        rw [show j.len - j.hdrLen.toNat + 2 ^ 64 - 8 = j.len - j.hdrLen.toNat - 8 + 2 ^ 64 by omega,
          Nat.add_mod_right]
        exact Nat.mod_eq_of_lt (by omega)
      rw [exact_] at below
      omega

/-- A datagram with twelve bytes of header and the given payload, received, queued and taken
by the worker. -/
def takenRun (payload : List UInt8) : List Action :=
  [.dgram (barePacket 0 7 ++ payload), .recv, .recv, .recv, .recv, .recv, .recv, .dequeue]

private theorem takenRun_inHand (payload : List UInt8) (j : Job)
    (taken : (run HookOk (init 64) (takenRun payload)).map System.inHand = some (some j)) :
    ∃ s, run HookOk (init 64) (takenRun payload) = some s ∧ s.inHand = some j :=
  Option.map_eq_some_iff.mp taken

/-- Eleven bytes of payload leave a range of three bytes, which is inside. -/
theorem range_within_takenRun : ∃ s f, frameOf s ⟨ringIndex 7, 23, 7, 12, 0⟩ = some f ∧
    (rtpReceiveHook s f).size = 3 ∧
    RangeWithin f (rtpReceiveHook s f) (slabAddress (ringIndex 7) + 12) (slabAddress (ringIndex 7) + 23) := by
  obtain ⟨s, returned, inHand⟩ := takenRun_inHand (List.replicate 11 0) ⟨ringIndex 7, 23, 7, 12, 0⟩
    (by decide +kernel)
  obtain ⟨e, f, _, _, made, _, _, _, hdr, len, _, within⟩ :=
    range_within_iff (by decide) (by decide) (Reachable.start.run _ returned) inHand
  obtain ⟨g, same, eleven⟩ : ∃ g, frameOf s ⟨ringIndex 7, 23, 7, 12, 0⟩ = some g ∧ g.payloadLen = 11 :=
    ⟨_, rfl, rfl⟩
  obtain rfl := Option.some.inj (made.symm.trans same)
  have size : (rtpReceiveHook s f).size = 3 := by
    simp only [rtpReceiveHook, eleven]
    omega
  refine ⟨s, f, made, size, within.mpr ?_⟩
  change 12 = e.hdr at hdr
  change 23 = _ at len
  omega

/-- With one byte of payload the parser is given almost the whole address space. -/
theorem range_beyond_takenRun : ∃ s j f, run HookOk (init 64) (takenRun [0x40]) = some s ∧
    s.inHand = some j ∧ frameOf s j = some f ∧ (rtpReceiveHook s f).size = 2 ^ 64 - 7 ∧
    ¬ RangeWithin f (rtpReceiveHook s f) (slabAddress j.slabIdx + j.hdrLen.toNat)
      (slabAddress j.slabIdx + j.len) := by
  obtain ⟨s, returned, inHand⟩ := takenRun_inHand [0x40] ⟨ringIndex 7, 13, 7, 12, 0⟩ (by decide +kernel)
  obtain ⟨f, made, one, start⟩ : ∃ f, frameOf s ⟨ringIndex 7, 13, 7, 12, 0⟩ = some f ∧
      f.payloadLen = 1 ∧ f.payload = slabAddress (ringIndex 7) + 12 := ⟨_, rfl, rfl, rfl⟩
  have size : (rtpReceiveHook s f).size = 2 ^ 64 - 7 := by
    simp only [rtpReceiveHook, one]
    omega
  refine ⟨s, _, f, returned, inHand, made, size, ?_⟩
  intro within
  -- The first byte after the payload header is already outside.
  have first := (within (f.payload + 8) (Nat.le_refl _) (by omega)).2
  have beyond : f.payload + 8 < slabAddress (ringIndex 7) + 13 := first
  omega

end RtpDecoder.Receiver
