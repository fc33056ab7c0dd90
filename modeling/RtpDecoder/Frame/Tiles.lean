import RtpDecoder.Frame.Handler
import RtpDecoder.Parser.ParseBound
import RtpDecoder.Parser.Structure

/-!
# The tile handler behind the frame handler

`TileHandler` with the operations that `pull_data` calls. Where the source runs into
undefined behaviour the call is taken to fail; the results about frames hold for any other
outcome as well.
-/

namespace RtpDecoder.Parser.Walk

/-- Something that no part of a turn changes. -/
structure Kept {α : Type} (f : Walk → α) : Prop where
  packet : ∀ w : Walk, f w.parseOnePrecinct = f w
  index : ∀ (w : Walk) (i : Nat), f (w.setCrpIdx i) = f w
  recover : ∀ w : Walk, f w.tryRecover.2 = f w
  report : ∀ (w : Walk) (reports : List Report), f { w with reports := reports } = f w

section

variable {α : Type} {f : Walk → α} (kept : Kept f)

include kept

private theorem Kept.parseBody {w w' : Walk} (went : w.parseBody = some w') : f w' = f w := by
  simp only [Walk.parseBody] at went
  split at went
  · cases went
    rw [kept.report, kept.index, kept.packet]
  · split at went
    · cases went
      rw [kept.recover, kept.index, kept.packet]
    · cases went

private theorem Kept.flushBody {w w' : Walk} (went : w.flushBody = some w') : f w' = f w := by
  simp only [Walk.flushBody] at went
  split at went
  · cases went
    rw [kept.report, kept.index, kept.packet]
  · split at went
    · cases went
      rw [kept.recover, kept.packet]
    · cases went

private theorem Kept.parseLoop (fuel : Nat) (w : Walk) {r : Bool × Walk}
    (returned : parseLoop fuel w = some r) : f r.2 = f w := by
  induction fuel generalizing w with
  | zero => cases returned
  | succ fuel ih =>
    simp only [Walk.parseLoop] at returned
    split at returned
    · cases returned
      rfl
    split at returned
    · cases returned
    split at returned
    · cases returned
      rw [parseFailed, kept.recover, kept.index, kept.packet]
    next body => exact (ih _ returned).trans (kept.parseBody body)

private theorem Kept.flushLoop (fuel : Nat) (w : Walk) : f (flushLoop fuel w).2 = f w := by
  induction fuel generalizing w with
  | zero => rfl
  | succ fuel ih =>
    simp only [Walk.flushLoop]
    split
    · rfl
    split
    · rw [kept.recover, kept.packet]
    next body => exact (ih _).trans (kept.flushBody body)

theorem Kept.parse {w : Walk} {r : Bool × Walk} (returned : w.parse = some r) : f r.2 = f w :=
  kept.parseLoop _ w returned

theorem Kept.flush (w : Walk) : f w.flush.2 = f w := kept.flushLoop _ w

end

theorem kept_chunks : Kept fun w => w.cs.chunks where
  packet _ := (readPacket_forward _ _ _).chunks
  index _ _ := rfl
  recover w := by
    have way := w.tryRecover_cases
    generalize w.tryRecover = r at way ⊢
    cases way <;> rfl
  report _ _ := rfl

theorem kept_ready : Kept fun w => w.handler.ready where
  packet _ := rfl
  index _ _ := rfl
  recover w := by
    have way := w.tryRecover_cases
    generalize w.tryRecover = r at way ⊢
    cases way <;> rfl
  report _ _ := rfl

end RtpDecoder.Parser.Walk

namespace RtpDecoder.Frame

open RtpDecoder.Parser

/-- The operations of the tile handler. -/
def tileOps : TileOps TileHandler where
  isReady h := h.ready
  invalidate := TileHandler.invalidate
  geometrySignature := Header.geometrySignature
  parseMainHeader h s := match Header.parseMainHeader h.markers s with
    | none => (0, h, s)
    | some (sod, m, t) => (sod, { h with markers := m }, t)
  create h := h.create.getD (false, h)
  appendSignal := TileHandler.appendSignal
  parse h s := match (Walk.mk h s []).parse with
    | none => (false, h, s)
    | some (ok, w) => (ok, w.handler, w.cs)
  flush h s :=
    let r := (Walk.mk h s []).flush
    (r.1, r.2.handler, r.2.cs)
  restart := TileHandler.restart
  parseMainHeader_chunks h s := by
    split
    · rfl
    next parsed => exact Header.parseMainHeader_chunks parsed
  parse_chunks h s := by
    split
    · rfl
    next returned => exact Walk.kept_chunks.parse returned
  flush_chunks h s := Walk.kept_chunks.flush _

/-! ### A small stream -/

/-- A packet with the given bytes behind the payload pointer, the first eight of them the
payload header. -/
def packetOf (slabIdx : Nat) (bytes : List UInt8) (marker : Bool) : Packet where
  payload i := bytes.getD i 0
  size := bytes.length - 8
  marker := marker
  slabIdx := slabIdx

/-- A main packet; its first byte says whether the header is complete. -/
def headerPacket (mh : UInt8) : Packet :=
  packetOf 0 (mh :: List.replicate 7 0 ++ streamHeader 1 0x40) false

/-- A main packet with a complete header. -/
def completeHeader (bytes : List UInt8) : Packet :=
  packetOf 0 (0x80 :: List.replicate 7 0 ++ bytes) false

/-- A frame of six empty precincts in two body packets. -/
def emptyFrame : List Packet :=
  [headerPacket 0x80, packetOf 1 (List.replicate 11 0) false, packetOf 2 (List.replicate 11 0) true]

end RtpDecoder.Frame
