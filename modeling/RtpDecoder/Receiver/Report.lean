import RtpDecoder.Frame.Tiles
import RtpDecoder.Lib.Throughout
import RtpDecoder.Receiver.Payload

/-!
# The periodic report

`rtp_receive_hook` passes every packet on to `pull_data` and prints a line of statistics from
time to time, by the clock of the RTP timestamps. The clock has 32 bits, and so has the end of
the period that a timestamp is compared with.
-/

namespace RtpDecoder.Receiver

open RtpDecoder.Frame (FrameHandler Callbacks TileOps)

/-- A line of statistics, without the times. -/
structure Report where
  framesInWindow : Nat
  processedFrames : Nat
  truncFrames : Nat
  netLostPackets : Nat
  slotBusyDrops : Nat
  queueFullDrops : Nat
deriving DecidableEq, Repr

/-- `params_t`; the receiver is read at the call. -/
structure Params (T : Type) where
  frameHandler : FrameHandler T
  totalFrames : Nat := 0
  lastTimetamp : BitVec 32 := 0

variable {T : Type} (cb : Callbacks) (ops : TileOps T)

namespace Params

/-- Where the period began; 0 stands for a period that has not begun. -/
def adopted (p : Params T) (f : RtpFrame) : BitVec 32 :=
  if p.lastTimetamp = 0 then f.timestamp else p.lastTimetamp

/-- A comparison and a sum in `uint32_t`. -/
def due (p : Params T) (f : RtpFrame) : Bool := decide (p.adopted f + 45000 ≤ f.timestamp)

/-- `rtp_receive_hook`, with the report that it prints. -/
def rtpReceiveHook (p : Params T) (s : System) (f : RtpFrame) : Params T × Option Report :=
  let fh := p.frameHandler.pullData cb ops (Receiver.rtpReceiveHook s f)
  if p.due f then
    ({ frameHandler := fh, totalFrames := fh.totalFrames, lastTimetamp := f.timestamp },
      some {
        framesInWindow := (fh.totalFrames + 2 ^ 64 - p.totalFrames) % 2 ^ 64
        processedFrames := fh.totalFrames
        truncFrames := fh.truncFrames
        netLostPackets := s.netLostPackets
        slotBusyDrops := s.slotBusyDrops
        queueFullDrops := s.queueFullDrops })
  else ({ p with frameHandler := fh, lastTimetamp := p.adopted f }, none)

theorem rtpReceiveHook_isSome (p : Params T) (s : System) (f : RtpFrame) :
    (p.rtpReceiveHook cb ops s f).2.isSome = p.due f := by
  cases due : p.due f <;> simp [rtpReceiveHook, due]

theorem rtpReceiveHook_lastTimetamp (p : Params T) (s : System) (f : RtpFrame) :
    (p.rtpReceiveHook cb ops s f).1.lastTimetamp = if p.due f then f.timestamp else p.adopted f := by
  cases due : p.due f <;> simp [rtpReceiveHook, due]

end Params

/-! ### Reports and the time between them -/

/-- The hook with the timestamp of its latest report, or of the first packet if there was none. -/
structure Watched (T : Type) where
  params : Params T
  since : Option (BitVec 32) := none

namespace Watched

/-- What the time up to a frame is counted from. -/
def origin (w : Watched T) (f : RtpFrame) : BitVec 32 := w.since.getD f.timestamp

def reports (w : Watched T) (call : System × RtpFrame) : Bool :=
  (w.params.rtpReceiveHook cb ops call.1 call.2).2.isSome

def step (w : Watched T) (call : System × RtpFrame) : Watched T where
  params := (w.params.rtpReceiveHook cb ops call.1 call.2).1
  since := some (if w.reports cb ops call then call.2.timestamp else w.origin call.2)

/-- A report comes 45000 ticks after the last one, modulo `2 ^ 32`. -/
def Spaced (w : Watched T) (call : System × RtpFrame) : Prop :=
  w.reports cb ops call = true → 45000 ≤ (call.2.timestamp - w.origin call.2).toNat

instance (w : Watched T) (call : System × RtpFrame) : Decidable (w.Spaced cb ops call) :=
  inferInstanceAs (Decidable (_ → _))

/-- The period began in the 45000 ticks in front of the wrap, and the packet is there too. -/
def BeforeWrap (w : Watched T) (call : System × RtpFrame) : Prop :=
  2 ^ 32 - 45000 ≤ (w.origin call.2).toNat ∧ w.origin call.2 ≤ call.2.timestamp

/-- `last_timetamp` is where the period began; for a period that began at 0 it can be a later
timestamp, which did not report at once. -/
def Kept (w : Watched T) : Prop :=
  w.since = none ∧ w.params.lastTimetamp = 0 ∨ w.since = some w.params.lastTimetamp ∨
    w.since = some 0 ∧ w.params.lastTimetamp.toNat < 2 ^ 32 - 45000

/-! ### What one call does -/

variable {cb ops} {w : Watched T} {call : System × RtpFrame}

theorem reports_eq_due : w.reports cb ops call = w.params.due call.2 :=
  Params.rtpReceiveHook_isSome ..

/-- Without a wrap the sum is the end of the period; with one, everything from the wrapped sum to
the wrap is beyond it. -/
theorem due_iff {p : Params T} {f : RtpFrame} :
    p.due f = true ↔ ((p.adopted f).toNat + 45000) % 2 ^ 32 ≤ f.timestamp.toNat := by
  simp [Params.due, BitVec.le_def, BitVec.toNat_add]

/-- What the next packet finds: nothing, the beginning of its period, or the timestamp that was
adopted for a period that began at 0. -/
theorem Kept.cases (kept : w.Kept) (f : RtpFrame) :
    w.origin f = w.params.adopted f ∨
      w.origin f = 0 ∧ (w.params.adopted f = f.timestamp ∨ (w.params.adopted f).toNat < 2 ^ 32 - 45000) := by
  unfold origin Params.adopted
  rcases kept with ⟨first, unset⟩ | same | ⟨zero, early⟩
  · simp [first, unset]
  · by_cases unset : w.params.lastTimetamp = 0
    · simp [same, unset]
    · rw [same, if_neg unset]
      exact Or.inl rfl
  · by_cases unset : w.params.lastTimetamp = 0
    · simp [zero, unset]
    · rw [zero, if_neg unset]
      exact Or.inr ⟨rfl, Or.inr early⟩

theorem spaced_iff (kept : w.Kept) : w.Spaced cb ops call ↔ ¬ w.BeforeWrap call := by
  have small := call.2.timestamp.isLt
  have bound := (w.params.adopted call.2).isLt
  have zero : (0 : BitVec 32).toNat = 0 := rfl
  unfold Spaced BeforeWrap
  rw [reports_eq_due, due_iff, BitVec.toNat_sub, BitVec.le_def]
  rcases kept.cases call.2 with same | ⟨began, adopted | early⟩
  · rw [same]
    omega
  · rw [began, adopted, zero]
    omega
  · rw [began, zero]
    omega

theorem Kept.step (kept : w.Kept) : (w.step cb ops call).Kept := by
  have last := w.params.rtpReceiveHook_lastTimetamp cb ops call.1 call.2
  unfold Kept Watched.step
  dsimp only
  rw [last, reports_eq_due]
  cases due : w.params.due call.2 with
  | true => exact Or.inr (Or.inl rfl)
  | false =>
    have within : ¬ w.params.due call.2 = true := by simp [due]
    rw [due_iff] at within
    right
    rcases kept.cases call.2 with same | ⟨began, adopted | early⟩
    · left
      simp [same]
    · -- A timestamp that is adopted close to the wrap reports at once.
      have small := call.2.timestamp.isLt
      rw [adopted] at within
      refine Or.inr ⟨by simp [began], ?_⟩
      simp only [Bool.false_eq_true, if_false, adopted]
      omega
    · exact Or.inr ⟨by simp [began], by simpa using early⟩

end Watched

/-- The reports keep their distance in a run exactly when no packet comes in the last 45000 ticks
before the wrap while its period began in these ticks too. -/
theorem reports_spaced_iff (frameHandler : FrameHandler T) (calls : List (System × RtpFrame)) :
    Throughout (Watched.step cb ops) (Watched.Spaced cb ops) ⟨{ frameHandler := frameHandler }, none⟩ calls ↔
      Throughout (Watched.step cb ops) (fun w call => ¬ w.BeforeWrap call)
        ⟨{ frameHandler := frameHandler }, none⟩ calls := by
  refine throughout_congr Watched.Kept ?_ Watched.Kept.step Watched.spaced_iff
  simp [Watched.Kept]

/-- A body packet without a frame, at the given time. -/
def bodyAt (timestamp : BitVec 32) : System × RtpFrame :=
  (init 64, ⟨0, timestamp, 0, false, 96, 12, 8, Job.blank.slabIdx⟩)

/-- The second packet reports, on time, 45000 ticks before the wrap. The third is of the same frame
and the fourth of the next one, and they report as well. -/
theorem reports_crowded :
    let calls := [2 ^ 32 - 90000, 2 ^ 32 - 45000, 2 ^ 32 - 45000, 2 ^ 32 - 43500].map
      fun time => bodyAt (BitVec.ofNat 32 time)
    (calls.IsChain fun a b => (b.2.timestamp - a.2.timestamp).toNat < 2 ^ 31) ∧
      ¬ Throughout (Watched.step {} Frame.tileOps) (Watched.Spaced {} Frame.tileOps)
        ⟨{ frameHandler := FrameHandler.new {} 4 }, none⟩ calls := by
  decide +kernel

end RtpDecoder.Receiver
