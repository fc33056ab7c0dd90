import RtpDecoder.Receiver.Delivery

/-!
# Loss accounting

Every number that the head passes has one fate: its packet is handed to the worker, dropped
at a full job queue, or lost. The three counters together keep pace with the head, one
ahead of it while the recv thread has settled the fate of the head's packet and has yet to
execute `++next_seq_`.
-/

namespace RtpDecoder.Receiver

variable {s t : System}

/-- The numbers whose fate is settled. -/
def settled (s : System) : Nat := s.enqueued.length + s.queueFullDrops + s.netLostPackets

/-- The recv thread stands between the end of `dispatch` and `++next_seq_`. -/
def beforeHeadMoves (s : System) : Bool :=
  match s.pc with
  | .clear .. => true
  | _ => false

def Balanced (s : System) : Prop := settled s = s.advances + (beforeHeadMoves s).toNat

/-- Moves that neither settle a fate nor move the head. -/
private theorem Balanced.of_frame (balanced : Balanced s)
    (same : settled t = settled s) (advances : t.advances = s.advances)
    (counter : beforeHeadMoves t = beforeHeadMoves s) : Balanced t := by
  simp only [Balanced, same, advances, counter] at balanced ⊢
  exact balanced

private theorem advanceStep_balanced (ring : RingInv s) (balanced : Balanced s)
    {d : Dgram} (here : s.pc = .advance d) : Balanced (advanceStep s d) := by
  have counter : beforeHeadMoves s = false := by simp only [beforeHeadMoves, here]
  have turn := advanceStep_cases ring here
  generalize advanceStep s d = t at turn ⊢
  cases turn with
  | givenUp _ _ =>
    -- The head is given up as lost, and moves in the same turn.
    simp only [Balanced, settled, counter] at balanced
    simp only [Balanced, settled, beforeHeadMoves, here]
    omega
  | dispatched _ _ | duplicate _ _ _ | busy _ _ _ | accepted _ _ _ => exact balanced.of_frame rfl rfl counter.symm

private theorem enqueueJob_balanced (balanced : Balanced s) {k : Caller} {j : Job}
    (here : s.pc = .enqueue k j) : Balanced (enqueueJob s k j) := by
  simp only [Balanced, settled, beforeHeadMoves, here] at balanced
  simp only [enqueueJob]
  split
  · simp only [Balanced, settled, beforeHeadMoves]
    exact balanced
  · simp only [Balanced, settled, beforeHeadMoves, List.length_append, List.length_singleton,
      Bool.toNat_true]
    simp only [Bool.toNat_false] at balanced
    omega

private theorem recvStep_balanced (ring : RingInv s) (balanced : Balanced s)
    (moved : recvStep s = some t) : Balanced t := by
  cases recvStep_cases moved with
  | advance d here => exact advanceStep_balanced ring balanced here
  | enqueue k j here => exact enqueueJob_balanced balanced here
  | giveBack k i here =>
    simp only [Balanced, settled, beforeHeadMoves, here, Bool.toNat_false] at balanced
    simp only [Balanced, settled, beforeHeadMoves, giveBack, System.modifySlot, Bool.toNat_true]
    omega
  | clear k i here =>
    simp only [Balanced, settled, beforeHeadMoves, here, Bool.toNat_true] at balanced
    have counter : beforeHeadMoves (clearHead s k i) = false := by cases k <;> rfl
    simp only [Balanced, counter, Bool.toNat_false]
    exact balanced
  | store d here => exact balanced.of_frame rfl rfl (by simp only [beforeHeadMoves, storeDgram, here])
  | drain here =>
    simp only [drainStep]
    split
    · exact balanced.of_frame rfl rfl (by simp only [beforeHeadMoves, beginDispatch, here])
    · exact balanced.of_frame rfl rfl (by simp only [beforeHeadMoves, here])

private theorem handleDgram_balanced (balanced : Balanced s) (here : s.pc = .idle)
    (data : List UInt8) : Balanced (handleDgram s data) := by
  have counter : beforeHeadMoves s = false := by simp only [beforeHeadMoves, here]
  simp only [handleDgram]
  split
  · exact balanced
  · split <;> split
    · exact balanced
    · exact balanced.of_frame rfl rfl counter.symm
    · exact balanced.of_frame rfl rfl rfl
    · exact balanced.of_frame rfl rfl counter.symm

private theorem step_balanced {a : Action} (ring : RingInv s)
    (balanced : Balanced s) (moved : step s a = some t) : Balanced t := by
  cases a with
  | dgram data =>
    simp only [step] at moved
    split at moved
    next ready =>
      cases moved
      exact handleDgram_balanced balanced ready.1 data
    · cases moved
  | recv => exact recvStep_balanced ring balanced moved
  | dequeue =>
    simp only [step, dequeueJob] at moved
    split at moved <;> cases moved
    exact balanced.of_frame rfl rfl rfl
  | process =>
    simp only [step, processJob] at moved
    split at moved
    · cases moved
    · split at moved <;> cases moved <;> exact balanced.of_frame rfl rfl rfl
  | release i =>
    simp only [step, Option.some.injEq] at moved
    subst moved
    simp only [releaseSlab]
    split
    · exact balanced.of_frame rfl rfl rfl
    · exact balanced

theorem reachable_balanced {allowed : System → Action → Prop} {d : Nat} (low : 1 ≤ d)
    (high : d ≤ kRingSize) (reach : Reachable allowed d s) : Balanced s :=
  (reach.invariant (I := fun s => RingInv s ∧ Balanced s) ⟨ringInv_init low high, rfl⟩
    fun _ _ _ inv _ moved => ⟨step_ringInv inv.1 moved, step_balanced inv.1 inv.2 moved⟩).2

/-- In every interleaving, the jobs enqueued, the drops at a full queue and the losses add up
to the increments of `next_seq_`; one more is settled only while the recv thread is about to
move the head. The jobs have different numbers, none of them beyond the head, so each number
that the head passes is counted once. -/
theorem loss_accounting {allowed : System → Action → Prop} {d : Nat} (low : 1 ≤ d)
    (high : d ≤ kRingSize) {s : System} (reach : Reachable allowed d s) :
    s.enqueued.length + s.queueFullDrops + s.netLostPackets =
      s.advances + (beforeHeadMoves s).toNat ∧
    (s.enqueued.map Job.num).Nodup ∧ ∀ j ∈ s.enqueued, j.num < numLimit s := by
  have queue := (reachable_queueInv low high reach).2
  refine ⟨reachable_balanced low high reach, ?_, queue.below⟩
  have increasing : (s.enqueued.map Job.num).Pairwise (· < ·) := List.pairwise_map.mpr queue.ordered
  exact increasing.imp Nat.ne_of_lt

/-- With a depth of 1, packet 3 arrives right after packet 0: 1 and 2 are lost. -/
def lossyRun : List Action :=
  [.dgram (barePacket 0 0), .recv, .recv, .recv, .recv, .recv, .recv,
   .dgram (barePacket 0 3), .recv, .recv, .recv, .recv, .recv, .recv, .recv, .recv]

theorem loss_accounting_lossyRun : ∃ s, run (fun _ _ => True) (init 1) lossyRun = some s ∧
    (s.enqueued.length, s.netLostPackets, s.advances) = (2, 2, 4) ∧
    s.enqueued.length + s.queueFullDrops + s.netLostPackets =
      s.advances + (beforeHeadMoves s).toNat := by
  have counters : (run (fun _ _ => True) (init 1) lossyRun).map
      (fun s => (s.enqueued.length, s.netLostPackets, s.advances)) = some (2, 2, 4) := by
    decide +kernel
  obtain ⟨s, returned, values⟩ := Option.map_eq_some_iff.mp counters
  have accounting := loss_accounting (by decide) (by decide) (Reachable.start.run _ returned)
  exact ⟨s, returned, values, accounting.1⟩

/-- The first packet has been enqueued, and the head has not moved yet. -/
theorem settled_before_head_moves : ∃ s, Reachable (fun _ _ => True) 1 s ∧ s.started = true ∧
    s.enqueued.length + s.queueFullDrops + s.netLostPackets ≠ s.advances := by
  have counters : (run (fun _ _ => True) (init 1) (lossyRun.take 5)).map
      (fun s => (s.started, s.enqueued.length, s.queueFullDrops, s.netLostPackets, s.advances)) =
        some (true, 1, 0, 0, 0) := by
    decide +kernel
  obtain ⟨s, returned, values⟩ := Option.map_eq_some_iff.mp counters
  simp only [Prod.mk.injEq] at values
  obtain ⟨started, enqueued, full, lost, advances⟩ := values
  refine ⟨s, Reachable.start.run _ returned, started, ?_⟩
  rw [enqueued, full, lost, advances]
  decide

end RtpDecoder.Receiver
