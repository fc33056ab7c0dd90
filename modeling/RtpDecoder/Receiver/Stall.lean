import RtpDecoder.Receiver.Delivery

/-!
# Packets that could be delivered

When `handle_dgram` returns, the packet that the head waits for should not be in its slot: it
would lie there until the next datagram comes. The force-advance loop may stop at a head whose
packet has arrived, and `release_in_order`, which would hand it on, is only called for a datagram
that was stored. One that finds its slot still in use by the worker returns before.
-/

namespace RtpDecoder.Receiver

open SeqNum

/-- A property of every state of a run; a move that is not possible ends it. -/
def inEveryState (holds : System → Bool) (s : System) : List Action → Bool
  | [] => holds s
  | a :: rest => holds s && match step s a with
    | none => true
    | some t => inEveryState holds t rest

/-- A property of every move of a run, in the state that it finds. -/
def atEveryMove (holds : System → Action → Bool) (s : System) : List Action → Bool
  | [] => true
  | a :: rest => holds s a && match step s a with
    | none => true
    | some t => atEveryMove holds t rest

/-- Between two datagrams, the packet that the head waits for is in its slot. -/
def leftWaiting (s : System) : Bool := decide (s.pc = .idle) && headReady s

/-- The datagram is past the force-advance loop, its slot is empty but still belongs to the worker,
and the slot of the head holds the packet that is next. -/
def stalls (s : System) : Action → Bool
  | .recv =>
    match s.pc with
    | .advance d => decide (ahead d.seq s.nextSeq < s.jitterDepth) && !(s.ring (ringIndex d.seq)).filled &&
        (s.ring (ringIndex d.seq)).inWorker && headReady s
    | _ => false
  | _ => false

/-! ### What one move does -/

/-- The packet at the head is not there while the recv thread waits; while it works on a datagram,
it is not there or the datagram is not a duplicate. -/
def Served (s : System) : Prop :=
  match s.pc with
  | .idle => headReady s = false
  | .advance d => headReady s = false ∨ ∀ i, (s.ring i).filled = true → (s.ring i).seq ≠ d.seq
  | _ => True

section

variable {s t : System} {d : Dgram}

private theorem not_filled_of_beyond (ring : RingInv s) (beyond : s.jitterDepth ≤ ahead d.seq s.nextSeq)
    {i : Fin kRingSize} (filled : (s.ring i).filled = true) : (s.ring i).seq ≠ d.seq := by
  intro same
  have inside := (ring.window i filled).1
  rw [same] at inside
  omega

private theorem served_advanceStep (ring : RingInv s) (here : s.pc = .advance d) (served : Served s)
    (goes : stalls s .recv = false) : Served (advanceStep s d) := by
  simp only [Served, here] at served
  simp only [stalls, here] at goes
  have turn := advanceStep_cases ring here
  generalize advanceStep s d = t at turn ⊢
  cases turn with
  | dispatched beyond ready => trivial
  | givenUp beyond missing =>
    simp only [Served, here]
    exact Or.inr fun i filled => not_filled_of_beyond ring beyond filled
  | duplicate inside filled same =>
    rcases served with missing | other
    · exact missing
    · exact absurd same (other _ filled)
  | busy inside free inWorker =>
    -- This is the return that leaves the head alone.
    have missing : headReady s = false := by simpa [inside, free, inWorker] using goes
    exact missing
  | accepted inside free unused => trivial

private theorem served_clearHead (ring : RingInv s) {k : Caller} {i : Fin kRingSize} (here : s.pc = .clear k i) :
    Served (clearHead s k i) := by
  have ok := ring.pcOk
  simp only [PcOk, here] at ok
  cases k with
  | drain => trivial
  | advance d =>
    right
    intro m filled
    by_cases equal : m = i
    · subst equal
      simp [clearHead, System.modifySlot] at filled
    · simp only [clearHead, System.modifySlot, Function.update_of_ne equal] at filled ⊢
      exact not_filled_of_beyond ring ok.1.2.1 filled

private theorem served_drainStep (ring : RingInv s) : Served (drainStep s) := by
  unfold drainStep
  split
  · trivial
  next stopped =>
    change headReady s = false
    by_contra ready
    rw [Bool.not_eq_false] at ready
    exact stopped ⟨pending_of_atHead ring ((headReady_iff s).mp ready), ready⟩

private theorem served_recvStep (ring : RingInv s) (served : Served s) (goes : stalls s .recv = false)
    (moved : recvStep s = some t) : Served t := by
  cases recvStep_cases moved with
  | advance d here => exact served_advanceStep ring here served goes
  | enqueue k j here =>
    unfold enqueueJob
    split <;> trivial
  | giveBack k i here => trivial
  | clear k i here => exact served_clearHead ring here
  | store d here => trivial
  | drain here => exact served_drainStep ring

private theorem served_handleDgram (ring : RingInv s) (here : s.pc = .idle) (served : Served s) (data : List UInt8) :
    Served (handleDgram s data) := by
  have missing : headReady s = false := by simpa only [Served, here] using served
  unfold handleDgram
  split
  · exact served
  next d parsed =>
    -- The first datagram places the head where no slot is filled.
    have placed : headReady (if s.started then s else { s with started := true, nextSeq := d.seq }) = false := by
      split
      · exact missing
      next off => simp [headReady, (ring.unstarted (by simpa using off)).2.2]
    have waits : (if s.started then s else { s with started := true, nextSeq := d.seq }).pc = .idle := by
      split <;> exact here
    generalize (if s.started then s else { s with started := true, nextSeq := d.seq }) = s' at placed waits ⊢
    dsimp only
    split
    · simpa only [Served, waits] using placed
    · exact Or.inl placed

theorem served_step {a : Action} (ring : RingInv s) (served : Served s) (goes : stalls s a = false)
    (moved : step s a = some t) : Served t := by
  have other (worker : a = .dequeue ∨ a = .process ∨ ∃ i, a = .release i) : Served t := by
    obtain ⟨same, pc⟩ := sameRecv_of_other moved worker
    have ready : headReady t = headReady s := by
      simp only [headReady, same.nextSeq, (same.slots _).1, (same.slots _).2.1]
    simpa only [Served, pc, ready, (same.slots _).1, (same.slots _).2.1] using served
  cases a with
  | dgram data =>
    simp only [step] at moved
    split at moved
    next may =>
      cases moved
      exact served_handleDgram ring may.1 served data
    · cases moved
  | recv => exact served_recvStep ring served goes moved
  | dequeue | process | release _ => exact other (by simp)

/-- A stall is a return that leaves the packet at the head waiting. -/
theorem leftWaiting_of_stalls {a : Action} (ring : RingInv s) (stalled : stalls s a = true) :
    ∃ t, step s a = some t ∧ leftWaiting t = true := by
  unfold stalls at stalled
  split at stalled
  · split at stalled
    next d here =>
      simp only [Bool.and_eq_true, decide_eq_true_eq, Bool.not_eq_true'] at stalled
      obtain ⟨⟨⟨inside, free⟩, inWorker⟩, ready⟩ := stalled
      refine ⟨advanceStep s d, by simp only [step, recvStep, here], ?_⟩
      have turn := advanceStep_cases ring here
      generalize advanceStep s d = t at turn ⊢
      cases turn with
      | dispatched _ | givenUp _ => omega
      | duplicate _ filled => simp [free] at filled
      | busy =>
        simp only [leftWaiting, decide_true, Bool.true_and]
        exact ready
      | accepted _ _ unused => simp [inWorker] at unused
    · cases stalled
  · cases stalled

theorem Served.leftWaiting (served : Served s) : leftWaiting s = false := by
  unfold Receiver.leftWaiting
  by_cases idle : s.pc = .idle
  · have missing : headReady s = false := by simpa only [Served, idle] using served
    simp [missing]
  · simp [idle]

end

/-! ### Over a run -/

private theorem nothing_waits_from {s : System} (ring : RingInv s) (served : Served s) (actions : List Action) :
    inEveryState (fun t => !leftWaiting t) s actions = true ↔
      atEveryMove (fun t a => !stalls t a) s actions = true := by
  induction actions generalizing s with
  | nil => simp [inEveryState, atEveryMove, served.leftWaiting]
  | cons a rest ih =>
    simp only [inEveryState, atEveryMove, served.leftWaiting, Bool.not_false, Bool.true_and]
    cases stalled : stalls s a with
    | true =>
      -- The state after the stall already breaks the left side, whatever comes then.
      obtain ⟨t, moved, waiting⟩ := leftWaiting_of_stalls ring stalled
      cases rest <;> simp [moved, inEveryState, waiting]
    | false =>
      cases moved : step s a with
      | none => simp
      | some t => simpa using ih (step_ringInv ring moved) (served_step ring served stalled moved)

/-- After every return of `handle_dgram` the packet of the head is missing, exactly when no datagram
comes to a slot of the worker's with the packet of the head waiting. -/
theorem nothing_waits_iff (depth : Nat) (low : 1 ≤ depth) (high : depth ≤ kRingSize) (actions : List Action) :
    inEveryState (fun s => !leftWaiting s) (init depth) actions = true ↔
      atEveryMove (fun s a => !stalls s a) (init depth) actions = true := by
  apply nothing_waits_from (ringInv_init low high)
  simp [Served, init, headReady]

/-- 2 overtakes 1, and both are dispatched with the datagram of 1. -/
theorem nothing_waits_overtaken :
    inEveryState (fun s => !leftWaiting s) (init 4)
      ([.dgram (barePacket 0 0)] ++ List.replicate 6 .recv ++ [.dgram (barePacket 0 2)] ++
        List.replicate 3 .recv ++ [.dgram (barePacket 0 1)] ++ List.replicate 9 .recv) = true :=
  (nothing_waits_iff 4 (by decide) (by decide) _).mpr (by decide +kernel)

/-- The datagram of 16384 moves the head over the lost 1 to the waiting 2, finds that its own slot
still has packet 0 in it, and returns. -/
theorem head_waits_behind_busy_slot :
    inEveryState (fun s => !leftWaiting s) (init 16383)
      ([.dgram (barePacket 0 0)] ++ List.replicate 6 .recv ++ [.dgram (barePacket 0 2)] ++
        List.replicate 3 .recv ++ [.dgram (barePacket 64 0)] ++ List.replicate 2 .recv) = false := by
  decide +kernel

end RtpDecoder.Receiver
