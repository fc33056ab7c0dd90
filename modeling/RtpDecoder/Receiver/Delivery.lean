import RtpDecoder.Receiver.Ring

/-!
# In-order delivery

What the job queue and the worker add to the ring: the jobs accepted by
`enqueue_job` are numbered by the head positions they were dispatched at, and the
hook sees them in that order, each at most once.
-/

namespace RtpDecoder.Receiver

open SeqNum

variable {s t : System}

/-- The numbers below this one have been dispatched or given up. While the recv thread
has yet to clear the head, the head's own number is among them. -/
def numLimit (s : System) : Nat :=
  match s.pc with
  | .giveBack .. | .clear .. => s.advances + 1
  | _ => s.advances

structure QueueInv (s : System) : Prop where
  -- Everything accepted is with the hook, in the worker's hand or in the queue, in order.
  history : s.enqueued = s.handed ++ (s.inHand.toList ++ s.jobQueue.contents)
  payload : ∀ j ∈ s.enqueued, j.hdrLen.toNat ≤ j.len
  below : ∀ j ∈ s.enqueued, j.num < numLimit s
  ordered : s.enqueued.Pairwise fun i j => i.num < j.num
  seqs : ∀ j ∈ s.enqueued, j.seq = firstSeq s + BitVec.ofNat 16 j.num

theorem numLimit_ge (s : System) : s.advances ≤ numLimit s := by
  unfold numLimit
  split <;> omega

/-- Moves that leave the queue and its history alone keep the invariant, as long as the
head only moves forward. -/
theorem QueueInv.of_frame (inv : QueueInv s) (enqueued : t.enqueued = s.enqueued)
    (handed : t.handed = s.handed) (inHand : t.inHand = s.inHand)
    (jobQueue : t.jobQueue = s.jobQueue) (limit : numLimit s ≤ numLimit t)
    (first : s.enqueued ≠ [] → firstSeq t = firstSeq s) : QueueInv t where
  history := by rw [enqueued, handed, inHand, jobQueue]; exact inv.history
  payload := by rw [enqueued]; exact inv.payload
  below := by
    rw [enqueued]
    exact fun j member => Nat.lt_of_lt_of_le (inv.below j member) limit
  ordered := by rw [enqueued]; exact inv.ordered
  seqs := by
    intro j member
    rw [enqueued] at member
    rw [first (List.ne_nil_of_mem member)]
    exact inv.seqs j member

/-! ### Moves of the recv thread -/

/-- The job at the head has a payload: its slot keeps a parsed datagram. -/
theorem RingInv.job_payload (ring : RingInv s) {k : Caller} {j : Job}
    (here : s.pc = .enqueue k j) : j.hdrLen.toNat ≤ j.len := by
  have ok := ring.pcOk
  simp only [PcOk, here] at ok
  obtain ⟨_, ⟨_, filled, _⟩, len, _, hdr, _⟩ := ok
  obtain ⟨d, member, _, slotHdr, slotLen, _⟩ := ring.kept j.slabIdx filled
  have bounds := parseDgram_bounds (ring.parsed _ _ member)
  rw [hdr, len, slotHdr, slotLen, BitVec.toNat_ofNat]
  exact Nat.le_trans (Nat.mod_le _ _) bounds.2.2.1

private theorem enqueueJob_queue (ring : RingInv s) (inv : QueueInv s) {k : Caller}
    {j : Job} (here : s.pc = .enqueue k j) : QueueInv (enqueueJob s k j) := by
  have payload := ring.job_payload here
  have ok := ring.pcOk
  simp only [PcOk, here] at ok
  obtain ⟨_, ⟨_, _, head⟩, _, seq, _, num⟩ := ok
  have below : ∀ i ∈ s.enqueued, i.num < s.advances := by
    simpa only [numLimit, here] using inv.below
  unfold enqueueJob
  split
  · exact inv.of_frame rfl rfl rfl rfl (by simp [numLimit, here]) (fun _ => rfl)
  next q pushed =>
    -- The new job has the head's number, which is above all numbers so far.
    refine ⟨?_, ?_, ?_, ?_, ?_⟩
    · simp only [inv.history, SpscQueue.contents_enqueue pushed, List.append_assoc]
    · intro i member
      rcases List.mem_append.mp member with old | new
      · exact inv.payload i old
      · rw [List.mem_singleton.mp new]
        exact payload
    · intro i member
      simp only [numLimit]
      rcases List.mem_append.mp member with old | new
      · exact Nat.lt_succ_of_lt (below i old)
      · rw [List.mem_singleton.mp new, num]
        exact Nat.lt_succ_self _
    · refine List.pairwise_append.mpr ⟨inv.ordered, List.pairwise_singleton _ _, ?_⟩
      intro a old b new
      rw [List.mem_singleton.mp new, num]
      exact below a old
    · intro i member
      rcases List.mem_append.mp member with old | new
      · exact inv.seqs i old
      · rw [List.mem_singleton.mp new, num, seq, head]
        exact (sub_add_cancel s.nextSeq (BitVec.ofNat 16 s.advances)).symm

private theorem advanceStep_queue (ring : RingInv s) (inv : QueueInv s) {d : Dgram}
    (here : s.pc = .advance d) : QueueInv (advanceStep s d) := by
  have turn := advanceStep_cases ring here
  generalize advanceStep s d = t at turn ⊢
  cases turn with
  | dispatched _ _ =>
    exact inv.of_frame rfl rfl rfl rfl (by simp [numLimit, here, beginDispatch, System.modifySlot])
      (fun _ => rfl)
  | givenUp _ _ =>
    exact inv.of_frame rfl rfl rfl rfl (by simp [numLimit, here])
      (fun _ => firstSeq_succ s.nextSeq s.advances)
  | duplicate _ _ _ | busy _ _ _ | accepted _ _ _ =>
    exact inv.of_frame rfl rfl rfl rfl (by simp [numLimit, here]) (fun _ => rfl)

private theorem recvStep_queue (ring : RingInv s) (inv : QueueInv s) (moved : recvStep s = some t) : QueueInv t := by
  cases recvStep_cases moved with
  | advance d here => exact advanceStep_queue ring inv here
  | enqueue k j here => exact enqueueJob_queue ring inv here
  | giveBack k i here =>
    exact inv.of_frame rfl rfl rfl rfl (by simp [numLimit, here, giveBack, System.modifySlot]) (fun _ => rfl)
  | clear k i here =>
    refine inv.of_frame rfl rfl rfl rfl ?_ (fun _ => firstSeq_succ s.nextSeq s.advances)
    -- The head moves past the number that was already counted as dispatched.
    have same : (clearHead s k i).advances = numLimit s := by simp [numLimit, here, clearHead]
    rw [← same]
    exact numLimit_ge _
  | store d here => exact inv.of_frame rfl rfl rfl rfl (by simp [numLimit, here, storeDgram]) (fun _ => rfl)
  | drain here =>
    unfold drainStep
    split
    · exact inv.of_frame rfl rfl rfl rfl
        (by simp [numLimit, here, beginDispatch, System.modifySlot]) (fun _ => rfl)
    · exact inv.of_frame rfl rfl rfl rfl (by simp [numLimit, here]) (fun _ => rfl)

private theorem handleDgram_queue (ring : RingInv s) (inv : QueueInv s)
    (here : s.pc = .idle) (data : List UInt8) : QueueInv (handleDgram s data) := by
  -- Before the first datagram nothing can have been enqueued.
  have fresh (off : s.started = false) : s.enqueued = [] := by
    apply List.eq_nil_iff_forall_not_mem.mpr
    intro j member
    have low := inv.below j member
    simp only [numLimit, here, (ring.unstarted off).2.1] at low
    exact absurd low (Nat.not_lt_zero _)
  unfold handleDgram
  split
  · exact inv
  next d parsed =>
    cases started : s.started with
    | true =>
      dsimp only
      rw [if_pos rfl]
      split
      · exact inv
      · exact inv.of_frame rfl rfl rfl rfl (by simp [numLimit, here]) (fun _ => rfl)
    | false =>
      simp only [Bool.false_eq_true, if_false]
      split
      · exact inv.of_frame rfl rfl rfl rfl (by simp [numLimit, here])
          (fun some => absurd (fresh started) some)
      · exact inv.of_frame rfl rfl rfl rfl (by simp [numLimit, here])
          (fun some => absurd (fresh started) some)

/-! ### Moves of the worker -/

private theorem dequeueJob_queue (inv : QueueInv s) (moved : dequeueJob s = some t) : QueueInv t := by
  unfold dequeueJob at moved
  split at moved
  next j q hand taken =>
    cases moved
    refine ⟨?_, inv.payload, inv.below, inv.ordered, inv.seqs⟩
    have history := inv.history
    rw [hand, SpscQueue.contents_dequeue taken] at history
    exact history
  · cases moved

/-- The worker never meets a job without a payload, so it hands on every job it takes. -/
private theorem processJob_queue (inv : QueueInv s) (moved : processJob s = some t) : QueueInv t := by
  unfold processJob at moved
  split at moved
  · cases moved
  next j hand =>
    have history := inv.history
    rw [hand] at history
    have member : j ∈ s.enqueued := by
      rw [history]
      simp
    rw [if_pos (inv.payload j member)] at moved
    cases moved
    refine ⟨?_, inv.payload, inv.below, inv.ordered, inv.seqs⟩
    simp only [history, Option.toList_some, Option.toList_none, List.nil_append, List.append_assoc]

theorem queueInv_init (d : Nat) : QueueInv (init d) where
  history := by simp [init]
  payload := by simp [init]
  below := by simp [init]
  ordered := by simp [init]
  seqs := by simp [init]

theorem step_queueInv {a : Action} (ring : RingInv s) (inv : QueueInv s)
    (moved : step s a = some t) : QueueInv t := by
  cases a with
  | dgram data =>
    simp only [step] at moved
    split at moved
    next ready =>
      cases moved
      exact handleDgram_queue ring inv ready.1 data
    · cases moved
  | recv => exact recvStep_queue ring inv moved
  | dequeue => exact dequeueJob_queue inv moved
  | process => exact processJob_queue inv moved
  | release i =>
    simp only [step, Option.some.injEq] at moved
    subst moved
    unfold releaseSlab
    split
    · exact inv.of_frame rfl rfl rfl rfl (Nat.le_refl _) (fun _ => rfl)
    · exact inv

theorem reachable_queueInv {allowed : System → Action → Prop} {d : Nat} (low : 1 ≤ d)
    (high : d ≤ kRingSize) (reach : Reachable allowed d s) :
    RingInv s ∧ QueueInv s :=
  reach.invariant (I := fun s => RingInv s ∧ QueueInv s)
    ⟨ringInv_init low high, queueInv_init d⟩
    fun _ _ _ inv _ moved => ⟨step_ringInv inv.1 moved, step_queueInv inv.1 inv.2 moved⟩

private theorem step_jitterDepth {a : Action} (moved : step s a = some t) : t.jitterDepth = s.jitterDepth := by
  cases a with
  | dgram data =>
    simp only [step] at moved
    split at moved
    · cases moved
      unfold handleDgram
      split
      · rfl
      · dsimp only
        split <;> split <;> rfl
    · cases moved
  | recv =>
    cases recvStep_cases moved with
    | advance _ _ =>
      unfold advanceStep
      dsimp only
      repeat' split
      all_goals rfl
    | enqueue _ _ _ =>
      unfold enqueueJob
      split <;> rfl
    | giveBack _ _ _ => rfl
    | clear _ _ _ => rfl
    | store _ _ => rfl
    | drain _ =>
      unfold drainStep
      split <;> rfl
  | dequeue => exact (sameRecv_of_other moved (Or.inl rfl)).1.jitterDepth
  | process => exact (sameRecv_of_other moved (Or.inr (Or.inl rfl))).1.jitterDepth
  | release i => exact (sameRecv_of_other moved (Or.inr (Or.inr ⟨i, rfl⟩))).1.jitterDepth

theorem reachable_jitterDepth {allowed : System → Action → Prop} {d : Nat}
    (reach : Reachable allowed d s) : s.jitterDepth = d :=
  reach.invariant (I := fun s => s.jitterDepth = d) rfl
    fun _ _ _ depth _ moved => (step_jitterDepth moved).trans depth

/-- Whatever the datagrams, the worker and the hook's owner do, for a jitter depth of at
most the ring size: filled slots lie in the window at their own index and are counted by
`pending_`, the alias branch is dead, and the hook gets the accepted jobs in order, with
increasing unwrapped sequence numbers. -/
theorem delivery_in_order {allowed : System → Action → Prop} {d : Nat} (low : 1 ≤ d)
    (high : d ≤ kRingSize) {s : System} (reach : Reachable allowed d s) :
    (∀ i, (s.ring i).filled = true →
      ((s.ring i).seq - s.nextSeq).toNat < d ∧ i.val = (s.ring i).seq.toNat % 16384) ∧
    s.pending = filledCount s.ring ∧ s.aliased = false ∧
    s.handed.Pairwise (fun i j => i.num < j.num) ∧
    (∀ j ∈ s.handed, j.seq = firstSeq s + BitVec.ofNat 16 j.num) ∧
    s.handed <+: s.enqueued := by
  obtain ⟨ring, queue⟩ := reachable_queueInv low high reach
  have handed : s.handed <+: s.enqueued := by
    rw [queue.history]
    exact List.prefix_append _ _
  refine ⟨?_, ring.pending, ring.notAliased, queue.ordered.sublist handed.sublist, ?_, handed⟩
  · intro i filled
    obtain ⟨near, index⟩ := ring.window i filled
    refine ⟨reachable_jitterDepth reach ▸ near, ?_⟩
    have value := ringIndex_val (s.ring i).seq
    rwa [index] at value
  · exact fun j member => queue.seqs j (handed.sublist.subset member)

/-- A bare RTP packet with the sequence number `hi * 256 + lo`. -/
def barePacket (hi lo : UInt8) : List UInt8 := [0x80, 96, hi, lo, 0, 0, 0, 0, 0, 0, 0, 0]

/-- The head starts at 65535; 1 overtakes 0 and a copy of 65535 comes late. -/
def wrapRun : List Action :=
  [.dgram (barePacket 255 255), .recv, .recv, .recv, .recv, .recv, .recv,
   .dgram (barePacket 0 1), .recv, .recv, .recv, .dequeue, .process,
   .dgram (barePacket 255 255), .dgram (barePacket 0 0), .recv, .recv, .recv, .recv, .recv,
   .recv, .recv, .recv, .recv, .dequeue, .process, .release 0, .dequeue, .process]

theorem delivery_in_order_wrapRun : ∃ s, run (fun _ _ => True) (init 4) wrapRun = some s ∧
    s.handed.map Job.seq = [65535, 0, 1] ∧ s.handed <+: s.enqueued := by
  have seqs : (run (fun _ _ => True) (init 4) wrapRun).map (fun s => s.handed.map Job.seq) =
      some [65535, 0, 1] := by
    decide +kernel
  obtain ⟨s, returned, order⟩ := Option.map_eq_some_iff.mp seqs
  have delivery := delivery_in_order (by decide) (by decide) (Reachable.start.run _ returned)
  exact ⟨s, returned, order, delivery.2.2.2.2.2⟩

end RtpDecoder.Receiver
