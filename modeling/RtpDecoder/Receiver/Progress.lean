import RtpDecoder.Receiver.Reordering
import RtpDecoder.Receiver.ZeroCopy
import Mathlib.Order.Interval.Finset.Nat

/-!
# The worker's side keeps up

What the two threads have taken in, they finish: without further datagrams every order of their
moves comes to rest within a fixed number of moves, and never in a state where one of them is stuck.
And as long as the worker's side stays less than a ring behind the recv thread, no packet is dropped
for want of a slot or of room in the job queue.
-/

namespace RtpDecoder.Receiver

open RtpDecoder.Frame (FrameHandler Callbacks TileOps)
open SeqNum

variable {s t : System}

/-! ### The work that is left -/

theorem recvStep_backlog (moved : recvStep s = some t) :
    t.jobQueue.contents.length ≤ s.jobQueue.contents.length + 1 ∧ t.inHand = s.inHand := by
  cases recvStep_cases moved with
  | advance d here =>
    unfold advanceStep
    dsimp only
    repeat' split
    all_goals exact ⟨Nat.le_succ _, rfl⟩
  | enqueue k j here =>
    unfold enqueueJob
    split
    · exact ⟨Nat.le_succ _, rfl⟩
    next q pushed =>
      refine ⟨?_, rfl⟩
      dsimp only
      rw [SpscQueue.contents_enqueue pushed, List.length_append]
      exact Nat.le_refl _
  | giveBack _ _ _ | clear _ _ _ | store _ _ => exact ⟨Nat.le_succ _, rfl⟩
  | drain here =>
    unfold drainStep
    split <;> exact ⟨Nat.le_succ _, rfl⟩

theorem turnsLeft_of_other {a : Action} (moved : step s a = some t)
    (worker : a = .dequeue ∨ a = .process ∨ ∃ i, a = .release i) : turnsLeft t = turnsLeft s := by
  obtain ⟨same, pc⟩ := sameRecv_of_other moved worker
  have turns (k : Caller) : k.turns t = k.turns s := by
    cases k <;> simp only [Caller.turns, same.pending, same.nextSeq]
  simp only [turnsLeft, pc, turns, same.pending]

/-- A filled ring, and a datagram at the far end of the sequence numbers. -/
theorem RingInv.turnsLeft_le (ring : RingInv s) : turnsLeft s ≤ 131078 := by
  have pending : s.pending ≤ 16384 := by
    rw [ring.pending]
    exact (Finset.card_le_univ _).trans_eq (Fintype.card_fin _)
  have turns (k : Caller) : k.turns s ≤ 131078 := by
    cases k with
    | advance e =>
      have near := ahead_lt e.seq s.nextSeq
      simp only [Caller.turns]
      omega
    | drain =>
      simp only [Caller.turns]
      omega
  unfold turnsLeft
  split
  · exact Nat.zero_le _
  · exact turns _
  · exact (Nat.sub_le _ _).trans (turns _)
  · exact (Nat.sub_le _ _).trans (turns _)
  · exact (Nat.sub_le _ _).trans (turns _)
  · omega
  · exact turns _

namespace Pipeline

variable {T : Type} {cb : Callbacks} {ops : TileOps T} {tileHndr : T} {relatchK d : Nat}
variable {p q : Pipeline T}

/-- Both threads have nothing to do. -/
structure Quiescent (p : Pipeline T) : Prop where
  waiting : p.sys.pc = .idle
  unoccupied : p.sys.inHand = none
  drained : p.sys.jobQueue.contents = []
  released : p.toRelease = []

/-- Every move of the recv thread is worth a job, every job a release. -/
def work (p : Pipeline T) : Nat :=
  4 * turnsLeft p.sys + 3 * p.sys.jobQueue.contents.length + 2 * p.sys.inHand.toList.length + p.sys.owned.length

theorem work_turn (low : 1 ≤ d) (high : d ≤ kRingSize) (owning : Owning d p) {a : Action}
    (turn : Turn cb ops p a q) (still : ∀ data, a ≠ .dgram data) : q.work < p.work := by
  have ring := reachable_ringInv low high owning.reachable
  cases turn with
  | @other a sys moved recv =>
    have owned := (beside_of_other moved recv).owned
    rcases recv with ⟨data, rfl⟩ | rfl | rfl
    · exact absurd rfl (still data)
    · have fewer := recvStep_turns ring moved
      obtain ⟨backlog, inHand⟩ := recvStep_backlog moved
      simp only [work, owned, inHand]
      omega
    · have same := turnsLeft_of_other moved (Or.inl rfl)
      cases step_moved moved with
      | dequeue free taken =>
        have shorter := congrArg List.length (SpscQueue.contents_dequeue taken)
        rw [List.length_cons] at shorter
        simp only [work, same, free, Option.toList_some, Option.toList_none, List.length_singleton,
          List.length_nil]
        omega
  | unhanded inHand moved short => exact absurd short (owning.frameOf_ne_none low high inHand)
  -- The job leaves the worker's hand and becomes a slab of the hook, which weighs less.
  | @handed j sys f inHand settled moved made =>
    have same := turnsLeft_of_other moved (Or.inr (Or.inl rfl))
    have after := process_eq inHand made moved
    simp only [work, same, inHand, Option.toList_some, List.length_singleton]
    simp only [after, Option.toList_none, List.length_nil, List.length_cons]
    omega
  | @release i rest next =>
    have moved : Receiver.step p.sys (.release i) = some (releaseSlab p.sys i) := rfl
    have same := turnsLeft_of_other moved (Or.inr (Or.inr ⟨i, rfl⟩))
    have mine : i ∈ ownedIdx p.sys := by
      rw [owning.owned.mem_iff, next]
      exact List.mem_append_right _ List.mem_cons_self
    have fewer := length_owned_releaseSlab (reachable_ownInv low high owning.reachable).nodup_ownedIdx mine
    obtain ⟨queue, inHand, _⟩ := releaseSlab_frame p.sys i
    simp only [work, same, queue, inHand]
    omega

theorem exists_move (cb : Callbacks) (ops : TileOps T) (busy : ¬ p.Quiescent) :
    ∃ a, (∀ data, a ≠ .dgram data) ∧ (p.step cb ops a).isSome = true := by
  by_cases waiting : p.sys.pc = .idle
  · cases held : p.toRelease with
    | cons i rest =>
      refine ⟨.release i, by simp, ?_⟩
      simp [step, held]
    | nil =>
      cases inHand : p.sys.inHand with
      | some j =>
        refine ⟨.process, by simp, ?_⟩
        have processed : ∃ sys, processJob p.sys = some sys := by
          simp only [processJob, inHand]
          split <;> exact ⟨_, rfl⟩
        obtain ⟨sys, processed⟩ := processed
        simp only [step, held, if_true, process, inHand, processed]
        split <;> rfl
      | none =>
        cases taken : p.sys.jobQueue.dequeue with
        | none => exact absurd ⟨waiting, inHand, SpscQueue.dequeue_eq_none_iff.mp taken, held⟩ busy
        | some pair =>
          obtain ⟨j, rest⟩ := pair
          refine ⟨.dequeue, by simp, ?_⟩
          simp [step, held, dequeueJob, inHand, taken]
  · refine ⟨.recv, by simp, ?_⟩
    simp only [step, Receiver.step, Option.isSome_map]
    cases here : p.sys.pc <;> simp_all [recvStep]

theorem work_run (low : 1 ≤ d) (high : d ≤ kRingSize) (set : cb.releaseSlab = true)
    (running : Running cb ops tileHndr relatchK d p) (actions : List Action)
    (still : ∀ a ∈ actions, ∀ data, a ≠ .dgram data) (returned : p.run cb ops actions = some q) :
    q.work + actions.length ≤ p.work := by
  induction actions generalizing p with
  | nil =>
    cases returned
    exact Nat.le_refl _
  | cons a rest ih =>
    obtain ⟨u, moved, later⟩ := Option.bind_eq_some_iff.mp returned
    have less := work_turn low high (running.owning low high set) (step_cases moved) (still a List.mem_cons_self)
    have remaining := ih (running.next a moved) (fun b member => still b (List.mem_cons_of_mem _ member)) later
    rw [List.length_cons]
    omega

/-- On top of that, a full queue and a frame at its cap. -/
theorem Owning.work_le (low : 1 ≤ d) (high : d ≤ kRingSize) (owning : Owning d p) : p.work ≤ 576536 := by
  have left := (reachable_ringInv low high owning.reachable).turnsLeft_le
  have queued : p.sys.jobQueue.contents.length < 16384 := p.sys.jobQueue.length_contents_lt
  have hand : p.sys.inHand.toList.length ≤ 1 := by cases p.sys.inHand <;> simp
  have owned := owning.owned.length_eq
  have bounded := owning.bounded
  rw [ownedIdx, List.length_map, List.length_append] at owned
  unfold work
  omega

/-- From any state of the pipeline, without further datagrams: whatever the order in which the
threads move, they come to rest after at most 576536 moves, and until then one of them can move. -/
theorem pipeline_winds_down (low : 1 ≤ d) (high : d ≤ kRingSize) (set : cb.releaseSlab = true)
    (running : Running cb ops tileHndr relatchK d p) (actions : List Action)
    (still : ∀ a ∈ actions, ∀ data, a ≠ .dgram data) (returned : p.run cb ops actions = some q) :
    actions.length ≤ 576536 ∧
      (q.Quiescent ∨ ∃ a, (∀ data, a ≠ .dgram data) ∧ (q.step cb ops a).isSome = true) := by
  constructor
  · have spent := work_run low high set running actions still returned
    have most := (running.owning low high set).work_le low high
    omega
  · by_cases rest : q.Quiescent
    · exact Or.inl rest
    · exact Or.inr (exists_move cb ops rest)

/-- A second datagram is on its way while the first is held. -/
theorem pipeline_winds_down_pieceRun : ∃ p : Pipeline Parser.TileHandler,
    (⟨init 64, FrameHandler.new {} 4, []⟩ : Pipeline _).run {} Frame.tileOps pieceRun = some p ∧
    (p.Quiescent ∨ ∃ a, (∀ data, a ≠ .dgram data) ∧ (p.step {} Frame.tileOps a).isSome = true) := by
  have some : ((⟨init 64, FrameHandler.new {} 4, []⟩ : Pipeline _).run {} Frame.tileOps pieceRun).isSome = true := by
    decide +kernel
  obtain ⟨p, returned⟩ := Option.isSome_iff_exists.mp some
  have running := Running.start.run pieceRun returned
  exact ⟨p, returned, (pipeline_winds_down (by decide) (by decide) rfl running [] (by simp) rfl).2⟩

end Pipeline

/-! ### The distance between the threads -/

/-- The number that the recv thread is at. -/
def frontier (s : System) : Nat :=
  match s.pc with
  | .advance e => s.advances + ahead e.seq s.nextSeq
  | _ => s.advances

/-- No job on the worker's side is a ring behind. -/
def Close (s : System) : Prop := ∀ j ∈ s.owned ++ underway s, frontier s < j.num + 16383

instance (s : System) : Decidable (Close s) := inferInstanceAs (Decidable (∀ j ∈ _, _))

/-- The recv thread moves only while the worker's side is close, and the hook's owner keeps the rules. -/
def KeepingUp (s : System) : Action → Prop
  | .recv => Close s
  | .release i => HookOk s (.release i)
  | .dgram _ | .dequeue | .process => True

instance (s : System) (a : Action) : Decidable (KeepingUp s a) :=
  match a with
  | .recv => inferInstanceAs (Decidable (Close s))
  | .release i => inferInstanceAs (Decidable (HookOk s (.release i)))
  | .dgram _ | .dequeue | .process => isTrue trivial

theorem KeepingUp.hookOk {a : Action} (may : KeepingUp s a) : HookOk s a := by
  cases a with
  | release i => exact may
  | dgram _ | recv | dequeue | process => exact trivial

theorem reachable_owned {allowed : System → Action → Prop} {d : Nat} (low : 1 ≤ d) (high : d ≤ kRingSize)
    (reach : Reachable allowed d s) : ∀ j ∈ s.owned ++ underway s, j ∈ s.enqueued := by
  have handed : ∀ j ∈ s.owned, j ∈ s.handed := by
    clear low high
    induction reach with
    | start => simp [init]
    | @next s t a _ _ moved ih =>
      cases step_moved moved with
      | recv moved =>
        have beside := beside_of_recv moved
        rw [beside.owned, beside.handed]
        exact ih
      | handed _ _ =>
        intro j member
        rcases List.mem_cons.mp member with rfl | old
        · exact List.mem_append_right _ List.mem_cons_self
        · exact List.mem_append_left _ (ih j old)
      | release _ => exact fun j member => ih j (List.mem_of_mem_filter member)
      | _ => exact ih
  obtain ⟨_, queue⟩ := reachable_queueInv low high reach
  intro j member
  rw [queue.history]
  rcases List.mem_append.mp member with mine | waiting
  · exact List.mem_append_left _ (handed j mine)
  · exact List.mem_append_right _ waiting

/-- A job that keeps the slot of the datagram busy is a ring behind it. -/
theorem unhindered_of_close {d : Nat} (low : 1 ≤ d) (high : d ≤ kRingSize)
    (reach : Reachable HookOk d s) (close : Close s) : Unhindered s := by
  obtain ⟨ring, queue⟩ := reachable_queueInv low high reach
  have inv := reachable_ownInv low high reach
  unfold Unhindered
  split
  next e here =>
    intro _
    by_contra busy
    rw [Bool.not_eq_false] at busy
    have outside : ¬ InDispatch s (ringIndex e.seq) := by simp [InDispatch, here]
    obtain ⟨j, member, slot⟩ := mem_busyIdx.mp ((inv.flag _ outside).mp busy)
    have queued := reachable_owned low high reach j member
    rw [reachable_placed low high reach j queued] at slot
    have below := queue.below j queued
    have near := close j member
    simp only [frontier, numLimit, here] at near below
    -- Both numbers are counted from the first one and share a slot.
    have seq := queue.seqs j queued
    have at_ : e.seq = firstSeq s + BitVec.ofNat 16 (s.advances + ahead e.seq s.nextSeq) := by
      rw [BitVec.ofNat_add, ← BitVec.add_assoc, firstSeq, BitVec.sub_add_cancel, add_ahead]
    have same := congrArg Fin.val slot
    rw [ringIndex_val, ringIndex_val, seq, at_, BitVec.toNat_add, BitVec.toNat_add, BitVec.toNat_ofNat,
      BitVec.toNat_ofNat] at same
    omega
  next k j here =>
    by_contra full
    rw [Bool.not_eq_true, Option.isSome_eq_false_iff, Option.isNone_iff_eq_none,
      SpscQueue.enqueue_eq_none_iff] at full
    have size : s.jobQueue.contents.length + 1 = 16384 := full
    -- So many different numbers do not fit between the oldest job and the head.
    have queued : ∀ i ∈ s.jobQueue.contents, i ∈ s.owned ++ underway s := fun i member =>
      List.mem_append_right _ (List.mem_append_right _ member)
    have ordered : s.jobQueue.contents.Pairwise fun i j => i.num < j.num := by
      have all := queue.ordered
      rw [queue.history] at all
      exact (List.pairwise_append.mp (List.pairwise_append.mp all).2.1).2.1
    have nodup : (s.jobQueue.contents.map Job.num).Nodup :=
      List.pairwise_map.mpr (ordered.imp fun less => Nat.ne_of_lt less)
    have within : (s.jobQueue.contents.map Job.num).toFinset ⊆ Finset.Ico (s.advances + 1 - 16383) s.advances := by
      intro n member
      obtain ⟨i, inQueue, rfl⟩ := List.mem_map.mp (List.mem_toFinset.mp member)
      have below := queue.below i (reachable_owned low high reach i (queued i inQueue))
      have near := close i (queued i inQueue)
      simp only [frontier, numLimit, here] at near below
      rw [Finset.mem_Ico]
      omega
    have fewer := Finset.card_le_card within
    rw [List.toFinset_card_of_nodup nodup, List.length_map, Nat.card_Ico] at fewer
    omega
  · trivial

/-- What the receiver is like when nothing has been dropped. -/
structure Undropped (s : System) : Prop where
  counters : s.slotBusyDrops = 0 ∧ s.queueFullDrops = 0
  accepted : ∀ k i, s.pc ≠ .giveBack k i

theorem undropped_recv (ring : RingInv s) (undropped : Undropped s) (free : Unhindered s)
    (moved : recvStep s = some t) : Undropped t := by
  cases recvStep_cases moved with
  | advance e here =>
    have turn := advanceStep_cases ring here
    generalize advanceStep s e = t at turn ⊢
    cases turn with
    | dispatched _ _ => exact ⟨undropped.counters, by simp [beginDispatch]⟩
    | givenUp _ _ => exact ⟨undropped.counters, by simp [here]⟩
    | busy _ empty inWorker =>
      simp only [Unhindered, here] at free
      rw [free empty] at inWorker
      cases inWorker
    | duplicate _ _ _ | accepted _ _ _ => exact ⟨undropped.counters, by simp⟩
  | enqueue k j here =>
    simp only [Unhindered, here] at free
    obtain ⟨q, pushed⟩ := Option.isSome_iff_exists.mp free
    simp only [enqueueJob, pushed]
    exact ⟨undropped.counters, by simp⟩
  | giveBack k i here => exact absurd here (undropped.accepted k i)
  | clear k i here =>
    refine ⟨undropped.counters, ?_⟩
    cases k <;> simp [clearHead, Caller.resume]
  | store e here => exact ⟨undropped.counters, by simp [storeDgram]⟩
  | drain here =>
    unfold drainStep
    split
    · exact ⟨undropped.counters, by simp [beginDispatch]⟩
    · exact ⟨undropped.counters, by simp⟩

/-- As long as the recv thread always finds the worker's side less than 16383 numbers behind, it never
drops a packet because a slot is busy or because the job queue is full. -/
theorem keeping_up_drops_nothing {d : Nat} (low : 1 ≤ d) (high : d ≤ kRingSize) {s : System}
    (reach : Reachable KeepingUp d s) :
    s.slotBusyDrops = 0 ∧ s.queueFullDrops = 0 := by
  have both : Reachable HookOk d s ∧ Undropped s := by
    induction reach with
    | start => exact ⟨.start, ⟨rfl, rfl⟩, by simp [init]⟩
    | @next s t a _ may moved ih =>
      obtain ⟨before, undropped⟩ := ih
      refine ⟨before.next a may.hookOk moved, ?_⟩
      cases step_moved moved with
      | dgram _ _ _ taken =>
        refine ⟨undropped.counters, ?_⟩
        rcases taken with rfl | ⟨e, rfl⟩ <;> simp
      | recv moved =>
        have free := unhindered_of_close low high before may
        exact undropped_recv (reachable_ringInv low high before) undropped free moved
      | _ => exact ⟨undropped.counters, undropped.accepted⟩
  exact both.2.counters

theorem keeping_up_drops_nothing_takenRun : ∃ s,
    run KeepingUp (init 64) (takenRun []) = some s ∧ s.slotBusyDrops = 0 := by
  have some : (run KeepingUp (init 64) (takenRun [])).isSome = true := by
    decide +kernel
  obtain ⟨s, returned⟩ := Option.isSome_iff_exists.mp some
  exact ⟨s, returned, (keeping_up_drops_nothing (by decide) (by decide) (Reachable.start.run _ returned)).1⟩

end RtpDecoder.Receiver
