import RtpDecoder.Lib.SpscQueue
import RtpDecoder.Lib.SeqNum
import RtpDecoder.Receiver.Datagram
import Mathlib.Data.Fintype.Basic
import Mathlib.Data.Finset.Card

/-!
# The receiver as three interleaved parties

`rtp::Receiver` runs a recv thread (`handle_dgram`, `release_in_order`, `dispatch`),
a worker thread (`dequeue_job`, `process_job`) and calls of `release_slab` that the
hook's owner makes whenever it likes. The recv thread is a small machine whose
program counter stands where another party's move can be seen: before each access
of `in_worker`, of the job queue and of the slab bytes.

Fields marked ghost are not in the source. They number the head positions and keep
the history that the results talk about; no transition reads them.
-/

namespace RtpDecoder.Receiver

structure Slot where
  filled : Bool := false
  seq : BitVec 16 := 0
  hdrLen : BitVec 16 := 0
  len : Nat := 0
  inWorker : Bool := false
deriving DecidableEq, Repr

structure Job where
  slabIdx : Fin kRingSize
  len : Nat
  seq : BitVec 16
  hdrLen : BitVec 16
  /-- Ghost: the number of increments of `next_seq_` before this job was dispatched. -/
  num : Nat
deriving DecidableEq, Repr

/-- Where the recv thread goes on after a `dispatch`: it is called from the
force-advance loop of `handle_dgram` and from `release_in_order`. -/
inductive Caller where
  | advance (d : Dgram)
  | drain
deriving DecidableEq, Repr

/-- The program counter of the recv thread. -/
inductive Pc where
  /-- In `recv_loop`, between two datagrams. -/
  | idle
  /-- At the test of the force-advance loop. -/
  | advance (d : Dgram)
  /-- In `dispatch`, after `in_worker.store(1)` and before `enqueue_job`. -/
  | enqueue (k : Caller) (j : Job)
  /-- In `dispatch`, after `enqueue_job` failed. -/
  | giveBack (k : Caller) (i : Fin kRingSize)
  /-- After `dispatch` returned, before the slot is cleared and the head moves. -/
  | clear (k : Caller) (i : Fin kRingSize)
  /-- After `in_worker` was read as 0, before the bytes are copied. -/
  | store (d : Dgram)
  /-- At the test of the loop of `release_in_order`. -/
  | drain
deriving DecidableEq, Repr

def Caller.resume : Caller → Pc
  | .advance d => .advance d
  | .drain => .drain

structure System where
  jitterDepth : Nat
  ring : Fin kRingSize → Slot
  slab : Fin kRingSize → List UInt8
  started : Bool
  nextSeq : BitVec 16
  pending : Nat
  netLostPackets : Nat
  slotBusyDrops : Nat
  queueFullDrops : Nat
  jobQueue : SpscQueue Job kJobQueueSize
  pc : Pc
  /-- The job that `dequeue_job` returned and `process_job` has not handed on yet. -/
  inHand : Option Job
  /-- Ghost: increments of `next_seq_` so far. -/
  advances : Nat
  /-- Ghost: the datagrams copied into a slot, each with its unwrapped number. -/
  stored : List (Nat × Dgram)
  /-- Ghost: the jobs that `enqueue_job` accepted, oldest first. -/
  enqueued : List Job
  /-- Ghost: the jobs given to the hook, oldest first. -/
  handed : List Job
  /-- Ghost: the jobs given to the hook whose slab was not released yet. -/
  owned : List Job
  /-- Ghost: whether the alias branch was ever taken. -/
  aliased : Bool

def Job.blank : Job := ⟨⟨0, by decide⟩, 0, 0, 0, 0⟩

/-- The state `start` leaves behind. -/
def init (jitterDepth : Nat) : System where
  jitterDepth := jitterDepth
  ring := fun _ => {}
  slab := fun _ => List.replicate kSlotBytes 0
  started := false
  nextSeq := 0
  pending := 0
  netLostPackets := 0
  slotBusyDrops := 0
  queueFullDrops := 0
  jobQueue := SpscQueue.empty Job.blank (by decide)
  pc := .idle
  inHand := none
  advances := 0
  stored := []
  enqueued := []
  handed := []
  owned := []
  aliased := false

/-- `seq & (kRingSize - 1)`. -/
def ringIndex (seq : BitVec 16) : Fin kRingSize :=
  ⟨seq.toNat &&& (kRingSize - 1), Nat.lt_of_le_of_lt Nat.and_le_right (by decide)⟩

theorem ringIndex_val (seq : BitVec 16) : (ringIndex seq).val = seq.toNat % 2 ^ 14 :=
  Nat.and_two_pow_sub_one_eq_mod seq.toNat 14

def System.modifySlot (s : System) (i : Fin kRingSize) (f : Slot → Slot) : System :=
  { s with ring := Function.update s.ring i (f (s.ring i)) }

/-! ### The recv thread -/

/-- `handle_dgram` up to the force-advance loop. -/
def handleDgram (s : System) (data : List UInt8) : System :=
  match parseDgram data with
  | none => s
  | some d =>
    let s := if s.started then s else { s with started := true, nextSeq := d.seq }
    -- A packet from before the head comes too late.
    if (d.seq - s.nextSeq).toInt < 0 then s else { s with pc := .advance d }

/-- `dispatch`, first statement: the slab now belongs to the worker. -/
def beginDispatch (s : System) (k : Caller) (i : Fin kRingSize) : System :=
  { s.modifySlot i (fun slot => { slot with inWorker := true }) with
    pc := .enqueue k ⟨i, (s.ring i).len, (s.ring i).seq, (s.ring i).hdrLen, s.advances⟩ }

/-- `dispatch`, the call of `enqueue_job`. -/
def enqueueJob (s : System) (k : Caller) (j : Job) : System :=
  match s.jobQueue.enqueue j with
  | none => { s with pc := .giveBack k j.slabIdx }
  | some q => { s with jobQueue := q, enqueued := s.enqueued ++ [j], pc := .clear k j.slabIdx }

/-- `dispatch`, the queue was full: drop the packet and take the slab back. -/
def giveBack (s : System) (k : Caller) (i : Fin kRingSize) : System :=
  { s.modifySlot i (fun slot => { slot with inWorker := false }) with
    queueFullDrops := s.queueFullDrops + 1
    pc := .clear k i }

/-- The rest of both loop bodies after `dispatch`: empty the slot, move the head. -/
def clearHead (s : System) (k : Caller) (i : Fin kRingSize) : System :=
  { s.modifySlot i (fun slot => { slot with filled := false, len := 0 }) with
    pending := s.pending - 1
    nextSeq := s.nextSeq + 1
    advances := s.advances + 1
    pc := k.resume }

/-- The slot at the head holds the packet the head waits for. -/
def headReady (s : System) : Bool :=
  (s.ring (ringIndex s.nextSeq)).filled && (s.ring (ringIndex s.nextSeq)).seq == s.nextSeq

/-- One turn of the force-advance loop, or, past it, the slot checks of `handle_dgram`. -/
def advanceStep (s : System) (d : Dgram) : System :=
  if (BitVec.ofNat 16 s.jitterDepth).toInt ≤ (d.seq - s.nextSeq).toInt then
    -- The datagram lies beyond the window: the head is handed on, or given up as lost.
    if headReady s then beginDispatch s (.advance d) (ringIndex s.nextSeq)
    else { s with
      netLostPackets := s.netLostPackets + 1
      nextSeq := s.nextSeq + 1
      advances := s.advances + 1 }
  else
    let slot := s.ring (ringIndex d.seq)
    if slot.filled then
      -- Either a duplicate, or a number that shares the slot.
      if slot.seq = d.seq then { s with pc := .idle }
      else { s with netLostPackets := s.netLostPackets + 1, aliased := true, pc := .idle }
    -- The hook's owner may still be reading the bytes.
    else if slot.inWorker then { s with slotBusyDrops := s.slotBusyDrops + 1, pc := .idle }
    else { s with pc := .store d }

/-- Copy the datagram into its slot. -/
def storeDgram (s : System) (d : Dgram) : System :=
  { s with
    -- What an earlier, longer datagram left behind this one stays in the slab.
    slab := Function.update s.slab (ringIndex d.seq)
      (d.data.take d.effectiveLen ++ (s.slab (ringIndex d.seq)).drop d.effectiveLen)
    ring := Function.update s.ring (ringIndex d.seq)
      { s.ring (ringIndex d.seq) with
        seq := d.seq, hdrLen := BitVec.ofNat 16 d.hdr, len := d.effectiveLen, filled := true }
    pending := s.pending + 1
    stored := (s.advances + SeqNum.ahead d.seq s.nextSeq, d) :: s.stored
    pc := .drain }

/-- One turn of the loop of `release_in_order`. -/
def drainStep (s : System) : System :=
  if 0 < s.pending ∧ headReady s then beginDispatch s .drain (ringIndex s.nextSeq)
  else { s with pc := .idle }

/-- The next move of the recv thread inside `handle_dgram`. -/
def recvStep (s : System) : Option System :=
  match s.pc with
  | .idle => none
  | .advance d => some (advanceStep s d)
  | .enqueue k j => some (enqueueJob s k j)
  | .giveBack k i => some (giveBack s k i)
  | .clear k i => some (clearHead s k i)
  | .store d => some (storeDgram s d)
  | .drain => some (drainStep s)

/-- What a move of the recv thread inside `handle_dgram` can be. -/
inductive RecvTurn (s : System) : System → Prop where
  | advance (d : Dgram) (here : s.pc = .advance d) : RecvTurn s (advanceStep s d)
  | enqueue (k : Caller) (j : Job) (here : s.pc = .enqueue k j) : RecvTurn s (enqueueJob s k j)
  | giveBack (k : Caller) (i : Fin kRingSize) (here : s.pc = .giveBack k i) : RecvTurn s (giveBack s k i)
  | clear (k : Caller) (i : Fin kRingSize) (here : s.pc = .clear k i) : RecvTurn s (clearHead s k i)
  | store (d : Dgram) (here : s.pc = .store d) : RecvTurn s (storeDgram s d)
  | drain (here : s.pc = .drain) : RecvTurn s (drainStep s)

theorem recvStep_cases {s t : System} (moved : recvStep s = some t) : RecvTurn s t := by
  simp only [recvStep] at moved
  split at moved <;> cases moved
  next here => exact .advance _ here
  next here => exact .enqueue _ _ here
  next here => exact .giveBack _ _ here
  next here => exact .clear _ _ here
  next here => exact .store _ here
  next here => exact .drain here

/-! ### The worker and the hook's owner -/

/-- `dequeue_job`, when the worker is between two jobs. -/
def dequeueJob (s : System) : Option System :=
  match s.inHand, s.jobQueue.dequeue with
  | none, some (j, q) => some { s with jobQueue := q, inHand := some j }
  | _, _ => none

/-- `process_job`: give the job to the hook, or release its slab when it has no payload. -/
def processJob (s : System) : Option System :=
  match s.inHand with
  | none => none
  | some j =>
    if j.hdrLen.toNat ≤ j.len then
      some { s with inHand := none, handed := s.handed ++ [j], owned := j :: s.owned }
    else
      some { s.modifySlot j.slabIdx (fun slot => { slot with inWorker := false }) with
        inHand := none }

/-- `release_slab`. An index outside the ring is ignored. -/
def releaseSlab (s : System) (i : Nat) : System :=
  if bound : i < kRingSize then
    { s.modifySlot ⟨i, bound⟩ (fun slot => { slot with inWorker := false }) with
      owned := s.owned.filter (fun j => j.slabIdx.val ≠ i) }
  else s

/-! ### Interleavings -/

inductive Action where
  /-- `recv` returned a datagram and the recv thread enters `handle_dgram`. -/
  | dgram (data : List UInt8)
  | recv
  | dequeue
  | process
  | release (i : Nat)

/-- One move of one party. `recv_loop` reads at most a slot and skips short datagrams. -/
def step (s : System) : Action → Option System
  | .dgram data =>
    if s.pc = .idle ∧ 12 ≤ data.length ∧ data.length ≤ kSlotBytes then
      some (handleDgram s data)
    else none
  | .recv => recvStep s
  | .dequeue => dequeueJob s
  | .process => processJob s
  | .release i => some (releaseSlab s i)

/-- A run of several allowed moves. -/
def run (allowed : System → Action → Prop) [∀ s a, Decidable (allowed s a)] (s : System) :
    List Action → Option System
  | [] => some s
  | a :: rest => if allowed s a then (step s a).bind fun t => run allowed t rest else none

/-- The states some interleaving of `allowed` moves reaches from `start` with jitter depth `d`. -/
inductive Reachable (allowed : System → Action → Prop) (d : Nat) : System → Prop where
  | start : Reachable allowed d (init d)
  | next {s t : System} (a : Action) : Reachable allowed d s → allowed s a →
      step s a = some t → Reachable allowed d t

/-- The invariant rule: what `start` establishes and each allowed move preserves, always holds. -/
theorem Reachable.invariant {allowed : System → Action → Prop} {d : Nat} {I : System → Prop}
    (initial : I (init d))
    (preserved : ∀ s t a, I s → allowed s a → step s a = some t → I t) {s : System}
    (reach : Reachable allowed d s) : I s := by
  induction reach with
  | start => exact initial
  | next a _ may moved ih => exact preserved _ _ a ih may moved

theorem Reachable.run {allowed : System → Action → Prop} [∀ s a, Decidable (allowed s a)] {d : Nat}
    {s t : System} (reach : Reachable allowed d s) (actions : List Action)
    (returned : run allowed s actions = some t) : Reachable allowed d t := by
  induction actions generalizing s with
  | nil =>
    cases returned
    exact reach
  | cons a rest ih =>
    simp only [Receiver.run] at returned
    split at returned
    next may =>
      obtain ⟨u, moved, later⟩ := Option.bind_eq_some_iff.mp returned
      exact ih (reach.next a may moved) later
    · cases returned

end RtpDecoder.Receiver
