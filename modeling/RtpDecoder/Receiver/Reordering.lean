import RtpDecoder.Receiver.Accounting

/-!
# Reordering within the jitter depth

Packets that are displaced by less than the jitter depth never make `handle_dgram` give up a
number: the head waits for its packet, and `release_in_order` then hands on everything up to
the next number that is still missing.
-/

namespace RtpDecoder.Receiver

open SeqNum

variable {s t : System} {seen arrivals : List Arrival} {n0 : Nat}

/-! ### The end of `handle_dgram` -/

/-- The turns of the recv thread from the loop test that a `dispatch` goes back to. -/
def Caller.turns (s : System) : Caller → Nat
  | .advance d => 4 * s.pending + ahead d.seq s.nextSeq + 7
  | .drain => 4 * s.pending + 1

/-- A bound on the moves of the recv thread until it waits for the next datagram. -/
def turnsLeft (s : System) : Nat :=
  match s.pc with
  | .idle => 0
  | .advance d => (Caller.advance d).turns s
  | .enqueue k _ => k.turns s - 1
  | .giveBack k _ => k.turns s - 2
  | .clear k _ => k.turns s - 3
  | .store _ => 4 * s.pending + 6
  | .drain => Caller.drain.turns s

/-- A `dispatch` is followed by at least one more turn for the packet that it takes out. -/
private theorem turns_of_atHead (ring : RingInv s) {i : Fin kRingSize}
    (head : AtHead s i) (k : Caller) : 5 ≤ k.turns s := by
  have filled := pending_of_atHead ring head
  cases k <;> simp only [Caller.turns] <;> omega

private theorem clearHead_turns (ring : RingInv s) {k : Caller} {i : Fin kRingSize}
    (caller : CallerOk s k) (head : AtHead s i) : turnsLeft (clearHead s k i) + 4 ≤ k.turns s := by
  have filled := pending_of_atHead ring head
  cases k with
  | drain =>
    simp only [turnsLeft, Caller.turns, clearHead, Caller.resume]
    omega
  | advance d =>
    have closer := ring.closer caller.2.1
    simp only [turnsLeft, Caller.turns, clearHead, Caller.resume]
    omega

private theorem recvStep_eq_none : recvStep s = none ↔ s.pc = .idle := by
  cases here : s.pc <;> simp [recvStep, here]

private theorem advanceStep_turns {d : Dgram} (ring : RingInv s)
    (here : s.pc = .advance d) : turnsLeft (advanceStep s d) < (Caller.advance d).turns s := by
  have turn := advanceStep_cases ring here
  generalize advanceStep s d = t at turn ⊢
  cases turn with
  | dispatched _ _ =>
    simp only [turnsLeft, beginDispatch, Caller.turns, System.modifySlot]
    omega
  | givenUp beyond _ =>
    have closer := ring.closer beyond
    simp only [turnsLeft, here, Caller.turns]
    omega
  | duplicate _ _ _ | busy _ _ _ | accepted _ _ _ =>
    simp only [turnsLeft, Caller.turns]
    omega

private theorem enqueueJob_turns (s : System) (k : Caller) (j : Job) :
    turnsLeft (enqueueJob s k j) ≤ k.turns s - 2 := by
  simp only [enqueueJob]
  split
  · cases k <;> exact Nat.le_refl _
  next q _ =>
    have after : turnsLeft { s with
        jobQueue := q, enqueued := s.enqueued ++ [j], pc := .clear k j.slabIdx } =
          k.turns s - 3 := by
      cases k <;> rfl
    omega

theorem recvStep_turns (ring : RingInv s) (moved : recvStep s = some t) : turnsLeft t < turnsLeft s := by
  have ok := ring.pcOk
  cases recvStep_cases moved with
  | advance d here =>
    have before : turnsLeft s = (Caller.advance d).turns s := by simp only [turnsLeft, here]
    rw [before]
    exact advanceStep_turns ring here
  | enqueue k j here =>
    simp only [PcOk, here] at ok
    have enough := turns_of_atHead ring ok.2.1 k
    have before : turnsLeft s = k.turns s - 1 := by simp only [turnsLeft, here]
    have after := enqueueJob_turns s k j
    omega
  | giveBack k i here =>
    simp only [PcOk, here] at ok
    have enough := turns_of_atHead ring ok.2 k
    have before : turnsLeft s = k.turns s - 2 := by simp only [turnsLeft, here]
    have after : turnsLeft (giveBack s k i) = k.turns s - 3 := by cases k <;> rfl
    omega
  | clear k i here =>
    simp only [PcOk, here] at ok
    have enough := turns_of_atHead ring ok.2 k
    have before : turnsLeft s = k.turns s - 3 := by simp only [turnsLeft, here]
    have after := clearHead_turns ring ok.1 ok.2
    omega
  | store d here =>
    simp only [turnsLeft, here, storeDgram, Caller.turns]
    omega
  | drain here =>
    simp only [drainStep]
    split
    next ready =>
      simp only [turnsLeft, here, beginDispatch, System.modifySlot, Caller.turns]
      omega
    · simp only [turnsLeft, here, Caller.turns]
      omega

/-- Left to itself, the recv thread comes back to wait for the next datagram. -/
theorem handleDgram_returns (ring : RingInv s) :
    ∃ k t, run (fun _ _ => True) s (List.replicate k .recv) = some t ∧ t.pc = .idle := by
  induction left : turnsLeft s using Nat.strong_induction_on generalizing s with
  | _ n ih =>
    cases moved : recvStep s with
    | none => exact ⟨0, s, rfl, recvStep_eq_none.mp moved⟩
    | some u =>
      have next : step s .recv = some u := moved
      obtain ⟨k, t, later, idle⟩ := ih (turnsLeft u) (left ▸ recvStep_turns ring moved)
        (step_ringInv ring next) rfl
      refine ⟨k + 1, t, ?_, idle⟩
      simp only [List.replicate_succ, run, if_true, next, Option.bind_some]
      exact later

/-! ### Packets displaced by less than the depth -/

/-- A packet that arrives: its unwrapped number and its datagram. -/
structure Arrival where
  num : Nat
  data : List UInt8

/-- The datagram passes the header checks and carries the number modulo `2 ^ 16`. -/
def Arrival.Valid (a : Arrival) : Prop :=
  ∃ d, parseDgram a.data = some d ∧ d.seq = BitVec.ofNat 16 a.num

/-- Packet `a` may arrive after the packets `seen`: the first one is `n0`, and nothing is
overtaken by `depth` numbers or more. -/
structure Timely (depth n0 : Nat) (seen : List Arrival) (a : Arrival) : Prop where
  first : seen = [] → a.num = n0
  start : n0 ≤ a.num
  displaced : ∀ m, n0 ≤ m → m + depth ≤ a.num → m ∈ seen.map Arrival.num

/-- The recv thread finds no slot that the worker still owns, and room in the job queue. -/
def Unhindered (s : System) : Prop :=
  match s.pc with
  | .advance d => (s.ring (ringIndex d.seq)).filled = false →
      (s.ring (ringIndex d.seq)).inWorker = false
  | .enqueue _ j => (s.jobQueue.enqueue j).isSome = true
  | _ => True

/-- The moves between two arrivals: no new datagram, and nothing in the recv thread's way. -/
def Quiet (s : System) : Action → Prop
  | .dgram _ => False
  | .recv => Unhindered s
  | .dequeue | .process | .release _ => True

/-- The states of the receiver after some arrivals, the latest first, and any moves of the
three parties in between. -/
inductive Received (depth n0 : Nat) : List Arrival → System → Prop where
  | start : Received depth n0 [] (init depth)
  | arrival {seen : List Arrival} {s t : System} (a : Arrival) : Received depth n0 seen s →
      a.Valid → Timely depth n0 seen a →
      -- The head is `n0 + advances`; a duplicate must not be further behind.
      n0 + s.advances ≤ a.num + 32767 →
      step s (.dgram a.data) = some t → Received depth n0 (a :: seen) t
  | move {seen : List Arrival} {s t : System} (act : Action) : Received depth n0 seen s →
      Quiet s act → step s act = some t → Received depth n0 seen t

/-- The numbers stored so far, counted from the first one. -/
def storedNums (s : System) : List Nat := s.stored.map Prod.fst

/-- The number of the packet that `handle_dgram` is working on and has not stored yet. -/
def inFlight (s : System) : Option Nat :=
  match s.pc with
  | .advance d | .store d => some (s.advances + ahead d.seq s.nextSeq)
  | _ => none

/-- The recv thread never force-advances, and when it waits the head's packet is missing. -/
def PlaceOk (s : System) : Prop :=
  match s.pc with
  | .idle => s.advances ∉ storedNums s
  | .advance d => s.advances ∉ storedNums s ∧ ahead d.seq s.nextSeq < s.jitterDepth
  | .enqueue k _ | .clear k _ => k = .drain
  | .giveBack .. => False
  | .store _ | .drain => True

/-- Nothing is lost: what has arrived is stored or in hand, and the head passes only what is
stored. -/
structure InOrder (n0 : Nat) (seen : List Arrival) (s : System) : Prop where
  lossless : s.netLostPackets = 0 ∧ s.queueFullDrops = 0
  first : s.started = true → firstSeq s = BitVec.ofNat 16 n0
  begun : s.started = true ↔ seen ≠ []
  passed : ∀ n < s.advances, n ∈ storedNums s
  arrived : ∀ n, n ∈ storedNums s ∨ inFlight s = some n → n0 + n ∈ seen.map Arrival.num
  kept : ∀ m ∈ seen.map Arrival.num, n0 ≤ m ∧
    (m - n0 ∈ storedNums s ∨ inFlight s = some (m - n0))
  place : PlaceOk s

/-- Moves that keep the head, the counters and what is stored or in hand. -/
private theorem InOrder.of_frame
    (order : InOrder n0 seen s)
    (counters : t.netLostPackets = s.netLostPackets ∧ t.queueFullDrops = s.queueFullDrops)
    (head : t.nextSeq = s.nextSeq ∧ t.advances = s.advances)
    (started : t.started = s.started) (stored : t.stored = s.stored)
    (flight : ∀ n, (n ∈ storedNums t ∨ inFlight t = some n) ↔
      n ∈ storedNums s ∨ inFlight s = some n) (place : PlaceOk t) : InOrder n0 seen t where
  lossless := by rw [counters.1, counters.2]; exact order.lossless
  first := by rw [started, firstSeq, head.1, head.2]; exact order.first
  begun := by rw [started]; exact order.begun
  passed := by rw [head.2, storedNums, stored]; exact order.passed
  arrived := fun n some => order.arrived n ((flight n).mp some)
  kept := by
    intro m member
    obtain ⟨above, some⟩ := order.kept m member
    exact ⟨above, (flight _).mpr some⟩
  place := place

/-- The number of a packet that is not behind the head. -/
theorem ahead_of_num {n : Nat} {seq : BitVec 16}
    (first : firstSeq s = BitVec.ofNat 16 n0) (num : seq = BitVec.ofNat 16 n)
    (above : n0 + s.advances ≤ n) (near : n - (n0 + s.advances) < 2 ^ 16) :
    s.advances + ahead seq s.nextSeq = n - n0 := by
  have next : s.nextSeq = BitVec.ofNat 16 (n0 + s.advances) := by
    rw [BitVec.ofNat_add, ← first, firstSeq, BitVec.sub_add_cancel]
  have distance : ahead seq s.nextSeq = n - (n0 + s.advances) := by
    rw [ahead, next, num, BitVec.toNat_sub, BitVec.toNat_ofNat, BitVec.toNat_ofNat]
    omega
  omega

/-- A packet behind the head is told by the sign of the difference. -/
theorem negative_of_num {n : Nat} {seq : BitVec 16}
    (first : firstSeq s = BitVec.ofNat 16 n0) (num : seq = BitVec.ofNat 16 n)
    (below : n < n0 + s.advances) (near : n0 + s.advances ≤ n + 32767) :
    (seq - s.nextSeq).toInt < 0 := by
  have next : s.nextSeq = BitVec.ofNat 16 (n0 + s.advances) := by
    rw [BitVec.ofNat_add, ← first, firstSeq, BitVec.sub_add_cancel]
  rw [toInt_sub_neg_iff, ahead, next, num, BitVec.toNat_sub, BitVec.toNat_ofNat, BitVec.toNat_ofNat]
  omega

theorem InOrder.near
    (order : InOrder n0 seen s) (here : s.pc = .idle) {a : Arrival}
    (timely : Timely s.jitterDepth n0 seen a) : a.num < n0 + s.advances + s.jitterDepth := by
  by_contra far
  have head := timely.displaced (n0 + s.advances) (by omega) (by omega)
  obtain ⟨_, some⟩ := order.kept _ head
  have missing := order.place
  simp only [PlaceOk, here] at missing
  simp only [inFlight, here, reduceCtorEq, or_false] at some
  exact missing (by simpa using some)

/-- The packet taken up by `handle_dgram` joins those seen. -/
private theorem InOrder.take_up
    (order : InOrder n0 seen s) (here : s.pc = .idle) {a : Arrival} (above : n0 ≤ a.num)
    (flight : inFlight t = some (a.num - n0)) (stored : storedNums t = storedNums s) :
    (∀ n, n ∈ storedNums t ∨ inFlight t = some n → n0 + n ∈ (a :: seen).map Arrival.num) ∧
    ∀ m ∈ (a :: seen).map Arrival.num, n0 ≤ m ∧
      (m - n0 ∈ storedNums t ∨ inFlight t = some (m - n0)) := by
  have none_before : inFlight s = none := by simp only [inFlight, here]
  rw [stored, flight]
  constructor
  · rintro n (old | new)
    · exact List.mem_cons_of_mem _ (order.arrived n (Or.inl old))
    · cases new
      rw [Nat.add_sub_cancel' above]
      exact List.mem_cons_self
  · intro m member
    rcases List.mem_cons.mp member with rfl | old
    · exact ⟨above, Or.inr rfl⟩
    · obtain ⟨start, some⟩ := order.kept m old
      rw [none_before] at some
      exact ⟨start, Or.inl (some.resolve_right (by simp))⟩

private theorem InOrder.arrive_first (ring : RingInv s)
    (order : InOrder n0 [] s) {a : Arrival} {d : Dgram} (num : d.seq = BitVec.ofNat 16 a.num)
    (first : a.num = n0) (off : s.started = false) :
    InOrder n0 [a] { s with started := true, nextSeq := d.seq, pc := .advance d } := by
  obtain ⟨here, zero, _⟩ := ring.unstarted off
  have none_stored (n : Nat) : n ∉ storedNums s := by
    intro member
    cases order.arrived n (Or.inl member)
  have flight : inFlight { s with started := true, nextSeq := d.seq, pc := .advance d } =
      some (a.num - n0) := by
    simp only [inFlight, zero, ahead_self, first, Nat.sub_self]
  obtain ⟨arrived, kept⟩ := order.take_up here (Nat.le_of_eq first.symm) flight rfl
  refine ⟨order.lossless, ?_, by simp, ?_, arrived, kept, ?_⟩
  · intro _
    simp only [firstSeq, zero, num, first, BitVec.sub_zero]
  · intro n below
    simp only [zero, Nat.not_lt_zero] at below
  · simp only [PlaceOk, ahead_self]
    exact ⟨none_stored s.advances, ring.depth_pos⟩

private theorem InOrder.arrive
    (ring : RingInv s) (order : InOrder n0 seen s) {a : Arrival} (valid : a.Valid)
    (timely : Timely s.jitterDepth n0 seen a) (recent : n0 + s.advances ≤ a.num + 32767)
    (moved : step s (.dgram a.data) = some t) : InOrder n0 (a :: seen) t := by
  obtain ⟨d, parsed, num⟩ := valid
  simp only [step] at moved
  split at moved
  next ready =>
    obtain ⟨here, _⟩ := ready
    cases moved
    simp only [handleDgram, parsed]
    cases started : s.started with
    | false =>
      have none_seen : seen = [] := by
        by_contra some
        rw [order.begun.mpr some] at started
        cases started
      subst none_seen
      have still : ¬ (d.seq - d.seq).toInt < 0 := by simp
      simp only [Bool.false_eq_true, if_false, still]
      exact order.arrive_first ring num (timely.first rfl) started
    | true =>
      have first := order.first started
      simp only [if_true]
      by_cases behind : a.num < n0 + s.advances
      · -- A duplicate of what the head has passed.
        rw [if_pos (negative_of_num first num behind recent)]
        refine ⟨order.lossless, order.first, by simp [started], order.passed,
          fun n some => List.mem_cons_of_mem _ (order.arrived n some), ?_, order.place⟩
        intro m member
        rcases List.mem_cons.mp member with rfl | old
        · have start := timely.start
          exact ⟨start, Or.inl (order.passed _ (by omega))⟩
        · exact order.kept m old
      · have depth := ring.depth_le
        simp only [kRingSize] at depth
        have near := order.near here timely
        have number := ahead_of_num first num (by omega) (by omega)
        have forward : ¬ (d.seq - s.nextSeq).toInt < 0 := by
          rw [toInt_sub_neg_iff]
          omega
        rw [if_neg forward]
        obtain ⟨arrived, kept⟩ := order.take_up here timely.start
          (t := { s with pc := .advance d }) (by simp only [inFlight, number]) rfl
        have missing := order.place
        simp only [PlaceOk, here] at missing
        refine ⟨order.lossless, order.first, by simp [started], order.passed, arrived, kept, ?_⟩
        simp only [PlaceOk]
        exact ⟨missing, by omega⟩
  · cases moved

/-! ### The moves in between -/

private theorem InOrder.advanceStep (ring : RingInv s)
    (order : InOrder n0 seen s) (free : Unhindered s) {d : Dgram} (here : s.pc = .advance d) :
    InOrder n0 seen (advanceStep s d) := by
  have place := order.place
  simp only [PlaceOk, here] at place
  obtain ⟨missing, near⟩ := place
  have turn := advanceStep_cases ring here
  generalize Receiver.advanceStep s d = t at turn ⊢
  cases turn with
  | dispatched beyond _ | givenUp beyond _ => exact absurd near (Nat.not_lt_of_le beyond)
  | duplicate _ filled same =>
    -- The slot keeps the first copy of this packet.
    obtain ⟨e, member, _⟩ := ring.kept _ filled
    rw [same] at member
    have stored : s.advances + ahead d.seq s.nextSeq ∈ storedNums s := List.mem_map_of_mem member
    refine order.of_frame ⟨rfl, rfl⟩ ⟨rfl, rfl⟩ rfl rfl ?_ missing
    intro n
    simp only [inFlight, here, reduceCtorEq, or_false, Option.some.injEq]
    constructor
    · exact Or.inl
    · rintro (old | rfl)
      · exact old
      · exact stored
  | busy _ empty inWorker =>
    simp only [Unhindered, here] at free
    rw [free empty] at inWorker
    cases inWorker
  | accepted _ _ _ =>
    refine order.of_frame ⟨rfl, rfl⟩ ⟨rfl, rfl⟩ rfl rfl (fun n => ?_) trivial
    simp only [inFlight, here, storedNums]

private theorem InOrder.clearHead (ring : RingInv s)
    (order : InOrder n0 seen s) {k : Caller} {i : Fin kRingSize} (here : s.pc = .clear k i) :
    InOrder n0 seen (clearHead s k i) := by
  have place := order.place
  simp only [PlaceOk, here] at place
  subst place
  have ok := ring.pcOk
  simp only [PcOk, here] at ok
  obtain ⟨_, filled, seq⟩ := ok.2
  obtain ⟨e, member, _⟩ := ring.kept i filled
  rw [seq, ahead_self] at member
  have flight : inFlight s = none := by simp only [inFlight, here]
  refine ⟨order.lossless, ?_, order.begun, ?_, ?_, ?_, trivial⟩
  · intro started
    rw [← order.first started]
    exact firstSeq_succ s.nextSeq s.advances
  · intro n below
    rcases Nat.lt_succ_iff_lt_or_eq.mp below with old | rfl
    · exact order.passed n old
    · exact List.mem_map_of_mem member
  · rintro n (old | new)
    · exact order.arrived n (Or.inl old)
    · cases new
  · intro m seen_m
    obtain ⟨above, some⟩ := order.kept m seen_m
    rw [flight] at some
    exact ⟨above, Or.inl (some.resolve_right (by simp))⟩

private theorem InOrder.storeDgram
    (order : InOrder n0 seen s) {d : Dgram} (here : s.pc = .store d) :
    InOrder n0 seen (storeDgram s d) := by
  have flight : inFlight s = some (s.advances + ahead d.seq s.nextSeq) := by
    simp only [inFlight, here]
  have stored : storedNums (Receiver.storeDgram s d) =
      (s.advances + ahead d.seq s.nextSeq) :: storedNums s := rfl
  refine ⟨order.lossless, order.first, order.begun, ?_, ?_, ?_, trivial⟩
  · intro n below
    rw [stored]
    exact List.mem_cons_of_mem _ (order.passed n below)
  · rintro n (some | new)
    · rw [stored] at some
      rcases List.mem_cons.mp some with rfl | old
      · exact order.arrived _ (Or.inr flight)
      · exact order.arrived n (Or.inl old)
    · cases new
  · intro m member
    obtain ⟨above, old | now⟩ := order.kept m member
    · rw [stored]
      exact ⟨above, Or.inl (List.mem_cons_of_mem _ old)⟩
    · rw [flight] at now
      rw [stored, Option.some.inj now]
      exact ⟨above, Or.inl List.mem_cons_self⟩

/-- `release_in_order` stops only where the head's packet is missing. -/
private theorem missing_of_not_ready (ring : RingInv s)
    (stop : ¬ (0 < s.pending ∧ headReady s = true)) : s.advances ∉ storedNums s := by
  intro member
  obtain ⟨⟨n, d⟩, stored, number⟩ := List.mem_map.mp member
  simp only at number
  rcases ring.future n d stored with past | ⟨filled, seq, place⟩
  · omega
  · have head : d.seq = s.nextSeq := ahead_eq_zero.mp (by omega)
    rw [head] at filled seq
    have at_head : AtHead s (ringIndex s.nextSeq) := ⟨rfl, filled, seq⟩
    exact stop ⟨pending_of_atHead ring at_head, by simp [headReady, filled, seq]⟩

private theorem InOrder.drainStep (ring : RingInv s)
    (order : InOrder n0 seen s) (here : s.pc = .drain) : InOrder n0 seen (drainStep s) := by
  simp only [Receiver.drainStep]
  split
  · refine order.of_frame ⟨rfl, rfl⟩ ⟨rfl, rfl⟩ rfl rfl (fun n => ?_) rfl
    simp only [inFlight, here, beginDispatch, System.modifySlot, storedNums]
  next stop =>
    have missing := missing_of_not_ready ring stop
    refine order.of_frame ⟨rfl, rfl⟩ ⟨rfl, rfl⟩ rfl rfl (fun n => ?_) missing
    simp only [inFlight, here, storedNums]

private theorem InOrder.enqueueJob
    (order : InOrder n0 seen s) (free : Unhindered s) {k : Caller} {j : Job}
    (here : s.pc = .enqueue k j) : InOrder n0 seen (enqueueJob s k j) := by
  have place := order.place
  simp only [PlaceOk, here] at place
  simp only [Receiver.enqueueJob]
  split
  next full =>
    simp only [Unhindered, here, full] at free
    cases free
  · refine order.of_frame ⟨rfl, rfl⟩ ⟨rfl, rfl⟩ rfl rfl (fun n => ?_) place
    simp only [inFlight, here, storedNums]

private theorem InOrder.recvStep (ring : RingInv s)
    (order : InOrder n0 seen s) (free : Unhindered s) (moved : recvStep s = some t) :
    InOrder n0 seen t := by
  cases recvStep_cases moved with
  | advance d here => exact order.advanceStep ring free here
  | enqueue k j here => exact order.enqueueJob free here
  | giveBack k i here =>
    have place := order.place
    simp only [PlaceOk, here] at place
  | clear k i here => exact order.clearHead ring here
  | store d here => exact order.storeDgram here
  | drain here => exact order.drainStep ring here

private theorem counters_of_other {a : Action} (moved : step s a = some t)
    (worker : a = .dequeue ∨ a = .process ∨ ∃ i, a = .release i) :
    t.netLostPackets = s.netLostPackets ∧ t.queueFullDrops = s.queueFullDrops := by
  rcases worker with rfl | rfl | ⟨i, rfl⟩
  · simp only [step, dequeueJob] at moved
    split at moved <;> cases moved
    exact ⟨rfl, rfl⟩
  · simp only [step, processJob] at moved
    split at moved
    · cases moved
    · split at moved <;> cases moved <;> exact ⟨rfl, rfl⟩
  · simp only [step, Option.some.injEq] at moved
    subst moved
    simp only [releaseSlab]
    split <;> exact ⟨rfl, rfl⟩

private theorem InOrder.move {act : Action}
    (ring : RingInv s) (order : InOrder n0 seen s) (quiet : Quiet s act)
    (moved : step s act = some t) : InOrder n0 seen t := by
  have other (worker : act = .dequeue ∨ act = .process ∨ ∃ i, act = .release i) :
      InOrder n0 seen t := by
    obtain ⟨same, pc⟩ := sameRecv_of_other moved worker
    have place := order.place
    refine order.of_frame (counters_of_other moved worker) ⟨same.nextSeq, same.advances⟩
      same.started same.stored (fun n => ?_) ?_
    · simp only [storedNums, inFlight, pc, same.stored, same.advances, same.nextSeq]
    · simpa only [PlaceOk, pc, storedNums, same.stored, same.advances, same.nextSeq,
        same.jitterDepth] using place
  cases act with
  | dgram data => exact quiet.elim
  | recv => exact order.recvStep ring quiet moved
  | dequeue | process | release _ => exact other (by simp)

theorem Received.reachable {depth : Nat}
    (received : Received depth n0 seen s) : Reachable (fun _ _ => True) depth s := by
  induction received with
  | start => exact .start
  | arrival a _ _ _ _ moved ih => exact ih.next _ trivial moved
  | move act _ _ moved ih => exact ih.next _ trivial moved

theorem received_inOrder {depth : Nat} (low : 1 ≤ depth) (high : depth ≤ kRingSize)
    (received : Received depth n0 seen s) :
    InOrder n0 seen s := by
  induction received with
  | start =>
    refine ⟨⟨rfl, rfl⟩, nofun, by simp [init], fun n below => absurd below (Nat.not_lt_zero n),
      ?_, nofun, by simp [PlaceOk, init, storedNums]⟩
    rintro n (stored | flight)
    · cases stored
    · cases flight
  | arrival a before valid timely recent moved ih =>
    have ring := reachable_ringInv low high before.reachable
    exact ih.arrive ring valid (reachable_jitterDepth before.reachable ▸ timely) recent moved
  | move act before quiet moved ih =>
    exact ih.move (reachable_ringInv low high before.reachable) quiet moved

/-- Strictly increasing numbers below their own count are the numbers from 0 on. -/
private theorem eq_range_of_increasing {nums : List Nat} (increasing : nums.Pairwise (· < ·))
    (below : ∀ n ∈ nums, n < nums.length) : nums = List.range nums.length := by
  have nodup : nums.Nodup := increasing.imp Nat.ne_of_lt
  have perm : nums.Perm (List.range nums.length) := by
    apply (List.subperm_of_subset nodup _).perm_of_length_le
    · rw [List.length_range]
    · exact fun n member => List.mem_range.mpr (below n member)
  exact perm.eq_of_pairwise (fun a b _ _ first second => absurd first (Nat.lt_asymm second))
    increasing List.pairwise_lt_range

/-- When the recv thread waits, the head has passed exactly the numbers that arrived. -/
theorem InOrder.advances_eq {N : Nat}
    (order : InOrder n0 arrivals s) (waiting : s.pc = .idle)
    (complete : ∀ n, n ∈ arrivals.map Arrival.num ↔ n0 ≤ n ∧ n ≤ n0 + N) :
    s.advances = N + 1 := by
  have flight : inFlight s = none := by simp only [inFlight, waiting]
  apply Nat.le_antisymm
  · by_contra far
    have last := order.arrived _ (Or.inl (order.passed (N + 1) (by omega)))
    rw [complete] at last
    omega
  · by_contra near
    obtain ⟨_, some⟩ := order.kept (n0 + s.advances) ((complete _).mpr (by omega))
    have missing := order.place
    simp only [PlaceOk, waiting] at missing
    rw [flight, Nat.add_sub_cancel_left] at some
    exact missing (some.resolve_right (by simp))

/-- As many jobs as the head has passed numbers are the jobs of these numbers. -/
theorem enqueued_nums (queue : QueueInv s) (waiting : s.pc = .idle)
    (count : s.enqueued.length = s.advances) :
    s.enqueued.map Job.num = List.range s.advances := by
  have increasing : (s.enqueued.map Job.num).Pairwise (· < ·) :=
    List.pairwise_map.mpr queue.ordered
  have range := eq_range_of_increasing increasing (by
    intro n member
    obtain ⟨j, job, rfl⟩ := List.mem_map.mp member
    have below := queue.below j job
    simp only [numLimit, waiting] at below
    rw [List.length_map]
    omega)
  rwa [List.length_map, count] at range

/-- Packets `n0` to `n0 + N`, in any order that displaces none by the jitter depth, with
duplicates, and with the worker and the hook's owner moving in between: as long as no target
slot is busy and the job queue has room, nothing is lost, and once the recv thread waits again
the jobs are these packets, each once and in order. The recv thread does come to wait. -/
theorem reordering_loses_nothing {depth n0 N : Nat} (low : 1 ≤ depth) (high : depth ≤ kRingSize)
    {arrivals : List Arrival} {s : System} (received : Received depth n0 arrivals s)
    (complete : ∀ n, n ∈ arrivals.map Arrival.num ↔ n0 ≤ n ∧ n ≤ n0 + N) :
    s.netLostPackets = 0 ∧
    (s.pc = .idle → s.enqueued.map Job.num = List.range (N + 1) ∧
      s.enqueued.map Job.seq = (List.range (N + 1)).map fun k => BitVec.ofNat 16 (n0 + k)) ∧
    ∃ k t, run (fun _ _ => True) s (List.replicate k .recv) = some t ∧ t.pc = .idle := by
  have order := received_inOrder low high received
  obtain ⟨ring, queue⟩ := reachable_queueInv low high received.reachable
  refine ⟨order.lossless.1, ?_, handleDgram_returns ring⟩
  intro waiting
  have count : s.enqueued.length = s.advances := by
    have balanced := reachable_balanced low high received.reachable
    simp only [Balanced, settled, beforeHeadMoves, waiting, order.lossless.1, order.lossless.2,
      Bool.toNat_false] at balanced
    omega
  have nums := enqueued_nums queue waiting count
  rw [order.advances_eq waiting complete] at nums
  refine ⟨nums, ?_⟩
  have started : s.started = true := by
    rw [order.begun]
    rintro rfl
    have never := (complete n0).mpr (by omega)
    cases never
  rw [← nums, List.map_map]
  refine List.map_congr_left fun j member => ?_
  rw [queue.seqs j member, order.first started, Function.comp_apply, BitVec.ofNat_add]

instance (s : System) : Decidable (Unhindered s) :=
  match here : s.pc with
  | .advance d => decidable_of_iff ((s.ring (ringIndex d.seq)).filled = false →
      (s.ring (ringIndex d.seq)).inWorker = false) (by simp only [Unhindered, here])
  | .enqueue _ j => decidable_of_iff ((s.jobQueue.enqueue j).isSome = true)
      (by simp only [Unhindered, here])
  | .idle | .giveBack .. | .clear .. | .store _ | .drain =>
    isTrue (by simp only [Unhindered, here])

instance (s : System) (act : Action) : Decidable (Quiet s act) :=
  match act with
  | .dgram _ => isFalse id
  | .recv => inferInstanceAs (Decidable (Unhindered s))
  | .dequeue | .process | .release _ => isTrue trivial

theorem Received.run {depth : Nat}
    (received : Received depth n0 seen s) (actions : List Action)
    (returned : run Quiet s actions = some t) : Received depth n0 seen t := by
  induction actions generalizing s with
  | nil =>
    cases returned
    exact received
  | cons act rest ih =>
    simp only [Receiver.run] at returned
    split at returned
    next quiet =>
      obtain ⟨u, moved, later⟩ := Option.bind_eq_some_iff.mp returned
      exact ih (received.move act quiet moved) later
    · cases returned

/-- Packets 65535, 65537 and 65536, the middle one last. -/
def displacedRun : Option System := do
  let s ← step (init 2) (.dgram (barePacket 255 255))
  let s ← run Quiet s (List.replicate 6 .recv)
  let s ← step s (.dgram (barePacket 0 1))
  let s ← run Quiet s [.recv, .dequeue, .recv, .process, .recv]
  let s ← step s (.dgram (barePacket 0 0))
  run Quiet s (List.replicate 9 .recv)

theorem Arrival.valid_of_seq {a : Arrival}
    (seq : (parseDgram a.data).map Dgram.seq = some (BitVec.ofNat 16 a.num)) : a.Valid :=
  Option.map_eq_some_iff.mp seq

theorem head_le {depth : Nat} (low : 1 ≤ depth) (high : depth ≤ kRingSize)
    (received : Received depth n0 seen s) (top : Nat)
    (below : ∀ n ∈ seen.map Arrival.num, n < top) (start : n0 ≤ top) : n0 + s.advances ≤ top := by
  have order := received_inOrder low high received
  by_contra far
  have last := below _ (order.arrived _ (Or.inl (order.passed (top - n0) (by omega))))
  omega

theorem reordering_loses_nothing_displacedRun : ∃ s, displacedRun = some s ∧
    s.netLostPackets = 0 ∧ s.enqueued.map Job.num = [0, 1, 2] := by
  have idle : displacedRun.map (fun s => decide (s.pc = .idle)) = some true := by decide +kernel
  obtain ⟨s, returned, waiting⟩ := Option.map_eq_some_iff.mp idle
  refine ⟨s, returned, ?_⟩
  simp only [displacedRun, Option.bind_eq_bind, Option.bind_eq_some_iff] at returned
  obtain ⟨_, first, _, moves2, _, second, _, moves4, _, third, moves⟩ := returned
  have before1 : Received 2 65535 [] (init 2) := .start
  have before2 := (before1.arrival ⟨65535, barePacket 255 255⟩
    (Arrival.valid_of_seq (by decide +kernel)) ⟨fun _ => rfl, by decide, by simp; omega⟩
    (by decide) first).run _ moves2
  have head2 := head_le (by decide) (by decide) before2 65538 (by simp) (by decide)
  have before4 := (before2.arrival ⟨65537, barePacket 0 1⟩
    (Arrival.valid_of_seq (by decide +kernel)) ⟨by simp, by decide, by simp; omega⟩
    (Nat.le_trans head2 (by decide)) second).run _ moves4
  have head4 := head_le (by decide) (by decide) before4 65538 (by simp) (by decide)
  have received := (before4.arrival ⟨65536, barePacket 0 0⟩
    (Arrival.valid_of_seq (by decide +kernel)) ⟨by simp, by decide, by simp; omega⟩
    (Nat.le_trans head4 (by decide)) third).run _ moves
  have result := reordering_loses_nothing (N := 2) (by decide) (by decide) received
    (by simp; omega)
  exact ⟨result.1, (result.2.1 (of_decide_eq_true waiting)).1⟩

end RtpDecoder.Receiver
