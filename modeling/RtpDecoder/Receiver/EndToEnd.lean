import RtpDecoder.Frame.Stream
import RtpDecoder.Receiver.Progress

/-!
# From the network to the precincts

Datagrams that come in any order within the jitter depth, some of them more than once, reach the
frame handler in their order, each once and with their own bytes. A stream of whole frames that is
sent in such datagrams is therefore decoded as if it had been read from a file, whatever the two
threads do in between.
-/

namespace RtpDecoder.Receiver

open RtpDecoder.Frame
open SeqNum

variable {seen arrivals : List Arrival}

/-! ### Where the stored datagrams come from -/

/-- What is stored for a number, or on its way there, is what has arrived with that number. -/
structure Sourced (n0 : Nat) (seen : List Arrival) (s : System) : Prop where
  stored : ∀ n e, (n, e) ∈ s.stored → ∃ a ∈ seen, a.num = n0 + n ∧ a.data = e.data
  flight : ∀ e, s.pc = .advance e ∨ s.pc = .store e →
    ∃ a ∈ seen, a.num = n0 + (s.advances + ahead e.seq s.nextSeq) ∧ a.data = e.data

/-- Moves that store nothing and take up no other datagram. -/
theorem Sourced.of_frame {n0 : Nat} {s t : System} (sourced : Sourced n0 seen s)
    (stored : t.stored = s.stored)
    (flight : ∀ e, t.pc = .advance e ∨ t.pc = .store e →
      (s.pc = .advance e ∨ s.pc = .store e) ∧ t.advances = s.advances ∧ t.nextSeq = s.nextSeq) :
    Sourced n0 seen t where
  stored := by
    rw [stored]
    exact sourced.stored
  flight := by
    intro e here
    obtain ⟨before, head, next⟩ := flight e here
    rw [head, next]
    exact sourced.flight e before

/-- The datagram that is taken up has the number of its arrival. -/
private theorem Sourced.arrive {n0 : Nat} {s t : System} (ring : RingInv s)
    (order : InOrder n0 seen s) (sourced : Sourced n0 seen s) {a : Arrival} (valid : a.Valid)
    (timely : Timely s.jitterDepth n0 seen a) (recent : n0 + s.advances ≤ a.num + 32767)
    (moved : step s (.dgram a.data) = some t) : Sourced n0 (a :: seen) t := by
  have older : ∀ n e, (n, e) ∈ s.stored → ∃ b ∈ a :: seen, b.num = n0 + n ∧ b.data = e.data := by
    intro n e member
    obtain ⟨b, old, same⟩ := sourced.stored n e member
    exact ⟨b, List.mem_cons_of_mem _ old, same⟩
  obtain ⟨d, parsed, num⟩ := valid
  have data : d.data = a.data := (parseDgram_bounds parsed).1
  have start := timely.start
  simp only [step] at moved
  split at moved
  next ready =>
    obtain ⟨here, _⟩ := ready
    cases moved
    simp only [handleDgram, parsed]
    cases started : s.started with
    | false =>
      -- The first datagram of all sets the head.
      obtain ⟨_, zero, _⟩ := ring.unstarted started
      have first : a.num = n0 := by
        apply timely.first
        by_contra some
        rw [order.begun.mpr some] at started
        cases started
      have still : ¬ (d.seq - d.seq).toInt < 0 := by simp
      simp only [Bool.false_eq_true, if_false, still]
      refine ⟨older, ?_⟩
      rintro e (here | here) <;> cases here
      refine ⟨a, List.mem_cons_self, ?_, data.symm⟩
      simp only [zero, ahead_self, first, Nat.add_zero]
    | true =>
      have first := order.first started
      simp only [if_true]
      -- What is behind the head has been dealt with, and is dropped.
      by_cases behind : a.num < n0 + s.advances
      · rw [if_pos (negative_of_num first num behind recent)]
        refine ⟨older, ?_⟩
        intro e busy
        rw [here] at busy
        rcases busy with busy | busy <;> cases busy
      · have depth := ring.depth_le
        simp only [kRingSize] at depth
        have near := order.near here timely
        have number := ahead_of_num first num (by omega) (by omega)
        have forward : ¬ (d.seq - s.nextSeq).toInt < 0 := by
          rw [toInt_sub_neg_iff]
          omega
        rw [if_neg forward]
        refine ⟨older, ?_⟩
        rintro e (here | here) <;> cases here
        refine ⟨a, List.mem_cons_self, ?_, data.symm⟩
        dsimp only
        omega
  · cases moved

private theorem Sourced.recvStep {n0 : Nat} {s t : System} (ring : RingInv s)
    (order : InOrder n0 seen s) (sourced : Sourced n0 seen s) (moved : recvStep s = some t) :
    Sourced n0 seen t := by
  have place := order.place
  cases recvStep_cases moved with
  | advance d here =>
    simp only [PlaceOk, here] at place
    have turn := advanceStep_cases ring here
    generalize Receiver.advanceStep s d = t at turn ⊢
    cases turn with
    -- Within the jitter depth the head is not forced on.
    | dispatched beyond _ | givenUp beyond _ => exact absurd place.2 (Nat.not_lt_of_le beyond)
    | duplicate _ _ _ | busy _ _ _ => exact sourced.of_frame rfl (by simp)
    | accepted _ _ _ =>
      refine sourced.of_frame rfl ?_
      rintro e (now | now) <;> cases now
      exact ⟨Or.inl here, rfl, rfl⟩
  | enqueue k j here =>
    unfold enqueueJob
    split <;> exact sourced.of_frame rfl (by simp)
  | giveBack k i here => simp only [PlaceOk, here] at place
  | clear k i here =>
    simp only [PlaceOk, here] at place
    subst place
    exact sourced.of_frame rfl (by simp [clearHead, Caller.resume])
  | store d here =>
    constructor
    · intro n e member
      rcases List.mem_cons.mp member with new | old
      · cases new
        exact sourced.flight d (Or.inr here)
      · exact sourced.stored n e old
    · simp [storeDgram]
  | drain here =>
    unfold drainStep
    split <;> exact sourced.of_frame rfl (by simp [beginDispatch])

theorem received_sourced {depth n0 : Nat} (low : 1 ≤ depth) (high : depth ≤ kRingSize)
    {s : System} (received : Received depth n0 seen s) : Sourced n0 seen s := by
  induction received with
  | start => exact ⟨by simp [init], by simp [init]⟩
  | arrival a before valid timely recent moved ih =>
    exact ih.arrive (reachable_ringInv low high before.reachable) (received_inOrder low high before) valid
      (reachable_jitterDepth before.reachable ▸ timely) recent moved
  | @move seen s t act before quiet moved ih =>
    have other (worker : act = .dequeue ∨ act = .process ∨ ∃ i, act = .release i) : Sourced n0 seen t := by
      obtain ⟨same, pc⟩ := sameRecv_of_other moved worker
      apply ih.of_frame same.stored
      intro e here
      rw [pc] at here
      exact ⟨here, same.advances, same.nextSeq⟩
    cases act with
    | dgram data => exact quiet.elim
    | recv =>
      exact ih.recvStep (reachable_ringInv low high before.reachable) (received_inOrder low high before) moved
    | dequeue | process | release _ => exact other (by simp)

/-! ### The jobs of a complete stream -/

/-- When all of `count` numbers have arrived and the recv thread waits, there is a job for each, in
order. -/
theorem enqueued_of_complete {depth n0 count : Nat} (low : 1 ≤ depth) (high : depth ≤ kRingSize)
    {s : System} (received : Received depth n0 arrivals s) (waiting : s.pc = .idle)
    (complete : ∀ n, n ∈ arrivals.map Arrival.num ↔ n0 ≤ n ∧ n < n0 + count) :
    s.enqueued.map Job.num = List.range count := by
  have order := received_inOrder low high received
  obtain ⟨ring, queue⟩ := reachable_queueInv low high received.reachable
  have balance := reachable_balanced low high received.reachable
  simp only [Balanced, settled, beforeHeadMoves, waiting, order.lossless.1, order.lossless.2,
    Bool.toNat_false] at balance
  have nums := enqueued_nums queue waiting (by omega)
  cases count with
  | zero =>
    -- Nothing has arrived, so the head has not moved.
    have empty : s.advances = 0 := by
      by_contra some
      have first := order.arrived 0 (Or.inl (order.passed 0 (by omega)))
      rw [complete] at first
      omega
    rw [nums, empty]
  | succ N =>
    have head := order.advances_eq (N := N) waiting (by
      intro n
      rw [complete]
      omega)
    rw [nums, head]

namespace Pipeline

variable {T : Type} {cb : Callbacks} {ops : TileOps T} {tileHndr : T} {relatchK depth n0 : Nat}
variable {p q : Pipeline T}

/-- The states of the pipeline after some arrivals, the latest first, and any moves of the two
threads in between. -/
inductive Fed (cb : Callbacks) (ops : TileOps T) (tileHndr : T) (relatchK depth n0 : Nat) :
    List Arrival → Pipeline T → Prop where
  | start : Fed cb ops tileHndr relatchK depth n0 [] ⟨init depth, FrameHandler.new tileHndr relatchK, []⟩
  | arrival {seen : List Arrival} {p q : Pipeline T} (a : Arrival) :
      Fed cb ops tileHndr relatchK depth n0 seen p → a.Valid → Timely depth n0 seen a →
      n0 + p.sys.advances ≤ a.num + 32767 → p.step cb ops (.dgram a.data) = some q →
      Fed cb ops tileHndr relatchK depth n0 (a :: seen) q
  | move {seen : List Arrival} {p q : Pipeline T} (act : Action) :
      Fed cb ops tileHndr relatchK depth n0 seen p → Quiet p.sys act → p.step cb ops act = some q →
      Fed cb ops tileHndr relatchK depth n0 seen q

theorem Fed.received (fed : Fed cb ops tileHndr relatchK depth n0 seen p) : Received depth n0 seen p.sys := by
  induction fed with
  | start => exact .start
  | arrival a _ valid timely recent moved ih => exact ih.arrival a valid timely recent (step_cases moved).sys
  | move act _ quiet moved ih => exact ih.move act quiet (step_cases moved).sys

theorem Fed.running (fed : Fed cb ops tileHndr relatchK depth n0 seen p) :
    Running cb ops tileHndr relatchK depth p := by
  induction fed with
  | start => exact .start
  | arrival a _ _ _ _ moved ih => exact ih.next _ moved
  | move act _ _ moved ih => exact ih.next act moved

/-- The arrivals are datagrams of the list, numbered from `n0` on, and each of them has arrived. -/
structure Conveys (n0 : Nat) (arrivals : List Arrival) (dgrams : List Dgram) : Prop where
  source : ∀ a ∈ arrivals, ∃ k e, a.num = n0 + k ∧ dgrams[k]? = some e ∧ a.data = e.data
  complete : ∀ k < dgrams.length, ∃ a ∈ arrivals, a.num = n0 + k

theorem Conveys.nums {dgrams : List Dgram} (conveys : Conveys n0 arrivals dgrams) (n : Nat) :
    n ∈ arrivals.map Arrival.num ↔ n0 ≤ n ∧ n < n0 + dgrams.length := by
  constructor
  · intro member
    obtain ⟨a, arrived, rfl⟩ := List.mem_map.mp member
    obtain ⟨k, e, num, place, _⟩ := conveys.source a arrived
    have inside := (List.getElem?_eq_some_iff.mp place).1
    omega
  · rintro ⟨above, below⟩
    obtain ⟨a, arrived, num⟩ := conveys.complete (n - n0) (by omega)
    rw [Nat.add_sub_cancel' above] at num
    exact List.mem_map.mpr ⟨a, arrived, num⟩

private theorem dgram_eq {e e' : Dgram} (parsed : parseDgram e.data = some e) (parsed' : parseDgram e'.data = some e')
    (same : e.data = e'.data) : e = e' := by
  rw [same] at parsed
  exact Option.some.inj (parsed.symm.trans parsed')

/-- What is stored for the `k`-th number is the `k`-th datagram. -/
theorem Conveys.stored {s : System} {dgrams : List Dgram}
    (conveys : Conveys n0 arrivals dgrams) (parsed : ∀ e ∈ dgrams, parseDgram e.data = some e)
    (ring : RingInv s) (sourced : Sourced n0 arrivals s) {k : Nat} {e : Dgram} (member : (k, e) ∈ s.stored) :
    dgrams[k]? = some e := by
  obtain ⟨a, arrived, num, data⟩ := sourced.stored k e member
  obtain ⟨k', e', num', place, data'⟩ := conveys.source a arrived
  have same : k' = k := by omega
  subst same
  have known := parsed e' (List.mem_of_getElem? place)
  rw [place, dgram_eq known (ring.parsed _ _ member) (data'.symm.trans data)]

/-- A list that is picked from another one at the numbers of its own places is that list. -/
private theorem eq_of_places {jobs : List Job} {picked dgrams : List Dgram}
    (nums : jobs.map Job.num = List.range dgrams.length)
    (each : List.Forall₂ (fun (j : Job) e => dgrams[j.num]? = some e) jobs picked) : picked = dgrams := by
  have length : picked.length = dgrams.length := by
    have counted := congrArg List.length nums
    rw [List.length_map, List.length_range] at counted
    rw [← each.length_eq, counted]
  apply List.ext_getElem length
  intro k first second
  have inJobs : k < jobs.length := by rw [each.length_eq]; exact first
  have number : (jobs[k]).num = k := by
    have here := congrArg (fun l => l[k]?) nums
    simpa [inJobs, second] using here
  have place := (List.forall₂_iff_get.mp each).2 k inJobs first
  simp only [List.get_eq_getElem, number] at place
  exact (Option.some.inj (place.symm.trans (List.getElem?_eq_getElem second)))

/-- Datagrams that arrive within the jitter depth, in any interleaving with the worker: once both
threads have nothing to do, the frame handler has been called with exactly these datagrams, each once
and in the order of their numbers. -/
theorem Fed.conveyed (low : 1 ≤ depth) (high : depth ≤ kRingSize) (set : cb.releaseSlab = true)
    {dgrams : List Dgram} (fed : Fed cb ops tileHndr relatchK depth n0 arrivals p)
    (conveys : Conveys n0 arrivals dgrams) (parsed : ∀ e ∈ dgrams, parseDgram e.data = some e)
    (room : ∀ e ∈ dgrams, e.Roomy) (quiescent : p.Quiescent) :
    p.handler = (FrameHandler.new tileHndr relatchK).run cb ops (dgrams.map Dgram.packet) ∧
      p.sys.handed.map Job.num = List.range dgrams.length ∧ p.sys.netLostPackets = 0 := by
  have reach := fed.received.reachable
  obtain ⟨ring, queue⟩ := reachable_queueInv low high reach
  have sourced := received_sourced low high fed.received
  have nums := enqueued_of_complete low high fed.received quiescent.waiting conveys.nums
  -- With the queue drained, what was accepted has been handed on.
  have history := queue.history
  rw [quiescent.unoccupied, quiescent.drained, Option.toList_none, List.append_nil, List.append_nil] at history
  rw [history] at nums
  have roomy : ∀ x ∈ p.sys.stored, x.2.Roomy := by
    rintro ⟨k, e⟩ member
    exact room e (List.mem_of_getElem? (conveys.stored parsed ring sourced member))
  obtain ⟨picked, replays⟩ := fed.running.replays low high set roomy
  have each := replays.stored.imp fun _ _ member => conveys.stored parsed ring sourced member
  have same := eq_of_places nums each
  rw [← same]
  refine ⟨replays.handler, ?_, (received_inOrder low high fed.received).lossless.1⟩
  rw [nums, same]

/-- The datagram that carries a packet of `pull_data`. -/
def dgramOf (seq : UInt8) (marker : Bool) (payload : List UInt8) : Dgram where
  data := (barePacket 0 seq).set 1 (if marker then 0xE0 else 0x60) ++ payload
  hdr := 12
  effectiveLen := 12 + payload.length
  seq := BitVec.ofNat 16 seq.toNat

theorem cut_dgramOf (seq : UInt8) (marker : Bool) (payload : List UInt8) :
    (dgramOf seq marker payload).packet.cut = (packetOf seq.toNat payload marker).cut := by
  have size : 12 + payload.length - 12 - 8 = payload.length - 8 := by omega
  have byte : (dgramOf seq marker payload).data.getD 1 0 = if marker then 0xE0 else 0x60 := rfl
  have flag : ((dgramOf seq marker payload).data.getD 1 0).toNat.testBit 7 = marker := by
    rw [byte]
    cases marker <;> decide
  have index : (ringIndex (BitVec.ofNat 16 seq.toNat)).val = seq.toNat := by
    have small := seq.toNat_lt
    rw [ringIndex_val, BitVec.toNat_ofNat]
    omega
  apply Packet.cut_eq_cut
  · simp only [Dgram.packet, packetOf]
    rw [flag]
    simp only [dgramOf, size, index]
  · intro i _
    change ((barePacket 0 seq).set 1 _ ++ payload).getD (12 + i) 0 = payload.getD i 0
    have header : ((barePacket 0 seq).set 1 (if marker then 0xE0 else 0x60)).length = 12 := by
      rw [List.length_set]
      rfl
    rw [List.getD_append_right _ _ _ _ (by rw [header]; exact Nat.le_add_right _ _), header,
      Nat.add_sub_cancel_left]

/-- The small frame in three datagrams. -/
def squareDgrams : List Dgram :=
  [dgramOf 0 false (0x80 :: List.replicate 7 0 ++ Parser.squareHeader 3 5 [0x55, 0x40]),
   dgramOf 1 false (List.replicate 8 0 ++ (Parser.bodyBytes Parser.squareBody).take 10),
   dgramOf 2 true ([0, 0x80, 0, 0, 0, 0x10, 0, 15] ++
     ((Parser.bodyBytes Parser.squareBody).drop 10 ++ [0xFF, 0xD9]))]

theorem squareDgrams_carry : (squareDgrams.map Dgram.packet).map Packet.cut =
    ([squareWhole].flatMap WholeFrame.packets).map Packet.cut := by
  simp only [squareDgrams, List.map_cons, List.map_nil, cut_dgramOf]
  rfl

def squareArrival (k : Nat) : Arrival := ⟨k, (squareDgrams.getD k (dgramOf 0 false [])).data⟩

/-- Moves of the two threads between two arrivals. -/
def runQuiet (cb : Callbacks) (ops : TileOps T) (p : Pipeline T) : List Action → Option (Pipeline T)
  | [] => some p
  | a :: rest => if Quiet p.sys a then (p.step cb ops a).bind fun q => runQuiet cb ops q rest else none

theorem Fed.runQuiet (fed : Fed cb ops tileHndr relatchK depth n0 seen p)
    (actions : List Action) (returned : p.runQuiet cb ops actions = some q) :
    Fed cb ops tileHndr relatchK depth n0 seen q := by
  induction actions generalizing p with
  | nil =>
    cases returned
    exact fed
  | cons act rest ih =>
    simp only [Pipeline.runQuiet] at returned
    split at returned
    next quiet =>
      obtain ⟨u, moved, later⟩ := Option.bind_eq_some_iff.mp returned
      exact ih (fed.move act quiet moved) later
    · cases returned

/-- The last packet overtakes the one before, and comes while the worker is at the first. -/
def squareRun : Option (Pipeline (Parser.TileHandler × Nat)) := do
  let ops := tileOps.onArena litter.fill
  let p ← (⟨init 2, FrameHandler.new ({}, 0) 4, []⟩ : Pipeline _).step {} ops (.dgram (squareArrival 0).data)
  let p ← p.runQuiet {} ops [.recv, .recv, .recv, .recv, .recv, .recv, .dequeue]
  let p ← p.step {} ops (.dgram (squareArrival 2).data)
  let p ← p.runQuiet {} ops [.recv, .process, .recv, .recv]
  let p ← p.step {} ops (.dgram (squareArrival 1).data)
  p.runQuiet {} ops [.recv, .recv, .recv, .recv, .recv, .recv, .dequeue, .process, .recv, .recv, .recv,
    .dequeue, .process, .release 0, .release 1, .release 2]

private theorem squareArrival_valid : ∀ k < 3, (squareArrival k).Valid := by
  have seqs : ∀ k < 3, (parseDgram (squareArrival k).data).map Dgram.seq =
      some (BitVec.ofNat 16 (squareArrival k).num) := by
    decide +kernel
  exact fun k small => Arrival.valid_of_seq (seqs k small)

private theorem squareDgrams_conveyed : Conveys 0 [squareArrival 1, squareArrival 2, squareArrival 0] squareDgrams := by
  have place (k : Nat) (small : k < 3) :
      ∃ m e, (squareArrival k).num = 0 + m ∧ squareDgrams[m]? = some e ∧ (squareArrival k).data = e.data := by
    have inside : k < squareDgrams.length := small
    refine ⟨k, squareDgrams[k], (Nat.zero_add k).symm, List.getElem?_eq_getElem inside, ?_⟩
    rw [squareArrival, List.getD_eq_getElem _ _ inside]
  constructor
  · intro a member
    simp only [List.mem_cons, List.not_mem_nil, or_false] at member
    rcases member with rfl | rfl | rfl
    · exact place 1 (by decide)
    · exact place 2 (by decide)
    · exact place 0 (by decide)
  · intro k small
    have cases : k = 0 ∨ k = 1 ∨ k = 2 := by
      change k < 3 at small
      omega
    rcases cases with rfl | rfl | rfl
    · exact ⟨squareArrival 0, by simp, rfl⟩
    · exact ⟨squareArrival 1, by simp, rfl⟩
    · exact ⟨squareArrival 2, by simp, rfl⟩

end Pipeline

end RtpDecoder.Receiver
