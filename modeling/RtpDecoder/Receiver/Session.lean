import RtpDecoder.Receiver.Progress

/-!
# From start to stop

`start` launches the two threads with `running_` set, and `stop` clears it, waits for the recv
thread and then for the worker. Here the loops of both threads are modelled around the moves of the
receiver: the tests of `running_`, the calls of `recv` and of `wait_for`, and the loop in which the
worker drains the queue before it leaves. The hook's owner may release its slabs at any time.

What `recv` returns is an input, and so is the moment at which `wait_for` returns: it has a time-out.
Once the socket is shut down `recv` returns.
-/

namespace RtpDecoder.Receiver

/-- Where the recv thread is in `recv_loop`. -/
inductive RecvAt where
  /-- At the test of `running_`. -/
  | test
  /-- In `recv`. -/
  | receive
  /-- In `handle_dgram`. -/
  | handle
  | done
deriving DecidableEq, Repr

/-- Where the worker is in `worker_loop`. -/
inductive WorkerAt where
  /-- At the test of `running_`. -/
  | test
  /-- Before `dequeue_job`. -/
  | take
  /-- In `process_job`. -/
  | busy
  /-- In `wait_for`. -/
  | sleep
  /-- Before the `dequeue_job` of the second loop. -/
  | drain
  /-- In the `process_job` of the second loop. -/
  | drainBusy
  | done
deriving DecidableEq, Repr

/-- The worker has a job in hand. -/
def WorkerAt.carries : WorkerAt → Bool
  | .busy | .drainBusy => true
  | .test | .take | .sleep | .drain | .done => false

/-- The worker has left the first loop. -/
def WorkerAt.leaves : WorkerAt → Bool
  | .drain | .drainBusy | .done => true
  | .test | .take | .busy | .sleep => false

/-- Where `stop` is. -/
inductive StopAt where
  /-- Not called yet. -/
  | away
  /-- After the exchange of `running_`, before the socket is closed. -/
  | shut
  | joinRecv
  | notify
  | joinWorker
  | done
deriving DecidableEq, Repr

/-- What `recv` returns: a datagram, nothing to work on (too few bytes, or `EINTR`), or an error. -/
inductive Input where
  | dgram (data : List UInt8)
  | nothing
  | failed

structure Session where
  sys : System
  running : Bool := true
  recvAt : RecvAt := .test
  workerAt : WorkerAt := .test
  stopAt : StopAt := .away
  /-- Ghost: the jobs accepted when the worker found the queue empty and left. -/
  lastLook : Nat := 0
  /-- Ghost: whether the recv thread had left by then. -/
  alone : Bool := false
  /-- Ghost: the datagrams taken up since `running_` was cleared. -/
  late : Nat := 0

inductive Move where
  | recv (input : Input)
  | worker
  | release (i : Nat)
  | stop

/-- Bounds on the moves that are left once `running_` is cleared, from each place. -/
def RecvAt.left (sys : System) : RecvAt → Nat
  | .test => 1
  | .receive => 131082
  | .handle => turnsLeft sys + 2
  | .done => 0

def WorkerAt.left : WorkerAt → Nat
  | .take => 4
  | .busy => 4
  | .sleep => 3
  | .drainBusy => 3
  | .test => 2
  | .drain => 1
  | .done => 0

def StopAt.left : StopAt → Nat
  | .away => 5
  | .shut => 4
  | .joinRecv => 3
  | .notify => 2
  | .joinWorker => 1
  | .done => 0

namespace Session

/-- The next move of the recv thread. -/
def recvMove (s : Session) (input : Input) : Option Session :=
  match s.recvAt with
  | .test => some { s with recvAt := if s.running then .receive else .done }
  | .receive =>
    match input with
    | .dgram data => (Receiver.step s.sys (.dgram data)).map fun sys =>
        { s with sys := sys, recvAt := .handle, late := if s.running then s.late else s.late + 1 }
    | .nothing => some { s with recvAt := .test }
    | .failed => some { s with recvAt := .done }
  | .handle =>
    if s.sys.pc = .idle then some { s with recvAt := .test }
    else (Receiver.step s.sys .recv).map fun sys => { s with sys := sys }
  | .done => none

/-- The next move of the worker. -/
def workerMove (s : Session) : Option Session :=
  match s.workerAt with
  | .test => some { s with workerAt := if s.running then .take else .drain }
  | .take =>
    match dequeueJob s.sys with
    | some sys => some { s with sys := sys, workerAt := .busy }
    | none => some { s with workerAt := .sleep }
  | .busy => (processJob s.sys).map fun sys => { s with sys := sys, workerAt := .test }
  | .sleep => some { s with workerAt := .test }
  | .drain =>
    match dequeueJob s.sys with
    | some sys => some { s with sys := sys, workerAt := .drainBusy }
    | none => some { s with
        workerAt := .done
        lastLook := s.sys.enqueued.length
        alone := decide (s.recvAt = .done) }
  | .drainBusy => (processJob s.sys).map fun sys => { s with sys := sys, workerAt := .drain }
  | .done => none

/-- The next move of the thread that calls `stop`. -/
def stopMove (s : Session) : Option Session :=
  match s.stopAt with
  | .away => some { s with running := false, stopAt := .shut }
  | .shut => some { s with stopAt := .joinRecv }
  | .joinRecv => if s.recvAt = .done then some { s with stopAt := .notify } else none
  | .notify => some { s with stopAt := .joinWorker }
  | .joinWorker => if s.workerAt = .done then some { s with stopAt := .done } else none
  | .done => none

def step (s : Session) : Move → Option Session
  | .recv input => s.recvMove input
  | .worker => s.workerMove
  | .release i => some { s with sys := releaseSlab s.sys i }
  | .stop => s.stopMove

/-- The hook's owner keeps the rules. -/
def May (s : Session) : Move → Prop
  | .release i => HookOk s.sys (.release i)
  | .recv _ | .worker | .stop => True

instance (s : Session) (m : Move) : Decidable (s.May m) :=
  match m with
  | .release i => inferInstanceAs (Decidable (HookOk s.sys (.release i)))
  | .recv _ | .worker | .stop => isTrue trivial

def run (s : Session) : List Move → Option Session
  | [] => some s
  | m :: rest => if s.May m then (s.step m).bind fun t => run t rest else none

/-- The states of a receiver that was started with jitter depth `d`. -/
inductive Reached (d : Nat) : Session → Prop where
  | start : Reached d { sys := init d }
  | next {s t : Session} (m : Move) : Reached d s → s.May m → s.step m = some t → Reached d t

theorem Reached.run {d : Nat} {s t : Session} (reached : Reached d s) (moves : List Move)
    (returned : s.run moves = some t) : Reached d t := by
  induction moves generalizing s with
  | nil =>
    cases returned
    exact reached
  | cons m rest ih =>
    simp only [Session.run] at returned
    split at returned
    next may =>
      obtain ⟨u, moved, later⟩ := Option.bind_eq_some_iff.mp returned
      exact ih (reached.next m may moved) later
    · cases returned

/-! ### What one move does -/

variable {d : Nat} {s t : Session}

/-- A move of the recv thread: it goes on to another place, or moves the receiver. -/
inductive RecvMoved (s : Session) : Session → Prop where
  | goes {r : RecvAt} (here : s.recvAt ≠ .done) (waiting : s.recvAt = .handle → s.sys.pc = .idle)
      (again : r = .receive → s.running = true) (less : s.running = false → r.left s.sys < s.recvAt.left s.sys) :
      RecvMoved s { s with recvAt := r }
  | takes {data : List UInt8} {sys : System} (here : s.recvAt = .receive)
      (moved : Receiver.step s.sys (.dgram data) = some sys) :
      RecvMoved s { s with sys := sys, recvAt := .handle, late := if s.running then s.late else s.late + 1 }
  | moves {sys : System} (here : s.recvAt = .handle) (moved : Receiver.step s.sys .recv = some sys) :
      RecvMoved s { s with sys := sys }

theorem recvMove_cases {input : Input} (moved : s.recvMove input = some t) : RecvMoved s t := by
  unfold recvMove at moved
  split at moved
  next here =>
    cases moved
    apply RecvMoved.goes
    · simp [here]
    · simp [here]
    · cases s.running <;> simp
    · intro cleared
      simp [cleared, here, RecvAt.left]
  next here =>
    split at moved
    · obtain ⟨sys, inner, rfl⟩ := Option.map_eq_some_iff.mp moved
      exact .takes here inner
    all_goals
      cases moved
      exact .goes (by simp [here]) (by simp [here]) (by simp) (by simp [here, RecvAt.left])
  next here =>
    split at moved
    next idle =>
      cases moved
      refine .goes (by simp [here]) (fun _ => idle) (by simp) fun _ => ?_
      simp only [here, RecvAt.left]
      omega
    · obtain ⟨sys, inner, rfl⟩ := Option.map_eq_some_iff.mp moved
      exact .moves here inner
  · cases moved

/-- A move of the worker: it goes on to another place, takes a job, processes it, or leaves. -/
inductive WorkerMoved (s : Session) : Session → Prop where
  | goes {w : WorkerAt} (carries : w.carries = s.workerAt.carries) (leaves : w.leaves = true → s.running = false)
      (stays : w ≠ .done) (less : s.running = false → w.left < s.workerAt.left) :
      WorkerMoved s { s with workerAt := w }
  | takes {w : WorkerAt} {sys : System} (moved : Receiver.step s.sys .dequeue = some sys)
      (carries : w.carries = true) (leaves : w.leaves = true → s.workerAt.leaves = true) (stays : w ≠ .done)
      (less : w.left ≤ s.workerAt.left + 2) : WorkerMoved s { s with sys := sys, workerAt := w }
  | gives {w : WorkerAt} {sys : System} (moved : Receiver.step s.sys .process = some sys)
      (carries : w.carries = false) (leaves : w.leaves = true → s.workerAt.leaves = true) (stays : w ≠ .done)
      (less : w.left + 2 ≤ s.workerAt.left) : WorkerMoved s { s with sys := sys, workerAt := w }
  | ends (here : s.workerAt = .drain) (empty : dequeueJob s.sys = none) :
      WorkerMoved s { s with
        workerAt := .done
        lastLook := s.sys.enqueued.length
        alone := decide (s.recvAt = .done) }

theorem workerMove_cases (moved : s.workerMove = some t) : s.workerAt ≠ .done ∧ WorkerMoved s t := by
  unfold workerMove at moved
  split at moved
  next here =>
    cases moved
    refine ⟨by simp [here], ?_⟩
    apply WorkerMoved.goes <;> cases s.running <;> simp [here, WorkerAt.carries, WorkerAt.leaves, WorkerAt.left]
  next here =>
    refine ⟨by simp [here], ?_⟩
    split at moved <;> cases moved
    next inner => exact .takes inner rfl (by simp [WorkerAt.leaves]) (by simp) (by simp [here, WorkerAt.left])
    · exact .goes (by simp [here, WorkerAt.carries]) (by simp [WorkerAt.leaves]) (by simp)
        (by simp [here, WorkerAt.left])
  next here =>
    obtain ⟨sys, inner, rfl⟩ := Option.map_eq_some_iff.mp moved
    exact ⟨by simp [here], .gives inner rfl (by simp [WorkerAt.leaves]) (by simp) (by simp [here, WorkerAt.left])⟩
  next here =>
    cases moved
    exact ⟨by simp [here], .goes (by simp [here, WorkerAt.carries]) (by simp [WorkerAt.leaves]) (by simp)
      (by simp [here, WorkerAt.left])⟩
  next here =>
    refine ⟨by simp [here], ?_⟩
    split at moved <;> cases moved
    next inner => exact .takes inner rfl (by simp [here, WorkerAt.leaves]) (by simp) (by simp [here, WorkerAt.left])
    next empty => exact .ends here empty
  next here =>
    obtain ⟨sys, inner, rfl⟩ := Option.map_eq_some_iff.mp moved
    exact ⟨by simp [here], .gives inner rfl (by simp [here, WorkerAt.leaves]) (by simp)
      (by simp [here, WorkerAt.left])⟩
  · cases moved

/-- A move of `stop`: it clears `running_`, or goes on to the next place if it need not wait. -/
inductive StopMoved (s : Session) : Session → Prop where
  | clears (here : s.stopAt = .away) : StopMoved s { s with running := false, stopAt := .shut }
  | goes {p : StopAt} (here : s.stopAt ≠ .away) (later : p ≠ .away)
      (recv : p = .notify ∨ p = .joinWorker ∨ p = .done →
        s.recvAt = .done ∨ s.stopAt = .notify ∨ s.stopAt = .joinWorker)
      (worker : p = .done → s.workerAt = .done) (less : p.left < s.stopAt.left) : StopMoved s { s with stopAt := p }

theorem stopMove_cases (moved : s.stopMove = some t) : StopMoved s t := by
  unfold stopMove at moved
  split at moved
  next here =>
    cases moved
    exact .clears here
  next here =>
    cases moved
    apply StopMoved.goes <;> simp [here, StopAt.left]
  next here =>
    split at moved <;> cases moved
    next gone => apply StopMoved.goes <;> simp [here, gone, StopAt.left]
  next here =>
    cases moved
    apply StopMoved.goes <;> simp [here, StopAt.left]
  next here =>
    split at moved <;> cases moved
    next gone => apply StopMoved.goes <;> simp [here, gone, StopAt.left]
  · cases moved

/-! ### What holds throughout a session -/

structure Ordered (d : Nat) (s : Session) : Prop where
  reachable : Reachable HookOk d s.sys
  waiting : s.recvAt ≠ .handle → s.sys.pc = .idle
  hand : s.sys.inHand.isSome = s.workerAt.carries
  cleared : s.running = false ↔ s.stopAt ≠ .away
  leaving : s.workerAt.leaves = true → s.running = false
  look : s.workerAt = .done → s.sys.handed.length = s.lastLook
  alone : s.workerAt = .done → s.alone = true → s.recvAt = .done ∧ s.sys.enqueued.length = s.lastLook
  late : s.late ≤ 1 ∧ (s.running = true → s.late = 0) ∧ (s.late = 1 → s.recvAt ≠ .receive)
  joinedRecv : s.stopAt = .notify ∨ s.stopAt = .joinWorker ∨ s.stopAt = .done → s.recvAt = .done
  joinedWorker : s.stopAt = .done → s.workerAt = .done

theorem ordered_start (d : Nat) : Ordered d { sys := init d } where
  reachable := .start
  waiting := fun _ => rfl
  hand := rfl
  cleared := by simp
  leaving := by simp [WorkerAt.leaves]
  look := by simp
  alone := by simp
  late := by simp
  joinedRecv := by simp
  joinedWorker := by simp

/-- The recv thread leaves the worker's job and the hook's jobs alone. -/
private theorem beside_recvSide {u v : System} {a : Action} (moved : Receiver.step u a = some v)
    (recv : (∃ data, a = .dgram data) ∨ a = .recv) : v.inHand = u.inHand ∧ v.handed = u.handed := by
  refine ⟨?_, (beside_of_other moved (recv.imp id Or.inl)).handed⟩
  have way := step_moved moved
  rcases recv with ⟨data, rfl⟩ | rfl
  · cases way
    rfl
  · exact (recvStep_backlog moved).2

private theorem Ordered.recv_goes {r : RecvAt} (ordered : Ordered d s) (here : s.recvAt ≠ .done)
    (waiting : s.sys.pc = .idle) (late : s.late = 1 → r ≠ .receive) : Ordered d { s with recvAt := r } where
  reachable := ordered.reachable
  waiting := fun _ => waiting
  hand := ordered.hand
  cleared := ordered.cleared
  leaving := ordered.leaving
  look := ordered.look
  alone := fun gone alone => absurd (ordered.alone gone alone).1 here
  late := ⟨ordered.late.1, ordered.late.2.1, late⟩
  joinedRecv := fun joined => absurd (ordered.joinedRecv joined) here
  joinedWorker := ordered.joinedWorker

private theorem Ordered.recv_moves {sys : System} {a : Action} {late : Nat} (ordered : Ordered d s)
    (here : s.recvAt ≠ .done) (moved : Receiver.step s.sys a = some sys)
    (recv : (∃ data, a = .dgram data) ∨ a = .recv)
    (few : late ≤ 1 ∧ (s.running = true → late = 0)) :
    Ordered d { s with sys := sys, recvAt := .handle, late := late } := by
  obtain ⟨inHand, handed⟩ := beside_recvSide moved recv
  have may : HookOk s.sys a := by rcases recv with ⟨data, rfl⟩ | rfl <;> exact trivial
  constructor
  · exact ordered.reachable.next a may moved
  · exact fun elsewhere => absurd rfl elsewhere
  · dsimp only
    rw [inHand]
    exact ordered.hand
  · exact ordered.cleared
  · exact ordered.leaving
  · dsimp only
    rw [handed]
    exact ordered.look
  · exact fun gone alone => absurd (ordered.alone gone alone).1 here
  · exact ⟨few.1, few.2, by simp⟩
  · exact fun joined => absurd (ordered.joinedRecv joined) here
  · exact ordered.joinedWorker

private theorem Ordered.recvMove {input : Input} (ordered : Ordered d s) (moved : s.recvMove input = some t) :
    Ordered d t := by
  have late := ordered.late
  cases recvMove_cases moved with
  | goes here waiting again _ =>
    have idle : s.sys.pc = .idle := by
      by_cases handling : s.recvAt = .handle
      · exact waiting handling
      · exact ordered.waiting handling
    apply ordered.recv_goes here idle
    rintro one rfl
    rw [late.2.1 (again rfl)] at one
    cases one
  | @takes data sys here inner =>
    apply ordered.recv_moves (by simp [here]) inner (Or.inl ⟨data, rfl⟩)
    -- Behind a datagram that came late the test of `running_` ends the loop.
    have fresh : s.late ≠ 1 := fun one => late.2.2 one here
    cases running : s.running with
    | true => simp [late.2.1 running]
    | false =>
      simp
      omega
  | moves here inner =>
    have after := ordered.recv_moves (by simp [here]) inner (Or.inr rfl) ⟨late.1, late.2.1⟩
    rw [← here] at after
    exact after

private theorem Ordered.worker_goes {w : WorkerAt} {sys : System} (ordered : Ordered d s)
    (here : s.workerAt ≠ .done) (reachable : Reachable HookOk d sys) (pc : sys.pc = s.sys.pc)
    (hand : sys.inHand.isSome = w.carries) (leaving : w.leaves = true → s.running = false) (stays : w ≠ .done) :
    Ordered d { s with sys := sys, workerAt := w } where
  reachable := reachable
  waiting := fun elsewhere => pc.trans (ordered.waiting elsewhere)
  hand := hand
  cleared := ordered.cleared
  leaving := leaving
  look := fun gone => absurd gone stays
  alone := fun gone => absurd gone stays
  late := ordered.late
  joinedRecv := ordered.joinedRecv
  joinedWorker := fun joined => absurd (ordered.joinedWorker joined) here

private theorem Ordered.workerMove (low : 1 ≤ d) (high : d ≤ kRingSize) (ordered : Ordered d s)
    (moved : s.workerMove = some t) : Ordered d t := by
  obtain ⟨_, queue⟩ := reachable_queueInv low high ordered.reachable
  have hand := ordered.hand
  obtain ⟨stays_on, turn⟩ := workerMove_cases moved
  cases turn with
  | goes carries leaves stays _ =>
    exact ordered.worker_goes stays_on ordered.reachable rfl (hand.trans carries.symm) leaves stays
  | takes inner carries leaves stays _ =>
    have pc := (sameRecv_of_other inner (Or.inl rfl)).2
    refine ordered.worker_goes stays_on (ordered.reachable.next .dequeue trivial inner) pc ?_
      (fun now => ordered.leaving (leaves now)) stays
    cases step_moved inner
    exact carries.symm
  | gives inner carries leaves stays _ =>
    have pc := (sameRecv_of_other inner (Or.inr (Or.inl rfl))).2
    refine ordered.worker_goes stays_on (ordered.reachable.next .process trivial inner) pc ?_
      (fun now => ordered.leaving (leaves now)) stays
    cases step_moved inner <;> exact carries.symm
  | ends here empty =>
    -- The queue is empty, so everything that was accepted has been handed on.
    rw [here, WorkerAt.carries] at hand
    have all : s.sys.enqueued = s.sys.handed := by
      have free : s.sys.inHand = none := Option.isNone_iff_eq_none.mp (Option.isSome_eq_false_iff.mp hand)
      have nothing : s.sys.jobQueue.contents = [] := by
        apply SpscQueue.dequeue_eq_none_iff.mp
        unfold dequeueJob at empty
        rw [free] at empty
        cases taken : s.sys.jobQueue.dequeue with
        | none => rfl
        | some pair => rw [taken] at empty; cases empty
      rw [queue.history, free, nothing, Option.toList_none, List.append_nil, List.append_nil]
    constructor
    · exact ordered.reachable
    · exact ordered.waiting
    · exact hand
    · exact ordered.cleared
    · exact fun _ => ordered.leaving (by simp [here, WorkerAt.leaves])
    · exact fun _ => congrArg List.length all.symm
    · exact fun _ alone => ⟨of_decide_eq_true alone, rfl⟩
    · exact ordered.late
    · exact ordered.joinedRecv
    · exact fun joined => absurd (ordered.joinedWorker joined) stays_on

private theorem Ordered.stopMove (ordered : Ordered d s) (moved : s.stopMove = some t) : Ordered d t := by
  have late := ordered.late
  cases stopMove_cases moved with
  | clears _ =>
    exact ⟨ordered.reachable, ordered.waiting, ordered.hand, by simp, fun _ => rfl, ordered.look, ordered.alone,
      ⟨late.1, by simp, late.2.2⟩, by simp, by simp⟩
  | goes here later recv worker _ =>
    have cleared := ordered.cleared.mpr here
    refine ⟨ordered.reachable, ordered.waiting, ordered.hand, by simp [cleared, later], ordered.leaving, ordered.look,
      ordered.alone, late, fun joined => ?_, worker⟩
    rcases recv joined with gone | notified | joining
    · exact gone
    · exact ordered.joinedRecv (Or.inl notified)
    · exact ordered.joinedRecv (Or.inr (Or.inl joining))

private theorem Ordered.release {i : Nat} (ordered : Ordered d s) (may : HookOk s.sys (.release i)) :
    Ordered d { s with sys := releaseSlab s.sys i } := by
  have moved : Receiver.step s.sys (.release i) = some (releaseSlab s.sys i) := rfl
  have pc := (sameRecv_of_other moved (Or.inr (Or.inr ⟨i, rfl⟩))).2
  obtain ⟨_, inHand, handed, enqueued⟩ := releaseSlab_frame s.sys i
  constructor
  · exact ordered.reachable.next _ may moved
  · exact fun elsewhere => pc.trans (ordered.waiting elsewhere)
  · dsimp only
    rw [inHand]
    exact ordered.hand
  · exact ordered.cleared
  · exact ordered.leaving
  · dsimp only
    rw [handed]
    exact ordered.look
  · dsimp only
    rw [enqueued]
    exact ordered.alone
  · exact ordered.late
  · exact ordered.joinedRecv
  · exact ordered.joinedWorker

theorem Reached.ordered (low : 1 ≤ d) (high : d ≤ kRingSize) (reached : Reached d s) : Ordered d s := by
  induction reached with
  | start => exact ordered_start d
  | next m _ may moved ih =>
    cases m with
    | recv input => exact ih.recvMove moved
    | worker => exact ih.workerMove low high moved
    | release i =>
      cases moved
      exact ih.release may
    | stop => exact ih.stopMove moved

/-- When `stop` has returned, in any interleaving: both threads have left and neither holds a job or a
datagram; at most one datagram was taken up after `running_` was cleared; the hook was given exactly
the jobs that were accepted before the worker's last look at the queue, and what is left in the queue
was accepted later. Nothing is left if the recv thread had gone by then. -/
theorem stop_hands_on (low : 1 ≤ d) (high : d ≤ kRingSize) (reached : Reached d s) (stopped : s.stopAt = .done) :
    s.recvAt = .done ∧ s.workerAt = .done ∧ s.sys.pc = .idle ∧ s.sys.inHand = none ∧ s.late ≤ 1 ∧
    s.sys.handed = s.sys.enqueued.take s.lastLook ∧ s.sys.jobQueue.contents = s.sys.enqueued.drop s.lastLook ∧
    (s.alone = true → s.sys.handed = s.sys.enqueued ∧ s.sys.jobQueue.contents = []) := by
  have ordered := reached.ordered low high
  obtain ⟨_, queue⟩ := reachable_queueInv low high ordered.reachable
  have gone := ordered.joinedRecv (Or.inr (Or.inr stopped))
  have left := ordered.joinedWorker stopped
  have free : s.sys.inHand = none := by
    have hand := ordered.hand
    rw [left, WorkerAt.carries] at hand
    exact Option.isNone_iff_eq_none.mp (Option.isSome_eq_false_iff.mp hand)
  have history := queue.history
  rw [free, Option.toList_none, List.nil_append] at history
  have look := ordered.look left
  refine ⟨gone, left, ordered.waiting (by simp [gone]), free, ordered.late.1, ?_, ?_, ?_⟩
  · rw [history, ← look, List.take_left]
  · rw [history, ← look, List.drop_left]
  · intro alone
    have all := (ordered.alone left alone).2
    rw [← look, history, List.length_append] at all
    have empty : s.sys.jobQueue.contents = [] := List.eq_nil_of_length_eq_zero (by omega)
    rw [history, empty, List.append_nil]
    exact ⟨rfl, rfl⟩

/-- The worker leaves while the recv thread is still in `handle_dgram`, and the job is left behind. -/
def leftBehind : List Move :=
  [.recv .nothing, .recv (.dgram (barePacket 0 7)), .stop, .worker, .worker,
   .recv .nothing, .recv .nothing, .recv .nothing, .recv .nothing, .recv .nothing, .recv .nothing,
   .recv .nothing, .recv .nothing, .stop, .stop, .stop, .stop]

theorem stop_hands_on_leftBehind : ∃ s, ({ sys := init 64 } : Session).run leftBehind = some s ∧
    s.stopAt = .done ∧ s.sys.enqueued.length = 1 ∧ s.sys.handed = [] ∧
    s.sys.jobQueue.contents = s.sys.enqueued := by
  have facts : (({ sys := init 64 } : Session).run leftBehind).map
      (fun s => (s.stopAt, s.sys.enqueued.length, s.lastLook)) = some (.done, 1, 0) := by
    decide +kernel
  obtain ⟨s, returned, read⟩ := Option.map_eq_some_iff.mp facts
  simp only [Prod.mk.injEq] at read
  obtain ⟨stopped, one, zero⟩ := read
  obtain ⟨_, _, _, _, _, handed, left, _⟩ :=
    stop_hands_on (by decide) (by decide) (Reached.start.run leftBehind returned) stopped
  rw [zero] at handed left
  exact ⟨s, returned, stopped, one, handed, left⟩

/-! ### `stop` returns -/

/-- A bound on the moves once `running_` is cleared: the recv thread takes up at most one more
datagram, each of its moves is worth a job, and each job a release. -/
def remaining (s : Session) : Nat :=
  4 * RecvAt.left s.sys s.recvAt + 3 * s.sys.jobQueue.contents.length + WorkerAt.left s.workerAt +
    s.sys.owned.length + StopAt.left s.stopAt

private theorem jobQueue_dgram {u v : System} {data : List UInt8} (moved : Receiver.step u (.dgram data) = some v) :
    v.jobQueue = u.jobQueue := by
  cases step_moved moved
  rfl

private theorem remaining_recvMove (low : 1 ≤ d) (high : d ≤ kRingSize) (ordered : Ordered d s)
    (cleared : s.running = false) {input : Input} (moved : s.recvMove input = some t) :
    t.running = false ∧ t.remaining < s.remaining := by
  cases recvMove_cases moved with
  | goes _ _ _ less =>
    have fewer := less cleared
    refine ⟨cleared, ?_⟩
    simp only [remaining]
    omega
  | @takes data sys here inner =>
    have owned := (beside_of_other inner (Or.inl ⟨data, rfl⟩)).owned
    have queue := jobQueue_dgram inner
    have most := (reachable_ringInv low high (ordered.reachable.next (.dgram data) trivial inner)).turnsLeft_le
    refine ⟨cleared, ?_⟩
    simp only [remaining, RecvAt.left, here, owned, queue]
    omega
  | moves here inner =>
    have owned := (beside_of_other inner (Or.inr (Or.inl rfl))).owned
    have fewer := recvStep_turns (reachable_ringInv low high ordered.reachable) inner
    have backlog := (recvStep_backlog inner).1
    refine ⟨cleared, ?_⟩
    simp only [remaining, RecvAt.left, here, owned]
    omega

private theorem left_of_other {u v : System} {a : Action} (moved : Receiver.step u a = some v)
    (worker : a = .dequeue ∨ a = .process ∨ ∃ i, a = .release i) (r : RecvAt) : r.left v = r.left u := by
  have turns := turnsLeft_of_other moved worker
  cases r <;> simp only [RecvAt.left, turns]

/-- A job that is taken leaves the queue, and becomes a slab of the hook. -/
private theorem remaining_workerMove (low : 1 ≤ d) (high : d ≤ kRingSize) (ordered : Ordered d s)
    (cleared : s.running = false) (moved : s.workerMove = some t) :
    t.running = false ∧ t.remaining < s.remaining := by
  obtain ⟨_, queue⟩ := reachable_queueInv low high ordered.reachable
  cases (workerMove_cases moved).2 with
  | goes _ _ _ less =>
    have fewer := less cleared
    refine ⟨cleared, ?_⟩
    simp only [remaining]
    omega
  | takes inner _ _ _ less =>
    have recv := left_of_other inner (Or.inl rfl) s.recvAt
    refine ⟨cleared, ?_⟩
    simp only [remaining, recv]
    cases step_moved inner with
    | dequeue _ taken =>
      rw [SpscQueue.contents_dequeue taken, List.length_cons]
      dsimp only
      omega
  | gives inner _ _ _ less =>
    have recv := left_of_other inner (Or.inr (Or.inl rfl)) s.recvAt
    refine ⟨cleared, ?_⟩
    simp only [remaining, recv]
    cases step_moved inner with
    | handed _ _ =>
      rw [List.length_cons]
      dsimp only
      omega
    -- No job was queued without a payload.
    | short inHand short => exact absurd (queue.inHand_payload inHand) short
  | ends here _ => simp [remaining, WorkerAt.left, here, cleared]

private theorem remaining_stopMove (cleared : s.running = false) (moved : s.stopMove = some t) :
    t.running = false ∧ t.remaining < s.remaining := by
  cases stopMove_cases moved with
  | clears here => simp [remaining, StopAt.left, here]
  | goes _ _ _ _ less => exact ⟨cleared, Nat.add_lt_add_left less _⟩

theorem remaining_step (low : 1 ≤ d) (high : d ≤ kRingSize) (ordered : Ordered d s) (cleared : s.running = false)
    {m : Move} (may : s.May m) (moved : s.step m = some t) : t.running = false ∧ t.remaining < s.remaining := by
  cases m with
  | recv input => exact remaining_recvMove low high ordered cleared moved
  | worker => exact remaining_workerMove low high ordered cleared moved
  | release i =>
    cases moved
    obtain ⟨j, mine, index⟩ := may
    have inner : Receiver.step s.sys (.release i) = some (releaseSlab s.sys i) := rfl
    have recv := left_of_other inner (Or.inr (Or.inr ⟨i, rfl⟩)) s.recvAt
    have owned := length_owned_releaseSlab (reachable_ownInv low high ordered.reachable).nodup_ownedIdx
      (List.mem_map.mpr ⟨j, mine, index⟩)
    have queue := (releaseSlab_frame s.sys i).1
    refine ⟨cleared, ?_⟩
    simp only [remaining, recv, queue]
    omega
  | stop => exact remaining_stopMove cleared moved

theorem remaining_run (low : 1 ≤ d) (high : d ≤ kRingSize) (reached : Reached d s) (cleared : s.running = false)
    (moves : List Move) (returned : s.run moves = some t) : t.remaining + moves.length ≤ s.remaining := by
  induction moves generalizing s with
  | nil =>
    cases returned
    exact Nat.le_refl _
  | cons m rest ih =>
    simp only [Session.run] at returned
    split at returned
    next may =>
      obtain ⟨u, moved, later⟩ := Option.bind_eq_some_iff.mp returned
      obtain ⟨still, less⟩ := remaining_step low high (reached.ordered low high) cleared may moved
      have rest := ih (reached.next m may moved) still later
      rw [List.length_cons]
      omega
    · cases returned

theorem Ordered.remaining_le (low : 1 ≤ d) (high : d ≤ kRingSize) (ordered : Ordered d s) : s.remaining ≤ 589870 := by
  have turns := (reachable_ringInv low high ordered.reachable).turnsLeft_le
  have recv : RecvAt.left s.sys s.recvAt ≤ 131082 := by
    cases s.recvAt <;> simp only [RecvAt.left] <;> omega
  have worker : WorkerAt.left s.workerAt ≤ 4 := by cases s.workerAt <;> simp [WorkerAt.left]
  have stop : StopAt.left s.stopAt ≤ 5 := by cases s.stopAt <;> simp [StopAt.left]
  have queued : s.sys.jobQueue.contents.length < 16384 := s.sys.jobQueue.length_contents_lt
  have owned : s.sys.owned.length ≤ 16384 := by
    have distinct : (s.sys.owned.map Job.slabIdx).Nodup :=
      (List.nodup_append.mp (reachable_ownInv low high ordered.reachable).exclusive).1
    have most := distinct.length_le_card
    rwa [List.length_map, Fintype.card_fin] at most
  unfold remaining
  omega

theorem Ordered.exists_move (ordered : Ordered d s) (unfinished : s.stopAt ≠ .done) :
    ∃ m, s.May m ∧ (s.step m).isSome = true := by
  -- `stop` waits for the threads, and they wait for nobody.
  by_cases gone : s.recvAt = .done
  · by_cases left : s.workerAt = .done
    · refine ⟨.stop, trivial, ?_⟩
      simp only [step, Session.stopMove, gone, left, if_true]
      cases here : s.stopAt <;> simp_all
    · refine ⟨.worker, trivial, ?_⟩
      have hand := ordered.hand
      have processed (carries : s.workerAt.carries = true) : (processJob s.sys).isSome = true := by
        rw [carries] at hand
        obtain ⟨j, inHand⟩ := Option.isSome_iff_exists.mp hand
        simp only [processJob, inHand]
        split <;> rfl
      simp only [step, Session.workerMove]
      cases here : s.workerAt with
      | test | sleep => rfl
      | take | drain =>
        dsimp only
        split <;> rfl
      | busy | drainBusy =>
        rw [Option.isSome_map]
        exact processed (by simp [here, WorkerAt.carries])
      | done => exact absurd here left
  · refine ⟨.recv .nothing, trivial, ?_⟩
    simp only [step, Session.recvMove]
    cases here : s.recvAt with
    | test | receive => rfl
    | handle =>
      dsimp only
      split
      · rfl
      next busy =>
        rw [Option.isSome_map]
        cases place : s.sys.pc <;> simp_all [Receiver.step, recvStep]
    | done => exact absurd here gone

/-- Once `stop` has been called: whatever the order of the moves, at most 589870 of them follow, and
until `stop` has returned somebody can move. So it returns, and no thread waits for another forever. -/
theorem stop_returns (low : 1 ≤ d) (high : d ≤ kRingSize) (reached : Reached d s) (called : s.running = false)
    (moves : List Move) (returned : s.run moves = some t) :
    moves.length ≤ 589870 ∧ (t.stopAt = .done ∨ ∃ m, t.May m ∧ (t.step m).isSome = true) := by
  constructor
  · have spent := remaining_run low high reached called moves returned
    have most := (reached.ordered low high).remaining_le low high
    omega
  · by_cases finished : t.stopAt = .done
    · exact Or.inl finished
    · exact Or.inr (((reached.run moves returned).ordered low high).exists_move finished)

theorem stop_returns_leftBehind : ∃ s t, ({ sys := init 64 } : Session).run (leftBehind.take 3) = some s ∧
    s.running = false ∧ s.run (leftBehind.drop 3) = some t ∧
    (t.stopAt = .done ∨ ∃ m, t.May m ∧ (t.step m).isSome = true) := by
  have facts : (({ sys := init 64 } : Session).run (leftBehind.take 3)).map
      (fun s => (s.running, (s.run (leftBehind.drop 3)).isSome)) = some (false, true) := by
    decide +kernel
  obtain ⟨s, returned, read⟩ := Option.map_eq_some_iff.mp facts
  simp only [Prod.mk.injEq] at read
  obtain ⟨t, later⟩ := Option.isSome_iff_exists.mp read.2
  exact ⟨s, t, returned, read.1, later, (stop_returns (by decide) (by decide)
    (Reached.start.run _ returned) read.1 _ later).2⟩

end Session

/-! ### A second start -/

/-- What `start` makes of a receiver that has been stopped. The slabs keep their bytes, and the hook's
owner keeps the slabs that it has not released. -/
def restart (s : System) : System where
  jitterDepth := s.jitterDepth
  ring := fun i => { s.ring i with filled := false, len := 0, inWorker := false }
  slab := s.slab
  started := false
  nextSeq := 0
  pending := 0
  netLostPackets := 0
  slotBusyDrops := 0
  queueFullDrops := 0
  jobQueue := { s.jobQueue with
    head := 0
    tail := 0
    head_lt := Nat.zero_lt_of_lt s.jobQueue.head_lt
    tail_lt := Nat.zero_lt_of_lt s.jobQueue.head_lt }
  pc := .idle
  inHand := none
  advances := 0
  stored := []
  enqueued := []
  handed := []
  owned := s.owned
  aliased := false

theorem contents_restart (s : System) : (restart s).jobQueue.contents = [] := by
  simp [restart, SpscQueue.contents, SpscQueue.size]

theorem ringInv_restart {s : System} (ring : RingInv s) : RingInv (restart s) where
  depth_pos := ring.depth_pos
  depth_le := ring.depth_le
  unstarted := fun _ => ⟨rfl, rfl, fun _ => rfl⟩
  window := fun _ filled => absurd filled (by simp [restart])
  pending := by simp [restart, filledCount]
  pcOk := trivial
  notAliased := rfl
  kept := fun _ filled => absurd filled (by simp [restart])
  unique := List.nodup_nil
  future := fun _ _ member => absurd member (by simp [restart])
  parsed := fun _ _ member => absurd member (by simp [restart])
  numbered := fun _ _ member => absurd member (by simp [restart])

theorem queueInv_restart (s : System) : QueueInv (restart s) where
  history := by
    rw [contents_restart]
    simp [restart]
  payload := by simp [restart]
  below := by simp [restart]
  ordered := by simp [restart]
  seqs := by simp [restart]

theorem ownInv_restart_iff {s : System} : OwnInv (restart s) ↔ s.owned = [] := by
  have busy : busyIdx (restart s) = s.owned.map Job.slabIdx := by
    simp only [busyIdx, underway, contents_restart, List.append_nil]
    simp [restart]
  constructor
  · -- All flags are cleared, also those of the slabs that are still in use.
    intro inv
    apply List.eq_nil_iff_forall_not_mem.mpr
    intro j mine
    have outside : ¬ InDispatch (restart s) j.slabIdx := by simp [InDispatch, restart]
    have flagged := (inv.flag j.slabIdx outside).mpr (by rw [busy]; exact List.mem_map_of_mem mine)
    simp [restart] at flagged
  · intro none_owned
    have empty : busyIdx (restart s) = [] := by rw [busy, none_owned, List.map_nil]
    constructor
    · rw [empty]
      exact List.nodup_nil
    · intro i _
      rw [empty]
      simp [restart]
    · simp [InDispatch, restart]
    · simp [restart]
    · simp [restart]
    · simp [underway, contents_restart]
      simp [restart, none_owned]

theorem run_ownInv {s t : System} (ring : RingInv s) (queue : QueueInv s) (own : OwnInv s) (actions : List Action)
    (returned : run HookOk s actions = some t) : OwnInv t := by
  induction actions generalizing s with
  | nil =>
    cases returned
    exact own
  | cons a rest ih =>
    simp only [run] at returned
    split at returned
    next may =>
      obtain ⟨u, moved, later⟩ := Option.bind_eq_some_iff.mp returned
      exact ih (step_ringInv ring moved) (step_queueInv ring queue moved) (step_ownInv ring queue own may moved) later
    · cases returned

/-- A receiver that is started again keeps every slab on one side in all its runs exactly when the
hook's owner had given back all slabs of the session before. -/
theorem restart_safe_iff {d : Nat} (low : 1 ≤ d) (high : d ≤ kRingSize) {s : System} (reach : Reachable HookOk d s) :
    (∀ actions t, run HookOk (restart s) actions = some t → OwnInv t) ↔ s.owned = [] := by
  constructor
  · intro safe
    exact ownInv_restart_iff.mp (safe [] (restart s) rfl)
  · intro none_owned actions t returned
    exact run_ownInv (ringInv_restart (reachable_ringInv low high reach)) (queueInv_restart s)
      (ownInv_restart_iff.mpr none_owned) actions returned

/-- A frame is in flight when the receiver is started again. -/
theorem restart_safe_iff_midFrame : ∃ s, run HookOk (init 64) (takenRun [] ++ [.process]) = some s ∧
    ¬ ∀ actions t, run HookOk (restart s) actions = some t → OwnInv t := by
  have facts : (run HookOk (init 64) (takenRun [] ++ [.process])).map (fun s => s.owned.length) = some 1 := by
    decide +kernel
  obtain ⟨s, returned, one⟩ := Option.map_eq_some_iff.mp facts
  refine ⟨s, returned, ?_⟩
  rw [restart_safe_iff (by decide) (by decide) (Reachable.start.run _ returned)]
  rintro empty
  rw [empty] at one
  cases one

end RtpDecoder.Receiver
