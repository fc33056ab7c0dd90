import RtpDecoder.Frame.Slabs
import RtpDecoder.Frame.Tiles
import RtpDecoder.Receiver.Payload

/-!
# The receiver and the frame handler together

`main` makes `pull_data` the work of the receiver's hook and `release_slab` the callback with
which the frame handler gives slabs back. The hook's owner of the receiver's model is then no
longer free: it runs in the worker thread, inside `process_job`, and releases what `pull_data`
releases. The recv thread goes on in the meantime, so the single releases of one call are moves
of their own.

A packet is read where the call begins. This is as good as reading it later in the call, since
nobody writes to a slab that the hook owns.
-/

namespace RtpDecoder.Receiver

open RtpDecoder.Frame (FrameHandler Callbacks TileOps Event Packet released)
open RtpDecoder.Parser (Chunk)

variable {s t : System}

/-- The slabs given back between two traces, in the order of the calls. -/
def newlyReleased (before after : List Event) : List Nat :=
  ((released after).take ((released after).length - (released before).length)).reverse

theorem released_newly {before after : List Event} (grown : before <:+ after) :
    released after = (newlyReleased before after).reverse ++ released before := by
  obtain ⟨added, rfl⟩ := grown
  have split : released (added ++ before) = released added ++ released before :=
    List.filterMap_append
  simp [newlyReleased, split]

/-- The receiver, the frame handler, and what the call of `pull_data` in progress has yet to
give back. -/
structure Pipeline (T : Type) where
  sys : System
  handler : FrameHandler T
  toRelease : List Nat := []

namespace Pipeline

variable {T : Type} (cb : Callbacks) (ops : TileOps T)

/-- `process_job` with `rtp_receive_hook` in it. The statistics that the hook prints are not part
of the state. -/
def process (p : Pipeline T) : Option (Pipeline T) :=
  match p.sys.inHand, processJob p.sys with
  | some j, some sys =>
    match frameOf p.sys j with
    | none => some { p with sys := sys }
    | some f =>
      let handler := p.handler.pullData cb ops (rtpReceiveHook p.sys f)
      some ⟨sys, handler, newlyReleased p.handler.trace handler.trace⟩
  | _, _ => none

/-- One move. The worker takes up the next job after the hook has returned, and the hook releases
what the frame handler gives back, in that order. -/
def step (p : Pipeline T) : Action → Option (Pipeline T)
  | .dgram data => (Receiver.step p.sys (.dgram data)).map fun sys => { p with sys := sys }
  | .recv => (Receiver.step p.sys .recv).map fun sys => { p with sys := sys }
  | .dequeue =>
    if p.toRelease = [] then (dequeueJob p.sys).map fun sys => { p with sys := sys } else none
  | .process => if p.toRelease = [] then p.process cb ops else none
  | .release i =>
    match p.toRelease with
    | [] => none
    | next :: rest =>
      if i = next then some { p with sys := releaseSlab p.sys i, toRelease := rest } else none

def run (p : Pipeline T) : List Action → Option (Pipeline T)
  | [] => some p
  | a :: rest => (p.step cb ops a).bind fun q => run q rest

/-- The states that some interleaving of the two threads reaches, from a receiver just started
with jitter depth `d` and a new frame handler. -/
inductive Running (tileHndr : T) (relatchK d : Nat) : Pipeline T → Prop where
  | start : Running tileHndr relatchK d ⟨init d, FrameHandler.new tileHndr relatchK, []⟩
  | next {p q : Pipeline T} (a : Action) : Running tileHndr relatchK d p →
      p.step cb ops a = some q → Running tileHndr relatchK d q

variable {cb ops} {tileHndr : T} {relatchK d : Nat} {p q : Pipeline T}

theorem Running.run (running : Running cb ops tileHndr relatchK d p) (actions : List Action)
    (returned : p.run cb ops actions = some q) : Running cb ops tileHndr relatchK d q := by
  induction actions generalizing p with
  | nil =>
    cases returned
    exact running
  | cons a rest ih =>
    obtain ⟨u, moved, later⟩ := Option.bind_eq_some_iff.mp returned
    exact ih (running.next a moved) later

/-! ### What one move does -/

/-- A move of the pipeline. Only a call of the hook changes the frame handler. -/
inductive Turn (cb : Callbacks) (ops : TileOps T) (p : Pipeline T) : Action → Pipeline T → Prop where
  | other {a : Action} {sys : System} (moved : Receiver.step p.sys a = some sys)
      (recv : (∃ data, a = .dgram data) ∨ a = .recv ∨ a = .dequeue) :
      Turn cb ops p a { p with sys := sys }
  | unhanded {j : Job} {sys : System} (inHand : p.sys.inHand = some j)
      (moved : Receiver.step p.sys .process = some sys) (short : frameOf p.sys j = none) :
      Turn cb ops p .process { p with sys := sys }
  | handed {j : Job} {sys : System} {f : RtpFrame} (inHand : p.sys.inHand = some j)
      (settled : p.toRelease = []) (moved : Receiver.step p.sys .process = some sys)
      (made : frameOf p.sys j = some f) :
      Turn cb ops p .process ⟨sys, p.handler.pullData cb ops (rtpReceiveHook p.sys f),
        newlyReleased p.handler.trace
          (p.handler.pullData cb ops (rtpReceiveHook p.sys f)).trace⟩
  | release {i : Nat} {rest : List Nat} (next : p.toRelease = i :: rest) :
      Turn cb ops p (.release i) { p with sys := releaseSlab p.sys i, toRelease := rest }

theorem step_cases {a : Action} (moved : p.step cb ops a = some q) : Turn cb ops p a q := by
  cases a with
  | dgram data =>
    obtain ⟨sys, inner, rfl⟩ := Option.map_eq_some_iff.mp moved
    exact .other inner (Or.inl ⟨data, rfl⟩)
  | recv =>
    obtain ⟨sys, inner, rfl⟩ := Option.map_eq_some_iff.mp moved
    exact .other inner (Or.inr (Or.inl rfl))
  | dequeue =>
    simp only [step] at moved
    split at moved
    · obtain ⟨sys, inner, rfl⟩ := Option.map_eq_some_iff.mp moved
      exact .other inner (Or.inr (Or.inr rfl))
    · cases moved
  | process =>
    simp only [step, process] at moved
    split at moved
    next settled =>
      split at moved
      next j sys inHand inner =>
        split at moved
        next short =>
          cases moved
          exact .unhanded inHand inner short
        next f made =>
          cases moved
          exact .handed inHand settled inner made
      · cases moved
    · cases moved
  | release i =>
    simp only [step] at moved
    split at moved
    · cases moved
    next next rest queued =>
      split at moved
      next same =>
        subst same
        cases moved
        exact .release queued
      · cases moved

theorem Turn.sys {a : Action} (turn : Turn cb ops p a q) : Receiver.step p.sys a = some q.sys := by
  cases turn with
  | other moved _ | unhanded _ moved _ | handed _ _ moved _ => exact moved
  | release next => rfl

end Pipeline

/-! ### Slabs of the hook -/

/-- The slabs that the hook was given and has not released. -/
def ownedIdx (s : System) : List Nat := s.owned.map fun j => j.slabIdx.val

theorem OwnInv.nodup_ownedIdx (inv : OwnInv s) : (ownedIdx s).Nodup := by
  have indices : (s.owned.map Job.slabIdx).Nodup := (List.nodup_append.mp inv.exclusive).1
  have values : ownedIdx s = (s.owned.map Job.slabIdx).map Fin.val := by
    rw [ownedIdx, List.map_map]
    rfl
  rw [values]
  exact indices.map Fin.val_injective

/-- A slab of the hook is flagged and is not the one that the recv thread is about to write. -/
theorem OwnInv.spared (inv : OwnInv s) {i : Fin kRingSize} (owned : i.val ∈ ownedIdx s) :
    (s.ring i).inWorker = true ∧ ∀ e, s.pc = .store e → ringIndex e.seq ≠ i := by
  obtain ⟨j, mine, index⟩ := List.mem_map.mp owned
  have busy : i ∈ busyIdx s := by
    rw [← Fin.ext index]
    exact List.mem_append_left _ (List.mem_map_of_mem mine)
  constructor
  · by_cases dispatch : InDispatch s i
    · exact inv.taken i dispatch
    · exact (inv.flag i dispatch).mpr busy
  · rintro e here rfl
    exact inv.store e here busy

/-- What a move does, those of the recv thread within `handle_dgram` apart. -/
inductive Moved (s : System) : Action → System → Prop where
  | dgram {data : List UInt8} (started : Bool) (nextSeq : BitVec 16) {pc : Pc} (waiting : s.pc = .idle)
      (taken : pc = .idle ∨ ∃ e, pc = .advance e) :
      Moved s (.dgram data) { s with started := started, nextSeq := nextSeq, pc := pc }
  | recv {t : System} (moved : recvStep s = some t) : Moved s .recv t
  | dequeue {j : Job} {q : SpscQueue Job kJobQueueSize} (free : s.inHand = none)
      (taken : s.jobQueue.dequeue = some (j, q)) : Moved s .dequeue { s with jobQueue := q, inHand := some j }
  | handed {j : Job} (inHand : s.inHand = some j) (payload : j.hdrLen.toNat ≤ j.len) :
      Moved s .process { s with inHand := none, handed := s.handed ++ [j], owned := j :: s.owned }
  | short {j : Job} (inHand : s.inHand = some j) (short : ¬ j.hdrLen.toNat ≤ j.len) :
      Moved s .process { s.modifySlot j.slabIdx (fun slot => { slot with inWorker := false }) with inHand := none }
  | release {i : Nat} (bound : i < kRingSize) :
      Moved s (.release i) { s.modifySlot ⟨i, bound⟩ (fun slot => { slot with inWorker := false }) with
        owned := s.owned.filter fun j => j.slabIdx.val ≠ i }
  | ignored {i : Nat} : Moved s (.release i) s

theorem step_moved {a : Action} (moved : step s a = some t) : Moved s a t := by
  cases a with
  | dgram data =>
    simp only [step] at moved
    split at moved
    next ready =>
      cases moved
      unfold handleDgram
      split
      · exact .dgram s.started s.nextSeq ready.1 (Or.inl ready.1)
      next d _ =>
        dsimp only
        split <;> split
        · exact .dgram s.started s.nextSeq ready.1 (Or.inl ready.1)
        · exact .dgram s.started s.nextSeq ready.1 (Or.inr ⟨d, rfl⟩)
        · exact .dgram true d.seq ready.1 (Or.inl ready.1)
        · exact .dgram true d.seq ready.1 (Or.inr ⟨d, rfl⟩)
    · cases moved
  | recv => exact .recv moved
  | dequeue =>
    simp only [step, dequeueJob] at moved
    split at moved <;> cases moved
    next free taken => exact .dequeue free taken
  | process =>
    simp only [step, processJob] at moved
    split at moved
    · cases moved
    next j inHand =>
      split at moved <;> cases moved
      next payload => exact .handed inHand payload
      next short => exact .short inHand short
  | release i =>
    cases moved
    unfold releaseSlab
    split
    next bound => exact .release bound
    · exact .ignored

/-- What the recv thread and `dequeue_job` leave to the hook. -/
structure Beside (s t : System) : Prop where
  owned : t.owned = s.owned
  handed : t.handed = s.handed
  stored : ∀ x ∈ s.stored, x ∈ t.stored

theorem beside_of_recv (moved : recvStep s = some t) : Beside s t := by
  cases recvStep_cases moved with
  | advance d here =>
    unfold advanceStep
    dsimp only
    repeat' split
    all_goals exact ⟨rfl, rfl, fun _ member => member⟩
  | enqueue k j here =>
    unfold enqueueJob
    split <;> exact ⟨rfl, rfl, fun _ member => member⟩
  | giveBack _ _ _ | clear _ _ _ => exact ⟨rfl, rfl, fun _ member => member⟩
  | store d here => exact ⟨rfl, rfl, fun _ member => List.mem_cons_of_mem _ member⟩
  | drain here =>
    unfold drainStep
    split <;> exact ⟨rfl, rfl, fun _ member => member⟩

theorem beside_of_other {a : Action} (moved : step s a = some t)
    (recv : (∃ data, a = .dgram data) ∨ a = .recv ∨ a = .dequeue) : Beside s t := by
  have way := step_moved moved
  rcases recv with ⟨data, rfl⟩ | rfl | rfl
  · cases way
    exact ⟨rfl, rfl, fun _ member => member⟩
  · exact beside_of_recv moved
  · cases way
    exact ⟨rfl, rfl, fun _ member => member⟩

theorem QueueInv.inHand_payload (queue : QueueInv s) {j : Job}
    (inHand : s.inHand = some j) : j.hdrLen.toNat ≤ j.len := by
  have member : j ∈ s.enqueued := by
    rw [queue.history, inHand]
    simp
  exact queue.payload j member

theorem process_eq {j : Job} {f : RtpFrame} (inHand : s.inHand = some j)
    (made : frameOf s j = some f) (moved : step s .process = some t) :
    t = { s with inHand := none, handed := s.handed ++ [j], owned := j :: s.owned } := by
  have payload : j.hdrLen.toNat ≤ j.len := by
    by_contra short
    rw [frameOf, if_neg short] at made
    cases made
  simp only [step, processJob, inHand, if_pos payload, Option.some.injEq] at moved
  exact moved.symm

theorem releaseSlab_frame (s : System) (i : Nat) :
    (releaseSlab s i).jobQueue = s.jobQueue ∧ (releaseSlab s i).inHand = s.inHand ∧
      (releaseSlab s i).handed = s.handed ∧ (releaseSlab s i).enqueued = s.enqueued := by
  unfold releaseSlab
  split <;> exact ⟨rfl, rfl, rfl, rfl⟩

theorem ownedIdx_releaseSlab (distinct : (ownedIdx s).Nodup) {i : Nat}
    (member : i ∈ ownedIdx s) : ownedIdx (releaseSlab s i) = (ownedIdx s).erase i := by
  obtain ⟨j, _, rfl⟩ := List.mem_map.mp member
  have owned : (releaseSlab s j.slabIdx.val).owned =
      s.owned.filter fun k => k.slabIdx.val ≠ j.slabIdx.val := by
    unfold releaseSlab
    rw [dif_pos j.slabIdx.isLt]
  rw [distinct.erase_eq_filter, ownedIdx, owned, ownedIdx, List.filter_map]
  congr 1
  apply List.filter_congr
  intro k _
  simp [bne, beq_eq_decide]

theorem length_owned_releaseSlab (distinct : (ownedIdx s).Nodup) {i : Nat}
    (member : i ∈ ownedIdx s) : (releaseSlab s i).owned.length + 1 = s.owned.length := by
  have erased := congrArg List.length (ownedIdx_releaseSlab distinct member)
  have positive := List.length_pos_of_mem member
  rw [List.length_erase_of_mem member] at erased
  simp only [ownedIdx, List.length_map] at erased positive
  omega

theorem frameOf_slabIdx {j : Job} {f : RtpFrame} (made : frameOf s j = some f) : f.slabIdx = j.slabIdx := by
  unfold frameOf at made
  dsimp only at made
  split at made
  · cases made
    rfl
  · cases made

/-! ### Who holds the slabs -/

namespace Pipeline

variable {T : Type} {cb : Callbacks} {ops : TileOps T} {tileHndr : T} {relatchK d : Nat}
variable {p q : Pipeline T}

/-- The receiver has moved within its rules, and the slabs that the hook owns are those that the
frame handler holds and those that it is about to give back. -/
structure Owning (d : Nat) (p : Pipeline T) : Prop where
  reachable : Reachable HookOk d p.sys
  accounted : ∃ seen kept, Frame.Ledger.Accounted seen kept p.handler.ledger
  owned : (ownedIdx p.sys).Perm (p.handler.heldSlabs ++ p.toRelease)
  capped : p.handler.heldSlabs.length ≤ 3072
  -- A call that finds the handler at its cap has one slab more to deal with.
  bounded : p.handler.heldSlabs.length + p.toRelease.length ≤ 3073

theorem Owning.frameOf_ne_none (low : 1 ≤ d) (high : d ≤ kRingSize) (owning : Owning d p) {j : Job}
    (inHand : p.sys.inHand = some j) : frameOf p.sys j ≠ none := by
  obtain ⟨_, queue⟩ := reachable_queueInv low high owning.reachable
  rw [frameOf, if_pos (queue.inHand_payload inHand)]
  exact Option.some_ne_none _

theorem owning_start (d : Nat) : Owning d (⟨init d, FrameHandler.new tileHndr relatchK, []⟩ : Pipeline T) where
  reachable := .start
  accounted := ⟨[], [], List.nil_sublist _, rfl, rfl, rfl, List.Perm.refl _⟩
  owned := List.Perm.refl _
  capped := Nat.zero_le _
  bounded := Nat.zero_le _

variable (cb ops) in
/-- One call of `pull_data`: what was held before and the new slab are given back or held after. -/
theorem pullData_held (set : cb.releaseSlab = true) {h : FrameHandler T} {seen kept : List Packet}
    (accounted : Frame.Ledger.Accounted seen kept h.ledger) (packet : Packet) :
    (∃ kept', Frame.Ledger.Accounted (seen ++ [packet]) kept' (h.pullData cb ops packet).ledger) ∧
    (packet.slabIdx :: h.heldSlabs).Perm ((h.pullData cb ops packet).heldSlabs ++
      newlyReleased h.trace (h.pullData cb ops packet).trace) ∧
    (h.pullData cb ops packet).heldSlabs.length ≤ 3072 := by
  obtain ⟨o, moved, _⟩ := FrameHandler.pullData_ledger cb ops packet h
  obtain ⟨⟨kept', after⟩, capped⟩ := Frame.Ledger.pull_slabs set packet o accounted
  have grown : h.trace <:+ (h.pullData cb ops packet).trace := by
    have suffix := Frame.Ledger.suffix_pull cb h.ledger packet o
    rw [← moved] at suffix
    exact suffix
  rw [← moved] at after capped
  refine ⟨⟨kept', after⟩, ?_, capped⟩
  generalize h.pullData cb ops packet = u at after grown
  have before : (seen.map Packet.slabIdx).Perm (released h.trace ++ h.heldSlabs) := accounted.split
  have now : ((seen ++ [packet]).map Packet.slabIdx).Perm (released u.trace ++ u.heldSlabs) :=
    after.split
  rw [released_newly grown, List.map_append, List.map_singleton] at now
  -- What had been released before the call cancels on both sides.
  apply List.perm_iff_count.mpr
  intro i
  have first := before.count_eq i
  have second := now.count_eq i
  simp only [List.count_append, List.count_cons, List.count_nil, List.count_reverse] at first second ⊢
  omega

private theorem owned_release (distinct : (ownedIdx s).Nodup) {i : Nat}
    {held rest : List Nat} (owned : (ownedIdx s).Perm (held ++ i :: rest)) :
    HookOk s (.release i) ∧ (ownedIdx (releaseSlab s i)).Perm (held ++ rest) := by
  have member : i ∈ ownedIdx s := owned.mem_iff.mpr (by simp)
  constructor
  · obtain ⟨j, mine, index⟩ := List.mem_map.mp member
    exact ⟨j, mine, index⟩
  · rw [ownedIdx_releaseSlab distinct member]
    have erased := (owned.trans List.perm_middle).erase i
    rwa [List.erase_cons_head] at erased

theorem Owning.turn (low : 1 ≤ d) (high : d ≤ kRingSize) (set : cb.releaseSlab = true)
    (owning : Owning d p) {a : Action} (turn : Turn cb ops p a q) : Owning d q := by
  have inv := reachable_ownInv low high owning.reachable
  cases turn with
  | other moved recv =>
    have may : HookOk p.sys a := by
      rcases recv with ⟨data, rfl⟩ | rfl | rfl <;> exact trivial
    refine ⟨owning.reachable.next a may moved, owning.accounted, ?_, owning.capped, owning.bounded⟩
    rw [ownedIdx, (beside_of_other moved recv).owned]
    exact owning.owned
  | unhanded inHand moved short => exact absurd short (owning.frameOf_ne_none low high inHand)
  | @handed j sys f inHand settled moved made =>
    obtain ⟨seen, kept, accounted⟩ := owning.accounted
    obtain ⟨⟨kept', after⟩, split, capped⟩ :=
      pullData_held cb ops set accounted (rtpReceiveHook p.sys f)
    have count := split.length_eq
    rw [List.length_cons, List.length_append] at count
    have room := owning.capped
    refine ⟨owning.reachable.next .process trivial moved, ⟨_, kept', after⟩, ?_, capped, by dsimp only; omega⟩
    have index : (rtpReceiveHook p.sys f).slabIdx = j.slabIdx.val := by
      rw [rtpReceiveHook, frameOf_slabIdx made]
    have before := owning.owned
    rw [settled, List.append_nil] at before
    rw [index] at split
    rw [process_eq inHand made moved]
    exact (before.cons j.slabIdx.val).trans split
  | release next =>
    have before := owning.owned
    have bounded := owning.bounded
    rw [next] at before bounded
    rw [List.length_cons] at bounded
    obtain ⟨may, after⟩ := owned_release inv.nodup_ownedIdx before
    exact ⟨owning.reachable.next _ may rfl, owning.accounted, after, owning.capped,
      Nat.le_of_succ_le bounded⟩

theorem Running.owning (low : 1 ≤ d) (high : d ≤ kRingSize) (set : cb.releaseSlab = true)
    (running : Running cb ops tileHndr relatchK d p) : Owning d p := by
  induction running with
  | start => exact owning_start d
  | next a _ moved ih => exact ih.turn low high set (step_cases moved)

theorem Owning.nodup (low : 1 ≤ d) (high : d ≤ kRingSize) (owning : Owning d p) :
    (p.handler.heldSlabs ++ p.toRelease).Nodup :=
  owning.owned.nodup_iff.mp (reachable_ownInv low high owning.reachable).nodup_ownedIdx

/-- In every interleaving of the two threads: the frame handler gives back only slabs that it was
given and has not given back, so the receiver stays within its rules; the hook owns what the
handler holds and what the call in progress has yet to give back, each slab once, never more than
3073 of them, and nothing once the handler holds nothing; and the recv thread writes to none of
the slabs that are held. -/
theorem slabs_shared_out (low : 1 ≤ d) (high : d ≤ kRingSize) (set : cb.releaseSlab = true)
    (running : Running cb ops tileHndr relatchK d p) :
    Reachable HookOk d p.sys ∧
    (ownedIdx p.sys).Perm (p.handler.heldSlabs ++ p.toRelease) ∧
    (p.handler.heldSlabs ++ p.toRelease).Nodup ∧
    p.handler.heldSlabs.length ≤ 3072 ∧ p.sys.owned.length ≤ 3073 ∧
    (p.toRelease = [] → p.handler.heldSlabs = [] → p.sys.owned = []) ∧
    ∀ i : Fin kRingSize, i.val ∈ p.handler.heldSlabs →
      (p.sys.ring i).inWorker = true ∧ ∀ e, p.sys.pc = .store e → ringIndex e.seq ≠ i := by
  have owning := running.owning low high set
  have count : p.sys.owned.length = p.handler.heldSlabs.length + p.toRelease.length := by
    have lengths := owning.owned.length_eq
    rwa [ownedIdx, List.length_map, List.length_append] at lengths
  have bounded := owning.bounded
  refine ⟨owning.reachable, owning.owned, owning.nodup low high, owning.capped, by omega, ?_, ?_⟩
  · intro settled empty
    rw [settled, empty] at count
    exact List.eq_nil_of_length_eq_zero count
  · intro i held
    apply (reachable_ownInv low high owning.reachable).spared
    exact owning.owned.mem_iff.mpr (List.mem_append_left _ held)

/-- A datagram with a piece of a main header, received, queued and given to the hook. -/
def heldRun : List Action := takenRun (0x40 :: List.replicate 7 0) ++ [.process]

theorem slabs_shared_out_heldRun : ∃ p : Pipeline Parser.TileHandler,
    (⟨init 64, FrameHandler.new {} 4, []⟩ : Pipeline _).run {} Frame.tileOps heldRun = some p ∧
    p.handler.heldSlabs = [7] ∧ p.sys.owned.length ≤ 3073 ∧ (p.sys.ring (ringIndex 7)).inWorker = true := by
  have held : ((⟨init 64, FrameHandler.new {} 4, []⟩ : Pipeline _).run {} Frame.tileOps heldRun).map
      (fun p => p.handler.heldSlabs) = some [7] := by
    decide +kernel
  obtain ⟨p, returned, slabs⟩ := Option.map_eq_some_iff.mp held
  have shared := slabs_shared_out (by decide) (by decide) rfl (Running.start.run heldRun returned)
  exact ⟨p, returned, slabs, shared.2.2.2.2.1,
    (shared.2.2.2.2.2.2 (ringIndex 7) (by rw [slabs]; decide)).1⟩

end Pipeline

end RtpDecoder.Receiver
