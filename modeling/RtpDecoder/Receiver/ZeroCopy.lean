import RtpDecoder.Receiver.Pipeline

/-!
# Slab memory behind the chain

The chain of the frame handler points into slabs that the recv thread fills with later packets
once they are free again. The model of the frame handler has the bytes in its chunks instead.
Here the two are brought together: the bytes of a chunk are in its slab for as long as the chunk
is in the chain, and the handler inside the pipeline does what a handler does that is called with
the datagrams themselves, one after the other.
-/

namespace RtpDecoder.Frame

variable {s t : System}

/-! ### What `pull_data` reads of a packet -/

namespace Packet

/-- The packet without the memory behind its last byte. -/
def cut (p : Packet) : Packet := { p with payload := fun i => if i < 8 + p.size then p.payload i else 0 }

variable (p : Packet)

theorem cut_payload {i : Nat} (inside : i < 8 + p.size) : p.cut.payload i = p.payload i := if_pos inside

theorem cut_eq_cut {p q : Packet} (rest : { p with payload := q.payload } = q)
    (bytes : ∀ i < 8 + p.size, p.payload i = q.payload i) : p.cut = q.cut := by
  rw [← rest, cut, cut]
  congr 1
  funext i
  dsimp only
  split
  next inside => exact bytes i inside
  · rfl

@[simp] theorem cut_mh : p.cut.mh = p.mh := by rw [mh, p.cut_payload (by omega), mh]

@[simp] theorem cut_ordb : p.cut.ordb = p.ordb := by rw [ordb, p.cut_payload (by omega), ordb]

@[simp] theorem cut_posPid : p.cut.posPid = p.posPid := by
  rw [posPid, p.cut_payload (by omega), p.cut_payload (by omega), p.cut_payload (by omega),
    p.cut_payload (by omega), posPid]

@[simp] theorem cut_j2kBytes : p.cut.j2kBytes = p.j2kBytes := by
  apply List.map_congr_left
  intro i member
  exact p.cut_payload (Nat.add_lt_add_left (List.mem_range.mp member) 8)

@[simp] theorem cut_chunk : p.cut.chunk = p.chunk := by rw [chunk, cut_j2kBytes]; rfl

end Packet

namespace FrameHandler

variable {T : Type} (cb : Callbacks) (ops : TileOps T) (s : FrameHandler T) (p : Packet)

theorem pullData_cut : s.pullData cb ops p.cut = s.pullData cb ops p := by
  have gap (u : FrameHandler T) : u.onGap cb p.cut = u.onGap cb p := rfl
  have skip (u : FrameHandler T) : u.skipBody cb ops p.cut = u.skipBody cb ops p := rfl
  have append (u : FrameHandler T) (main : Bool) : u.appendPacket cb main p.cut = u.appendPacket cb main p := by
    simp only [appendPacket, Packet.cut_chunk]
    rfl
  have offer (u : FrameHandler T) (at_ : BitVec 32) : u.offerPoint cb ops p.cut at_ = u.offerPoint cb ops p at_ := by
    simp only [offerPoint, Packet.pid, Packet.cut_posPid]
    rfl
  have body (u : FrameHandler T) : u.bodyPacket cb ops p.cut = u.bodyPacket cb ops p := by
    simp only [bodyPacket, append, offer, Packet.pos, Packet.cut_posPid, Packet.cut_ordb]
  have main (u : FrameHandler T) : u.mainPacket cb ops p.cut = u.mainPacket cb ops p := by
    simp only [mainPacket, append, Packet.cut_mh, Packet.cut_j2kBytes]
    rfl
  simp only [pullData, gap, skips, Packet.cut_mh, skip, body, main]
  rfl

theorem run_cut (packets packets' : List Packet) (alike : packets.map Packet.cut = packets'.map Packet.cut) :
    s.run cb ops packets = s.run cb ops packets' := by
  have cuts (packets : List Packet) (s : FrameHandler T) :
      s.run cb ops (packets.map Packet.cut) = s.run cb ops packets := by
    simp only [run, List.foldl_map, pullData_cut]
  rw [← cuts packets, alike, cuts]

end FrameHandler

namespace Ledger

variable (cb : Callbacks) (p : Packet) (L : Ledger)

/-- A call adds the packet's chunk to the chain, or none, and may empty it. -/
theorem chunks_pull (o : Outcome) : ∀ c ∈ (L.pull cb p o).chunks, c ∈ L.chunks ∨ c = p.chunk := by
  -- Neither the gap nor the cap takes anything in.
  have before : ∀ c ∈ ((L.gap cb p).cap cb).chunks, c ∈ L.chunks := by
    have gap : (L.gap cb p).chunks = L.chunks := by
      unfold gap
      split
      · dsimp only
        split <;> rfl
      · rfl
    intro c member
    unfold cap at member
    split at member
    · cases member
    · exact gap ▸ member
  intro c member
  unfold pull at member
  generalize (L.gap cb p).cap cb = M at before member
  dsimp only at member
  split at member
  · have skipped : (M.skip cb p).chunks = M.chunks ∨ (M.skip cb p).chunks = [] := by
      unfold skip
      dsimp only
      split
      · exact Or.inr rfl
      · exact Or.inl rfl
    rcases skipped with same | empty
    · exact Or.inl (before c (same ▸ member))
    · rw [empty] at member
      cases member
  · split at member
    · have added : (M.body cb p o.point o.failed).chunks = M.chunks ++ [p.chunk] := by
        unfold body
        cases o.point <;> dsimp only <;> split <;> rfl
      split at member
      · cases member
      · rw [added] at member
        exact (List.mem_append.mp member).imp (before c) List.mem_singleton.mp
    · have added : (M.main cb p o.main).chunks = (M.missed cb).chunks ++ [p.chunk] := by
        unfold main
        cases o.main with
        | tracked relatch => cases relatch <;> rfl
        | rejected => rfl
        | collected more => rfl
      split at member
      · cases member
      · rw [added] at member
        rcases List.mem_append.mp member with old | new
        · left
          unfold missed at old
          split at old
          · exact before c old
          · cases old
        · exact Or.inr (List.mem_singleton.mp new)

end Ledger

end RtpDecoder.Frame

namespace RtpDecoder.Receiver

open RtpDecoder.Frame (FrameHandler Callbacks TileOps Packet)
open RtpDecoder.Parser (Chunk)
open SeqNum

/-! ### The packet of a datagram -/

/-- What `pull_data` would be called with if the datagram stayed where it is. -/
def Dgram.packet (e : Dgram) : Packet where
  payload i := e.data.getD (e.hdr + i) 0
  size := e.effectiveLen - e.hdr - 8
  marker := (e.data.getD 1 0).toNat.testBit 7
  slabIdx := (ringIndex e.seq).val

/-- The datagram has room for the eight bytes of the payload header. -/
def Dgram.Roomy (e : Dgram) : Prop := e.hdr + 8 ≤ e.effectiveLen

instance (e : Dgram) : Decidable e.Roomy := inferInstanceAs (Decidable (_ ≤ _))

/-- The bytes that go to the chain: the datagram without its header, the payload header and the
padding. -/
theorem j2kBytes_packet {e : Dgram} (parsed : parseDgram e.data = some e) :
    e.packet.j2kBytes = (e.data.take e.effectiveLen).drop (e.hdr + 8) := by
  obtain ⟨_, _, _, padded, _⟩ := parseDgram_bounds parsed
  apply List.ext_getElem
  · simp only [Packet.j2kBytes, Dgram.packet, List.length_map, List.length_range, List.length_drop,
      List.length_take]
    omega
  · intro i first second
    simp only [List.length_drop, List.length_take] at second
    have inside : e.hdr + (8 + i) < e.data.length := by omega
    simp only [Packet.j2kBytes, Dgram.packet, List.getElem_map, List.getElem_range,
      List.getElem_drop, List.getElem_take, List.getD_eq_getElem _ _ inside, Nat.add_assoc]

/-- The hook's packet is that of the datagram, as far as `pull_data` reads it. -/
theorem rtpReceiveHook_cut {j : Job} {e : Dgram} {f : RtpFrame}
    (carries : Carries s j e) (parsed : parseDgram e.data = some e)
    (index : j.slabIdx = ringIndex e.seq) (room : e.Roomy) (made : frameOf s j = some f) :
    (rtpReceiveHook s f).cut = e.packet.cut := by
  obtain ⟨_, least, _, padded, fits⟩ := parseDgram_bounds parsed
  have hdrLen : j.hdrLen.toNat = e.hdr := by
    rw [carries.hdrLen]
    exact parseDgram_hdr_narrow parsed
  have len := carries.len
  unfold Dgram.Roomy at room
  have byte {k : Nat} (inside : k < e.effectiveLen) :
      slabByte s (slabAddress j.slabIdx + k) = e.data.getD k 0 := by
    rw [slabByte_slot s j.slabIdx (Nat.lt_of_lt_of_le inside fits)]
    exact getD_of_take carries.bytes inside
  simp only [frameOf, hdrLen, len] at made
  rw [if_pos (Nat.le_of_add_right_le room)] at made
  cases made
  have small : e.effectiveLen ≤ 9216 := fits
  -- `payload_len - 8` does not wrap around.
  have size : (e.effectiveLen - e.hdr + 2 ^ 64 - 8) % 2 ^ 64 = e.effectiveLen - e.hdr - 8 := by
    rw [show e.effectiveLen - e.hdr + 2 ^ 64 - 8 = e.effectiveLen - e.hdr - 8 + 2 ^ 64 by omega,
      Nat.add_mod_right]
    exact Nat.mod_eq_of_lt (by omega)
  apply Packet.cut_eq_cut
  · simp only [rtpReceiveHook, Dgram.packet, size]
    rw [byte (by omega), index]
  · intro i inside
    simp only [rtpReceiveHook, size] at inside
    have within : e.hdr + i < e.effectiveLen := by omega
    simp only [rtpReceiveHook, Dgram.packet]
    rw [Nat.add_assoc, byte within]

/-! ### The jobs and their datagrams -/

/-- A job is made at the slot of its sequence number. -/
theorem reachable_placed {allowed : System → Action → Prop} {d : Nat} (low : 1 ≤ d)
    (high : d ≤ kRingSize) (reach : Reachable allowed d s) :
    ∀ j ∈ s.enqueued, j.slabIdx = ringIndex j.seq := by
  induction reach with
  | start => simp [init]
  | @next s t a before may moved ih =>
    have ring := reachable_ringInv low high before
    cases step_moved moved with
    | recv moved =>
      cases recvStep_cases moved with
      | advance d here =>
        have same : (advanceStep s d).enqueued = s.enqueued := by
          unfold advanceStep
          dsimp only
          repeat' split
          all_goals rfl
        rwa [same]
      | enqueue k j here =>
        have ok := ring.pcOk
        simp only [PcOk, here] at ok
        obtain ⟨_, ⟨place, _, head⟩, _, seq, _, _⟩ := ok
        unfold enqueueJob
        split
        · exact ih
        · intro i member
          rcases List.mem_append.mp member with old | new
          · exact ih i old
          · rw [List.mem_singleton.mp new, seq, head]
            exact place
      | drain here =>
        unfold drainStep
        split <;> exact ih
      | _ => exact ih
    | _ => exact ih

/-- The job in the worker's hand carries a parsed datagram, whose packet `pull_data` is called
with. -/
theorem packet_of_inHand {d : Nat} (low : 1 ≤ d) (high : d ≤ kRingSize)
    (reach : Reachable HookOk d s) {j : Job} {f : RtpFrame} (inHand : s.inHand = some j)
    (made : frameOf s j = some f) (room : ∀ x ∈ s.stored, x.2.Roomy) :
    ∃ e, (j.num, e) ∈ s.stored ∧ parseDgram e.data = some e ∧
      (rtpReceiveHook s f).cut = e.packet.cut := by
  obtain ⟨ring, queue⟩ := reachable_queueInv low high reach
  have underway : j ∈ s.owned ++ underway s :=
    List.mem_append_right _ (List.mem_append_left _ (by simp [inHand]))
  obtain ⟨e, carries⟩ := (reachable_ownInv low high reach).content j underway
  have parsed := ring.parsed _ _ carries.stored
  have member : j ∈ s.enqueued := by
    rw [queue.history, inHand]
    simp
  have index : j.slabIdx = ringIndex e.seq := by
    rw [reachable_placed low high reach j member, carries.seq]
  exact ⟨e, carries.stored, parsed,
    rtpReceiveHook_cut carries parsed index (room _ carries.stored) made⟩

namespace Pipeline

variable {T : Type} {cb : Callbacks} {ops : TileOps T} {tileHndr : T} {relatchK d : Nat}
variable {p q : Pipeline T}

theorem Turn.stored {a : Action} (turn : Turn cb ops p a q) : ∀ x ∈ p.sys.stored, x ∈ q.sys.stored := by
  have same (worker : a = .dequeue ∨ a = .process ∨ ∃ i, a = .release i) :
      ∀ x ∈ p.sys.stored, x ∈ q.sys.stored := by
    rw [(sameRecv_of_other turn.sys worker).1.stored]
    exact fun _ member => member
  cases turn with
  | other moved recv => exact (beside_of_other moved recv).stored
  | unhanded _ _ _ | handed _ _ _ _ => exact same (Or.inr (Or.inl rfl))
  | release next => exact same (Or.inr (Or.inr ⟨_, rfl⟩))

/-! ### One datagram after the other -/

/-- The frame handler is where calls with these datagrams, in this order, bring a new one, and
they are the datagrams of the jobs that the hook was given. -/
structure Replays (cb : Callbacks) (ops : TileOps T) (tileHndr : T) (relatchK : Nat) (p : Pipeline T)
    (dgrams : List Dgram) : Prop where
  stored : List.Forall₂ (fun (j : Job) e => (j.num, e) ∈ p.sys.stored) p.sys.handed dgrams
  handler : p.handler = (FrameHandler.new tileHndr relatchK).run cb ops (dgrams.map Dgram.packet)

theorem Replays.of_same {dgrams : List Dgram} (replays : Replays cb ops tileHndr relatchK p dgrams)
    (handed : q.sys.handed = p.sys.handed) (stored : ∀ x ∈ p.sys.stored, x ∈ q.sys.stored)
    (handler : q.handler = p.handler) : Replays cb ops tileHndr relatchK q dgrams where
  stored := by
    rw [handed]
    exact replays.stored.imp fun _ _ member => stored _ member
  handler := by rw [handler, replays.handler]

theorem Replays.turn (low : 1 ≤ d) (high : d ≤ kRingSize) (owning : Owning d p) {dgrams : List Dgram}
    (replays : Replays cb ops tileHndr relatchK p dgrams) {a : Action} (turn : Turn cb ops p a q)
    (room : ∀ x ∈ p.sys.stored, x.2.Roomy) :
    ∃ dgrams', Replays cb ops tileHndr relatchK q dgrams' := by
  have stored := turn.stored
  cases turn with
  | other moved recv =>
    exact ⟨dgrams, replays.of_same (beside_of_other moved recv).handed stored rfl⟩
  | unhanded inHand moved short => exact absurd short (owning.frameOf_ne_none low high inHand)
  | @handed j sys f inHand settled moved made =>
    obtain ⟨e, member, _, alike⟩ := packet_of_inHand low high owning.reachable inHand made room
    refine ⟨dgrams ++ [e], ?_, ?_⟩
    · have handed : sys.handed = p.sys.handed ++ [j] := by rw [process_eq inHand made moved]
      have before := replays.stored.imp fun _ _ old => stored _ old
      dsimp only
      rw [handed]
      exact List.rel_append before (List.Forall₂.cons (stored _ member) List.Forall₂.nil)
    · dsimp only
      rw [← p.handler.pullData_cut, alike, FrameHandler.pullData_cut, replays.handler, List.map_append]
      simp only [FrameHandler.run, List.foldl_append, List.map_cons, List.map_nil, List.foldl_cons,
        List.foldl_nil]
  | @release i rest next =>
    exact ⟨dgrams, replays.of_same (releaseSlab_frame p.sys i).2.2.1 stored rfl⟩

theorem Running.replays (low : 1 ≤ d) (high : d ≤ kRingSize) (set : cb.releaseSlab = true)
    (running : Running cb ops tileHndr relatchK d p) (room : ∀ x ∈ p.sys.stored, x.2.Roomy) :
    ∃ dgrams, Replays cb ops tileHndr relatchK p dgrams := by
  induction running with
  | start => exact ⟨[], List.Forall₂.nil, rfl⟩
  | next a before moved ih =>
    have turn := step_cases moved
    have earlier := fun x member => room x (turn.stored x member)
    obtain ⟨dgrams, replays⟩ := ih earlier
    exact replays.turn low high (before.owning low high set) turn earlier

/-- The two threads do what one does that gets the datagrams in a list: the frame handler is
always where a run over the datagrams of the jobs handed on, in the order of their numbers, brings
it, whatever the recv thread has stored in the meantime. -/
theorem pipeline_replays (low : 1 ≤ d) (high : d ≤ kRingSize) (set : cb.releaseSlab = true)
    (running : Running cb ops tileHndr relatchK d p) (room : ∀ x ∈ p.sys.stored, x.2.Roomy) :
    ∃ dgrams : List Dgram,
      List.Forall₂ (fun (j : Job) e => (j.num, e) ∈ p.sys.stored) p.sys.handed dgrams ∧
      p.sys.handed.Pairwise (fun i j => i.num < j.num) ∧
      p.handler = (FrameHandler.new tileHndr relatchK).run cb ops (dgrams.map Dgram.packet) := by
  obtain ⟨dgrams, replays⟩ := running.replays low high set room
  obtain ⟨_, queue⟩ := reachable_queueInv low high (running.owning low high set).reachable
  have handed : p.sys.handed <+: p.sys.enqueued := by
    rw [queue.history]
    exact List.prefix_append _ _
  exact ⟨dgrams, replays.stored, queue.ordered.sublist handed.sublist, replays.handler⟩

/-- A piece of a main header is given to the hook, and the next datagram comes in. -/
def pieceRun : List Action :=
  takenRun [0x40, 0, 0, 0, 0, 0, 0, 0, 1, 2, 3] ++
    [.process, .dgram (barePacket 0 8 ++ [0, 0, 0, 0, 0, 0, 0, 0, 4]), .recv, .recv, .recv]

private theorem pieceRun_returns : ∃ p : Pipeline Parser.TileHandler,
    (⟨init 64, FrameHandler.new {} 4, []⟩ : Pipeline _).run {} Frame.tileOps pieceRun = some p ∧
    p.handler.cs.chunks = [⟨7, [1, 2, 3]⟩] ∧ p.sys.handed.length = 1 ∧
    ∀ x ∈ p.sys.stored, x.2.Roomy := by
  have facts : ((⟨init 64, FrameHandler.new {} 4, []⟩ : Pipeline _).run {} Frame.tileOps pieceRun).map
      (fun p => (p.handler.cs.chunks, p.sys.handed.length,
        decide (∀ x ∈ p.sys.stored, x.2.Roomy))) = some ([⟨7, [1, 2, 3]⟩], 1, true) := by
    decide +kernel
  obtain ⟨p, returned, read⟩ := Option.map_eq_some_iff.mp facts
  simp only [Prod.mk.injEq, decide_eq_true_eq] at read
  exact ⟨p, returned, read⟩

theorem pipeline_replays_pieceRun : ∃ (p : Pipeline Parser.TileHandler) (dgrams : List Dgram),
    (⟨init 64, FrameHandler.new {} 4, []⟩ : Pipeline _).run {} Frame.tileOps pieceRun = some p ∧
    dgrams.length = 1 ∧
    p.handler = (FrameHandler.new {} 4).run {} Frame.tileOps (dgrams.map Dgram.packet) := by
  obtain ⟨p, returned, _, one, room⟩ := pieceRun_returns
  obtain ⟨dgrams, stored, _, handler⟩ :=
    pipeline_replays (by decide) (by decide) rfl (Running.start.run pieceRun returned) room
  exact ⟨p, dgrams, returned, stored.length_eq.symm.trans one, handler⟩

/-! ### The chain and the slabs -/

/-- A chunk has the bytes of a datagram that was stored for a job of the hook, in its slab. -/
def FromOwned (s : System) (c : Chunk) : Prop :=
  ∃ j ∈ s.owned, ∃ e, (j.num, e) ∈ s.stored ∧ c.slab = j.slabIdx.val ∧ c.bytes = e.packet.j2kBytes

theorem FromOwned.mono {c : Chunk} (from_ : FromOwned s c)
    (owned : ∀ j ∈ s.owned, j.slabIdx.val = c.slab → j ∈ t.owned)
    (stored : ∀ x ∈ s.stored, x ∈ t.stored) : FromOwned t c := by
  obtain ⟨j, mine, e, member, slab, bytes⟩ := from_
  exact ⟨j, owned j mine slab.symm, e, stored _ member, slab, bytes⟩

theorem Owning.chunks_slab (owning : Owning d p) : p.handler.cs.chunks.map Chunk.slab = p.handler.heldSlabs := by
  obtain ⟨seen, kept, accounted⟩ := owning.accounted
  have chunks : p.handler.cs.chunks = kept.map Packet.chunk := accounted.chunks
  have held : p.handler.heldSlabs = kept.map Packet.slabIdx := accounted.held
  rw [chunks, held, List.map_map]
  rfl

theorem fromOwned_turn (low : 1 ≤ d) (high : d ≤ kRingSize) (owning : Owning d p)
    (room : ∀ x ∈ p.sys.stored, x.2.Roomy)
    (before : ∀ c ∈ p.handler.cs.chunks, FromOwned p.sys c) {a : Action} (turn : Turn cb ops p a q) :
    ∀ c ∈ q.handler.cs.chunks, FromOwned q.sys c := by
  have stored := turn.stored
  cases turn with
  | other moved recv =>
    intro c member
    apply (before c member).mono _ stored
    intro j mine _
    rw [(beside_of_other moved recv).owned]
    exact mine
  | unhanded inHand moved short => exact absurd short (owning.frameOf_ne_none low high inHand)
  | @handed j sys f inHand settled moved made =>
    obtain ⟨e, member, _, alike⟩ := packet_of_inHand low high owning.reachable inHand made room
    have same := process_eq inHand made moved
    have index : (rtpReceiveHook p.sys f).slabIdx = j.slabIdx.val := by
      rw [rtpReceiveHook, frameOf_slabIdx made]
    have bytes : (rtpReceiveHook p.sys f).j2kBytes = e.packet.j2kBytes := by
      rw [← Packet.cut_j2kBytes, alike, Packet.cut_j2kBytes]
    have chunk : (rtpReceiveHook p.sys f).chunk = { slab := j.slabIdx.val, bytes := e.packet.j2kBytes } := by
      rw [Packet.chunk, index, bytes]
    intro c inChain
    obtain ⟨o, ledger, _⟩ := FrameHandler.pullData_ledger cb ops (rtpReceiveHook p.sys f) p.handler
    have chunks : c ∈ (p.handler.ledger.pull cb (rtpReceiveHook p.sys f) o).chunks := by
      rw [← ledger]
      exact inChain
    rcases Frame.Ledger.chunks_pull cb _ _ o c chunks with old | new
    · apply (before c old).mono _ stored
      intro i mine _
      rw [same]
      exact List.mem_cons_of_mem _ mine
    · rw [new, chunk]
      refine ⟨j, ?_, e, stored _ member, rfl, rfl⟩
      rw [same]
      exact List.mem_cons_self
  | @release i rest next =>
    intro c member
    apply (before c member).mono _ stored
    intro j mine slab
    -- The slab of a chunk is held, and no held slab is on the list of those to be released.
    have held : c.slab ∈ p.handler.heldSlabs := by
      rw [← owning.chunks_slab]
      exact List.mem_map_of_mem member
    have distinct := owning.nodup low high
    rw [next] at distinct
    have apart : j.slabIdx.val ≠ i := by
      rw [slab]
      exact (List.nodup_append.mp distinct).2.2 _ held i List.mem_cons_self
    unfold releaseSlab
    split
    · exact List.mem_filter.mpr ⟨mine, decide_eq_true apart⟩
    · exact mine

theorem Running.fromOwned (low : 1 ≤ d) (high : d ≤ kRingSize) (set : cb.releaseSlab = true)
    (running : Running cb ops tileHndr relatchK d p) (room : ∀ x ∈ p.sys.stored, x.2.Roomy) :
    ∀ c ∈ p.handler.cs.chunks, FromOwned p.sys c := by
  induction running with
  | start => simp [FrameHandler.new]
  | next a before moved ih =>
    have turn := step_cases moved
    have earlier := fun x member => room x (turn.stored x member)
    exact fromOwned_turn low high (before.owning low high set) earlier (ih earlier) turn

/-- The chain can be read out of the slab memory at any time: each chunk stands in the slab of a
job that the hook owns, behind the headers of the datagram that was stored for that job, and has
exactly its bytes up to the padding. -/
theorem chain_in_slabs (low : 1 ≤ d) (high : d ≤ kRingSize) (set : cb.releaseSlab = true)
    (running : Running cb ops tileHndr relatchK d p) (room : ∀ x ∈ p.sys.stored, x.2.Roomy) :
    ∀ c ∈ p.handler.cs.chunks, ∃ j ∈ p.sys.owned, ∃ e, (j.num, e) ∈ p.sys.stored ∧
      c.slab = j.slabIdx.val ∧ c.bytes = (e.data.take e.effectiveLen).drop (e.hdr + 8) ∧
      ∀ k < c.bytes.length,
        slabByte p.sys (slabAddress j.slabIdx + (e.hdr + 8 + k)) = c.bytes.getD k 0 := by
  intro c member
  have reach := (running.owning low high set).reachable
  have ring := reachable_ringInv low high reach
  obtain ⟨j, mine, e, stored, slab, bytes⟩ := running.fromOwned low high set room c member
  have parsed := ring.parsed _ _ stored
  obtain ⟨_, _, _, padded, fits⟩ := parseDgram_bounds parsed
  -- There is one datagram for the job's number, and its bytes are in the slab.
  obtain ⟨e', carries⟩ := (reachable_ownInv low high reach).content j (List.mem_append_left _ mine)
  have one : e' = e := by
    have pair := List.inj_on_of_nodup_map ring.unique carries.stored stored rfl
    exact congrArg Prod.snd pair
  subst one
  have body := bytes.trans (j2kBytes_packet parsed)
  refine ⟨j, mine, e', stored, slab, body, ?_⟩
  intro k inside
  rw [body, List.length_drop, List.length_take] at inside
  have within : e'.hdr + 8 + k < e'.effectiveLen := by omega
  rw [slabByte_slot p.sys j.slabIdx (Nat.lt_of_lt_of_le within fits),
    getD_of_take carries.bytes within, body]
  simp [List.getD, List.getElem?_drop, within]

theorem chain_in_slabs_pieceRun : ∃ (p : Pipeline Parser.TileHandler) (j : Job) (e : Dgram),
    (⟨init 64, FrameHandler.new {} 4, []⟩ : Pipeline _).run {} Frame.tileOps pieceRun = some p ∧
    j ∈ p.sys.owned ∧ (j.num, e) ∈ p.sys.stored ∧
    slabByte p.sys (slabAddress j.slabIdx + (e.hdr + 8 + 2)) = 3 := by
  obtain ⟨p, returned, chunks, _, room⟩ := pieceRun_returns
  obtain ⟨j, mine, e, stored, _, _, bytes⟩ := chain_in_slabs (by decide) (by decide) rfl
    (Running.start.run pieceRun returned) room ⟨7, [1, 2, 3]⟩ (by rw [chunks]; exact List.mem_cons_self)
  exact ⟨p, j, e, returned, mine, stored, bytes 2 (by decide)⟩

end Pipeline

end RtpDecoder.Receiver
