import RtpDecoder.Receiver.System

/-!
# The window of the reorder ring

The invariant of the recv thread's own state: which slots are filled, with what,
and what the program counter remembers. The other two parties only touch
`in_worker`, so it is enough to follow the recv thread.
-/

namespace RtpDecoder.Receiver

open SeqNum

variable {d : Dgram}

variable {s t : System}

def filledCount (ring : Fin kRingSize → Slot) : Nat :=
  (Finset.univ.filter fun i => (ring i).filled = true).card

/-- The sequence number the head started from. -/
def firstSeq (s : System) : BitVec 16 := s.nextSeq - BitVec.ofNat 16 s.advances

/-- Slot `i` keeps the datagram `d`, bytes included. -/
def Keeps (s : System) (i : Fin kRingSize) (d : Dgram) : Prop :=
  (s.ring i).seq = d.seq ∧ (s.ring i).hdrLen = BitVec.ofNat 16 d.hdr ∧
    (s.ring i).len = d.effectiveLen ∧
    (s.slab i).take d.effectiveLen = d.data.take d.effectiveLen

/-- Slot `i` is the filled slot the head waits for. -/
def AtHead (s : System) (i : Fin kRingSize) : Prop :=
  i = ringIndex s.nextSeq ∧ (s.ring i).filled = true ∧ (s.ring i).seq = s.nextSeq

/-- A `dispatch` from the force-advance loop belongs to a datagram beyond the window. -/
def CallerOk (s : System) : Caller → Prop
  | .advance d => parseDgram d.data = some d ∧ s.jitterDepth ≤ ahead d.seq s.nextSeq ∧
      2 * ahead d.seq s.nextSeq < 2 ^ 16
  | .drain => True

def PcOk (s : System) : Prop :=
  match s.pc with
  | .idle => True
  | .drain => True
  | .advance d => parseDgram d.data = some d ∧ 2 * ahead d.seq s.nextSeq < 2 ^ 16
  | .enqueue k j => CallerOk s k ∧ AtHead s j.slabIdx ∧ j.len = (s.ring j.slabIdx).len ∧
      j.seq = (s.ring j.slabIdx).seq ∧ j.hdrLen = (s.ring j.slabIdx).hdrLen ∧ j.num = s.advances
  | .giveBack k i => CallerOk s k ∧ AtHead s i
  | .clear k i => CallerOk s k ∧ AtHead s i
  | .store d => parseDgram d.data = some d ∧ ahead d.seq s.nextSeq < s.jitterDepth ∧
      (s.ring (ringIndex d.seq)).filled = false

structure RingInv (s : System) : Prop where
  depth_pos : 1 ≤ s.jitterDepth
  depth_le : s.jitterDepth ≤ kRingSize
  -- Nothing happens before the first datagram has placed the head.
  unstarted : s.started = false → s.pc = .idle ∧ s.advances = 0 ∧ ∀ i, (s.ring i).filled = false
  window : ∀ i, (s.ring i).filled = true →
    ahead (s.ring i).seq s.nextSeq < s.jitterDepth ∧ ringIndex (s.ring i).seq = i
  pending : s.pending = filledCount s.ring
  pcOk : PcOk s
  notAliased : s.aliased = false
  kept : ∀ i, (s.ring i).filled = true →
    ∃ d, (s.advances + ahead (s.ring i).seq s.nextSeq, d) ∈ s.stored ∧ Keeps s i d
  unique : (s.stored.map Prod.fst).Nodup
  -- A stored number is behind the head or still sits in its slot.
  future : ∀ n d, (n, d) ∈ s.stored → n < s.advances ∨
    ((s.ring (ringIndex d.seq)).filled = true ∧ (s.ring (ringIndex d.seq)).seq = d.seq ∧
      n = s.advances + ahead d.seq s.nextSeq)
  parsed : ∀ n d, (n, d) ∈ s.stored → parseDgram d.data = some d
  numbered : ∀ n d, (n, d) ∈ s.stored → d.seq = firstSeq s + BitVec.ofNat 16 n

/-! ### Arithmetic of the depth -/

private theorem toInt_depth {d : Nat} (bound : d ≤ kRingSize) : (BitVec.ofNat 16 d).toInt = d := by
  simp only [kRingSize] at bound
  rw [BitVec.toInt_eq_toNat_cond, BitVec.toNat_ofNat, Nat.mod_eq_of_lt (by omega), if_pos (by omega)]

private theorem depth_le_iff (inv : RingInv s)
    (near : 2 * ahead d.seq s.nextSeq < 2 ^ 16) :
    (BitVec.ofNat 16 s.jitterDepth).toInt ≤ (d.seq - s.nextSeq).toInt ↔
      s.jitterDepth ≤ ahead d.seq s.nextSeq := by
  rw [toInt_depth inv.depth_le, toInt_sub_of_lt near]
  exact Int.ofNat_le

private theorem seq_eq_of_index (inv : RingInv s) {a b : BitVec 16}
    (first : ahead a s.nextSeq < s.jitterDepth) (second : ahead b s.nextSeq < s.jitterDepth)
    (same : ringIndex a = ringIndex b) : a = b := by
  have depth := inv.depth_le
  simp only [kRingSize] at depth
  have residues := congrArg Fin.val same
  rw [ringIndex_val, ringIndex_val] at residues
  exact eq_of_window (v := 14) (by omega) (b := s.nextSeq) (by omega) (by omega) residues

/-! ### Counting filled slots -/

private theorem filledCount_fill {ring : Fin kRingSize → Slot} {i : Fin kRingSize} {slot : Slot}
    (before : (ring i).filled = false) (after : slot.filled = true) :
    filledCount (Function.update ring i slot) = filledCount ring + 1 := by
  unfold filledCount
  have added : (Finset.univ.filter fun k => (Function.update ring i slot k).filled = true) =
      insert i (Finset.univ.filter fun k => (ring k).filled = true) := by
    ext k
    by_cases equal : k = i
    · subst equal
      simp [after]
    · simp [equal]
  rw [added, Finset.card_insert_of_notMem (by simp [before])]

private theorem filledCount_empty {ring : Fin kRingSize → Slot} {i : Fin kRingSize} {slot : Slot}
    (before : (ring i).filled = true) (after : slot.filled = false) :
    filledCount (Function.update ring i slot) + 1 = filledCount ring := by
  have restored : Function.update (Function.update ring i slot) i (ring i) = ring := by simp
  have refilled := @filledCount_fill (Function.update ring i slot) i (ring i)
    (by simpa using after) before
  rw [restored] at refilled
  exact refilled.symm

/-! ### Moves of the other parties -/

/-- Two states agree on what the recv thread keeps, its program counter apart. -/
structure SameRecv (s t : System) : Prop where
  jitterDepth : t.jitterDepth = s.jitterDepth
  started : t.started = s.started
  nextSeq : t.nextSeq = s.nextSeq
  pending : t.pending = s.pending
  advances : t.advances = s.advances
  stored : t.stored = s.stored
  aliased : t.aliased = s.aliased
  slab : t.slab = s.slab
  slots : ∀ i, (t.ring i).filled = (s.ring i).filled ∧ (t.ring i).seq = (s.ring i).seq ∧
    (t.ring i).len = (s.ring i).len ∧ (t.ring i).hdrLen = (s.ring i).hdrLen

theorem sameRecv_setInWorker (s : System) (i : Fin kRingSize) (b : Bool) :
    SameRecv s (s.modifySlot i fun slot => { slot with inWorker := b }) := by
  refine ⟨rfl, rfl, rfl, rfl, rfl, rfl, rfl, rfl, ?_⟩
  intro k
  by_cases equal : k = i
  · subst equal
    simp [System.modifySlot]
  · simp [System.modifySlot, Function.update_of_ne equal]

/-- Fields that `SameRecv` does not look at may change in any way. -/
theorem sameRecv_rest {lost busy full : Nat} {queue : SpscQueue Job kJobQueueSize}
    {pc : Pc} {hand : Option Job} {enqueued handed owned : List Job} :
    SameRecv s { s with
      netLostPackets := lost, slotBusyDrops := busy, queueFullDrops := full, jobQueue := queue,
      pc := pc, inHand := hand, enqueued := enqueued, handed := handed, owned := owned } :=
  ⟨rfl, rfl, rfl, rfl, rfl, rfl, rfl, rfl, fun _ => ⟨rfl, rfl, rfl, rfl⟩⟩

private theorem SameRecv.filledCount (same : SameRecv s t) : filledCount t.ring = filledCount s.ring := by
  simp only [Receiver.filledCount, (same.slots _).1]

theorem SameRecv.atHead (same : SameRecv s t) (i : Fin kRingSize) : AtHead t i ↔ AtHead s i := by
  simp only [AtHead, same.nextSeq, (same.slots i).1, (same.slots i).2.1]

theorem SameRecv.callerOk (same : SameRecv s t) (k : Caller) : CallerOk t k ↔ CallerOk s k := by
  cases k <;> simp only [CallerOk, same.jitterDepth, same.nextSeq]

theorem SameRecv.pcOk (same : SameRecv s t) (pc : t.pc = s.pc) (ok : PcOk s) : PcOk t := by
  unfold PcOk at *
  rw [pc]
  -- What a counter demands is about the fields that the two states share.
  cases counter : s.pc with
  | idle => trivial
  | drain => trivial
  | advance d => simpa only [counter, same.nextSeq] using ok
  | enqueue k j =>
    obtain ⟨_, seq, len, hdr⟩ := same.slots j.slabIdx
    simpa only [counter, same.callerOk, same.atHead, seq, len, hdr, same.advances] using ok
  | giveBack _ _ | clear _ _ => simpa only [counter, same.callerOk, same.atHead] using ok
  | store d => simpa only [counter, same.nextSeq, same.jitterDepth, (same.slots _).1] using ok

/-- The ring invariant does not see `in_worker`, the job queue or the history of jobs. -/
theorem RingInv.of_sameRecv (inv : RingInv s) (same : SameRecv s t)
    (live : s.started = false → t.pc = .idle) (ok : PcOk t) : RingInv t where
  depth_pos := by rw [same.jitterDepth]; exact inv.depth_pos
  depth_le := by rw [same.jitterDepth]; exact inv.depth_le
  unstarted := by
    simp only [same.started, same.advances, (same.slots _).1]
    exact fun off => ⟨live off, (inv.unstarted off).2⟩
  window := by
    intro i filled
    obtain ⟨full, seq, _, _⟩ := same.slots i
    rw [seq, same.nextSeq, same.jitterDepth]
    exact inv.window i (full ▸ filled)
  pending := by rw [same.pending, same.filledCount]; exact inv.pending
  pcOk := ok
  notAliased := by rw [same.aliased]; exact inv.notAliased
  kept := by
    intro i filled
    obtain ⟨full, seq, len, hdr⟩ := same.slots i
    simp only [Keeps, seq, len, hdr, same.nextSeq, same.advances, same.stored, same.slab]
    exact inv.kept i (full ▸ filled)
  unique := by rw [same.stored]; exact inv.unique
  future := by
    simp only [same.stored, same.advances, same.nextSeq, (same.slots _).1, (same.slots _).2.1]
    exact inv.future
  parsed := by rw [same.stored]; exact inv.parsed
  numbered := by
    simp only [same.stored, firstSeq, same.nextSeq, same.advances]
    exact inv.numbered

theorem pending_of_atHead (ring : RingInv s) {i : Fin kRingSize} (head : AtHead s i) : 0 < s.pending := by
  rw [ring.pending]
  exact Finset.card_pos.mpr ⟨i, Finset.mem_filter.mpr ⟨Finset.mem_univ i, head.2.1⟩⟩

theorem RingInv.started_of_busy (inv : RingInv s) (busy : s.pc ≠ .idle) : s.started = true := by
  by_contra off
  exact busy (inv.unstarted (by simpa using off)).1

/-! ### Moves of the recv thread that keep the ring -/

theorem headReady_iff (s : System) : headReady s = true ↔ AtHead s (ringIndex s.nextSeq) := by
  simp [headReady, AtHead]

private theorem beginDispatch_inv (inv : RingInv s) (busy : s.pc ≠ .idle)
    {k : Caller} (caller : CallerOk s k) (ready : headReady s = true) :
    RingInv (beginDispatch s k (ringIndex s.nextSeq)) := by
  have same : SameRecv s (beginDispatch s k (ringIndex s.nextSeq)) := by
    obtain ⟨h1, h2, h3, h4, h5, h6, h7, h8, slots⟩ :=
      sameRecv_setInWorker s (ringIndex s.nextSeq) true
    exact ⟨h1, h2, h3, h4, h5, h6, h7, h8, slots⟩
  apply inv.of_sameRecv same
  · intro off
    exact absurd (inv.unstarted off).1 busy
  · have head := (headReady_iff s).mp ready
    obtain ⟨_, seq, len, hdr⟩ := same.slots (ringIndex s.nextSeq)
    refine ⟨(same.callerOk k).mpr caller, (same.atHead _).mpr head, ?_, ?_, ?_, rfl⟩
    · exact len.symm
    · exact seq.symm
    · exact hdr.symm

private theorem enqueueJob_inv (inv : RingInv s) {k : Caller} {j : Job}
    (here : s.pc = .enqueue k j) : RingInv (enqueueJob s k j) := by
  have ok := inv.pcOk
  have live := inv.started_of_busy (by simp [here])
  simp only [PcOk, here] at ok
  unfold enqueueJob
  split
  · exact inv.of_sameRecv sameRecv_rest
      (by simp [live]) ⟨ok.1, ok.2.1⟩
  · exact inv.of_sameRecv sameRecv_rest
      (by simp [live]) ⟨ok.1, ok.2.1⟩

private theorem giveBack_inv (inv : RingInv s) {k : Caller} {i : Fin kRingSize}
    (here : s.pc = .giveBack k i) : RingInv (giveBack s k i) := by
  have ok := inv.pcOk
  have live := inv.started_of_busy (by simp [here])
  simp only [PcOk, here] at ok
  have same : SameRecv s (giveBack s k i) := by
    obtain ⟨h1, h2, h3, h4, h5, h6, h7, h8, slots⟩ := sameRecv_setInWorker s i false
    exact ⟨h1, h2, h3, h4, h5, h6, h7, h8, slots⟩
  exact inv.of_sameRecv same (by simp [live])
    ⟨(same.callerOk k).mpr ok.1, (same.atHead i).mpr ok.2⟩

/-! ### Moving the head -/

/-- `t` is `s` after `++next_seq_`, with the slot of the old head emptied. -/
structure HeadMoved (s t : System) : Prop where
  jitterDepth : t.jitterDepth = s.jitterDepth
  started : t.started = s.started
  nextSeq : t.nextSeq = s.nextSeq + 1
  advances : t.advances = s.advances + 1
  stored : t.stored = s.stored
  aliased : t.aliased = s.aliased
  slab : t.slab = s.slab
  filled : ∀ i, (t.ring i).filled = true ↔
    (s.ring i).filled = true ∧ (s.ring i).seq ≠ s.nextSeq
  same : ∀ i, (t.ring i).filled = true → (t.ring i).seq = (s.ring i).seq ∧
    (t.ring i).len = (s.ring i).len ∧ (t.ring i).hdrLen = (s.ring i).hdrLen

theorem firstSeq_succ (next : BitVec 16) (n : Nat) :
    next + 1 - BitVec.ofNat 16 (n + 1) = next - BitVec.ofNat 16 n := by
  rw [BitVec.ofNat_add]
  exact add_sub_add_right_eq_sub next (BitVec.ofNat 16 n) 1

private theorem RingInv.of_headMoved (inv : RingInv s) (moved : HeadMoved s t)
    (live : s.started = true) (count : t.pending = filledCount t.ring) (ok : PcOk t) :
    RingInv t where
  depth_pos := by rw [moved.jitterDepth]; exact inv.depth_pos
  depth_le := by rw [moved.jitterDepth]; exact inv.depth_le
  unstarted := by simp [moved.started, live]
  window := by
    intro i filled
    obtain ⟨old, apart⟩ := (moved.filled i).mp filled
    obtain ⟨near, index⟩ := inv.window i old
    have closer := ahead_succ apart
    rw [(moved.same i filled).1, moved.nextSeq, moved.jitterDepth]
    exact ⟨by omega, index⟩
  pending := count
  pcOk := ok
  notAliased := by rw [moved.aliased]; exact inv.notAliased
  kept := by
    intro i filled
    obtain ⟨old, apart⟩ := (moved.filled i).mp filled
    obtain ⟨d, member, keeps⟩ := inv.kept i old
    obtain ⟨seq, len, hdr⟩ := moved.same i filled
    have closer := ahead_succ apart
    refine ⟨d, ?_, ?_⟩
    · rw [seq, moved.nextSeq, moved.advances, moved.stored]
      have number : s.advances + 1 + ahead (s.ring i).seq (s.nextSeq + 1) =
          s.advances + ahead (s.ring i).seq s.nextSeq := by omega
      rw [number]
      exact member
    · simpa only [Keeps, seq, len, hdr, moved.slab] using keeps
  unique := by rw [moved.stored]; exact inv.unique
  future := by
    intro n d member
    rw [moved.stored] at member
    rw [moved.advances, moved.nextSeq]
    rcases inv.future n d member with past | ⟨filled, seq, number⟩
    · exact Or.inl (by omega)
    · -- Of the numbers that sit in a slot, the head's own falls behind.
      by_cases head : d.seq = s.nextSeq
      · left
        rw [head, ahead_self] at number
        omega
      · right
        have still := (moved.filled (ringIndex d.seq)).mpr ⟨filled, by rw [seq]; exact head⟩
        have closer := ahead_succ head
        refine ⟨still, ?_, by omega⟩
        rw [(moved.same _ still).1]
        exact seq
  parsed := by rw [moved.stored]; exact inv.parsed
  numbered := by
    simp only [moved.stored, firstSeq, moved.nextSeq, moved.advances, firstSeq_succ]
    exact inv.numbered

/-- A number beyond the window comes one closer when the head moves. -/
theorem RingInv.closer (inv : RingInv s) {seq : BitVec 16}
    (beyond : s.jitterDepth ≤ ahead seq s.nextSeq) :
    ahead seq (s.nextSeq + 1) + 1 = ahead seq s.nextSeq := by
  have positive := inv.depth_pos
  apply ahead_succ
  intro equal
  rw [equal, ahead_self] at beyond
  omega

private theorem clearHead_inv (inv : RingInv s) {k : Caller} {i : Fin kRingSize}
    (here : s.pc = .clear k i) : RingInv (clearHead s k i) := by
  have ok := inv.pcOk
  have live := inv.started_of_busy (by simp [here])
  simp only [PcOk, here] at ok
  obtain ⟨caller, index, full, seq⟩ := ok
  -- No second slot waits for the number of the head.
  have other (m : Fin kRingSize) (apart : m ≠ i) (filled : (s.ring m).filled = true) :
      (s.ring m).seq ≠ s.nextSeq := by
    intro equal
    apply apart
    rw [index, ← (inv.window m filled).2, equal]
  have moved : HeadMoved s (clearHead s k i) := by
    refine ⟨rfl, rfl, rfl, rfl, rfl, rfl, rfl, ?_, ?_⟩
    · intro m
      by_cases equal : m = i
      · subst equal
        simp [clearHead, System.modifySlot, seq]
      · simpa [clearHead, System.modifySlot, equal] using other m equal
    · intro m filled
      by_cases equal : m = i
      · subst equal
        simp [clearHead, System.modifySlot] at filled
      · simp [clearHead, System.modifySlot, equal]
  apply inv.of_headMoved moved live
  · have fewer := @filledCount_empty s.ring i { s.ring i with filled := false, len := 0 } full rfl
    have count := inv.pending
    change s.pending - 1 =
      filledCount (Function.update s.ring i { s.ring i with filled := false, len := 0 })
    omega
  · cases k with
    | drain => trivial
    | advance d =>
      obtain ⟨parsed, beyond, near⟩ := caller
      have closer := inv.closer beyond
      exact ⟨parsed, by simp only [clearHead]; omega⟩

/-! ### The slot checks and the copy -/

/-- What the turn at `advance` can be: the head is dispatched or given up while the datagram
lies beyond the window; inside the window it is a duplicate, finds its slot busy, or is about
to be stored. No two numbers of the window share a slot, so the alias branch is dead. -/
inductive AdvanceTurn (s : System) (d : Dgram) : System → Prop where
  | dispatched (beyond : s.jitterDepth ≤ ahead d.seq s.nextSeq) (ready : headReady s = true) :
    AdvanceTurn s d (beginDispatch s (.advance d) (ringIndex s.nextSeq))
  | givenUp (beyond : s.jitterDepth ≤ ahead d.seq s.nextSeq) (missing : headReady s = false) :
    AdvanceTurn s d { s with
      netLostPackets := s.netLostPackets + 1
      nextSeq := s.nextSeq + 1
      advances := s.advances + 1 }
  | duplicate (inside : ahead d.seq s.nextSeq < s.jitterDepth)
    (filled : (s.ring (ringIndex d.seq)).filled = true) (same : (s.ring (ringIndex d.seq)).seq = d.seq) :
    AdvanceTurn s d { s with pc := .idle }
  | busy (inside : ahead d.seq s.nextSeq < s.jitterDepth)
    (free : (s.ring (ringIndex d.seq)).filled = false)
    (inWorker : (s.ring (ringIndex d.seq)).inWorker = true) :
    AdvanceTurn s d { s with slotBusyDrops := s.slotBusyDrops + 1, pc := .idle }
  | accepted (inside : ahead d.seq s.nextSeq < s.jitterDepth)
    (free : (s.ring (ringIndex d.seq)).filled = false)
    (unused : (s.ring (ringIndex d.seq)).inWorker = false) :
    AdvanceTurn s d { s with pc := .store d }

theorem advanceStep_cases (inv : RingInv s) (here : s.pc = .advance d) : AdvanceTurn s d (advanceStep s d) := by
  have ok := inv.pcOk
  simp only [PcOk, here] at ok
  obtain ⟨_, near⟩ := ok
  simp only [advanceStep]
  by_cases beyond : s.jitterDepth ≤ ahead d.seq s.nextSeq
  · rw [if_pos ((depth_le_iff inv near).mpr beyond)]
    cases ready : headReady s with
    | true => exact .dispatched beyond ready
    | false => exact .givenUp beyond ready
  · rw [if_neg (mt (depth_le_iff inv near).mp beyond)]
    have inside : ahead d.seq s.nextSeq < s.jitterDepth := Nat.lt_of_not_le beyond
    cases filled : (s.ring (ringIndex d.seq)).filled with
    | true =>
      obtain ⟨close, index⟩ := inv.window _ filled
      have same := seq_eq_of_index inv close inside index
      rw [if_pos rfl, if_pos same]
      exact .duplicate inside filled same
    | false =>
      cases inWorker : (s.ring (ringIndex d.seq)).inWorker with
      | true => exact .busy inside filled inWorker
      | false => exact .accepted inside filled inWorker

private theorem advanceStep_inv (inv : RingInv s) (here : s.pc = .advance d) : RingInv (advanceStep s d) := by
  have ok := inv.pcOk
  have live := inv.started_of_busy (by simp [here])
  simp only [PcOk, here] at ok
  obtain ⟨parsed, near⟩ := ok
  have turn := advanceStep_cases inv here
  generalize advanceStep s d = t at turn ⊢
  cases turn with
  | dispatched beyond ready => exact beginDispatch_inv inv (by simp [here]) ⟨parsed, beyond, near⟩ ready
  | givenUp beyond missing =>
    -- The head's packet never came: the head moves over an empty slot.
    have none_at_head (i : Fin kRingSize) (filled : (s.ring i).filled = true) :
        (s.ring i).seq ≠ s.nextSeq := by
      intro equal
      have index : i = ringIndex s.nextSeq := by rw [← (inv.window i filled).2, equal]
      subst index
      rw [(headReady_iff s).mpr ⟨rfl, filled, equal⟩] at missing
      cases missing
    apply inv.of_headMoved _ live
    · exact inv.pending
    · have closer := inv.closer beyond
      simp only [PcOk, here]
      exact ⟨parsed, by omega⟩
    · refine ⟨rfl, rfl, rfl, rfl, rfl, rfl, rfl, ?_, fun _ _ => ⟨rfl, rfl, rfl⟩⟩
      intro i
      exact ⟨fun filled => ⟨filled, none_at_head i filled⟩, fun both => both.1⟩
  | duplicate _ _ _ | busy _ _ _ => exact inv.of_sameRecv sameRecv_rest (fun _ => rfl) trivial
  | accepted inside free _ => exact inv.of_sameRecv sameRecv_rest (by simp [live]) ⟨parsed, inside, free⟩

private theorem storeDgram_keeps (bound : d.effectiveLen ≤ d.data.length) :
    Keeps (storeDgram s d) (ringIndex d.seq) d := by
  refine ⟨?_, ?_, ?_, ?_⟩
  · simp [storeDgram]
  · simp [storeDgram]
  · simp [storeDgram]
  · have whole : (d.data.take d.effectiveLen).length = d.effectiveLen := by simp [bound]
    simp only [storeDgram, Function.update_self]
    rw [List.take_append_of_le_length (Nat.le_of_eq whole.symm), List.take_take, Nat.min_self]

private theorem storeDgram_ring_of_ne {i : Fin kRingSize}
    (ne : i ≠ ringIndex d.seq) : (storeDgram s d).ring i = s.ring i := by
  simp [storeDgram, ne]

private theorem storeDgram_slab_of_ne {i : Fin kRingSize}
    (ne : i ≠ ringIndex d.seq) : (storeDgram s d).slab i = s.slab i := by
  simp [storeDgram, ne]

/-- A stored number of the window belongs to a filled slot, so a number whose slot is free has
not been stored. -/
private theorem not_stored_of_free (inv : RingInv s)
    (free : (s.ring (ringIndex d.seq)).filled = false) :
    s.advances + ahead d.seq s.nextSeq ∉ s.stored.map Prod.fst := by
  intro twice
  obtain ⟨⟨n, e⟩, member, equal⟩ := List.mem_map.mp twice
  simp only at equal
  rcases inv.future n e member with past | ⟨filled, _, number⟩
  · omega
  · have same : e.seq = d.seq := ahead_injective (b := s.nextSeq) (by omega)
    rw [same, free] at filled
    cases filled

private theorem storeDgram_inv (inv : RingInv s) (here : s.pc = .store d) : RingInv (storeDgram s d) := by
  have ok := inv.pcOk
  have live := inv.started_of_busy (by simp [here])
  simp only [PcOk, here] at ok
  obtain ⟨parsed, inside, free⟩ := ok
  have bounds := parseDgram_bounds parsed
  -- The slot was free, so the filled ones are others and stay as they are.
  have apart {i : Fin kRingSize} (filled : (s.ring i).filled = true) : i ≠ ringIndex d.seq := by
    intro equal
    rw [equal, free] at filled
    exact absurd filled (by decide)
  have ring_here : ((storeDgram s d).ring (ringIndex d.seq)).filled = true ∧
      ((storeDgram s d).ring (ringIndex d.seq)).seq = d.seq := by simp [storeDgram]
  have old_filled {i : Fin kRingSize} (ne : i ≠ ringIndex d.seq)
      (filled : ((storeDgram s d).ring i).filled = true) : (s.ring i).filled = true := by
    rwa [storeDgram_ring_of_ne ne] at filled
  refine ⟨inv.depth_pos, inv.depth_le, by simp [storeDgram, live], ?_, ?_, trivial,
    inv.notAliased, ?_, ?_, ?_, ?_, ?_⟩
  · intro i filled
    by_cases equal : i = ringIndex d.seq
    · subst equal
      rw [ring_here.2]
      exact ⟨inside, rfl⟩
    · rw [storeDgram_ring_of_ne equal]
      exact inv.window i (old_filled equal filled)
  · change s.pending + 1 = filledCount (Function.update s.ring (ringIndex d.seq) _)
    rw [filledCount_fill free rfl, inv.pending]
  · intro i filled
    by_cases equal : i = ringIndex d.seq
    · subst equal
      refine ⟨d, ?_, storeDgram_keeps (by omega)⟩
      rw [ring_here.2]
      exact List.mem_cons_self
    · obtain ⟨e, member, keeps⟩ := inv.kept i (old_filled equal filled)
      refine ⟨e, ?_, ?_⟩
      · rw [storeDgram_ring_of_ne equal]
        exact List.mem_cons_of_mem _ member
      · simpa only [Keeps, storeDgram_ring_of_ne equal, storeDgram_slab_of_ne equal] using keeps
  · simp only [storeDgram, List.map_cons, List.nodup_cons]
    exact ⟨not_stored_of_free inv free, inv.unique⟩
  · intro n e member
    rcases List.mem_cons.mp member with new | old
    · obtain ⟨rfl, rfl⟩ := Prod.mk.inj new
      exact Or.inr ⟨ring_here.1, ring_here.2, rfl⟩
    · rcases inv.future n e old with past | ⟨filled, seq, number⟩
      · exact Or.inl past
      · right
        rw [storeDgram_ring_of_ne (apart filled)]
        exact ⟨filled, seq, number⟩
  · intro n e member
    rcases List.mem_cons.mp member with new | old
    · obtain ⟨_, rfl⟩ := Prod.mk.inj new
      exact parsed
    · exact inv.parsed n e old
  · intro n e member
    rcases List.mem_cons.mp member with new | old
    -- The number counts from the first datagram, which is `advances` behind the head.
    · obtain ⟨rfl, rfl⟩ := Prod.mk.inj new
      simp only [storeDgram, firstSeq, BitVec.ofNat_add]
      rw [← BitVec.add_assoc, BitVec.sub_add_cancel, add_ahead]
    · exact inv.numbered n e old

private theorem drainStep_inv (inv : RingInv s) (here : s.pc = .drain) : RingInv (drainStep s) := by
  unfold drainStep
  split
  next ready => exact beginDispatch_inv inv (by simp [here]) trivial ready.2
  · exact inv.of_sameRecv sameRecv_rest
      (fun _ => rfl) trivial

/-! ### A new datagram -/

private theorem RingInv.place (inv : RingInv s) (off : s.started = false)
    (seq : BitVec 16) : RingInv { s with started := true, nextSeq := seq } := by
  obtain ⟨idle, zero, empty⟩ := inv.unstarted off
  -- No slot is filled and no number stored, so most fields are about nothing.
  have never {i : Fin kRingSize} {P : Prop} (filled : (s.ring i).filled = true) : P := by
    rw [empty i] at filled
    exact absurd filled (by decide)
  have none_stored {n : Nat} {d : Dgram} {P : Prop} (member : (n, d) ∈ s.stored) : P := by
    rcases inv.future n d member with past | ⟨filled, _⟩
    · rw [zero] at past
      exact absurd past (Nat.not_lt_zero n)
    · exact never filled
  refine ⟨inv.depth_pos, inv.depth_le, by simp, fun i filled => never filled, inv.pending, ?_,
    inv.notAliased, fun i filled => never filled, inv.unique, fun n d member => none_stored member,
    inv.parsed, fun n d member => none_stored member⟩
  simp only [PcOk, idle]

private theorem handleDgram_inv (inv : RingInv s) (data : List UInt8) : RingInv (handleDgram s data) := by
  unfold handleDgram
  split
  · exact inv
  next d parsed =>
    have data_eq := (parseDgram_bounds parsed).1
    -- The rest only uses that the head is placed.
    suffices placed : ∀ s' : System, RingInv s' → s'.started = true →
        RingInv (if (d.seq - s'.nextSeq).toInt < 0 then s' else { s' with pc := .advance d }) by
      apply placed
      · split
        · exact inv
        next off => exact inv.place (by simpa using off) d.seq
      · split
        next on => exact on
        · rfl
    intro s' inv' live
    split
    · exact inv'
    next near =>
      refine inv'.of_sameRecv
        sameRecv_rest (by simp [live]) ?_
      refine ⟨by rw [data_eq]; exact parsed, ?_⟩
      rw [toInt_sub_neg_iff] at near
      exact Nat.lt_of_not_le near

/-! ### Whole runs -/

theorem ringInv_init {d : Nat} (low : 1 ≤ d) (high : d ≤ kRingSize) : RingInv (init d) where
  depth_pos := low
  depth_le := high
  unstarted := fun _ => ⟨rfl, rfl, fun _ => rfl⟩
  window := fun _ filled => absurd filled (by simp [init])
  pending := by simp [init, filledCount]
  pcOk := trivial
  notAliased := rfl
  kept := fun _ filled => absurd filled (by simp [init])
  unique := List.nodup_nil
  future := fun _ _ member => absurd member (by simp [init])
  parsed := fun _ _ member => absurd member (by simp [init])
  numbered := fun _ _ member => absurd member (by simp [init])

private theorem recvStep_inv (inv : RingInv s) (moved : recvStep s = some t) : RingInv t := by
  cases recvStep_cases moved with
  | advance d here => exact advanceStep_inv inv here
  | enqueue k j here => exact enqueueJob_inv inv here
  | giveBack k i here => exact giveBack_inv inv here
  | clear k i here => exact clearHead_inv inv here
  | store d here => exact storeDgram_inv inv here
  | drain here => exact drainStep_inv inv here

theorem sameRecv_of_other {a : Action} (moved : step s a = some t)
    (worker : a = .dequeue ∨ a = .process ∨ ∃ i, a = .release i) :
    SameRecv s t ∧ t.pc = s.pc := by
  have release (i : Fin kRingSize) := sameRecv_setInWorker s i false
  rcases worker with rfl | rfl | ⟨i, rfl⟩
  · simp only [step, dequeueJob] at moved
    split at moved
    · cases moved
      exact ⟨sameRecv_rest, rfl⟩
    · cases moved
  · simp only [step, processJob] at moved
    split at moved
    · cases moved
    next j _ =>
      split at moved <;> cases moved
      · exact ⟨sameRecv_rest, rfl⟩
      · exact ⟨⟨rfl, rfl, rfl, rfl, rfl, rfl, rfl, rfl, (release j.slabIdx).slots⟩, rfl⟩
  · simp only [step, Option.some.injEq] at moved
    subst moved
    unfold releaseSlab
    split
    next bound => exact ⟨⟨rfl, rfl, rfl, rfl, rfl, rfl, rfl, rfl, (release ⟨i, bound⟩).slots⟩, rfl⟩
    · exact ⟨sameRecv_rest, rfl⟩

theorem step_ringInv {a : Action} (inv : RingInv s) (moved : step s a = some t) : RingInv t := by
  have other (worker : a = .dequeue ∨ a = .process ∨ ∃ i, a = .release i) : RingInv t := by
    obtain ⟨same, pc⟩ := sameRecv_of_other moved worker
    exact inv.of_sameRecv same (fun off => by rw [pc]; exact (inv.unstarted off).1)
      (same.pcOk pc inv.pcOk)
  cases a with
  | dgram data =>
    simp only [step] at moved
    split at moved
    · cases moved
      exact handleDgram_inv inv data
    · cases moved
  | recv => exact recvStep_inv inv moved
  | dequeue | process | release _ => exact other (by simp)

theorem reachable_ringInv {allowed : System → Action → Prop} {d : Nat} (low : 1 ≤ d)
    (high : d ≤ kRingSize) (reach : Reachable allowed d s) : RingInv s :=
  reach.invariant (ringInv_init low high) fun _ _ _ inv _ moved => step_ringInv inv moved

end RtpDecoder.Receiver
