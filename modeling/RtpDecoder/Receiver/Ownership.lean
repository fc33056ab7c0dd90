import RtpDecoder.Receiver.Delivery

/-!
# Who owns a slab

A slab goes from the recv thread to the job queue, to the worker, to the hook and
back through `release_slab`. The flag `in_worker` says which side it is on; the
invariant below ties it to the jobs that are underway, and with it the bytes the
hook sees to the one datagram that was stored for the job's number.
-/

namespace RtpDecoder.Receiver

open SeqNum

variable {s t : System} {i : Fin kRingSize}

/-- The jobs that `enqueue_job` accepted and the hook has not seen: those in the queue, and
the one the worker carries from `dequeue_job` to `process_job`. -/
def underway (s : System) : List Job := s.inHand.toList ++ s.jobQueue.contents

/-- The slabs on the worker's side: queued, or given to the hook and not released. -/
def busyIdx (s : System) : List (Fin kRingSize) :=
  s.owned.map Job.slabIdx ++ (underway s).map Job.slabIdx

/-- The recv thread is inside `dispatch` for slot `i`, with the slab's owner undecided. -/
def InDispatch (s : System) (i : Fin kRingSize) : Prop :=
  match s.pc with
  | .enqueue _ j => j.slabIdx = i
  | .giveBack _ k => k = i
  | _ => False

/-- The hook's owner releases only slabs it was given and has not released yet. -/
def HookOk (s : System) : Action → Prop
  | .release i => ∃ j ∈ s.owned, j.slabIdx.val = i
  | _ => True

instance (s : System) (a : Action) : Decidable (HookOk s a) :=
  match a with
  | .release i => inferInstanceAs (Decidable (∃ j ∈ s.owned, j.slabIdx.val = i))
  | .dgram _ | .recv | .dequeue | .process => isTrue trivial

/-- What the job says and the bytes in its slab are those of the datagram `d`. -/
structure Carries (s : System) (j : Job) (d : Dgram) : Prop where
  stored : (j.num, d) ∈ s.stored
  seq : j.seq = d.seq
  hdrLen : j.hdrLen = BitVec.ofNat 16 d.hdr
  len : j.len = d.effectiveLen
  bytes : (s.slab j.slabIdx).take d.effectiveLen = d.data.take d.effectiveLen

/-- A job still carries its datagram when more is stored and its own slab is not written. -/
private theorem Carries.of_slab {j : Job} {d : Dgram} (carries : Carries s j d)
    (stored : ∀ x ∈ s.stored, x ∈ t.stored) (slab : t.slab j.slabIdx = s.slab j.slabIdx) :
    Carries t j d where
  stored := stored _ carries.stored
  seq := carries.seq
  hdrLen := carries.hdrLen
  len := carries.len
  bytes := by
    rw [slab]
    exact carries.bytes

/-- A slab is on one side at a time: busy with one job, whose datagram it still has, or free
for the recv thread. -/
structure OwnInv (s : System) : Prop where
  exclusive : (busyIdx s).Nodup
  flag : ∀ i, ¬ InDispatch s i → ((s.ring i).inWorker = true ↔ i ∈ busyIdx s)
  taken : ∀ i, InDispatch s i → (s.ring i).inWorker = true
  -- Only between a successful `enqueue_job` and the clearing of its slot are both true.
  free : ∀ i, (s.ring i).filled = true → (∀ k, s.pc ≠ .clear k i) → i ∉ busyIdx s
  store : ∀ d, s.pc = .store d → ringIndex d.seq ∉ busyIdx s
  content : ∀ j ∈ s.owned ++ underway s, ∃ d, Carries s j d

theorem mem_busyIdx : i ∈ busyIdx s ↔ ∃ j ∈ s.owned ++ underway s, j.slabIdx = i := by
  rw [busyIdx, ← List.map_append]
  exact List.mem_map

private theorem RingInv.atHead_of_dispatch (ring : RingInv s)
    (dispatch : InDispatch s i) : AtHead s i ∧ ∀ k m, s.pc ≠ .clear k m := by
  have ok := ring.pcOk
  unfold InDispatch at dispatch
  unfold PcOk at ok
  split at dispatch
  next k j here =>
    simp only [here] at ok
    exact ⟨dispatch ▸ ok.2.1, by simp [here]⟩
  next k m here =>
    simp only [here] at ok
    exact ⟨dispatch ▸ ok.2, by simp [here]⟩
  · exact dispatch.elim

private theorem OwnInv.dispatch_free (ring : RingInv s) (inv : OwnInv s)
    (dispatch : InDispatch s i) : i ∉ busyIdx s := by
  obtain ⟨⟨_, filled, _⟩, notClear⟩ := ring.atHead_of_dispatch dispatch
  exact inv.free i filled fun k => notClear k i

/-- Moves that touch neither ring nor slab and at most reorder the jobs underway. -/
private theorem OwnInv.of_frame (inv : OwnInv s) (ring : t.ring = s.ring)
    (slab : t.slab = s.slab) (stored : t.stored = s.stored)
    (jobs : (t.owned ++ underway t).Perm (s.owned ++ underway s))
    (dispatch : ∀ i, InDispatch t i ↔ InDispatch s i)
    (clear : ∀ k i, s.pc = .clear k i → t.pc = .clear k i)
    (store : ∀ d, t.pc = .store d → ringIndex d.seq ∉ busyIdx s) : OwnInv t := by
  have indices : (busyIdx t).Perm (busyIdx s) := by
    simp only [busyIdx, ← List.map_append]
    exact jobs.map _
  refine ⟨indices.nodup_iff.mpr inv.exclusive, ?_, ?_, ?_, ?_, ?_⟩
  · intro i outside
    rw [ring, indices.mem_iff]
    exact inv.flag i (mt (dispatch i).mpr outside)
  · intro i inside
    rw [ring]
    exact inv.taken i ((dispatch i).mp inside)
  · intro i filled notClear
    rw [ring] at filled
    rw [indices.mem_iff]
    exact inv.free i filled fun k here => notClear k (clear k i here)
  · intro d here
    rw [indices.mem_iff]
    exact store d here
  · intro j member
    obtain ⟨d, carries⟩ := inv.content j (jobs.mem_iff.mp member)
    exact ⟨d, carries.of_slab (by simp [stored]) (by rw [slab])⟩

/-! ### Handing a slab over -/

private theorem beginDispatch_own (inv : OwnInv s) (k : Caller) (i : Fin kRingSize)
    (outside : ∀ i, ¬ InDispatch s i) (notClear : ∀ k i, s.pc ≠ .clear k i) :
    OwnInv (beginDispatch s k i) := by
  have flag_of_ne {m : Fin kRingSize} (ne : m ≠ i) :
      (beginDispatch s k i).ring m = s.ring m := by
    simp [beginDispatch, System.modifySlot, ne]
  have filled_eq (m : Fin kRingSize) :
      ((beginDispatch s k i).ring m).filled = (s.ring m).filled := by
    by_cases equal : m = i
    · subst equal
      simp [beginDispatch, System.modifySlot]
    · rw [flag_of_ne equal]
  refine ⟨inv.exclusive, ?_, ?_, ?_, ?_, ?_⟩
  · -- The flag changes for the one slot that is now inside `dispatch`.
    intro m elsewhere
    rw [flag_of_ne (fun equal => elsewhere equal.symm)]
    exact inv.flag m (outside m)
  · intro m here
    have equal : i = m := here
    subst equal
    simp [beginDispatch, System.modifySlot]
  · intro m filled _
    rw [filled_eq] at filled
    exact inv.free m filled fun k => notClear k m
  · intro d here
    simp [beginDispatch] at here
  · intro j member
    obtain ⟨d, carries⟩ := inv.content j member
    exact ⟨d, carries.of_slab (fun _ old => old) rfl⟩

private theorem RingInv.job_carries (ring : RingInv s) {k : Caller} {j : Job}
    (here : s.pc = .enqueue k j) : ∃ d, Carries s j d := by
  have ok := ring.pcOk
  simp only [PcOk, here] at ok
  obtain ⟨_, ⟨_, filled, head⟩, len, seq, hdr, num⟩ := ok
  obtain ⟨d, member, slotSeq, slotHdr, slotLen, bytes⟩ := ring.kept j.slabIdx filled
  rw [head, ahead_self, Nat.add_zero, ← num] at member
  exact ⟨d, member, seq.trans slotSeq, hdr.trans slotHdr, len.trans slotLen, bytes⟩

private theorem enqueueJob_own (ring : RingInv s) (inv : OwnInv s) {k : Caller}
    {j : Job} (here : s.pc = .enqueue k j) : OwnInv (enqueueJob s k j) := by
  have dispatch : InDispatch s j.slabIdx := by simp [InDispatch, here]
  have free := inv.dispatch_free ring dispatch
  unfold enqueueJob
  split
  · exact inv.of_frame rfl rfl rfl (List.Perm.refl _) (by simp [InDispatch, here])
      (by simp [here]) (by simp)
  next q pushed =>
    -- From here on the queue owns the slab.
    have jobs : s.inHand.toList ++ q.contents = underway s ++ [j] := by
      rw [SpscQueue.contents_enqueue pushed, underway, List.append_assoc]
    have indices : s.owned.map Job.slabIdx ++ (s.inHand.toList ++ q.contents).map Job.slabIdx =
        busyIdx s ++ [j.slabIdx] := by
      simp [jobs, busyIdx]
    refine ⟨?_, ?_, ?_, ?_, ?_, ?_⟩
    · simp only [busyIdx, underway]
      rw [indices]
      exact List.nodup_append.mpr ⟨inv.exclusive, List.nodup_singleton _, by
        intro a old b new equal
        rw [List.mem_singleton.mp new] at equal
        exact free (equal ▸ old)⟩
    · intro i _
      simp only [busyIdx, underway]
      rw [indices, List.mem_append, List.mem_singleton]
      by_cases equal : i = j.slabIdx
      · simp [equal, inv.taken _ dispatch]
      · have outside : ¬ InDispatch s i := by
          simp only [InDispatch, here]
          exact fun same => equal same.symm
        simp only [equal, or_false]
        exact inv.flag i outside
    · intro i inside
      simp [InDispatch] at inside
    · intro i filled notClear
      simp only [busyIdx, underway]
      rw [indices, List.mem_append, List.mem_singleton]
      rintro (old | rfl)
      · exact inv.free i filled (by simp [here]) old
      · exact notClear k rfl
    · intro d stored
      simp at stored
    · intro i member
      simp only [underway] at member
      rw [jobs, ← List.append_assoc] at member
      rcases List.mem_append.mp member with old | new
      · obtain ⟨d, carries⟩ := inv.content i old
        exact ⟨d, carries.of_slab (fun _ old => old) rfl⟩
      · rw [List.mem_singleton.mp new]
        obtain ⟨d, carries⟩ := ring.job_carries here
        exact ⟨d, carries.of_slab (fun _ old => old) rfl⟩

private theorem giveBack_own (ring : RingInv s) (inv : OwnInv s) {k : Caller}
    (here : s.pc = .giveBack k i) : OwnInv (giveBack s k i) := by
  have free := inv.dispatch_free ring (i := i) (by simp [InDispatch, here])
  have ring_of_ne {m : Fin kRingSize} (ne : m ≠ i) : (giveBack s k i).ring m = s.ring m := by
    simp [giveBack, System.modifySlot, ne]
  refine ⟨inv.exclusive, ?_, ?_, ?_, ?_, ?_⟩
  · intro m _
    by_cases equal : m = i
    · subst equal
      simp only [giveBack, System.modifySlot, Function.update_self, Bool.false_eq_true, false_iff]
      exact free
    · rw [ring_of_ne equal]
      refine inv.flag m ?_
      simp only [InDispatch, here]
      exact fun same => equal same.symm
  · intro m inside
    simp [InDispatch, giveBack] at inside
  · -- The slot that was given back is about to be cleared.
    intro m filled notClear
    have ne : m ≠ i := by
      intro equal
      exact notClear k (by simp [giveBack, equal])
    rw [ring_of_ne ne] at filled
    exact inv.free m filled (by simp [here])
  · intro d stored
    simp [giveBack] at stored
  · intro j member
    obtain ⟨d, carries⟩ := inv.content j member
    exact ⟨d, carries.of_slab (fun _ old => old) rfl⟩

private theorem clearHead_own (inv : OwnInv s) {k : Caller}
    (here : s.pc = .clear k i) : OwnInv (clearHead s k i) := by
  have ring_of_ne {m : Fin kRingSize} (ne : m ≠ i) : (clearHead s k i).ring m = s.ring m := by
    simp [clearHead, System.modifySlot, ne]
  have flag_eq (m : Fin kRingSize) :
      ((clearHead s k i).ring m).inWorker = (s.ring m).inWorker := by
    by_cases equal : m = i
    · subst equal
      simp [clearHead, System.modifySlot]
    · rw [ring_of_ne equal]
  refine ⟨inv.exclusive, ?_, ?_, ?_, ?_, ?_⟩
  · intro m _
    rw [flag_eq]
    exact inv.flag m (by simp [InDispatch, here])
  · intro m inside
    cases k <;> simp [InDispatch, clearHead, Caller.resume] at inside
  · intro m filled _
    have ne : m ≠ i := by
      intro equal
      subst equal
      simp [clearHead, System.modifySlot] at filled
    rw [ring_of_ne ne] at filled
    refine inv.free m filled fun c => ?_
    rw [here]
    simp only [ne_eq, Pc.clear.injEq, not_and]
    exact fun _ same => ne same.symm
  · intro d stored
    cases k <;> simp [clearHead, Caller.resume] at stored
  · intro j member
    obtain ⟨d, carries⟩ := inv.content j member
    exact ⟨d, carries.of_slab (fun _ old => old) rfl⟩

/-! ### Writing a slab -/

private theorem storeDgram_own (inv : OwnInv s) {d : Dgram} (here : s.pc = .store d) : OwnInv (storeDgram s d) := by
  have free := inv.store d here
  have ring_of_ne {m : Fin kRingSize} (ne : m ≠ ringIndex d.seq) :
      (storeDgram s d).ring m = s.ring m := by simp [storeDgram, ne]
  have flag_eq (m : Fin kRingSize) :
      ((storeDgram s d).ring m).inWorker = (s.ring m).inWorker := by
    by_cases equal : m = ringIndex d.seq
    · subst equal
      simp [storeDgram]
    · rw [ring_of_ne equal]
  refine ⟨inv.exclusive, ?_, ?_, ?_, ?_, ?_⟩
  · intro m _
    rw [flag_eq]
    exact inv.flag m (by simp [InDispatch, here])
  · intro m inside
    simp [InDispatch, storeDgram] at inside
  · intro m filled _
    by_cases equal : m = ringIndex d.seq
    · rw [equal]
      exact free
    · rw [ring_of_ne equal] at filled
      exact inv.free m filled (by simp [here])
  · intro e stored
    simp [storeDgram] at stored
  · -- The copy goes to a slab that no job underway refers to.
    intro j member
    obtain ⟨e, carries⟩ := inv.content j member
    have ne : j.slabIdx ≠ ringIndex d.seq := by
      intro equal
      exact free (mem_busyIdx.mpr ⟨j, member, equal⟩)
    exact ⟨e, carries.of_slab (fun _ old => List.mem_cons_of_mem _ old) (by simp [storeDgram, ne])⟩

private theorem advanceStep_own (ring : RingInv s) (inv : OwnInv s) {d : Dgram}
    (here : s.pc = .advance d) : OwnInv (advanceStep s d) := by
  have outside (i : Fin kRingSize) : ¬ InDispatch s i := by simp [InDispatch, here]
  have turn := advanceStep_cases ring here
  generalize advanceStep s d = t at turn ⊢
  cases turn with
  | dispatched _ _ => exact beginDispatch_own inv _ _ outside (by simp [here])
  | givenUp _ _ =>
    exact inv.of_frame rfl rfl rfl (List.Perm.refl _) (by simp [InDispatch, here])
      (by simp [here]) (by simp [here])
  | duplicate _ _ _ | busy _ _ _ =>
    exact inv.of_frame rfl rfl rfl (List.Perm.refl _) (by simp [InDispatch, here]) (by simp [here]) (by simp)
  | accepted _ _ unused =>
    -- `in_worker` was read as 0, so the slab is on this side.
    refine inv.of_frame rfl rfl rfl (List.Perm.refl _) (by simp [InDispatch, here]) (by simp [here]) ?_
    intro e same
    cases same
    exact mt (inv.flag _ (outside _)).mpr (Bool.eq_false_iff.mp unused)

private theorem recvStep_own (ring : RingInv s) (inv : OwnInv s) (moved : recvStep s = some t) : OwnInv t := by
  cases recvStep_cases moved with
  | advance d here => exact advanceStep_own ring inv here
  | enqueue k j here => exact enqueueJob_own ring inv here
  | giveBack k i here => exact giveBack_own ring inv here
  | clear k i here => exact clearHead_own inv here
  | store d here => exact storeDgram_own inv here
  | drain here =>
    unfold drainStep
    split
    · exact beginDispatch_own inv _ _ (by simp [InDispatch, here]) (by simp [here])
    · exact inv.of_frame rfl rfl rfl (List.Perm.refl _) (by simp [InDispatch, here])
        (by simp [here]) (by simp)

private theorem handleDgram_own (inv : OwnInv s) (here : s.pc = .idle)
    (data : List UInt8) : OwnInv (handleDgram s data) := by
  unfold handleDgram
  split
  · exact inv
  · dsimp only
    repeat' split
    all_goals
      exact inv.of_frame rfl rfl rfl (List.Perm.refl _) (by simp [InDispatch, here])
        (by simp [here]) (by simp [here])

/-! ### The worker and the release -/

private theorem dequeueJob_own (inv : OwnInv s) (moved : dequeueJob s = some t) : OwnInv t := by
  unfold dequeueJob at moved
  split at moved
  next j q hand taken =>
    cases moved
    refine inv.of_frame rfl rfl rfl ?_ (fun _ => Iff.rfl) (fun _ _ here => here) inv.store
    simp only [underway, hand, SpscQueue.contents_dequeue taken]
    exact List.Perm.refl _
  · cases moved

private theorem processJob_own (queue : QueueInv s) (inv : OwnInv s) (moved : processJob s = some t) : OwnInv t := by
  unfold processJob at moved
  split at moved
  · cases moved
  next j hand =>
    have member : j ∈ s.enqueued := by
      rw [queue.history, hand]
      simp
    rw [if_pos (queue.payload j member)] at moved
    cases moved
    refine inv.of_frame rfl rfl rfl ?_ (fun _ => Iff.rfl) (fun _ _ here => here) inv.store
    simp only [underway, hand, Option.toList_some, Option.toList_none, List.nil_append,
      List.cons_append]
    exact List.perm_middle.symm

private theorem releaseSlab_own (ring : RingInv s) (inv : OwnInv s) {i : Nat}
    (may : HookOk s (.release i)) : OwnInv (releaseSlab s i) := by
  obtain ⟨j, owned, rfl⟩ := may
  unfold releaseSlab
  rw [dif_pos j.slabIdx.isLt]
  -- The slab is among the hook's, so neither queued nor in `dispatch`.
  have busy : j.slabIdx ∈ busyIdx s := mem_busyIdx.mpr ⟨j, List.mem_append_left _ owned, rfl⟩
  have elsewhere : ∀ m ∈ underway s, m.slabIdx ≠ j.slabIdx := by
    intro m member equal
    exact (List.nodup_append.mp inv.exclusive).2.2 j.slabIdx (List.mem_map_of_mem owned)
      m.slabIdx (List.mem_map_of_mem member) equal.symm
  have mem_iff (m : Fin kRingSize) :
      m ∈ (s.owned.filter fun k => k.slabIdx.val ≠ j.slabIdx.val).map Job.slabIdx ++
        (underway s).map Job.slabIdx ↔ m ∈ busyIdx s ∧ m ≠ j.slabIdx := by
    simp only [busyIdx, List.mem_append, List.mem_map, List.mem_filter, decide_eq_true_eq]
    constructor
    · rintro (⟨k, ⟨member, apart⟩, rfl⟩ | ⟨k, member, rfl⟩)
      · exact ⟨Or.inl ⟨k, member, rfl⟩, fun same => apart (congrArg Fin.val same)⟩
      · exact ⟨Or.inr ⟨k, member, rfl⟩, elsewhere k member⟩
    · rintro ⟨⟨k, member, rfl⟩ | ⟨k, member, rfl⟩, apart⟩
      · exact Or.inl ⟨k, ⟨member, fun same => apart (Fin.ext same)⟩, rfl⟩
      · exact Or.inr ⟨k, member, rfl⟩
  have ring_of_ne {m : Fin kRingSize} (ne : m ≠ j.slabIdx) :
      (s.modifySlot j.slabIdx fun slot => { slot with inWorker := false }).ring m = s.ring m := by
    simp [System.modifySlot, ne]
  refine ⟨?_, ?_, ?_, ?_, ?_, ?_⟩
  · exact inv.exclusive.sublist (List.Sublist.append (List.filter_sublist.map _) (List.Sublist.refl _))
  · intro m outside
    refine Iff.trans ?_ (mem_iff m).symm
    by_cases equal : m = j.slabIdx
    · subst equal
      simp [System.modifySlot]
    · simp only [ring_of_ne equal, ne_eq, equal, not_false_eq_true, and_true]
      exact inv.flag m outside
  · intro m inside
    have ne : m ≠ j.slabIdx := by
      intro equal
      exact inv.dispatch_free ring inside (equal ▸ busy)
    simp only [ring_of_ne ne]
    exact inv.taken m inside
  · intro m filled notClear member
    have old := (mem_iff m).mp member
    simp only [ring_of_ne old.2] at filled
    exact inv.free m filled notClear old.1
  · intro d here member
    exact inv.store d here ((mem_iff _).mp member).1
  · intro k member
    have old : k ∈ s.owned ++ underway s := by
      rcases List.mem_append.mp member with kept | waiting
      · exact List.mem_append_left _ (List.mem_of_mem_filter kept)
      · exact List.mem_append_right _ waiting
    obtain ⟨d, carries⟩ := inv.content k old
    exact ⟨d, carries.of_slab (fun _ old => old) rfl⟩

/-! ### Whole runs -/

theorem ownInv_init (d : Nat) : OwnInv (init d) where
  exclusive := by simp [init, busyIdx, underway]
  flag := by simp [init, busyIdx, underway]
  taken := by simp [InDispatch, init]
  free := by simp [init]
  store := by simp [init]
  content := by simp [init, underway]

theorem step_ownInv {a : Action} (ring : RingInv s) (queue : QueueInv s)
    (inv : OwnInv s) (may : HookOk s a) (moved : step s a = some t) : OwnInv t := by
  cases a with
  | dgram data =>
    simp only [step] at moved
    split at moved
    next ready =>
      cases moved
      exact handleDgram_own inv ready.1 data
    · cases moved
  | recv => exact recvStep_own ring inv moved
  | dequeue => exact dequeueJob_own inv moved
  | process => exact processJob_own queue inv moved
  | release i =>
    cases moved
    exact releaseSlab_own ring inv may

theorem reachable_ownInv {d : Nat} (low : 1 ≤ d) (high : d ≤ kRingSize)
    (reach : Reachable HookOk d s) : OwnInv s := by
  refine (reach.invariant (I := fun s => (RingInv s ∧ QueueInv s) ∧ OwnInv s)
    ⟨⟨ringInv_init low high, queueInv_init d⟩, ownInv_init d⟩ ?_).2
  intro s t a inv may moved
  exact ⟨⟨step_ringInv inv.1.1 moved, step_queueInv inv.1.1 inv.1.2 moved⟩,
    step_ownInv inv.1.1 inv.1.2 inv.2 may moved⟩

/-- With a hook that releases each slab it was given at most once, in every interleaving:
outside `dispatch` the flag `in_worker` is set exactly for the slabs of jobs underway or
with the hook; no slab has two such jobs; the recv thread writes only to other slabs; and
each such job shows length, header length, sequence number and bytes of the one datagram
stored for its number. -/
theorem slab_ownership {d : Nat} (low : 1 ≤ d) (high : d ≤ kRingSize) {s : System}
    (reach : Reachable HookOk d s) :
    (∀ i, ¬ InDispatch s i → ((s.ring i).inWorker = true ↔
      i ∈ (underway s).map Job.slabIdx ∨ i ∈ s.owned.map Job.slabIdx)) ∧
    (s.owned.map Job.slabIdx ++ (underway s).map Job.slabIdx).Nodup ∧
    (∀ e, s.pc = .store e → ringIndex e.seq ∉ (underway s).map Job.slabIdx ∧
      ringIndex e.seq ∉ s.owned.map Job.slabIdx) ∧
    ∀ j ∈ s.owned ++ underway s, ∃ e, parseDgram e.data = some e ∧
      (∀ e', (j.num, e') ∈ s.stored ↔ e' = e) ∧
      j.seq = firstSeq s + BitVec.ofNat 16 j.num ∧ j.seq = e.seq ∧ j.hdrLen.toNat = e.hdr ∧
      j.len = e.effectiveLen ∧ (s.slab j.slabIdx).take j.len = e.data.take j.len := by
  obtain ⟨ring, queue⟩ := reachable_queueInv low high reach
  have inv := reachable_ownInv low high reach
  refine ⟨?_, inv.exclusive, ?_, ?_⟩
  · intro i outside
    rw [inv.flag i outside, busyIdx, List.mem_append]
    exact Or.comm
  · intro e here
    have free := inv.store e here
    rw [busyIdx, List.mem_append, not_or] at free
    exact ⟨free.2, free.1⟩
  · intro j member
    obtain ⟨e, carries⟩ := inv.content j member
    have parsed := ring.parsed _ _ carries.stored
    refine ⟨e, parsed, ?_, ?_, carries.seq, ?_, carries.len, ?_⟩
    -- No number is stored twice.
    · intro e'
      constructor
      · intro other
        have same := List.inj_on_of_nodup_map ring.unique other carries.stored rfl
        exact congrArg Prod.snd same
      · rintro rfl
        exact carries.stored
    · rw [carries.seq]
      exact ring.numbered _ _ carries.stored
    · rw [carries.hdrLen]
      exact parseDgram_hdr_narrow parsed
    · rw [carries.len]
      exact carries.bytes

/-- Two packets delivered, the first released, the next one stored on its way. -/
def releaseRun : List Action :=
  [.dgram (barePacket 0 7), .recv, .recv, .recv, .recv, .recv, .recv, .dequeue, .process,
   .dgram (barePacket 0 8), .recv, .recv, .recv, .recv, .release 7, .recv, .recv, .dequeue,
   .process, .dgram (barePacket 0 9), .recv]

theorem slab_ownership_releaseRun : ∃ s, run HookOk (init 64) releaseRun = some s ∧
    s.owned.map Job.slabIdx = [ringIndex 8] ∧
    ((s.ring (ringIndex 8)).inWorker = true ↔ ringIndex 8 ∈ (underway s).map Job.slabIdx ∨
      ringIndex 8 ∈ s.owned.map Job.slabIdx) := by
  have seen : (run HookOk (init 64) releaseRun).map
      (fun s => (s.owned.map Job.slabIdx, s.pc)) =
      some ([ringIndex 8], .store ⟨barePacket 0 9, 12, 12, 9⟩) := by
    decide +kernel
  obtain ⟨s, returned, pair⟩ := Option.map_eq_some_iff.mp seen
  obtain ⟨owned, counter⟩ := Prod.mk.inj pair
  have ownership := slab_ownership (by decide) (by decide) (Reachable.start.run _ returned)
  exact ⟨s, returned, owned, ownership.1 _ (by simp [InDispatch, counter])⟩

end RtpDecoder.Receiver
