import RtpDecoder.Frame.Ledger
import RtpDecoder.Frame.Tiles

/-!
# Slab accounting

Every slab handed to `pull_data` is either held for the frame in flight or was given back
once. The chain consists of the byte ranges of the held slabs, in order, so no chunk of a
released slab can be read.
-/

namespace RtpDecoder.Frame

open RtpDecoder.Parser (chainLength)

/-- The slab indices given back so far. -/
def released (trace : List Event) : List Nat :=
  trace.filterMap fun
    | .releaseSlab idx => some idx
    | _ => none

namespace Ledger

variable {cb : Callbacks} {L : Ledger} {seen kept : List Packet}

/-- Of the packets `seen` the ledger holds those in `kept` and has released the others. -/
structure Accounted (seen kept : List Packet) (L : Ledger) : Prop where
  sub : kept.Sublist seen
  held : L.held = kept.map Packet.slabIdx
  chunks : L.chunks = kept.map Packet.chunk
  chain : L.chain = (kept.map Packet.size).sum % 2 ^ 64
  split : (seen.map Packet.slabIdx).Perm (released L.trace ++ L.held)

/-! ### Single operations -/

theorem Accounted.note (acc : Accounted seen kept L) (registered : Bool) {e : Event}
    (other : released [e] = []) : Accounted seen kept (L.note registered e) := by
  refine ⟨acc.sub, acc.held, acc.chunks, acc.chain, ?_⟩
  have same : released (L.note registered e).trace = released L.trace := by
    cases registered with
    | false => rfl
    | true => rw [Ledger.note, released, List.filterMap_append, ← released, ← released, if_pos rfl,
        other, List.nil_append]
  rw [same]
  exact acc.split

theorem Accounted.flags (acc : Accounted seen kept L) (failure passed armed : Bool) :
    Accounted seen kept { L with failure := failure, passed := passed, armed := armed } :=
  ⟨acc.sub, acc.held, acc.chunks, acc.chain, acc.split⟩

theorem Accounted.abort (cb : Callbacks) (acc : Accounted seen kept L) (reason : AbortReason) :
    Accounted seen kept (L.abort cb reason) :=
  (acc.flags L.failure L.passed false).note _ rfl

theorem Accounted.fail (cb : Callbacks) (acc : Accounted seen kept L) (reason : AbortReason) :
    Accounted seen kept (L.fail cb reason) :=
  (acc.abort cb reason).flags true _ _

theorem Accounted.release (set : cb.releaseSlab = true) (acc : Accounted seen kept L) :
    Accounted seen [] (L.release cb) := by
  -- What was held goes over to what is released, in the order of holding.
  have given : released (L.release cb).trace = L.held.reverse ++ released L.trace := by
    have back (idxs : List Nat) : released (idxs.map Event.releaseSlab) = idxs := by
      simp [released, List.filterMap_map]
    have event : (L.release cb).trace = (L.held.reverse).map Event.releaseSlab ++ L.trace := by
      simp [Ledger.release, set, List.map_reverse]
    rw [event, released, List.filterMap_append, ← released, ← released, back]
  refine ⟨List.nil_sublist _, rfl, rfl, rfl, ?_⟩
  rw [given]
  change (seen.map Packet.slabIdx).Perm (L.held.reverse ++ released L.trace ++ [])
  rw [List.append_nil]
  exact acc.split.trans (List.perm_append_comm.trans
    ((List.reverse_perm L.held).symm.append_right _))

theorem Accounted.append (cb : Callbacks) (main : Bool) (p : Packet) (acc : Accounted seen kept L) :
    Accounted (seen ++ [p]) (kept ++ [p]) (L.append cb main p) := by
  have same : released (L.append cb main p).trace = released L.trace := by
    simp only [Ledger.append, released, List.filterMap_append]
    split <;> rfl
  refine ⟨acc.sub.append (List.Sublist.refl _), ?_, ?_, ?_, ?_⟩
  · simp [Ledger.append, acc.held]
  · simp [Ledger.append, acc.chunks]
  · simp [Ledger.append, acc.chain]
  · rw [same]
    change ((seen ++ [p]).map Packet.slabIdx).Perm (released L.trace ++ (L.held ++ [p.slabIdx]))
    rw [List.map_append, ← List.append_assoc]
    exact acc.split.append_right _

theorem Accounted.drop (set : cb.releaseSlab = true) (p : Packet) (acc : Accounted seen kept L) :
    Accounted (seen ++ [p]) kept (L.note cb.releaseSlab (.releaseSlab p.slabIdx)) := by
  refine ⟨acc.sub.trans (List.sublist_append_left _ _), acc.held, acc.chunks, acc.chain, ?_⟩
  have given : released (L.note cb.releaseSlab (.releaseSlab p.slabIdx)).trace =
      p.slabIdx :: released L.trace := by
    simp [Ledger.note, set, released]
  rw [given, List.map_append]
  exact List.perm_append_comm.trans (acc.split.cons p.slabIdx)

/-! ### The parts of a move -/

private theorem gap_slabs (p : Packet) (acc : Accounted seen kept L) :
    Accounted seen kept (L.gap cb p) ∧ (L.gap cb p).held = L.held := by
  unfold gap
  split
  · have asked := acc.note (cb.resyncGap && L.passed) (e := .resyncGap L.chain) rfl
    dsimp only
    split
    · exact ⟨asked, rfl⟩
    · exact ⟨asked.fail cb .gap, rfl⟩
  · exact ⟨acc, rfl⟩

/-- After the cap there is room for one more slab. -/
private theorem cap_slabs (set : cb.releaseSlab = true) (acc : Accounted seen kept L) :
    (∃ kept', Accounted seen kept' (L.cap cb)) ∧ (L.cap cb).held.length < 3072 := by
  unfold cap
  split
  · exact ⟨⟨[], ((acc.abort cb .slabCap).release set).flags _ _ _⟩, Nat.zero_lt_succ _⟩
  next room => exact ⟨⟨kept, acc⟩, Nat.lt_of_not_le room⟩

private theorem finish_slabs (set : cb.releaseSlab = true) (intact : Bool) (acc : Accounted seen kept L) :
    Accounted seen [] (L.finish cb intact) ∧ (L.finish cb intact).held = [] := by
  have disarmed := acc.flags L.failure L.passed false
  have ready := disarmed.note cb.frameReady (e := .frameReady intact) rfl
  exact ⟨((ready.flags false false _).release set).note true rfl, rfl⟩

private theorem skipEoc_slabs (set : cb.releaseSlab = true) (acc : Accounted seen kept L) :
    Accounted seen [] (L.skipEoc cb) ∧ (L.skipEoc cb).held = [] := by
  unfold skipEoc
  dsimp only
  split
  · exact ⟨(((acc.abort cb .damagedEOC).flags false false _).release set).note true rfl, rfl⟩
  · exact ⟨((acc.flags false false _).release set).note true rfl, rfl⟩

private theorem main_slabs (set : cb.releaseSlab = true) (p : Packet) (o : MainOutcome)
    (acc : Accounted seen kept L) :
    ∃ kept', Accounted (seen ++ [p]) kept' (L.main cb p o) ∧ (L.main cb p o).held.length = 1 := by
  have closed : Accounted seen [] (L.missed cb) := by
    unfold missed
    split
    next none_held =>
      -- Nothing is held, so nothing is kept.
      have nothing : kept = [] := by
        have empty := acc.held.symm.trans (List.isEmpty_iff.mp none_held)
        exact List.map_eq_nil_iff.mp empty
      exact nothing ▸ acc
    · exact ((acc.abort cb .missedEOC).release set).flags _ false _
  have opened : Accounted (seen ++ [p]) [p] (L.openFrame cb p) :=
    (closed.flags false _ _).append cb true p
  have one : (L.openFrame cb p).held.length = 1 := by
    change ((L.missed cb).held ++ [p.slabIdx]).length = 1
    rw [closed.held]
    rfl
  refine ⟨[p], ?_⟩
  unfold main
  cases o with
  | tracked relatch =>
    cases relatch with
    | none => exact ⟨opened.flags _ true _, one⟩
    | some reason => exact ⟨(opened.flags _ true _).note cb.relatch rfl, one⟩
  | rejected => exact ⟨opened.fail cb .parse, one⟩
  | collected more => exact ⟨opened, one⟩

private theorem body_slabs (p : Packet) (point : Option (BitVec 32)) (failed : Bool)
    (acc : Accounted seen kept L) :
    Accounted (seen ++ [p]) (kept ++ [p]) (L.body cb p point failed) ∧
      (L.body cb p point failed).held = L.held ++ [p.slabIdx] := by
  have appended := acc.append cb false p
  unfold body
  dsimp only
  cases point with
  | none =>
    split
    · exact ⟨(appended.flags _ false _).fail cb .parse, rfl⟩
    · exact ⟨appended, rfl⟩
  | some resyncByte =>
    have noted := appended.note true (e := .resyncPoint resyncByte p.pid) rfl
    split
    · exact ⟨(noted.flags _ false _).fail cb .parse, rfl⟩
    · exact ⟨noted, rfl⟩

theorem pull_slabs (set : cb.releaseSlab = true) (p : Packet) (o : Outcome)
    (acc : Accounted seen kept L) :
    (∃ kept', Accounted (seen ++ [p]) kept' (L.pull cb p o)) ∧ (L.pull cb p o).held.length ≤ 3072 := by
  obtain ⟨⟨kept', acc⟩, room⟩ := cap_slabs set (@gap_slabs cb L seen kept p acc).1
  unfold pull
  generalize (L.gap cb p).cap cb = M at acc room
  dsimp only
  split
  -- A skipped packet is not kept; with the marker, neither are those before it.
  · have dropped := acc.drop set p
    unfold skip
    dsimp only
    split
    · obtain ⟨empty, none_held⟩ := skipEoc_slabs set dropped
      exact ⟨⟨_, empty⟩, by rw [none_held]; exact Nat.zero_le _⟩
    · exact ⟨⟨_, dropped⟩, Nat.le_of_lt room⟩
  · split
    · obtain ⟨added, held⟩ := @body_slabs cb M seen kept' p o.point o.failed acc
      split
      · obtain ⟨empty, none_held⟩ := finish_slabs set o.intact added
        exact ⟨⟨_, empty⟩, by rw [none_held]; exact Nat.zero_le _⟩
      · refine ⟨⟨_, added⟩, ?_⟩
        rw [held, List.length_append]
        exact room
    · obtain ⟨kept'', added, one⟩ := main_slabs set p o.main acc
      split
      · obtain ⟨empty, none_held⟩ := finish_slabs set o.intact added
        exact ⟨⟨_, empty⟩, by rw [none_held]; exact Nat.zero_le _⟩
      · exact ⟨⟨_, added⟩, by rw [one]; decide⟩

end Ledger

/-- With a release callback and distinct slabs: after any sequence of calls every slab seen is
held or was released, once; the chunks are those of the held slabs, in order, and
`chain_total_bytes_` is the sum of their lengths, modulo `2 ^ 64` as `size_t` counts; at most 3072
slabs are held; and none after a call for a packet with the marker that gets to one of the two
marker blocks. -/
theorem slab_accounting {T : Type} (cb : Callbacks) (ops : TileOps T) (tileHndr : T) (relatchK : Nat)
    (packets : List Packet) (set : cb.releaseSlab = true)
    (distinct : (packets.map Packet.slabIdx).Nodup) :
    let s := (FrameHandler.new tileHndr relatchK).run cb ops packets
    (packets.map Packet.slabIdx).Perm (released s.trace ++ s.heldSlabs) ∧
    (released s.trace ++ s.heldSlabs).Nodup ∧
    (∃ kept : List Packet, kept.Sublist packets ∧ s.heldSlabs = kept.map Packet.slabIdx ∧
      s.cs.chunks = kept.map Packet.chunk) ∧
    s.chainTotalBytes = chainLength s.cs.chunks % 2 ^ 64 ∧
    s.heldSlabs.length ≤ 3072 ∧
    ∀ p : Packet, p.marker = true → s.goesOn cb ops p = true → (s.pullData cb ops p).heldSlabs = [] := by
  intro s
  obtain ⟨⟨kept, acc⟩, bound⟩ : (∃ kept, Ledger.Accounted packets kept s.ledger) ∧
      s.ledger.held.length ≤ 3072 := by
    refine FrameHandler.run_invariant cb ops
      (P := fun seen L => (∃ kept, Ledger.Accounted seen kept L) ∧ L.held.length ≤ 3072) _ ?_ ?_ packets
    · exact ⟨⟨[], List.nil_sublist _, rfl, rfl, rfl, List.Perm.refl _⟩, Nat.zero_le _⟩
    · rintro seen p o L ⟨⟨kept, acc⟩, _⟩
      exact Ledger.pull_slabs set p o acc
  refine ⟨acc.split, acc.split.nodup_iff.mp distinct, ⟨kept, acc.sub, acc.held, acc.chunks⟩, ?_,
    bound, ?_⟩
  -- A chunk has as many bytes as its packet says.
  · have lengths : chainLength s.cs.chunks = (kept.map Packet.size).sum := by
      rw [show s.cs.chunks = _ from acc.chunks]
      simp [chainLength, Packet.chunk, Packet.j2kBytes, Function.comp_def]
    rw [lengths]
    exact acc.chain
  · intro p marked goes
    exact (FrameHandler.pullData_marked cb ops marked s).1.mpr goes

/-- In the middle of a frame, and at its EOC. -/
theorem slab_accounting_midFrame :
    let s := (FrameHandler.new {} 4).run {} tileOps (emptyFrame.take 2)
    s.heldSlabs = [0, 1] ∧ s.chainTotalBytes = chainLength s.cs.chunks % 2 ^ 64 ∧
      (s.pullData {} tileOps (packetOf 2 (List.replicate 11 0) true)).heldSlabs = [] := by
  have held : ((FrameHandler.new {} 4).run {} tileOps (emptyFrame.take 2)).heldSlabs = [0, 1] := by decide +kernel
  have kept := slab_accounting {} tileOps {} 4 (emptyFrame.take 2) rfl (by decide +kernel)
  generalize (FrameHandler.new {} 4).run {} tileOps (emptyFrame.take 2) = s at held kept ⊢
  exact ⟨held, kept.2.2.2.1, kept.2.2.2.2.2 _ rfl (by simp [FrameHandler.goesOn, packetOf, Packet.mh])⟩

end RtpDecoder.Frame
