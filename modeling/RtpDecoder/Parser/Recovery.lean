import Mathlib.Data.List.TakeWhile
import RtpDecoder.Parser.Progression
import RtpDecoder.Parser.Structure

/-!
# Recovery from a refused packet

`try_recover` takes the first signal beyond the reader and looks its PID up in the table that
`create` has built. Here the table is shown to invert the numbering of the packets, and the
operation to be sound and atomic. `parse` and `flush` call it with different ideas of where
they are in the list, so they do not always recover alike.
-/

namespace RtpDecoder.Parser

open Header

/-! ### The numbering of the packets -/

/-- The number of earlier entries of the same component. -/
def rank (crp : List Crp) (i : Nat) : Nat := ((crp.take i).map Crp.c).count (crp.getD i default).c

/-- The PID of an entry, for three components. -/
def pid (crp : List Crp) (i : Nat) : Nat := (crp.getD i default).c + 3 * rank crp i

private theorem count_take (l : List Nat) (c : Nat) {i : Nat} (inside : i ≤ l.length) :
    ((List.range i).filter fun k => l[k]? = some c).length = (l.take i).count c := by
  induction i with
  | zero => simp
  | succ i ih =>
    have here : i < l.length := inside
    rw [List.range_succ, List.filter_append, List.length_append, ih (Nat.le_of_lt here),
      List.take_succ_eq_append_getElem here, List.count_append]
    by_cases same : l[i] = c
    · simp [same, List.getElem?_eq_getElem here]
    · simp [same, List.getElem?_eq_getElem here]

/-- In a filtered range a number stands behind the smaller ones that pass. -/
private theorem filter_range_at {n i : Nat} (p : Nat → Bool) (inside : i < n) (passes : p i = true) :
    ((List.range n).filter p)[((List.range i).filter p).length]? = some i := by
  obtain ⟨k, rfl⟩ : ∃ k, n = i + 1 + k := ⟨n - (i + 1), by omega⟩
  rw [List.range_add, List.range_succ, List.append_assoc, List.filter_append,
    List.getElem?_append_right (Nat.le_refl _), Nat.sub_self]
  simp [passes]

section

variable {crp : List Crp}

private theorem component_at {i : Nat} (inside : i < crp.length) :
    (crp.map Crp.c)[i]? = some (crp.getD i default).c := by
  rw [List.getElem?_map, List.getElem?_eq_getElem inside, List.getD_eq_getElem _ _ inside]
  simp

private theorem crpIndex_row {c : Nat} (color : c < maxNumComponents) :
    (crpIndex crp).getD c [] = (List.range crp.length).filter fun i => (crp.map Crp.c)[i]? = some c := by
  rw [crpIndex, List.getD_eq_getElem _ _ (by simpa using color)]
  simp

/-- Row `c` has the entries of component `c`, each one at its rank. -/
theorem crpIndex_rank (colors : ∀ e ∈ crp, e.c < maxNumComponents) {i : Nat} (inside : i < crp.length) :
    ((crpIndex crp).getD (crp.getD i default).c [])[rank crp i]? = some i := by
  have color : (crp.getD i default).c < maxNumComponents := by
    rw [List.getD_eq_getElem _ _ inside]
    exact colors _ (List.getElem_mem inside)
  have behind := filter_range_at (fun k => (crp.map Crp.c)[k]? = some (crp.getD i default).c) inside
    (by simpa using component_at inside)
  rw [count_take _ _ (by simpa using Nat.le_of_lt inside), ← List.map_take] at behind
  rw [crpIndex_row color]
  exact behind

/-- What a row gives is an entry of its component, at its rank. -/
theorem rank_of_crpIndex {c k i : Nat} (color : c < maxNumComponents)
    (found : ((crpIndex crp).getD c [])[k]? = some i) :
    i < crp.length ∧ (crp.getD i default).c = c ∧ rank crp i = k := by
  rw [crpIndex_row color] at found
  have member := List.mem_of_getElem? found
  rw [List.mem_filter, List.mem_range, decide_eq_true_eq] at member
  obtain ⟨inside, component⟩ := member
  have same : (crp.getD i default).c = c := Option.some.inj ((component_at inside).symm.trans component)
  refine ⟨inside, same, ?_⟩
  -- The row names no entry twice, so both places are the same.
  have behind := filter_range_at (fun k => (crp.map Crp.c)[k]? = some c) inside (by simpa using component)
  have place : rank crp i = ((List.range i).filter fun k => (crp.map Crp.c)[k]? = some c).length := by
    rw [count_take _ _ (by simpa using Nat.le_of_lt inside), ← List.map_take, rank, same]
  have distinct : ((List.range crp.length).filter fun i => (crp.map Crp.c)[i]? = some c).Nodup :=
    List.nodup_range.filter _
  obtain ⟨bound, _⟩ := List.getElem?_eq_some_iff.mp found
  rw [place]
  exact ((List.getElem?_inj bound distinct).mp (found.trans behind.symm)).symm

end

/-- Over three components every PID stands for one entry at most. -/
theorem pid_injective {crp : List Crp} (colors : ∀ e ∈ crp, e.c < maxNumComponents) {i j : Nat}
    (first : i < crp.length) (second : j < crp.length) (same : pid crp i = pid crp j) : i = j := by
  have color {k : Nat} (inside : k < crp.length) : (crp.getD k default).c < 3 := by
    rw [List.getD_eq_getElem _ _ inside]
    exact colors _ (List.getElem_mem inside)
  have left := color first
  have right := color second
  -- Components are digits to base 3, so a PID tells the component from the rank.
  simp only [pid] at same
  have component : (crp.getD i default).c = (crp.getD j default).c := by omega
  have ranks : rank crp i = rank crp j := by omega
  have found := crpIndex_rank colors first
  rw [component, ranks, crpIndex_rank colors second] at found
  exact (Option.some.inj found).symm

/-- The entry that a PID stands for, as `try_recover` looks it up. -/
def TileHandler.indexOfPid (h : TileHandler) (pid : Nat) : Option Nat :=
  if h.markers.siz.csiz = 0 then none
  else (h.crpIdxByPid.getD (pid % h.markers.siz.csiz) [])[pid / h.markers.siz.csiz]?

theorem TileHandler.indexOfPid_iff {h : TileHandler} {crp : List Crp}
    (colors : ∀ e ∈ crp, e.c < maxNumComponents) (three : h.markers.siz.csiz = 3)
    (table : h.crpIdxByPid = crpIndex crp) {n i : Nat} :
    h.indexOfPid n = some i ↔ i < crp.length ∧ pid crp i = n := by
  simp only [indexOfPid, three, table, OfNat.ofNat_ne_zero, if_false]
  constructor
  · intro found
    obtain ⟨inside, component, place⟩ := rank_of_crpIndex (Nat.mod_lt n (by decide)) found
    refine ⟨inside, ?_⟩
    rw [pid, component, place]
    exact Nat.mod_add_div n 3
  · rintro ⟨inside, rfl⟩
    have color : (crp.getD i default).c < 3 := by
      rw [List.getD_eq_getElem _ _ inside]
      exact colors _ (List.getElem_mem inside)
    have found := crpIndex_rank colors inside
    rwa [show (crp.getD i default).c = pid crp i % 3 by rw [pid]; omega,
      show rank crp i = pid crp i / 3 by rw [pid]; omega] at found

/-! ### The operation -/

namespace Walk

/-- The first queued signal beyond the reader. -/
def nextSignal (w : Walk) : Option Signal :=
  w.handler.signalQueue.find? fun sig => w.cs.getPos < sig.byteOffset

theorem nextSignal_of_split {w : Walk} {passed rest : List Signal} {sig : Signal}
    (split : w.handler.signalQueue = passed ++ sig :: rest)
    (behind : ∀ old ∈ passed, old.byteOffset ≤ w.cs.getPos) (ahead : w.cs.getPos < sig.byteOffset) :
    w.nextSignal = some sig := by
  rw [nextSignal, split, List.find?_append, List.find?_eq_none.mpr]
  · simp [ahead]
  · intro old member
    simpa [BitVec.not_lt] using behind old member

/-- What `try_recover` makes of the queue: signals behind the reader are dropped, and then the
first one left is taken if its PID stands for an entry that is not behind. -/
inductive Recovering (w : Walk) : Bool × Walk → Prop where
  | empty (behind : ∀ old ∈ w.handler.signalQueue, old.byteOffset ≤ w.cs.getPos) :
    Recovering w (false, { w with handler := { w.handler with signalQueue := [] } })
  | refused {passed rest : List Signal} {sig : Signal}
    (split : w.handler.signalQueue = passed ++ sig :: rest)
    (behind : ∀ old ∈ passed, old.byteOffset ≤ w.cs.getPos) (ahead : w.cs.getPos < sig.byteOffset)
    (unusable : ∀ i, w.handler.indexOfPid sig.pid.toNat = some i → i < w.crpIdx) :
    Recovering w (false, { w with handler := { w.handler with signalQueue := sig :: rest } })
  | snapped {passed rest : List Signal} {sig : Signal} {i : Nat}
    (split : w.handler.signalQueue = passed ++ sig :: rest)
    (behind : ∀ old ∈ passed, old.byteOffset ≤ w.cs.getPos) (ahead : w.cs.getPos < sig.byteOffset)
    (found : w.handler.indexOfPid sig.pid.toNat = some i) (forward : w.crpIdx ≤ i) :
    Recovering w (true, { w with
      handler := { w.handler.setTile { w.tile with crpIdx := i } with signalQueue := rest }
      cs := w.cs.reset sig.byteOffset })

private theorem split_of_dropWhile {p : Signal → Bool} {queue rest : List Signal} {sig : Signal}
    (first : queue.dropWhile p = sig :: rest) :
    ∃ passed, queue = passed ++ sig :: rest ∧ (∀ old ∈ passed, p old = true) ∧ p sig = false := by
  refine ⟨queue.takeWhile p, ?_, fun old member => List.mem_takeWhile_imp member, ?_⟩
  · rw [← first, List.takeWhile_append_dropWhile]
  · have stops := List.head_dropWhile_not p (l := queue) (by simp [first])
    simpa [first] using stops

theorem tryRecover_recovering (w : Walk) : w.Recovering w.tryRecover := by
  simp only [tryRecover]
  split
  next none_left =>
    rw [none_left]
    apply Recovering.empty
    intro old member
    have all := List.dropWhile_eq_nil_iff.mp none_left old member
    exact of_decide_eq_true all
  next sig rest first =>
    -- The three exits below leave the signal in the queue.
    obtain ⟨passed, cut, behind, stops⟩ := split_of_dropWhile first
    have behind : ∀ old ∈ passed, old.byteOffset ≤ w.cs.getPos := fun old member =>
      of_decide_eq_true (behind old member)
    have ahead : w.cs.getPos < sig.byteOffset := BitVec.not_le.mp (of_decide_eq_false stops)
    rw [first]
    split
    next no_components =>
      refine .refused cut behind ahead fun i found => ?_
      simp [TileHandler.indexOfPid, no_components] at found
    next components =>
      split
      next unknown =>
        refine .refused cut behind ahead fun i found => ?_
        rw [TileHandler.indexOfPid, if_neg components, unknown] at found
        cases found
      next i known =>
        have found : w.handler.indexOfPid sig.pid.toNat = some i := by
          rwa [TileHandler.indexOfPid, if_neg components]
        split
        next backward =>
          refine .refused cut behind ahead fun j other => ?_
          cases found.symm.trans other
          exact backward
        next forward => exact .snapped cut behind ahead found (Nat.le_of_not_lt forward)

theorem pos_reset (s : Codestream) (p : BitVec 32) : (s.reset p).pos = p.toNat :=
  (hop_pos s.chunks 0 p.toNat 0).trans (Nat.zero_add _)

/-- What holds after a successful recovery: the reader stands where the first signal ahead says,
with no bits left over, the place in the list is the one entry from here on with its PID, and the
queue has lost what came up to it. -/
structure Sound (w w' : Walk) : Prop where
  taken : ∃ passed sig rest, w.handler.signalQueue = passed ++ sig :: rest ∧
    (∀ old ∈ passed, old.byteOffset ≤ w.cs.getPos) ∧ w.cs.getPos < sig.byteOffset ∧
    w'.handler.signalQueue = rest ∧ w'.cs.getPos = sig.byteOffset ∧ w'.cs.pos = sig.byteOffset.toNat ∧
    ∀ i, i = w'.crpIdx ↔ w.crpIdx ≤ i ∧ i < w.crpSize ∧ pid w.tile.crp i = sig.pid.toNat
  aligned : w'.cs.bits = 0 ∧ w'.cs.tmp = 0 ∧ w'.cs.last = 0
  chunks : w'.cs.chunks = w.cs.chunks

/-- What holds after a recovery that failed: only signals that were not ahead are gone. -/
structure Unmoved (w w' : Walk) : Prop where
  dropped : ∃ passed, w.handler.signalQueue = passed ++ w'.handler.signalQueue ∧
    ∀ old ∈ passed, old.byteOffset ≤ w.cs.getPos
  crpIdx : w'.crpIdx = w.crpIdx
  cs : w'.cs = w.cs

/-- `try_recover` is sound and atomic, and the PIDs that it goes by name one entry each. That its
table is the one of the packet order is what `TileHandler.create_table` gives. -/
theorem recovery_sound_and_atomic {w : Walk} (tiled : w.handler.tiles ≠ [])
    (colors : ∀ e ∈ w.tile.crp, e.c < maxNumComponents) (three : w.handler.markers.siz.csiz = 3)
    (table : w.handler.crpIdxByPid = crpIndex w.tile.crp) :
    (∀ i < w.crpSize, ∀ j < w.crpSize, pid w.tile.crp i = pid w.tile.crp j → i = j) ∧
    (∀ i < w.crpSize, w.handler.indexOfPid (pid w.tile.crp i) = some i) ∧
    (w.tryRecover.1 = true → w.Sound w.tryRecover.2) ∧
    (w.tryRecover.1 = false → w.Unmoved w.tryRecover.2) := by
  have inverse {n i : Nat} := TileHandler.indexOfPid_iff colors three table (n := n) (i := i)
  refine ⟨fun i first j second => pid_injective colors first second,
    fun i inside => inverse.mpr ⟨inside, rfl⟩, ?_, ?_⟩
  · intro success
    have way := w.tryRecover_recovering
    generalize w.tryRecover = r at way success ⊢
    cases way with
    | empty _ | refused _ _ _ _ => cases success
    | @snapped passed rest sig i split behind ahead found forward =>
      obtain ⟨inside, number⟩ := inverse.mp found
      have place : (w.handler.setTile { w.tile with crpIdx := i }).tile.crpIdx = i :=
        congrArg Tile.crpIdx (TileHandler.tile_setTile _ tiled)
      refine ⟨⟨passed, sig, rest, split, behind, ahead, rfl, getPos_reset _ _, pos_reset _ _, ?_⟩,
        ⟨rfl, rfl, rfl⟩, rfl⟩
      -- The place is the only one: the table gave it, and PIDs are not repeated.
      intro j
      change j = (w.handler.setTile { w.tile with crpIdx := i }).tile.crpIdx ↔ _
      rw [place]
      constructor
      · rintro rfl
        exact ⟨forward, inside, number⟩
      · rintro ⟨_, other, same⟩
        exact pid_injective colors other inside (same.trans number.symm)
  · intro failure
    have way := w.tryRecover_recovering
    generalize w.tryRecover = r at way failure ⊢
    cases way with
    | empty behind => exact ⟨⟨w.handler.signalQueue, by simp, behind⟩, rfl, rfl⟩
    | refused split behind ahead unusable => exact ⟨⟨_, split, behind⟩, rfl, rfl⟩
    | snapped split behind ahead found forward => cases failure

/-- Two packets of each of three components, and a signal for each of the last three of them. The
reader stands at byte 2, behind the first signal. -/
def colorWalk : Walk where
  handler := {
    tiles := [{ crp := [⟨0, 0, 0⟩, ⟨1, 0, 0⟩, ⟨2, 0, 0⟩, ⟨0, 0, 1⟩, ⟨1, 0, 1⟩, ⟨2, 0, 1⟩], crpIdx := 2 }]
    markers := { siz := { csiz := 3 } }
    crpIdxByPid := [[0, 3], [1, 4], [2, 5]]
    signalQueue := [⟨1, 3⟩, ⟨4, 4⟩, ⟨6, 5⟩] }
  cs := { chunks := [⟨0, [1, 2, 3]⟩, ⟨0, [4, 5, 6, 7]⟩], curOffset := 2, tmp := 3, bits := 5 }

theorem recovery_sound_and_atomic_colors : colorWalk.tryRecover.1 = true ∧ colorWalk.tryRecover.2.crpIdx = 4 ∧
    colorWalk.tryRecover.2.cs.pos = 4 ∧ colorWalk.Sound colorWalk.tryRecover.2 := by
  have recovered : colorWalk.tryRecover.1 = true ∧ colorWalk.tryRecover.2.crpIdx = 4 ∧
      colorWalk.tryRecover.2.cs.pos = 4 := by decide +kernel
  have sound := recovery_sound_and_atomic (w := colorWalk) (by decide) (by decide) (by decide) (by decide +kernel)
  exact ⟨recovered.1, recovered.2.1, recovered.2.2, sound.2.2.1 recovered.1⟩

/-! ### Recovery in `parse` and in `flush` -/

section

variable {w : Walk}

/-- A recovery goes through exactly if the first signal ahead names an entry that is not behind. -/
theorem tryRecover_iff : w.tryRecover.1 = true ↔
    ∃ sig i, w.nextSignal = some sig ∧ w.handler.indexOfPid sig.pid.toNat = some i ∧ w.crpIdx ≤ i := by
  have way := w.tryRecover_recovering
  generalize w.tryRecover = r at way ⊢
  cases way with
  | empty behind =>
    have none_ahead : w.nextSignal = none :=
      List.find?_eq_none.mpr fun old member => by simpa [BitVec.not_lt] using behind old member
    simp [none_ahead]
  | refused split behind ahead unusable =>
    simp only [nextSignal_of_split split behind ahead, Bool.false_eq_true, false_iff]
    rintro ⟨_, i, ⟨⟩, found, forward⟩
    exact Nat.not_lt.mpr forward (unusable i found)
  | snapped split behind ahead found forward =>
    simp only [nextSignal_of_split split behind ahead, true_iff]
    exact ⟨_, _, rfl, found, forward⟩

theorem tryRecover_resumes (tiled : w.handler.tiles ≠ []) (recovered : w.tryRecover.1 = true) :
    ∃ sig i, w.nextSignal = some sig ∧ w.handler.indexOfPid sig.pid.toNat = some i ∧
      w.tryRecover.2.crpIdx = i ∧ w.tryRecover.2.cs = w.cs.reset sig.byteOffset := by
  have way := w.tryRecover_recovering
  generalize w.tryRecover = r at way recovered ⊢
  cases way with
  | empty _ | refused _ _ _ _ => cases recovered
  | @snapped passed rest sig i split behind ahead found forward =>
    have place : (w.handler.setTile { w.tile with crpIdx := i }).tile.crpIdx = i :=
      congrArg Tile.crpIdx (TileHandler.tile_setTile _ tiled)
    exact ⟨sig, i, nextSignal_of_split split behind ahead, found, place, rfl⟩

end

/-- A walk whose packet `k` was refused goes on at the entry that the first signal ahead names, if
that is not before `k`, and stops otherwise. `next` is the walk in the next turn of the loop. -/
structure Resumes (failed : Walk) (k : Nat) (next : Option Walk) : Prop where
  succeeds : next.isSome = true ↔
    ∃ sig j, failed.nextSignal = some sig ∧ failed.handler.indexOfPid sig.pid.toNat = some j ∧ k ≤ j
  place : ∀ w', next = some w' →
    ∃ sig j, failed.nextSignal = some sig ∧ failed.handler.indexOfPid sig.pid.toNat = some j ∧
      w'.crpIdx = j ∧ w'.cs = failed.cs.reset sig.byteOffset

/-- Both loops resume alike after the current packet was refused. -/
def RecoversAlike (w : Walk) : Prop :=
  Resumes w.parseOnePrecinct w.crpIdx w.parseBody ∧ Resumes w.parseOnePrecinct w.crpIdx w.flushBody

section

variable {w : Walk}

theorem tiles_parseOnePrecinct (left : w.crpIdx < w.crpSize) : w.parseOnePrecinct.handler.tiles ≠ [] := by
  have tiles := tiles_of_lt left
  simp [parseOnePrecinct, TileHandler.setTile, tiles]

theorem tile_parseOnePrecinct (left : w.crpIdx < w.crpSize) :
    w.parseOnePrecinct.tile = w.tile.setPrec w.current w.packet.2.1 :=
  TileHandler.tile_setTile _ (tiles_of_lt left)

private theorem crpIdx_parseOnePrecinct (left : w.crpIdx < w.crpSize) : w.parseOnePrecinct.crpIdx = w.crpIdx := by
  rw [crpIdx, tile_parseOnePrecinct left]
  rfl

private theorem resumes_iff {failed tried : Walk} {k k' : Nat} (tiled : tried.handler.tiles ≠ [])
    (signals : tried.nextSignal = failed.nextSignal)
    (table : ∀ n, tried.handler.indexOfPid n = failed.handler.indexOfPid n) (cs : tried.cs = failed.cs)
    (place : tried.crpIdx = k') :
    Resumes failed k (if tried.tryRecover.1 then some tried.tryRecover.2 else none) ↔
      ∀ sig j, failed.nextSignal = some sig → failed.handler.indexOfPid sig.pid.toNat = some j →
        (k' ≤ j ↔ k ≤ j) := by
  have recovers := tryRecover_iff (w := tried)
  simp only [signals, table, place] at recovers
  constructor
  · intro resumes sig j next found
    have succeeds := resumes.succeeds
    rw [Option.isSome_ite, recovers] at succeeds
    -- There is one first signal, and it names one entry.
    simpa [next, found] using succeeds
  · intro agree
    constructor
    · rw [Option.isSome_ite, recovers]
      constructor
      · rintro ⟨sig, j, next, found, forward⟩
        exact ⟨sig, j, next, found, (agree sig j next found).mp forward⟩
      · rintro ⟨sig, j, next, found, forward⟩
        exact ⟨sig, j, next, found, (agree sig j next found).mpr forward⟩
    · intro w' went
      split at went
      next recovered =>
        cases went
        obtain ⟨sig, j, next, found, index, reader⟩ := tryRecover_resumes tiled recovered
        rw [signals] at next
        rw [table] at found
        rw [cs] at reader
        exact ⟨sig, j, next, found, index, reader⟩
      · cases went

/-- `parse` moves on in the list before it calls `try_recover`, and `flush` does not. So they
recover alike unless the signal names the very packet that was refused. -/
theorem recovers_alike_iff (left : w.crpIdx < w.crpSize) (refused : w.packet.1 = false) :
    w.RecoversAlike ↔
      ∀ sig, w.parseOnePrecinct.nextSignal = some sig →
        w.parseOnePrecinct.handler.indexOfPid sig.pid.toNat ≠ some w.crpIdx := by
  have tiled := tiles_parseOnePrecinct left
  -- `flush` calls `try_recover` at the refused packet, `parse` one behind it.
  have flush : Resumes w.parseOnePrecinct w.crpIdx w.flushBody := by
    simp only [flushBody, refused, Bool.false_eq_true, if_false]
    exact (resumes_iff tiled rfl (fun _ => rfl) rfl (crpIdx_parseOnePrecinct left)).mpr
      fun _ _ _ _ => Iff.rfl
  have moved : (w.parseOnePrecinct.setCrpIdx (w.crpIdx + 1)).crpIdx = w.crpIdx + 1 :=
    congrArg Tile.crpIdx (TileHandler.tile_setTile _ tiled)
  have parse : Resumes w.parseOnePrecinct w.crpIdx w.parseBody ↔
      ∀ sig j, w.parseOnePrecinct.nextSignal = some sig →
        w.parseOnePrecinct.handler.indexOfPid sig.pid.toNat = some j → (w.crpIdx + 1 ≤ j ↔ w.crpIdx ≤ j) := by
    simp only [parseBody, refused, Bool.false_eq_true, if_false]
    exact resumes_iff (by simpa [setCrpIdx, TileHandler.setTile] using tiled) rfl (fun _ => rfl) rfl moved
  rw [RecoversAlike, parse, and_iff_left flush]
  -- The two bounds tell only one entry apart.
  constructor
  · intro agree sig next found
    have backward := (agree sig w.crpIdx next found).mpr (Nat.le_refl _)
    omega
  · intro other sig j next found
    have apart : j ≠ w.crpIdx := fun same => other sig next (same ▸ found)
    omega

end

/-- Three packets of the first of three components. -/
def colorHandler : TileHandler :=
  { smallWalk.handler with markers.siz.csiz := 3, crpIdxByPid := [[0, 1, 2], [], []] }

/-- The first packet is refused, as in the stream above; the signal at byte 4 names the packet `pid`. -/
def refusedStart (pid : BitVec 32) : Walk :=
  { restarted colorHandler with
    handler := (restarted colorHandler).handler.appendSignal ⟨4, pid⟩
    cs := brokenStart.cs }

theorem recovers_alike_forward : (refusedStart 6).packet.1 = false ∧ (refusedStart 6).RecoversAlike := by
  have refused : (refusedStart 6).packet.1 = false := by decide +kernel
  refine ⟨refused, (recovers_alike_iff (by decide +kernel) refused).mpr ?_⟩
  have named : (refusedStart 6).parseOnePrecinct.nextSignal.map (fun sig =>
      (refusedStart 6).parseOnePrecinct.handler.indexOfPid sig.pid.toNat) ≠ some (some 0) := by decide +kernel
  intro sig next found
  have first : (refusedStart 6).crpIdx = 0 := by decide +kernel
  rw [next, Option.map_some, found, first] at named
  exact named rfl

/-- A signal for the packet that was refused: `flush` reads it again where the signal says and
goes on to the end, and `parse` gives the frame up. -/
theorem parse_gives_up : (refusedStart 0).gateOpen = true ∧ (refusedStart 0).packet.1 = false ∧
    (refusedStart 0).parse.map Prod.fst = some false ∧ (refusedStart 0).flush.1 = true ∧
    ¬ (refusedStart 0).RecoversAlike := by
  have runs : (refusedStart 0).gateOpen = true ∧ (refusedStart 0).packet.1 = false ∧
      (refusedStart 0).parse.map Prod.fst = some false ∧ (refusedStart 0).flush.1 = true ∧
      (refusedStart 0).parseBody.isSome = false ∧ (refusedStart 0).flushBody.isSome = true := by
    decide +kernel
  obtain ⟨gate, refused, parse, flush, stops, goes⟩ := runs
  refine ⟨gate, refused, parse, flush, fun alike => ?_⟩
  have same := alike.1.succeeds.trans alike.2.succeeds.symm
  rw [stops, goes] at same
  exact absurd (same.mpr rfl) (by decide)

end Walk

/-- The table of a tile handler that `create` has made ready. -/
theorem TileHandler.create_table {h h' : TileHandler} (created : h.create = some (true, h'))
    (tiled : h'.tiles ≠ []) : h'.crpIdxByPid = crpIndex h'.tile.crp := by
  obtain ⟨⟨numTilesX, numTilesY, ok, tiles⟩, _, same⟩ := Option.map_eq_some_iff.mp created
  cases same
  cases tiles with
  | nil => exact absurd rfl tiled
  | cons tile rest => rfl

end RtpDecoder.Parser
