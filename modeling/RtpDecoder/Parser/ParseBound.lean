import RtpDecoder.Parser.Incremental

/-!
# When `parse` stays in the precinct list

The loop of `parse` looks at the signals only, not at the number of precincts. Past the
end of the chain every packet reads as an empty one, so a signal that lies beyond the
bytes of the frame keeps the loop going until the list is used up.
-/

namespace RtpDecoder.Parser

variable {w w' : Walk}

namespace Walk

/-- The walk after `k` precincts of the list, taken one after the other without a look at
the signals; `none` if the list has fewer, or one of them cannot be recovered from. -/
def boundary : Nat → Walk → Option Walk
  | 0, w => some w
  | k + 1, w => if w.crpIdx < w.crpSize then w.parseBody.bind (boundary k) else none

private theorem boundary_succ (left : w.crpIdx < w.crpSize) (k : Nat) :
    w.boundary (k + 1) = w.parseBody.bind (boundary k) := by
  simp only [boundary, left, if_true]

/-- A recovery takes the first signal beyond the reader, whose precinct is not behind. -/
theorem tryRecover_spec (recovered : w.tryRecover.1 = true) :
    ∃ sig rest newCrpIdx,
      (w.handler.signalQueue.dropWhile fun sig => sig.byteOffset ≤ w.cs.getPos) = sig :: rest ∧
      w.crpIdx ≤ newCrpIdx ∧
      w.tryRecover.2 = { w with
        handler := { w.handler.setTile { w.tile with crpIdx := newCrpIdx } with signalQueue := rest }
        cs := w.cs.reset sig.byteOffset } := by
  have way := w.tryRecover_cases
  generalize w.tryRecover = r at way recovered ⊢
  cases way with
  | stuck queue => cases recovered
  | snapped first forward => exact ⟨_, _, _, first, forward, rfl⟩

/-- Of the tile, a recovery changes the place in the list only. -/
theorem tryRecover_tile (some : w.handler.tiles ≠ []) (recovered : w.tryRecover.1 = true) :
    ∃ i, w.crpIdx ≤ i ∧ w.tryRecover.2.tile = { w.tile with crpIdx := i } := by
  obtain ⟨sig, rest, newCrpIdx, _, forward, result⟩ := tryRecover_spec recovered
  refine ⟨newCrpIdx, forward, ?_⟩
  rw [result]
  exact TileHandler.tile_setTile _ some

private theorem tryRecover_place (some : w.handler.tiles ≠ [])
    (recovered : w.tryRecover.1 = true) :
    w.tryRecover.2.crpSize = w.crpSize ∧ w.crpIdx ≤ w.tryRecover.2.crpIdx := by
  obtain ⟨i, forward, tile⟩ := tryRecover_tile some recovered
  exact ⟨congrArg (fun t => t.crp.length) tile,
    Nat.le_trans forward (Nat.le_of_eq (congrArg Tile.crpIdx tile).symm)⟩

/-- Every turn of the loop moves on in the list, also one that recovers. -/
private theorem parseBody_place (left : w.crpIdx < w.crpSize)
    (went : w.parseBody = some w') : w'.crpSize = w.crpSize ∧ w.crpIdx < w'.crpIdx := by
  have size := advanceOne_crpSize left
  have index := advanceOne_crpIdx left
  simp only [parseBody] at went
  split at went
  · cases went
    exact ⟨size, by change _ < w.advanceOne.crpIdx; omega⟩
  · split at went
    next recovered =>
      cases went
      have some : (w.parseOnePrecinct.setCrpIdx (w.crpIdx + 1)).handler.tiles ≠ [] := by
        have tiles := tiles_of_lt left
        simp [setCrpIdx, parseOnePrecinct, TileHandler.setTile, tiles]
      -- The recovery starts from the index already moved on, and does not go back.
      obtain ⟨same, forward⟩ := tryRecover_place some recovered
      exact ⟨same.trans size, Nat.lt_of_lt_of_le (Nat.lt_of_lt_of_eq (Nat.lt_succ_self _)
        index.symm) forward⟩
    · cases went

theorem parseLoop_in_range (fuel : Nat) (w : Walk) (enough : w.crpSize - w.crpIdx < fuel) :
    w.parseLoop fuel ≠ none ↔ ∃ k u, w.boundary k = some u ∧
      (u.gateOpen = false ∨ (u.crpIdx < u.crpSize ∧ u.parseBody = none)) := by
  induction fuel generalizing w with
  | zero => exact absurd enough (Nat.not_lt_zero _)
  | succ fuel ih =>
    simp only [parseLoop]
    cases gate : w.gateOpen with
    | false =>
      simp only [Bool.not_false, if_true, ne_eq, reduceCtorEq, not_false_eq_true, true_iff]
      exact ⟨0, w, rfl, Or.inl gate⟩
    | true =>
      simp only [Bool.not_true, Bool.false_eq_true, if_false]
      by_cases beyond : w.crpSize ≤ w.crpIdx
      -- With the gate open at the end of the list there is no further boundary.
      · have stuck : ¬ w.crpIdx < w.crpSize := Nat.not_lt_of_le beyond
        rw [if_pos beyond]
        constructor
        · exact fun absurd_ => absurd rfl absurd_
        · rintro ⟨k, u, reached, settled⟩
          cases k with
          | zero =>
            cases reached
            rcases settled with closed | ⟨inside, _⟩
            · simp [gate] at closed
            · exact absurd inside stuck
          | succ k => simp [boundary, stuck] at reached
      · have left : w.crpIdx < w.crpSize := Nat.lt_of_not_le beyond
        rw [if_neg beyond]
        cases body : w.parseBody with
        | none =>
          simp only [ne_eq, reduceCtorEq, not_false_eq_true, true_iff]
          exact ⟨0, w, rfl, Or.inr ⟨left, body⟩⟩
        | some w' =>
          -- The boundaries of `w'` are the later ones of `w`, which itself does not stop the loop.
          obtain ⟨size, forward⟩ := parseBody_place left body
          rw [ih w' (by omega)]
          constructor
          · rintro ⟨k, u, reached, settled⟩
            exact ⟨k + 1, u, by rw [boundary_succ left, body]; exact reached, settled⟩
          · rintro ⟨k, u, reached, settled⟩
            cases k with
            | zero =>
              cases reached
              rcases settled with closed | ⟨_, dead⟩
              · simp [gate] at closed
              · simp [body] at dead
            | succ k =>
              rw [boundary_succ left, body] at reached
              exact ⟨k, u, reached, settled⟩

/-! ### Where the list ends -/

/-- No packet on the way through the list ends at a position that `get_pos` cannot hold. -/
def NoWrap (w : Walk) : Prop :=
  ∀ k u, w.boundary k = some u → u.crpIdx < u.crpSize → u.packet.2.2.pos < 2 ^ 32

theorem getPos_le {s t : Codestream} (forward : s.pos ≤ t.pos) (small : t.pos < 2 ^ 32) : s.getPos ≤ t.getPos := by
  rw [BitVec.le_def, Codestream.getPos, Codestream.getPos, BitVec.toNat_ofNat, BitVec.toNat_ofNat,
    Nat.mod_eq_of_lt small, Nat.mod_eq_of_lt (Nat.lt_of_le_of_lt forward small)]
  exact forward

theorem getPos_reset (s : Codestream) (p : BitVec 32) : (s.reset p).getPos = p := by
  have place := hop_pos s.chunks 0 p.toNat 0
  have pos : (s.reset p).pos = p.toNat := place.trans (Nat.zero_add _)
  rw [Codestream.getPos, pos, BitVec.ofNat_toNat, BitVec.setWidth_eq]

/-- A later reader with the same last signal, or with none, finds the gate closed as well. -/
private theorem closed_of_later (closed : w.gateOpen = false)
    (last : w'.handler.signalQueue.getLast? = none ∨
      w'.handler.signalQueue.getLast? = w.handler.signalQueue.getLast?)
    (later : w.cs.getPos ≤ w'.cs.getPos) : w'.gateOpen = false := by
  rcases last with none_left | same
  · simp [gateOpen, none_left]
  · unfold gateOpen at closed ⊢
    rw [same]
    split at closed
    · rfl
    next sig _ =>
      have passed : ¬ w.cs.getPos < sig.byteOffset := by simpa using closed
      have still : ¬ w'.cs.getPos < sig.byteOffset := by bv_omega
      simpa using still

/-- What `try_recover` leaves of the queue ends like the queue. -/
private theorem getLast?_of_dropWhile {queue rest : List Signal} {sig : Signal} {p : Signal → Bool}
    (dropped : queue.dropWhile p = sig :: rest) :
    rest.getLast? = none ∨ rest.getLast? = queue.getLast? := by
  cases rest with
  | nil => exact Or.inl rfl
  | cons next rest =>
    right
    rw [← List.takeWhile_append_dropWhile (p := p) (l := queue), dropped]
    simp [List.getLast?_append, List.getLast?_cons]

/-- Behind the last signal a turn of the loop does not open the gate again: packets go
forward, and so does a recovery. -/
private theorem parseBody_closed (went : w.parseBody = some w')
    (small : w.packet.2.2.pos < 2 ^ 32) (closed : w.gateOpen = false) : w'.gateOpen = false := by
  have forward : w.cs.getPos ≤ w.packet.2.2.getPos := getPos_le (readPacket_forward _ _ _).pos small
  simp only [parseBody] at went
  split at went
  · cases went
    exact closed_of_later closed (Or.inr rfl) forward
  · split at went
    next recovered =>
      cases went
      obtain ⟨sig, rest, newCrpIdx, dropped, _, result⟩ := tryRecover_spec recovered
      rw [result]
      refine closed_of_later closed (getLast?_of_dropWhile dropped) ?_
      change w.cs.getPos ≤ (Codestream.reset _ sig.byteOffset).getPos
      rw [getPos_reset]
      -- The signal in front of the queue is one beyond the reader.
      have beyond : ¬ sig.byteOffset ≤ w.packet.2.2.getPos := by
        have head := List.head?_dropWhile_not
          (fun sig : Signal => decide (sig.byteOffset ≤ w.packet.2.2.getPos)) w.handler.signalQueue
        have first : w.handler.signalQueue.dropWhile
            (fun sig => decide (sig.byteOffset ≤ w.packet.2.2.getPos)) = sig :: rest := dropped
        rw [first] at head
        simpa using head
      bv_omega
    · cases went

private theorem NoWrap.next (small : w.NoWrap) (left : w.crpIdx < w.crpSize)
    (body : w.parseBody = some w') : w'.NoWrap := by
  intro k u reached
  exact small (k + 1) u (by rw [boundary_succ left, body]; exact reached)

private theorem boundary_closed (k : Nat) {u : Walk} (reached : w.boundary k = some u)
    (small : w.NoWrap) (closed : w.gateOpen = false) : u.gateOpen = false := by
  induction k generalizing w with
  | zero =>
    cases reached
    exact closed
  | succ k ih =>
    simp only [boundary] at reached
    split at reached
    next left =>
      obtain ⟨w', body, later⟩ := Option.bind_eq_some_iff.mp reached
      exact ih later (small.next left body) (parseBody_closed body (small 0 w rfl left) closed)
    · cases reached

private theorem parseLoop_to_end (fuel : Nat) (w : Walk) (enough : w.crpSize - w.crpIdx < fuel)
    (small : w.NoWrap) :
    w.parseLoop fuel ≠ none ↔
      ∀ k u, w.boundary k = some u → u.crpSize ≤ u.crpIdx → u.gateOpen = false := by
  induction fuel generalizing w with
  | zero => exact absurd enough (Nat.not_lt_zero _)
  | succ fuel ih =>
    simp only [parseLoop]
    cases gate : w.gateOpen with
    | false =>
      -- The loop stops here, and the gate is closed from here to the end of the list.
      simp only [Bool.not_false, if_true, ne_eq, reduceCtorEq, not_false_eq_true, true_iff]
      exact fun k u reached _ => boundary_closed k reached small gate
    | true =>
      simp only [Bool.not_true, Bool.false_eq_true, if_false]
      by_cases beyond : w.crpSize ≤ w.crpIdx
      · rw [if_pos beyond]
        refine iff_of_false (fun in_range => in_range rfl) fun closed => ?_
        rw [closed 0 w rfl beyond] at gate
        cases gate
      · have left : w.crpIdx < w.crpSize := Nat.lt_of_not_le beyond
        rw [if_neg beyond]
        cases body : w.parseBody with
        | none =>
          simp only [ne_eq, reduceCtorEq, not_false_eq_true, true_iff]
          intro k u reached at_end
          cases k with
          | zero =>
            cases reached
            exact absurd at_end beyond
          | succ k =>
            rw [boundary_succ left, body] at reached
            cases reached
        | some w' =>
          obtain ⟨size, forward⟩ := parseBody_place left body
          rw [ih w' (by omega) (small.next left body)]
          constructor
          · intro closed k u reached at_end
            cases k with
            | zero =>
              cases reached
              exact absurd at_end beyond
            | succ k =>
              rw [boundary_succ left, body] at reached
              exact closed k u reached at_end
          · intro closed k u reached
            exact closed (k + 1) u (by rw [boundary_succ left, body]; exact reached)

/-- As long as positions do not wrap, `parse` ends inside the precinct list exactly when a walk
over the remaining precincts, one by one and without a look at the gate, does not get to the end
of the list with the last signal still ahead. In any case it does exactly when on this walk the
reader comes to stand at or behind the last signal, or a precinct fails for good, before the list
is used up (`parseLoop_in_range`). -/
theorem parse_in_range_iff (w : Walk) :
    (w.NoWrap → (w.parse ≠ none ↔
      ∀ k u, w.boundary k = some u → u.crpSize ≤ u.crpIdx → u.gateOpen = false)) ∧
    (w.parse ≠ none ↔ ∃ k u, w.boundary k = some u ∧
      (u.gateOpen = false ∨ (u.crpIdx < u.crpSize ∧ u.parseBody = none))) :=
  ⟨parseLoop_to_end _ w (Nat.lt_succ_self _), parseLoop_in_range _ w (Nat.lt_succ_self _)⟩

/-- Three precincts left, no byte of the body yet, and a signal five bytes ahead. -/
theorem parse_overruns : (smallWalk.announce (some ⟨5, 0⟩)).parse = none := by decide +kernel

end Walk

end RtpDecoder.Parser
