import RtpDecoder.Parser.TileHandler
import RtpDecoder.Parser.ChainReader
import Mathlib.Logic.Function.Iterate

/-!
# Steps of a walk

One precinct read without failure, as both loops do it, and what a row of such steps
does to the walk: the place in the precinct list, the reader and the reports.
-/

namespace RtpDecoder.Parser

variable {w w' : Walk}

namespace TileHandler

theorem tile_setTile {h : TileHandler} (t : Tile) (some : h.tiles ≠ []) : (h.setTile t).tile = t := by
  cases tiles : h.tiles with
  | nil => exact absurd tiles some
  | cons first rest => simp [tile, setTile, tiles]

end TileHandler

namespace Walk

/-- One precinct read without failure, and its callback. -/
def advanceOne (w : Walk) : Walk :=
  { w.parseOnePrecinct.setCrpIdx (w.crpIdx + 1) with reports := w.report :: w.reports }

theorem parseBody_of_packet (ok : w.packet.1 = true) : w.parseBody = some w.advanceOne := by
  simp only [parseBody, ok, if_true]
  rfl

theorem flushBody_of_packet (ok : w.packet.1 = true) : w.flushBody = some w.advanceOne := by
  simp only [flushBody, ok, if_true]
  rfl

/-- One turn of either loop: a packet is read, and then reported or recovered from. `next`
is the walk in between, whose place in the list is up to the loop. -/
inductive Turn (w : Walk) : Walk → Prop where
  | reported (next : Walk) (cs : next.cs = w.packet.2.2) (ok : w.packet.1 = true) :
    Turn w { next with reports := w.report :: w.reports }
  | recovered (next : Walk) (cs : next.cs = w.packet.2.2) (reports : next.reports = w.reports)
    (ok : next.tryRecover.1 = true) : Turn w next.tryRecover.2

theorem parseBody_turn (went : w.parseBody = some w') : w.Turn w' := by
  simp only [parseBody] at went
  split at went
  next ok =>
    cases went
    exact .reported (w.parseOnePrecinct.setCrpIdx (w.crpIdx + 1)) rfl ok
  · split at went
    next ok =>
      cases went
      exact .recovered _ rfl rfl ok
    · cases went

theorem flushBody_turn (went : w.flushBody = some w') : w.Turn w' := by
  simp only [flushBody] at went
  split at went
  next ok =>
    cases went
    exact .reported (w.parseOnePrecinct.setCrpIdx (w.crpIdx + 1)) rfl ok
  · split at went
    next ok =>
      cases went
      exact .recovered _ rfl rfl ok
    · cases went

/-- What `try_recover` does: it drops signals, or takes the first signal beyond the reader, whose
precinct is not behind. -/
inductive Recovery (w : Walk) : Bool × Walk → Prop where
  | stuck (queue : List Signal) :
    Recovery w (false, { w with handler := { w.handler with signalQueue := queue } })
  | snapped {sig : Signal} {rest : List Signal} {newCrpIdx : Nat}
    (first : (w.handler.signalQueue.dropWhile fun sig => sig.byteOffset ≤ w.cs.getPos) = sig :: rest)
    (forward : w.crpIdx ≤ newCrpIdx) :
    Recovery w (true, { w with
      handler := { w.handler.setTile { w.tile with crpIdx := newCrpIdx } with signalQueue := rest }
      cs := w.cs.reset sig.byteOffset })

theorem tryRecover_cases (w : Walk) : w.Recovery w.tryRecover := by
  simp only [tryRecover]
  split
  · exact .stuck _
  next sig rest queue =>
    split
    · exact .stuck _
    split
    · exact .stuck _
    split
    · exact .stuck _
    next forward => exact .snapped queue (Nat.le_of_not_lt forward)

theorem tryRecover_reports (w : Walk) : w.tryRecover.2.reports = w.reports := by
  have way := w.tryRecover_cases
  generalize w.tryRecover = r at way ⊢
  cases way <;> rfl

theorem tiles_of_lt (left : w.crpIdx < w.crpSize) : w.handler.tiles ≠ [] := by
  intro none
  simp [crpSize, tile, TileHandler.tile, none] at left

theorem advanceOne_tile (left : w.crpIdx < w.crpSize) :
    w.advanceOne.tile = { w.tile.setPrec w.current w.packet.2.1 with crpIdx := w.crpIdx + 1 } := by
  have some := tiles_of_lt left
  have first : w.parseOnePrecinct.tile = w.tile.setPrec w.current w.packet.2.1 :=
    TileHandler.tile_setTile _ some
  have still : w.parseOnePrecinct.handler.tiles ≠ [] := by
    simp [parseOnePrecinct, TileHandler.setTile, some]
  have second : w.advanceOne.tile = { w.parseOnePrecinct.tile with crpIdx := w.crpIdx + 1 } :=
    TileHandler.tile_setTile _ still
  rw [second, first]

theorem advanceOne_crpIdx (left : w.crpIdx < w.crpSize) : w.advanceOne.crpIdx = w.crpIdx + 1 := by
  rw [crpIdx, advanceOne_tile left]

theorem advanceOne_crpSize (left : w.crpIdx < w.crpSize) : w.advanceOne.crpSize = w.crpSize := by
  rw [crpSize, advanceOne_tile left]
  rfl

theorem advanceOne_forward (w : Walk) : w.cs.Forward w.advanceOne.cs :=
  readPacket_forward _ _ _

/-! ### Rows of steps -/

/-- The walk after `i` precincts were read without failure. -/
def after (w : Walk) (i : Nat) : Walk := advanceOne^[i] w

@[simp] theorem after_zero (w : Walk) : w.after 0 = w := rfl

theorem after_succ (w : Walk) (i : Nat) : w.after (i + 1) = (w.after i).advanceOne :=
  Function.iterate_succ_apply' _ _ _

theorem after_advanceOne (w : Walk) (i : Nat) : w.advanceOne.after i = w.after (i + 1) := rfl

theorem after_after (w : Walk) (i j : Nat) : (w.after i).after j = w.after (i + j) := by
  rw [after, after, ← Function.iterate_add_apply, Nat.add_comm]
  rfl

theorem after_place {i : Nat} (bound : i ≤ w.crpSize - w.crpIdx) :
    (w.after i).crpSize = w.crpSize ∧
      (0 < w.crpSize - w.crpIdx → (w.after i).crpIdx = w.crpIdx + i) := by
  induction i with
  | zero => exact ⟨rfl, fun _ => rfl⟩
  | succ i ih =>
    obtain ⟨size, index⟩ := ih (by omega)
    have here := index (by omega)
    have left : (w.after i).crpIdx < (w.after i).crpSize := by omega
    rw [after_succ, advanceOne_crpSize left, advanceOne_crpIdx left]
    exact ⟨size, fun _ => by omega⟩

theorem after_forward {i j : Nat} (le : i ≤ j) : (w.after i).cs.Forward (w.after j).cs := by
  induction le with
  | refl => exact Codestream.Forward.refl _
  | step _ ih =>
    rw [after_succ]
    exact ih.trans (advanceOne_forward _)

theorem after_reports (w : Walk) (i : Nat) (rep : Report) (member : rep ∈ (w.after i).reports) :
    rep ∈ w.reports ∨ ∃ j < i, rep = (w.after j).report := by
  induction i with
  | zero => exact Or.inl member
  | succ i ih =>
    rw [after_succ] at member
    rcases List.mem_cons.mp member with new | old
    · exact Or.inr ⟨i, Nat.lt_succ_self i, new⟩
    · rcases ih old with before | ⟨j, below, here⟩
      · exact Or.inl before
      · exact Or.inr ⟨j, Nat.lt_succ_of_lt below, here⟩

/-! ### `flush` without recovery -/

private theorem tryRecover_without_signals (quiet : w.handler.signalQueue = []) : w.tryRecover.1 = false := by
  simp [tryRecover, quiet]

/-- `flush` succeeds without signals only by reading every packet that is left. -/
theorem packets_of_flushLoop (fuel : Nat) (quiet : w.handler.signalQueue = [])
    (success : (flushLoop fuel w).1 = true) :
    ∀ i < w.crpSize - w.crpIdx, i < fuel → (w.after i).packet.1 = true := by
  induction fuel generalizing w with
  | zero => exact fun i _ impossible => absurd impossible (Nat.not_lt_zero i)
  | succ fuel ih =>
    intro i bound within
    simp only [flushLoop] at success
    rw [if_neg (by omega)] at success
    -- Without a signal to recover with, a failed packet would have ended `flush`.
    have ok : w.packet.1 = true := by
      by_contra bad
      have stuck : w.flushBody = none := by
        simp only [flushBody, bad, if_false]
        rw [tryRecover_without_signals (by exact quiet)]
        rfl
      simp [stuck] at success
    have left : w.crpIdx < w.crpSize := by omega
    simp only [flushBody_of_packet ok] at success
    cases i with
    | zero => exact ok
    | succ i =>
      rw [← after_advanceOne]
      refine ih (by exact quiet) success i ?_ (by omega)
      rw [advanceOne_crpSize left, advanceOne_crpIdx left]
      omega

theorem flushLoop_of_packets (fuel : Nat) (enough : w.crpSize - w.crpIdx ≤ fuel)
    (packets : ∀ i < w.crpSize - w.crpIdx, (w.after i).packet.1 = true) :
    flushLoop fuel w = (true, w.after (w.crpSize - w.crpIdx)) := by
  induction fuel generalizing w with
  | zero => rw [flushLoop, Nat.le_zero.mp enough, after_zero]
  | succ fuel ih =>
    simp only [flushLoop]
    split
    next finished => rw [Nat.sub_eq_zero_of_le finished, after_zero]
    next unfinished =>
      have left : w.crpIdx < w.crpSize := Nat.lt_of_not_le unfinished
      have size := advanceOne_crpSize left
      have index := advanceOne_crpIdx left
      have ok : w.packet.1 = true := packets 0 (by omega)
      simp only [flushBody_of_packet ok]
      -- The packets left after this one are the given ones from the second on.
      rw [ih (by omega) (fun i bound => packets (i + 1) (by omega)), after_advanceOne, size, index]
      congr 2
      omega

end Walk

end RtpDecoder.Parser
