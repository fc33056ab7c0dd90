import RtpDecoder.Frame.Hatch
import RtpDecoder.Frame.Terminal

/-!
# The frame counters

`total_frames` should grow by one for every frame that was opened and has ended, and
`trunc_frames` by one for those that died. Beside the handler stand the books of its frames:
where the counters stood when the frame in flight was opened, and what each frame that has
ended has added to them.
-/

namespace RtpDecoder.Frame

variable {T : Type}

/-- A frame in flight: the counters when its main packet opened it, and whether it has died since. -/
structure Opening where
  total : Nat
  trunc : Nat
  died : Bool := false
deriving DecidableEq, Repr

/-- A frame that has ended: what the counters have grown by, and whether it had died. -/
structure Closing where
  total : Nat
  trunc : Nat
  died : Bool
deriving DecidableEq, Repr

/-- One frame more in `total_frames`, and in `trunc_frames` if it had died. A frame that is abandoned,
for a missed EOC or at the slab cap, is not one that died: it may be counted there or not. -/
structure Closing.Honest (c : Closing) : Prop where
  total : c.total = 1
  trunc : c.trunc ≤ 1
  died : c.died = true → c.trunc = 1

structure Books where
  inFlight : Option Opening := none
  closed : List Closing := []
deriving DecidableEq, Repr

namespace Books

def died (b : Books) : Bool := b.inFlight.any Opening.died

/-- Whether all frames that have ended were counted as they should. -/
def Honest (b : Books) : Prop := ∀ c ∈ b.closed, c.Honest

def die (dies : Bool) (b : Books) : Books :=
  { b with inFlight := b.inFlight.map fun o => { o with died := o.died || dies } }

/-- The frame in flight, if there is one, ends at these counters. -/
def close (s : FrameHandler T) (b : Books) : Books :=
  match b.inFlight with
  | none => b
  | some o => { closed := ⟨s.totalFrames - o.total, s.truncFrames - o.trunc, o.died⟩ :: b.closed }

def openFrame (s : FrameHandler T) (b : Books) : Books :=
  { b with inFlight := some { total := s.totalFrames, trunc := s.truncFrames } }

variable (cb : Callbacks) (ops : TileOps T)

/-- In front of a packet: a gap that is not accepted kills the frame in flight, and the slab cap
ends it. -/
def enter (p : Packet) (s : FrameHandler T) (b : Books) : Books :=
  let b := b.die (p.gap && !(cb.resyncGap && s.isPassedHeader && p.gapAnswer))
  if 3072 ≤ s.heldSlabs.length then b.close (s.entered cb ops p) else b

/-- A main packet ends the frame before it and opens its own. -/
def start (p : Packet) (u : FrameHandler T) (b : Books) : Books :=
  if p.mh = 0 then b else (b.close (u.closeMissed cb ops)).openFrame (u.closeMissed cb ops)

/-- The frame may end with the packet that has taken the handler to `s'`. -/
def last (ended : Bool) (s' : FrameHandler T) (b : Books) : Books := if ended then b.close s' else b

/-- A header that is refused, a precinct that does not parse or the `flush` of the last precincts
kills the frame. -/
def finish (p : Packet) (s : FrameHandler T) (b : Books) : Books :=
  (b.die (s.refuses cb ops p || decide (p.mh = 0) && (s.entered cb ops p).parseFails ops p ||
    s.flushFails cb ops p)).last (s.endsAtMarker cb ops p) (s.pullData cb ops p)

/-- The books after a packet that finds the handler `s`. -/
def after (p : Packet) (s : FrameHandler T) (b : Books) : Books :=
  ((b.enter cb ops p s).start cb ops p (s.entered cb ops p)).finish cb ops p s

end Books

namespace FrameHandler

variable (cb : Callbacks) (ops : TileOps T)

/-- A call of `pull_data`, with the books beside it. -/
def keepBooks (x : FrameHandler T × Books) (p : Packet) : FrameHandler T × Books :=
  (x.1.pullData cb ops p, x.2.after cb ops p x.1)

/-- There is a frame that no flag tells of: a part of its main header is all that has come, on a
stream that is not latched. -/
def unnoticed (s : FrameHandler T) : Bool := !s.heldSlabs.isEmpty && !s.isPassedHeader && !s.isParsingFailure

/-- The packet meets the slab cap, or it ends a frame that was not noticed. -/
def miscounts (s : FrameHandler T) (p : Packet) : Bool :=
  decide (3072 ≤ s.heldSlabs.length) || (s.unnoticed && !p.gap && (decide (p.mh ≠ 0) || p.marker))

/-! ### The books and the flags -/

/-- The frame in flight is the one whose slabs are held; it has added nothing so far, and a flag
tells of its death. -/
structure Kept (b : Books) (s : FrameHandler T) : Prop where
  flight : b.inFlight.isSome = !s.heldSlabs.isEmpty
  tracked : s.isPassedHeader = true ∨ s.isParsingFailure = true → s.heldSlabs ≠ []
  current : ∀ o ∈ b.inFlight, o.total = s.totalFrames ∧ o.trunc = s.truncFrames
  died : b.died = true → s.isParsingFailure = true
  counted : b.Honest → s.totalFrames = b.closed.length ∧ s.truncFrames ≤ s.totalFrames

section

variable {cb ops} {b : Books} {s s' : FrameHandler T} {p : Packet}

private theorem Kept.held_of_some (kept : Kept b s) {o : Opening} (flying : b.inFlight = some o) :
    s.heldSlabs ≠ [] := by
  have flight := kept.flight
  rw [flying] at flight
  simpa using flight.symm

private theorem Kept.within (kept : Kept b s) (dies : Bool) (held : s'.heldSlabs = [] ↔ s.heldSlabs = [])
    (counters : s'.totalFrames = s.totalFrames ∧ s'.truncFrames = s.truncFrames)
    (tracked : s'.isPassedHeader = true ∨ s'.isParsingFailure = true → s.heldSlabs ≠ [])
    (fails : s.heldSlabs ≠ [] → s.isParsingFailure = true ∨ dies = true → s'.isParsingFailure = true) :
    Kept (b.die dies) s' where
  flight := by
    have same : s'.heldSlabs.isEmpty = s.heldSlabs.isEmpty := by
      rw [Bool.eq_iff_iff, List.isEmpty_iff, List.isEmpty_iff, held]
    simpa [Books.die, same] using kept.flight
  tracked flags := mt held.mp (tracked flags)
  current := by
    intro o flying
    simp only [Books.die, Option.mem_def, Option.map_eq_some_iff] at flying
    obtain ⟨before, flying, rfl⟩ := flying
    rw [counters.1, counters.2]
    exact kept.current before flying
  died := by
    intro died
    cases flying : b.inFlight with
    | none => simp [Books.died, Books.die, flying] at died
    | some o =>
      refine fails (kept.held_of_some flying) ?_
      simp only [Books.died, Books.die, flying, Option.map_some, Option.any_some, Bool.or_eq_true] at died
      exact died.imp_left fun before => kept.died (by simp [Books.died, flying, before])
  counted := by
    rw [counters.1, counters.2]
    exact kept.counted

private theorem kept_idle (gone : b.inFlight = none) (released : s.heldSlabs = [])
    (idle : s.isPassedHeader = false ∧ s.isParsingFailure = false)
    (counted : b.Honest → s.totalFrames = b.closed.length ∧ s.truncFrames ≤ s.totalFrames) : Kept b s where
  flight := by simp [gone, released]
  tracked := by simp [idle]
  current := by simp [gone]
  died := by simp [Books.died, gone]
  counted := counted

/-- The frame in flight ends, if there is one, and the counters grow. -/
private theorem Kept.close (kept : Kept b s) (s' : FrameHandler T) (i j : Nat) (released : s'.heldSlabs = [])
    (idle : s'.isPassedHeader = false ∧ s'.isParsingFailure = false)
    (counters : s'.totalFrames = s.totalFrames + i ∧ s'.truncFrames = s.truncFrames + j)
    (none : s.heldSlabs = [] → i = 0 ∧ j = 0) :
    Kept (b.close s') s' ∧
      ((b.close s').Honest ↔ b.Honest ∧ (s.heldSlabs ≠ [] → i = 1 ∧ j ≤ 1 ∧ (b.died = true → j = 1))) := by
  cases flying : b.inFlight with
  | none =>
    have held : s.heldSlabs = [] := by
      have flight := kept.flight
      rw [flying] at flight
      simpa using flight.symm
    obtain ⟨rfl, rfl⟩ := none held
    have same : b.close s' = b := by simp [Books.close, flying]
    rw [same]
    refine ⟨kept_idle flying released idle ?_, by simp [held]⟩
    rw [counters.1, counters.2]
    exact kept.counted
  | some o =>
    obtain ⟨atTotal, atTrunc⟩ := kept.current o flying
    have closed : (b.close s').closed = ⟨i, j, o.died⟩ :: b.closed := by
      simp [Books.close, flying, counters, atTotal, atTrunc]
    have gone : (b.close s').inFlight = Option.none := by simp [Books.close, flying]
    have died : b.died = o.died := by simp [Books.died, flying]
    have honest : (b.close s').Honest ↔
        b.Honest ∧ (s.heldSlabs ≠ [] → i = 1 ∧ j ≤ 1 ∧ (b.died = true → j = 1)) := by
      simp only [Books.Honest, closed, List.forall_mem_cons, died, kept.held_of_some flying, ne_eq, not_false_eq_true,
        true_implies]
      exact ⟨fun ⟨new, old⟩ => ⟨old, new.total, new.trunc, new.died⟩,
        fun ⟨old, total, trunc, died⟩ => ⟨⟨total, trunc, died⟩, old⟩⟩
    refine ⟨kept_idle gone released idle fun all => ?_, honest⟩
    obtain ⟨old, new⟩ := honest.mp all
    obtain ⟨one, most, _⟩ := new (kept.held_of_some flying)
    obtain ⟨total, trunc⟩ := kept.counted old
    rw [closed, List.length_cons]
    omega

private theorem honest_die (dies : Bool) : (b.die dies).Honest ↔ b.Honest := Iff.rfl

/-! ### The parts of a call -/

private theorem onGap_held (s : FrameHandler T) : (s.onGap cb p).heldSlabs = s.heldSlabs := by
  simp only [onGap]
  split
  · split <;> rfl
  · rfl

private theorem Kept.onGap (kept : Kept b s) (p : Packet) :
    Kept (b.die (p.gap && !(cb.resyncGap && s.isPassedHeader && p.gapAnswer))) (s.onGap cb p) := by
  simp only [FrameHandler.onGap]
  split
  next hit =>
    simp only [Bool.and_eq_true, Bool.not_eq_true', Bool.or_eq_true, List.isEmpty_eq_false_iff] at hit
    obtain ⟨⟨gap, flying⟩, sane⟩ := hit
    have held : s.heldSlabs ≠ [] := flying.elim (fun passed => kept.tracked (Or.inl passed)) id
    split
    next accepted =>
      refine kept.within _ Iff.rfl ⟨rfl, rfl⟩ (fun _ => held) fun _ fails => ?_
      simp [sane, accepted] at fails
    · exact kept.within _ Iff.rfl ⟨rfl, rfl⟩ (fun _ => held) fun _ _ => rfl
  next quiet =>
    refine kept.within _ Iff.rfl ⟨rfl, rfl⟩ kept.tracked fun held fails => ?_
    -- With a frame in flight, a gap is overlooked only if the frame has died before.
    rcases fails with failed | dies
    · exact failed
    · rw [Bool.and_eq_true] at dies
      have open_frame : s.heldSlabs.isEmpty = false := List.isEmpty_eq_false_iff.mpr held
      simpa [dies.1, open_frame] using quiet

theorem Kept.entered (kept : Kept b s) (p : Packet) :
    Kept (b.enter cb ops p s) (s.entered cb ops p) ∧
      ((b.enter cb ops p s).Honest ↔ b.Honest ∧ s.heldSlabs.length < 3072) := by
  have gap : Kept _ (s.onGap cb p) := kept.onGap p
  have held : (s.onGap cb p).heldSlabs = s.heldSlabs := onGap_held s
  simp only [Books.enter, FrameHandler.entered]
  by_cases full : 3072 ≤ s.heldSlabs.length
  · have some_held : s.heldSlabs ≠ [] := by
      rintro empty
      simp [empty] at full
    have capped : (s.onGap cb p).onSlabCap cb ops = _ := if_pos (held.symm ▸ full)
    rw [if_pos full]
    obtain ⟨kept', honest⟩ := gap.close ((s.onGap cb p).onSlabCap cb ops) 0 1
      (by rw [capped]; rfl) (by rw [capped]; exact ⟨rfl, rfl⟩) (by rw [capped]; exact ⟨rfl, rfl⟩)
      (fun empty => absurd (held ▸ empty) some_held)
    refine ⟨kept', honest.trans ?_⟩
    rw [held]
    simp [some_held, full]
  · have free : (s.onGap cb p).onSlabCap cb ops = s.onGap cb p := if_neg (held.symm ▸ full)
    rw [if_neg full, free, honest_die]
    exact ⟨gap, by simp [Nat.lt_of_not_le full]⟩

/-- What a frame adds when it is abandoned: to both counters, if a flag tells of it. -/
private theorem Kept.abandon (kept : Kept b s) (s' : FrameHandler T) (released : s'.heldSlabs = [])
    (idle : s'.isPassedHeader = false ∧ s'.isParsingFailure = false)
    (counters : s'.totalFrames = s.totalFrames + (s.isPassedHeader || s.isParsingFailure).toNat ∧
      s'.truncFrames = s.truncFrames + (s.isPassedHeader || s.isParsingFailure).toNat) :
    Kept (b.close s') s' ∧ ((b.close s').Honest ↔ b.Honest ∧ s.unnoticed = false) := by
  have quiet (empty : s.heldSlabs = []) : (s.isPassedHeader || s.isParsingFailure) = false := by
    rw [Bool.eq_false_iff]
    intro flags
    exact kept.tracked (by simpa using flags) empty
  obtain ⟨kept', honest⟩ := kept.close s' _ _ released idle counters (fun empty => by simp [quiet empty])
  refine ⟨kept', honest.trans (and_congr_right fun _ => ?_)⟩
  by_cases held : s.heldSlabs = []
  · simp [unnoticed, held]
  · have open_frame : s.heldSlabs.isEmpty = false := List.isEmpty_eq_false_iff.mpr held
    cases passed : s.isPassedHeader <;> cases failed : s.isParsingFailure <;>
      simp [unnoticed, held, open_frame, passed, failed]

private theorem Kept.openFrame (kept : Kept b s) (p : Packet) : Kept (b.openFrame s) (s.appendPacket cb true p) where
  flight := by simp [Books.openFrame, appendPacket]
  tracked _ := by simp [appendPacket]
  current := by
    intro o opened
    cases opened
    exact ⟨rfl, rfl⟩
  died died := by cases died
  counted := kept.counted

theorem closeMissed_counters (cb : Callbacks) (ops : TileOps T) (u : FrameHandler T)
    (tracked : u.isPassedHeader = true ∨ u.isParsingFailure = true → u.heldSlabs ≠ []) :
    (u.closeMissed cb ops).heldSlabs = [] ∧ (u.closeMissed cb ops).isPassedHeader = false ∧
      (u.closeMissed cb ops).totalFrames = u.totalFrames + (u.isPassedHeader || u.isParsingFailure).toNat ∧
      (u.closeMissed cb ops).truncFrames = u.truncFrames + (u.isPassedHeader || u.isParsingFailure).toNat := by
  simp only [closeMissed]
  split
  next empty =>
    have none_held := List.isEmpty_iff.mp empty
    have quiet : ¬ (u.isPassedHeader = true ∨ u.isParsingFailure = true) := fun flags => tracked flags none_held
    simp only [not_or, Bool.not_eq_true] at quiet
    simp [none_held, quiet]
  · split
    next flags =>
      have told : (u.isPassedHeader || u.isParsingFailure) = true := flags
      rw [told]
      exact ⟨rfl, rfl, rfl, rfl⟩
    next flags =>
      have silent : (u.isPassedHeader || u.isParsingFailure) = false := Bool.eq_false_iff.mpr flags
      rw [silent]
      exact ⟨rfl, rfl, rfl, rfl⟩

/-- A main packet opens a frame behind the one that it abandons. -/
private theorem Kept.opened (kept : Kept b s) (p : Packet) (main : p.mh ≠ 0) :
    Kept (b.start cb ops p s) (s.opened cb ops p) ∧
      ((b.start cb ops p s).Honest ↔ b.Honest ∧ s.unnoticed = false) := by
  obtain ⟨released, idle, total, trunc⟩ := closeMissed_counters cb ops s kept.tracked
  obtain ⟨kept', honest⟩ := kept.abandon
    { s.closeMissed cb ops with isParsingFailure := false, frameParseFailed := false }
    released ⟨idle, rfl⟩ ⟨total, trunc⟩
  simp only [Books.start, if_neg main]
  exact ⟨kept'.openFrame p, honest⟩

/-- What a skipped packet does; at the marker the frame in flight is abandoned. -/
private theorem Kept.skipBody (kept : Kept b s) (p : Packet) :
    let b' := b.last (p.marker && (s.skipBody cb ops p).heldSlabs.isEmpty) (s.skipBody cb ops p)
    Kept b' (s.skipBody cb ops p) ∧ (b'.Honest ↔ b.Honest ∧ (p.marker = true → s.unnoticed = false)) := by
  unfold Books.last
  cases marked : p.marker with
  | false =>
    have skipped : s.skipBody cb ops p = s.emit cb.releaseSlab (.releaseSlab p.slabIdx) := by
      simp [FrameHandler.skipBody, marked]
    rw [skipped]
    exact ⟨⟨kept.flight, kept.tracked, kept.current, kept.died, kept.counted⟩, by simp⟩
  | true =>
    rw [skipBody_released cb ops marked]
    simp only [List.isEmpty_nil, Bool.and_self, if_true, true_implies]
    refine kept.abandon _ (skipBody_released cb ops marked s) ?_ ?_
    · simp only [FrameHandler.skipBody, marked, if_true]
      exact ⟨rfl, rfl⟩
    · rw [Bool.or_comm]
      cases told : s.isParsingFailure || s.isPassedHeader <;>
        simp [FrameHandler.skipBody, marked, told, emit, restartTile, releaseHeldSlabs, countDamaged, endFrameStreak,
          fireAbort]

private theorem Kept.bodyPacket (kept : Kept b s) (passed : s.isPassedHeader = true) (p : Packet) :
    Kept (b.die (s.parseFails ops p)) (s.bodyPacket cb ops p) := by
  have held := kept.tracked (Or.inl passed)
  have counters : (s.bodyPacket cb ops p).totalFrames = s.totalFrames ∧
      (s.bodyPacket cb ops p).truncFrames = s.truncFrames := by
    simp only [FrameHandler.bodyPacket, walkPrecincts]
    split
    · split
      · split <;> exact ⟨rfl, rfl⟩
      · exact ⟨rfl, rfl⟩
    · exact ⟨rfl, rfl⟩
  refine kept.within _ ?_ counters (fun _ => held) fun _ fails => ?_
  · exact iff_of_false (Holds.bodyPacket_held p s) held
  · obtain ⟨point, moved⟩ := bodyPacket_ledger cb ops p s
    have failure : (s.bodyPacket cb ops p).isParsingFailure =
        (s.ledger.body cb p point (s.parseFails ops p)).failure := congrArg Ledger.failure moved
    rw [failure]
    cases unparsed : s.parseFails ops p with
    | true => cases point <;> rfl
    | false =>
      have failed : s.isParsingFailure = true := by simpa [unparsed] using fails
      cases point <;> exact failed

theorem main_counters {u : FrameHandler T} {r : Bool × FrameHandler T} (step : MainStep cb ops p u r) :
    (r.2.totalFrames = u.totalFrames ∧ r.2.truncFrames = u.truncFrames) ∧
      (2 ≤ p.mh → r.1 = false → r.2.isParsingFailure = true) := by
  cases step with
  | refused _ _ _ => exact ⟨⟨rfl, rfl⟩, fun _ _ => rfl⟩
  | resumed _ _ _ _ | continued _ _ _ => exact ⟨⟨rfl, rfl⟩, fun _ h => by cases h⟩
  | collected _ incomplete _ => exact ⟨⟨rfl, rfl⟩, fun complete _ => absurd incomplete (Nat.not_lt.mpr complete)⟩
  | unparsed _ same _ | uncreated _ same _ _ =>
    rw [same, unlatched_eq]
    exact ⟨⟨rfl, rfl⟩, fun _ _ => rfl⟩
  | latched _ same _ =>
    rw [announce_eq, same, unlatched_eq]
    exact ⟨⟨rfl, rfl⟩, fun _ h => by cases h⟩

private theorem Kept.main {r : Bool × FrameHandler T} (kept : Kept b (s.arrived cb ops p))
    (held : (s.arrived cb ops p).heldSlabs ≠ []) (step : MainStep cb ops p (s.arrived cb ops p) r) :
    Kept (b.die (s.refuses cb ops p)) r.2 := by
  obtain ⟨counters, fails⟩ := main_counters step
  refine kept.within _ (by rw [Holds.main_held step]) counters (fun _ => held) fun _ dies => ?_
  rcases dies with failed | refused
  · cases failed
  · simp only [refuses, Bool.and_eq_true, decide_eq_true_eq, Bool.not_eq_true'] at refused
    rw [acceptsHeader_eq cb ops refused.1 step] at refused
    exact fails refused.1 refused.2

/-- The EOC block counts every frame, and as damaged the one that has failed. -/
private theorem Kept.endFrame (kept : Kept b s) (held : s.heldSlabs ≠ []) :
    let dead := b.die (s.looksIntact && !(ops.flush s.tileHndr s.cs).1)
    Kept (dead.close (s.endFrame cb ops)) (s.endFrame cb ops) ∧
      ((dead.close (s.endFrame cb ops)).Honest ↔ b.Honest) := by
  intro dead
  have still : (s.flushFrame ops).heldSlabs = s.heldSlabs := by
    simp only [flushFrame]
    split
    · split <;> rfl
    · rfl
  have flushed : Kept dead (s.flushFrame ops) := by
    refine kept.within _ (by rw [still]) ?_ (fun _ => held) ?_
    · simp only [flushFrame]
      split
      · split <;> exact ⟨rfl, rfl⟩
      · exact ⟨rfl, rfl⟩
    · intro _ dies
      simp only [flushFrame]
      cases intact : s.looksIntact with
      | false => simpa [intact] using dies
      | true =>
        have sane : s.isParsingFailure = false := by
          simp only [looksIntact, Bool.and_eq_true, Bool.not_eq_true'] at intact
          exact intact.1.1
        simp only [intact, sane, Bool.true_and, Bool.false_eq_true, false_or, Bool.not_eq_true'] at dies
        simp [dies]
  obtain ⟨kept', honest⟩ := flushed.close (s.endFrame cb ops) 1 (s.flushFrame ops).isParsingFailure.toNat rfl
    ⟨rfl, rfl⟩ ⟨rfl, rfl⟩ (fun empty => absurd (still ▸ empty) held)
  refine ⟨kept', honest.trans (and_iff_left fun _ => ⟨rfl, Bool.toNat_le _, fun died => ?_⟩)⟩
  rw [flushed.died died]
  rfl

private theorem die_or (x y : Bool) (b : Books) : b.die (x || y) = (b.die x).die y := by
  obtain ⟨inFlight, closed⟩ := b
  cases inFlight <;> simp [Books.die, Bool.or_assoc]

private theorem die_false (b : Books) : b.die false = b := by
  obtain ⟨inFlight, closed⟩ := b
  cases inFlight <;> simp [Books.die]

/-- A packet that was taken up, and the EOC block if it is the last one. -/
private theorem Kept.taken (kept : Kept b s) (held : s.heldSlabs ≠ []) (go : Bool) (p : Packet) :
    let s' := FrameHandler.close cb ops p (go, s)
    let b' := (b.die (go && p.marker && s.looksIntact && !(ops.flush s.tileHndr s.cs).1)).last
      (p.marker && s'.heldSlabs.isEmpty) s'
    Kept b' s' ∧ (b'.Honest ↔ b.Honest) := by
  simp only [FrameHandler.close, Books.last]
  cases ended : go && p.marker with
  | true =>
    have marked : p.marker = true := (Bool.and_eq_true_iff.mp ended).2
    have released : (s.endFrame cb ops).heldSlabs = [] := rfl
    simp only [if_true, Bool.true_and, marked, released, List.isEmpty_nil]
    exact kept.endFrame held
  | false =>
    have open_frame : s.heldSlabs.isEmpty = false := List.isEmpty_eq_false_iff.mpr held
    simp only [Bool.false_eq_true, if_false, Bool.false_and, open_frame, Bool.and_false, die_false, and_true]
    exact kept

private theorem unnoticed_entered (below : s.heldSlabs.length < 3072) :
    (s.entered cb ops p).unnoticed = (s.unnoticed && !p.gap) := by
  have held : (s.onGap cb p).heldSlabs = s.heldSlabs := onGap_held s
  have free : s.entered cb ops p = s.onGap cb p := if_neg (held.symm ▸ Nat.not_le.mpr below)
  rw [free]
  simp only [onGap]
  split
  next hit =>
    simp only [Bool.and_eq_true] at hit
    rw [hit.1.1]
    split
    next accepted =>
      simp only [Bool.and_eq_true] at accepted
      simp [unnoticed, emit, accepted]
    · simp [unnoticed, failFrame]
  next quiet =>
    cases gap : p.gap with
    | false => simp
    | true =>
      -- A gap is overlooked if nothing is held, or if a flag has told of the frame.
      rw [Bool.not_true, Bool.and_false, Bool.eq_false_iff]
      intro open_frame
      simp only [unnoticed, Bool.and_eq_true, Bool.not_eq_true'] at open_frame
      simp [gap, open_frame] at quiet

private theorem miscounts_eq_false (cb : Callbacks) (ops : TileOps T) (s : FrameHandler T) (p : Packet) :
    s.miscounts p = false ↔ s.heldSlabs.length < 3072 ∧
      (p.mh ≠ 0 ∨ p.marker = true → (s.entered cb ops p).unnoticed = false) := by
  by_cases below : s.heldSlabs.length < 3072
  · have free : decide (3072 ≤ s.heldSlabs.length) = false := decide_eq_false (Nat.not_le.mpr below)
    rw [unnoticed_entered below, miscounts, free, Bool.false_or]
    by_cases ends : p.mh ≠ 0 ∨ p.marker = true
    · have last : (decide (p.mh ≠ 0) || p.marker) = true := by simpa using ends
      rw [last, Bool.and_true]
      exact ⟨fun noticed => ⟨below, fun _ => noticed⟩, fun both => both.2 ends⟩
    · have more : (decide (p.mh ≠ 0) || p.marker) = false := by simpa using ends
      rw [more, Bool.and_false]
      exact ⟨fun _ => ⟨below, fun last => absurd last ends⟩, fun _ => rfl⟩
  · simp [miscounts, below]

variable (lawful : ops.Lawful)

include lawful

/-- One call keeps the books, and the frames that it ends are counted as they should be, unless it
is one of those that miscount. -/
theorem pullData_kept (kept : Kept b s) (p : Packet) :
    Kept (b.after cb ops p s) (s.pullData cb ops p) ∧
      ((b.after cb ops p s).Honest ↔ b.Honest ∧ s.miscounts p = false) := by
  obtain ⟨entered, capped⟩ : Kept (b.enter cb ops p s) (s.entered cb ops p) ∧ _ := kept.entered p
  have way := work_cases cb ops lawful p (s.entered cb ops p)
  rw [miscounts_eq_false cb ops, ← and_assoc, ← capped]
  simp only [Books.after, Books.finish, flushFails, endsAtMarker_eq, pullData_eq]
  generalize (s.entered cb ops p).work cb ops p = r at way ⊢
  cases way with
  | skipped body skips =>
    -- A skipped packet parses nothing, so no frame dies by it.
    have unparsed : (s.entered cb ops p).parseFails ops p = false := by
      simp only [FrameHandler.skips, body, decide_true, Bool.true_and, Bool.or_eq_true, Bool.not_eq_true'] at skips
      rcases skips with unpassed | failed
      · simp [parseFails, unpassed]
      · simp [parseFails, failed]
    obtain ⟨skipped, honest⟩ : Kept _ (skipBody cb ops p (s.entered cb ops p)) ∧ _ := entered.skipBody p
    have lives : (s.refuses cb ops p || decide (p.mh = 0) && (s.entered cb ops p).parseFails ops p) = false := by
      simp [refuses, body, unparsed]
    rw [lives]
    simp only [Books.start, body, if_true, Bool.false_and, Bool.false_or, die_false]
    refine ⟨skipped, honest.trans ?_⟩
    simp
  | body body passed sane =>
    have dies : (s.refuses cb ops p || decide (p.mh = 0) && (s.entered cb ops p).parseFails ops p) =
        (s.entered cb ops p).parseFails ops p := by simp [refuses, body]
    have walked : Kept _ (bodyPacket cb ops p (s.entered cb ops p)) := entered.bodyPacket passed p
    obtain ⟨taken, honest⟩ : Kept _ (close cb ops p (true, bodyPacket cb ops p (s.entered cb ops p))) ∧ _ :=
      walked.taken (Holds.bodyPacket_held p _) true p
    -- It belongs to a frame that is tracked, and that frame is counted when it ends.
    have noticed : (s.entered cb ops p).unnoticed = false := by simp [unnoticed, passed]
    rw [dies, die_or]
    simp only [Books.start, body, if_true]
    refine ⟨taken, honest.trans ?_⟩
    simp [honest_die, noticed]
  | main main step =>
    have dies : (s.refuses cb ops p || decide (p.mh = 0) && (s.entered cb ops p).parseFails ops p) =
        s.refuses cb ops p := by simp [main]
    obtain ⟨opened, abandoned⟩ : Kept _ (s.arrived cb ops p) ∧ _ := entered.opened p main
    have held : (s.arrived cb ops p).heldSlabs ≠ [] := by simp [arrived, FrameHandler.opened, appendPacket]
    have still : r.2.heldSlabs ≠ [] := Holds.main_held step ▸ held
    obtain ⟨taken, honest⟩ : Kept _ (close cb ops p (r.1, r.2)) ∧ _ := (opened.main held step).taken still r.1 p
    rw [dies, die_or]
    refine ⟨taken, honest.trans ?_⟩
    simp [honest_die, abandoned, main]

private theorem run_kept (packets : List Packet) (kept : Kept b s) :
    Kept (packets.foldl (keepBooks cb ops) (s, b)).2 (s.run cb ops packets) ∧
      ((packets.foldl (keepBooks cb ops) (s, b)).2.Honest ↔
        b.Honest ∧ Throughout (pullData cb ops) (fun s p => s.miscounts p = false) s packets) := by
  induction packets generalizing s b with
  | nil => exact ⟨kept, by simp [Throughout]⟩
  | cons p rest ih =>
    obtain ⟨next, honest⟩ : Kept (b.after cb ops p s) (s.pullData cb ops p) ∧ _ := pullData_kept lawful kept p
    obtain ⟨last, all⟩ := ih next
    refine ⟨last, all.trans ?_⟩
    rw [honest, Throughout, and_assoc]

end

end FrameHandler

open FrameHandler in
/-- In a run every frame that has ended has added one to `total_frames`, at most one to
`trunc_frames` and one to it if it had died, exactly when no packet of the run meets the slab cap
or ends a frame of which only a part of a header has come. In such a run `total_frames` is the
number of frames that have ended, and bounds `trunc_frames`. -/
theorem counters_honest_iff {ops : TileOps T} (lawful : ops.Lawful) (cb : Callbacks) (tileHndr : T) (relatchK : Nat)
    (packets : List Packet) :
    let start := FrameHandler.new tileHndr relatchK
    let books := (packets.foldl (keepBooks cb ops) (start, {})).2
    (books.Honest ↔ Throughout (pullData cb ops) (fun s p => s.miscounts p = false) start packets) ∧
      (books.Honest → (start.run cb ops packets).totalFrames = books.closed.length ∧
        (start.run cb ops packets).truncFrames ≤ (start.run cb ops packets).totalFrames) := by
  intro start books
  have first : Kept {} start := kept_idle rfl rfl ⟨rfl, rfl⟩ fun _ => ⟨rfl, Nat.le_refl _⟩
  obtain ⟨kept, honest⟩ : Kept books (start.run cb ops packets) ∧ _ := run_kept lawful packets first
  refine ⟨honest.trans ?_, kept.counted⟩
  simp [Books.Honest]

open FrameHandler in
theorem counters_honest_emptyFrame :
    let books := (emptyFrame.foldl (keepBooks {} tileOps) (FrameHandler.new {} 4, {})).2
    books.closed = [⟨1, 0, false⟩] ∧ books.Honest :=
  ⟨by decide +kernel, (counters_honest_iff tileOps_lawful {} {} 4 emptyFrame).1.mpr (by decide +kernel)⟩

/-- A body packet without a resync point. -/
def plainBody : Packet := packetOf 1 (List.replicate 8 0) false

/-- Body packets of a frame that is tracked are held, up to the cap. -/
private theorem run_plainBody (cb : Callbacks) (ops : TileOps T) (n : Nat) (s : FrameHandler T)
    (passed : s.isPassedHeader = true) (sane : s.isParsingFailure = false) (room : s.heldSlabs.length + n ≤ 3072) :
    (s.run cb ops (List.replicate n plainBody)).heldSlabs.length = s.heldSlabs.length + n ∧
      (s.run cb ops (List.replicate n plainBody)).totalFrames = s.totalFrames ∧
      (s.run cb ops (List.replicate n plainBody)).truncFrames = s.truncFrames := by
  induction n generalizing s with
  | zero => exact ⟨rfl, rfl, rfl⟩
  | succ n ih =>
    have below : ¬ 3072 ≤ s.heldSlabs.length := by omega
    have taken : s.pullData cb ops plainBody = s.appendPacket cb false plainBody := by
      have plain : plainBody.mh = 0 ∧ plainBody.gap = false ∧ plainBody.ordb = false ∧ plainBody.marker = false := by
        decide
      simp [FrameHandler.pullData, FrameHandler.onGap, FrameHandler.onSlabCap, FrameHandler.skips,
        FrameHandler.bodyPacket, plain, below, passed, sane]
    have length : (s.appendPacket cb false plainBody).heldSlabs.length = s.heldSlabs.length + 1 := by
      simp [FrameHandler.appendPacket, FrameHandler.deliverChunk, FrameHandler.emit]
    obtain ⟨held, total, trunc⟩ := ih (s.appendPacket cb false plainBody) passed sane (by omega)
    have first : s.run cb ops (List.replicate (n + 1) plainBody) =
        (s.appendPacket cb false plainBody).run cb ops (List.replicate n plainBody) := by
      rw [← taken]
      rfl
    rw [first]
    exact ⟨by omega, total, trunc⟩

private theorem run_capped (cb : Callbacks) (ops : TileOps T) (m : Nat) (s : FrameHandler T)
    (passed : s.isPassedHeader = true) (sane : s.isParsingFailure = false) (some_sent : 0 < m)
    (exceeds : s.heldSlabs.length + m = 3073) :
    (s.run cb ops (List.replicate m plainBody)).truncFrames = s.truncFrames + 1 ∧
      (s.run cb ops (List.replicate m plainBody)).totalFrames = s.totalFrames := by
  obtain ⟨n, rfl⟩ : ∃ n, m = n + 1 := ⟨m - 1, by omega⟩
  have full : s.heldSlabs.length + n = 3072 := by omega
  obtain ⟨held, total, trunc⟩ := run_plainBody cb ops n s passed sane (Nat.le_of_eq full)
  have last : s.run cb ops (List.replicate (n + 1) plainBody) =
      (s.run cb ops (List.replicate n plainBody)).pullData cb ops plainBody := by
    simp only [FrameHandler.run, List.replicate_succ', List.foldl_append, List.foldl_cons, List.foldl_nil]
  rw [last, ← total, ← trunc]
  generalize s.run cb ops (List.replicate n plainBody) = t at held
  have plain : plainBody.mh = 0 ∧ plainBody.gap = false ∧ plainBody.marker = false := by decide
  have still : t.onGap cb plainBody = t := by simp [FrameHandler.onGap, plain]
  have capped : t.onSlabCap cb ops = _ := if_pos (held.trans full).ge
  simp only [FrameHandler.pullData, still, capped, FrameHandler.skips, plain]
  exact ⟨rfl, rfl⟩

/-- The slab cap adds to `trunc_frames` only; and a frame of which a part of the header has come
ends with its marker and is not counted. -/
theorem frames_miscounted :
    let capped := (FrameHandler.new {} 4).run {} tileOps (headerPacket 0x80 :: List.replicate 3072 plainBody)
    capped.truncFrames = 1 ∧ capped.totalFrames = 0 ∧
      (headlessFrame.foldl (FrameHandler.keepBooks {} tileOps) (FrameHandler.new {} 4, {})).2.closed =
        [⟨0, 0, false⟩] := by
  intro capped
  have opened : let s := (FrameHandler.new {} 4).pullData {} tileOps (headerPacket 0x80)
      s.isPassedHeader = true ∧ s.isParsingFailure = false ∧ s.heldSlabs.length = 1 ∧ s.totalFrames = 0 ∧
        s.truncFrames = 0 := by
    decide +kernel
  obtain ⟨passed, sane, one, total, trunc⟩ := opened
  obtain ⟨truncated, counted⟩ := run_capped {} tileOps 3072 _ passed sane (by decide) (by rw [one])
  rw [trunc] at truncated
  rw [total] at counted
  have cut : capped = ((FrameHandler.new {} 4).pullData {} tileOps (headerPacket 0x80)).run {} tileOps
      (List.replicate 3072 plainBody) := List.foldl_cons ..
  rw [cut]
  exact ⟨truncated, counted, by decide +kernel⟩

end RtpDecoder.Frame
