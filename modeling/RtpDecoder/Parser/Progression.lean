import RtpDecoder.Parser.ParseBound

/-!
# The order of the precinct callbacks

Between two `restart`s there are any number of `parse`s and then a `flush`, each on whatever
chain and signals it finds. Each turn of either loop reads the precinct at `crp_idx`. A turn
that reports its precinct moves the index on, and no turn moves it back, so that the callbacks
come with strictly increasing indices, however often the walk fails and recovers in between.
-/

namespace RtpDecoder.Parser

variable {w w' : Walk}

namespace Walk

/-! ### Turns -/

/-- The precinct that the next turn reads does not fail. -/
def ok (w : Walk) : Bool := w.packet.1

/-- The states in which the loop of `parse` reads a precinct. -/
def parseTurns : Nat → Walk → List Walk
  | 0, _ => []
  | fuel + 1, w =>
    if !w.gateOpen then []
    else if w.crpSize ≤ w.crpIdx then []
    else w :: match w.parseBody with
      | none => []
      | some w' => parseTurns fuel w'

/-- The states in which the loop of `flush` reads a precinct. -/
def flushTurns : Nat → Walk → List Walk
  | 0, _ => []
  | fuel + 1, w =>
    if w.crpSize ≤ w.crpIdx then []
    else w :: match w.flushBody with
      | none => []
      | some w' => flushTurns fuel w'

/-- From `w`, the walk came to `r` by these turns. -/
structure Progress (w : Walk) (turns : List Walk) (r : Walk) : Prop where
  crp : r.tile.crp = w.tile.crp
  forward : w.crpIdx ≤ r.crpIdx
  inside : ∀ u ∈ turns, u.tile.crp = w.tile.crp ∧ u.crpIdx < u.crpSize
  between : ∀ u ∈ turns.filter ok, w.crpIdx ≤ u.crpIdx ∧ u.crpIdx < r.crpIdx
  sorted : ((turns.filter ok).map crpIdx).Pairwise (· < ·)
  reports : r.reports = ((turns.filter ok).map report).reverse ++ w.reports
  /-- Without a failure, no precinct is left out. -/
  gapless : (∀ u ∈ turns, u.ok = true) →
    turns.map crpIdx = List.range' w.crpIdx turns.length ∧ r.crpIdx = w.crpIdx + turns.length

namespace Progress

variable {w u r : Walk}

theorem rest (crp : r.tile.crp = w.tile.crp) (index : r.crpIdx = w.crpIdx)
    (reports : r.reports = w.reports) : Progress w [] r where
  crp := crp
  forward := Nat.le_of_eq index.symm
  inside _ member := nomatch member
  between _ member := nomatch member
  sorted := List.Pairwise.nil
  reports := reports
  gapless _ := ⟨rfl, index⟩

theorem reported (left : w.crpIdx < w.crpSize) (good : w.ok = true) (crp : r.tile.crp = w.tile.crp)
    (index : r.crpIdx = w.crpIdx + 1) (reports : r.reports = w.report :: w.reports) :
    Progress w [w] r := by
  have filtered : [w].filter ok = [w] := by simp [good]
  refine ⟨crp, by omega, ?_, ?_, ?_, ?_, fun _ => ⟨rfl, index⟩⟩
  · intro u member
    cases List.mem_singleton.mp member
    exact ⟨rfl, left⟩
  · rw [filtered]
    intro u member
    cases List.mem_singleton.mp member
    exact ⟨Nat.le_refl _, by omega⟩
  · rw [filtered]
    exact List.pairwise_singleton _ _
  · rw [filtered]
    exact reports

theorem failed (left : w.crpIdx < w.crpSize) (bad : w.ok = false) (crp : r.tile.crp = w.tile.crp)
    (forward : w.crpIdx ≤ r.crpIdx) (reports : r.reports = w.reports) : Progress w [w] r := by
  have filtered : [w].filter ok = [] := by simp [bad]
  refine ⟨crp, forward, ?_, ?_, ?_, ?_, ?_⟩
  · intro u member
    cases List.mem_singleton.mp member
    exact ⟨rfl, left⟩
  · rw [filtered]
    exact fun _ member => nomatch member
  · rw [filtered]
    exact List.Pairwise.nil
  · rw [filtered]
    exact reports
  · intro all
    rw [all w (List.mem_singleton_self w)] at bad
    cases bad

theorem append {first second : List Walk} (one : Progress w first u) (two : Progress u second r) :
    Progress w (first ++ second) r where
  crp := two.crp.trans one.crp
  forward := Nat.le_trans one.forward two.forward
  inside v member := by
    rcases List.mem_append.mp member with early | late
    · exact one.inside v early
    · exact ⟨(two.inside v late).1.trans one.crp, (two.inside v late).2⟩
  between v member := by
    rw [List.filter_append] at member
    rcases List.mem_append.mp member with early | late
    · exact ⟨(one.between v early).1, Nat.lt_of_lt_of_le (one.between v early).2 two.forward⟩
    · exact ⟨Nat.le_trans one.forward (two.between v late).1, (two.between v late).2⟩
  sorted := by
    rw [List.filter_append, List.map_append, List.pairwise_append]
    refine ⟨one.sorted, two.sorted, ?_⟩
    intro i early j late
    obtain ⟨v, member, rfl⟩ := List.mem_map.mp early
    obtain ⟨v', member', rfl⟩ := List.mem_map.mp late
    exact Nat.lt_of_lt_of_le (one.between v member).2 (two.between v' member').1
  reports := by
    rw [two.reports, one.reports, List.filter_append, List.map_append, List.reverse_append,
      List.append_assoc]
  gapless all := by
    obtain ⟨indices, index⟩ := one.gapless fun v member => all v (List.mem_append_left _ member)
    obtain ⟨indices', index'⟩ := two.gapless fun v member => all v (List.mem_append_right _ member)
    refine ⟨?_, by rw [index', index, List.length_append]; omega⟩
    rw [List.map_append, indices, indices', index, List.length_append, List.range'_append_1]

end Progress

/-! ### One turn -/

private theorem tryRecover_stuck (w : Walk) : w.tryRecover.1 = false → w.tryRecover.2.tile = w.tile := by
  have way := w.tryRecover_cases
  generalize w.tryRecover = r at way ⊢
  cases way with
  | stuck queue => exact fun _ => rfl
  | snapped first forward => exact fun impossible => nomatch impossible

private theorem parseOnePrecinct_tile (left : w.crpIdx < w.crpSize) :
    w.parseOnePrecinct.tile = w.tile.setPrec w.current w.packet.2.1 ∧
      w.parseOnePrecinct.handler.tiles ≠ [] := by
  have some := tiles_of_lt left
  refine ⟨TileHandler.tile_setTile _ some, ?_⟩
  simp [parseOnePrecinct, TileHandler.setTile, some]

private theorem Progress.advanceOne (left : w.crpIdx < w.crpSize) (good : w.ok = true) :
    Progress w [w] w.advanceOne :=
  .reported left good (by rw [advanceOne_tile left]; rfl) (advanceOne_crpIdx left) rfl

/-- Whatever the loop did to the index before, a recovery does not go back. -/
private theorem Progress.recovered {next : Walk} (left : w.crpIdx < w.crpSize) (bad : w.ok = false)
    (some : next.handler.tiles ≠ []) (crp : next.tile.crp = w.tile.crp) (forward : w.crpIdx ≤ next.crpIdx)
    (reports : next.reports = w.reports) : Progress w [w] next.tryRecover.2 := by
  have reports := (tryRecover_reports next).trans reports
  cases recovery : next.tryRecover.1 with
  | true =>
    obtain ⟨i, moved, tile⟩ := tryRecover_tile some recovery
    refine .failed left bad ?_ ?_ reports
    · rw [tile]
      exact crp
    · rw [crpIdx, crpIdx, tile]
      exact Nat.le_trans forward moved
  | false =>
    have tile := tryRecover_stuck next recovery
    refine .failed left bad ?_ ?_ reports
    · rw [tile]
      exact crp
    · rw [crpIdx, crpIdx, tile]
      exact forward

private theorem parse_recovered (left : w.crpIdx < w.crpSize) (bad : w.ok = false) :
    Progress w [w] (w.parseOnePrecinct.setCrpIdx (w.crpIdx + 1)).tryRecover.2 := by
  have tile : (w.parseOnePrecinct.setCrpIdx (w.crpIdx + 1)).tile = w.advanceOne.tile := rfl
  apply Progress.recovered left bad
  · simp [setCrpIdx, TileHandler.setTile, (parseOnePrecinct_tile left).2]
  · rw [tile, advanceOne_tile left]
    rfl
  · change w.crpIdx ≤ w.advanceOne.crpIdx
    rw [advanceOne_crpIdx left]
    exact Nat.le_succ _
  · rfl

private theorem flush_recovered (left : w.crpIdx < w.crpSize) (bad : w.ok = false) :
    Progress w [w] w.parseOnePrecinct.tryRecover.2 := by
  obtain ⟨tile, some⟩ := parseOnePrecinct_tile left
  apply Progress.recovered left bad some
  · rw [tile]
    rfl
  · rw [crpIdx, crpIdx, tile]
    exact Nat.le_refl _
  · rfl

private theorem parseBody_progress (left : w.crpIdx < w.crpSize)
    (went : w.parseBody = some w') : Progress w [w] w' := by
  simp only [parseBody] at went
  split at went
  next good =>
    cases went
    exact .advanceOne left good
  next bad =>
    split at went
    · cases went
      exact parse_recovered left (by simpa [ok] using bad)
    · cases went

private theorem flushBody_progress (left : w.crpIdx < w.crpSize)
    (went : w.flushBody = some w') : Progress w [w] w' := by
  simp only [flushBody] at went
  split at went
  next good =>
    cases went
    exact .advanceOne left good
  next bad =>
    split at went
    · cases went
      exact flush_recovered left (by simpa [ok] using bad)
    · cases went

/-- Only a failure ends a loop before its time. -/
private theorem bad_of_stuck (stuck : w.parseBody = none ∨ w.flushBody = none) : w.ok = false := by
  by_contra good
  rw [Bool.not_eq_false] at good
  rcases stuck with stuck | stuck
  · rw [parseBody_of_packet good] at stuck
    cases stuck
  · rw [flushBody_of_packet good] at stuck
    cases stuck

/-! ### The loops -/

theorem parseLoop_progress (fuel : Nat) {b : Bool} {r : Walk}
    (returned : parseLoop fuel w = some (b, r)) : Progress w (parseTurns fuel w) r := by
  induction fuel generalizing w with
  | zero => cases returned
  | succ fuel ih =>
    simp only [parseLoop] at returned
    simp only [parseTurns]
    split at returned
    next closed =>
      cases returned
      rw [if_pos closed]
      exact .rest rfl rfl rfl
    next gate =>
      rw [if_neg gate]
      split at returned
      · cases returned
      next unfinished =>
        rw [if_neg unfinished]
        have left := Nat.lt_of_not_le unfinished
        cases body : w.parseBody with
        | none =>
          simp only [body] at returned
          cases returned
          exact parse_recovered left (bad_of_stuck (.inl body))
        | some w' =>
          simp only [body] at returned
          exact (parseBody_progress left body).append (ih returned)

theorem flushLoop_progress (fuel : Nat) (w : Walk) : Progress w (flushTurns fuel w) (flushLoop fuel w).2 := by
  induction fuel generalizing w with
  | zero => exact .rest rfl rfl rfl
  | succ fuel ih =>
    simp only [flushLoop, flushTurns]
    by_cases finished : w.crpSize ≤ w.crpIdx
    · rw [if_pos finished, if_pos finished]
      exact .rest rfl rfl rfl
    · rw [if_neg finished, if_neg finished]
      have left := Nat.lt_of_not_le finished
      cases body : w.flushBody with
      | none => exact flush_recovered left (bad_of_stuck (.inr body))
      | some w' => exact (flushBody_progress left body).append (ih w')

private theorem flushLoop_end (fuel : Nat) (enough : w.crpSize - w.crpIdx ≤ fuel)
    (clean : ∀ u ∈ flushTurns fuel w, u.ok = true) : w.crpSize ≤ (flushLoop fuel w).2.crpIdx := by
  induction fuel generalizing w with
  | zero => exact Nat.le_of_sub_eq_zero (Nat.le_zero.mp enough)
  | succ fuel ih =>
    simp only [flushLoop, flushTurns] at clean ⊢
    split
    next finished => exact finished
    next unfinished =>
      rw [if_neg unfinished] at clean
      have left := Nat.lt_of_not_le unfinished
      have body := flushBody_of_packet (clean w List.mem_cons_self)
      simp only [body] at clean ⊢
      have size := advanceOne_crpSize left
      have index := advanceOne_crpIdx left
      rw [← size]
      exact ih (by omega) fun u member => clean u (List.mem_cons_of_mem _ member)

/-! ### A frame -/

/-- The chain and the signals that a call finds. -/
structure Supply where
  cs : Codestream
  signals : List Signal
deriving DecidableEq, Repr

def supplied (w : Walk) (x : Supply) : Walk :=
  { w with cs := x.cs, handler := { w.handler with signalQueue := x.signals } }

/-- The walk behind `restart`. -/
def restarted (h : TileHandler) : Walk := { handler := h.restart, cs := {} }

/-- Calls of `parse`, `none` if one of them leaves the list. -/
def parses : Walk → List Supply → Option Walk
  | w, [] => some w
  | w, x :: rest => (w.supplied x).parse.bind fun r => parses r.2 rest

/-- The states in which these calls, and a `flush` behind them, read a precinct. -/
def frameTurns (last : Supply) (w : Walk) : List Supply → List Walk
  | [] =>
    let u := w.supplied last
    flushTurns (u.crpSize - u.crpIdx + u.handler.signalQueue.length) u
  | x :: rest =>
    let u := w.supplied x
    parseTurns (u.crpSize - u.crpIdx + 1) u ++
      match u.parse with
      | none => []
      | some r => frameTurns last r.2 rest

private theorem frame_progress (last : Supply) (calls : List Supply) {r : Walk}
    (parsed : w.parses calls = some r) :
    Progress w (frameTurns last w calls) (r.supplied last).flush.2 := by
  induction calls generalizing w with
  | nil =>
    cases parsed
    have start : Progress r [] (r.supplied last) := .rest rfl rfl rfl
    exact start.append (flushLoop_progress _ _)
  | cons x rest ih =>
    have start : Progress w [] (w.supplied x) := .rest rfl rfl rfl
    cases call : (w.supplied x).parse with
    | none => simp [parses, call] at parsed
    | some result =>
      simp only [parses, call, Option.bind_some] at parsed
      simp only [frameTurns, call]
      exact start.append ((parseLoop_progress _ call).append (ih parsed))

private theorem frame_end (last : Supply) (calls : List Supply) {r : Walk}
    (parsed : w.parses calls = some r) (clean : ∀ u ∈ frameTurns last w calls, u.ok = true) :
    (r.supplied last).flush.2.crpSize ≤ (r.supplied last).flush.2.crpIdx := by
  induction calls generalizing w with
  | nil =>
    cases parsed
    have same : (r.supplied last).flush.2.crpSize = (r.supplied last).crpSize :=
      congrArg List.length (flushLoop_progress _ _).crp
    rw [same]
    exact flushLoop_end _ (Nat.le_add_right _ _) clean
  | cons x rest ih =>
    cases call : (w.supplied x).parse with
    | none => simp [parses, call] at parsed
    | some result =>
      simp only [parses, call, Option.bind_some] at parsed
      simp only [frameTurns, call] at clean
      exact ih parsed fun u member => clean u (List.mem_append_right _ member)

private theorem restarted_tile (h : TileHandler) :
    (restarted h).tile.crp = h.tile.crp ∧ (restarted h).crpIdx = 0 := by
  cases tiles : h.tiles with
  | nil => simp [restarted, tile, crpIdx, TileHandler.tile, TileHandler.restart, tiles]
  | cons first rest =>
    simp [restarted, tile, crpIdx, TileHandler.tile, TileHandler.restart, Tile.restart, tiles]

/-- Turns that go through a list from its first entry to its end report the list. -/
private theorem reports_of_indices {crp : List Crp} {turns : List Walk}
    (indices : turns.map crpIdx = List.range' 0 turns.length)
    (entry : ∀ u ∈ turns, crp[u.crpIdx]? = some u.report.crp) (long : crp.length ≤ turns.length) :
    turns.map (Report.crp ∘ report) = crp := by
  have place {i : Nat} {u : Walk} (here : turns[i]? = some u) : u.crpIdx = i := by
    have same := congrArg (fun l => l[i]?) indices
    obtain ⟨bound, _⟩ := List.getElem?_eq_some_iff.mp here
    simp only [List.getElem?_map] at same
    rw [here, List.getElem?_range' bound, Option.map_some] at same
    simpa using same
  apply List.ext_getElem?
  intro i
  rw [List.getElem?_map]
  cases here : turns[i]? with
  | some u =>
    have same := entry u (List.mem_of_getElem? here)
    rw [place here] at same
    exact same.symm
  | none =>
    have beyond := List.getElem?_eq_none_iff.mp here
    exact (List.getElem?_eq_none (Nat.le_trans long beyond)).symm

/-- The callbacks of a frame are those of the turns that did not fail, at strictly increasing
indices into the list; and if no turn failed, they are the whole list. -/
theorem callbacks_in_order (h : TileHandler) (calls : List Supply) (last : Supply) {w : Walk}
    (parsed : (restarted h).parses calls = some w) :
    let turns := frameTurns last (restarted h) calls
    let fired := turns.filter ok
    let reports := (w.supplied last).flush.2.reports.reverse
    reports = fired.map report ∧ (fired.map crpIdx).Pairwise (· < ·) ∧
    (∀ u ∈ fired, h.tile.crp[u.crpIdx]? = some u.report.crp) ∧
    ((∀ u ∈ turns, u.ok = true) → reports.map Report.crp = h.tile.crp) := by
  intro turns fired reports
  obtain ⟨crp, start⟩ := restarted_tile h
  have progress := frame_progress last calls parsed
  have all : reports = fired.map report := by
    have same : reports = (((fired.map report).reverse ++ []).reverse) :=
      congrArg List.reverse progress.reports
    simpa using same
  have entry (u : Walk) (member : u ∈ turns) : h.tile.crp[u.crpIdx]? = some u.report.crp := by
    obtain ⟨same, bound⟩ := progress.inside u member
    have list : u.tile.crp = h.tile.crp := same.trans crp
    rw [crpSize, list] at bound
    change _ = some (u.tile.crp.getD u.crpIdx default)
    rw [list, List.getD_eq_getElem?_getD, List.getElem?_eq_getElem bound, Option.getD_some]
  refine ⟨all, progress.sorted, fun u member => entry u (List.mem_of_mem_filter member), ?_⟩
  intro clean
  have whole : fired = turns := List.filter_eq_self.mpr clean
  -- The turns go through the list from its first entry on, and `flush` gets to its end.
  obtain ⟨indices, finish⟩ := progress.gapless clean
  have long : h.tile.crp.length ≤ turns.length := by
    have behind := frame_end last calls parsed clean
    rw [crpSize, progress.crp, crp, finish, start, Nat.zero_add] at behind
    exact behind
  rw [start] at indices
  rw [all, whole, List.map_map]
  exact reports_of_indices indices entry long

/-- Three precincts whose numbers the signals may name. -/
def namedHandler : TileHandler :=
  { smallWalk.handler with markers.siz.csiz := 1, crpIdxByPid := [[0, 1, 2]] }

/-- The first packet is refused; a signal says that the third starts at byte 4. -/
def brokenStart : Supply where
  cs := { chunks := [⟨0, [0xE1, 9, 9, 9, 0xE2, 1, 2]⟩] }
  signals := [⟨4, 2⟩]

theorem callbacks_in_order_brokenStart : ∃ w, (restarted namedHandler).parses [brokenStart] = some w ∧
    (w.supplied ⟨w.cs, []⟩).flush.2.reports.map Report.crp = [⟨0, 0, 2⟩] ∧
    (((frameTurns ⟨w.cs, []⟩ (restarted namedHandler) [brokenStart]).filter ok).map crpIdx).Pairwise
      (· < ·) := by
  have returns : ((restarted namedHandler).parses [brokenStart]).isSome = true := by decide +kernel
  obtain ⟨w, parsed⟩ := Option.isSome_iff_exists.mp returns
  have fired : (((restarted namedHandler).parses [brokenStart]).map fun w =>
      (w.supplied ⟨w.cs, []⟩).flush.2.reports.map Report.crp) = some [⟨0, 0, 2⟩] := by decide +kernel
  rw [parsed] at fired
  exact ⟨w, parsed, Option.some.inj fired,
    (callbacks_in_order namedHandler [brokenStart] ⟨w.cs, []⟩ parsed).2.1⟩

end Walk

end RtpDecoder.Parser
