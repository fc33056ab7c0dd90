import RtpDecoder.Parser.CleanSlate

/-!
# Counting passes

`parse_packet_header` takes the passes of a code-block off an unsigned counter, one segment after
the other, until it is zero. A segment with more passes than are left would make the counter wrap
around. Here the loops also keep what was left, what was taken and which length was read at each
step, and they have no result if they are not over within some number of turns. What is said of
lengths and of refused packets in `Lengths` and `Retry` is read off the same log.
-/

namespace RtpDecoder.Parser

open BitProgram

/-! ### The loops with a list of their steps -/

/-- One step: the passes left before it, those that its segment takes, and the length read for it. -/
structure PassStep where
  left : Nat
  taken : Nat
  bytes : Nat
deriving DecidableEq, Repr

/-- `htSegments`, which has to end within some number of turns. -/
def htPassSteps : Nat → Nat → Nat → Blk → BitProgram (Option (Blk × List PassStep))
  | 0, newpasses, _, blk => if newpasses = 0 then pure (some (blk, [])) else pure none
  | turns + 1, newpasses, next, blk => do
    if newpasses = 0 then pure (some (blk, []))
    else
      let segmentPasses := if 1 < newpasses then next else 1
      let bytes ← getBits ((blk.lblock + intLog2 segmentPasses) % 256)
      let rest ← htPassSteps turns (sub32 newpasses segmentPasses) ((3 + 256 - next) % 256)
        { blk with
          passLengths1 := (blk.passLengths1 + bytes) % 2 ^ 32
          npasses := (blk.npasses + segmentPasses) % 256 }
      pure (rest.map fun r => (r.1, ⟨newpasses, segmentPasses, bytes⟩ :: r.2))

/-- `otherSegments`, in the same way. -/
def otherPassSteps (bypassTermThreshold : Nat) :
    Nat → Nat → Nat → Blk → BitProgram (Option ((Bool × Blk) × List PassStep))
  | 0, newpasses, _, blk => if newpasses = 0 then pure (some ((true, blk), [])) else pure none
  | turns + 1, newpasses, next, blk => do
    if newpasses = 0 then pure (some ((true, blk), []))
    else if bypassTermThreshold ≠ 0 then
      let segmentPasses := if 1 < newpasses then next else 1
      let bytes ← getBits ((blk.lblock + intLog2 segmentPasses) % 256)
      let rest ← otherPassSteps bypassTermThreshold turns (sub32 newpasses segmentPasses)
        ((3 + 256 - next) % 256) { blk with npasses := (blk.npasses + segmentPasses) % 256 }
      pure (rest.map fun r => (r.1, ⟨newpasses, segmentPasses, bytes⟩ :: r.2))
    else if !hasMode blk.modes cmodeTermall then pure (some ((false, blk), []))
    else
      let bytes ← getBits blk.lblock
      let rest ← otherPassSteps bypassTermThreshold turns (sub32 newpasses 1) next
        { blk with npasses := (blk.npasses + 1) % 256 }
      pure (rest.map fun r => (r.1, ⟨newpasses, 1, bytes⟩ :: r.2))

/-- What is known of the passes of an included code-block: the number that was signalled, and
the steps that count it down. -/
structure PassLog where
  newpasses : Nat
  steps : List PassStep
deriving DecidableEq, Repr

/-- `parseIncluded`, with the steps of its passes. -/
def includedPassSteps (turns : Nat) (blk : Blk) : BitProgram (Option ((Bool × Blk) × PassLog)) := do
  let newpasses ← decodePasses
  if jpeg2000MaxPasses ≤ blk.npasses + newpasses then pure (some ((false, blk), ⟨newpasses, []⟩))
  else
    let llen ← getOnes
    if 16 < blk.lblock + llen + intLog2 newpasses then pure (some ((false, blk), ⟨newpasses, []⟩))
    else
      let blk := { blk with lblock := blk.lblock + llen }
      match ← firstSegment blk newpasses with
      | none => pure (some ((false, blk), ⟨newpasses, []⟩))
      | some seg =>
        let blk := { seg.blk with npasses := (seg.blk.npasses + seg.passes) % 256 }
        let rest := sub32 newpasses seg.passes
        if hasMode blk.modes cmodeHt && !blk.htPlhd then
          let r ← htPassSteps turns rest seg.nextPasses blk
          pure (r.map fun r => ((true, r.1), ⟨newpasses, ⟨newpasses, seg.passes, seg.bytes⟩ :: r.2⟩))
        else
          let r ← otherPassSteps seg.bypassTermThreshold turns rest seg.nextPasses blk
          pure (r.map fun r => (r.1, ⟨newpasses, ⟨newpasses, seg.passes, seg.bytes⟩ :: r.2⟩))

/-- `parseBlock`, with the steps of its passes if the code-block is included. -/
def blockPassSteps (turns cbs : Nat) (incl zbp : TagNode) (blk : Blk) :
    BitProgram (Option ((Bool × TagNode × TagNode × Blk) × Option PassLog)) := do
  let blk := { blk with modes := cbs, htPlhd := blk.htPlhd || decide (cmodeHt ≤ cbs) }
  let incl ← tagTreeDecode incl 1
  if incl.val = 0 then
    let zbp ← tagTreeDecode zbp 14
    let r ← includedPassSteps turns { blk with incl := 1, zbp := zbp.val % 256, lblock := 3 }
    pure (r.map fun ((went, blk), log) =>
      let blk := if went then
          { blk with length := (blk.passLengths0 + blk.passLengths1) % 2 ^ 32 }
        else blk
      ((went, incl, zbp, blk), some log))
  else
    pure (some ((true, incl, zbp,
      { blk with length := (blk.passLengths0 + blk.passLengths1) % 2 ^ 32 }), none))

/-! ### One segment after the other -/

/-- No step takes more passes than are left, no pass is taken back, and if the block goes on, all of
them have been added to the `npasses` there were. -/
structure Counted (npasses newpasses : Nat) (r : Bool × Blk) (steps : List PassStep) : Prop where
  most : ∀ step ∈ steps, step.taken ≤ step.left
  kept : npasses ≤ r.2.npasses
  grown : r.1 = true → r.2.npasses = npasses + newpasses

private theorem counted_nil {went : Bool} {blk : Blk} {newpasses : Nat} (all_done : went = true → newpasses = 0) :
    Counted blk.npasses newpasses (went, blk) [] where
  most := fun _ listed => absurd listed List.not_mem_nil
  kept := Nat.le_refl _
  grown := fun goes => by rw [all_done goes, Nat.add_zero]

private theorem Counted.cons {npasses newpasses taken bytes : Nat} {r : Bool × Blk} {steps : List PassStep}
    (fits : taken ≤ newpasses) (rest : Counted (npasses + taken) (newpasses - taken) r steps) :
    Counted npasses newpasses r (⟨newpasses, taken, bytes⟩ :: steps) where
  most := by
    intro step listed
    rcases List.mem_cons.mp listed with rfl | later
    · exact fits
    · exact rest.most step later
  kept := Nat.le_trans (Nat.le_add_right _ _) rest.kept
  grown := by
    intro goes
    have grown := rest.grown goes
    omega

/-- The passes taken so far, with those that are left, still fit a byte, and the segments come in
turns of one and two passes. -/
private theorem turn_bounds {newpasses next npasses : Nat} (some : newpasses ≠ 0) (fits : npasses + newpasses < 256)
    (turns : next = 1 ∨ next = 2) :
    let taken := if 1 < newpasses then next else 1
    1 ≤ taken ∧ taken ≤ newpasses ∧ sub32 newpasses taken = newpasses - taken ∧
      (npasses + taken) % 256 = npasses + taken ∧ ((3 + 256 - next) % 256 = 1 ∨ (3 + 256 - next) % 256 = 2) := by
  have bounds : 1 ≤ (if 1 < newpasses then next else 1) ∧ (if 1 < newpasses then next else 1) ≤ newpasses := by
    split <;> omega
  refine ⟨bounds.1, bounds.2, ?_, ?_, ?_⟩
  · rw [sub32]
    omega
  · exact Nat.mod_eq_of_lt (by omega)
  · omega

section

variable {newpasses next turns fuel : Nat}

private theorem htSegments_zero (fuel next : Nat) (blk : Blk) : htSegments fuel 0 next blk = pure blk := by
  cases fuel <;> rfl

theorem htPassSteps_zero (turns next : Nat) (blk : Blk) : htPassSteps turns 0 next blk = pure (some (blk, [])) := by
  cases turns <;> rfl

/-- The loop of HT code-blocks ends within as many turns as there are passes, and counts them. -/
private theorem inStep_htPassSteps (blk : Blk) (enough : newpasses ≤ turns) (fuelled : newpasses ≤ fuel)
    (fits : blk.npasses + newpasses < 256) (alternate : newpasses = 0 ∨ next = 1 ∨ next = 2) :
    InStep (fun b o => ∃ steps, o = some (b, steps) ∧ Counted blk.npasses newpasses (true, b) steps)
      (htSegments fuel newpasses next blk) (htPassSteps turns newpasses next blk) := by
  induction turns generalizing fuel newpasses next blk with
  | zero =>
    obtain rfl : newpasses = 0 := by omega
    rw [htSegments_zero, htPassSteps_zero]
    exact inStep_pure ⟨[], rfl, counted_nil fun _ => rfl⟩
  | succ turns ih =>
    cases fuel with
    | zero =>
      obtain rfl : newpasses = 0 := by omega
      rw [htSegments_zero, htPassSteps_zero]
      exact inStep_pure ⟨[], rfl, counted_nil fun _ => rfl⟩
    | succ fuel =>
      refine inStep_ite (fun all_done => inStep_pure ⟨[], rfl, counted_nil fun _ => all_done⟩)
        (fun some_left => inStep_bind _ fun bytes => ?_)
      -- Each turn takes at least one pass off both the counter and the turns.
      obtain ⟨one, most, left, count, alternate⟩ := turn_bounds some_left fits (alternate.resolve_left some_left)
      rw [left, count]
      refine (ih _ (by omega) (by omega) (by dsimp only; omega) (Or.inr alternate)).bind_right ?_
      rintro b _ ⟨steps, rfl, counted⟩
      exact inStep_pure ⟨_, rfl, counted.cons most⟩

private theorem otherSegments_zero (threshold fuel next : Nat) (blk : Blk) :
    otherSegments threshold fuel 0 next blk = pure (true, blk) := by
  cases fuel <;> rfl

theorem otherPassSteps_zero (threshold turns next : Nat) (blk : Blk) :
    otherPassSteps threshold turns 0 next blk = pure (some ((true, blk), [])) := by
  cases turns <;> rfl

/-- So does the loop of the other styles, unless it finds a header corrupt. -/
private theorem inStep_otherPassSteps (threshold : Nat) (blk : Blk) (enough : newpasses ≤ turns)
    (fuelled : newpasses ≤ fuel) (fits : blk.npasses + newpasses < 256)
    (alternate : newpasses = 0 ∨ threshold = 0 ∨ next = 1 ∨ next = 2) :
    InStep (fun r o => ∃ steps, o = some (r, steps) ∧ Counted blk.npasses newpasses r steps)
      (otherSegments threshold fuel newpasses next blk) (otherPassSteps threshold turns newpasses next blk) := by
  induction turns generalizing fuel newpasses next blk with
  | zero =>
    obtain rfl : newpasses = 0 := by omega
    rw [otherSegments_zero, otherPassSteps_zero]
    exact inStep_pure ⟨[], rfl, counted_nil fun _ => rfl⟩
  | succ turns ih =>
    cases fuel with
    | zero =>
      obtain rfl : newpasses = 0 := by omega
      rw [otherSegments_zero, otherPassSteps_zero]
      exact inStep_pure ⟨[], rfl, counted_nil fun _ => rfl⟩
    | succ fuel =>
      refine inStep_ite (fun all_done => inStep_pure ⟨[], rfl, counted_nil fun _ => all_done⟩) (fun some_left => ?_)
      -- The threshold tells apart: turns of one and two passes, or a segment for each pass.
      refine inStep_ite (fun bypass => inStep_bind _ fun bytes => ?_) (fun plain => ?_)
      · obtain ⟨one, most, left, count, alternate⟩ := turn_bounds some_left fits
          ((alternate.resolve_left some_left).resolve_left bypass)
        rw [left, count]
        refine (ih _ (by omega) (by omega) (by dsimp only; omega) (Or.inr (Or.inr alternate))).bind_right ?_
        rintro r _ ⟨steps, rfl, counted⟩
        exact inStep_pure ⟨_, rfl, counted.cons most⟩
      refine inStep_ite (fun _ => inStep_pure ⟨[], rfl, counted_nil fun goes => ?_⟩)
        (fun _ => inStep_bind _ fun bytes => ?_)
      · cases goes
      · have left : sub32 newpasses 1 = newpasses - 1 := by
          rw [sub32]
          omega
        have count : (blk.npasses + 1) % 256 = blk.npasses + 1 := Nat.mod_eq_of_lt (by omega)
        rw [left, count]
        have threshold : threshold = 0 := by simpa using plain
        refine (ih _ (by omega) (by omega) (by dsimp only; omega) (Or.inr (Or.inl threshold))).bind_right ?_
        rintro r _ ⟨steps, rfl, counted⟩
        exact inStep_pure ⟨_, rfl, counted.cons (by omega)⟩

end

/-! ### The first segment -/

theorem ends_decodePasses : Ends (1 ≤ ·) decodePasses := by
  -- Each stage of the code only adds to the number.
  have stage {k n : Nat} {α : Type} {first : BitProgram α} {value : α → Nat} {rest : Nat → BitProgram Nat}
      (positive : 1 ≤ n) (later : ∀ n, 1 ≤ n → Ends (1 ≤ ·) (rest n)) :
      Ends (1 ≤ ·) (if k ≤ n then do
          let x ← first
          let n ← pure (n + value x)
          rest n
        else do
          let n ← pure n
          rest n) :=
    ends_ite (fun _ => ends_bind _ fun x => later _ (Nat.le_add_right_of_le positive)) (fun _ => later _ positive)
  refine ends_bind _ fun b => stage (Nat.le_add_right 1 _) fun n positive => ?_
  refine stage positive fun n positive => stage positive fun n positive => ?_
  exact ends_ite (fun _ => ends_bind _ fun v => ends_pure (Nat.le_add_right_of_le positive))
    (fun _ => ends_pure positive)

/-- The first segment takes no more passes than are signalled: either all of them, or segments of
one and of two passes follow. In a fresh code-block it takes at least one. -/
structure OpensPasses (npasses newpasses : Nat) (seg : Segment) : Prop where
  kept : seg.blk.npasses = npasses
  most : seg.passes ≤ newpasses
  fresh : npasses = 0 → 1 ≤ seg.passes
  alternate : seg.passes = newpasses ∨ seg.nextPasses = 1 ∨ seg.nextPasses = 2

section

variable {blk : Blk} {newpasses : Nat}

private theorem ends_placeholderSegment_passes (positive : 1 ≤ newpasses) :
    Ends (fun o => ∀ seg ∈ o, OpensPasses blk.npasses newpasses seg) (placeholderSegment blk newpasses) := by
  -- A segment that does not go on to HT coding takes all the passes.
  have all {b : Blk} {bytes : Nat} (same : b.npasses = blk.npasses) :
      Ends (fun o => ∀ seg ∈ o, OpensPasses blk.npasses newpasses seg) (pure (some ⟨b, newpasses, bytes, 0, 0⟩)) :=
    ends_some ⟨same, Nat.le_refl _, fun _ => positive, Or.inl rfl⟩
  refine ends_ite (fun _ => ends_bind _ fun bytes => ?_) (fun possible => ends_bind _ fun bytes => ?_)
  · refine ends_ite (fun _ => all rfl) (fun _ => ?_)
    exact ends_ite (fun _ => all rfl) (fun _ => ends_none)
  refine ends_ite (fun _ => ?_) (fun _ => ends_bind _ fun bytes => ?_)
  · have cleanup : OpensPasses blk.npasses newpasses ⟨{ blk with htPlhd := false, passLengths0 := bytes },
        newpasses - (blk.npasses + newpasses - 1) % 3, bytes, 2, 0⟩ :=
      ⟨rfl, Nat.sub_le _ _, fun _ => Nat.sub_pos_of_lt (Nat.lt_of_not_le possible), Or.inr (Or.inr rfl)⟩
    refine ends_ite (fun _ => ?_) (fun _ => ?_)
    · exact ends_ite (fun _ => ends_none) (fun _ => ends_some cleanup)
    · exact ends_ite (fun _ => ends_some cleanup) (fun _ => ends_bind _ fun bytes => all rfl)
  · refine ends_ite (fun _ => all rfl) (fun _ => ?_)
    exact ends_ite (fun _ => all rfl) (fun _ => ends_none)

private theorem ends_firstSegment_passes (positive : 1 ≤ newpasses) :
    Ends (fun o => ∀ seg ∈ o, OpensPasses blk.npasses newpasses seg) (firstSegment blk newpasses) := by
  refine ends_ite (fun _ => ends_placeholderSegment_passes positive) (fun _ => ?_)
  refine ends_ite (fun _ => ends_bind _ fun bytes => ends_some ?_) (fun _ => ?_)
  · refine ⟨rfl, ?_, fun fresh => by simp [fresh], ?_⟩
    · dsimp only
      split
      · exact positive
      · split <;> omega
    · dsimp only
      split
      · exact Or.inr (Or.inr rfl)
      · exact Or.inr (Or.inl rfl)
  refine ends_ite (fun _ => ends_bind _ fun bytes => ends_some ?_) (fun _ => ?_)
  · exact ⟨rfl, Nat.le_refl _, fun _ => positive, Or.inl rfl⟩
  refine ends_ite (fun _ => ends_bind _ fun bytes => ends_some ?_)
    (fun _ => ends_bind _ fun bytes => ends_some ?_)
  · exact ⟨rfl, positive, fun _ => Nat.le_refl 1, Or.inr (Or.inl rfl)⟩
  · refine ⟨rfl, ?_, fun fresh => ?_, ?_⟩
    · dsimp only
      split
      · exact Nat.min_le_right _ _
      -- A segment may take no pass at all here.
      · split <;> omega
    · dsimp only
      rw [fresh, if_pos (by decide)]
      omega
    · dsimp only
      split
      · exact Or.inr (Or.inr rfl)
      · exact Or.inr (Or.inl rfl)

end

/-! ### Whole code-blocks -/

/-- An included code-block and its log. Without a first segment it is refused, and only the length
bits have changed; with one, a fresh code-block has passes whatever becomes of the others. -/
structure Logged (blk : Blk) (r : Bool × Blk) (log : PassLog) : Prop extends
    Counted blk.npasses log.newpasses r log.steps where
  refused : log.steps = [] → r.1 = false ∧ ∃ n, r.2 = { blk with lblock := n }
  opened : log.steps ≠ [] → blk.npasses = 0 → 1 ≤ r.2.npasses

private theorem logged_refused (blk : Blk) (newpasses n : Nat) :
    Logged blk (false, { blk with lblock := n }) ⟨newpasses, []⟩ where
  toCounted := @counted_nil false { blk with lblock := n } newpasses fun goes => by cases goes
  refused := fun _ => ⟨rfl, n, rfl⟩
  opened := fun some => absurd rfl some

private theorem logged_cons {blk : Blk} {newpasses : Nat} {seg : Segment}
    (opens : OpensPasses blk.npasses newpasses seg) {r : Bool × Blk} {steps : List PassStep}
    (rest : Counted (blk.npasses + seg.passes) (newpasses - seg.passes) r steps) :
    Logged blk r ⟨newpasses, ⟨newpasses, seg.passes, seg.bytes⟩ :: steps⟩ where
  toCounted := rest.cons opens.most
  refused := fun none => by cases none
  opened := fun _ fresh =>
    Nat.le_trans (opens.fresh fresh) (Nat.le_trans (Nat.le_add_left _ _) rest.kept)

private theorem inStep_includedPassSteps (blk : Blk) :
    InStep (fun r o => ∃ log, o = some (r, log) ∧ Logged blk r log)
      (parseIncluded blk) (includedPassSteps jpeg2000MaxPasses blk) := by
  refine ends_decodePasses.inStep.bind fun newpasses _ ⟨same, positive⟩ => ?_
  subst same
  refine inStep_ite (fun _ => inStep_pure ⟨_, rfl, logged_refused _ _ _⟩) (fun few => inStep_bind _ fun llen => ?_)
  refine inStep_ite (fun _ => inStep_pure ⟨_, rfl, logged_refused _ _ _⟩) (fun _ => ?_)
  refine (ends_firstSegment_passes positive).inStep.bind fun o _ ⟨same, opens⟩ => ?_
  subst same
  cases o with
  | none => exact inStep_pure ⟨_, rfl, logged_refused _ _ _⟩
  | some seg =>
    have first : OpensPasses blk.npasses newpasses seg := opens seg rfl
    have ⟨npasses, most, _, alternate⟩ := first
    -- Fewer than 100 passes: neither the 32-bit nor the 8-bit counter wraps around.
    rw [jpeg2000MaxPasses] at few
    have left : sub32 newpasses seg.passes = newpasses - seg.passes := by
      rw [sub32]
      omega
    have count : (seg.blk.npasses + seg.passes) % 256 = blk.npasses + seg.passes := by
      rw [npasses]
      exact Nat.mod_eq_of_lt (by omega)
    dsimp only
    rw [left, count]
    have alternate : newpasses - seg.passes = 0 ∨ seg.nextPasses = 1 ∨ seg.nextPasses = 2 := by omega
    have rest := (show newpasses - seg.passes ≤ jpeg2000MaxPasses by rw [jpeg2000MaxPasses]; omega)
    have fits : blk.npasses + seg.passes + (newpasses - seg.passes) < 256 := by omega
    refine inStep_ite (fun _ => ?_) (fun _ => ?_)
    · refine (inStep_htPassSteps _ rest (Nat.le_refl _) fits alternate).bind ?_
      rintro b _ ⟨steps, rfl, counted⟩
      exact inStep_pure ⟨_, rfl, logged_cons first counted⟩
    · refine (inStep_otherPassSteps _ _ rest (Nat.le_refl _) fits ?_).bind_right ?_
      · omega
      rintro r _ ⟨steps, rfl, counted⟩
      exact inStep_pure ⟨_, rfl, logged_cons first counted⟩

/-- What a code-block is behind its part of the header, and the log of its passes. -/
inductive BlockLogged (cbs : Nat) (blk : Blk) : Bool × TagNode × TagNode × Blk → Option PassLog → Prop where
  | excluded {incl zbp : TagNode} (out : incl.val ≠ 0) :
    BlockLogged cbs blk (true, incl, zbp,
      { blk with
        modes := cbs
        htPlhd := blk.placeholder cbs
        length := (blk.passLengths0 + blk.passLengths1) % 2 ^ 32 }) none
  | included {went : Bool} {incl zbp : TagNode} {b : Blk} {log : PassLog} (zero : incl.val = 0)
    (logged : Logged (blk.included cbs (zbp.val % 256)) (went, b) log) :
    BlockLogged cbs blk (went, incl, zbp,
      if went then { b with length := (b.passLengths0 + b.passLengths1) % 2 ^ 32 } else b) (some log)

/-- The log changes nothing: both programs read the same and end the same, and the loops are always
over in time. -/
theorem inStep_blockPassSteps (cbs : Nat) (incl zbp : TagNode) (blk : Blk) :
    InStep (fun r o => ∃ log, o = some (r, log) ∧ BlockLogged cbs blk r log)
      (parseBlock cbs incl zbp blk) (blockPassSteps jpeg2000MaxPasses cbs incl zbp blk) := by
  refine inStep_bind _ fun incl => inStep_ite (fun zero => inStep_bind _ fun zbp => ?_) (fun out => ?_)
  · refine (inStep_includedPassSteps _).bind ?_
    rintro ⟨went, b⟩ _ ⟨log, rfl, logged⟩
    exact inStep_pure ⟨some log, rfl, .included zero logged⟩
  · exact inStep_pure ⟨none, rfl, .excluded out⟩

/-- The passes of a code-block, whatever its style, the passes it has and the bits that come: the
loops end, no segment takes more passes than are left, and a code-block that goes on has got as
many passes as were signalled, and none if it is not included. -/
theorem passes_counted {σ : Type} (src : BitSource σ) (u : σ) (cbs : Nat) (incl zbp : TagNode) (blk : Blk) :
    let r := (parseBlock cbs incl zbp blk).run src u
    ∃ log, (blockPassSteps jpeg2000MaxPasses cbs incl zbp blk).run src u = (some (r.1, log), r.2) ∧
      (∀ included ∈ log, ∀ step ∈ included.steps, step.taken ≤ step.left) ∧
      (r.1.1 = true → r.1.2.2.2.npasses = blk.npasses + (log.map PassLog.newpasses).getD 0) := by
  intro r
  obtain ⟨⟨log, run, logged⟩, same⟩ := (inStep_blockPassSteps cbs incl zbp blk).run src u
  refine ⟨log, Prod.ext run same.symm, ?_⟩
  change BlockLogged cbs blk r.1 log at logged
  generalize r.1 = outcome at logged ⊢
  cases logged with
  | excluded out =>
    refine ⟨?_, fun _ => rfl⟩
    rintro _ ⟨⟩
  | @included went incl zbp b log zero logged =>
    refine ⟨?_, fun goes => ?_⟩
    · rintro _ ⟨⟩
      exact logged.most
    · have goes : went = true := goes
      subst goes
      exact logged.grown rfl

end RtpDecoder.Parser
