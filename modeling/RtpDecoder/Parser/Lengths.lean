import RtpDecoder.Parser.HtCoding
import RtpDecoder.Parser.Passes

/-!
# Segment lengths

`parse_packet_header` reads the length of a segment at some ten places, and only some of them
add it to `pass_lengths`. Here the block loop also keeps a list of the lengths that it reads, from
the log of the passes. The list says which coding styles lose a length, and which lengths of a cleanup segment `Scup`
can be taken from.
-/

namespace RtpDecoder.Parser

open BitProgram

variable {cbs : Nat} {blk : Blk} {cell : Cell} {prec : Prec}

/-! ### The header with a list of the lengths -/

/-- The lengths read for an included code-block, in the order of the header. -/
def PassLog.lengths (log : PassLog) : List Nat := log.steps.map PassStep.bytes

/-- One turn of the block loop with the lengths that it reads, taken from the log of the passes. -/
def blockLengths (cbs : Nat) (cell : Cell) : BitProgram ((Bool × Cell) × List Nat) := do
  match ← blockPassSteps jpeg2000MaxPasses cbs cell.incl cell.zbp cell.blk with
  -- The loops are over by then (`inStep_blockPassSteps`).
  | none => pure ((false, cell), [])
  -- A code-block that is not included has no segment.
  | some ((went, incl, zbp, blk), log) => pure ((went, ⟨incl, zbp, blk⟩), (log.map PassLog.lengths).getD [])

/-- The block loop with the lengths read for each code-block. -/
def Prec.headerLengths (cbs : Nat) :
    List (Nat × Nat) → Prec → BitProgram ((Bool × Prec) × List ((Nat × Nat) × List Nat))
  | [], prec => pure ((true, prec), [])
  | place :: rest, prec => do
    let ((went, cell), lengths) ← blockLengths cbs (prec.cell place)
    let prec := prec.setCell place cell
    if went then
      let (r, later) ← headerLengths cbs rest prec
      pure (r, (place, lengths) :: later)
    else pure ((false, prec), [(place, lengths)])

/-! ### The list changes nothing -/

theorem inStep_blockLengths (cbs : Nat) (cell : Cell) :
    InStep (fun r r' => r = (r'.1.1, r'.1.2.incl, r'.1.2.zbp, r'.1.2.blk))
      (parseBlock cbs cell.incl cell.zbp cell.blk) (blockLengths cbs cell) := by
  refine (inStep_blockPassSteps cbs cell.incl cell.zbp cell.blk).bind_right ?_
  rintro r _ ⟨log, rfl, _⟩
  exact inStep_pure rfl

theorem Prec.inStep_headerLengths (cbs : Nat) (places : List (Nat × Nat)) (prec : Prec) :
    InStep (fun r r' => r = r'.1) (parseBlocks cbs places prec) (headerLengths cbs places prec) := by
  induction places generalizing prec with
  | nil => exact inStep_pure rfl
  | cons place rest ih =>
    rw [parseBlocks_cons]
    apply (inStep_blockLengths cbs (prec.cell place)).bind
    rintro _ r rfl
    refine inStep_ite (fun _ => ?_) (fun _ => inStep_pure rfl)
    apply (ih _).bind_right
    rintro _ r rfl
    exact inStep_pure rfl

/-! ### What a code-block can end with -/

/-- Further bits only add to a length, one binary digit each. -/
theorem ends_extendLength {p fuel j b bytes : Nat} (some : 1 ≤ p) (below : j ≤ p.log2)
    (small : bytes < 2 ^ b) :
    Ends (fun v => bytes ≤ v ∧ v < 2 ^ (b + (p.log2 - j))) (extendLength p fuel (2 ^ (j + 1)) bytes) := by
  induction fuel generalizing j b bytes with
  | zero => exact ends_pure ⟨Nat.le_refl _, Nat.lt_of_lt_of_le small (Nat.pow_le_pow_right (by decide) (by omega))⟩
  | succ fuel ih =>
    rw [extendLength]
    -- The bound doubles until it is above `p`, which takes as many digits as the logarithms differ.
    refine ends_ite (fun more => ends_bind _ fun d => ?_) (fun _ => ?_)
    · have next : j + 1 ≤ p.log2 := (Nat.le_log2 (Nat.ne_of_gt some)).mpr more
      have bit := d.toNat_lt
      have longer : 2 * bytes + d.toNat < 2 ^ (b + 1) := by
        rw [Nat.pow_succ]
        omega
      rw [← Nat.pow_succ']
      refine (ih next longer).mono fun v bounds => ⟨by omega, ?_⟩
      rw [show b + (p.log2 - j) = b + 1 + (p.log2 - (j + 1)) by omega]
      exact bounds.2
    · exact ends_pure ⟨Nat.le_refl _, Nat.lt_of_lt_of_le small (Nat.pow_le_pow_right (by decide) (by omega))⟩

/-- What the first segment of a fresh code-block can be while the placeholder flag is on. -/
inductive Opening (blk : Blk) (newpasses : Nat) : Segment → Prop where
  | absent : Opening blk newpasses ⟨blk, newpasses, 0, 0, 0⟩
  | cleanup {bytes : Nat} (two : 2 ≤ bytes) (short : bytes < 2 ^ 16) :
    Opening blk newpasses
      ⟨{ blk with htPlhd := false, passLengths0 := bytes }, cleanupPasses newpasses, bytes, 2, 0⟩
  | fallback {bytes : Nat} (mixed : hasMode blk.modes htMixed = true) (one : 1 ≤ bytes) (short : bytes < 2 ^ 16) :
    Opening blk newpasses
      ⟨{ blk with modes := blk.modes &&& 0xBF, htPlhd := false, passLengths0 := bytes }, newpasses, bytes, 0, 0⟩

theorem ends_placeholderSegment {newpasses : Nat} (fresh : blk.npasses = 0) (some : 1 ≤ newpasses)
    (room : blk.lblock + newpasses.log2 ≤ 16) :
    Ends (fun o => ∀ seg ∈ o, Opening blk newpasses seg) (placeholderSegment blk newpasses) := by
  obtain ⟨some_cleanup, most, _⟩ := cleanupPasses_range some
  have split : newpasses - (blk.npasses + newpasses - 1) % 3 = cleanupPasses newpasses := by
    rw [fresh, Nat.zero_add, cleanupPasses]
  have possible : ¬ newpasses ≤ (blk.npasses + newpasses - 1) % 3 := by omega
  have ordered : (cleanupPasses newpasses).log2 ≤ newpasses.log2 := log2_le_log2 most
  have grown : growBits (cleanupPasses newpasses) (cleanupPasses newpasses) blk.lblock 2 =
      (blk.lblock + (cleanupPasses newpasses).log2, 2 ^ ((cleanupPasses newpasses).log2 + 1)) :=
    growBits_eq blk.lblock some_cleanup (Nat.zero_le _) (Nat.log2_le_self _)
  simp only [placeholderSegment, if_neg possible, split, grown]
  -- No length has more bits than all passes together ask for.
  have short {v b : Nat} (bound : v < 2 ^ b) (le : b ≤ 16) : v < 2 ^ 16 :=
    Nat.lt_of_lt_of_le bound (Nat.pow_le_pow_right (by decide) le)
  refine (ends_getBits _).bind fun bytes small => ?_
  have extended {v : Nat} (bounds : bytes ≤ v ∧ v < 2 ^ (blk.lblock + (cleanupPasses newpasses).log2 +
      (newpasses.log2 - (cleanupPasses newpasses).log2))) : v < 2 ^ 16 := short bounds.2 (by omega)
  refine ends_ite (fun nonzero => ?_) (fun zero => ?_)
  · refine ends_ite (fun _ => ends_ite (fun _ => ends_none) (fun valid => ?_)) (fun mixed => ?_)
    · exact ends_some (.cleanup (Nat.le_of_not_lt valid) (short small (by omega)))
    have on : hasMode blk.modes htMixed = true := by simpa using mixed
    refine ends_ite (fun valid => ends_some (.cleanup valid.2.1 (short small (by omega)))) (fun _ => ?_)
    exact (ends_extendLength some ordered small).bind fun v bounds =>
      ends_some (.fallback on (by omega) (extended bounds))
  · have none : bytes = 0 := by simpa using zero
    subst none
    refine (ends_extendLength some ordered small).bind fun v bounds => ?_
    refine ends_ite (fun same => ?_) (fun nonzero => ends_ite (fun mixed => ?_) (fun _ => ends_none))
    · subst same
      exact ends_some .absent
    · exact ends_some (.fallback mixed (by omega) (extended bounds))

/-- Without the flag and in a style other than HT the first length goes nowhere. -/
theorem ends_firstSegment_other (off : blk.htPlhd = false)
    (other : hasMode blk.modes cmodeHt = false) (newpasses : Nat) :
    Ends (fun o => ∀ seg ∈ o, seg.blk = blk) (firstSegment blk newpasses) := by
  simp only [firstSegment, off, other, Bool.false_eq_true, if_false]
  refine ends_ite (fun _ => ends_bind _ fun _ => ends_some rfl) (fun _ => ?_)
  exact ends_ite (fun _ => ends_bind _ fun _ => ends_some rfl) (fun _ => ends_bind _ fun _ => ends_some rfl)

theorem ends_otherPassSteps (threshold turns newpasses next : Nat) (blk : Blk) :
    Ends (fun o => ∀ x ∈ o, x.1.2.passLengths0 = blk.passLengths0 ∧ x.1.2.passLengths1 = blk.passLengths1)
      (otherPassSteps threshold turns newpasses next blk) := by
  induction turns generalizing newpasses next blk with
  | zero => exact ends_ite (fun _ => ends_some ⟨rfl, rfl⟩) (fun _ => ends_none)
  | succ turns ih =>
    refine ends_ite (fun _ => ends_some ⟨rfl, rfl⟩) (fun _ => ?_)
    refine ends_ite (fun _ => ends_bind _ fun bytes => ?_) (fun _ => ?_)
    · apply Ends.optionMap
      exact (ih _ _ _).mono fun o kept => kept
    refine ends_ite (fun _ => ends_some ⟨rfl, rfl⟩) (fun _ => ends_bind _ fun bytes => ?_)
    apply Ends.optionMap
    exact (ih _ _ _).mono fun o kept => kept

/-- Passes behind a cleanup segment are refused without `TERMALL`. -/
theorem ends_otherPassSteps_termall (turns newpasses next : Nat) (blk : Blk) :
    Ends (fun o => ∀ x ∈ o, x.1.1 = true → x.2 = [] ∨ hasMode blk.modes cmodeTermall = true)
      (otherPassSteps 0 turns newpasses next blk) := by
  cases turns with
  | zero => exact ends_ite (fun _ => ends_some fun _ => .inl rfl) (fun _ => ends_none)
  | succ turns =>
    refine ends_ite (fun _ => ends_some fun _ => .inl rfl) (fun _ => ?_)
    refine ends_ite (fun nonzero => absurd rfl nonzero) (fun _ => ?_)
    refine ends_ite (fun _ => ends_some (by simp)) (fun set => ?_)
    have set : hasMode blk.modes cmodeTermall = true := by simpa using set
    exact ends_bind _ fun bytes => ends_bind _ fun o => ends_pure fun _ _ _ => .inr set

/-- The refinement passes have one segment, and its length is counted. -/
theorem ends_htPassSteps {rest : Nat} (turns : Nat) (few : rest ≤ 2) (lblock : blk.lblock ≤ 16)
    (fresh : blk.passLengths1 = 0) :
    Ends (fun o => ∀ x ∈ o, x.1.passLengths0 = blk.passLengths0 ∧
        x.1.passLengths1 = (x.2.map PassStep.bytes).sum ∧ (x.2.map PassStep.bytes).sum < 2 ^ 18)
      (htPassSteps turns rest 2 blk) := by
  cases rest with
  | zero =>
    rw [htPassSteps_zero]
    exact ends_some ⟨rfl, fresh, Nat.two_pow_pos 18⟩
  | succ n =>
    cases turns with
    | zero => exact ends_none
    | succ turns =>
      have all : (if 1 < n + 1 then 2 else 1) = n + 1 := by
        split <;> omega
      have width : (blk.lblock + intLog2 (n + 1)) % 256 ≤ 18 := by
        have log : (n + 1).log2 ≤ n + 1 := Nat.log2_le_self _
        rw [intLog2_eq (show 1 ≤ n + 1 by omega)]
        omega
      have finished : sub32 (n + 1) (n + 1) = 0 := by simp [sub32]
      -- The first turn takes all passes.
      simp only [htPassSteps, if_neg (Nat.succ_ne_zero n), all, finished, htPassSteps_zero]
      refine (ends_getBits _).bind fun bytes small => ends_some ?_
      have short : bytes < 2 ^ 18 := Nat.lt_of_lt_of_le small (Nat.pow_le_pow_right (by decide) width)
      have counted : (blk.passLengths1 + bytes) % 2 ^ 32 = bytes := by
        rw [fresh, Nat.zero_add]
        exact Nat.mod_eq_of_lt (by omega)
      exact ⟨rfl, counted, short⟩

/-- The two pass lengths of a code-block beside the lengths that were read for it. -/
inductive Tally (cbs : Nat) (plhd : Bool) : Nat → Nat → List Nat → Prop where
  | empty {lengths : List Nat} (nothing : lengths.sum = 0) : Tally cbs plhd 0 0 lengths
  | dropped (off : plhd = false) (lengths : List Nat) : Tally cbs plhd 0 0 lengths
  | cleanup {first second : Nat} {more : List Nat} (two : 2 ≤ first) (short : first + second < 2 ^ 32)
    (counted : second = more.sum ∨ second = 0 ∧ hasMode cbs cmodeHt = false ∧ hasMode cbs cmodeTermall = true) :
    Tally cbs plhd first second (first :: more)
  | fallback {first : Nat} (mixed : hasMode cbs htMixed = true) (one : 1 ≤ first) (short : first < 2 ^ 32) :
    Tally cbs plhd first 0 [first]

theorem hasMode_and_not_ht (modes : Nat) : hasMode (modes &&& 0xBF) cmodeHt = false := by
  rw [hasMode, Nat.and_assoc]
  exact bne_eq_false_iff_eq.mpr (Nat.and_zero modes)

theorem ends_includedPassSteps (turns : Nat) (npasses : blk.npasses = 0) (lblock : blk.lblock = 3)
    (fresh : blk.passLengths0 = 0 ∧ blk.passLengths1 = 0)
    (flag : blk.htPlhd = false → hasMode blk.modes cmodeHt = false) :
    Ends (fun o => ∀ x ∈ o, x.1.1 = true →
        Tally blk.modes blk.htPlhd x.1.2.passLengths0 x.1.2.passLengths1 x.2.lengths)
      (includedPassSteps turns blk) := by
  obtain ⟨first_zero, second_zero⟩ := fresh
  refine ends_decodePasses.bind fun newpasses positive => ?_
  refine ends_ite (fun _ => ends_some (by simp)) (fun _ => ends_bind _ fun llen => ?_)
  refine ends_ite (fun _ => ends_some (by simp)) (fun checked => ?_)
  rw [intLog2_eq positive] at checked
  rcases Bool.eq_false_or_eq_true blk.htPlhd with plhd | plhd
  · have opened : Ends (fun o => ∀ seg ∈ o, Opening { blk with lblock := blk.lblock + llen } newpasses seg)
        (firstSegment { blk with lblock := blk.lblock + llen } newpasses) := by
      rw [firstSegment, if_pos plhd]
      exact ends_placeholderSegment npasses positive (Nat.le_of_not_lt checked)
    refine opened.bind ?_
    rintro (_ | seg) opening
    · exact ends_some (by simp)
    have all : sub32 newpasses newpasses = 0 := by simp [sub32]
    have opening : Opening { blk with lblock := blk.lblock + llen } newpasses seg := opening _ rfl
    cases opening with
    | absent =>
      simp only [plhd, all, Bool.not_true, Bool.and_false, Bool.false_eq_true, if_false, otherPassSteps_zero]
      refine ends_some fun _ => ?_
      simp only [first_zero, second_zero]
      exact .empty rfl
    | cleanup two short =>
      obtain ⟨some_cleanup, most, rest⟩ := cleanupPasses_range positive
      have left : sub32 newpasses (cleanupPasses newpasses) = newpasses - cleanupPasses newpasses := by
        rw [sub32]
        omega
      simp only [left, Bool.not_false, Bool.and_true]
      -- What stands behind the cleanup segment is counted in the HT style only.
      refine ends_ite (fun ht => ?_) (fun other => ?_)
      · have narrow : blk.lblock + llen ≤ 16 := by omega
        refine ((ends_htPassSteps turns rest (by exact narrow) (by exact second_zero)).mono ?_).optionMap
        intro o counts x member _
        obtain ⟨kept, counted, small⟩ := counts x member
        simp only [kept]
        exact .cleanup two (by omega) (.inl counted)
      · rw [Bool.not_eq_true] at other
        refine (((ends_otherPassSteps _ _ _ _ _).and (ends_otherPassSteps_termall _ _ _ _)).mono ?_).optionMap
        rintro o ⟨kept, terminated⟩ x member went
        obtain ⟨first, second⟩ := kept x member
        simp only [first, second, second_zero]
        refine .cleanup two (by omega) ?_
        rcases terminated x member went with nothing | set
        · exact .inl (by simp [nothing])
        · exact .inr ⟨rfl, other, set⟩
    | fallback mixed one short =>
      simp only [hasMode_and_not_ht, all, Bool.false_and, Bool.false_eq_true, if_false, otherPassSteps_zero]
      refine ends_some fun _ => ?_
      simp only [second_zero]
      exact .fallback mixed one (by omega)
  · have other := flag plhd
    have first : Ends (fun o => ∀ seg ∈ o, seg.blk = { blk with lblock := blk.lblock + llen })
        (firstSegment { blk with lblock := blk.lblock + llen } newpasses) :=
      ends_firstSegment_other (by exact plhd) (by exact other) newpasses
    refine first.bind ?_
    rintro (_ | seg) kept
    · exact ends_some (by simp)
    have same : seg.blk = { blk with lblock := blk.lblock + llen } := kept _ rfl
    simp only [same, other, Bool.false_and, Bool.false_eq_true, if_false]
    refine ((ends_otherPassSteps _ _ _ _ _).mono ?_).optionMap
    intro o kept x member _
    simp only [(kept x member).1, (kept x member).2, first_zero, second_zero]
    exact .dropped plhd _

theorem hasMode_ht_of_lt (below : cbs < cmodeHt) : hasMode cbs cmodeHt = false := by
  have clear : cbs.testBit 6 = false := Nat.testBit_lt_two_pow below
  rw [hasMode, show cmodeHt = 2 ^ 6 from rfl, Nat.and_two_pow, clear]
  rfl

/-- The flag is on whatever an HT style is left with. -/
theorem Blk.hasMode_of_not_placeholder (off : blk.placeholder cbs = false) : hasMode cbs cmodeHt = false := by
  rw [Blk.placeholder, Bool.or_eq_false_iff] at off
  exact hasMode_ht_of_lt (Nat.lt_of_not_le (of_decide_eq_false off.2))

/-- A code-block behind its part of the header, and the lengths read for it. -/
structure Accounted (cbs : Nat) (plhd : Bool) (blk : Blk) (lengths : List Nat) : Prop where
  tally : Tally cbs plhd blk.passLengths0 blk.passLengths1 lengths
  length : blk.length = blk.passLengths0 + blk.passLengths1

theorem Tally.short {plhd : Bool} {first second : Nat} {lengths : List Nat}
    (tally : Tally cbs plhd first second lengths) : first + second < 2 ^ 32 := by
  cases tally with
  | empty => decide
  | dropped => decide
  | cleanup _ short => exact short
  | fallback _ _ short => exact short

theorem ends_blockPassSteps (turns cbs : Nat) (fresh : cell.Fresh) :
    Ends (fun o => ∀ x ∈ o, x.1.1 = true →
        Accounted cbs (cell.blk.placeholder cbs) x.1.2.2.2 ((x.2.map PassLog.lengths).getD []))
      (blockPassSteps turns cbs cell.incl cell.zbp cell.blk) := by
  obtain ⟨first, second⟩ := fresh.passLengths
  refine ends_bind _ fun incl => ends_ite (fun _ => ends_bind _ fun zbp => ?_) (fun _ => ?_)
  · have outcome : Ends _ (includedPassSteps turns (cell.blk.included cbs (zbp.val % 256))) :=
      ends_includedPassSteps turns (by exact fresh.npasses) (by rfl) (by exact fresh.passLengths)
        (by exact Blk.hasMode_of_not_placeholder)
    refine (outcome.mono ?_).optionMap
    rintro o tally ⟨⟨went, blk⟩, log⟩ member goes
    have goes : went = true := goes
    subst goes
    have tally := tally _ member rfl
    exact ⟨tally, Nat.mod_eq_of_lt tally.short⟩
  -- A code-block that is left out has no lengths and signals none.
  · refine ends_some fun _ => ⟨?_, ?_⟩
    · simp only [first, second]
      exact .empty rfl
    · simp only [first, second, Nat.add_zero, Nat.zero_mod]

theorem ends_blockLengths (cbs : Nat) (fresh : cell.Fresh) :
    Ends (fun r => r.1.1 = true → Accounted cbs (cell.blk.placeholder cbs) r.1.2.blk r.2)
      (blockLengths cbs cell) := by
  refine (ends_blockPassSteps jpeg2000MaxPasses cbs fresh).bind ?_
  rintro (_ | x) accounted
  · exact ends_pure (by simp)
  · exact ends_pure (accounted x rfl)

namespace Codestream

theorem length_copyLoop (fuel : Nat) (s : Codestream) (left : Nat) (copied : List UInt8) :
    (copyLoop fuel s left copied).1.length ≤ copied.length + left := by
  induction fuel generalizing s left copied with
  | zero => exact Nat.le_add_right _ _
  | succ fuel ih =>
    rw [copyLoop]
    split
    · exact Nat.le_add_right _ _
    split
    · exact Nat.le_add_right _ _
    · apply Nat.le_trans (ih _ _ _)
      rw [List.length_append, List.length_take]
      omega

theorem length_takeContiguous {s : Codestream} {len : Nat} {bytes : List UInt8}
    (taken : (s.takeContiguous len).1 = some bytes) : bytes.length = len := by
  simp only [takeContiguous] at taken
  split at taken
  · cases taken
  split at taken
  next zero =>
    cases taken
    exact zero.symm
  split at taken
  next inside =>
    cases taken
    rw [List.length_take, List.length_drop]
    omega
  · cases taken
    -- What the chain lacks is filled up with zeros.
    have most := length_copyLoop (s.chunks.length - s.curChunk) s len []
    rw [List.length_nil, Nat.zero_add] at most
    rw [List.length_append, List.length_replicate]
    omega

end Codestream

namespace Prec

/-- What the block loop has made of a precinct, and the lengths it has read. -/
structure HeaderParsed (cbs : Nat) (places : List (Nat × Nat)) (prec : Prec)
    (r : (Bool × Prec) × List ((Nat × Nat) × List Nat)) : Prop where
  visited : r.2.map Prod.fst = places
  accounted : ∀ x ∈ r.2, Accounted cbs ((prec.block x.1).placeholder cbs) (r.1.2.block x.1) x.2
  others : ∀ place, place ∉ places → r.1.2.cell place = prec.cell place
  shape : SameShape r.1.2 prec

theorem ends_headerLengths (cbs : Nat) {places : List (Nat × Nat)} (nodup : places.Nodup)
    (has : ∀ place ∈ places, prec.HasBlock place) (fresh : ∀ place ∈ places, (prec.cell place).Fresh) :
    Ends (fun r => r.1.1 = true → HeaderParsed cbs places prec r) (headerLengths cbs places prec) := by
  induction places generalizing prec with
  | nil => exact ends_pure fun _ => ⟨rfl, by simp, fun _ _ => rfl, .refl prec⟩
  | cons place places ih =>
    obtain ⟨outside, nodup⟩ := List.nodup_cons.mp nodup
    have here := has place List.mem_cons_self
    refine (ends_blockLengths cbs (fresh place List.mem_cons_self)).bind ?_
    rintro ⟨⟨went, cell⟩, lengths⟩ accounted
    refine ends_ite (fun went => ?_) (fun stopped => ends_pure (by simp))
    refine (ih nodup (hasBlock_setCell_later has) fun other member => ?_).bind ?_
    · rw [cell_setCell_later outside member]
      exact fresh other (List.mem_cons_of_mem _ member)
    rintro ⟨r, later⟩ parsed
    refine ends_pure fun success => ?_
    have parsed := parsed success
    refine ⟨congrArg (place :: ·) parsed.visited, ?_, ?_, parsed.shape.trans (sameShape_setCell prec place cell)⟩
    · intro x member
      rcases List.mem_cons.mp member with rfl | member
      · rw [block_eq r.2, parsed.others place outside, block_setCell_same here]
        exact accounted went
      · have visited : x.1 ∈ places := parsed.visited ▸ List.mem_map_of_mem member
        have result := parsed.accounted x member
        rwa [block_eq (prec.setCell place cell), cell_setCell_later outside visited] at result
    · intro other absent
      rw [List.mem_cons, not_or] at absent
      rw [parsed.others other absent.2, cell_setCell_other absent.1]

/-- The body loop gives a code-block its bytes and leaves the rest of it alone. -/
theorem readBodies_block {places : List (Nat × Nat)} (nodup : places.Nodup)
    (has : ∀ place ∈ places, prec.HasBlock place) (s : Codestream) {place : Nat × Nat}
    (member : place ∈ places) :
    ∃ data scup, (readBodies places prec s).1.block place = { prec.block place with data := data, scup := scup } ∧
      ∀ bytes ∈ data, bytes.length = (prec.block place).length := by
  induction places generalizing prec s with
  | nil => simp at member
  | cons first places ih =>
    obtain ⟨outside, nodup⟩ := List.nodup_cons.mp nodup
    rw [readBodies]
    rcases List.mem_cons.mp member with rfl | member
    -- The first code-block is written once; the later turns do not come back to it.
    · obtain ⟨scup, same⟩ := withBody_eq (prec.block place) (s.takeContiguous (prec.block place).length).1
      refine ⟨(s.takeContiguous (prec.block place).length).1, scup, ?_,
        fun bytes taken => Codestream.length_takeContiguous taken⟩
      rw [block_eq, readBodies_other outside, setBlock_eq, block_setCell_same (has place List.mem_cons_self), same]
    · rw [setBlock_eq]
      obtain ⟨data, scup, same, sizes⟩ :=
        ih nodup (hasBlock_setCell_later has) (s.takeContiguous (prec.block first).length).2 member
      rw [block_eq (prec.setCell _ _), cell_setCell_later outside member] at same sizes
      exact ⟨data, scup, same, sizes⟩

end Prec

/-! ### Whole packets -/

/-- The lengths that a packet signals, code-block by code-block. -/
def signalled (cbs : Nat) (prec : Prec) (s : Codestream) : List ((Nat × Nat) × List Nat) :=
  ((prec.headerLengths cbs prec.blockOrder).run Codestream.bitSource s.getBit.2).1.2

/-- A packet that is read, beside the lengths that it signals. -/
structure PacketAccounted (cbs : Nat) (prec : Prec) (s : Codestream) (after : Prec) : Prop where
  visited : (signalled cbs prec s).map Prod.fst = prec.blockOrder
  accounted : ∀ x ∈ signalled cbs prec s,
    Accounted cbs ((prec.block x.1).placeholder cbs) (after.block x.1) x.2
  bodies : ∀ place ∈ prec.blockOrder, ∀ bytes ∈ (after.block place).data,
    bytes.length = (after.block place).length

theorem packetAccounted_readPacket (allocated : prec.Allocated) {s : Codestream}
    (nonempty : s.getBit.1 = true) (success : (readPacket s prec.restart cbs).1 = true) :
    PacketAccounted cbs prec.restart s (readPacket s prec.restart cbs).2.1 := by
  have order : prec.restart.blockOrder = prec.blockOrder := rfl
  have ends := (Prec.ends_headerLengths cbs prec.nodup_blockOrder
    (fun place member => (allocated.restart member).1)
    (fun place member => (allocated.restart member).2)).run Codestream.bitSource s.getBit.2
  obtain ⟨same, position⟩ :=
    (Prec.inStep_headerLengths cbs prec.blockOrder prec.restart).run Codestream.bitSource s.getBit.2
  have logged : signalled cbs prec.restart s =
    ((prec.restart.headerLengths cbs prec.blockOrder).run Codestream.bitSource s.getBit.2).1.2 := rfl
  -- The block loop is replaced by the one that keeps the list, which reads the same.
  simp only [readPacket, run_packetBits, nonempty, if_true, order, same] at success ⊢
  generalize (prec.restart.headerLengths cbs prec.blockOrder).run Codestream.bitSource s.getBit.2 = r at *
  obtain ⟨⟨⟨went, header⟩, lengths⟩, t⟩ := r
  cases went with
  | false => cases success
  | true =>
    have parsed := ends rfl
    have has : ∀ place ∈ prec.blockOrder, header.HasBlock place := fun place member =>
      (parsed.shape.hasBlock place).mpr (allocated.restart member).1
    dsimp only
    rw [parsed.shape.blockOrder, order]
    refine ⟨logged ▸ parsed.visited, fun x member => ?_, fun place member => ?_⟩
    -- The bodies leave the lengths as the header has set them.
    · rw [logged] at member
      have visited : x.1 ∈ prec.blockOrder := parsed.visited ▸ List.mem_map_of_mem member
      obtain ⟨data, scup, block, _⟩ := Prec.readBodies_block prec.nodup_blockOrder has
        (Codestream.packetheaderFlushBits _) visited
      rw [block]
      obtain ⟨tally, length⟩ := parsed.accounted x member
      exact ⟨tally, length⟩
    · obtain ⟨data, scup, block, sizes⟩ := Prec.readBodies_block prec.nodup_blockOrder has
        (Codestream.packetheaderFlushBits _) member
      rw [block]
      exact sizes

/-! ### Packets with given code-blocks -/

/-- Parts of a code-block in any style but HT: passes, increment of `Lblock`, the first length and
the others. -/
theorem reads_includedPassSteps (turns : Nat) (blk : Blk) (p q : Nat) (npasses : blk.npasses = 0)
    (lblock : blk.lblock = 3) (some_passes : 1 ≤ p) (few : p ≤ 99) (room : 3 + q + p.log2 ≤ 16) {l l' : List Bool}
    {seg : Segment} (first : Reads (firstSegment { blk with lblock := 3 + q } p) l (some seg))
    (style : (hasMode seg.blk.modes cmodeHt && !seg.blk.htPlhd) = false) {k : Nat} (left : sub32 p seg.passes = k)
    {r : Bool × Blk} {steps : List PassStep}
    (rest : Reads (otherPassSteps seg.bypassTermThreshold turns k seg.nextPasses
      { seg.blk with npasses := (seg.blk.npasses + seg.passes) % 256 }) l' (some (r, steps))) :
    Reads (includedPassSteps turns blk) (passesCode p ++ ((List.replicate q true ++ [false]) ++ (l ++ l')))
      (some (r, ⟨p, ⟨p, seg.passes, seg.bytes⟩ :: steps⟩)) := by
  refine (reads_decodePasses some_passes (by omega)).bind ?_
  rw [if_neg (by rw [npasses, jpeg2000MaxPasses]; omega)]
  refine (reads_getOnes q).bind ?_
  rw [if_neg (by rw [lblock, intLog2_eq some_passes]; exact Nat.not_lt.mpr room), lblock]
  refine first.bind ?_
  simp only [style, left, Bool.false_eq_true, if_false]
  exact rest.bind_nil (reads_pure _)

/-- A code-block with these bits behind a one for the inclusion and a one for no zero bit-plane. -/
theorem reads_blockLengths (fresh : cell.Fresh) {l : List Bool} {log : PassLog}
    (reads : Reads (includedPassSteps jpeg2000MaxPasses (cell.blk.included cbs 0)) l (some ((true, blk), log))) :
    Reads (blockLengths cbs cell) ([true] ++ ([true] ++ l))
      ((true, ⟨⟨0, cell.incl.vis + 1⟩, ⟨0, cell.zbp.vis + 1⟩,
        { blk with length := (blk.passLengths0 + blk.passLengths1) % 2 ^ 32 }⟩), log.lengths) := by
  have logged : Reads (blockPassSteps jpeg2000MaxPasses cbs cell.incl cell.zbp cell.blk) ([true] ++ ([true] ++ l))
      (some ((true, ⟨0, cell.incl.vis + 1⟩, ⟨0, cell.zbp.vis + 1⟩,
        { blk with length := (blk.passLengths0 + blk.passLengths1) % 2 ^ 32 }), some log)) := by
    refine (reads_included fresh.incl 1 0 (by decide)).bind ?_
    rw [if_pos rfl]
    exact (reads_included fresh.zbp 14 0 (by decide)).bind (reads.bind_nil (reads_pure _))
  exact logged.bind_nil (reads_pure _)

/-- A code-block behind the packet that leaves it out. -/
def Cell.excluded (cbs : Nat) (cell : Cell) : Cell where
  incl := { cell.incl with val := 1 }
  zbp := cell.zbp
  blk := { cell.blk with
    modes := cbs
    htPlhd := cell.blk.placeholder cbs
    length := (cell.blk.passLengths0 + cell.blk.passLengths1) % 2 ^ 32 }

theorem reads_blockLengths_excluded (cbs : Nat) (fresh : cell.Fresh) :
    Reads (blockLengths cbs cell) [false] ((true, cell.excluded cbs), []) := by
  have logged : Reads (blockPassSteps jpeg2000MaxPasses cbs cell.incl cell.zbp cell.blk) [false] _ :=
    (reads_excluded fresh.incl).bind_nil (reads_pure _)
  exact logged.bind_nil (reads_pure _)

/-- A length that the header signals for one pass, and that is not counted. -/
theorem reads_dropped (fresh : cell.Fresh)
    (off : cell.blk.placeholder cbs = false) :
    ∃ l cell', Reads (blockLengths cbs cell) l ((true, cell'), [1]) ∧ cell'.blk.length = 0 := by
  obtain ⟨first, second⟩ := fresh.passLengths
  have other := Blk.hasMode_of_not_placeholder off
  let blk := cell.blk.included cbs 0
  have three {width : Nat} (same : width = 3) : Reads (getBits width) (digits 3 1) 1 := by
    subst same
    exact reads_getBits (by decide)
  -- Whatever the style, the length of one pass takes three bits.
  have opened : ∃ next threshold, Reads (firstSegment blk 1) (digits 3 1) (some ⟨blk, 1, 1, next, threshold⟩) := by
    have off : blk.htPlhd = false := off
    have other : hasMode blk.modes cmodeHt = false := other
    have early : blk.npasses < 10 := by
      have zero : blk.npasses = 0 := fresh.npasses
      omega
    have one : min (10 - blk.npasses) 1 = 1 := by omega
    simp only [firstSegment, off, other, early, one, Bool.false_eq_true, if_false, if_true]
    split
    · exact ⟨0, 0, (three rfl).bind_nil (reads_pure _)⟩
    split
    · exact ⟨1, 0, (three rfl).bind_nil (reads_pure _)⟩
    · exact ⟨2, 10, (three rfl).bind_nil (reads_pure _)⟩
  obtain ⟨next, threshold, opened⟩ := opened
  have reads := reads_includedPassSteps jpeg2000MaxPasses blk 1 0 fresh.npasses rfl (by decide) (by decide) (by decide)
    opened (by rw [Bool.and_eq_false_iff]; exact .inl other) (show sub32 1 1 = 0 by decide)
    (otherPassSteps_zero _ _ _ _ ▸ reads_pure _)
  refine ⟨_, _, reads_blockLengths fresh reads, ?_⟩
  change (cell.blk.passLengths0 + cell.blk.passLengths1) % 2 ^ 32 = 0
  rw [first, second]
  decide

/-- A cleanup segment of two bytes, and a segment of one byte for the second pass. -/
theorem reads_terminated (fresh : cell.Fresh) (on : cell.blk.placeholder cbs = true)
    (other : hasMode cbs cmodeHt = false) (termall : hasMode cbs cmodeTermall = true) :
    ∃ l cell', Reads (blockLengths cbs cell) l ((true, cell'), [2, 1]) ∧ cell'.blk.length = 2 := by
  let blk := cell.blk.included cbs 0
  have zero : blk.npasses = 0 := fresh.npasses
  have opened : Reads (firstSegment { blk with lblock := 3 + 1 } 2) (digits 4 2)
      (some ⟨{ blk with lblock := 3 + 1, htPlhd := false, passLengths0 := 2 }, 1, 2, 2, 0⟩) := by
    rw [firstSegment, if_pos (by exact on)]
    simp only [placeholderSegment, zero]
    refine (reads_getBits (n := 4) (v := 2) (by decide)).bind_nil ?_
    rw [if_pos (by decide)]
    -- Two bytes are long enough, and their first bit is clear in the mixed mode.
    split
    · exact reads_pure _
    · exact reads_pure _
  have rest : Reads (otherPassSteps 0 jpeg2000MaxPasses 1 2
      { blk with lblock := 3 + 1, htPlhd := false, passLengths0 := 2, npasses := (blk.npasses + 1) % 256 })
      (digits 4 1) (some ((true, { blk with
        lblock := 3 + 1
        htPlhd := false
        passLengths0 := 2
        npasses := ((blk.npasses + 1) % 256 + 1) % 256 }), [⟨1, 1, 1⟩])) := by
    rw [show jpeg2000MaxPasses = 99 + 1 from rfl, otherPassSteps, if_neg (by decide), if_neg (by decide),
      if_neg (by simpa [blk, Blk.included] using termall)]
    exact (reads_getBits (n := 4) (v := 1) (by decide)).bind_nil (reads_pure _)
  have reads := reads_includedPassSteps jpeg2000MaxPasses blk 2 1 fresh.npasses rfl (by decide) (by decide) (by decide)
    opened (by rw [Bool.and_eq_false_iff]; exact .inl other) (show sub32 2 1 = 1 by decide) rest
  refine ⟨_, _, reads_blockLengths fresh reads, ?_⟩
  change (2 + cell.blk.passLengths1) % 2 ^ 32 = 2
  rw [fresh.passLengths.2]
  decide

/-- A code-block of one byte, which is not an HT block after all. -/
theorem reads_fallback (fresh : cell.Fresh) (mixed : hasMode cbs htMixed = true) :
    ∃ l cell', Reads (blockLengths cbs cell) l ((true, cell'), [1]) ∧ cell'.blk.length = 1 ∧
      cell'.blk.passLengths0 = 1 := by
  -- The bit of the mixed mode alone makes the style large enough for the flag.
  have high : cmodeHt ≤ cbs := by
    by_contra below
    have clear : cbs.testBit 7 = false := Nat.testBit_lt_two_pow (Nat.lt_trans (Nat.lt_of_not_le below) (by decide))
    rw [hasMode, show htMixed = 2 ^ 7 from rfl, Nat.and_two_pow, clear] at mixed
    cases mixed
  have on : cell.blk.placeholder cbs = true := by simp [Blk.placeholder, high]
  let blk := cell.blk.included cbs 0
  have zero : blk.npasses = 0 := fresh.npasses
  have opened : Reads (firstSegment blk 1) (digits 3 1)
      (some ⟨{ blk with modes := cbs &&& 0xBF, htPlhd := false, passLengths0 := 1 }, 1, 1, 0, 0⟩) := by
    rw [firstSegment, if_pos (by exact on)]
    simp only [placeholderSegment, zero]
    refine (reads_getBits (n := 3) (v := 1) (by decide)).bind_nil ?_
    rw [if_pos (by decide), if_neg (by simpa [blk, Blk.included] using mixed), if_neg (by simp [blk, Blk.included])]
    exact reads_pure _
  have reads := reads_includedPassSteps jpeg2000MaxPasses blk 1 0 fresh.npasses rfl (by decide) (by decide) (by decide)
    opened (by rw [hasMode_and_not_ht, Bool.false_and]) (show sub32 1 1 = 0 by decide)
    (otherPassSteps_zero _ _ _ _ ▸ reads_pure _)
  refine ⟨_, _, reads_blockLengths fresh reads, ?_, rfl⟩
  change (1 + cell.blk.passLengths1) % 2 ^ 32 = 1
  rw [fresh.passLengths.2]
  decide

namespace Prec

theorem reads_headerLengths {places : List (Nat × Nat)} (nodup : places.Nodup)
    {bits : Nat × Nat → List Bool} {outcome : Nat × Nat → Cell × List Nat}
    (has : ∀ place ∈ places, prec.HasBlock place)
    (each : ∀ place ∈ places, Reads (blockLengths cbs (prec.cell place)) (bits place)
      ((true, (outcome place).1), (outcome place).2)) :
    ∃ header, Reads (headerLengths cbs places prec) (places.flatMap bits)
        ((true, header), places.map fun place => (place, (outcome place).2)) ∧
      SameShape header prec ∧ (∀ place, place ∉ places → header.cell place = prec.cell place) ∧
      ∀ place ∈ places, header.block place = (outcome place).1.blk := by
  induction places generalizing prec with
  | nil => exact ⟨prec, reads_pure _, .refl prec, fun _ _ => rfl, by simp⟩
  | cons place places ih =>
    obtain ⟨outside, nodup⟩ := List.nodup_cons.mp nodup
    have here := has place List.mem_cons_self
    obtain ⟨header, reads, same, others, blocks⟩ := ih nodup (hasBlock_setCell_later has) fun other member =>
      cell_setCell_later outside member ▸ each other (List.mem_cons_of_mem _ member)
    refine ⟨header, ?_, same.trans (sameShape_setCell prec place (outcome place).1), ?_, ?_⟩
    -- Its bits come first; those of the others are read from cells that have not changed.
    · exact (each place List.mem_cons_self).bind (reads.bind_nil (reads_pure _))
    · intro other absent
      rw [List.mem_cons, not_or] at absent
      rw [others other absent.2, cell_setCell_other absent.1]
    · intro other member
      rcases List.mem_cons.mp member with rfl | member
      · rw [block_eq, others other outside, block_setCell_same here]
      · exact blocks other member

end Prec

section

variable {cbs : Nat} {prec : Prec} {place : Nat × Nat} {l : List Bool} {cell : Cell} {lengths : List Nat}

/-- The packet that includes one code-block, with one byte behind its header. -/
structure SinglePacket (cbs : Nat) (prec : Prec) (place : Nat × Nat) (cell : Cell) (lengths : List Nat)
    (s : Codestream) (header : Prec) (t : Codestream) : Prop where
  nonempty : s.getBit.1 = true
  read : readPacket s prec cbs = (true, Prec.readBodies prec.blockOrder header t)
  signalled : (place, lengths) ∈ signalled cbs prec s
  has : ∀ other ∈ prec.blockOrder, header.HasBlock other
  block : header.block place = cell.blk
  on : t.OnChain
  ahead : (chainBytes t.chunks).drop t.pos = [0xAA]

theorem exists_singlePacket (allocated : prec.Allocated) (member : place ∈ prec.blockOrder)
    (reads : Reads (blockLengths cbs (prec.restart.cell place)) l ((true, cell), lengths)) :
    ∃ s header t, SinglePacket cbs prec.restart place cell lengths s header t := by
  have order : prec.restart.blockOrder = prec.blockOrder := rfl
  -- All other code-blocks are left out.
  let bits (other : Nat × Nat) : List Bool := if other = place then l else [false]
  let outcome (other : Nat × Nat) : Cell × List Nat :=
    if other = place then (cell, lengths) else ((prec.restart.cell other).excluded cbs, [])
  have each : ∀ other ∈ prec.blockOrder, Reads (blockLengths cbs (prec.restart.cell other)) (bits other)
      ((true, (outcome other).1), (outcome other).2) := by
    intro other visited
    by_cases here : other = place
    · simp only [bits, outcome, here, if_true]
      exact reads
    · simp only [bits, outcome, here, if_false]
      exact reads_blockLengths_excluded cbs (allocated.restart visited).2
  obtain ⟨header, reads, shape, _, blocks⟩ := Prec.reads_headerLengths prec.nodup_blockOrder
    (fun other visited => (allocated.restart visited).1) each
  let program : BitProgram (Bool × (Bool × Prec) × List ((Nat × Nat) × List Nat)) := do
    let b ← getBit
    let r ← prec.restart.headerLengths cbs prec.blockOrder
    pure (b, r)
  have whole : Reads program (true :: prec.blockOrder.flatMap bits) _ :=
    (reads_getBit true).bind (reads.map (true, ·))
  let s := streamOf (BitStuffing.stuff (true :: prec.blockOrder.flatMap bits) ++ [0xAA])
  have on : s.OnChain := by
    change s.rewound.OnChain
    exact Codestream.rewound_onChain (by simp [s, streamOf])
  have written : (chainBytes s.chunks).drop s.pos =
      BitStuffing.stuff (true :: prec.blockOrder.flatMap bits) ++ [0xAA] := by
    simp [s, streamOf, chainBytes, Codestream.pos]
  obtain ⟨value, flushed, position⟩ := on.run_stuffed whole ⟨rfl, rfl⟩ written
  have chunks := (Codestream.run_forward program s).chunks
  -- The loop with the list stands for the block loop.
  have ran : program.run Codestream.bitSource s =
      ((s.getBit.1, ((prec.restart.headerLengths cbs prec.blockOrder).run Codestream.bitSource s.getBit.2).1),
        ((prec.restart.headerLengths cbs prec.blockOrder).run Codestream.bitSource s.getBit.2).2) := by
    simp only [program, run_bind]
    rfl
  obtain ⟨same, stop⟩ :=
    (Prec.inStep_headerLengths cbs prec.blockOrder prec.restart).run Codestream.bitSource s.getBit.2
  rw [ran] at value flushed position chunks
  obtain ⟨nonempty, result⟩ := Prod.mk.inj value
  refine ⟨s, header, (program.run Codestream.bitSource s).2.packetheaderFlushBits, nonempty, ?_, ?_, ?_, ?_, ?_, ?_⟩
  · simp only [readPacket, run_packetBits, nonempty, if_true, order, same, stop, result, shape.blockOrder, ran]
  · rw [signalled, order, result]
    exact List.mem_map.mpr ⟨place, member, by simp [outcome]⟩
  · exact fun other visited => (shape.hasBlock other).mpr (allocated.restart visited).1
  · rw [blocks place member]
    simp [outcome]
  · rw [ran]
    exact flushed
  · rw [ran, Codestream.packetheaderFlushBits_chunks, chunks, position, ← List.drop_drop, written, List.drop_left]

/-- The code-block of such a packet keeps its lengths; if it is the first one, its body is the byte. -/
theorem SinglePacket.kept {s t : Codestream} {header : Prec}
    (packet : SinglePacket cbs prec place cell lengths s header t) (member : place ∈ prec.blockOrder) :
    ((readPacket s prec cbs).2.1.block place).length = cell.blk.length ∧
      ((readPacket s prec cbs).2.1.block place).passLengths0 = cell.blk.passLengths0 := by
  obtain ⟨data, scup, block, _⟩ := Prec.readBodies_block prec.nodup_blockOrder packet.has t member
  rw [packet.read, block, packet.block]
  exact ⟨rfl, rfl⟩

theorem SinglePacket.body {s t : Codestream} {header : Prec}
    (packet : SinglePacket cbs prec place cell lengths s header t) {rest : List (Nat × Nat)}
    (first : prec.blockOrder = place :: rest) (one : cell.blk.length = 1) :
    ((readPacket s prec cbs).2.1.block place).data ≠ none := by
  have nodup := prec.nodup_blockOrder
  rw [first] at nodup
  have outside := (List.nodup_cons.mp nodup).1
  have here := packet.has place (first ▸ List.mem_cons_self)
  have ahead : (chainBytes t.chunks).drop t.pos = [0xAA] ++ [] := packet.ahead
  -- The byte behind the header goes to the code-block that is visited first.
  obtain ⟨bytes, _⟩ := Prec.taken packet.on (show 1 = [(0xAA : UInt8)].length from rfl) ahead
  rw [packet.read, first, Prec.readBodies, Prec.block_eq, Prec.readBodies_other outside, Prec.setBlock_eq,
    Prec.block_setCell_same here, Prec.data_withBody, packet.block, one]
  intro null
  rw [null] at bytes
  cases bytes

end

/-! ### Lengths that are dropped -/

/-- The style counts every length that it reads for this code-block. -/
def KeepsLengths (cbs : Nat) (blk : Blk) : Prop :=
  blk.placeholder cbs = true ∧ (hasMode cbs cmodeHt = true ∨ hasMode cbs cmodeTermall = false)

/-- In every packet that is read, the length of each code-block is the sum of its lengths in the
header, so the body loop skips what was signalled. -/
def LengthsKept (cbs : Nat) (prec : Prec) : Prop :=
  ∀ s : Codestream, s.getBit.1 = true → (readPacket s prec cbs).1 = true →
    ∀ x ∈ signalled cbs prec s, ((readPacket s prec cbs).2.1.block x.1).length = x.2.sum

theorem Tally.sum_eq {plhd : Bool} {first second : Nat} {lengths : List Nat}
    (tally : Tally cbs plhd first second lengths) (on : plhd = true)
    (counts : hasMode cbs cmodeHt = true ∨ hasMode cbs cmodeTermall = false) : first + second = lengths.sum := by
  cases tally with
  | empty nothing => exact nothing.symm
  | dropped off => simp [on] at off
  | cleanup two short counted =>
    rcases counted with rfl | ⟨rfl, other, termall⟩
    · rw [List.sum_cons]
    · rcases counts with ht | clear
      · simp [other] at ht
      · simp [clear] at termall
  | fallback => simp

theorem Accounted.length_eq_sum {old : Blk} {lengths : List Nat}
    (accounted : Accounted cbs (old.placeholder cbs) blk lengths) (keeps : KeepsLengths cbs old) :
    blk.length = lengths.sum := by
  rw [accounted.length]
  exact accounted.tally.sum_eq keeps.1 keeps.2

theorem signalled_lengths_kept_iff (cbs : Nat) {prec : Prec} (allocated : prec.Allocated) :
    LengthsKept cbs prec.restart ↔ ∀ place ∈ prec.blockOrder, KeepsLengths cbs (prec.block place) := by
  have same {place : Nat × Nat} (member : place ∈ prec.blockOrder) :
      (prec.restart.block place).placeholder cbs = (prec.block place).placeholder cbs := by
    obtain ⟨band, index⟩ := Prec.mem_blockOrder.mp member
    rw [Prec.block_eq, Prec.cell_restart, if_pos band]
    simp only [if_pos index]
    rfl
  constructor
  · intro kept place member
    have fresh := (allocated.restart member).2
    -- A packet with this code-block alone would lose a length.
    have refute {l : List Bool} {cell : Cell} {lengths : List Nat}
        (reads : Reads (blockLengths cbs (prec.restart.cell place)) l ((true, cell), lengths)) :
        cell.blk.length = lengths.sum := by
      obtain ⟨s, header, t, packet⟩ := exists_singlePacket allocated member reads
      have success : (readPacket s prec.restart cbs).1 = true := by rw [packet.read]
      rw [← kept s packet.nonempty success _ packet.signalled]
      exact (packet.kept member).1.symm
    have on : (prec.restart.block place).placeholder cbs = true := by
      by_contra off
      rw [Bool.not_eq_true] at off
      obtain ⟨l, cell, reads, zero⟩ := reads_dropped fresh off
      have sum := refute reads
      rw [zero] at sum
      cases sum
    refine ⟨same member ▸ on, ?_⟩
    by_contra neither
    rw [not_or, Bool.not_eq_true, Bool.not_eq_false] at neither
    obtain ⟨l, cell, reads, two⟩ := reads_terminated fresh on neither.1 neither.2
    have sum := refute reads
    rw [two] at sum
    cases sum
  · intro keeps s nonempty success x member
    have packet := packetAccounted_readPacket allocated nonempty success
    have visited : x.1 ∈ prec.blockOrder := packet.visited ▸ List.mem_map_of_mem member
    have accounted := packet.accounted x member
    rw [same visited] at accounted
    exact accounted.length_eq_sum (keeps x.1 visited)

theorem allocated_pairPrec : pairPrec.Allocated := ⟨by decide, by decide +kernel, by decide +kernel⟩

theorem signalled_lengths_kept_pair : LengthsKept 0x40 pairPrec.restart := by
  apply (signalled_lengths_kept_iff 0x40 allocated_pairPrec).mpr
  intro place _
  exact ⟨by simp [Blk.placeholder, cmodeHt], .inl (by decide)⟩

/-- One byte is signalled for the first of two code-blocks in the plain style, and not skipped. -/
theorem signalled_length_dropped :
    let s := streamOf [0xE1, 0x00, 0xAA]
    s.getBit.1 = true ∧ (readPacket s pairPrec.restart 0).1 = true ∧
      signalled 0 pairPrec.restart s = [((0, 0), [1]), ((0, 1), [])] ∧
      ((readPacket s pairPrec.restart 0).2.1.block (0, 0)).length = 0 ∧
      (readPacket s pairPrec.restart 0).2.2.pos = 2 := by
  decide +kernel

/-! ### `Scup` -/

/-- Where `Scup` is computed, its two bytes are in the cleanup segment, inside the body. -/
def ScupInside (blk : Blk) : Prop :=
  ∀ bytes, blk.data = some bytes → blk.length ≠ 0 →
    2 ≤ blk.passLengths0 ∧ blk.passLengths0 ≤ blk.length ∧ blk.length = bytes.length

/-- The same for all code-blocks of every packet that is read. -/
def ScupsInside (cbs : Nat) (prec : Prec) : Prop :=
  ∀ s : Codestream, s.getBit.1 = true → (readPacket s prec cbs).1 = true →
    ∀ place ∈ prec.blockOrder, ScupInside ((readPacket s prec cbs).2.1.block place)

/-- Only the mixed mode has a first length below two. -/
theorem Tally.two {plhd : Bool} {first second : Nat} {lengths : List Nat}
    (tally : Tally cbs plhd first second lengths) (plain : hasMode cbs htMixed = false)
    (some_bytes : first + second ≠ 0) : 2 ≤ first := by
  cases tally with
  | empty => exact absurd rfl some_bytes
  | dropped => exact absurd rfl some_bytes
  | cleanup two => exact two
  | fallback mixed => simp [plain] at mixed

theorem scup_inside_iff (cbs : Nat) {prec : Prec} (allocated : prec.Allocated) :
    ScupsInside cbs prec.restart ↔ hasMode cbs htMixed = false ∨ prec.blockOrder = [] := by
  constructor
  · intro inside
    by_contra neither
    rw [not_or, Bool.not_eq_false] at neither
    obtain ⟨place, rest, order⟩ := List.exists_cons_of_ne_nil neither.2
    have member : place ∈ prec.blockOrder := order ▸ List.mem_cons_self
    -- The first code-block falls back to the original coder with one byte.
    obtain ⟨l, cell, reads, one, first⟩ := reads_fallback (allocated.restart member).2 neither.1
    obtain ⟨s, header, t, packet⟩ := exists_singlePacket allocated member reads
    have success : (readPacket s prec.restart cbs).1 = true := by rw [packet.read]
    obtain ⟨length, lengths⟩ := packet.kept member
    obtain ⟨bytes, data⟩ := Option.ne_none_iff_exists'.mp (packet.body order one)
    have bounds := inside s packet.nonempty success place member bytes data (by rw [length, one]; decide)
    rw [lengths, first] at bounds
    omega
  · rintro (plain | none) s nonempty success place member
    · have packet := packetAccounted_readPacket allocated nonempty success
      obtain ⟨x, logged, rfl⟩ := List.mem_map.mp (packet.visited ▸ member)
      obtain ⟨tally, length⟩ := packet.accounted x logged
      intro bytes data some_bytes
      refine ⟨?_, length ▸ Nat.le_add_right _ _, (packet.bodies _ member bytes data).symm⟩
      exact tally.two plain (length ▸ some_bytes)
    · change place ∈ prec.blockOrder at member
      simp [none] at member

theorem scup_inside_pair : ScupsInside 0x40 pairPrec.restart :=
  (scup_inside_iff 0x40 allocated_pairPrec).mpr (.inl (by decide))

/-- In the mixed mode a code-block of one byte: the index of the second byte wraps around. -/
theorem scup_outside_body :
    let s := streamOf [0xE1, 0x00, 0xAA]
    let blk := (readPacket s pairPrec.restart 0xC0).2.1.block (0, 0)
    s.getBit.1 = true ∧ (readPacket s pairPrec.restart 0xC0).1 = true ∧ blk.data = some [0xAA] ∧
      blk.length = 1 ∧ blk.passLengths0 = 1 ∧ sub32 blk.passLengths0 2 = 2 ^ 32 - 1 := by
  decide +kernel

end RtpDecoder.Parser
