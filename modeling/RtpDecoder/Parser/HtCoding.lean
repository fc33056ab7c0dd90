import RtpDecoder.Parser.Cells
import RtpDecoder.Parser.Stuffing

/-!
# Packet headers of HT code-blocks

How an encoder writes the packet of a precinct whose code-blocks are all of the HT kind:
inclusion and zero bit-planes as tag trees of one node, the number of passes, the increment
of `Lblock`, the lengths of the cleanup and the refinement segment. `read_packet` undoes it.
-/

namespace RtpDecoder.Parser

open BitProgram

/-! ### The encoder -/

/-- The passes of the cleanup segment; what is left are refinement passes. -/
def cleanupPasses (p : Nat) : Nat := p - (p - 1) % 3

/-- What an encoder has to say about an included code-block: `segments` are the bytes of the
cleanup and of the refinement segment, if there are any. -/
structure HtBlock where
  zbp : Nat
  passes : Nat
  increment : Nat
  segments : Option (List UInt8 × List UInt8)
  few_planes : zbp ≤ 13
  some_passes : 1 ≤ passes
  few_passes : passes ≤ 99
  short_lengths : 3 + increment + passes.log2 ≤ 16
  cleanup_fits : ∀ seg, segments = some seg →
    2 ≤ seg.1.length ∧ seg.1.length < 2 ^ (3 + increment + (cleanupPasses passes).log2)
  refinement_fits : ∀ seg, segments = some seg →
    if cleanupPasses passes < passes then
      seg.2.length < 2 ^ (3 + increment + (passes - cleanupPasses passes).log2)
    else seg.2 = []

namespace HtBlock

def cleanup (d : HtBlock) : List UInt8 := (d.segments.getD ([], [])).1

def refinement (d : HtBlock) : List UInt8 := (d.segments.getD ([], [])).2

/-- Without segments the length is 0, in as many bits as all passes ask for. -/
def cleanupBits (d : HtBlock) : List Bool :=
  match d.segments with
  | none => List.replicate (3 + d.increment + d.passes.log2) false
  | some seg => digits (3 + d.increment + (cleanupPasses d.passes).log2) seg.1.length

def refinementBits (d : HtBlock) : List Bool :=
  match d.segments with
  | none => []
  | some seg =>
    if cleanupPasses d.passes < d.passes then
      digits (3 + d.increment + (d.passes - cleanupPasses d.passes).log2) seg.2.length
    else []

end HtBlock

/-- The codeword for a number of passes. -/
def passesCode (p : Nat) : List Bool :=
  if p = 1 then [false]
  else if p = 2 then [true, false]
  else if p ≤ 5 then [true, true] ++ digits 2 (p - 3)
  else if p ≤ 36 then [true, true, true, true] ++ digits 5 (p - 6)
  else List.replicate 9 true ++ digits 7 (p - 37)

/-- A code-block in the packet header; `none` is not included. -/
def blockBits : Option HtBlock → List Bool
  | none => [false]
  | some d =>
    [true] ++ ((List.replicate d.zbp false ++ [true]) ++ (passesCode d.passes ++
      ((List.replicate d.increment true ++ [false]) ++ (d.cleanupBits ++ d.refinementBits))))

def blockBody : Option HtBlock → List UInt8
  | none => []
  | some d => d.cleanup ++ d.refinement

/-! ### Tag trees and passes -/

private theorem reads_tagTreeLoop {n z : Nat} (node : TagNode) (below : z < n) :
    Reads (tagTreeLoop n node) (List.replicate z false ++ [true])
      { val := node.val + z, vis := node.vis + 1 } := by
  induction n generalizing z node with
  | zero => exact absurd below (Nat.not_lt_zero z)
  | succ n ih =>
    -- Every zero raises the value of the node, the one ends the loop.
    cases z with
    | zero => exact (reads_getBit true).bind (reads_pure _)
    | succ z =>
      have rest := ih { node with val := node.val + 1 } (Nat.lt_of_succ_lt_succ below)
      rw [Nat.add_right_comm] at rest
      exact (reads_getBit false).bind rest

theorem reads_included {node : TagNode} (fresh : node.val = 0) (threshold z : Nat) (below : z < threshold) :
    Reads (tagTreeDecode node threshold) (List.replicate z false ++ [true])
      { val := z, vis := node.vis + 1 } := by
  have reads := reads_tagTreeLoop node below
  rwa [fresh, Nat.zero_add, ← Nat.sub_zero threshold, ← fresh] at reads

theorem reads_excluded {node : TagNode} (fresh : node.val = 0) :
    Reads (tagTreeDecode node 1) [false] { node with val := 1 } := by
  rw [tagTreeDecode, fresh]
  exact (reads_getBit false).bind (by rw [fresh]; exact reads_pure _)

/-! The stages of the code for the passes: one that is gone through, one that is left out. -/

section

variable {k n w v : Nat} {stage : Nat → BitProgram Nat} {l : List Bool} {p : Nat}

private theorem reads_more (more : k ≤ n) (small : v < 2 ^ w) (rest : Reads (stage (n + v)) l p) :
    Reads (if k ≤ n then do
        let x ← getBits w
        let n ← pure (n + x)
        stage n
      else do
        let n ← pure n
        stage n) (digits w v ++ l) p := by
  rw [if_pos more]
  exact (reads_getBits small).bind ((reads_pure (n + v)).bind rest)

private theorem reads_enough {first : BitProgram Nat} (enough : n < k) (rest : Reads (stage n) l p) :
    Reads (if k ≤ n then first
      else do
        let n ← pure n
        stage n) l p := by
  rw [if_neg (Nat.not_le.mpr enough)]
  exact (reads_pure n).bind rest

private theorem reads_last (enough : n < 37) :
    Reads (if 37 ≤ n then do pure (n + (← getBits 7)) else pure n) [] n := by
  rw [if_neg (Nat.not_le.mpr enough)]
  exact reads_pure n

end

theorem reads_decodePasses {p : Nat} (some : 1 ≤ p) (few : p ≤ 164) : Reads decodePasses (passesCode p) p := by
  -- One case for each length of the codeword; a stage that is left out reads no bits.
  simp only [passesCode]
  split
  next one =>
    subst one
    exact (reads_getBit false).bind (reads_enough (by decide) (reads_enough (by decide)
      (reads_enough (by decide) (reads_last (by decide)))))
  split
  next two =>
    subst two
    exact (reads_getBit true).bind ((reads_getBit false).bind ((reads_pure 2).bind
      (reads_enough (by decide) (reads_enough (by decide) (reads_last (by decide))))))
  split
  next small =>
    obtain ⟨v, rfl⟩ : ∃ v, p = 3 + v := ⟨p - 3, by omega⟩
    rw [Nat.add_sub_cancel_left, ← List.append_nil (digits 2 v)]
    exact (reads_getBit true).bind ((reads_getBit true).bind ((reads_pure 3).bind
      (reads_more (by decide) (by omega) (reads_enough (by omega) (reads_last (by omega))))))
  split
  next middle =>
    obtain ⟨v, rfl⟩ : ∃ v, p = 6 + v := ⟨p - 6, by omega⟩
    rw [Nat.add_sub_cancel_left, ← List.append_nil (digits 5 v)]
    have four : Reads (getBits 2) [true, true] 3 := reads_getBits (v := 3) (by decide)
    exact (reads_getBit true).bind ((reads_getBit true).bind ((reads_pure 3).bind
      (four.bind ((reads_pure 6).bind
        (reads_more (by decide) (by omega) (reads_last (by omega)))))))
  next large =>
    obtain ⟨v, rfl⟩ : ∃ v, p = 37 + v := ⟨p - 37, by omega⟩
    rw [Nat.add_sub_cancel_left]
    have four : Reads (getBits 2) [true, true] 3 := reads_getBits (v := 3) (by decide)
    have nine : Reads (getBits 5) [true, true, true, true, true] 31 := reads_getBits (v := 31) (by decide)
    have last : Reads (getBits 7) (digits 7 v) v := reads_getBits (by omega)
    exact (reads_getBit true).bind ((reads_getBit true).bind ((reads_pure 3).bind
      (four.bind ((reads_pure 6).bind (nine.bind ((reads_pure 37).bind (last.map (37 + ·))))))))

/-! ### Lengths -/

theorem intLog2_eq {p : Nat} (some : 1 ≤ p) : intLog2 p = p.log2 := by
  have low := Nat.log2_self_le (Nat.ne_of_gt some)
  have high : p < 2 ^ (p.log2 + 1) := Nat.lt_log2_self
  have above : p ≤ p ||| 1 := Nat.left_le_or
  refine (Nat.log2_eq_iff (by omega)).mpr ⟨Nat.le_trans low above, Nat.or_lt_two_pow high ?_⟩
  exact Nat.one_lt_two_pow (Nat.succ_ne_zero _)

theorem log2_le_log2 {k p : Nat} (le : k ≤ p) : k.log2 ≤ p.log2 := by
  rcases Nat.eq_zero_or_pos k with rfl | positive
  · exact Nat.zero_le _
  · exact (Nat.le_log2 (by omega)).mpr (Nat.le_trans (Nat.log2_self_le (Nat.ne_of_gt positive)) le)

/-- Each power of two up to the number of passes adds a bit. -/
theorem growBits_eq {p fuel j : Nat} (bits : Nat) (some : 1 ≤ p) (below : j ≤ p.log2)
    (enough : p.log2 - j ≤ fuel) :
    growBits p fuel bits (2 ^ (j + 1)) = (bits + (p.log2 - j), 2 ^ (p.log2 + 1)) := by
  induction fuel generalizing j bits with
  | zero =>
    have same : j = p.log2 := by omega
    simp [growBits, same]
  | succ fuel ih =>
    by_cases more : 2 ^ (j + 1) ≤ p
    · have next : j + 1 ≤ p.log2 := (Nat.le_log2 (Nat.ne_of_gt some)).mpr more
      rw [growBits, if_pos more, ← Nat.pow_succ', ih (bits + 1) next (by omega)]
      congr 1
      omega
    · have last : ¬ j + 1 ≤ p.log2 := fun next => more ((Nat.le_log2 (Nat.ne_of_gt some)).mp next)
      have same : j = p.log2 := by omega
      rw [growBits, if_neg more, same, Nat.sub_self]
      rfl

private theorem reads_extendLength {p fuel j : Nat} (some : 1 ≤ p) (below : j ≤ p.log2)
    (enough : p.log2 - j ≤ fuel) :
    Reads (extendLength p fuel (2 ^ (j + 1)) 0) (List.replicate (p.log2 - j) false) 0 := by
  induction fuel generalizing j with
  | zero =>
    rw [Nat.le_zero.mp enough]
    exact reads_pure 0
  | succ fuel ih =>
    by_cases more : 2 ^ (j + 1) ≤ p
    · have next : j + 1 ≤ p.log2 := (Nat.le_log2 (Nat.ne_of_gt some)).mpr more
      have rest := ih next (by omega)
      rw [extendLength, if_pos more, ← Nat.pow_succ', show p.log2 - j = p.log2 - (j + 1) + 1 by omega]
      exact (reads_getBit false).bind rest
    · have last : ¬ j + 1 ≤ p.log2 := fun next => more ((Nat.le_log2 (Nat.ne_of_gt some)).mp next)
      rw [extendLength, if_neg more, show p.log2 - j = 0 by omega]
      exact reads_pure 0

private theorem reads_zeros (n : Nat) : Reads (getBits n) (List.replicate n false) 0 := by
  have zeros : digits n 0 = List.replicate n false := by simp [digits]
  exact zeros ▸ reads_getBits (Nat.two_pow_pos n)

theorem cleanupPasses_range {p : Nat} (some : 1 ≤ p) :
    1 ≤ cleanupPasses p ∧ cleanupPasses p ≤ p ∧ p - cleanupPasses p ≤ 2 := by
  rw [cleanupPasses]
  omega

/-! ### One code-block -/

namespace HtBlock

theorem length_lt (d : HtBlock) : d.cleanup.length + d.refinement.length < 2 ^ 32 := by
  obtain ⟨some_cleanup, most, rest⟩ := cleanupPasses_range d.some_passes
  have room := d.short_lengths
  have bound {n k : Nat} (le : k ≤ d.passes) (lt : n < 2 ^ (3 + d.increment + k.log2)) : n < 2 ^ 16 := by
    have log := log2_le_log2 le
    exact Nat.lt_of_lt_of_le lt (Nat.pow_le_pow_right (by decide) (by omega))
  cases segments : d.segments with
  | none => simp [cleanup, refinement, segments]
  | some seg =>
    have first := bound most (d.cleanup_fits seg segments).2
    have second : seg.2.length < 2 ^ 16 := by
      have fits := d.refinement_fits seg segments
      split at fits
      · exact bound (Nat.sub_le _ _) fits
      · rw [fits]
        decide
    simp only [cleanup, refinement, segments, Option.getD_some]
    omega

/-- What the first segment leaves, if the code-block has none or a cleanup segment. -/
private def opening (d : HtBlock) (blk : Blk) : Segment :=
  match d.segments with
  | none => ⟨blk, d.passes, 0, 0, 0⟩
  | some seg =>
    ⟨{ blk with htPlhd := false, passLengths0 := seg.1.length }, cleanupPasses d.passes, seg.1.length, 2, 0⟩

section

variable {d : HtBlock} {blk : Blk}

private theorem reads_placeholderSegment (fresh : blk.npasses = 0) (lblock : blk.lblock = 3 + d.increment)
    (plain : hasMode blk.modes htMixed = false) :
    Reads (placeholderSegment blk d.passes) d.cleanupBits (some (d.opening blk)) := by
  have positive := d.some_passes
  obtain ⟨some_cleanup, most, _⟩ := cleanupPasses_range positive
  have split : d.passes - (blk.npasses + d.passes - 1) % 3 = cleanupPasses d.passes := by
    rw [fresh, Nat.zero_add, cleanupPasses]
  have possible : ¬ d.passes ≤ (blk.npasses + d.passes - 1) % 3 := by omega
  have grown : growBits (cleanupPasses d.passes) (cleanupPasses d.passes) blk.lblock 2 =
      (3 + d.increment + (cleanupPasses d.passes).log2, 2 ^ ((cleanupPasses d.passes).log2 + 1)) := by
    have enough : (cleanupPasses d.passes).log2 - 0 ≤ cleanupPasses d.passes := Nat.log2_le_self _
    rw [lblock]
    exact growBits_eq (3 + d.increment) some_cleanup (Nat.zero_le _) enough
  simp only [placeholderSegment, if_neg possible, split, grown]
  simp only [cleanupBits, opening]
  cases segments : d.segments with
  -- A length of 0 for the cleanup passes is continued with zeros for all passes.
  | none =>
    have ordered : (cleanupPasses d.passes).log2 ≤ d.passes.log2 := log2_le_log2 most
    have enough : d.passes.log2 - (cleanupPasses d.passes).log2 ≤ d.passes :=
      Nat.le_trans (Nat.sub_le _ _) (Nat.log2_le_self _)
    have bits : 3 + d.increment + d.passes.log2 = 3 + d.increment + (cleanupPasses d.passes).log2 +
        (d.passes.log2 - (cleanupPasses d.passes).log2) := by omega
    rw [bits, ← List.replicate_append_replicate]
    refine (reads_zeros _).bind ?_
    rw [if_neg (by simp)]
    refine (reads_extendLength positive ordered enough).bind_nil ?_
    rw [if_pos rfl]
    exact reads_pure _
  | some seg =>
    obtain ⟨two, fits⟩ := d.cleanup_fits seg segments
    have nonzero : seg.1.length ≠ 0 := by omega
    have valid : ¬ seg.1.length < 2 := Nat.not_lt.mpr two
    refine (reads_getBits fits).bind_nil ?_
    rw [if_pos nonzero, if_pos (by simp [plain]), if_neg valid]
    exact reads_pure _

private theorem reads_htSegments {seg : List UInt8 × List UInt8} (segments : d.segments = some seg)
    (lblock : blk.lblock = 3 + d.increment) (fresh : blk.passLengths1 = 0)
    (passes : blk.npasses = cleanupPasses d.passes) :
    Reads (htSegments (d.passes - cleanupPasses d.passes) (d.passes - cleanupPasses d.passes) 2 blk)
      d.refinementBits { blk with passLengths1 := seg.2.length, npasses := d.passes } := by
  obtain ⟨some_cleanup, most, rest⟩ := cleanupPasses_range d.some_passes
  have few := d.few_passes
  have fits := d.refinement_fits seg segments
  have lengths := d.short_lengths
  simp only [refinementBits, segments]
  -- One or two refinement passes are left, and the first turn of the loop takes all of them.
  by_cases more : cleanupPasses d.passes < d.passes
  · rw [if_pos more] at fits ⊢
    obtain ⟨n, left⟩ : ∃ n, d.passes - cleanupPasses d.passes = n + 1 :=
      ⟨d.passes - cleanupPasses d.passes - 1, by omega⟩
    have all : (if 1 < n + 1 then 2 else 1) = n + 1 := by
      split <;> omega
    have log : (n + 1).log2 ≤ n + 1 := Nat.log2_le_self _
    have width : (blk.lblock + intLog2 (n + 1)) % 256 = 3 + d.increment + (n + 1).log2 := by
      rw [lblock, intLog2_eq (show 1 ≤ n + 1 by omega)]
      omega
    have short : seg.2.length < 2 ^ 32 := by
      refine Nat.lt_of_lt_of_le fits (Nat.pow_le_pow_right (by decide) ?_)
      rw [left]
      omega
    rw [left] at fits ⊢
    rw [htSegments, if_neg (Nat.succ_ne_zero n), all]
    dsimp only
    rw [width]
    refine (reads_getBits fits).bind_nil ?_
    have total : cleanupPasses d.passes + (n + 1) = d.passes := by omega
    have done : sub32 (n + 1) (n + 1) = 0 := by simp [sub32]
    have byte : d.passes % 256 = d.passes := Nat.mod_eq_of_lt (by omega)
    rw [fresh, Nat.zero_add, Nat.mod_eq_of_lt short, passes, total, byte, done]
    cases n with
    | zero => exact reads_pure _
    | succ n =>
      rw [htSegments, if_pos rfl]
      exact reads_pure _
  · rw [if_neg more] at fits ⊢
    have none_left : d.passes - cleanupPasses d.passes = 0 := by omega
    have all : cleanupPasses d.passes = d.passes := by omega
    have same : ({ blk with passLengths1 := seg.2.length, npasses := d.passes } : Blk) = blk := by
      rw [fits, ← all, ← passes, List.length_nil, ← fresh]
    rw [none_left, same]
    exact reads_pure _

/-- The code-block behind its part of the header. -/
def decoded (d : HtBlock) (blk : Blk) : Blk :=
  { blk with
    lblock := 3 + d.increment
    npasses := d.passes
    passLengths0 := d.cleanup.length
    passLengths1 := d.refinement.length
    htPlhd := d.segments.isNone }

private theorem reads_parseIncluded (d : HtBlock) (blk : Blk) (npasses : blk.npasses = 0) (lblock : blk.lblock = 3)
    (lengths : blk.passLengths0 = 0 ∧ blk.passLengths1 = 0) (plhd : blk.htPlhd = true)
    (ht : hasMode blk.modes cmodeHt = true) (plain : hasMode blk.modes htMixed = false) :
    Reads (parseIncluded blk)
      (passesCode d.passes ++ ((List.replicate d.increment true ++ [false]) ++
        (d.cleanupBits ++ d.refinementBits))) (true, d.decoded blk) := by
  have few := d.few_passes
  obtain ⟨some_cleanup, most, rest⟩ := cleanupPasses_range d.some_passes
  -- Neither of the two checks in front of the segments refuses the code-block.
  refine (reads_decodePasses d.some_passes (by omega)).bind ?_
  rw [if_neg (by rw [npasses, jpeg2000MaxPasses]; omega)]
  refine (reads_getOnes d.increment).bind ?_
  rw [if_neg (by rw [lblock, intLog2_eq d.some_passes]; exact Nat.not_lt.mpr d.short_lengths), lblock]
  have first : Reads (firstSegment { blk with lblock := 3 + d.increment } d.passes) d.cleanupBits
      (some (d.opening { blk with lblock := 3 + d.increment })) := by
    simp only [firstSegment, plhd, if_true]
    exact reads_placeholderSegment npasses rfl plain
  refine first.bind ?_
  have bytes {n : Nat} (le : n ≤ d.passes) : n % 256 = n := Nat.mod_eq_of_lt (by omega)
  cases segments : d.segments with
  | none =>
    have rest : d.refinementBits = [] := by simp only [refinementBits, segments]
    have all : sub32 d.passes d.passes = 0 := by simp [sub32]
    have same : d.decoded blk = { blk with lblock := 3 + d.increment, npasses := d.passes } := by
      simp [decoded, cleanup, refinement, segments, lengths, plhd]
    simp only [opening, segments, npasses, Nat.zero_add, bytes (Nat.le_refl _), plhd, all, rest, same]
    rw [if_neg (by simp)]
    exact reads_pure _
  | some seg =>
    have left : sub32 d.passes (cleanupPasses d.passes) = d.passes - cleanupPasses d.passes := by
      rw [sub32]
      omega
    have same : d.decoded blk =
        { blk with
          lblock := 3 + d.increment
          npasses := d.passes
          htPlhd := false
          passLengths0 := seg.1.length
          passLengths1 := seg.2.length } := by
      simp [decoded, cleanup, refinement, segments]
    simp only [opening, segments, npasses, Nat.zero_add, bytes most, left, ht, same]
    exact (reads_htSegments segments (by rfl) (by exact lengths.2) (by rfl)).map (true, ·)

end

end HtBlock

/-- What a code-block is behind its part of the header; one that is not included has no bytes. -/
def codedBlock (cbs : Nat) (blk : Blk) : Option HtBlock → Blk
  | none => { blk with modes := cbs, htPlhd := true, length := 0 }
  | some d =>
    { d.decoded { blk with modes := cbs, incl := 1, zbp := d.zbp } with
      length := d.cleanup.length + d.refinement.length }

/-- A cell behind `restart`: both nodes are zero, and so are the passes and lengths. -/
structure Cell.Fresh (cell : Cell) : Prop where
  incl : cell.incl.val = 0
  zbp : cell.zbp.val = 0
  npasses : cell.blk.npasses = 0
  passLengths : cell.blk.passLengths0 = 0 ∧ cell.blk.passLengths1 = 0

private theorem reads_parseBlock {cbs : Nat} (ht : cbs &&& 0xC0 = 0x40) {cell : Cell}
    (fresh : cell.Fresh) (coded : Option HtBlock) :
    ∃ incl zbp, Reads (parseBlock cbs cell.incl cell.zbp cell.blk) (blockBits coded)
      (true, incl, zbp, codedBlock cbs cell.blk coded) := by
  have high : cmodeHt ≤ cbs := Nat.le_trans (Nat.le_of_eq ht.symm) Nat.and_le_left
  -- Both bits of the style are decided by the mask.
  have style : hasMode cbs cmodeHt = true := by
    rw [hasMode, show cmodeHt = 0xC0 &&& 0x40 from rfl, ← Nat.and_assoc, ht]
    rfl
  have plain : hasMode cbs htMixed = false := by
    rw [hasMode, show htMixed = 0xC0 &&& 0x80 from rfl, ← Nat.and_assoc, ht]
    rfl
  obtain ⟨first, second⟩ := fresh.passLengths
  simp only [parseBlock, high, decide_true, Bool.or_true]
  cases coded with
  | none =>
    refine ⟨{ cell.incl with val := 1 }, cell.zbp, (reads_excluded fresh.incl).bind_nil ?_⟩
    simp only [Nat.one_ne_zero, if_false, codedBlock, first, second]
    exact reads_pure _
  | some d =>
    have planes : d.zbp % 256 = d.zbp := Nat.mod_eq_of_lt (Nat.lt_of_le_of_lt d.few_planes (by decide))
    refine ⟨{ val := 0, vis := cell.incl.vis + 1 }, { val := d.zbp, vis := cell.zbp.vis + 1 }, ?_⟩
    refine (reads_included fresh.incl 1 0 (by decide)).bind ?_
    rw [if_pos rfl]
    have zeros := reads_included fresh.zbp 14 d.zbp (Nat.lt_succ_of_le d.few_planes)
    refine zeros.bind ?_
    simp only [planes]
    refine (d.reads_parseIncluded
      { cell.blk with modes := cbs, htPlhd := true, incl := 1, zbp := d.zbp, lblock := 3 }
      fresh.npasses rfl fresh.passLengths rfl style plain).bind_nil ?_
    have total : (d.cleanup.length + d.refinement.length) % 2 ^ 32 =
        d.cleanup.length + d.refinement.length := Nat.mod_eq_of_lt d.length_lt
    simp only [if_true, HtBlock.decoded, total]
    exact reads_pure _

/-! ### All code-blocks -/

namespace Prec

theorem reads_parseBlocks {cbs : Nat} (ht : cbs &&& 0xC0 = 0x40) {places : List (Nat × Nat)}
    (nodup : places.Nodup) {coded : List (Option HtBlock)} (length : coded.length = places.length)
    {prec : Prec} (has : ∀ place ∈ places, prec.HasBlock place)
    (fresh : ∀ place ∈ places, (prec.cell place).Fresh) :
    ∃ prec', Reads (parseBlocks cbs places prec) (coded.flatMap blockBits) (true, prec') ∧
      prec'.blockOrder = prec.blockOrder ∧
      (∀ place, prec'.HasBlock place ↔ prec.HasBlock place) ∧
      (∀ place, place ∉ places → prec'.cell place = prec.cell place) ∧
      ∀ x ∈ places.zip coded, prec'.block x.1 = codedBlock cbs (prec.block x.1) x.2 := by
  induction places generalizing coded prec with
  | nil =>
    cases List.length_eq_zero_iff.mp length
    exact ⟨prec, reads_pure _, rfl, fun _ => Iff.rfl, fun _ _ => rfl, by simp⟩
  | cons place places ih =>
    obtain ⟨d, rest, rfl⟩ := List.exists_cons_of_length_eq_add_one length
    obtain ⟨outside, nodup⟩ := List.nodup_cons.mp nodup
    have here := has place List.mem_cons_self
    obtain ⟨incl, zbp, first⟩ := reads_parseBlock ht (fresh place List.mem_cons_self) d
    obtain ⟨prec', reads, order, blocks, others, done⟩ := ih nodup (Nat.succ.inj length)
      (hasBlock_setCell_later (c := ⟨incl, zbp, codedBlock cbs (prec.block place) d⟩) has)
      (fun other member => by
        rw [cell_setCell_later outside member]
        exact fresh other (List.mem_cons_of_mem _ member))
    refine ⟨prec', ?_, order, fun other => (blocks other).trans ((sameShape_setCell _ _ _).hasBlock _), ?_, ?_⟩
    · exact first.bind reads
    · intro other absent
      rw [List.mem_cons, not_or] at absent
      rw [others other absent.2, cell_setCell_other absent.1]
    · intro x member
      rw [List.zip_cons_cons, List.mem_cons] at member
      rcases member with rfl | member
      · rw [block_eq, others place outside]
        exact block_setCell_same here
      · rw [done x member, block_eq _ x.1, cell_setCell_later outside (List.of_mem_zip member).1]
        rfl

/-- A code-block with its body: whatever the pointer is, the bytes behind it are these. -/
def HasBody (header blk : Blk) (body : List UInt8) : Prop :=
  ∃ data, blk = withBody header data ∧ data.getD [] = body

theorem taken {s : Codestream} (on : s.OnChain) {len : Nat} {body rest : List UInt8}
    (size : len = body.length) (ahead : (chainBytes s.chunks).drop s.pos = body ++ rest) :
    (s.takeContiguous len).1.getD [] = body ∧
      (chainBytes (s.takeContiguous len).2.chunks).drop (s.takeContiguous len).2.pos = rest ∧
      (s.takeContiguous len).2.pos = s.pos + body.length ∧ (s.takeContiguous len).2.OnChain := by
  have present : s.pos + len ≤ (chainBytes s.chunks).length := by
    have whole := congrArg List.length ahead
    have inside := on.inside
    rw [List.length_drop, List.length_append] at whole
    omega
  obtain ⟨same, _⟩ := on.takeContiguous (show (s.flat.takeContiguous len).2.Inside from present)
  have value : (s.takeContiguous len).1.getD [] = ((chainBytes s.chunks).drop s.pos).take len := same.value
  have pos : (s.takeContiguous len).2.pos = s.pos + len := congrArg FlatReader.pos same.flat
  refine ⟨?_, ?_, size ▸ pos, same.on⟩
  · rw [value, ahead, size, List.take_left]
  · rw [pos, Codestream.takeContiguous_chunks, ← List.drop_drop, ahead, size, List.drop_left]

theorem readBodies_other {places : List (Nat × Nat)} {prec : Prec} {s : Codestream} {place : Nat × Nat}
    (absent : place ∉ places) : (readBodies places prec s).1.cell place = prec.cell place := by
  induction places generalizing prec s with
  | nil => rfl
  | cons first places ih =>
    rw [List.mem_cons, not_or] at absent
    rw [readBodies, ih absent.2, cell_setBlock_other absent.1]

theorem readBodies_eq {places : List (Nat × Nat)} (nodup : places.Nodup)
    {coded : List (Option HtBlock)} (length : coded.length = places.length) {prec : Prec}
    (has : ∀ place ∈ places, prec.HasBlock place)
    (lengths : ∀ x ∈ places.zip coded, (prec.block x.1).length = (blockBody x.2).length)
    {s : Codestream} (on : s.OnChain) {rest : List UInt8}
    (ahead : (chainBytes s.chunks).drop s.pos = coded.flatMap blockBody ++ rest) :
    (readBodies places prec s).2.pos = s.pos + (coded.flatMap blockBody).length ∧
      ∀ x ∈ places.zip coded, HasBody (prec.block x.1) ((readBodies places prec s).1.block x.1) (blockBody x.2) := by
  induction places generalizing coded prec s with
  | nil =>
    cases List.length_eq_zero_iff.mp length
    exact ⟨rfl, by simp⟩
  | cons place places ih =>
    obtain ⟨d, later, rfl⟩ := List.exists_cons_of_length_eq_add_one length
    obtain ⟨outside, nodup⟩ := List.nodup_cons.mp nodup
    have here := has place List.mem_cons_self
    have size : (prec.block place).length = (blockBody d).length := lengths (place, d) List.mem_cons_self
    -- The bodies stand in the order of the places, the first of them at the position of the reader.
    rw [List.flatMap_cons, List.append_assoc] at ahead
    obtain ⟨body, next, moved, on⟩ := taken on size ahead
    have same (blk : Blk) {other : Nat × Nat} (member : other ∈ places) :
        (prec.setBlock place blk).block other = prec.block other := by
      rw [setBlock_eq]
      exact congrArg Cell.blk (cell_setCell_later outside member)
    obtain ⟨position, done⟩ := ih nodup (Nat.succ.inj length) (setBlock_eq _ _ _ ▸ hasBlock_setCell_later has)
      (fun x member => by
        rw [same (withBody (prec.block place) (s.takeContiguous (prec.block place).length).1)
          (List.of_mem_zip member).1]
        exact lengths x (List.mem_cons_of_mem _ member))
      on next
    simp only [readBodies]
    refine ⟨?_, ?_⟩
    · rw [position, moved, List.flatMap_cons, List.length_append, Nat.add_assoc]
    · intro x member
      rw [List.zip_cons_cons, List.mem_cons] at member
      rcases member with rfl | member
      · refine ⟨(s.takeContiguous (prec.block place).length).1, ?_, body⟩
        rw [block_eq, readBodies_other outside, setBlock_eq]
        exact block_setCell_same here
      · have result := done x member
        rwa [same _ (List.of_mem_zip member).1] at result

end Prec

/-! ### The whole packet -/

/-- What a decoder of the code-block is given: the fields of the header and the bytes of the body. -/
structure Delivered (blk : Blk) (d : HtBlock) : Prop where
  zbp : blk.zbp = d.zbp
  npasses : blk.npasses = d.passes
  passLengths : blk.passLengths0 = d.cleanup.length ∧ blk.passLengths1 = d.refinement.length
  length : blk.length = d.cleanup.length + d.refinement.length
  data : blk.data.getD [] = d.cleanup ++ d.refinement

/-- Without inclusion there are no bytes. -/
def DeliveredAs (blk : Blk) : Option HtBlock → Prop
  | none => blk.length = 0 ∧ blk.data.getD [] = []
  | some d => Delivered blk d

theorem length_codedBlock (cbs : Nat) (old : Blk) (coded : Option HtBlock) :
    (codedBlock cbs old coded).length = (blockBody coded).length := by
  cases coded with
  | none => rfl
  | some d => simp [codedBlock, blockBody]

theorem deliveredAs_of_body {cbs : Nat} {old blk : Blk} {coded : Option HtBlock}
    (body : Prec.HasBody (codedBlock cbs old coded) blk (blockBody coded)) : DeliveredAs blk coded := by
  obtain ⟨data, rfl, bytes⟩ := body
  obtain ⟨scup, shape⟩ := Prec.withBody_eq (codedBlock cbs old coded) data
  rw [shape]
  cases coded with
  | none => exact ⟨rfl, bytes⟩
  | some d => exact ⟨rfl, rfl, ⟨rfl, rfl⟩, rfl, bytes⟩

/-- The arrays of a precinct are as large as its counts say, and the nodes of its tag trees can
be counted, which `tag_tree_size` asserts. -/
structure Prec.Allocated (prec : Prec) : Prop where
  bands : prec.numBands ≤ prec.pband.length
  blocks : ∀ b < prec.numBands, prec.numBlocks ≤ (prec.band b).blk.length
  nodes : tagTreeSizeLoop 33 prec.ncbw prec.ncbh 0 + 1 < 2 ^ 31 - 1

theorem Prec.Allocated.restart {prec : Prec} (allocated : prec.Allocated) {place : Nat × Nat}
    (member : place ∈ prec.blockOrder) : prec.restart.HasBlock place ∧ (prec.restart.cell place).Fresh := by
  obtain ⟨band, index⟩ := Prec.mem_blockOrder.mp member
  have node : place.2 < tagTreeSize prec.ncbw prec.ncbh :=
    Nat.lt_of_lt_of_le index (Prec.numBlocks_le_tagTreeSize allocated.nodes)
  refine ⟨?_, ?_⟩
  · rw [prec.sameShape_restart.hasBlock]
    exact ⟨Nat.lt_of_lt_of_le band allocated.bands, Nat.lt_of_lt_of_le index (allocated.blocks _ band)⟩
  · rw [Prec.cell_restart, if_pos band, if_pos node, if_pos node, if_pos index]
    exact ⟨rfl, rfl, rfl, rfl, rfl⟩

/-- `read_packet` undoes the encoder. -/
theorem read_packet_undoes_encode {cbs : Nat} (ht : cbs &&& 0xC0 = 0x40) {prec : Prec}
    (allocated : prec.Allocated) {coded : List (Option HtBlock)}
    (length : coded.length = prec.blockOrder.length) {s : Codestream} (on : s.OnChain)
    (aligned : s.bits = 0 ∧ s.tmp = 0) {rest : List UInt8}
    (written : (chainBytes s.chunks).drop s.pos =
      BitStuffing.stuff (true :: coded.flatMap blockBits) ++ (coded.flatMap blockBody ++ rest)) :
    let r := readPacket s prec.restart cbs
    r.1 = true ∧ (∀ x ∈ prec.blockOrder.zip coded, DeliveredAs (r.2.1.block x.1) x.2) ∧
      r.2.2.pos = s.pos + (BitStuffing.stuff (true :: coded.flatMap blockBits)).length +
        (coded.flatMap blockBody).length := by
  have order : prec.restart.blockOrder = prec.blockOrder := rfl
  obtain ⟨header, reads, same, blocks, _, decoded⟩ := Prec.reads_parseBlocks ht prec.nodup_blockOrder length
    (fun place member => (allocated.restart member).1) (fun place member => (allocated.restart member).2)
  have packet : (packetBits cbs prec.restart).Reads (true :: coded.flatMap blockBits) (some (true, header)) :=
    (reads_getBit true).bind (reads.map some)
  -- The header ends with a whole byte, and the bodies are what stands behind it.
  obtain ⟨value, flushed, position⟩ := on.run_stuffed packet aligned written
  have chunks := (Codestream.run_forward (packetBits cbs prec.restart) s).chunks
  generalize run : (packetBits cbs prec.restart).run Codestream.bitSource s = outcome at *
  have ahead : (chainBytes outcome.2.packetheaderFlushBits.chunks).drop outcome.2.packetheaderFlushBits.pos =
      coded.flatMap blockBody ++ rest := by
    rw [Codestream.packetheaderFlushBits_chunks, chunks, position, ← List.drop_drop, written, List.drop_left]
  have sizes : ∀ x ∈ prec.blockOrder.zip coded, (header.block x.1).length = (blockBody x.2).length := by
    intro x member
    rw [decoded x member, length_codedBlock]
  obtain ⟨stop, bodies⟩ := Prec.readBodies_eq prec.nodup_blockOrder length
    (fun place member => (blocks place).mpr (allocated.restart member).1) sizes flushed ahead
  have result : readPacket s prec.restart cbs =
      (true, Prec.readBodies prec.blockOrder header outcome.2.packetheaderFlushBits) := by
    simp only [readPacket, run, value, same, order]
  simp only [result]
  refine ⟨trivial, fun x member => ?_, by rw [stop, position]⟩
  have body := bodies x member
  rw [decoded x member] at body
  exact deliveredAs_of_body body

/-- One code-block that is not included, and one with three passes: a cleanup segment of three
bytes and a refinement segment of one. -/
def codedPair : List (Option HtBlock) :=
  [none,
    some
      { zbp := 1, passes := 3, increment := 1, segments := some ([1, 2, 3], [9])
        few_planes := by decide
        some_passes := by decide
        few_passes := by decide
        short_lengths := by decide
        cleanup_fits := by rintro _ ⟨⟩; decide
        refinement_fits := by rintro _ ⟨⟩; decide }]

/-- A precinct of two code-blocks. -/
def pairPrec : Prec where
  pband := [{ incl := List.replicate 3 {}, zbp := List.replicate 3 {}, blk := List.replicate 2 {} }]
  numBands := 1
  ncbw := 2
  ncbh := 1

/-- Their packet in two chunks, with one byte of the next packet. -/
def pairStream : Codestream where
  chunks :=
    [{ bytes := (BitStuffing.stuff (true :: codedPair.flatMap blockBits)).take 2 },
      { bytes := (BitStuffing.stuff (true :: codedPair.flatMap blockBits)).drop 2 ++
        (codedPair.flatMap blockBody ++ [0x80]) }]

theorem read_packet_undoes_encode_pair :
    (readPacket pairStream pairPrec.restart 0x40).1 = true ∧
      (∀ x ∈ pairPrec.blockOrder.zip codedPair,
        DeliveredAs ((readPacket pairStream pairPrec.restart 0x40).2.1.block x.1) x.2) ∧
      (readPacket pairStream pairPrec.restart 0x40).2.2.pos = 7 := by
  have allocated : pairPrec.Allocated := ⟨by decide, by decide +kernel, by decide +kernel⟩
  have on : pairStream.OnChain := by
    change pairStream.rewound.OnChain
    exact Codestream.rewound_onChain (by decide +kernel)
  have written : (chainBytes pairStream.chunks).drop pairStream.pos =
      BitStuffing.stuff (true :: codedPair.flatMap blockBits) ++ (codedPair.flatMap blockBody ++ [0x80]) := by
    decide +kernel
  have size : pairStream.pos + (BitStuffing.stuff (true :: codedPair.flatMap blockBits)).length +
      (codedPair.flatMap blockBody).length = 7 := by
    decide +kernel
  have ht : 0x40 &&& 0xC0 = 0x40 := by decide
  obtain ⟨success, blocks, position⟩ :=
    read_packet_undoes_encode ht allocated (by decide +kernel) on ⟨rfl, rfl⟩ written
  exact ⟨success, blocks, position.trans size⟩

end RtpDecoder.Parser
