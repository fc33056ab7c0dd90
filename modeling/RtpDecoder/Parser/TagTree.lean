import RtpDecoder.Parser.CleanSlate

/-!
# Tag trees

`tag_tree_decode` looks at the leaf of a code-block alone and stops at a threshold. Here it is
compared with the decoding of a whole tag tree, as the source has it in a comment and as its
`tag_tree_init` links the nodes, and with the code of a number of zero bit-planes.
-/

namespace RtpDecoder.Parser

open BitProgram

/-! ### One node -/

section

variable {bits : List Bool} {n p : Nat} (node : TagNode)

theorem run_tagTreeLoop_zeros (zeros : ∀ i < n, bits.getD (p + i) false = false) :
    (tagTreeLoop n node).run (tape bits) p = ({ node with val := node.val + n }, p + n) := by
  induction n generalizing p node with
  | zero => rfl
  | succ n ih =>
    have first : bits.getD p false = false := zeros 0 (Nat.succ_pos n)
    have rest := ih { node with val := node.val + 1 } (p := p + 1) fun i below => by
      rw [Nat.add_right_comm]
      exact zeros (i + 1) (Nat.succ_lt_succ below)
    simp only [tagTreeLoop, run_bind, run_getBit_tape, first, Bool.false_eq_true, if_false, rest,
      Nat.add_right_comm, Nat.add_assoc]

theorem run_tagTreeLoop_one {k : Nat} (below : k < n) (zeros : ∀ i < k, bits.getD (p + i) false = false)
    (one : bits.getD (p + k) false = true) :
    (tagTreeLoop n node).run (tape bits) p =
      ({ val := node.val + k, vis := node.vis + 1 }, p + k + 1) := by
  induction n generalizing p node k with
  | zero => exact absurd below (Nat.not_lt_zero k)
  | succ n ih =>
    -- Each turn takes one zero from the code and one from the threshold.
    cases k with
    | zero =>
      rw [Nat.add_zero] at one
      simp only [tagTreeLoop, run_bind, run_getBit_tape, one, if_true]
      rfl
    | succ k =>
      have first : bits.getD p false = false := zeros 0 (Nat.succ_pos k)
      have rest := ih { node with val := node.val + 1 } (p := p + 1) (Nat.lt_of_succ_lt_succ below)
        (fun i lt => by
          rw [Nat.add_right_comm]
          exact zeros (i + 1) (Nat.succ_lt_succ lt))
        (by rw [Nat.add_right_comm]; exact one)
      simp only [tagTreeLoop, run_bind, run_getBit_tape, first, Bool.false_eq_true, if_false, rest]
      rw [Nat.add_right_comm node.val, Nat.add_assoc node.val, Nat.add_right_comm p, Nat.add_assoc p]

end

/-- The next `n` bits are zeros, or there is a first one among them. -/
theorem zeros_or_one (bits : List Bool) (n p : Nat) :
    (∀ i < n, bits.getD (p + i) false = false) ∨
      ∃ k < n, (∀ i < k, bits.getD (p + i) false = false) ∧ bits.getD (p + k) false = true := by
  induction n with
  | zero => exact Or.inl fun i below => absurd below (Nat.not_lt_zero i)
  | succ n ih =>
    rcases ih with zeros | ⟨k, below, zeros, one⟩
    · cases last : bits.getD (p + n) false with
      | false =>
        left
        intro i below
        rcases Nat.lt_succ_iff_lt_or_eq.mp below with earlier | rfl
        · exact zeros i earlier
        · exact last
      | true => exact Or.inr ⟨n, Nat.lt_succ_self n, zeros, last⟩
    · exact Or.inr ⟨k, Nat.lt_succ_of_lt below, zeros, one⟩

/-! ### Zero bit-planes -/

/-- The bits of an included code-block up to its number of passes: it is included, and `z` zeros
and a one stand for `z` zero bit-planes. -/
def planesBits (z : Nat) (rest : List Bool) : List Bool := true :: (List.replicate z false ++ true :: rest)

/-- The tag tree of the zero bit-planes, decoded behind the inclusion bit. -/
def planesRun (cell : Cell) (bits : List Bool) : TagNode × Nat :=
  (tagTreeDecode cell.zbp 14).run (tape bits) 1

/-- What reading `z` zero bit-planes asks for: all their bits are taken and the number is stored,
or the packet is refused; and the passes are not decoded from anywhere else than behind the one. -/
structure ReadsPlanes (cbs : Nat) (cell : Cell) (z : Nat) (rest : List Bool) : Prop where
  outcome : let r := (parseBlock cbs cell.incl cell.zbp cell.blk).run (tape (planesBits z rest)) 0
    ((planesRun cell (planesBits z rest)).2 = 1 + (z + 1) ∧ r.1.2.2.2.zbp = z) ∨ r.1.1 = false
  aligned : (planesRun cell (planesBits z rest)).2 = 1 + (z + 1)

private theorem planesBits_zero {z i : Nat} (rest : List Bool) (below : i < z) :
    (planesBits z rest).getD (1 + i) false = false := by
  have inside : i < (List.replicate z false).length := by simpa using below
  rw [planesBits, Nat.add_comm, List.getD_cons_succ, List.getD_eq_getElem?_getD,
    List.getElem?_append_left inside]
  simp [below]

private theorem planesBits_one (z : Nat) (rest : List Bool) : (planesBits z rest).getD (1 + z) false = true := by
  rw [planesBits, Nat.add_comm, List.getD_cons_succ, List.getD_eq_getElem?_getD,
    List.getElem?_append_right (by simp)]
  simp

/-- The threshold of 14 makes the numbers up to 13 come out right. From 14 on the loop stops in
front of the one bit, and the passes are decoded from what is left of the code. -/
theorem zero_bit_planes_iff (cbs : Nat) {cell : Cell} (fresh : cell.incl.val = 0 ∧ cell.zbp.val = 0) (z : Nat)
    (rest : List Bool) : ReadsPlanes cbs cell z rest ↔ z ≤ 13 := by
  have zeros : ∀ i < z, (planesBits z rest).getD (1 + i) false = false := fun i => planesBits_zero rest
  constructor
  · intro reads
    by_contra large
    -- All 14 bits up to the threshold are zeros of the code.
    have stopped : (planesRun cell (planesBits z rest)).2 = 1 + 14 := by
      rw [planesRun, tagTreeDecode, fresh.2,
        run_tagTreeLoop_zeros cell.zbp fun i below => zeros i (Nat.lt_of_lt_of_le below (by omega))]
    have aligned := reads.aligned
    omega
  · intro small
    have run : planesRun cell (planesBits z rest) =
        ({ val := z, vis := cell.zbp.vis + 1 }, 1 + z + 1) := by
      rw [planesRun, tagTreeDecode, fresh.2, run_tagTreeLoop_one cell.zbp (by omega) zeros (planesBits_one z rest),
        fresh.2, Nat.zero_add]
    have aligned : (planesRun cell (planesBits z rest)).2 = 1 + (z + 1) := by rw [run, Nat.add_assoc]
    -- The one in front of the code is the inclusion.
    have included : (tagTreeDecode cell.incl 1).run (tape (planesBits z rest)) 0 =
        ({ cell.incl with vis := cell.incl.vis + 1 }, 1) := by
      rw [tagTreeDecode, fresh.1, run_tagTreeLoop_one (k := 0) cell.incl (by decide) (by simp) rfl]
      rfl
    refine ⟨Or.inl ⟨aligned, ?_⟩, aligned⟩
    have stored : (planesRun cell (planesBits z rest)).1.val % 256 = z := by
      rw [run]
      exact Nat.mod_eq_of_lt (show z < 256 by omega)
    rw [Blk.zbp_parseBlock _ cbs cell.blk (by rw [included]; exact fresh.1), included]
    exact stored

/-- A code-block as `create` leaves it. -/
def freshCell : Cell where
  incl := {}
  zbp := {}
  blk := {}

theorem zero_bit_planes_thirteen : ReadsPlanes 0x40 freshCell 13 [false, false, false, true, false] :=
  (zero_bit_planes_iff 0x40 ⟨rfl, rfl⟩ 13 _).mpr (by decide)

/-- A precinct of one code-block. -/
def onePrec : Prec where
  pband := [{ incl := [{}], zbp := [{}], blk := [{}] }]
  numBands := 1
  ncbw := 1
  ncbh := 1

/-- Fourteen zero bit-planes, one pass and a cleanup segment of two bytes. The one behind the zeros
is taken for a part of the number of passes: the packet is accepted with two passes, and its header
is read into the first byte of the body. -/
theorem zero_bit_planes_misread :
    let r := readPacket { chunks := [⟨0, [0xC0, 0x00, 0x88, 0x2A, 0x55, 0x7F]⟩] } onePrec 0x40
    ¬ ReadsPlanes 0x40 freshCell 14 [false, false, false, true, false, false, false] ∧
      r.1 = true ∧ (r.2.1.block (0, 0)).zbp = 14 ∧ (r.2.1.block (0, 0)).npasses = 2 ∧
        (r.2.1.block (0, 0)).data = some [0x55, 0x7F] := by
  constructor
  · intro reads
    have aligned := reads.aligned
    exact absurd aligned (by decide +kernel)
  · decide +kernel

/-! ### Whole trees -/

/-- The parents of the nodes, as `tag_tree_init` sets them level by level; `t` is the number of the
first node of the level. The asserted size keeps the products in the range of `uint32_t`. -/
def tagTreeParents : Nat → Nat → Nat → Nat → List (Option Nat)
  | 0, _, _, _ => [none]
  | fuel + 1, w, h, t =>
    if 1 < w ∨ 1 < h then
      -- Node `i * w + j` of the level is at row `i` and column `j`.
      (List.range (w * h)).map (fun n => some (t + w * h + n / w / 2 * ((w + 1) / 2) + n % w / 2)) ++
        tagTreeParents fuel ((w + 1) / 2) ((h + 1) / 2) (t + w * h)
    else [none]

/-- A tree for a grid of `w` by `h` leaves: the nodes, and their parents. -/
structure TagTree where
  nodes : List TagNode
  parents : List (Option Nat)
deriving DecidableEq, Repr

/-- `tag_tree_init`; every level is about half as wide and high as the one below. -/
def tagTreeInit (w h : Nat) : TagTree where
  nodes := List.replicate (tagTreeParents (w + h) w h 0).length {}
  parents := tagTreeParents (w + h) w h 0

namespace TagTree

def node (tree : TagTree) (i : Nat) : TagNode := tree.nodes.getD i default

def setNode (tree : TagTree) (i : Nat) (node : TagNode) : TagTree :=
  { tree with nodes := tree.nodes.set i node }

/-- The omitted walk to the ancestors: from a node up to one that is done. The results are the
stack, the last node pushed in front, and the node that ended the walk, if there is one. -/
def climb (tree : TagTree) : Nat → Nat → List Nat → List Nat × Option Nat
  | 0, _, stack => (stack, none)
  | fuel + 1, i, stack =>
    if (tree.node i).vis ≠ 0 then (stack, some i)
    else match tree.parents.getD i none with
      | none => (i :: stack, none)
      | some parent => tree.climb fuel parent (i :: stack)

/-- The loop over the stack. The inner loop is that of the fast decoder. -/
def descend (threshold : Nat) : List Nat → Nat → TagTree → BitProgram (Nat × TagTree)
  | [], curval, tree => pure (curval, tree)
  | i :: stack, curval, tree =>
    if curval < threshold then do
      let curval := max curval (tree.node i).val
      let node ← tagTreeLoop (threshold - curval) { tree.node i with val := curval }
      descend threshold stack node.val (tree.setNode i node)
    else pure (curval, tree)

/-- The decoder in the comment, with what was left out for speed put back in. -/
def decode (tree : TagTree) (leaf threshold : Nat) : BitProgram (Nat × TagTree) :=
  let (stack, stop) := tree.climb tree.nodes.length leaf []
  let curval := match stop with
    | some i => (tree.node i).val
    | none => (tree.node (stack.headD 0)).val
  descend threshold stack curval tree

/-- The decoder that is used instead: of the tree it looks at the leaf. -/
def decodeLeaf (tree : TagTree) (leaf threshold : Nat) : BitProgram (Nat × TagTree) := do
  let node ← tagTreeDecode (tree.node leaf) threshold
  pure (node.val, tree.setNode leaf node)

/-- One query after the other: the value that each one returns, and where it ends. -/
def queries (decoder : TagTree → Nat → BitProgram (Nat × TagTree)) (bits : List Bool) :
    List Nat → TagTree → Nat → List (Nat × Nat)
  | [], _, _ => []
  | leaf :: rest, tree, p =>
    let r := (decoder tree leaf).run (tape bits) p
    (r.1.1, r.2) :: queries decoder bits rest r.1.2 r.2

end TagTree

/-! ### The shape of the tree -/

/-- The last node is the root, and every other one has its parent behind it. -/
structure Rooted (parents : List (Option Nat)) (t : Nat) : Prop where
  some_node : 0 < parents.length
  root : parents.getD (parents.length - 1) none = none
  parent : ∀ i, i + 1 < parents.length →
    ∃ p, parents.getD i none = some (t + p) ∧ i < p ∧ p < parents.length

private theorem rooted_single (t : Nat) : Rooted [none] t := ⟨by simp, rfl, by simp⟩

private theorem half_lt {n w h : Nat} (below : n < w * h) :
    n / w / 2 * ((w + 1) / 2) + n % w / 2 < (w + 1) / 2 * ((h + 1) / 2) := by
  have wide : 0 < w := Nat.pos_of_ne_zero fun zero => by simp [zero] at below
  have row : n / w < h := Nat.div_lt_of_lt_mul below
  have column : n % w < w := Nat.mod_lt n wide
  have upper : n / w / 2 + 1 ≤ (h + 1) / 2 := by omega
  calc n / w / 2 * ((w + 1) / 2) + n % w / 2
      < n / w / 2 * ((w + 1) / 2) + (w + 1) / 2 := by omega
    _ = (n / w / 2 + 1) * ((w + 1) / 2) := by rw [Nat.add_mul, Nat.one_mul]
    _ ≤ (h + 1) / 2 * ((w + 1) / 2) := Nat.mul_le_mul_right _ upper
    _ = (w + 1) / 2 * ((h + 1) / 2) := Nat.mul_comm _ _

/-- The levels put together: each one hangs on the next. -/
theorem rooted_tagTreeParents (fuel : Nat) {w h t : Nat} (enough : w + h ≤ fuel + 2) (wide : 1 ≤ w)
    (high : 1 ≤ h) : Rooted (tagTreeParents fuel w h t) t ∧ w * h ≤ (tagTreeParents fuel w h t).length ∧
      (1 < w ∨ 1 < h → w * h < (tagTreeParents fuel w h t).length) := by
  induction fuel generalizing w h t with
  | zero =>
    have one : w = 1 ∧ h = 1 := by omega
    obtain ⟨rfl, rfl⟩ := one
    exact ⟨rooted_single t, Nat.le_refl 1, by omega⟩
  | succ fuel ih =>
    rw [tagTreeParents]
    split
    next many =>
      obtain ⟨upper, fits, _⟩ := ih (w := (w + 1) / 2) (h := (h + 1) / 2) (t := t + w * h) (by omega) (by omega)
        (by omega)
      generalize tagTreeParents fuel ((w + 1) / 2) ((h + 1) / 2) (t + w * h) = later at upper fits ⊢
      have size : ((List.range (w * h)).map (fun n =>
          some (t + w * h + n / w / 2 * ((w + 1) / 2) + n % w / 2))).length = w * h := by simp
      generalize level : (List.range (w * h)).map (fun n =>
        some (t + w * h + n / w / 2 * ((w + 1) / 2) + n % w / 2)) = first at size ⊢
      have some_later := upper.some_node
      refine ⟨⟨by rw [List.length_append]; omega, ?_, ?_⟩, by rw [List.length_append]; omega,
        fun _ => by rw [List.length_append]; omega⟩
      -- The root is that of the upper levels.
      · rw [List.length_append, List.getD_append_right _ _ _ _ (by omega),
          show first.length + later.length - 1 - first.length = later.length - 1 by omega]
        exact upper.root
      · intro i below
        rw [List.length_append] at below ⊢
        by_cases here : i < w * h
        -- A node of this level has its parent on the next one.
        · have bound := half_lt here
          refine ⟨w * h + (i / w / 2 * ((w + 1) / 2) + i % w / 2), ?_, by omega, by omega⟩
          rw [List.getD_append _ _ _ _ (by omega), ← level, List.getD_eq_getElem?_getD, List.getElem?_map,
            List.getElem?_range here]
          simp only [Option.map_some, Option.getD_some, Nat.add_assoc]
        · obtain ⟨p, linked, behind, inside⟩ := upper.parent (i - w * h) (by omega)
          refine ⟨w * h + p, ?_, by omega, by omega⟩
          rw [List.getD_append_right _ _ _ _ (by omega), size, linked, Nat.add_assoc]
    next one =>
      have single : w = 1 ∧ h = 1 := by omega
      obtain ⟨rfl, rfl⟩ := single
      exact ⟨rooted_single t, Nat.le_refl 1, by omega⟩

namespace TagTree

/-- No node is done, and the nodes hang together. -/
structure Undecided (tree : TagTree) : Prop where
  unvisited : ∀ i, (tree.node i).vis = 0
  rooted : Rooted tree.parents 0
  size : tree.nodes.length = tree.parents.length

/-- The number of the root. -/
def root (tree : TagTree) : Nat := tree.parents.length - 1

section

variable {tree : TagTree}

/-- From a node that is not the root the walk goes up to the root, which is pushed last. -/
theorem Undecided.climb (undecided : tree.Undecided) {i : Nat} (below : i < tree.root) {fuel : Nat}
    (enough : tree.parents.length - i ≤ fuel) (stack : List Nat) :
    ∃ m rest, m < tree.root ∧ tree.climb fuel i stack = (tree.root :: m :: rest, none) := by
  induction fuel generalizing i stack with
  | zero =>
    rw [root] at below
    omega
  | succ fuel ih =>
    rw [root] at below
    obtain ⟨p, parent, behind, inside⟩ := undecided.rooted.parent i (by omega)
    rw [Nat.zero_add] at parent
    simp only [TagTree.climb, undecided.unvisited, ne_eq, not_true_eq_false, if_false, parent]
    -- Parents have larger numbers, so the walk gets to the root before the fuel is used up.
    by_cases last : p < tree.root
    · exact ih last (by omega) (i :: stack)
    · have top : p = tree.root := by
        rw [root] at last ⊢
        omega
      obtain ⟨fuel, rfl⟩ : ∃ f, fuel = f + 1 := ⟨fuel - 1, by omega⟩
      refine ⟨i, stack, below, ?_⟩
      have ends : tree.parents.getD tree.root none = none := undecided.rooted.root
      simp only [TagTree.climb, top, undecided.unvisited, ne_eq, not_true_eq_false, if_false, ends]

/-- So the decoder starts at the root, below whatever the root is worth already. -/
theorem Undecided.decode (undecided : tree.Undecided) {leaf : Nat} (below : leaf < tree.root) (threshold : Nat) :
    ∃ m rest, m < tree.root ∧
      tree.decode leaf threshold = descend threshold (tree.root :: m :: rest) (tree.node tree.root).val tree := by
  have enough : tree.parents.length - leaf ≤ tree.nodes.length := by
    rw [undecided.size]
    exact Nat.sub_le _ _
  obtain ⟨m, rest, above, path⟩ := undecided.climb below enough []
  refine ⟨m, rest, above, ?_⟩
  simp only [TagTree.decode, path, List.headD_cons]

theorem descend_cons {t curval : Nat} (more : curval < t) (i : Nat) (stack : List Nat) :
    descend t (i :: stack) curval tree =
      tagTreeLoop (t - max curval (tree.node i).val) { tree.node i with val := max curval (tree.node i).val } >>=
        fun node => descend t stack node.val (tree.setNode i node) := by
  rw [descend, if_pos more]

theorem descend_stop (t : Nat) (stack : List Nat) : descend t stack t tree = pure (t, tree) := by
  cases stack with
  | nil => rfl
  | cons i stack => rw [descend, if_neg (Nat.lt_irrefl t)]

theorem node_setNode (tree : TagTree) (i j : Nat) (node : TagNode) :
    (tree.setNode i node).node j = if i = j ∧ i < tree.nodes.length then node else tree.node j := by
  simp only [TagTree.node, setNode, List.getD_eq_getElem?_getD, List.getElem?_set]
  by_cases same : i = j
  · by_cases inside : i < tree.nodes.length
    · simp [same, same ▸ inside]
    · simp [same, same ▸ inside]
  · simp [same]

/-- A loop that may read reads. -/
private theorem lt_run_tagTreeLoop (bits : List Bool) (n p : Nat) (node : TagNode) :
    p < ((tagTreeLoop (n + 1) node).run (tape bits) p).2 := by
  rw [tagTreeLoop, run_bind, run_getBit_tape]
  exact le_run_tape bits _ (p + 1)

variable {bits : List Bool} {t p leaf : Nat}

/-! ### Zeros up to the threshold -/

theorem run_decodeLeaf_zeros (fresh : (tree.node leaf).val = 0)
    (zeros : ∀ i < t, bits.getD (p + i) false = false) :
    (tree.decodeLeaf leaf t).run (tape bits) p =
      ((t, tree.setNode leaf { tree.node leaf with val := t }), p + t) := by
  rw [decodeLeaf, run_bind, tagTreeDecode, fresh, Nat.sub_zero, run_tagTreeLoop_zeros _ zeros, fresh,
    Nat.zero_add]
  rfl

/-- A tree whose root has got a value. -/
def settle (tree : TagTree) (t : Nat) : TagTree :=
  tree.setNode tree.root { tree.node tree.root with val := t }

/-- They settle the root, and with it every leaf. -/
theorem Undecided.run_decode_zeros (undecided : tree.Undecided) (below : leaf < tree.root) (some_bits : 0 < t)
    (fresh : (tree.node tree.root).val = 0) (zeros : ∀ i < t, bits.getD (p + i) false = false) :
    (tree.decode leaf t).run (tape bits) p =
      ((t, tree.settle t), p + t) := by
  obtain ⟨m, rest, _, same⟩ := undecided.decode below t
  rw [same, fresh, descend_cons some_bits, fresh, Nat.max_self, Nat.sub_zero, run_bind,
    run_tagTreeLoop_zeros _ zeros]
  simp only [Nat.zero_add, descend_stop]
  rfl

theorem Undecided.settle (undecided : tree.Undecided) (t : Nat) :
    (tree.settle t).Undecided ∧ ((tree.settle t).node tree.root).val = t := by
  have inside : tree.root < tree.nodes.length := by
    have some_node := undecided.rooted.some_node
    rw [undecided.size, root]
    omega
  refine ⟨⟨fun i => ?_, undecided.rooted, ?_⟩, ?_⟩
  · rw [TagTree.settle, node_setNode]
    split
    · exact undecided.unvisited tree.root
    · exact undecided.unvisited i
  · exact List.length_set.trans undecided.size
  · rw [TagTree.settle, node_setNode, if_pos ⟨rfl, inside⟩]

/-- At a root that is worth the threshold nothing is read. -/
theorem Undecided.run_decode_settled (undecided : tree.Undecided) (below : leaf < tree.root) :
    ((tree.settle t).decode leaf t).run (tape bits) p = ((t, tree.settle t), p) := by
  obtain ⟨still, settled⟩ := undecided.settle t
  have place : (tree.settle t).root = tree.root := rfl
  obtain ⟨m, rest, _, same⟩ := still.decode (show leaf < (tree.settle t).root from below) t
  rw [same, place, settled, descend_stop]
  rfl

/-- A fresh leaf takes a bit at least, whatever the other nodes are. -/
theorem lt_run_decodeLeaf (fresh : (tree.node leaf).val = 0) (some_bits : 0 < t) :
    p < ((tree.decodeLeaf leaf t).run (tape bits) p).2 := by
  obtain ⟨n, rfl⟩ : ∃ n, t = n + 1 := ⟨t - 1, by omega⟩
  rw [decodeLeaf, run_bind, tagTreeDecode, fresh, Nat.sub_zero]
  exact Nat.lt_of_lt_of_le (lt_run_tagTreeLoop bits n p _) (le_run_tape bits _ _)

/-! ### A one in front of the threshold -/

theorem run_decodeLeaf_one (fresh : (tree.node leaf).val = 0) {k : Nat} (early : k < t)
    (zeros : ∀ i < k, bits.getD (p + i) false = false) (one : bits.getD (p + k) false = true) :
    ((tree.decodeLeaf leaf t).run (tape bits) p).2 = p + k + 1 := by
  rw [decodeLeaf, run_bind, tagTreeDecode, fresh, Nat.sub_zero, run_tagTreeLoop_one _ early zeros one]
  rfl

/-- It settles the root only, and the next node on the way to the leaf takes another bit. -/
theorem Undecided.lt_run_decode_one (undecided : tree.Undecided) (below : leaf < tree.root)
    (fresh : ∀ i, (tree.node i).val = 0) {k : Nat} (early : k < t)
    (zeros : ∀ i < k, bits.getD (p + i) false = false) (one : bits.getD (p + k) false = true) :
    p + k + 1 < ((tree.decode leaf t).run (tape bits) p).2 := by
  obtain ⟨m, rest, above, same⟩ := undecided.decode below t
  have apart : ¬ (tree.root = m ∧ tree.root < tree.nodes.length) := fun both =>
    Nat.ne_of_gt above both.1
  obtain ⟨n, left⟩ : ∃ n, t - k = n + 1 := ⟨t - k - 1, by omega⟩
  rw [same, fresh, descend_cons (Nat.zero_lt_of_lt early), fresh, Nat.max_self, Nat.sub_zero, run_bind,
    run_tagTreeLoop_one _ early zeros one]
  simp only [Nat.zero_add, descend_cons early, node_setNode, if_neg apart, fresh, Nat.max_zero, run_bind, left]
  exact Nat.lt_of_lt_of_le (lt_run_tagTreeLoop bits n (p + k + 1) _) (le_run_tape bits _ _)

end

end TagTree

/-! ### Both decoders on the leaves of a grid -/

section

variable {w h : Nat}

theorem node_tagTreeInit (i : Nat) : (tagTreeInit w h).node i = {} := by
  rw [TagTree.node, tagTreeInit, List.getD_eq_getElem?_getD, List.getElem?_replicate]
  split <;> rfl

theorem undecided_tagTreeInit (wide : 1 ≤ w) (high : 1 ≤ h) : (tagTreeInit w h).Undecided where
  unvisited i := by rw [node_tagTreeInit]
  rooted := (rooted_tagTreeParents (w + h) (Nat.le_add_right _ _) wide high).1
  size := List.length_replicate

theorem leaf_lt_root (wide : 1 ≤ w) (high : 1 ≤ h) (many : 1 < w ∨ 1 < h) {leaf : Nat} (inside : leaf < w * h) :
    leaf < (tagTreeInit w h).root := by
  have above := (rooted_tagTreeParents (w + h) (t := 0) (Nat.le_add_right _ _) wide high).2.2 many
  exact Nat.lt_of_lt_of_le inside (Nat.le_sub_one_of_lt above)

/-- What the two decoders return for a list of leaves, and the bits that they take for each. -/
def decodersAgree (w h t : Nat) (leaves : List Nat) (bits : List Bool) : Prop :=
  TagTree.queries (fun tree leaf => tree.decodeLeaf leaf t) bits leaves (tagTreeInit w h) 0 =
    TagTree.queries (fun tree leaf => tree.decode leaf t) bits leaves (tagTreeInit w h) 0

private theorem agree_single {t : Nat} (bits : List Bool) : decodersAgree 1 1 t [0] bits := by
  cases t with
  | zero => rfl
  | succ t =>
    have leaf : (tagTreeInit 1 1).decodeLeaf 0 (t + 1) =
        tagTreeLoop (t + 1) {} >>= fun node => pure (node.val, (tagTreeInit 1 1).setNode 0 node) := rfl
    have tree : (tagTreeInit 1 1).decode 0 (t + 1) =
        tagTreeLoop (t + 1) {} >>= fun node => pure (node.val, (tagTreeInit 1 1).setNode 0 node) := rfl
    simp only [decodersAgree, TagTree.queries, leaf, tree]

section

variable {t first : Nat} {bits : List Bool} (wide : 1 ≤ w) (high : 1 ≤ h) (many : 1 < w ∨ 1 < h)
  (inside : first < w * h)

include wide high many inside

/-- A one in front of the threshold is the last bit that the fast decoder takes. -/
private theorem disagree_one {k : Nat} (early : k < t) (zeros : ∀ i < k, bits.getD (0 + i) false = false)
    (one : bits.getD (0 + k) false = true) (rest : List Nat) : ¬ decodersAgree w h t (first :: rest) bits := by
  have fresh (i : Nat) : ((tagTreeInit w h).node i).val = 0 := by rw [node_tagTreeInit]
  intro agree
  -- The ends of the first query are compared.
  have taken := congrArg (fun l => (l.headD (0, 0)).2) agree
  simp only [TagTree.queries, List.headD_cons] at taken
  have leaf := TagTree.run_decodeLeaf_one (fresh first) early zeros one
  have tree := (undecided_tagTreeInit wide high).lt_run_decode_one (leaf_lt_root wide high many inside) fresh
    early zeros one
  omega

/-- Zeros up to the threshold are all that both take for the first leaf. -/
private theorem agree_zeros (some_bits : 0 < t) (zeros : ∀ i < t, bits.getD (0 + i) false = false) :
    decodersAgree w h t [first] bits := by
  have fresh (i : Nat) : ((tagTreeInit w h).node i).val = 0 := by rw [node_tagTreeInit]
  have leaf := TagTree.run_decodeLeaf_zeros (fresh first) zeros
  have tree := (undecided_tagTreeInit wide high).run_decode_zeros (leaf_lt_root wide high many inside) some_bits
    (fresh _) zeros
  simp only [decodersAgree, TagTree.queries, leaf, tree]

/-- Then the root is settled, and the whole tree takes no bit for a second leaf. -/
private theorem disagree_zeros (some_bits : 0 < t) (zeros : ∀ i < t, bits.getD (0 + i) false = false)
    {second : Nat} (later : first < second) (inside' : second < w * h) (rest : List Nat) :
    ¬ decodersAgree w h t (first :: second :: rest) bits := by
  have undecided := undecided_tagTreeInit wide high
  have fresh (i : Nat) : ((tagTreeInit w h).node i).val = 0 := by rw [node_tagTreeInit]
  have leaf := TagTree.run_decodeLeaf_zeros (fresh first) zeros
  have tree := undecided.run_decode_zeros (leaf_lt_root wide high many inside) some_bits (fresh _) zeros
  have unset (node : TagNode) : (((tagTreeInit w h).setNode first node).node second).val = 0 := by
    rw [TagTree.node_setNode, if_neg fun both => Nat.ne_of_lt later both.1, fresh]
  intro agree
  have taken := congrArg (fun l => ((l.drop 1).headD (0, 0)).2) agree
  simp only [TagTree.queries, List.drop_succ_cons, List.drop_zero, List.headD_cons, leaf, tree] at taken
  rw [undecided.run_decode_settled (leaf_lt_root wide high many inside')] at taken
  exact Nat.ne_of_gt (TagTree.lt_run_decodeLeaf (unset _) some_bits) taken

end

/-- The fast decoder takes the bits that the whole tree takes and returns the same values only on a
tree of one node. On any other tree the first leaf goes wrong unless it has zeros only, and then
the second one does. -/
theorem tag_trees_agree_iff (wide : 1 ≤ w) (high : 1 ≤ h) {t : Nat} (some_bits : 0 < t) {leaves : List Nat}
    (raster : leaves.Pairwise (· < ·)) (inside : ∀ leaf ∈ leaves, leaf < w * h) (bits : List Bool) :
    decodersAgree w h t leaves bits ↔
      (w = 1 ∧ h = 1) ∨ leaves = [] ∨ leaves.length = 1 ∧ ∀ i < t, bits.getD i false = false := by
  cases leaves with
  | nil => exact iff_of_true rfl (Or.inr (Or.inl rfl))
  | cons first rest =>
    have here := inside first List.mem_cons_self
    have second {leaf : Nat} (member : leaf ∈ rest) : first < leaf ∧ leaf < w * h :=
      ⟨List.rel_of_pairwise_cons raster member, inside leaf (List.mem_cons_of_mem _ member)⟩
    by_cases single : w = 1 ∧ h = 1
    · obtain ⟨rfl, rfl⟩ := single
      refine iff_of_true ?_ (Or.inl ⟨rfl, rfl⟩)
      have zero : first = 0 := Nat.lt_one_iff.mp here
      cases rest with
      | nil =>
        rw [zero]
        exact agree_single bits
      | cons next rest =>
        obtain ⟨later, bound⟩ := second List.mem_cons_self
        omega
    have many : 1 < w ∨ 1 < h := by omega
    -- A one in front of the threshold separates the decoders at the first leaf, zeros at the second.
    rcases zeros_or_one bits t 0 with zeros | ⟨k, early, zeros, one⟩
    · have all : ∀ i < t, bits.getD i false = false := fun i below => by
        have zero := zeros i below
        rwa [Nat.zero_add] at zero
      cases rest with
      | nil => exact iff_of_true (agree_zeros wide high many here some_bits zeros) (Or.inr (Or.inr ⟨rfl, all⟩))
      | cons next rest =>
        obtain ⟨later, bound⟩ := second List.mem_cons_self
        refine iff_of_false (disagree_zeros wide high many here some_bits zeros later bound rest) ?_
        simp [single]
    · refine iff_of_false (disagree_one wide high many here early zeros one rest) ?_
      rintro (both | none | ⟨_, all⟩)
      · exact single both
      · cases none
      · have zero := all k early
        rw [Nat.zero_add, zero] at one
        cases one

/-- One code-block: five zeros and a one are read alike. -/
theorem tag_trees_agree_single : decodersAgree 1 1 14 [0] [false, false, false, false, false, true] :=
  (tag_trees_agree_iff (Nat.le_refl 1) (Nat.le_refl 1) (by decide) (by decide) (by decide) _).mpr
    (Or.inl ⟨rfl, rfl⟩)

/-- Two code-blocks that are both included have the bits 1, 1, 1: one for the root and one for each
leaf. The fast decoder takes two of them. -/
theorem tag_trees_disagree :
    TagTree.queries (fun tree leaf => tree.decode leaf 1) [true, true, true] [0, 1] (tagTreeInit 2 1) 0 =
      [(0, 2), (0, 3)] ∧
    TagTree.queries (fun tree leaf => tree.decodeLeaf leaf 1) [true, true, true] [0, 1] (tagTreeInit 2 1) 0 =
      [(0, 1), (0, 2)] ∧ ¬ decodersAgree 2 1 1 [0, 1] [true, true, true] := by
  have runs : TagTree.queries (fun tree leaf => tree.decode leaf 1) [true, true, true] [0, 1] (tagTreeInit 2 1) 0 =
        [(0, 2), (0, 3)] ∧
      TagTree.queries (fun tree leaf => tree.decodeLeaf leaf 1) [true, true, true] [0, 1] (tagTreeInit 2 1) 0 =
        [(0, 1), (0, 2)] := by decide +kernel
  refine ⟨runs.1, runs.2, fun agree => ?_⟩
  rw [decodersAgree, runs.1, runs.2] at agree
  exact absurd agree (by decide)

end

end RtpDecoder.Parser
