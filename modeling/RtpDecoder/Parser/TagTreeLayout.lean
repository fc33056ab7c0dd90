import Mathlib.Algebra.Order.BigOperators.Group.Finset
import Mathlib.Data.Nat.Bitwise
import Mathlib.Data.Nat.Log
import RtpDecoder.Lib.Looping
import RtpDecoder.Lib.Raster
import RtpDecoder.Lib.Stride
import RtpDecoder.Parser.TagTree

/-!
# Where the nodes of a tag tree are

`tag_tree_size` and `tag_tree_init` go through the levels of a tree, each one about half as wide
and high as the one below, with loops of their own. Here both are compared with the tree on a
grid of leaves: its levels stand one behind the other, each one row by row.
-/

namespace RtpDecoder.Parser

variable {n k : Nat}

/-! ### The tree on a grid -/

/-- The columns or rows of level `k` over `n` leaves in a row. -/
def levelSide (n k : Nat) : Nat := n ⌈/⌉ 2 ^ k

def levelNodes (w h k : Nat) : Nat := levelSide w k * levelSide h k

/-- The level of the root. -/
def rootLevel (w h : Nat) : Nat := Nat.clog 2 (max w h)

/-- The number of the first node of level `k`. -/
def levelStart (w h k : Nat) : Nat := ∑ l ∈ Finset.range k, levelNodes w h l

/-- The nodes of all levels. -/
def quadNodes (w h : Nat) : Nat := levelStart w h (rootLevel w h + 1)

/-- The number of the node in row `i` and column `j` of level `k`. -/
def quadNode (w h k i j : Nat) : Nat := levelStart w h k + (i * levelSide w k + j)

/-! ### The loops of the source -/

/-- The loops run while a level has more than one node. -/
def manyNodes (level : Nat × Nat) : Bool := decide (1 < level.1 ∨ 1 < level.2)

/-- The sizes of the next level. -/
def halve (level : Nat × Nat) : Nat × Nat := ((level.1 + 1) % 2 ^ 32 / 2, (level.2 + 1) % 2 ^ 32 / 2)

/-- The stores of `tag_tree_init` in order, each one a node and the parent it gets; `t` is the
node that the pointer of this name points to. The loop has to end within some number of turns. -/
def tagTreeStores : Nat → Nat → Nat → Nat → Option (List (Nat × Option Nat))
  | 0, _, _, _ => none
  | n + 1, pw, ph, t =>
    if 1 < pw ∨ 1 < ph then
      let (w, h) := halve (pw, ph)
      let t2 := t + pw * ph % 2 ^ 32
      let level := (List.range ph).flatMap fun i => (List.range pw).map fun j =>
        (t + (i * pw + j) % 2 ^ 32, some (t2 + (i / 2 * w + j / 2) % 2 ^ 32))
      (tagTreeStores n w h t2).map (level ++ ·)
    else some [(t, none)]

/-- The parents in memory after some stores. -/
def storeAll (mem : Nat → Option Nat) (stores : List (Nat × Option Nat)) : Nat → Option Nat :=
  stores.foldl (fun mem store => Function.update mem store.1 store.2) mem

/-! ### Levels -/

section

variable {w h : Nat}

theorem levelSide_zero (n : Nat) : levelSide n 0 = n := by
  rw [levelSide, Nat.pow_zero, Nat.ceilDiv_eq_add_pred_div, Nat.add_sub_cancel, Nat.div_one]

theorem levelSide_succ (n k : Nat) : levelSide n (k + 1) = (levelSide n k + 1) / 2 :=
  ceilDiv_two_pow_succ n k

theorem levelSide_pos (pos : 1 ≤ n) (k : Nat) : 1 ≤ levelSide n k := by
  induction k with
  | zero => rwa [levelSide_zero]
  | succ k ih =>
    rw [levelSide_succ]
    omega

theorem levelSide_le_one : levelSide n k ≤ 1 ↔ n ≤ 2 ^ k := by
  rw [levelSide, ceilDiv_le_iff_le_mul (Nat.two_pow_pos k), Nat.mul_one]

theorem many_iff_below_root (k : Nat) : (1 < levelSide w k ∨ 1 < levelSide h k) ↔ k < rootLevel w h := by
  rw [← Nat.not_le, ← Nat.not_le, ← not_and_or, levelSide_le_one, levelSide_le_one, ← max_le_iff, ← Nat.not_le,
    not_iff_not, rootLevel, Nat.clog_le_iff_le_pow (by decide)]

theorem levelStart_succ (w h k : Nat) : levelStart w h (k + 1) = levelStart w h k + levelNodes w h k :=
  Finset.sum_range_succ _ k

theorem levelStart_mono {l : Nat} (le : k ≤ l) : levelStart w h k ≤ levelStart w h l :=
  Finset.sum_le_sum_of_subset (Finset.range_mono le)

/-- The last level is the root alone. -/
theorem quadNodes_eq (wide : 1 ≤ w) (high : 1 ≤ h) : quadNodes w h = levelStart w h (rootLevel w h) + 1 := by
  have top := mt (many_iff_below_root (w := w) (h := h) (rootLevel w h)).mp (Nat.lt_irrefl _)
  have columns : levelSide w (rootLevel w h) = 1 := by
    have pos := levelSide_pos wide (rootLevel w h)
    omega
  have rows : levelSide h (rootLevel w h) = 1 := by
    have pos := levelSide_pos high (rootLevel w h)
    omega
  rw [quadNodes, levelStart_succ, levelNodes, columns, rows]

/-- Rows and columns below a node are rows and columns of the next level. -/
theorem half_lt_levelSide {i : Nat} (inside : i < levelSide n k) : i / 2 < levelSide n (k + 1) := by
  rw [levelSide_succ]
  omega

end

/-! ### The loops go through the levels -/

/-- The stores for the nodes of level `k`. -/
def levelStores (w h k : Nat) : List (Nat × Option Nat) :=
  (List.range (levelNodes w h k)).map fun n =>
    (levelStart w h k + n, some (quadNode w h (k + 1) (n / levelSide w k / 2) (n % levelSide w k / 2)))

section

variable {w h : Nat} (wide : 1 ≤ w) (high : 1 ≤ h) (few : quadNodes w h < 2 ^ 31)

include few

private theorem levelStart_lt (level : k ≤ rootLevel w h + 1) : levelStart w h k < 2 ^ 31 :=
  Nat.lt_of_le_of_lt (levelStart_mono level) few

private theorem levelNodes_lt (level : k ≤ rootLevel w h) : levelNodes w h k < 2 ^ 31 := by
  have start := levelStart_lt few (Nat.succ_le_succ level)
  rw [levelStart_succ] at start
  omega

/-- The two inner loops of `tag_tree_init` are the stores of one level. -/
private theorem inner_loops (below : k < rootLevel w h) :
    ((List.range (levelSide h k)).flatMap fun i => (List.range (levelSide w k)).map fun j =>
      (levelStart w h k + (i * levelSide w k + j) % 2 ^ 32,
        some (levelStart w h (k + 1) + (i / 2 * levelSide w (k + 1) + j / 2) % 2 ^ 32))) =
      levelStores w h k := by
  rw [flatMap_rows fun i j => (levelStart w h k + (i * levelSide w k + j) % 2 ^ 32,
    some (levelStart w h (k + 1) + (i / 2 * levelSide w (k + 1) + j / 2) % 2 ^ 32)), levelStores]
  apply List.map_congr_left
  intro n among
  have among : n < levelSide w k * levelSide h k := List.mem_range.mp among
  have nodes := levelNodes_lt few below.le
  have here : n / levelSide w k * levelSide w k + n % levelSide w k = n := by
    rw [Nat.mul_comm]
    exact Nat.div_add_mod n _
  -- The parent is a node of the next level, which is not too large either.
  have above : levelSide w (k + 1) * (n / levelSide w k / 2) + n % levelSide w k / 2 < levelNodes w h (k + 1) :=
    raster_index_lt (half_lt_levelSide (raster_column_lt among)) (half_lt_levelSide (raster_row_lt among))
  have later : levelNodes w h (k + 1) < 2 ^ 31 := levelNodes_lt few below
  rw [levelNodes] at nodes
  rw [Nat.mul_comm] at above
  rw [here, Nat.mod_eq_of_lt (by omega), Nat.mod_eq_of_lt (by omega), quadNode]

include wide high

private theorem levelSide_lt (level : k ≤ rootLevel w h) : levelSide w k < 2 ^ 31 ∧ levelSide h k < 2 ^ 31 := by
  have nodes := levelNodes_lt few level
  rw [levelNodes] at nodes
  constructor
  · exact Nat.lt_of_le_of_lt (Nat.le_mul_of_pos_right _ (levelSide_pos high k)) nodes
  · exact Nat.lt_of_le_of_lt (Nat.le_mul_of_pos_left _ (levelSide_pos wide k)) nodes

private theorem halve_level (level : k ≤ rootLevel w h) :
    halve (levelSide w k, levelSide h k) = (levelSide w (k + 1), levelSide h (k + 1)) := by
  obtain ⟨columns, rows⟩ := levelSide_lt wide high few level
  rw [halve, levelSide_succ, levelSide_succ, Nat.mod_eq_of_lt (by omega), Nat.mod_eq_of_lt (by omega)]

/-- `tag_tree_size` adds up the levels below the root. -/
private theorem tagTreeSizeLoop_level (fuel : Nat) (level : k ≤ rootLevel w h)
    (enough : rootLevel w h - k < fuel) :
    tagTreeSizeLoop fuel (levelSide w k) (levelSide h k) (levelStart w h k) =
        levelStart w h (rootLevel w h) ∧
      (turns manyNodes halve fuel (levelSide w k, levelSide h k)).isSome := by
  induction fuel generalizing k with
  | zero => omega
  | succ fuel ih =>
    rw [tagTreeSizeLoop, turns, manyNodes]
    simp only [many_iff_below_root, decide_eq_true_eq]
    have next := halve_level wide high few level
    rcases Nat.lt_or_eq_of_le level with below | rfl
    · obtain ⟨sum, ends⟩ := ih (k := k + 1) below (by omega)
      rw [if_pos below, if_pos below, next, Option.isSome_map]
      rw [halve] at next
      obtain ⟨columns, rows⟩ := Prod.mk.inj next
      rw [columns, rows, ← levelNodes, ← levelStart_succ]
      exact ⟨sum, ends⟩
    · rw [if_neg (Nat.lt_irrefl _), if_neg (Nat.lt_irrefl _)]
      exact ⟨rfl, rfl⟩

/-- `tag_tree_init` links the levels below the root, and then the root. -/
private theorem tagTreeStores_level (fuel : Nat) (level : k ≤ rootLevel w h)
    (enough : rootLevel w h - k < fuel) :
    tagTreeStores fuel (levelSide w k) (levelSide h k) (levelStart w h k) =
      some ((List.range' k (rootLevel w h - k)).flatMap (levelStores w h) ++
        [(levelStart w h (rootLevel w h), none)]) := by
  induction fuel generalizing k with
  | zero => omega
  | succ fuel ih =>
    rw [tagTreeStores]
    simp only [many_iff_below_root]
    rcases Nat.lt_or_eq_of_le level with below | rfl
    · have nodes := levelNodes_lt few level
      rw [levelNodes] at nodes
      have left : rootLevel w h - k = rootLevel w h - (k + 1) + 1 := by omega
      rw [if_pos below, halve_level wide high few level]
      simp only []
      rw [Nat.mod_eq_of_lt (by omega), ← levelNodes, ← levelStart_succ, inner_loops few below,
        ih below (by omega), Option.map_some, left, List.range'_succ, List.flatMap_cons, List.append_assoc]
    · rw [if_neg (Nat.lt_irrefl _), Nat.sub_self]
      rfl

private theorem rootLevel_le : rootLevel w h ≤ 31 := by
  have nodes := levelSide_lt wide high few (Nat.zero_le _)
  rw [levelSide_zero, levelSide_zero] at nodes
  rw [rootLevel, Nat.clog_le_iff_le_pow (by decide)]
  omega

end

/-! ### The tree in memory -/

private theorem storeAll_kept {stores : List (Nat × Option Nat)} (absent : n ∉ stores.map Prod.fst)
    (mem : Nat → Option Nat) : storeAll mem stores n = mem n := by
  induction stores generalizing mem with
  | nil => rfl
  | cons first rest ih =>
    rw [List.map_cons, List.mem_cons, not_or] at absent
    exact (ih absent.2 _).trans (Function.update_of_ne absent.1 _ _)

private theorem storeAll_eq {mem : Nat → Option Nat} {stores : List (Nat × Option Nat)}
    (once : (stores.map Prod.fst).Nodup) {parent : Option Nat} (stored : (n, parent) ∈ stores) :
    storeAll mem stores n = parent := by
  induction stores generalizing mem with
  | nil => cases stored
  | cons first rest ih =>
    rw [List.map_cons, List.nodup_cons] at once
    rcases List.mem_cons.mp stored with rfl | later
    · exact (storeAll_kept once.1 _).trans (Function.update_self _ _ _)
    · exact ih once.2 later

private theorem stored_nodes (w h d : Nat) :
    (((List.range d).flatMap (levelStores w h)).map Prod.fst) = List.range (levelStart w h d) := by
  induction d with
  | zero => rfl
  | succ d ih =>
    have level : (levelStores w h d).map Prod.fst =
        (List.range (levelNodes w h d)).map (levelStart w h d + ·) := by
      rw [levelStores, List.map_map]
      rfl
    rw [List.range_succ, List.flatMap_append, List.map_append, ih, List.flatMap_singleton, level,
      levelStart_succ, List.range_add]

/-- The stores for all levels and for the root. -/
private def treeStores (w h : Nat) : List (Nat × Option Nat) :=
  (List.range (rootLevel w h)).flatMap (levelStores w h) ++ [(levelStart w h (rootLevel w h), none)]

section

variable {w h : Nat} (wide : 1 ≤ w) (high : 1 ≤ h)

include wide high

private theorem treeStores_indices : (treeStores w h).map Prod.fst = List.range (quadNodes w h) := by
  rw [treeStores, List.map_append, stored_nodes, quadNodes_eq wide high, List.range_succ]
  rfl

private theorem storeAll_treeStores {mem : Nat → Option Nat} {parent : Option Nat}
    (stored : (n, parent) ∈ treeStores w h) : storeAll mem (treeStores w h) n = parent :=
  storeAll_eq (treeStores_indices wide high ▸ List.nodup_range) stored

omit wide high in
private theorem link_mem_treeStores {i j : Nat} (below : k < rootLevel w h) (row : i < levelSide h k)
    (column : j < levelSide w k) :
    (quadNode w h k i j, some (quadNode w h (k + 1) (i / 2) (j / 2))) ∈ treeStores w h := by
  have index := raster_index_lt column row
  apply List.mem_append_left
  refine List.mem_flatMap.mpr ⟨k, List.mem_range.mpr below, List.mem_map.mpr
    ⟨levelSide w k * i + j, List.mem_range.mpr index, ?_⟩⟩
  rw [raster_index_div column, raster_index_mod column, Nat.mul_comm, ← quadNode]

/-- Only the last store is a null. -/
private theorem null_iff_last {parent : Option Nat} (stored : (n, parent) ∈ treeStores w h) :
    parent = none ↔ n = quadNodes w h - 1 := by
  have nodes := quadNodes_eq wide high
  rcases List.mem_append.mp stored with below | root
  · have before : _ < levelStart w h (rootLevel w h) :=
      List.mem_range.mp (stored_nodes w h (rootLevel w h) ▸ List.mem_map_of_mem below)
    obtain ⟨k, _, listed⟩ := List.mem_flatMap.mp below
    obtain ⟨_, _, same⟩ := List.mem_map.mp listed
    cases same
    simp only [nodes, Nat.add_sub_cancel, reduceCtorEq, false_iff]
    exact before.ne
  · rw [List.mem_singleton] at root
    cases root
    simp [nodes]

end

/-- A tag tree fits its allocation: both loops over the levels end, `tag_tree_size` is the number
of nodes, and `tag_tree_init` stores to these nodes only and links each one to its parent. -/
theorem tag_tree_fits {w h : Nat} (wide : 1 ≤ w) (high : 1 ≤ h) (few : quadNodes w h < 2 ^ 31)
    (mem : Nat → Option Nat) :
    (turns manyNodes halve 33 (w, h)).isSome ∧ tagTreeSize w h = quadNodes w h ∧
      ∃ stores, tagTreeStores 33 w h 0 = some stores ∧
        (∀ store ∈ stores, store.1 < tagTreeSize w h) ∧
        (∀ k i j, k < rootLevel w h → i < levelSide h k → j < levelSide w k →
          storeAll mem stores (quadNode w h k i j) = some (quadNode w h (k + 1) (i / 2) (j / 2))) ∧
        ∀ n < tagTreeSize w h, storeAll mem stores n = none ↔ n = tagTreeSize w h - 1 := by
  have levels := rootLevel_le wide high few
  obtain ⟨sum, ends⟩ := tagTreeSizeLoop_level wide high few 33 (Nat.zero_le _) (by omega)
  have stores := tagTreeStores_level wide high few 33 (Nat.zero_le _) (by omega)
  have start : levelStart w h 0 = 0 := rfl
  rw [levelSide_zero, levelSide_zero] at ends
  rw [levelSide_zero, levelSide_zero, start] at sum stores
  have size : tagTreeSize w h = quadNodes w h := by
    rw [tagTreeSize, sum, ← quadNodes_eq wide high]
    exact Nat.mod_eq_of_lt (by omega)
  rw [Nat.sub_zero, ← List.range_eq_range', ← treeStores] at stores
  -- The stores go through the nodes in order, each one once.
  have indices := treeStores_indices wide high
  rw [size]
  refine ⟨ends, rfl, _, stores, ?_, ?_, ?_⟩
  · intro store among
    rw [← List.mem_range, ← indices]
    exact List.mem_map_of_mem among
  · intro k i j below row column
    exact storeAll_treeStores wide high (link_mem_treeStores below row column)
  · intro n inside
    have stored : n ∈ List.range (quadNodes w h) := List.mem_range.mpr inside
    rw [← indices, List.mem_map] at stored
    obtain ⟨⟨_, parent⟩, among, rfl⟩ := stored
    rw [storeAll_treeStores wide high among]
    exact null_iff_last wide high among

/-- Three columns and two rows of leaves, two nodes above them, and the root. -/
theorem tag_tree_fits_small : tagTreeSize 3 2 = 9 ∧
    ∃ stores, tagTreeStores 33 3 2 0 = some stores ∧ ∀ store ∈ stores, store.1 < 9 := by
  have few : quadNodes 3 2 = 9 := by decide
  obtain ⟨_, size, stores, made, within, _⟩ :=
    tag_tree_fits (w := 3) (h := 2) (by decide) (by decide) (by rw [few]; decide) fun _ => none
  rw [few] at size
  rw [size] at within
  exact ⟨size, stores, made, within⟩

/-- 5726623061 nodes are reported as fewer than `2 ^ 31`. -/
theorem tag_tree_size_wraps :
    tagTreeSize 65536 65536 < 2 ^ 31 ∧ quadNodes 65536 65536 = 5726623061 ∧
      tagTreeSize 65536 65536 ≠ quadNodes 65536 65536 := by
  decide +kernel

end RtpDecoder.Parser
