import Mathlib.Algebra.Order.Floor.Div
import Mathlib.Data.Finset.Card
import Mathlib.Data.List.Range
import Mathlib.Order.Interval.Finset.Nat

/-!
# Numbers in equal steps

The numbers from `lo` on in steps of `step` up to `hi`, and how many of them are multiples of
a number that the step divides.
-/

namespace RtpDecoder

/-- `lo`, `lo + step`, … below `hi`. -/
def stride (lo hi step : Nat) : List Nat := List.range' lo ((hi - lo) ⌈/⌉ step) step

private theorem lt_ceilDiv_iff {a b c : Nat} (pos : 0 < b) : c < a ⌈/⌉ b ↔ b * c < a := by
  rw [← Nat.not_le, ceilDiv_le_iff_le_mul pos, Nat.not_le]

/-! ### Rounding up -/

theorem ceilDiv_ceilDiv {a b c : Nat} (pos_b : 0 < b) (pos_c : 0 < c) : a ⌈/⌉ b ⌈/⌉ c = a ⌈/⌉ (b * c) := by
  apply eq_of_forall_ge_iff
  intro n
  rw [ceilDiv_le_iff_le_mul pos_c, ceilDiv_le_iff_le_mul pos_b,
    ceilDiv_le_iff_le_mul (Nat.mul_pos pos_b pos_c), Nat.mul_assoc]

theorem ceilDiv_eq_div {a b : Nat} (pos : 0 < b) : a ⌈/⌉ b = a / b + if b ∣ a then 0 else 1 := by
  have parts := Nat.div_add_mod a b
  have rest := Nat.mod_lt a pos
  split
  next whole =>
    obtain ⟨k, rfl⟩ := whole
    rw [Nat.mul_div_cancel_left k pos, ← smul_eq_mul, smul_ceilDiv pos, Nat.add_zero]
  next part =>
    have remains : a % b ≠ 0 := fun zero => part (Nat.dvd_of_mod_eq_zero zero)
    apply Nat.le_antisymm
    · rw [ceilDiv_le_iff_le_mul pos, Nat.mul_add]
      omega
    · apply Nat.succ_le_of_lt
      rw [← Nat.not_le, ceilDiv_le_iff_le_mul pos]
      omega

theorem ceilDiv_le_self {b : Nat} (pos : 0 < b) (a : Nat) : a ⌈/⌉ b ≤ a := by
  rw [ceilDiv_le_iff_le_mul pos]
  exact Nat.le_mul_of_pos_left a pos

theorem ceilDiv_le_ceilDiv {a b : Nat} (le : a ≤ b) (c : Nat) : a ⌈/⌉ c ≤ b ⌈/⌉ c :=
  Nat.div_le_div_right (by omega)

theorem ceilDiv_two_pow_succ (n k : Nat) : n ⌈/⌉ 2 ^ (k + 1) = (n ⌈/⌉ 2 ^ k + 1) / 2 := by
  rw [Nat.pow_succ, ← ceilDiv_ceilDiv (Nat.two_pow_pos k) (by decide), Nat.ceilDiv_eq_add_pred_div]
  rfl

/-! ### Strides -/

theorem stride_of_le {lo hi : Nat} (le : hi ≤ lo) (step : Nat) : stride lo hi step = [] := by
  rw [stride, Nat.sub_eq_zero_of_le le, zero_ceilDiv]
  rfl

section

variable {lo hi step : Nat} (pos : 0 < step)

include pos

theorem mem_stride {x : Nat} : x ∈ stride lo hi step ↔ lo ≤ x ∧ x < hi ∧ step ∣ x - lo := by
  simp only [stride, List.mem_range', lt_ceilDiv_iff pos]
  constructor
  · rintro ⟨i, small, rfl⟩
    exact ⟨by omega, by omega, ⟨i, by omega⟩⟩
  · rintro ⟨above, below, i, steps⟩
    exact ⟨i, by omega, by omega⟩

theorem stride_nodup : (stride lo hi step).Nodup := List.nodup_range' _ pos

theorem stride_of_lt (lt : lo < hi) : stride lo hi step = lo :: stride (lo + step) hi step := by
  have turns : (hi - lo) ⌈/⌉ step = (hi - (lo + step)) ⌈/⌉ step + 1 := by
    apply Nat.le_antisymm
    · rw [ceilDiv_le_iff_le_mul pos, Nat.mul_succ]
      have covered : hi - (lo + step) ≤ step * ((hi - (lo + step)) ⌈/⌉ step) :=
        (ceilDiv_le_iff_le_mul pos).mp (Nat.le_refl _)
      omega
    · rw [Nat.succ_le_iff, lt_ceilDiv_iff pos]
      by_cases some : 0 < (hi - (lo + step)) ⌈/⌉ step
      · have last : step * ((hi - (lo + step)) ⌈/⌉ step - 1) < hi - (lo + step) :=
          (lt_ceilDiv_iff pos).mp (by omega)
        rw [Nat.mul_sub_one] at last
        have one : step ≤ step * ((hi - (lo + step)) ⌈/⌉ step) := Nat.le_mul_of_pos_right _ some
        omega
      · rw [Nat.eq_zero_of_not_pos some]
        omega
  rw [stride, turns, List.range'_succ]
  rfl

theorem countP_dvd_stride {m : Nat} (positive : 0 < m) (divides : step ∣ m) :
    (stride lo hi step).countP (fun x => decide (m ∣ x)) =
      if step ∣ lo then hi ⌈/⌉ m - lo ⌈/⌉ m else 0 := by
  split
  next aligned =>
    have multiples : ((stride lo hi step).filter fun x => decide (m ∣ x)).toFinset =
        (Finset.Ico (lo ⌈/⌉ m) (hi ⌈/⌉ m)).image (m * ·) := by
      ext x
      simp only [List.mem_toFinset, List.mem_filter, mem_stride pos, decide_eq_true_eq, Finset.mem_image,
        Finset.mem_Ico, lt_ceilDiv_iff positive, ceilDiv_le_iff_le_mul positive]
      constructor
      · rintro ⟨⟨above, below, _⟩, j, rfl⟩
        exact ⟨j, ⟨above, below⟩, rfl⟩
      · rintro ⟨j, ⟨above, below⟩, rfl⟩
        have multiple : step ∣ m * j := divides.mul_right j
        exact ⟨⟨above, below, Nat.dvd_sub multiple aligned⟩, j, rfl⟩
    rw [List.countP_eq_length_filter, ← List.toFinset_card_of_nodup ((stride_nodup pos).filter _),
      multiples, Finset.card_image_of_injective _ (fun a b => Nat.eq_of_mul_eq_mul_left positive),
      Nat.card_Ico]
  next off =>
    rw [List.countP_eq_zero]
    intro x member multiple
    obtain ⟨above, _, steps⟩ := (mem_stride pos).mp member
    have whole : step ∣ x := divides.trans (of_decide_eq_true multiple)
    exact off ((Nat.dvd_sub_iff_right above whole).mp steps)

theorem countP_first_stride (p : Prop) [Decidable p] :
    (stride lo hi step).countP (fun x => decide (x = lo ∧ p)) = if lo < hi ∧ p then 1 else 0 := by
  by_cases some : lo < hi
  · rw [stride_of_lt pos some, List.countP_cons]
    have later : (stride (lo + step) hi step).countP (fun x => decide (x = lo ∧ p)) = 0 := by
      rw [List.countP_eq_zero]
      intro x member first
      have above := ((mem_stride pos).mp member).1
      have same := (of_decide_eq_true first).1
      omega
    rw [later]
    simp [some]
  · rw [stride_of_le (Nat.not_lt.mp some)]
    simp [some]

end

end RtpDecoder
