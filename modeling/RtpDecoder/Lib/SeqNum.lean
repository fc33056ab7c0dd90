import Mathlib.Data.BitVec
import Mathlib.Data.Nat.ModEq

/-!
# Serial-number arithmetic

Sequence numbers of `w` bits wrap around. `ahead a b` counts how many increments
take `b` to `a`; reading the difference as a signed number tells whether `a` is
before `b` or at most half a cycle after it.
-/

namespace SeqNum

variable {w : Nat}

/-- The number of increments from `b` to `a`. -/
def ahead (a b : BitVec w) : Nat := (a - b).toNat

@[simp] theorem ahead_self (a : BitVec w) : ahead a a = 0 := by
  simp [ahead]

theorem ahead_lt (a b : BitVec w) : ahead a b < 2 ^ w := (a - b).isLt

theorem add_ahead (a b : BitVec w) : b + BitVec.ofNat w (ahead a b) = a := by
  simp only [ahead, BitVec.ofNat_toNat, BitVec.setWidth_eq]
  rw [BitVec.add_comm, BitVec.sub_add_cancel]

theorem ahead_eq_zero {a b : BitVec w} : ahead a b = 0 ↔ a = b := by
  constructor
  · intro zero
    have moved := add_ahead a b
    rw [zero] at moved
    simpa using moved.symm
  · rintro rfl
    exact ahead_self a

theorem ahead_injective {a a' b : BitVec w} (same : ahead a b = ahead a' b) : a = a' := by
  rw [← add_ahead a b, same, add_ahead]

theorem ahead_succ {a b : BitVec w} (apart : a ≠ b) : ahead a (b + 1) + 1 = ahead a b := by
  have positive : ahead a b ≠ 0 := fun zero => apart (ahead_eq_zero.mp zero)
  have bound := ahead_lt a b
  have wide : w ≠ 0 := by
    rintro rfl
    exact positive (by simpa using bound)
  have one : (1 : BitVec w).toNat = 1 := by
    have : 1 < 2 ^ w := Nat.one_lt_two_pow wide
    simp [Nat.mod_eq_of_lt this]
  have split : a - (b + 1) = (a - b) - 1 := by
    rw [sub_add_eq_sub_sub]
  have large : (1 : BitVec w).toNat ≤ (a - b).toNat := by
    rw [one]
    exact Nat.one_le_iff_ne_zero.mpr positive
  unfold ahead at *
  rw [split, BitVec.toNat_sub_of_le (by simpa [BitVec.le_def] using large), one]
  omega

/-- The signed reading of a difference is negative exactly past half a cycle. -/
theorem toInt_sub_neg_iff (a b : BitVec w) : (a - b).toInt < 0 ↔ 2 ^ w ≤ 2 * ahead a b := by
  rw [BitVec.toInt_eq_toNat_cond]
  have bound := ahead_lt a b
  unfold ahead at *
  split
  · constructor
    · intro neg
      omega
    · intro big
      omega
  · constructor
    · intro _
      omega
    · intro _
      have cast : ((a - b).toNat : Int) < ((2 ^ w : Nat) : Int) := by exact_mod_cast bound
      omega

theorem toInt_sub_of_lt {a b : BitVec w} (near : 2 * ahead a b < 2 ^ w) : (a - b).toInt = ahead a b := by
  rw [BitVec.toInt_eq_toNat_cond]
  unfold ahead at *
  rw [if_pos near]

/-- Inside a window no longer than `2 ^ v`, numbers that agree modulo `2 ^ v` are equal. -/
theorem eq_of_window {v : Nat} (narrow : v ≤ w) {a a' b : BitVec w}
    (first : ahead a b < 2 ^ v) (second : ahead a' b < 2 ^ v)
    (same : a.toNat % 2 ^ v = a'.toNat % 2 ^ v) : a = a' := by
  have divides : 2 ^ v ∣ 2 ^ w := Nat.pow_dvd_pow 2 narrow
  have residue (x : BitVec w) : (b.toNat + ahead x b) % 2 ^ v = x.toNat % 2 ^ v := by
    have value : x.toNat = (b.toNat + ahead x b) % 2 ^ w := by
      conv_lhs => rw [← add_ahead x b]
      rw [BitVec.toNat_add, BitVec.toNat_ofNat, Nat.mod_eq_of_lt (ahead_lt x b)]
    rw [value, Nat.mod_mod_of_dvd _ divides]
  have equal : (b.toNat + ahead a b) % 2 ^ v = (b.toNat + ahead a' b) % 2 ^ v := by
    rw [residue, residue, same]
  have cancelled : ahead a b % 2 ^ v = ahead a' b % 2 ^ v :=
    Nat.ModEq.add_left_cancel' b.toNat equal
  rw [Nat.mod_eq_of_lt first, Nat.mod_eq_of_lt second] at cancelled
  exact ahead_injective cancelled

end SeqNum
