import Mathlib.Data.Nat.Bitwise

/-!
# Bit stuffing

A list of bits is packed into bytes, the most significant bit first. A byte after `0xFF`
carries only seven bits, so that its top bit is 0, and the last byte is filled up with zeros.
A reader that keeps the last byte and the number of its bits that are left gets the list back;
`Pending` says which bits it still has to get.
-/

namespace BitStuffing

/-- How many bits the byte after `last` carries. -/
def capacity (last : UInt8) : Nat := if last = 0xFF then 7 else 8

/-- The bytes of a list of bits. The first of them is for `cap` bits, of which `filled` with
the value `acc` are there already. -/
def pack (cap filled acc : Nat) : List Bool → List UInt8
  | [] => if filled = 0 then [] else [UInt8.ofNat (acc * 2 ^ (cap - filled))]
  | b :: l =>
    let byte := UInt8.ofNat (2 * acc + b.toNat)
    if filled + 1 = cap then byte :: pack (capacity byte) 0 0 l
    else pack cap (filled + 1) (2 * acc + b.toNat) l

def packed (l : List Bool) : List UInt8 := pack 8 0 0 l

/-- A last byte `0xFF` is followed by a zero byte. -/
def stuff (l : List Bool) : List UInt8 :=
  if (packed l).getLast? = some 0xFF then packed l ++ [0] else packed l

def lastByte (l : List Bool) : UInt8 := (packed l).getLast?.getD 0

theorem stuff_eq (l : List Bool) : stuff l = packed l ++ if lastByte l = 0xFF then [0] else [] := by
  have same : (packed l).getLast? = some 0xFF ↔ lastByte l = 0xFF := by
    rw [lastByte]
    cases (packed l).getLast? with
    | none => decide
    | some byte => simp
  simp only [stuff, same]
  split
  · rfl
  · exact (List.append_nil _).symm

theorem length_stuff (l : List Bool) : (stuff l).length = (packed l).length + if lastByte l = 0xFF then 1 else 0 := by
  rw [stuff_eq]
  split <;> simp

theorem capacity_le (last : UInt8) : capacity last ≤ 8 := by
  simp only [capacity]
  split <;> decide

theorem capacity_pos (last : UInt8) : 0 < capacity last := by
  simp only [capacity]
  split <;> decide

section

variable {cap filled acc bits : Nat} {l : List Bool}

theorem pack_head (room : filled < cap) (few : cap ≤ 8) (small : acc < 2 ^ filled)
    (some : 0 < filled ∨ l ≠ []) :
    ∃ byte rest, pack cap filled acc l = byte :: rest ∧ byte.toNat / 2 ^ (cap - filled) = acc := by
  have bound {n k : Nat} (le : k ≤ cap) (lt : n < 2 ^ k) : n % 2 ^ 8 = n :=
    Nat.mod_eq_of_lt (Nat.lt_of_lt_of_le lt (Nat.pow_le_pow_right (by decide) (Nat.le_trans le few)))
  -- Bits are added on the right until the byte is full, which leaves those on the left.
  induction l generalizing filled acc with
  | nil =>
    have started : filled ≠ 0 := by
      rcases some with positive | nonempty
      · exact Nat.ne_of_gt positive
      · exact absurd rfl nonempty
    refine ⟨_, [], by rw [pack, if_neg started], ?_⟩
    have value : acc * 2 ^ (cap - filled) < 2 ^ cap := by
      have := Nat.mul_lt_mul_of_pos_right small (Nat.two_pow_pos (cap - filled))
      rwa [← Nat.pow_add, Nat.add_sub_cancel' (Nat.le_of_lt room)] at this
    rw [UInt8.toNat_ofNat', bound (Nat.le_refl _) value, Nat.mul_div_cancel _ (Nat.two_pow_pos _)]
  | cons b l ih =>
    have bit := b.toNat_lt
    have next : 2 * acc + b.toNat < 2 ^ (filled + 1) := by
      rw [Nat.pow_succ]
      omega
    by_cases full : filled + 1 = cap
    · refine ⟨_, _, by rw [pack, if_pos full], ?_⟩
      rw [UInt8.toNat_ofNat', bound (Nat.le_of_eq full) next, show cap - filled = 1 by omega]
      omega
    · obtain ⟨byte, rest, packed, value⟩ := ih (by omega) next (.inl (Nat.succ_pos _))
      refine ⟨byte, rest, by rw [pack, if_neg full, packed], ?_⟩
      rw [show cap - filled = cap - (filled + 1) + 1 by omega, Nat.pow_succ, ← Nat.div_div_eq_div_mul,
        value]
      omega

end

/-- A reader with `bits` left of its last byte `tmp` gets the bits `l` from them and from `bytes`. -/
inductive Pending : UInt8 → Nat → List UInt8 → List Bool → Prop
  | between (tmp : UInt8) (l : List Bool) : Pending tmp 0 (pack (capacity tmp) 0 0 l) l
  | within {tmp : UInt8} {filled bits : Nat} {bytes : List UInt8} {l : List Bool} (started : 0 < filled)
    (left : 0 < bits) (few : filled + bits ≤ 8) (small : tmp.toNat < 2 ^ (filled + bits))
    (packed : pack (filled + bits) filled (tmp.toNat / 2 ^ bits) l = tmp :: bytes) :
    Pending tmp bits bytes l

theorem pending_packed (l : List Bool) : Pending 0 0 (packed l) l := .between 0 l

section

variable {tmp : UInt8} {filled bits : Nat} {bytes : List UInt8} {b : Bool} {l : List Bool}

/-- One bit from a byte that has some left. -/
private theorem pending_take (few : filled + (bits + 1) ≤ 8) (small : tmp.toNat < 2 ^ (filled + (bits + 1)))
    (packed : pack (filled + (bits + 1)) filled (tmp.toNat / 2 ^ (bits + 1)) (b :: l) = tmp :: bytes) :
    tmp.toNat.testBit bits = b ∧ Pending tmp bits bytes l := by
  have word := tmp.toNat_lt
  have bit := b.toNat_lt
  have testBit (value : tmp.toNat / 2 ^ bits % 2 = b.toNat) : tmp.toNat.testBit bits = b := by
    rw [Nat.testBit_eq_decide_div_mod_eq, value]
    cases b <;> rfl
  rw [pack] at packed
  cases bits with
  -- The last bit completes the byte, and the next one starts with its own capacity.
  | zero =>
    rw [if_pos rfl] at packed
    obtain ⟨same, rfl⟩ := List.cons.inj packed
    have value : tmp.toNat = 2 * (tmp.toNat / 2) + b.toNat := by
      have := congrArg UInt8.toNat same
      rw [UInt8.toNat_ofNat', Nat.mod_eq_of_lt (by omega)] at this
      omega
    refine ⟨testBit (by simp only [Nat.pow_zero, Nat.div_one]; omega), ?_⟩
    rw [same]
    exact .between tmp l
  -- Otherwise the bit is the last of those that the byte starts with.
  | succ bits =>
    rw [if_neg (by omega)] at packed
    have shape : filled + (bits + 1 + 1) = filled + 1 + (bits + 1) := by omega
    have low : tmp.toNat / 2 ^ (bits + 1 + 1) < 2 ^ filled := by
      rw [Nat.div_lt_iff_lt_mul (Nat.two_pow_pos _), ← Nat.pow_add]
      exact small
    have room : filled + 1 < filled + (bits + 1 + 1) := by omega
    have next : 2 * (tmp.toNat / 2 ^ (bits + 1 + 1)) + b.toNat < 2 ^ (filled + 1) := by
      rw [Nat.pow_succ 2 filled]
      omega
    obtain ⟨byte, rest, same, value⟩ := pack_head (l := l) room few next (.inl (Nat.succ_pos _))
    rw [packed] at same
    obtain ⟨rfl, rfl⟩ := List.cons.inj same
    rw [show filled + (bits + 1 + 1) - (filled + 1) = bits + 1 by omega] at value
    refine ⟨testBit ?_, .within (Nat.succ_pos filled) (Nat.succ_pos bits) (by omega) (shape ▸ small) ?_⟩
    · rw [value, Nat.mul_add_mod, Nat.mod_eq_of_lt bit]
    · rw [← shape, value]
      exact packed

/-- The next bit comes from the byte that the reader has, if some of its bits are left. -/
theorem Pending.later (pending : Pending tmp bits bytes (b :: l)) (left : bits ≠ 0) :
    tmp.toNat.testBit (bits - 1) = b ∧ Pending tmp (bits - 1) bytes l := by
  cases pending with
  | between => exact absurd rfl left
  | within _ _ few small packed =>
    obtain ⟨bits, rfl⟩ := Nat.exists_eq_succ_of_ne_zero left
    exact pending_take few small packed

/-- Otherwise it is the first one of a new byte. -/
theorem Pending.first (pending : Pending tmp 0 bytes (b :: l)) :
    ∃ byte rest, bytes = byte :: rest ∧ byte.toNat.testBit (capacity tmp - 1) = b ∧
      Pending byte (capacity tmp - 1) rest l := by
  cases pending with
  | between =>
    obtain ⟨byte, rest, packed, value⟩ := pack_head (l := b :: l) (capacity_pos tmp) (capacity_le tmp)
      (Nat.two_pow_pos 0) (.inr (List.cons_ne_nil b l))
    have small : byte.toNat < 2 ^ capacity tmp := (Nat.div_eq_zero_iff_lt (Nat.two_pow_pos _)).mp value
    have fits := capacity_le tmp
    refine ⟨byte, rest, packed, ?_⟩
    have shape : capacity tmp = 0 + (capacity tmp - 1 + 1) := by
      have positive := capacity_pos tmp
      omega
    rw [Nat.sub_zero] at value
    rw [shape] at fits small packed value
    refine pending_take fits small ?_
    rw [Nat.zero_add] at value
    rw [value]
    exact packed
  | within _ left => exact absurd left (Nat.lt_irrefl 0)

/-- When all bits were read, so were the bytes, and the last one is `0xFF` only if it was used up. -/
theorem Pending.finish (pending : Pending tmp bits bytes []) : bytes = [] ∧ (tmp = 0xFF → bits = 0) := by
  cases pending with
  | between => exact ⟨rfl, fun _ => rfl⟩
  | within started left _ _ packed =>
    rw [pack, if_neg (Nat.ne_of_gt started), Nat.add_sub_cancel_left] at packed
    obtain ⟨same, rfl⟩ := List.cons.inj packed
    refine ⟨rfl, fun full => ?_⟩
    -- A byte that was filled up with zeros is even.
    obtain ⟨k, rfl⟩ := Nat.exists_eq_succ_of_ne_zero (Nat.ne_of_gt left)
    have value := congrArg UInt8.toNat same
    have down := Nat.div_mul_le_self tmp.toNat (2 ^ (k + 1))
    rw [UInt8.toNat_ofNat', Nat.mod_eq_of_lt (Nat.lt_of_le_of_lt down tmp.toNat_lt), Nat.pow_succ,
      ← Nat.mul_assoc, full] at value
    have odd : (0xFF : UInt8).toNat = 255 := rfl
    omega

end

end BitStuffing
