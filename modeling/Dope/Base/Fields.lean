import Mathlib.Data.Nat.Bitwise

/-! # Words made of fields

A field is a range of bits of a word. What masks, shifts and unions of fields
do to the value of a word, in the arithmetic of quotients and remainders.
-/

namespace Dope.Fields

variable {w n lo : Nat}

/-- A union with what is below the `n`-th bit is a sum. -/
theorem toNat_or {high low : BitVec w} (aligned : high.toNat % 2 ^ n = 0)
    (fits : low.toNat < 2 ^ n) : (high ||| low).toNat = high.toNat + low.toNat := by
  have split : high.toNat = (high.toNat / 2 ^ n) <<< n := by
    rw [Nat.shiftLeft_eq]
    have parts := Nat.div_add_mod high.toNat (2 ^ n)
    rw [aligned, Nat.mul_comm] at parts
    omega
  rw [BitVec.toNat_or, split, Nat.shiftLeft_add_eq_or_of_lt fits]

/-- A union of words without a common bit is a sum. -/
theorem toNat_or_of_and {left right : BitVec w} (apart : left &&& right = 0#w)
    (fits : left.toNat + right.toNat < 2 ^ w) :
    (left ||| right).toNat = left.toNat + right.toNat := by
  rw [← BitVec.add_eq_or_of_and_eq_zero left right apart, BitVec.toNat_add, Nat.mod_eq_of_lt fits]

theorem toNat_shiftLeft {value : BitVec w} (fits : value.toNat * 2 ^ n < 2 ^ w) :
    (value <<< n).toNat = value.toNat * 2 ^ n := by
  rw [BitVec.toNat_shiftLeft, Nat.shiftLeft_eq, Nat.mod_eq_of_lt fits]

theorem toNat_shiftRight (value : BitVec w) : (value >>> n).toNat = value.toNat / 2 ^ n := by
  rw [BitVec.toNat_ushiftRight, Nat.shiftRight_eq_div_pow]

/-- A mask of the `n` low bits keeps a remainder. -/
theorem toNat_and {value mask : BitVec w} (ones : mask.toNat = 2 ^ n - 1) :
    (value &&& mask).toNat = value.toNat % 2 ^ n := by
  rw [BitVec.toNat_and, ones, Nat.and_two_pow_sub_one_eq_mod]

/-- A mask of the `n` bits above `lo` keeps one field in its place. -/
theorem toNat_and_field {value mask : BitVec w} (ones : mask.toNat = (2 ^ n - 1) * 2 ^ lo) :
    (value &&& mask).toNat = value.toNat / 2 ^ lo % 2 ^ n * 2 ^ lo := by
  rw [BitVec.toNat_and, ones, ← Nat.shiftLeft_eq, ← Nat.shiftLeft_eq,
    ← Nat.and_two_pow_sub_one_eq_mod, ← Nat.shiftRight_eq_div_pow]
  apply Nat.eq_of_testBit_eq
  intro i
  simp only [Nat.testBit_and, Nat.testBit_shiftLeft, Nat.testBit_shiftRight]
  by_cases above : lo ≤ i
  · have back : lo + (i - lo) = i := by omega
    simp [above, back]
  · simp [above]

/-- A mask that is a union keeps the union of what its parts keep. -/
theorem and_or (value left right : BitVec w) :
    value &&& (left ||| right) = value &&& left ||| value &&& right :=
  BitVec.and_or_distrib_left

end Dope.Fields
