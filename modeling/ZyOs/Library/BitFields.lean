/-
Fields of a 32-bit word.

C takes a word apart with masks and shifts; as numbers these are remainders and quotients by
powers of two, and `omega` knows those.
-/
import Mathlib.Tactic

namespace Library

/-- A mask of the low `k` bits. -/
theorem toNat_and_low (x m : UInt32) {k : Nat} (hm : m.toNat = 2 ^ k - 1) :
    (x &&& m).toNat = x.toNat % 2 ^ k := by
  rw [UInt32.toNat_and, hm, Nat.and_two_pow_sub_one_eq_mod]

/-- A mask of all bits but the low `k`. -/
theorem toNat_and_high (x m : UInt32) {k : Nat} (hk : k ≤ 32) (hm : m.toNat = 2 ^ 32 - 2 ^ k) :
    (x &&& m).toNat = x.toNat / 2 ^ k * 2 ^ k := by
  have hmask : 2 ^ 32 - 2 ^ k = 2 ^ k * (2 ^ (32 - k) - 1) := by
    rw [Nat.mul_sub, Nat.mul_one, ← pow_add, Nat.add_sub_cancel' hk]
  rw [UInt32.toNat_and, hm, hmask, Nat.mul_comm (x.toNat / 2 ^ k)]
  apply Nat.eq_of_testBit_eq
  intro i
  have hlt : x.toNat < 2 ^ 32 := x.toNat_lt
  rw [Nat.testBit_and, Nat.testBit_two_pow_mul, Nat.testBit_two_pow_mul,
    Nat.testBit_two_pow_sub_one,
    Nat.testBit_div_two_pow]
  by_cases hi : k ≤ i
  · by_cases hin : i - k < 32 - k
    · simp [hi, hin]
    · have hhigh : x.toNat.testBit i = false :=
        Nat.testBit_lt_two_pow (hlt.trans_le (Nat.pow_le_pow_right (by decide) (by omega)))
      simp [hi, hin, hhigh]
  · simp [hi]

theorem toNat_shiftRight (x s : UInt32) {k : Nat} (hs : s.toNat = k) (hk : k < 32) :
    (x >>> s).toNat = x.toNat / 2 ^ k := by
  rw [UInt32.toNat_shiftRight, hs, Nat.mod_eq_of_lt hk, Nat.shiftRight_eq_div_pow]

end Library
