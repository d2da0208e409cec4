/-
  Rounding 64-bit words down to a power of two by masking.

  `highMask k` has every bit from `k` on set; masking with it is dividing by `2^k` and
  multiplying back (`toNat_and_highMask`). C spells the mask `~(size - 1)`; the
  `highMask` form of a given literal is closed by `decide`.
-/
import Mathlib.Data.BitVec
import Mathlib.Algebra.Order.Group.Nat

namespace HelloOS.Lib

/-- The word whose bits from `k` on are set: `~(2^k - 1)`. -/
def highMask (k : Nat) : BitVec 64 := BitVec.allOnes 64 <<< k

theorem getLsbD_highMask (k i : Nat) (hi : i < 64) : (highMask k).getLsbD i = decide (k ≤ i) := by
  unfold highMask
  rw [BitVec.getLsbD_shiftLeft, BitVec.getLsbD_allOnes]
  by_cases h : i < k
  · simp [h]
  · have h1 : k ≤ i := by omega
    have h2 : i - k < 64 := by omega
    simp [h, h1, h2, hi]

theorem and_highMask (a : BitVec 64) (k : Nat) : a &&& highMask k = (a >>> k) <<< k := by
  apply BitVec.eq_of_getLsbD_eq
  intro i hi
  rw [BitVec.getLsbD_and, getLsbD_highMask k i hi, BitVec.getLsbD_shiftLeft,
    BitVec.getLsbD_ushiftRight]
  by_cases h : i < k
  · simp [h]
  · have h1 : k ≤ i := by omega
    simp [h, h1, hi]

theorem toNat_shiftRight_shiftLeft (a : BitVec 64) (k : Nat) :
    ((a >>> k) <<< k).toNat = 2 ^ k * (a.toNat / 2 ^ k) := by
  rw [BitVec.toNat_shiftLeft, BitVec.toNat_ushiftRight, Nat.shiftLeft_eq, Nat.shiftRight_eq_div_pow,
    Nat.mul_comm]
  exact Nat.mod_eq_of_lt (Nat.lt_of_le_of_lt (Nat.mul_div_le _ _) a.isLt)

/-- Masking with `highMask k` rounds down to a multiple of `2^k`. -/
theorem toNat_and_highMask (a : BitVec 64) (k : Nat) :
    (a &&& highMask k).toNat = 2 ^ k * (a.toNat / 2 ^ k) := by
  rw [and_highMask, toNat_shiftRight_shiftLeft]

end HelloOS.Lib
