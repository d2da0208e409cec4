/-
  Bitmaps kept in an array of 64-bit words: bit `i` is bit `i % 64` of word `i / 64`.

  The array is a total map from word indices to words, so nothing here depends on a
  length: whoever uses a bitmap says which words are his. `set` and `toggle` are the
  read-modify-write forms `w[i / 64] |= 1 << i % 64` and `w[i / 64] ^= 1 << i % 64`;
  `get_set` and `get_toggle` say what they do to every bit, and `ones` is a prefix of
  the array filled with all-ones words.
-/
import Mathlib.Data.BitVec
import Mathlib.Logic.Function.Basic

namespace HelloOS.Lib

/-- An array of 64-bit words read as a bitmap. -/
abbrev Bitmap := Nat → BitVec 64

namespace Bitmap

variable (w : Bitmap) (i j : Nat)

/-- The word with only bit `i % 64` set. -/
def bit (i : Nat) : BitVec 64 := 1#64 <<< (i % 64)

/-- Bit `i`. -/
def get (w : Bitmap) (i : Nat) : Bool := (w (i / 64)).getLsbD (i % 64)

/-- `w[i / 64] |= 1 << i % 64`. -/
def set (w : Bitmap) (i : Nat) : Bitmap := Function.update w (i / 64) (w (i / 64) ||| bit i)

/-- `w[i / 64] ^= 1 << i % 64`. -/
def toggle (w : Bitmap) (i : Nat) : Bitmap := Function.update w (i / 64) (w (i / 64) ^^^ bit i)

/-- The first `n` words all ones, the others as they were. -/
def ones (w : Bitmap) (n : Nat) : Bitmap := fun k => if k < n then BitVec.allOnes 64 else w k

theorem getLsbD_bit (k : Nat) (hk : k < 64) : (bit i).getLsbD k = decide (i % 64 = k) := by
  unfold bit
  have hi : i % 64 < 64 := Nat.mod_lt _ (by decide)
  rw [BitVec.getLsbD_shiftLeft, BitVec.getLsbD_one]
  by_cases h : i % 64 = k
  · simp [h, hk]
  · by_cases hlt : k < i % 64
    · simp [h, hlt]
    · have hne : k - i % 64 ≠ 0 := by omega
      simp [h, hne]

theorem word_eq_and_bit_eq_iff : i / 64 = j / 64 ∧ i % 64 = j % 64 ↔ i = j := by omega

/-- Setting a bit sets that bit and no other. -/
theorem get_set : (w.set i).get j = (decide (i = j) || w.get j) := by
  unfold get set
  have hj : j % 64 < 64 := Nat.mod_lt _ (by decide)
  by_cases hw : j / 64 = i / 64
  · rw [hw, Function.update_self, BitVec.getLsbD_or, getLsbD_bit i _ hj, Bool.or_comm]
    congr 1
    have := word_eq_and_bit_eq_iff i j
    simp only [decide_eq_decide]
    omega
  · rw [Function.update_of_ne hw]
    have : i ≠ j := fun h => hw (h ▸ rfl)
    simp [this]

/-- Toggling a bit flips that bit and no other. -/
theorem get_toggle : (w.toggle i).get j = (decide (i = j) ^^ w.get j) := by
  unfold get toggle
  have hj : j % 64 < 64 := Nat.mod_lt _ (by decide)
  by_cases hw : j / 64 = i / 64
  · rw [hw, Function.update_self, BitVec.getLsbD_xor, getLsbD_bit i _ hj, Bool.xor_comm]
    congr 1
    have := word_eq_and_bit_eq_iff i j
    simp only [decide_eq_decide]
    omega
  · rw [Function.update_of_ne hw]
    have : i ≠ j := fun h => hw (h ▸ rfl)
    simp [this]

@[simp] theorem get_set_self : (w.set i).get i = true := by simp [get_set]

/-- A set bit stays set when another is set. -/
theorem get_set_of_get {w : Bitmap} {j : Nat} (i : Nat) (h : w.get j = true) :
    (w.set i).get j = true := by simp [get_set, h]

theorem get_set_of_ne {i j : Nat} (h : i ≠ j) : (w.set i).get j = w.get j := by
  simp [get_set, h]

/-- The bits of the first `n` words of `ones w n` are all set. -/
theorem get_ones_of_lt {n : Nat} (h : i < 64 * n) : (w.ones n).get i = true := by
  unfold get ones
  rw [if_pos (by omega), BitVec.getLsbD_allOnes]
  simp [Nat.mod_lt]

end Bitmap

end HelloOS.Lib
