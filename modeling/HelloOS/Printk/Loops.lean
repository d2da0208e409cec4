/-
  The loops of the formatter (`kernel/printk/printk.c`), on `int`s that are words of 32 bits.

  Every loop ends, and its result has a closed form (`padLoop_eq`, `padBeforeLoop_eq`,
  `digitsLoop_eq`, `stringLoop_eq`); `loopFuel` is enough for all of them.
-/
import HelloOS.Lib.Numeral
import HelloOS.Printk.Format

namespace HelloOS.Printk.Format

open HelloOS.Lib

/-! ## What the loops do -/

/-- A difference that an `int` holds. -/
theorem toInt_sub_of_le {a b : BitVec 32} (hlo : -2 ^ 31 ≤ a.toInt - b.toInt)
    (hhi : a.toInt - b.toInt < 2 ^ 31) : (a - b).toInt = a.toInt - b.toInt := by
  rw [BitVec.toInt_sub]
  exact Int.bmod_eq_of_le (by omega) (by omega)

theorem toInt_range (n : BitVec 32) : -2 ^ 31 ≤ n.toInt ∧ n.toInt < 2 ^ 31 :=
  ⟨n.le_toInt, n.toInt_lt⟩

theorem toInt_sub_one {n : BitVec 32} (h : -2 ^ 31 < n.toInt) :
    (n - 1#32).toInt = n.toInt - 1 := by
  have hrange := toInt_range n
  have hone : (1#32).toInt = 1 := by decide
  rw [toInt_sub_of_le (by omega) (by omega), hone]

theorem toInt_ofNat_eq {n : ℕ} (h : n < 2 ^ 31) : (BitVec.ofNat 32 n).toInt = n := by
  rw [BitVec.toInt_ofNat']
  exact Int.bmod_eq_of_le (by omega) (by omega)

/-- The smaller of two `int`s. -/
theorem toInt_smaller (a b : BitVec 32) :
    (if a.slt b then a else b).toInt = min a.toInt b.toInt := by
  simp only [BitVec.slt_iff_toInt_lt]
  split <;> omega

/-- The larger of two `int`s. -/
theorem toInt_larger (a b : BitVec 32) :
    (if a.slt b then b else a).toInt = max a.toInt b.toInt := by
  simp only [BitVec.slt_iff_toInt_lt]
  split <;> omega

variable {c : Byte} {lo n : BitVec 32} {fuel : ℕ}

/-- Counting down by one from above `lo` does not pass it. -/
theorem lower_pred (hlt : lo.slt n) : (if lo.slt (n - 1#32) then lo else n - 1#32) = lo := by
  have hint : lo.toInt < n.toInt := BitVec.slt_iff_toInt_lt.mp hlt
  have hlo := toInt_range lo
  have hprev : (n - 1#32).toInt = n.toInt - 1 := toInt_sub_one (by omega)
  split
  · rfl
  · next hstop =>
      rw [BitVec.slt_iff_toInt_lt] at hstop
      exact BitVec.eq_of_toInt_eq (by omega)

theorem padLoop_eq (h : (n.toInt - lo.toInt).toNat < fuel) :
    padLoop c lo fuel n = some (List.replicate (n.toInt - lo.toInt).toNat c,
      (if lo.slt n then lo else n) - 1#32) := by
  induction fuel generalizing n with
  | zero => omega
  | succ fuel ih =>
      have hlo := toInt_range lo
      rw [padLoop]
      by_cases hlt : lo.slt n
      · have hint : lo.toInt < n.toInt := BitVec.slt_iff_toInt_lt.mp hlt
        have hprev : (n - 1#32).toInt = n.toInt - 1 := toInt_sub_one (by omega)
        have hcount : (n.toInt - lo.toInt).toNat = ((n - 1#32).toInt - lo.toInt).toNat + 1 := by
          omega
        rw [if_pos hlt, if_pos hlt, ih (by omega), lower_pred hlt, hcount, List.replicate_succ]
        rfl
      · have hint : ¬ lo.toInt < n.toInt := mt BitVec.slt_iff_toInt_lt.mpr hlt
        rw [if_neg hlt, if_neg hlt, show (n.toInt - lo.toInt).toNat = 0 by omega]
        rfl

theorem padBeforeLoop_eq (h : (n - 1#32).toInt.toNat < fuel) :
    padBeforeLoop fuel n = some (List.replicate (n - 1#32).toInt.toNat (chr ' '),
      if (0#32).slt (n - 1#32) then 0#32 else n - 1#32) := by
  induction fuel generalizing n with
  | zero => omega
  | succ fuel ih =>
      have hzero : (0#32).toInt = 0 := by decide
      rw [padBeforeLoop]
      by_cases hlt : (0#32).slt (n - 1#32)
      · have hint := BitVec.slt_iff_toInt_lt.mp hlt
        have hprev : (n - 1#32 - 1#32).toInt = (n - 1#32).toInt - 1 := toInt_sub_one (by omega)
        have hcount : (n - 1#32).toInt.toNat = (n - 1#32 - 1#32).toInt.toNat + 1 := by omega
        rw [if_pos hlt, if_pos hlt, ih (by omega), lower_pred hlt, hcount, List.replicate_succ]
        rfl
      · have hint := mt BitVec.slt_iff_toInt_lt.mpr hlt
        rw [if_neg hlt, if_neg hlt, show (n - 1#32).toInt.toNat = 0 by omega]
        rfl

/-- The digits, from the least significant one on. -/
theorem digitsLoop_eq (digits : List Byte) {base : ℕ} (hbase : 1 < base) (hsize : base < 2 ^ 64)
    {num : BitVec 64} (h : num.toNat < 2 ^ fuel) :
    digitsLoop digits (BitVec.ofNat 64 base) (fuel + 1) num =
      some ((Nat.digits base num.toNat).map fun d => digits.getD d 0#8) := by
  have hb : (BitVec.ofNat 64 base).toNat = base := by
    rw [toNat_ofNat_eq hsize]
  induction fuel generalizing num with
  | zero =>
      have hzero : num = 0#64 := BitVec.eq_of_toNat_eq (by
        rw [BitVec.toNat_ofNat]
        omega)
      rw [digitsLoop, if_pos hzero, hzero]
      simp
  | succ fuel ih =>
      rw [digitsLoop]
      by_cases hzero : num = 0#64
      · rw [if_pos hzero, hzero]
        simp
      · have hpos : 0 < num.toNat := by
          rw [Nat.pos_iff_ne_zero]
          exact fun h0 => hzero (BitVec.eq_of_toNat_eq h0)
        have hdiv : (num / BitVec.ofNat 64 base).toNat = num.toNat / base := by
          rw [BitVec.toNat_udiv, hb]
        have hlt : (num / BitVec.ofNat 64 base).toNat < 2 ^ fuel := by
          rw [hdiv]
          have hhalf : num.toNat / base ≤ num.toNat / 2 := Nat.div_le_div_left hbase (by decide)
          omega
        rw [if_neg hzero, ih hlt, hdiv, Option.map_some, BitVec.toNat_umod, hb,
          Nat.digits_of_two_le_of_pos hbase hpos, List.map_cons]

theorem copyLoop_eq (tmp : List Byte) {i : ℕ} (h : i ≤ tmp.length) :
    copyLoop tmp i = (tmp.take i).reverse := by
  induction i with
  | zero => rfl
  | succ i ih =>
      have hget : tmp[i]? = some (tmp.getD i 0#8) := by
        rw [List.getD_eq_getElem?_getD, List.getElem?_eq_getElem (by omega)]
        rfl
      rw [copyLoop, ih (by omega), List.take_add_one, hget, List.reverse_append]
      rfl

theorem stringLoop_eq (m : Mem) {len i : BitVec 32} (s : BitVec 64)
    (h : (len.toInt - i.toInt).toNat < fuel) :
    stringLoop m len fuel i s = some (m.readBytes s (len.toInt - i.toInt).toNat) := by
  induction fuel generalizing i s with
  | zero => omega
  | succ fuel ih =>
      have hlen := toInt_range len
      have hi := toInt_range i
      rw [stringLoop]
      by_cases hlt : i.slt len
      · have hint : i.toInt < len.toInt := BitVec.slt_iff_toInt_lt.mp hlt
        have hnext : (i + 1#32).toInt = i.toInt + 1 := by
          have hone : (1#32).toInt = 1 := by decide
          rw [BitVec.toInt_add, hone]
          exact Int.bmod_eq_of_le (by omega) (by omega)
        have hcount : (len.toInt - i.toInt).toNat = (len.toInt - (i + 1#32).toInt).toNat + 1 := by
          omega
        rw [if_pos hlt, ih _ (by omega), hcount]
        rfl
      · have hint : ¬ i.toInt < len.toInt := mt BitVec.slt_iff_toInt_lt.mpr hlt
        rw [if_neg hlt, show (len.toInt - i.toInt).toNat = 0 by omega]
        rfl

end HelloOS.Printk.Format
