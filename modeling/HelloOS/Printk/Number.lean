/-
  Integer formatting (`kernel/printk/printk.c`): what `number` stores, part by part.

  `numberParts` says what stands where in the output, in terms of the number and the widths
  alone. `number_parts` is about `number` as the machine runs it; `numberTail_eq` is its
  padding, in which three loops share one counter.
-/
import HelloOS.Printk.Loops

namespace HelloOS.Printk.Format

open HelloOS.Lib

/-! ## The parts of a number -/

/-- The value of a digit. -/
def digitValue (c : Byte) : Option ℕ :=
  if isDigit c then some (c.toNat - (chr '0').toNat)
  else if chr 'A' ≤ c ∧ c ≤ chr 'Z' then some (10 + c.toNat - (chr 'A').toNat)
  else if chr 'a' ≤ c ∧ c ≤ chr 'z' then some (10 + c.toNat - (chr 'a').toNat)
  else none

/-- The digit of value `d`, in small or in capital letters. -/
def digitChar (type : BitVec 32) (d : ℕ) : Byte := (digitChars type).getD d 0#8

/-- The number that a word stands for. -/
def numValue (type : BitVec 32) (num : BitVec 64) : ℤ :=
  if has type sign then num.toInt else num.toNat

/-- The sign of `v`. -/
def signText (type : BitVec 32) (v : ℤ) : List Byte :=
  if v < 0 then [chr '-']
  else if has type plus then [chr '+']
  else if has type space then [chr ' ']
  else []

/-- What stands for the base. -/
def baseText (type : BitVec 32) (base : ℕ) : List Byte :=
  if has type special then
    if base = 8 then [chr '0']
    else if base = 16 then [chr '0', if has type small then chr 'x' else chr 'X']
    else []
  else []

/-- The parts of a formatted number, from left to right. -/
structure NumberParts where
  leftSpaces : ℕ
  sign : List Byte
  base : List Byte
  zeroFill : ℕ
  precisionZeros : ℕ
  digits : List Byte
  rightSpaces : ℕ

def NumberParts.text (p : NumberParts) : List Byte :=
  List.replicate p.leftSpaces (chr ' ') ++ p.sign ++ p.base ++
    List.replicate p.zeroFill (chr '0') ++ List.replicate p.precisionZeros (chr '0') ++
    p.digits ++ List.replicate p.rightSpaces (chr ' ')

/-- The parts of `v`: the width that is left over goes right with `LEFT`, between the prefix
    and the digits with `ZEROPAD`, and left otherwise. -/
def numberParts (v : ℤ) (base : ℕ) (size precision : ℤ) (type : BitVec 32) : NumberParts :=
  let digits := Numeral.render (digitChar type) base v.natAbs
  let zeros := (precision - digits.length).toNat
  let text := (signText type v).length + (baseText type base).length + zeros + digits.length
  let pad := (size - text).toNat
  { leftSpaces := if has type left || has type zeropad then 0 else pad
    sign := signText type v
    base := baseText type base
    zeroFill := if !has type left && has type zeropad then pad else 0
    precisionZeros := zeros
    digits := digits
    rightSpaces := if has type left then pad else 0 }

/-! ## Flags -/

variable {type : BitVec 32}

theorem has_iff (type flag : BitVec 32) : has type flag ↔ type &&& flag ≠ 0#32 := by
  simp [has]

/-- `type &= ~ZEROPAD` leaves the other flags. -/
theorem has_clear (type : BitVec 32) {flag : BitVec 32} (h : ~~~zeropad &&& flag = flag) :
    has (type &&& ~~~zeropad) flag = has type flag := by
  unfold has
  rw [BitVec.and_assoc, h]

theorem has_clear_zeropad (type : BitVec 32) : has (type &&& ~~~zeropad) zeropad = false := by
  unfold has
  rw [BitVec.and_assoc, show ~~~zeropad &&& zeropad = 0#32 by decide]
  simp

/-- The test for `ZEROPAD + LEFT`. -/
theorem has_zeropad_left (type : BitVec 32) :
    has type (zeropad + left) = (has type zeropad || has type left) := by
  have hsum : zeropad + left = zeropad ||| left := by decide
  rw [Bool.eq_iff_iff, Bool.or_eq_true, has_iff, has_iff, has_iff, hsum]
  have hdistrib : type &&& (zeropad ||| left) = (type &&& zeropad) ||| (type &&& left) := by
    ext i
    simp [Bool.and_or_distrib_left]
  rw [hdistrib, ← not_and_or, not_iff_not]
  exact BitVec.or_eq_zero_iff

/-! ## The padding -/

variable {c : Byte} {fuel : ℕ}

/-- `while (n-- > 0) *str++ = c;`. -/
theorem padLoop_zero (hfuel : loopFuel ≤ fuel) {n : BitVec 32} (h : -2 ^ 31 < n.toInt) :
    ∃ n', padLoop c 0#32 fuel n = some (List.replicate n.toInt.toNat c, n') ∧
      n'.toInt = min n.toInt 0 - 1 := by
  have hzero : (0#32).toInt = 0 := by decide
  have hrange := toInt_range n
  unfold loopFuel at hfuel
  have hend := toInt_smaller 0#32 n
  rw [hzero] at hend
  refine ⟨(if (0#32).slt n then 0#32 else n) - 1#32, ?_, ?_⟩
  · rw [padLoop_eq (by omega), hzero, Int.sub_zero]
  · rw [toInt_sub_one (by omega), hend, min_comm]

/-- The loop at a counter that has run out. -/
theorem padLoop_done (hfuel : loopFuel ≤ fuel) {n : BitVec 32} (h : -2 ^ 31 < n.toInt)
    (hn : n.toInt ≤ 0) :
    ∃ n', padLoop c 0#32 fuel n = some ([], n') ∧ n'.toInt = n.toInt - 1 := by
  obtain ⟨n', hrun, hn'⟩ := padLoop_zero (c := c) hfuel h
  refine ⟨n', ?_, by omega⟩
  rw [hrun, show n.toInt.toNat = 0 by omega]
  rfl

/-- How many of the padding loops test and decrement `size`. -/
def padLoops (type : BitVec 32) : ℤ :=
  if has type left then 1 else if has type zeropad then 2 else 3

/-- **The padding.** With `size` what is left of the width behind the sign and the prefix: the
    same three loops store the padding on the one side or the other, as long as none of them
    decrements `size` below the smallest `int`. -/
theorem numberTail_eq (hfuel : loopFuel ≤ fuel) (signChar baseChars : List Byte) {tmp : List Byte}
    {size precision : BitVec 32} (htmp : tmp.length < 2 ^ 20) (hsize : size.toInt ≤ 2 ^ 30)
    (hprec : precision.toInt ≤ 2 ^ 30)
    (hroom : -2 ^ 31 ≤ size.toInt - max precision.toInt tmp.length - padLoops type) :
    let zeros := (precision.toInt - tmp.length).toNat
    let pad := (size.toInt - (zeros + tmp.length : ℕ)).toNat
    numberTail fuel type c signChar baseChars tmp size precision = some
      ⟨List.replicate (if has type left || has type zeropad then 0 else pad) (chr ' ') ++
        signChar ++ baseChars ++
        List.replicate (if !has type left && has type zeropad then pad else 0) c ++
        List.replicate zeros (chr '0') ++ tmp.reverse ++
        List.replicate (if has type left then pad else 0) (chr ' '), tmp⟩ := by
  intro zeros pad
  have hi : (BitVec.ofNat 32 tmp.length).toInt = tmp.length := toInt_ofNat_eq (by omega)
  -- the larger of the two counts, and what it leaves of the width
  obtain ⟨most, hmost, hmost'⟩ : ∃ most : BitVec 32,
      (if precision.slt (BitVec.ofNat 32 tmp.length) then BitVec.ofNat 32 tmp.length
        else precision) = most ∧ most.toInt = (zeros + tmp.length : ℕ) := by
    refine ⟨_, rfl, ?_⟩
    rw [toInt_larger, hi]
    omega
  have hloops : 1 ≤ padLoops type := by
    unfold padLoops
    split_ifs <;> decide
  have hleft : (size - most).toInt = size.toInt - (zeros + tmp.length : ℕ) := by
    rw [toInt_sub_of_le (by omega) (by omega), hmost']
  have hzeros : padLoop (chr '0') (BitVec.ofNat 32 tmp.length) fuel most =
      some (List.replicate zeros (chr '0'),
        (if (BitVec.ofNat 32 tmp.length).slt most then BitVec.ofNat 32 tmp.length else most) -
          1#32) := by
    unfold loopFuel at hfuel
    have hzeros : (most.toInt - (BitVec.ofNat 32 tmp.length).toInt).toNat = zeros := by omega
    rw [padLoop_eq (by omega), hzeros]
  have hpad : (size - most).toInt.toNat = pad := by rw [hleft]
  simp only [numberTail, hmost, hzeros, copyLoop_eq tmp (le_refl _), List.take_length,
    has_zeropad_left, Option.bind_eq_bind, Option.pure_def, Option.bind_some]
  generalize size - most = rem at hleft hpad
  have hrem : -2 ^ 31 + padLoops type ≤ rem.toInt := by omega
  unfold padLoops at hrem
  cases hl : has type left with
  | true =>
      -- to the right
      rw [hl, if_pos rfl] at hrem
      obtain ⟨n', hrun, -⟩ := padLoop_zero (c := chr ' ') hfuel (n := rem) (by omega)
      simp [padUnless, hrun, hpad]
  | false =>
      rw [hl, if_neg Bool.false_ne_true] at hrem
      cases hz : has type zeropad with
      | true =>
          -- between the prefix and the digits
          rw [hz, if_pos rfl] at hrem
          obtain ⟨n', hrun, hn'⟩ := padLoop_zero (c := c) hfuel (n := rem) (by omega)
          obtain ⟨n'', hrest, -⟩ := padLoop_done (c := chr ' ') hfuel (n := n') (by omega)
            (by omega)
          simp [padUnless, hrun, hrest, hpad]
      | false =>
          -- to the left
          rw [hz, if_neg Bool.false_ne_true] at hrem
          obtain ⟨n', hrun, hn'⟩ := padLoop_zero (c := chr ' ') hfuel (n := rem) (by omega)
          obtain ⟨n'', hfill, hn''⟩ := padLoop_done (c := c) hfuel (n := n') (by omega) (by omega)
          obtain ⟨n₃, hrest, -⟩ := padLoop_done (c := chr ' ') hfuel (n := n'') (by omega)
            (by omega)
          simp [padUnless, hrun, hfill, hrest, hpad]

/-! ## The digits -/

theorem digitChar_zero (type : BitVec 32) : digitChar type 0 = chr '0' := by
  unfold digitChar digitChars
  split <;> rfl

/-- `digits[33]`. -/
theorem digitChars_x (type : BitVec 32) :
    (digitChars type).getD 33 0#8 = if has type small then chr 'x' else chr 'X' := by
  unfold digitChars
  split <;> rfl

theorem digitValue_digitChar (type : BitVec 32) :
    ∀ d < 36, digitValue (digitChar type d) = some d := by
  unfold digitChar digitChars
  split <;> decide

/-- The test for a negative number. -/
theorem negative_eq (type : BitVec 32) (num : BitVec 64) :
    (has type sign && num.slt 0#64) = decide (numValue type num < 0) := by
  have hzero : (0#64).toInt = 0 := by decide
  unfold numValue
  cases has type sign with
  | true => rw [Bool.true_and, BitVec.slt_eq_decide, hzero, if_pos rfl]
  | false =>
      rw [Bool.false_and, if_neg Bool.false_ne_true, eq_comm, decide_eq_false_iff_not]
      omega

/-- `num = -num` if it is negative: its absolute value, also for the smallest number. -/
theorem abs_toNat (type : BitVec 32) (num : BitVec 64) :
    (if numValue type num < 0 then -num else num).toNat = (numValue type num).natAbs := by
  have hlt := num.isLt
  have hint : num.toInt = if 2 * num.toNat < 2 ^ 64 then (num.toNat : ℤ)
      else (num.toNat : ℤ) - (2 ^ 64 : ℕ) := BitVec.toInt_eq_toNat_cond num
  unfold numValue
  cases has type sign with
  | true =>
      rw [if_pos rfl]
      split
      · rw [BitVec.toNat_neg]
        split at hint <;> omega
      · split at hint <;> omega
  | false =>
      rw [if_neg Bool.false_ne_true, if_neg (by omega)]
      omega

/-- What `number` stores to `tmp`. -/
theorem numberTmp_eq (type : BitVec 32) {base : ℕ} (hbase : 1 < base) (hbase' : base < 2 ^ 64)
    (hfuel : loopFuel ≤ fuel) (num : BitVec 64) :
    numberTmp fuel (digitChars type) base num =
      some (Numeral.render (digitChar type) base num.toNat).reverse := by
  unfold numberTmp Numeral.render
  by_cases hzero : num = 0#64
  · rw [if_pos hzero, hzero, if_pos (show (0#64).toNat = 0 from rfl), digitChar_zero]
    rfl
  · have hne : num.toNat ≠ 0 := fun h => hzero (BitVec.eq_of_toNat_eq h)
    obtain ⟨k, rfl⟩ : ∃ k, fuel = k + 1 := ⟨fuel - 1, by unfold loopFuel at hfuel; omega⟩
    have hbits : num.toNat < 2 ^ k := num.isLt.trans_le
      (Nat.pow_le_pow_right (by decide) (by unfold loopFuel at hfuel; omega))
    rw [if_neg hzero, if_neg hne, digitsLoop_eq _ hbase hbase' hbits, List.reverse_reverse]
    rfl

theorem signText_length_le (type : BitVec 32) (v : ℤ) : (signText type v).length ≤ 1 := by
  unfold signText
  split_ifs <;> decide

theorem baseText_length (type : BitVec 32) (base : ℕ) : (baseText type base).length =
    if has type special then if base = 16 then 2 else if base = 8 then 1 else 0 else 0 := by
  unfold baseText
  by_cases h16 : base = 16
  · rw [if_neg (show ¬ base = 8 by omega), if_pos h16, if_pos h16]
    split_ifs <;> rfl
  · rw [if_neg h16, if_neg h16]
    split_ifs <;> rfl

/-- The width without the sign and the prefix. -/
theorem sizeLeft_toInt (type : BitVec 32) (v : ℤ) (base : ℕ) {size : BitVec 32}
    (hsize : -2 ^ 30 < size.toInt) :
    (sizeLeft type base (signText type v) size).toInt =
      size.toInt - (signText type v).length - (baseText type base).length := by
  have hone : (1#32).toInt = 1 := by decide
  have htwo : (2#32).toInt = 2 := by decide
  have hrange := toInt_range size
  have hsign : (if signText type v = [] then size else size - 1#32).toInt =
      size.toInt - (signText type v).length := by
    have hle := signText_length_le type v
    split
    · next hnil => rw [hnil, List.length_nil, Nat.cast_zero, Int.sub_zero]
    · next hne =>
        have hpos := List.length_pos_of_ne_nil hne
        rw [toInt_sub_one (by omega)]
        omega
  have hle := signText_length_le type v
  unfold sizeLeft
  dsimp only
  generalize (if signText type v = [] then size else size - 1#32) = size' at hsign
  rw [baseText_length]
  split_ifs
  · rw [toInt_sub_of_le (by omega) (by omega), htwo, hsign]
    rfl
  · rw [toInt_sub_one (by omega), hsign]
    rfl
  · rw [hsign, Nat.cast_zero, Int.sub_zero]
  · rw [hsign, Nat.cast_zero, Int.sub_zero]

/-! ## `number` -/

/-- The tests and decrements of `size` behind the digits stay in the range of an `int`. -/
def SizeInRange (type : BitVec 32) (p : NumberParts) (size precision : ℤ) : Prop :=
  -2 ^ 31 ≤ size - p.sign.length - p.base.length - max precision p.digits.length - padLoops type

/-- The length of the text. -/
theorem numberParts_length (v : ℤ) (base : ℕ) (size precision : ℤ) (type : BitVec 32) :
    let p := numberParts v base size precision type
    (p.text.length : ℤ) =
      max size (p.sign.length + p.base.length + max precision p.digits.length) := by
  intro p
  have hpads : p.leftSpaces + p.zeroFill + p.rightSpaces =
      (size - ((p.sign.length + p.base.length + p.precisionZeros + p.digits.length : ℕ) :
        ℤ)).toNat := by
    change (if _ then 0 else _) + (if _ then _ else 0) + (if _ then _ else 0) = _
    cases has type left <;> cases has type zeropad <;> simp [p, numberParts]
  have hzeros : p.precisionZeros = (precision - p.digits.length).toNat := rfl
  unfold NumberParts.text
  simp only [List.length_append, List.length_replicate]
  omega

/-- `number` up to its padding: the flags behind `type &= ~ZEROPAD`, and the sign, the prefix and
    the digits that stand before it. -/
theorem number_tail (num : BitVec 64) {base : ℕ} (hone : 1 < base) (hlt : base < 2 ^ 64)
    (size precision type : BitVec 32) (hfuel : loopFuel ≤ fuel) :
    ∃ type', (∀ flag, ~~~zeropad &&& flag = flag → has type' flag = has type flag) ∧
      has type' zeropad = (!has type left && has type zeropad) ∧
      number fuel num base size precision type =
        numberTail fuel type' (if has type' zeropad then chr '0' else chr ' ')
          (signText type (numValue type num)) (baseText type base)
          (Numeral.render (digitChar type) base (numValue type num).natAbs).reverse
          (sizeLeft type base (signText type (numValue type num)) size) precision := by
  obtain ⟨type', htype', hflags, hzeropad⟩ : ∃ type',
      (if has type left then type &&& ~~~zeropad else type) = type' ∧
      (∀ flag, ~~~zeropad &&& flag = flag → has type' flag = has type flag) ∧
      has type' zeropad = (!has type left && has type zeropad) := by
    refine ⟨_, rfl, fun flag hflag => ?_, ?_⟩
    · split
      · exact has_clear type hflag
      · rfl
    · split
      · next h => rw [has_clear_zeropad, h, Bool.not_true, Bool.false_and]
      · next h => rw [Bool.not_eq_true] at h; rw [h, Bool.not_false, Bool.true_and]
  refine ⟨type', hflags, hzeropad, ?_⟩
  set v := numValue type num with hv
  have hneg : (has type' sign && num.slt 0#64) = decide (v < 0) := by
    rw [hflags sign (by decide), negative_eq]
  have habs : (if v < 0 then -num else num).toNat = v.natAbs := abs_toNat type num
  have hsign : (if v < 0 then [chr '-'] else if has type' plus then [chr '+']
      else if has type' space then [chr ' '] else []) = signText type v := by
    rw [hflags plus (by decide), hflags space (by decide)]
    rfl
  have htmp := numberTmp_eq type hone hlt hfuel (if v < 0 then -num else num)
  rw [habs] at htmp
  have hsize' : sizeLeft type' base (signText type v) size =
      sizeLeft type base (signText type v) size := by
    unfold sizeLeft
    rw [hflags special (by decide)]
  have hbaseText : (if has type' special then
      if base = 8 then [chr '0']
      else if base = 16 then [chr '0', (digitChars type).getD 33 0#8] else []
    else []) = baseText type base := by
    rw [hflags special (by decide), digitChars_x]
    rfl
  unfold number
  simp only [htype', hneg, decide_eq_true_eq, hsign, hbaseText, hsize', htmp, Option.bind_eq_bind,
    Option.bind_some]

/-- `tmp` holds no more than 64 digits. -/
theorem digits_length_le (num : BitVec 64) {base : ℕ} (hone : 1 < base) (type : BitVec 32) :
    (Numeral.render (digitChar type) base (numValue type num).natAbs).length ≤ 64 :=
  Numeral.render_length_le _ hone (by decide) (by
    rw [← abs_toNat]
    exact (BitVec.isLt _).trans_le (Nat.pow_le_pow_left hone 64))

/-- The loops that pad do not depend on `type &= ~ZEROPAD`. -/
theorem padLoops_congr {type' : BitVec 32} (hleft : has type' left = has type left)
    (hzeropad : has type' zeropad = (!has type left && has type zeropad)) :
    padLoops type' = padLoops type := by
  unfold padLoops
  rw [hleft, hzeropad]
  cases has type left <;> rfl

/-- `number`, part by part. -/
theorem number_eq (num : BitVec 64) {base : ℕ} (hbase : base = 8 ∨ base = 10 ∨ base = 16)
    {size precision : BitVec 32} (hsize : |size.toInt| < 2 ^ 30)
    (hprec : |precision.toInt| < 2 ^ 30)
    (type : BitVec 32) (hroom : SizeInRange type
      (numberParts (numValue type num) base size.toInt precision.toInt type) size.toInt
      precision.toInt) (hfuel : loopFuel ≤ fuel) :
    number fuel num base size precision type = some
      ⟨(numberParts (numValue type num) base size.toInt precision.toInt type).text,
        (Numeral.render (digitChar type) base (numValue type num).natAbs).reverse⟩ := by
  rw [abs_lt] at hsize hprec
  have hone : 1 < base := by omega
  obtain ⟨type', hflags, hzeropad, hrun⟩ :=
    number_tail num hone (by omega) size precision type hfuel
  have hleft := hflags left (by decide)
  have hlength := digits_length_le num hone type
  set v := numValue type num
  have hleftSize : (sizeLeft type base (signText type v) size).toInt = _ :=
    sizeLeft_toInt type v base (by omega)
  rw [hrun, numberTail_eq hfuel _ _ (by rw [List.length_reverse]; omega) (by rw [hleftSize]; omega)
    (by omega) (by
      rw [hleftSize, padLoops_congr hleft hzeropad, List.length_reverse]
      exact hroom)]
  -- the same padding, counted from the whole width
  have hpad : ∀ zeros digits : ℕ, (size.toInt - (signText type v).length -
      (baseText type base).length - ((zeros + digits : ℕ) : ℤ)).toNat =
      (size.toInt - (((signText type v).length + (baseText type base).length + zeros + digits : ℕ) :
        ℤ)).toNat := fun zeros digits => by omega
  rw [hleftSize, hpad, hleft, hzeropad, List.length_reverse, List.reverse_reverse]
  unfold numberParts NumberParts.text
  dsimp only
  cases has type left <;> cases has type zeropad <;> rfl

/-- **Integer formatting.** For every number, base 8, 10 or 16, all flags and every width and
    precision below 2^30 in absolute value for which the counter `size` stays an `int`: `number`
    returns, and stores the parts one after another. The digits read back as the absolute value,
    have no leading zero and leave `tmp[50]` room; the length is the larger of the width and
    what the parts need. -/
theorem number_parts (num : BitVec 64) {base : ℕ} (hbase : base = 8 ∨ base = 10 ∨ base = 16)
    {size precision : BitVec 32} (hsize : |size.toInt| < 2 ^ 30)
    (hprec : |precision.toInt| < 2 ^ 30)
    (type : BitVec 32) (hroom : SizeInRange type
      (numberParts (numValue type num) base size.toInt precision.toInt type) size.toInt
      precision.toInt) {fuel : ℕ} (hfuel : loopFuel ≤ fuel) :
    let v := numValue type num
    let p := numberParts v base size.toInt precision.toInt type
    ∃ r, number fuel num base size precision type = some r ∧ r.str = p.text ∧
      (r.str.length : ℤ) =
        max size.toInt (p.sign.length + p.base.length + max precision.toInt p.digits.length) ∧
      Numeral.parse digitValue base p.digits = some v.natAbs ∧
      (p.digits.head? = some (chr '0') → p.digits = [chr '0']) ∧
      r.tmp = p.digits.reverse ∧ r.tmp.length ≤ 50 := by
  intro v p
  have hone : 1 < base := by omega
  have hval : ∀ d < base, digitValue (digitChar type d) = some d := fun d hd =>
    digitValue_digitChar type d (by omega)
  have hdigits : p.digits = Numeral.render (digitChar type) base v.natAbs := rfl
  refine ⟨_, number_eq num hbase hsize hprec type hroom hfuel, rfl,
    numberParts_length v base size.toInt precision.toInt type, ?_, ?_, rfl, ?_⟩
  · rw [hdigits]
    exact Numeral.parse_render hone hval v.natAbs
  · intro hhead
    rw [hdigits] at hhead ⊢
    by_cases hzero : v.natAbs = 0
    · rw [hzero, Numeral.render, if_pos rfl, digitChar_zero]
    · -- the first digit is not zero
      obtain ⟨d, l, hpos, hlt, hrender⟩ := Numeral.render_head (digitChar type) hone hzero
      rw [hrender, List.head?_cons, Option.some.injEq] at hhead
      have hd := hval d hlt
      rw [hhead, ← digitChar_zero type, hval 0 (by omega), Option.some.injEq] at hd
      omega
  · rw [List.length_reverse]
    have hbits : v.natAbs < base ^ 22 := by
      rw [← abs_toNat]
      exact (BitVec.isLt _).trans_le (le_trans (by decide) (Nat.pow_le_pow_left
        (show 8 ≤ base by omega) 22))
    exact (Numeral.render_length_le _ hone (by decide) hbits).trans (by decide)

/-- The smallest number in base 10, with a width of 24 and zeros. -/
theorem number_parts_min :
    ∃ r, number loopFuel (BitVec.intMin 64) 10 24#32 (-1#32) (sign ||| zeropad) = some r ∧
      r.tmp.length ≤ 50 := by
  obtain ⟨r, hrun, -, -, -, -, -, hlen⟩ := number_parts (BitVec.intMin 64)
    (show 10 = 8 ∨ 10 = 10 ∨ 10 = 16 by decide) (show |(24#32).toInt| < 2 ^ 30 by decide)
    (show |(-1#32).toInt| < 2 ^ 30 by decide)
    (sign ||| zeropad) (by unfold SizeInRange; decide +kernel) (le_refl loopFuel)
  exact ⟨r, hrun, hlen⟩

/-- With a width of 1 - 2^30, a precision of 2^30 - 1, a sign and a prefix, `size` falls below
    the smallest `int` and comes back as the largest: that many spaces are stored. -/
theorem number_not_parts : ¬ ∀ (num : BitVec 64) (base : ℕ) (size precision type : BitVec 32),
    (base = 8 ∨ base = 10 ∨ base = 16) → |size.toInt| < 2 ^ 30 → |precision.toInt| < 2 ^ 30 →
      ∃ r, number loopFuel num base size precision type = some r ∧
        r.str = (numberParts (numValue type num) base size.toInt precision.toInt type).text := by
  intro h
  obtain ⟨r, hrun, hstr⟩ := h 0#64 16 (1#32 - 0x40000000#32) 0x3fffffff#32 (plus ||| special)
    (Or.inr (Or.inr rfl)) (by decide) (by decide)
  have hlen : (r.str.length : ℤ) = 0x40000002 := by
    rw [hstr]
    exact (numberParts_length _ 16 _ _ _).trans (by decide +kernel)
  -- the counter behind the sign, the prefix and the precision
  have hspaces : ((0x7fffffff#32).toInt - (0#32).toInt).toNat = 0x7fffffff := by decide
  have hpad : padLoop (chr ' ') 0#32 loopFuel 0x7fffffff#32 = _ :=
    padLoop_eq (by unfold loopFuel; omega)
  have htail : ∀ fuel, number fuel 0#64 16 (1#32 - 0x40000000#32) 0x3fffffff#32
      (plus ||| special) =
      (padLoop (chr ' ') 0#32 fuel 0x7fffffff#32).bind fun pad =>
        (padLoop (chr ' ') 0#32 fuel pad.2).bind fun fill =>
          (padLoop (chr '0') 1#32 fuel 0x3fffffff#32).bind fun zeros =>
            (padLoop (chr ' ') 0#32 fuel fill.2).bind fun rest =>
              some ⟨pad.1 ++ [chr '+'] ++ [chr '0', chr 'X'] ++ fill.1 ++ zeros.1 ++ [chr '0'] ++
                rest.1, [chr '0']⟩ := fun _ => rfl
  rw [htail, hpad, Option.bind_some] at hrun
  obtain ⟨fill, -, hrun⟩ := Option.bind_eq_some_iff.mp hrun
  obtain ⟨zeros, -, hrun⟩ := Option.bind_eq_some_iff.mp hrun
  obtain ⟨rest, -, hrun⟩ := Option.bind_eq_some_iff.mp hrun
  rw [← Option.some.inj hrun] at hlen
  simp only [List.length_append, List.length_replicate] at hlen
  omega

end HelloOS.Printk.Format
