/-
  The buffer of `_printf` (`kernel/printk/printk.c`): nothing in `vsprintf` or `number` knows
  its size. How much they store is found from the format and the arguments alone
  (`formatLength`), for all widths and precisions an `int` can hold: a counter that falls below
  the smallest `int` comes back as the largest, and stores that many blanks.
-/
import HelloOS.Printk.Number
import HelloOS.Printk.Robust

namespace HelloOS.Printk.Format

open HelloOS.Lib

/-! ## How long an output is -/

/-- `n`, as an `int` holds it. -/
def toInt32 (n : ℤ) : ℤ := (BitVec.ofInt 32 n).toInt

/-- What the loop `while (n-- > 0)` stores behind a decrement of the smallest `int`. -/
def underrun (n : ℤ) : ℕ := if n < -0x80000000 then 0x7fffffff else 0

/-- An integer: the sign, the prefix, and the digits or the precision, and what `room` the width
    leaves for padding. -/
def numberLength (v : ℤ) (base : ℕ) (size precision : ℤ) (type : BitVec 32) : ℕ :=
  let digits := (Numeral.render (digitChar type) base v.natAbs).length
  let need := (signText type v).length + (baseText type base).length + max precision.toNat digits
  let room := toInt32 (size - need)
  need + room.toNat + underrun (room + 1 - padLoops type)

/-- A character: the width, but one at least. -/
def charLength (toLeft : Bool) (width : ℤ) : ℕ :=
  1 + (width - 1).toNat + underrun (width - if toLeft then 1 else 2)

/-- A string of which `len` characters are stored: the width, but `len` at least. -/
def stringLength (toLeft : Bool) (width len : ℤ) : ℕ :=
  len.toNat + (width - len).toNat +
    if !toLeft ∧ min width len < -0x7fffffff then (0x7fffffff - len).toNat else 0

/-- How many characters of a string `%s` stores. -/
def shownLength (d : Spec) (len : BitVec 32) : BitVec 32 :=
  if d.precisionInt.slt 0#32 then len else if d.precisionInt.slt len then d.precisionInt else len

/-- A state in which `k` arguments have been read and nothing has been stored. -/
def readOf (k : ℕ) : State := ⟨[], k, []⟩

/-- A pointer: 16 digits if no width is given. -/
def pointerLength (va : VaList) (d : Spec) (k : ℕ) : ℕ :=
  if d.widthInt = -1#32 then
    numberLength (numValue (d.flags ||| zeropad) (va.word k)) 16 16 d.precisionInt.toInt
      (d.flags ||| zeropad)
  else numberLength (numValue d.flags (va.word k)) 16 d.widthInt.toInt d.precisionInt.toInt d.flags

/-- What a conversion other than the terminator stores, with `k` arguments read before it. -/
def conversionLength (va : VaList) (d : Spec) (k : ℕ) (c : Byte) : ℕ :=
  let width := d.widthInt.toInt
  let number base flags := numberLength (numValue flags (numberArg va d (readOf k))) base width
    d.precisionInt.toInt flags
  if c = chr 'c' then charLength (has d.flags left) width
  else if c = chr 's' then
    stringLength (has d.flags left) width (shownLength d (strlen va.mem (va.word k))).toInt
  else if c = chr 'o' then number 8 d.flags
  else if c = chr 'p' then pointerLength va d k
  else if c = chr 'x' then number 16 (d.flags ||| small)
  else if c = chr 'X' then number 16 d.flags
  else if c = chr 'd' ∨ c = chr 'i' then number 10 (d.flags ||| sign)
  else if c = chr 'u' then number 10 d.flags
  else if c = chr 'n' then 0
  else if c = chr '%' then 1
  else 2

/-- How many arguments a conversion reads. -/
def conversionArgs (c : Byte) : ℕ := if isConversion c ∧ c ≠ chr '%' then 1 else 0

/-- What a format stores, from an argument on. A `%` at the end stores itself. -/
def outputLength (va : VaList) : ℕ → List Byte → ℕ → ℕ
  | 0, _, _ => 0
  | _ + 1, [], _ => 0
  | rounds + 1, c :: fmt, k =>
    if c = 0#8 then 0
    else if c = chr '%' then
      match parseSpec va (readOf k) fmt with
      | some (d, s, c :: fmt) =>
        if c = 0#8 then 1
        else conversionLength va d s.args c +
          outputLength va rounds fmt (s.args + conversionArgs c)
      | _ => 0
    else 1 + outputLength va rounds fmt k

/-- What a format stores in front of the NUL. -/
def formatLength (va : VaList) (fmt : List Byte) : ℕ := outputLength va fmt.length fmt 0

/-! ## Padding -/

variable {c : Byte} {fuel : ℕ} {va : VaList} {s s' : State}

/-- `n--` on an `int`. -/
theorem toInt_pred (n : BitVec 32) :
    (n - 1#32).toInt = if n.toInt = -0x80000000 then 0x7fffffff else n.toInt - 1 := by
  have hrange := toInt_range n
  split
  · next hmin =>
      rw [show n = BitVec.intMin 32 from BitVec.eq_of_toInt_eq (by rw [hmin]; decide)]
      decide
  · exact toInt_sub_one (by omega)

/-- What a padding loop stores, and the counter behind it. -/
theorem padLoop_length (hfuel : loopFuel ≤ fuel) {lo n : BitVec 32} {r : List Byte × BitVec 32}
    (h : padLoop c lo fuel n = some r) : r.1.length = (n.toInt - lo.toInt).toNat ∧
      r.2.toInt = if min n.toInt lo.toInt = -0x80000000 then 0x7fffffff
        else min n.toInt lo.toInt - 1 := by
  have hn := toInt_range n
  have hlo := toInt_range lo
  unfold loopFuel at hfuel
  rw [padLoop_eq (by omega), Option.some.injEq] at h
  rw [← h, min_comm, ← toInt_smaller lo n]
  exact ⟨List.length_replicate, toInt_pred _⟩

/-- The same where the flags may skip the loop. -/
theorem padUnless_length (hfuel : loopFuel ≤ fuel) {skip : Bool} {lo n : BitVec 32}
    {r : List Byte × BitVec 32} (h : padUnless skip c lo fuel n = some r) :
    r.1.length = (if skip then 0 else (n.toInt - lo.toInt).toNat) ∧
      r.2.toInt = if skip then n.toInt else
        if min n.toInt lo.toInt = -0x80000000 then 0x7fffffff else min n.toInt lo.toInt - 1 := by
  cases skip with
  | true =>
      rw [← Option.some.inj h]
      exact ⟨rfl, rfl⟩
  | false => exact padLoop_length hfuel h

/-- The same behind `while (--n > 0)`. -/
theorem padBeforeLoop_length (hfuel : loopFuel ≤ fuel) {n : BitVec 32} {r : List Byte × BitVec 32}
    (h : padBeforeLoop fuel n = some r) : r.1.length = (n - 1#32).toInt.toNat ∧
      r.2.toInt = min (n - 1#32).toInt 0 := by
  have hzero : (0#32).toInt = 0 := by decide
  have hn := toInt_range (n - 1#32)
  unfold loopFuel at hfuel
  rw [padBeforeLoop_eq (by omega), Option.some.injEq] at h
  rw [← h]
  exact ⟨List.length_replicate, by rw [toInt_smaller, hzero, min_comm]⟩

/-- A counter that has run out, behind two more of the loops. -/
theorem counter_underrun {room n n' : ℤ} (hlo : -2 ^ 31 ≤ room) (hhi : room < 2 ^ 31)
    (hn : n = if min room 0 = -0x80000000 then 0x7fffffff else min room 0 - 1)
    (hn' : n' = if min n 0 = -0x80000000 then 0x7fffffff else min n 0 - 1) :
    n.toNat + n'.toNat = if room + 1 - 3 < -0x80000000 then 0x7fffffff else 0 := by
  split_ifs at hn hn' ⊢ <;> omega

/-- The padding loops of `number` share one counter: what they store together. -/
theorem numberTail_length (hfuel : loopFuel ≤ fuel) {type : BitVec 32}
    {signChar baseChars tmp : List Byte} {size precision : BitVec 32} {r : Numbered}
    (htmp : tmp.length < 2 ^ 20)
    (h : numberTail fuel type c signChar baseChars tmp size precision = some r) {most : ℕ}
    {room : ℤ}
    (hmax : max precision.toInt.toNat tmp.length = most)
    (hrem : (size - BitVec.ofNat 32 most).toInt = room) :
    r.str.length = signChar.length + baseChars.length + most + room.toNat +
      underrun (room + 1 - padLoops type) := by
  have hzero : (0#32).toInt = 0 := by decide
  have hi : (BitVec.ofNat 32 tmp.length).toInt = tmp.length := toInt_ofNat_eq (by omega)
  have hprec := toInt_range precision
  have hmost' : (BitVec.ofNat 32 most).toInt = most := toInt_ofNat_eq (by omega)
  have hmost : (if precision.slt (BitVec.ofNat 32 tmp.length) then BitVec.ofNat 32 tmp.length
      else precision) = BitVec.ofNat 32 most := by
    refine BitVec.eq_of_toInt_eq ?_
    rw [hmost', toInt_larger, hi]
    omega
  simp only [numberTail, hmost, copyLoop_eq tmp (le_refl _), List.take_length, has_zeropad_left,
    Option.bind_eq_bind, Option.pure_def] at h
  obtain ⟨pad, hpad, h⟩ := Option.bind_eq_some_iff.mp h
  obtain ⟨fill, hfill, h⟩ := Option.bind_eq_some_iff.mp h
  obtain ⟨zeros, hzeros, h⟩ := Option.bind_eq_some_iff.mp h
  obtain ⟨rest, hrest, h⟩ := Option.bind_eq_some_iff.mp h
  obtain ⟨hz, -⟩ := padLoop_length hfuel hzeros
  obtain ⟨hr, -⟩ := padLoop_length hfuel hrest
  rw [← Option.some.inj h]
  simp only [List.length_append, List.length_reverse]
  rw [hmost', hi] at hz
  rw [hzero, Int.sub_zero] at hr
  have hroom : -2 ^ 31 ≤ room ∧ room < 2 ^ 31 := hrem ▸ toInt_range _
  obtain ⟨hp, hp'⟩ := padUnless_length hfuel hpad
  obtain ⟨hf, hf'⟩ := padUnless_length hfuel hfill
  rw [hzero, Int.sub_zero] at hp hf
  rw [hzero] at hp' hf'
  rw [hrem] at hp hp'
  rw [hp, hf, hz, hr]
  clear hp hf hz hr hpad hfill hzeros hrest hmost hmost' hi
  generalize pad.2.toInt = n at hp' hf' ⊢
  generalize fill.2.toInt = n' at hf' ⊢
  -- which of the three loops run
  unfold padLoops underrun
  generalize has type left = toLeft at hp' hf' ⊢
  generalize has type zeropad = withZeros at hp' hf' ⊢
  cases toLeft with
  | true =>
      simp only [Bool.or_true, if_pos] at hp' hf' ⊢
      subst hp' hf'
      rw [if_neg (by omega)]
      omega
  | false =>
      cases withZeros with
      | true =>
          simp only [Bool.or_false, if_pos, if_neg Bool.false_ne_true] at hp' hf' ⊢
          subst hp'
          split_ifs at hf' ⊢ <;> omega
      | false =>
          simp only [Bool.or_false, if_neg Bool.false_ne_true] at hp' hf' ⊢
          have hcount := counter_underrun hroom.1 hroom.2 hp' hf'
          omega

/-! ## Conversions -/

/-- What is left of the width behind the sign and the prefix, for every width. -/
theorem sizeLeft_eq (type : BitVec 32) (v : ℤ) (base : ℕ) (size : BitVec 32) :
    sizeLeft type base (signText type v) size =
      size - BitVec.ofNat 32 ((signText type v).length + (baseText type base).length) := by
  have hsign : (if signText type v = [] then size else size - 1#32) =
      size - BitVec.ofNat 32 (signText type v).length := by
    split
    · next hnil => rw [hnil, List.length_nil, BitVec.sub_zero]
    · next hne =>
        have hpos := List.length_pos_of_ne_nil hne
        have hle := signText_length_le type v
        rw [show (signText type v).length = 1 by omega]
  unfold sizeLeft
  dsimp only
  rw [hsign, baseText_length, BitVec.ofNat_add, ← BitVec.sub_sub]
  split_ifs
  · rfl
  · rfl
  · rw [BitVec.sub_zero]
  · rw [BitVec.sub_zero]

theorem toInt32_sub (size : BitVec 32) (n : ℕ) :
    toInt32 (size.toInt - n) = (size - BitVec.ofNat 32 n).toInt := by
  rw [toInt32, Int.sub_eq_add_neg, BitVec.ofInt_add, BitVec.ofInt_toInt, BitVec.ofInt_neg,
    BitVec.ofInt_natCast, ← BitVec.sub_eq_add_neg]

/-- `number`, for every width and precision. -/
theorem number_length (hfuel : loopFuel ≤ fuel) {num : BitVec 64} {base : ℕ} (hone : 1 < base)
    (hlt : base < 2 ^ 64) {size precision type : BitVec 32} {r : Numbered}
    (h : number fuel num base size precision type = some r) :
    r.str.length = numberLength (numValue type num) base size.toInt precision.toInt type := by
  obtain ⟨type', hflags, hzeropad, hrun⟩ := number_tail num hone hlt size precision type hfuel
  have hdigits := digits_length_le num hone type
  rw [hrun] at h
  have hlen := numberTail_length hfuel (by rw [List.length_reverse]; omega) h rfl rfl
  rw [List.length_reverse, padLoops_congr (hflags left (by decide)) hzeropad, sizeLeft_eq,
    BitVec.sub_sub, ← BitVec.ofNat_add, ← toInt32_sub] at hlen
  exact hlen

theorem putNumber_length (hfuel : loopFuel ≤ fuel) {num : BitVec 64} {base : ℕ} (hone : 1 < base)
    (hlt : base < 2 ^ 64) {size precision flags : BitVec 32}
    (h : putNumber fuel s num base size precision flags = some s') :
    s'.str.length = s.str.length +
      numberLength (numValue flags num) base size.toInt precision.toInt flags := by
  obtain ⟨r, hr, rfl⟩ := Option.map_eq_some_iff.mp h
  rw [← number_length hfuel hone hlt hr]
  exact List.length_append

theorem putPointer_length (hfuel : loopFuel ≤ fuel) {d : Spec}
    (h : putPointer fuel va d s = some s') :
    s'.str.length = s.str.length + pointerLength va d s.args := by
  have h16 : (16#32).toInt = 16 := by decide
  unfold putPointer at h
  unfold pointerLength
  split
  · next hw =>
      rw [if_pos hw] at h
      rw [← h16]
      exact putNumber_length hfuel (by decide) (by decide) h
  · next hw =>
      rw [if_neg hw] at h
      exact putNumber_length hfuel (by decide) (by decide) h

theorem putChar_length (hfuel : loopFuel ≤ fuel) {d : Spec}
    (h : putChar fuel va d s = some s') :
    s'.str.length = s.str.length + charLength (has d.flags left) d.widthInt.toInt := by
  have hrange := toInt_range d.widthInt
  obtain ⟨pad, hpad, h⟩ := Option.bind_eq_some_iff.mp h
  obtain ⟨rest, hrest, h⟩ := Option.bind_eq_some_iff.mp h
  rw [Option.pure_def, Option.some.injEq] at h
  subst h
  obtain ⟨hr, -⟩ := padBeforeLoop_length hfuel hrest
  have hlen : (s.read.put (pad.1 ++ [(s.arg va).setWidth 8] ++ rest.1)).str.length =
      s.str.length + (pad.1.length + 1 + rest.1.length) := by
    change (s.str ++ (pad.1 ++ [_] ++ rest.1)).length = _
    rw [List.length_append, List.length_append, List.length_append, List.length_singleton]
  rw [hlen, hr, toInt_pred]
  unfold charLength underrun
  unfold padBeforeUnless at hpad
  cases hl : has d.flags left with
  | true =>
      rw [hl, if_pos rfl, Option.some.injEq] at hpad
      subst hpad
      simp only [List.length_nil, if_pos]
      split_ifs <;> omega
  | false =>
      rw [hl, if_neg Bool.false_ne_true] at hpad
      obtain ⟨hp, hp'⟩ := padBeforeLoop_length hfuel hpad
      rw [toInt_pred] at hp hp'
      rw [hp, hp']
      simp only [if_neg Bool.false_ne_true]
      split_ifs <;> omega

theorem putString_length (hfuel : loopFuel ≤ fuel) {d : Spec}
    (h : putString fuel va d s = some s') :
    s'.str.length = s.str.length + stringLength (has d.flags left) d.widthInt.toInt
      (shownLength d (strlen va.mem (s.arg va))).toInt := by
  have hzero : (0#32).toInt = 0 := by decide
  unfold putString at h
  unfold shownLength
  dsimp only at h
  generalize (if d.precisionInt.slt 0#32 then strlen va.mem (s.arg va)
    else if d.precisionInt.slt (strlen va.mem (s.arg va)) then d.precisionInt
      else strlen va.mem (s.arg va)) = len at h ⊢
  obtain ⟨pad, hpad, h⟩ := Option.bind_eq_some_iff.mp h
  obtain ⟨text, htext, h⟩ := Option.bind_eq_some_iff.mp h
  obtain ⟨rest, hrest, h⟩ := Option.bind_eq_some_iff.mp h
  rw [Option.pure_def, Option.some.injEq] at h
  subst h
  have hw := toInt_range d.widthInt
  have hrange := toInt_range len
  have ht : text.length = len.toInt.toNat := by
    unfold loopFuel at hfuel
    rw [stringLoop_eq va.mem _ (by omega), Option.some.injEq, hzero, Int.sub_zero] at htext
    rw [← htext, Mem.readBytes_length]
  obtain ⟨hp, hp'⟩ := padUnless_length hfuel hpad
  obtain ⟨hr, -⟩ := padLoop_length hfuel hrest
  have hlen : (s.read.put (pad.1 ++ text ++ rest.1)).str.length =
      s.str.length + (pad.1.length + text.length + rest.1.length) := by
    change (s.str ++ (pad.1 ++ text ++ rest.1)).length = _
    rw [List.length_append, List.length_append, List.length_append]
  rw [hlen, hp, ht, hr, hp']
  unfold stringLength
  cases has d.flags left with
  | true =>
      simp only [if_pos, Bool.not_true, Bool.false_eq_true, false_and, if_neg not_false]
      omega
  | false =>
      simp only [if_neg Bool.false_ne_true, Bool.not_false, true_and]
      split_ifs <;> omega

/-- Every conversion but `%` reads its argument. -/
theorem convert_args {d : Spec} (h : convert fuel va d s c = some s') :
    s'.args = s.args + conversionArgs c := by
  unfold conversionArgs
  by_cases hconv : isConversion c
  · by_cases hpercent : c = chr '%'
    · rw [if_neg fun hc => hc.2 hpercent]
      rw [hpercent, convert_percent, Option.some.injEq] at h
      rw [← h]
      rfl
    · rw [if_pos ⟨hconv, hpercent⟩]
      exact convert_reads va h hconv hpercent
  · rw [if_neg fun hc => hconv hc.1]
    rw [convert_default va d s hconv, Option.some.injEq] at h
    rw [← h]
    rfl

/-- Every conversion stores as much as its length says. -/
theorem convert_length (hfuel : loopFuel ≤ fuel) {d : Spec}
    (h : convert fuel va d s c = some s') :
    s'.str.length = s.str.length + conversionLength va d s.args c := by
  by_cases hconv : isConversion c
  · rcases (isConversion_iff c).mp hconv with rfl | rfl | rfl | rfl | rfl | rfl | (rfl | rfl) |
      rfl | rfl | rfl
    · exact putChar_length hfuel h
    · exact putString_length hfuel h
    · exact putNumber_length hfuel (by decide) (by decide) h
    · exact putPointer_length hfuel h
    · exact putNumber_length hfuel (by decide) (by decide) h
    · exact putNumber_length hfuel (by decide) (by decide) h
    · exact putNumber_length hfuel (by decide) (by decide) h
    · exact putNumber_length hfuel (by decide) (by decide) h
    · exact putNumber_length hfuel (by decide) (by decide) h
    · rw [← Option.some.inj h]
      rfl
    · rw [← Option.some.inj h]
      exact List.length_append
  · rw [convert_default va d s hconv, Option.some.injEq] at h
    simp only [isConversion_iff, not_or] at hconv
    unfold conversionLength
    simp only [hconv, if_false, or_self]
    rw [← h]
    exact List.length_append

/-! ## The parser -/

section Parser

variable (va) (s)

/-- `s`, with the arguments that have been read in `t`. -/
def State.argsOf (s t : State) : State := { s with args := t.args }

/-- What the parser finds depends on the arguments that have been read before, and it changes
    nothing else. -/
theorem parseWidth_args (f : BitVec 32) (fmt : List Byte) : parseWidth va s f fmt =
    (parseWidth va (readOf s.args) f fmt).map fun r => (r.1, r.2.1, s.argsOf r.2.2.1, r.2.2.2) := by
  cases fmt with
  | nil => rfl
  | cons c fmt =>
      simp only [parseWidth]
      split_ifs with hdigit hstar hneg hneg' hneg'
      · rw [Option.map_map]
        rfl
      · rfl
      · exact absurd hneg hneg'
      · exact absurd hneg' hneg
      · rfl
      · rfl

theorem parsePoint_args (fmt : List Byte) : parsePoint va s fmt =
    (parsePoint va (readOf s.args) fmt).map fun r => (r.1, s.argsOf r.2.1, r.2.2) := by
  cases fmt with
  | nil => rfl
  | cons c fmt =>
      simp only [parsePoint]
      split_ifs
      · rw [Option.map_map]
        rfl
      · rfl
      · rfl

theorem parsePrecision_args (fmt : List Byte) : parsePrecision va s fmt =
    (parsePrecision va (readOf s.args) fmt).map fun r => (r.1, s.argsOf r.2.1, r.2.2) := by
  cases fmt with
  | nil => rfl
  | cons c fmt =>
      rw [parsePrecision, parsePrecision, parsePoint_args]
      split_ifs <;> rfl

theorem parseSpec_args (fmt : List Byte) : parseSpec va s fmt =
    (parseSpec va (readOf s.args) fmt).map fun r => (r.1, s.argsOf r.2.1, r.2.2) := by
  unfold parseSpec
  simp only [Option.bind_eq_bind, Option.pure_def]
  cases parseFlags fmt 0#32 with
  | none => rfl
  | some r =>
      rw [Option.bind_some, Option.bind_some, parseWidth_args]
      cases parseWidth va (readOf s.args) r.1 r.2 with
      | none => rfl
      | some r =>
          rw [Option.map_some, Option.bind_some, Option.bind_some, parsePrecision_args,
            parsePrecision_args va r.2.2.1]
          change Option.bind (Option.map _ (parsePrecision va (readOf r.2.2.1.args) _)) _ = _
          cases parsePrecision va (readOf r.2.2.1.args) r.2.2.2 with
          | none => rfl
          | some r =>
              rw [Option.map_some, Option.bind_some, Option.map_some, Option.bind_some]
              cases parseQualifier r.2.2 <;> rfl

end Parser

/-! ## The loop -/

theorem formatLoop_length (hfuel : loopFuel ≤ fuel) {rounds : ℕ} {fmt : List Byte}
    (h : formatLoop fuel va rounds fmt s = some s') :
    s'.str.length = s.str.length + outputLength va rounds fmt s.args := by
  induction rounds generalizing fmt s with
  | zero => exact (Option.some_ne_none _ h.symm).elim
  | succ rounds ih =>
      cases fmt with
      | nil => exact (Option.some_ne_none _ h.symm).elim
      | cons c fmt =>
          rw [formatLoop] at h
          rw [outputLength]
          split
          · next hc =>
              rw [if_pos hc, Option.some.injEq] at h
              rw [h, Nat.add_zero]
          · next hc =>
              rw [if_neg hc] at h
              split
              · next hp =>
                  -- a directive
                  rw [if_pos hp, directive, parseSpec_args] at h
                  cases hspec : parseSpec va (readOf s.args) fmt with
                  | none =>
                      rw [hspec] at h
                      exact (Option.some_ne_none _ h.symm).elim
                  | some r =>
                      obtain ⟨d, t, rest⟩ := r
                      rw [hspec, Option.map_some, Option.bind_some] at h
                      obtain ⟨⟨u, rest'⟩, hconv, h⟩ := Option.bind_eq_some_iff.mp h
                      cases rest with
                      | nil => exact (Option.some_ne_none _ hconv.symm).elim
                      | cons c rest =>
                          dsimp only at hconv h ⊢
                          rw [conversion] at hconv
                          by_cases hc : c = 0#8
                          · -- the terminator
                            rw [if_pos hc, Option.some.injEq, Prod.mk.injEq] at hconv
                            obtain ⟨rfl, rfl⟩ := hconv
                            rw [if_pos hc, ih h]
                            subst hc
                            have hnil : ∀ k, outputLength va rounds (0#8 :: rest) k = 0 := by
                              intro k
                              cases rounds <;> rfl
                            rw [hnil]
                            exact List.length_append
                          · rw [if_neg hc] at hconv
                            obtain ⟨u', hu, heq⟩ := Option.map_eq_some_iff.mp hconv
                            rw [Prod.mk.injEq] at heq
                            obtain ⟨rfl, rfl⟩ := heq
                            rw [if_neg hc, ih h, convert_args hu, convert_length hfuel hu]
                            change s.str.length + _ + _ = _
                            rw [Nat.add_assoc]
                            rfl
              · next hp =>
                  rw [if_neg hp] at h
                  rw [ih h]
                  change (s.str ++ [c]).length + _ = _
                  rw [List.length_append, List.length_singleton, Nat.add_assoc]
                  rfl

/-- `vsprintf` stores what the format and the arguments ask for, and the NUL. -/
theorem vsprintf_length (hfuel : loopFuel ≤ fuel) {fmt : List Byte}
    (h : vsprintf fuel va fmt = some s) : s.str.length = formatLength va fmt + 1 := by
  obtain ⟨s', hs', rfl⟩ := Option.map_eq_some_iff.mp h
  have hlen := formatLoop_length hfuel hs'
  change (s'.str ++ [0#8]).length = _
  rw [List.length_append, hlen, List.length_singleton]
  exact congrArg (· + 1) (Nat.zero_add _)

/-- **The buffer.** For every terminated format and every argument list: `vsprintf` returns, and
    what it stores fits `buf` if and only if the format and the arguments ask for no more than 511
    characters. -/
theorem vsprintf_fits_iff (va : VaList) {fmt : List Byte} (h : Terminated fmt) {fuel : ℕ}
    (hfuel : loopFuel ≤ fuel) : ∃ s, vsprintf fuel va fmt = some s ∧
      (s.str.length ≤ bufSize ↔ formatLength va fmt ≤ 511) := by
  obtain ⟨s, hs⟩ := formatLoop_returns va ⟨[], 0, []⟩ hfuel h (le_refl _)
  have hrun : vsprintf fuel va fmt = some (s.put [0#8]) := by
    rw [vsprintf, hs]
    rfl
  refine ⟨_, hrun, ?_⟩
  rw [vsprintf_length hfuel hrun]
  exact Nat.succ_le_succ_iff

/-- `%511d` still fits. -/
theorem vsprintf_fits_wide :
    ∃ s, vsprintf loopFuel countVa ("%511d".toList.map chr ++ [0#8]) = some s ∧
      (s.str.length ≤ bufSize ↔
        formatLength countVa ("%511d".toList.map chr ++ [0#8]) ≤ 511) :=
  vsprintf_fits_iff countVa ⟨"%511d".toList.map chr, by decide, rfl⟩ (le_refl loopFuel)

/-- `%512d` does not. -/
theorem vsprintf_not_fits : ¬ ∀ (va : VaList) (fmt : List Byte) (s : State), Terminated fmt →
    vsprintf loopFuel va fmt = some s → s.str.length ≤ bufSize := by
  intro h
  have hfmt : Terminated ("%512d".toList.map chr ++ [0#8]) :=
    ⟨"%512d".toList.map chr, by decide, rfl⟩
  obtain ⟨s, hs⟩ := formatLoop_returns countVa ⟨[], 0, []⟩ (le_refl loopFuel) hfmt (le_refl _)
  have hrun : vsprintf loopFuel countVa ("%512d".toList.map chr ++ [0#8]) =
      some (s.put [0#8]) := by
    rw [vsprintf, hs]
    rfl
  have hle := h countVa _ _ hfmt hrun
  rw [vsprintf_length (le_refl _) hrun] at hle
  revert hle
  decide +kernel

end HelloOS.Printk.Format
