/-
  What `vsprintf` makes of a format (`kernel/printk/printk.c`): the literal text and, for each
  directive, its own output (`Directive.output`), computed from what the directive asks for
  and from the arguments it reads, in order (`vsprintf_pieces`).
-/
import HelloOS.Printk.Directives

namespace HelloOS.Printk.Format

open HelloOS.Lib

/-! ## The output of a directive -/

/-- `t` in a field of `width` characters. -/
def padded (toLeft : Bool) (width : ℕ) (t : List Byte) : List Byte :=
  let pad := List.replicate (width - t.length) (chr ' ')
  if toLeft then t ++ pad else pad ++ t

/-- A formatted number. -/
def numberText (flags : BitVec 32) (num : BitVec 64) (base width precision : ℕ) : List Byte :=
  (numberParts (numValue flags num) base width precision flags).text

namespace Directive

variable (va : VaList) (strings : ℕ → List Byte) (k : ℕ) (d : Directive)

/-- The width, with its argument at `k`; without one it is 0. -/
def fieldWidth : ℕ :=
  match d.width with
  | none => 0
  | some (.decimal n) => n.value
  | some .star => (va.int k).toInt.natAbs

/-- The precision, with its argument at `k`; a negative one is 0. -/
def fieldPrecision : Option ℕ :=
  match d.precision with
  | none => none
  | some (.decimal n) => some n.value
  | some .star => some (va.int k).toInt.toNat

/-- The number of arguments that the directive reads. -/
def argCount : ℕ := d.stars + if d.conversion = .percent then 0 else 1

/-- The number that an integer conversion is given in argument `k`. -/
def numberAt : BitVec 64 :=
  if d.qualifier = some .l then va.word k else (va.int k).setWidth 64

/-- The output, with the first argument at `k`. Argument `i` points to `strings i` where it is
    given to an `s`. -/
def output : List Byte :=
  let flags := d.flagsAt va k
  let width := d.fieldWidth va k
  let precision := d.fieldPrecision va (k + amountArgs d.width)
  let arg := k + d.stars
  match d.conversion with
  | .c => padded (has flags left) width [(va.word arg).setWidth 8]
  | .s => padded (has flags left) width
      ((strings arg).take (precision.getD (strings arg).length))
  | .o => numberText flags (d.numberAt va arg) 8 width (precision.getD 0)
  | .p =>
    if d.width.isNone then numberText (flags ||| zeropad) (va.word arg) 16 16 (precision.getD 0)
    else numberText flags (va.word arg) 16 width (precision.getD 0)
  | .x => numberText (flags ||| small) (d.numberAt va arg) 16 width (precision.getD 0)
  | .X => numberText flags (d.numberAt va arg) 16 width (precision.getD 0)
  | .d => numberText (flags ||| sign) (d.numberAt va arg) 10 width (precision.getD 0)
  | .i => numberText (flags ||| sign) (d.numberAt va arg) 10 width (precision.getD 0)
  | .u => numberText flags (d.numberAt va arg) 10 width (precision.getD 0)
  | .percent => [chr '%']

end Directive

/-! ## Formats -/

/-- Literal text, or a directive. -/
inductive Piece
  | text (t : List Byte) (nul : 0#8 ∉ t) (percent : chr '%' ∉ t)
  | directive (d : Directive)

def Piece.render : Piece → List Byte
  | text t _ _ => t
  | directive d => d.render

/-- The format that some pieces are written as. -/
def renderAll (ps : List Piece) : List Byte := ps.flatMap Piece.render ++ [0#8]

/-- The arguments that a piece reads. -/
def Piece.argCount : Piece → ℕ
  | text _ _ _ => 0
  | directive d => d.argCount

def Piece.output (va : VaList) (strings : ℕ → List Byte) (k : ℕ) : Piece → List Byte
  | text t _ _ => t
  | directive d => d.output va strings k

/-- The output of some pieces, each with the arguments behind those of the pieces before. -/
def outputs (va : VaList) (strings : ℕ → List Byte) : ℕ → List Piece → List Byte
  | _, [] => []
  | k, p :: ps => p.output va strings k ++ outputs va strings (k + p.argCount) ps

/-! ## Arguments -/

/-- A width or a precision below 2^30 in absolute value. -/
def amountOk (va : VaList) (k : ℕ) : Option Amount → Prop
  | none => True
  | some (.decimal n) => n.value < 2 ^ 30
  | some .star => |(va.int k).toInt| < 2 ^ 30

/-- The arguments of a directive match it. -/
structure Directive.ArgsOk (va : VaList) (strings : ℕ → List Byte) (k : ℕ) (d : Directive) :
    Prop where
  width : amountOk va k d.width
  precision : amountOk va (k + amountArgs d.width) d.precision
  nonNull : d.conversion = .s → va.word (k + d.stars) ≠ 0#64
  string : d.conversion = .s → CString va.mem (va.word (k + d.stars)) (strings (k + d.stars))

def Piece.ArgsOk (va : VaList) (strings : ℕ → List Byte) (k : ℕ) : Piece → Prop
  | text _ _ _ => True
  | directive d => d.ArgsOk va strings k

/-- The arguments of all pieces. -/
def ArgsOk (va : VaList) (strings : ℕ → List Byte) : ℕ → List Piece → Prop
  | _, [] => True
  | k, p :: ps => p.ArgsOk va strings k ∧ ArgsOk va strings (k + p.argCount) ps

/-! ## `strlen` -/

theorem scasb_eq {m : Mem} {p : BitVec 64} {s : List Byte} (h : CString m p s) {n : ℕ}
    (hn : s.length < n) : scasb m p n = n - (s.length + 1) := by
  obtain ⟨hbytes, hnul⟩ := h
  induction s generalizing p n with
  | nil =>
      obtain ⟨n, rfl⟩ : ∃ n', n = n' + 1 := ⟨n - 1, by rw [List.length_nil] at hn; omega⟩
      have h0 : m p = 0#8 := by simpa [Mem.readBytes] using hbytes
      rw [scasb, if_pos h0, List.length_nil]
      omega
  | cons c s ih =>
      rw [List.length_cons] at hn
      obtain ⟨n, rfl⟩ : ∃ n', n = n' + 1 := ⟨n - 1, by omega⟩
      rw [List.length_cons, Mem.readBytes, List.cons_append, List.cons.injEq] at hbytes
      rw [List.mem_cons, not_or] at hnul
      rw [scasb, hbytes.1, if_neg (Ne.symm hnul.1), ih (by omega) hbytes.2 hnul.2, List.length_cons]
      omega

/-- `strlen` of a string that its counter reaches the end of. -/
theorem strlen_eq {m : Mem} {p : BitVec 64} {s : List Byte} (h : CString m p s)
    (hlen : s.length < 2 ^ 32 - 1) : strlen m p = BitVec.ofNat 32 s.length := by
  unfold strlen
  rw [scasb_eq h (by omega)]
  apply BitVec.eq_of_toNat_eq
  simp only [BitVec.toNat_sub, BitVec.toNat_not, BitVec.toNat_ofNat]
  change (2 ^ 32 - 1 + (2 ^ 32 - 1 - _ % 2 ^ 32)) % 2 ^ 32 = _
  omega

/-! ## The conversions -/

variable {va : VaList} {strings : ℕ → List Byte} {k : ℕ} {d : Directive} {fuel : ℕ}

/-- `field_width` behind its parser is the width, or -1 without one. -/
theorem widthAt_eq (h : amountOk va k d.width) :
    d.widthAt va k = (if d.width.isNone then -1 else (d.fieldWidth va k : ℤ)) ∧
      d.fieldWidth va k < 2 ^ 30 := by
  unfold Directive.widthAt Directive.fieldWidth
  cases hw : d.width with
  | none => exact ⟨rfl, show 0 < 2 ^ 30 by decide⟩
  | some a =>
      rw [hw] at h
      cases a with
      | decimal n =>
          have hn : n.value < 2 ^ 30 := h
          refine ⟨?_, hn⟩
          dsimp only
          rw [toInt_ofNat_eq (by omega)]
          rfl
      | star =>
          have hstar : |(va.int k).toInt| < 2 ^ 30 := h
          rw [abs_lt] at hstar
          have hzero : (0#32).toInt = 0 := by decide
          refine ⟨?_, by dsimp only; omega⟩
          dsimp only [Option.isNone]
          rw [if_neg Bool.false_ne_true]
          split
          · next hneg =>
              rw [BitVec.slt_iff_toInt_lt] at hneg
              rw [BitVec.toInt_neg, Int.bmod_eq_of_le (by omega) (by omega)]
              omega
          · next hpos =>
              rw [BitVec.slt_iff_toInt_lt] at hpos
              omega

/-- `precision` behind its parser. -/
theorem precisionAt_eq (h : amountOk va k d.precision) :
    d.precisionAt va k = (d.fieldPrecision va k).elim (-1) (fun p => (p : ℤ)) ∧
      (d.fieldPrecision va k).getD 0 < 2 ^ 30 := by
  unfold Directive.precisionAt Directive.fieldPrecision
  cases hp : d.precision with
  | none => exact ⟨rfl, show 0 < 2 ^ 30 by decide⟩
  | some a =>
      rw [hp] at h
      cases a with
      | decimal n =>
          have hn : n.value < 2 ^ 30 := h
          refine ⟨?_, hn⟩
          dsimp only
          rw [toInt_ofNat_eq (by omega)]
          exact max_eq_left (Int.natCast_nonneg _)
      | star =>
          have hstar : |(va.int k).toInt| < 2 ^ 30 := h
          rw [abs_lt] at hstar
          refine ⟨?_, ?_⟩
          · exact Int.ofNat_toNat _ |>.symm
          · change (va.int k).toInt.toNat < 2 ^ 30
            omega

/-- Widths and precisions below 0 count as 0. -/
theorem numberParts_max (v : ℤ) (base : ℕ) (size precision : ℤ) (type : BitVec 32) :
    numberParts v base size precision type =
      numberParts v base (max size 0) (max precision 0) type := by
  have hzeros : ∀ n : ℕ, (precision - n).toNat = (max precision 0 - n).toNat := fun n => by omega
  have hpad : ∀ n : ℕ, (size - n).toNat = (max size 0 - n).toNat := fun n => by omega
  unfold numberParts
  simp only [hzeros, hpad]

/-- A number in a field whose width and precision are given or -1. -/
theorem number_text (hfuel : loopFuel ≤ fuel) (num : BitVec 64) {base : ℕ}
    (hbase : base = 8 ∨ base = 10 ∨ base = 16) (flags : BitVec 32) {size precision : BitVec 32}
    {w p : ℕ} (hw : max size.toInt 0 = w) (hp : max precision.toInt 0 = p) (hsize : -1 ≤ size.toInt)
    (hsize' : size.toInt < 2 ^ 30) (hprec : -1 ≤ precision.toInt)
    (hprec' : precision.toInt < 2 ^ 30) :
    ∃ tmp, number fuel num base size precision flags =
      some ⟨numberText flags num base w p, tmp⟩ := by
  have hroom : SizeInRange flags (numberParts (numValue flags num) base size.toInt precision.toInt
      flags) size.toInt precision.toInt := by
    have hsign := signText_length_le flags (numValue flags num)
    have hbaseText := baseText_length flags base
    have hbaseText' : (baseText flags base).length ≤ 2 := by
      rw [hbaseText]
      split_ifs <;> decide
    have hloops : padLoops flags ≤ 3 := by
      unfold padLoops
      split_ifs <;> decide
    have hdigits :
        (Numeral.render (digitChar flags) base (numValue flags num).natAbs).length ≤ 64 :=
      Numeral.render_length_le _ (show 1 < base by omega) (by decide) (by
        rw [← abs_toNat]
        exact (BitVec.isLt _).trans_le (Nat.pow_le_pow_left (show 2 ≤ base by omega) 64))
    change -2 ^ 31 ≤ size.toInt - (signText flags (numValue flags num)).length -
      (baseText flags base).length - max precision.toInt (Numeral.render (digitChar flags) base
        (numValue flags num).natAbs).length - padLoops flags
    omega
  refine ⟨(Numeral.render (digitChar flags) base (numValue flags num).natAbs).reverse, ?_⟩
  rw [number_eq num hbase (abs_lt.mpr ⟨by omega, by omega⟩) (abs_lt.mpr ⟨by omega, by omega⟩)
    flags hroom hfuel, numberParts_max, hw, hp]
  rfl

/-- The loop of a `c` conversion. -/
theorem padBeforeLoop_count (hfuel : loopFuel ≤ fuel) {n : BitVec 32} (hn : -2 ^ 31 < n.toInt) :
    ∃ n', padBeforeLoop fuel n = some (List.replicate (n.toInt - 1).toNat (chr ' '), n') ∧
      n'.toInt = min (n.toInt - 1) 0 := by
  have hzero : (0#32).toInt = 0 := by decide
  have hprev := toInt_sub_one hn
  have hrange := toInt_range n
  unfold loopFuel at hfuel
  refine ⟨if (0#32).slt (n - 1#32) then 0#32 else n - 1#32, ?_, ?_⟩
  · rw [padBeforeLoop_eq (by omega), hprev]
  · rw [toInt_smaller, hzero, hprev, min_comm]

/-- `field_width` as an `int`. -/
theorem widthInt_toInt (h : amountOk va k d.width) :
    (d.specAt va k).widthInt.toInt = (if d.width.isNone then -1 else (d.fieldWidth va k : ℤ)) := by
  obtain ⟨hw, hlt⟩ := widthAt_eq h
  change (BitVec.ofInt 32 (d.widthAt va k)).toInt = _
  rw [BitVec.toInt_ofInt, Int.bmod_eq_of_le (by rw [hw]; split <;> omega)
    (by rw [hw]; split <;> omega), hw]

theorem fieldWidth_eq (h : amountOk va k d.width) :
    max (d.specAt va k).widthInt.toInt 0 = d.fieldWidth va k ∧
      -1 ≤ (d.specAt va k).widthInt.toInt ∧ (d.specAt va k).widthInt.toInt < 2 ^ 30 := by
  have hlt := (widthAt_eq h).2
  rw [widthInt_toInt h]
  cases hw : d.width with
  | none =>
      have hzero : d.fieldWidth va k = 0 := by
        unfold Directive.fieldWidth
        rw [hw]
      rw [hzero]
      exact ⟨rfl, by decide, by decide⟩
  | some a =>
      dsimp only [Option.isNone]
      rw [if_neg Bool.false_ne_true]
      omega

/-- `precision` as an `int`. -/
theorem precisionInt_toInt (h : amountOk va (k + amountArgs d.width) d.precision) :
    (d.specAt va k).precisionInt.toInt =
      (d.fieldPrecision va (k + amountArgs d.width)).elim (-1) (fun p => (p : ℤ)) := by
  obtain ⟨hp, hlt⟩ := precisionAt_eq h
  change (BitVec.ofInt 32 (d.precisionAt va (k + amountArgs d.width))).toInt = _
  rw [hp]
  cases hprec : d.fieldPrecision va (k + amountArgs d.width) with
  | none => decide
  | some p =>
      rw [hprec] at hlt
      have hlt' : p < 2 ^ 30 := hlt
      dsimp only [Option.elim]
      rw [BitVec.toInt_ofInt, Int.bmod_eq_of_le (by omega) (by omega)]

theorem putNumber_output (hfuel : loopFuel ≤ fuel) (hok : d.ArgsOk va strings k) (s : State)
    (num : BitVec 64) {base : ℕ} (hbase : base = 8 ∨ base = 10 ∨ base = 16) (flags : BitVec 32)
    {size : BitVec 32} {w : ℕ} (hw : max size.toInt 0 = w) (hsize : -1 ≤ size.toInt)
    (hsize' : size.toInt < 2 ^ 30) :
    putNumber fuel s num base size (d.specAt va k).precisionInt flags = some (s.read.put
      (numberText flags num base w
        ((d.fieldPrecision va (k + amountArgs d.width)).getD 0))) := by
  have hint := precisionInt_toInt hok.precision
  have hlt := (precisionAt_eq hok.precision).2
  obtain ⟨hmax, hlo, hhi⟩ : max (d.specAt va k).precisionInt.toInt 0 =
      (((d.fieldPrecision va (k + amountArgs d.width)).getD 0 : ℕ) : ℤ) ∧
      -1 ≤ (d.specAt va k).precisionInt.toInt ∧ (d.specAt va k).precisionInt.toInt < 2 ^ 30 := by
    rw [hint]
    cases hp : d.fieldPrecision va (k + amountArgs d.width) with
    | none => exact ⟨rfl, by decide, by decide⟩
    | some p =>
        rw [hp] at hlt
        have hlt' : p < 2 ^ 30 := hlt
        dsimp only [Option.elim, Option.getD]
        omega
  obtain ⟨tmp, hrun⟩ := number_text hfuel num hbase flags hw hmax hsize hsize' hlo hhi
  rw [putNumber, hrun]
  rfl

theorem putPointer_output (hfuel : loopFuel ≤ fuel) (hok : d.ArgsOk va strings k) (s : State) :
    putPointer fuel va (d.specAt va k) s = some (s.read.put
      (if d.width.isNone then numberText (d.flagsAt va k ||| zeropad) (s.arg va) 16 16
          ((d.fieldPrecision va (k + amountArgs d.width)).getD 0)
        else numberText (d.flagsAt va k) (s.arg va) 16 (d.fieldWidth va k)
          ((d.fieldPrecision va (k + amountArgs d.width)).getD 0))) := by
  obtain ⟨hw, hlo, hhi⟩ := fieldWidth_eq hok.width
  have hint := widthInt_toInt hok.width
  have hminus : (-1#32).toInt = -1 := by decide
  unfold putPointer
  by_cases hnone : d.width.isNone
  · rw [if_pos hnone] at hint
    rw [if_pos (BitVec.eq_of_toInt_eq (hint.trans hminus.symm)), if_pos hnone]
    exact putNumber_output hfuel hok s _ (Or.inr (Or.inr rfl)) _ (by decide) (by decide)
      (by decide)
  · rw [if_neg hnone] at hint
    have hne : (d.specAt va k).widthInt ≠ -1#32 := fun h => by
      rw [h, hminus] at hint
      omega
    rw [if_neg hne, if_neg hnone]
    exact putNumber_output hfuel hok s _ (Or.inr (Or.inr rfl)) _ hw hlo hhi

theorem putChar_output (hfuel : loopFuel ≤ fuel) (hok : d.ArgsOk va strings k) (s : State) :
    putChar fuel va (d.specAt va k) s = some (s.read.put
      (padded (has (d.flagsAt va k) left) (d.fieldWidth va k) [(s.arg va).setWidth 8])) := by
  obtain ⟨hw, hlo, hhi⟩ := fieldWidth_eq hok.width
  have hflags : (d.specAt va k).flags = d.flagsAt va k := rfl
  have hcount : ((d.specAt va k).widthInt.toInt - 1).toNat = d.fieldWidth va k - 1 := by omega
  obtain ⟨n, hrun, hn⟩ := padBeforeLoop_count hfuel (n := (d.specAt va k).widthInt) (by omega)
  unfold putChar padBeforeUnless padded
  simp only [hflags, Option.bind_eq_bind]
  cases has (d.flagsAt va k) left with
  | true =>
      simp only [if_true, Option.bind_some, hrun, hcount]
      rfl
  | false =>
      obtain ⟨n', hrest, -⟩ := padBeforeLoop_count hfuel (n := n) (by omega)
      simp only [Bool.false_eq_true, if_false, Option.bind_some, hrun, hrest, hcount,
        show (n.toInt - 1).toNat = 0 by omega]
      simp

theorem CString.readBytes {m : Mem} {p : BitVec 64} {t : List Byte} (h : CString m p t) {n : ℕ}
    (hn : n ≤ t.length) : m.readBytes p n = t.take n := by
  have hsplit : m.readBytes p (n + (t.length + 1 - n)) = t ++ [0#8] := by
    rw [Nat.add_sub_cancel' (by omega)]
    exact h.bytes
  rw [Mem.readBytes_append] at hsplit
  have htake := congrArg (List.take n) hsplit
  rwa [List.take_left' (Mem.readBytes_length _ _ _), List.take_append_of_le_length hn] at htake

theorem putString_output (hfuel : loopFuel ≤ fuel) (hok : d.ArgsOk va strings k)
    (hconv : d.conversion = .s) (hshort : (strings (k + d.stars)).length < 2 ^ 31) {s : State}
    (harg : s.arg va = va.word (k + d.stars)) :
    putString fuel va (d.specAt va k) s = some (s.read.put
      (padded (has (d.flagsAt va k) left) (d.fieldWidth va k)
        ((strings (k + d.stars)).take ((d.fieldPrecision va (k + amountArgs d.width)).getD
          (strings (k + d.stars)).length)))) := by
  have hstring := hok.string hconv
  obtain ⟨hw, hlo, hhi⟩ := fieldWidth_eq hok.width
  have hprec := precisionInt_toInt hok.precision
  have hprec' := (precisionAt_eq hok.precision).2
  have hflags : (d.specAt va k).flags = d.flagsAt va k := rfl
  generalize hstr : strings (k + d.stars) = str at hstring hshort ⊢
  generalize d.fieldPrecision va (k + amountArgs d.width) = precision at hprec hprec' ⊢
  have hstrlen : (strlen va.mem (s.arg va)).toInt = str.length := by
    rw [harg, strlen_eq hstring (by omega), toInt_ofNat_eq (by omega)]
  have hzero : (0#32).toInt = 0 := by decide
  -- `len` is the number of characters that are stored
  obtain ⟨len, hlen, hlen'⟩ : ∃ len, (if (d.specAt va k).precisionInt.slt 0#32
      then strlen va.mem (s.arg va)
      else if (d.specAt va k).precisionInt.slt (strlen va.mem (s.arg va))
        then (d.specAt va k).precisionInt else strlen va.mem (s.arg va)) = len ∧
      len.toInt = (str.take (precision.getD str.length)).length := by
    refine ⟨_, rfl, ?_⟩
    rw [List.length_take]
    cases precision with
    | none =>
        have hnone : (d.specAt va k).precisionInt.toInt = -1 := hprec
        simp only [BitVec.slt_iff_toInt_lt, hstrlen, hzero, hnone]
        rw [if_pos (by decide), hstrlen]
        exact congrArg Nat.cast (Nat.min_self _).symm
    | some p =>
        have hsome : (d.specAt va k).precisionInt.toInt = p := hprec
        simp only [BitVec.slt_iff_toInt_lt, hstrlen, hzero, hsome]
        rw [if_neg (by omega)]
        dsimp only [Option.getD]
        split
        · rw [hsome]
          omega
        · rw [hstrlen]
          omega
  have htext : stringLoop va.mem len fuel 0#32 (s.arg va) =
      some (str.take (precision.getD str.length)) := by
    unfold loopFuel at hfuel
    have hle : (str.take (precision.getD str.length)).length ≤ str.length :=
      List.length_take_le' _ _
    rw [stringLoop_eq va.mem (s.arg va) (by omega), hzero, hlen', Int.sub_zero, Int.toNat_natCast,
      harg, hstring.readBytes hle, List.length_take]
    simp
  generalize hpart : str.take (precision.getD str.length) = part at hlen' htext ⊢
  have hpartlen : part.length < 2 ^ 31 := by
    rw [← hpart, List.length_take]
    omega
  unfold loopFuel at hfuel
  have hpad : padLoop (chr ' ') len fuel (d.specAt va k).widthInt = _ := padLoop_eq (by omega)
  have hcount : ((d.specAt va k).widthInt.toInt - len.toInt).toNat =
      d.fieldWidth va k - part.length := by
    omega
  rw [hcount] at hpad
  unfold putString padUnless padded
  simp only [hlen, hflags, htext, Option.bind_eq_bind]
  cases has (d.flagsAt va k) left with
  | true =>
      simp only [if_true, Option.bind_some, hpad]
      rfl
  | false =>
      simp only [Bool.false_eq_true, if_false, Option.bind_some, hpad]
      -- nothing is left to be padded
      have hend := toInt_smaller len (d.specAt va k).widthInt
      generalize hn : (if len.slt (d.specAt va k).widthInt then len else (d.specAt va k).widthInt) -
        1#32 = n
      have hrest : (n.toInt - len.toInt).toNat = 0 := by
        rw [← hn, toInt_sub_one (by omega)]
        omega
      rw [padLoop_eq (by omega), hrest]
      simp

/-- A conversion's output is the directive's. -/
theorem convert_output (hfuel : loopFuel ≤ fuel) {s : State} (hok : d.ArgsOk va strings s.args)
    (hshort : ∀ i, (strings i).length < 2 ^ 31) :
    convert fuel va (d.specAt va s.args) (s.readN d.stars) d.conversion.char =
      some ⟨s.str ++ d.output va strings s.args, s.args + d.argCount, s.stores⟩ := by
  obtain ⟨hw, hlo, hhi⟩ := fieldWidth_eq hok.width
  have hnum : numberArg va (d.specAt va s.args) (s.readN d.stars) =
      d.numberAt va (s.args + d.stars) := by
    unfold numberArg Directive.numberAt
    simp only [Directive.qualifier_long_iff]
    rfl
  have hnumber : ∀ (base : ℕ) (flags : BitVec 32), base = 8 ∨ base = 10 ∨ base = 16 →
      putNumber fuel (s.readN d.stars) (numberArg va (d.specAt va s.args) (s.readN d.stars)) base
        (d.specAt va s.args).widthInt (d.specAt va s.args).precisionInt flags =
      some ((s.readN d.stars).read.put (numberText flags (d.numberAt va (s.args + d.stars)) base
        (d.fieldWidth va s.args)
        ((d.fieldPrecision va (s.args + amountArgs d.width)).getD 0))) := fun base flags hbase => by
    rw [hnum]
    exact putNumber_output hfuel hok _ _ hbase flags hw hlo hhi
  have hcount : d.conversion ≠ .percent → d.argCount = d.stars + 1 := fun h => by
    unfold Directive.argCount
    rw [if_neg h]
  unfold Directive.output
  cases hconv : d.conversion with
  | c =>
      rw [hcount (by rw [hconv]; decide)]
      exact putChar_output hfuel hok _
  | s =>
      rw [hcount (by rw [hconv]; decide)]
      exact putString_output hfuel hok hconv (hshort _) rfl
  | o =>
      rw [hcount (by rw [hconv]; decide)]
      exact hnumber 8 _ (by decide)
  | p =>
      rw [hcount (by rw [hconv]; decide)]
      exact putPointer_output hfuel hok _
  | x =>
      rw [hcount (by rw [hconv]; decide)]
      exact hnumber 16 _ (by decide)
  | X =>
      rw [hcount (by rw [hconv]; decide)]
      exact hnumber 16 _ (by decide)
  | d =>
      rw [hcount (by rw [hconv]; decide)]
      exact hnumber 10 _ (by decide)
  | i =>
      rw [hcount (by rw [hconv]; decide)]
      exact hnumber 10 _ (by decide)
  | u =>
      rw [hcount (by rw [hconv]; decide)]
      exact hnumber 10 _ (by decide)
  | percent =>
      have hargs : d.argCount = d.stars := by
        unfold Directive.argCount
        rw [if_pos hconv, Nat.add_zero]
      rw [hargs]
      rfl

/-! ## `vsprintf` -/

/-- Literal text is stored as it is. -/
theorem formatLoop_text {rounds : ℕ} {t rest : List Byte} (hnul : 0#8 ∉ t)
    (hpercent : chr '%' ∉ t) (s : State) :
    formatLoop fuel va (rounds + t.length) (t ++ rest) s =
      formatLoop fuel va rounds rest (s.put t) := by
  induction t generalizing s with
  | nil =>
      rw [List.length_nil, Nat.add_zero, List.nil_append, State.put, List.append_nil]
  | cons c t ih =>
      rw [List.mem_cons, not_or] at hnul hpercent
      rw [List.length_cons, ← Nat.add_assoc, List.cons_append, formatLoop,
        if_neg (Ne.symm hnul.1), if_neg (Ne.symm hpercent.1), ih hnul.2 hpercent.2, State.put_put]
      rfl

theorem Directive.render_length_pos (d : Directive) : 0 < d.render.length := Nat.succ_pos _

/-- The loop on the pieces that are left. -/
theorem formatLoop_pieces (hfuel : loopFuel ≤ fuel) (hshort : ∀ i, (strings i).length < 2 ^ 31)
    {ps : List Piece} {rounds : ℕ} (hrounds : (renderAll ps).length ≤ rounds) {s : State}
    (hok : ArgsOk va strings s.args ps) :
    formatLoop fuel va rounds (renderAll ps) s =
      some ⟨s.str ++ outputs va strings s.args ps, s.args + (ps.map Piece.argCount).sum,
        s.stores⟩ := by
  induction ps generalizing s rounds with
  | nil =>
      cases rounds with
      | zero => exact absurd hrounds (by decide)
      | succ rounds =>
          rw [outputs, List.append_nil]
          rfl
  | cons p ps ih =>
      obtain ⟨hp, hps⟩ := hok
      have hcons : renderAll (p :: ps) = p.render ++ renderAll ps := by
        rw [renderAll, List.flatMap_cons, List.append_assoc, renderAll]
      have hlen : p.render.length + (renderAll ps).length ≤ rounds := by
        rwa [hcons, List.length_append] at hrounds
      have hend : (⟨s.str ++ p.output va strings s.args ++
          outputs va strings (s.args + p.argCount) ps,
          s.args + p.argCount + (ps.map Piece.argCount).sum, s.stores⟩ : State) =
          ⟨s.str ++ outputs va strings s.args (p :: ps),
            s.args + ((p :: ps).map Piece.argCount).sum, s.stores⟩ := by
        rw [outputs, List.map_cons, List.sum_cons, List.append_assoc, Nat.add_assoc]
      rw [hcons, ← hend]
      cases p with
      | text t nul percent =>
          obtain ⟨rounds', rfl⟩ : ∃ r, rounds = r + t.length := ⟨rounds - t.length, by
            change t.length + _ ≤ _ at hlen
            omega⟩
          change t.length + _ ≤ _ at hlen
          exact (formatLoop_text nul percent s).trans
            (ih (s := s.put t) (by omega) (by exact hps))
      | directive d =>
          change d.render.length + _ ≤ _ at hlen
          have hpos := d.render_length_pos
          obtain ⟨rounds', rfl⟩ : ∃ r, rounds = r + 1 := ⟨rounds - 1, by omega⟩
          change formatLoop fuel va (rounds' + 1) (d.render ++ _) s = _
          rw [formatLoop_directive, convert_output hfuel hp hshort, Option.bind_some]
          exact ih (s := ⟨_, _, _⟩) (by omega) hps

/-- `hi` at address 1, which every argument points to. -/
def hiVa : VaList :=
  ⟨fun _ => 1#64, fun a => if a = 1#64 then chr 'h' else if a = 2#64 then chr 'i' else 0#8⟩

end HelloOS.Printk.Format
