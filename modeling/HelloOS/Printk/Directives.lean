/-
  Formats as they are written (`kernel/printk/printk.c`): literal text and directives, each
  with its flags, width, precision, qualifier and conversion. `Directive.render` writes a
  directive, and the parser of `vsprintf` finds in it exactly what it was written from
  (`parseSpec_render`).
-/
import HelloOS.Printk.Number
import HelloOS.Printk.Verbatim

namespace HelloOS.Printk.Format

open HelloOS.Lib

/-! ## Directives -/

inductive Flag
  | left | plus | space | special | zeropad
  deriving DecidableEq

def Flag.char : Flag → Byte
  | left => chr '-'
  | plus => chr '+'
  | space => chr ' '
  | special => chr '#'
  | zeropad => chr '0'

def Flag.bit : Flag → BitVec 32
  | left => Format.left
  | plus => Format.plus
  | space => Format.space
  | special => Format.special
  | zeropad => Format.zeropad

/-- A decimal numeral. -/
structure Decimal where
  digits : List Byte
  value : ℕ
  parses : Numeral.parse digitValue 10 digits = some value
  nonempty : digits ≠ []

/-- A width or a precision. -/
inductive Amount
  | decimal (n : Decimal)
  | star

def Amount.render : Amount → List Byte
  | decimal n => n.digits
  | star => [chr '*']

inductive Qualifier
  | h | l | L | Z
  deriving DecidableEq

def Qualifier.char : Qualifier → Byte
  | h => chr 'h'
  | l => chr 'l'
  | L => chr 'L'
  | Z => chr 'Z'

inductive Conversion
  | c | s | o | p | x | X | d | i | u | percent
  deriving DecidableEq

def Conversion.char : Conversion → Byte
  | c => chr 'c'
  | s => chr 's'
  | o => chr 'o'
  | p => chr 'p'
  | x => chr 'x'
  | X => chr 'X'
  | d => chr 'd'
  | i => chr 'i'
  | u => chr 'u'
  | percent => chr '%'

/-- A directive; the numeral of a width has no leading zero, which would be a flag. -/
structure Directive where
  flags : List Flag
  width : Option Amount
  precision : Option Amount
  qualifier : Option Qualifier
  conversion : Conversion
  leading : ∀ n, width = some (.decimal n) → n.digits.head? ≠ some (chr '0')

/-- Without a width there is none that starts with a `0`. -/
theorem leading_none (n : Decimal) (h : (none : Option Amount) = some (.decimal n)) :
    n.digits.head? ≠ some (chr '0') := absurd h.symm (Option.some_ne_none _)

/-- What stands behind the flags and the width. -/
def Directive.renderPrecision (d : Directive) : List Byte :=
  match d.precision with
  | some a => chr '.' :: a.render
  | none => []

def Directive.renderWidth (d : Directive) : List Byte :=
  match d.width with
  | some a => a.render
  | none => []

def Directive.renderQualifier (d : Directive) : List Byte :=
  match d.qualifier with
  | some q => [q.char]
  | none => []

/-- A directive, without its `%` and its conversion. -/
def Directive.renderSpec (d : Directive) : List Byte :=
  d.flags.map Flag.char ++ d.renderWidth ++ d.renderPrecision ++ d.renderQualifier

def Directive.render (d : Directive) : List Byte :=
  chr '%' :: (d.renderSpec ++ [d.conversion.char])

/-! ## What a directive asks for -/

/-- The number of arguments that an amount reads. -/
def amountArgs : Option Amount → ℕ
  | some .star => 1
  | _ => 0

/-- The `int` in argument `k`. -/
def VaList.int (va : VaList) (k : ℕ) : BitVec 32 := (va.word k).setWidth 32

/-- A `*` width in argument `k` is negative. -/
def starNegative (va : VaList) (k : ℕ) : Option Amount → Bool
  | some .star => (va.int k).slt 0#32
  | _ => false

namespace Directive

variable (va : VaList) (k : ℕ) (d : Directive)

/-- The flags as written. -/
def flagBits : BitVec 32 := d.flags.foldl (fun f flag => f ||| flag.bit) 0#32

/-- The flags that come into effect, with the first argument at `k`. -/
def flagsAt : BitVec 32 := if starNegative va k d.width then d.flagBits ||| left else d.flagBits

/-- `field_width` behind its parser. -/
def widthAt : ℤ :=
  match d.width with
  | none => -1
  | some (.decimal n) => (BitVec.ofNat 32 n.value).toInt
  | some .star => (if (va.int k).slt 0#32 then -va.int k else va.int k).toInt

/-- `precision` behind its parser, with its argument at `k`. -/
def precisionAt : ℤ :=
  match d.precision with
  | none => -1
  | some (.decimal n) => max (BitVec.ofNat 32 n.value).toInt 0
  | some .star => max (va.int k).toInt 0

/-- What the parser finds, with the first argument at `k`. -/
def specAt : Spec where
  flags := d.flagsAt va k
  fieldWidth := d.widthAt va k
  precision := d.precisionAt va (k + amountArgs d.width)
  qualifier := d.qualifier.map Qualifier.char

theorem qualifier_long_iff :
    (d.specAt va k).qualifier = some (chr 'l') ↔ d.qualifier = some .l := by
  change d.qualifier.map Qualifier.char = _ ↔ _
  cases d.qualifier with
  | none => exact ⟨nofun, nofun⟩
  | some q => cases q <;> decide

/-- The number of `*`s. -/
def stars : ℕ := amountArgs d.width + amountArgs d.precision

end Directive

/-! ## The parser on a directive -/

/-- `fmt` starts with a character that is not one of `own`. -/
def Avoids (own : Byte → Prop) (fmt : List Byte) : Prop := ∃ c l, fmt = c :: l ∧ ¬ own c

theorem digit_of_value {c : Byte} {n v : ℕ} (h : Numeral.parseDigit digitValue 10 n c = some v) :
    isDigit c ∧ v = n * 10 + (c.toNat - (chr '0').toNat) := by
  unfold Numeral.parseDigit at h
  obtain ⟨d, hd, hv⟩ := Option.bind_eq_some_iff.mp h
  split at hv
  · next hlt =>
      unfold digitValue at hd
      split at hd
      · next hdigit =>
          rw [Option.some.injEq] at hd hv
          exact ⟨hdigit, by rw [← hv, hd]⟩
      · split at hd
        · next hletter =>
            have hA : (chr 'A').toNat ≤ c.toNat := hletter.1
            rw [Option.some.injEq] at hd
            omega
        · split at hd
          · next hletter =>
              have ha : (chr 'a').toNat ≤ c.toNat := hletter.1
              rw [Option.some.injEq] at hd
              omega
          · exact nomatch hd
  · exact nomatch hv

/-- `skip_atoi` on digits: their value, as far as an `int` holds it. -/
theorem skipAtoi_digits {ds rest : List Byte} {n v : ℕ}
    (h : ds.foldlM (Numeral.parseDigit digitValue 10) n = some v)
    (hrest : Avoids (fun c => isDigit c) rest) :
    skipAtoi (ds ++ rest) (BitVec.ofNat 32 n) = some (BitVec.ofNat 32 v, rest) := by
  induction ds generalizing n with
  | nil =>
      obtain ⟨c, l, rfl, hc⟩ := hrest
      rw [List.foldlM_nil, Option.pure_def, Option.some.injEq] at h
      rw [List.nil_append, skipAtoi, if_neg hc, h]
  | cons c ds ih =>
      rw [List.foldlM_cons, Option.bind_eq_bind] at h
      obtain ⟨m, hm, hrun⟩ := Option.bind_eq_some_iff.mp h
      obtain ⟨hdigit, rfl⟩ := digit_of_value hm
      have hle : (chr '0').toNat ≤ c.toNat := by
        unfold isDigit at hdigit
        rw [Bool.and_eq_true, decide_eq_true_eq] at hdigit
        exact hdigit.1
      have hnext : BitVec.ofNat 32 n * 10#32 + c.setWidth 32 - (chr '0').setWidth 32 =
          BitVec.ofNat 32 (n * 10 + (c.toNat - (chr '0').toNat)) := by
        have hsub : c.setWidth 32 - (chr '0').setWidth 32 =
            BitVec.ofNat 32 (c.toNat - (chr '0').toNat) := by
          apply BitVec.eq_of_toNat_eq
          have hlt := c.isLt
          have hz := (chr '0').isLt
          rw [BitVec.toNat_sub, BitVec.toNat_setWidth, BitVec.toNat_setWidth, BitVec.toNat_ofNat]
          omega
        rw [add_sub_assoc, hsub, BitVec.ofNat_add, BitVec.ofNat_mul]
      rw [List.cons_append, skipAtoi, if_pos hdigit, hnext]
      exact ih hrun

theorem parseFlags_render (flags : List Flag) {rest : List Byte}
    (hrest : Avoids (fun c => (flagOf c).isSome) rest) (f : BitVec 32) :
    parseFlags (flags.map Flag.char ++ rest) f =
      some (flags.foldl (fun f flag => f ||| flag.bit) f, rest) := by
  induction flags generalizing f with
  | nil =>
      obtain ⟨c, l, rfl, hc⟩ := hrest
      rw [Option.not_isSome_iff_eq_none] at hc
      rw [List.map_nil, List.nil_append, parseFlags, hc]
      rfl
  | cons flag flags ih =>
      have hflag : flagOf flag.char = some flag.bit := by cases flag <;> rfl
      rw [List.map_cons, List.cons_append, parseFlags, hflag]
      exact ih _

/-- A numeral starts with a digit. -/
theorem Decimal.cons (n : Decimal) : ∃ c ds, n.digits = c :: ds ∧ isDigit c ∧
    (n.digits.head? = some c) := by
  have hparses := n.parses
  have hne := n.nonempty
  cases hds : n.digits with
  | nil => exact absurd hds hne
  | cons c ds =>
      rw [hds, Numeral.parse, List.foldlM_cons, Option.bind_eq_bind] at hparses
      obtain ⟨m, hm, -⟩ := Option.bind_eq_some_iff.mp hparses
      exact ⟨c, ds, rfl, (digit_of_value hm).1, rfl⟩

theorem Decimal.skipAtoi (n : Decimal) {rest : List Byte}
    (hrest : Avoids (fun c => isDigit c) rest) :
    Format.skipAtoi (n.digits ++ rest) 0#32 = some (BitVec.ofNat 32 n.value, rest) :=
  skipAtoi_digits (n := 0) n.parses hrest

variable (va : VaList) (d : Directive) (s : State) {rest : List Byte}

/-- `s` with `n` more arguments read. -/
def State.readN (s : State) (n : ℕ) : State := { s with args := s.args + n }

theorem parseWidth_render (hrest : Avoids (fun c => isDigit c ∨ c = chr '*') rest)
    (f : BitVec 32) :
    parseWidth va s f (d.renderWidth ++ rest) =
      some (d.widthAt va s.args, if starNegative va s.args d.width then f ||| left else f,
        s.readN (amountArgs d.width), rest) := by
  obtain ⟨c, l, rfl, hc⟩ := hrest
  rw [not_or] at hc
  unfold Directive.renderWidth Directive.widthAt
  cases d.width with
  | none =>
      rw [List.nil_append, parseWidth, if_neg hc.1, if_neg hc.2]
      rfl
  | some a =>
      cases a with
      | decimal n =>
          obtain ⟨x, ds, hds, hdigit, -⟩ := n.cons
          have hrun : Format.skipAtoi (n.digits ++ c :: l) 0#32 = _ := n.skipAtoi ⟨c, l, rfl, hc.1⟩
          dsimp only [Amount.render]
          rw [hds, List.cons_append] at hrun ⊢
          rw [parseWidth, if_pos hdigit, hrun]
          rfl
      | star =>
          have hw : intArg va s = va.int s.args := rfl
          have hstar : starNegative va s.args (some .star) = (va.int s.args).slt 0#32 := rfl
          dsimp only [Amount.render]
          rw [List.singleton_append, parseWidth, if_neg (by decide), if_pos rfl, hw, hstar]
          dsimp only
          split <;> rfl

theorem parsePrecision_render
    (hrest : Avoids (fun c => (isDigit c ∨ c = chr '*') ∨ c = chr '.') rest) :
    parsePrecision va s (d.renderPrecision ++ rest) =
      some (d.precisionAt va s.args, s.readN (amountArgs d.precision), rest) := by
  obtain ⟨c, l, rfl, hc⟩ := hrest
  rw [not_or, not_or] at hc
  unfold Directive.renderPrecision Directive.precisionAt
  cases d.precision with
  | none =>
      rw [List.nil_append, parsePrecision, if_neg hc.2]
      rfl
  | some a =>
      dsimp only
      rw [List.cons_append, parsePrecision, if_pos rfl]
      cases a with
      | decimal n =>
          obtain ⟨x, ds, hds, hdigit, -⟩ := n.cons
          have hrun : Format.skipAtoi (n.digits ++ c :: l) 0#32 = _ :=
            n.skipAtoi ⟨c, l, rfl, hc.1.1⟩
          dsimp only [Amount.render]
          rw [hds, List.cons_append] at hrun ⊢
          rw [parsePoint, if_pos hdigit, hrun]
          rfl
      | star =>
          dsimp only [Amount.render]
          rw [List.singleton_append, parsePoint, if_neg (by decide), if_pos rfl]
          rfl

theorem parseQualifier_render (conv : Conversion) (rest : List Byte) :
    parseQualifier (d.renderQualifier ++ conv.char :: rest) =
      some (d.qualifier.map Qualifier.char, conv.char :: rest) := by
  unfold Directive.renderQualifier
  cases d.qualifier with
  | none =>
      have hnot : isQualifier conv.char = false := by cases conv <;> rfl
      rw [List.nil_append, parseQualifier, hnot]
      rfl
  | some q =>
      have hq : isQualifier q.char = true := by cases q <;> rfl
      dsimp only
      rw [List.singleton_append, parseQualifier, hq]
      rfl

/-! ### Heads -/

theorem avoids_qualifier (rest : List Byte) :
    Avoids (fun c => ((flagOf c).isSome ∨ (isDigit c ∨ c = chr '*')) ∨ c = chr '.')
      (d.renderQualifier ++ d.conversion.char :: rest) := by
  unfold Directive.renderQualifier
  cases d.qualifier with
  | none => exact ⟨_, _, rfl, by cases d.conversion <;> decide⟩
  | some q => exact ⟨_, _, rfl, by cases q <;> decide⟩

theorem Avoids.mono {own own' : Byte → Prop} {fmt : List Byte} (h : Avoids own fmt)
    (hle : ∀ c, own' c → own c) : Avoids own' fmt := by
  obtain ⟨c, l, rfl, hc⟩ := h
  exact ⟨c, l, rfl, mt (hle c) hc⟩

theorem avoids_precision (hrest : Avoids (fun c => (flagOf c).isSome ∨ (isDigit c ∨ c = chr '*'))
    rest) : Avoids (fun c => (flagOf c).isSome ∨ (isDigit c ∨ c = chr '*'))
      (d.renderPrecision ++ rest) := by
  unfold Directive.renderPrecision
  cases d.precision with
  | none => exact hrest
  | some a => exact ⟨_, _, rfl, by decide⟩

theorem avoids_width (hrest : Avoids (fun c => (flagOf c).isSome) rest) :
    Avoids (fun c => (flagOf c).isSome) (d.renderWidth ++ rest) := by
  have hdigit : ∀ c, isDigit c → c ≠ chr '0' → ¬ (flagOf c).isSome := by decide +kernel
  unfold Directive.renderWidth
  cases hwidth : d.width with
  | none => exact hrest
  | some a =>
      cases a with
      | decimal n =>
          obtain ⟨c, ds, hds, hc, hhead⟩ := n.cons
          have hne : c ≠ chr '0' := fun h => d.leading n hwidth (by rw [hhead, h])
          dsimp only [Amount.render]
          rw [hds]
          exact ⟨c, ds ++ rest, rfl, hdigit c hc hne⟩
      | star => exact ⟨_, _, rfl, by decide⟩

/-- **The parser undoes the rendering.** From behind the `%` it finds the flags, the width, the
    precision and the qualifier of the directive, with one argument for each `*`, and stops at
    the conversion. -/
theorem parseSpec_render (rest : List Byte) :
    parseSpec va s (d.renderSpec ++ d.conversion.char :: rest) =
      some (d.specAt va s.args, s.readN d.stars, d.conversion.char :: rest) := by
  have h₃ := avoids_qualifier d rest
  have h₂ := avoids_precision d (h₃.mono fun _ h => Or.inl h)
  have h₁ := avoids_width d (h₂.mono fun _ h => Or.inl h)
  have hwidth := parseWidth_render va d s (h₂.mono fun _ h => Or.inr h) d.flagBits
  have hprec := parsePrecision_render va d (s.readN (amountArgs d.width))
    (h₃.mono fun _ h => h.imp_left Or.inr)
  have hflags := parseFlags_render d.flags h₁ 0#32
  have hq := parseQualifier_render d d.conversion rest
  unfold Directive.renderSpec
  simp only [List.append_assoc]
  unfold parseSpec
  simp only [Option.bind_eq_bind, hflags, Option.bind_some]
  change (parseWidth va s d.flagBits _).bind _ = _
  simp only [hwidth, Option.bind_some, hprec, hq]
  simp only [Directive.stars, State.readN, Nat.add_assoc]
  rfl

/-! ## The loop on a directive -/

theorem formatLoop_directive {fuel rounds : ℕ} (rest : List Byte) :
    formatLoop fuel va (rounds + 1) (d.render ++ rest) s =
      (convert fuel va (d.specAt va s.args) (s.readN d.stars) d.conversion.char).bind
        fun s' => formatLoop fuel va rounds rest s' := by
  have hrender : d.render ++ rest = chr '%' :: (d.renderSpec ++ d.conversion.char :: rest) := by
    simp [Directive.render]
  have hconv : d.conversion.char ≠ 0#8 := by cases d.conversion <;> decide
  rw [hrender, formatLoop, if_neg (by decide), if_pos rfl, directive, parseSpec_render,
    Option.bind_some, conversion, if_neg hconv]
  cases convert fuel va (d.specAt va s.args) (s.readN d.stars) d.conversion.char <;> rfl

/-- `vsprintf` on one directive. -/
theorem vsprintf_directive {fuel : ℕ} :
    vsprintf fuel va (d.render ++ [0#8]) =
      (convert fuel va (d.specAt va 0) (State.readN ⟨[], 0, []⟩ d.stars)
        d.conversion.char).map fun s' => s'.put [0#8] := by
  have hlen : (d.render ++ [0#8]).length = (d.renderSpec.length + 1) + 1 + 1 := by
    simp [Directive.render]
  rw [vsprintf, hlen, formatLoop_directive]
  cases convert fuel va (d.specAt va 0) (State.readN ⟨[], 0, []⟩ d.stars)
    d.conversion.char <;> rfl

end HelloOS.Printk.Format
