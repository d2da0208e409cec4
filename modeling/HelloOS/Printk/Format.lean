/-
  The formatter (`kernel/printk/printk.c`): `skip_atoi`, `number`, `vsprintf`, `_printf` and
  its callers, and `strlen` (`kernel/lib/string.c`).

  A format is the list of the bytes from `fmt` on, with its terminator; a list that ends is a
  read behind it, and no such read has a result. Of the output the model keeps what has been
  stored from `buf` on, how many words of the argument list have been read, and what `%n` has
  stored. `int`s are words of 32 bits, and loops are loops, each for at most `fuel` tests of its
  condition; width and precision, as the format says them, are kept as the integers that an
  `int` holds. The strings that `%s` points to lie neither in `buf` nor where `%n` stores.
-/
import HelloOS.Entry.Regs

namespace HelloOS.Printk.Format

open HelloOS.Lib HelloOS.Entry

abbrev Byte := BitVec 8

def chr (c : Char) : Byte := BitVec.ofNat 8 c.toNat

/-! ## Flags -/

def zeropad : BitVec 32 := 1#32

def sign : BitVec 32 := 2#32

def plus : BitVec 32 := 4#32

def space : BitVec 32 := 8#32

def left : BitVec 32 := 16#32

def special : BitVec 32 := 32#32

def small : BitVec 32 := 64#32

/-- `type & flag`. -/
def has (type flag : BitVec 32) : Bool := type &&& flag ≠ 0#32

/-! ## `strlen` -/

/-- `repne scasb` for a NUL, from `rcx` on: `rcx` behind it. -/
def scasb (m : Mem) (rdi : BitVec 64) : ℕ → ℕ
  | 0 => 0
  | rcx + 1 => if m rdi = 0#8 then rcx else scasb m (rdi + 1#64) rcx

def strlen (m : Mem) (string : BitVec 64) : BitVec 32 :=
  ~~~(BitVec.ofNat 32 (scasb m string 0xffffffff)) - 1#32

/-! ## Loops -/

/-- Tests that no loop of the formatter makes more than. -/
def loopFuel : ℕ := 2 ^ 32

/-- `while (lo < n--) *str++ = c;`: what it stores, and `n` behind it. -/
def padLoop (c : Byte) (lo : BitVec 32) : ℕ → BitVec 32 → Option (List Byte × BitVec 32)
  | 0, _ => none
  | fuel + 1, n =>
    if lo.slt n then (padLoop c lo fuel (n - 1#32)).map fun r => (c :: r.1, r.2)
    else some ([], n - 1#32)

/-- `while (--n > 0) *str++ = ' ';`: what it stores, and `n` behind it. -/
def padBeforeLoop : ℕ → BitVec 32 → Option (List Byte × BitVec 32)
  | 0, _ => none
  | fuel + 1, n =>
    if (0#32).slt (n - 1#32) then
      (padBeforeLoop fuel (n - 1#32)).map fun r => (chr ' ' :: r.1, r.2)
    else some ([], n - 1#32)

/-- `if (!skip) while (lo < n--) *str++ = c;` -/
def padUnless (skip : Bool) (c : Byte) (lo : BitVec 32) (fuel : ℕ) (n : BitVec 32) :
    Option (List Byte × BitVec 32) :=
  if skip then some ([], n) else padLoop c lo fuel n

/-- `if (!skip) while (--n > 0) *str++ = ' ';` -/
def padBeforeUnless (skip : Bool) (fuel : ℕ) (n : BitVec 32) : Option (List Byte × BitVec 32) :=
  if skip then some ([], n) else padBeforeLoop fuel n

/-- `while (num != 0) tmp[i++] = digits[do_div(num, base)];` -/
def digitsLoop (digits : List Byte) (base : BitVec 64) : ℕ → BitVec 64 → Option (List Byte)
  | 0, _ => none
  | fuel + 1, num =>
    if num = 0#64 then some []
    else (digitsLoop digits base fuel (num / base)).map
      fun tmp => digits.getD (num % base).toNat 0#8 :: tmp

/-- `while (i-- > 0) *str++ = tmp[i];` -/
def copyLoop (tmp : List Byte) : ℕ → List Byte
  | 0 => []
  | i + 1 => tmp.getD i 0#8 :: copyLoop tmp i

/-- `for (i = 0; i < len; i++) *str++ = *s++;`, from `i` on. -/
def stringLoop (m : Mem) (len : BitVec 32) : ℕ → BitVec 32 → BitVec 64 → Option (List Byte)
  | 0, _, _ => none
  | fuel + 1, i, s =>
    if i.slt len then (stringLoop m len fuel (i + 1#32) (s + 1#64)).map fun t => m s :: t
    else some []

/-! ## `number` -/

/-- `digits`. -/
def digitChars (type : BitVec 32) : List Byte :=
  if has type small then "0123456789abcdefghijklmnopqrstuvwxyz".toList.map chr
  else "0123456789ABCDEFGHIJKLMNOPQRSTUVWXYZ".toList.map chr

/-- What `number` stores from `str` on, and what it has stored to `tmp`. -/
structure Numbered where
  str : List Byte
  tmp : List Byte

/-- `number` from the comparison of `i` with `precision` on, with the `tmp` it has found. -/
def numberTail (fuel : ℕ) (type : BitVec 32) (c : Byte) (signChar baseChars tmp : List Byte)
    (size precision : BitVec 32) : Option Numbered := do
  let i := BitVec.ofNat 32 tmp.length
  let precision := if precision.slt i then i else precision
  let size := size - precision
  let pad ← padUnless (has type (zeropad + left)) (chr ' ') 0#32 fuel size
  let fill ← padUnless (has type left) c 0#32 fuel pad.2
  let zeros ← padLoop (chr '0') i fuel precision
  let rest ← padLoop (chr ' ') 0#32 fuel fill.2
  return ⟨pad.1 ++ signChar ++ baseChars ++ fill.1 ++ zeros.1 ++ copyLoop tmp tmp.length ++ rest.1,
    tmp⟩

/-- What is left of `size` behind the sign and the prefix. -/
def sizeLeft (type : BitVec 32) (base : ℕ) (signChar : List Byte) (size : BitVec 32) : BitVec 32 :=
  let size := if signChar = [] then size else size - 1#32
  if has type special then
    if base = 16 then size - 2#32 else if base = 8 then size - 1#32 else size
  else size

/-- `tmp`, behind its loop. -/
def numberTmp (fuel : ℕ) (digits : List Byte) (base : ℕ) (num : BitVec 64) : Option (List Byte) :=
  if num = 0#64 then some [chr '0'] else digitsLoop digits (BitVec.ofNat 64 base) fuel num

/-- `number`. Its test of the base, which is 8, 10 or 16 wherever it is called, is left out. -/
def number (fuel : ℕ) (num : BitVec 64) (base : ℕ) (size precision type : BitVec 32) :
    Option Numbered := do
  let digits := digitChars type
  let type := if has type left then type &&& ~~~zeropad else type
  let c := if has type zeropad then chr '0' else chr ' '
  let negative := has type sign && num.slt 0#64
  let num := if negative then -num else num
  let signChar :=
    if negative then [chr '-']
    else if has type plus then [chr '+'] else if has type space then [chr ' '] else []
  let size := sizeLeft type base signChar size
  let baseChars :=
    if has type special then
      if base = 8 then [chr '0'] else if base = 16 then [chr '0', digits.getD 33 0#8] else []
    else []
  let tmp ← numberTmp fuel digits base num
  numberTail fuel type c signChar baseChars tmp size precision

/-! ## `vsprintf` -/

/-- A store of `%n`: 4 or 8 bytes at `addr`. -/
structure Store where
  addr : BitVec 64
  size : ℕ
  value : BitVec 64
  deriving DecidableEq

/-- What the formatter has done: the bytes from `buf` on, the number of arguments read, and
    the stores of `%n`. -/
structure State where
  str : List Byte
  args : ℕ
  stores : List Store
  deriving DecidableEq

/-- The words that `va_arg` yields, and the memory that pointers among them point into. -/
structure VaList where
  word : ℕ → BitVec 64
  mem : Mem

namespace State

/-- Store `t` from `str` on. -/
def put (s : State) (t : List Byte) : State := { s with str := s.str ++ t }

/-- `va_arg` has been called. -/
def read (s : State) : State := { s with args := s.args + 1 }

/-- The next argument. -/
def arg (s : State) (va : VaList) : BitVec 64 := va.word s.args

/-- `*ip = str - buf`. -/
def store (s : State) (addr : BitVec 64) (size : ℕ) : State :=
  { s with stores := s.stores ++ [⟨addr, size, BitVec.ofNat 64 s.str.length⟩] }

end State

def isDigit (c : Byte) : Bool := chr '0' ≤ c && c ≤ chr '9'

/-- `skip_atoi`, with `i` read so far. -/
def skipAtoi : List Byte → BitVec 32 → Option (BitVec 32 × List Byte)
  | [], _ => none
  | c :: fmt, i =>
    if isDigit c then skipAtoi fmt (i * 10#32 + c.setWidth 32 - (chr '0').setWidth 32)
    else some (i, c :: fmt)

/-- The flag a character stands for. -/
def flagOf (c : Byte) : Option (BitVec 32) :=
  if c = chr '-' then some left
  else if c = chr '+' then some plus
  else if c = chr ' ' then some space
  else if c = chr '#' then some special
  else if c = chr '0' then some zeropad
  else none

/-- From the label `repeat`, behind its `fmt++`. -/
def parseFlags : List Byte → BitVec 32 → Option (BitVec 32 × List Byte)
  | [], _ => none
  | c :: fmt, flags =>
    match flagOf c with
    | some f => parseFlags fmt (flags ||| f)
    | none => some (flags, c :: fmt)

/-- What stands between the `%` and the conversion. -/
structure Spec where
  flags : BitVec 32
  fieldWidth : ℤ
  precision : ℤ
  qualifier : Option Byte

/-- `va_arg(args, int)`. -/
def intArg (va : VaList) (s : State) : BitVec 32 := (s.arg va).setWidth 32

/-- The field width, with the flags behind it. -/
def parseWidth (va : VaList) (s : State) (flags : BitVec 32) :
    List Byte → Option (ℤ × BitVec 32 × State × List Byte)
  | [] => none
  | c :: fmt =>
    if isDigit c then
      (skipAtoi (c :: fmt) 0#32).map fun r => (r.1.toInt, flags, s, r.2)
    else if c = chr '*' then
      let w := intArg va s
      if w.slt 0#32 then some ((-w).toInt, flags ||| left, s.read, fmt)
      else some (w.toInt, flags, s.read, fmt)
    else some (-1, flags, s, c :: fmt)

/-- The precision, behind its point. -/
def parsePoint (va : VaList) (s : State) : List Byte → Option (ℤ × State × List Byte)
  | [] => none
  | c :: fmt =>
    if isDigit c then (skipAtoi (c :: fmt) 0#32).map fun r => (max r.1.toInt 0, s, r.2)
    else if c = chr '*' then some (max (intArg va s).toInt 0, s.read, fmt)
    else some (0, s, c :: fmt)

/-- The precision. -/
def parsePrecision (va : VaList) (s : State) : List Byte → Option (ℤ × State × List Byte)
  | [] => none
  | c :: fmt => if c = chr '.' then parsePoint va s fmt else some (-1, s, c :: fmt)

def isQualifier (c : Byte) : Bool := c ∈ [chr 'h', chr 'l', chr 'L', chr 'Z']

def parseQualifier : List Byte → Option (Option Byte × List Byte)
  | [] => none
  | c :: fmt => if isQualifier c then some (some c, fmt) else some (none, c :: fmt)

/-- From behind the `%` to the conversion. -/
def parseSpec (va : VaList) (s : State) (fmt : List Byte) : Option (Spec × State × List Byte) := do
  let (flags, fmt) ← parseFlags fmt 0#32
  let (fieldWidth, flags, s, fmt) ← parseWidth va s flags fmt
  let (precision, s, fmt) ← parsePrecision va s fmt
  let (qualifier, fmt) ← parseQualifier fmt
  return (⟨flags, fieldWidth, precision, qualifier⟩, s, fmt)

/-- The argument of an integer conversion: a `long` behind an `l`, else an `unsigned int`. -/
def numberArg (va : VaList) (d : Spec) (s : State) : BitVec 64 :=
  if d.qualifier = some (chr 'l') then s.arg va else (intArg va s).setWidth 64

/-- `field_width`. -/
def Spec.widthInt (d : Spec) : BitVec 32 := BitVec.ofInt 32 d.fieldWidth

/-- `precision`. -/
def Spec.precisionInt (d : Spec) : BitVec 32 := BitVec.ofInt 32 d.precision

/-- `str = number(str, num, base, size, precision, flags)`, an argument having been read. -/
def putNumber (fuel : ℕ) (s : State) (num : BitVec 64) (base : ℕ)
    (size precision flags : BitVec 32) : Option State :=
  (number fuel num base size precision flags).map fun r => s.read.put r.str

/-- `case 'c'`. -/
def putChar (fuel : ℕ) (va : VaList) (d : Spec) (s : State) : Option State := do
  let pad ← padBeforeUnless (has d.flags left) fuel d.widthInt
  let rest ← padBeforeLoop fuel pad.2
  return s.read.put (pad.1 ++ [(s.arg va).setWidth 8] ++ rest.1)

/-- `case 's'`. -/
def putString (fuel : ℕ) (va : VaList) (d : Spec) (s : State) : Option State := do
  let p := s.arg va
  let len := strlen va.mem p
  let len := if d.precisionInt.slt 0#32 then len
    else if d.precisionInt.slt len then d.precisionInt else len
  let pad ← padUnless (has d.flags left) (chr ' ') len fuel d.widthInt
  let text ← stringLoop va.mem len fuel 0#32 p
  let rest ← padLoop (chr ' ') len fuel pad.2
  return s.read.put (pad.1 ++ text ++ rest.1)

/-- `case 'p'`. -/
def putPointer (fuel : ℕ) (va : VaList) (d : Spec) (s : State) : Option State :=
  if d.widthInt = -1#32 then
    putNumber fuel s (s.arg va) 16 16#32 d.precisionInt (d.flags ||| zeropad)
  else putNumber fuel s (s.arg va) 16 d.widthInt d.precisionInt d.flags

/-- `case 'n'`. -/
def storeCount (va : VaList) (d : Spec) (s : State) : State :=
  s.read.store (s.arg va) (if d.qualifier = some (chr 'l') then 8 else 4)

/-- The cases of the second `switch (*fmt)`, at a character `c` other than the terminator. -/
def convert (fuel : ℕ) (va : VaList) (d : Spec) (s : State) (c : Byte) : Option State :=
  let numeral base flags :=
    putNumber fuel s (numberArg va d s) base d.widthInt d.precisionInt flags
  if c = chr 'c' then putChar fuel va d s
  else if c = chr 's' then putString fuel va d s
  else if c = chr 'o' then numeral 8 d.flags
  else if c = chr 'p' then putPointer fuel va d s
  else if c = chr 'x' then numeral 16 (d.flags ||| small)
  else if c = chr 'X' then numeral 16 d.flags
  else if c = chr 'd' ∨ c = chr 'i' then numeral 10 (d.flags ||| sign)
  else if c = chr 'u' then numeral 10 d.flags
  else if c = chr 'n' then some (storeCount va d s)
  else if c = chr '%' then some (s.put [chr '%'])
  else some (s.put [chr '%', c])

/-- The second `switch (*fmt)` and the `fmt++` of the loop behind it. -/
def conversion (fuel : ℕ) (va : VaList) (d : Spec) (s : State) :
    List Byte → Option (State × List Byte)
  | [] => none
  | c :: fmt =>
    if c = 0#8 then some (s.put [chr '%'], c :: fmt)
    else (convert fuel va d s c).map fun s => (s, fmt)

/-- A directive, from behind its `%`. -/
def directive (fuel : ℕ) (va : VaList) (s : State) (fmt : List Byte) :
    Option (State × List Byte) :=
  (parseSpec va s fmt).bind fun r => conversion fuel va r.1 r.2.1 r.2.2

/-- The loop of `vsprintf`, for at most `rounds` rounds. -/
def formatLoop (fuel : ℕ) (va : VaList) : ℕ → List Byte → State → Option State
  | 0, _, _ => none
  | _ + 1, [], _ => none
  | rounds + 1, c :: fmt, s =>
    if c = 0#8 then some s
    else if c = chr '%' then
      (directive fuel va s fmt).bind fun r => formatLoop fuel va rounds r.2 r.1
    else formatLoop fuel va rounds fmt (s.put [c])

/-- `vsprintf(buf, fmt, args)`, with the NUL it stores last. -/
def vsprintf (fuel : ℕ) (va : VaList) (fmt : List Byte) : Option State :=
  (formatLoop fuel va fmt.length fmt ⟨[], 0, []⟩).map fun s => s.put [0#8]

/-! ## Its callers -/

/-- What `_printf` has done: the colour and the text it passes to `print`, the number of
    arguments read and the stores made on the way. -/
structure Printed where
  color : BitVec 16
  text : List Byte
  args : ℕ
  stores : List Store
  deriving DecidableEq

/-- `sizeof(buf)`. -/
def bufSize : ℕ := 512

/-- `_printf(color, fmt, args)`. Output that does not fit `buf` runs over what lies behind it;
    what happens then has no meaning in the source. `print` reads `buf` up to its first NUL. -/
def printf (color : BitVec 16) (va : VaList) (fmt : List Byte) : Option Printed :=
  (vsprintf loopFuel va fmt).bind fun s =>
    if s.str.length ≤ bufSize then
      some ⟨color, s.str.takeWhile (· ≠ 0#8), s.args, s.stores⟩
    else none

/-- `kprintf(fmt, …)`, in `WORD_WHITE`. -/
def kprintf (va : VaList) (fmt : List Byte) : Option Printed := printf 0x07#16 va fmt

/-- The string at `p` with its terminator, of at most `n` bytes. -/
def stringAt (m : Mem) (p : BitVec 64) : ℕ → List Byte
  | 0 => []
  | n + 1 => if m p = 0#8 then [0#8] else m p :: stringAt m (p + 1#64) n

/-- `sys_printf(regs)`: `kprintf((char *)regs->rdi)`. No variadic argument is passed; the words
    of `va` are what the registers and the stack happen to hold. -/
def sysPrintf (va : VaList) (regs : PtRegs) : Option Printed :=
  kprintf va (stringAt va.mem regs.rdi (2 ^ 64))

end HelloOS.Printk.Format
