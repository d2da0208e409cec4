/-
  The calls that write to the screen (`kernel/printk/printk.c`, `include/kprint.h`), as a
  log: which format was printed with which arguments in which colour. What becomes of a
  format is the subject of other modules; for the code that prints it is output only.
-/

namespace HelloOS.Printk

/-- `WORD_RED`. -/
def wordRed : BitVec 16 := 0x04#16

/-- `WORD_WHITE`. -/
def wordWhite : BitVec 16 := 0x07#16

/-- One call of `_printf`: `args` are the words of the argument list. -/
structure Print where
  color : BitVec 16
  fmt : String
  args : List (BitVec 64)
  deriving DecidableEq

def kprintf (fmt : String) (args : List (BitVec 64)) : Print := ⟨wordWhite, fmt, args⟩

def kerrPrintf (fmt : String) (args : List (BitVec 64)) : Print := ⟨wordRed, fmt, args⟩

/-- `kinfo`. -/
def kinfo (fmt : String) (args : List (BitVec 64)) : List Print :=
  [kprintf "[info] " [], kprintf fmt args]

end HelloOS.Printk
