/-
  The keyboard driver (`drivers/keyboard/keyboard.c`, `include/keyboard.h`): one interrupt
  reads one scan code and prints at most one character.
-/
import HelloOS.Lib.Port
import HelloOS.Printk.Print

namespace HelloOS.Drivers

open HelloOS.Lib HelloOS.Printk

/-- The keys of `keycode_map_normal`, from scan code 0: unshifted and shifted. The rest of
    its `NR_SCAN_CODES` rows is zero. -/
def keycodeRows : List (Char × Char) :=
  [('\x00', '\x00'), ('\x00', '\x00'), ('1', '!'), ('2', '@'), ('3', '#'), ('4', '$'),
   ('5', '%'), ('6', '^'), ('7', '&'), ('8', '*'), ('9', '('), ('0', ')'), ('-', '_'),
   ('=', '+'), ('\x00', '\x00'), ('\x00', '\x00'), ('q', 'Q'), ('w', 'W'), ('e', 'E'),
   ('r', 'R'), ('t', 'T'), ('y', 'Y'), ('u', 'U'), ('i', 'I'), ('o', 'O'), ('p', 'P'),
   ('[', '\x7b'), (']', '\x7d'), ('\x00', '\x00'), ('\x1d', '\x1d'), ('a', 'A'), ('s', 'S'),
   ('d', 'D'), ('f', 'F'), ('g', 'G'), ('h', 'H'), ('j', 'J'), ('k', 'K'), ('l', 'L'),
   (';', ':'), ('\x27', '\x22'), ('\x60', '~'), ('\x2a', '\x2a'), ('\x5c', '|'), ('z', 'Z'),
   ('x', 'X'), ('c', 'C'), ('v', 'V'), ('b', 'B'), ('n', 'N'), ('m', 'M'), (',', '<'),
   ('.', '>'), ('/', '?'), ('\x36', '\x36'), ('*', '*'), ('\x38', '\x38'), (' ', ' ')]

/-- `keycode_map_normal[x*MAP_COLS + column]`. -/
def keycodeMapNormal (x : BitVec 8) (column : Bool) : BitVec 32 :=
  match keycodeRows[x.toNat]? with
  | some (normal, shifted) => BitVec.ofNat 32 (if column then shifted else normal).toNat
  | none => 0#32

/-- The driver's static variables. `ctrl_l` to `alt_r` are never used. -/
structure Keyboard where
  shiftL : Bool
  shirtR : Bool
  deriving DecidableEq

/-- `parse_keycode(x)`: the driver's new state, and what it prints. -/
def parseKeycode (x : BitVec 8) (k : Keyboard) : Keyboard × List Print :=
  let make := !x.getLsbD 7
  let column := k.shiftL || k.shirtR
  let code := x &&& 0x7f#8
  let key := keycodeMapNormal code column
  if code = 0x2a#8 then ({ k with shiftL := make }, [])
  else if code = 0x36#8 then ({ k with shirtR := make }, [])
  else if make && key != 0#32 then (k, [kprintf "%c" [(key.setWidth 8).signExtend 64]])
  else (k, [])

end HelloOS.Drivers
