/-
  The text of a log of prints (`kernel/printk/printk.c`): what `_printf` passes to `print`,
  computed by the formatter from the format and the argument words.
-/
import HelloOS.Printk.Loops
import HelloOS.Printk.Print

namespace HelloOS.Printk

open HelloOS.Lib

/-- The bytes of a text. -/
def chars (s : String) : List (BitVec 8) := s.toList.map Format.chr

/-- The text that `_printf` passes to `print`, of a call whose arguments are no pointers. -/
def Print.text (p : Print) : List (BitVec 8) :=
  ((Format.vsprintf Format.loopFuel ⟨fun k => p.args.getD k 0#64, fun _ => 0#8⟩
    (p.fmt.toList.map Format.chr ++ [0#8])).map fun s => s.str.takeWhile (· ≠ 0#8)).getD []

/-- The text of some calls. -/
def textOf (ps : List Print) : List (BitVec 8) := ps.flatMap Print.text

theorem textOf_append (ps qs : List Print) : textOf (ps ++ qs) = textOf ps ++ textOf qs :=
  List.flatMap_append

theorem text_char (w : BitVec 64) :
    (kprintf "%c" [w]).text = [w.setWidth 8].takeWhile (· ≠ 0#8) := by
  have hrun : Format.vsprintf Format.loopFuel ⟨fun k => [w].getD k 0#64, fun _ => 0#8⟩
      ("%c".toList.map Format.chr ++ [0#8]) = some ⟨[w.setWidth 8, 0#8], 1, []⟩ := rfl
  change ((Format.vsprintf Format.loopFuel ⟨fun k => [w].getD k 0#64, fun _ => 0#8⟩
    ("%c".toList.map Format.chr ++ [0#8])).map fun s => s.str.takeWhile (· ≠ 0#8)).getD [] = _
  rw [hrun]
  by_cases h : w.setWidth 8 = 0#8
  · rw [h]
    rfl
  · simp [h]

theorem setWidth_signExtend (ch : BitVec 8) : (ch.signExtend 64).setWidth 8 = ch := by
  refine BitVec.eq_of_getLsbD_eq fun i hi => ?_
  rw [BitVec.getLsbD_setWidth, BitVec.getLsbD_signExtend]
  simp [hi, show i < 64 by omega]

end HelloOS.Printk
