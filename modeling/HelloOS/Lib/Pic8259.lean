/-
  The 8259A interrupt controller, and the two cascaded chips of a PC.

  A chip is programmed by a sequence of initialisation words (ICW1 to ICW4) and then takes
  operation words. What matters for acknowledgement is its in-service register: delivering a
  line sets the line's bit, an end-of-interrupt command clears one, and while a bit is set
  the line and all lines of lower priority are held back. Line 0 has the highest priority.
  Rotating priorities, special mask mode and the reads of the chips are left out.
-/
import HelloOS.Lib.Port
import Mathlib.Data.Fintype.Basic
import Mathlib.Data.Finset.Sort

namespace HelloOS.Lib

/-- What the next write to a chip's data port is taken for. -/
inductive Expect
  | icw2 | icw3 | icw4 | ocw1
  deriving DecidableEq

structure Pic where
  expect : Expect
  /-- ICW1 announced an ICW4. -/
  icw4 : Bool
  /-- ICW1 said that there is no cascade, so no ICW3. -/
  single : Bool
  /-- The vector of line 0 (ICW2). -/
  base : BitVec 8
  /-- ICW3: on a slave, the master's line it is wired to. -/
  cascade : BitVec 8
  autoEoi : Bool
  mask : BitVec 8
  inService : Finset (Fin 8)
  deriving DecidableEq

namespace Pic

/-- A non-specific end of interrupt: the line of highest priority leaves service. -/
def eoi (s : Finset (Fin 8)) : Finset (Fin 8) := s.filter (fun i => ∃ j ∈ s, j < i)

/-- Exactly the smallest line goes. -/
theorem eoi_eq_erase (s : Finset (Fin 8)) (h : s.Nonempty) : eoi s = s.erase (s.min' h) := by
  ext i
  unfold eoi
  rw [Finset.mem_filter, Finset.mem_erase]
  constructor
  · rintro ⟨hi, j, hj, hlt⟩
    refine ⟨?_, hi⟩
    intro he
    subst he
    exact absurd (s.min'_le j hj) (not_le.mpr hlt)
  · rintro ⟨hne, hi⟩
    exact ⟨hi, _, s.min'_mem h, lt_of_le_of_ne (s.min'_le i hi) (Ne.symm hne)⟩

@[simp] theorem eoi_singleton (i : Fin 8) : eoi {i} = ∅ := by
  rw [eoi_eq_erase _ (Finset.singleton_nonempty i), Finset.min'_singleton, Finset.erase_singleton]

/-- A write to the command port: ICW1, which restarts the chip, or an operation word. -/
def writeCommand (v : BitVec 8) (c : Pic) : Pic :=
  if v.getLsbD 4 then
    { c with expect := .icw2, icw4 := v.getLsbD 0, single := v.getLsbD 1, autoEoi := false,
             mask := 0#8, inService := ∅ }
  else if v.getLsbD 3 then c
  else if v >>> 5 = 1#8 then { c with inService := eoi c.inService }
  else if v >>> 5 = 3#8 then
    { c with inService := c.inService.erase (Fin.ofNat 8 v.toNat) }
  else c

/-- A write to the data port. -/
def writeData (v : BitVec 8) (c : Pic) : Pic :=
  match c.expect with
  | .icw2 =>
    { c with base := v &&& 0xf8#8,
             expect := if !c.single then .icw3 else if c.icw4 then .icw4 else .ocw1 }
  | .icw3 => { c with cascade := v, expect := if c.icw4 then .icw4 else .ocw1 }
  | .icw4 => { c with autoEoi := v.getLsbD 1, expect := .ocw1 }
  | .ocw1 => { c with mask := v }

/-- Line `i` is delivered to the processor. -/
def deliver (i : Fin 8) (c : Pic) : Pic :=
  if c.autoEoi then c else { c with inService := insert i c.inService }

theorem deliver_of_manual {c : Pic} (h : c.autoEoi = false) (i : Fin 8) :
    c.deliver i = { c with inService := insert i c.inService } := by
  unfold deliver
  rw [h]
  exact if_neg Bool.false_ne_true

theorem writeCommand_eoi (c : Pic) :
    c.writeCommand 0x20#8 = { c with inService := eoi c.inService } := rfl

/-- On a chip with nothing in service, delivery and end of interrupt cancel out. -/
theorem deliver_eoi {c : Pic} (h : c.autoEoi = false) (he : c.inService = ∅) (i : Fin 8) :
    (c.deliver i).writeCommand 0x20#8 = c := by
  rw [deliver_of_manual h, writeCommand_eoi, he, insert_empty_eq, eoi_singleton, ← he]

def vector (c : Pic) (i : Fin 8) : BitVec 8 := c.base + BitVec.ofNat 8 i

/-- The chip lets line `i` through: it is not masked and nothing of its priority or above is
    in service. -/
def Accepts (c : Pic) (i : Fin 8) : Prop :=
  c.mask.getLsbD i = false ∧ ∀ j ∈ c.inService, i < j

instance (c : Pic) (i : Fin 8) : Decidable (c.Accepts i) := by
  unfold Accepts
  infer_instance

end Pic

/-! ## Master and slave -/

structure Pics where
  master : Pic
  slave : Pic

namespace Pics

/-- The master's line that the slave is wired to. -/
def slaveLine (p : Pics) : Fin 8 := Fin.ofNat 8 p.slave.cascade.toNat

/-- The 16 lines: 0 to 7 are the master's, 8 to 15 the slave's. -/
def deliver (l : Fin 16) (p : Pics) : Pics :=
  if h : l.val < 8 then { p with master := p.master.deliver ⟨l, h⟩ }
  else
    let k : Fin 8 := ⟨l - 8, by omega⟩
    { master := p.master.deliver p.slaveLine, slave := p.slave.deliver k }

def vector (p : Pics) (l : Fin 16) : BitVec 8 :=
  if h : l.val < 8 then p.master.vector ⟨l, h⟩ else p.slave.vector ⟨l - 8, by omega⟩

/-- A line reaches the processor: its chip, and for a slave line the master as well, lets it
    through. -/
def Accepts (p : Pics) (l : Fin 16) : Prop :=
  if h : l.val < 8 then p.master.Accepts ⟨l, h⟩
  else p.slave.Accepts ⟨l - 8, by omega⟩ ∧ p.master.Accepts p.slaveLine

/-- No line is in service on either chip. -/
def Idle (p : Pics) : Prop := p.master.inService = ∅ ∧ p.slave.inService = ∅

/-- The ports of the two chips. -/
def write (port : BitVec 16) (v : BitVec 8) (p : Pics) : Option Pics :=
  if port = 0x20#16 then some { p with master := p.master.writeCommand v }
  else if port = 0x21#16 then some { p with master := p.master.writeData v }
  else if port = 0xa0#16 then some { p with slave := p.slave.writeCommand v }
  else if port = 0xa1#16 then some { p with slave := p.slave.writeData v }
  else none

/-- The chips in front of the other devices. -/
def bus {σ : Type} (dev : Bus σ) : Bus (Pics × σ) where
  in8 := fun port s => ((dev.in8 port s.2).1, s.1, (dev.in8 port s.2).2)
  out8 := fun port v s =>
    match s.1.write port v with
    | some p => (p, s.2)
    | none => (s.1, dev.out8 port v s.2)
  in16 := fun port s => ((dev.in16 port s.2).1, s.1, (dev.in16 port s.2).2)
  out32 := fun port v s => (s.1, dev.out32 port v s.2)

end Pics

end HelloOS.Lib
