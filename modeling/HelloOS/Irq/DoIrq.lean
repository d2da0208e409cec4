/-
  Interrupt dispatch (`kernel/irq/irq.c`): `init_interrupt` installs 24 gates and programs
  the two 8259A chips; `do_IRQ` calls the driver of the interrupt it is given and writes an
  end of interrupt.

  The machine is the chips in front of the other devices, the gates, the keyboard driver and
  the log of what has been printed.
-/
import HelloOS.Lib.Pic8259
import HelloOS.Drivers.Keyboard

namespace HelloOS.Irq

open HelloOS.Lib HelloOS.Printk HelloOS.Drivers

variable {σ : Type}

/-- The interrupt side of the kernel; `σ` is the state of the devices. A gate holds the
    number that the stub behind it hands to `do_IRQ`. -/
structure Machine (σ : Type) where
  dev : σ
  gates : BitVec 8 → Option (BitVec 64)
  keyboard : Keyboard
  printed : List Print

namespace Machine

def ioOut8 (bus : Bus σ) (port : BitVec 16) (v : BitVec 8) (s : Machine σ) : Machine σ :=
  { s with dev := bus.out8 port v s.dev }

def print (ps : List Print) (s : Machine σ) : Machine σ := { s with printed := s.printed ++ ps }

@[simp] theorem print_gates (ps : List Print) (s : Machine σ) : (s.print ps).gates = s.gates := rfl

end Machine

/-! ## The handlers -/

/-- `keyboard_handler`. -/
def keyboardHandler (bus : Bus σ) (s : Machine σ) : Machine σ :=
  let (x, dev) := bus.in8 0x60#16 s.dev
  let (keyboard, ps) := parseKeycode x s.keyboard
  { s with dev := dev, keyboard := keyboard }.print ps

/-- `ata_handler_read`, which is empty. -/
def ataHandlerRead (s : Machine σ) : Machine σ := s

/-- `ata_handler_write`. -/
def ataHandlerWrite (s : Machine σ) : Machine σ :=
  s.print [kerrPrintf "write success!!!!!\n" []]

/-- `do_IRQ`, for interrupt `nr`. -/
def doIrq (bus : Bus σ) (nr : BitVec 64) (s : Machine σ) : Machine σ :=
  let s :=
    if nr = 0x21#64 then keyboardHandler bus s
    else if nr = 0x2f#64 then ataHandlerRead s
    else if nr = 0x2e#64 then ataHandlerWrite s
    else s
  let s := if nr ≠ 0x20#64 then s.print (kinfo "\ncode: %x\n" [nr]) else s
  s.ioOut8 bus 0x20#16 0x20#8

/-! ## `init_interrupt` -/

/-- The number that stub `i` of `interrupt_table` hands over; the stubs are
    `IRQ0x20interrupt` to `IRQ0x37interrupt`. -/
def interruptTable (i : Fin 24) : BitVec 64 := BitVec.ofNat 64 (0x20 + i)

/-- `set_intr_gate(i, 0, interrupt_table[i - 32])`. -/
def setIntrGate (s : Machine σ) (i : Fin 24) : Machine σ :=
  { s with gates := fun v =>
      if v = BitVec.ofNat 8 (32 + i) then some (interruptTable i) else s.gates v }

/-- The writes that program the chips, in order. -/
def picWrites : List (BitVec 16 × BitVec 8) :=
  [(0x20#16, 0x11#8), (0x21#16, 0x20#8), (0x21#16, 0x04#8), (0x21#16, 0x01#8),
   (0xa0#16, 0x11#8), (0xa1#16, 0x28#8), (0xa1#16, 0x02#8), (0xa1#16, 0x01#8),
   (0x21#16, 0x00#8), (0xa1#16, 0x00#8)]

/-- `init_interrupt`, up to its `sti`. -/
def initInterrupt (bus : Bus σ) (s : Machine σ) : Machine σ :=
  let s := (List.finRange 24).foldl setIntrGate s
  let s := picWrites.foldl (fun s w => s.ioOut8 bus w.1 w.2) s
  s.print (kinfo "8259A init \n" [])

/-! ## Interrupts -/

/-- The machine with the chips in front of the devices of `σ`. -/
abbrev PicMachine (σ : Type) := Machine (Pics × σ)

def Machine.pics (s : PicMachine σ) : Pics := s.dev.1

@[simp] theorem Machine.print_pics (ps : List Print) (s : PicMachine σ) :
    (s.print ps).pics = s.pics := rfl

/-- An interrupt, delivered while the other devices are in state `dev`. -/
structure Delivery (σ : Type) where
  line : Fin 16
  dev : σ

/-- A delivered interrupt and its handling: the chips hand over the vector, its gate leads to
    the stub, and `do_IRQ` runs to completion. -/
def interrupt (dev : Bus σ) (d : Delivery σ) (s : PicMachine σ) : PicMachine σ :=
  let vector := s.pics.vector d.line
  let s := { s with dev := (s.pics.deliver d.line, d.dev) }
  match s.gates vector with
  | some nr => doIrq (Pics.bus dev) nr s
  | none => s

/-- The states after each of a sequence of interrupts. -/
def afterEach (dev : Bus σ) : List (Delivery σ) → PicMachine σ → List (PicMachine σ)
  | [], _ => []
  | d :: ds, s => interrupt dev d s :: afterEach dev ds (interrupt dev d s)

end HelloOS.Irq
