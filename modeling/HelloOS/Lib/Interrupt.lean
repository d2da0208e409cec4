/-
  Interrupts and returns in 64-bit mode.

  `Core` is a `Cpu` with what an interrupt saves beside the registers: `rip`, `cs`, `ss` and the
  flags. `deliver` takes an interrupt through a gate to code of privilege level 0, and `iretq`
  takes it back; `ret` and `lretq` are the near and the far return. Segment checks are not
  modelled: what is loaded into a segment register is taken to be a segment.

  `Resumes c c'` says that `c` runs on where `c'` was interrupted. An `iretq` on the frame that
  `deliver` pushed does so, if the registers are as they were (`resumes_iretq`).
-/
import HelloOS.Lib.Descriptor
import HelloOS.Lib.X86

namespace HelloOS.Lib

/-- A processor. `flags` is `rflags`, but for the bits that `cpu` has. -/
structure Core where
  cpu : Cpu
  rip : BitVec 64
  cs : BitVec 16
  ss : BitVec 16
  flags : BitVec 64

/-- The stacks of the task state segment: the one of level 0 and the table of `ist`. -/
structure Tss where
  rsp0 : BitVec 64
  ist : BitVec 3 → BitVec 64

/-- The segment at `base`: the stack of level 0 at offset 4, that of `ist` 1 at offset 36. -/
def Tss.load (m : Mem) (base : BitVec 64) : Tss where
  rsp0 := m.read64 (base + 4#64)
  ist i := m.read64 (base + (28#64 + 8#64 * i.setWidth 64))

namespace Core

variable (c : Core)

/-- The current privilege level. -/
def cpl : BitVec 2 := c.cs.setWidth 2

def rsp : BitVec 64 := c.cpu.gpr .rsp

/-- IF is bit 9 and DF bit 10. -/
def rflags : BitVec 64 :=
  c.flags.extractLsb' 11 53 ++ BitVec.ofBool c.cpu.df ++ BitVec.ofBool c.cpu.intr ++
    c.flags.setWidth 9

def setRflags (v : BitVec 64) : Core :=
  { c with cpu := { c.cpu with intr := v.getLsbD 9, df := v.getLsbD 10 }, flags := v }

theorem setRflags_rflags (v : BitVec 64) : (c.setRflags v).rflags = v := by
  unfold rflags setRflags
  refine BitVec.eq_of_getLsbD_eq fun i hi => ?_
  simp only [BitVec.getLsbD_append, BitVec.getLsbD_extractLsb', BitVec.getLsbD_setWidth,
    BitVec.getLsbD_ofBool]
  grind

/-! ## Interrupts -/

/-- The stack an interrupt through `g` is taken on. -/
def interruptStack (t : Tss) (g : Gate) : BitVec 64 :=
  if g.ist ≠ 0#3 then t.ist g.ist else if c.cpl ≠ 0#2 then t.rsp0 else c.rsp

/-- What the CPU pushes, `ss` first. -/
def frameWords : List (BitVec 64) :=
  [c.ss.setWidth 64, c.rsp, c.rflags, c.cs.setWidth 64, c.rip]

/-- An interrupt through `g`. TF, NT, RF and VM are cleared; a trap gate leaves IF alone. -/
def deliver (t : Tss) (g : Gate) : Core where
  cpu := { (c.cpu.setReg .rsp (c.interruptStack t g &&& ~~~0xf#64)).pushed c.frameWords with
    intr := c.cpu.intr && g.attr.setWidth 4 == 0xf#4 }
  rip := g.offset
  cs := g.selector &&& ~~~0x3#16
  ss := if c.cpl ≠ 0#2 then 0#16 else c.ss
  flags := c.flags &&& ~~~0x34100#64

/-- Code that leaves the other registers alone. -/
def onCpu (f : Cpu → Cpu) : Core := { c with cpu := f c.cpu }

/-- The near return. -/
def ret : Core :=
  { c with cpu := c.cpu.setReg .rsp (c.rsp + 8#64), rip := c.cpu.mem.read64 c.rsp }

/-- The far return to the same privilege level. -/
def lretq : Core :=
  { c with
    cpu := c.cpu.setReg .rsp (c.rsp + 16#64)
    rip := c.cpu.mem.read64 c.rsp
    cs := (c.cpu.mem.read64 (c.rsp + 8#64)).setWidth 16 }

/-- The return from an interrupt. -/
def iretq : Core :=
  setRflags
    { c with
      cpu := c.cpu.setReg .rsp (c.cpu.mem.read64 (c.rsp + 24#64))
      rip := c.cpu.mem.read64 c.rsp
      cs := (c.cpu.mem.read64 (c.rsp + 8#64)).setWidth 16
      ss := (c.cpu.mem.read64 (c.rsp + 32#64)).setWidth 16 }
    (c.cpu.mem.read64 (c.rsp + 16#64))

/-- `c` runs on where `c'` was interrupted, with the registers of `c'`. -/
structure Resumes (c c' : Core) : Prop where
  rip : c.rip = c'.rip
  cs : c.cs = c'.cs
  ss : c.ss = c'.ss
  rflags : c.rflags = c'.rflags
  gpr : ∀ r, c.cpu.gpr r = c'.cpu.gpr r
  ds : c.cpu.seg .ds = c'.cpu.seg .ds
  es : c.cpu.seg .es = c'.cpu.seg .es

/-! ## The frame -/

/-- Without a stack of its own, a gate leaves code of level 0 on the stack it has. -/
theorem interruptStack_of_kernel {t : Tss} {g : Gate} (hist : g.ist = 0#3) (hcpl : c.cpl = 0#2) :
    c.interruptStack t g = c.rsp := by
  rw [interruptStack, if_neg (not_not_intro hist), if_neg (not_not_intro hcpl)]

/-- Without a stack of its own, a gate takes code of a lower level to the stack of level 0. -/
theorem interruptStack_of_user {t : Tss} {g : Gate} (hist : g.ist = 0#3) (hcpl : c.cpl ≠ 0#2) :
    c.interruptStack t g = t.rsp0 := by
  rw [interruptStack, if_neg (not_not_intro hist), if_pos hcpl]

theorem deliver_rsp (t : Tss) (g : Gate) :
    (c.deliver t g).rsp = Mem.below (c.interruptStack t g &&& ~~~0xf#64) 5 :=
  (Cpu.pushed_rsp _ _).trans (by rw [Cpu.setReg_gpr_self]; rfl)

theorem deliver_gpr (t : Tss) (g : Gate) {r : Reg} (hr : r ≠ .rsp) :
    (c.deliver t g).cpu.gpr r = c.cpu.gpr r :=
  (Cpu.pushed_gpr _ hr _).trans (Cpu.setReg_gpr_of_ne _ hr _)

theorem deliver_mem (t : Tss) (g : Gate) : (c.deliver t g).cpu.mem =
    c.cpu.mem.pushWords (c.interruptStack t g &&& ~~~0xf#64) c.frameWords :=
  (Cpu.pushed_mem _ _).trans (by rw [Cpu.setReg_gpr_self, Cpu.setReg_mem])

theorem iretq_mem : c.iretq.cpu.mem = c.cpu.mem := rfl

/-- The frame of an interrupt, at the new stack pointer. -/
theorem deliver_frame (t : Tss) (g : Gate) :
    (c.deliver t g).cpu.mem.readWords (c.deliver t g).rsp 5 =
      [c.rip, c.cs.setWidth 64, c.rflags, c.rsp, c.ss.setWidth 64] := by
  have hlen : c.frameWords.length = 5 := rfl
  rw [deliver_rsp, deliver_mem]
  exact c.cpu.mem.readWords_pushWords _ c.frameWords (by rw [hlen]; decide)

/-- A selector that was pushed reads back. -/
theorem setWidth_setWidth_word (s : BitVec 16) : (s.setWidth 64).setWidth 16 = s := by
  rw [BitVec.setWidth_setWidth_of_le _ (by decide), BitVec.setWidth_eq]

/-- An `iretq` on the frame of `c'`, with the registers of `c'`, resumes it. -/
theorem resumes_iretq {c c' : Core}
    (hframe : c.cpu.mem.readWords c.rsp 5 =
      [c'.rip, c'.cs.setWidth 64, c'.rflags, c'.rsp, c'.ss.setWidth 64])
    (hgpr : ∀ r, r ≠ .rsp → c.cpu.gpr r = c'.cpu.gpr r) (hds : c.cpu.seg .ds = c'.cpu.seg .ds)
    (hes : c.cpu.seg .es = c'.cpu.seg .es) : c.iretq.Resumes c' := by
  simp only [Mem.readWords, BitVec.add_assoc, BitVec.reduceAdd, List.cons.injEq,
    and_true] at hframe
  obtain ⟨hrip, hcs, hflags, hrsp, hss⟩ := hframe
  constructor
  · exact hrip
  · exact (congrArg (BitVec.setWidth 16) hcs).trans (setWidth_setWidth_word c'.cs)
  · exact (congrArg (BitVec.setWidth 16) hss).trans (setWidth_setWidth_word c'.ss)
  · exact (setRflags_rflags _ _).trans hflags
  · intro r
    by_cases hr : r = .rsp
    · subst hr
      exact (Cpu.setReg_gpr_self c.cpu .rsp _).trans hrsp
    · exact (Cpu.setReg_gpr_of_ne c.cpu hr _).trans (hgpr r hr)
  · exact hds
  · exact hes

end Core

end HelloOS.Lib
