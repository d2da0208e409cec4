/-
  `ignore_int` (`arch/x86/boot/multiboot2.S`), which the gates of vectors without a handler lead
  to.

  It saves the registers, pushes the address of `IRQ_nothing` behind a code selector and enters
  `IRQ_nothing` with a far return (`ignoreInt_enters`), so that no return address is on the
  stack. The word that the `ret` of `IRQ_nothing` takes is the one pushed last before the two,
  `ds` (`ignored_ends`): nothing is restored, there is no `iretq`, and no interrupted code runs
  on (`ignoreInt_never_resumes`). The stubs of `Build_IRQ` do come back (`irq_resumes`).
-/
import HelloOS.Lib.Interrupt
import HelloOS.Lib.Align
import HelloOS.Boot.Descriptors

namespace HelloOS.Entry

open HelloOS.Lib HelloOS.Boot

/-- A C function, up to its `ret`: the stack pointer is as at its entry, the return address is
    still there, and the registers that belong to the caller are as they were. -/
structure CFunction where
  body : Cpu → Cpu
  rsp : ∀ c, (body c).gpr .rsp = c.gpr .rsp
  returnAddress : ∀ c, (body c).mem.read64 (c.gpr .rsp) = c.mem.read64 (c.gpr .rsp)
  saved : ∀ c, ∀ r ∈ [Reg.rbx, .rbp, .r12, .r13, .r14, .r15], (body c).gpr r = c.gpr r

/-- `IRQ_nothing`. -/
def irqNothing : CFunction := ⟨id, fun _ => rfl, fun _ => rfl, fun _ _ _ => rfl⟩

/-- The registers `ignore_int` pushes, in order. -/
def ignoreIntRegs : List Reg :=
  [.rax, .rbx, .rcx, .rdx, .rbp, .rdi, .rsi, .r8, .r9, .r10, .r11, .r12, .r13, .r14, .r15]

/-- `ignore_int`, up to its `lretq`. -/
def ignoreInt (goToIrpNothing : BitVec 64) : List Instr :=
  [.cld] ++ ignoreIntRegs.map .pushq ++
  [.movFromSeg .es .rax, .pushq .rax, .movFromSeg .ds .rax, .pushq .rax] ++
  [.movImm 0x10#64 .rax, .movToSeg .rax .ds, .movToSeg .rax .es,
    .load goToIrpNothing .rax, .pushImm 0x08#64, .pushq .rax]

/-- The words `ignore_int` pushes before it sets up the far return. -/
def ignoreIntWords (c : Cpu) : List (BitVec 64) :=
  ignoreIntRegs.map c.gpr ++ [(c.seg .es).setWidth 64, (c.seg .ds).setWidth 64]

/-- The gate `setup_IDT` stores at every vector. -/
def ignoreGate (ignoreIntAddr : BitVec 64) : Gate := Gate.decode (setupIdtWords ignoreIntAddr)

/-- An interrupt through `ignore_int`, up to the `ret` of the function it enters. -/
def ignored (f : CFunction) (t : Tss) (ignoreIntAddr goToIrpNothing : BitVec 64) (c : Core) :
    Core :=
  ((((c.deliver t (ignoreGate ignoreIntAddr)).onCpu (·.run (ignoreInt goToIrpNothing))).lretq).onCpu
    f.body).ret

variable (c : Cpu) (label : BitVec 64)

/-- The word at `go_to_irp_nothing`, as `ignore_int` finds it. -/
def farTarget : BitVec 64 :=
  (c.mem.pushWords (c.gpr .rsp) (ignoreIntWords c)).read64 label

/-- The segment registers go through `rax`. -/
theorem run_saveSegs :
    c.run [.movFromSeg .es .rax, .pushq .rax, .movFromSeg .ds .rax, .pushq .rax] =
      (c.setReg .rax ((c.seg .ds).setWidth 64)).pushed
        [(c.seg .es).setWidth 64, (c.seg .ds).setWidth 64] := by
  have hne : Reg.rax ≠ .rsp := by decide
  simp only [Cpu.run_cons, Cpu.run_nil, Cpu.exec, Cpu.pushed_setReg _ hne, Cpu.pushed_pushed,
    Cpu.pushed_gpr _ hne, Cpu.pushed_seg, Cpu.setReg_gpr_self, Cpu.setReg_seg, Cpu.setReg_setReg]
  rfl

/-- The saved words are all that is pushed up to there. -/
theorem run_ignoreSaves :
    let c' := c.run ([.cld] ++ ignoreIntRegs.map .pushq ++
      [.movFromSeg .es .rax, .pushq .rax, .movFromSeg .ds .rax, .pushq .rax])
    c'.mem = c.mem.pushWords (c.gpr .rsp) (ignoreIntWords c) ∧
      c'.gpr .rsp = Mem.below (c.gpr .rsp) 17 := by
  have hregs : (c.run [.cld]).run (ignoreIntRegs.map .pushq) =
      (c.run [.cld]).pushed (ignoreIntRegs.map c.gpr) := Cpu.run_pushes _ _ (by decide)
  have hsp : (((c.run [.cld]).pushed (ignoreIntRegs.map c.gpr)).setReg .rax
      ((c.seg .ds).setWidth 64)).gpr .rsp = Mem.below (c.gpr .rsp) 15 := by
    rw [Cpu.setReg_gpr_of_ne _ (by decide), Cpu.pushed_rsp]
    rfl
  have hseg : ((c.run [.cld]).pushed (ignoreIntRegs.map c.gpr)).seg = c.seg := rfl
  rw [Cpu.run_append, Cpu.run_append, hregs, run_saveSegs, hseg]
  dsimp only
  rw [Cpu.pushed_mem, Cpu.pushed_rsp, hsp, Cpu.setReg_mem, Cpu.pushed_mem, Mem.below_below]
  exact ⟨(c.mem.pushWords_append _ (ignoreIntRegs.map c.gpr) _).symm, rfl⟩

/-- The selector and the address for the far return. -/
theorem run_farReturn :
    let c' := c.run [.movImm 0x10#64 .rax, .movToSeg .rax .ds, .movToSeg .rax .es,
      .load label .rax, .pushImm 0x08#64, .pushq .rax]
    c'.mem = c.mem.pushWords (c.gpr .rsp) [0x08#64, c.mem.read64 label] ∧
      c'.gpr .rsp = Mem.below (c.gpr .rsp) 2 := by
  have hne : Reg.rax ≠ .rsp := by decide
  have hne' : Reg.rsp ≠ .rax := by decide
  simp only [Cpu.run_cons, Cpu.run_nil, Cpu.exec, Cpu.pushed_pushed, Cpu.pushed_gpr _ hne,
    Cpu.setReg_gpr_self, Cpu.pushed_rsp, Cpu.pushed_mem, Cpu.setSeg_gpr, Cpu.setSeg_mem,
    Cpu.setReg_gpr_of_ne _ hne', Cpu.setReg_mem]
  exact ⟨rfl, rfl⟩

/-- The machine at the far return: below the saved words lie the selector and the address. -/
theorem run_ignoreInt :
    (c.run (ignoreInt label)).mem =
        c.mem.pushWords (c.gpr .rsp) (ignoreIntWords c ++ [0x08#64, farTarget c label]) ∧
      (c.run (ignoreInt label)).gpr .rsp = Mem.below (c.gpr .rsp) 19 := by
  obtain ⟨hmem, hsp⟩ := run_ignoreSaves c
  unfold ignoreInt
  rw [Cpu.run_append]
  generalize c.run _ = c' at hmem hsp ⊢
  obtain ⟨hmem', hsp'⟩ := run_farReturn c' label
  rw [hmem', hsp', hsp, hmem, Mem.below_below]
  exact ⟨(c.mem.pushWords_append _ (ignoreIntWords c) _).symm, rfl⟩

/-- The three words that the two returns find, lowest first. -/
theorem ignoreInt_stack :
    (c.run (ignoreInt label)).mem.readWords (Mem.below (c.gpr .rsp) 19) 3 =
      [farTarget c label, 0x08#64, (c.seg .ds).setWidth 64] := by
  have hlen : (ignoreIntWords c ++ [0x08#64, farTarget c label]).length = 19 := rfl
  have hrev : (ignoreIntWords c ++ [0x08#64, farTarget c label]).reverse =
      [farTarget c label, 0x08#64, (c.seg .ds).setWidth 64] ++
        (ignoreIntRegs.map c.gpr ++ [(c.seg .es).setWidth 64]).reverse := rfl
  have hwords := c.mem.readWords_pushWords (c.gpr .rsp)
    (ignoreIntWords c ++ [0x08#64, farTarget c label]) (by rw [hlen]; decide)
  rw [hlen, hrev, ← (run_ignoreInt c label).1, Mem.readWords_append _ _ 3 16] at hwords
  exact (List.append_inj hwords (Mem.readWords_length _ _ 3)).1

/-- The far return enters the function whose address is at the label, if the stack is elsewhere. -/
theorem ignoreInt_enters {e : Core}
    (h : Disjoint (Region (Mem.below e.rsp 17) 136) (Region label 8)) :
    (e.onCpu (·.run (ignoreInt label))).lretq.rip = e.cpu.mem.read64 label := by
  have hsp : (e.onCpu (·.run (ignoreInt label))).rsp = Mem.below e.rsp 19 :=
    (run_ignoreInt e.cpu label).2
  have hstack := ignoreInt_stack e.cpu label
  simp only [Mem.readWords, List.cons.injEq] at hstack
  have htarget : farTarget e.cpu label = e.cpu.mem.read64 label :=
    (e.cpu.mem.agreeOn_pushWords e.rsp (ignoreIntWords e.cpu) h).read64
  rw [← htarget, ← hstack.1]
  exact congrArg (e.cpu.run (ignoreInt label)).mem.read64 hsp

/-- A function that is entered by a far return takes the word behind the far address for its
    return address. -/
theorem farEntered (f : CFunction) {d : Core} {target selector next : BitVec 64}
    (h : d.cpu.mem.readWords d.rsp 3 = [target, selector, next]) :
    (d.lretq.onCpu f.body).ret.rip = next ∧
      (d.lretq.onCpu f.body).ret.cs = selector.setWidth 16 ∧
      (d.lretq.onCpu f.body).ret.rsp = d.rsp + 24#64 := by
  simp only [Mem.readWords, BitVec.add_assoc, BitVec.reduceAdd, List.cons.injEq, and_true] at h
  obtain ⟨-, hselector, hnext⟩ := h
  have hsp : d.lretq.cpu.gpr .rsp = d.rsp + 16#64 := Cpu.setReg_gpr_self _ _ _
  have hsp' : (d.lretq.onCpu f.body).rsp = d.rsp + 16#64 := (f.rsp _).trans hsp
  refine ⟨?_, congrArg (BitVec.setWidth 16) hselector, ?_⟩
  · have hkept := f.returnAddress d.lretq.cpu
    rw [hsp] at hkept
    exact (congrArg _ hsp').trans (hkept.trans hnext)
  · refine (Cpu.setReg_gpr_self _ _ _).trans ?_
    rw [hsp', BitVec.add_assoc]
    rfl

/-- Where an ignored interrupt ends: at the address that the selector in `ds` makes, in the
    kernel's code segment, on a stack that still holds the saved words. -/
theorem ignored_ends (f : CFunction) (t : Tss) (ignoreIntAddr : BitVec 64) (c : Core) :
    (ignored f t ignoreIntAddr label c).rip = (c.cpu.seg .ds).setWidth 64 ∧
      (ignored f t ignoreIntAddr label c).cs = 0x08#16 ∧
      (ignored f t ignoreIntAddr label c).rsp =
        Mem.below (c.deliver t (ignoreGate ignoreIntAddr)).rsp 16 := by
  have hds : (c.deliver t (ignoreGate ignoreIntAddr)).cpu.seg = c.cpu.seg := rfl
  unfold ignored
  generalize c.deliver t (ignoreGate ignoreIntAddr) = e at hds ⊢
  have hsp : (e.onCpu (·.run (ignoreInt label))).rsp = Mem.below e.rsp 19 :=
    (run_ignoreInt e.cpu label).2
  have hstack := ignoreInt_stack e.cpu label
  rw [hds] at hstack
  obtain ⟨hrip, hcs, hrsp⟩ := farEntered f (d := e.onCpu (·.run (ignoreInt label)))
    (by rw [hsp]; exact hstack)
  refine ⟨hrip, hcs, hrsp.trans ?_⟩
  rw [hsp, ← Mem.below_below _ 16 3]
  exact Mem.below_add _ 3

/-! ## Nothing runs on -/

/-- The gate has no stack of its own. -/
theorem ignoreGate_eq (ignoreIntAddr : BitVec 64) :
    ignoreGate ignoreIntAddr = ⟨ignoreIntAddr, 8#16, 0#3, 0#5, 0x8e#8, 0#32⟩ := by
  rw [ignoreGate, setupIdtWords_eq, setGateWords_eq, Gate.decode_encode]
  rfl

/-- A stack pointer that was aligned down and had 21 words pushed is not where it was. -/
theorem below_aligned_ne (sp : BitVec 64) : Mem.below (sp &&& ~~~0xf#64) 21 ≠ sp := by
  intro h
  have hmask : (sp &&& ~~~0xf#64).toNat = 2 ^ 4 * (sp.toNat / 2 ^ 4) :=
    toNat_and_highMask sp 4
  have hsp : (Mem.below (sp &&& ~~~0xf#64) 21).toNat = sp.toNat := congrArg BitVec.toNat h
  unfold Mem.below at hsp
  rw [BitVec.toNat_sub, hmask, show (BitVec.ofNat 64 (8 * 21)).toNat = 168 from rfl] at hsp
  have := sp.isLt
  omega

/-- **Ignored interrupts do not return.** Whatever was interrupted, and whatever `IRQ_nothing`
    does as a function, `ignore_int` does not resume it. -/
theorem ignoreInt_never_resumes (f : CFunction) (t : Tss) (ignoreIntAddr label : BitVec 64)
    (c : Core) : ¬ (ignored f t ignoreIntAddr label c).Resumes c := by
  intro h
  obtain ⟨-, hcs, hrsp⟩ := ignored_ends label f t ignoreIntAddr c
  have hcpl : c.cpl = 0#2 := by
    unfold Core.cpl
    rw [← h.cs, hcs]
    rfl
  have hrsp' : (ignored f t ignoreIntAddr label c).rsp = Mem.below (c.rsp &&& ~~~0xf#64) 21 := by
    rw [hrsp, Core.deliver_rsp, Mem.below_below,
      Core.interruptStack_of_kernel c (by rw [ignoreGate_eq]) hcpl]
  exact below_aligned_ne c.rsp (hrsp'.symm.trans (h.gpr .rsp))

/-- The kernel at a breakpoint. -/
def atBreakpoint : Core where
  cpu := { zeroCpu with seg := fun _ => 0x10#16, intr := true }
  rip := 0xffff800000104000#64
  cs := 0x8#16
  ss := 0x10#16
  flags := 0x2#64

/-- It goes on at address 0x10. -/
theorem breakpoint_not_resumed :
    let r := ignored irqNothing ⟨0#64, fun _ => 0#64⟩ 0x100200#64 0x1001f8#64 atBreakpoint
    r.rip = 0x10#64 ∧ ¬ r.Resumes atBreakpoint := by
  intro r
  obtain ⟨hrip, -, -⟩ := ignored_ends 0x1001f8#64 irqNothing ⟨0#64, fun _ => 0#64⟩ 0x100200#64
    atBreakpoint
  refine ⟨hrip, fun h => ?_⟩
  have hne : (0xffff800000104000#64 : BitVec 64) ≠ 0x10#64 := by decide
  exact hne (h.rip.symm.trans hrip)

end HelloOS.Entry
