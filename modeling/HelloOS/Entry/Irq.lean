/-
  The interrupt stubs: `Build_IRQ` (`kernel/irq/irq.c`) and `ret_from_intr`
  (`kernel/entry.S`).

  At a stub's entry the CPU has pushed `ss`, `rsp`, `rflags`, `cs` and `rip`. The stub pushes
  an error code of 0, the word of the `func` field and the registers, so that the stack
  pointer is a `struct pt_regs *`, and enters `do_IRQ` with `ret_from_intr` as the return
  address. `do_IRQ` itself is left open: what is assumed of it is that it returns to that
  address with the stack balanced, and leaves the `pt_regs` alone. The `iretq` then resumes
  what was interrupted (`irq_resumes`).
-/
import HelloOS.Entry.Regs
import HelloOS.Lib.Interrupt

namespace HelloOS.Entry

open HelloOS.Lib

/-- `SAVE_ALL_REGS`. -/
def saveAllRegs : List Instr := [.cld, .pushq .rax] ++ saveRegs

/-- `Build_IRQ(nr)`, up to its `jmp do_IRQ`; `retFromIntr` is the address of `ret_from_intr`. -/
def buildIrq (nr retFromIntr : BitVec 64) : List Instr :=
  [.pushImm 0#64] ++ saveAllRegs ++
  [.movq .rsp .rdi, .leaq retFromIntr .rax, .pushq .rax, .movImm nr .rsi]

/-- `ret_from_intr`, up to its `iretq`. -/
def retFromIntr : List Instr := restoreRegs ++ [.addImm 0x10#64 .rsp, .sti]

/-- The `pt_regs` of the interrupted machine `c`: its registers, and the frame the CPU pushed,
    which its stack pointer points at. -/
def interruptedRegs (c : Cpu) : PtRegs :=
  PtRegs.ofCpu c (c.gpr .rax) 0#64 (c.mem.read64 (c.gpr .rsp)) (c.mem.read64 (c.gpr .rsp + 8#64))
    (c.mem.read64 (c.gpr .rsp + 16#64)) (c.mem.read64 (c.gpr .rsp + 24#64))
    (c.mem.read64 (c.gpr .rsp + 32#64))

theorem interruptedRegs_toList (c : Cpu) :
    (interruptedRegs c).toList = ([0#64, c.gpr .rax] ++ savedWords c).reverse ++
      c.mem.readWords (c.gpr .rsp) 5 := by
  simp only [Mem.readWords, BitVec.add_assoc]
  rfl

variable (c : Cpu) (nr ret : BitVec 64)

/-- The machine at the entry of `do_IRQ`. -/
theorem run_buildIrq :
    (c.run (buildIrq nr ret)).mem =
        c.mem.pushWords (c.gpr .rsp) ([0#64, c.gpr .rax] ++ savedWords c ++ [ret]) ∧
      (c.run (buildIrq nr ret)).gpr .rsp = Mem.below (c.gpr .rsp) 20 ∧
      (c.run (buildIrq nr ret)).gpr .rdi = Mem.below (c.gpr .rsp) 19 ∧
      (c.run (buildIrq nr ret)).gpr .rsi = nr := by
  have hhead : (c.run [.pushImm 0#64]).run [.cld, .pushq .rax] =
      ({ c with df := false } : Cpu).pushed [0#64, c.gpr .rax] := by
    rw [show [0#64, c.gpr .rax] = [0#64] ++ [c.gpr .rax] from rfl, ← Cpu.pushed_pushed]
    rfl
  have hwords : savedWords (({ c with df := false } : Cpu).pushed [0#64, c.gpr .rax]) =
      savedWords c := rfl
  obtain ⟨hmem, hsp⟩ := run_saveRegs (({ c with df := false } : Cpu).pushed [0#64, c.gpr .rax])
  rw [hwords, Cpu.pushed_mem, Cpu.pushed_rsp, ← Mem.pushWords_append] at hmem
  rw [Cpu.pushed_rsp, Mem.below_below, show [0#64, c.gpr .rax].length + 17 = 19 from rfl] at hsp
  change _ = c.mem.pushWords (c.gpr .rsp) ([0#64, c.gpr .rax] ++ savedWords c) at hmem
  change _ = Mem.below (c.gpr .rsp) 19 at hsp
  unfold buildIrq saveAllRegs
  rw [Cpu.run_append, Cpu.run_append, Cpu.run_append, hhead]
  generalize (({ c with df := false } : Cpu).pushed [0#64, c.gpr .rax]).run saveRegs = c'
    at hmem hsp
  -- the tail points `rdi` at the frame and pushes the return address
  have htail : c'.run [.movq .rsp .rdi, .leaq ret .rax, .pushq .rax, .movImm nr .rsi] =
      ((((c'.setReg .rdi (c'.gpr .rsp)).setReg .rax ret).setReg .rsi nr).pushed [ret]) := by
    rw [← Cpu.pushed_setReg _ (by decide)]
    simp only [Cpu.run_cons, Cpu.run_nil, Cpu.exec, Cpu.setReg_gpr_self]
  have hrsp : (((c'.setReg .rdi (c'.gpr .rsp)).setReg .rax ret).setReg .rsi nr).gpr .rsp =
      Mem.below (c.gpr .rsp) 19 := by
    rw [Cpu.setReg_gpr_of_ne _ (by decide), Cpu.setReg_gpr_of_ne _ (by decide),
      Cpu.setReg_gpr_of_ne _ (by decide), hsp]
  rw [htail, Cpu.pushed_mem, Cpu.pushed_rsp, hrsp, Mem.below_below]
  refine ⟨?_, rfl, ?_, ?_⟩
  · rw [Cpu.setReg_mem, Cpu.setReg_mem, Cpu.setReg_mem, hmem,
      Mem.pushWords_append _ _ ([0#64, c.gpr .rax] ++ savedWords c) [ret],
      show ([0#64, c.gpr .rax] ++ savedWords c).length = 19 from rfl]
  · rw [Cpu.pushed_gpr _ (by decide), Cpu.setReg_gpr_of_ne _ (by decide),
      Cpu.setReg_gpr_of_ne _ (by decide), Cpu.setReg_gpr_self, hsp]
  · rw [Cpu.pushed_gpr _ (by decide), Cpu.setReg_gpr_self]

/-- What `do_IRQ` finds on the stack: the frame's words, and below them its return address. -/
theorem buildIrq_stack :
    let c' := c.run (buildIrq nr ret)
    c'.mem.read64 (c'.gpr .rsp) = ret ∧
      c'.mem.readWords (c'.gpr .rdi) 24 = (interruptedRegs c).toList := by
  intro c'
  obtain ⟨hmem, hsp, hdi, -⟩ := run_buildIrq c nr ret
  have hlen : ([0#64, c.gpr .rax] ++ savedWords c).length = 19 := rfl
  obtain ⟨hret, hframe⟩ := c.mem.pushWords_concat (c.gpr .rsp) ([0#64, c.gpr .rax] ++ savedWords c)
    ret (by rw [hlen]; decide)
  have hcpu := c.mem.readWords_above_pushWords (c.gpr .rsp)
    ([0#64, c.gpr .rax] ++ savedWords c ++ [ret]) (k := 5)
    (by rw [List.length_append, hlen, List.length_singleton]; decide)
    (by rw [List.length_append, hlen, List.length_singleton]; decide)
  rw [hlen, ← hmem] at hret hframe
  rw [← hmem] at hcpu
  refine ⟨by rw [hsp]; exact hret, ?_⟩
  rw [hdi, Mem.readWords_append _ _ 19 5, Mem.below_add, hframe, hcpu, interruptedRegs_toList]

/-- The end of `ret_from_intr`: it drops two words and enables interrupts. -/
theorem run_retFromIntr :
    (∀ r, r ≠ .rsp → (c.run retFromIntr).gpr r = (c.run restoreRegs).gpr r) ∧
      (c.run retFromIntr).gpr .rsp = (c.run restoreRegs).gpr .rsp + 0x10#64 ∧
      (c.run retFromIntr).seg = (c.run restoreRegs).seg ∧
      (c.run retFromIntr).mem = (c.run restoreRegs).mem := by
  unfold retFromIntr
  rw [Cpu.run_append]
  generalize c.run restoreRegs = d
  simp only [Cpu.run_cons, Cpu.run_nil, Cpu.exec]
  exact ⟨fun r hr => d.setReg_gpr_of_ne hr _, d.setReg_gpr_self _ _, rfl, rfl⟩

/-- `ret_from_intr` undoes `Build_IRQ`, whatever machine `c₂` it runs on, if the stack is
    balanced and the `pt_regs` unmodified. -/
theorem retFromIntr_restores {c c₂ : Cpu} {nr ret : BitVec 64}
    (hbal : c₂.gpr .rsp = (c.run (buildIrq nr ret)).gpr .rsp + 8#64)
    (hkeep : Mem.AgreeOn (Region ((c.run (buildIrq nr ret)).gpr .rdi) 192) c₂.mem
      (c.run (buildIrq nr ret)).mem) :
    let c₃ := c₂.run retFromIntr
    (∀ r, r ≠ .rsp → c₃.gpr r = c.gpr r) ∧ c₃.seg .ds = c.seg .ds ∧ c₃.seg .es = c.seg .es ∧
      c₃.gpr .rsp = c.gpr .rsp ∧
      c₃.mem.readWords (c.gpr .rsp) 5 = c.mem.readWords (c.gpr .rsp) 5 := by
  obtain ⟨-, hsp, hdi, -⟩ := run_buildIrq c nr ret
  obtain ⟨-, hframe⟩ := buildIrq_stack c nr ret
  generalize (c.run (buildIrq nr ret)).gpr .rdi = frame at hdi hframe hkeep
  have hsp₂ : c₂.gpr .rsp = frame := by
    rw [hbal, hsp, Mem.below_add_word, hdi]
  have hwords : c₂.mem.readWords frame 24 = (savedWords c).reverse ++ ([c.gpr .rax, 0#64] ++
      c.mem.readWords (c.gpr .rsp) 5) := by
    rw [hkeep.readWords (n := 24), hframe, interruptedRegs_toList, List.reverse_append,
      List.append_assoc]
    rfl
  rw [c₂.mem.readWords_append frame 17 7] at hwords
  obtain ⟨hsaved, hrest⟩ := List.append_inj hwords (by simp [savedWords_length])
  rw [← hsp₂] at hsaved
  obtain ⟨hgpr, hds, hes, hsp₃, hmem₃⟩ := restoreRegs_of_saved c₂ hsaved
  have hend : c₂.gpr .rsp + 136#64 + 0x10#64 = c.gpr .rsp := by
    rw [hsp₂, hdi, BitVec.add_assoc]
    exact Mem.below_add _ 19
  -- the words above `func` and `errcode` are the CPU's
  have hcpu : c₂.mem.readWords (c.gpr .rsp) 5 = c.mem.readWords (c.gpr .rsp) 5 := by
    rw [c₂.mem.readWords_append _ 2 5] at hrest
    have h := (List.append_inj hrest rfl).2
    rwa [show frame + BitVec.ofNat 64 (8 * 17) + BitVec.ofNat 64 (8 * 2) = c.gpr .rsp by
      rw [← hsp₂]; exact hend] at h
  obtain ⟨hgpr₃, hsp₄, hseg₃, hmem₄⟩ := run_retFromIntr c₂
  refine ⟨fun r hr => ?_, ?_, ?_, ?_, ?_⟩
  · rw [hgpr₃ r hr, hgpr r hr]
  · rw [hseg₃, hds]
  · rw [hseg₃, hes]
  · rw [hsp₄, hsp₃, hend]
  · rw [hmem₄, hmem₃, hcpu]

/-- **Interrupt transparency.** For every machine `c` at the entry of a stub, `do_IRQ` gets
    in `rdi` the address of a `pt_regs` with exactly the interrupted values, and in `rsi` the
    vector. Whatever machine `c₂` it returns with, if the stack is balanced and the `pt_regs`
    unmodified, `ret_from_intr` reaches `iretq` with all registers restored and the stack
    pointer on the frame the CPU pushed, which is as it was. -/
theorem irq_transparent (c c₂ : Cpu) (nr ret : BitVec 64) :
    let c₁ := c.run (buildIrq nr ret)
    let frame := c₁.gpr .rdi
    (PtRegs.read c₁.mem frame = interruptedRegs c ∧ c₁.gpr .rsi = nr ∧
      c₁.mem.read64 (c₁.gpr .rsp) = ret) ∧
    (c₂.gpr .rsp = c₁.gpr .rsp + 8#64 → Mem.AgreeOn (Region frame 192) c₂.mem c₁.mem →
      let c₃ := c₂.run retFromIntr
      (∀ r, r ≠ .rsp → c₃.gpr r = c.gpr r) ∧ c₃.seg .ds = c.seg .ds ∧ c₃.seg .es = c.seg .es ∧
        c₃.gpr .rsp = c.gpr .rsp ∧
        c₃.mem.readWords (c.gpr .rsp) 5 = c.mem.readWords (c.gpr .rsp) 5) := by
  intro c₁ frame
  obtain ⟨-, -, -, hsi⟩ := run_buildIrq c nr ret
  obtain ⟨hret, hframe⟩ := buildIrq_stack c nr ret
  refine ⟨⟨?_, hsi, hret⟩, fun hbal hkeep => retFromIntr_restores hbal hkeep⟩
  apply PtRegs.toList_injective
  rw [PtRegs.toList_read]
  exact hframe

/-- A `do_IRQ` that leaves nothing as it was, but for the stack. -/
theorem irq_transparent_busy :
    let c₁ := busyCpu.run (buildIrq 0x21#64 0x1000#64)
    PtRegs.read c₁.mem (c₁.gpr .rdi) = interruptedRegs busyCpu ∧
      ∀ r, ((clobbered c₁).run retFromIntr).gpr r = busyCpu.gpr r := by
  intro c₁
  obtain ⟨⟨hread, -, -⟩, h⟩ := irq_transparent busyCpu (clobbered c₁) 0x21#64 0x1000#64
  have hframe : c₁.gpr .rdi = Mem.below 0x9000#64 19 :=
    (run_buildIrq busyCpu 0x21#64 0x1000#64).2.2.1
  have hkeep : Mem.AgreeOn (Region (c₁.gpr .rdi) 192) (clobbered c₁).mem c₁.mem := by
    rw [hframe]
    exact c₁.mem.agreeOn_write64 _ _ (disjoint_of_le (by decide) (by decide))
  obtain ⟨hgpr, -, -, hrsp, -⟩ := h (clobbered_rsp c₁) hkeep
  refine ⟨hread, fun r => ?_⟩
  by_cases hr : r = .rsp
  · rw [hr]
    exact hrsp
  · exact hgpr r hr

/-- The words of an interrupt: the CPU's frame, and what the stub pushes. -/
def irqWords (t : Tss) (g : Gate) (c : Core) (ret : BitVec 64) : List (BitVec 64) :=
  c.frameWords ++ ([0#64, (c.deliver t g).cpu.gpr .rax] ++ savedWords (c.deliver t g).cpu ++ [ret])

/-- Up to `do_IRQ`, memory changes by these pushes only. -/
theorem run_deliver_mem (t : Tss) (g : Gate) (c : Core) (nr ret : BitVec 64) :
    ((c.deliver t g).cpu.run (buildIrq nr ret)).mem =
      c.cpu.mem.pushWords (c.interruptStack t g &&& ~~~0xf#64) (irqWords t g c ret) := by
  have hsp : (c.deliver t g).cpu.gpr .rsp = Mem.below (c.interruptStack t g &&& ~~~0xf#64) 5 :=
    c.deliver_rsp t g
  rw [(run_buildIrq (c.deliver t g).cpu nr ret).1, hsp, c.deliver_mem]
  exact (c.cpu.mem.pushWords_append _ c.frameWords _).symm

/-- From the interrupt to the `iretq`: a stub resumes what was interrupted. -/
theorem irq_resumes (t : Tss) (g : Gate) (c : Core) {c₂ : Cpu} {nr ret : BitVec 64}
    (hbal : c₂.gpr .rsp = ((c.deliver t g).cpu.run (buildIrq nr ret)).gpr .rsp + 8#64)
    (hkeep : Mem.AgreeOn (Region (((c.deliver t g).cpu.run (buildIrq nr ret)).gpr .rdi) 192) c₂.mem
      ((c.deliver t g).cpu.run (buildIrq nr ret)).mem) :
    ((c.deliver t g).onCpu fun _ => c₂.run retFromIntr).iretq.Resumes c := by
  obtain ⟨hgpr, hds, hes, hrsp, hframe⟩ := retFromIntr_restores hbal hkeep
  refine Core.resumes_iretq ?_ (fun r hr => (hgpr r hr).trans (c.deliver_gpr t g hr)) hds hes
  exact (congrArg (Mem.readWords _ · 5) hrsp).trans (hframe.trans (c.deliver_frame t g))

end HelloOS.Entry
