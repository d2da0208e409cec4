/-
  System calls that are interrupted.

  `system_call` enables interrupts with its first instruction, so that from then on an interrupt
  may be taken between any two instructions of the path, on the stack that the path itself runs
  on. `KernelStack.interrupts` are these interrupts: the CPU's frame, the stub, `do_IRQ`,
  `ret_from_intr` and the `iretq`. Each of them comes back with the registers it found and writes
  below the stack pointer only, beside the memory of its handlers (`step_gpr`, `step_mem`).

  So they do not show: the handler of the call finds the user's registers in its `pt_regs`, and
  the user gets them back (`systemCall_preempted`).
-/
import HelloOS.Entry.Irq
import HelloOS.Entry.Syscall
import HelloOS.Lib.Align
import HelloOS.Lib.Preempt

namespace HelloOS.Entry

open HelloOS.Lib

/-! ## Interrupts on a kernel stack -/

/-- A kernel stack of `len` bytes from `low` on, and the memory outside it that the interrupt
    handlers may write. -/
structure KernelStack where
  low : BitVec 64
  len : ℕ
  handlers : Set (BitVec 64)
  len_le : len ≤ 2 ^ 63
  apart : Disjoint handlers (Region low len)

/-- A stack pointer with room for the frame and the words of an interrupt. -/
def KernelStack.Ok (k : KernelStack) (sp : BitVec 64) : Prop :=
  216 ≤ (sp - k.low).toNat ∧ (sp - k.low).toNat ≤ k.len

/-- What is assumed of `do_IRQ`, which the stub of `nr` calls in an interrupt of `c` and which
    leaves the machine as `c₂`: the stack is balanced, the `pt_regs`, `fs` and `gs` are not
    modified, and it writes to the stack below the interrupted stack pointer and to the handlers'
    memory only. -/
structure KernelStack.Returned (k : KernelStack) (c : Core) (t : Tss) (g : Gate)
    (nr ret : BitVec 64) (c₂ : Cpu) : Prop where
  balanced : c₂.gpr .rsp = ((c.deliver t g).cpu.run (buildIrq nr ret)).gpr .rsp + 8#64
  keeps : Mem.AgreeOn (Region (((c.deliver t g).cpu.run (buildIrq nr ret)).gpr .rdi) 192) c₂.mem
    ((c.deliver t g).cpu.run (buildIrq nr ret)).mem
  fs : c₂.seg .fs = c.cpu.seg .fs
  gs : c₂.seg .gs = c.cpu.seg .gs
  writes : Mem.AgreeOn (k.handlers ∪ Region k.low (c.rsp - k.low).toNat)ᶜ c₂.mem
    ((c.deliver t g).cpu.run (buildIrq nr ret)).mem

/-- An interrupt of kernel code with gate `g` to the stub of `nr`, from the machine `c` on. Where
    the stack has no room for it, nothing is assumed of `do_IRQ`. -/
structure KernelStack.Irq (k : KernelStack) (c : Core) (t : Tss) (g : Gate) (nr ret : BitVec 64)
    (c₂ : Cpu) : Prop where
  enabled : c.cpu.intr = true
  kernel : c.cpl = 0#2
  ist : g.ist = 0#3
  returned : k.Ok c.rsp → k.Returned c t g nr ret c₂

namespace KernelStack

variable (k : KernelStack)

/-- What an interrupt makes of the machine, from the interrupted instruction back to it. -/
def Step (c c' : Cpu) : Prop :=
  ∃ (core : Core) (t : Tss) (g : Gate) (nr ret : BitVec 64) (c₂ : Cpu), core.cpu = c ∧
    k.Irq core t g nr ret c₂ ∧ c' = ((core.deliver t g).onCpu fun _ => c₂.run retFromIntr).iretq.cpu

/-- The memory that an interrupt may change. -/
def dead (sp : BitVec 64) : Set (BitVec 64) := k.handlers ∪ Region k.low (sp - k.low).toNat

variable {k} {c c' : Cpu}

theorem step_gpr (hok : k.Ok (c.gpr .rsp)) (h : k.Step c c') : c'.gpr = c.gpr := by
  obtain ⟨core, t, g, nr, ret, c₂, rfl, hirq, rfl⟩ := h
  have hret := hirq.returned hok
  exact funext (irq_resumes t g core hret.balanced hret.keeps).gpr

/-- `ret_from_intr` loads `ds` and `es` only, and writes nothing. -/
theorem run_retFromIntr_frame (c : Cpu) :
    (c.run retFromIntr).seg .fs = c.seg .fs ∧ (c.run retFromIntr).seg .gs = c.seg .gs ∧
      (c.run retFromIntr).mem = c.mem := ⟨rfl, rfl, rfl⟩

theorem step_seg (hok : k.Ok (c.gpr .rsp)) (h : k.Step c c') : c'.seg = c.seg := by
  obtain ⟨core, t, g, nr, ret, c₂, rfl, hirq, rfl⟩ := h
  have hret := hirq.returned hok
  have hres := irq_resumes t g core hret.balanced hret.keeps
  obtain ⟨hfs, hgs, -⟩ := run_retFromIntr_frame c₂
  funext s
  cases s with
  | ds => exact hres.ds
  | es => exact hres.es
  | fs => exact hfs.trans hret.fs
  | gs => exact hgs.trans hret.gs

/-- Aligning the stack pointer takes it down by 15 bytes at most. -/
theorem align_le (sp : BitVec 64) : (sp - (sp &&& ~~~0xf#64)).toNat ≤ 15 := by
  have hand : (sp &&& ~~~0xf#64).toNat = 2 ^ 4 * (sp.toNat / 2 ^ 4) :=
    toNat_and_highMask sp 4
  rw [BitVec.toNat_sub_of_le (BitVec.le_def.mpr (by omega)), hand]
  omega

/-- The CPU's frame and the words of the stub lie below the interrupted stack pointer. -/
theorem stub_region {sp : BitVec 64} (hok : k.Ok sp) :
    Region (Mem.below (sp &&& ~~~0xf#64) 25) (8 * 25) ⊆ Region k.low (sp - k.low).toNat := by
  have hroom := hok.1
  have halign := align_le sp
  generalize sp &&& ~~~0xf#64 = a at *
  intro x hx
  rw [mem_region] at hx ⊢
  unfold Mem.below at hx
  bv_omega

/-- So does the `pt_regs`. -/
theorem ptRegs_region {core : Core} {t : Tss} {g : Gate} (nr ret : BitVec 64)
    (hkernel : core.cpl = 0#2) (hist : g.ist = 0#3) (hok : k.Ok core.rsp) :
    Region (((core.deliver t g).cpu.run (buildIrq nr ret)).gpr .rdi) 192 ⊆
      Region k.low (core.rsp - k.low).toNat := by
  have hsp : (core.deliver t g).cpu.gpr .rsp = Mem.below (core.rsp &&& ~~~0xf#64) 5 := by
    rw [← core.interruptStack_of_kernel (t := t) hist hkernel]
    exact core.deliver_rsp t g
  rw [(run_buildIrq _ nr ret).2.2.1, hsp, Mem.below_below, ← Mem.below_add_word]
  exact (region_subset _ (by decide)).trans (stub_region hok)

theorem step_mem (hok : k.Ok (c.gpr .rsp)) (h : k.Step c c') :
    Mem.AgreeOn (k.dead (c.gpr .rsp))ᶜ c'.mem c.mem := by
  obtain ⟨core, t, g, nr, ret, c₂, rfl, hirq, rfl⟩ := h
  obtain ⟨-, -, hmem⟩ := run_retFromIntr_frame c₂
  have hend : (((core.deliver t g).onCpu fun _ => c₂.run retFromIntr).iretq).cpu.mem = c₂.mem :=
    (Core.iretq_mem _).trans hmem
  rw [hend]
  refine (hirq.returned hok).writes.trans ?_
  have hstack : core.interruptStack t g = core.rsp :=
    core.interruptStack_of_kernel hirq.ist hirq.kernel
  rw [run_deliver_mem, hstack]
  refine core.cpu.mem.agreeOn_pushWords _ _ (Set.disjoint_left.mpr fun x hx hout => hout ?_)
  exact Or.inr (stub_region hok hx)

theorem dead_push (sp : BitVec 64) (h : k.Ok sp) (_ : k.Ok (sp - 8#64)) :
    k.dead (sp - 8#64) ⊆ k.dead sp \ Region (sp - 8#64) 8 := by
  obtain ⟨hlow, hlen⟩ := h
  have hword : Region (sp - 8#64) 8 ⊆ Region k.low k.len := by
    intro x hx
    rw [mem_region] at hx ⊢
    bv_omega
  have hmax := k.len_le
  rintro x (hx | hx)
  · exact ⟨Or.inl hx, fun hw => Set.disjoint_left.mp k.apart hx (hword hw)⟩
  · rw [mem_region] at hx
    refine ⟨Or.inr ?_, fun hw => ?_⟩
    · rw [mem_region]
      bv_omega
    · rw [mem_region] at hw
      bv_omega

end KernelStack

/-- If interrupts are enabled, one may be taken: a `do_IRQ` that returns at once. -/
theorem KernelStack.exists_step (k : KernelStack) {c : Cpu} (h : c.intr = true) :
    ∃ c', k.Step c c' ∧ c'.msr = c.msr := by
  let core : Core := ⟨c, 0#64, 8#16, 0#16, 0#64⟩
  let t : Tss := ⟨0#64, fun _ => 0#64⟩
  let g : Gate := ⟨0#64, 8#16, 0#3, 0#5, 0x8e#8, 0#32⟩
  let stub := (core.deliver t g).cpu.run (buildIrq 0x20#64 0#64)
  have hirq : k.Irq core t g 0x20#64 0#64 (stub.setReg .rsp (stub.gpr .rsp + 8#64)) :=
    ⟨h, (by decide : (8#16).setWidth 2 = 0#2), rfl, fun _ => ⟨Cpu.setReg_gpr_self _ _ _,
      Mem.AgreeOn.refl _ _, rfl, rfl, Mem.AgreeOn.refl _ _⟩⟩
  exact ⟨_, ⟨core, t, g, _, _, _, rfl, hirq, rfl⟩, rfl⟩

/-- The interrupts on a kernel stack. -/
def KernelStack.interrupts (k : KernelStack) : Preemption where
  step := k.Step
  ok := k.Ok
  dead := k.dead
  gpr _ _ hok h := KernelStack.step_gpr hok h
  seg _ _ hok h := KernelStack.step_seg hok h
  mem _ _ hok h := KernelStack.step_mem hok h
  dead_push := KernelStack.dead_push

/-! ## The path of a system call -/

section Path

variable {k : KernelStack} {c : Cpu} {sp : BitVec 64}

/-- Room for the path's 25 words and for an interrupt below them. -/
theorem KernelStack.ok_below (h : 416 ≤ (sp - k.low).toNat) (hlen : (sp - k.low).toNat ≤ k.len)
    {n : ℕ} (hn : n ≤ 25) : k.Ok (Mem.below sp n) := by
  have hoff : (BitVec.ofNat 64 (8 * n)).toNat = 8 * n := by
    exact toNat_ofNat_eq (by omega)
  have hsub : Mem.below sp n - k.low = (sp - k.low) - BitVec.ofNat 64 (8 * n) := by
    unfold Mem.below
    ring
  have hnat : (Mem.below sp n - k.low).toNat = (sp - k.low).toNat - 8 * n := by
    rw [hsub, BitVec.toNat_sub_of_le (BitVec.le_def.mpr (by omega)), hoff]
  exact ⟨by omega, by omega⟩

/-- `system_call`: the saved registers and the return address are known at its end. -/
theorem withstands_systemCall (ret : BitVec 64)
    (hok : ∀ n ≤ 25, k.Ok (Mem.below (c.gpr .rsp) n)) :
    Withstands k.interrupts (k.dead (c.gpr .rsp)) c (systemCall ret)
      (k.dead (c.gpr .rsp) \ Region (Mem.below (c.gpr .rsp) 25) 144) := by
  have hok0 : k.Ok (c.gpr .rsp) := BitVec.sub_zero (c.gpr .rsp) ▸ hok 0 (by decide)
  let c' := (c.exec .sti).exec (.subImm 0x38#64 .rsp)
  let pushes : List Instr := [.cld] ++ saveRegs ++ [.movq .rsp .rdi, .pushImm ret]
  have hsp : c'.gpr .rsp = Mem.below (c.gpr .rsp) 7 := Cpu.setReg_gpr_self _ _ _
  have hline : ∀ i ∈ pushes, i.plain = true ∨ i.isPush = true := by
    simp [pushes, saveRegs, savedRegs, Instr.plain, Instr.isPush]
  have hcount : pushCount pushes = 18 := rfl
  have hdead : k.dead (c'.gpr .rsp) ⊆ k.dead (c.gpr .rsp) := by
    rw [hsp]
    exact (k.interrupts.dead_below (fun n hn => hok n (by omega)) (by decide)).trans
      Set.sdiff_subset
  have hpush := withstands_pushing (p := k.interrupts) (c := c') hline
    (fun n hn => by rw [hsp, Mem.below_below]; exact hok _ (by omega)) (by rw [hcount]; decide)
    hdead
  rw [hsp, Mem.below_below, hcount] at hpush
  refine withstands_cons hok0 subset_rfl (Set.empty_disjoint _) ?_
  refine withstands_cons hok0 Set.sdiff_empty.symm.subset (Set.empty_disjoint _) ?_
  change Withstands _ ((_ \ ∅) \ ∅) c' pushes _
  rw [Set.sdiff_empty, Set.sdiff_empty]
  exact hpush

/-- `ret_system_call`, on the frame below `sp`. -/
theorem withstands_retSystemCall (hsp : c.gpr .rsp = Mem.below sp 24)
    (hok : ∀ n ≤ 25, k.Ok (Mem.below sp n)) :
    Withstands k.interrupts (k.dead (c.gpr .rsp)) c retSystemCall (k.dead sp) := by
  have hokc : k.Ok (c.gpr .rsp) := hsp ▸ hok 24 (by decide)
  have hok0 : k.Ok sp := BitVec.sub_zero sp ▸ hok 0 (by decide)
  have hdead : k.dead (Mem.below sp 7) ⊆ k.dead sp :=
    (k.interrupts.dead_below (fun n hn => hok n (by omega)) (by decide)).trans Set.sdiff_subset
  let c' := c.exec (.storeAt .rax 0x80#64 .rsp)
  have hcount : popCount restoreRegs = 17 := rfl
  have hsp' : c'.gpr .rsp = Mem.below (Mem.below sp 7) (popCount restoreRegs) := by
    rw [hcount, Mem.below_below]
    exact hsp
  have hpop := withstands_popping (p := k.interrupts) (c := c') (g := ∅) (by decide) hsp'
    (fun n hn => by rw [Mem.below_below]; exact hok _ (by omega)) (by decide)
    (Set.disjoint_empty _)
  rw [Set.empty_union, Set.empty_union] at hpop
  have hend : (c'.run restoreRegs).gpr .rsp = Mem.below sp 7 := run_popping_rsp (by decide) hsp'
  have hlast : ((c'.run restoreRegs).exec (.addImm 0x38#64 .rsp)).gpr .rsp = sp := by
    refine (Cpu.setReg_gpr_self _ _ _).trans ?_
    rw [hend]
    exact Mem.below_add sp 7
  have hadd : Withstands k.interrupts (k.dead (Mem.below sp 7)) (c'.run restoreRegs)
      [.addImm 0x38#64 .rsp] (k.dead sp) := by
    refine withstands_cons (by rw [hend]; exact hok 7 (by decide)) (by rw [hend]; exact subset_rfl)
      (Set.empty_disjoint _) ?_
    exact (withstands_nil (by rw [hlast]; exact hok0) (by rw [hlast]; exact subset_rfl)).mono
      (Set.sdiff_subset.trans hdead) subset_rfl
  refine withstands_cons hokc subset_rfl (Set.empty_disjoint _) ?_
  exact (hpop.append hadd).mono Set.sdiff_subset subset_rfl

/-- What `system_call_function` finds behind an interrupted `system_call`: the machine of the plain
    run but for dead memory, the return address and the user's registers among what is not. -/
structure KernelStack.Entered (k : KernelStack) (ret : BitVec 64) (c c₁ : Cpu) : Prop where
  same : SameBut (k.dead (c.gpr .rsp)) (c.run (systemCall ret)) c₁
  rsp : c₁.gpr .rsp = Mem.below (c.gpr .rsp) 25
  rdi : c₁.gpr .rdi = Mem.below (c.gpr .rsp) 24
  back : c₁.mem.read64 (c₁.gpr .rsp) = ret
  saved : c₁.mem.readWords (c₁.gpr .rdi) 17 = (savedWords c).reverse

theorem KernelStack.entered {ret : BitVec 64} {c₁ : Cpu}
    (hok : ∀ n ≤ 25, k.Ok (Mem.below (c.gpr .rsp) n))
    (h : PreemptedRun k.interrupts c (systemCall ret) c₁) : k.Entered ret c c₁ := by
  obtain ⟨-, hsp, hdi⟩ := run_systemCall c ret
  obtain ⟨hret, hwords⟩ := systemCall_stack c ret
  replace hsp : (c.run (systemCall ret)).gpr .rsp = Mem.below (c.gpr .rsp) 25 :=
    hsp.trans (Mem.below_below (c.gpr .rsp) 7 18)
  replace hdi : (c.run (systemCall ret)).gpr .rdi = Mem.below (c.gpr .rsp) 24 :=
    hdi.trans (Mem.below_below (c.gpr .rsp) 7 17)
  -- the plain run and the interrupted one agree on the registers and the words pushed
  have hs := withstands_systemCall ret hok c c₁ (.refl _ _) h
  have hsp₁ : c₁.gpr .rsp = Mem.below (c.gpr .rsp) 25 := by rw [hs.gpr, hsp]
  have hdi₁ : c₁.gpr .rdi = Mem.below (c.gpr .rsp) 24 := by rw [hs.gpr, hdi]
  have hpushed : Mem.AgreeOn (Region (Mem.below (c.gpr .rsp) 25) 144) c₁.mem
      (c.run (systemCall ret)).mem := hs.mem.mono fun x hx hout => hout.2 hx
  have hregs : Region (Mem.below (c.gpr .rsp) 24) (8 * 17) ⊆
      Region (Mem.below (c.gpr .rsp) 25) 144 := by
    rw [← Mem.below_add_word]
    exact region_subset _ (by decide)
  refine ⟨hs.mono Set.sdiff_subset, hsp₁, hdi₁, ?_, ?_⟩
  · rw [hsp] at hret
    rw [hsp₁, (hpushed.mono (region_mono _ (by decide))).read64]
    exact hret
  · rw [hdi₁, (hpushed.mono hregs).readWords, ← hdi]
    exact hwords

/-- The user's number is in the `pt_regs`. -/
theorem KernelStack.Entered.number {ret : BitVec 64} {c₁ : Cpu} (h : k.Entered ret c c₁) :
    (PtRegs.read c₁.mem (c₁.gpr .rdi)).rax = c.gpr .rax := by
  rw [PtRegs.read_of_saved c h.saved]
  rfl

/-- Where `ret_system_call` ends that finds the registers of `c` and is interrupted: as the plain
    run but for dead memory, with the registers of `c` and the value that was in `rax`. -/
structure KernelStack.Left (k : KernelStack) (c c₂ c₃ : Cpu) : Prop where
  same : SameBut (k.dead (c.gpr .rsp)) (c₂.run retSystemCall) c₃
  rax : c₃.gpr .rax = c₂.gpr .rax
  gpr : ∀ r, r ≠ .rax → r ≠ .rsp → c₃.gpr r = c.gpr r
  ds : c₃.seg .ds = c.seg .ds
  es : c₃.seg .es = c.seg .es
  rsp : c₃.gpr .rsp = c.gpr .rsp

theorem KernelStack.left {ret : BitVec 64} {c₁ c₂ c₃ : Cpu}
    (hok : ∀ n ≤ 25, k.Ok (Mem.below (c.gpr .rsp) n)) (h : k.Entered ret c c₁)
    (hkeep : Mem.AgreeOn (Region (c₁.gpr .rdi) 136) c₂.mem c₁.mem)
    (hbal : c₂.gpr .rsp = c₁.gpr .rsp + 8#64)
    (hexit : PreemptedRun k.interrupts c₂ retSystemCall c₃) : k.Left c c₂ c₃ := by
  have hsp₂ : c₂.gpr .rsp = Mem.below (c.gpr .rsp) 24 := by
    rw [hbal, h.rsp, Mem.below_add_word]
  have hsaved₂ : c₂.mem.readWords (c₂.gpr .rsp) 17 = (savedWords c).reverse := by
    rw [hsp₂, ← h.rdi, ← h.saved]
    exact hkeep.readWords (n := 17)
  obtain ⟨hgpr, hax, hds, hes, hsp₃⟩ := run_retSystemCall c₂ hsaved₂
  have hs₃ := withstands_retSystemCall hsp₂ hok c₂ c₃ (.refl _ _) hexit
  refine ⟨hs₃, ?_, fun r h1 h2 => ?_, ?_, ?_, ?_⟩
  · rw [hs₃.gpr, hax]
  · rw [hs₃.gpr, hgpr r h1 h2]
  · rw [hs₃.seg, hds]
  · rw [hs₃.seg, hes]
  · rw [hs₃.gpr, hsp₃, hsp₂]
    exact Mem.below_add _ 24

end Path

/-- **System calls under interrupts.** However many interrupts are taken between the instructions
    of `system_call` and of `ret_system_call`, a handler with a number in the table gets a
    `pt_regs` with the user's registers, and if it leaves the saved registers alone and the stack
    balanced, the path ends at `sysexit` with the returned value in `rax`, all other registers
    restored and the kernel stack pointer back at its value at entry. -/
theorem systemCall_preempted (k : KernelStack) (table : Fin maxSystemCallNr → SystemCall)
    {c c₁ c₂ c₃ : Cpu} (ret : BitVec 64) (hrax : (c.gpr .rax).toNat < maxSystemCallNr)
    (hroom : 416 ≤ (c.gpr .rsp - k.low).toNat) (hlen : (c.gpr .rsp - k.low).toNat ≤ k.len)
    (hentry : PreemptedRun k.interrupts c (systemCall ret) c₁)
    (hkeep : Mem.AgreeOn (Region (c₁.gpr .rdi) 136) c₂.mem c₁.mem)
    (hbal : c₂.gpr .rsp = c₁.gpr .rsp + 8#64)
    (hexit : PreemptedRun k.interrupts c₂ retSystemCall c₃) :
    (∃ func errcode rip cs rflags rsp ss,
        PtRegs.read c₁.mem (c₁.gpr .rdi) = PtRegs.ofCpu c func errcode rip cs rflags rsp ss) ∧
      c₁.mem.read64 (c₁.gpr .rsp) = ret ∧
      systemCallFunction table (c₁.gpr .rdi) c₁.mem =
        some (table ⟨(c.gpr .rax).toNat, hrax⟩ (c₁.gpr .rdi) c₁.mem) ∧
      c₃.gpr .rax = c₂.gpr .rax ∧ (∀ r, r ≠ .rax → r ≠ .rsp → c₃.gpr r = c.gpr r) ∧
      c₃.seg .ds = c.seg .ds ∧ c₃.seg .es = c.seg .es ∧ c₃.gpr .rsp = c.gpr .rsp ∧
      sysexit c₃ = (c.gpr .rdx, c.gpr .rcx) := by
  have hok : ∀ n ≤ 25, k.Ok (Mem.below (c.gpr .rsp) n) := fun n hn => k.ok_below hroom hlen hn
  have hin := k.entered hok hentry
  have hout := k.left hok hin hkeep hbal hexit
  refine ⟨⟨_, _, _, _, _, _, _, PtRegs.read_of_saved c hin.saved⟩, hin.back, ?_, hout.rax,
    hout.gpr, hout.ds, hout.es, hout.rsp, ?_⟩
  · unfold systemCallFunction
    simp only [hin.number, dif_pos hrax]
  · unfold sysexit
    rw [hout.gpr .rdx (by decide) (by decide), hout.gpr .rcx (by decide) (by decide)]

/-- A stack of 4096 bytes whose handlers own the word at 0x5000. -/
def countStack : KernelStack :=
  ⟨0x8000#64, 4096, Region 0x5000#64 8, by decide, disjoint_of_le (by decide) (by decide)⟩

/-- An interrupt behind the `sti`, and a handler that returns 7. -/
theorem systemCall_preempted_busy : ∃ c' c₁ c₂ c₃ : Cpu, countStack.Step (busyCpu.exec .sti) c' ∧
    c₁ = c'.run (systemCall 0x1000#64).tail ∧ c₂.gpr .rax = 7#64 ∧
    PreemptedRun countStack.interrupts c₂ retSystemCall c₃ ∧ c₃.gpr .rax = 7#64 ∧
    ∀ r, r ≠ .rax → c₃.gpr r = busyCpu.gpr r := by
  obtain ⟨c', hstep, -⟩ := countStack.exists_step (c := busyCpu.exec .sti) rfl
  have hline : systemCall 0x1000#64 = .sti :: (systemCall 0x1000#64).tail := rfl
  have hentry : PreemptedRun countStack.interrupts busyCpu (systemCall 0x1000#64)
      (c'.run (systemCall 0x1000#64).tail) := by
    rw [hline]
    exact .exec (.interrupt hstep (.plain _ _ _))
  generalize hc₁ : c'.run (systemCall 0x1000#64).tail = c₁ at hentry
  let c₂ := (c₁.setReg .rsp (c₁.gpr .rsp + 8#64)).setReg .rax 7#64
  have hax : c₂.gpr .rax = 7#64 := Cpu.setReg_gpr_self _ _ _
  have hbal : c₂.gpr .rsp = c₁.gpr .rsp + 8#64 :=
    (Cpu.setReg_gpr_of_ne _ (by decide) _).trans (Cpu.setReg_gpr_self _ _ _)
  have hexit := PreemptedRun.plain countStack.interrupts c₂ retSystemCall
  have hkeep : Mem.AgreeOn (Region (c₁.gpr .rdi) 136) c₂.mem c₁.mem := Mem.AgreeOn.refl _ _
  obtain ⟨-, -, -, hax₃, hgpr, -, -, hsp, -⟩ := systemCall_preempted countStack
    (fun _ _ m => (7#64, m)) 0x1000#64 (by decide) (by decide) (by decide) hentry hkeep hbal hexit
  refine ⟨c', c₁, c₂, _, hstep, hc₁.symm, hax, hexit, hax₃.trans hax, fun r hr => ?_⟩
  by_cases hr' : r = .rsp
  · rw [hr']
    exact hsp
  · exact hgpr r hr hr'

end HelloOS.Entry
