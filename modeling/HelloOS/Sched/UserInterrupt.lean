/-
  Interrupts from user mode.

  The CPU finds its stack through the task register: `load_TR(10)` selects the segment that
  `SetUp_TSS64` put into `GDT_Table`, its base is `TSS64_Table`, and `set_tss64` keeps the table up
  to date with the running task (`loadTr_setUpTss64`, `load_rsp0`). So in every run of switches the
  frame of an interrupt and the registers of its stub go to the kernel stack of the running task,
  below its `rsp0`, and nothing else of any task is touched (`userInterrupt_ownStack`).
-/
import HelloOS.Boot.Descriptors
import HelloOS.Entry.Preempted
import HelloOS.Sched.EntryStack

namespace HelloOS.Sched

open HelloOS.Lib HelloOS.Mm HelloOS.Entry HelloOS.Boot

/-! ## The task register -/

/-- `load_TR(n)`: `ltr` with the selector `n << 3`; the base of the segment it refers to. -/
def loadTr (m : Mem) (gdtTable n : U64) : U64 :=
  let selector : BitVec 16 := (n <<< 3).setWidth 16
  (SystemSegment.decode (DescriptorWords.load m
    (gdtTable + (selector &&& ~~~0x7#16).setWidth 64))).base

/-- `load_TR(10)` takes the segment of `SetUp_TSS64`. -/
theorem loadTr_setUpTss64 {m m₀ : Mem} {gdtTable tssTable : U64}
    (h : Mem.AgreeOn (Region (gdtTable + 80#64) 16) m (setUpTss64 m₀ gdtTable tssTable)) :
    loadTr m gdtTable 10#64 = tssTable := by
  have hsel : ((((10#64 : U64) <<< 3).setWidth 16 : BitVec 16) &&& ~~~0x7#16).setWidth 64 =
      80#64 := by decide
  unfold loadTr
  dsimp only
  rw [hsel, DescriptorWords.load_congr h, setUpTss64, DescriptorWords.load_store,
    setUpTss64Words_eq, SystemSegment.decode_encode]

/-- The CPU reads `rsp0` where `set_tss64` puts it. -/
theorem load_rsp0 (m : Mem) (tssTable : U64) :
    (Tss.load m tssTable).rsp0 = tssRsp0 m tssTable := rfl

/-! ## In a run of switches -/

section Run

variable {L : Layout} {s : Sys} {log : List Switch} {core : Core} {g : Gate}

/-- The frame and the words of the stub, on a stack with room for them. -/
theorem irqWords_subset {tsk sp : U64} (htsk : tsk ∈ L.tasks) (hroom : L.Room tsk sp 216) :
    Region (Mem.below (sp &&& ~~~0xf#64) 25) (8 * 25) ⊆ L.region (.stack tsk) := by
  let k : KernelStack := ⟨L.stackLow tsk, L.stackLen tsk, ∅, L.stackLen_le tsk htsk,
    Set.empty_disjoint _⟩
  exact (KernelStack.stub_region (k := k) hroom).trans (region_mono _ hroom.2)

/-- An interrupt is work of the running task. -/
theorem irq_work {t : Tss} (h : SwitchInv L s) (hcpu : core.cpu = s.cpu) (nr ret : U64)
    (hroom : L.Room s.cur (core.interruptStack t g) 216) :
    Work L s ((core.deliver t g).cpu.run (buildIrq nr ret)) s.live where
  grows := subset_rfl
  tasks := h.tasks
  pieces p hp hstack _ := by
    rw [run_deliver_mem, ← hcpu]
    refine Mem.agreeOn_pushWords _ _ _ (Disjoint.mono_left ?_
      (h.apart (p := .stack s.cur) h.cur hp hstack.symm))
    exact irqWords_subset (h.tasks h.cur) hroom
  pointer u hu hn := absurd hu hn
  room u hu hn := absurd hu hn
  msr := by
    rw [← hcpu]
    rfl

/-- The way back from an interrupt changes registers only. -/
theorem iretq_work {t : Tss} {c c₂ : Cpu} {live : Set U64}
    (hw : Work L { s with cpu := c } c₂ live) :
    Work L { s with cpu := c₂, live := live }
      ((core.deliver t g).onCpu fun _ => c₂.run retFromIntr).iretq.cpu live :=
  work_regs hw.tasks rfl rfl

/-- The run goes on behind the work of the stub, of `do_IRQ` and of the way back. -/
theorem SwitchRun.interrupted {c₁ c₂ c₃ : Cpu} {live : Set U64} (r : SwitchRun L s log)
    (h₁ : Work L s c₁ s.live) (h₂ : Work L { s with cpu := c₁ } c₂ live)
    (h₃ : Work L { s with cpu := c₂, live := live } c₃ live) :
    SwitchRun L { s with cpu := c₃, live := live } log := by
  have r₁ := SwitchRun.work c₁ s.live r h₁
  have r₂ := SwitchRun.work c₂ live r₁ h₂
  have r₃ := SwitchRun.work c₃ live r₂ h₃
  exact r₃

/-- The `pt_regs` of an interrupt of `core`. -/
def irqRegs (core : Core) : PtRegs :=
  PtRegs.ofCpu core.cpu (core.cpu.gpr .rax) 0#64 core.rip (core.cs.setWidth 64) core.rflags
    core.rsp (core.ss.setWidth 64)

theorem read_irqRegs (t : Tss) (core : Core) (nr ret : U64) :
    let c₁ := (core.deliver t g).cpu.run (buildIrq nr ret)
    PtRegs.read c₁.mem (c₁.gpr .rdi) = irqRegs core := by
  intro c₁
  obtain ⟨-, hregs⟩ := buildIrq_stack (core.deliver t g).cpu nr ret
  have hframe := core.deliver_frame t g
  have hsaved : savedWords (core.deliver t g).cpu = savedWords core.cpu := by
    have hmap : savedRegs.map (core.deliver t g).cpu.gpr = savedRegs.map core.cpu.gpr :=
      List.map_congr_left fun q hq => core.deliver_gpr t g (savedRegs_ne q hq).1
    unfold savedWords
    rw [hmap, core.deliver_gpr t g (by decide)]
    rfl
  have hax : (core.deliver t g).cpu.gpr .rax = core.cpu.gpr .rax :=
    core.deliver_gpr t g (by decide)
  rw [Core.rsp] at hframe
  apply PtRegs.toList_injective
  rw [PtRegs.toList_read, hregs, interruptedRegs_toList, hframe, hsaved, hax]
  rfl

/-- **Interrupts from user mode.** Behind the first switch of any run, an interrupt that a gate
    without a stack of its own takes from user mode saves the whole user state in a `pt_regs` on the
    kernel stack of the task that runs, found through the task register, and changes nothing else
    of any task. If `do_IRQ` in turn does no more than work of this task, balances the stack and
    leaves the `pt_regs` alone, the user resumes where it was, and the run goes on. -/
theorem userInterrupt_ownStack (r : SwitchRun L s log) (hlog : log ≠ []) {m₀ : Mem}
    {gdtTable : U64} (htr : Mem.AgreeOn (Region (gdtTable + 80#64) 16) s.cpu.mem
      (setUpTss64 m₀ gdtTable L.tssTable))
    (hcpu : core.cpu = s.cpu) (huser : core.cpl ≠ 0#2) (hist : g.ist = 0#3)
    (hroom : L.Room s.cur (rsp0 L s.cpu.mem s.cur) 216) (nr ret : U64) :
    let d := core.deliver (Tss.load s.cpu.mem (loadTr s.cpu.mem gdtTable 10#64)) g
    let c₁ := d.cpu.run (buildIrq nr ret)
    PtRegs.read c₁.mem (c₁.gpr .rdi) = irqRegs core ∧
      Region (c₁.gpr .rdi) 192 ⊆ L.region (.stack s.cur) ∧ Work L s c₁ s.live ∧
      ∀ c₂ live, Work L { s with cpu := c₁ } c₂ live → c₂.gpr .rsp = c₁.gpr .rsp + 8#64 →
        Mem.AgreeOn (Region (c₁.gpr .rdi) 192) c₂.mem c₁.mem →
        let core' := (d.onCpu fun _ => c₂.run retFromIntr).iretq
        core'.Resumes core ∧ SwitchRun L { s with cpu := core'.cpu, live := live } log := by
  rw [loadTr_setUpTss64 htr]
  have hstack : core.interruptStack (Tss.load s.cpu.mem L.tssTable) g = rsp0 L s.cpu.mem s.cur := by
    rw [core.interruptStack_of_user hist huser, load_rsp0, r.entryInv.tss hlog]
  rw [← hstack] at hroom
  generalize Tss.load s.cpu.mem L.tssTable = t at *
  intro d c₁
  have hwork : Work L s c₁ s.live := irq_work r.inv hcpu nr ret hroom
  refine ⟨read_irqRegs t core nr ret, ?_, hwork, fun c₂ live hw hbal hkeep => ?_⟩
  · obtain ⟨-, -, hdi, -⟩ := run_buildIrq d.cpu nr ret
    have hsp : d.cpu.gpr .rsp = Mem.below (core.interruptStack t g &&& ~~~0xf#64) 5 :=
      core.deliver_rsp t g
    have hframe : c₁.gpr .rdi = Mem.below (core.interruptStack t g &&& ~~~0xf#64) 24 := by
      rw [hdi, hsp, Mem.below_below]
    refine subset_trans ?_ (irqWords_subset (r.inv.tasks r.inv.cur) hroom)
    rw [hframe, ← Mem.below_add_word]
    exact region_subset _ (by decide)
  · intro core'
    exact ⟨irq_resumes t g core hbal hkeep, r.interrupted hwork hw (iretq_work hw)⟩

end Run

/-! ### The forked task in user mode -/

/-- The forked task of `pair` runs, with the segment of the CPU's table in memory. -/
def userSys : Sys :=
  let s := pairSys.switched pairTask 0x1000#64 pairSwitch
  { s with cpu := s.cpu.setMem (setUpTss64 s.cpu.mem 0x103000#64 pair.tssTable) }

theorem userSys_mem : userSys.cpu.mem = setUpTss64
    (pairSys.switched pairTask 0x1000#64 pairSwitch).cpu.mem 0x103000#64 pair.tssTable := rfl

/-- The segment lies below the pieces of `pair`. -/
theorem setUpTss64_piece (m : Mem) {p : Piece} (hp : p.Of pair.tasks) :
    Mem.AgreeOn (pair.region p) (setUpTss64 m 0x103000#64 pair.tssTable) m := by
  have hle : ∀ q ∈ pairPieces, (0x103050#64).toNat + 16 ≤ (pairPlaces.start q).toNat ∧
      (pairPlaces.start q).toNat + pairPlaces.len q ≤ 2 ^ 64 := by decide
  obtain ⟨h1, h2⟩ := hle p (mem_pairPieces hp)
  exact DescriptorWords.store_agreeOn _ _ _ (disjoint_of_le h1 h2)

theorem userRun : SwitchRun pair userSys [pairSys.switch pairTask 0x1000#64 pairSwitch] := by
  have hwork : Work pair (pairSys.switched pairTask 0x1000#64 pairSwitch) userSys.cpu pair.tasks :=
    ⟨subset_rfl, subset_rfl, fun p hp _ _ => setUpTss64_piece _ hp, fun t ht hn => absurd ht hn,
      fun t ht hn => absurd ht hn, rfl⟩
  exact .work _ _ pairRun_switched hwork

theorem userSys_rsp0 : rsp0 pair userSys.cpu.mem pairTask = 0xffff800000110000#64 := by
  have hok : SwitchOk pair pairSys pairTask 0x1000#64 pairSwitch :=
    switchOk_min _ pairTask_mem (by decide)
  have hsegment : rsp0 pair userSys.cpu.mem pairTask =
      rsp0 pair (pairSys.switched pairTask 0x1000#64 pairSwitch).cpu.mem pairTask :=
    rsp0_of_agreeOn (setUpTss64_piece _ (p := .rsp0 pairTask) pairTask_mem)
  have hread : rsp0 pair pairSys.cpu.mem pairTask = rsp0 pair pairMem pairTask :=
    pairSys_read64 (q := .rsp0 pairTask) pairTask_mem (by simp) (by simp) subset_rfl
  rw [hsegment, rsp0_switched pairRun.inv hok pairTask_mem, hread]
  decide

/-- A `do_IRQ` that returns at once. -/
theorem userInterrupt_ownStack_pair :
    ∃ core core' : Core, core.rip = 0x800000#64 ∧ core.cpl = 3#2 ∧ core'.Resumes core ∧
      SwitchRun pair { userSys with cpu := core'.cpu }
        [pairSys.switch pairTask 0x1000#64 pairSwitch] := by
  let core : Core := ⟨userSys.cpu, 0x800000#64, 0x2b#16, 0x33#16, 0#64⟩
  let g : Gate := ⟨0xffff800002100000#64, 8#16, 0#3, 0#5, 0x8e#8, 0#32⟩
  have hcpu : core.cpu = userSys.cpu := rfl
  have hrip : core.rip = 0x800000#64 := rfl
  have hcpl : core.cpl = 3#2 := (by decide : (0x2b#16).setWidth 2 = 3#2)
  have hist : g.ist = 0#3 := rfl
  have htr : Mem.AgreeOn (Region (0x103000#64 + 80#64) 16) userSys.cpu.mem (setUpTss64
      (pairSys.switched pairTask 0x1000#64 pairSwitch).cpu.mem 0x103000#64 pair.tssTable) := by
    rw [userSys_mem]
    exact Mem.AgreeOn.refl _ _
  have hroom : pair.Room pairTask (rsp0 pair userSys.cpu.mem pairTask) 216 := by
    rw [userSys_rsp0]
    decide
  clear_value core g
  obtain ⟨-, -, -, hback⟩ := userInterrupt_ownStack userRun (List.cons_ne_nil _ _) htr hcpu
    (by rw [hcpl]; decide) hist hroom 0x20#64 0x1000#64
  generalize ((core.deliver _ g).cpu.run _) = c₁ at hback
  obtain ⟨hres, hrun⟩ := hback (c₁.setReg .rsp (c₁.gpr .rsp + 8#64)) userSys.live
    (work_regs subset_rfl rfl rfl) (Cpu.setReg_gpr_self _ _ _) (Mem.AgreeOn.refl _ _)
  exact ⟨core, _, hrip, hcpl, hres, hrun⟩

end HelloOS.Sched
