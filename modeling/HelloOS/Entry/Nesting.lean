/-
  Interrupt handlers run to completion.

  The gates of `init_interrupt` are interrupt gates, `do_IRQ` and what it calls contain no `sti`,
  and the one at the end of `ret_from_intr` stands right in front of the `iretq`, which its shadow
  covers. So no interrupt is taken while another one is served, and a line of kernel code that is
  interrupted anywhere, its handlers running instruction by instruction, is one that single steps
  interrupt (`handlers_complete`).
-/
import HelloOS.Entry.Preempted
import HelloOS.Lib.Nesting

namespace HelloOS.Entry

open HelloOS.Lib

/-- `do_IRQ` and what it calls: the steps of the C code, and its return to `ret_from_intr` at
    `back`. The code leaves the interrupt flag alone, and where nothing comes between its steps and
    the stack has room it is as `KernelStack.Returned` has it. -/
structure DoIrq (k : KernelStack) where
  back : BitVec 64
  work : Cpu → Cpu → Prop
  ret : Cpu → Cpu → Prop
  work_intr : ∀ {c c'}, work c c' → c'.intr = c.intr
  ret_intr : ∀ {c c'}, ret c c' → c'.intr = c.intr
  abi : ∀ {core : Core} {t : Tss} {g : Gate} {nr : BitVec 64} {c₁ c₂ : Cpu},
    core.cpu.intr = true → core.cpl = 0#2 → g.ist = 0#3 → k.Ok core.rsp →
    Relation.ReflTransGen work ((core.deliver t g).cpu.run (buildIrq nr back)) c₁ → ret c₁ c₂ →
    k.Returned core t g nr back c₂

variable {k : KernelStack}

/-- The interrupts of kernel code, through gates that `set_intr_gate(n, 0, addr)` has made. -/
def DoIrq.source (h : DoIrq k) : Source where
  comes core _ g _ := core.cpl = 0#2 ∧ g.ist = 0#3 ∧ g.attr = 0x8e#8
  stub nr := ⟨buildIrq nr h.back, retFromIntr⟩
  work := h.work
  ret := h.ret

theorem buildIrq_noSti (nr back : BitVec 64) : ∀ j ∈ buildIrq nr back, j.isSti = false := by
  intro j hj
  simp only [buildIrq, saveAllRegs, saveRegs, savedRegs, List.map_cons, List.map_nil,
    List.mem_append, List.mem_cons, List.not_mem_nil, or_false] at hj
  rcases j with _ | _ | _ | _ | _ | _ | _ | _ | _ | _ | _ | _ | _ | _ | _ | _ | _
  case sti => simp at hj
  all_goals rfl

theorem retFromIntr_sti :
    ∃ js, retFromIntr = js ++ [.sti] ∧ ∀ j ∈ js, j.isSti = false :=
  ⟨restoreRegs ++ [.addImm 0x10#64 .rsp], by rw [List.append_assoc]; rfl, by decide⟩

theorem DoIrq.source_closed (h : DoIrq k) : h.source.Closed where
  gate := fun hcome => by
    rw [hcome.2.2]
    decide
  entry := fun nr => buildIrq_noSti nr h.back
  exit := fun _ => retFromIntr_sti
  work := h.work_intr
  ret := h.ret_intr

/-- A handler that runs to completion is an interrupt of the kernel stack. -/
theorem DoIrq.atomic (h : DoIrq k) {c c' : Cpu} (ha : h.source.Atomic c c') :
    k.interrupts.step c c' := by
  obtain ⟨q, nr, c₁, c₂, rfl, hintr, ⟨hcpl, hist, -⟩, hwork, hret, rfl⟩ := ha
  exact ⟨q.core, q.tss, q.gate, nr, h.back, c₂, rfl,
    ⟨hintr, hcpl, hist, fun hok => h.abi hintr hcpl hist hok hwork hret⟩, rfl⟩

/-- **Handlers run to completion.** Kernel code `is` runs from `c`, and between any two
    instructions, those of the stubs and the steps of `do_IRQ` included, an interrupt comes if
    interrupts are enabled and the last instruction has not enabled them. Then at any time either
    none is in service, and `is` has run so far with interrupts as single steps; or a single one
    is, no further one can come, and `is` has run so up to where that one has interrupted it. -/
theorem handlers_complete (h : DoIrq k) {c : Cpu} {sh : Bool} {is : List Instr} {s : Exec}
    (hrun : Relation.ReflTransGen h.source.Step ⟨c, sh, is.map .instr, []⟩ s) :
    ∃ done rest, is = done ++ rest ∧
      ((s.below = [] ∧ s.ops = rest.map .instr ∧ PreemptedRun k.interrupts c done s.cpu) ∨
        ∃ q, s.below = [q] ∧ q.ops = rest.map .instr ∧
          PreemptedRun k.interrupts c done q.core.cpu ∧
          (s.cpu.intr = false ∨ s.shadow = true)) := by
  obtain ⟨done, rest, his, hnone | ⟨q, nr, hops, hdone, -, -, hin⟩⟩ :=
    h.source.inv_run h.source_closed (fun _ _ => h.atomic) hrun
  · exact ⟨done, rest, his, Or.inl hnone⟩
  · exact ⟨done, rest, his, Or.inr ⟨q, hin.below, hops, hdone, hin.blocked⟩⟩

/-- A step that counts up the handlers' word of `countStack`. -/
def CountStep (c c' : Cpu) : Prop :=
  c' = c.setMem (c.mem.write64 0x5000#64 (c.mem.read64 0x5000#64 + 1#64))

theorem countSteps {c c' : Cpu} (h : Relation.ReflTransGen CountStep c c') :
    c'.gpr = c.gpr ∧ c'.seg = c.seg ∧ Mem.AgreeOn (Region 0x5000#64 8)ᶜ c'.mem c.mem := by
  induction h with
  | refl => exact ⟨rfl, rfl, Mem.AgreeOn.refl _ _⟩
  | tail _ hstep ih =>
      obtain rfl := hstep
      exact ⟨ih.1, ih.2.1, (Mem.agreeOn_write64 _ _ _ disjoint_compl_right).trans ih.2.2⟩

/-- A `do_IRQ` that counts for as long as it likes. -/
def countIrq : DoIrq countStack where
  back := 0x1000#64
  work := CountStep
  ret c c' := c' = c.setReg .rsp (c.gpr .rsp + 8#64)
  work_intr := fun hc => hc ▸ rfl
  ret_intr := fun hc => hc ▸ rfl
  abi := by
    rintro core t g nr c₁ c₂ - hkernel hist hok hwork rfl
    obtain ⟨hgpr, hseg, hmem⟩ := countSteps hwork
    have hapart : Region (((core.deliver t g).cpu.run (buildIrq nr 0x1000#64)).gpr .rdi) 192 ⊆
        (Region 0x5000#64 8)ᶜ := by
      have hstack : Region countStack.low (core.rsp - countStack.low).toNat ⊆
          Region countStack.low countStack.len := region_mono _ hok.2
      refine (KernelStack.ptRegs_region nr _ hkernel hist hok).trans (hstack.trans ?_)
      exact Set.subset_compl_iff_disjoint_left.mpr countStack.apart
    refine ⟨?_, hmem.mono hapart, congrFun hseg .fs, congrFun hseg .gs, hmem.mono ?_⟩
    · rw [Cpu.setReg_gpr_self, hgpr]
    · exact Set.compl_subset_compl.mpr Set.subset_union_left

/-- One interrupt in front of a `cld`, which counts once. -/
theorem handlers_complete_count : ∃ s : Exec, s.ops = [] ∧ s.below = [] ∧
    Relation.ReflTransGen countIrq.source.Step
      ⟨busyCpu.exec .sti, false, [.instr .cld], []⟩ s ∧
    PreemptedRun countStack.interrupts (busyCpu.exec .sti) [.cld] s.cpu := by
  let core : Core := ⟨busyCpu.exec .sti, 0#64, 8#16, 0#16, 0#64⟩
  let q : Pending := ⟨core, ⟨0#64, fun _ => 0#64⟩, ⟨0#64, 8#16, 0#3, 0#5, 0x8e#8, 0#32⟩,
    [.instr .cld]⟩
  let c₁ := q.start.run (buildIrq 0x20#64 0x1000#64)
  let c₂ := c₁.setMem (c₁.mem.write64 0x5000#64 (c₁.mem.read64 0x5000#64 + 1#64))
  let c₃ := c₂.setReg .rsp (c₂.gpr .rsp + 8#64)
  obtain ⟨sh, hentry⟩ := countIrq.source.run_ops (buildIrq 0x20#64 0x1000#64) q.start false
    (.call :: (countIrq.source.stub 0x20#64).back) [q]
  obtain ⟨sh', hexit⟩ := countIrq.source.run_ops retFromIntr c₃ false [.iretq] [q]
  have hirq : countIrq.source.Step ⟨busyCpu.exec .sti, false, [.instr .cld], []⟩
      ⟨q.start, false, (countIrq.source.stub 0x20#64).ops, [q]⟩ :=
    .irq ⟨by decide, rfl, rfl⟩ rfl rfl rfl
  have hwork : countIrq.source.Step ⟨c₁, sh, .call :: (countIrq.source.stub 0x20#64).back, [q]⟩
      ⟨c₂, false, .call :: (countIrq.source.stub 0x20#64).back, [q]⟩ := .work rfl
  have hrun : Relation.ReflTransGen countIrq.source.Step
      ⟨busyCpu.exec .sti, false, [.instr .cld], []⟩
      ⟨(q.resume (c₃.run retFromIntr)).exec .cld, false, [], []⟩ :=
    ((((Relation.ReflTransGen.single hirq).trans hentry).tail hwork).tail (.ret rfl)).trans
      ((hexit.tail .iretq).tail .exec)
  refine ⟨_, rfl, rfl, hrun, ?_⟩
  obtain ⟨done, rest, his, ⟨-, hrest, hdone⟩ | ⟨q, hone, -⟩⟩ :=
    @handlers_complete countStack countIrq _ _ [.cld] _ hrun
  · have hnil : rest = [] := List.map_eq_nil_iff.mp hrest.symm
    rw [hnil, List.append_nil] at his
    rw [his]
    exact hdone
  · exact nomatch hone

end HelloOS.Entry
