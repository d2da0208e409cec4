/-
  What a fork leaves alone, for any flags of the parent.

  The last part of `do_fork` copies the caller's `pt_regs` to the child's frame, fills the
  child's `thread_struct`, and, when `PF_KTHREAD` is clear, stores `ret_system_call` to the
  child's `rip` and to the `rip` of the caller's `pt_regs`, after the copy. All else it writes
  lies in the new block, or in the links of the init task (`forkThread_outside`). So the parent
  is undisturbed exactly when that one store does not happen or changes nothing
  (`fork_undisturbed_iff`).
-/
import HelloOS.Sched.ForkChild
import HelloOS.Sched.ForkRun

namespace HelloOS.Sched

open HelloOS.Lib HelloOS.Mm HelloOS.Kstring

/-- A fork from `m` to `m'` that does not disturb the parent. It writes to the block and to
    the links of the init task only; the child's structs and first frame lie apart in the
    block, and the frame is a copy of the caller's registers; these registers, the parent's
    `task_struct` behind its links and its `thread_struct` are as before. -/
structure Undisturbed (sym : Symbols) (m m' : Mem) (tsk current regs : U64) : Prop where
  outside : Mem.AgreeOn (taskBlock tsk ∪ Region sym.initTask 16)ᶜ m' m
  task : Region tsk 88 ⊆ taskBlock tsk
  thread : Region (m'.read64 (tsk + offThread)) 64 ⊆ taskBlock tsk
  frame : Region (m'.read64 (m'.read64 (tsk + offThread) + offRsp)) 192 ⊆ taskBlock tsk
  taskThread : Disjoint (Region tsk 88) (Region (m'.read64 (tsk + offThread)) 64)
  taskFrame : Disjoint (Region tsk 88)
    (Region (m'.read64 (m'.read64 (tsk + offThread) + offRsp)) 192)
  threadFrame : Disjoint (Region (m'.read64 (tsk + offThread)) 64)
    (Region (m'.read64 (m'.read64 (tsk + offThread) + offRsp)) 192)
  copy : ∀ c : U64, c.toNat + 8 ≤ 192 →
    m'.read64 (m'.read64 (m'.read64 (tsk + offThread) + offRsp) + c) = m.read64 (regs + c)
  regs : Mem.AgreeOn (Region regs 192) m' m
  parentTask : Mem.AgreeOn (Region (current + 16#64) 72) m' m
  parentThread : Mem.AgreeOn (Region (m.read64 (current + offThread)) 64) m' m

/-- The block is free, and nothing of the parent lies in the init task's links but its own
    links. -/
structure ForkApart (sym : Symbols) (m : Mem) (tsk current regs : U64) : Prop where
  freeTask : Disjoint (taskBlock tsk) (Region current 88)
  freeThread : Disjoint (taskBlock tsk) (Region (m.read64 (current + offThread)) 64)
  freeRegs : Disjoint (taskBlock tsk) (Region regs 192)
  freeInit : Disjoint (taskBlock tsk) (Region sym.initTask 16)
  initTask : Disjoint (Region sym.initTask 16) (Region (current + 16#64) 72)
  initThread : Disjoint (Region sym.initTask 16) (Region (m.read64 (current + offThread)) 64)
  initRegs : Disjoint (Region sym.initTask 16) (Region regs 192)

variable {sym : Symbols} {m : Mem} {tsk current regs : U64}

/-! ## The last part, for any flags -/

section

variable (sym m)

/-- With `PF_KTHREAD` clear the caller's `rip` is `ret_system_call` behind the fork. -/
theorem forkThread_rip (hr : Disjoint (taskBlock tsk) (Region regs 192))
    (hflags : m.read64 (tsk + offFlags) &&& pfKthread = 0#64) :
    (forkThread sym m tsk regs).read64 (regs + offRegsRip) = sym.retSystemCall := by
  have hfield : Disjoint (taskBlock tsk) (Region (regs + offRegsRip) 8) :=
    hr.mono_right (region_subset regs (by decide))
  rw [forkThread_eq sym m hr, if_pos hflags, (agreeOn_outside _ _ (by decide) hfield).read64,
    (agreeOn_outside _ _ (by decide) hfield).read64]
  exact Mem.read64_write64_self _ _ _

/-- Off the block, the last part of a fork changes nothing if the parent is a kernel thread,
    or its `rip` is `ret_system_call` already. -/
theorem forkThread_outside {s : Set U64} (hs : Disjoint (taskBlock tsk) s)
    (hr : Disjoint (taskBlock tsk) (Region regs 192))
    (h : m.read64 (tsk + offFlags) &&& pfKthread ≠ 0#64 ∨
      m.read64 (regs + offRegsRip) = sym.retSystemCall) :
    Mem.AgreeOn s (forkThread sym m tsk regs) m := by
  rw [forkThread_eq sym m hr]
  refine (agreeOn_outside _ _ (by decide) hs).trans ?_
  split
  · next hflags =>
      -- the store to the caller's `rip` stores what is there
      have hrip := h.resolve_left (not_not_intro hflags)
      have hsub : Region (regs + offRegsRip) 8 ⊆ Region regs 192 := region_subset regs (by decide)
      have hread : (childThread m tsk regs).read64 (regs + offRegsRip) = _ :=
        ((childThread_outside m hr).mono hsub).read64
      refine (agreeOn_outside _ _ (by decide) hs).trans ?_
      rw [← hrip, ← hread, Mem.write64_read64]
      exact childThread_outside m hs
  · exact childThread_outside m hs

end

/-! ## The whole fork -/

/-- One fork disturbs the parent exactly when its `PF_KTHREAD` is clear and its `rip` is not
    `ret_system_call`. -/
theorem forkBlock_undisturbed_iff (h : ForkApart sym m tsk current regs) :
    Undisturbed sym m (forkBlock sym m tsk current regs) tsk current regs ↔
      m.read64 (current + offFlags) &&& pfKthread ≠ 0#64 ∨
        m.read64 (regs + offRegsRip) = sym.retSystemCall := by
  have hflags : (forkLink sym (forkCopy m tsk current) tsk).read64 (tsk + offFlags) =
      m.read64 (current + offFlags) := by
    rw [forkLink_flags sym _ h.freeInit, forkCopy_field m (by decide) h.freeTask]
  have hregs : Mem.AgreeOn (Region regs 192) (forkLink sym (forkCopy m tsk current) tsk) m :=
    forkLink_forkCopy_agreeOn sym m current h.freeRegs h.initRegs
  have hrip := (hregs.mono (region_subset regs (c := offRegsRip) (k := 8) (by decide))).read64
  obtain ⟨hthread, hrsp, hcopy⟩ := forkThread_fields sym (forkLink sym (forkCopy m tsk current) tsk)
    h.freeRegs (forkLink_thread sym _)
  constructor
  · intro hund
    by_contra hnot
    rw [not_or, not_not] at hnot
    have hnew := forkThread_rip sym (forkLink sym (forkCopy m tsk current) tsk) h.freeRegs
      (by rw [hflags]; exact hnot.1)
    have hold := (hund.regs.mono (region_subset regs (c := offRegsRip) (k := 8) (by decide))).read64
    exact hnot.2 (hold.symm.trans hnew)
  · intro hcond
    have hout : Mem.AgreeOn (taskBlock tsk ∪ Region sym.initTask 16)ᶜ
        (forkBlock sym m tsk current regs) m := by
      have hb : Disjoint (taskBlock tsk) (taskBlock tsk ∪ Region sym.initTask 16)ᶜ :=
        disjoint_compl_right.mono_left Set.subset_union_left
      have hi : Disjoint (Region sym.initTask 16) (taskBlock tsk ∪ Region sym.initTask 16)ᶜ :=
        disjoint_compl_right.mono_left Set.subset_union_right
      exact (forkThread_outside sym _ hb h.freeRegs (by rw [hflags, hrip]; exact hcond)).trans
        (forkLink_forkCopy_agreeOn sym m current hb hi)
    have hkept : ∀ {s : Set U64}, Disjoint (taskBlock tsk) s →
        Disjoint (Region sym.initTask 16) s →
        Mem.AgreeOn s (forkBlock sym m tsk current regs) m := fun hb hi =>
      hout.mono (Set.disjoint_union_left.mpr ⟨hb, hi⟩).subset_compl_left
    unfold forkBlock at hout hkept ⊢
    constructor
    · exact hout
    · exact region_mono tsk (by decide)
    · rw [hthread]
      exact field_subset tsk (by decide)
    · rw [hthread, hrsp]
      exact childFrame_subset tsk
    · rw [hthread]
      exact disjoint_offset tsk (by decide) (by decide)
    · rw [hthread, hrsp, childFrame_eq]
      exact disjoint_offset tsk (by decide) (by decide)
    · rw [hthread, hrsp, childFrame_eq]
      exact disjoint_offsets tsk (by decide) (by decide)
    · intro c hc
      rw [hthread, hrsp, hcopy c hc]
      exact (hregs.mono (region_subset regs hc)).read64
    · exact hkept h.freeRegs h.initRegs
    · exact hkept (h.freeTask.mono_right (region_subset current (by decide))) h.initTask
    · exact hkept h.freeThread h.initThread

/-- **When a fork does not disturb the parent.** For every kernel state, stack pointer and
    `regs` in which `alloc_pages` returns a page `p` whose block is free: the fork leaves the
    parent as it was exactly when the parent's `PF_KTHREAD` is set, or the caller's `rip` is
    `ret_system_call` already. -/
theorem fork_undisturbed_iff (sym : Symbols) (k : Kernel) (rsp regs : U64) {p : Nat}
    (hp : (forkPages k.mm).1 = some p)
    (h : ForkApart sym k.mem (taskAddr (forkPages k.mm).2 p) (getCurrent rsp) regs) :
    Undisturbed sym k.mem (doFork sym k rsp regs).2.mem (taskAddr (forkPages k.mm).2 p)
        (getCurrent rsp) regs ↔
      k.mem.read64 (getCurrent rsp + offFlags) &&& pfKthread ≠ 0#64 ∨
        k.mem.read64 (regs + offRegsRip) = sym.retSystemCall := by
  rw [doFork_mem hp]
  exact forkBlock_undisturbed_iff h

/-! ### A fork of the init task -/

/-- The block of the first fork on `oddBoot`. -/
theorem oddBoot_block : (forkPages (initMemory oddBoot)).1 = some 257 ∧
    taskAddr (forkPages (initMemory oddBoot)).2 257 = 0xffff800000101000#64 := by
  rw [oddBoot_fork, oddBootForked, taskAddr_initPages, oddBoot_taskAddr (by decide) (by decide)]
  exact ⟨rfl, by decide⟩

/-- It is apart from the init task's block, its links and the registers on its stack. -/
theorem small_forkApart {m : Mem}
    (hthread : m.read64 (smallSymbols.initTask + offThread) = 0#64) :
    ForkApart smallSymbols m 0xffff800000101000#64 (getCurrent smallRsp) smallRegs := by
  rw [smallRsp_current]
  constructor
  · exact disjoint_of_le (by decide) (by decide)
  · rw [hthread]
    exact (disjoint_of_le (by decide) (by decide)).symm
  · exact disjoint_of_le (by decide) (by decide)
  · exact disjoint_of_le (by decide) (by decide)
  · exact disjoint_offset _ (by decide) (by decide)
  · rw [hthread]
    exact (disjoint_of_le (by decide) (by decide)).symm
  · exact disjoint_of_le (by decide) (by decide)

/-- The init task, with `PF_KTHREAD` set as `INIT_TASK` does. -/
def kthreadKernel : Kernel :=
  ⟨initMemory oddBoot, smallKernel.mem.write64 (smallSymbols.initTask + offFlags) pfKthread⟩

theorem fork_undisturbed_kthread :
    Undisturbed smallSymbols kthreadKernel.mem
      (doFork smallSymbols kthreadKernel smallRsp smallRegs).2.mem
      (taskAddr (forkPages kthreadKernel.mm).2 257) (getCurrent smallRsp) smallRegs := by
  have hmm : kthreadKernel.mm = initMemory oddBoot := by rw [kthreadKernel]
  obtain ⟨hp, htsk⟩ := oddBoot_block
  rw [← hmm] at hp htsk
  have hapart : ForkApart smallSymbols kthreadKernel.mem 0xffff800000101000#64
      (getCurrent smallRsp) smallRegs := small_forkApart (by decide)
  refine (fork_undisturbed_iff smallSymbols kthreadKernel smallRsp smallRegs hp
    (by rw [htsk]; exact hapart)).mpr (Or.inl ?_)
  rw [smallRsp_current, kthreadKernel, Mem.read64_write64_self]
  decide

/-- With `PF_KTHREAD` clear, the caller's `rip` is 0 before the fork and `ret_system_call`
    behind it. -/
theorem not_undisturbed_small :
    smallKernel.mem.read64 (smallRegs + offRegsRip) = 0#64 ∧
      (doFork smallSymbols smallKernel smallRsp smallRegs).2.mem.read64
        (smallRegs + offRegsRip) = 0xffff800002000100#64 ∧
      ¬ Undisturbed smallSymbols smallKernel.mem
        (doFork smallSymbols smallKernel smallRsp smallRegs).2.mem
        (taskAddr (forkPages smallKernel.mm).2 257) (getCurrent smallRsp) smallRegs := by
  have hmm : smallKernel.mm = initMemory oddBoot := by rw [smallKernel]
  obtain ⟨hp, htsk⟩ := oddBoot_block
  rw [← hmm] at hp htsk
  have hrip : smallKernel.mem.read64 (smallRegs + offRegsRip) = 0#64 := by decide
  have hflags : smallKernel.mem.read64 (getCurrent smallRsp + offFlags) = 0#64 := by decide
  have hapart : ForkApart smallSymbols smallKernel.mem 0xffff800000101000#64
      (getCurrent smallRsp) smallRegs := small_forkApart (by decide)
  refine ⟨hrip, ?_, fun hund => ?_⟩
  · rw [doFork_mem hp, htsk]
    refine forkThread_rip smallSymbols _ hapart.freeRegs ?_
    rw [forkLink_flags smallSymbols _ hapart.freeInit,
      forkCopy_field smallKernel.mem (by decide) hapart.freeTask, hflags]
    decide
  · rw [← htsk] at hapart
    rw [doFork_mem hp] at hund
    rcases (forkBlock_undisturbed_iff hapart).mp hund with hk | hr
    · rw [hflags] at hk
      exact hk (by decide)
    · rw [hrip] at hr
      exact absurd hr (by decide)

end HelloOS.Sched
