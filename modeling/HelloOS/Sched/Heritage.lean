/-
  What the tasks of a run have in common.

  A child starts as a copy of its parent's `task_struct`. `do_fork` replaces the links, `state`,
  `thread` and `pid`; the other fields nothing in the kernel writes. So every task of a run has
  the values that `INIT_TASK` (`include/task.h`) gives the init task, and its pid is the number
  of forks that lead to it from there (`forksInherit`).

  With the flags every task inherits `PF_KTHREAD`. The part of `do_fork` that sends a user
  process to `ret_system_call` is never run: a child starts where its caller's `pt_regs` say, and
  no fork writes to these.
-/
import HelloOS.Sched.ForkFrame

namespace HelloOS.Sched

open HelloOS.Lib HelloOS.Mm HelloOS.Kstring

/-! ## The fields of `INIT_TASK` -/

def offMm : U64 := 32#64

def offAddrLimit : U64 := 48#64

def offCounter : U64 := 64#64

def offSignal : U64 := 72#64

def offPriority : U64 := 80#64

/-- `INIT_TASK`, as far as a fork copies it for good, with `init_mm` at `initMm`. -/
def initTaskFields (initMm : U64) : List (U64 × U64) :=
  [(offFlags, pfKthread), (offMm, initMm), (offAddrLimit, 0xffff800000000000#64),
    (offCounter, 1#64), (offSignal, 0#64), (offPriority, 0#64)]

/-- `t` has these values. -/
def Inherits (initMm : U64) (m : Mem) (t : U64) : Prop :=
  ∀ f ∈ initTaskFields initMm, m.read64 (t + f.1) = f.2

/-- A field that neither `forkLink` nor `forkThread` writes. -/
def Heritable (c : U64) : Prop :=
  24 ≤ c.toNat ∧ c.toNat + 8 ≤ 40 ∨ c.toNat = 48 ∨ 64 ≤ c.toNat ∧ c.toNat + 8 ≤ 88

instance (c : U64) : Decidable (Heritable c) := inferInstanceAs (Decidable (_ ∨ _))

theorem initTaskFields_heritable (initMm : U64) : ∀ f ∈ initTaskFields initMm, Heritable f.1 := by
  simp only [initTaskFields, List.forall_mem_cons]
  exact ⟨by decide, by decide, by decide, by decide, by decide, by decide, by simp⟩

/-- What no code but `do_fork` writes of a task: all of its `task_struct` but `state`. -/
def ownBytes (t : U64) : Set U64 := Region t 16 ∪ Region (t + offFlags) 64

/-- The number of forks that lead to `t`. -/
def generation : List (U64 × U64) → U64 → ℕ
  | [], _ => 0
  | (c, p) :: log, t => if t = c then generation log p + 1 else generation log t

/-! ## Runs -/

/-- A fork of a run: the block is the allocator's and apart from all earlier ones, `current` is
    one of the tasks, and the caller's `pt_regs` is neither in the block nor in the init task's
    links. -/
structure FamilyFork (sym : Symbols) (k : Kernel) (log : List (U64 × U64)) (rsp regs tsk : U64) :
    Prop where
  block : ∃ p, (forkPages k.mm).1 = some p ∧ tsk = taskAddr (forkPages k.mm).2 p
  current : getCurrent rsp ∈ tasks sym log
  fresh : ∀ t ∈ tasks sym log, Disjoint (taskBlock tsk) (taskBlock t)
  freeRegs : Disjoint (taskBlock tsk) (Region regs 192)
  initRegs : Disjoint (Region sym.initTask 16) (Region regs 192)

/-- The kernel states that runs of forks reach from the static `INIT_TASK`, with their logs.
    Other code allocates pages and writes no field of a `task_struct` but `state`. -/
inductive FamilyRun (sym : Symbols) (initMm : U64) : Kernel → List (U64 × U64) → Prop
  | start (b : Boot) (m : Mem) (hinit : Inherits initMm m sym.initTask)
      (hpid : pid m sym.initTask = 0#64) :
      FamilyRun sym initMm ⟨initMemory b, listInit m sym.initTask⟩ []
  | fork {k : Kernel} {log : List (U64 × U64)} (rsp regs tsk : U64)
      (h : FamilyRun sym initMm k log) (hok : FamilyFork sym k log rsp regs tsk) :
      FamilyRun sym initMm (doFork sym k rsp regs).2 ((tsk, getCurrent rsp) :: log)
  | other {k : Kernel} {log : List (U64 × U64)} (cs : List AllocCall) (m : Mem)
      (h : FamilyRun sym initMm k log)
      (hm : ∀ t ∈ tasks sym log, Mem.AgreeOn (ownBytes t) m k.mem) :
      FamilyRun sym initMm ⟨allocState k.mm cs, m⟩ log

variable {sym : Symbols} {initMm : U64} {k : Kernel} {log : List (U64 × U64)}
  {rsp regs tsk : U64} {m m' : Mem} {t current : U64}

theorem FamilyRun.pairwise (r : FamilyRun sym initMm k log) :
    (tasks sym log).Pairwise fun t u => Disjoint (taskBlock t) (taskBlock u) := by
  induction r with
  | start b m hinit hpid => exact List.pairwise_singleton _ _
  | fork rsp regs tsk _ hok ih => exact List.pairwise_cons.mpr ⟨hok.fresh, ih⟩
  | other cs m _ hm ih => exact ih

/-- The init task's links are part of no task's other fields. -/
theorem FamilyRun.initLinks_disjoint (r : FamilyRun sym initMm k log) (ht : t ∈ tasks sym log) :
    Disjoint (Region sym.initTask 16) (Region (t + offFlags) 64) := by
  rcases List.mem_append.mp ht with ht | ht
  · have hp := (List.pairwise_append.mp r.pairwise).2.2 t ht _ (List.mem_singleton_self _)
    exact (hp.symm.mono_left (node_subset _)).mono_right (field_subset t (by decide))
  · rw [List.mem_singleton.mp ht]
    exact disjoint_offset _ (by decide) (by decide)

/-! ## One fork -/

/-- The fields behind the links. -/
theorem field_subset_own {c : U64} (h1 : 24 ≤ c.toNat) (h2 : c.toNat + 8 ≤ 88) :
    Region (t + c) 8 ⊆ Region (t + offFlags) 64 := by
  have hc : t + c = t + offFlags + (c - 24#64) := by
    unfold offFlags
    ring
  have hsub : (c - 24#64).toNat = c.toNat - 24 := BitVec.toNat_sub_of_le (BitVec.le_def.mpr h1)
  rw [hc]
  exact region_subset _ (by omega)

theorem Heritable.bounds {c : U64} (h : Heritable c) : 24 ≤ c.toNat ∧ c.toNat + 8 ≤ 88 := by
  unfold Heritable at h
  omega

theorem Inherits.of_agreeOn (h : Inherits initMm m t)
    (hm : Mem.AgreeOn (Region (t + offFlags) 64) m' m) : Inherits initMm m' t := fun f hf => by
  obtain ⟨h1, h2⟩ := (initTaskFields_heritable initMm f hf).bounds
  rw [(hm.mono (field_subset_own h1 h2)).read64]
  exact h f hf

/-- `forkLink` leaves the inherited fields alone. -/
theorem forkLink_heritable (m : Mem) {c : U64} (hc : Heritable c)
    (hi : Disjoint (taskBlock tsk) (Region sym.initTask 16)) :
    (forkLink sym m tsk).read64 (tsk + c) = m.read64 (tsk + c) := by
  obtain ⟨h1, h2⟩ := hc.bounds
  have hnode : Disjoint (Region tsk 16) (Region (tsk + c) 8) :=
    disjoint_offset tsk (by omega) (by omega)
  have hinit : Disjoint (Region sym.initTask 16) (Region (tsk + c) 8) :=
    hi.symm.mono_right (field_subset tsk (by omega))
  have hlist := (listAdd_agreeOn (listInit m tsk) hinit hnode hnode).trans
    (listInit_agreeOn m hnode)
  -- `pid`, `state` and `thread` lie in front of, behind, or between the inherited fields
  have hwrite : ∀ (n : Mem) (v : U64) {d : U64}, d ∈ [offPid, offState, offThread] →
      (n.write64 (tsk + d) v).read64 (tsk + c) = n.read64 (tsk + c) := fun n v d hd => by
    have hpid : offPid.toNat = 56 := rfl
    have hstate : offState.toNat = 16 := rfl
    have hthread : offThread.toNat = 40 := rfl
    have hapart : d.toNat + 8 ≤ c.toNat ∨ c.toNat + 8 ≤ d.toNat ∧ d.toNat ≤ 56 := by
      unfold Heritable at hc
      simp only [List.mem_cons, List.not_mem_nil, or_false] at hd
      rcases hd with rfl | rfl | rfl <;> omega
    rcases hapart with h | ⟨h, hd'⟩
    · exact (agreeOn_field n v h (by omega)).read64
    · exact (agreeOn_field_below n v h (by omega)).read64
  unfold forkLink listAddTail
  dsimp only
  rw [listNext_listInit, hwrite _ _ (by simp), hwrite _ _ (by simp), hwrite _ _ (by simp)]
  exact hlist.read64

/-- The last part leaves all fields behind `state` alone, whatever the flags are. -/
theorem forkThread_field (m : Mem) {c : U64} (h1 : 24 ≤ c.toNat) (h2 : c.toNat + 8 ≤ 88)
    (hr : Disjoint (taskBlock tsk) (Region regs 192)) :
    (forkThread sym m tsk regs).read64 (tsk + c) = m.read64 (tsk + c) := by
  rw [(forkThread_agreeOn_field sym m hr (d := c) (n := 8) (by omega)
    (Or.inl ⟨h1, by omega⟩)).read64]
  exact (childThread_agreeOn m h2).read64

/-- The child has its parent's fields. -/
theorem forkBlock_heritable {c : U64} (hc : Heritable c)
    (hp : Disjoint (taskBlock tsk) (Region current 88))
    (hr : Disjoint (taskBlock tsk) (Region regs 192))
    (hi : Disjoint (taskBlock tsk) (Region sym.initTask 16)) :
    (forkBlock sym m tsk current regs).read64 (tsk + c) = m.read64 (current + c) := by
  obtain ⟨h1, h2⟩ := hc.bounds
  unfold forkBlock
  rw [forkThread_field _ h1 h2 hr, forkLink_heritable _ hc hi, forkCopy_field m h2 hp]

theorem forkBlock_childPid (hp : Disjoint (taskBlock tsk) (Region current 88))
    (hr : Disjoint (taskBlock tsk) (Region regs 192))
    (hi : Disjoint (taskBlock tsk) (Region sym.initTask 16)) :
    pid (forkBlock sym m tsk current regs) tsk = pid m current + 1#64 := by
  unfold pid forkBlock
  rw [forkThread_field _ (by decide) (by decide) hr, forkLink_pid sym _ tsk hi,
    forkCopy_field m (by decide) hp]

/-- **A fork by a kernel thread.** Off the new block and the init task's links it writes
    nothing. -/
theorem forkBlock_kthread (hflags : m.read64 (current + offFlags) &&& pfKthread ≠ 0#64)
    (hp : Disjoint (taskBlock tsk) (Region current 88))
    (hr : Disjoint (taskBlock tsk) (Region regs 192))
    (hi : Disjoint (taskBlock tsk) (Region sym.initTask 16)) :
    Mem.AgreeOn (taskBlock tsk ∪ Region sym.initTask 16)ᶜ (forkBlock sym m tsk current regs) m := by
  have hb : Disjoint (taskBlock tsk) (taskBlock tsk ∪ Region sym.initTask 16)ᶜ :=
    disjoint_compl_right.mono_left Set.subset_union_left
  have hlinks : Disjoint (Region sym.initTask 16) (taskBlock tsk ∪ Region sym.initTask 16)ᶜ :=
    disjoint_compl_right.mono_left Set.subset_union_right
  have hkept : (forkLink sym (forkCopy m tsk current) tsk).read64 (tsk + offFlags) =
      m.read64 (current + offFlags) := by
    rw [forkLink_flags sym _ hi, forkCopy_field m (by decide) hp]
  exact (forkThread_outside sym _ hb hr (Or.inl (by rwa [hkept]))).trans
    (forkLink_forkCopy_agreeOn sym m current hb hlinks)

namespace FamilyFork

variable (h : FamilyFork sym k log rsp regs tsk)

include h

theorem mem_eq : (doFork sym k rsp regs).2.mem =
    forkBlock sym k.mem tsk (getCurrent rsp) regs := by
  obtain ⟨p, hp, rfl⟩ := h.block
  exact doFork_mem hp

theorem freeParent : Disjoint (taskBlock tsk) (Region (getCurrent rsp) 88) :=
  (h.fresh _ h.current).mono_right (region_mono _ (by decide))

theorem freeInit : Disjoint (taskBlock tsk) (Region sym.initTask 16) :=
  (h.fresh _ (initTask_mem log)).mono_right (node_subset _)

theorem ne (ht : t ∈ tasks sym log) : t ≠ tsk := by
  rintro rfl
  have hself : t ∈ taskBlock t := by
    rw [taskBlock, mem_region, BitVec.sub_self]
    decide
  exact Set.disjoint_left.mp (h.fresh t ht) hself hself

/-- The other tasks keep their fields. -/
theorem others (r : FamilyRun sym initMm k log) (ht : t ∈ tasks sym log)
    (hflags : k.mem.read64 (getCurrent rsp + offFlags) &&& pfKthread ≠ 0#64) :
    Mem.AgreeOn (Region (t + offFlags) 64) (doFork sym k rsp regs).2.mem k.mem := by
  rw [h.mem_eq]
  refine (forkBlock_kthread hflags h.freeParent h.freeRegs h.freeInit).mono
    (Set.subset_compl_iff_disjoint_left.mpr (Set.disjoint_union_left.mpr ⟨?_, ?_⟩))
  · exact (h.fresh t ht).mono_right (field_subset t (by decide))
  · exact r.initLinks_disjoint ht

end FamilyFork

/-! ## Every task -/

theorem Inherits.kthread (h : Inherits initMm m t) :
    m.read64 (t + offFlags) &&& pfKthread ≠ 0#64 := by
  rw [h (offFlags, pfKthread) (by simp [initTaskFields])]
  decide

/-- The init task's fields, and pids that count generations. -/
theorem FamilyRun.inherits (r : FamilyRun sym initMm k log) : ∀ t ∈ tasks sym log,
    Inherits initMm k.mem t ∧ pid k.mem t = BitVec.ofNat 64 (generation log t) := by
  induction r with
  | start b m hinit hpid =>
      intro t ht
      have hkeep : Mem.AgreeOn (Region (sym.initTask + offFlags) 64) (listInit m sym.initTask) m :=
        listInit_agreeOn m (disjoint_offset _ (by decide) (by decide))
      rw [List.mem_singleton.mp ht]
      refine ⟨hinit.of_agreeOn hkeep, ?_⟩
      have hread := (hkeep.mono (field_subset_own (c := offPid) (by decide) (by decide))).read64
      exact hread.trans hpid
  | @fork k log rsp regs tsk r hok ih =>
      obtain ⟨hparent, hpid⟩ := ih _ hok.current
      intro t ht
      rcases List.mem_cons.mp ht with rfl | ht
      · rw [hok.mem_eq]
        refine ⟨fun f hf => ?_, ?_⟩
        · rw [forkBlock_heritable (initTaskFields_heritable initMm f hf) hok.freeParent hok.freeRegs
            hok.freeInit]
          exact hparent f hf
        · rw [forkBlock_childPid hok.freeParent hok.freeRegs hok.freeInit, hpid, generation,
            if_pos rfl, BitVec.ofNat_add]
      · obtain ⟨hold, hpid'⟩ := ih t ht
        have hkeep := hok.others r ht hparent.kthread
        refine ⟨hold.of_agreeOn hkeep, ?_⟩
        rw [generation, if_neg (hok.ne ht), ← hpid']
        exact (hkeep.mono (field_subset_own (c := offPid) (by decide) (by decide))).read64
  | @other k log cs m r hm ih =>
      intro t ht
      obtain ⟨hold, hpid⟩ := ih t ht
      have hkeep := (hm t ht).mono (Set.subset_union_right (s := Region t 16))
      refine ⟨hold.of_agreeOn hkeep, ?_⟩
      rw [← hpid]
      exact (hkeep.mono (field_subset_own (c := offPid) (by decide) (by decide))).read64

/-- **What forks pass on.** In every run of forks, each task has the init task's flags, `mm`,
    `addr_limit`, `counter`, `signal` and `priority`, and its pid counts the forks that lead to
    it. So every further fork is one by a kernel thread: it writes to the new block and the init
    task's links only, and the child starts at the caller's `rip`, on a copy of its `pt_regs`. -/
theorem forksInherit (r : FamilyRun sym initMm k log) :
    (∀ t ∈ tasks sym log, Inherits initMm k.mem t ∧
      pid k.mem t = BitVec.ofNat 64 (generation log t)) ∧
    ∀ rsp regs tsk, FamilyFork sym k log rsp regs tsk →
      Child k.mem (doFork sym k rsp regs).2.mem tsk regs ∧
      Mem.AgreeOn (taskBlock tsk ∪ Region sym.initTask 16)ᶜ (doFork sym k rsp regs).2.mem
        k.mem := by
  refine ⟨r.inherits, fun rsp regs tsk h => ?_⟩
  have hflags := (r.inherits _ h.current).1.kthread
  rw [h.mem_eq]
  exact ⟨forkBlock_child sym k.mem hflags h.freeParent h.freeRegs h.freeInit h.initRegs,
    forkBlock_kthread hflags h.freeParent h.freeRegs h.freeInit⟩

/-! ### A fork of the static init task -/

/-- The init task's block with the values of `INIT_TASK`, all other memory zero. -/
def staticMem : Mem :=
  ((Mem.write64 (fun _ => 0#8) (smallSymbols.initTask + offFlags) pfKthread).write64
    (smallSymbols.initTask + offAddrLimit) 0xffff800000000000#64).write64
    (smallSymbols.initTask + offCounter) 1#64

def staticKernel : Kernel := ⟨initMemory oddBoot, listInit staticMem smallSymbols.initTask⟩

theorem staticMem_inherits : Inherits 0#64 staticMem smallSymbols.initTask := by
  unfold Inherits initTaskFields
  simp only [List.forall_mem_cons]
  exact ⟨by decide, by decide, by decide, by decide, by decide, by decide, by simp⟩

theorem staticRun_one : FamilyRun smallSymbols 0#64 (smallFork staticKernel)
    [(0xffff800000101000#64, smallSymbols.initTask)] := by
  have hmm : staticKernel.mm = initMemory oddBoot := by rw [staticKernel]
  have hok : FamilyFork smallSymbols staticKernel [] smallRsp smallRegs 0xffff800000101000#64 := by
    constructor
    · refine ⟨257, ?_⟩
      rw [hmm]
      exact ⟨oddBoot_block.1, oddBoot_block.2.symm⟩
    · rw [smallRsp_current]
      exact initTask_mem []
    · intro t ht
      rw [List.mem_singleton.mp ht]
      exact disjoint_of_le (by decide) (by decide)
    · exact disjoint_of_le (by decide) (by decide)
    · exact disjoint_of_le (by decide) (by decide)
  have := FamilyRun.fork smallRsp smallRegs _
    (.start oddBoot staticMem staticMem_inherits (by decide)) hok
  rwa [smallRsp_current] at this

theorem forksInherit_small : Inherits 0#64 (smallFork staticKernel).mem 0xffff800000101000#64 ∧
    pid (smallFork staticKernel).mem 0xffff800000101000#64 = 1#64 :=
  (forksInherit staticRun_one).1 _ List.mem_cons_self

end HelloOS.Sched
