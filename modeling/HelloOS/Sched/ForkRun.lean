/-
  Runs of successful forks.

  A run starts after `task_init`'s `list_init(&init_task_union.task.list)`, with the
  allocator as `init_memory` leaves it. A fork of the run may be issued by any task created
  so far, on any stack pointer from which `get_current` finds that task. Between forks other
  code may allocate pages and write anywhere but to the links and pids of the tasks. The log
  of a run holds each child with its parent, newest first.

  `forkStep` says what one fork does to the links and pids of all tasks.
-/
import HelloOS.Sched.Fork

namespace HelloOS.Sched

open HelloOS.Lib HelloOS.Mm

/-- The pid of a task. -/
def pid (m : Mem) (t : U64) : U64 := m.read64 (t + offPid)

/-- The tasks of a run: newest first, the init task last. -/
def tasks (sym : Symbols) (log : List (U64 × U64)) : List U64 := log.map Prod.fst ++ [sym.initTask]

/-- The task created last. -/
def newest (sym : Symbols) : List (U64 × U64) → U64
  | [] => sym.initTask
  | (t, _) :: _ => t

/-- A successful fork of a run: the block is the allocator's and apart from all earlier ones,
    `current` is one of the tasks, and the caller's `rip` is not in a task's links or pid. -/
structure ForkOk (sym : Symbols) (k : Kernel) (log : List (U64 × U64)) (rsp regs tsk : U64) :
    Prop where
  block : ∃ p, (forkPages k.mm).1 = some p ∧ tsk = taskAddr (forkPages k.mm).2 p
  current : getCurrent rsp ∈ tasks sym log
  fresh : ∀ t ∈ tasks sym log, Disjoint (taskBlock tsk) (taskBlock t)
  regs : ∀ t ∈ tsk :: tasks sym log, Disjoint (Region (regs + offRegsRip) 8) (linkBytes t)

/-- The kernel states runs reach, with their logs. -/
inductive ForkRun (sym : Symbols) : Kernel → List (U64 × U64) → Prop
  | start (b : Boot) (m : Mem) (hpid : pid m sym.initTask = 0#64) :
      ForkRun sym ⟨initMemory b, listInit m sym.initTask⟩ []
  | fork {k : Kernel} {log : List (U64 × U64)} (rsp regs tsk : U64) (h : ForkRun sym k log)
      (hok : ForkOk sym k log rsp regs tsk) :
      ForkRun sym (doFork sym k rsp regs).2 ((tsk, getCurrent rsp) :: log)
  | other {k : Kernel} {log : List (U64 × U64)} (cs : List AllocCall) (m : Mem)
      (h : ForkRun sym k log) (hm : ∀ t ∈ tasks sym log, Mem.AgreeOn (linkBytes t) m k.mem) :
      ForkRun sym ⟨allocState k.mm cs, m⟩ log

variable {sym : Symbols} {k : Kernel} {log : List (U64 × U64)} {rsp regs tsk : U64}

theorem initTask_mem (log : List (U64 × U64)) : sym.initTask ∈ tasks sym log := by simp [tasks]

theorem newest_mem (log : List (U64 × U64)) : newest sym log ∈ tasks sym log := by
  cases log <;> simp [tasks, newest]

theorem tasks_cons (t p : U64) (log : List (U64 × U64)) :
    tasks sym ((t, p) :: log) = t :: tasks sym log := rfl

theorem tasks_length (log : List (U64 × U64)) : (tasks sym log).length = log.length + 1 := by
  simp [tasks]

/-! ## One fork -/

/-- The memory after a fork that obtains page `p`. -/
theorem doFork_mem {p : Nat} (hp : (forkPages k.mm).1 = some p) :
    (doFork sym k rsp regs).2.mem =
      forkBlock sym k.mem (taskAddr (forkPages k.mm).2 p) (getCurrent rsp) regs := by
  unfold doFork
  dsimp only
  rw [hp]
  rfl

theorem ForkOk.mem_eq (h : ForkOk sym k log rsp regs tsk) :
    (doFork sym k rsp regs).2.mem = forkBlock sym k.mem tsk (getCurrent rsp) regs := by
  obtain ⟨p, hp, rfl⟩ := h.block
  exact doFork_mem hp

/-- A block is not empty, so a new block's task is not one of the old ones. -/
theorem ForkOk.notMem (h : ForkOk sym k log rsp regs tsk) : tsk ∉ tasks sym log := by
  intro hmem
  have hself : tsk ∈ taskBlock tsk := by
    rw [taskBlock, mem_region, BitVec.sub_self]
    decide
  exact Set.disjoint_left.mp (h.fresh tsk hmem) hself hself

/-- The blocks of the tasks of a run are pairwise disjoint. -/
theorem ForkRun.pairwise (r : ForkRun sym k log) :
    (tasks sym log).Pairwise fun t u => Disjoint (taskBlock t) (taskBlock u) := by
  induction r with
  | start b m hpid => exact List.pairwise_singleton _ _
  | fork rsp regs tsk _ hok ih => exact List.pairwise_cons.mpr ⟨hok.fresh, ih⟩
  | other cs m _ hm ih => exact ih

theorem ForkRun.nodup (r : ForkRun sym k log) : (tasks sym log).Nodup := by
  induction r with
  | start b m hpid => exact List.nodup_singleton _
  | fork rsp regs tsk _ hok ih => exact List.nodup_cons.mpr ⟨hok.notMem, ih⟩
  | other cs m _ hm ih => exact ih

/-- The init task's links are not part of any task's pid. -/
theorem ForkRun.initLinks_disjoint (r : ForkRun sym k log) {t : U64} (ht : t ∈ tasks sym log) :
    Disjoint (Region sym.initTask 16) (Region (t + offPid) 8) := by
  rcases List.mem_append.mp ht with ht | ht
  · have hp := (List.pairwise_append.mp r.pairwise).2.2 t ht _ (List.mem_singleton_self _)
    exact (hp.symm.mono_left (node_subset _)).mono_right (field_subset t (by decide))
  · rw [List.mem_singleton.mp ht]
    exact disjoint_offset _ (by decide) (by decide)

/-- **One fork.** It links the init task and the child to each other, gives the child its
    parent's pid plus 1, and changes no other task's pid. -/
theorem forkStep (r : ForkRun sym k log) (h : ForkOk sym k log rsp regs tsk) :
    let m := (doFork sym k rsp regs).2.mem
    Linked (listNext m) (listPrev m) sym.initTask tsk ∧
      Linked (listNext m) (listPrev m) tsk sym.initTask ∧
      pid m tsk = pid k.mem (getCurrent rsp) + 1#64 ∧
      ∀ t ∈ tasks sym log, pid m t = pid k.mem t := by
  have hd : ∀ t ∈ tasks sym log, Disjoint (taskBlock tsk) (linkBytes t) := fun t ht =>
    (h.fresh t ht).mono_right (linkBytes_subset t)
  have hinit : sym.initTask ∈ tasks sym log := initTask_mem log
  have hr : ∀ t ∈ tasks sym log, Disjoint (Region (regs + offRegsRip) 8) (linkBytes t) :=
    fun t ht => h.regs t (List.mem_cons_of_mem tsk ht)
  have hrt := h.regs tsk List.mem_cons_self
  rw [h.mem_eq]
  obtain ⟨h1, h2⟩ := forkBlock_links k.mem (getCurrent rsp) (hd _ hinit) hrt (hr _ hinit)
  have hpid := forkBlock_pid k.mem (getCurrent rsp) (hd _ hinit) (hd _ h.current) hrt
  refine ⟨h1, h2, hpid, fun t ht => ?_⟩
  exact (forkBlock_agreeOn sym k.mem tsk (getCurrent rsp) regs
    ((hd t ht).mono_right Set.subset_union_right) (r.initLinks_disjoint ht)
    ((hr t ht).mono_right Set.subset_union_right)).read64

/-! ### Two forks of the init task -/

/-- While pages 257 to `255 + k` are used and the 8 pages behind them are free, the search
    for a task block on `oddBoot` ends at the window `(257, k)`. -/
theorem oddBoot_forkWindow {s : MmState} (hacc : Accounted s) (hsize : 0 < s.gmdsc.zonesSize.toNat)
    (hz : (s.zones 0).zoneStartAddr = 0x101000#64 ∧ (s.zones 0).zoneEndAddr = 0x120000#64)
    {j : Nat} (h1 : 1 ≤ j) (h24 : j ≤ 24)
    (hused : ∀ i, 257 ≤ i → i < 256 + j → s.bits.get i = true)
    (hfree : ∀ i, 256 + j ≤ i → i < 264 + j → s.bits.get i = false) :
    firstWindow s 8 (zoneIndices s.gmdsc zoneNormal) = some (257, j) := by
  have hs : pageNumber (s.zones 0).zoneStartAddr = 257 := by rw [hz.1]; decide
  have he : pageNumber (s.zones 0).zoneEndAddr = 288 := by rw [hz.2]; decide
  have hcount : 8 ≤ (s.zones 0).pageFreeCount.toNat := by
    have hle := (hacc.zones 0 hsize).card_le_free (t := Finset.Ico (256 + j) (264 + j))
      (fun i hi => by
        rw [Finset.mem_Ico] at hi
        rw [MmZone.mem_pageSet, MmZone.Has]
        omega)
      fun i hi => hfree i (Finset.mem_Ico.mp hi).1 (Finset.mem_Ico.mp hi).2
    rw [Nat.card_Ico] at hle
    omega
  have hscan : scanWord s.bits 8 (pageNumber (s.zones 0).zoneStartAddr) = some j := by
    rw [hs]
    refine scanWord_eq_some h1 (by omega) ?_ fun i hi hij hpass => ?_
    · exact (windowPasses_iff_free h1 (by omega) (by decide)).mpr fun l hl =>
        hfree _ (by omega) (by omega)
    · have hbit := (windowPasses_iff_free hi (by omega) (by decide)).mp hpass 0 (by decide)
      rw [hused _ (by omega) (by omega)] at hbit
      exact absurd hbit (by decide)
  have := firstWindow_first [] rfl hcount (by omega) hscan
  rwa [hs] at this

theorem oddBoot_zonesSize : 0 < (initMemory oddBoot).gmdsc.zonesSize.toNat := by
  rw [initMemory_zonesSize]
  decide

theorem oddBoot_free {i : Nat} (h1 : 257 ≤ i) (h2 : i < 288) :
    (initMemory oddBoot).bits.get i = false := by
  have hstart : oddBoot.startKernel.toNat = 0x2000000 := rfl
  refine initMemory_free oddBoot_ordered oddBoot_kernelFits ?_ (by omega)
  exact ⟨⟨0x101000#64, 0x1f000#64, 1#32⟩, by decide, by decide, by
    change 0x101000 ≤ 4096 * i ∧ 4096 * (i + 1) ≤ 0x120000
    omega⟩

theorem oddBoot_inZone {i : Nat} (h1 : 257 ≤ i) (h2 : i < 288) : (initMemory oddBoot).InZone i := by
  refine ⟨0, oddBoot_zonesSize, ?_⟩
  rw [MmZone.Has, oddBoot_zone.1, oddBoot_zone.2,
    show pageNumber 0x101000#64 = 257 by decide, show pageNumber 0x120000#64 = 288 by decide]
  exact ⟨h1, h2⟩

/-- The allocator's state behind the first fork. -/
def oddBootForked : MmState := initPages (initMemory oddBoot) forkFlags (blockPages 257 8)

theorem oddBoot_fork : forkPages (initMemory oddBoot) = (some 257, oddBootForked) := by
  have h := forkPages_of_window (oddBoot_forkWindow
    (accounted_initMemory oddBoot_ordered oddBoot_kernelFits) oddBoot_zonesSize oddBoot_zone
    (j := 1) (by decide) (by decide) (fun i h1 h2 => by omega)
    fun i h1 h2 => oddBoot_free (by omega) (by omega))
  rwa [show blockStart 257 1 = 257 by decide] at h

/-- With the first `n` pages of the zone in use, a fork gets the 8 pages behind them. -/
theorem oddBoot_forkAt {n : ℕ} (hn : n ≤ 23) :
    let s := initPages (initMemory oddBoot) forkFlags (blockPages 257 n)
    forkPages s = (some (257 + n), initPages s forkFlags (blockPages (257 + n) 8)) := by
  intro s
  have hpages : ∀ i, i ∈ blockPages 257 n ↔ 257 ≤ i ∧ i < 257 + n := by
    intro i
    rw [mem_blockPages]
    exact ⟨fun ⟨l, hl, h⟩ => by omega, fun h => ⟨i - 257, by omega, by omega⟩⟩
  have hin : ∀ i ∈ blockPages 257 n, (initMemory oddBoot).InZone i := fun i hi =>
    oddBoot_inZone ((hpages i).mp hi).1 (by have := (hpages i).mp hi; omega)
  have hbit : ∀ i, s.bits.get i =
      (decide (i ∈ blockPages 257 n) || (initMemory oddBoot).bits.get i) :=
    initPages_bit (consistent_initMemory oddBoot) forkFlags _ hin
  have hacc : Accounted s := by
    change Accounted (initPages _ _ _)
    rw [initPages_eq_pageInits]
    refine accounted_pageInits (accounted_initMemory oddBoot_ordered oddBoot_kernelFits) _ ?_
    intro c hc
    obtain ⟨i, hi, rfl⟩ := List.mem_map.mp hc
    exact ⟨hin i hi, show forkFlags ≠ 0#64 by decide⟩
  have hsize : 0 < s.gmdsc.zonesSize.toNat := by
    change 0 < (initPages _ _ _).gmdsc.zonesSize.toNat
    rw [initPages_gmdsc]
    exact oddBoot_zonesSize
  have hz : (s.zones 0).zoneStartAddr = 0x101000#64 ∧ (s.zones 0).zoneEndAddr = 0x120000#64 := by
    change ((initPages _ _ _).zones 0).zoneStartAddr = _ ∧
      ((initPages _ _ _).zones 0).zoneEndAddr = _
    rw [initPages_zoneStartAddr, initPages_zoneEndAddr]
    exact oddBoot_zone
  have h := forkPages_of_window (oddBoot_forkWindow hacc hsize hz (j := n + 1) (by omega) (by omega)
    (fun i h1 h2 => by
      rw [hbit, decide_eq_true ((hpages i).mpr ⟨h1, by omega⟩), Bool.true_or])
    fun i h1 h2 => by
      rw [hbit, decide_eq_false fun hi => by have := (hpages i).mp hi; omega, Bool.false_or]
      exact oddBoot_free (by omega) (by omega))
  rwa [show blockStart 257 (n + 1) = 257 + n by unfold blockStart; omega] at h

theorem oddBootForked_fork : forkPages oddBootForked =
    (some 265, initPages oddBootForked forkFlags (blockPages 265 8)) :=
  oddBoot_forkAt (n := 8) (by decide)

@[simp] theorem taskAddr_initPages (s : MmState) (flags : U64) (l : List Nat) (i : Nat) :
    taskAddr (initPages s flags l) i = taskAddr s i := by
  rw [taskAddr, taskAddr, initPages_phyAddr]

/-- The address of a page of that zone. -/
theorem oddBoot_taskAddr {i : Nat} (h1 : 257 ≤ i) (h2 : i < 288) :
    taskAddr (initMemory oddBoot) i = phy2vir (BitVec.ofNat 64 (4096 * i)) := by
  have hphy := phyAddr_allocState oddBoot [] (i := i) (oddBoot_inZone h1 h2)
  rw [allocState] at hphy
  refine congrArg phy2vir (BitVec.eq_of_toNat_eq ?_)
  rw [hphy, BitVec.toNat_ofNat]
  omega

/-- The init task's block 32 KB into the kernel's data. -/
def smallSymbols : Symbols := ⟨0xffff800002008000#64, 0xffff800002000100#64⟩

/-- A kernel right behind `list_init`, its other memory zero. -/
def smallKernel : Kernel :=
  ⟨initMemory oddBoot, listInit (fun _ => 0#8) smallSymbols.initTask⟩

/-- A stack pointer and a `pt_regs` on the init task's stack. -/
def smallRsp : U64 := 0xffff80000200f000#64

def smallRegs : U64 := 0xffff80000200f800#64

def smallFork (k : Kernel) : Kernel := (doFork smallSymbols k smallRsp smallRegs).2

theorem smallFork_mm (k : Kernel) : (smallFork k).mm = (forkPages k.mm).2 := rfl

theorem linkBytes_subset_region (t : U64) : linkBytes t ⊆ Region t 64 :=
  Set.union_subset (region_mono t (by decide)) (region_subset t (by decide))

theorem smallRsp_current : getCurrent smallRsp = smallSymbols.initTask := by decide

/-- The caller's `rip` lies above every `task_struct` on or below the init task's. -/
theorem smallRegs_disjoint {t : U64} (h : t.toNat ≤ smallSymbols.initTask.toNat) :
    Disjoint (Region (smallRegs + offRegsRip) 8) (linkBytes t) := by
  refine Disjoint.symm (Disjoint.mono_left (linkBytes_subset_region t) (disjoint_of_le ?_ ?_))
  · refine Nat.le_trans (Nat.add_le_add_right h 64) ?_
    decide
  · decide

/-- The init task forks a task at page 257. -/
theorem smallRun_one : ForkRun smallSymbols (smallFork smallKernel)
    [(0xffff800000101000#64, smallSymbols.initTask)] := by
  have hmm : smallKernel.mm = initMemory oddBoot := by rw [smallKernel]
  have hok : ForkOk smallSymbols smallKernel [] smallRsp smallRegs 0xffff800000101000#64 := by
    constructor
    · refine ⟨257, ?_⟩
      rw [hmm, oddBoot_fork, oddBootForked, taskAddr_initPages,
        oddBoot_taskAddr (by decide) (by decide)]
      exact ⟨rfl, by decide⟩
    · rw [smallRsp_current]
      exact initTask_mem []
    · intro t ht
      rw [List.mem_singleton.mp ht]
      exact disjoint_of_le (by decide) (by decide)
    · intro t ht
      refine smallRegs_disjoint ?_
      simp only [tasks, List.map_nil, List.nil_append, List.mem_cons, List.not_mem_nil,
        or_false] at ht
      rcases ht with rfl | rfl <;> decide
  have := ForkRun.fork smallRsp smallRegs _ (ForkRun.start oddBoot _ (by decide)) hok
  rwa [smallRsp_current] at this

/-- Then it forks another one, 8 pages behind the first. -/
theorem smallRun_two : ForkRun smallSymbols (smallFork (smallFork smallKernel))
    [(0xffff800000109000#64, smallSymbols.initTask),
      (0xffff800000101000#64, smallSymbols.initTask)] := by
  have hmm : (smallFork smallKernel).mm = oddBootForked := by
    rw [smallFork_mm, smallKernel, oddBoot_fork]
  have hok : ForkOk smallSymbols (smallFork smallKernel)
      [(0xffff800000101000#64, smallSymbols.initTask)] smallRsp smallRegs
      0xffff800000109000#64 := by
    constructor
    · refine ⟨265, ?_⟩
      rw [hmm]
      rw [oddBootForked_fork]
      refine ⟨rfl, ?_⟩
      rw [taskAddr_initPages, oddBootForked, taskAddr_initPages,
        oddBoot_taskAddr (by decide) (by decide)]
      decide
    · rw [smallRsp_current]
      exact initTask_mem _
    · intro t ht
      simp only [tasks, List.map_cons, List.map_nil, List.cons_append, List.nil_append,
        List.mem_cons, List.not_mem_nil, or_false] at ht
      rcases ht with rfl | rfl
      · exact (disjoint_of_le (by decide) (by decide)).symm
      · exact disjoint_of_le (by decide) (by decide)
    · intro t ht
      refine smallRegs_disjoint ?_
      simp only [tasks, List.map_cons, List.map_nil, List.cons_append, List.nil_append,
        List.mem_cons, List.not_mem_nil, or_false] at ht
      rcases ht with rfl | rfl | rfl <;> decide
  have := ForkRun.fork smallRsp smallRegs _ smallRun_one hok
  rwa [smallRsp_current] at this

end HelloOS.Sched
