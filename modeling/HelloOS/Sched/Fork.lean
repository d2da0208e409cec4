/-
  `do_fork` (`kernel/sched/task.c`).

  A kernel state is the allocator's state and the rest of memory, in bytes. `doFork` takes
  the stack pointer it runs on, from which it computes `current`, and the address of the
  caller's `pt_regs`. It is written in the source's order, in three parts: the copy of the
  parent's struct (`forkCopy`), the links and the fields (`forkLink`), and the child's
  `thread_struct` and first frame (`forkThread`).

  `forkBlock_agreeOn` says what a fork leaves alone, `forkBlock_links` and `forkBlock_pid`
  what it does to the links and to the pid.
-/
import HelloOS.Kstring
import HelloOS.Lib.Ring
import HelloOS.Sched.List
import HelloOS.Sched.Current

namespace HelloOS.Sched

open HelloOS.Lib HelloOS.Mm HelloOS.Kstring

/-! ## `do_fork` -/

/-- The addresses the linker gives to `init_task_union` and `ret_system_call`. -/
structure Symbols where
  initTask : U64
  retSystemCall : U64

/-- The allocator and the rest of memory. -/
structure Kernel where
  mm : MmState
  mem : Mem

/-- `memset(tsk, 0, …)` and `*tsk = *current`. -/
def forkCopy (m : Mem) (tsk current : U64) : Mem :=
  let m := memset m tsk 0#8 (sizeofTask + sizeofThread)
  m.fill tsk 88 fun i => m (current + BitVec.ofNat 64 i)

/-- From `list_init(&tsk->list)` to `tsk->thread = thd`. -/
def forkLink (sym : Symbols) (m : Mem) (tsk : U64) : Mem :=
  let m := listInit m tsk
  let m := listAddTail m sym.initTask tsk
  let m := m.write64 (tsk + offPid) (m.read64 (tsk + offPid) + 1#64)
  let m := m.write64 (tsk + offState) taskUninterruptible
  m.write64 (tsk + offThread) (tsk + sizeofTask)

/-- From `memcpy(regs, …)` on. -/
def forkThread (sym : Symbols) (m : Mem) (tsk regs : U64) : Mem :=
  let thd := tsk + sizeofTask
  let frame := tsk + stackSize - sizeofPtRegs
  let m := memcpy m regs frame sizeofPtRegs
  let m := m.write64 (thd + offRsp0) (tsk + stackSize)
  let m := m.write64 (thd + offRip) (m.read64 (regs + offRegsRip))
  let m := m.write64 (thd + offRsp) frame
  let m :=
    if m.read64 (tsk + offFlags) &&& pfKthread = 0#64 then
      (m.write64 (regs + offRegsRip) sym.retSystemCall).write64 (thd + offRip) sym.retSystemCall
    else m
  m.write64 (tsk + offState) taskRunning

/-- What `do_fork` does to memory once it has the block `tsk`. -/
def forkBlock (sym : Symbols) (m : Mem) (tsk current regs : U64) : Mem :=
  forkThread sym (forkLink sym (forkCopy m tsk current) tsk) tsk regs

/-- `p->phy_addr` for the page `alloc_pages` returned; at `NULL` it is the word at 0. -/
def pagePhyAddr (k : Kernel) (p : Option Nat) : U64 :=
  match p with
  | some p => (k.mm.pages p).phyAddr
  | none => k.mem.read64 0#64

/-- `do_fork(regs, …)` on the stack pointer `rsp`; its other arguments are not read. -/
def doFork (sym : Symbols) (k : Kernel) (rsp regs : U64) : U64 × Kernel :=
  let r := forkPages k.mm
  let tsk := phy2vir (pagePhyAddr ⟨r.2, k.mem⟩ r.1)
  (0#64, ⟨r.2, forkBlock sym k.mem tsk (getCurrent rsp) regs⟩)

/-! ## Blocks -/

/-- The bytes of a task's block. -/
def taskBlock (tsk : U64) : Set U64 := Region tsk 32768

/-- A field of the `task_struct`, the `thread_struct` or the child's first frame lies in the
    block. -/
theorem field_subset (tsk : U64) {c : U64} {n : Nat} (h : c.toNat + n ≤ 32768) :
    Region (tsk + c) n ⊆ taskBlock tsk := region_subset tsk h

theorem node_subset (tsk : U64) : Region tsk 16 ⊆ taskBlock tsk := region_mono tsk (by decide)

variable (sym : Symbols) (m : Mem) (tsk current regs : U64) {s : Set U64}

theorem forkCopy_agreeOn (hb : Disjoint (taskBlock tsk) s) :
    Mem.AgreeOn s (forkCopy m tsk current) m := by
  have h1 : Disjoint (Region tsk 88) s := hb.mono_left (region_mono tsk (by decide))
  have h2 : Disjoint (Region tsk (sizeofTask + sizeofThread).toNat) s :=
    hb.mono_left (region_mono tsk (by decide))
  unfold forkCopy
  exact (Mem.agreeOn_fill _ _ _ h1).trans (memset_agreeOn m tsk 0#8 _ h2)

theorem forkLink_agreeOn (hb : Disjoint (taskBlock tsk) s)
    (hi : Disjoint (Region sym.initTask 16) s) : Mem.AgreeOn s (forkLink sym m tsk) m := by
  have hn := hb.mono_left (node_subset tsk)
  have hfield : ∀ {c : U64} {n : Nat}, c.toNat + n ≤ 32768 → Disjoint (Region (tsk + c) n) s :=
    fun h => hb.mono_left (field_subset tsk h)
  unfold forkLink listAddTail
  dsimp only
  rw [listNext_listInit]
  refine (Mem.agreeOn_write64 _ _ _ (hfield (by decide))).trans ?_
  refine (Mem.agreeOn_write64 _ _ _ (hfield (by decide))).trans ?_
  refine (Mem.agreeOn_write64 _ _ _ (hfield (by decide))).trans ?_
  exact (listAdd_agreeOn _ hi hn hn).trans (listInit_agreeOn m hn)

/-- The last part of a fork writes to the child's `state`, to the rest of the block behind
    its `task_struct`, and perhaps to the caller's `rip`. -/
theorem forkThread_agreeOn (hstate : Disjoint (Region (tsk + offState) 8) s)
    (hthd : Disjoint (Region (tsk + sizeofTask) 32680) s)
    (hr : Disjoint (Region (regs + offRegsRip) 8) s) :
    Mem.AgreeOn s (forkThread sym m tsk regs) m := by
  have hfield : ∀ {c : U64} {n : Nat}, c.toNat + n ≤ 32680 →
      Disjoint (Region (tsk + sizeofTask + c) n) s :=
    fun h => hthd.mono_left (region_subset _ h)
  have hframe : Disjoint (Region (tsk + stackSize - sizeofPtRegs) 192) s := by
    rw [show tsk + stackSize - sizeofPtRegs = tsk + sizeofTask + 32488#64 by
      unfold stackSize sizeofPtRegs sizeofTask; bv_omega]
    exact hfield (by decide)
  have hcopy : Mem.AgreeOn s (memcpy m regs (tsk + stackSize - sizeofPtRegs) sizeofPtRegs) m :=
    memcpy_agreeOn m _ _ _ (by decide) hframe
  unfold forkThread
  dsimp only
  refine (Mem.agreeOn_write64 _ _ _ hstate).trans ?_
  split
  · refine (Mem.agreeOn_write64 _ _ _ (hfield (by decide))).trans ?_
    refine (Mem.agreeOn_write64 _ _ _ hr).trans ?_
    refine (Mem.agreeOn_write64 _ _ _ (hfield (by decide))).trans ?_
    refine (Mem.agreeOn_write64 _ _ _ (hfield (by decide))).trans ?_
    exact (Mem.agreeOn_write64 _ _ _ (hfield (by decide))).trans hcopy
  · refine (Mem.agreeOn_write64 _ _ _ (hfield (by decide))).trans ?_
    refine (Mem.agreeOn_write64 _ _ _ (hfield (by decide))).trans ?_
    exact (Mem.agreeOn_write64 _ _ _ (hfield (by decide))).trans hcopy

/-- **Frame of a fork.** It writes to the new block, to the init task's links, and perhaps to
    the caller's `rip`. -/
theorem forkBlock_agreeOn (hb : Disjoint (taskBlock tsk) s)
    (hi : Disjoint (Region sym.initTask 16) s)
    (hr : Disjoint (Region (regs + offRegsRip) 8) s) :
    Mem.AgreeOn s (forkBlock sym m tsk current regs) m :=
  (forkThread_agreeOn sym _ tsk regs (hb.mono_left (field_subset tsk (by decide)))
    (hb.mono_left (field_subset tsk (by decide))) hr).trans
    ((forkLink_agreeOn sym _ tsk hb hi).trans (forkCopy_agreeOn m tsk current hb))

/-! ## What a fork does to links and pids -/

/-- What the ring and the pids depend on in a task: its links and its pid. -/
def linkBytes (t : U64) : Set U64 := Region t 16 ∪ Region (t + offPid) 8

theorem linkBytes_subset (t : U64) : linkBytes t ⊆ taskBlock t :=
  Set.union_subset (node_subset t) (field_subset t (by decide))

/-- The last part of a fork leaves the child's links and pid alone. -/
theorem forkThread_linkBytes (hr : Disjoint (Region (regs + offRegsRip) 8) (linkBytes tsk)) :
    Mem.AgreeOn (linkBytes tsk) (forkThread sym m tsk regs) m := by
  refine forkThread_agreeOn sym m tsk regs ?_ ?_ hr
  · refine Set.disjoint_union_right.mpr ⟨?_, ?_⟩
    · exact (disjoint_offset tsk (by decide) (by decide)).symm
    · exact disjoint_offsets tsk (by decide) (by decide)
  · refine Set.disjoint_union_right.mpr ⟨?_, ?_⟩
    · exact (disjoint_offset tsk (by decide) (by decide)).symm
    · exact (disjoint_offsets tsk (by decide) (by decide)).symm

theorem pid_of_agreeOn {m m' : Mem} {t : U64} (h : Mem.AgreeOn (linkBytes t) m' m) :
    m'.read64 (t + offPid) = m.read64 (t + offPid) :=
  (h.mono Set.subset_union_right).read64

theorem links_of_linkBytes {m m' : Mem} {t : U64} (h : Mem.AgreeOn (linkBytes t) m' m) :
    listNext m' t = listNext m t ∧ listPrev m' t = listPrev m t :=
  links_of_agreeOn (h.mono Set.subset_union_left)

/-- The fields `forkLink` writes behind the links leave a node alone that they miss. -/
theorem forkLink_fields {m : Mem} (v : U64) (h : ∀ c : U64, 16 ≤ c.toNat → c.toNat + 8 ≤ 88 →
    Disjoint (Region (tsk + c) 8) s) :
    Mem.AgreeOn s (((m.write64 (tsk + offPid) v).write64 (tsk + offState)
      taskUninterruptible).write64 (tsk + offThread) (tsk + sizeofTask)) m :=
  (Mem.agreeOn_write64 _ _ _ (h _ (by decide) (by decide))).trans
    ((Mem.agreeOn_write64 _ _ _ (h _ (by decide) (by decide))).trans
      (Mem.agreeOn_write64 _ _ _ (h _ (by decide) (by decide))))

/-- `list_add_tail(&init_task_union.task.list, &tsk->list)` links the init task into the
    child's fresh ring: the two point at each other, both ways. -/
theorem forkLink_links (hi : Disjoint (taskBlock tsk) (Region sym.initTask 16)) :
    let m' := forkLink sym m tsk
    Linked (listNext m') (listPrev m') sym.initTask tsk ∧
      Linked (listNext m') (listPrev m') tsk sym.initTask := by
  intro m'
  have hap : NodesApart tsk sym.initTask := hi.mono_left (node_subset tsk)
  let m₀ := listAdd (listInit m tsk) sym.initTask tsk tsk
  have hm' : m' = ((m₀.write64 (tsk + offPid) (m₀.read64 (tsk + offPid) + 1#64)).write64
      (tsk + offState) taskUninterruptible).write64 (tsk + offThread) (tsk + sizeofTask) := by
    change forkLink sym m tsk = _
    unfold forkLink listAddTail
    dsimp only
    rw [listNext_listInit]
  have htsk : Mem.AgreeOn (Region tsk 16) m' m₀ := by
    rw [hm']
    exact forkLink_fields tsk _ fun c h1 h2 => (disjoint_offset tsk h1 (by omega)).symm
  have hinit : Mem.AgreeOn (Region sym.initTask 16) m' m₀ := by
    rw [hm']
    exact forkLink_fields tsk _ fun c _ h => hi.mono_left (field_subset tsk (by omega))
  obtain ⟨h1, h2⟩ := links_of_agreeOn htsk
  obtain ⟨h3, h4⟩ := links_of_agreeOn hinit
  unfold Linked
  rw [h1, h2, h3, h4]
  simp [m₀, listAdd, hap, hap.symm]

/-- The child's pid is one more than the one it was copied with. -/
theorem forkLink_pid (hi : Disjoint (taskBlock tsk) (Region sym.initTask 16)) :
    (forkLink sym m tsk).read64 (tsk + offPid) = m.read64 (tsk + offPid) + 1#64 := by
  have hnode : Disjoint (Region tsk 16) (Region (tsk + offPid) 8) :=
    disjoint_offset tsk (by decide) (by decide)
  have hold : Mem.AgreeOn (Region (tsk + offPid) 8)
      (listAdd (listInit m tsk) sym.initTask tsk tsk) m :=
    (listAdd_agreeOn _ (hi.symm.mono_right (field_subset tsk (by decide))) hnode hnode).trans
      (listInit_agreeOn m hnode)
  unfold forkLink listAddTail
  dsimp only
  rw [listNext_listInit, (Mem.agreeOn_write64 _ _ _ (disjoint_offsets tsk (by decide)
    (by decide))).read64, (Mem.agreeOn_write64 _ _ _ (disjoint_offsets tsk (by decide)
    (by decide))).read64, Mem.read64_write64_self, hold.read64]

/-- The copy has the parent's pid. -/
theorem forkCopy_pid (hc : Disjoint (taskBlock tsk) (linkBytes current)) :
    (forkCopy m tsk current).read64 (tsk + offPid) = m.read64 (current + offPid) := by
  unfold forkCopy
  dsimp only
  rw [Mem.read64_copy _ _ _ (by decide)]
  refine Mem.AgreeOn.read64 (memset_agreeOn m tsk 0#8 _ ?_)
  exact (hc.mono_left (region_mono tsk (by decide))).mono_right Set.subset_union_right

variable {sym tsk regs}

/-- After a fork the init task and the child are linked to each other, both ways. -/
theorem forkBlock_links (hi : Disjoint (taskBlock tsk) (linkBytes sym.initTask))
    (hr : Disjoint (Region (regs + offRegsRip) 8) (linkBytes tsk))
    (hri : Disjoint (Region (regs + offRegsRip) 8) (linkBytes sym.initTask)) :
    let m' := forkBlock sym m tsk current regs
    Linked (listNext m') (listPrev m') sym.initTask tsk ∧
      Linked (listNext m') (listPrev m') tsk sym.initTask := by
  intro m'
  obtain ⟨h1, h2⟩ := links_of_linkBytes
    (forkThread_linkBytes sym (forkLink sym (forkCopy m tsk current) tsk) tsk regs hr)
  obtain ⟨h3, h4⟩ := links_of_linkBytes (t := sym.initTask)
    (forkThread_agreeOn sym (forkLink sym (forkCopy m tsk current) tsk) tsk regs
      (hi.mono_left (field_subset tsk (by decide)))
      (hi.mono_left (field_subset tsk (by decide))) hri)
  have hlinks := forkLink_links sym (forkCopy m tsk current) tsk
    (hi.mono_right Set.subset_union_left)
  unfold Linked at hlinks ⊢
  change (listNext (forkThread _ _ _ _) _ = _ ∧ listPrev (forkThread _ _ _ _) _ = _) ∧
    listNext (forkThread _ _ _ _) _ = _ ∧ listPrev (forkThread _ _ _ _) _ = _
  rw [h1, h2, h3, h4]
  exact hlinks

/-- The child's pid is its parent's plus 1. -/
theorem forkBlock_pid (hi : Disjoint (taskBlock tsk) (linkBytes sym.initTask))
    (hc : Disjoint (taskBlock tsk) (linkBytes current))
    (hr : Disjoint (Region (regs + offRegsRip) 8) (linkBytes tsk)) :
    (forkBlock sym m tsk current regs).read64 (tsk + offPid) =
      m.read64 (current + offPid) + 1#64 := by
  unfold forkBlock
  rw [pid_of_agreeOn (forkThread_linkBytes sym _ tsk regs hr),
    forkLink_pid sym _ tsk (hi.mono_right Set.subset_union_left), forkCopy_pid m tsk current hc]

end HelloOS.Sched
