/-
  What the block of a forked task holds (`do_fork`, `kernel/sched/task.c`).

  `Child` says it of a child whose parent is a kernel thread: its `thread_struct`, right
  behind its `task_struct`, holds the top of the block, the caller's `rip` and the address of
  the frame, and the frame at the top of the block is a copy of the caller's `pt_regs`.
  `forkBlock_child` proves it, part by part of the fork.
-/
import HelloOS.Sched.Fork

namespace HelloOS.Sched

open HelloOS.Lib HelloOS.Mm HelloOS.Kstring

/-- The child's first frame: the uppermost `pt_regs` of its block. -/
def childFrame (tsk : U64) : U64 := tsk + stackSize - sizeofPtRegs

/-- `m'` holds, in the block `tsk`, the child of a kernel thread that called `do_fork` with
    its `pt_regs` at `regs` in `m`. -/
structure Child (m m' : Mem) (tsk regs : U64) : Prop where
  thread : m'.read64 (tsk + offThread) = tsk + sizeofTask
  rsp0 : m'.read64 (tsk + sizeofTask + offRsp0) = tsk + stackSize
  rip : m'.read64 (tsk + sizeofTask + offRip) = m.read64 (regs + offRegsRip)
  rsp : m'.read64 (tsk + sizeofTask + offRsp) = childFrame tsk
  frame : ∀ c : U64, c.toNat + 8 ≤ 192 → m'.read64 (childFrame tsk + c) = m.read64 (regs + c)

theorem childFrame_eq (tsk : U64) : childFrame tsk = tsk + 32576#64 := by
  unfold childFrame stackSize sizeofPtRegs
  bv_omega

theorem childFrame_subset (tsk : U64) : Region (childFrame tsk) 192 ⊆ taskBlock tsk := by
  rw [childFrame_eq]
  exact field_subset tsk (by decide)

/-- The fields of the `thread_struct`. -/
theorem thread_subset (tsk : U64) {c : U64} (h : c.toNat + 8 ≤ 64) :
    Region (tsk + sizeofTask + c) 8 ⊆ taskBlock tsk :=
  (region_subset (tsk + sizeofTask) h).trans (field_subset tsk (by decide))

/-- All of this lies in the block. -/
theorem Child.of_agreeOn {m m' m'' : Mem} {tsk regs : U64} (h : Child m m' tsk regs)
    (hm : Mem.AgreeOn (taskBlock tsk) m'' m') : Child m m'' tsk regs where
  thread := ((hm.mono (field_subset tsk (by decide))).read64).trans h.thread
  rsp0 := ((hm.mono (thread_subset tsk (by decide))).read64).trans h.rsp0
  rip := ((hm.mono (thread_subset tsk (by decide))).read64).trans h.rip
  rsp := ((hm.mono (thread_subset tsk (by decide))).read64).trans h.rsp
  frame c hc := (hm.mono ((region_subset _ hc).trans (childFrame_subset tsk))).read64.trans
    (h.frame c hc)

variable (sym : Symbols) (m : Mem) {tsk current regs : U64}

/-- A store to a field of the block, seen from a field that is not in it. -/
theorem agreeOn_field (v : U64) {c d : U64} {n : ℕ} (h : c.toNat + 8 ≤ d.toNat)
    (hd : d.toNat + n ≤ 32768) : Mem.AgreeOn (Region (tsk + d) n) (m.write64 (tsk + c) v) m :=
  m.agreeOn_write64 _ v (disjoint_offsets tsk h (by omega))

/-- A store to a field of the block, seen from one below it. -/
theorem agreeOn_field_below (v : U64) {c d : U64} {n : ℕ} (h : d.toNat + n ≤ c.toNat)
    (hc : c.toNat + 8 ≤ 32768) : Mem.AgreeOn (Region (tsk + d) n) (m.write64 (tsk + c) v) m :=
  m.agreeOn_write64 _ v (disjoint_offsets tsk h (by omega)).symm

/-- A store to a field of the block, seen from outside. -/
theorem agreeOn_outside (v : U64) {c : U64} (hc : c.toNat + 8 ≤ 32768) {s : Set U64}
    (hs : Disjoint (taskBlock tsk) s) : Mem.AgreeOn s (m.write64 (tsk + c) v) m :=
  m.agreeOn_write64 _ v (hs.mono_left (field_subset tsk hc))

/-! ## The copied struct -/

/-- The copy has the parent's fields. -/
theorem forkCopy_field {c : U64} (hc : c.toNat + 8 ≤ 88)
    (hp : Disjoint (taskBlock tsk) (Region current 88)) :
    (forkCopy m tsk current).read64 (tsk + c) = m.read64 (current + c) := by
  unfold forkCopy
  dsimp only
  rw [Mem.read64_copy _ _ _ hc]
  refine Mem.AgreeOn.read64 (memset_agreeOn m tsk 0#8 _ ?_)
  exact (hp.mono_left (region_mono tsk (by decide))).mono_right (region_subset current hc)

/-- The links and the three fields written behind them leave `flags` alone. -/
theorem forkLink_flags (hi : Disjoint (taskBlock tsk) (Region sym.initTask 16)) :
    (forkLink sym m tsk).read64 (tsk + offFlags) = m.read64 (tsk + offFlags) := by
  have hnode : Disjoint (Region tsk 16) (Region (tsk + offFlags) 8) :=
    disjoint_offset tsk (by decide) (by decide)
  have hinit : Disjoint (Region sym.initTask 16) (Region (tsk + offFlags) 8) :=
    hi.symm.mono_right (field_subset tsk (by decide))
  have hlist := (listAdd_agreeOn (listInit m tsk) hinit hnode hnode).trans
    (listInit_agreeOn m hnode)
  unfold forkLink listAddTail
  dsimp only
  rw [listNext_listInit, (agreeOn_field_below _ _ (by decide) (by decide)).read64,
    (agreeOn_field _ _ (by decide) (by decide)).read64,
    (agreeOn_field_below _ _ (by decide) (by decide)).read64]
  exact hlist.read64

theorem forkLink_thread : (forkLink sym m tsk).read64 (tsk + offThread) = tsk + sizeofTask :=
  Mem.read64_write64_self _ _ _

/-! ## The `thread_struct` and the frame -/

/-- Memory when `do_fork` tests the flags: the frame and the `thread_struct` are in place. -/
def childThread (m : Mem) (tsk regs : U64) : Mem :=
  (((memcpy m regs (childFrame tsk) sizeofPtRegs).write64 (tsk + 88#64) (tsk + stackSize)).write64
    (tsk + 96#64) (m.read64 (regs + offRegsRip))).write64 (tsk + 104#64) (childFrame tsk)

/-- None of this lies in the `task_struct`. -/
theorem childThread_agreeOn {d : U64} (hd : d.toNat + 8 ≤ 88) :
    Mem.AgreeOn (Region (tsk + d) 8) (childThread m tsk regs) m := by
  have h88 : (88#64).toNat = 88 := rfl
  have h96 : (96#64).toNat = 96 := rfl
  have h104 : (104#64).toNat = 104 := rfl
  have hcopy : Mem.AgreeOn (Region (tsk + d) 8)
      (memcpy m regs (childFrame tsk) sizeofPtRegs) m := by
    refine memcpy_agreeOn m _ _ _ (by decide) ?_
    rw [childFrame_eq]
    exact (disjoint_offsets tsk (hd.trans (by decide)) (by decide)).symm
  refine (agreeOn_field_below _ _ (by omega) (by omega)).trans ?_
  refine (agreeOn_field_below _ _ (by omega) (by omega)).trans ?_
  exact (agreeOn_field_below _ _ (by omega) (by omega)).trans hcopy

/-- All of it lies in the block. -/
theorem childThread_outside {s : Set U64} (hs : Disjoint (taskBlock tsk) s) :
    Mem.AgreeOn s (childThread m tsk regs) m := by
  unfold childThread
  apply (agreeOn_outside _ _ (by decide) hs).trans
  apply (agreeOn_outside _ _ (by decide) hs).trans
  apply (agreeOn_outside _ _ (by decide) hs).trans
  exact memcpy_agreeOn m _ _ _ (by decide) (hs.mono_left (childFrame_subset tsk))

/-- The last part of a fork, with the words it reads back taken from the memory in front. -/
theorem forkThread_eq (hr : Disjoint (taskBlock tsk) (Region regs 192)) :
    forkThread sym m tsk regs =
      (if m.read64 (tsk + offFlags) &&& pfKthread = 0#64 then
        ((childThread m tsk regs).write64 (regs + offRegsRip) sym.retSystemCall).write64
          (tsk + 96#64) sym.retSystemCall
      else childThread m tsk regs).write64 (tsk + offState) taskRunning := by
  have hthd : ∀ c : U64, tsk + sizeofTask + c = tsk + (sizeofTask + c) := fun c =>
    BitVec.add_assoc _ _ _
  have hrip : Mem.AgreeOn (Region (regs + offRegsRip) 8)
      ((memcpy m regs (tsk + stackSize - sizeofPtRegs) sizeofPtRegs).write64
        (tsk + (sizeofTask + offRsp0)) (tsk + stackSize)) m := by
    have hfield : Disjoint (taskBlock tsk) (Region (regs + offRegsRip) 8) :=
      hr.mono_right (region_subset regs (by decide))
    exact (agreeOn_outside _ _ (by decide) hfield).trans
      (memcpy_agreeOn m _ _ _ (by decide) (hfield.mono_left (childFrame_subset tsk)))
  unfold forkThread
  dsimp only
  rw [hthd, hthd, hthd, hrip.read64]
  change Mem.write64 (if (childThread m tsk regs).read64 (tsk + offFlags) &&& pfKthread = 0#64
    then _ else childThread m tsk regs) _ _ = _
  rw [(childThread_agreeOn m (by decide)).read64]
  rfl

/-- The last part of a fork by a kernel thread. -/
theorem forkThread_kthread (hflags : m.read64 (tsk + offFlags) &&& pfKthread ≠ 0#64)
    (hr : Disjoint (taskBlock tsk) (Region regs 192)) :
    forkThread sym m tsk regs =
      (childThread m tsk regs).write64 (tsk + offState) taskRunning := by
  rw [forkThread_eq sym m hr, if_neg hflags]

/-- The child's fields, in the memory of `childThread`. -/
theorem childThread_fields (hr : Disjoint (taskBlock tsk) (Region regs 192)) :
    let m' := childThread m tsk regs
    m'.read64 (tsk + 88#64) = tsk + stackSize ∧
      m'.read64 (tsk + 96#64) = m.read64 (regs + offRegsRip) ∧
      m'.read64 (tsk + 104#64) = childFrame tsk ∧
      ∀ c : U64, c.toNat + 8 ≤ 192 → m'.read64 (childFrame tsk + c) = m.read64 (regs + c) := by
  intro m'
  refine ⟨?_, ?_, Mem.read64_write64_self _ _ _, fun c hc => ?_⟩
  · change (childThread m tsk regs).read64 _ = _
    unfold childThread
    rw [(agreeOn_field_below _ _ (by decide) (by decide)).read64,
      (agreeOn_field_below _ _ (by decide) (by decide)).read64]
    exact Mem.read64_write64_self _ _ _
  · change (childThread m tsk regs).read64 _ = _
    unfold childThread
    rw [(agreeOn_field_below _ _ (by decide) (by decide)).read64]
    exact Mem.read64_write64_self _ _ _
  · have hframe : ∀ (m' : Mem) (v : U64) {d : U64}, d.toNat + 8 ≤ 32576 →
        Mem.AgreeOn (Region (childFrame tsk + c) 8) (m'.write64 (tsk + d) v) m' := by
      intro m' v d hd
      refine (m'.agreeOn_write64 _ v ?_).mono (region_subset (childFrame tsk) hc)
      rw [childFrame_eq]
      exact disjoint_offsets tsk hd (by decide)
    change (childThread m tsk regs).read64 _ = _
    unfold childThread
    rw [(hframe _ _ (by decide)).read64, (hframe _ _ (by decide)).read64,
      (hframe _ _ (by decide)).read64]
    exact memcpy_read64 m (by decide) (hr.symm.mono_right (childFrame_subset tsk)) hc

/-- Whatever the flags are, the stores behind `childThread` miss every field of the block but
    `state` and `rip`. -/
theorem forkThread_agreeOn_field (hr : Disjoint (taskBlock tsk) (Region regs 192)) {d : U64} {n : ℕ}
    (hd : d.toNat + n ≤ 32768)
    (hapart : 24 ≤ d.toNat ∧ d.toNat + n ≤ 96 ∨ 104 ≤ d.toNat) :
    Mem.AgreeOn (Region (tsk + d) n) (forkThread sym m tsk regs) (childThread m tsk regs) := by
  have hregs : Disjoint (Region (regs + offRegsRip) 8) (Region (tsk + d) n) :=
    (hr.symm.mono_left (region_subset regs (by decide))).mono_right (field_subset tsk hd)
  rw [forkThread_eq sym m hr]
  refine (agreeOn_field _ _ (by change 24 ≤ _; omega) hd).trans ?_
  split
  · refine Mem.AgreeOn.trans ?_ (Mem.agreeOn_write64 _ _ sym.retSystemCall hregs)
    rcases hapart with ⟨-, hbelow⟩ | habove
    · exact agreeOn_field_below _ _ (by change _ ≤ 96; omega) (by decide)
    · exact agreeOn_field _ _ (by change 104 ≤ _; omega) hd
  · exact Mem.AgreeOn.refl _ _

/-- The copy, the `thread_struct` and the frame are in place behind the test of the flags,
    whatever the flags are. -/
theorem forkThread_fields (hr : Disjoint (taskBlock tsk) (Region regs 192))
    (hthread : m.read64 (tsk + offThread) = tsk + sizeofTask) :
    let m' := forkThread sym m tsk regs
    m'.read64 (tsk + offThread) = tsk + sizeofTask ∧
      m'.read64 (tsk + sizeofTask + offRsp) = childFrame tsk ∧
      ∀ c : U64, c.toNat + 8 ≤ 192 → m'.read64 (childFrame tsk + c) = m.read64 (regs + c) := by
  intro m'
  obtain ⟨-, -, hrsp, hframe⟩ := childThread_fields m hr
  refine ⟨?_, ?_, fun c hc => ?_⟩
  · rw [(forkThread_agreeOn_field sym m hr (by decide) (Or.inl (by decide))).read64,
      (childThread_agreeOn m (by decide)).read64, hthread]
  · rw [show tsk + sizeofTask + offRsp = tsk + 104#64 from BitVec.add_assoc _ _ _,
      (forkThread_agreeOn_field sym m hr (by decide) (Or.inr (by decide))).read64]
    exact hrsp
  · rw [← hframe c hc]
    refine Mem.AgreeOn.read64 (Mem.AgreeOn.mono ?_ (region_subset (childFrame tsk) hc))
    rw [childFrame_eq]
    exact forkThread_agreeOn_field sym m hr (by decide) (Or.inr (by decide))

theorem forkThread_child (hflags : m.read64 (tsk + offFlags) &&& pfKthread ≠ 0#64)
    (hthread : m.read64 (tsk + offThread) = tsk + sizeofTask)
    (hr : Disjoint (taskBlock tsk) (Region regs 192)) :
    Child m (forkThread sym m tsk regs) tsk regs := by
  have hthd : ∀ c : U64, tsk + sizeofTask + c = tsk + (sizeofTask + c) := fun c =>
    BitVec.add_assoc _ _ _
  obtain ⟨hrsp0, hrip, -, -⟩ := childThread_fields m hr
  obtain ⟨hthread', hrsp, hframe⟩ := forkThread_fields sym m hr hthread
  refine ⟨hthread', ?_, ?_, hrsp, hframe⟩
  · rw [hthd, (forkThread_agreeOn_field sym m hr (by decide) (Or.inl (by decide))).read64]
    exact hrsp0
  · -- a kernel thread's `rip` is the caller's: only `state` is stored behind it
    rw [hthd, forkThread_kthread sym m hflags hr,
      (agreeOn_field _ _ (by decide) (by decide)).read64]
    exact hrip

/-! ## The fork -/

/-- In front of the last part, only the block and the init task's links are written. -/
theorem forkLink_forkCopy_agreeOn (current : U64) {s : Set U64} (hb : Disjoint (taskBlock tsk) s)
    (hi : Disjoint (Region sym.initTask 16) s) :
    Mem.AgreeOn s (forkLink sym (forkCopy m tsk current) tsk) m :=
  (forkLink_agreeOn sym _ tsk hb hi).trans (forkCopy_agreeOn m tsk current hb)

/-- **The child of a kernel thread.** -/
theorem forkBlock_child (hflags : m.read64 (current + offFlags) &&& pfKthread ≠ 0#64)
    (hp : Disjoint (taskBlock tsk) (Region current 88))
    (hr : Disjoint (taskBlock tsk) (Region regs 192))
    (hi : Disjoint (taskBlock tsk) (Region sym.initTask 16))
    (hir : Disjoint (Region sym.initTask 16) (Region regs 192)) :
    Child m (forkBlock sym m tsk current regs) tsk regs := by
  have hregs := forkLink_forkCopy_agreeOn sym m current hr hir
  have hkthread : (forkLink sym (forkCopy m tsk current) tsk).read64 (tsk + offFlags) &&&
      pfKthread ≠ 0#64 := by
    rw [forkLink_flags sym _ hi, forkCopy_field m (by decide) hp]
    exact hflags
  have h := forkThread_child sym _ hkthread (forkLink_thread sym _) hr
  refine ⟨h.thread, h.rsp0, h.rip.trans ?_, h.rsp, fun c hc => (h.frame c hc).trans ?_⟩
  · exact (hregs.mono (region_subset regs (by decide))).read64
  · exact (hregs.mono (region_subset regs hc)).read64

end HelloOS.Sched
