/-
  `kernel_thread` and `kernel_thread_func` (`kernel/sched/task.c`).

  `kernel_thread` builds a `pt_regs` on its own stack and forks. The child starts in
  `kernel_thread_func`, assembly that pops the copied `pt_regs`, calls the function it finds
  in `rbx` and passes what that returns to `do_exit`. It is modelled as the list of the calls
  it makes, for any behaviour of the function called.

  `kernelThread_starts` follows the `pt_regs` from the parent's stack to the child's, through
  whatever other tasks run in between, to the two calls.
-/
import HelloOS.Entry.Regs
import HelloOS.Sched.FirstSwitch
import HelloOS.Sched.ForkChild
import HelloOS.Sched.ForkRun

namespace HelloOS.Sched

open HelloOS.Lib HelloOS.Mm HelloOS.Kstring HelloOS.Entry

/-! ## `kernel_thread` -/

/-- `KERNEL_DS`. -/
def kernelDs : U64 := 0x10#64

/-- The local `regs` of `kernel_thread`, filled in; `threadFunc` is the address of
    `kernel_thread_func`. -/
def threadRegs (m : Mem) (regs fn arg threadFunc : U64) : Mem :=
  let m := memset m regs 0#8 sizeofPtRegs
  let m := m.write64 (regs + 64#64) fn
  let m := m.write64 (regs + 80#64) arg
  let m := m.write64 (regs + 112#64) kernelDs
  let m := m.write64 (regs + 120#64) kernelDs
  let m := m.write64 (regs + 160#64) kernelCs
  let m := m.write64 (regs + 184#64) kernelDs
  let m := m.write64 (regs + 168#64) (1#64 <<< 9)
  m.write64 (regs + offRegsRip) threadFunc

/-- `kernel_thread(fn, arg, flags)`, with `regs` the address of its local and `rsp` the stack
    pointer that `do_fork` runs on. `do_fork` does not read `flags`. -/
def kernelThread (sym : Symbols) (threadFunc : U64) (k : Kernel) (rsp regs fn arg : U64) :
    BitVec 32 × Kernel :=
  let r := doFork sym ⟨k.mm, threadRegs k.mem regs fn arg threadFunc⟩ rsp regs
  (r.1.setWidth 32, r.2)

/-- What the struct holds that the child will use. -/
theorem threadRegs_fields (m : Mem) (regs fn arg threadFunc : U64) :
    let r := PtRegs.read (threadRegs m regs fn arg threadFunc) regs
    r.rbx = fn ∧ r.rdx = arg ∧ r.ds = kernelDs ∧ r.es = kernelDs ∧ r.rip = threadFunc := by
  dsimp only [PtRegs.read, threadRegs, offRegsRip]
  refine ⟨?_, ?_, ?_, ?_, Mem.read64_write64_self _ _ _⟩
  · simp (disch := decide) only [Mem.read64_write64_offset, Mem.read64_write64_self]
  · simp (disch := decide) only [Mem.read64_write64_offset, Mem.read64_write64_self]
  · simp (disch := decide) only [Mem.read64_write64_offset, Mem.read64_write64_self]
  · simp (disch := decide) only [Mem.read64_write64_offset, Mem.read64_write64_self]

/-- It writes to the struct only. -/
theorem threadRegs_agreeOn {s : Set U64} (m : Mem) {regs : U64} (fn arg threadFunc : U64)
    (hd : Disjoint (Region regs 192) s) :
    Mem.AgreeOn s (threadRegs m regs fn arg threadFunc) m := by
  have hfield : ∀ {c : U64} (m' : Mem) (v : U64), c.toNat + 8 ≤ 192 →
      Mem.AgreeOn s (m'.write64 (regs + c) v) m' := fun m' v h =>
    m'.agreeOn_write64 _ v (hd.mono_left (region_subset regs h))
  unfold threadRegs
  dsimp only
  refine (hfield _ _ (by decide)).trans ?_
  refine (hfield _ _ (by decide)).trans ?_
  refine (hfield _ _ (by decide)).trans ?_
  refine (hfield _ _ (by decide)).trans ?_
  refine (hfield _ _ (by decide)).trans ?_
  refine (hfield _ _ (by decide)).trans ?_
  refine (hfield _ _ (by decide)).trans ?_
  refine (hfield _ _ (by decide)).trans ?_
  exact memset_agreeOn m regs 0#8 _ hd

/-! ## `kernel_thread_func` -/

/-- The addresses the linker gives to `kernel_thread_func` and `do_exit`, and the return
    addresses of the two calls. -/
structure ThreadCode where
  entry : U64
  fnReturn : U64
  doExit : U64
  exitReturn : U64

/-- A call: the address called, and the machine at its first instruction. -/
structure Call where
  target : U64
  cpu : Cpu

/-- `kernel_thread_func` up to its first `callq`. -/
def threadFuncHead : List Instr := restoreRegs ++ [.addImm 0x38#64 .rsp, .movq .rdx .rdi]

/-- The calls that `kernel_thread_func` makes. `callee` is the machine that a call comes back
    with, if it comes back. -/
def kernelThreadFunc (a : ThreadCode) (callee : Call → Option Cpu) (c : Cpu) : List Call :=
  let c := c.run threadFuncHead
  let call : Call := ⟨c.gpr .rbx, c.pushed [a.fnReturn]⟩
  match callee call with
  | some c => [call, ⟨a.doExit, (c.run [.movq .rax .rdi]).pushed [a.exitReturn]⟩]
  | none => [call]

/-- On a `pt_regs`, the first call is of `rbx` with the argument `rdx`, and the stack pointer
    stands behind the struct. -/
theorem run_threadFuncHead {c : Cpu} {r : PtRegs} (h : PtRegs.read c.mem (c.gpr .rsp) = r)
    (hds : (r.ds.setWidth 16).setWidth 64 = r.ds) (hes : (r.es.setWidth 16).setWidth 64 = r.es) :
    let c' := c.run threadFuncHead
    c'.gpr .rbx = r.rbx ∧ c'.gpr .rdi = r.rdx ∧ c'.seg .ds = r.ds.setWidth 16 ∧
      c'.seg .es = r.es.setWidth 16 ∧ c'.gpr .rsp = c.gpr .rsp + 192#64 ∧ c'.mem = c.mem := by
  obtain ⟨hregs, hds', hes', hsp, hmem⟩ := restoreRegs_of_ptRegs c h hds hes
  unfold threadFuncHead
  rw [Cpu.run_append]
  generalize c.run restoreRegs = d at *
  simp only [Cpu.run_cons, Cpu.run_nil, Cpu.exec]
  refine ⟨?_, ?_, hds', hes', ?_, hmem⟩
  · rw [Cpu.setReg_gpr_of_ne _ (by decide), Cpu.setReg_gpr_of_ne _ (by decide)]
    exact hregs .rbx (by decide)
  · rw [Cpu.setReg_gpr_self, Cpu.setReg_gpr_of_ne _ (by decide)]
    exact hregs .rdx (by decide)
  · rw [Cpu.setReg_gpr_of_ne _ (by decide), Cpu.setReg_gpr_self, hsp, BitVec.add_assoc]
    rfl

/-! ## A call in a run -/

/-- A call `kernel_thread(fn, arg, flags)`: the allocator's state, the stack pointer of
    `do_fork`, the address of the local `regs` and the arguments. -/
structure ThreadCall where
  mm : MmState
  rsp : U64
  regs : U64
  fn : U64
  arg : U64

namespace ThreadCall

variable (q : ThreadCall) (sym : Symbols) (a : ThreadCode)

/-- The caller's `current`. -/
def parent : U64 := getCurrent q.rsp

/-- The memory the call works on before it has the block: the parent's struct, the local
    `regs` and the init task's links. -/
def parentBytes : Set U64 :=
  Region q.parent 88 ∪ Region q.regs 192 ∪ Region sym.initTask 16

/-- Memory behind the call. -/
def memory (m : Mem) : Mem :=
  (kernelThread sym a.entry ⟨q.mm, m⟩ q.rsp q.regs q.fn q.arg).2.mem

end ThreadCall

/-- The layout gives a forked task the pieces that `do_fork` places in its block. -/
structure Layout.Forked (L : Layout) (t : U64) : Prop where
  thread : L.thread t = t + sizeofTask
  stackLow : L.stackLow t = t + (sizeofTask + sizeofThread)
  stackLen : L.stackLen t = 32616

/-- How high the child's frame and what lies behind it stand in the stack. -/
theorem Layout.Forked.height_eq {L : Layout} {t : U64} (h : L.Forked t) (x : U64) :
    L.height t x = (x - childFrame t + 32424#64).toNat := by
  have hoff : x - (t + (sizeofTask + sizeofThread)) = x - (t + 32576#64) + 32424#64 := by
    unfold sizeofTask sizeofThread
    bv_omega
  rw [Layout.height, h.stackLow, childFrame_eq, hoff]

theorem Layout.Forked.height_frame {L : Layout} {t : U64} (h : L.Forked t) :
    L.height t (childFrame t) = 32424 := by
  rw [h.height_eq, BitVec.sub_self, BitVec.zero_add]
  decide

theorem Layout.Forked.frame_subset_above {L : Layout} {t : U64} (h : L.Forked t) :
    Region (childFrame t) 192 ⊆ L.above t (childFrame t) := by
  intro x hx
  rw [mem_region] at hx
  have hsum : L.height t x = (x - childFrame t).toNat + 32424 := by
    rw [h.height_eq, BitVec.toNat_add]
    exact Nat.mod_eq_of_lt (Nat.lt_trans (Nat.add_lt_add_right hx 32424) (by decide))
  have hframe := h.height_frame
  constructor
  · omega
  · rw [h.stackLen]
    omega

/-- In memory `m`, the call `q` of a kernel thread has `do_fork` obtain the block `tsk`, apart
    from the parent's memory. The local `regs` is no part of the two structs. -/
structure ThreadCall.Forks (q : ThreadCall) (sym : Symbols) (m : Mem) (tsk : U64) : Prop where
  block : ∃ p, (forkPages q.mm).1 = some p ∧ tsk = taskAddr (forkPages q.mm).2 p
  kthread : m.read64 (q.parent + offFlags) &&& pfKthread ≠ 0#64
  apart : Disjoint (taskBlock tsk) (q.parentBytes sym)
  regs : Disjoint (Region q.regs 192) (Region q.parent 88 ∪ Region sym.initTask 16)

/-- The call `q` of the running task brings the task `tsk` to life and takes the machine to
    `c`. -/
structure KernelThreadOk (L : Layout) (sym : Symbols) (a : ThreadCode) (s : Sys) (q : ThreadCall)
    (tsk : U64) (c : Cpu) (live : Set U64) : Prop where
  forks : q.Forks sym s.cpu.mem tsk
  place : L.Forked tsk
  new : tsk ∉ s.live
  added : tsk ∈ live
  work : Work L s c live
  mem : Mem.AgreeOn (taskBlock tsk) c.mem (q.memory sym a s.cpu.mem)

variable {L : Layout} {sym : Symbols} {a : ThreadCode} {s s' : Sys} {log : List Switch}
  {q : ThreadCall} {tsk label : U64} {c c₂ : Cpu} {live : Set U64} {m : Mem}

namespace ThreadCall.Forks

variable (h : q.Forks sym m tsk)

include h

theorem memory_eq : q.memory sym a m =
    forkBlock sym (threadRegs m q.regs q.fn q.arg a.entry) tsk q.parent q.regs := by
  obtain ⟨p, hp, rfl⟩ := h.block
  unfold ThreadCall.memory kernelThread doFork
  dsimp only
  rw [hp]
  rfl

/-- The child's block behind the call. -/
theorem child : Child (threadRegs m q.regs q.fn q.arg a.entry) (q.memory sym a m) tsk q.regs := by
  obtain ⟨hparent, hinit⟩ := Set.disjoint_union_right.mp h.apart
  obtain ⟨hstruct, hregs⟩ := Set.disjoint_union_right.mp hparent
  obtain ⟨hlocal, hlocalInit⟩ := Set.disjoint_union_right.mp h.regs
  have hflags : (threadRegs m q.regs q.fn q.arg a.entry).read64 (q.parent + offFlags) &&&
      pfKthread ≠ 0#64 := by
    rw [((threadRegs_agreeOn m q.fn q.arg a.entry hlocal).mono
      (region_subset q.parent (by decide))).read64]
    exact h.kthread
  rw [h.memory_eq]
  exact forkBlock_child sym _ hflags hstruct hregs hinit hlocalInit.symm

/-- The call writes to the block, to its local and to the init task's links. -/
theorem agreeOn {b : Set U64}
    (hb : Disjoint (taskBlock tsk ∪ Region q.regs 192 ∪ Region sym.initTask 16) b) :
    Mem.AgreeOn b (q.memory sym a m) m := by
  obtain ⟨hmine, hinit⟩ := Set.disjoint_union_left.mp hb
  obtain ⟨hblock, hregs⟩ := Set.disjoint_union_left.mp hmine
  rw [h.memory_eq]
  exact (forkBlock_agreeOn sym _ tsk q.parent q.regs hblock hinit
    (hregs.mono_left (region_subset q.regs (by decide)))).trans
    (threadRegs_agreeOn m q.fn q.arg a.entry hregs)

end ThreadCall.Forks

theorem KernelThreadOk.child (h : KernelThreadOk L sym a s q tsk c live) :
    Child (threadRegs s.cpu.mem q.regs q.fn q.arg a.entry) c.mem tsk q.regs :=
  h.forks.child.of_agreeOn h.mem

/-- The machine behind a call that does nothing but the source's stores. -/
def threadCpu (sym : Symbols) (a : ThreadCode) (q : ThreadCall) (c : Cpu) : Cpu :=
  c.setMem (q.memory sym a c.mem)

/-- Such a call is work of the running task: the child is where the layout has it, with the
    frame to start from. -/
theorem kernelThreadOk_min (hs : s.live ⊆ L.tasks) (h : q.Forks sym s.cpu.mem tsk)
    (htsk : tsk ∈ L.tasks) (hplace : L.Forked tsk) (hnew : tsk ∉ s.live)
    (hpieces : ∀ p, p.Of s.live → p ≠ .stack s.cur → p ≠ .saved s.cur →
      Disjoint (taskBlock tsk ∪ Region q.regs 192 ∪ Region sym.initTask 16) (L.region p)) :
    KernelThreadOk L sym a s q tsk (threadCpu sym a q s.cpu) (insert tsk s.live) where
  forks := h
  place := hplace
  new := hnew
  added := Set.mem_insert _ _
  mem := Mem.AgreeOn.refl _ _
  work := by
    have hchild := h.child (a := a)
    refine ⟨Set.subset_insert _ _, Set.insert_subset htsk hs, fun p hp h1 h2 =>
      h.agreeOn (hpieces p hp h1 h2), fun t ht hn => ?_, fun t ht hn => ?_, rfl⟩
    · obtain rfl : t = tsk := ht.resolve_right hn
      rw [hplace.thread]
      exact hchild.thread
    · obtain rfl : t = tsk := ht.resolve_right hn
      have hrsp : (threadCpu sym a q s.cpu).mem.read64 (L.thread t + offRsp) = childFrame t := by
        rw [hplace.thread]
        exact hchild.rsp
      rw [hrsp, Layout.Room, hplace.height_frame, hplace.stackLen]
      decide

theorem KernelThreadOk.untouched (h : KernelThreadOk L sym a s q tsk c live)
    (r : SwitchRun L s log) :
    Untouched L tsk c.mem { s with cpu := c, live := live } where
  inv := switchInv_work r.inv h.work
  live := h.added
  cur hcur := h.new (hcur ▸ r.inv.cur)
  new := by
    by_contra hsome
    obtain ⟨sv, hsv⟩ := Option.ne_none_iff_exists'.mp hsome
    exact h.new (r.inv.suspended tsk sv hsv).1
  pieces p _ := Mem.AgreeOn.refl _ _

/-- The first call that `kernel_thread_func` makes for the call `q`, from a machine with
    memory `m`: `fn(arg)`, on the empty stack of the child. -/
structure CallsFn (m : Mem) (a : ThreadCode) (q : ThreadCall) (tsk : U64) (call : Call) : Prop where
  target : call.target = q.fn
  rdi : call.cpu.gpr .rdi = q.arg
  ds : call.cpu.seg .ds = kernelDs.setWidth 16
  es : call.cpu.seg .es = kernelDs.setWidth 16
  rsp : call.cpu.gpr .rsp + 8#64 = threadField m tsk offRsp0
  stack : threadField m tsk offRsp0 = tsk + stackSize ∧
    Region (call.cpu.gpr .rsp) 8 ⊆ taskBlock tsk
  back : call.cpu.mem.read64 (call.cpu.gpr .rsp) = a.fnReturn

/-- At its first switch the child finds its `pt_regs` at the stack pointer. -/
theorem KernelThreadOk.ptRegs (h : KernelThreadOk L sym a s q tsk c live) {sw : Switch}
    (hst : Starts L tsk c.mem sw) :
    sw.after.gpr .rsp = childFrame tsk ∧ PtRegs.read sw.after.mem (childFrame tsk) =
      PtRegs.read (threadRegs s.cpu.mem q.regs q.fn q.arg a.entry) q.regs := by
  have hch := h.child
  have hrsp : c.mem.read64 (L.thread tsk + offRsp) = childFrame tsk := by
    rw [h.place.thread]
    exact hch.rsp
  have habove := hst.above
  rw [hrsp] at habove
  refine ⟨hst.rsp.trans hrsp, PtRegs.read_congr fun o ho => ?_⟩
  have hword := habove.mono ((region_subset (childFrame tsk) ho).trans h.place.frame_subset_above)
  exact hword.read64.trans (hch.frame o ho)

/-- The child's `thread->rsp0` is the top of its block. -/
theorem KernelThreadOk.rsp0 (h : KernelThreadOk L sym a s q tsk c live) {sw : Switch}
    (hst : Starts L tsk c.mem sw) : threadField sw.after.mem tsk offRsp0 = tsk + stackSize := by
  have hthread : threadOf sw.after.mem tsk = tsk + sizeofTask :=
    hst.pointer.read64.trans h.child.thread
  have hfield : sw.after.mem.read64 (L.thread tsk + offRsp0) =
      c.mem.read64 (L.thread tsk + offRsp0) := hst.rsp0.read64
  rw [h.place.thread] at hfield
  rw [threadField, hthread, hfield]
  exact h.child.rsp0

/-- The first call of `kernel_thread_func` on the child's `pt_regs`. -/
theorem callsFn_of_ptRegs {m : Mem} {c : Cpu} (hsp : c.gpr .rsp = childFrame tsk)
    (hregs : PtRegs.read c.mem (childFrame tsk) =
      PtRegs.read (threadRegs m q.regs q.fn q.arg a.entry) q.regs)
    (hrsp0 : threadField c.mem tsk offRsp0 = tsk + stackSize) :
    CallsFn c.mem a q tsk
      ⟨(c.run threadFuncHead).gpr .rbx, (c.run threadFuncHead).pushed [a.fnReturn]⟩ := by
  obtain ⟨hrbx, hrdx, hds, hes, -⟩ := threadRegs_fields m q.regs q.fn q.arg a.entry
  have hsel : (kernelDs.setWidth 16).setWidth 64 = kernelDs := by decide
  rw [← hsp] at hregs
  obtain ⟨h1, h2, h3, h4, h5, -⟩ := run_threadFuncHead hregs (by rw [hds, hsel]) (by rw [hes, hsel])
  have htop : (c.run threadFuncHead).gpr .rsp = tsk + stackSize := by
    rw [h5, hsp, childFrame_eq, BitVec.add_assoc]
    rfl
  have hword : Mem.below (tsk + stackSize) 1 = tsk + 32760#64 := by
    unfold Mem.below stackSize
    bv_omega
  generalize c.run threadFuncHead = d at *
  refine ⟨h1.trans hrbx, ?_, ?_, ?_, ?_, ⟨hrsp0, ?_⟩, ?_⟩
  · rw [Cpu.pushed_gpr _ (by decide), h2, hrdx]
  · rw [Cpu.pushed_seg, h3, hds]
  · rw [Cpu.pushed_seg, h4, hes]
  · rw [Cpu.pushed_rsp, htop, hrsp0]
    exact (Mem.below_add_word _ 0).trans (BitVec.sub_zero _)
  · rw [Cpu.pushed_rsp, htop, List.length_singleton, hword]
    exact field_subset tsk (by decide)
  · rw [Cpu.pushed_mem, Cpu.pushed_rsp]
    exact (Mem.pushWords_concat _ _ [] _ (by decide)).1

/-- **A kernel thread starts.** Behind `kernel_thread(fn, arg, flags)` of a task with
    `PF_KTHREAD`, and whatever runs until then, the first switch to the child goes to
    `kernel_thread_func`, which calls `fn(arg)` on the child's own stack; if that returns,
    it calls `do_exit` with what it returned. -/
theorem kernelThread_starts (r : SwitchRun L s log) (h : KernelThreadOk L sym a s q tsk c live)
    (w : Waiting L tsk { s with cpu := c, live := live } s')
    (hok : SwitchOk L s' tsk label c₂) (callee : Call → Option Cpu) :
    let sw := s'.switch tsk label c₂
    sw.target = a.entry ∧ ∃ call, CallsFn sw.after.mem a q tsk call ∧
      (callee call = none → kernelThreadFunc a callee sw.after = [call]) ∧
      ∀ c₃, callee call = some c₃ → ∃ exit : Call,
        kernelThreadFunc a callee sw.after = [call, exit] ∧
        exit.target = a.doExit ∧ exit.cpu.gpr .rdi = c₃.gpr .rax := by
  intro sw
  have hst : Starts L tsk c.mem sw := w.firstSwitch (h.untouched r) hok
  obtain ⟨hsp, hregs⟩ := h.ptRegs hst
  refine ⟨?_, _, callsFn_of_ptRegs hsp hregs (h.rsp0 hst), fun hnone => ?_, fun c₃ hsome => ?_⟩
  · rw [hst.target, h.place.thread, h.child.rip]
    exact (threadRegs_fields s.cpu.mem q.regs q.fn q.arg a.entry).2.2.2.2
  · unfold kernelThreadFunc
    dsimp only
    rw [hnone]
  · refine ⟨⟨a.doExit, (c₃.run [.movq .rax .rdi]).pushed [a.exitReturn]⟩, ?_, rfl, ?_⟩
    · unfold kernelThreadFunc
      dsimp only
      rw [hsome]
    · rw [Cpu.pushed_gpr _ (by decide)]
      exact Cpu.setReg_gpr_self _ _ _

/-! ### A thread of the init task -/

/-- `pairMem` with the init task a kernel thread. -/
def kthreadMem : Mem := pairMem.write64 (pairInit + offFlags) pfKthread

/-- Behind `task_init`'s set-up of the CPU. -/
def kthreadSys : Sys :=
  ⟨taskInit pair.toPlaces (pairCpu.setMem kthreadMem) 0#64, pairInit, {pairInit}, fun _ => none⟩

/-- `kernel_thread(0x2000, 10, 0)` when 7 pages of the zone are in use. -/
def kthreadCall : ThreadCall where
  mm := initPages (initMemory oddBoot) forkFlags (blockPages 257 7)
  rsp := smallRsp
  regs := smallRegs
  fn := 0x2000#64
  arg := 10#64

def kthreadCode : ThreadCode := ⟨0x1000#64, 0x1030#64, 0x1800#64, 0x1038#64⟩

theorem pair_forked : pair.Forked pairTask := ⟨by decide, by decide, by decide⟩

theorem kthreadRun : SwitchRun pair kthreadSys [] := by
  refine .start (pairCpu.setMem kthreadMem) 0#64 (by decide) ?_
  rw [Cpu.setMem_mem, threadOf, kthreadMem]
  change (pairMem.write64 (pairInit + offFlags) _).read64 (pairInit + offThread) = _
  rw [Mem.read64_write64_offset _ _ _ (by decide)]
  decide

theorem kthreadCall_block : ∃ p, (forkPages kthreadCall.mm).1 = some p ∧
    pairTask = taskAddr (forkPages kthreadCall.mm).2 p := by
  have hmm : kthreadCall.mm = initPages (initMemory oddBoot) forkFlags (blockPages 257 7) := by
    rw [kthreadCall]
  refine ⟨264, ?_⟩
  rw [hmm, oddBoot_forkAt (n := 7) (by decide), taskAddr_initPages, taskAddr_initPages,
    oddBoot_taskAddr (by decide) (by decide)]
  exact ⟨rfl, by decide⟩

theorem kthreadCall_forks : kthreadCall.Forks smallSymbols kthreadSys.cpu.mem pairTask where
  block := kthreadCall_block
  kthread := by
    have hflags : kthreadSys.cpu.mem.read64 (pairInit + offFlags) = pfKthread := by
      refine Eq.trans (Mem.AgreeOn.read64 ?_) (Mem.read64_write64_self pairMem _ _)
      refine taskInit_agreeOn (L := pair) (pairCpu.setMem kthreadMem) 0#64 ?_ ?_
      · exact disjoint_of_le (by decide) (by decide)
      · exact disjoint_of_le (by decide) (by decide)
    change kthreadSys.cpu.mem.read64 (pairInit + offFlags) &&& _ ≠ _
    rw [hflags]
    decide
  apart := Set.disjoint_union_right.mpr ⟨Set.disjoint_union_right.mpr
    ⟨disjoint_of_le (by decide) (by decide), disjoint_of_le (by decide) (by decide)⟩,
    disjoint_of_le (by decide) (by decide)⟩
  regs := Set.disjoint_union_right.mpr ⟨(disjoint_of_le (by decide) (by decide)).symm,
    (disjoint_of_le (by decide) (by decide)).symm⟩

/-- What the call writes to and what it may not write to, from low addresses to high ones:
    the block, the pieces at `init_thread`, the init task's links, its `thread` pointer and
    the local `regs`. -/
theorem kthreadCall_pieces {p : Piece} (hp : p.Of kthreadSys.live)
    (h1 : p ≠ .stack kthreadSys.cur) (h2 : p ≠ .saved kthreadSys.cur) :
    Disjoint (taskBlock pairTask ∪ Region kthreadCall.regs 192 ∪ Region smallSymbols.initTask 16)
      (pair.region p) := by
  have hmem : p ∈ [Piece.pointer pairInit, .rsp0 pairInit, .initTss, .tssTable] := by
    cases p with
    | stack t => exact absurd (congrArg Piece.stack hp) h1
    | saved t => exact absurd (congrArg Piece.saved hp) h2
    | pointer t => simp [show t = pairInit from hp]
    | rsp0 t => simp [show t = pairInit from hp]
    | initTss => simp
    | tssTable => simp
  rw [Set.disjoint_union_left, Set.disjoint_union_left]
  simp only [List.mem_cons, List.not_mem_nil, or_false] at hmem
  rcases hmem with rfl | rfl | rfl | rfl
  · exact ⟨⟨disjoint_of_le (by decide) (by decide), (disjoint_of_le (by decide) (by decide)).symm⟩,
      disjoint_of_le (by decide) (by decide)⟩
  all_goals
    exact ⟨⟨disjoint_of_le (by decide) (by decide), (disjoint_of_le (by decide) (by decide)).symm⟩,
      (disjoint_of_le (by decide) (by decide)).symm⟩

/-- The machine behind the call. -/
def kthreadCpu : Cpu := threadCpu smallSymbols kthreadCode kthreadCall kthreadSys.cpu

theorem kthreadCall_ok : KernelThreadOk pair smallSymbols kthreadCode kthreadSys kthreadCall
    pairTask kthreadCpu (insert pairTask {pairInit}) :=
  kernelThreadOk_min (Set.singleton_subset_iff.mpr (Or.inl rfl)) kthreadCall_forks pairTask_mem
    pair_forked (fun h => absurd (Set.mem_singleton_iff.mp h) (by decide))
    fun _ hp h1 h2 => kthreadCall_pieces hp h1 h2

/-- The init task behind the call. -/
def kthreadForked : Sys := { kthreadSys with cpu := kthreadCpu, live := insert pairTask {pairInit} }

theorem kernelThread_starts_pair :
    (kthreadForked.switch pairTask 0x3000#64 (switchToMin pair.toPlaces pairInit pairTask
      (switchEnter kthreadCpu pairInit pairTask 0x3000#64))).target = 0x1000#64 := by
  have hok : SwitchOk pair kthreadForked pairTask 0x3000#64 (switchToMin pair.toPlaces pairInit
      pairTask (switchEnter kthreadCpu pairInit pairTask 0x3000#64)) :=
    switchOk_min _ (Set.mem_insert _ _) (by decide)
  exact (kernelThread_starts kthreadRun kthreadCall_ok .start hok fun _ => none).1

end HelloOS.Sched
