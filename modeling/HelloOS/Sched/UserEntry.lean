/-
  The way into user mode: `init` and `do_execve` (`kernel/sched/task.c`), and the end of
  `task_init`.

  `task_init` makes a kernel thread of `init` and switches to the task behind it in the list.
  `init` points its own stack pointer at the `pt_regs` at the top of its block, though its frame
  lies there, pushes `ret_system_call` and jumps to `do_execve`, which fills five fields in and
  returns: to `ret_system_call`, which pops whatever the frame has left in the others and leaves
  by `sysexit`. The C code's use of the stack, and the memory that its `kinfo` calls write, are
  left open (`InitCall`, `ExecveCall`).

  Addresses are virtual: the task's block is taken not to be the memory at 0x800000.
-/
import HelloOS.Entry.Syscall
import HelloOS.Sched.KernelThread

namespace HelloOS.Sched

open HelloOS.Lib HelloOS.Mm HelloOS.Kstring HelloOS.Entry

/-! ## `init` and `do_execve` -/

/-- Where the user's code is copied to, and its length. -/
def userCode : U64 := 0x800000#64

def userCodeLen : U64 := 1024#64

/-- The user's stack pointer. -/
def userStack : U64 := 0xa00000#64

/-- What `init` stores, on the stack pointer `rsp`. -/
def initStores (m : Mem) (retSystemCall rsp : U64) : Mem :=
  let cur := getCurrent rsp
  let m := m.write64 (threadOf m cur + offRip) retSystemCall
  m.write64 (threadOf m cur + offRsp) (cur + stackSize - sizeofPtRegs)

/-- The assembly of `init`, up to its `jmp do_execve`. -/
def initAsm (m : Mem) (cur : U64) : List Instr :=
  [.load (threadOf m cur + offRsp) .rsp, .pushMem (threadOf m cur + offRip)]

/-- The machine at the first instruction of `do_execve(regs)`, if `c` is the one in front of the
    assembly. -/
def initEnter (c : Cpu) : Cpu :=
  let cur := getCurrent (c.gpr .rsp)
  (c.setReg .rdi (c.mem.read64 (threadOf c.mem cur + offRsp))).run (initAsm c.mem cur)

/-- What `do_execve(regs)` stores; `userFn` is the address of `user_level_function`. -/
def doExecve (m : Mem) (regs userFn : U64) : Mem :=
  let m := m.write64 (regs + 80#64) userCode
  let m := m.write64 (regs + 72#64) userStack
  let m := m.write64 (regs + 128#64) 1#64
  let m := m.write64 (regs + 112#64) 0#64
  let m := m.write64 (regs + 120#64) 0#64
  memcpy m userFn userCode userCodeLen

/-- `init`, called with the machine `c`, is in front of its assembly with `c₀`: its frame has not
    left the 32 KB that `c` has its stack in, and its thread's `rip` and `rsp` are as stored. -/
structure InitCall (retSystemCall : U64) (c c₀ : Cpu) : Prop where
  frame : getCurrent (c₀.gpr .rsp) = getCurrent (c.gpr .rsp)
  pointer : Mem.AgreeOn (Region (getCurrent (c.gpr .rsp) + offThread) 8) c₀.mem
    (initStores c.mem retSystemCall (c.gpr .rsp))
  saved : Mem.AgreeOn (Region (threadOf c.mem (getCurrent (c.gpr .rsp)) + offRip) 16) c₀.mem
    (initStores c.mem retSystemCall (c.gpr .rsp))

/-- `do_execve`, called with the machine `c`, returns with `c'`: its own stack lies below the
    return address, and the `pt_regs` and the user's code are as stored. -/
structure ExecveCall (userFn : U64) (c c' : Cpu) : Prop where
  back : Mem.AgreeOn (Region (c.gpr .rsp) 8) c'.mem (doExecve c.mem (c.gpr .rdi) userFn)
  regs : Mem.AgreeOn (Region (c.gpr .rdi) 192) c'.mem (doExecve c.mem (c.gpr .rdi) userFn)
  code : Mem.AgreeOn (Region userCode 1024) c'.mem (doExecve c.mem (c.gpr .rdi) userFn)
  rax : c'.gpr .rax = 0#64
  rsp : c'.gpr .rsp = c.gpr .rsp + 8#64

/-- The machine at the `sysexit` that takes the task `tsk` to user mode for the first time: the
    user's `rip` and `rsp`, the two selectors, and an empty kernel stack. -/
structure EntersUser (tsk : U64) (c : Cpu) : Prop where
  target : sysexit c = (userCode, userStack)
  rax : c.gpr .rax = 0#64
  ds : c.seg .ds = 0#16
  es : c.seg .es = 0#16
  rsp : c.gpr .rsp = tsk + stackSize

/-! ### The stores -/

/-- A field of the `thread_struct` behind a `task_struct`, seen from its `thread` pointer. -/
theorem threadOf_write_field {m : Mem} {tsk c : U64} (v : U64) (hc : c.toNat + 8 ≤ 64) :
    threadOf (m.write64 (tsk + sizeofTask + c) v) tsk = threadOf m tsk := by
  refine Mem.read64_write64_of_disjoint _ _ _ v (Disjoint.symm ?_)
  rw [BitVec.add_assoc]
  have hsum : (sizeofTask + c).toNat = 88 + c.toNat := by
    rw [BitVec.toNat_add, show sizeofTask.toNat = 88 from rfl]
    exact Nat.mod_eq_of_lt (by omega)
  exact disjoint_offsets tsk (by rw [hsum, show offThread.toNat = 40 from rfl]; omega)
    (by omega)

theorem initStores_spec (m : Mem) (ret : U64) {rsp tsk : U64} (hcur : getCurrent rsp = tsk)
    (hthread : threadOf m tsk = tsk + sizeofTask) :
    let m' := initStores m ret rsp
    threadOf m' tsk = tsk + sizeofTask ∧ m'.read64 (tsk + sizeofTask + offRip) = ret ∧
      m'.read64 (tsk + sizeofTask + offRsp) = childFrame tsk := by
  have h1 : threadOf (m.write64 (tsk + sizeofTask + offRip) ret) tsk = tsk + sizeofTask :=
    (threadOf_write_field ret (by decide)).trans hthread
  intro m'
  have hm : m' = (m.write64 (tsk + sizeofTask + offRip) ret).write64 (tsk + sizeofTask + offRsp)
      (childFrame tsk) := by
    change initStores m ret rsp = _
    unfold initStores
    dsimp only
    rw [hcur, hthread, h1]
    rfl
  rw [hm]
  refine ⟨(threadOf_write_field _ (by decide)).trans h1, ?_, Mem.read64_write64_self _ _ _⟩
  rw [Mem.read64_write64_offset _ _ _ (by decide)]
  exact Mem.read64_write64_self _ _ _

/-- The five fields of `do_execve`, behind the copy of the code. -/
theorem doExecve_fields (m : Mem) (userFn : U64) {regs : U64}
    (hcode : Disjoint (Region userCode 1024) (Region regs 192)) :
    let r := PtRegs.read (doExecve m regs userFn) regs
    r.rdx = userCode ∧ r.rcx = userStack ∧ r.ds = 0#64 ∧ r.es = 0#64 := by
  have hkeep : ∀ (m' : Mem) {c : U64}, c.toNat + 8 ≤ 192 →
      (memcpy m' userFn userCode userCodeLen).read64 (regs + c) = m'.read64 (regs + c) :=
    fun m' c hc => (memcpy_agreeOn m' _ _ _ (by decide)
      (hcode.mono_right (region_subset regs hc))).read64
  dsimp only [PtRegs.read, doExecve]
  simp (disch := decide) only [hkeep, Mem.read64_write64_offset, Mem.read64_write64_self, and_self]

/-- They go to the `pt_regs` and to the user's code. -/
theorem doExecve_agreeOn (m : Mem) (userFn : U64) {regs : U64} {s : Set U64}
    (hregs : Disjoint (Region regs 192) s) (hcode : Disjoint (Region userCode 1024) s) :
    Mem.AgreeOn s (doExecve m regs userFn) m := by
  have hstore : ∀ (m' : Mem) {c : U64} (v : U64), c.toNat + 8 ≤ 192 →
      Mem.AgreeOn s (m'.write64 (regs + c) v) m' := fun m' c v hc =>
    m'.agreeOn_write64 _ v (hregs.mono_left (region_subset regs hc))
  unfold doExecve
  refine (memcpy_agreeOn _ _ _ _ (by decide) hcode).trans ?_
  refine (hstore _ _ (by decide)).trans ?_
  refine (hstore _ _ (by decide)).trans ?_
  refine (hstore _ _ (by decide)).trans ?_
  refine (hstore _ _ (by decide)).trans ?_
  exact hstore _ _ (by decide)

/-- The user's code is a copy of `user_level_function`. -/
theorem doExecve_code {m : Mem} {regs userFn : U64} {i : ℕ} (hi : i < 1024)
    (hfn : Disjoint (Region regs 192) (Region userFn 1024))
    (hcopy : Disjoint (Region userFn 1024) (Region userCode 1024)) :
    doExecve m regs userFn (userCode + BitVec.ofNat 64 i) = m (userFn + BitVec.ofNat 64 i) := by
  have hoff : (BitVec.ofNat 64 i).toNat = i := by
    exact toNat_ofNat_eq (by omega)
  have hmem : userFn + BitVec.ofNat 64 i ∈ Region userFn 1024 :=
    Mem.mem_region_add.mpr (by rw [hoff]; exact hi)
  have hstore : ∀ (m' : Mem) {c : U64} (v : U64), c.toNat + 8 ≤ 192 →
      Mem.AgreeOn (Region userFn 1024) (m'.write64 (regs + c) v) m' := fun m' c v hc =>
    m'.agreeOn_write64 _ v (hfn.mono_left (region_subset regs hc))
  unfold doExecve
  rw [memcpy_eq_fill _ (by decide) hcopy, Mem.fill_add _ _ _ (by rw [hoff]; exact hi), hoff]
  refine (hstore _ _ (by decide) _ hmem).trans ?_
  refine (hstore _ _ (by decide) _ hmem).trans ?_
  refine (hstore _ _ (by decide) _ hmem).trans ?_
  refine (hstore _ _ (by decide) _ hmem).trans ?_
  exact hstore _ _ (by decide) _ hmem

/-! ## From `init` to the user -/

/-- The word below the frame of a block. -/
theorem childFrame_back (tsk : U64) : childFrame tsk - 8#64 = tsk + 32568#64 := by
  rw [childFrame_eq]
  bv_omega

/-- Behind one push on the stack of an aligned block, `get_current` finds the block. -/
theorem getCurrent_pushed {tsk : U64} (halign : 32768 ∣ tsk.toNat) :
    getCurrent (tsk + 32760#64) = tsk := by
  have hlt : tsk.toNat + 32768 ≤ 2 ^ 64 := by
    have := tsk.isLt
    omega
  have hnat : (tsk + 32760#64).toNat = tsk.toNat + 32760 := by
    rw [BitVec.toNat_add]
    exact Nat.mod_eq_of_lt (by change tsk.toNat + 32760 < 2 ^ 64; omega)
  refine (currentOnStack_iff tsk).mpr halign _ (by omega) ?_
  rw [hnat, show stackSize.toNat = 32768 from rfl]
  omega

section Chain

variable {tsk ret userFn : U64} {c c₀ c₃ : Cpu}

/-- `init` jumps to `do_execve` on the frame at the top of its block, with `ret_system_call` as
    the return address. -/
theorem InitCall.enter (h : InitCall ret c c₀) (hcur : getCurrent (c.gpr .rsp) = tsk)
    (hthread : threadOf c.mem tsk = tsk + sizeofTask) :
    (initEnter c₀).gpr .rdi = childFrame tsk ∧
      (initEnter c₀).gpr .rsp = Mem.below (childFrame tsk) 1 ∧
      (initEnter c₀).mem = c₀.mem.write64 (childFrame tsk - 8#64) ret := by
  obtain ⟨hptr, hrip, hrsp⟩ := initStores_spec c.mem ret hcur hthread
  obtain ⟨hframe, hpointer, hsaved⟩ := h
  rw [hcur] at hpointer hsaved hframe
  rw [hthread] at hsaved
  have hthread₀ : threadOf c₀.mem tsk = tsk + sizeofTask := hpointer.read64.trans hptr
  have hrip₀ : c₀.mem.read64 (tsk + sizeofTask + offRip) = ret :=
    (hsaved.mono (region_mono _ (by decide))).read64.trans hrip
  have hrsp₀ : c₀.mem.read64 (tsk + sizeofTask + offRsp) = childFrame tsk := by
    rw [← hrsp]
    refine (hsaved.mono ?_).read64
    rw [show tsk + sizeofTask + offRsp = tsk + sizeofTask + offRip + 8#64 from
      (BitVec.add_assoc (tsk + sizeofTask) offRip 8#64).symm]
    exact region_subset _ (by decide)
  unfold initEnter initAsm
  dsimp only
  rw [hframe, hthread₀]
  simp only [Cpu.run_cons, Cpu.run_nil, Cpu.exec, Cpu.setReg_mem, hrip₀, hrsp₀]
  refine ⟨?_, ?_, ?_⟩
  · rw [Cpu.pushed_gpr _ (by decide), Cpu.setReg_gpr_of_ne _ (by decide), Cpu.setReg_gpr_self]
  · rw [Cpu.pushed_rsp, Cpu.setReg_gpr_self]
    rfl
  · rw [Cpu.pushed_mem, Cpu.setReg_gpr_self]
    rfl

/-- `do_execve` returns to `ret_system_call`, which enters user mode. -/
theorem ExecveCall.enters {c₁ : Cpu} (h : ExecveCall userFn c₁ c₃)
    (hdi : c₁.gpr .rdi = childFrame tsk) (hsp : c₁.gpr .rsp = Mem.below (childFrame tsk) 1)
    (hret : c₁.mem.read64 (childFrame tsk - 8#64) = ret)
    (hcode : Disjoint (taskBlock tsk) (Region userCode 1024)) :
    c₃.mem.read64 (c₁.gpr .rsp) = ret ∧ EntersUser tsk (c₃.run retSystemCall) := by
  have hframe : Disjoint (Region userCode 1024) (Region (childFrame tsk) 192) :=
    hcode.symm.mono_right (childFrame_subset tsk)
  obtain ⟨hrdx, hrcx, hds, hes⟩ := doExecve_fields c₁.mem userFn hframe
  have hword : Disjoint (Region (childFrame tsk) 192) (Region (childFrame tsk - 8#64) 8) := by
    rw [childFrame_back, childFrame_eq]
    exact (disjoint_offsets tsk (by decide) (by decide)).symm
  have hblock : Region (childFrame tsk - 8#64) 8 ⊆ taskBlock tsk := by
    rw [childFrame_back]
    exact field_subset tsk (by decide)
  constructor
  · have hsame := doExecve_agreeOn c₁.mem userFn hword
      (hcode.symm.mono_right hblock)
    rw [h.back.read64, hdi, hsp]
    exact hsame.read64.trans hret
  have hsp₃ : c₃.gpr .rsp = childFrame tsk := by
    rw [h.rsp, hsp]
    exact (Mem.below_add_word _ 0).trans (BitVec.sub_zero _)
  have hr : PtRegs.read c₃.mem (childFrame tsk) =
      PtRegs.read (doExecve c₁.mem (childFrame tsk) userFn) (childFrame tsk) := by
    have hregs := h.regs
    rw [hdi] at hregs
    exact PtRegs.read_congr fun o ho => (hregs.mono (region_subset _ ho)).read64
  -- the frame is a saved machine with two null selectors
  generalize PtRegs.read (doExecve c₁.mem (childFrame tsk) userFn) (childFrame tsk) = r at *
  have hnull : ((0#64).setWidth 16).setWidth 64 = 0#64 := by decide
  have hwords : c₃.mem.readWords (c₃.gpr .rsp) 17 = (savedWords r.cpu).reverse := by
    rw [← r.savedWords_cpu (by rw [hds, hnull]) (by rw [hes, hnull]), ← hr, PtRegs.toList_read,
      hsp₃, c₃.mem.readWords_append _ 17 7, List.take_left' (Mem.readWords_length _ _ 17)]
  obtain ⟨hgpr, hax, hds₃, hes₃, hrsp⟩ := run_retSystemCall c₃ hwords
  refine ⟨?_, hax.trans h.rax, ?_, ?_, ?_⟩
  · unfold sysexit
    rw [hgpr .rdx (by decide) (by decide), hgpr .rcx (by decide) (by decide)]
    exact Prod.ext hrdx hrcx
  · rw [hds₃]
    exact congrArg (BitVec.setWidth 16) hds
  · rw [hes₃]
    exact congrArg (BitVec.setWidth 16) hes
  · rw [hrsp, hsp₃, childFrame_eq, BitVec.add_assoc]
    rfl

/-- Behind `ret_system_call` the user code is what `do_execve` found at `user_level_function`. -/
theorem ExecveCall.copied {c₁ : Cpu} (h : ExecveCall userFn c₁ c₃)
    (hdi : c₁.gpr .rdi = childFrame tsk) (hsp : c₁.gpr .rsp = Mem.below (childFrame tsk) 1)
    (hcode : Disjoint (taskBlock tsk) (Region userCode 1024))
    (hfn : Disjoint (taskBlock tsk) (Region userFn 1024))
    (hcopy : Disjoint (Region userFn 1024) (Region userCode 1024)) {i : ℕ} (hi : i < 1024) :
    (c₃.run retSystemCall).mem (userCode + BitVec.ofNat 64 i) =
      c₁.mem (userFn + BitVec.ofNat 64 i) := by
  have hoff : (BitVec.ofNat 64 i).toNat = i := toNat_ofNat_eq (by omega)
  have hdst : userCode + BitVec.ofNat 64 i ∈ Region userCode 1024 :=
    Mem.mem_region_add.mpr (by rw [hoff]; exact hi)
  -- the way out stores to the frame only
  have hrax : Disjoint (Region (c₃.gpr .rsp + 0x80#64) 8) (Region userCode 1024) := by
    rw [h.rsp, hsp, show Mem.below (childFrame tsk) 1 + 8#64 = childFrame tsk from
      (Mem.below_add_word _ 0).trans (BitVec.sub_zero _)]
    exact hcode.mono_left ((region_subset _ (by decide)).trans (childFrame_subset tsk))
  rw [run_retSystemCall_mem, Mem.agreeOn_write64 _ _ _ hrax _ hdst, h.code _ hdst, hdi]
  exact doExecve_code hi (hfn.mono_left (childFrame_subset tsk)) hcopy

end Chain

/-! ## The first process -/

/-- `container_of(ptr, type, member)`, with `off` the offset of the member. -/
def containerOf (ptr off : U64) : U64 := ptr - off

/-- `&((struct task_struct *)0)->list`. -/
def offList : U64 := 0#64

/-- The task that `task_init` switches to:
    `container_of(list_next(&current->list), struct task_struct, list)`. -/
def nextTask (c : Cpu) : U64 :=
  containerOf (listNext c.mem (getCurrent (c.gpr .rsp) + offList)) offList

/-- The first call that `kernel_thread_func` makes, from the machine `c`. -/
def firstCall (a : ThreadCode) (c : Cpu) : Call :=
  ⟨(c.run threadFuncHead).gpr .rbx, (c.run threadFuncHead).pushed [a.fnReturn]⟩

section First

variable {L : Layout} {sym : Symbols} {a : ThreadCode} {s : Sys} {log : List Switch}
  {q : ThreadCall} {tsk label userFn : U64} {c c₂ : Cpu} {live : Set U64}

/-- Behind a fork of the init task the child is the next in the list. -/
theorem KernelThreadOk.next (h : KernelThreadOk L sym a s q tsk c live)
    (hself : q.parent = sym.initTask) (hcur : getCurrent (c.gpr .rsp) = sym.initTask)
    (hlinks : Mem.AgreeOn (Region sym.initTask 16) c.mem (q.memory sym a s.cpu.mem)) :
    nextTask c = tsk := by
  obtain ⟨hparent, hinit⟩ := Set.disjoint_union_right.mp h.forks.apart
  obtain ⟨hstruct, hregs⟩ := Set.disjoint_union_right.mp hparent
  have hlink : ∀ t, linkBytes t ⊆ Region t 88 := fun t =>
    (linkBytes_subset_region t).trans (region_mono t (by decide))
  have hrip : Region (q.regs + offRegsRip) 8 ⊆ Region q.regs 192 :=
    region_subset q.regs (by decide)
  rw [hself] at hstruct
  have hlocal := (Set.disjoint_union_right.mp h.forks.regs).1
  rw [hself] at hlocal
  have hi : Disjoint (taskBlock tsk) (linkBytes sym.initTask) := hstruct.mono_right (hlink _)
  have hr : Disjoint (Region (q.regs + offRegsRip) 8) (linkBytes tsk) :=
    (hregs.symm.mono_left hrip).mono_right (linkBytes_subset tsk)
  have hri : Disjoint (Region (q.regs + offRegsRip) 8) (linkBytes sym.initTask) :=
    (hlocal.mono_left hrip).mono_right (hlink _)
  obtain ⟨⟨hnext, -⟩, -⟩ :=
    forkBlock_links (threadRegs s.cpu.mem q.regs q.fn q.arg a.entry) q.parent hi hr hri
  rw [← h.forks.memory_eq] at hnext
  unfold nextTask containerOf offList
  rw [BitVec.add_zero, BitVec.sub_zero, hcur, (links_of_agreeOn hlinks).1]
  exact hnext

/-- The `thread` pointer of the child, in front of the call of `init`. -/
theorem KernelThreadOk.call_thread (h : KernelThreadOk L sym a s q tsk c live) {sw : Switch}
    (hst : Starts L tsk c.mem sw) (hsp : (firstCall a sw.after).cpu.gpr .rsp = tsk + 32760#64) :
    threadOf (firstCall a sw.after).cpu.mem tsk = tsk + sizeofTask := by
  have hthread : threadOf sw.after.mem tsk = tsk + sizeofTask :=
    hst.pointer.read64.trans h.child.thread
  have hmem : (firstCall a sw.after).cpu.mem =
      sw.after.mem.write64 (tsk + 32760#64) a.fnReturn := by
    have hpush : (firstCall a sw.after).cpu.mem = sw.after.mem.write64
        ((sw.after.run threadFuncHead).gpr .rsp - 8#64) a.fnReturn := rfl
    have hword : (firstCall a sw.after).cpu.gpr .rsp =
        (sw.after.run threadFuncHead).gpr .rsp - 8#64 :=
      Cpu.pushed_rsp (sw.after.run threadFuncHead) [a.fnReturn]
    rw [hpush, ← hword, hsp]
  rw [threadOf, hmem, (agreeOn_field_below (c := 32760#64) (d := offThread) _ _ (by decide)
    (by decide)).read64]
  exact hthread

/-- **The first process.** When the init task has made a kernel thread of `init`, the task it
    switches to is that thread, if the thread's block starts at a multiple of 32 KB: the switch
    goes to `kernel_thread_func`, which calls `init`, and through `do_execve` and
    `ret_system_call` the thread leaves for user mode, to a copy of `user_level_function` at
    0x800000 with its stack at 0xa00000, whatever its frame held. -/
theorem taskInit_entersUser (r : SwitchRun L s log) (h : KernelThreadOk L sym a s q tsk c live)
    (hself : q.parent = sym.initTask) (hcur : getCurrent (c.gpr .rsp) = sym.initTask)
    (hlinks : Mem.AgreeOn (Region sym.initTask 16) c.mem (q.memory sym a s.cpu.mem))
    (halign : 32768 ∣ tsk.toNat) (hcode : Disjoint (taskBlock tsk) (Region userCode 1024))
    (hfn : Disjoint (taskBlock tsk) (Region userFn 1024))
    (hcopy : Disjoint (Region userFn 1024) (Region userCode 1024))
    (hok : SwitchOk L { s with cpu := c, live := live } (nextTask c) label c₂) :
    let sw := Sys.switch { s with cpu := c, live := live } (nextTask c) label c₂
    let call := firstCall a sw.after
    sw.next = tsk ∧ sw.target = a.entry ∧ call.target = q.fn ∧ call.cpu.gpr .rdi = q.arg ∧
      ∀ c₀ c₃, InitCall sym.retSystemCall call.cpu c₀ → ExecveCall userFn (initEnter c₀) c₃ →
        c₃.mem.read64 ((initEnter c₀).gpr .rsp) = sym.retSystemCall ∧
        EntersUser tsk (c₃.run retSystemCall) ∧
        ∀ i < 1024, (c₃.run retSystemCall).mem (userCode + BitVec.ofNat 64 i) =
          c₀.mem (userFn + BitVec.ofNat 64 i) := by
  intro sw call
  have hnext : nextTask c = tsk := h.next hself hcur hlinks
  have hst : Starts L tsk c.mem sw := by
    change Starts L tsk c.mem (Sys.switch _ (nextTask c) label c₂)
    rw [hnext] at hok ⊢
    exact Waiting.start.firstSwitch (h.untouched r) hok
  obtain ⟨hsp, hregs⟩ := h.ptRegs hst
  have hcall := callsFn_of_ptRegs hsp hregs (h.rsp0 hst)
  have hrsp : call.cpu.gpr .rsp = tsk + 32760#64 := by
    have htop : call.cpu.gpr .rsp + 8#64 = tsk + stackSize := hcall.rsp.trans hcall.stack.1
    rw [show call.cpu.gpr .rsp = call.cpu.gpr .rsp + 8#64 - 8#64 by ring, htop]
    unfold stackSize
    bv_omega
  have hcurrent : getCurrent (call.cpu.gpr .rsp) = tsk := by
    rw [hrsp]
    exact getCurrent_pushed halign
  have hthread : threadOf call.cpu.mem tsk = tsk + sizeofTask := h.call_thread hst hrsp
  refine ⟨hnext, ?_, hcall.target, hcall.rdi, fun c₀ c₃ hinit hexec => ?_⟩
  · rw [hst.target, h.place.thread, h.child.rip]
    exact (threadRegs_fields s.cpu.mem q.regs q.fn q.arg a.entry).2.2.2.2
  obtain ⟨hdi, hsp₁, hmem⟩ := hinit.enter hcurrent hthread
  obtain ⟨hret, huser⟩ := hexec.enters hdi hsp₁
    (by rw [hmem, Mem.read64_write64_self]) hcode
  refine ⟨hret, huser, fun i hi => ?_⟩
  have hsrc : userFn + BitVec.ofNat 64 i ∈ Region userFn 1024 :=
    Mem.mem_region_add.mpr (by rw [toNat_ofNat_eq (by omega)]; exact hi)
  -- the return address lies in the block, not in the function
  have hword : Disjoint (Region (childFrame tsk - 8#64) 8) (Region userFn 1024) := by
    rw [childFrame_back]
    exact hfn.mono_left (field_subset tsk (by decide))
  rw [hexec.copied hdi hsp₁ hcode hfn hcopy hi, hmem, Mem.agreeOn_write64 _ _ _ hword _ hsrc]

end First

/-! ### With nothing but the source's stores -/

def initMin (retSystemCall : U64) (c : Cpu) : Cpu :=
  c.setMem (initStores c.mem retSystemCall (c.gpr .rsp))

theorem initCall_min (retSystemCall : U64) (c : Cpu) :
    InitCall retSystemCall c (initMin retSystemCall c) :=
  ⟨rfl, Mem.AgreeOn.refl _ _, Mem.AgreeOn.refl _ _⟩

def execveMin (userFn : U64) (c : Cpu) : Cpu :=
  ((c.setMem (doExecve c.mem (c.gpr .rdi) userFn)).setReg .rax 0#64).setReg .rsp
    (c.gpr .rsp + 8#64)

theorem execveMin_mem (userFn : U64) (c : Cpu) :
    (execveMin userFn c).mem = doExecve c.mem (c.gpr .rdi) userFn := by
  rw [execveMin, Cpu.setReg_mem, Cpu.setReg_mem, Cpu.setMem_mem]

theorem execveCall_min (userFn : U64) (c : Cpu) : ExecveCall userFn c (execveMin userFn c) where
  back := by
    rw [execveMin_mem]
    exact Mem.AgreeOn.refl _ _
  regs := by
    rw [execveMin_mem]
    exact Mem.AgreeOn.refl _ _
  code := by
    rw [execveMin_mem]
    exact Mem.AgreeOn.refl _ _
  rax := (Cpu.setReg_gpr_of_ne _ (by decide) _).trans (Cpu.setReg_gpr_self _ _ _)
  rsp := Cpu.setReg_gpr_self _ _ _

/-- Both may be called. -/
theorem exists_calls {retSystemCall userFn : U64} {call : Cpu} {P : Cpu → Prop}
    (h : ∀ c₀ c₃, InitCall retSystemCall call c₀ → ExecveCall userFn (initEnter c₀) c₃ → P c₃) :
    ∃ c₀ c₃, InitCall retSystemCall call c₀ ∧ ExecveCall userFn (initEnter c₀) c₃ ∧ P c₃ :=
  ⟨_, _, initCall_min _ _, execveCall_min _ _, h _ _ (initCall_min _ _) (execveCall_min _ _)⟩

/-- The thread of the init task that `kthreadCall` makes. -/
theorem taskInit_entersUser_pair : ∃ call c₀ c₃, InitCall smallSymbols.retSystemCall call c₀ ∧
    ExecveCall 0xffff800002100000#64 (initEnter c₀) c₃ ∧
    sysexit (c₃.run retSystemCall) = (0x800000#64, 0xa00000#64) := by
  have hself : kthreadCall.parent = smallSymbols.initTask := smallRsp_current
  have hcur : getCurrent (kthreadCpu.gpr .rsp) = smallSymbols.initTask := by decide
  have hlinks : Mem.AgreeOn (Region smallSymbols.initTask 16) kthreadCpu.mem
      (kthreadCall.memory smallSymbols kthreadCode kthreadSys.cpu.mem) := by
    rw [kthreadCpu, threadCpu, Cpu.setMem_mem]
    exact Mem.AgreeOn.refl _ _
  have hnext := kthreadCall_ok.next hself hcur hlinks
  have hok : SwitchOk pair kthreadForked (nextTask kthreadCpu) 0x3000#64
      (switchToMin pair.toPlaces pairInit (nextTask kthreadCpu)
        (switchEnter kthreadCpu pairInit (nextTask kthreadCpu) 0x3000#64)) :=
    switchOk_min _ (by rw [hnext]; exact Set.mem_insert _ _) (by decide)
  have hfn : Disjoint (taskBlock pairTask) (Region 0xffff800002100000#64 1024) :=
    disjoint_of_le (by decide) (by decide)
  have hcopy : Disjoint (Region 0xffff800002100000#64 1024) (Region userCode 1024) :=
    (disjoint_of_le (by decide) (by decide)).symm
  obtain ⟨-, -, -, -, h⟩ := taskInit_entersUser kthreadRun kthreadCall_ok hself hcur hlinks
    (by decide) (disjoint_of_le (by decide) (by decide)).symm hfn hcopy hok
  exact ⟨_, exists_calls fun c₀ c₃ hinit hexec => (h c₀ c₃ hinit hexec).2.1.target⟩

end HelloOS.Sched
