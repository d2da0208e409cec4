/-
  Runs of context switches.

  A run starts behind `task_init`'s set-up of the CPU, on the init task. The running task may
  do anything to the machine that respects the pieces of the layout: it works on its own
  stack and on the saved fields of its own `thread_struct`, and may bring new tasks to life.
  A `switch_to(current, next)` may be called on any stack pointer that leaves room for what
  it pushes, for any task that is alive. The log of a run holds its switches, newest first.

  `Frame` and `Segs` say what memory holds of a task that is not running.
-/
import HelloOS.Sched.Switch

namespace HelloOS.Sched

open HelloOS.Lib HelloOS.Mm

/-- A task that called `switch_to`: the machine at the start of the assembly, and the address
    of its label `1`. -/
structure Suspended where
  cpu : Cpu
  label : U64

/-- The machine, the running task, the tasks created so far and the suspended ones. A task
    that has not run yet is not suspended. -/
structure Sys where
  cpu : Cpu
  cur : U64
  live : Set U64
  suspended : U64 → Option Suspended

/-- One `switch_to(prev, next)`: its label `1`, the machine before it, what `next` is
    suspended with, where `__switch_to` returns to, and the machine there, behind the two pops
    if it is the label that `next` left from. -/
structure Switch where
  prev : U64
  next : U64
  label : U64
  before : Cpu
  resumed : Option Suspended
  target : U64
  after : Cpu

/-- The pops run if the return is to the label of the task resumed. -/
def resumeAt (resumed : Option Suspended) (target : U64) (c : Cpu) : Cpu :=
  match resumed with
  | some sv => if target = sv.label then c.run label1 else c
  | none => c

namespace Sys

variable (s : Sys) (next label : U64) (c₂ : Cpu)

/-- The suspended tasks, with the one that is about to be. -/
def parked : U64 → Option Suspended := Function.update s.suspended s.cur (some ⟨s.cpu, label⟩)

/-- `switch_to(s.cur, next)`, if `__switch_to` leaves the machine as `c₂`. -/
def switch : Switch :=
  let c₁ := switchEnter s.cpu s.cur next label
  let target := c₁.mem.read64 (c₁.gpr .rsp)
  { prev := s.cur, next := next, label := label, before := s.cpu,
    resumed := s.parked label next, target := target,
    after := resumeAt (s.parked label next) target c₂ }

def switched : Sys :=
  { cpu := (s.switch next label c₂).after, cur := next, live := s.live,
    suspended := Function.update (s.parked label) next none }

end Sys

/-- The running task's work takes the machine to `c` and the tasks to `live`. -/
structure Work (L : Layout) (s : Sys) (c : Cpu) (live : Set U64) : Prop where
  grows : s.live ⊆ live
  tasks : live ⊆ L.tasks
  pieces : ∀ p, p.Of s.live → p ≠ .stack s.cur → p ≠ .saved s.cur →
    Mem.AgreeOn (L.region p) c.mem s.cpu.mem
  pointer : ∀ t ∈ live, t ∉ s.live → threadOf c.mem t = L.thread t
  room : ∀ t ∈ live, t ∉ s.live → L.Room t (c.mem.read64 (L.thread t + offRsp)) 8
  msr : c.msr sysenterEsp = s.cpu.msr sysenterEsp

/-- A call `switch_to(s.cur, next)`: there is room for the two words it pushes and for the
    return address of the call that resumes it, and `__switch_to` leaves the machine as
    `c₂`. -/
structure SwitchOk (L : Layout) (s : Sys) (next label : U64) (c₂ : Cpu) : Prop where
  live : next ∈ s.live
  room : L.Room s.cur (s.cpu.gpr .rsp) 24
  call : SwitchTo L s.live s.cur next (switchEnter s.cpu s.cur next label) c₂

/-- The states that runs reach, with their switches. -/
inductive SwitchRun (L : Layout) : Sys → List Switch → Prop
  | start (c : Cpu) (systemCall : U64) (hcur : getCurrent (c.gpr .rsp) = L.init)
      (hthread : threadOf c.mem L.init = L.thread L.init) :
      SwitchRun L ⟨taskInit L.toPlaces c systemCall, L.init, {L.init}, fun _ => none⟩ []
  | work {s : Sys} {log : List Switch} (c : Cpu) (live : Set U64) (h : SwitchRun L s log)
      (hw : Work L s c live) : SwitchRun L { s with cpu := c, live := live } log
  | switch {s : Sys} {log : List Switch} (next label : U64) (c₂ : Cpu) (h : SwitchRun L s log)
      (hok : SwitchOk L s next label c₂) :
      SwitchRun L (s.switched next label c₂) (s.switch next label c₂ :: log)

variable {L : Layout}

/-- What `task_init`'s set-up of the CPU leaves alone. -/
theorem taskInit_agreeOn {s : Set U64} (c : Cpu) (systemCall : U64)
    (hinit : Disjoint (L.region .initTss) s) (htable : Disjoint (L.region .tssTable) s) :
    Mem.AgreeOn s (taskInit L.toPlaces c systemCall).mem c.mem :=
  (Mem.agreeOn_write64 _ _ _ (hinit.mono_left (region_subset _
    (show offTssRsp0.toNat + 8 ≤ 104 by decide)))).trans (setInitTss_agreeOn _ _ _ htable)

/-- Work on registers only. -/
theorem work_regs {s : Sys} (hs : s.live ⊆ L.tasks) {c : Cpu} (hmem : c.mem = s.cpu.mem)
    (hmsr : c.msr = s.cpu.msr) : Work L s c s.live where
  grows := subset_rfl
  tasks := hs
  pieces p _ _ _ := by
    rw [hmem]
    exact Mem.AgreeOn.refl _ _
  pointer t ht hn := absurd ht hn
  room t ht hn := absurd ht hn
  msr := by rw [hmsr]

/-- `s` with the running task's stack pointer and `rbx` changed. -/
def Sys.withRbx (s : Sys) (sp v : U64) : Sys :=
  { s with cpu := (s.cpu.setReg .rsp sp).setReg .rbx v }

theorem Sys.withRbx_rsp (s : Sys) (sp v : U64) : (s.withRbx sp v).cpu.gpr .rsp = sp := by
  simp [withRbx]

theorem SwitchRun.withRbx {s : Sys} {log : List Switch} (r : SwitchRun L s log)
    (hs : s.live ⊆ L.tasks) (sp v : U64) : SwitchRun L (s.withRbx sp v) log :=
  .work _ _ r (work_regs hs rfl rfl)

/-- A task that is switched back to resumes from the switch that suspended it. -/
theorem parked_switched (s : Sys) {next : U64} (label label' : U64) (c₂ c : Cpu)
    (hne : s.cur ≠ next) :
    Sys.parked { s.switched next label c₂ with cpu := c } label' s.cur = some ⟨s.cpu, label⟩ := by
  change Function.update (Function.update (s.parked label) next none) next
    (some ⟨c, label'⟩) s.cur = _
  rw [Function.update_of_ne hne, Function.update_of_ne hne, Sys.parked, Function.update_self]

/-- A call of `__switch_to` that does no more than its source. -/
theorem switchOk_min {s : Sys} {next : U64} (label : U64) (hnext : next ∈ s.live)
    (hroom : L.Room s.cur (s.cpu.gpr .rsp) 24) : SwitchOk L s next label
      (switchToMin L.toPlaces s.cur next (switchEnter s.cpu s.cur next label)) :=
  ⟨hnext, hroom, switchTo_min L _ _ _ _⟩

/-- Who is suspended, and where from, is what the log says: a task that is not running is
    suspended from its latest switch. -/
theorem SwitchRun.suspended_eq {s : Sys} {log : List Switch} (r : SwitchRun L s log) {t : U64}
    (ht : t ≠ s.cur) : s.suspended t =
      (log.find? fun sw => sw.prev = t).map fun sw => ⟨sw.before, sw.label⟩ := by
  induction r with
  | start c systemCall _ _ => rfl
  | work c live _ _ ih => exact ih ht
  | @switch s log next label c₂ _ _ ih =>
      have hnext : t ≠ next := ht
      change Function.update (s.parked label) next none t = _
      rw [Function.update_of_ne hnext, Sys.parked]
      by_cases hcur : t = s.cur
      · subst hcur
        rw [Function.update_self, List.find?_cons_of_pos (by simp [Sys.switch])]
        rfl
      · rw [Function.update_of_ne hcur, ih hcur, List.find?_cons_of_neg]
        simp [Sys.switch, Ne.symm hcur]

/-! ## What memory holds of a suspended task -/

/-- `rsp` and `rip` in its `thread_struct`, `rax` and `rbp` on its stack. -/
structure Frame (L : Layout) (m : Mem) (t : U64) (sv : Suspended) : Prop where
  room : L.Room t (sv.cpu.gpr .rsp) 24
  rsp : m.read64 (L.thread t + offRsp) = Mem.below (sv.cpu.gpr .rsp) 2
  rip : m.read64 (L.thread t + offRip) = sv.label
  words : m.readWords (Mem.below (sv.cpu.gpr .rsp) 2) 2 = [sv.cpu.gpr .rax, sv.cpu.gpr .rbp]

/-- `fs` and `gs` in its `thread_struct`. -/
structure Segs (L : Layout) (m : Mem) (t : U64) (sv : Suspended) : Prop where
  fs : m.read64 (L.thread t + offFs) = (sv.cpu.seg .fs).setWidth 64
  gs : m.read64 (L.thread t + offGs) = (sv.cpu.seg .gs).setWidth 64

/-- `rip` and `rsp` of a `thread_struct`. -/
def ripRsp (L : Layout) (t : U64) : Set U64 := Region (L.thread t + offRip) 16

theorem ripRsp_subset (L : Layout) (t : U64) : ripRsp L t ⊆ L.region (.saved t) :=
  L.field_subset (by decide) (by decide)

theorem rsp_subset (L : Layout) (t : U64) : Region (L.thread t + offRsp) 8 ⊆ ripRsp L t := by
  rw [show L.thread t + offRsp = L.thread t + offRip + 8#64 from
    (BitVec.add_assoc (L.thread t) offRip 8#64).symm]
  exact region_subset _ (by decide)

theorem rip_subset (L : Layout) (t : U64) : Region (L.thread t + offRip) 8 ⊆ ripRsp L t :=
  region_mono _ (by decide)

variable {m m' : Mem} {t : U64} {sv : Suspended}

theorem Frame.of_agreeOn (h : Frame L m t sv) (hf : Mem.AgreeOn (ripRsp L t) m' m)
    (hw : Mem.AgreeOn (Region (Mem.below (sv.cpu.gpr .rsp) 2) 16) m' m) : Frame L m' t sv where
  room := h.room
  rsp := (hf.mono (rsp_subset L t)).read64.trans h.rsp
  rip := (hf.mono (rip_subset L t)).read64.trans h.rip
  words := (hw.readWords (n := 2)).trans h.words

theorem Segs.of_agreeOn (h : Segs L m t sv) (ha : Mem.AgreeOn (L.region (.saved t)) m' m) :
    Segs L m' t sv where
  fs := (ha.mono (L.field_subset (by decide) (by decide))).read64.trans h.fs
  gs := (ha.mono (L.field_subset (by decide) (by decide))).read64.trans h.gs

/-- The words of a frame lie in its task's stack. -/
theorem Frame.words_subset (h : Frame L m t sv) :
    Region (Mem.below (sv.cpu.gpr .rsp) 2) 16 ⊆ L.region (.stack t) :=
  (h.room.mono (by decide)).below_subset (k := 2)

/-! ## The init task and a forked one -/

def pairInit : U64 := 0xffff800002008000#64

def pairTask : U64 := 0xffff800000108000#64

def pairPlaces : Places where
  init := pairInit
  thread t := if t = pairInit then 0xffff800002001000#64 else 0xffff800000108058#64
  stackLow t := if t = pairInit then 0xffff800002008058#64 else 0xffff800000108098#64
  stackLen t := if t = pairInit then 32680 else 32616
  initTss := 0xffff800002001100#64
  tssTable := 0xffff800002001200#64

/-- The pieces, from low addresses to high ones. -/
def pairPieces : List Piece :=
  [.pointer pairTask, .rsp0 pairTask, .saved pairTask, .stack pairTask, .rsp0 pairInit,
    .saved pairInit, .initTss, .tssTable, .pointer pairInit, .stack pairInit]

theorem pairPieces_apart {p q : Piece} (hp : p ∈ pairPieces) (hq : q ∈ pairPieces) (hne : p ≠ q) :
    Disjoint (pairPlaces.region p) (pairPlaces.region q) := by
  have hle : pairPieces.Pairwise fun p q =>
      (pairPlaces.start p).toNat + pairPlaces.len p ≤ (pairPlaces.start q).toNat ∧
        (pairPlaces.start q).toNat + pairPlaces.len q ≤ 2 ^ 64 := by decide
  have hdis : pairPieces.Pairwise fun p q => Disjoint (pairPlaces.region p) (pairPlaces.region q) :=
    hle.imp fun h => disjoint_of_le h.1 h.2
  have : Std.Symm fun p q => Disjoint (pairPlaces.region p) (pairPlaces.region q) :=
    ⟨fun _ _ h => h.symm⟩
  exact hdis.forall hp hq hne

theorem mem_pairPieces {p : Piece} (hp : p.Of {pairInit, pairTask}) : p ∈ pairPieces := by
  cases p with
  | initTss => decide
  | tssTable => decide
  | _ => rcases hp with rfl | rfl <;> decide

/-- The init task with its static `thread_struct`, and a forked task that has its own behind
    its `task_struct`. -/
def pair : Layout where
  toPlaces := pairPlaces
  tasks := {pairInit, pairTask}
  init_mem := Or.inl rfl
  stackLen_le t ht := by rcases ht with rfl | rfl <;> decide
  apart _ _ hp hq hne := pairPieces_apart (mem_pairPieces hp) (mem_pairPieces hq) hne

/-- Their `thread` pointers, their `rsp0`s, and the stack pointer of the forked task. -/
def pairMem : Mem :=
  ((((zeroCpu.mem.write64 0xffff800002008028#64 0xffff800002001000#64).write64
    0xffff800002001000#64 0xffff800002010000#64).write64
    0xffff800000108028#64 0xffff800000108058#64).write64
    0xffff800000108058#64 0xffff800000110000#64).write64
    0xffff800000108068#64 0xffff80000010ff40#64

/-- The machine when `task_init` is called. -/
def pairCpu : Cpu := (zeroCpu.setMem pairMem).setReg .rsp 0xffff80000200ff00#64

/-- Behind the set-up of the CPU, and with the forked task. -/
def pairSys : Sys :=
  ⟨taskInit pair.toPlaces pairCpu 0#64, pairInit, {pairInit, pairTask}, fun _ => none⟩

theorem pairSys_read64 {q : Piece} (hq : q.Of pair.tasks) (h1 : q ≠ .initTss) (h2 : q ≠ .tssTable)
    {a : U64} (ha : Region a 8 ⊆ pair.region q) : pairSys.cpu.mem.read64 a = pairMem.read64 a :=
  ((taskInit_agreeOn (L := pair) pairCpu 0#64 (pair.apart _ _ trivial hq h1.symm)
    (pair.apart _ _ trivial hq h2.symm)).mono ha).read64

theorem pairTask_mem : pairTask ∈ pair.tasks := Or.inr rfl

theorem pairRun : SwitchRun pair pairSys [] := by
  have hstart : SwitchRun pair ⟨taskInit pair.toPlaces pairCpu 0#64, pairInit, {pairInit},
      fun _ => none⟩ [] := .start pairCpu 0#64 (by decide) (by decide)
  refine .work pairSys.cpu {pairInit, pairTask} hstart ⟨?_, subset_rfl, fun p _ _ _ =>
    Mem.AgreeOn.refl _ _, fun t ht hn => ?_, fun t ht hn => ?_, rfl⟩
  · exact Set.singleton_subset_iff.mpr (Or.inl rfl)
  · obtain rfl : t = pairTask := ht.resolve_left hn
    have hread := pairSys_read64 (q := .pointer pairTask) pairTask_mem (by simp) (by simp)
      (a := pairTask + offThread) subset_rfl
    rw [threadOf, hread]
    decide
  · obtain rfl : t = pairTask := ht.resolve_left hn
    rw [pairSys_read64 (q := .saved pairTask) pairTask_mem (by simp) (by simp)
      (pair.field_subset (by decide) (by decide))]
    decide

/-- The init task switches to the forked one. -/
def pairSwitch : Cpu :=
  switchToMin pair.toPlaces pairInit pairTask (switchEnter pairSys.cpu pairInit pairTask 0x1000#64)

theorem pairRun_switched : SwitchRun pair (pairSys.switched pairTask 0x1000#64 pairSwitch)
    [pairSys.switch pairTask 0x1000#64 pairSwitch] :=
  .switch pairTask 0x1000#64 _ pairRun (switchOk_min _ (Or.inr rfl) (by decide))

/-- The forked task works: it sets `rbx`. -/
def pairWorked : Sys := (pairSys.switched pairTask 0x1000#64 pairSwitch).withRbx
  0xffff80000010ff00#64 1#64

/-- It switches back to the init task. -/
def pairBack : Cpu :=
  switchToMin pair.toPlaces pairTask pairInit
    (switchEnter pairWorked.cpu pairTask pairInit 0x2000#64)

theorem pairRun_back : SwitchRun pair (pairWorked.switched pairInit 0x2000#64 pairBack)
    [pairWorked.switch pairInit 0x2000#64 pairBack,
      pairSys.switch pairTask 0x1000#64 pairSwitch] := by
  have hwork : SwitchRun pair pairWorked [pairSys.switch pairTask 0x1000#64 pairSwitch] :=
    pairRun_switched.withRbx subset_rfl _ _
  refine .switch pairInit 0x2000#64 _ hwork (switchOk_min _ (Or.inl rfl) ?_)
  rw [pairWorked, Sys.withRbx_rsp]
  decide

/-- Then the init task resumes from its own switch. -/
theorem pairBack_resumed : (pairWorked.switch pairInit 0x2000#64 pairBack).resumed =
    some ⟨pairSys.cpu, 0x1000#64⟩ :=
  parked_switched pairSys 0x1000#64 0x2000#64 pairSwitch pairWorked.cpu
    (show pairInit ≠ pairTask by decide)

end HelloOS.Sched
