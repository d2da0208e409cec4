/-
  The two stack pointers the CPU enters the kernel with.

  On an interrupt from user mode the CPU takes `rsp` from words 1 and 2 of `TSS64_Table`, on
  `SYSENTER` from the register 0x175. `task_init` sets both up; `__switch_to` sets the table
  to `rsp0` of the task it switches to and leaves the register alone. So behind a switch the
  table belongs to the running task, and the register still to the init task
  (`EntryInv`).
-/
import HelloOS.Sched.SwitchStep

namespace HelloOS.Sched

open HelloOS.Lib HelloOS.Mm

variable {L : Layout}

/-- `t->thread->rsp0`. -/
def rsp0 (L : Layout) (m : Mem) (t : U64) : U64 := m.read64 (L.thread t + offRsp0)

/-- Both kernel entry stacks are the running task's. -/
def EntryStacks (L : Layout) (s : Sys) : Prop :=
  tssRsp0 s.cpu.mem L.tssTable = rsp0 L s.cpu.mem s.cur ∧
    s.cpu.msr sysenterEsp = rsp0 L s.cpu.mem s.cur

theorem rsp0_of_agreeOn {m m' : Mem} {t : U64} (h : Mem.AgreeOn (L.region (.rsp0 t)) m' m) :
    rsp0 L m' t = rsp0 L m t := h.read64

/-- The register holds `rsp0` of the init task, and behind a switch the table holds that of
    the running task. -/
structure EntryInv (L : Layout) (s : Sys) (log : List Switch) : Prop where
  msr : s.cpu.msr sysenterEsp = rsp0 L s.cpu.mem L.init
  tss : log ≠ [] → tssRsp0 s.cpu.mem L.tssTable = rsp0 L s.cpu.mem s.cur

/-- `task_init` sets the register to `rsp0` of the task it runs on. -/
theorem taskInit_msr (c : Cpu) (systemCall : U64) (hcur : getCurrent (c.gpr .rsp) = L.init)
    (hthread : threadOf c.mem L.init = L.thread L.init) :
    (taskInit L.toPlaces c systemCall).msr sysenterEsp = rsp0 L c.mem L.init := by
  change (wrmsr (wrmsr (wrmsr c 0x174#64 kernelCs) 0x175#64
    (threadField c.mem (getCurrent (c.gpr .rsp)) offRsp0)) 0x176#64 systemCall).msr sysenterEsp = _
  rw [wrmsr_of_ne _ _ _ (by decide)]
  refine (wrmsr_self _ 0x175#64 _).trans ?_
  rw [hcur, threadField, hthread]
  rfl

theorem entryInv_work {s : Sys} {log : List Switch} {c : Cpu} {live : Set U64}
    (h : SwitchInv L s) (hw : Work L s c live) (he : EntryInv L s log) :
    EntryInv L { s with cpu := c, live := live } log := by
  have hrsp0 : ∀ t ∈ s.live, rsp0 L c.mem t = rsp0 L s.cpu.mem t := fun t ht =>
    rsp0_of_agreeOn (hw.pieces (.rsp0 t) ht (by simp) (by simp))
  have htable : tssRsp0 c.mem L.tssTable = tssRsp0 s.cpu.mem L.tssTable :=
    ((hw.pieces .tssTable trivial (by simp) (by simp)).mono
      (region_subset _ (show (4#64 * 1#64).toNat + 8 ≤ 104 by decide))).read64
  refine ⟨?_, fun hlog => ?_⟩
  · exact (hw.msr.trans he.msr).trans (hrsp0 _ h.init).symm
  · exact (htable.trans (he.tss hlog)).trans (hrsp0 _ h.cur).symm

/-- A switch changes no task's `rsp0`. -/
theorem rsp0_switched {s : Sys} {next label : U64} {c₂ : Cpu} (h : SwitchInv L s)
    (hok : SwitchOk L s next label c₂) {t : U64} (ht : t ∈ s.live) :
    rsp0 L (s.switched next label c₂).cpu.mem t = rsp0 L s.cpu.mem t := by
  have hmem : (s.switched next label c₂).cpu.mem = c₂.mem := (resumeAt_mem _ _ _).1
  rw [hmem]
  exact rsp0_of_agreeOn ((switchFacts h hok).pieces (.rsp0 t) ht (by simp))

theorem entryInv_switch {s : Sys} {log : List Switch} {next label : U64} {c₂ : Cpu}
    (h : SwitchInv L s) (hok : SwitchOk L s next label c₂) (he : EntryInv L s log) :
    EntryInv L (s.switched next label c₂) (s.switch next label c₂ :: log) := by
  have hf := switchFacts h hok
  have hmem : (s.switched next label c₂).cpu.mem = c₂.mem := (resumeAt_mem _ _ _).1
  have hmsr : (s.switched next label c₂).cpu.msr = c₂.msr := (resumeAt_mem _ _ _).2
  refine ⟨?_, fun _ => ?_⟩
  · rw [hmsr, hf.msr, rsp0_switched h hok h.init]
    exact he.msr
  · rw [hmem]
    exact hf.tss

theorem SwitchRun.entryInv {s : Sys} {log : List Switch} (r : SwitchRun L s log) :
    EntryInv L s log := by
  induction r with
  | start c systemCall hcur hthread =>
      refine ⟨(taskInit_msr c systemCall hcur hthread).trans ?_, fun h => absurd rfl h⟩
      exact (rsp0_of_agreeOn (taskInit_agreeOn c systemCall
        (L.apart .initTss (.rsp0 L.init) trivial L.init_mem (by simp))
        (L.apart .tssTable (.rsp0 L.init) trivial L.init_mem (by simp)))).symm
  | work c live r hw ih => exact entryInv_work r.inv hw ih
  | switch next label c₂ r hok ih => exact entryInv_switch r.inv hok ih

/-- **The kernel entry stacks.** Behind the first switch of a run, the table holds `rsp0` of
    the task switched to last. The register holds it too exactly when that is `rsp0` of the
    init task. -/
theorem switchRun_entryStacks {s : Sys} {log : List Switch} (r : SwitchRun L s log)
    (hlog : log ≠ []) :
    tssRsp0 s.cpu.mem L.tssTable = rsp0 L s.cpu.mem s.cur ∧
      (EntryStacks L s ↔ rsp0 L s.cpu.mem s.cur = rsp0 L s.cpu.mem L.init) := by
  have he := r.entryInv
  refine ⟨he.tss hlog, fun h => ?_, fun h => ⟨he.tss hlog, ?_⟩⟩
  · rw [← h.2, he.msr]
  · rw [he.msr, h]

theorem switchRun_entryStacks_pair :
    tssRsp0 (pairSys.switched pairTask 0x1000#64 pairSwitch).cpu.mem pair.tssTable =
      rsp0 pair (pairSys.switched pairTask 0x1000#64 pairSwitch).cpu.mem pairTask :=
  (switchRun_entryStacks pairRun_switched (List.cons_ne_nil _ _)).1

/-- The forked task runs with the init task's stack in the register. -/
theorem not_entryStacks_pair :
    ¬ ∀ (L : Layout) (s : Sys) (log : List Switch), SwitchRun L s log → log ≠ [] →
      EntryStacks L s := by
  intro h
  have hboth := (h _ _ _ pairRun_switched (List.cons_ne_nil _ _)).2
  rw [pairRun_switched.entryInv.msr] at hboth
  have hok : SwitchOk pair pairSys pairTask 0x1000#64 pairSwitch :=
    switchOk_min _ pairTask_mem (by decide)
  have hrsp0 : ∀ t, t ∈ pair.tasks →
      rsp0 pair (pairSys.switched pairTask 0x1000#64 pairSwitch).cpu.mem t = rsp0 pair pairMem t :=
    fun t ht => (rsp0_switched pairRun.inv hok ht).trans
      (pairSys_read64 (q := .rsp0 t) ht (by simp) (by simp) subset_rfl)
  have hne : rsp0 pair pairMem pair.init ≠ rsp0 pair pairMem pairTask := by decide
  rw [hrsp0 _ pair.init_mem] at hboth
  exact hne (hboth.trans (hrsp0 pairTask pairTask_mem))

end HelloOS.Sched
