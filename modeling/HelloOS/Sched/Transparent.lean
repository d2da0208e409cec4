/-
  What a task finds when it resumes.

  The assembly of `switch_to` pushes `rbp` and `rax` and saves `rsp` and `rip`, and
  `__switch_to` saves `fs` and `gs`; these have their old values when the task resumes, at
  the label it left from (`SwitchRun.resumes`). `rbx` and `r12` to `r15` are saved nowhere,
  though the assembly declares no clobbers: the task gets those of whoever switches to it.
-/
import HelloOS.Sched.SwitchStep

namespace HelloOS.Sched

open HelloOS.Lib HelloOS.Mm

variable {L : Layout}

/-- `sw` resumes a task at the label it was suspended from, with the values that `regs`, `fs`
    and `gs` had when its own switch began. -/
structure Resumes (regs : List Reg) (sw : Switch) (sv : Suspended) : Prop where
  label : sw.target = sv.label
  gpr : ∀ r ∈ regs, sw.after.gpr r = sv.cpu.gpr r
  fs : sw.after.seg .fs = sv.cpu.seg .fs
  gs : sw.after.seg .gs = sv.cpu.seg .gs

/-- `rsp` and the callee-saved registers. -/
def kept : List Reg := .rsp :: .rbp :: unsaved

/-- One switch: what is saved comes back, and what is not saved passes through. -/
theorem switch_resumes {s : Sys} {next label : U64} {c₂ : Cpu} {sv : Suspended}
    (h : SwitchInv L s) (hok : SwitchOk L s next label c₂) (hsv : s.parked label next = some sv) :
    Resumes [.rsp, .rbp] (s.switch next label c₂) sv ∧
      ∀ r ∈ unsaved, (s.switch next label c₂).after.gpr r = s.cpu.gpr r := by
  have hfacts := switchFacts h hok
  obtain ⟨-, hf, hsegs⟩ := hfacts.frame next sv hsv
  have htarget : (s.switch next label c₂).target = sv.label := hfacts.target.trans hf.rip
  have hafter : (s.switch next label c₂).after = c₂.run label1 := by
    change resumeAt (s.parked label next) (s.switch next label c₂).target c₂ = _
    rw [hsv, resumeAt, if_pos htarget]
  obtain ⟨-, hseg, -, hsp, hbp, hother⟩ := run_label1 c₂
  have hrsp : c₂.gpr .rsp = Mem.below (sv.cpu.gpr .rsp) 2 := hfacts.rsp.trans hf.rsp
  have hwords := hf.words
  simp only [Mem.readWords, List.cons.injEq, and_true] at hwords
  have hsel : ∀ v : BitVec 16, (v.setWidth 64).setWidth 16 = v := fun v => by simp
  refine ⟨⟨htarget, fun r hr => ?_, ?_, ?_⟩, fun r hr => ?_⟩
  · rw [hafter]
    simp only [List.mem_cons, List.not_mem_nil, or_false] at hr
    rcases hr with rfl | rfl
    · rw [hsp, hrsp]
      exact Mem.below_add (sv.cpu.gpr .rsp) 2
    · rw [hbp, hrsp]
      exact hwords.2
  · rw [hafter, hseg, hfacts.fs, hsegs.fs, hsel]
  · rw [hafter, hseg, hfacts.gs, hsegs.gs, hsel]
  · rw [hafter, hother r (by revert hr; revert r; decide)]
    exact hfacts.regs r hr

/-- Every switch of a run that resumes a task. -/
theorem SwitchRun.resumes {s : Sys} {log : List Switch} (r : SwitchRun L s log) :
    ∀ sw ∈ log, ∀ sv, sw.resumed = some sv →
      Resumes [.rsp, .rbp] sw sv ∧ ∀ r ∈ unsaved, sw.after.gpr r = sw.before.gpr r := by
  induction r with
  | start c systemCall _ _ => simp
  | work c live _ _ ih => exact ih
  | @switch s log next label c₂ r hok ih =>
      intro sw hsw sv hsv
      rcases List.mem_cons.mp hsw with rfl | hsw
      · exact switch_resumes r.inv hok hsv
      · exact ih sw hsw sv hsv

/-- **Context switches.** In every run, a switch that resumes a task does so at the label the
    task left from, with its `rsp`, `rbp`, `fs` and `gs`. It resumes it with all of `kept`
    exactly when the running task had, at the start of the switch, the values of `rbx` and
    `r12` to `r15` that the resumed one had at the start of its own. -/
theorem switchRun_transparent {s : Sys} {log : List Switch} (r : SwitchRun L s log) {sw : Switch}
    (hsw : sw ∈ log) {sv : Suspended} (hsv : sw.resumed = some sv) :
    Resumes [.rsp, .rbp] sw sv ∧
      (Resumes kept sw sv ↔ ∀ r ∈ unsaved, sw.before.gpr r = sv.cpu.gpr r) := by
  obtain ⟨hres, hpass⟩ := r.resumes sw hsw sv hsv
  refine ⟨hres, fun h r hr => ?_, fun h => ⟨hres.label, fun r hr => ?_, hres.fs, hres.gs⟩⟩
  · rw [← hpass r hr]
    exact h.gpr r (List.mem_cons_of_mem _ (List.mem_cons_of_mem _ hr))
  · change r ∈ [Reg.rsp, .rbp] ++ unsaved at hr
    rcases List.mem_append.mp hr with hr | hr
    · exact hres.gpr r hr
    · rw [hpass r hr]
      exact h r hr

theorem switchRun_transparent_pair :
    Resumes [.rsp, .rbp] (pairWorked.switch pairInit 0x2000#64 pairBack) ⟨pairSys.cpu, 0x1000#64⟩ :=
  (switchRun_transparent pairRun_back List.mem_cons_self pairBack_resumed).1

/-- The forked task sets `rbx`, and the init task resumes with it. -/
theorem not_transparent_pair :
    ¬ ∀ (L : Layout) (s : Sys) (log : List Switch), SwitchRun L s log →
      ∀ sw ∈ log, ∀ sv, sw.resumed = some sv → Resumes kept sw sv := by
  intro h
  have hres := h _ _ _ pairRun_back _ List.mem_cons_self _ pairBack_resumed
  have hpass := (pairRun_back.resumes _ List.mem_cons_self _ pairBack_resumed).2 .rbx (by decide)
  have hrbx : (pairWorked.switch pairInit 0x2000#64 pairBack).before.gpr .rbx = 1#64 :=
    Cpu.setReg_gpr_self _ _ _
  have hold : pairSys.cpu.gpr .rbx = 0#64 := by decide
  have := hres.gpr .rbx (by decide)
  rw [hpass, hrbx, hold] at this
  exact absurd this (by decide)

end HelloOS.Sched
