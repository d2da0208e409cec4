/-
  Context switches that are interrupted.

  `init_interrupt` enables interrupts before `task_init` switches for the first time, and
  `switch_to` does not disable them. So an interrupt may be taken between any two instructions of
  its assembly: on the stack of `prev` up to the load of `rsp`, on that of `next` behind it, and
  again around the pops at the label. `__switch_to` is C, and what interrupts leave below its
  stack pointer is covered by `SwitchTo`.

  A `PreemptedSwitchRun` is a run with such switches. It is still a run of plain switches: what
  an interrupt leaves below the stack pointer of `prev` could have been left there before the
  switch (`enter_patched`), and what it leaves on the stack of `next` could be the work of
  `__switch_to` or of the resumed task. So every result about `SwitchRun` holds under interrupts
  (`preemptedRun_refines`).
-/
import HelloOS.Entry.Preempted
import HelloOS.Sched.Transparent

namespace HelloOS.Sched

open HelloOS.Lib HelloOS.Mm HelloOS.Entry

/-! ## Interrupts on the stack of a task -/

/-- The interrupts on a kernel stack; none of them writes a model-specific register. -/
def taskInterrupts (k : KernelStack) : Preemption where
  step c c' := k.Step c c' ∧ c'.msr = c.msr
  ok := k.Ok
  dead := k.dead
  gpr _ _ hok h := KernelStack.step_gpr hok h.1
  seg _ _ hok h := KernelStack.step_seg hok h.1
  mem _ _ hok h := KernelStack.step_mem hok h.1
  dead_push := KernelStack.dead_push

/-- `k` is the stack of `t`, and the handlers write to no piece of the tasks `live`. -/
structure StackOf (L : Layout) (live : Set U64) (t : U64) (k : KernelStack) : Prop where
  low : k.low = L.stackLow t
  len : k.len = L.stackLen t
  handlers : ∀ p, p.Of live → Disjoint k.handlers (L.region p)

/-- The assembly of `switch_to` on the stack of `prev`. -/
def saveAsm (m : Mem) (prev : U64) : List Instr :=
  [.pushq .rbp, .pushq .rax, .store .rsp (threadOf m prev + offRsp)]

/-- It goes on on the stack of `next`. -/
def enterAsm (m : Mem) (prev next label : U64) : List Instr :=
  [.leaq label .rax, .store .rax (threadOf m prev + offRip), .pushMem (threadOf m next + offRip)]

theorem switchAsm_eq (m : Mem) (prev next label : U64) : switchAsm m prev next label =
    saveAsm m prev ++ .load (threadOf m next + offRsp) .rsp :: enterAsm m prev next label := rfl

/-- `switch_to(prev, next)` up to the first instruction of `__switch_to`, with interrupts. -/
def PreemptedEnter (k k' : KernelStack) (c : Cpu) (prev next label : U64) (c₁ : Cpu) : Prop :=
  ∃ d, PreemptedRun (taskInterrupts k) ((c.setReg .rdi prev).setReg .rsi next)
      (saveAsm c.mem prev) d ∧
    PreemptedRun (taskInterrupts k') (d.exec (.load (threadOf c.mem next + offRsp) .rsp))
      (enterAsm c.mem prev next label) c₁

/-- Where `__switch_to` returns to, with interrupts around the pops. -/
def PreemptedResume (k' : KernelStack) (resumed : Option Suspended) (target : U64) (c c' : Cpu) :
    Prop :=
  match resumed with
  | some sv => if target = sv.label then PreemptedRun (taskInterrupts k') c label1 c' else c' = c
  | none => c' = c

/-- A call `switch_to(s.cur, next)` under interrupts: the machine enters `__switch_to` as `c₁`,
    which leaves it as `c₂`, and `next` goes on from `c₃`. Below the words that the assembly
    pushes there is room for an interrupt. -/
structure PreemptedSwitchOk (L : Layout) (s : Sys) (next label : U64) (c₁ c₂ c₃ : Cpu) : Prop where
  live : next ∈ s.live
  room : L.Room s.cur (s.cpu.gpr .rsp) 240
  run : ∃ k k', StackOf L s.live s.cur k ∧ StackOf L s.live next k' ∧
    PreemptedEnter k k' s.cpu s.cur next label c₁ ∧
    PreemptedResume k' (s.parked label next) (c₁.mem.read64 (c₁.gpr .rsp)) c₂ c₃
  call : SwitchTo L s.live s.cur next c₁ c₂

/-- The switch, for the log. -/
def Sys.preempted (s : Sys) (next label : U64) (c₁ c₃ : Cpu) : Switch :=
  { prev := s.cur, next := next, label := label, before := s.cpu,
    resumed := s.parked label next, target := c₁.mem.read64 (c₁.gpr .rsp), after := c₃ }

/-- The states that runs with interrupted switches reach, with their switches. -/
inductive PreemptedSwitchRun (L : Layout) : Sys → List Switch → Prop
  | start (c : Cpu) (systemCall : U64) (hcur : getCurrent (c.gpr .rsp) = L.init)
      (hthread : threadOf c.mem L.init = L.thread L.init) :
      PreemptedSwitchRun L ⟨taskInit L.toPlaces c systemCall, L.init, {L.init}, fun _ => none⟩ []
  | work {s : Sys} {log : List Switch} (c : Cpu) (live : Set U64) (h : PreemptedSwitchRun L s log)
      (hw : Work L s c live)
      (hroom : ∀ t ∈ live, t ∉ s.live → L.Room t (c.mem.read64 (L.thread t + offRsp)) 224) :
      PreemptedSwitchRun L { s with cpu := c, live := live } log
  | switch {s : Sys} {log : List Switch} (next label : U64) (c₁ c₂ c₃ : Cpu)
      (h : PreemptedSwitchRun L s log) (hok : PreemptedSwitchOk L s next label c₁ c₂ c₃) :
      PreemptedSwitchRun L
        { s with cpu := c₃, cur := next, suspended := Function.update (s.parked label) next none }
        (s.preempted next label c₁ c₃ :: log)

/-! ## What is left below the stack pointer -/

variable {L : Layout} {live : Set U64} {k k' : KernelStack} {t prev next label : U64} {c d : Cpu}

namespace StackOf

variable (h : StackOf L live t k)

include h in
theorem ok {sp : U64} (hr : L.Room t sp 216) : k.Ok sp := by
  unfold KernelStack.Ok
  rw [h.low, h.len]
  exact hr

include h in
/-- An interrupt on the stack of `t` changes none of the pieces, but for that stack. -/
theorem dead_disjoint {sp : U64} (hr : L.Room t sp 0) (ht : live ⊆ L.tasks) (hlive : t ∈ live)
    {p : Piece} (hp : p.Of live) (hne : p ≠ .stack t) : Disjoint (k.dead sp) (L.region p) := by
  refine Set.disjoint_union_left.mpr ⟨h.handlers p hp, ?_⟩
  have hstack : Region k.low (sp - k.low).toNat ⊆ L.region (.stack t) := by
    rw [h.low]
    exact region_mono _ hr.2
  exact (L.apart (.stack t) p (ht hlive) (hp.mono ht) hne.symm).mono_left hstack

include h in
/-- Nor what lies from the stack pointer on. -/
theorem dead_above (hlive : t ∈ live) (sp : U64) : Disjoint (k.dead sp) (L.above t sp) := by
  refine Set.disjoint_union_left.mpr ⟨?_, ?_⟩
  · exact (h.handlers (.stack t) hlive).mono_right (L.above_subset t sp)
  · rw [h.low, Set.disjoint_left]
    intro x hx ha
    exact absurd (mem_region.mp hx) (Nat.not_lt.mpr ha.1)

include h in
/-- The words from `sp` down to `n` words below it are all that an interrupt at `sp` may change
    and one at the lower stack pointer may not. -/
theorem dead_sdiff {sp : U64} {n : ℕ} (hr : L.Room t sp (8 * n)) (hlen : L.stackLen t ≤ 2 ^ 63) :
    k.dead sp \ Region (Mem.below sp n) (8 * n) ⊆ k.dead (Mem.below sp n) := by
  have hb := Layout.height_below (k := n) hr.1
  have h1 := hr.1
  have h2 := hr.2
  rintro x ⟨hx | hx, hout⟩
  · exact Or.inl hx
  · refine Or.inr ?_
    rw [h.low, mem_region] at hx ⊢
    rw [mem_region] at hout
    change _ < L.height t (Mem.below sp n)
    have hsum : x - L.stackLow t = (x - Mem.below sp n) + (Mem.below sp n - L.stackLow t) := by ring
    unfold Layout.height at *
    bv_omega

end StackOf

/-- Interrupts leave the model-specific registers alone, and so do the instructions. -/
theorem preemptedRun_msr {is : List Instr} (h : PreemptedRun (taskInterrupts k) c is d) :
    d.msr = c.msr := by
  induction h with
  | done c => rfl
  | @exec c d i is _ ih =>
      rw [ih]
      cases i <;> rfl
  | interrupt hp _ ih => rw [ih, hp.2]

/-! ## The assembly under interrupts -/

/-- The machine at the start of the assembly, with its operands. -/
def operands (c : Cpu) (prev next : U64) : Cpu := (c.setReg .rdi prev).setReg .rsi next

/-- What is unknown when `__switch_to` starts. -/
def unknown (k k' : KernelStack) (c : Cpu) (prev next : U64) : Set U64 :=
  (k.dead (Mem.below (c.gpr .rsp) 2) ∪ k'.dead (nextRsp c prev next)) \
    Region (Mem.below (nextRsp c prev next) 1) 8

/-- The stack of `prev` is left with two words pushed. -/
theorem run_saveAsm (c : Cpu) (prev next : U64) :
    let d := (operands c prev next).run (saveAsm c.mem prev)
    d.mem = parkStack c prev ∧ d.gpr .rsp = Mem.below (c.gpr .rsp) 2 := by
  have hsp : (operands c prev next).gpr .rsp = c.gpr .rsp := rfl
  have hbp : (operands c prev next).gpr .rbp = c.gpr .rbp := rfl
  have hax : (operands c prev next).gpr .rax = c.gpr .rax := rfl
  have hmem : (operands c prev next).mem = c.mem := rfl
  unfold saveAsm parkStack
  simp only [Cpu.run_cons, Cpu.run_nil, Cpu.exec, Cpu.pushed_pushed]
  generalize operands c prev next = e at *
  simp [hsp, hbp, hax, hmem]

theorem withstands_saveAsm (hk : StackOf L live prev k) (hlen : L.stackLen prev ≤ 2 ^ 63)
    (hroom : L.Room prev (c.gpr .rsp) 240) (next : U64) :
    Withstands (taskInterrupts k) (k.dead (c.gpr .rsp)) (operands c prev next)
      (saveAsm c.mem prev) (k.dead (Mem.below (c.gpr .rsp) 2)) := by
  have hok : ∀ n ≤ 2, k.Ok (Mem.below (c.gpr .rsp) n) := fun n hn =>
    hk.ok (Layout.Room.below (k := n) (hroom.mono (by omega)))
  have hpush : Withstands (taskInterrupts k) (k.dead (c.gpr .rsp)) (operands c prev next)
      [.pushq .rbp, .pushq .rax]
      (k.dead (c.gpr .rsp) \ Region (Mem.below (c.gpr .rsp) 2) (8 * 2)) :=
    withstands_pushing (p := taskInterrupts k) (c := operands c prev next) (by decide) hok
      (by decide) subset_rfl
  have hsp : ((operands c prev next).run [.pushq .rbp, .pushq .rax]).gpr .rsp =
      Mem.below (c.gpr .rsp) 2 := by
    rw [show [Instr.pushq .rbp, .pushq .rax] = [Reg.rbp, .rax].map .pushq from rfl,
      Cpu.run_pushes _ _ (by decide), Cpu.pushed_rsp]
    rfl
  refine (hpush.mono subset_rfl (hk.dead_sdiff (n := 2) (hroom.mono (by decide)) hlen)).append ?_
  generalize (operands c prev next).run [.pushq .rbp, .pushq .rax] = e at *
  have hoke : (taskInterrupts k).ok (e.gpr .rsp) := hsp ▸ hok 2 le_rfl
  have hdead : (taskInterrupts k).dead (e.gpr .rsp) ⊆ k.dead (Mem.below (c.gpr .rsp) 2) := by
    rw [hsp]
    exact subset_rfl
  refine withstands_cons hoke hdead (Set.empty_disjoint _) ?_
  exact (withstands_nil (c := e.exec (.store .rsp (threadOf c.mem prev + offRsp))) hoke
    hdead).mono Set.sdiff_subset subset_rfl

/-- Behind the load of `rsp`: the word pushed is known at the end. -/
theorem withstands_enterAsm (hk' : StackOf L live next k') (m : Mem) (prev label : U64)
    (hroom : L.Room next (d.gpr .rsp) 224) {g : Set U64} (hg : k'.dead (d.gpr .rsp) ⊆ g)
    (hrip : Disjoint (Region (threadOf m next + offRip) 8) g) :
    Withstands (taskInterrupts k') g d (enterAsm m prev next label)
      (g \ Region (Mem.below (d.gpr .rsp) 1) 8) := by
  have hok : (taskInterrupts k').ok (d.gpr .rsp) := hk'.ok (hroom.mono (by decide))
  have hok1 : (taskInterrupts k').ok (Mem.below (d.gpr .rsp) 1) := hk'.ok (hroom.below (k := 1))
  have hdead : (taskInterrupts k').dead (Mem.below (d.gpr .rsp) 1) ⊆
      g \ Region (Mem.below (d.gpr .rsp) 1) 8 :=
    ((taskInterrupts k').dead_push _ hok hok1).trans (Set.sdiff_subset_sdiff_left hg)
  have hpush : Withstands (taskInterrupts k') g ((d.exec (.leaq label .rax)).exec
      (.store .rax (threadOf m prev + offRip))) [.pushMem (threadOf m next + offRip)]
      (g \ Region (Mem.below (d.gpr .rsp) 1) 8) :=
    withstands_cons hok hg hrip (withstands_nil hok1 hdead)
  have hstore : Withstands (taskInterrupts k') g (d.exec (.leaq label .rax))
      [.store .rax (threadOf m prev + offRip), .pushMem (threadOf m next + offRip)]
      (g \ Region (Mem.below (d.gpr .rsp) 1) 8) :=
    withstands_cons hok hg (Set.empty_disjoint _) (hpush.mono Set.sdiff_subset subset_rfl)
  exact withstands_cons hok hg (Set.empty_disjoint _) (hstore.mono Set.sdiff_subset subset_rfl)

/-- A switch from `prev` to `next` that may be interrupted: the stacks have room for it, and the
    pointers to the `thread_struct`s are in place. -/
structure SwitchSetup (L : Layout) (live : Set U64) (k k' : KernelStack) (c : Cpu)
    (prev next : U64) : Prop where
  tasks : live ⊆ L.tasks
  prevLive : prev ∈ live
  nextLive : next ∈ live
  prevStack : StackOf L live prev k
  nextStack : StackOf L live next k'
  prevThread : threadOf c.mem prev = L.thread prev
  nextThread : threadOf c.mem next = L.thread next
  room : L.Room prev (c.gpr .rsp) 240
  nextRoom : L.Room next (nextRsp c prev next) 224

namespace SwitchSetup

variable (h : SwitchSetup L live k k' c prev next)

include h in
/-- A piece other than the two stacks is not written by the interrupts. -/
theorem dead_disjoint {p : Piece} (hp : p.Of live) (h1 : p ≠ .stack prev) (h2 : p ≠ .stack next) :
    Disjoint (k.dead (Mem.below (c.gpr .rsp) 2) ∪ k'.dead (nextRsp c prev next)) (L.region p) :=
  Set.disjoint_union_left.mpr
    ⟨h.prevStack.dead_disjoint (Layout.Room.below (k := 2) (h.room.mono (by decide))) h.tasks
      h.prevLive hp h1,
      h.nextStack.dead_disjoint (h.nextRoom.mono (by decide)) h.tasks h.nextLive hp h2⟩

include h in
theorem field_disjoint {o : U64} (h1 : 8 ≤ o.toNat) (h2 : o.toNat + 8 ≤ 64) :
    Disjoint (Region (threadOf c.mem next + o) 8)
      (k.dead (Mem.below (c.gpr .rsp) 2) ∪ k'.dead (nextRsp c prev next)) := by
  rw [h.nextThread]
  exact ((h.dead_disjoint (p := .saved next) h.nextLive (by simp) (by simp)).mono_right
    (L.field_subset h1 h2)).symm

include h in
/-- However the assembly is interrupted, and if it starts from memory that differs below the
    stack pointer, `__switch_to` starts from the plain machine but for what is unknown. -/
theorem enter_sameBut {e' d₀ c₁ : Cpu}
    (hs : SameBut (k.dead (c.gpr .rsp)) (operands c prev next) e')
    (hsave : PreemptedRun (taskInterrupts k) e' (saveAsm c.mem prev) d₀)
    (henter : PreemptedRun (taskInterrupts k')
      (d₀.exec (.load (threadOf c.mem next + offRsp) .rsp)) (enterAsm c.mem prev next label) c₁) :
    SameBut (unknown k k' c prev next) (switchEnter c prev next label) c₁ := by
  obtain ⟨hmem, -⟩ := run_saveAsm c prev next
  have hsave' := withstands_saveAsm h.prevStack (L.stackLen_le _ (h.tasks h.prevLive)) h.room next
    _ _ hs hsave
  have hline : switchEnter c prev next label =
      (((operands c prev next).run (saveAsm c.mem prev)).exec
        (.load (threadOf c.mem next + offRsp) .rsp)).run (enterAsm c.mem prev next label) := rfl
  rw [hline]
  generalize (operands c prev next).run (saveAsm c.mem prev) = d at *
  have hload := hsave'.exec (.load (threadOf c.mem next + offRsp) .rsp)
    ((h.field_disjoint (by decide) (by decide)).mono_right Set.subset_union_left)
  have hsp : (d.exec (.load (threadOf c.mem next + offRsp) .rsp)).gpr .rsp =
      nextRsp c prev next := by
    rw [nextRsp, ← hmem]
    exact Cpu.setReg_gpr_self _ _ _
  unfold unknown
  rw [← hsp]
  have hroom := h.nextRoom
  have hrip := h.field_disjoint (o := offRip) (by decide) (by decide)
  rw [← hsp] at hroom hrip
  exact withstands_enterAsm h.nextStack c.mem prev label hroom Set.subset_union_right hrip _ _
    (hload.mono (Set.sdiff_subset.trans Set.subset_union_left)) henter

end SwitchSetup

/-- What the assembly leaves alone. -/
theorem switchEnter_agreeOn (c : Cpu) (prev next label : U64) {s : Set U64}
    (hpush : Disjoint (Region (Mem.below (c.gpr .rsp) 2) 16) s)
    (hrsp : Disjoint (Region (threadOf c.mem prev + offRsp) 8) s)
    (hrip : Disjoint (Region (threadOf c.mem prev + offRip) 8) s)
    (hret : Disjoint (Region ((switchEnter c prev next label).gpr .rsp) 8) s) :
    Mem.AgreeOn s (switchEnter c prev next label).mem c.mem := by
  obtain ⟨hmem, hsp, -⟩ := switchEnter_spec c prev next label
  rw [hsp] at hret
  rw [hmem]
  clear hmem hsp
  have hpark : Mem.AgreeOn s (parkMem c prev label) c.mem := by
    unfold parkMem parkStack
    refine (Mem.agreeOn_write64 _ _ _ hrip).trans ?_
    exact (Mem.agreeOn_write64 _ _ _ hrsp).trans (Mem.agreeOn_pushWords _ _ _ hpush)
  generalize parkMem c prev label = m at *
  exact (m.agreeOn_pushWords (nextRsp c prev next) [_] hret).trans hpark

/-- The plain assembly on other memory with the same pointers. -/
theorem switchEnter_setMem (label : U64) {m : Mem} (hprev : threadOf m prev = threadOf c.mem prev)
    (hnext : threadOf m next = threadOf c.mem next) :
    switchEnter (c.setMem m) prev next label =
      (((operands (c.setMem m) prev next).run (saveAsm c.mem prev)).exec
        (.load (threadOf c.mem next + offRsp) .rsp)).run (enterAsm c.mem prev next label) := by
  have hasm : switchAsm m prev next label = switchAsm c.mem prev next label := by
    unfold switchAsm
    rw [hprev, hnext]
  unfold switchEnter
  rw [Cpu.setMem_mem, hasm]
  rfl

/-- Memory that is as in `m'` on `g` and as in `m` elsewhere. -/
theorem exists_patch (g : Set U64) (m m' : Mem) :
    ∃ m'', Mem.AgreeOn g m'' m' ∧ Mem.AgreeOn gᶜ m'' m := by
  classical
  exact ⟨fun x => if x ∈ g then m' x else m x, fun x hx => if_pos hx, fun x hx => if_neg hx⟩

/-- **The interrupted assembly is a plain one.** From memory that holds below the stack pointer
    of `prev` what the interrupts leave there, the plain assembly comes to the same machine, but
    for what lies below the stack pointer of `next`. -/
theorem SwitchSetup.enter_patched (h : SwitchSetup L live k k' c prev next) {c₁ : Cpu}
    (hrun : PreemptedEnter k k' c prev next label c₁) :
    c₁.gpr .rsp = Mem.below (nextRsp c prev next) 1 ∧
      ∃ m, Mem.AgreeOn (k.dead (Mem.below (c.gpr .rsp) 2))ᶜ m c.mem ∧
        SameBut (k'.dead (c₁.gpr .rsp)) (switchEnter (c.setMem m) prev next label) c₁ := by
  obtain ⟨d, hsave, henter⟩ := hrun
  have hreal := h.enter_sameBut (.refl _ _) hsave henter
  obtain ⟨m, hin, hout⟩ := exists_patch (k.dead (Mem.below (c.gpr .rsp) 2)) c.mem c₁.mem
  have hroom := h.room
  have hok : ∀ n ≤ 2, k.Ok (Mem.below (c.gpr .rsp) n) := fun n hn =>
    h.prevStack.ok (Layout.Room.below (k := n) (hroom.mono (by omega)))
  have hdead := (taskInterrupts k).dead_below (n := 2) hok (by decide)
  have hsaved : ∀ {p : Piece}, p.Of live → p ≠ .stack prev →
      Disjoint (k.dead (Mem.below (c.gpr .rsp) 2)) (L.region p) := fun hp hne =>
    h.prevStack.dead_disjoint (Layout.Room.below (k := 2) (hroom.mono (by decide))) h.tasks
      h.prevLive hp hne
  -- the operands are the same in the patched memory
  have hptr : ∀ t ∈ live, threadOf m t = threadOf c.mem t := fun t ht =>
    hout.read64_of_disjoint (hsaved (p := .pointer t) ht (by simp)).symm
  have hplain : SameBut (unknown k k' c prev next) (switchEnter c prev next label)
      (switchEnter (c.setMem m) prev next label) := by
    have hs : SameBut (k.dead (c.gpr .rsp)) (operands c prev next)
        (operands (c.setMem m) prev next) :=
      ⟨rfl, rfl, hout.mono (Set.compl_subset_compl.mpr (hdead.trans Set.sdiff_subset))⟩
    rw [switchEnter_setMem label (hptr prev h.prevLive) (hptr next h.nextLive)]
    exact h.enter_sameBut hs (.plain _ _ _) (.plain _ _ _)
  obtain ⟨-, hsp, -⟩ := switchEnter_spec c prev next label
  have hsp₁ : c₁.gpr .rsp = Mem.below (nextRsp c prev next) 1 := by rw [hreal.gpr, hsp]
  have hret : (switchEnter (c.setMem m) prev next label).gpr .rsp = c₁.gpr .rsp := by
    rw [hplain.gpr, hreal.gpr]
  refine ⟨hsp₁, m, hout, hreal.gpr.trans hplain.gpr.symm, hreal.seg.trans hplain.seg.symm,
    fun x hx => ?_⟩
  by_cases hg : x ∈ k.dead (Mem.below (c.gpr .rsp) 2) \ Region (c₁.gpr .rsp) 8
  · -- left by an interrupt on the stack of `prev`: it is there from the start
    have hkeep : Mem.AgreeOn {x} (switchEnter (c.setMem m) prev next label).mem m := by
      have hthread := hptr prev h.prevLive
      have hfield : ∀ o : U64, 8 ≤ o.toNat → o.toNat + 8 ≤ 64 →
          Disjoint (Region (threadOf (c.setMem m).mem prev + o) 8) {x} := fun o h1 h2 => by
        rw [Cpu.setMem_mem, hthread, h.prevThread, Set.disjoint_singleton_right]
        exact fun hx' => Set.disjoint_left.mp (hsaved (p := .saved prev) h.prevLive (by simp))
          hg.1 (L.field_subset h1 h2 hx')
      refine switchEnter_agreeOn (c.setMem m) prev next label ?_ (hfield _ (by decide) (by decide))
        (hfield _ (by decide) (by decide)) ?_
      · exact Set.disjoint_singleton_right.mpr (hdead hg.1).2
      · rw [hret]
        exact Set.disjoint_singleton_right.mpr hg.2
    rw [hkeep x rfl, hin x hg.1]
  · have hknown : x ∉ unknown k k' c prev next := by
      rintro ⟨hx' | hx', hout'⟩
      · exact hg ⟨hx', hsp₁ ▸ hout'⟩
      · refine hx (hsp₁ ▸ h.nextStack.dead_sdiff (n := 1) (h.nextRoom.mono (by decide))
          (L.stackLen_le _ (h.tasks h.nextLive)) ⟨hx', hout'⟩)
    exact (hreal.mem x hknown).trans (hplain.mem x hknown).symm

/-! ## `__switch_to` -/

/-- A store of the same word into two memories leaves them as different as they were. -/
theorem write64_congr {g : Set U64} {m m' : Mem} (h : Mem.AgreeOn gᶜ m' m) (a v : U64) :
    Mem.AgreeOn gᶜ (m'.write64 a v) (m.write64 a v) :=
  (h.write64_both a v).mono (Set.compl_subset_compl.mpr Set.sdiff_subset)

theorem storeLongs_congr {g : Set U64} {m m' : Mem} (h : Mem.AgreeOn gᶜ m' m) (table : U64)
    (ws : List (U64 × U64)) : Mem.AgreeOn gᶜ (storeLongs m' table ws) (storeLongs m table ws) := by
  induction ws generalizing m m' with
  | nil => exact h
  | cons w ws ih => exact ih (write64_congr h _ _)

theorem setInitTss_congr {g : Set U64} {m m' : Mem} (h : Mem.AgreeOn gᶜ m' m) (tss table : U64)
    (hd : Disjoint (Region tss 104) g) :
    Mem.AgreeOn gᶜ (setInitTss m' tss table) (setInitTss m tss table) := by
  have hfield : ∀ {o : U64}, o.toNat + 8 ≤ 104 → m'.read64 (tss + o) = m.read64 (tss + o) :=
    fun ho => h.read64_of_disjoint (hd.mono_left (region_subset tss ho))
  unfold setInitTss setTss64
  rw [hfield (by decide), hfield (by decide), hfield (by decide), hfield (by decide),
    hfield (by decide), hfield (by decide), hfield (by decide), hfield (by decide),
    hfield (by decide), hfield (by decide)]
  exact storeLongs_congr h table _

/-- `__switch_to` stores the same on two memories that agree on what it reads. -/
theorem switchStores_congr {g : Set U64} {m m' : Mem} (h : Mem.AgreeOn gᶜ m' m) (fs gs : BitVec 16)
    (hprev : Disjoint (Region (prev + offThread) 8) g)
    (hnext : Disjoint (Region (next + offThread) 8) g)
    (hrsp0 : Disjoint (Region (threadOf m next + offRsp0) 8) g)
    (htss : Disjoint (L.region .initTss) g) :
    Mem.AgreeOn gᶜ (switchStores L.toPlaces m' fs gs prev next)
      (switchStores L.toPlaces m fs gs prev next) := by
  have hthread : threadOf m' next = threadOf m next := h.read64_of_disjoint hnext
  have hfield : threadField m' next offRsp0 = threadField m next offRsp0 := by
    unfold threadField
    rw [hthread]
    exact h.read64_of_disjoint hrsp0
  unfold switchStores
  rw [hfield]
  have htable := setInitTss_congr (write64_congr h (L.initTss + offTssRsp0)
    (threadField m next offRsp0)) L.initTss L.tssTable htss
  dsimp only
  generalize setInitTss (m'.write64 _ _) _ _ = m₁' at *
  generalize setInitTss (m.write64 _ _) _ _ = m₁ at *
  have hptr : threadOf m₁' prev = threadOf m₁ prev := htable.read64_of_disjoint hprev
  rw [hptr]
  have hfs := write64_congr htable (threadOf m₁ prev + offFs) (fs.setWidth 64)
  have hptr' : threadOf (m₁'.write64 _ _) prev = threadOf (m₁.write64 _ _) prev :=
    hfs.read64_of_disjoint hprev
  rw [hptr']
  exact write64_congr hfs _ _

/-- What is unknown to `__switch_to` is its own: a call from `c₁` is one from `c`. -/
theorem switchTo_of_sameBut {g : Set U64} {c₁ c₂ : Cpu} (hs : SameBut g c c₁)
    (hmsr : c₁.msr = c.msr) (hpieces : ∀ p, p.Of live → p ≠ .stack next → Disjoint g (L.region p))
    (habove : Disjoint g (L.above next (c.gpr .rsp))) (hprev : prev ∈ live) (hnext : next ∈ live)
    (hthread : threadOf c.mem next = L.thread next) (hcall : SwitchTo L live prev next c₁ c₂) :
    SwitchTo L live prev next c c₂ := by
  have hstores : Mem.AgreeOn gᶜ
      (switchStores L.toPlaces c₁.mem (c₁.seg .fs) (c₁.seg .gs) prev next)
      (switchStores L.toPlaces c.mem (c.seg .fs) (c.seg .gs) prev next) := by
    rw [hs.seg]
    refine switchStores_congr hs.mem _ _ (hpieces (.pointer prev) hprev (by simp)).symm
      (hpieces (.pointer next) hnext (by simp)).symm ?_ (hpieces .initTss trivial (by simp)).symm
    rw [hthread]
    exact (hpieces (.rsp0 next) hnext (by simp)).symm
  have hsp : c₁.gpr .rsp = c.gpr .rsp := congrFun hs.gpr .rsp
  refine ⟨fun p hp hne => ?_, ?_, hcall.fs, hcall.gs, ?_, fun r hr => ?_, ?_⟩
  · exact (hcall.pieces p hp hne).trans
      (hstores.mono (Set.subset_compl_iff_disjoint_left.mpr (hpieces p hp hne)))
  · have hcall' := hcall.above
    rw [hsp] at hcall'
    exact hcall'.trans (hstores.mono (Set.subset_compl_iff_disjoint_left.mpr habove))
  · rw [hcall.rsp, hsp]
  · rw [hcall.saved r hr, hs.gpr]
  · rw [hcall.msr, hmsr]

/-! ## One switch -/

/-- What a task can tell of where it left. -/
def Suspended.view (sv : Suspended) : U64 × (Reg → U64) × (Seg → BitVec 16) :=
  (sv.label, sv.cpu.gpr, sv.cpu.seg)

/-- What the tasks can tell of a switch: from where to where it goes, and the registers. -/
structure SwitchView where
  prev : U64
  next : U64
  label : U64
  target : U64
  before : (Reg → U64) × (Seg → BitVec 16)
  resumed : Option (U64 × (Reg → U64) × (Seg → BitVec 16))
  after : (Reg → U64) × (Seg → BitVec 16)

def Switch.view (sw : Switch) : SwitchView :=
  ⟨sw.prev, sw.next, sw.label, sw.target, (sw.before.gpr, sw.before.seg),
    sw.resumed.map Suspended.view, (sw.after.gpr, sw.after.seg)⟩

/-- Every task that is not running has room for an interrupt below the words that resume it. -/
def Deep (L : Layout) (s : Sys) : Prop :=
  ∀ t ∈ s.live, t ≠ s.cur → L.Room t (s.cpu.mem.read64 (L.thread t + offRsp)) 224

variable {s : Sys} {c₁ c₂ c₃ : Cpu}

theorem preemptedEnter_msr (h : PreemptedEnter k k' c prev next label c₁) : c₁.msr = c.msr := by
  obtain ⟨d, hsave, henter⟩ := h
  have hsaved : d.msr = (operands c prev next).msr := preemptedRun_msr hsave
  exact (preemptedRun_msr henter).trans hsaved

/-- The pops read the label only. -/
theorem PreemptedResume.congr {r r' : Option Suspended} {target : U64}
    (hr : r'.map Suspended.view = r.map Suspended.view) (h : PreemptedResume k' r target c₂ c₃) :
    PreemptedResume k' r' target c₂ c₃ := by
  cases r with
  | none =>
      rw [Option.map_none, Option.map_eq_none_iff] at hr
      rw [hr]
      exact h
  | some sv =>
      obtain ⟨sv', rfl, hview⟩ := Option.map_eq_some_iff.mp hr
      have hlabel : sv'.label = sv.label := congrArg Prod.fst hview
      unfold PreemptedResume at h ⊢
      dsimp only at h ⊢
      rw [hlabel]
      exact h

/-- Interrupts around the pops change the stack of `next` only. -/
theorem PreemptedResume.plain (hk' : StackOf L live next k') (hlive : live ⊆ L.tasks)
    (hnext : next ∈ live) {r : Option Suspended} {target : U64}
    (hroom : r ≠ none → L.Room next (c₂.gpr .rsp + 16#64) 232)
    (h : PreemptedResume k' r target c₂ c₃) :
    ∃ g, (∀ p, p.Of live → p ≠ .stack next → Disjoint g (L.region p)) ∧
      SameBut g (resumeAt r target c₂) c₃ ∧ c₃.msr = c₂.msr := by
  have hsame : ∀ {c : Cpu}, c₃ = c → ∃ g : Set U64,
      (∀ p, p.Of live → p ≠ .stack next → Disjoint g (L.region p)) ∧
        SameBut g c c₃ ∧ c₃.msr = c.msr := fun hc =>
    ⟨∅, fun p _ _ => Set.empty_disjoint _, hc ▸ .refl _ _, by rw [hc]⟩
  unfold PreemptedResume at h
  unfold resumeAt
  cases r with
  | none => exact hsame h
  | some sv =>
      dsimp only at h ⊢
      split at h
      · next htarget =>
          rw [if_pos htarget]
          have htop := hroom (Option.some_ne_none sv)
          have hsp : c₂.gpr .rsp = Mem.below (c₂.gpr .rsp + 16#64) (popCount label1) := by
            change _ = c₂.gpr .rsp + 16#64 - 16#64
            ring
          have hok : ∀ n ≤ popCount label1, k'.Ok (Mem.below (c₂.gpr .rsp + 16#64) n) :=
            fun n hn => hk'.ok (Layout.Room.below (k := n) (htop.mono (by
              have : popCount label1 = 2 := rfl
              omega)))
          have hpop := withstands_popping (p := taskInterrupts k') (c := c₂) (g := ∅) (by decide)
            hsp hok (by decide) (Set.disjoint_empty _)
          refine ⟨_, fun p hp hne => ?_, hpop _ _ (.refl _ _) h, preemptedRun_msr h⟩
          rw [Set.empty_union]
          exact hk'.dead_disjoint (htop.mono (by decide)) hlive hnext hp hne
      · next htarget =>
          rw [if_neg htarget]
          exact hsame h

/-- A suspended task, and one that was never run, has room below the words that resume it. -/
theorem parked_deep (inv : SwitchInv L s) (hdeep : Deep L s) (label : U64)
    (hroom : L.Room s.cur (s.cpu.gpr .rsp) 240) (ht : t ∈ s.live) :
    L.Room t ((parkMem s.cpu s.cur label).read64 (L.thread t + offRsp)) 224 := by
  have hcur := inv.pointer _ inv.cur
  by_cases h : t = s.cur
  · subst h
    have hframe : Frame L (parkMem s.cpu s.cur label) s.cur ⟨s.cpu, label⟩ :=
      parkMem_frame (inv.tasks inv.cur) hcur (hroom.mono (by decide))
    rw [hframe.rsp]
    exact hroom.below (k := 2)
  · have hpieces : Mem.AgreeOn (L.region (.saved t)) (parkMem s.cpu s.cur label) s.cpu.mem :=
      parkMem_agreeOn hcur (hroom.mono (by decide))
        (inv.apart (p := .stack s.cur) (q := .saved t) inv.cur ht (by simp))
        (inv.apart (p := .saved s.cur) (q := .saved t) inv.cur ht (by simpa using Ne.symm h))
    rw [(hpieces.mono (L.field_subset (by decide) (by decide))).read64]
    exact hdeep t ht h

theorem switchSetup (inv : SwitchInv L s) (hdeep : Deep L s) (hnext : next ∈ s.live)
    (hroom : L.Room s.cur (s.cpu.gpr .rsp) 240) (hk : StackOf L s.live s.cur k)
    (hk' : StackOf L s.live next k') : SwitchSetup L s.live k k' s.cpu s.cur next where
  tasks := inv.tasks
  prevLive := inv.cur
  nextLive := hnext
  prevStack := hk
  nextStack := hk'
  prevThread := inv.pointer _ inv.cur
  nextThread := inv.pointer _ hnext
  room := hroom
  nextRoom := by
    rw [nextRsp_eq 0#64 (inv.tasks inv.cur) (inv.pointer _ inv.cur) (inv.tasks hnext)
      (inv.pointer _ hnext)]
    exact parked_deep inv hdeep 0#64 hroom hnext

/-- `s` with other memory. -/
def Sys.withMem (s : Sys) (m : Mem) : Sys := { s with cpu := s.cpu.setMem m }

/-- The same tasks are suspended, with the same registers. -/
theorem parked_withMem (s : Sys) (m : Mem) (label t : U64) :
    ((s.withMem m).parked label t).map Suspended.view =
      (s.parked label t).map Suspended.view := by
  unfold Sys.parked
  by_cases hcur : t = s.cur
  · subst hcur
    change (Function.update s.suspended s.cur _ s.cur).map _ = _
    rw [Function.update_self, Function.update_self]
    rfl
  · change (Function.update s.suspended s.cur _ t).map _ = _
    rw [Function.update_of_ne hcur, Function.update_of_ne hcur]

/-- The memory `m` holds, below the words that the assembly pushes, what the interrupts of a
    switch left on the stack of the running task; `SwitchSetup.enter_patched` finds it. -/
structure Patched (L : Layout) (s : Sys) (k k' : KernelStack) (next label : U64) (c₁ : Cpu)
    (m : Mem) : Prop where
  setup : SwitchSetup L s.live k k' s.cpu s.cur next
  msr : c₁.msr = s.cpu.msr
  rsp : c₁.gpr .rsp = Mem.below (nextRsp s.cpu s.cur next) 1
  outside : Mem.AgreeOn (k.dead (Mem.below (s.cpu.gpr .rsp) 2))ᶜ m s.cpu.mem
  same : SameBut (k'.dead (c₁.gpr .rsp)) (switchEnter (s.cpu.setMem m) s.cur next label) c₁

namespace Patched

variable {m : Mem} (h : Patched L s k k' next label c₁ m)

include h

/-- Only the stack of the running task is patched. -/
theorem pieces {p : Piece} (hp : p.Of s.live) (hne : p ≠ .stack s.cur) :
    Mem.AgreeOn (L.region p) m s.cpu.mem :=
  h.outside.mono (Set.subset_compl_iff_disjoint_left.mpr
    (h.setup.prevStack.dead_disjoint (Layout.Room.below (k := 2) (h.setup.room.mono (by decide)))
      h.setup.tasks h.setup.prevLive hp hne))

theorem work : Work L s (s.withMem m).cpu s.live :=
  ⟨subset_rfl, h.setup.tasks, fun _ hp hne _ => h.pieces hp hne, fun _ ht hn => absurd ht hn,
    fun _ ht hn => absurd ht hn, rfl⟩

theorem enter_rsp : (switchEnter (s.cpu.setMem m) s.cur next label).gpr .rsp = c₁.gpr .rsp :=
  (congrFun h.same.gpr .rsp).symm

/-- The assembly leaves the pointer to the `thread_struct` of `next` alone. -/
theorem enter_thread : threadOf (switchEnter (s.cpu.setMem m) s.cur next label).mem next =
    L.thread next := by
  have hnext := h.setup.nextLive
  have hapart : ∀ {p : Piece}, p.Of s.live → p ≠ .pointer next →
      Disjoint (L.region p) (Region (next + offThread) 8) := fun hp hne =>
    L.apart _ (.pointer next) (hp.mono h.setup.tasks) (h.setup.tasks hnext) hne
  have hptr : threadOf m s.cur = L.thread s.cur :=
    (h.pieces (p := .pointer s.cur) h.setup.prevLive (by simp)).read64.trans h.setup.prevThread
  have hfield : ∀ o : U64, 8 ≤ o.toNat → o.toNat + 8 ≤ 64 →
      Disjoint (Region (threadOf m s.cur + o) 8) (Region (next + offThread) 8) := fun o h1 h2 => by
    rw [hptr]
    exact (hapart (p := .saved s.cur) h.setup.prevLive (by simp)).mono_left (L.field_subset h1 h2)
  have hkeep : Mem.AgreeOn (Region (next + offThread) 8)
      (switchEnter (s.cpu.setMem m) s.cur next label).mem m := by
    refine switchEnter_agreeOn (s.cpu.setMem m) s.cur next label ?_
      (hfield offRsp (by decide) (by decide)) (hfield offRip (by decide) (by decide)) ?_
    · exact (hapart (p := .stack s.cur) h.setup.prevLive (by simp)).mono_left
        ((h.setup.room.mono (by decide)).below_subset (k := 2))
    · rw [h.enter_rsp, h.rsp]
      exact (hapart (p := .stack next) hnext (by simp)).mono_left
        ((h.setup.nextRoom.mono (by decide)).below_subset (k := 1))
  have hread := h.pieces (p := .pointer next) hnext (by simp)
  exact (hkeep.trans hread).read64.trans h.setup.nextThread

/-- The plain switch from the patched memory is a switch of the run. -/
theorem switchOk (hcall : SwitchTo L s.live s.cur next c₁ c₂) :
    SwitchOk L (s.withMem m) next label c₂ := by
  have hroom : L.Room next (c₁.gpr .rsp) 0 := by
    rw [h.rsp]
    exact (h.setup.nextRoom.mono (by decide)).below (k := 1)
  have hmsr : c₁.msr = (switchEnter (s.cpu.setMem m) s.cur next label).msr := by
    rw [h.msr, (switchEnter_spec (s.cpu.setMem m) s.cur next label).2.2.2.2]
    rfl
  refine ⟨h.setup.nextLive, h.setup.room.mono (by decide), switchTo_of_sameBut h.same hmsr
    (fun p hp hne => ?_) ?_ h.setup.prevLive h.setup.nextLive h.enter_thread hcall⟩
  · exact h.setup.nextStack.dead_disjoint hroom h.setup.tasks h.setup.nextLive hp hne
  · change Disjoint _ (L.above next ((switchEnter (s.cpu.setMem m) s.cur next label).gpr .rsp))
    rw [h.enter_rsp]
    exact h.setup.nextStack.dead_above h.setup.nextLive _

/-- It returns to where the interrupted one returns to. -/
theorem target (c₂ : Cpu) : ((s.withMem m).switch next label c₂).target =
    c₁.mem.read64 (c₁.gpr .rsp) := by
  have habove := h.setup.nextStack.dead_above h.setup.nextLive (c₁.gpr .rsp)
  change (switchEnter (s.cpu.setMem m) s.cur next label).mem.read64
    ((switchEnter (s.cpu.setMem m) s.cur next label).gpr .rsp) = _
  rw [h.enter_rsp]
  refine (h.same.mem.read64_of_disjoint ?_).symm
  rw [h.rsp] at habove ⊢
  exact habove.symm.mono_left ((h.setup.nextRoom.mono (by decide)).below_subset_above (k := 1)
    (h.setup.tasks h.setup.nextLive) le_rfl)

/-- Every task is parked with room for an interrupt. -/
theorem parked_deep (inv : SwitchInv L s) (hdeep : Deep L s) (ht : t ∈ s.live) :
    L.Room t ((parkMem (s.withMem m).cpu s.cur label).read64 (L.thread t + offRsp)) 224 := by
  refine Sched.parked_deep (s := s.withMem m) (switchInv_work inv h.work) (fun u hu hne => ?_)
    label h.setup.room ht
  change L.Room u (m.read64 (L.thread u + offRsp)) 224
  rw [((h.pieces (p := .saved u) hu (by simp)).mono
    (L.field_subset (by decide) (by decide))).read64]
  exact hdeep u hu hne

/-- A task that resumes does so below the words that the assembly pushed, and has room for an
    interrupt below them. -/
theorem resume_room (inv : SwitchInv L s) (hdeep : Deep L s)
    (hcall : SwitchTo L s.live s.cur next c₁ c₂)
    (hsome : (s.withMem m).parked label next ≠ none) :
    L.Room next (c₂.gpr .rsp + 16#64) 232 := by
  have hinv : SwitchInv L (s.withMem m) := switchInv_work inv h.work
  have hok := h.switchOk hcall
  obtain ⟨sv, hsv⟩ := Option.ne_none_iff_exists'.mp hsome
  have hf := (parked_frame hinv hok hsv).2
  have hlow := h.parked_deep inv hdeep h.setup.nextLive
  have hrsp : c₂.gpr .rsp = Mem.below (sv.cpu.gpr .rsp) 2 :=
    (switchFacts hinv hok).rsp.trans (after_frame hinv hok hsv).rsp
  have hheight := Layout.height_below (k := 2) (hf.room.mono (show 8 * 2 ≤ 24 by decide)).1
  have hmem : (parkMem (s.withMem m).cpu s.cur label).read64 (L.thread next + offRsp) =
      Mem.below (sv.cpu.gpr .rsp) 2 := hf.rsp
  rw [hmem] at hlow
  have h1 := hlow.1
  rw [hrsp, show Mem.below (sv.cpu.gpr .rsp) 2 + 16#64 = sv.cpu.gpr .rsp from
    Mem.below_add (sv.cpu.gpr .rsp) 2]
  exact ⟨by omega, hf.room.2⟩

end Patched

/-- **An interrupted switch is a plain one**, behind work of the running task and in front of work
    of the resumed one. -/
theorem preemptedSwitch_plain (inv : SwitchInv L s) (hdeep : Deep L s)
    (hok : PreemptedSwitchOk L s next label c₁ c₂ c₃) : ∃ m,
    Work L s (s.withMem m).cpu s.live ∧ SwitchOk L (s.withMem m) next label c₂ ∧
      ((s.withMem m).switch next label c₂).view = (s.preempted next label c₁ c₃).view ∧
      Work L ((s.withMem m).switched next label c₂) c₃ s.live ∧
      ∀ t ∈ s.live, t ≠ next → L.Room t (c₃.mem.read64 (L.thread t + offRsp)) 224 := by
  obtain ⟨k, k', hk, hk', henter, hresume⟩ := hok.run
  have hsetup := switchSetup inv hdeep hok.live hok.room hk hk'
  obtain ⟨hsp, m, hm, hs⟩ := hsetup.enter_patched henter
  have h : Patched L s k k' next label c₁ m := ⟨hsetup, preemptedEnter_msr henter, hsp, hm, hs⟩
  have hokw := h.switchOk hok.call
  obtain ⟨g, hg, hsame, hmsr⟩ := PreemptedResume.plain hk' inv.tasks hok.live
    (h.resume_room inv hdeep hok.call) (hresume.congr (parked_withMem s m label next))
  rw [← h.target c₂] at hsame
  have hafter : ((s.withMem m).switch next label c₂).after = resumeAt ((s.withMem m).parked label
    next) ((s.withMem m).switch next label c₂).target c₂ := rfl
  obtain ⟨hmem, hmsr₂⟩ := resumeAt_mem ((s.withMem m).parked label next)
    ((s.withMem m).switch next label c₂).target c₂
  rw [← hafter] at hsame hmem hmsr₂
  have hpieces : ∀ p, p.Of s.live → p ≠ .stack next → Mem.AgreeOn (L.region p) c₃.mem c₂.mem :=
    fun p hp hne => by
      rw [← hmem]
      exact hsame.mem.mono (Set.subset_compl_iff_disjoint_left.mpr (hg p hp hne))
  refine ⟨m, h.work, hokw, ?_, ⟨subset_rfl, inv.tasks, fun p hp h1 _ => ?_,
    fun t ht hn => absurd ht hn, fun t ht hn => absurd ht hn, ?_⟩, fun t ht _ => ?_⟩
  · have hresumed : ((s.withMem m).switch next label c₂).resumed =
      (s.withMem m).parked label next := rfl
    unfold Switch.view
    rw [hresumed, parked_withMem, h.target, ← hsame.gpr, ← hsame.seg]
    rfl
  · change Mem.AgreeOn (L.region p) c₃.mem ((s.withMem m).switch next label c₂).after.mem
    rw [hmem]
    exact hpieces p hp h1
  · change c₃.msr sysenterEsp = ((s.withMem m).switch next label c₂).after.msr sysenterEsp
    rw [hmsr₂, hmsr]
  · have hkeep := (hpieces (.saved t) ht (by simp)).mono (ripRsp_subset L t)
    have hback := hkeep.trans (after_ripRsp (switchInv_work inv h.work) hokw ht)
    rw [(hback.mono (rsp_subset L t)).read64]
    exact h.parked_deep inv hdeep ht

/-! ## Runs -/

/-- `s'` is `s`, up to the memory that suspended tasks once saw. -/
structure Simulates (s s' : Sys) : Prop where
  cpu : s'.cpu = s.cpu
  cur : s'.cur = s.cur
  live : s'.live = s.live
  suspended : ∀ t, (s'.suspended t).map Suspended.view = (s.suspended t).map Suspended.view

variable {s' : Sys} {log : List Switch}

theorem Simulates.parked (h : Simulates s s') (label t : U64) :
    (s'.parked label t).map Suspended.view = (s.parked label t).map Suspended.view := by
  unfold Sys.parked
  rw [h.cur, h.cpu]
  by_cases hcur : t = s.cur
  · rw [hcur, Function.update_self, Function.update_self]
  · rw [Function.update_of_ne hcur, Function.update_of_ne hcur]
    exact h.suspended t

theorem Simulates.work (h : Simulates s s') (hw : Work L s c live) : Work L s' c live := by
  obtain ⟨hgrows, htasks, hpieces, hpointer, hroom, hmsr⟩ := hw
  constructor
  · rwa [h.live]
  · exact htasks
  · rwa [h.live, h.cur, h.cpu]
  · rwa [h.live]
  · rwa [h.live]
  · rwa [h.cpu]

theorem Simulates.switchOk (h : Simulates s s')
    (hok : PreemptedSwitchOk L s next label c₁ c₂ c₃) :
    PreemptedSwitchOk L s' next label c₁ c₂ c₃ := by
  obtain ⟨hlive, hroom, ⟨k, k', hk, hk', henter, hresume⟩, hcall⟩ := hok
  refine ⟨by rwa [h.live], by rwa [h.cur, h.cpu], ⟨k, k', ?_, ?_, ?_, ?_⟩, ?_⟩
  · rwa [h.live, h.cur]
  · rwa [h.live]
  · rwa [h.cur, h.cpu]
  · exact hresume.congr (h.parked label next)
  · rwa [h.live, h.cur]

theorem Simulates.preempted_view (h : Simulates s s') (next label : U64) (c₁ c₃ : Cpu) :
    (s'.preempted next label c₁ c₃).view = (s.preempted next label c₁ c₃).view := by
  have hparked := h.parked label next
  unfold Switch.view Sys.preempted
  dsimp only
  rw [hparked, h.cur, h.cpu]

/-- Every run with interrupted switches is simulated by one with plain switches. -/
theorem PreemptedSwitchRun.simulated (r : PreemptedSwitchRun L s log) : Deep L s ∧
    ∃ s' log', SwitchRun L s' log' ∧ Simulates s s' ∧
      log'.map Switch.view = log.map Switch.view := by
  induction r with
  | start c systemCall hcur hthread =>
      refine ⟨fun t ht hne => absurd (Set.mem_singleton_iff.mp ht) hne, _, _,
        .start c systemCall hcur hthread, ⟨rfl, rfl, rfl, fun _ => rfl⟩, rfl⟩
  | @work s log c live r hw hroom ih =>
      obtain ⟨hdeep, s', log', r', hsim, hlog⟩ := ih
      refine ⟨fun t ht hne => ?_, _, _, .work c live r' (hsim.work hw),
        ⟨rfl, hsim.cur, rfl, hsim.suspended⟩, hlog⟩
      by_cases hold : t ∈ s.live
      · have hag := hw.pieces (.saved t) hold (by simp) (by simpa using hne)
        change L.Room t (c.mem.read64 (L.thread t + offRsp)) 224
        rw [(hag.mono (L.field_subset (by decide) (by decide))).read64]
        exact hdeep t hold hne
      · exact hroom t ht hold
  | @switch s log next label c₁ c₂ c₃ r hok ih =>
      obtain ⟨hdeep, s', log', r', hsim, hlog⟩ := ih
      have hdeep' : Deep L s' := by
        unfold Deep
        rw [hsim.live, hsim.cur, hsim.cpu]
        exact hdeep
      obtain ⟨m, hwork, hplain, hview, hafter, hroom⟩ :=
        preemptedSwitch_plain r'.inv hdeep' (hsim.switchOk hok)
      have hrun := SwitchRun.work _ _ (.switch next label c₂ (.work _ _ r' hwork) hplain) hafter
      rw [hsim.live] at hroom
      refine ⟨hroom, _, _, hrun, ⟨rfl, rfl, hsim.live, fun t => ?_⟩, ?_⟩
      · change (Function.update ((s'.withMem m).parked label) next none t).map _ =
          (Function.update (s.parked label) next none t).map _
        by_cases ht : t = next
        · rw [ht, Function.update_self, Function.update_self]
        · rw [Function.update_of_ne ht, Function.update_of_ne ht]
          exact (parked_withMem s' m label t).trans (hsim.parked label t)
      · rw [List.map_cons, List.map_cons, hlog]
        exact congrArg (· :: _) (hview.trans (hsim.preempted_view next label c₁ c₃))

/-- What a switch resumes, and with which registers, is in its view. -/
theorem resumes_of_view {sw sw' : Switch} (hview : sw'.view = sw.view) {sv : Suspended}
    (hsv : sw.resumed = some sv) (h : ∀ sv', sw'.resumed = some sv' →
      Resumes [.rsp, .rbp] sw' sv' ∧ ∀ r ∈ unsaved, sw'.after.gpr r = sw'.before.gpr r) :
    Resumes [.rsp, .rbp] sw sv ∧ ∀ r ∈ unsaved, sw.after.gpr r = sw.before.gpr r := by
  obtain ⟨-, -, -, htarget, hbefore, hresumed, hafter⟩ := SwitchView.mk.inj hview
  rw [hsv, Option.map_some, Option.map_eq_some_iff] at hresumed
  obtain ⟨sv', hsv', heq⟩ := hresumed
  obtain ⟨hlabel, hregs⟩ := Prod.mk.inj heq
  obtain ⟨hgpr, hseg⟩ := Prod.mk.inj hregs
  obtain ⟨hafterGpr, hafterSeg⟩ := Prod.mk.inj hafter
  obtain ⟨hres, hpass⟩ := h sv' hsv'
  refine ⟨⟨?_, fun r hr => ?_, ?_, ?_⟩, fun r hr => ?_⟩
  · rw [← htarget, hres.label, hlabel]
  · rw [← hafterGpr, hres.gpr r hr, hgpr]
  · rw [← hafterSeg, hres.fs, hseg]
  · rw [← hafterSeg, hres.gs, hseg]
  · rw [← hafterGpr, hpass r hr, (Prod.mk.inj hbefore).1]

/-- **Context switches under interrupts.** Every run of switches with interrupts between the
    instructions of `switch_to` reaches the machine of a run without, whose switches go from the
    same tasks to the same tasks and addresses, with the same registers. So a task that resumes
    does so at the label it left from, with its `rsp`, `rbp`, `fs` and `gs`, and with the other
    callee-saved registers of the task that switched to it. -/
theorem preemptedRun_refines (r : PreemptedSwitchRun L s log) :
    (∃ s' log', SwitchRun L s' log' ∧ Simulates s s' ∧
      log'.map Switch.view = log.map Switch.view) ∧
    ∀ sw ∈ log, ∀ sv, sw.resumed = some sv →
      Resumes [.rsp, .rbp] sw sv ∧ ∀ r ∈ unsaved, sw.after.gpr r = sw.before.gpr r := by
  obtain ⟨-, hsim⟩ := r.simulated
  refine ⟨hsim, fun sw hsw sv hsv => ?_⟩
  obtain ⟨s', log', r', -, hlog⟩ := hsim
  have hmem : sw.view ∈ log'.map Switch.view := hlog ▸ List.mem_map_of_mem hsw
  obtain ⟨sw', hsw', hview⟩ := List.mem_map.mp hmem
  exact resumes_of_view hview hsv (r'.resumes sw' hsw')

/-! ### An interrupt in the first switch -/

/-- The init task, with interrupts enabled, and the forked task. -/
def pairEnabled : Sys :=
  ⟨pairSys.cpu.exec .sti, pairInit, {pairInit, pairTask}, fun _ => none⟩

def pairStack (t : U64) (ht : t ∈ pair.tasks) : KernelStack :=
  ⟨pair.stackLow t, pair.stackLen t, ∅, pair.stackLen_le t ht, Set.empty_disjoint _⟩

theorem pairStack_of (t : U64) (ht : t ∈ pair.tasks) :
    StackOf pair pair.tasks t (pairStack t ht) := ⟨rfl, rfl, fun _ _ => Set.empty_disjoint _⟩

theorem pairEnabled_run : PreemptedSwitchRun pair pairEnabled [] := by
  have hstart : PreemptedSwitchRun pair ⟨taskInit pair.toPlaces (pairCpu.exec .sti) 0#64, pairInit,
      {pairInit}, fun _ => none⟩ [] := .start (pairCpu.exec .sti) 0#64 (by decide) (by decide)
  have hsaved := pairSys_read64 (q := .saved pairTask) pairTask_mem (by simp) (by simp)
    (a := pair.thread pairTask + offRsp) (pair.field_subset (by decide) (by decide))
  have hroom : ∀ n ≤ 224, pair.Room pairTask
      (pairSys.cpu.mem.read64 (pair.thread pairTask + offRsp)) n := fun n hn => by
    rw [hsaved]
    exact Layout.Room.mono (n := 224) (by decide) hn
  refine .work pairEnabled.cpu {pairInit, pairTask} hstart ⟨?_, subset_rfl, fun p _ _ _ =>
    Mem.AgreeOn.refl _ _, fun t ht hn => ?_, fun t ht hn => ?_, rfl⟩ fun t ht hn => ?_
  · exact Set.singleton_subset_iff.mpr (Or.inl rfl)
  · obtain rfl : t = pairTask := ht.resolve_left hn
    have hread := pairSys_read64 (q := .pointer pairTask) pairTask_mem (by simp) (by simp)
      (a := pairTask + offThread) subset_rfl
    change pairSys.cpu.mem.read64 (pairTask + offThread) = _
    rw [hread]
    decide
  · obtain rfl : t = pairTask := ht.resolve_left hn
    exact hroom 8 (by decide)
  · obtain rfl : t = pairTask := ht.resolve_left hn
    exact hroom 224 le_rfl

/-- An interrupt in front of the assembly's first instruction. -/
theorem pairEnabled_switch : ∃ c' c₁ c₂, (pairStack pairInit (Or.inl rfl)).Step
    (operands pairEnabled.cpu pairInit pairTask) c' ∧
    PreemptedSwitchRun pair
      { pairEnabled with
        cpu := c₂, cur := pairTask,
        suspended := Function.update (pairEnabled.parked 0x1000#64) pairTask none }
      [pairEnabled.preempted pairTask 0x1000#64 c₁ c₂] := by
  obtain ⟨c', hstep, hmsr⟩ := (pairStack pairInit (Or.inl rfl)).exists_step
    (c := operands pairEnabled.cpu pairInit pairTask) rfl
  let c₁ := ((c'.run (saveAsm pairEnabled.cpu.mem pairInit)).exec
    (.load (threadOf pairEnabled.cpu.mem pairTask + offRsp) .rsp)).run
    (enterAsm pairEnabled.cpu.mem pairInit pairTask 0x1000#64)
  let c₂ := switchToMin pair.toPlaces pairInit pairTask c₁
  have henter : PreemptedEnter (pairStack pairInit (Or.inl rfl)) (pairStack pairTask (Or.inr rfl))
      pairEnabled.cpu pairInit pairTask 0x1000#64 c₁ :=
    ⟨_, .interrupt ⟨hstep, hmsr⟩ (.plain _ _ _), .plain _ _ _⟩
  have hresume : PreemptedResume (pairStack pairTask (Or.inr rfl))
      (pairEnabled.parked 0x1000#64 pairTask) (c₁.mem.read64 (c₁.gpr .rsp)) c₂ c₂ := rfl
  exact ⟨c', c₁, c₂, hstep, .switch pairTask 0x1000#64 c₁ c₂ c₂ pairEnabled_run
    ⟨Or.inr rfl, by decide, ⟨_, _, pairStack_of pairInit (Or.inl rfl),
      pairStack_of pairTask (Or.inr rfl), henter, hresume⟩, switchTo_min _ _ _ _ _⟩⟩

theorem preemptedRun_refines_pair : ∃ c' c₁ c₂ s' log',
    (pairStack pairInit (Or.inl rfl)).Step (operands pairEnabled.cpu pairInit pairTask) c' ∧
    SwitchRun pair s' log' ∧ s'.cpu = c₂ ∧
    log'.map Switch.view = [(pairEnabled.preempted pairTask 0x1000#64 c₁ c₂).view] := by
  obtain ⟨c', c₁, c₂, hstep, hrun⟩ := pairEnabled_switch
  obtain ⟨⟨s', log', r', hsim, hlog⟩, -⟩ := preemptedRun_refines hrun
  exact ⟨c', c₁, c₂, s', log', hstep, r', hsim.cpu, hlog⟩

end HelloOS.Sched
