/-
  Interrupts, instruction by instruction.

  Here an interrupt is no single step: its stub, the function it calls and the way back to the
  `iretq` run like any other code, and between any two instructions a further interrupt may come,
  if interrupts are enabled and the last instruction is not the `sti` that has enabled them. If
  the gates are interrupt gates and nothing but the last instruction in front of the `iretq` enables
  interrupts, then none comes while another one is served (`Source.inv_run`), and what runs is a
  line with interrupts as single steps (`PreemptedRun`).
-/
import HelloOS.Lib.Interrupt
import HelloOS.Lib.Preempt
import Mathlib.Logic.Relation

namespace HelloOS.Lib

/-! ## The machine -/

def Instr.isSti : Instr → Bool
  | .sti => true
  | _ => false

/-- What an interrupt runs: `entry`, the call of a function, and `exit` in front of an `iretq`. -/
structure Stub where
  entry : List Instr
  exit : List Instr

/-- What is left of a line: instructions, the call, and the `iretq`. -/
inductive Op
  | instr (i : Instr)
  | call
  | iretq

def Stub.back (b : Stub) : List Op := b.exit.map .instr ++ [.iretq]

def Stub.ops (b : Stub) : List Op := b.entry.map .instr ++ .call :: b.back

/-- Where interrupts come from: those that may come to a core, through a gate, with a number;
    the stub of a number; and the function called, by its steps and by its return. -/
structure Source where
  comes : Core → Tss → Gate → BitVec 64 → Prop
  stub : BitVec 64 → Stub
  work : Cpu → Cpu → Prop
  ret : Cpu → Cpu → Prop

/-- An interrupt that is being served, and what is left of the line it has interrupted. -/
structure Pending where
  core : Core
  tss : Tss
  gate : Gate
  ops : List Op

/-- The machine when the interrupt's code begins. -/
def Pending.start (q : Pending) : Cpu := (q.core.deliver q.tss q.gate).cpu

/-- The machine behind the `iretq`. -/
def Pending.resume (q : Pending) (c : Cpu) : Cpu :=
  ((q.core.deliver q.tss q.gate).onCpu fun _ => c).iretq.cpu

/-- A machine that runs `ops`, with the interrupts `below` in service. In the shadow of an `sti`
    no interrupt comes. -/
structure Exec where
  cpu : Cpu
  shadow : Bool
  ops : List Op
  below : List Pending

inductive Source.Step (i : Source) : Exec → Exec → Prop
  | exec {c : Cpu} {sh : Bool} {j : Instr} {ops : List Op} {below : List Pending} :
      Step i ⟨c, sh, .instr j :: ops, below⟩ ⟨c.exec j, j.isSti && !c.intr, ops, below⟩
  | work {c c' : Cpu} {sh : Bool} {ops : List Op} {below : List Pending} (h : i.work c c') :
      Step i ⟨c, sh, .call :: ops, below⟩ ⟨c', false, .call :: ops, below⟩
  | ret {c c' : Cpu} {sh : Bool} {ops : List Op} {below : List Pending} (h : i.ret c c') :
      Step i ⟨c, sh, .call :: ops, below⟩ ⟨c', false, ops, below⟩
  | irq {c : Cpu} {ops : List Op} {q : Pending} {nr : BitVec 64} {below : List Pending}
      (h : i.comes q.core q.tss q.gate nr) (hcpu : q.core.cpu = c) (hops : q.ops = ops)
      (hintr : c.intr = true) :
      Step i ⟨c, false, ops, below⟩ ⟨q.start, false, (i.stub nr).ops, q :: below⟩
  | iretq {c : Cpu} {sh : Bool} {ops : List Op} {q : Pending} {below : List Pending} :
      Step i ⟨c, sh, .iretq :: ops, q :: below⟩ ⟨q.resume c, false, q.ops, below⟩

/-- An interrupt as a single step. -/
def Source.Atomic (i : Source) (c c' : Cpu) : Prop :=
  ∃ (q : Pending) (nr : BitVec 64) (c₁ c₂ : Cpu), q.core.cpu = c ∧ q.core.cpu.intr = true ∧
    i.comes q.core q.tss q.gate nr ∧
    Relation.ReflTransGen i.work (q.start.run (i.stub nr).entry) c₁ ∧ i.ret c₁ c₂ ∧
    c' = q.resume (c₂.run (i.stub nr).exit)

/-- Nothing enables interrupts but the instruction in front of the `iretq`. -/
structure Source.Closed (i : Source) : Prop where
  gate : ∀ {core t g nr}, i.comes core t g nr → g.attr.setWidth 4 ≠ 0xf#4
  entry : ∀ nr, ∀ j ∈ (i.stub nr).entry, j.isSti = false
  exit : ∀ nr, ∃ js, (i.stub nr).exit = js ++ [.sti] ∧ ∀ j ∈ js, j.isSti = false
  work : ∀ {c c'}, i.work c c' → c'.intr = c.intr
  ret : ∀ {c c'}, i.ret c c' → c'.intr = c.intr

/-! ## The interrupt flag -/

theorem Cpu.exec_intr (c : Cpu) {j : Instr} (h : j.isSti = false) : (c.exec j).intr = c.intr := by
  cases j with
  | sti => exact absurd h (by decide)
  | _ => rfl

variable {i : Source} {q : Pending} {nr : BitVec 64} {c c₁ c₂ : Cpu}

/-- An interrupt gate disables interrupts. -/
theorem Source.Closed.start_intr (h : i.Closed) (hcome : i.comes q.core q.tss q.gate nr) :
    q.start.intr = false := by
  have hgate : (q.gate.attr.setWidth 4 == 0xf#4) = false := beq_false_of_ne (h.gate hcome)
  change (q.core.cpu.intr && q.gate.attr.setWidth 4 == 0xf#4) = false
  rw [hgate, Bool.and_false]

/-- The last instruction of the way back is the `sti`, and none before it. -/
theorem Source.Closed.exit_sti (h : i.Closed) (nr : BitVec 64) {is js : List Instr} {j : Instr}
    (hexit : (i.stub nr).exit = is ++ j :: js) : j.isSti = true ↔ js = [] := by
  obtain ⟨ls, hls, hno⟩ := h.exit nr
  rw [hls] at hexit
  rcases List.eq_nil_or_concat js with rfl | ⟨js, k, rfl⟩
  · obtain ⟨-, hj⟩ := List.append_inj' hexit rfl
    rw [← (List.cons.inj hj).1]
    exact ⟨fun _ => rfl, fun _ => rfl⟩
  · have hmem : j ∈ ls := by
      rw [List.concat_eq_append, ← List.cons_append, ← List.append_assoc] at hexit
      rw [(List.append_inj' hexit rfl).1]
      exact List.mem_append_right _ List.mem_cons_self
    rw [hno j hmem, List.concat_eq_append]
    exact ⟨fun hf => absurd hf Bool.false_ne_true, fun hn => absurd hn (by simp)⟩

theorem Source.Closed.exit_ne (h : i.Closed) (nr : BitVec 64) : (i.stub nr).exit ≠ [] := by
  obtain ⟨ls, hls, -⟩ := h.exit nr
  rw [hls]
  exact List.append_ne_nil_of_right_ne_nil _ (List.cons_ne_nil _ _)

/-! ## One interrupt at a time -/

/-- Where the code of the interrupt `q` is. -/
inductive Source.Within (i : Source) (q : Pending) (nr : BitVec 64) : Exec → Prop
  | entry {sh : Bool} {is js : List Instr} (h : (i.stub nr).entry = is ++ js)
      (hoff : (q.start.run is).intr = false) :
      Within i q nr ⟨q.start.run is, sh, js.map .instr ++ .call :: (i.stub nr).back, [q]⟩
  | call {c : Cpu} {sh : Bool}
      (h : Relation.ReflTransGen i.work (q.start.run (i.stub nr).entry) c)
      (hoff : c.intr = false) : Within i q nr ⟨c, sh, .call :: (i.stub nr).back, [q]⟩
  | exit {c₁ c₂ : Cpu} {sh : Bool} {is js : List Instr}
      (hwork : Relation.ReflTransGen i.work (q.start.run (i.stub nr).entry) c₁)
      (hret : i.ret c₁ c₂) (h : (i.stub nr).exit = is ++ js)
      (hoff : js ≠ [] → (c₂.run is).intr = false) (hshadow : js = [] → sh = true) :
      Within i q nr ⟨c₂.run is, sh, js.map .instr ++ [.iretq], [q]⟩

theorem Source.Within.below {s : Exec} (h : i.Within q nr s) : s.below = [q] := by
  cases h <;> rfl

/-- No interrupt can come. -/
theorem Source.Within.blocked {s : Exec} (h : i.Within q nr s) :
    s.cpu.intr = false ∨ s.shadow = true := by
  cases h with
  | entry _ hoff => exact Or.inl hoff
  | call _ hoff => exact Or.inl hoff
  | @exit _ _ _ _ js _ _ _ hoff hshadow =>
    by_cases hjs : js = []
    · exact Or.inr (hshadow hjs)
    · exact Or.inl (hoff hjs)

/-- The function is about to return. -/
theorem Source.Closed.within_ret (h : i.Closed)
    (hwork : Relation.ReflTransGen i.work (q.start.run (i.stub nr).entry) c₁) (hret : i.ret c₁ c₂)
    (hoff : c₁.intr = false) : i.Within q nr ⟨c₂, false, (i.stub nr).back, [q]⟩ := by
  have hstart : i.Within q nr
      ⟨c₂.run [], false, (i.stub nr).exit.map .instr ++ [.iretq], [q]⟩ :=
    .exit hwork hret rfl (fun _ => (h.ret hret).trans hoff) fun hnil => absurd hnil (h.exit_ne nr)
  exact hstart

theorem Source.Closed.within_irq (h : i.Closed) (hcome : i.comes q.core q.tss q.gate nr) :
    i.Within q nr ⟨q.start, false, (i.stub nr).ops, [q]⟩ := by
  have hstart : i.Within q nr
      ⟨q.start.run [], false, (i.stub nr).entry.map .instr ++ .call :: (i.stub nr).back, [q]⟩ :=
    .entry rfl (h.start_intr hcome)
  exact hstart

/-- A step of the interrupt's code: it goes on, or it is the `iretq`. -/
theorem Source.Within.step (hi : i.Closed) {s s' : Exec} (h : i.Within q nr s)
    (hstep : i.Step s s') : i.Within q nr s' ∨
      ∃ c₁ c₂, Relation.ReflTransGen i.work (q.start.run (i.stub nr).entry) c₁ ∧ i.ret c₁ c₂ ∧
        s' = ⟨q.resume (c₂.run (i.stub nr).exit), false, q.ops, []⟩ := by
  have hblocked := h.blocked
  cases h with
  | @entry sh is js hentry hoff =>
    cases js with
    | nil =>
      rw [List.append_nil] at hentry
      rw [← hentry] at hstep hoff
      cases hstep with
      | work hw => exact Or.inl (.call (.single hw) ((hi.work hw).trans hoff))
      | ret hr => exact Or.inl (hi.within_ret .refl hr hoff)
      | irq _ _ _ hintr => exact absurd (hoff.symm.trans hintr) Bool.false_ne_true
    | cons j js =>
      cases hstep with
      | exec =>
        have hj : j.isSti = false := hi.entry nr j (by rw [hentry]; simp)
        have hrun : (q.start.run is).exec j = q.start.run (is ++ [j]) :=
          (q.start.run_append is [j]).symm
        rw [hrun]
        refine Or.inl (.entry (by rw [hentry, List.append_assoc]; rfl) ?_)
        rw [← hrun, Cpu.exec_intr _ hj, hoff]
      | irq _ _ _ hintr => exact absurd (hoff.symm.trans hintr) Bool.false_ne_true
  | @call c sh hwork hoff =>
    cases hstep with
    | work hw => exact Or.inl (.call (hwork.tail hw) ((hi.work hw).trans hoff))
    | ret hr => exact Or.inl (hi.within_ret hwork hr hoff)
    | irq _ _ _ hintr => exact absurd (hoff.symm.trans hintr) Bool.false_ne_true
  | @exit c₁ c₂ sh is js hwork hret hexit hoff hshadow =>
    cases js with
    | nil =>
      rw [List.append_nil] at hexit
      cases hstep with
      | irq _ _ _ hintr => exact absurd (hshadow rfl) Bool.false_ne_true
      | iretq => exact Or.inr ⟨c₁, c₂, hwork, hret, by rw [hexit]⟩
    | cons j js =>
      have hoff' := hoff (List.cons_ne_nil j js)
      cases hstep with
      | exec =>
        have hsti := hi.exit_sti nr hexit
        have hrun : (c₂.run is).exec j = c₂.run (is ++ [j]) := (c₂.run_append is [j]).symm
        rw [hrun]
        refine Or.inl (.exit hwork hret (by rw [hexit, List.append_assoc]; rfl)
          (fun hjs => ?_) fun hjs => ?_)
        · rw [← hrun, Cpu.exec_intr _ (Bool.eq_false_iff.mpr (mt hsti.mp hjs)), hoff']
        · rw [hsti.mpr hjs, hoff']
          rfl
      | irq _ _ _ hintr => exact absurd (hoff'.symm.trans hintr) Bool.false_ne_true

/-! ## Runs -/

variable {p : Preemption} {is : List Instr}

/-- Of the line `is`, `done` has run with interrupts as single steps; perhaps one is in service. -/
def Source.Inv (i : Source) (p : Preemption) (c : Cpu) (is : List Instr) (s : Exec) : Prop :=
  ∃ done rest, is = done ++ rest ∧
    ((s.below = [] ∧ s.ops = rest.map .instr ∧ PreemptedRun p c done s.cpu) ∨
      ∃ q nr, q.ops = rest.map .instr ∧ PreemptedRun p c done q.core.cpu ∧
        q.core.cpu.intr = true ∧ i.comes q.core q.tss q.gate nr ∧ i.Within q nr s)

theorem Source.Inv.step (hi : i.Closed) (hp : ∀ c c', i.Atomic c c' → p.step c c') {s s' : Exec}
    (h : i.Inv p c is s) (hstep : i.Step s s') : i.Inv p c is s' := by
  obtain ⟨done, rest, rfl, ⟨hbelow, hops, hrun⟩ | ⟨q, nr, hops, hrun, hintr, hcome, hin⟩⟩ := h
  · cases hstep with
    | @exec c' sh j ops below =>
      cases rest with
      | nil => exact nomatch hops
      | cons k rest =>
        rw [List.map_cons, List.cons.injEq, Op.instr.injEq] at hops
        obtain ⟨rfl, rfl⟩ := hops
        exact ⟨done ++ [j], rest, by simp, Or.inl ⟨hbelow, rfl, hrun.trans (.exec (.done _))⟩⟩
    | work _ => cases rest <;> exact nomatch hops
    | ret _ => cases rest <;> exact nomatch hops
    | @irq c' ops q nr below hcome hcpu hline hintr =>
      change below = [] at hbelow
      subst hbelow hcpu
      exact ⟨done, rest, rfl, Or.inr ⟨q, nr, hline.trans hops, hrun, hintr, hcome,
        hi.within_irq hcome⟩⟩
    | iretq => exact nomatch hbelow
  · rcases hin.step hi hstep with hin' | ⟨c₁, c₂, hwork, hret, rfl⟩
    · exact ⟨done, rest, rfl, Or.inr ⟨q, nr, hops, hrun, hintr, hcome, hin'⟩⟩
    · refine ⟨done, rest, rfl, Or.inl ⟨rfl, hops, ?_⟩⟩
      exact hrun.interrupted (hp _ _ ⟨q, nr, c₁, c₂, rfl, hintr, hcome, hwork, hret, rfl⟩)

theorem Source.inv_run (hi : i.Closed) (hp : ∀ c c', i.Atomic c c' → p.step c c') {sh : Bool}
    {s : Exec} (h : Relation.ReflTransGen i.Step ⟨c, sh, is.map .instr, []⟩ s) :
    i.Inv p c is s := by
  induction h with
  | refl => exact ⟨[], is, rfl, Or.inl ⟨rfl, rfl, .done c⟩⟩
  | tail _ hstep ih => exact ih.step hi hp hstep

/-- A line without interrupts. -/
theorem Source.run_ops (i : Source) (is : List Instr) (c : Cpu) (sh : Bool) (ops : List Op)
    (below : List Pending) : ∃ sh', Relation.ReflTransGen i.Step
      ⟨c, sh, is.map .instr ++ ops, below⟩ ⟨c.run is, sh', ops, below⟩ := by
  induction is generalizing c sh with
  | nil => exact ⟨sh, .refl⟩
  | cons j is ih =>
    obtain ⟨sh', hrest⟩ := ih (c.exec j) (j.isSti && !c.intr)
    exact ⟨sh', .head .exec hrest⟩

end HelloOS.Lib
