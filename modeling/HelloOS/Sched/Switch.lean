/-
  `switch_to` (`include/task.h`), `__switch_to` and the CPU set-up of `task_init`
  (`kernel/sched/task.c`), and `set_tss64` (`include/gate.h`).

  The assembly of `switch_to` is a line of instructions up to its `jmp`, and two pops at its
  label. `__switch_to` is C between the two: what its source stores is `switchStores`, and
  `SwitchTo` is what a call of it does to the machine, with the compiled code's use of the
  stack and of the scratch registers, and the memory its `kinfo` calls write, left open.

  `switchEnter_spec` runs the line up to the `jmp`; `switchStores_agreeOn` is the frame of
  the stores.
-/
import HelloOS.Lib.X86
import HelloOS.Sched.Stacks

namespace HelloOS.Sched

open HelloOS.Lib HelloOS.Mm

/-! ## `set_tss64` -/

/-- `*(unsigned long *)(table + i) = v` for each `(i, v)` in turn, on a table of 4-byte
    words. -/
def storeLongs (m : Mem) (table : U64) : List (U64 × U64) → Mem
  | [] => m
  | (i, v) :: ws => storeLongs (m.write64 (table + 4#64 * i) v) table ws

/-- `set_tss64`, on the `TSS64_Table` at `table`. -/
def setTss64 (m : Mem) (table rsp0 rsp1 rsp2 ist1 ist2 ist3 ist4 ist5 ist6 ist7 : U64) : Mem :=
  storeLongs m table [(1#64, rsp0), (3#64, rsp1), (5#64, rsp2), (9#64, ist1), (11#64, ist2),
    (13#64, ist3), (15#64, ist4), (17#64, ist5), (19#64, ist6), (21#64, ist7)]

/-- `&((struct tss_struct *)0)->rsp0`; the struct is packed. -/
def offTssRsp0 : U64 := 4#64

/-- `set_tss64(init_tss[0].rsp0, …, init_tss[0].ist7)`, with `init_tss` at `tss`. -/
def setInitTss (m : Mem) (tss table : U64) : Mem :=
  setTss64 m table (m.read64 (tss + offTssRsp0)) (m.read64 (tss + 12#64)) (m.read64 (tss + 20#64))
    (m.read64 (tss + 36#64)) (m.read64 (tss + 44#64)) (m.read64 (tss + 52#64))
    (m.read64 (tss + 60#64)) (m.read64 (tss + 68#64)) (m.read64 (tss + 76#64))
    (m.read64 (tss + 84#64))

/-- Words 1 and 2 of `TSS64_Table`: the stack pointer the CPU loads on an interrupt from user
    mode. -/
def tssRsp0 (m : Mem) (table : U64) : U64 := m.read64 (table + 4#64 * 1#64)

theorem storeLongs_agreeOn {s : Set U64} (m : Mem) (table : U64) (lo hi : Nat)
    (ws : List (U64 × U64))
    (h : ∀ w ∈ ws, lo ≤ (4#64 * w.1).toNat ∧ (4#64 * w.1).toNat + 8 ≤ hi)
    (hd : ∀ c : U64, lo ≤ c.toNat → c.toNat + 8 ≤ hi → Disjoint (Region (table + c) 8) s) :
    Mem.AgreeOn s (storeLongs m table ws) m := by
  induction ws generalizing m with
  | nil => exact Mem.AgreeOn.refl m s
  | cons w ws ih =>
      obtain ⟨hlo, hhi⟩ := h w List.mem_cons_self
      exact (ih _ fun w hw => h w (List.mem_cons_of_mem _ hw)).trans
        (m.agreeOn_write64 _ w.2 (hd _ hlo hhi))

/-- `set_tss64` writes to the table only. -/
theorem setInitTss_agreeOn {s : Set U64} (m : Mem) (tss table : U64)
    (hd : Disjoint (Region table 104) s) : Mem.AgreeOn s (setInitTss m tss table) m :=
  storeLongs_agreeOn m table 0 104 _ (by simp)
    fun _ _ hc => hd.mono_left (region_subset table hc)

/-- `set_tss64` puts its first argument into words 1 and 2. -/
theorem tssRsp0_setInitTss (m : Mem) (tss table : U64) :
    tssRsp0 (setInitTss m tss table) table = m.read64 (tss + offTssRsp0) := by
  unfold setInitTss setTss64 tssRsp0
  rw [storeLongs, (storeLongs_agreeOn (s := Region (table + 4#64 * 1#64) 8) _ table 12 104
    _ (by simp) fun c hc hn => ?_).read64, Mem.read64_write64_self]
  exact (disjoint_offsets table (c := 4#64 * 1#64) (le_trans (by decide) hc) (by omega)).symm

/-! ## `task_init` -/

/-- `wrmsr(address, value)`, which takes the value in `edx:eax`. -/
def wrmsr (c : Cpu) (address value : U64) : Cpu :=
  let edx : BitVec 32 := (value >>> 32).setWidth 32
  let eax : BitVec 32 := (value &&& 0xffffffff#64).setWidth 32
  { c with msr := Function.update c.msr (address.setWidth 32) (edx ++ eax) }

theorem wrmsr_self (c : Cpu) (address value : U64) :
    (wrmsr c address value).msr (address.setWidth 32) = value := by
  have hlow : (value &&& 0xffffffff#64).setWidth 32 = value.setWidth 32 := by
    rw [BitVec.setWidth_and]
    exact BitVec.and_allOnes
  have h : (value >>> 32).setWidth 32 ++ (value &&& 0xffffffff#64).setWidth 32 = value := by
    rw [hlow]
    apply BitVec.eq_of_getLsbD_eq
    intro i hi
    rw [BitVec.getLsbD_append, BitVec.getLsbD_setWidth, BitVec.getLsbD_setWidth,
      BitVec.getLsbD_ushiftRight]
    split
    · next h32 => simp [h32]
    · next h32 => simp [show i - 32 < 32 by omega, show 32 + (i - 32) = i by omega]
  unfold wrmsr
  dsimp only
  rw [Function.update_self]
  exact h

theorem wrmsr_of_ne (c : Cpu) (address value : U64) {a : BitVec 32} (h : a ≠ address.setWidth 32) :
    (wrmsr c address value).msr a = c.msr a := Function.update_of_ne h _ _

/-- `KERNEL_CS`. -/
def kernelCs : U64 := 0x08#64

/-- The register `SYSENTER` loads `rsp` from. -/
def sysenterEsp : BitVec 32 := 0x175#32

/-- `t->thread`. -/
def threadOf (m : Mem) (t : U64) : U64 := m.read64 (t + offThread)

/-- `t->thread->f`, for the field `f` at offset `off`. -/
def threadField (m : Mem) (t off : U64) : U64 := m.read64 (threadOf m t + off)

/-- The part of `task_init` that sets up the CPU: three `wrmsr`, `set_tss64` and
    `init_tss[0].rsp0 = init_thread.rsp0`. -/
def taskInit (L : Places) (c : Cpu) (systemCall : U64) : Cpu :=
  let c := wrmsr c 0x174#64 kernelCs
  let c := wrmsr c 0x175#64 (threadField c.mem (getCurrent (c.gpr .rsp)) offRsp0)
  let c := wrmsr c 0x176#64 systemCall
  let m := setInitTss c.mem L.initTss L.tssTable
  c.setMem (m.write64 (L.initTss + offTssRsp0) (m.read64 (L.thread L.init + offRsp0)))

/-! ## `switch_to` -/

/-- The assembly up to its `jmp`. The addresses of the memory operands are the compiler's:
    they are known before the first instruction runs. -/
def switchAsm (m : Mem) (prev next label : U64) : List Instr :=
  [.pushq .rbp, .pushq .rax, .store .rsp (threadOf m prev + offRsp),
    .load (threadOf m next + offRsp) .rsp, .leaq label .rax,
    .store .rax (threadOf m prev + offRip), .pushMem (threadOf m next + offRip)]

/-- The machine at the first instruction of `__switch_to(prev, next)`. -/
def switchEnter (c : Cpu) (prev next label : U64) : Cpu :=
  ((c.setReg .rdi prev).setReg .rsi next).run (switchAsm c.mem prev next label)

/-- The assembly at its label `1`. -/
def label1 : List Instr := [.popq .rax, .popq .rbp]

/-- The callee-saved registers that the assembly does not push. It declares none of them
    clobbered. -/
def unsaved : List Reg := [.rbx, .r12, .r13, .r14, .r15]

/-- Memory once the assembly has saved the stack pointer of `prev`: behind `rbp` and `rax`. -/
def parkStack (c : Cpu) (prev : U64) : Mem :=
  (c.mem.pushWords (c.gpr .rsp) [c.gpr .rbp, c.gpr .rax]).write64
    (threadOf c.mem prev + offRsp) (Mem.below (c.gpr .rsp) 2)

/-- Memory once `prev` is saved. -/
def parkMem (c : Cpu) (prev label : U64) : Mem :=
  (parkStack c prev).write64 (threadOf c.mem prev + offRip) label

/-- The stack pointer that the assembly finds for `next`. -/
def nextRsp (c : Cpu) (prev next : U64) : U64 :=
  (parkStack c prev).read64 (threadOf c.mem next + offRsp)

/-- The line up to the `jmp`. -/
theorem switchEnter_spec (c : Cpu) (prev next label : U64) :
    let c' := switchEnter c prev next label
    c'.mem = (parkMem c prev label).pushWords (nextRsp c prev next)
        [(parkMem c prev label).read64 (threadOf c.mem next + offRip)] ∧
      c'.gpr .rsp = Mem.below (nextRsp c prev next) 1 ∧
      (∀ r, r ∉ [Reg.rax, .rdi, .rsi, .rsp] → c'.gpr r = c.gpr r) ∧
      c'.seg = c.seg ∧ c'.msr = c.msr := by
  unfold switchEnter switchAsm
  simp only [Cpu.run_cons, Cpu.run_nil, Cpu.exec, Cpu.pushed_pushed]
  have hsp : (((c.setReg .rdi prev).setReg .rsi next).gpr .rsp) = c.gpr .rsp := by simp
  have hbp : (((c.setReg .rdi prev).setReg .rsi next).gpr .rbp) = c.gpr .rbp := by simp
  have hax : (((c.setReg .rdi prev).setReg .rsi next).gpr .rax) = c.gpr .rax := by simp
  have hother : ∀ r, r ∉ [Reg.rax, .rdi, .rsi, .rsp] →
      ((c.setReg .rdi prev).setReg .rsi next).gpr r = c.gpr r := fun r hr => by
    simp only [List.mem_cons, List.not_mem_nil, or_false, not_or] at hr
    rw [Cpu.setReg_gpr_of_ne _ hr.2.2.1, Cpu.setReg_gpr_of_ne _ hr.2.1]
  have hmem : ((c.setReg .rdi prev).setReg .rsi next).mem = c.mem := rfl
  have hseg : ((c.setReg .rdi prev).setReg .rsi next).seg = c.seg := rfl
  have hmsr : ((c.setReg .rdi prev).setReg .rsi next).msr = c.msr := rfl
  generalize (c.setReg .rdi prev).setReg .rsi next = d at *
  refine ⟨?_, ?_, fun r hr => ?_, hseg, hmsr⟩
  · simp [parkMem, parkStack, nextRsp, hsp, hbp, hax, hmem]
  · simp [parkStack, nextRsp, hsp, hbp, hax, hmem]
  · rw [← hother r hr]
    simp only [List.mem_cons, List.not_mem_nil, or_false, not_or] at hr
    simp [hr]

/-! ## `__switch_to` -/

/-- What `__switch_to(prev, next)` stores, with `fs` and `gs` the selectors at its start. -/
def switchStores (L : Places) (m : Mem) (fs gs : BitVec 16) (prev next : U64) : Mem :=
  let m := m.write64 (L.initTss + offTssRsp0) (threadField m next offRsp0)
  let m := setInitTss m L.initTss L.tssTable
  let m := m.write64 (threadOf m prev + offFs) (fs.setWidth 64)
  m.write64 (threadOf m prev + offGs) (gs.setWidth 64)

/-- The registers a C function leaves as they were, apart from `rsp`. -/
def calleeSaved : List Reg := [.rbx, .rbp, .r12, .r13, .r14, .r15]

/-- A call of `__switch_to(prev, next)` takes `c` to `c'`. Its stack is that of `next`: what
    lies below the return address is its own, and it leaves the other pieces of the tasks
    `live` alone except for its stores. -/
structure SwitchTo (L : Layout) (live : Set U64) (prev next : U64) (c c' : Cpu) : Prop where
  pieces : ∀ p, p.Of live → p ≠ .stack next → Mem.AgreeOn (L.region p) c'.mem
    (switchStores L.toPlaces c.mem (c.seg .fs) (c.seg .gs) prev next)
  above : Mem.AgreeOn (L.above next (c.gpr .rsp)) c'.mem
    (switchStores L.toPlaces c.mem (c.seg .fs) (c.seg .gs) prev next)
  fs : c'.seg .fs = (threadField c'.mem next offFs).setWidth 16
  gs : c'.seg .gs = (threadField c'.mem next offGs).setWidth 16
  rsp : c'.gpr .rsp = c.gpr .rsp + 8#64
  saved : ∀ r ∈ calleeSaved, c'.gpr r = c.gpr r
  msr : c'.msr = c.msr

/-- The least that a call of `__switch_to` does. -/
def switchToMin (L : Places) (prev next : U64) (c : Cpu) : Cpu :=
  let m := switchStores L c.mem (c.seg .fs) (c.seg .gs) prev next
  (((c.setMem m).setSeg .fs ((threadField m next offFs).setWidth 16)).setSeg .gs
    ((threadField m next offGs).setWidth 16)).setReg .rsp (c.gpr .rsp + 8#64)

theorem switchTo_min (L : Layout) (live : Set U64) (prev next : U64) (c : Cpu) :
    SwitchTo L live prev next c (switchToMin L.toPlaces prev next c) where
  pieces _ _ _ := Mem.AgreeOn.refl _ _
  above := Mem.AgreeOn.refl _ _
  fs := by
    unfold switchToMin
    dsimp only
    rw [Cpu.setReg_seg, Cpu.setSeg_seg_of_ne _ (by decide), Cpu.setSeg_seg_self]
    rfl
  gs := by
    unfold switchToMin
    dsimp only
    rw [Cpu.setReg_seg, Cpu.setSeg_seg_self]
    rfl
  rsp := Cpu.setReg_gpr_self _ _ _
  saved r hr := Cpu.setReg_gpr_of_ne _ (fun h => by subst h; revert hr; decide) _
  msr := rfl

end HelloOS.Sched
