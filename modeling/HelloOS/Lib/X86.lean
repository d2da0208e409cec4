/-
  The part of x86-64 that kernel entry code is written in: 16 general registers, segment
  registers, byte memory, the direction and interrupt flags and the model-specific
  registers. `exec` runs one instruction, `run` a straight line of them; jumps, calls and
  returns are left to the code that strings the lines together. The arithmetic flags are not
  modelled: none of the instructions reads them.

  Blocks of pushes and pops are what such code consists of. `run_pushes` says that a block
  of pushes is one `pushed`, `run_pops` that a block of pops loads consecutive words, so
  that a block is reasoned about as a list and never instruction by instruction.
-/
import HelloOS.Lib.Memory
import Mathlib.Logic.Function.Basic

namespace HelloOS.Lib

/-- The general registers. -/
inductive Reg
  | rax | rbx | rcx | rdx | rsi | rdi | rbp | rsp
  | r8 | r9 | r10 | r11 | r12 | r13 | r14 | r15
  deriving DecidableEq

/-- The segment registers that code loads itself. -/
inductive Seg
  | ds | es | fs | gs
  deriving DecidableEq

structure Cpu where
  gpr : Reg → BitVec 64
  seg : Seg → BitVec 16
  mem : Mem
  df : Bool
  intr : Bool
  msr : BitVec 32 → BitVec 64

/-- A machine with all registers and all memory zero. -/
def zeroCpu : Cpu := ⟨fun _ => 0#64, fun _ => 0#16, fun _ => 0#8, false, false, fun _ => 0#64⟩

/-- Instructions; operands in the order of the AT&T syntax, source first. -/
inductive Instr
  | pushq (r : Reg)
  | pushImm (v : BitVec 64)
  | pushMem (a : BitVec 64)
  | popq (r : Reg)
  | movImm (v : BitVec 64) (r : Reg)
  | movq (src dst : Reg)
  | movFromSeg (s : Seg) (r : Reg)
  | movToSeg (r : Reg) (s : Seg)
  | load (a : BitVec 64) (r : Reg)
  | store (r : Reg) (a : BitVec 64)
  | storeAt (r : Reg) (off : BitVec 64) (base : Reg)
  | leaq (label : BitVec 64) (r : Reg)
  | addImm (v : BitVec 64) (r : Reg)
  | subImm (v : BitVec 64) (r : Reg)
  | xorq (src dst : Reg)
  | cld
  | sti

namespace Cpu

variable (c : Cpu)

/-- `c` with register `r` holding `v`. -/
def setReg (r : Reg) (v : BitVec 64) : Cpu := { c with gpr := Function.update c.gpr r v }

/-- `c` with segment register `s` holding `v`. -/
def setSeg (s : Seg) (v : BitVec 16) : Cpu := { c with seg := Function.update c.seg s v }

def setMem (m : Mem) : Cpu := { c with mem := m }

/-- `c` with the words `vs` pushed. -/
def pushed (vs : List (BitVec 64)) : Cpu :=
  (c.setMem (c.mem.pushWords (c.gpr .rsp) vs)).setReg .rsp (Mem.below (c.gpr .rsp) vs.length)

/-- One instruction. A selector is the low 16 bits of the register it is loaded from, and
    reads back zero-extended. -/
def exec (c : Cpu) : Instr → Cpu
  | .pushq r => c.pushed [c.gpr r]
  | .pushImm v => c.pushed [v]
  | .pushMem a => c.pushed [c.mem.read64 a]
  | .popq r => (c.setReg .rsp (c.gpr .rsp + 8#64)).setReg r (c.mem.read64 (c.gpr .rsp))
  | .movImm v r => c.setReg r v
  | .movq src dst => c.setReg dst (c.gpr src)
  | .movFromSeg s r => c.setReg r ((c.seg s).setWidth 64)
  | .movToSeg r s => c.setSeg s ((c.gpr r).setWidth 16)
  | .load a r => c.setReg r (c.mem.read64 a)
  | .store r a => c.setMem (c.mem.write64 a (c.gpr r))
  | .storeAt r off base => c.setMem (c.mem.write64 (c.gpr base + off) (c.gpr r))
  | .leaq label r => c.setReg r label
  | .addImm v r => c.setReg r (c.gpr r + v)
  | .subImm v r => c.setReg r (c.gpr r - v)
  | .xorq src dst => c.setReg dst (c.gpr dst ^^^ c.gpr src)
  | .cld => { c with df := false }
  | .sti => { c with intr := true }

/-- A straight line of instructions. -/
def run (c : Cpu) (is : List Instr) : Cpu := is.foldl exec c

@[simp] theorem run_nil : c.run [] = c := rfl

@[simp] theorem run_cons (i : Instr) (is : List Instr) : c.run (i :: is) = (c.exec i).run is := rfl

theorem run_append (is js : List Instr) : c.run (is ++ js) = (c.run is).run js :=
  List.foldl_append

/-! ## Registers -/

theorem setReg_gpr (r : Reg) (v : BitVec 64) (q : Reg) :
    (c.setReg r v).gpr q = if q = r then v else c.gpr q := by
  unfold setReg
  by_cases h : q = r
  · subst h; simp
  · simp [h]

@[simp] theorem setReg_gpr_self (r : Reg) (v : BitVec 64) : (c.setReg r v).gpr r = v := by
  simp [setReg_gpr]

@[simp] theorem setReg_gpr_of_ne {r q : Reg} (h : q ≠ r) (v : BitVec 64) :
    (c.setReg r v).gpr q = c.gpr q := by
  simp [setReg_gpr, h]

@[simp] theorem setReg_seg (r : Reg) (v : BitVec 64) : (c.setReg r v).seg = c.seg := rfl

@[simp] theorem setReg_mem (r : Reg) (v : BitVec 64) : (c.setReg r v).mem = c.mem := rfl

@[simp] theorem setReg_msr (r : Reg) (v : BitVec 64) : (c.setReg r v).msr = c.msr := rfl

@[simp] theorem setSeg_gpr (s : Seg) (v : BitVec 16) : (c.setSeg s v).gpr = c.gpr := rfl

@[simp] theorem setSeg_mem (s : Seg) (v : BitVec 16) : (c.setSeg s v).mem = c.mem := rfl

@[simp] theorem setSeg_msr (s : Seg) (v : BitVec 16) : (c.setSeg s v).msr = c.msr := rfl

@[simp] theorem setSeg_seg_self (s : Seg) (v : BitVec 16) : (c.setSeg s v).seg s = v := by
  simp [setSeg]

@[simp] theorem setSeg_seg_of_ne {s t : Seg} (h : t ≠ s) (v : BitVec 16) :
    (c.setSeg s v).seg t = c.seg t := by
  simp [setSeg, h]

@[simp] theorem setMem_gpr (m : Mem) : (c.setMem m).gpr = c.gpr := rfl

@[simp] theorem setMem_seg (m : Mem) : (c.setMem m).seg = c.seg := rfl

@[simp] theorem setMem_mem (m : Mem) : (c.setMem m).mem = m := rfl

@[simp] theorem setMem_msr (m : Mem) : (c.setMem m).msr = c.msr := rfl

/-! ## Pushes -/

@[simp] theorem pushed_mem (vs : List (BitVec 64)) :
    (c.pushed vs).mem = c.mem.pushWords (c.gpr .rsp) vs := rfl

@[simp] theorem pushed_rsp (vs : List (BitVec 64)) :
    (c.pushed vs).gpr .rsp = Mem.below (c.gpr .rsp) vs.length := by simp [pushed]

@[simp] theorem pushed_gpr {r : Reg} (h : r ≠ .rsp) (vs : List (BitVec 64)) :
    (c.pushed vs).gpr r = c.gpr r := by simp [pushed, h]

@[simp] theorem pushed_seg (vs : List (BitVec 64)) : (c.pushed vs).seg = c.seg := rfl

@[simp] theorem pushed_msr (vs : List (BitVec 64)) : (c.pushed vs).msr = c.msr := rfl

/-- Pushes add up. -/
theorem pushed_pushed (vs ws : List (BitVec 64)) :
    (c.pushed vs).pushed ws = c.pushed (vs ++ ws) := by
  have hm : (c.pushed vs).mem.pushWords ((c.pushed vs).gpr .rsp) ws =
      c.mem.pushWords (c.gpr .rsp) (vs ++ ws) := by
    rw [pushed_mem, pushed_rsp, Mem.pushWords_append]
  have hsp : Mem.below ((c.pushed vs).gpr .rsp) ws.length =
      Mem.below (c.gpr .rsp) (vs ++ ws).length := by
    rw [pushed_rsp, Mem.below_below, List.length_append]
  rw [pushed, hm, hsp, pushed, pushed, setReg, setReg, setReg]
  simp [setMem]

theorem setReg_comm {r q : Reg} (h : r ≠ q) (v w : BitVec 64) :
    (c.setReg r v).setReg q w = (c.setReg q w).setReg r v := by
  simp only [setReg, Function.update_comm h]

theorem setSeg_setReg (s : Seg) (v : BitVec 16) (r : Reg) (w : BitVec 64) :
    (c.setSeg s v).setReg r w = (c.setReg r w).setSeg s v := rfl

@[simp] theorem setReg_setReg (r : Reg) (v w : BitVec 64) :
    (c.setReg r v).setReg r w = c.setReg r w := by
  simp [setReg]

/-- A register other than `rsp` may be set before the pushes instead of behind them. -/
theorem pushed_setReg {r : Reg} (h : r ≠ .rsp) (v : BitVec 64) (vs : List (BitVec 64)) :
    (c.pushed vs).setReg r v = (c.setReg r v).pushed vs := by
  have hsp : (c.setReg r v).gpr .rsp = c.gpr .rsp :=
    setReg_gpr_of_ne c h.symm v
  rw [pushed, setReg_comm _ h.symm, pushed, hsp]
  rfl

/-- A block of pushes. -/
theorem run_pushes (rs : List Reg) (h : .rsp ∉ rs) :
    c.run (rs.map .pushq) = c.pushed (rs.map c.gpr) := by
  induction rs generalizing c with
  | nil =>
      rw [List.map_nil, List.map_nil, run_nil, pushed, List.length_nil,
        show Mem.below (c.gpr .rsp) 0 = c.gpr .rsp from BitVec.sub_zero _]
      simp [setReg, setMem, Mem.pushWords]
  | cons r rs ih =>
      obtain ⟨hr, hrs⟩ := not_or.mp (mt List.mem_cons.mpr h)
      have hmap : rs.map (c.pushed [c.gpr r]).gpr = rs.map c.gpr :=
        List.map_congr_left fun q hq => pushed_gpr c (fun h => hrs (h ▸ hq)) _
      rw [List.map_cons, run_cons, exec, ih _ hrs, hmap, pushed_pushed]
      rfl

/-! ## Pops -/

/-- `c` with the registers `rs` loaded from the words `vs`, in order. -/
def loaded (c : Cpu) : List Reg → List (BitVec 64) → Cpu
  | r :: rs, v :: vs => (c.setReg r v).loaded rs vs
  | _, _ => c

/-- Loading registers from the values they have in `d`. -/
theorem loaded_map_gpr (d : Cpu) (rs : List Reg) (q : Reg) :
    (c.loaded rs (rs.map d.gpr)).gpr q = if q ∈ rs then d.gpr q else c.gpr q := by
  induction rs generalizing c with
  | nil => simp [loaded]
  | cons r rs ih =>
      rw [List.map_cons, loaded, ih]
      by_cases h : q = r
      · subst h; simp
      · by_cases hq : q ∈ rs <;> simp [h, hq]

theorem loaded_mem (rs : List Reg) (vs : List (BitVec 64)) : (c.loaded rs vs).mem = c.mem := by
  induction rs generalizing c vs with
  | nil => simp [loaded]
  | cons r rs ih =>
      cases vs with
      | nil => simp [loaded]
      | cons v vs => simpa [loaded] using ih (c.setReg r v) vs

/-- A block of pops loads the words at the stack pointer. -/
theorem run_pops (rs : List Reg) (h : .rsp ∉ rs) :
    c.run (rs.map .popq) =
      (c.setReg .rsp (c.gpr .rsp + BitVec.ofNat 64 (8 * rs.length))).loaded rs
        (c.mem.readWords (c.gpr .rsp) rs.length) := by
  induction rs generalizing c with
  | nil => simp [loaded, setReg]
  | cons r rs ih =>
      obtain ⟨hr, hrs⟩ := not_or.mp (mt List.mem_cons.mpr h)
      have hsp : ((c.setReg .rsp (c.gpr .rsp + 8#64)).setReg r
          (c.mem.read64 (c.gpr .rsp))).gpr .rsp = c.gpr .rsp + 8#64 := by
        rw [setReg_gpr_of_ne _ hr, setReg_gpr_self]
      have hadd : c.gpr .rsp + 8#64 + BitVec.ofNat 64 (8 * rs.length) =
          c.gpr .rsp + BitVec.ofNat 64 (8 * (r :: rs).length) := by
        rw [List.length_cons, Nat.mul_succ, BitVec.ofNat_add]
        ring
      rw [List.map_cons, run_cons, exec, ih _ hrs, hsp, hadd, setReg_comm _ hr, setReg_setReg,
        setReg_comm _ (Ne.symm hr)]
      rfl

end Cpu

end HelloOS.Lib
