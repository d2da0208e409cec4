/-
  Saving and restoring the registers on kernel entry.

  `SAVE_ALL_REGS` (`kernel/irq/irq.c`) and `system_call` (`kernel/entry.S`) push the same 17
  words, and `ret_from_intr` and `ret_system_call` pop them again: these are `saveRegs` and
  `restoreRegs`. `restoreRegs_of_saved` says that the second undoes the first: run on a
  stack that holds the words saved from a machine `d`, it brings `d`'s registers back.
  `PtRegs` is `struct pt_regs` (`include/ptrace.h`) as read from memory.
-/
import HelloOS.Lib.X86

namespace HelloOS.Entry

open HelloOS.Lib

/-! ## `struct pt_regs` -/

/-- `struct pt_regs`, in the order of the fields. -/
structure PtRegs where
  r15 : BitVec 64
  r14 : BitVec 64
  r13 : BitVec 64
  r12 : BitVec 64
  r11 : BitVec 64
  r10 : BitVec 64
  r9 : BitVec 64
  r8 : BitVec 64
  rbx : BitVec 64
  rcx : BitVec 64
  rdx : BitVec 64
  rsi : BitVec 64
  rdi : BitVec 64
  rbp : BitVec 64
  ds : BitVec 64
  es : BitVec 64
  rax : BitVec 64
  func : BitVec 64
  errcode : BitVec 64
  rip : BitVec 64
  cs : BitVec 64
  rflags : BitVec 64
  rsp : BitVec 64
  ss : BitVec 64

/-- The struct at `p`. -/
def PtRegs.read (m : Mem) (p : BitVec 64) : PtRegs where
  r15 := m.read64 p
  r14 := m.read64 (p + 8#64)
  r13 := m.read64 (p + 16#64)
  r12 := m.read64 (p + 24#64)
  r11 := m.read64 (p + 32#64)
  r10 := m.read64 (p + 40#64)
  r9 := m.read64 (p + 48#64)
  r8 := m.read64 (p + 56#64)
  rbx := m.read64 (p + 64#64)
  rcx := m.read64 (p + 72#64)
  rdx := m.read64 (p + 80#64)
  rsi := m.read64 (p + 88#64)
  rdi := m.read64 (p + 96#64)
  rbp := m.read64 (p + 104#64)
  ds := m.read64 (p + 112#64)
  es := m.read64 (p + 120#64)
  rax := m.read64 (p + 128#64)
  func := m.read64 (p + 136#64)
  errcode := m.read64 (p + 144#64)
  rip := m.read64 (p + 152#64)
  cs := m.read64 (p + 160#64)
  rflags := m.read64 (p + 168#64)
  rsp := m.read64 (p + 176#64)
  ss := m.read64 (p + 184#64)

/-- The fields as words, lowest first. -/
def PtRegs.toList (r : PtRegs) : List (BitVec 64) :=
  [r.r15, r.r14, r.r13, r.r12, r.r11, r.r10, r.r9, r.r8, r.rbx, r.rcx, r.rdx, r.rsi, r.rdi, r.rbp,
    r.ds, r.es, r.rax, r.func, r.errcode, r.rip, r.cs, r.rflags, r.rsp, r.ss]

theorem PtRegs.toList_read (m : Mem) (p : BitVec 64) :
    (PtRegs.read m p).toList = m.readWords p 24 := by
  simp only [PtRegs.toList, PtRegs.read, Mem.readWords, BitVec.add_assoc]
  rfl

theorem PtRegs.toList_injective {r s : PtRegs} (h : r.toList = s.toList) : r = s := by
  cases r
  cases s
  simp only [PtRegs.toList, List.cons.injEq] at h
  simp [h]

/-- Equal words make equal structs, at whatever addresses they lie. -/
theorem PtRegs.read_congr {m m' : Mem} {p p' : BitVec 64}
    (h : ∀ c : BitVec 64, c.toNat + 8 ≤ 192 → m.read64 (p + c) = m'.read64 (p' + c)) :
    PtRegs.read m p = PtRegs.read m' p' := by
  have h0 : m.read64 p = m'.read64 p' := by
    have := h 0#64 (by decide)
    rwa [BitVec.add_zero, BitVec.add_zero] at this
  unfold PtRegs.read
  rw [h0, h 8#64 (by decide), h 16#64 (by decide), h 24#64 (by decide), h 32#64 (by decide),
    h 40#64 (by decide), h 48#64 (by decide), h 56#64 (by decide), h 64#64 (by decide),
    h 72#64 (by decide), h 80#64 (by decide), h 88#64 (by decide), h 96#64 (by decide),
    h 104#64 (by decide), h 112#64 (by decide), h 120#64 (by decide), h 128#64 (by decide),
    h 136#64 (by decide), h 144#64 (by decide), h 152#64 (by decide), h 160#64 (by decide),
    h 168#64 (by decide), h 176#64 (by decide), h 184#64 (by decide)]

/-! ## Saving -/

/-- The registers pushed behind `rax`, `es` and `ds`, in the order of the pushes. -/
def savedRegs : List Reg :=
  [.rbp, .rdi, .rsi, .rdx, .rcx, .rbx, .r8, .r9, .r10, .r11, .r12, .r13, .r14, .r15]

/-- The common part of `SAVE_ALL_REGS` and `system_call`, from `pushq %rax` to
    `movq %rdx, %es`. -/
def saveRegs : List Instr :=
  [.pushq .rax, .movFromSeg .es .rax, .pushq .rax, .movFromSeg .ds .rax, .pushq .rax,
    .xorq .rax .rax] ++ savedRegs.map .pushq ++
  [.movImm 0x10#64 .rdx, .movToSeg .rdx .ds, .movToSeg .rdx .es]

/-- The words `saveRegs` pushes. -/
def savedWords (c : Cpu) : List (BitVec 64) :=
  [c.gpr .rax, (c.seg .es).setWidth 64, (c.seg .ds).setWidth 64] ++ savedRegs.map c.gpr

theorem savedWords_length (c : Cpu) : (savedWords c).length = 17 := rfl

theorem savedRegs_ne : ∀ q ∈ savedRegs, q ≠ .rsp ∧ q ≠ .rax := by decide

theorem mem_savedRegs {r : Reg} (hsp : r ≠ .rsp) (hax : r ≠ .rax) : r ∈ savedRegs := by
  revert hsp hax
  cases r <;> decide

variable (c : Cpu)

/-- The saved `rax` is the highest of the saved words. -/
theorem savedWords_reverse :
    (savedWords c).reverse = (savedWords c).tail.reverse ++ [c.gpr .rax] := rfl

/-- Another value in `rax` changes the word of `rax` only. -/
theorem savedWords_setReg_rax (v : BitVec 64) :
    (savedWords (c.setReg .rax v)).tail = (savedWords c).tail := by
  have hmap : savedRegs.map (c.setReg .rax v).gpr = savedRegs.map c.gpr :=
    List.map_congr_left fun q hq => Cpu.setReg_gpr_of_ne c (savedRegs_ne q hq).2 v
  unfold savedWords
  rw [hmap]
  rfl

/-- The part of `saveRegs` that goes through `rax`. -/
theorem run_saveHead :
    c.run [.pushq .rax, .movFromSeg .es .rax, .pushq .rax, .movFromSeg .ds .rax, .pushq .rax,
      .xorq .rax .rax] =
    (c.setReg .rax 0#64).pushed
      [c.gpr .rax, (c.seg .es).setWidth 64, (c.seg .ds).setWidth 64] := by
  have hne : Reg.rax ≠ .rsp := by decide
  simp only [Cpu.run_cons, Cpu.run_nil, Cpu.exec, Cpu.pushed_setReg _ hne, Cpu.pushed_pushed,
    Cpu.pushed_gpr _ hne, Cpu.pushed_seg, Cpu.setReg_gpr_self, Cpu.setReg_seg, Cpu.setReg_setReg,
    BitVec.xor_self]
  rfl

/-- The `pt_regs` with the registers of `c` and seven given upper fields. -/
def PtRegs.ofCpu (c : Cpu) (func errcode rip cs rflags rsp ss : BitVec 64) : PtRegs where
  r15 := c.gpr .r15
  r14 := c.gpr .r14
  r13 := c.gpr .r13
  r12 := c.gpr .r12
  r11 := c.gpr .r11
  r10 := c.gpr .r10
  r9 := c.gpr .r9
  r8 := c.gpr .r8
  rbx := c.gpr .rbx
  rcx := c.gpr .rcx
  rdx := c.gpr .rdx
  rsi := c.gpr .rsi
  rdi := c.gpr .rdi
  rbp := c.gpr .rbp
  ds := (c.seg .ds).setWidth 64
  es := (c.seg .es).setWidth 64
  rax := c.gpr .rax
  func := func
  errcode := errcode
  rip := rip
  cs := cs
  rflags := rflags
  rsp := rsp
  ss := ss

/-- The saved words, read upwards, are the lower fields of a `pt_regs`. -/
theorem PtRegs.read_of_saved {m : Mem} {p : BitVec 64}
    (h : m.readWords p 17 = (savedWords c).reverse) :
    PtRegs.read m p = PtRegs.ofCpu c (m.read64 (p + 136#64)) (m.read64 (p + 144#64))
      (m.read64 (p + 152#64)) (m.read64 (p + 160#64)) (m.read64 (p + 168#64))
      (m.read64 (p + 176#64)) (m.read64 (p + 184#64)) := by
  apply PtRegs.toList_injective
  rw [PtRegs.toList_read, m.readWords_append p 17 7, h]
  simp only [Mem.readWords, BitVec.add_assoc]
  rfl

/-- `saveRegs` pushes the saved words and nothing else. -/
theorem run_saveRegs :
    (c.run saveRegs).mem = c.mem.pushWords (c.gpr .rsp) (savedWords c) ∧
      (c.run saveRegs).gpr .rsp = Mem.below (c.gpr .rsp) 17 := by
  have hmap : savedRegs.map ((c.setReg .rax 0#64).pushed
      [c.gpr .rax, (c.seg .es).setWidth 64, (c.seg .ds).setWidth 64]).gpr = savedRegs.map c.gpr :=
    List.map_congr_left fun q hq => by
      rw [Cpu.pushed_gpr _ (savedRegs_ne q hq).1, Cpu.setReg_gpr_of_ne _ (savedRegs_ne q hq).2]
  unfold saveRegs
  rw [Cpu.run_append, Cpu.run_append, run_saveHead, Cpu.run_pushes _ _ (by decide), hmap,
    Cpu.pushed_pushed]
  have hsp : (c.setReg .rax 0#64).gpr .rsp = c.gpr .rsp := Cpu.setReg_gpr_of_ne c (by decide) _
  constructor
  · simp only [Cpu.run_cons, Cpu.run_nil, Cpu.exec, Cpu.setSeg_mem, Cpu.setReg_mem, Cpu.pushed_mem,
      hsp]
    rfl
  · have hne : Reg.rsp ≠ .rdx := by decide
    simp only [Cpu.run_cons, Cpu.run_nil, Cpu.exec, Cpu.setSeg_gpr, Cpu.setReg_gpr_of_ne _ hne,
      Cpu.pushed_rsp, hsp]
    rfl

/-! ## Restoring -/

/-- The common part of `ret_from_intr` and `ret_system_call`, from `popq %r15` to the last
    `popq %rax`. -/
def restoreRegs : List Instr :=
  savedRegs.reverse.map .popq ++
  [.popq .rax, .movToSeg .rax .ds, .popq .rax, .movToSeg .rax .es, .popq .rax]

/-- The part of `restoreRegs` that goes through `rax`. -/
theorem run_restoreTail :
    c.run [.popq .rax, .movToSeg .rax .ds, .popq .rax, .movToSeg .rax .es, .popq .rax] =
      (((c.setSeg .ds ((c.mem.read64 (c.gpr .rsp)).setWidth 16)).setSeg .es
        ((c.mem.read64 (c.gpr .rsp + 8#64)).setWidth 16)).setReg .rsp (c.gpr .rsp + 24#64)).setReg
          .rax (c.mem.read64 (c.gpr .rsp + 16#64)) := by
  have hne : Reg.rsp ≠ .rax := by decide
  simp only [Cpu.run_cons, Cpu.run_nil, Cpu.exec, Cpu.setReg_gpr_self, Cpu.setSeg_gpr,
    Cpu.setReg_mem, Cpu.setSeg_mem, Cpu.setSeg_setReg, Cpu.setReg_comm _ hne,
    Cpu.setReg_setReg, BitVec.add_assoc]
  rfl

/-- **Restoring undoes saving.** On a stack that holds the words saved from `d`, the
    registers of `d` come back and the words are popped. -/
theorem restoreRegs_of_saved {d : Cpu}
    (h : c.mem.readWords (c.gpr .rsp) 17 = (savedWords d).reverse) :
    (∀ r, r ≠ .rsp → (c.run restoreRegs).gpr r = d.gpr r) ∧
      (c.run restoreRegs).seg .ds = d.seg .ds ∧ (c.run restoreRegs).seg .es = d.seg .es ∧
      (c.run restoreRegs).gpr .rsp = c.gpr .rsp + 136#64 ∧ (c.run restoreRegs).mem = c.mem := by
  have hsplit : c.mem.readWords (c.gpr .rsp) 14 ++ c.mem.readWords (c.gpr .rsp + 112#64) 3 =
      savedRegs.reverse.map d.gpr ++
        [(d.seg .ds).setWidth 64, (d.seg .es).setWidth 64, d.gpr .rax] :=
    (c.mem.readWords_append (c.gpr .rsp) 14 3).symm.trans h
  obtain ⟨hregs, hrest⟩ := List.append_inj hsplit (by simp [savedRegs])
  simp only [Mem.readWords, List.cons.injEq] at hrest
  obtain ⟨hds, hes, hrax, -⟩ := hrest
  have hpops := c.run_pops savedRegs.reverse (by decide)
  rw [show savedRegs.reverse.length = 14 from rfl, hregs] at hpops
  -- `c'` is the machine behind the first 14 pops
  have hmem := Cpu.loaded_mem (c.setReg .rsp (c.gpr .rsp + 112#64)) savedRegs.reverse
    (savedRegs.reverse.map d.gpr)
  have hgpr := Cpu.loaded_map_gpr (c.setReg .rsp (c.gpr .rsp + 112#64)) d savedRegs.reverse
  unfold restoreRegs
  rw [Cpu.run_append, hpops, run_restoreTail]
  change _ = (c.setReg .rsp (c.gpr .rsp + 112#64)).mem at hmem
  generalize hc' : (c.setReg .rsp (c.gpr .rsp + BitVec.ofNat 64 (8 * 14))).loaded
    savedRegs.reverse (savedRegs.reverse.map d.gpr) = c' at *
  have hsp : c'.gpr .rsp = c.gpr .rsp + 112#64 := by
    rw [hgpr, if_neg (by decide), Cpu.setReg_gpr_self]
  rw [Cpu.setReg_mem] at hmem
  have h16 : ∀ v : BitVec 16, (v.setWidth 64).setWidth 16 = v := fun v => by simp
  have hrax' : c.mem.read64 (c.gpr .rsp + 112#64 + 16#64) = d.gpr .rax := by
    rw [← hrax, BitVec.add_assoc _ 8#64 8#64]
    rfl
  rw [hsp, hmem, hds, hes, hrax', h16, h16]
  refine ⟨fun r hr => ?_, by simp, by simp, ?_, hmem⟩
  · by_cases hax : r = .rax
    · rw [hax, Cpu.setReg_gpr_self]
    · rw [Cpu.setReg_gpr_of_ne _ hax, Cpu.setReg_gpr_of_ne _ hr]
      exact (hgpr r).trans (if_pos (List.mem_reverse.mpr (mem_savedRegs hr hax)))
  · rw [Cpu.setReg_gpr_of_ne _ (by decide), Cpu.setReg_gpr_self, BitVec.add_assoc]
    rfl

/-! ### From any `pt_regs` -/

/-- A machine with the registers of `r`. -/
def PtRegs.cpu (r : PtRegs) : Cpu where
  gpr
    | .r15 => r.r15
    | .r14 => r.r14
    | .r13 => r.r13
    | .r12 => r.r12
    | .r11 => r.r11
    | .r10 => r.r10
    | .r9 => r.r9
    | .r8 => r.r8
    | .rbx => r.rbx
    | .rcx => r.rcx
    | .rdx => r.rdx
    | .rsi => r.rsi
    | .rdi => r.rdi
    | .rbp => r.rbp
    | .rax => r.rax
    | .rsp => r.rsp
  seg
    | .ds => r.ds.setWidth 16
    | .es => r.es.setWidth 16
    | .fs => 0#16
    | .gs => 0#16
  mem := zeroCpu.mem
  df := false
  intr := false
  msr := zeroCpu.msr

/-- The lower 17 words of a `pt_regs` with two selectors are the words that `saveRegs` pushes
    on the machine with its registers. -/
theorem PtRegs.savedWords_cpu (r : PtRegs) (hds : (r.ds.setWidth 16).setWidth 64 = r.ds)
    (hes : (r.es.setWidth 16).setWidth 64 = r.es) :
    r.toList.take 17 = (savedWords r.cpu).reverse := by
  simp only [savedWords, savedRegs, PtRegs.cpu, PtRegs.toList, List.map_cons, List.map_nil, hds,
    hes]
  rfl

/-- Restoring from a `pt_regs` brings its registers back. -/
theorem restoreRegs_of_ptRegs {r : PtRegs} (h : PtRegs.read c.mem (c.gpr .rsp) = r)
    (hds : (r.ds.setWidth 16).setWidth 64 = r.ds) (hes : (r.es.setWidth 16).setWidth 64 = r.es) :
    (∀ q, q ≠ .rsp → (c.run restoreRegs).gpr q = r.cpu.gpr q) ∧
      (c.run restoreRegs).seg .ds = r.ds.setWidth 16 ∧
      (c.run restoreRegs).seg .es = r.es.setWidth 16 ∧
      (c.run restoreRegs).gpr .rsp = c.gpr .rsp + 136#64 ∧ (c.run restoreRegs).mem = c.mem := by
  apply restoreRegs_of_saved (d := r.cpu)
  rw [← r.savedWords_cpu hds hes, ← h, PtRegs.toList_read, c.mem.readWords_append _ 17 7,
    List.take_left' (Mem.readWords_length _ _ 17)]

/-- A machine with a value of its own in every register. -/
def busyCpu : Cpu :=
  { zeroCpu with
    gpr := fun
      | .rax => 1#64 | .rbx => 0x22#64
      | .rcx => 0x33#64 | .rdx => 0x44#64
      | .rsi => 0x55#64 | .rdi => 0x66#64
      | .rbp => 0x77#64 | .rsp => 0x9000#64
      | .r8 => 0x99#64 | .r9 => 0xaa#64
      | .r10 => 0xbb#64 | .r11 => 0xcc#64
      | .r12 => 0xdd#64 | .r13 => 0xee#64
      | .r14 => 0xff#64 | .r15 => 0x110#64
    seg := fun | .ds => 0x28#16 | .es => 0x30#16 | .fs => 0x38#16 | .gs => 0x40#16 }

/-- A function that has returned 7: it has left 7 in every register but `rsp`, and has stored a word
    at 0x5000. -/
def clobbered (c : Cpu) : Cpu :=
  { c with
    gpr := fun r => if r = .rsp then c.gpr .rsp + 8#64 else 7#64
    mem := c.mem.write64 0x5000#64 1#64 }

theorem clobbered_rsp (c : Cpu) : (clobbered c).gpr .rsp = c.gpr .rsp + 8#64 := rfl

theorem clobbered_rax (c : Cpu) : (clobbered c).gpr .rax = 7#64 := rfl

end HelloOS.Entry
