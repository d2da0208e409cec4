/-
  The `sysenter` path: `system_call` and `ret_system_call` (`kernel/entry.S`) around
  `system_call_function` (`kernel/syscall/syscall.c`).

  `sysenter` enters with the kernel stack pointer loaded and every other register the user's.
  `system_call` leaves seven words for the upper fields of a `pt_regs`, saves the registers
  below them and calls `system_call_function` with the struct's address, which looks the
  handler up by the saved `rax`. `ret_system_call` stores the returned value over the saved
  `rax`, restores all registers and leaves by `sysexit`, to `rdx` on the stack `rcx`.
-/
import HelloOS.Entry.Regs

namespace HelloOS.Entry

open HelloOS.Lib

/-! ## `system_call_function` -/

/-- A handler: from the address of the `pt_regs` and the memory to the value it returns and
    the memory it leaves. -/
abbrev SystemCall := BitVec 64 → Mem → BitVec 64 × Mem

/-- `MAX_SYSTEM_CALL_NR`. -/
def maxSystemCallNr : Nat := 128

/-- `system_call_function(regs)` on a table of `MAX_SYSTEM_CALL_NR` handlers. An index behind
    the table calls whatever word lies there: `none`. -/
def systemCallFunction (table : Fin maxSystemCallNr → SystemCall) (regs : BitVec 64) (m : Mem) :
    Option (BitVec 64 × Mem) :=
  let rax := (PtRegs.read m regs).rax.toNat
  if h : rax < maxSystemCallNr then some (table ⟨rax, h⟩ regs m) else none

/-! ## Entry and exit -/

/-- `system_call`, up to its `callq system_call_function`; `ret` is the address behind it. -/
def systemCall (ret : BitVec 64) : List Instr :=
  [.sti, .subImm 0x38#64 .rsp, .cld] ++ saveRegs ++ [.movq .rsp .rdi, .pushImm ret]

/-- `ret_system_call`, up to its `sysexit`. -/
def retSystemCall : List Instr :=
  [.storeAt .rax 0x80#64 .rsp] ++ restoreRegs ++ [.addImm 0x38#64 .rsp]

/-- Where `sysexit` with a 64-bit operand goes: the user's `rip` and `rsp`. -/
def sysexit (c : Cpu) : BitVec 64 × BitVec 64 := (c.gpr .rdx, c.gpr .rcx)

variable (c : Cpu) (ret : BitVec 64)

/-- The machine at the entry of `system_call_function`. -/
theorem run_systemCall :
    (c.run (systemCall ret)).mem =
        c.mem.pushWords (c.gpr .rsp - 0x38#64) (savedWords c ++ [ret]) ∧
      (c.run (systemCall ret)).gpr .rsp = Mem.below (c.gpr .rsp - 0x38#64) 18 ∧
      (c.run (systemCall ret)).gpr .rdi = Mem.below (c.gpr .rsp - 0x38#64) 17 := by
  have hhead : c.run [.sti, .subImm 0x38#64 .rsp, .cld] =
      { c.setReg .rsp (c.gpr .rsp - 0x38#64) with intr := true, df := false } := rfl
  have hwords : savedWords { c.setReg .rsp (c.gpr .rsp - 0x38#64) with intr := true, df := false } =
      savedWords c := rfl
  obtain ⟨hmem, hsp⟩ :=
    run_saveRegs { c.setReg .rsp (c.gpr .rsp - 0x38#64) with intr := true, df := false }
  rw [hwords] at hmem
  change _ = c.mem.pushWords ((c.setReg .rsp (c.gpr .rsp - 0x38#64)).gpr .rsp) _ at hmem
  change _ = Mem.below ((c.setReg .rsp (c.gpr .rsp - 0x38#64)).gpr .rsp) 17 at hsp
  rw [Cpu.setReg_gpr_self] at hmem hsp
  unfold systemCall
  rw [Cpu.run_append, Cpu.run_append, hhead]
  generalize Cpu.run _ saveRegs = c' at hmem hsp
  have htail : c'.run [.movq .rsp .rdi, .pushImm ret] =
      (c'.setReg .rdi (c'.gpr .rsp)).pushed [ret] := rfl
  rw [htail, Cpu.pushed_mem, Cpu.pushed_rsp, Cpu.pushed_gpr _ (by decide), Cpu.setReg_mem,
    Cpu.setReg_gpr_of_ne _ (by decide), Cpu.setReg_gpr_self, hsp, Mem.below_below, hmem,
    Mem.pushWords_append _ _ (savedWords c) [ret], savedWords_length]
  exact ⟨rfl, rfl, rfl⟩

/-- What `system_call_function` finds on the stack. -/
theorem systemCall_stack :
    let c' := c.run (systemCall ret)
    c'.mem.read64 (c'.gpr .rsp) = ret ∧
      c'.mem.readWords (c'.gpr .rdi) 17 = (savedWords c).reverse := by
  intro c'
  obtain ⟨hmem, hsp, hdi⟩ := run_systemCall c ret
  have h := c.mem.pushWords_concat (c.gpr .rsp - 0x38#64) (savedWords c) ret
    (by rw [savedWords_length]; decide)
  rw [savedWords_length, ← hmem] at h
  rw [hsp, hdi]
  exact h

/-- `ret_system_call` brings back the registers of `d`, with the returned value in `rax`. -/
theorem run_retSystemCall {d : Cpu}
    (h : c.mem.readWords (c.gpr .rsp) 17 = (savedWords d).reverse) :
    (∀ r, r ≠ .rax → r ≠ .rsp → (c.run retSystemCall).gpr r = d.gpr r) ∧
      (c.run retSystemCall).gpr .rax = c.gpr .rax ∧
      (c.run retSystemCall).seg .ds = d.seg .ds ∧ (c.run retSystemCall).seg .es = d.seg .es ∧
      (c.run retSystemCall).gpr .rsp = c.gpr .rsp + 192#64 := by
  -- the stored value replaces the last word, the saved `rax`
  let m' := c.mem.write64 (c.gpr .rsp + 0x80#64) (c.gpr .rax)
  have hwords : m'.readWords (c.gpr .rsp) 17 =
      (savedWords (d.setReg .rax (c.gpr .rax))).reverse := by
    have hlow : m'.readWords (c.gpr .rsp) 16 = c.mem.readWords (c.gpr .rsp) 16 :=
      (c.mem.agreeOn_write64 _ _ (disjoint_offset _ (by decide) (by decide)).symm).readWords
    rw [c.mem.readWords_append (c.gpr .rsp) 16 1, savedWords_reverse] at h
    have hold := (List.append_inj h (by simp [savedWords_length])).1
    rw [m'.readWords_append (c.gpr .rsp) 16 1, hlow, hold, savedWords_reverse,
      savedWords_setReg_rax, Cpu.setReg_gpr_self]
    exact congrArg _ (congrArg (· :: []) (c.mem.read64_write64_self _ _))
  obtain ⟨hgpr, hds, hes, hsp, -⟩ := restoreRegs_of_saved (c.setMem m') hwords
  unfold retSystemCall
  rw [Cpu.run_append, Cpu.run_append]
  change (∀ r, _ → _ → (((c.setMem m').run restoreRegs).run _).gpr r = _) ∧ 
    (((c.setMem m').run restoreRegs).run _).gpr .rax = _ ∧
    (((c.setMem m').run restoreRegs).run _).seg .ds = _ ∧
    (((c.setMem m').run restoreRegs).run _).seg .es = _ ∧
    (((c.setMem m').run restoreRegs).run _).gpr .rsp = _
  generalize (c.setMem m').run restoreRegs = e at hgpr hds hes hsp
  simp only [Cpu.run_cons, Cpu.run_nil, Cpu.exec]
  refine ⟨fun r hax hr => ?_, ?_, hds, hes, ?_⟩
  · rw [Cpu.setReg_gpr_of_ne _ hr, hgpr r hr, Cpu.setReg_gpr_of_ne _ hax]
  · rw [Cpu.setReg_gpr_of_ne _ (by decide), hgpr .rax (by decide), Cpu.setReg_gpr_self]
  · rw [Cpu.setReg_gpr_self, hsp, Cpu.setMem_gpr, BitVec.add_assoc]
    rfl

/-- `ret_system_call` writes the returned value over the saved `rax`, and nothing else. -/
theorem run_retSystemCall_mem (c : Cpu) : (c.run retSystemCall).mem =
    c.mem.write64 (c.gpr .rsp + 0x80#64) (c.gpr .rax) := rfl

/-- Whatever machine `c₂` a handler returns with: if it has left the `pt_regs` alone and the
    stack balanced, the user gets its own registers back, and the returned value in `rax`. -/
theorem retSystemCall_restores {c₂ : Cpu}
    (hkeep : Mem.AgreeOn (Region ((c.run (systemCall ret)).gpr .rdi) 192) c₂.mem
      (c.run (systemCall ret)).mem)
    (hbal : c₂.gpr .rsp = (c.run (systemCall ret)).gpr .rsp + 8#64) :
    let c₃ := c₂.run retSystemCall
    c₃.gpr .rax = c₂.gpr .rax ∧ (∀ r, r ≠ .rax → r ≠ .rsp → c₃.gpr r = c.gpr r) ∧
      c₃.seg .ds = c.seg .ds ∧ c₃.seg .es = c.seg .es ∧ c₃.gpr .rsp = c.gpr .rsp ∧
      sysexit c₃ = (c.gpr .rdx, c.gpr .rcx) := by
  obtain ⟨-, hsp, hdi⟩ := run_systemCall c ret
  obtain ⟨-, hwords⟩ := systemCall_stack c ret
  have hsp₂ : c₂.gpr .rsp = (c.run (systemCall ret)).gpr .rdi := by
    rw [hbal, hsp, Mem.below_add_word]
    exact hdi.symm
  have hsaved : c₂.mem.readWords (c₂.gpr .rsp) 17 = (savedWords c).reverse := by
    rw [hsp₂, (hkeep.mono (region_mono _ (by decide))).readWords]
    exact hwords
  obtain ⟨hgpr, hax, hds, hes, hsp₃⟩ := run_retSystemCall c₂ hsaved
  have hend : c₂.gpr .rsp + 192#64 = c.gpr .rsp := by
    rw [hsp₂, hdi]
    unfold Mem.below
    bv_omega
  refine ⟨hax, hgpr, hds, hes, hsp₃.trans hend, ?_⟩
  unfold sysexit
  rw [hgpr .rdx (by decide) (by decide), hgpr .rcx (by decide) (by decide)]

/-- **System call round trip.** For every machine `c` at `sysenter` with a system call number
    in the table, `system_call_function` gets the address of a `pt_regs` with the user's
    registers and calls the handler of that number. Whatever machine `c₂` it returns with, if
    the handler leaves the `pt_regs` unmodified, the returned value is in `rax` and the stack
    is balanced, `ret_system_call` reaches `sysexit` with that value in `rax`, all other
    registers restored and the kernel stack pointer back at its value at entry. -/
theorem systemCall_roundTrip (table : Fin maxSystemCallNr → SystemCall) (c c₂ : Cpu)
    (ret : BitVec 64) (hrax : (c.gpr .rax).toNat < maxSystemCallNr) :
    let c₁ := c.run (systemCall ret)
    let regs := c₁.gpr .rdi
    let handler := table ⟨(c.gpr .rax).toNat, hrax⟩ regs c₁.mem
    ((∃ func errcode rip cs rflags rsp ss,
        PtRegs.read c₁.mem regs = PtRegs.ofCpu c func errcode rip cs rflags rsp ss) ∧
      c₁.mem.read64 (c₁.gpr .rsp) = ret ∧
      systemCallFunction table regs c₁.mem = some handler) ∧
    (Mem.AgreeOn (Region regs 192) handler.2 c₁.mem →
      c₂.mem = handler.2 → c₂.gpr .rax = handler.1 → c₂.gpr .rsp = c₁.gpr .rsp + 8#64 →
      let c₃ := c₂.run retSystemCall
      c₃.gpr .rax = handler.1 ∧ (∀ r, r ≠ .rax → r ≠ .rsp → c₃.gpr r = c.gpr r) ∧
        c₃.seg .ds = c.seg .ds ∧ c₃.seg .es = c.seg .es ∧ c₃.gpr .rsp = c.gpr .rsp ∧
        sysexit c₃ = (c.gpr .rdx, c.gpr .rcx)) := by
  intro c₁ regs handler
  obtain ⟨hret, hwords⟩ := systemCall_stack c ret
  have hread := PtRegs.read_of_saved c hwords
  have hcall : systemCallFunction table regs c₁.mem = some handler := by
    have hnum : (PtRegs.read c₁.mem regs).rax = c.gpr .rax := by
      rw [hread]
      rfl
    unfold systemCallFunction
    simp only [hnum, dif_pos hrax]
    rfl
  refine ⟨⟨⟨_, _, _, _, _, _, _, hread⟩, hret, hcall⟩, ?_⟩
  intro hkeep hmem hax hbal
  obtain ⟨hax₃, hrest⟩ := retSystemCall_restores c ret (hmem ▸ hkeep) hbal
  exact ⟨hax₃.trans hax, hrest⟩

/-- A call of number 1, to a handler that stores a word and leaves 7 in all registers. -/
theorem systemCall_roundTrip_busy :
    let c₃ := (clobbered (busyCpu.run (systemCall 0x1000#64))).run retSystemCall
    c₃.gpr .rax = 7#64 ∧ (∀ r, r ≠ .rax → c₃.gpr r = busyCpu.gpr r) ∧
      sysexit c₃ = (busyCpu.gpr .rdx, busyCpu.gpr .rcx) := by
  intro c₃
  let c₁ := busyCpu.run (systemCall 0x1000#64)
  have hrax : (busyCpu.gpr .rax).toNat < maxSystemCallNr := by decide
  obtain ⟨-, h⟩ := systemCall_roundTrip (fun _ _ m => (7#64, m.write64 0x5000#64 1#64)) busyCpu
    (clobbered c₁) 0x1000#64 hrax
  have hframe : c₁.gpr .rdi = Mem.below (0x9000#64 - 0x38#64) 17 :=
    (run_systemCall busyCpu 0x1000#64).2.2
  have hkeep : Mem.AgreeOn (Region (c₁.gpr .rdi) 192) (clobbered c₁).mem c₁.mem := by
    rw [hframe]
    exact c₁.mem.agreeOn_write64 _ _ (disjoint_of_le (by decide) (by decide))
  obtain ⟨hax, hgpr, -, -, hrsp, hexit⟩ := h hkeep rfl (clobbered_rax c₁) (clobbered_rsp c₁)
  refine ⟨hax, fun r hr => ?_, hexit⟩
  by_cases hsp : r = .rsp
  · rw [hsp]
    exact hrsp
  · exact hgpr r hr hsp

end HelloOS.Entry
