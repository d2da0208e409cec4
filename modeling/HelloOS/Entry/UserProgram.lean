/-
  User programs and their system calls (`kernel/entry.S`, `kernel/syscall/syscall.c`).

  A user program knows `sysenter` as one instruction: the number in `rax`, a pointer in `rdi`,
  where to go on in `rdx` and `rcx`, and the result in `rax`. `AtomicCall` is that instruction.
  Below it lie `system_call`, the function from the table, `ret_system_call` and `sysexit`, with
  interrupts between any two instructions (`Gateway.Serves`).

  The program cannot tell the two apart, whatever it does between its calls: it finds the same
  registers and memory, but for memory that is the kernel's own, and prints the same
  (`userProgram_refines`).
-/
import HelloOS.Entry.Dispatch
import HelloOS.Entry.Preempted
import HelloOS.Lib.Session
import HelloOS.Printk.Shown
import HelloOS.Printk.Verbatim

namespace HelloOS.Entry

open HelloOS.Lib HelloOS.Printk HelloOS.Printk.Format

/-! ## The handlers -/

/-- What `no_system_call(regs)` prints. -/
def noSystemCallPrints (nr : BitVec 64) : List Call :=
  (kinfo "no_system_call is calling, NR:%#04x\n" [nr]).map Print.call

/-- What a handler passes to `print` and what its formatting stores; `none` where that has no
    meaning in the source. -/
def Handler.prints (va : VaList) (regs : PtRegs) : Handler → Option (List Call × List Format.Store)
  | .noSystemCall => some (noSystemCallPrints regs.rax, [])
  | .sysPrintf => (Format.sysPrintf va regs).map fun p => ([⟨p.color, p.text⟩], p.stores)

/-! ## The path -/

/-- The kernel behind `sysenter`: `top` is what the register 0x175 holds, and `ret` the address
    behind the call of `system_call_function`. The table is none of the memory that the path or an
    interrupt writes. -/
structure Gateway where
  image : Image
  ret : BitVec 64
  stack : KernelStack
  top : BitVec 64
  room : 416 ≤ (top - stack.low).toNat
  top_le : (top - stack.low).toNat ≤ stack.len
  apart : Disjoint (Region image.table 1024) (stack.dead top)

/-- A program in user mode. -/
structure User where
  cpu : Cpu
  rip : BitVec 64

/-- Behind `sysexit`. -/
def User.ofSysexit (c : Cpu) : User := ⟨c.setReg .rsp (sysexit c).2, (sysexit c).1⟩

namespace Gateway

variable (k : Gateway)

/-- The memory that is the kernel's own: the stack below `top` and what the handlers write. -/
def own : Set (BitVec 64) := k.stack.dead k.top

/-- `sysenter`, up to the first instruction of `system_call`. -/
def sysenter (u : User) : Cpu := { u.cpu.setReg .rsp k.top with intr := false }

/-- What the handler `f`, called with the machine `c₁`, comes back with: its value, a balanced
    stack and the saved registers as they were. It writes memory of the kernel, and what its
    formatting stores. -/
structure Returns (f : Handler) (stores : List Format.Store) (c₁ c₂ : Cpu) : Prop where
  rax : c₂.gpr .rax = f.value
  balanced : c₂.gpr .rsp = c₁.gpr .rsp + 8#64
  frame : Mem.AgreeOn (Region (c₁.gpr .rdi) 136) c₂.mem c₁.mem
  fs : c₂.seg .fs = c₁.seg .fs
  gs : c₂.seg .gs = c₁.seg .gs
  writes : Mem.AgreeOn (k.own ∪ {x | ∃ s ∈ stores, x ∈ Region s.addr s.size})ᶜ c₂.mem c₁.mem

/-- A system call. It is lost if the address called is none of the table's functions, or if what
    the function prints has no meaning. While it formats, memory is that of the call but for the
    kernel's own. -/
inductive Serves (u : User) : Option (User × List Call) → Prop
  | back {c₁ c₂ c₃ : Cpu} {f : Handler} {va : VaList} {out : List Call} {stores : List Format.Store}
      (entry : PreemptedRun k.stack.interrupts (k.sysenter u) (systemCall k.ret) c₁)
      (target : systemCallTarget k.image c₁.mem (c₁.gpr .rdi) = k.image.addr f)
      (mem : Mem.AgreeOn k.ownᶜ va.mem c₁.mem)
      (prints : f.prints va (PtRegs.read c₁.mem (c₁.gpr .rdi)) = some (out, stores))
      (returns : k.Returns f stores c₁ c₂)
      (exit : PreemptedRun k.stack.interrupts c₂ retSystemCall c₃) :
      Serves u (some (.ofSysexit c₃, out))
  | wild {c₁ : Cpu}
      (entry : PreemptedRun k.stack.interrupts (k.sysenter u) (systemCall k.ret) c₁)
      (target : ∀ f, systemCallTarget k.image c₁.mem (c₁.gpr .rdi) ≠ k.image.addr f) : Serves u none
  | overrun {c₁ : Cpu} {f : Handler} {va : VaList}
      (entry : PreemptedRun k.stack.interrupts (k.sysenter u) (systemCall k.ret) c₁)
      (target : systemCallTarget k.image c₁.mem (c₁.gpr .rdi) = k.image.addr f)
      (mem : Mem.AgreeOn k.ownᶜ va.mem c₁.mem)
      (prints : f.prints va (PtRegs.read c₁.mem (c₁.gpr .rdi)) = none) : Serves u none

end Gateway

/-! ## The instruction -/

/-- The user behind a call that is answered with `v`. -/
def User.answered (u : User) (v : BitVec 64) : User :=
  ⟨(u.cpu.setReg .rax v).setReg .rsp (u.cpu.gpr .rcx), u.cpu.gpr .rdx⟩

/-- A system call as one instruction, for a kernel whose own memory is `own`. The number counts
    modulo 2^61. Number 1 prints a string of the user's that has no directives and fits `buf`; any
    other below 128 prints itself and is answered with -1. -/
inductive AtomicCall (own : Set (BitVec 64)) (u : User) : Option (User × List Call) → Prop
  | printf {s : List Byte} (nr : (u.cpu.gpr .rax).toNat % 2 ^ 61 = 1)
      (string : CString u.cpu.mem (u.cpu.gpr .rdi) s) (plain : Plain s) (short : s.length < bufSize)
      (apart : Disjoint (Region (u.cpu.gpr .rdi) (s.length + 1)) own) :
      AtomicCall own u (some (u.answered 0#64, [⟨wordWhite, s⟩]))
  | undefined (nr : (u.cpu.gpr .rax).toNat % 2 ^ 61 < maxSystemCallNr)
      (other : (u.cpu.gpr .rax).toNat % 2 ^ 61 ≠ 1) :
      AtomicCall own u (some (u.answered (-1#64), noSystemCallPrints (u.cpu.gpr .rax)))

/-- The same to a program that keeps off the memory `own`. -/
structure SameUser (own : Set (BitVec 64)) (u v : User) : Prop where
  cpu : SameBut own u.cpu v.cpu
  rip : v.rip = u.rip

/-- A program that keeps off the kernel's own memory, does not look at the flags behind a call and
    does not write to the table. -/
structure Gateway.Tame (k : Gateway) (p : Client User) : Prop where
  step : ∀ u v v', SameUser k.own u v → p.step v v' → ∃ u', p.step u u' ∧ SameUser k.own u' v'
  calls : ∀ u v, SameUser k.own u v → p.calls v → p.calls u
  table : ∀ u u', p.step u u' → Mem.AgreeOn (Region k.image.table 1024) u'.cpu.mem u.cpu.mem

/-! ## One call -/

theorem SameUser.symm {own : Set (BitVec 64)} {u v : User} (h : SameUser own u v) :
    SameUser own v u :=
  ⟨⟨h.cpu.gpr.symm, h.cpu.seg.symm, fun x hx => (h.cpu.mem x hx).symm⟩, h.rip.symm⟩

theorem Image.Loaded.agreeOn {k : Image} {m m' : Mem} (h : k.Loaded m)
    (hm : Mem.AgreeOn (Region k.table 1024) m' m) : k.Loaded m' := by
  intro i
  have hentry : Region (k.table + BitVec.ofNat 64 (8 * i)) 8 ⊆ Region k.table 1024 := by
    have := toNat_ofNat_le (8 * i)
    have := i.isLt
    unfold maxSystemCallNr at this
    exact region_subset _ (by omega)
  rw [(hm.mono hentry).read64]
  exact h i

theorem Image.addr_injective (k : Image) {f g : Handler} (h : k.addr f = k.addr g) : f = g := by
  cases f with
  | noSystemCall =>
      cases g with
      | noSystemCall => rfl
      | sysPrintf => exact absurd h k.addr_ne
  | sysPrintf =>
      cases g with
      | noSystemCall => exact absurd h.symm k.addr_ne
      | sysPrintf => rfl

/-- A string that memory has in one place has it there in another memory with the same bytes. -/
theorem cstring_agreeOn {m m' : Mem} {p : BitVec 64} {s : List Byte} (h : CString m p s)
    (hm : Mem.AgreeOn (Region p (s.length + 1)) m' m) : CString m' p s :=
  ⟨(Mem.AgreeOn.readBytes hm).trans h.bytes, h.nul⟩

theorem kprintf_color {va : VaList} {fmt : List Byte} {p : Printed}
    (h : Format.kprintf va fmt = some p) : p.color = wordWhite := by
  obtain ⟨s, -, hs⟩ := Option.bind_eq_some_iff.mp h
  split at hs
  · rw [← Option.some.inj hs]
    rfl
  · exact absurd hs (Option.some_ne_none p).symm

/-- `sys_printf` on a plain string that fits. -/
theorem prints_sysPrintf {va : VaList} {regs : PtRegs} {s : List Byte}
    (h : CString va.mem regs.rdi s) (hplain : Plain s) (hshort : s.length < bufSize) :
    Handler.prints va regs .sysPrintf = some ([⟨wordWhite, s⟩], []) := by
  obtain ⟨p, hp, htext, -, hstores⟩ := (kprintf_verbatim_iff va h.nul).mpr ⟨hplain, hshort⟩
  have hcall : Format.sysPrintf va regs = some p := by
    rw [Format.sysPrintf, stringAt_eq h h.length_lt, hp]
  unfold Handler.prints
  dsimp only
  rw [hcall, Option.map_some, kprintf_color hp, htext, hstores]

/-- What an atomic call asks of the kernel: the function of the table, its value, and what it
    prints wherever the user's registers and memory are those of the call. -/
theorem AtomicCall.handler {own : Set (BitVec 64)} {a b : User} {put : List Call}
    (h : AtomicCall own a (some (b, put))) : ∃ i : Fin maxSystemCallNr,
      (a.cpu.gpr .rax).toNat % 2 ^ 61 = i ∧ b = a.answered (systemCallTable i).value ∧
      ∀ (va : VaList) (regs : PtRegs), regs.rax = a.cpu.gpr .rax → regs.rdi = a.cpu.gpr .rdi →
        Mem.AgreeOn ownᶜ va.mem a.cpu.mem →
          (systemCallTable i).prints va regs = some (put, []) := by
  cases h with
  | printf nr string plain short apart =>
      refine ⟨⟨1, by decide⟩, nr, rfl, fun va regs _ hdi hmem => ?_⟩
      have hstring := cstring_agreeOn string
        (hmem.mono (Set.subset_compl_iff_disjoint_right.mpr apart))
      exact prints_sysPrintf (hdi ▸ hstring) plain short
  | undefined nr other =>
      have hno : systemCallTable ⟨_, nr⟩ = .noSystemCall := if_neg other
      refine ⟨⟨_, nr⟩, rfl, ?_, fun va regs hax _ _ => ?_⟩
      · rw [hno]
        rfl
      · rw [hno, ← hax]
        rfl

namespace Gateway

variable {k : Gateway} {a b u : User} {c₁ c₂ c₃ : Cpu} {f : Handler} {put : List Call}

theorem sysenter_rsp : (k.sysenter u).gpr .rsp = k.top := u.cpu.setReg_gpr_self .rsp k.top

theorem sysenter_gpr {r : Reg} (hr : r ≠ .rsp) : (k.sysenter u).gpr r = u.cpu.gpr r :=
  u.cpu.setReg_gpr_of_ne hr k.top

theorem sysenter_ok (u : User) (n : ℕ) (hn : n ≤ 25) :
    k.stack.Ok (Mem.below ((k.sysenter u).gpr .rsp) n) := by
  rw [sysenter_rsp]
  exact k.stack.ok_below k.room k.top_le hn

/-- The words below `top` that an interrupt leaves room for are the kernel's own. -/
theorem words_subset {n j : ℕ} (hn : 8 * n ≤ 416) (hj : j ≤ 8 * n) :
    Region (Mem.below k.top n) j ⊆ k.own := by
  intro x hx
  have hroom := k.room
  have hoff : (BitVec.ofNat 64 (8 * n)).toNat = 8 * n := toNat_ofNat_eq (by omega)
  refine Or.inr ?_
  rw [mem_region] at hx ⊢
  unfold Mem.below at hx
  bv_omega

theorem table_outside : Region k.image.table 1024 ⊆ k.ownᶜ :=
  Set.subset_compl_iff_disjoint_right.mpr k.apart

section Entered

variable (h : k.stack.Entered k.ret (k.sysenter u) c₁)
include h

theorem entered_mem : Mem.AgreeOn k.ownᶜ c₁.mem u.cpu.mem := by
  have hwords : Region (Mem.below ((k.sysenter u).gpr .rsp - 0x38#64) 18) 144 ⊆ k.own := by
    rw [sysenter_rsp]
    exact (Mem.below_below k.top 7 18) ▸ words_subset (by decide) (by decide)
  have hplain := systemCall_frame (k.sysenter u) k.ret
    (Set.disjoint_compl_right_iff_subset.mpr hwords)
  have hsame := h.same.mem
  rw [sysenter_rsp] at hsame
  exact hsame.trans hplain

theorem entered_seg : c₁.seg .fs = u.cpu.seg .fs ∧ c₁.seg .gs = u.cpu.seg .gs := by
  rw [h.same.seg]
  exact ⟨rfl, rfl⟩

theorem entered_regs : (PtRegs.read c₁.mem (c₁.gpr .rdi)).rax = u.cpu.gpr .rax ∧
    (PtRegs.read c₁.mem (c₁.gpr .rdi)).rdi = u.cpu.gpr .rdi := by
  rw [PtRegs.read_of_saved _ h.saved]
  have hax : (k.sysenter u).gpr .rax = u.cpu.gpr .rax := sysenter_gpr (by decide)
  have hdi : (k.sysenter u).gpr .rdi = u.cpu.gpr .rdi := sysenter_gpr (by decide)
  exact ⟨hax, hdi⟩

theorem entered_target (hl : k.image.Loaded u.cpu.mem) {i : Fin maxSystemCallNr}
    (hi : (u.cpu.gpr .rax).toNat % 2 ^ 61 = i) :
    systemCallTarget k.image c₁.mem (c₁.gpr .rdi) = k.image.addr (systemCallTable i) := by
  have htable := hl.agreeOn ((entered_mem h).mono table_outside)
  unfold systemCallTarget
  rw [(entered_regs h).1, index_mod, hi]
  exact htable i

/-- A handler that has stored nothing while it formatted takes the user to where the instruction
    does. -/
theorem answered_same (hu : SameUser k.own a u) (hr : k.Returns f [] c₁ c₂)
    (hexit : PreemptedRun k.stack.interrupts c₂ retSystemCall c₃) :
    SameUser k.own (a.answered f.value) (.ofSysexit c₃) := by
  have hleft := k.stack.left (sysenter_ok u) h hr.frame hr.balanced hexit
  have hgpr : ∀ r, r ≠ .rax → r ≠ .rsp → c₃.gpr r = a.cpu.gpr r := fun r h1 h2 => by
    rw [hleft.gpr r h1 h2, sysenter_gpr h2, hu.cpu.gpr]
  obtain ⟨hfs, hgs⟩ := entered_seg h
  have hseg := congrFun hleft.same.seg
  refine ⟨⟨?_, ?_, ?_⟩, hgpr .rdx (by decide) (by decide)⟩
  · change Function.update c₃.gpr .rsp (c₃.gpr .rcx) =
      Function.update (Function.update a.cpu.gpr .rax f.value) .rsp (a.cpu.gpr .rcx)
    rw [hgpr .rcx (by decide) (by decide)]
    funext r
    by_cases h1 : r = .rsp
    · rw [h1, Function.update_self, Function.update_self]
    · rw [Function.update_of_ne h1, Function.update_of_ne h1]
      by_cases h2 : r = .rax
      · rw [h2, Function.update_self, hleft.rax, hr.rax]
      · rw [Function.update_of_ne h2, hgpr r h2 h1]
  · change c₃.seg = a.cpu.seg
    rw [← hu.cpu.seg]
    funext s
    cases s with
    | ds => exact hleft.ds
    | es => exact hleft.es
    | fs => exact (hseg .fs).trans (hr.fs.trans hfs)
    | gs => exact (hseg .gs).trans (hr.gs.trans hgs)
  · change Mem.AgreeOn k.ownᶜ c₃.mem a.cpu.mem
    have hrax : Region (c₂.gpr .rsp + 0x80#64) 8 ⊆ k.own := by
      rw [hr.balanced, h.rsp, sysenter_rsp, show Mem.below k.top 25 + 8#64 + 0x80#64 =
        Mem.below k.top 8 by unfold Mem.below; bv_omega]
      exact words_subset (by decide) (by decide)
    have hplain : Mem.AgreeOn k.ownᶜ (c₂.run retSystemCall).mem c₂.mem := by
      rw [run_retSystemCall_mem]
      exact Mem.agreeOn_write64 _ _ _ (Set.disjoint_compl_right_iff_subset.mpr hrax)
    have hwrites : Mem.AgreeOn k.ownᶜ c₂.mem c₁.mem := hr.writes.mono fun x hx hin =>
      hin.elim hx fun ⟨_, hs, _⟩ => absurd hs List.not_mem_nil
    have hsame := hleft.same.mem
    rw [sysenter_rsp] at hsame
    exact (hsame.trans hplain).trans (hwrites.trans ((entered_mem h).trans hu.cpu.mem))

end Entered

variable (hu : SameUser k.own a u) (hl : k.image.Loaded a.cpu.mem)
  (ha : AtomicCall k.own a (some (b, put)))
include hu hl ha

/-- A call that the instruction allows comes back, as from the instruction. -/
theorem Serves.of_atomic {r : Option (User × List Call)} (h : k.Serves u r) :
    ∃ u', r = some (u', put) ∧ SameUser k.own b u' := by
  obtain ⟨i, hi, rfl, hprints⟩ := ha.handler
  have hlu : k.image.Loaded u.cpu.mem := hl.agreeOn (hu.cpu.mem.mono table_outside)
  have hax := congrFun hu.cpu.gpr .rax
  have hdi := congrFun hu.cpu.gpr .rdi
  rw [← hax] at hi
  -- at the function's entry everything that matters is the user's
  have hcall : ∀ {c₁} (va : VaList),
      PreemptedRun k.stack.interrupts (k.sysenter u) (systemCall k.ret) c₁ →
      Mem.AgreeOn k.ownᶜ va.mem c₁.mem → k.stack.Entered k.ret (k.sysenter u) c₁ ∧
      systemCallTarget k.image c₁.mem (c₁.gpr .rdi) = k.image.addr (systemCallTable i) ∧
      (systemCallTable i).prints va (PtRegs.read c₁.mem (c₁.gpr .rdi)) = some (put, []) := by
    intro c₁ va hentry hmem
    have hin := k.stack.entered (sysenter_ok u) hentry
    obtain ⟨hrax, hrdi⟩ := entered_regs hin
    exact ⟨hin, entered_target hin hlu hi, hprints va _ (hrax.trans hax) (hrdi.trans hdi)
      (hmem.trans ((entered_mem hin).trans hu.cpu.mem))⟩
  cases h with
  | back entry target mem prints returns exit =>
      obtain ⟨hin, htarget, hout⟩ := hcall _ entry mem
      obtain rfl := k.image.addr_injective (target.symm.trans htarget)
      obtain ⟨rfl, rfl⟩ := Prod.mk.inj (Option.some.inj (prints.symm.trans hout))
      exact ⟨_, rfl, answered_same hin hu returns exit⟩
  | @wild c₁ entry target =>
      obtain ⟨-, htarget, -⟩ := hcall ⟨fun _ => 0#64, c₁.mem⟩ entry (Mem.AgreeOn.refl _ _)
      exact absurd htarget (target _)
  | overrun entry target mem prints =>
      obtain ⟨-, htarget, hout⟩ := hcall _ entry mem
      obtain rfl := k.image.addr_injective (target.symm.trans htarget)
      exact absurd (prints.symm.trans hout) (Option.some_ne_none _).symm

/-- There is such a call. -/
theorem exists_serves : ∃ u', k.Serves u (some (u', put)) := by
  obtain ⟨i, hi, -, hprints⟩ := ha.handler
  have hlu : k.image.Loaded u.cpu.mem := hl.agreeOn (hu.cpu.mem.mono table_outside)
  have hax := congrFun hu.cpu.gpr .rax
  have hdi := congrFun hu.cpu.gpr .rdi
  rw [← hax] at hi
  let c₁ := (k.sysenter u).run (systemCall k.ret)
  have hentry := PreemptedRun.plain k.stack.interrupts (k.sysenter u) (systemCall k.ret)
  have hin := k.stack.entered (sysenter_ok u) hentry
  obtain ⟨hrax, hrdi⟩ := entered_regs hin
  have hout := hprints ⟨fun _ => 0#64, c₁.mem⟩ _ (hrax.trans hax) (hrdi.trans hdi)
    ((entered_mem hin).trans hu.cpu.mem)
  let c₂ := (c₁.setReg .rsp (c₁.gpr .rsp + 8#64)).setReg .rax (systemCallTable i).value
  have hreturns : k.Returns (systemCallTable i) [] c₁ c₂ :=
    ⟨Cpu.setReg_gpr_self _ _ _,
      (Cpu.setReg_gpr_of_ne _ (by decide) _).trans (Cpu.setReg_gpr_self _ _ _),
      Mem.AgreeOn.refl _ _, rfl, rfl, Mem.AgreeOn.refl _ _⟩
  exact ⟨_, .back hentry (entered_target hin hlu hi) (Mem.AgreeOn.refl _ _) hout hreturns
    (.plain _ _ _)⟩

end Gateway

/-! ## Runs -/

theorem AtomicCall.loaded {own : Set (BitVec 64)} {a b : User} {put : List Call} {k : Image}
    (h : AtomicCall own a (some (b, put))) (hl : k.Loaded a.cpu.mem) : k.Loaded b.cpu.mem := by
  obtain ⟨_, -, rfl, -⟩ := h.handler
  exact hl

theorem not_atomicCall_none {own : Set (BitVec 64)} {a : User} : ¬ AtomicCall own a none :=
  fun h => nomatch h

/-- **User programs.** Take a program that keeps off the kernel's own memory and that, with system
    calls as single instructions, only makes calls that the instruction allows. On the kernel, with
    any number of interrupts between any instructions of its calls, no call gets lost; every run is
    one with single instructions, with the same text printed, the same place reached and the same
    registers and memory but for the kernel's own. And every run with single instructions is one
    that the kernel can make. -/
theorem userProgram_refines (k : Gateway) {p : Client User} (hp : k.Tame p) {u : User}
    (hloaded : k.image.Loaded u.cpu.mem)
    (hsafe : ∀ a out, Session p (AtomicCall k.own) u (some a) out → p.calls a →
      ∃ b put, AtomicCall k.own a (some (b, put))) :
    (∀ r out, Session p k.Serves u r out → ∃ v a, r = some v ∧
      Session p (AtomicCall k.own) u (some a) out ∧ SameUser k.own a v) ∧
    ∀ a out, Session p (AtomicCall k.own) u (some a) out →
      ∃ v, Session p k.Serves u (some v) out ∧ SameUser k.own a v := by
  have hinit : SameUser k.own u u := ⟨.refl _ _, rfl⟩
  constructor
  · intro r out h
    have hsim : ∃ v a, r = some v ∧ Session p (AtomicCall k.own) u (some a) out ∧
        SameUser k.own a v ∧ k.image.Loaded a.cpu.mem :=
      h.simulated ⟨hinit, hloaded⟩ ?step ?calls ?serve
    case step =>
      intro v a v' ⟨hu, hl⟩ hstep
      obtain ⟨a', ha', hu'⟩ := hp.step a v v' hu hstep
      exact ⟨a', ha', hu', hl.agreeOn (hp.table a a' ha')⟩
    case calls => exact fun v a ⟨hu, _⟩ => hp.calls a v hu
    case serve =>
      intro v a out r ⟨hu, hl⟩ hrun hcall hserve
      obtain ⟨b, put, hab⟩ := hsafe a out hrun hcall
      obtain ⟨v', rfl, hu'⟩ := hserve.of_atomic hu hl hab
      exact ⟨v', b, put, rfl, hab, hu', hab.loaded hl⟩
    obtain ⟨v, a, hr, ha, hu, -⟩ := hsim
    exact ⟨v, a, hr, ha, hu⟩
  · intro a out h
    have hsim : ∃ b v, some a = some b ∧ Session p k.Serves u (some v) out ∧
        SameUser k.own b v ∧ k.image.Loaded b.cpu.mem :=
      h.simulated ⟨hinit, hloaded⟩ ?step ?calls ?serve
    case step =>
      intro a v a' ⟨hu, hl⟩ hstep
      obtain ⟨v', hv', hu'⟩ := hp.step v a a' hu.symm hstep
      exact ⟨v', hv', hu'.symm, hl.agreeOn (hp.table a a' hstep)⟩
    case calls => exact fun a v ⟨hu, _⟩ => hp.calls v a hu.symm
    case serve =>
      intro a v out r ⟨hu, hl⟩ _ _ hserve
      cases r with
      | none => exact absurd hserve not_atomicCall_none
      | some q =>
          obtain ⟨b, put⟩ := q
          obtain ⟨v', hv'⟩ := k.exists_serves hu hl hserve
          obtain ⟨v'', he, hu'⟩ := hv'.of_atomic hu hl hserve
          obtain ⟨rfl, -⟩ := Prod.mk.inj (Option.some.inj he)
          exact ⟨b, v', put, rfl, hv', hu', hserve.loaded hl⟩
    obtain ⟨b, v, hb, hv, hu, -⟩ := hsim
    obtain rfl := Option.some.inj hb
    exact ⟨v, hv, hu⟩

/-! ### Two calls -/

/-- `tableMem` with the string "hi" at 0x2000. -/
def hiMem : Mem := fun x =>
  if x = 0x2000#64 then chr 'h'
  else if x = 0x2001#64 then chr 'i'
  else if x = 0x2002#64 then 0#8 else tableMem x

/-- The stack of 4096 bytes that ends at address 0. -/
def topStack : KernelStack :=
  ⟨0xfffffffffffff000#64, 4096, ∅, Nat.le_of_ble_eq_true rfl, Set.empty_disjoint _⟩

theorem topStack_room : 416 ≤ (0#64 - topStack.low).toNat := by decide

theorem topStack_le : (0#64 - topStack.low).toNat ≤ topStack.len := by decide

theorem topStack_apart {a : BitVec 64} {n : ℕ} (h : a.toNat + n ≤ 2 ^ 63) :
    Disjoint (Region a n) (topStack.dead 0#64) := by
  refine Set.disjoint_union_right.mpr ⟨Set.disjoint_empty _, ?_⟩
  have hlow : topStack.low.toNat = 2 ^ 64 - 4096 := by decide
  have hlen : (0#64 - topStack.low).toNat = 4096 := by decide
  exact disjoint_of_le (by omega) (by omega)

/-- The kernel with the table at 0 and its stack at the top of memory. -/
def lowGateway : Gateway where
  image := lowImage
  ret := 0x1000#64
  stack := topStack
  top := 0#64
  room := topStack_room
  top_le := topStack_le
  apart := topStack_apart (a := 0#64) (by decide)

/-- In front of a call of number 5 that goes on at 1. -/
def caller : User where
  cpu := { zeroCpu with
    gpr := fun r => if r = .rax then 5#64 else if r = .rdx then 1#64 else 0#64
    mem := hiMem }
  rip := 0#64

/-- Makes number 1 of the next call, with the string at 0x2000, to go on at 3. -/
def nextCall (u : User) : User :=
  ⟨((u.cpu.setReg .rax 1#64).setReg .rdi 0x2000#64).setReg .rdx 3#64, 2#64⟩

/-- A program with calls at 0 and 2. -/
def twoCalls : Client User where
  step u u' := u.rip = 1#64 ∧ u' = nextCall u
  calls u := u.rip = 0#64 ∨ u.rip = 2#64

theorem twoCalls_tame : lowGateway.Tame twoCalls where
  step := fun u v v' h ⟨hrip, hv⟩ => by
    subst hv
    exact ⟨nextCall u, ⟨h.rip ▸ hrip, rfl⟩,
      ⟨((h.cpu.setReg _ _).setReg _ _).setReg _ _, rfl⟩⟩
  calls := fun u v h hv => by
    change u.rip = _ ∨ u.rip = _
    rw [← h.rip]
    exact hv
  table := fun u u' ⟨_, hu⟩ => hu ▸ Mem.AgreeOn.refl _ _

/-- The program behind its first call, in front of the second and behind it. -/
def answered1 : User := caller.answered (-1#64)

def caller2 : User := nextCall answered1

def answered2 : User := caller2.answered 0#64

theorem quiet_answered1 : ¬ twoCalls.calls answered1 :=
  show ¬ (1#64 = 0#64 ∨ 1#64 = 2#64) by decide

theorem quiet_answered2 : ¬ twoCalls.calls answered2 :=
  show ¬ (3#64 = 0#64 ∨ 3#64 = 2#64) by decide

theorem first_call : AtomicCall lowGateway.own caller
    (some (answered1, noSystemCallPrints 5#64)) := .undefined (by decide) (by decide)

theorem second_call : AtomicCall lowGateway.own caller2
    (some (answered2, [⟨wordWhite, [chr 'h', chr 'i']⟩])) := by
  have hstring : CString caller2.cpu.mem (caller2.cpu.gpr .rdi) [chr 'h', chr 'i'] :=
    ⟨by decide, by decide⟩
  have hplain : Plain [chr 'h', chr 'i'] := fun c _ h =>
    absurd (h.subset List.mem_cons_self) (by decide)
  exact .printf (by decide) hstring hplain (by decide) (topStack_apart (by decide))

/-- Where the program may be. -/
theorem twoCalls_states {r : Option User} {out : List Call}
    (h : Session twoCalls (AtomicCall lowGateway.own) caller r out) :
    ∀ a, r = some a → a = caller ∨ a = answered1 ∨ a = caller2 ∨ a = answered2 := by
  have hrip0 : caller.rip = 0#64 := rfl
  have hrip2 : caller2.rip = 2#64 := rfl
  have hrip3 : answered2.rip = 3#64 := rfl
  induction h with
  | start => exact fun a ha => Or.inl (Option.some.inj ha).symm
  | @step t t' _ _ hstep ih =>
      intro a ha
      obtain ⟨hrip, ht⟩ := hstep
      rw [← Option.some.inj ha, ht]
      rcases ih t rfl with rfl | rfl | rfl | rfl
      · exact absurd (hrip0.symm.trans hrip) (by decide)
      · exact Or.inr (Or.inr (Or.inl rfl))
      · exact absurd (hrip2.symm.trans hrip) (by decide)
      · exact absurd (hrip3.symm.trans hrip) (by decide)
  | @call t t' _ _ _ hcall hserve ih =>
      intro a ha
      obtain ⟨i, hi, hanswer, -⟩ := hserve.handler
      rw [← Option.some.inj ha, hanswer]
      rcases ih t rfl with rfl | rfl | rfl | rfl
      · have h5 : i = ⟨5, by decide⟩ := Fin.ext (hi.symm.trans (by decide))
        rw [h5]
        exact Or.inr (Or.inl rfl)
      · exact absurd hcall quiet_answered1
      · have h1 : i = ⟨1, by decide⟩ := Fin.ext (hi.symm.trans (by decide))
        rw [h1]
        exact Or.inr (Or.inr (Or.inr rfl))
      · exact absurd hcall quiet_answered2
  | lost => exact fun a ha => absurd ha (Option.some_ne_none a).symm

theorem userProgram_refines_two : ∃ v, Session twoCalls lowGateway.Serves caller (some v)
      (noSystemCallPrints 5#64 ++ [⟨wordWhite, [chr 'h', chr 'i']⟩]) ∧
    v.rip = 3#64 ∧ v.cpu.gpr .rax = 0#64 := by
  have hloaded : lowGateway.image.Loaded caller.cpu.mem := by
    refine tableMem_loaded.agreeOn fun x hx => ?_
    have hlow : x.toNat < 1024 := by
      rw [mem_region] at hx
      change (x - 0#64).toNat < 1024 at hx
      rwa [BitVec.sub_zero] at hx
    have hne : ∀ y : BitVec 64, 1024 ≤ y.toNat → x ≠ y := fun y hy he => by
      rw [he] at hlow
      omega
    change hiMem x = tableMem x
    unfold hiMem
    rw [if_neg (hne _ (by decide)), if_neg (hne _ (by decide)), if_neg (hne _ (by decide))]
  have hsafe : ∀ a out, Session twoCalls (AtomicCall lowGateway.own) caller (some a) out →
      twoCalls.calls a → ∃ b put, AtomicCall lowGateway.own a (some (b, put)) := by
    intro a out h hcall
    rcases twoCalls_states h a rfl with rfl | rfl | rfl | rfl
    · exact ⟨_, _, first_call⟩
    · exact absurd hcall quiet_answered1
    · exact ⟨_, _, second_call⟩
    · exact absurd hcall quiet_answered2
  have hrun : Session twoCalls (AtomicCall lowGateway.own) caller (some answered2)
      (noSystemCallPrints 5#64 ++ [⟨wordWhite, [chr 'h', chr 'i']⟩]) := by
    have h1 := Session.start.call (p := twoCalls) (Or.inl rfl) first_call
    exact (h1.step ⟨rfl, rfl⟩).call (Or.inr rfl) second_call
  obtain ⟨v, hv, hu⟩ :=
    (userProgram_refines lowGateway twoCalls_tame hloaded hsafe).2 answered2 _ hrun
  exact ⟨v, hv, hu.rip, congrFun hu.cpu.gpr .rax⟩

end HelloOS.Entry
