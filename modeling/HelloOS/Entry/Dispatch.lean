/-
  Dispatch of system calls (`kernel/syscall/syscall.c`), at the level of memory: the table
  `system_call_table` is 128 words somewhere in the kernel image, and `system_call_function`
  calls the address it loads from `system_call_table + 8 * rax`. Nothing checks `rax`.

  The address wraps at 2^64, so numbers that differ by 2^61 select the same entry. The path
  is closed for the numbers that select an entry of the table, with one exception: those
  that reach entry 1 without being 1.
-/
import HelloOS.Entry.Syscall

namespace HelloOS.Entry

open HelloOS.Lib

/-! ## The table -/

/-- The functions that `system_call_table` is made of. -/
inductive Handler
  | noSystemCall | sysPrintf
  deriving DecidableEq

/-- `system_call_table`. -/
def systemCallTable (i : Fin maxSystemCallNr) : Handler :=
  if i.val = 1 then .sysPrintf else .noSystemCall

/-- What a handler returns. What it prints on the way is left out. -/
def Handler.value : Handler → BitVec 64
  | .noSystemCall => -1#64
  | .sysPrintf => 0#64

/-- Where the linker has put the table and its functions. -/
structure Image where
  table : BitVec 64
  addr : Handler → BitVec 64
  addr_ne : addr .noSystemCall ≠ addr .sysPrintf

/-- The table is in memory. -/
def Image.Loaded (k : Image) (m : Mem) : Prop :=
  ∀ i : Fin maxSystemCallNr,
    m.read64 (k.table + BitVec.ofNat 64 (8 * i)) = k.addr (systemCallTable i)

/-- `system_call_table[regs->rax]`: the address that `system_call_function(regs)` calls. -/
def systemCallTarget (k : Image) (m : Mem) (regs : BitVec 64) : BitVec 64 :=
  m.read64 (k.table + 8#64 * (PtRegs.read m regs).rax)

/-- A number with a system call of its own. -/
def Defined (nr : BitVec 64) : Prop :=
  ∃ i : Fin maxSystemCallNr, nr = BitVec.ofNat 64 i ∧ systemCallTable i ≠ .noSystemCall

theorem defined_iff (nr : BitVec 64) : Defined nr ↔ nr = 1#64 := by
  constructor
  · rintro ⟨i, rfl, hi⟩
    unfold systemCallTable at hi
    split at hi
    case isTrue h => rw [h]
    case isFalse h => exact absurd rfl hi
  · rintro rfl
    exact ⟨⟨1, by decide⟩, rfl, by decide⟩

/-! ## The path from `sysenter` -/

/-- The machine at `sysenter`: the table is in memory, and the 144 bytes that `system_call`
    pushes below the seven words it leaves for the frame do not lie on it. -/
structure AtSysenter (k : Image) (c : Cpu) : Prop where
  loaded : k.Loaded c.mem
  stack : Disjoint (Region (Mem.below (c.gpr .rsp - 0x38#64) 18) 144) (Region k.table 1024)

/-- A function called with `system_call`'s frame comes back with `v`: the frame is as it was
    and the return address popped. -/
structure ReturnsFrom (c₁ : Cpu) (v : BitVec 64) (c₂ : Cpu) : Prop where
  rax : c₂.gpr .rax = v
  rsp : c₂.gpr .rsp = c₁.gpr .rsp + 8#64
  frame : Mem.AgreeOn (Region (c₁.gpr .rdi) 192) c₂.mem c₁.mem

/-- What the user of `c` finds behind `sysenter`: `v` in `rax` and everything else its own. -/
structure UserSees (c : Cpu) (v : BitVec 64) (c₃ : Cpu) : Prop where
  rax : c₃.gpr .rax = v
  gpr : ∀ r, r ≠ .rax → r ≠ .rsp → c₃.gpr r = c.gpr r
  ds : c₃.seg .ds = c.seg .ds
  es : c₃.seg .es = c.seg .es
  rsp : c₃.gpr .rsp = c.gpr .rsp
  exit : sysexit c₃ = (c.gpr .rdx, c.gpr .rcx)

/-- What dispatch owes to the machine `c` at `sysenter`: it calls a function of the table; and
    if the number is not a defined one that function is `no_system_call`, from whose return
    the path leads back to the user with -1. -/
structure Closed (k : Image) (c : Cpu) (ret : BitVec 64) : Prop where
  target : ∃ i : Fin maxSystemCallNr,
    systemCallTarget k (c.run (systemCall ret)).mem ((c.run (systemCall ret)).gpr .rdi) =
      k.addr (systemCallTable i)
  undefined : ¬ Defined (c.gpr .rax) →
    systemCallTarget k (c.run (systemCall ret)).mem ((c.run (systemCall ret)).gpr .rdi) =
        k.addr .noSystemCall ∧
      ∀ c₂, ReturnsFrom (c.run (systemCall ret)) Handler.noSystemCall.value c₂ →
        UserSees c (-1#64) (c₂.run retSystemCall)

variable (c : Cpu) (ret : BitVec 64)

theorem systemCall_frame {s : Set (BitVec 64)}
    (h : Disjoint (Region (Mem.below (c.gpr .rsp - 0x38#64) 18) 144) s) :
    Mem.AgreeOn s (c.run (systemCall ret)).mem c.mem := by
  obtain ⟨hmem, -, -⟩ := run_systemCall c ret
  rw [hmem]
  apply Mem.agreeOn_pushWords
  rw [List.length_append, savedWords_length]
  exact h

/-- The index is the user's `rax`. -/
theorem systemCallTarget_eq (k : Image) :
    systemCallTarget k (c.run (systemCall ret)).mem ((c.run (systemCall ret)).gpr .rdi) =
      (c.run (systemCall ret)).mem.read64 (k.table + 8#64 * c.gpr .rax) := by
  obtain ⟨-, hwords⟩ := systemCall_stack c ret
  have hread := PtRegs.read_of_saved c hwords
  unfold systemCallTarget
  rw [hread]
  rfl

theorem userSees_of_returns {v : BitVec 64} {c₂ : Cpu}
    (h : ReturnsFrom (c.run (systemCall ret)) v c₂) : UserSees c v (c₂.run retSystemCall) := by
  obtain ⟨hax, hgpr, hds, hes, hsp, hexit⟩ := retSystemCall_restores c ret h.frame h.rsp
  exact ⟨hax.trans h.rax, hgpr, hds, hes, hsp, hexit⟩

/-- The address only depends on `rax` modulo 2^61. -/
theorem index_mod (v : BitVec 64) : 8#64 * v = BitVec.ofNat 64 (8 * (v.toNat % 2 ^ 61)) := by
  apply BitVec.eq_of_toNat_eq
  rw [BitVec.toNat_mul, BitVec.toNat_ofNat, BitVec.toNat_ofNat]
  omega

/-- A number that selects an entry calls that entry. -/
theorem AtSysenter.target {k : Image} {c : Cpu} (h : AtSysenter k c) (ret : BitVec 64)
    {i : Fin maxSystemCallNr} (hi : (c.gpr .rax).toNat % 2 ^ 61 = i) :
    systemCallTarget k (c.run (systemCall ret)).mem ((c.run (systemCall ret)).gpr .rdi) =
      k.addr (systemCallTable i) := by
  have hentry : Region (k.table + BitVec.ofNat 64 (8 * i)) 8 ⊆ Region k.table 1024 := by
    have := toNat_ofNat_le (8 * i)
    have := i.isLt
    unfold maxSystemCallNr at this
    exact region_subset _ (by omega)
  rw [systemCallTarget_eq, index_mod, hi,
    ((systemCall_frame c ret h.stack).mono hentry).read64]
  exact h.loaded i

/-! ## Numbers outside the table -/

/-- A memory with the table at 0, its entries made of the bytes 1 and 2, and bytes 255
    everywhere behind it. -/
def tableMem : Mem := fun x =>
  if x.toNat < 1024 then if 8 ≤ x.toNat ∧ x.toNat < 16 then 1#8 else 2#8 else 0xff#8

def lowImage : Image where
  table := 0#64
  addr := fun h => if h = .sysPrintf then 0x0101010101010101#64 else 0x0202020202020202#64
  addr_ne := by decide

theorem lowImage_addr_ne (f : Handler) : 0xffffffffffffffff#64 ≠ lowImage.addr f := by
  cases f with
  | noSystemCall => decide
  | sysPrintf => decide

theorem tableMem_loaded : lowImage.Loaded tableMem := by
  intro i
  have hi := i.isLt
  unfold maxSystemCallNr at hi
  have hword : ∀ b : BitVec 8,
      (∀ d : BitVec 64, d.toNat < 8 → tableMem (0#64 + BitVec.ofNat 64 (8 * i) + d) = b) →
      tableMem.read64 (0#64 + BitVec.ofNat 64 (8 * i)) = Mem.read64 (fun _ => b) 0#64 :=
    fun b hb => Mem.read64_congr fun d hd => hb d hd
  have haddr : ∀ d : BitVec 64, d.toNat < 8 →
      (0#64 + BitVec.ofNat 64 (8 * i) + d).toNat = 8 * i + d.toNat := by
    intro d hd
    bv_omega
  change tableMem.read64 (0#64 + BitVec.ofNat 64 (8 * i)) = lowImage.addr (systemCallTable i)
  unfold systemCallTable
  split
  case isTrue h1 =>
    rw [hword 1#8]
    · rfl
    · intro d hd
      unfold tableMem
      rw [haddr d hd, if_pos (by omega), if_pos (by omega)]
  case isFalse h1 =>
    rw [hword 2#8]
    · rfl
    · intro d hd
      unfold tableMem
      rw [haddr d hd, if_pos (by omega), if_neg (by omega)]

/-- A user with number `v`, its kernel stack in the half of memory that `8 * v` is not in. -/
def userWith (v : BitVec 64) : Cpu :=
  { zeroCpu with
    gpr := fun r =>
      if r = .rax then v
      else if r = .rsp then if (8#64 * v).toNat < 2 ^ 63 then 0x8000000000001000#64 else 4096#64
      else 0#64
    mem := tableMem }

/-- Where the frame of `userWith v` is pushed. -/
theorem userWith_stack (v : BitVec 64) :
    (Mem.below ((userWith v).gpr .rsp - 0x38#64) 18).toNat =
      if (8#64 * v).toNat < 2 ^ 63 then 2 ^ 63 + 3896 else 3896 := by
  have hrsp : (userWith v).gpr .rsp =
      if (8#64 * v).toNat < 2 ^ 63 then 0x8000000000001000#64 else 4096#64 := rfl
  rw [hrsp]
  split
  · decide
  · decide

theorem userWith_atSysenter (v : BitVec 64) : AtSysenter lowImage (userWith v) := by
  refine ⟨tableMem_loaded, Disjoint.symm ?_⟩
  have hstack := userWith_stack v
  apply disjoint_of_le
  · rw [hstack]
    change 0 + 1024 ≤ _
    split <;> omega
  · rw [hstack]
    split <;> omega

/-- Behind the table `userWith` makes the kernel call an address that is none of the table's. -/
theorem userWith_target {v : BitVec 64} (h : 128 ≤ v.toNat % 2 ^ 61) (ret : BitVec 64) :
    systemCallTarget lowImage ((userWith v).run (systemCall ret)).mem
      (((userWith v).run (systemCall ret)).gpr .rdi) = 0xffffffffffffffff#64 := by
  have hoff : (8#64 * v).toNat = 8 * (v.toNat % 2 ^ 61) := by
    rw [index_mod, BitVec.toNat_ofNat]
    omega
  have hstack := userWith_stack v
  have hword : Disjoint (Region (Mem.below ((userWith v).gpr .rsp - 0x38#64) 18) 144)
      (Region (8#64 * v) 8) := by
    by_cases hlow : (8#64 * v).toNat < 2 ^ 63
    · rw [if_pos hlow] at hstack
      exact (disjoint_of_le (by omega) (by omega)).symm
    · rw [if_neg hlow] at hstack
      exact disjoint_of_le (by omega) (by omega)
  rw [systemCallTarget_eq]
  change Mem.read64 _ (0#64 + 8#64 * v) = _
  rw [BitVec.zero_add, (systemCall_frame (userWith v) ret hword).read64]
  change tableMem.read64 (8#64 * v) = Mem.read64 (fun _ => 0xff#8) 0#64
  apply Mem.read64_congr
  intro d hd
  have hd' : (8#64 * v + d).toNat = (8#64 * v).toNat + d.toNat := by
    rw [BitVec.toNat_add]
    omega
  unfold tableMem
  rw [hd', if_neg (by omega)]

/-- **System call dispatch.** The numbers `v` for which the path is closed, on every image and
    for every machine that enters with `v` in `rax`: those that modulo 2^61 are an index of the
    table, and are 1 if that index is 1. -/
theorem systemCall_closed_iff (v : BitVec 64) :
    (∀ (k : Image) (c : Cpu) (ret : BitVec 64), AtSysenter k c → c.gpr .rax = v →
        Closed k c ret) ↔
      v.toNat % 2 ^ 61 < maxSystemCallNr ∧ (v.toNat % 2 ^ 61 = 1 → v = 1#64) := by
  constructor
  · intro h
    have hclosed := h lowImage (userWith v) 0#64 (userWith_atSysenter v) rfl
    have hlt : v.toNat % 2 ^ 61 < maxSystemCallNr := by
      by_contra hge
      unfold maxSystemCallNr at hge
      obtain ⟨i, hi⟩ := hclosed.target
      rw [userWith_target (by omega)] at hi
      exact lowImage_addr_ne _ hi
    refine ⟨hlt, ?_⟩
    -- entry 1 belongs to number 1 alone
    intro h1
    by_contra hne
    obtain ⟨hno, -⟩ := hclosed.undefined (fun hd => hne ((defined_iff v).mp hd))
    rw [(userWith_atSysenter v).target 0#64 (i := ⟨1, by decide⟩) h1] at hno
    exact lowImage.addr_ne hno.symm
  · rintro ⟨hlt, h1⟩ k c ret hc hax
    have htarget := hc.target ret (i := ⟨v.toNat % 2 ^ 61, hlt⟩) (by rw [hax])
    refine ⟨⟨_, htarget⟩, ?_⟩
    intro hundef
    have hne : v.toNat % 2 ^ 61 ≠ 1 := by
      intro he
      rw [hax, defined_iff] at hundef
      exact hundef (h1 he)
    refine ⟨?_, fun c₂ h₂ => userSees_of_returns c ret h₂⟩
    rw [htarget]
    unfold systemCallTable
    rw [if_neg hne]

/-- Number 128, the first one behind the table. -/
theorem systemCall_closed_behind :
    ¬ ∀ (k : Image) (c : Cpu) (ret : BitVec 64), AtSysenter k c → Closed k c ret := by
  intro h
  obtain ⟨i, hi⟩ :=
    (h lowImage (userWith 128#64) 0#64 (userWith_atSysenter 128#64)).target
  rw [userWith_target (by decide)] at hi
  exact lowImage_addr_ne _ hi

end HelloOS.Entry
