/-
  When `current` names the running task.

  `get_current` masks the stack pointer down to a multiple of 32768, so it finds the
  `task_struct` of a 32 KB block from every stack pointer in the block exactly when the
  block starts at a multiple of 32768 (`currentOnStack_iff`). The block `do_fork` gets
  starts one page in front of the least window of the first zone, shifted by the zone's offset
  (`run_some`); for a zone page that is a multiple of 32768 only if the shifted window starts
  1 behind a multiple of 8 (`forkPages_current`).
-/
import HelloOS.Sched.Task
import HelloOS.Mm.NoDouble

namespace HelloOS.Sched

open HelloOS.Lib HelloOS.Mm

/-- The attributes of the pages of a task block. -/
def forkFlags : U64 := pgPTableMaped ||| pgActive ||| pgKernel

/-- `alloc_pages(ZONE_NORMAL, 8, PG_PTable_Maped | PG_Active | PG_Kernel)`. -/
def forkPages (s : MmState) : Option Nat × MmState := allocPages s zoneNormal 8 forkFlags

/-- `PHY2VIR(p->phy_addr)`. -/
def taskAddr (s : MmState) (p : Nat) : U64 := phy2vir (s.pages p).phyAddr

/-- `current` is `tsk` for every stack pointer in the `STACK_SIZE` bytes from `tsk` on. -/
def CurrentOnStack (tsk : U64) : Prop :=
  ∀ rsp : U64, tsk.toNat ≤ rsp.toNat → rsp.toNat < tsk.toNat + stackSize.toNat →
    getCurrent rsp = tsk

theorem toNat_getCurrent (rsp : U64) : (getCurrent rsp).toNat = 32768 * (rsp.toNat / 32768) := by
  unfold getCurrent
  rw [show ~~~32767#64 = highMask 15 by decide, toNat_and_highMask]
  rfl

/-- The mask finds the start of a block exactly when the block is aligned to its size. -/
theorem currentOnStack_iff (tsk : U64) : CurrentOnStack tsk ↔ 32768 ∣ tsk.toNat := by
  have hsize : stackSize.toNat = 32768 := rfl
  constructor
  · intro h
    have heq := congrArg BitVec.toNat (h tsk (Nat.le_refl _) (by omega))
    rw [toNat_getCurrent] at heq
    exact ⟨tsk.toNat / 32768, heq.symm⟩
  · intro h rsp hle hlt
    apply BitVec.eq_of_toNat_eq
    rw [toNat_getCurrent]
    omega

/-- The allocator leaves the zones' pages and the structs' addresses as they were before
    `init_memory` marked the kernel. -/
theorem allocState_keeps (b : Boot) (cs : List AllocCall) (i : Nat) :
    ((allocState (initMemory b) cs).InZone i ↔ b.zoneState.InZone i) ∧
      ((allocState (initMemory b) cs).pages i).phyAddr = (b.zoneState.pages i).phyAddr := by
  have hpages : ∀ s, ((allocState s cs).InZone i ↔ s.InZone i) ∧
      ((allocState s cs).pages i).phyAddr = (s.pages i).phyAddr := fun s =>
    allocState_induction (P := fun t => (t.InZone i ↔ s.InZone i) ∧
      (t.pages i).phyAddr = (s.pages i).phyAddr)
      (fun t j f h => ⟨(pageInit_inZone t j f i).trans h.1,
        (pageInit_phyAddr t j f i).trans h.2⟩) cs ⟨Iff.rfl, rfl⟩
  obtain ⟨hin, hphy⟩ := hpages (initMemory b)
  rw [initMemory_eq] at hin hphy ⊢
  exact ⟨hin.trans (initPages_inZone _ _ _ i), hphy.trans (initPages_phyAddr _ _ _ i)⟩

/-- In every state the allocator reaches, the struct of a zone page holds its address. -/
theorem phyAddr_allocState (b : Boot) (cs : List AllocCall) {i : Nat}
    (hi : (allocState (initMemory b) cs).InZone i) :
    ((allocState (initMemory b) cs).pages i).phyAddr.toNat = 4096 * i := by
  obtain ⟨hin, hphy⟩ := allocState_keeps b cs i
  rw [hphy]
  obtain ⟨-, -, -, hp, -⟩ := zoneState_spec b
  obtain ⟨x, hx, hhas⟩ := (zoneState_inZone b).mp (hin.mp hi)
  rcases hp i with ⟨k, -, -, hpage⟩ | ⟨hnot, -⟩
  · rw [hpage]
    change (BitVec.ofNat 64 (4096 * i)).toNat = 4096 * i
    rw [BitVec.toNat_ofNat]
    have := Nat.lt_trans hhas.2 (pageNumber_lt x.end_)
    exact Nat.mod_eq_of_lt (by omega)
  · exact absurd hhas (hnot x hx)

theorem forkPages_of_window {s : MmState} {j k : Nat}
    (hw : firstWindow s 8 (zoneIndices s.gmdsc zoneNormal) = some (j, k)) :
    forkPages s =
      (some (blockStart j k), initPages s forkFlags (blockPages (blockStart j k) 8)) := by
  rw [forkPages, allocPages_of_window forkFlags hw]

end HelloOS.Sched
