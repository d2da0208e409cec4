/-
  `do_fork` when `alloc_pages` finds no block.

  Nothing tests the page pointer. `p->phy_addr` is read through `NULL`, which is mapped, so
  the word at address 0 becomes the task's address, and the fork goes on there: it clears and
  fills that block, links it to the init task, and returns 0, the value it always returns
  (`doFork_null`, `doFork_null_links`).
-/
import HelloOS.Sched.ForkRun
import HelloOS.Mm.FreeRuns

namespace HelloOS.Sched

open HelloOS.Lib HelloOS.Mm

/-- The page pointers `do_fork` dereferences. -/
def forkDerefs (k : Kernel) : List (Option Nat) := [(forkPages k.mm).1]

/-- A fork that fails cleanly: no `NULL` page is dereferenced, the value returned is not the
    one a successful fork returns, and the task ring, the current `task_struct` and the
    caller's registers are as before. -/
structure ForkFailsCleanly (sym : Symbols) (k : Kernel) (rsp regs : U64) : Prop where
  noNull : none ∉ forkDerefs k
  status : ∀ k' rsp' regs', (forkPages k'.mm).1 ≠ none →
    (doFork sym k' rsp' regs').1 ≠ (doFork sym k rsp regs).1
  ring : ∀ xs, IsRing (listNext k.mem) (listPrev k.mem) sym.initTask xs →
    IsRing (listNext (doFork sym k rsp regs).2.mem) (listPrev (doFork sym k rsp regs).2.mem)
      sym.initTask xs
  current : Mem.AgreeOn (Region (getCurrent rsp) 88) (doFork sym k rsp regs).2.mem k.mem
  regs : Mem.AgreeOn (Region regs 192) (doFork sym k rsp regs).2.mem k.mem

variable {sym : Symbols} {k : Kernel} {rsp regs : U64}

/-- A fork without a block: the allocator is as before, and the rest of the fork takes place
    where the word at address 0 points. -/
theorem doFork_null (h : (forkPages k.mm).1 = none) :
    doFork sym k rsp regs = (0#64, ⟨k.mm, forkBlock sym k.mem (phy2vir (k.mem.read64 0#64))
      (getCurrent rsp) regs⟩) := by
  have hmm : (forkPages k.mm).2 = k.mm := by
    unfold forkPages at h ⊢
    rcases allocPages_cases k.mm zoneNormal 8 forkFlags with ⟨-, heq⟩ | ⟨j, i, -, heq⟩
    · rw [heq]
    · rw [heq] at h
      exact absurd h (by simp)
  unfold doFork
  dsimp only
  rw [h, hmm]
  rfl

/-- It links that place to the init task, where the two do not overlap. -/
theorem doFork_null_links (h : (forkPages k.mm).1 = none)
    (hi : Disjoint (taskBlock (phy2vir (k.mem.read64 0#64))) (linkBytes sym.initTask))
    (hr : Disjoint (Region (regs + offRegsRip) 8) (linkBytes (phy2vir (k.mem.read64 0#64))))
    (hri : Disjoint (Region (regs + offRegsRip) 8) (linkBytes sym.initTask)) :
    Linked (listNext (doFork sym k rsp regs).2.mem) (listPrev (doFork sym k rsp regs).2.mem)
      sym.initTask (phy2vir (k.mem.read64 0#64)) := by
  rw [doFork_null h]
  exact (forkBlock_links k.mem (getCurrent rsp) hi hr hri).1

/-- **A fork never fails cleanly.** Whenever `alloc_pages` returns `NULL`, the fork
    dereferences it and returns what every fork returns. -/
theorem fork_fails_never (sym : Symbols) (k : Kernel) (rsp regs : U64)
    (h : (forkPages k.mm).1 = none) :
    none ∈ forkDerefs k ∧
      (∀ k' rsp' regs', (doFork sym k' rsp' regs').1 = (doFork sym k rsp regs).1) ∧
      ¬ ForkFailsCleanly sym k rsp regs := by
  have hnull : none ∈ forkDerefs k := by
    rw [forkDerefs, h]
    exact List.mem_singleton_self none
  exact ⟨hnull, fun _ _ _ => rfl, fun hclean => hclean.noNull hnull⟩

/-! ### A fork on a machine without a block -/

/-- A kernel on `midwordBoot`, right behind `list_init`, its other memory zero. -/
def midwordKernel : Kernel :=
  ⟨initMemory midwordBoot, listInit (fun _ => 0#8) smallSymbols.initTask⟩

theorem midwordKernel_null : (forkPages midwordKernel.mm).1 = none := by
  have hmm : midwordKernel.mm = initMemory midwordBoot := by rw [midwordKernel]
  rw [hmm]
  refine (run_none_iff (c := ⟨zoneNormal, 8, forkFlags⟩) (by decide)).mpr fun i hi hserves => ?_
  rw [zoneIndices_normal] at hi
  rw [List.mem_singleton.mp hi] at hserves
  obtain ⟨-, a, ha⟩ := hserves
  exact midwordBoot_not_reaches a ha.1

theorem fork_fails_never_midword :
    none ∈ forkDerefs midwordKernel :=
  (fork_fails_never smallSymbols midwordKernel smallRsp smallRegs midwordKernel_null).1

/-- There the init task was alone in its ring. Behind the failed fork it is linked to the
    address of physical page 0. -/
theorem not_forkFailsCleanly_midword :
    (forkPages midwordKernel.mm).1 = none ∧
      listNext midwordKernel.mem smallSymbols.initTask = smallSymbols.initTask ∧
      listNext (doFork smallSymbols midwordKernel smallRsp smallRegs).2.mem
        smallSymbols.initTask = 0xffff800000000000#64 ∧
      ¬ ForkFailsCleanly smallSymbols midwordKernel smallRsp smallRegs := by
  have hzero : phy2vir (midwordKernel.mem.read64 0#64) = 0xffff800000000000#64 := by
    have hagree : Mem.AgreeOn (Region 0#64 8) midwordKernel.mem fun _ => 0#8 :=
      listInit_agreeOn _ (disjoint_of_le (by decide) (by decide)).symm
    rw [hagree.read64]
    decide
  have hring : listNext midwordKernel.mem smallSymbols.initTask = smallSymbols.initTask :=
    listNext_listInit _
  have hlinked : Linked (listNext (doFork smallSymbols midwordKernel smallRsp smallRegs).2.mem)
      (listPrev (doFork smallSymbols midwordKernel smallRsp smallRegs).2.mem)
      smallSymbols.initTask (phy2vir (midwordKernel.mem.read64 0#64)) := doFork_null_links
    midwordKernel_null
    (by
      rw [hzero]
      exact (disjoint_of_le (by decide) (by decide)).mono_right (linkBytes_subset_region _))
    (by
      rw [hzero]
      exact smallRegs_disjoint (by decide))
    (smallRegs_disjoint (Nat.le_refl _))
  rw [hzero] at hlinked
  refine ⟨midwordKernel_null, hring, hlinked.1, fun hclean => ?_⟩
  have hself : IsRing (listNext midwordKernel.mem) (listPrev midwordKernel.mem)
      smallSymbols.initTask [] := isRing_nil.mpr ⟨hring, listPrev_listInit _⟩
  have hafter := (isRing_nil.mp (hclean.ring [] hself)).1
  rw [hlinked.1] at hafter
  exact absurd hafter (by decide)

end HelloOS.Sched
