/-
  The pids of the tasks.

  A child's pid is its parent's plus 1, whichever task the parent is. So while every fork is
  issued by the newest task the pids count up (`pids_of_chain`), and the first fork that is
  issued by an older task repeats the pid of another task (`pid_succ_of_chain`).
-/
import HelloOS.Sched.ForkRun
import Mathlib.Data.List.Nodup
import Mathlib.Data.List.Perm.Subperm

namespace HelloOS.Sched

open HelloOS.Lib HelloOS.Mm

/-- No two tasks have the same pid. -/
def PidsUnique (sym : Symbols) (m : Mem) (log : List (U64 × U64)) : Prop :=
  ∀ t ∈ tasks sym log, ∀ u ∈ tasks sym log, pid m t = pid m u → t = u

/-- Every fork was issued by the task created last. -/
def ForkedByNewest (sym : Symbols) : List (U64 × U64) → Prop
  | [] => True
  | (_, p) :: log => p = newest sym log ∧ ForkedByNewest sym log

variable {sym : Symbols} {k : Kernel} {log : List (U64 × U64)}

/-- In a chain of forks the pids are `n, …, 1, 0`, newest task first. -/
theorem pids_of_chain (r : ForkRun sym k log) (hc : ForkedByNewest sym log) :
    (tasks sym log).map (pid k.mem) =
      (List.range (log.length + 1)).reverse.map (BitVec.ofNat 64) := by
  induction r with
  | start b m hpid =>
      have h : pid (listInit m sym.initTask) sym.initTask = 0#64 := by
        rw [← hpid]
        exact (listInit_agreeOn m (disjoint_offset _ (by decide) (by decide))).read64
      simpa [tasks] using h
  | @fork k log rsp regs tsk r hok ih =>
      obtain ⟨hcur, hc⟩ := hc
      obtain ⟨-, -, hnew, hold⟩ := forkStep r hok
      have hih := ih hc
      -- the newest task heads the list, so its pid is the number of forks
      have hparent : pid k.mem (getCurrent rsp) = BitVec.ofNat 64 log.length := by
        rw [hcur]
        have := congrArg List.head? hih
        rw [List.range_succ, List.reverse_append] at this
        cases log <;> simpa [tasks, newest] using this
      rw [tasks_cons, List.map_cons, List.map_congr_left hold, hih, hnew, hparent, List.length_cons,
        List.range_succ (n := log.length + 1), List.reverse_append, List.reverse_singleton,
        List.singleton_append, List.map_cons, BitVec.ofNat_add]
  | other cs m r hm ih =>
      rw [← ih hc]
      exact List.map_congr_left fun t ht => pid_of_agreeOn (hm t ht)

/-- Tasks have addresses, so there are at most 2^64. -/
theorem ForkRun.length_lt (r : ForkRun sym k log) : log.length + 1 ≤ 2 ^ 64 := by
  have hnd : ((tasks sym log).map BitVec.toNat).Nodup :=
    r.nodup.map fun _ _ h => BitVec.eq_of_toNat_eq h
  have hsub : (tasks sym log).map BitVec.toNat ⊆ List.range (2 ^ 64) := by
    intro n hn
    obtain ⟨t, -, rfl⟩ := List.mem_map.mp hn
    exact List.mem_range.mpr t.isLt
  have hle := (List.subperm_of_subset hnd hsub).length_le
  rwa [List.length_map, tasks_length, List.length_range] at hle

theorem pidsUnique_of_chain (r : ForkRun sym k log) (hc : ForkedByNewest sym log) :
    PidsUnique sym k.mem log := by
  have hlen := r.length_lt
  have hnd : ((tasks sym log).map (pid k.mem)).Nodup := by
    rw [pids_of_chain r hc]
    refine List.Nodup.map_on (fun x hx y hy hxy => ?_) (List.nodup_reverse.mpr List.nodup_range)
    rw [List.mem_reverse, List.mem_range] at hx hy
    have := congrArg BitVec.toNat hxy
    rw [BitVec.toNat_ofNat, toNat_ofNat_eq (by omega),
      Nat.mod_eq_of_lt (by omega)] at this
    exact this
  exact fun t ht u hu h => List.inj_on_of_nodup_map hnd ht hu h

/-- In a chain of forks every task but the newest has a successor in pid. -/
theorem pid_succ_of_chain (r : ForkRun sym k log) (hc : ForkedByNewest sym log) {t : U64}
    (ht : t ∈ tasks sym log) (hne : t ≠ newest sym log) :
    ∃ u ∈ tasks sym log, pid k.mem u = pid k.mem t + 1#64 := by
  induction r with
  | start b m hpid => exact absurd (List.mem_singleton.mp ht) hne
  | @fork k log rsp regs tsk r hok ih =>
      obtain ⟨hcur, hc⟩ := hc
      obtain ⟨-, -, hnew, hold⟩ := forkStep r hok
      have ht' : t ∈ tasks sym log := (List.mem_cons.mp ht).resolve_left hne
      rw [hold t ht']
      by_cases h : t = newest sym log
      · exact ⟨tsk, List.mem_cons_self, by rw [hnew, hcur, h]⟩
      · obtain ⟨u, hu, hpid⟩ := ih hc ht' h
        exact ⟨u, List.mem_cons_of_mem tsk hu, by rw [hold u hu, hpid]⟩
  | other cs m r hm ih =>
      obtain ⟨u, hu, hpid⟩ := ih hc ht hne
      refine ⟨u, hu, ?_⟩
      have h1 : pid m u = _ := pid_of_agreeOn (hm u hu)
      have h2 : pid m t = _ := pid_of_agreeOn (hm t ht)
      rw [h1, h2]
      exact hpid

/-- Unique pids need a chain: at the first fork off the chain, the child gets the pid its
    parent's successor has. -/
theorem chain_of_pidsUnique (r : ForkRun sym k log) (hu : PidsUnique sym k.mem log) :
    ForkedByNewest sym log := by
  induction r with
  | start b m hpid => trivial
  | @fork k log rsp regs tsk r hok ih =>
      obtain ⟨-, -, hnew, hold⟩ := forkStep r hok
      have hc : ForkedByNewest sym log := ih fun t ht u hu' h =>
        hu t (List.mem_cons_of_mem tsk ht) u (List.mem_cons_of_mem tsk hu') (by
          rw [hold t ht, hold u hu', h])
      refine ⟨?_, hc⟩
      by_contra hne
      obtain ⟨u, hmem, hpid⟩ := pid_succ_of_chain r hc hok.current hne
      have heq := hu tsk List.mem_cons_self u (List.mem_cons_of_mem tsk hmem) (by
        rw [hnew, hold u hmem, hpid])
      exact hok.notMem (heq ▸ hmem)
  | other cs m r hm ih =>
      refine ih fun t ht u hu' h => hu t ht u hu' ?_
      have h1 : pid m t = _ := pid_of_agreeOn (hm t ht)
      have h2 : pid m u = _ := pid_of_agreeOn (hm u hu')
      rw [h1, h2]
      exact h

/-- **Unique pids.** Behind every run of forks, the pids are unique exactly when every fork
    was issued by the task created last. -/
theorem forkRun_pidsUnique (r : ForkRun sym k log) :
    PidsUnique sym k.mem log ↔ ForkedByNewest sym log :=
  ⟨chain_of_pidsUnique r, pidsUnique_of_chain r⟩

theorem forkRun_pidsUnique_small :
    PidsUnique smallSymbols (smallFork smallKernel).mem
      [(0xffff800000101000#64, smallSymbols.initTask)] :=
  (forkRun_pidsUnique smallRun_one).mpr ⟨rfl, trivial⟩

/-- Two forks of the init task: both children have pid 1. -/
theorem not_pidsUnique_small :
    ForkRun smallSymbols (smallFork (smallFork smallKernel))
      [(0xffff800000109000#64, smallSymbols.initTask),
        (0xffff800000101000#64, smallSymbols.initTask)] ∧
    ¬ PidsUnique smallSymbols (smallFork (smallFork smallKernel)).mem
      [(0xffff800000109000#64, smallSymbols.initTask),
        (0xffff800000101000#64, smallSymbols.initTask)] := by
  refine ⟨smallRun_two, fun h => ?_⟩
  exact absurd (chain_of_pidsUnique smallRun_two h).1 (by decide)

end HelloOS.Sched
