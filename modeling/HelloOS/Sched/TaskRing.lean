/-
  The ring of the tasks.

  `do_fork` calls `list_add_tail(&init_task_union.task.list, &tsk->list)`, the node to add
  first. It adds the init task's node to the child's fresh ring, whatever ring the init task
  was in, so behind every fork the ring through the init task holds that task and the newest
  one only (`forkRun_newest`). It is the ring of all tasks while there is at most one fork.
-/
import HelloOS.Sched.ForkRun
import Mathlib.Data.List.Perm.Subperm

namespace HelloOS.Sched

open HelloOS.Lib HelloOS.Mm

/-- The list through the init task is a well-formed ring of all tasks created so far, each
    exactly once. -/
def TaskRing (sym : Symbols) (m : Mem) (log : List (U64 × U64)) : Prop :=
  ∃ xs, IsRing (listNext m) (listPrev m) sym.initTask xs ∧
    ∀ t, t ∈ sym.initTask :: xs ↔ t ∈ tasks sym log

variable {sym : Symbols} {k : Kernel} {log : List (U64 × U64)}

/-- The init task and the newest task point at each other, both ways. -/
theorem forkRun_newest (r : ForkRun sym k log) :
    Linked (listNext k.mem) (listPrev k.mem) sym.initTask (newest sym log) ∧
      Linked (listNext k.mem) (listPrev k.mem) (newest sym log) sym.initTask := by
  induction r with
  | start b m hpid =>
      have h : Linked (listNext (listInit m sym.initTask)) (listPrev (listInit m sym.initTask))
          sym.initTask sym.initTask := ⟨listNext_listInit m, listPrev_listInit m⟩
      exact ⟨h, h⟩
  | fork rsp regs tsk r hok ih =>
      obtain ⟨h1, h2, -, -⟩ := forkStep r hok
      exact ⟨h1, h2⟩
  | other cs m r hm ih =>
      obtain ⟨hi1, hi2⟩ := links_of_linkBytes (hm _ (initTask_mem _))
      obtain ⟨hn1, hn2⟩ := links_of_linkBytes (hm _ (newest_mem _))
      unfold Linked at ih ⊢
      rw [hi1, hi2, hn1, hn2]
      exact ih

/-- The walk from the init task is back after two steps, so its ring has at most two members. -/
theorem TaskRing.length_le (h : TaskRing sym k.mem log) (r : ForkRun sym k log) :
    log.length ≤ 1 := by
  obtain ⟨xs, hring, hmem⟩ := h
  obtain ⟨h1, h2⟩ := forkRun_newest r
  have hxs := hring.length_le_one (by rw [h1.1, h2.1])
  have hle := (List.subperm_of_subset r.nodup fun t ht => (hmem t).mpr ht).length_le
  rw [tasks_length, List.length_cons] at hle
  omega

/-- **The task ring.** Behind every run of forks, the list through the init task is a ring of
    all tasks exactly when the run has at most one fork. -/
theorem forkRun_taskRing (r : ForkRun sym k log) : TaskRing sym k.mem log ↔ log.length ≤ 1 := by
  refine ⟨fun h => h.length_le r, fun hlen => ?_⟩
  obtain ⟨h1, h2⟩ := forkRun_newest r
  cases log with
  | nil => exact ⟨[], isRing_nil.mpr h1, fun t => Iff.rfl⟩
  | cons f rest =>
      obtain rfl : rest = [] := List.eq_nil_of_length_eq_zero (Nat.le_zero.mp
        (Nat.le_of_succ_le_succ hlen))
      obtain ⟨t, p⟩ := f
      have hne : sym.initTask ≠ t := by
        have := r.nodup
        simp only [tasks, List.map_cons, List.map_nil, List.cons_append, List.nil_append,
          List.nodup_cons, List.mem_singleton] at this
        exact fun h => this.1 h.symm
      refine ⟨[t], (isRing_singleton hne).mpr ⟨h1, h2⟩, fun u => ?_⟩
      simp [tasks, or_comm]

theorem forkRun_taskRing_small :
    TaskRing smallSymbols (smallFork smallKernel).mem
      [(0xffff800000101000#64, smallSymbols.initTask)] :=
  (forkRun_taskRing smallRun_one).mpr (by decide)

/-- Behind two forks of the init task, the first child is not in the list. -/
theorem not_taskRing_small :
    ForkRun smallSymbols (smallFork (smallFork smallKernel))
      [(0xffff800000109000#64, smallSymbols.initTask),
        (0xffff800000101000#64, smallSymbols.initTask)] ∧
    ¬ TaskRing smallSymbols (smallFork (smallFork smallKernel)).mem
      [(0xffff800000109000#64, smallSymbols.initTask),
        (0xffff800000101000#64, smallSymbols.initTask)] := by
  refine ⟨smallRun_two, fun h => ?_⟩
  exact absurd (h.length_le smallRun_two) (by decide)

end HelloOS.Sched
