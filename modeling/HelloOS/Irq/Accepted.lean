/-
  Which interrupts get through.

  The chips do not mask anything, and `do_IRQ` acknowledges the master's lines only. So a line of
  the master always gets through, and a line of the slave only if every line of the slave before it
  was a later one: the chips let a sequence of interrupts through exactly if its lines of the slave
  come in strictly descending order (`irqs_accepted_iff`). Of the disk's lines 14 and 15 each gets
  through once at most.
-/
import HelloOS.Irq.Acknowledge

namespace HelloOS.Irq

open HelloOS.Lib HelloOS.Drivers HelloOS.Printk

variable {σ : Type} (dev : Bus σ)

/-- Each of the interrupts gets through when its turn comes. -/
def Accepted : List (Delivery σ) → PicMachine σ → Prop
  | [], _ => True
  | d :: ds, s => s.pics.Accepts d.line ∧ Accepted ds (interrupt dev d s)

/-- The lines of the slave, in order. -/
def slaveLines (ds : List (Delivery σ)) : List (Fin 16) :=
  (ds.map Delivery.line).filter fun l => 8 ≤ l.val

theorem slaveLines_master {d : Delivery σ} (hl : d.line.val < 8) (ds : List (Delivery σ)) :
    slaveLines (d :: ds) = slaveLines ds :=
  List.filter_cons_of_neg (by simpa using hl)

theorem slaveLines_slave {d : Delivery σ} (hl : ¬ d.line.val < 8) (ds : List (Delivery σ)) :
    slaveLines (d :: ds) = d.line :: slaveLines ds :=
  List.filter_cons_of_pos (by simpa using hl)

/-- What holds between two interrupts, of the masks too. -/
structure Unmasked (s : PicMachine σ) : Prop extends BetweenIrqs s where
  master : s.pics.master.mask = 0#8
  slave : s.pics.slave.mask = 0#8

theorem initInterrupt_unmasked (s : PicMachine σ) :
    Unmasked (initInterrupt (Pics.bus dev) s) := by
  refine ⟨initInterrupt_between dev s, ?_, ?_⟩
  · rw [initInterrupt_pics]
  · rw [initInterrupt_pics]

section
variable {dev} {s : PicMachine σ} (h : Unmasked s)
include h

theorem Unmasked.interrupt (d : Delivery σ) : Unmasked (interrupt dev d s) := by
  refine ⟨h.toBetweenIrqs.interrupt dev d, ?_, ?_⟩
  · rw [h.programmed.master_eq dev d h.masterClear]
    exact h.master
  · by_cases hl : d.line.val < 8
    · rw [h.programmed.slave_of_lt dev d hl]
      exact h.slave
    · rw [h.programmed.slave_of_ge dev d hl]
      exact h.slave

/-- A line of the master gets through, a line of the slave if all in service there are later. -/
theorem Unmasked.accepts_iff (l : Fin 16) :
    s.pics.Accepts l ↔ (8 ≤ l.val → ∀ k ∈ s.pics.slave.inService, l.val < k.val + 8) := by
  have hmaster : ∀ i, s.pics.master.Accepts i := fun i => by
    unfold Pic.Accepts
    rw [h.master, h.masterClear]
    exact ⟨BitVec.getLsbD_zero, fun j hj => absurd hj (Finset.notMem_empty j)⟩
  unfold Pics.Accepts
  by_cases hl : l.val < 8
  · rw [dif_pos hl]
    exact ⟨fun _ h8 => absurd hl (by omega), fun _ => hmaster _⟩
  · rw [dif_neg hl, and_iff_left (hmaster _), Pic.Accepts, h.slave]
    constructor
    · rintro ⟨-, hall⟩ h8 k hk
      have hlt := Fin.lt_def.mp (hall k hk)
      dsimp only at hlt
      omega
    · intro hall
      refine ⟨BitVec.getLsbD_zero, fun k hk => Fin.lt_def.mpr ?_⟩
      have hlt := hall (by omega) k hk
      dsimp only
      omega

/-- From a state on: the lines of the slave descend, from below those in service. -/
theorem Unmasked.accepted_iff (ds : List (Delivery σ)) : Accepted dev ds s ↔
    (∀ l ∈ slaveLines ds, ∀ k ∈ s.pics.slave.inService, l.val < k.val + 8) ∧
      (slaveLines ds).Pairwise fun k l => l < k := by
  induction ds generalizing s with
  | nil => exact ⟨fun _ => ⟨fun l hl => absurd hl List.not_mem_nil, .nil⟩, fun _ => trivial⟩
  | cons d ds ih =>
      unfold Accepted
      rw [h.accepts_iff, ih (h.interrupt d)]
      by_cases hl : d.line.val < 8
      · rw [h.programmed.slave_of_lt dev d hl, slaveLines_master hl]
        exact and_iff_right fun h8 => absurd hl (by omega)
      · rw [h.programmed.slave_of_ge dev d hl, slaveLines_slave hl, List.forall_mem_cons,
          List.pairwise_cons]
        have hnew : (∀ l ∈ slaveLines ds, ∀ k ∈ insert ⟨d.line - 8, by omega⟩
              s.pics.slave.inService, l.val < k.val + 8) ↔
            (∀ l ∈ slaveLines ds, l < d.line) ∧
              ∀ l ∈ slaveLines ds, ∀ k ∈ s.pics.slave.inService, l.val < k.val + 8 := by
          rw [← forall₂_and]
          refine forall₂_congr fun l _ => ?_
          rw [Finset.forall_mem_insert, Fin.lt_def]
          exact and_congr_left fun _ => by dsimp only; omega
        rw [hnew]
        have h8 : 8 ≤ d.line.val := by omega
        tauto

end

/-- **What gets through.** From `init_interrupt` on, whatever the chips were before it: each of a
    sequence of interrupts gets through when its turn comes exactly if the lines of the slave among
    them come in strictly descending order. -/
theorem irqs_accepted_iff (s : PicMachine σ) (ds : List (Delivery σ)) :
    Accepted dev ds (initInterrupt (Pics.bus dev) s) ↔
      (slaveLines ds).Pairwise fun k l => l < k := by
  have hidle : (initInterrupt (Pics.bus dev) s).pics.slave.inService = ∅ :=
    (initInterrupt_idle dev s).2
  rw [(initInterrupt_unmasked dev s).accepted_iff, hidle]
  exact and_iff_right fun l _ k hk => absurd hk (Finset.notMem_empty k)

end HelloOS.Irq
