/-
  Acknowledgement of interrupts: the chips that `init_interrupt` programs, under any sequence
  of interrupts handled by `do_IRQ`.

  `do_IRQ` ends with one non-specific end of interrupt, to the master. For a line of the
  master that is all there is to do. For a line of the slave it clears the master's bit 2 only:
  the line stays in service on the slave, and nothing ever ends it.
-/
import HelloOS.Irq.DoIrq

namespace HelloOS.Irq

open HelloOS.Lib HelloOS.Drivers HelloOS.Printk

variable {σ : Type} (dev : Bus σ)

/-! ## What `init_interrupt` establishes -/

/-- The chips' settings and the gates, as programmed. -/
structure Programmed (s : PicMachine σ) : Prop where
  masterBase : s.pics.master.base = 0x20#8
  slaveBase : s.pics.slave.base = 0x28#8
  slaveLine : s.pics.slaveLine = 2
  masterEoi : s.pics.master.autoEoi = false
  slaveEoi : s.pics.slave.autoEoi = false
  gates : ∀ i : Fin 24, s.gates (BitVec.ofNat 8 (32 + i)) = some (interruptTable i)

theorem setIntrGate_self (s : Machine σ) (i : Fin 24) :
    (setIntrGate s i).gates (BitVec.ofNat 8 (32 + i)) = some (interruptTable i) :=
  if_pos rfl

theorem setIntrGate_keeps (s : Machine σ) (i j : Fin 24)
    (h : s.gates (BitVec.ofNat 8 (32 + j)) = some (interruptTable j)) :
    (setIntrGate s i).gates (BitVec.ofNat 8 (32 + j)) = some (interruptTable j) := by
  unfold setIntrGate
  dsimp only
  split
  case isFalse => exact h
  case isTrue he =>
    have hij : j = i := by bv_omega
    rw [hij]

theorem setIntrGates (l : List (Fin 24)) (s : Machine σ) (i : Fin 24)
    (h : i ∈ l ∨ s.gates (BitVec.ofNat 8 (32 + i)) = some (interruptTable i)) :
    (l.foldl setIntrGate s).gates (BitVec.ofNat 8 (32 + i)) = some (interruptTable i) := by
  induction l generalizing s with
  | nil => exact h.resolve_left List.not_mem_nil
  | cons j l ih =>
    apply ih
    rcases h with h | h
    · rcases List.mem_cons.mp h with rfl | h
      · exact Or.inr (setIntrGate_self s _)
      · exact Or.inl h
    · exact Or.inr (setIntrGate_keeps s j i h)

theorem ioOut8s_gates (bus : Bus σ) (l : List (BitVec 16 × BitVec 8)) (s : Machine σ) :
    (l.foldl (fun s w => s.ioOut8 bus w.1 w.2) s).gates = s.gates := by
  induction l generalizing s with
  | nil => rfl
  | cons w l ih => exact ih _

/-- The chips behind the writes, whatever state they were in. -/
theorem picWrites_pics (s : PicMachine σ) :
    (picWrites.foldl (fun s w => s.ioOut8 (Pics.bus dev) w.1 w.2) s).pics =
      { master := ⟨.ocw1, true, false, 0x20#8, 0x04#8, false, 0#8, ∅⟩,
        slave := ⟨.ocw1, true, false, 0x28#8, 0x02#8, false, 0#8, ∅⟩ } := rfl

theorem initInterrupt_pics (s : PicMachine σ) :
    (initInterrupt (Pics.bus dev) s).pics =
      { master := ⟨.ocw1, true, false, 0x20#8, 0x04#8, false, 0#8, ∅⟩,
        slave := ⟨.ocw1, true, false, 0x28#8, 0x02#8, false, 0#8, ∅⟩ } := by
  unfold initInterrupt
  rw [Machine.print_pics]
  exact picWrites_pics dev _

theorem initInterrupt_programmed (s : PicMachine σ) :
    Programmed (initInterrupt (Pics.bus dev) s) := by
  have hp := initInterrupt_pics dev s
  refine ⟨?_, ?_, ?_, ?_, ?_, ?_⟩
  · rw [hp]
  · rw [hp]
  · rw [hp]; rfl
  · rw [hp]
  · rw [hp]
  · intro i
    unfold initInterrupt
    rw [Machine.print_gates, ioOut8s_gates]
    exact setIntrGates _ s i (Or.inl (List.mem_finRange i))

theorem initInterrupt_idle (s : PicMachine σ) : (initInterrupt (Pics.bus dev) s).pics.Idle := by
  rw [initInterrupt_pics]
  exact ⟨rfl, rfl⟩

/-! ## One interrupt -/

/-- What `do_IRQ` does to the chips: the end of interrupt to the master, and nothing else. -/
theorem doIrq_pics (nr : BitVec 64) (s : PicMachine σ) :
    (doIrq (Pics.bus dev) nr s).pics =
      { s.pics with master := s.pics.master.writeCommand 0x20#8 } := by
  unfold doIrq
  split_ifs <;> rfl

theorem doIrq_gates (bus : Bus σ) (nr : BitVec 64) (s : Machine σ) :
    (doIrq bus nr s).gates = s.gates := by
  unfold doIrq
  split_ifs <;> rfl

section
variable {s : PicMachine σ} (h : Programmed s) (d : Delivery σ)
include h

theorem Programmed.vector_eq (l : Fin 16) :
    s.pics.vector l = BitVec.ofNat 8 (32 + l.val) := by
  unfold Pics.vector Pic.vector
  split
  · rw [h.masterBase]
    exact (BitVec.ofNat_add 32 l.val).symm
  · rename_i hl
    rw [h.slaveBase, show 32 + l.val = 40 + (l.val - 8) by omega]
    exact (BitVec.ofNat_add 40 (l.val - 8)).symm

/-- The line's gate leads to its own stub, and `do_IRQ` runs. -/
theorem Programmed.interrupt_eq :
    interrupt dev d s = doIrq (Pics.bus dev) (interruptTable ⟨d.line.val, by omega⟩)
      { s with dev := (s.pics.deliver d.line, d.dev) } := by
  unfold interrupt
  dsimp only
  rw [h.vector_eq, h.gates ⟨d.line.val, by omega⟩]

theorem Programmed.interrupt_master :
    (interrupt dev d s).pics.master =
      (s.pics.deliver d.line).master.writeCommand 0x20#8 := by
  rw [h.interrupt_eq, doIrq_pics]
  rfl

theorem Programmed.interrupt_slave :
    (interrupt dev d s).pics.slave = (s.pics.deliver d.line).slave := by
  rw [h.interrupt_eq, doIrq_pics]
  rfl

/-- A line of the master leaves the slave alone. -/
theorem Programmed.slave_of_lt (hl : d.line.val < 8) :
    (interrupt dev d s).pics.slave = s.pics.slave := by
  rw [h.interrupt_slave]
  unfold Pics.deliver
  rw [dif_pos hl]

/-- A line of the slave stays in service there. -/
theorem Programmed.slave_of_ge (hl : ¬ d.line.val < 8) :
    (interrupt dev d s).pics.slave =
      { s.pics.slave with inService := insert ⟨d.line - 8, by omega⟩ s.pics.slave.inService } := by
  rw [h.interrupt_slave]
  unfold Pics.deliver
  rw [dif_neg hl]
  exact Pic.deliver_of_manual h.slaveEoi _

/-- The master comes out with the one line it delivered acknowledged. -/
theorem Programmed.master_eq (hm : s.pics.master.inService = ∅) :
    (interrupt dev d s).pics.master = s.pics.master := by
  rw [h.interrupt_master]
  unfold Pics.deliver
  split
  · exact Pic.deliver_eoi h.masterEoi hm _
  · exact Pic.deliver_eoi h.masterEoi hm _

theorem Programmed.interrupt (hm : s.pics.master.inService = ∅) :
    Programmed (interrupt dev d s) := by
  have hmaster := h.master_eq dev d hm
  have hslave : (Irq.interrupt dev d s).pics.slave.base = s.pics.slave.base ∧
      (Irq.interrupt dev d s).pics.slave.cascade = s.pics.slave.cascade ∧
      (Irq.interrupt dev d s).pics.slave.autoEoi = s.pics.slave.autoEoi := by
    by_cases hl : d.line.val < 8
    · rw [h.slave_of_lt dev d hl]
      exact ⟨rfl, rfl, rfl⟩
    · rw [h.slave_of_ge dev d hl]
      exact ⟨rfl, rfl, rfl⟩
  obtain ⟨hbase, hcascade, hauto⟩ := hslave
  refine ⟨?_, ?_, ?_, ?_, ?_, ?_⟩
  · rw [hmaster, h.masterBase]
  · rw [hbase, h.slaveBase]
  · unfold Pics.slaveLine
    rw [hcascade]
    exact h.slaveLine
  · rw [hmaster, h.masterEoi]
  · rw [hauto, h.slaveEoi]
  · intro i
    rw [h.interrupt_eq, doIrq_gates]
    exact h.gates i

end

/-! ## Sequences of interrupts -/

/-- What holds between two interrupts, whichever lines were delivered. -/
structure BetweenIrqs (s : PicMachine σ) : Prop where
  programmed : Programmed s
  masterClear : s.pics.master.inService = ∅

theorem initInterrupt_between (s : PicMachine σ) :
    BetweenIrqs (initInterrupt (Pics.bus dev) s) :=
  ⟨initInterrupt_programmed dev s, (initInterrupt_idle dev s).1⟩

theorem BetweenIrqs.interrupt {s : PicMachine σ} (h : BetweenIrqs s) (d : Delivery σ) :
    BetweenIrqs (interrupt dev d s) := by
  refine ⟨h.programmed.interrupt dev d h.masterClear, ?_⟩
  rw [h.programmed.master_eq dev d h.masterClear]
  exact h.masterClear

theorem BetweenIrqs.idle_iff {s : PicMachine σ} (h : BetweenIrqs s) (hi : s.pics.Idle)
    (d : Delivery σ) : (Irq.interrupt dev d s).pics.Idle ↔ d.line.val < 8 := by
  unfold Pics.Idle
  rw [h.programmed.master_eq dev d h.masterClear]
  by_cases hl : d.line.val < 8
  · rw [h.programmed.slave_of_lt dev d hl]
    exact ⟨fun _ => hl, fun _ => hi⟩
  · rw [h.programmed.slave_of_ge dev d hl]
    constructor
    · rintro ⟨-, he⟩
      exact absurd he (Finset.insert_ne_empty _ _)
    · intro hlt
      exact absurd hlt hl

/-- **Acknowledgement.** From `init_interrupt` on, whatever the chips were before it: after
    every `do_IRQ` of a sequence of interrupts no line is in service on either chip, exactly
    if all of them are lines of the master. -/
theorem irqs_acknowledged_iff (s : PicMachine σ) (ds : List (Delivery σ)) :
    (∀ s' ∈ afterEach dev ds (initInterrupt (Pics.bus dev) s), s'.pics.Idle) ↔
      ∀ d ∈ ds, d.line.val < 8 := by
  have hrun : ∀ (s : PicMachine σ), BetweenIrqs s → s.pics.Idle →
      ((∀ s' ∈ afterEach dev ds s, s'.pics.Idle) ↔ ∀ d ∈ ds, d.line.val < 8) := by
    induction ds with
    | nil =>
      intro s _ _
      exact ⟨fun _ d hd => absurd hd List.not_mem_nil, fun _ s' hs => absurd hs List.not_mem_nil⟩
    | cons d ds ih =>
      intro s h hi
      have hstep := h.idle_iff dev hi d
      unfold afterEach
      rw [List.forall_mem_cons, List.forall_mem_cons, hstep]
      apply and_congr_right
      intro hl
      exact ih _ (h.interrupt dev d) (hstep.mpr hl)
  exact hrun _ (initInterrupt_between dev s) (initInterrupt_idle dev s)

/-- One interrupt of the first disk, line 14. -/
theorem irqs_acknowledged_disk :
    ¬ ∀ (s : PicMachine Unit) (ds : List (Delivery Unit)),
      ∀ s' ∈ afterEach emptyBus ds (initInterrupt (Pics.bus emptyBus) s), s'.pics.Idle := by
  intro h
  let blank : Pic := ⟨.ocw1, false, false, 0#8, 0#8, false, 0#8, ∅⟩
  have hslave := (h ⟨(⟨blank, blank⟩, ()), fun _ => none, ⟨false, false⟩, []⟩ [⟨14, ()⟩] _
    (List.mem_singleton.mpr rfl)).2
  have hp := initInterrupt_programmed emptyBus
    ⟨(⟨blank, blank⟩, ()), fun _ => none, ⟨false, false⟩, []⟩
  rw [hp.slave_of_ge emptyBus ⟨14, ()⟩ (by decide)] at hslave
  exact Finset.insert_ne_empty _ _ hslave

/-! ## What the missing acknowledgement costs -/

theorem BetweenIrqs.slave_subset {s : PicMachine σ} (h : BetweenIrqs s) (d : Delivery σ) :
    s.pics.slave.inService ⊆ (Irq.interrupt dev d s).pics.slave.inService := by
  by_cases hl : d.line.val < 8
  · rw [h.programmed.slave_of_lt dev d hl]
  · rw [h.programmed.slave_of_ge dev d hl]
    exact Finset.subset_insert _ _

/-- Once a line `k` of the slave has been delivered, no interrupt of that line or of a lower
    one gets through again, whatever interrupts follow. -/
theorem slave_blocked {s : PicMachine σ} (h : BetweenIrqs s) {k : Fin 8}
    (hk : k ∈ s.pics.slave.inService) (ds : List (Delivery σ)) :
    ∀ s' ∈ afterEach dev ds s, ∀ l : Fin 16, k.val + 8 ≤ l.val → ¬ s'.pics.Accepts l := by
  induction ds generalizing s with
  | nil =>
    intro s' hs
    exact absurd hs List.not_mem_nil
  | cons d ds ih =>
    have hk' := h.slave_subset dev d hk
    intro s' hs l hl hacc
    rcases List.mem_cons.mp hs with rfl | hs
    · unfold Pics.Accepts at hacc
      rw [dif_neg (by omega)] at hacc
      have hlt := hacc.1.2 k hk'
      rw [Fin.lt_def] at hlt
      dsimp only at hlt
      omega
    · exact ih (h.interrupt dev d) hk' s' hs l hl hacc

end HelloOS.Irq
