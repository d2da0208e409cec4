/-
  The disk driver under interrupts.

  `ata_init` runs behind the `sti` of `init_interrupt`, so interrupts come while the driver polls
  and transfers. Their handlers talk to the keyboard and the master chip, and the driver to the
  disk: whatever interrupts come in front of whichever accesses to the ports, the driver's calls
  do what they do alone, and the interrupts do what they do without the calls
  (`requests_interrupted`). The driver's buffers and its stack are no handler's.
-/
import HelloOS.Drivers.AtaPorts
import HelloOS.Irq.Log

namespace HelloOS.Irq

open HelloOS.Lib HelloOS.Drivers

variable {τ : Type} (dev : Bus τ) (status : ℕ → BitVec 8)

/-! ## The machine with the disk -/

/-- The disk beside the other devices. -/
abbrev diskBus : Bus (AtaDisk × τ) := (AtaDisk.bus status).beside diskPort dev

/-- The machine with the disk `d`. -/
def withDisk (d : AtaDisk) (s : PicMachine τ) : PicMachine (AtaDisk × τ) :=
  { dev := (s.dev.1, d, s.dev.2), gates := s.gates, keyboard := s.keyboard, printed := s.printed }

/-- The accesses of the code that runs. -/
def Machine.bus {σ : Type} (bus : Bus σ) : Bus (Machine σ) where
  in8 := fun port s => ((bus.in8 port s.dev).1, { s with dev := (bus.in8 port s.dev).2 })
  out8 := fun port v s => { s with dev := bus.out8 port v s.dev }
  in16 := fun port s => ((bus.in16 port s.dev).1, { s with dev := (bus.in16 port s.dev).2 })
  out32 := fun port v s => { s with dev := bus.out32 port v s.dev }

/-- An interrupt; the disk is where the driver has left it. -/
def interruptBeside (s : PicMachine (AtaDisk × τ)) (d : Delivery τ) : PicMachine (AtaDisk × τ) :=
  interrupt (diskBus dev status) ⟨d.line, s.dev.2.1, d.dev⟩ s

/-- The machine as the driver sees it, with the interrupts `irqs n` in front of access `n`. -/
def interruptedBus (irqs : ℕ → List (Delivery τ)) : Bus (PicMachine (AtaDisk × τ) × ℕ) :=
  (Machine.bus (Pics.bus (diskBus dev status))).preempted fun n s =>
    (irqs n).foldl (interruptBeside dev status) s

/-- The interrupts in front of the first `n` accesses. -/
def taken (irqs : ℕ → List (Delivery τ)) (n : ℕ) : List (Delivery τ) :=
  (List.range n).flatMap irqs

/-! ## Interrupts leave the disk alone -/

theorem doIrq_withDisk (nr : BitVec 64) (d : AtaDisk) (s : PicMachine τ) :
    doIrq (Pics.bus (diskBus dev status)) nr (withDisk d s) =
      withDisk d (doIrq (Pics.bus dev) nr s) := by
  unfold doIrq
  split_ifs <;> rfl

theorem interrupt_withDisk (d : Delivery τ) (disk : AtaDisk) (s : PicMachine τ) :
    interruptBeside dev status (withDisk disk s) d = withDisk disk (interrupt dev d s) := by
  unfold interruptBeside interrupt
  have hgates : (withDisk disk s).gates ((withDisk disk s).pics.vector d.line) =
      s.gates (s.pics.vector d.line) := rfl
  dsimp only
  rw [hgates]
  cases s.gates (s.pics.vector d.line) with
  | none => rfl
  | some nr =>
    exact doIrq_withDisk dev status nr disk { s with dev := (s.pics.deliver d.line, d.dev) }

theorem interrupts_withDisk (ds : List (Delivery τ)) (disk : AtaDisk) (s : PicMachine τ) :
    ds.foldl (interruptBeside dev status) (withDisk disk s) =
      withDisk disk (afterAll dev ds s) := by
  induction ds generalizing s with
  | nil => rfl
  | cons d ds ih =>
    rw [List.foldl_cons, interrupt_withDisk]
    exact ih _

/-! ## The driver leaves the rest alone -/

/-- No port of the disk is one of the chips'. -/
theorem pics_write_disk {port : BitVec 16} (h : diskPort port) (v : BitVec 8) (p : Pics) :
    p.write port v = none := by
  unfold diskPort at h
  have hne : port ≠ 0x20#16 ∧ port ≠ 0x21#16 ∧ port ≠ 0xa0#16 ∧ port ≠ 0xa1#16 := by
    refine ⟨?_, ?_, ?_, ?_⟩
    all_goals
      rintro rfl
      exact absurd h (by decide)
  unfold Pics.write
  rw [if_neg hne.1, if_neg hne.2.1, if_neg hne.2.2.1, if_neg hne.2.2.2]

theorem machine_simulates (s : PicMachine τ) :
    (Machine.bus (Pics.bus (diskBus dev status))).Simulates diskPort (AtaDisk.bus status)
      fun s' d => s' = withDisk d s := by
  have hbeside := Bus.beside_simulates diskPort (AtaDisk.bus status) dev s.dev.2
  have hput : ∀ {x : AtaDisk × τ} {d : AtaDisk}, x = (d, s.dev.2) →
      (⟨(s.dev.1, x), s.gates, s.keyboard, s.printed⟩ : PicMachine (AtaDisk × τ)) =
        withDisk d s := by
    rintro _ d rfl
    rfl
  constructor
  case in8 =>
    rintro port _ d hport rfl
    obtain ⟨hv, hnext⟩ := hbeside.in8 (t := d) hport rfl
    exact ⟨hv, hput hnext⟩
  case out8 =>
    rintro port _ d hport rfl v
    have hnext := hbeside.out8 (t := d) hport rfl v
    have hwrite := pics_write_disk hport v s.dev.1
    unfold Machine.bus Pics.bus
    dsimp only [withDisk]
    rw [hwrite]
    exact hput hnext
  case in16 =>
    rintro port _ d hport rfl
    obtain ⟨hv, hnext⟩ := hbeside.in16 (t := d) hport rfl
    exact ⟨hv, hput hnext⟩
  case out32 =>
    rintro port _ d hport rfl v
    exact hput (hbeside.out32 (t := d) hport rfl v)

theorem taken_succ (irqs : ℕ → List (Delivery τ)) (n : ℕ) :
    taken irqs (n + 1) = taken irqs n ++ irqs n := by
  unfold taken
  rw [List.range_succ, List.flatMap_append, List.flatMap_singleton]

theorem interruptedBus_simulates (irqs : ℕ → List (Delivery τ)) (s : PicMachine τ) :
    (interruptedBus dev status irqs).Simulates diskPort (AtaDisk.bus status)
      fun s' d => s'.1 = withDisk d (afterAll dev (taken irqs s'.2) s) := by
  refine Bus.Simulates.preempted (fun n s' d => s' = withDisk d (afterAll dev (taken irqs n) s))
    (fun n => machine_simulates dev status _) fun n s' d hs => ?_
  rw [hs, interrupts_withDisk, taken_succ]
  unfold afterAll
  rw [List.foldl_append]

/-- **The driver under interrupts.** For every line of calls, any devices, disk, stream of status
    bytes and memory, and any interrupts in front of any accesses: with them the calls return if
    and only if they return alone, to the same disk and memory, and the chips, the keyboard, the
    log and the other devices are those behind the interrupts alone. An interrupt is taken not to
    touch the driver's buffers nor what lies on the C stack: the driver's frames, and the red zone
    below `rsp`, in which nothing is live in front of an access. -/
theorem requests_interrupted (irqs : ℕ → List (Delivery τ)) (fuel : ℕ) (rs : List Request)
    (s : PicMachine τ) (d : AtaDisk) (m : Mem) :
    Option.Rel
      (fun out out' => out.1.1 = withDisk out'.1 (afterAll dev (taken irqs out.1.2) s) ∧
        out.2 = out'.2)
      (requestsOn (interruptedBus dev status irqs) fuel rs ((withDisk d s, 0), m))
      (requests status fuel rs (d, m)) := by
  rw [← requestsOn_disk]
  exact requestsOn_simulates (interruptedBus_simulates dev status irqs s) fuel rs ⟨rfl, rfl⟩

end HelloOS.Irq
