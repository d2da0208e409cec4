/-
  The data-port protocol of the ATA driver, against a disk that returns any bytes.

  A disk is a stream of status bytes and a stream of data words; the wire keeps the log of all
  accesses. A burst is a maximal run of accesses to the data port. It is announced if since
  the burst before it, or the command, a status byte with BSY clear and DRQ set was read. The
  driver's second loop waits for RDY instead of DRQ, so what it has seen when it ends need not
  announce anything.
-/
import HelloOS.Drivers.Ata

namespace HelloOS.Drivers

open HelloOS.Lib

/-! ## The wire -/

inductive Access
  | in8 (port : BitVec 16) (v : BitVec 8)
  | out8 (port : BitVec 16) (v : BitVec 8)
  | in16 (port : BitVec 16) (v : BitVec 16)
  | out32 (port : BitVec 16) (v : BitVec 32)

/-- An access to the data port. -/
def Access.IsData : Access → Prop
  | .in8 _ _ => False
  | .out8 _ _ => False
  | .in16 port _ => port = portData
  | .out32 port _ => port = portData

instance (a : Access) : Decidable a.IsData := by
  cases a <;> unfold Access.IsData <;> infer_instance

/-- The log, and how many status bytes have been read. -/
structure Wire where
  log : List Access
  polls : ℕ

/-- What a disk returns: status bytes in order, and a data word for each access. -/
structure AnyDisk where
  status : ℕ → BitVec 8
  word : ℕ → BitVec 16

def Wire.start : Wire := ⟨[], 0⟩

def Wire.record (w : Wire) (a : Access) : Wire := { w with log := w.log ++ [a] }

def AnyDisk.bus (d : AnyDisk) : Bus Wire where
  in8 := fun port w =>
    if port = portStatus then
      (d.status w.polls, ⟨w.log ++ [.in8 port (d.status w.polls)], w.polls + 1⟩)
    else (0xff#8, w.record (.in8 port 0xff#8))
  out8 := fun port v w => w.record (.out8 port v)
  in16 := fun port w => (d.word w.log.length, w.record (.in16 port (d.word w.log.length)))
  out32 := fun port v w => w.record (.out32 port v)

/-- Reading the status. -/
def AnyDisk.tick (d : AnyDisk) (w : Wire) : Wire :=
  ⟨w.log ++ [.in8 portStatus (d.status w.polls)], w.polls + 1⟩

theorem AnyDisk.streams (d : AnyDisk) :
    Streams d.bus portStatus d.status Wire.polls d.tick :=
  ⟨fun _ => rfl, fun _ => rfl⟩

/-! ## Announced bursts -/

/-- BSY is clear and DRQ set. -/
def showsDrq (v : BitVec 8) : Bool := v &&& statusBsy == 0#8 && v &&& statusDrq != 0#8

/-- Where a log stands: a status byte has announced the next burst; a burst is going on. -/
structure Phase where
  announced : Bool
  inBurst : Bool

/-- One access; a burst that has not been announced is an error. -/
def Phase.next (s : Phase) (a : Access) : Option Phase :=
  if a.IsData then
    if s.inBurst || s.announced then some ⟨false, true⟩ else none
  else
    match a with
    | .in8 port v => some ⟨s.announced || (port == portStatus && showsDrq v), false⟩
    | .out8 port _ => some ⟨s.announced && port != portStatus, false⟩
    | _ => some ⟨s.announced, false⟩

/-- The phase behind a log, if all its bursts have been announced. -/
def phase (log : List Access) : Option Phase := log.foldlM Phase.next ⟨false, false⟩

def BurstsAnnounced (log : List Access) : Prop := (phase log).isSome = true

theorem phase_append (l k : List Access) :
    phase (l ++ k) = (phase l).bind fun s => k.foldlM Phase.next s :=
  List.foldlM_append

theorem phase_none {l : List Access} (h : phase l = none) (k : List Access) :
    phase (l ++ k) = none := by
  rw [phase_append, h]
  rfl

/-! ## Polling -/

/-- The status reads with the indices `p, …, p + n - 1`. -/
def statusReads (stream : ℕ → BitVec 8) (p n : ℕ) : List Access :=
  (List.range' p n).map fun i => .in8 portStatus (stream i)

theorem iterate_tick (d : AnyDisk) (w : Wire) (n : ℕ) :
    Nat.iterate d.tick n w = ⟨w.log ++ statusReads d.status w.polls n, w.polls + n⟩ := by
  induction n generalizing w with
  | zero =>
    unfold statusReads
    rw [List.range'_zero, List.map_nil, List.append_nil]
    rfl
  | succ n ih =>
    rw [Function.iterate_succ_apply, ih]
    unfold AnyDisk.tick statusReads
    rw [List.range'_succ, List.map_cons, List.append_assoc, Nat.add_right_comm]
    rfl

theorem next_status (s : Phase) (v : BitVec 8) :
    s.next (.in8 portStatus v) = some ⟨s.announced || showsDrq v, false⟩ := by
  have hno : ¬ (Access.in8 portStatus v).IsData := not_false
  unfold Phase.next
  rw [if_neg hno]
  dsimp only
  rw [beq_self_eq_true, Bool.true_and]

/-- Status reads announce a burst as soon as one of them shows DRQ. -/
theorem foldlM_statusReads (stream : ℕ → BitVec 8) (p n : ℕ) (s : Phase) :
    (statusReads stream p (n + 1)).foldlM Phase.next s =
      some ⟨s.announced || (List.range' p (n + 1)).any fun i => showsDrq (stream i), false⟩ := by
  induction n generalizing p s with
  | zero =>
    unfold statusReads
    rw [List.range'_one, List.map_singleton, List.foldlM_cons, next_status]
    simp
  | succ n ih =>
    have hcons : statusReads stream p (n + 1 + 1) =
        .in8 portStatus (stream p) :: statusReads stream (p + 1) (n + 1) := by
      unfold statusReads
      rw [List.range'_succ, List.map_cons]
    rw [hcons, List.foldlM_cons, next_status, Option.bind_eq_bind, Option.bind_some, ih,
      List.range'_succ (s := p), List.any_cons, Bool.or_assoc]

/-! ## Bursts -/

/-- Accesses to the data port only, and at least one. -/
def IsBurst (burst : BitVec 64 → Wire × Mem → Wire × Mem) : Prop :=
  ∀ p w m, ∃ a l, (burst p (w, m)).1 = ⟨w.log ++ a :: l, w.polls⟩ ∧
    ∀ b ∈ a :: l, Access.IsData b

theorem next_data {a : Access} (h : a.IsData) (s : Phase) :
    s.next a = if s.inBurst || s.announced then some ⟨false, true⟩ else none := by
  unfold Phase.next
  rw [if_pos h]

/-- A burst that has begun goes on. -/
theorem foldlM_data {l : List Access} (h : ∀ a ∈ l, a.IsData) :
    l.foldlM Phase.next ⟨false, true⟩ = some ⟨false, true⟩ := by
  induction l with
  | nil => rfl
  | cons a l ih =>
    rw [List.forall_mem_cons] at h
    rw [List.foldlM_cons, next_data h.1]
    exact ih h.2

theorem foldlM_burst {a : Access} {l : List Access} (h : ∀ b ∈ a :: l, Access.IsData b)
    (announced : Bool) :
    (a :: l).foldlM Phase.next ⟨announced, false⟩ =
      if announced then some ⟨false, true⟩ else none := by
  rw [List.forall_mem_cons] at h
  rw [List.foldlM_cons, next_data h.1]
  cases announced with
  | false => rfl
  | true => exact foldlM_data h.2

theorem inWords_isBurst (d : AnyDisk) (n : ℕ) : IsBurst (inWords d.bus (n + 1)) := by
  induction n with
  | zero =>
    intro p w m
    refine ⟨_, [], rfl, ?_⟩
    intro b hb
    rw [List.mem_singleton.mp hb]
    exact rfl
  | succ n ih =>
    intro p w m
    obtain ⟨a, l, he, hl⟩ := ih (p + 2#64) (w.record (.in16 portData (d.word w.log.length)))
      (m.write16 p (d.word w.log.length))
    refine ⟨.in16 portData (d.word w.log.length), a :: l, ?_, List.forall_mem_cons.mpr ⟨rfl, hl⟩⟩
    unfold Wire.record at he
    rw [List.append_assoc] at he
    exact he

theorem outWords_isBurst (d : AnyDisk) (n : ℕ) : IsBurst (outWords d.bus (n + 1)) := by
  induction n with
  | zero =>
    intro p w m
    refine ⟨_, [], rfl, ?_⟩
    intro b hb
    rw [List.mem_singleton.mp hb]
    exact rfl
  | succ n ih =>
    intro p w m
    obtain ⟨a, l, he, hl⟩ := ih (p + 4#64) (w.record (.out32 portData (m.read32 p))) m
    refine ⟨.out32 portData (m.read32 p), a :: l, ?_, List.forall_mem_cons.mpr ⟨rfl, hl⟩⟩
    unfold Wire.record at he
    rw [List.append_assoc] at he
    exact he

/-! ## Sectors -/

/-- What the disk must show for `n` sectors whose polling starts at status byte `p`: with the
    first byte that has BSY clear, or with one behind it up to the first that has RDY set,
    BSY clear and DRQ set. -/
def SectorsShown (stream : ℕ → BitVec 8) : ℕ → ℕ → Prop
  | 0, _ => True
  | n + 1, p => ∃ b r, FirstFrom notBusy stream p b ∧ FirstFrom ready stream (b + 1) r ∧
      (∃ k, b ≤ k ∧ k ≤ r ∧ showsDrq (stream k) = true) ∧ SectorsShown stream n (r + 1)

/-- The same for a whole call, which first waits for BSY to clear. -/
def CallShown (stream : ℕ → BitVec 8) (sectorCount : BitVec 8) : Prop :=
  ∃ b, FirstFrom notBusy stream 0 b ∧ SectorsShown stream sectorCount.toNat (b + 1)

/-- One polling loop, in the log. -/
theorem poll_log (d : AnyDisk) {stop : BitVec 8 → Bool} {fuel : ℕ} {w w' : Wire}
    (h : pollUntil d.bus portStatus stop fuel w = some w') :
    ∃ q, FirstFrom stop d.status w.polls q ∧
      w' = ⟨w.log ++ statusReads d.status w.polls (q + 1 - w.polls), q + 1⟩ := by
  obtain ⟨q, hq, -, hw⟩ := (pollUntil_iff d.streams fuel w w').mp h
  refine ⟨q, hq, ?_⟩
  have := hq.1
  rw [hw, iterate_tick, show w.polls + (q + 1 - w.polls) = q + 1 by omega]

theorem notBusy_of_showsDrq {v : BitVec 8} (h : showsDrq v = true) : notBusy v = true := by
  unfold showsDrq at h
  rw [Bool.and_eq_true] at h
  exact h.1

/-- The reads of both loops announce a burst if one of those from the end of the first on
    does: before it BSY is set. -/
theorem any_showsDrq {stream : ℕ → BitVec 8} {p b r : ℕ} (hb : FirstFrom notBusy stream p b)
    (hr : FirstFrom ready stream (b + 1) r) :
    ((List.range' p (r + 1 - p)).any fun i => showsDrq (stream i)) = true ↔
      ∃ k, b ≤ k ∧ k ≤ r ∧ showsDrq (stream k) = true := by
  have hpb := hb.1
  have hbr := hr.1
  rw [List.any_eq_true]
  constructor
  · rintro ⟨k, hk, hshow⟩
    rw [List.mem_range'_1] at hk
    refine ⟨k, ?_, by omega, hshow⟩
    by_contra hlt
    have hbusy := hb.2.2 k hk.1 (by omega)
    rw [notBusy_of_showsDrq hshow] at hbusy
    cases hbusy
  · rintro ⟨k, hbk, hkr, hshow⟩
    refine ⟨k, ?_, hshow⟩
    rw [List.mem_range'_1]
    omega

/-- The two loops before a burst. -/
theorem waits_log (d : AnyDisk) {fuel : ℕ} {w w₁ w₂ : Wire}
    (h₁ : ataWaitBsy d.bus fuel w = some w₁) (h₂ : ataWaitDrq d.bus fuel w₁ = some w₂) :
    ∃ b r, FirstFrom notBusy d.status w.polls b ∧ FirstFrom ready d.status (b + 1) r ∧
      w₂ = ⟨w.log ++ statusReads d.status w.polls (r + 1 - w.polls), r + 1⟩ := by
  obtain ⟨b, hb, rfl⟩ := poll_log d h₁
  obtain ⟨r, hr, rfl⟩ := poll_log d h₂
  refine ⟨b, r, hb, hr, ?_⟩
  have hpb := hb.1
  have hbr : b + 1 ≤ r := hr.1
  have hreads : statusReads d.status w.polls (b + 1 - w.polls) ++
      statusReads d.status (b + 1) (r + 1 - (b + 1)) =
      statusReads d.status w.polls (r + 1 - w.polls) := by
    unfold statusReads
    rw [← List.map_append]
    have happend := List.range'_append_1 (s := w.polls) (m := b + 1 - w.polls)
      (n := r + 1 - (b + 1))
    rw [show w.polls + (b + 1 - w.polls) = b + 1 by omega,
      show b + 1 - w.polls + (r + 1 - (b + 1)) = r + 1 - w.polls by omega] at happend
    rw [happend]
  dsimp only
  rw [List.append_assoc, hreads]

variable {d : AnyDisk} {burst : BitVec 64 → Wire × Mem → Wire × Mem} {advance : BitVec 64}
  {fuel : ℕ}

/-- One round of the loop over the sectors. -/
theorem sectors_succ {n : ℕ} {p : BitVec 64} {w : Wire} {m : Mem} {out : Wire × Mem}
    (h : sectors d.bus fuel burst advance (n + 1) p (w, m) = some out) :
    ∃ w₁ w₂, ataWaitBsy d.bus fuel w = some w₁ ∧ ataWaitDrq d.bus fuel w₁ = some w₂ ∧
      sectors d.bus fuel burst advance n (p + advance) (burst p (w₂, m)) = some out := by
  unfold sectors at h
  obtain ⟨w₁, h₁, h⟩ := Option.bind_eq_some_iff.mp h
  obtain ⟨w₂, h₂, h⟩ := Option.bind_eq_some_iff.mp h
  exact ⟨w₁, w₂, h₁, h₂, h⟩

/-- An error stays one. -/
theorem sectors_none (hburst : IsBurst burst) {n : ℕ} {p : BitVec 64} {s out : Wire × Mem}
    (hrun : sectors d.bus fuel burst advance n p s = some out) (hs : phase s.1.log = none) :
    phase out.1.log = none := by
  induction n generalizing p s with
  | zero =>
    rw [← Option.some.inj hrun]
    exact hs
  | succ n ih =>
    obtain ⟨w, m⟩ := s
    obtain ⟨w₁, w₂, h₁, h₂, hrest⟩ := sectors_succ hrun
    obtain ⟨b, r, -, -, rfl⟩ := waits_log d h₁ h₂
    apply ih hrest
    obtain ⟨a, l, he, -⟩ := hburst p ⟨_, r + 1⟩ m
    rw [he]
    exact phase_none (phase_none hs _) _

/-- From a log without an announcement, the bursts of a run are announced exactly if the disk
    shows it for each sector. -/
theorem sectors_announced (hburst : IsBurst burst) {n : ℕ} {p : BitVec 64} {s out : Wire × Mem}
    (hrun : sectors d.bus fuel burst advance n p s = some out) {inBurst : Bool}
    (hs : phase s.1.log = some ⟨false, inBurst⟩) :
    BurstsAnnounced out.1.log ↔ SectorsShown d.status n s.1.polls := by
  induction n generalizing p s inBurst with
  | zero =>
    rw [← Option.some.inj hrun]
    unfold BurstsAnnounced SectorsShown
    rw [hs]
    exact iff_true_intro rfl
  | succ n ih =>
    obtain ⟨w, m⟩ := s
    obtain ⟨w₁, w₂, h₁, h₂, hrest⟩ := sectors_succ hrun
    obtain ⟨b, r, hb, hr, rfl⟩ := waits_log d h₁ h₂
    have hpr : w.polls ≤ r := by
      have := hb.1
      have := hr.1
      omega
    obtain ⟨a, l, he, hdata⟩ := hburst p ⟨w.log ++ statusReads d.status w.polls (r + 1 - w.polls),
      r + 1⟩ m
    have hany := any_showsDrq hb hr
    generalize hshown : ((List.range' w.polls (r + 1 - w.polls)).any fun i =>
      showsDrq (d.status i)) = shown at hany
    -- the phase behind the burst depends on what the two loops have read
    have hphase : phase ((burst p (⟨w.log ++ statusReads d.status w.polls (r + 1 - w.polls),
        r + 1⟩, m)).1.log) = if shown then some ⟨false, true⟩ else none := by
      have hreads := foldlM_statusReads d.status w.polls (r - w.polls) ⟨false, inBurst⟩
      rw [show r - w.polls + 1 = r + 1 - w.polls by omega, hshown, Bool.false_or] at hreads
      rw [he]
      dsimp only
      rw [phase_append, phase_append, show phase w.log = _ from hs, Option.bind_some, hreads,
        Option.bind_some, foldlM_burst hdata]
    cases shown with
    | true =>
      have hpolls : (burst p (⟨w.log ++ statusReads d.status w.polls (r + 1 - w.polls),
          r + 1⟩, m)).1.polls = r + 1 := by rw [he]
      rw [ih hrest hphase, hpolls]
      constructor
      · intro h
        exact ⟨b, r, hb, hr, hany.mp rfl, h⟩
      · rintro ⟨b', r', hb', hr', -, h⟩
        obtain rfl := hb.unique hb'
        obtain rfl := hr.unique hr'
        exact h
    | false =>
      unfold BurstsAnnounced
      rw [sectors_none hburst hrest hphase]
      constructor
      · intro h
        cases h
      · rintro ⟨b', r', hb', hr', hk, -⟩
        obtain rfl := hb.unique hb'
        obtain rfl := hr.unique hr'
        cases hany.mpr hk

/-! ## Calls -/

/-- The task file ends in the command, behind which nothing has been announced. -/
theorem outAll_phase (d : AnyDisk) (lba : BitVec 32) (sectorCount cmd : BitVec 8) (w : Wire)
    {s : Phase} (hs : phase w.log = some s) :
    phase (outAll d.bus (taskFile lba sectorCount cmd) w).log = some ⟨false, false⟩ := by
  have hlog : (outAll d.bus (taskFile lba sectorCount cmd) w).log =
      w.log ++ (taskFile lba sectorCount cmd).map fun a => Access.out8 a.1 a.2 := by
    change w.log ++ [_] ++ [_] ++ [_] ++ [_] ++ [_] ++ [_] = _
    rw [List.append_assoc, List.append_assoc, List.append_assoc, List.append_assoc,
      List.append_assoc]
    rfl
  rw [hlog, phase_append, hs]
  cases s with
  | mk announced inBurst => cases announced <;> rfl

theorem transfer_announced (hburst : IsBurst burst) {lba : BitVec 32} {sectorCount cmd : BitVec 8}
    {p : BitVec 64} {m : Mem} {out : Wire × Mem}
    (hrun : transfer d.bus fuel lba sectorCount cmd burst advance p (Wire.start, m) = some out) :
    BurstsAnnounced out.1.log ↔ CallShown d.status sectorCount := by
  obtain ⟨w, hw, hrest⟩ := Option.bind_eq_some_iff.mp hrun
  obtain ⟨b, hb, rfl⟩ := poll_log d hw
  have hstart := foldlM_statusReads d.status 0 b ⟨false, false⟩
  have hphase := outAll_phase d lba sectorCount cmd
    ⟨Wire.start.log ++ statusReads d.status 0 (b + 1), b + 1⟩ hstart
  have hiff := sectors_announced hburst hrest hphase
  rw [hiff]
  -- the task file is written without reading the status
  change SectorsShown d.status sectorCount.toNat (b + 1) ↔ _
  constructor
  · intro h
    exact ⟨b, hb, h⟩
  · rintro ⟨b', hb', h⟩
    obtain rfl := hb.unique hb'
    exact h

/-- **The data-port protocol.** For every disk, every request and every buffer: in a run of
    `read_sectors_ATA_PIO` or of `write_sectors_ATA_PIO` that returns, every burst of accesses
    to the data port has been announced by a status byte with BSY clear and DRQ set, exactly
    if the disk shows one to the two loops of each sector. -/
theorem burstsAnnounced_iff (d : AnyDisk) (fuel : ℕ) (lba target : BitVec 32)
    (sectorCount : BitVec 8) (bytes : BitVec 64) (m : Mem) (out : Wire × Mem)
    (hrun : readSectorsAtaPio d.bus fuel target lba sectorCount (Wire.start, m) = some out ∨
      writeSectorsAtaPio d.bus fuel lba sectorCount bytes (Wire.start, m) = some out) :
    BurstsAnnounced out.1.log ↔ CallShown d.status sectorCount := by
  rcases hrun with hrun | hrun
  · exact transfer_announced (inWords_isBurst d 255) hrun
  · exact transfer_announced (outWords_isBurst d 255) hrun

/-! ## Disks that are always ready -/

/-- A disk that returns one status byte for ever. -/
def steadyDisk (v : BitVec 8) : AnyDisk := ⟨fun _ => v, fun _ => 0#16⟩

theorem steadyDisk_responsive {v : BitVec 8} (hbsy : notBusy v = true) (hrdy : ready v = true) :
    Responsive (steadyDisk v).status :=
  ⟨fun p => ⟨p, le_refl p, hbsy⟩, fun p => ⟨p, le_refl p, hrdy⟩⟩

/-- A disk that always shows RDY and DRQ. -/
theorem burstsAnnounced_drq :
    ∃ fuel out, readSectorsAtaPio (steadyDisk 0x48#8).bus fuel 0#32 0#32 1#8
      (Wire.start, fun _ => 0#8) = some out ∧ BurstsAnnounced out.1.log := by
  obtain ⟨fuel, out, hrun⟩ := transfer_returns (steadyDisk 0x48#8).streams
    (steadyDisk_responsive rfl rfl) 0#32 1#8 0x20#8 (inWords (steadyDisk 0x48#8).bus 256) 512#64
    0#64 (Wire.start, fun _ => 0#8)
  refine ⟨fuel, out, hrun fuel (le_refl _), ?_⟩
  have hiff := burstsAnnounced_iff (steadyDisk 0x48#8) fuel 0#32 0#32 1#8 0#64 (fun _ => 0#8) out
    (Or.inl (hrun fuel (le_refl _)))
  rw [hiff]
  refine ⟨0, firstFrom_self rfl, 1, 2, firstFrom_self rfl, firstFrom_self rfl, ?_, trivial⟩
  exact ⟨1, by omega, by omega, rfl⟩

/-- A disk that is ready but never requests data. -/
theorem burstsAnnounced_rdy :
    ¬ ∀ (d : AnyDisk) (fuel : ℕ) (lba target : BitVec 32) (sectorCount : BitVec 8) (m : Mem)
      (out : Wire × Mem),
      readSectorsAtaPio d.bus fuel target lba sectorCount (Wire.start, m) = some out →
        BurstsAnnounced out.1.log := by
  intro h
  obtain ⟨fuel, out, hrun⟩ := transfer_returns (steadyDisk 0x40#8).streams
    (steadyDisk_responsive rfl rfl) 0#32 1#8 0x20#8 (inWords (steadyDisk 0x40#8).bus 256) 512#64
    0#64 (Wire.start, fun _ => 0#8)
  have hrun := hrun fuel (le_refl _)
  have hshown := (transfer_announced (inWords_isBurst _ 255) hrun).mp
    (h (steadyDisk 0x40#8) fuel 0#32 0#32 1#8 _ out hrun)
  obtain ⟨b, -, -, -, -, -, ⟨k, -, -, hk⟩, -⟩ := hshown
  have hnot : showsDrq 0x40#8 = false := rfl
  exact Bool.false_ne_true (hnot.symm.trans hk)

end HelloOS.Drivers
