/-
  `read_sectors_ATA_PIO` against a disk.

  The inner loop takes 256 words of the next sector and `target` advances behind them, so that
  round after round the memory from `target` on is filled with the sectors in order
  (`inWords_disk`, `sectors_read`). The bus keeps a record of what came through the data port;
  a run does not depend on it (`readSectors_maps`).
-/
import HelloOS.Drivers.AtaWrite
import Mathlib.Tactic.Linarith

namespace HelloOS.Drivers

open HelloOS.Lib

/-! ## Runs on the image of a state -/

section Maps

variable {σ τ : Type} {bus : Bus σ} {bus' : Bus τ} {f : σ → τ}

theorem outAll_maps (h : bus.Maps bus' f) (ws : List (BitVec 16 × BitVec 8)) (s : σ) :
    outAll bus' ws (f s) = f (outAll bus ws s) := by
  induction ws generalizing s with
  | nil => rfl
  | cons w ws ih =>
    unfold outAll at ih ⊢
    rw [List.foldl_cons, List.foldl_cons, h.out8, ih]

theorem inWords_maps (h : bus.Maps bus' f) (n : ℕ) (p : BitVec 64) (s : σ × Mem) :
    inWords bus' n p (f s.1, s.2) = Prod.map f id (inWords bus n p s) := by
  induction n generalizing p s with
  | zero => rfl
  | succ n ih =>
    unfold inWords
    rw [h.in16]
    exact ih (p + 2#64) ((bus.in16 portData s.1).2, s.2.write16 p (bus.in16 portData s.1).1)

theorem sectors_maps (h : bus.Maps bus' f) {fuel : ℕ} {burst : BitVec 64 → σ × Mem → σ × Mem}
    {burst' : BitVec 64 → τ × Mem → τ × Mem}
    (hburst : ∀ p s, burst' p (f s.1, s.2) = Prod.map f id (burst p s)) (advance : BitVec 64)
    (n : ℕ) (p : BitVec 64) (s : σ × Mem) :
    sectors bus' fuel burst' advance n p (f s.1, s.2) =
      (sectors bus fuel burst advance n p s).map (Prod.map f id) := by
  induction n generalizing p s with
  | zero => rfl
  | succ n ih =>
    unfold sectors ataWaitBsy ataWaitDrq
    rw [h.pollUntil]
    cases pollUntil bus portStatus notBusy fuel s.1 with
    | none => rfl
    | some s₁ =>
      rw [Option.map_some, Option.bind_some, Option.bind_some, h.pollUntil]
      cases pollUntil bus portStatus ready fuel s₁ with
      | none => rfl
      | some s₂ =>
        rw [Option.map_some, Option.bind_some, Option.bind_some, hburst _ (s₂, s.2)]
        exact ih (p + advance) _

/-- A read on the image of a state. -/
theorem readSectors_maps (h : bus.Maps bus' f) (fuel : ℕ) (target lba : BitVec 32)
    (sectorCount : BitVec 8) (s : σ × Mem) :
    readSectorsAtaPio bus' fuel target lba sectorCount (f s.1, s.2) =
      (readSectorsAtaPio bus fuel target lba sectorCount s).map (Prod.map f id) := by
  unfold readSectorsAtaPio transfer ataWaitBsy
  rw [h.pollUntil]
  cases pollUntil bus portStatus notBusy fuel s.1 with
  | none => rfl
  | some s₁ =>
    rw [Option.map_some, Option.bind_some, Option.bind_some, outAll_maps h]
    exact sectors_maps h (inWords_maps h 256) _ _ _ (_, s.2)

end Maps

/-! ## The steps of a run -/

variable {status : ℕ → BitVec 8} {fuel : ℕ}

theorem recordedDisk_poll {stop : BitVec 8 → Bool} {d : AtaDisk}
    {w : List (BitVec 16 × BitVec 16)} {s : AtaDisk × List (BitVec 16 × BitVec 16)}
    (h : pollUntil (AtaDisk.bus status).recorded portStatus stop fuel (d, w) = some s) :
    ∃ k, s = (d.atPoll k, w) := by
  obtain ⟨q, -, -, rfl⟩ := (pollUntil_iff (AtaDisk.streams status).recorded fuel (d, w) s).mp h
  rw [Prod.map_iterate, Function.iterate_id]
  exact ⟨_, congrArg (·, w) (d.iterate_tick _)⟩

/-- The words that `k` inputs take, from byte `pos` of the disk on. -/
def inputs (d : AtaDisk) (pos k : ℕ) : List (BitVec 16 × BitVec 16) :=
  (List.range k).map fun i => (portData, d.wordAt (pos + 2 * i))

theorem inputs_append (d : AtaDisk) (pos j k : ℕ) :
    inputs d pos (j + k) = inputs d pos j ++ inputs d (pos + 2 * j) k := by
  unfold inputs
  rw [List.range_add, List.map_append, List.map_map]
  refine congrArg _ (List.map_congr_left fun i _ => ?_)
  rw [Function.comp_apply, Nat.mul_add, Nat.add_assoc]

theorem inputs_congr {d d' : AtaDisk} (h : d.bytes = d'.bytes) (pos k : ℕ) :
    inputs d pos k = inputs d' pos k := by
  unfold inputs AtaDisk.wordAt
  rw [h]

/-- A word of the disk lies in memory as its two bytes. -/
theorem write16_wordAt (m : Mem) (p : BitVec 64) (d : AtaDisk) (k : ℕ) :
    m.write16 p (d.wordAt k) = m.fill p 2 fun i => d.bytes (k + i) := by
  refine m.fill_congr p fun i hi => ?_
  unfold AtaDisk.wordAt
  rcases i with _ | _ | i
  · rw [Mem.byte_append_zero, Nat.add_zero]
  · rw [Mem.byte_append_succ, Mem.byte_zero]
  · omega

/-- The bytes behind the next `c`. -/
theorem bytes_shift (d : AtaDisk) (l pos c : ℕ) :
    (fun i => d.bytes (512 * l + (pos + c) + i)) = fun i => d.bytes (512 * l + pos + (c + i)) := by
  funext i
  rw [← Nat.add_assoc (512 * l) pos c, Nat.add_assoc _ c i]

/-- The inner loop moves the next `k` words. -/
theorem inWords_disk {d : AtaDisk} {l n pos k : ℕ} {p : BitVec 64} {m : Mem}
    {w : List (BitVec 16 × BitVec 16)} (hpos : pos + 2 * k ≤ 512 * n) (hk : 2 * k ≤ 2 ^ 64) :
    inWords (AtaDisk.bus status).recorded k p ((d.readingAt l n pos, w), m) =
      ((d.readingAt l n (pos + 2 * k), w ++ inputs d (512 * l + pos) k),
        m.fill p (2 * k) fun i => d.bytes (512 * l + pos + i)) := by
  induction k generalizing pos p m w with
  | zero =>
    rw [Nat.mul_zero, Mem.fill_zero]
    exact congrArg (fun w => ((d.readingAt l n pos, w), m)) (List.append_nil w).symm
  | succ k ih =>
    have hin : (AtaDisk.bus status).in16 portData (d.readingAt l n pos) =
        (d.wordAt (512 * l + pos), d.readingAt l n (pos + 2)) :=
      d.in16_readingAt status (by omega)
    have hstep : inWords (AtaDisk.bus status).recorded (k + 1) p ((d.readingAt l n pos, w), m) =
        inWords (AtaDisk.bus status).recorded k (p + 2#64)
          (((d.readingAt l n (pos + 2)), w ++ [(portData, d.wordAt (512 * l + pos))]),
            m.write16 p (d.wordAt (512 * l + pos))) := by
      conv_lhs => unfold inWords
      unfold Bus.recorded
      dsimp only
      rw [hin]
    have hinputs : inputs d (512 * l + pos) (k + 1) =
        [(portData, d.wordAt (512 * l + pos))] ++ inputs d (512 * l + (pos + 2)) k := by
      rw [Nat.add_comm k 1, inputs_append, ← Nat.add_assoc (512 * l) pos 2]
      rfl
    rw [hstep, ih (by omega) (by omega), write16_wordAt, bytes_shift, hinputs, ← List.append_assoc,
      show pos + 2 + 2 * k = pos + 2 * (k + 1) by ring, show 2 * (k + 1) = 2 + 2 * k by ring]
    exact congrArg _ (m.fill_fill p (n := 2) (fun i => d.bytes (512 * l + pos + i)) (by omega))

/-- A sector more or less. -/
theorem inputs_sector (d : AtaDisk) (l pos j : ℕ) :
    inputs d (512 * l + pos) (256 * (j + 1)) =
      inputs d (512 * l + pos) 256 ++ inputs d (512 * l + (pos + 512)) (256 * j) := by
  rw [Nat.mul_succ, Nat.add_comm (256 * j) 256, inputs_append, ← Nat.add_assoc]

/-- The loop over the sectors, whose `burst` moves the next one, moves `j` of them. -/
theorem sectors_read {l n : ℕ}
    {burst : BitVec 64 → (AtaDisk × List (BitVec 16 × BitVec 16)) × Mem →
      (AtaDisk × List (BitVec 16 × BitVec 16)) × Mem}
    (hburst : ∀ (d : AtaDisk) pos w p (m : Mem), pos + 512 ≤ 512 * n →
      burst p ((d.readingAt l n pos, w), m) =
        ((d.readingAt l n (pos + 512), w ++ inputs d (512 * l + pos) 256),
          m.fill p 512 fun i => d.bytes (512 * l + pos + i)))
    {d : AtaDisk} {pos j : ℕ} {p : BitVec 64} {m : Mem} {w : List (BitVec 16 × BitVec 16)}
    {out : (AtaDisk × List (BitVec 16 × BitVec 16)) × Mem}
    (hpos : pos + 512 * j ≤ 512 * n) (hj : 512 * j ≤ 2 ^ 64)
    (h : sectors (AtaDisk.bus status).recorded fuel burst 512#64 j p
      ((d.readingAt l n pos, w), m) = some out) :
    ∃ k, out =
      (((d.atPoll k).readingAt l n (pos + 512 * j), w ++ inputs d (512 * l + pos) (256 * j)),
        m.fill p (512 * j) fun i => d.bytes (512 * l + pos + i)) := by
  induction j generalizing d pos p m w with
  | zero =>
    refine ⟨d.polls, ?_⟩
    rw [Nat.mul_zero, Mem.fill_zero, ← Option.some.inj h]
    exact congrArg (fun w => ((d.readingAt l n pos, w), m)) (List.append_nil w).symm
  | succ j ih =>
    unfold sectors at h
    obtain ⟨d₁, h₁, h⟩ := Option.bind_eq_some_iff.mp h
    obtain ⟨d₂, h₂, h⟩ := Option.bind_eq_some_iff.mp h
    obtain ⟨k₁, rfl⟩ := recordedDisk_poll h₁
    obtain ⟨k₂, rfl⟩ := recordedDisk_poll h₂
    -- polling moves no data
    have hdisk : ((d.readingAt l n pos).atPoll k₁).atPoll k₂ = (d.atPoll k₂).readingAt l n pos :=
      rfl
    have hroom : pos + 512 ≤ 512 * n := by linarith
    have hroom' : pos + 512 + 512 * j ≤ 512 * n := by omega
    have hj' : 512 * j ≤ 2 ^ 64 := by omega
    rw [hdisk] at h
    rw [hburst (d.atPoll k₂) pos w p m hroom] at h
    obtain ⟨k, rfl⟩ := ih hroom' hj' h
    refine ⟨k, ?_⟩
    have hfill : (m.fill p 512 fun i => d.bytes (512 * l + pos + i)).fill (p + 512#64) (512 * j)
        (fun i => d.bytes (512 * l + (pos + 512) + i)) =
          m.fill p (512 * (j + 1)) fun i => d.bytes (512 * l + pos + i) := by
      rw [bytes_shift, Nat.mul_succ, Nat.add_comm (512 * j) 512]
      exact m.fill_fill p (n := 512) (fun i => d.bytes (512 * l + pos + i)) (by omega)
    have hpos' : pos + 512 + 512 * j = pos + 512 * (j + 1) := by ring
    rw [hpos', inputs_sector, ← List.append_assoc, ← hfill]
    rfl

/-! ## A whole call -/

/-- What a call that returns has done to the disk `d` and the memory `m`, and what it has taken
    through the data port. -/
theorem readSectors_run {lba target : BitVec 32} {sectorCount : BitVec 8}
    (hcount : sectorCount ≠ 0#8) {d : AtaDisk} {m : Mem}
    {out : (AtaDisk × List (BitVec 16 × BitVec 16)) × Mem}
    (h : readSectorsAtaPio (AtaDisk.bus status).recorded fuel target lba sectorCount
      ((d, []), m) = some out) :
    out.1.1.selected = true ∧ out.1.1.lba = lba.toNat % 2 ^ 28 ∧
      out.1.1.sectorCount = sectorCount.toNat ∧
      out.1.1.transfer =
        .reading (lba.toNat % 2 ^ 28) sectorCount.toNat (512 * sectorCount.toNat) ∧
      out.1.2 = inputs d (512 * (lba.toNat % 2 ^ 28)) (256 * sectorCount.toNat) ∧
      out.2 = m.fill (target.setWidth 64) (512 * sectorCount.toNat)
        fun i => d.bytes (512 * (lba.toNat % 2 ^ 28) + i) := by
  obtain ⟨d₁, h₁, h⟩ := Option.bind_eq_some_iff.mp h
  obtain ⟨k, rfl⟩ := recordedDisk_poll h₁
  obtain ⟨d', hout, hsel, hlba, hc, hbytes⟩ :=
    taskFile_decode status lba sectorCount 0x20#8 (d.atPoll k)
  have hn : d'.sectorCount = sectorCount.toNat := by
    unfold AtaDisk.sectorCount
    rw [hc, if_neg hcount]
  have hcommand : d'.command 0x20#8 = AtaDisk.readingAt { d' with received := [] }
      (lba.toNat % 2 ^ 28) sectorCount.toNat 0 := by
    unfold AtaDisk.command
    rw [hsel, hlba, hn]
    rfl
  have hstart : outAll (AtaDisk.bus status).recorded (taskFile lba sectorCount 0x20#8)
      (d.atPoll k, []) = (d'.command 0x20#8, []) := congrArg (·, []) hout
  have hlt := sectorCount.isLt
  rw [hstart, hcommand] at h
  obtain ⟨k', rfl⟩ := sectors_read (fun d pos w p m hpos =>
    inWords_disk (k := 256) (by omega) (by omega)) (by omega) (by omega) h
  refine ⟨hsel, hlba, hn, ?_, ?_, ?_⟩
  · exact congrArg (Transfer.reading _ _) (Nat.zero_add _)
  · exact inputs_congr hbytes _ _
  · exact congrArg (fun f => m.fill (target.setWidth 64) (512 * sectorCount.toNat)
      fun i => f (512 * (lba.toNat % 2 ^ 28) + i)) hbytes

/-- What a request for `n` sectors from `lba` on owes: the disk `d` has decoded the sector number,
    the count, the master drive and addressing by sector number, and has yielded all bytes of the
    request; the data port has been read `256 * n` times, and what came are the sectors' words in
    order; they lie at `target`, in order; and the rest of the memory is as it was. -/
structure Served (d : AtaDisk) (m : Mem) (target lba : BitVec 32) (sectorCount : BitVec 8)
    (d' : AtaDisk) (reads : List (BitVec 16 × BitVec 16)) (m' : Mem) : Prop where
  selected : d'.selected = true
  address : d'.lba = lba.toNat
  count : d'.sectorCount = sectorCount.toNat
  yielded : d'.transfer =
    .reading lba.toNat sectorCount.toNat (512 * sectorCount.toNat)
  reads : reads = inputs d (512 * lba.toNat) (256 * sectorCount.toNat)
  stored : ∀ i, i < 256 * sectorCount.toNat →
    m'.read16 (target.setWidth 64 + BitVec.ofNat 64 (2 * i)) = d.wordAt (512 * lba.toNat + 2 * i)
  rest : ∀ x, x ∉ Region (target.setWidth 64) (512 * sectorCount.toNat) → m' x = m x

/-- **Sector read.** For every request of 1 to 255 sectors below 2^28, every disk and memory: a
    call that returns has served it; and if the disk is responsive every call with enough fuel
    returns. -/
theorem readSectors_served (status : ℕ → BitVec 8) (d : AtaDisk) (m : Mem)
    (target lba : BitVec 32) (sectorCount : BitVec 8) (hcount : sectorCount ≠ 0#8)
    (hlba : lba.toNat + sectorCount.toNat ≤ 2 ^ 28) :
    (∀ fuel d' m', readSectorsAtaPio (AtaDisk.bus status) fuel target lba sectorCount (d, m) =
        some (d', m') →
      ∃ reads, readSectorsAtaPio (AtaDisk.bus status).recorded fuel target lba sectorCount
          ((d, []), m) = some ((d', reads), m') ∧
        Served d m target lba sectorCount d' reads m') ∧
      (Responsive status → ∃ bound d' m', ∀ fuel, bound ≤ fuel →
        readSectorsAtaPio (AtaDisk.bus status) fuel target lba sectorCount (d, m) =
          some (d', m')) := by
  have hpos : 0 < sectorCount.toNat := Nat.pos_of_ne_zero fun h => hcount (BitVec.eq_of_toNat_eq h)
  have hmod : lba.toNat % 2 ^ 28 = lba.toNat := Nat.mod_eq_of_lt (by omega)
  have hlt := sectorCount.isLt
  constructor
  · intro fuel d' m' h
    have hmaps := readSectors_maps (AtaDisk.bus status).recorded_maps fuel target lba sectorCount
      ((d, []), m)
    rw [h] at hmaps
    obtain ⟨⟨⟨d'', reads⟩, m''⟩, hrun, hout⟩ := Option.map_eq_some_iff.mp hmaps.symm
    obtain ⟨rfl, rfl⟩ := Prod.ext_iff.mp hout
    obtain ⟨hsel, hl, hn, hyielded, hreads, hmem⟩ := readSectors_run hcount hrun
    rw [hmod] at hl hyielded hreads hmem
    refine ⟨reads, hrun, hsel, hl, hn, hyielded, hreads, ?_, ?_⟩
    · intro i hi
      change Mem.read16 m'' _ = _
      rw [show m'' = _ from hmem, Mem.read16_fill _ _ _ (by omega) (by omega)]
      rfl
    · intro x hx
      change m'' x = _
      rw [show m'' = _ from hmem, Mem.fill_of_notMem _ _ _ hx]
  · intro hstatus
    obtain ⟨bound, out, hrun⟩ := transfer_returns (AtaDisk.streams status) hstatus lba sectorCount
      0x20#8 (inWords (AtaDisk.bus status) 256) 512#64 (target.setWidth 64) (d, m)
    exact ⟨bound, out.1, out.2, hrun⟩

/-- A disk whose bytes count up: the first word of sector 3 is 0x0100. -/
theorem readSectors_served_one :
    let d : AtaDisk := { blankDisk with bytes := fun k => BitVec.ofNat 8 k }
    ∃ fuel d' m', readSectorsAtaPio (AtaDisk.bus fun _ => 0x48#8) fuel 0x2000#32 3#32 1#8
        (d, fun _ => 0#8) = some (d', m') ∧ d'.lba = 3 ∧ d'.sectorCount = 1 ∧
      m'.read16 0x2000#64 = 0x0100#16 ∧ m' 0x2200#64 = 0#8 := by
  intro d
  obtain ⟨hserved, hreturns⟩ := readSectors_served (fun _ => 0x48#8) d (fun _ => 0#8) 0x2000#32 3#32
    1#8 (by decide) (by decide)
  obtain ⟨bound, d', m', hrun⟩ := hreturns always_responsive
  obtain ⟨reads, -, h⟩ := hserved bound d' m' (hrun bound le_rfl)
  have haddr : (0x2000#32).setWidth 64 + BitVec.ofNat 64 (2 * 0) = 0x2000#64 := by decide
  have hword : d.wordAt (512 * (3#32).toNat + 2 * 0) = 0x0100#16 := by decide
  have hstored := h.stored 0 (by decide)
  rw [haddr, hword] at hstored
  exact ⟨bound, d', m', hrun bound le_rfl, h.address, h.count, hstored, h.rest _ (by decide)⟩

end HelloOS.Drivers
