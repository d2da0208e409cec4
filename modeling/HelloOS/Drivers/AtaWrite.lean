/-
  `write_sectors_ATA_PIO` against a disk.

  For every sector of the request the inner loop sends 256 double words, 1024 bytes, and the
  pointer `bytes` is not advanced. So a request for `n` sectors sends the first 1024 bytes of
  memory at `bytes` `n` times, twice what the disk expects, and the buffer's later bytes never.
-/
import HelloOS.Drivers.Ata
import HelloOS.Lib.AtaDisk

namespace HelloOS.Drivers

open HelloOS.Lib

variable {status : ℕ → BitVec 8} {fuel : ℕ}

/-! ## The steps of a run -/

theorem disk_poll {stop : BitVec 8 → Bool} {d d' : AtaDisk}
    (h : pollUntil (AtaDisk.bus status) portStatus stop fuel d = some d') :
    ∃ k, d' = { d with polls := k } := by
  obtain ⟨q, -, -, rfl⟩ := (pollUntil_iff (AtaDisk.streams status) fuel d d').mp h
  exact ⟨_, d.iterate_tick _⟩

/-- The task file is decoded as it was meant: the master drive, the low 28 bits of the
    address, and the count, where 0 stands for 256. -/
theorem taskFile_decode (status : ℕ → BitVec 8) (lba : BitVec 32) (sectorCount cmd : BitVec 8)
    (d : AtaDisk) :
    ∃ d' : AtaDisk, outAll (AtaDisk.bus status) (taskFile lba sectorCount cmd) d = d'.command cmd ∧
      d'.selected = true ∧ d'.lba = lba.toNat % 2 ^ 28 ∧ d'.count = sectorCount ∧
      d'.bytes = d.bytes := by
  refine ⟨{ d with
    device := (0xE0#32 ||| ((lba >>> 24) &&& 0xF#32)).setWidth 8
    count := sectorCount
    low := lba.setWidth 8
    mid := (lba >>> 8).setWidth 8
    high := (lba >>> 16).setWidth 8 }, rfl, ?_, ?_, rfl, rfl⟩
  · unfold AtaDisk.selected
    have h6 : (0xF#32).getLsbD 6 = false := rfl
    have h4 : (0xF#32).getLsbD 4 = false := rfl
    simp only [BitVec.getLsbD_setWidth, BitVec.getLsbD_or, BitVec.getLsbD_and, h6, h4,
      Bool.and_false]
    rfl
  · unfold AtaDisk.lba
    have hdev : ((0xE0#32 ||| ((lba >>> 24) &&& 0xF#32)).setWidth 8).toNat % 16 =
        lba.toNat / 2 ^ 24 % 16 := by
      have hor : 0xE0 ||| lba.toNat / 2 ^ 24 % 16 = 0xE0 + lba.toNat / 2 ^ 24 % 16 :=
        (Nat.two_pow_add_eq_or_of_lt (i := 4) (by omega) 14).symm
      rw [BitVec.toNat_setWidth, BitVec.toNat_or, BitVec.toNat_and, BitVec.toNat_ushiftRight,
        Nat.shiftRight_eq_div_pow, show (0xF#32).toNat = 2 ^ 4 - 1 from rfl,
        Nat.and_two_pow_sub_one_eq_mod, show (0xE0#32).toNat = 0xE0 from rfl, hor]
      omega
    rw [hdev]
    simp only [BitVec.toNat_setWidth, BitVec.toNat_ushiftRight, Nat.shiftRight_eq_div_pow]
    omega

/-- The inner loop sends the memory at `bytes`, byte for byte. -/
theorem outWords_eq (n : ℕ) (p : BitVec 64) (d : AtaDisk) (m : Mem) :
    outWords (AtaDisk.bus status) n p (d, m) =
      ((m.readBytes p (4 * n)).foldl AtaDisk.consume d, m) := by
  induction n generalizing p d with
  | zero => rfl
  | succ n ih =>
    have hword : (AtaDisk.bus status).out32 portData (m.read32 p) d =
        (m.readBytes p 4).foldl AtaDisk.consume d := by
      have hbytes : ([0, 1, 2, 3].map fun i => (m.read32 p >>> (8 * i)).setWidth 8) =
          m.readBytes p 4 := by
        rw [List.map_cons, List.map_cons, List.map_cons, List.map_singleton,
          Mem.byte_read32 _ _ (by decide), Mem.byte_read32 _ _ (by decide),
          Mem.byte_read32 _ _ (by decide), Mem.byte_read32 _ _ (by decide)]
        simp only [Mem.readBytes, BitVec.add_assoc, BitVec.add_zero]
        rfl
      rw [← hbytes]
      rfl
    unfold outWords
    rw [ih, hword, show 4 * (n + 1) = 4 + 4 * n by omega, Mem.readBytes_append, List.foldl_append]

/-! ## A whole call -/

/-- What `n` rounds send: the first 1024 bytes at `bytes`, each time. -/
def sent (m : Mem) (bytes : BitVec 64) (n : ℕ) : List (BitVec 8) :=
  (List.replicate n (m.readBytes bytes 1024)).flatten

theorem sent_succ (m : Mem) (bytes : BitVec 64) (n : ℕ) :
    sent m bytes (n + 1) = m.readBytes bytes 1024 ++ sent m bytes n := by
  unfold sent
  rw [List.replicate_succ, List.flatten_cons]

theorem sent_length (m : Mem) (bytes : BitVec 64) (n : ℕ) :
    (sent m bytes n).length = 1024 * n := by
  induction n with
  | zero => rfl
  | succ n ih =>
    rw [sent_succ, List.length_append, Mem.readBytes_length, ih]
    omega

theorem sent_getElem? (m : Mem) (bytes : BitVec 64) {n k : ℕ} (h : k < 1024 * n) :
    (sent m bytes n)[k]? = some (m (bytes + BitVec.ofNat 64 (k % 1024))) := by
  induction n generalizing k with
  | zero => omega
  | succ n ih =>
    have hlen := m.readBytes_length bytes 1024
    rw [sent_succ]
    by_cases hk : k < 1024
    · rw [List.getElem?_append_left (by rw [hlen]; exact hk), Mem.readBytes_getElem? _ _ hk,
        Nat.mod_eq_of_lt hk]
    · rw [List.getElem?_append_right (by rw [hlen]; omega), hlen, ih (by omega),
        ← Nat.mod_eq_sub_mod (by omega)]

/-- The loop over the sectors. -/
theorem sectors_write {n : ℕ} {p : BitVec 64} {d : AtaDisk} {m : Mem} {out : AtaDisk × Mem}
    (h : sectors (AtaDisk.bus status) fuel (outWords (AtaDisk.bus status) 256) 0#64 n p (d, m) =
      some out) :
    out.2 = m ∧ out.1.received = d.received ++ sent m p n ∧
      ∀ old l c, AtaDisk.Writing old l c d → AtaDisk.Writing old l c out.1 := by
  induction n generalizing d with
  | zero =>
    rw [← Option.some.inj h]
    exact ⟨rfl, (List.append_nil _).symm, fun _ _ _ hw => hw⟩
  | succ n ih =>
    unfold sectors at h
    obtain ⟨d₁, h₁, h⟩ := Option.bind_eq_some_iff.mp h
    obtain ⟨d₂, h₂, h⟩ := Option.bind_eq_some_iff.mp h
    obtain ⟨k₁, rfl⟩ := disk_poll h₁
    obtain ⟨k₂, rfl⟩ := disk_poll h₂
    rw [outWords_eq, BitVec.add_zero, show 4 * 256 = 1024 from rfl] at h
    obtain ⟨hm, hreceived, hwriting⟩ := ih h
    refine ⟨hm, ?_, ?_⟩
    · rw [hreceived, AtaDisk.foldl_consume_received, sent_succ, List.append_assoc]
    · intro old l c hw
      have hw' : AtaDisk.Writing old l c { d with polls := k₂ } := ⟨hw.transfer, hw.stored, hw.rest⟩
      exact hwriting old l c (hw'.foldl_consume _)

/-- What a call that returns has sent, and how the disk stands. -/
theorem writeSectors_run {lba : BitVec 32} {sectorCount : BitVec 8} (hcount : sectorCount ≠ 0#8)
    {bytes : BitVec 64} {d : AtaDisk} {m : Mem} {out : AtaDisk × Mem}
    (h : writeSectorsAtaPio (AtaDisk.bus status) fuel lba sectorCount bytes (d, m) = some out) :
    out.2 = m ∧ out.1.received = sent m bytes sectorCount.toNat ∧
      AtaDisk.Writing d.bytes (lba.toNat % 2 ^ 28) sectorCount.toNat out.1 := by
  obtain ⟨d₁, h₁, h⟩ := Option.bind_eq_some_iff.mp h
  obtain ⟨k, rfl⟩ := disk_poll h₁
  obtain ⟨d', hout, hsel, hlba, hc, hbytes⟩ :=
    taskFile_decode status lba sectorCount 0x30#8 { d with polls := k }
  obtain ⟨hm, hreceived, hwriting⟩ := sectors_write h
  rw [hout] at hreceived hwriting
  refine ⟨hm, hreceived, hwriting _ _ _ ?_⟩
  have htransfer : (d'.command 0x30#8).transfer =
      .writing (lba.toNat % 2 ^ 28) sectorCount.toNat 0 := by
    have hn : d'.sectorCount = sectorCount.toNat := by
      unfold AtaDisk.sectorCount
      rw [hc, if_neg hcount]
    unfold AtaDisk.command
    rw [hsel, hlba, hn]
    rfl
  refine ⟨?_, ?_, ?_⟩
  · rw [htransfer]
    change _ = Transfer.writing _ _ (min 0 _)
    rw [Nat.zero_min]
  · intro k hk b hb
    cases hb
  · intro k _
    change d'.bytes k = d.bytes k
    rw [hbytes]

/-- What a write leaves on the disk: the sectors are filled with the first 1024 bytes at
    `bytes`, over and over, and the rest is as it was. -/
theorem writeSectors_stores {lba : BitVec 32} {sectorCount : BitVec 8} (hcount : sectorCount ≠ 0#8)
    {bytes : BitVec 64} {d : AtaDisk} {m : Mem} {out : AtaDisk × Mem}
    (h : writeSectorsAtaPio (AtaDisk.bus status) fuel lba sectorCount bytes (d, m) = some out) :
    (∀ k, k < 512 * sectorCount.toNat → out.1.bytes (512 * (lba.toNat % 2 ^ 28) + k) =
        m (bytes + BitVec.ofNat 64 (k % 1024))) ∧
      ∀ k, k < 512 * (lba.toNat % 2 ^ 28) ∨
          512 * (lba.toNat % 2 ^ 28) + 512 * sectorCount.toNat ≤ k →
        out.1.bytes k = d.bytes k := by
  obtain ⟨-, hreceived, hwriting⟩ := writeSectors_run hcount h
  constructor
  · intro k hk
    apply hwriting.stored k hk
    rw [hreceived]
    exact sent_getElem? m bytes (by omega)
  · intro k hk
    apply hwriting.rest
    rw [hreceived, sent_length]
    omega

/-! ## The round trip -/

/-- A request written and read back: the write sends the buffer and no more, the read finds
    it again, and the other sectors are as they were. -/
def RoundTrip (status : ℕ → BitVec 8) (d : AtaDisk) (m : Mem) (lba target : BitVec 32)
    (sectorCount : BitVec 8) (buf : BitVec 64) : Prop :=
  ∃ fuel d₁ d₂ m₂,
    writeSectorsAtaPio (AtaDisk.bus status) fuel lba sectorCount buf (d, m) = some (d₁, m) ∧
    d₁.received = m.readBytes buf (512 * sectorCount.toNat) ∧
    readSectorsAtaPio (AtaDisk.bus status) fuel target lba sectorCount (d₁, m) = some (d₂, m₂) ∧
    m₂.readBytes (target.setWidth 64) (512 * sectorCount.toNat) =
      m.readBytes buf (512 * sectorCount.toNat) ∧
    ∀ k, k < 512 * lba.toNat ∨ 512 * (lba.toNat + sectorCount.toNat) ≤ k → d₂.bytes k = d.bytes k

/-- **No round trip.** On no disk, for no request of at least one sector and no buffer: every
    write that returns has sent 1024 bytes for each sector, where the disk was told to expect
    512. -/
theorem writeSectors_not_roundTrip (status : ℕ → BitVec 8) (d : AtaDisk) (m : Mem)
    (lba target : BitVec 32) (sectorCount : BitVec 8) (buf : BitVec 64)
    (hcount : sectorCount ≠ 0#8) :
    (∀ fuel out, writeSectorsAtaPio (AtaDisk.bus status) fuel lba sectorCount buf (d, m) =
        some out → out.1.received.length = 1024 * sectorCount.toNat) ∧
      ¬ RoundTrip status d m lba target sectorCount buf := by
  have hsent : ∀ fuel out, writeSectorsAtaPio (AtaDisk.bus status) fuel lba sectorCount buf (d, m) =
      some out → out.1.received.length = 1024 * sectorCount.toNat := by
    intro fuel out h
    obtain ⟨-, hreceived, -⟩ := writeSectors_run hcount h
    rw [hreceived, sent_length]
  refine ⟨hsent, ?_⟩
  rintro ⟨fuel, d₁, d₂, m₂, hwrite, hreceived, -⟩
  have hlen := hsent fuel (d₁, m) hwrite
  rw [hreceived, Mem.readBytes_length] at hlen
  have hpos : sectorCount.toNat ≠ 0 := fun h0 => hcount (BitVec.eq_of_toNat_eq h0)
  omega

/-- A disk that is always ready, full of zeros. -/
def blankDisk : AtaDisk := ⟨fun _ => 0#8, 0#8, 0#8, 0#8, 0#8, 0#8, .idle, [], 0⟩

theorem always_responsive : Responsive (fun _ => 0x48#8) :=
  ⟨fun p => ⟨p, le_refl p, rfl⟩, fun p => ⟨p, le_refl p, rfl⟩⟩

/-- One sector: 1024 bytes are sent. -/
theorem writeSectors_not_roundTrip_one :
    ∃ fuel out, writeSectorsAtaPio (AtaDisk.bus fun _ => 0x48#8) fuel 0#32 1#8 0x1000#64
        (blankDisk, fun _ => 0#8) = some out ∧ out.1.received.length = 1024 ∧
      ¬ RoundTrip (fun _ => 0x48#8) blankDisk (fun _ => 0#8) 0#32 0x2000#32 1#8 0x1000#64 := by
  obtain ⟨hsent, hnot⟩ := writeSectors_not_roundTrip (fun _ => 0x48#8) blankDisk (fun _ => 0#8)
    0#32 0x2000#32 1#8 0x1000#64 (by decide)
  obtain ⟨fuel, out, hrun⟩ := transfer_returns (AtaDisk.streams fun _ => 0x48#8) always_responsive
    0#32 1#8 0x30#8 (outWords (AtaDisk.bus fun _ => 0x48#8) 256) 0#64 0x1000#64
    (blankDisk, fun _ => 0#8)
  have hrun := hrun fuel (le_refl _)
  exact ⟨fuel, out, hrun, hsent fuel out hrun, hnot⟩

/-- So not every request makes a round trip. -/
theorem roundTrip_fails :
    ¬ ∀ (status : ℕ → BitVec 8) (d : AtaDisk) (m : Mem) (lba target : BitVec 32)
      (sectorCount : BitVec 8) (buf : BitVec 64), Responsive status → sectorCount ≠ 0#8 →
        lba.toNat + sectorCount.toNat ≤ 2 ^ 28 →
        RoundTrip status d m lba target sectorCount buf := by
  intro h
  obtain ⟨fuel, d₁, d₂, m₂, hwrite, hreceived, -⟩ := h (fun _ => 0x48#8) blankDisk (fun _ => 0#8)
    0#32 0x2000#32 1#8 0x1000#64 always_responsive (by decide) (by decide)
  obtain ⟨-, hsent, -⟩ := writeSectors_run (by decide) hwrite
  have hlen := congrArg List.length (hreceived.symm.trans hsent)
  rw [Mem.readBytes_length, sent_length] at hlen
  exact absurd hlen (by decide)

end HelloOS.Drivers
