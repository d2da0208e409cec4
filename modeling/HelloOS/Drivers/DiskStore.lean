/-
  The disk behind the driver, as a store.

  `write_sectors_ATA_PIO` sends 1024 bytes for every sector and never moves on in its buffer; the
  disk drops what is more than it was asked for. So a write leaves the first 1024 bytes at `bytes`,
  over and over, and a read takes what is there. Any line of calls does to the disk and the memory
  what these two do, one after the other (`requests_refines`), and what was written is read back as
  long as nothing is written over it (`requests_readBack`).
-/
import HelloOS.Drivers.AtaRead

namespace HelloOS.Drivers

open HelloOS.Lib

variable {status : ℕ → BitVec 8} {fuel : ℕ}

/-! ## Calls -/

/-- A call of one of the two functions. -/
inductive Request
  | read (targetAddress lba : BitVec 32) (sectorCount : BitVec 8)
  | write (lba : BitVec 32) (sectorCount : BitVec 8) (bytes : BitVec 64)

namespace Request

def lba : Request → ℕ
  | read _ lba _ => lba.toNat
  | write lba _ _ => lba.toNat

def count : Request → ℕ
  | read _ _ sectorCount => sectorCount.toNat
  | write _ sectorCount _ => sectorCount.toNat

/-- The sectors have 28-bit numbers. -/
def Fits (r : Request) : Prop := r.lba + r.count ≤ 2 ^ 28

/-- The call, against a disk. -/
def run (status : ℕ → BitVec 8) (fuel : ℕ) : Request → AtaDisk × Mem → Option (AtaDisk × Mem)
  | read target lba sectorCount, s =>
    readSectorsAtaPio (AtaDisk.bus status) fuel target lba sectorCount s
  | write lba sectorCount bytes, s =>
    writeSectorsAtaPio (AtaDisk.bus status) fuel lba sectorCount bytes s

end Request

/-- Calls one after the other; the disk may be anywhere in its stream of status bytes. -/
def requests (status : ℕ → BitVec 8) (fuel : ℕ) : List Request → AtaDisk × Mem →
    Option (AtaDisk × Mem)
  | [], s => some s
  | r :: rs, s => (r.run status fuel s).bind (requests status fuel rs)

/-! ## The store -/

/-- What is on the disk, and the memory. -/
structure Store where
  disk : ℕ → BitVec 8
  mem : Mem

/-- Byte `k` of the disk is one of the request's. -/
def Request.Covers (r : Request) (k : ℕ) : Prop := 512 * r.lba ≤ k ∧ k < 512 * (r.lba + r.count)

instance (r : Request) (k : ℕ) : Decidable (r.Covers k) := by
  unfold Request.Covers
  infer_instance

/-- The request stores to byte `k` of the disk. -/
def Request.Writes (r : Request) (k : ℕ) : Prop :=
  match r with
  | read _ _ _ => False
  | write _ _ _ => r.Covers k

/-- A read fills the memory from the disk. A write fills its sectors with the same 1024 bytes. -/
def Request.apply : Request → Store → Store
  | read target lba sectorCount, s =>
    { s with mem := s.mem.fill (target.setWidth 64) (512 * sectorCount.toNat) fun i =>
        s.disk (512 * lba.toNat + i) }
  | write lba sectorCount bytes, s =>
    { s with disk := fun k =>
        if (write lba sectorCount bytes).Covers k then
          s.mem (bytes + BitVec.ofNat 64 ((k - 512 * lba.toNat) % 1024))
        else s.disk k }

/-- The store that a disk and a memory are. -/
def store (s : AtaDisk × Mem) : Store := ⟨s.1.bytes, s.2⟩

/-! ## One call -/

theorem yieldByte_bytes (d : AtaDisk) : d.yieldByte.2.bytes = d.bytes := by
  unfold AtaDisk.yieldByte
  split
  · split <;> rfl
  · rfl

theorem inWords_bytes (n : ℕ) (p : BitVec 64) (s : AtaDisk × Mem) :
    (inWords (AtaDisk.bus status) n p s).1.bytes = s.1.bytes := by
  induction n generalizing p s with
  | zero => rfl
  | succ n ih =>
    have hin : ((AtaDisk.bus status).in16 portData s.1).2.bytes = s.1.bytes :=
      (yieldByte_bytes _).trans (yieldByte_bytes _)
    exact (ih (p + 2#64) ((((AtaDisk.bus status).in16 portData s.1).2, _))).trans hin

/-- Loads from the data port leave the disk as it is. -/
theorem sectors_bytes {burst : BitVec 64 → AtaDisk × Mem → AtaDisk × Mem} {advance p : BitVec 64}
    (hburst : ∀ p s, (burst p s).1.bytes = s.1.bytes) {n : ℕ} {s out : AtaDisk × Mem}
    (h : sectors (AtaDisk.bus status) fuel burst advance n p s = some out) :
    out.1.bytes = s.1.bytes := by
  induction n generalizing p s with
  | zero => rw [← Option.some.inj h]
  | succ n ih =>
    unfold sectors at h
    obtain ⟨d₁, h₁, h⟩ := Option.bind_eq_some_iff.mp h
    obtain ⟨d₂, h₂, h⟩ := Option.bind_eq_some_iff.mp h
    obtain ⟨k₁, rfl⟩ := disk_poll h₁
    obtain ⟨k₂, rfl⟩ := disk_poll h₂
    exact (ih h).trans (hburst _ _)

/-- The task file, and then the sectors. -/
theorem transfer_sectors {lba : BitVec 32} {sectorCount cmd : BitVec 8}
    {burst : BitVec 64 → AtaDisk × Mem → AtaDisk × Mem} {advance p : BitVec 64}
    {s out : AtaDisk × Mem}
    (h : transfer (AtaDisk.bus status) fuel lba sectorCount cmd burst advance p s = some out) :
    ∃ d : AtaDisk, d.bytes = s.1.bytes ∧ sectors (AtaDisk.bus status) fuel burst advance
      sectorCount.toNat p (d, s.2) = some out := by
  obtain ⟨d₁, h₁, h⟩ := Option.bind_eq_some_iff.mp h
  obtain ⟨k, rfl⟩ := disk_poll h₁
  obtain ⟨d', hout, -, -, -, hbytes⟩ :=
    taskFile_decode status lba sectorCount cmd { s.1 with polls := k }
  rw [hout] at h
  exact ⟨d'.command cmd, hbytes, h⟩

/-- No sectors: the command goes out, and nothing more. -/
theorem transfer_zero {lba : BitVec 32} {cmd : BitVec 8}
    {burst : BitVec 64 → AtaDisk × Mem → AtaDisk × Mem} {advance p : BitVec 64}
    {s out : AtaDisk × Mem}
    (h : transfer (AtaDisk.bus status) fuel lba 0#8 cmd burst advance p s = some out) :
    store out = store s := by
  obtain ⟨d, hbytes, h⟩ := transfer_sectors h
  rw [← Option.some.inj h, store, store, hbytes]

/-- The record of the data port does not matter. -/
theorem readSectors_recorded {target lba : BitVec 32} {sectorCount : BitVec 8}
    {s out : AtaDisk × Mem}
    (h : readSectorsAtaPio (AtaDisk.bus status) fuel target lba sectorCount s = some out) :
    ∃ reads, readSectorsAtaPio (AtaDisk.bus status).recorded fuel target lba sectorCount
      ((s.1, []), s.2) = some ((out.1, reads), out.2) := by
  have hmaps := readSectors_maps (AtaDisk.bus status).recorded_maps fuel target lba sectorCount
    ((s.1, []), s.2)
  rw [h] at hmaps
  obtain ⟨⟨⟨d, reads⟩, m⟩, hrun, hout⟩ := Option.map_eq_some_iff.mp hmaps.symm
  obtain ⟨rfl, rfl⟩ := Prod.ext_iff.mp hout
  exact ⟨reads, hrun⟩

theorem Request.Fits.mod_lba {r : Request} (h : r.Fits) (hpos : 0 < r.count) :
    r.lba % 2 ^ 28 = r.lba := by
  unfold Request.Fits at h
  exact Nat.mod_eq_of_lt (by omega)

theorem toNat_pos {n : BitVec 8} (h : n ≠ 0#8) : 0 < n.toNat :=
  Nat.pos_of_ne_zero fun h0 => h (BitVec.eq_of_toNat_eq h0)

/-- A call that returns does to the store what its request says. -/
theorem run_store {r : Request} (hr : r.Fits) {s out : AtaDisk × Mem}
    (h : r.run status fuel s = some out) : store out = r.apply (store s) := by
  cases r with
  | read target lba sectorCount =>
    have hbytes : out.1.bytes = s.1.bytes := by
      obtain ⟨d, hd, hsectors⟩ := transfer_sectors h
      exact (sectors_bytes (inWords_bytes 256) hsectors).trans hd
    by_cases hcount : sectorCount = 0#8
    · subst hcount
      have hfill : ∀ f, s.2.fill (target.setWidth 64) (512 * (0#8).toNat) f = s.2 := s.2.fill_zero _
      rw [transfer_zero h, Request.apply, store, hfill]
    · obtain ⟨reads, hrun⟩ := readSectors_recorded h
      obtain ⟨-, -, -, -, -, hmem⟩ := readSectors_run hcount hrun
      have hmod : lba.toNat % 2 ^ 28 = lba.toNat := hr.mod_lba (toNat_pos hcount)
      rw [hmod] at hmem
      rw [store, hbytes]
      exact congrArg _ hmem
  | write lba sectorCount bytes =>
    by_cases hcount : sectorCount = 0#8
    · subst hcount
      have hnone : ∀ k, ¬ (Request.write lba 0#8 bytes).Covers k := fun k hk => by
        have hlt := hk.2
        have hle := hk.1
        change k < 512 * (_ + 0) at hlt
        omega
      rw [transfer_zero h, Request.apply]
      simp only [hnone, if_false]
    · obtain ⟨hmem, -, -⟩ := writeSectors_run hcount h
      obtain ⟨hstored, hrest⟩ := writeSectors_stores hcount h
      have hmod : lba.toNat % 2 ^ 28 = lba.toNat := hr.mod_lba (toNat_pos hcount)
      rw [hmod] at hstored hrest
      rw [store, hmem, Request.apply]
      refine congrArg (Store.mk · s.2) (funext fun k => ?_)
      by_cases hk : (Request.write lba sectorCount bytes).Covers k
      · obtain ⟨hle, hlt⟩ := hk
        change 512 * lba.toNat ≤ k at hle
        change k < 512 * (lba.toNat + sectorCount.toNat) at hlt
        have hbyte := hstored (k - 512 * lba.toNat) (by omega)
        rw [Nat.add_sub_cancel' hle] at hbyte
        rw [if_pos ⟨hle, hlt⟩, hbyte]
        rfl
      · rw [if_neg hk]
        apply hrest
        by_contra hout
        refine hk ⟨?_, ?_⟩
        · change 512 * lba.toNat ≤ k
          omega
        · change k < 512 * (lba.toNat + sectorCount.toNat)
          omega

/-! ## Lines of calls -/

theorem requests_store {rs : List Request} (hrs : ∀ r ∈ rs, r.Fits) {s out : AtaDisk × Mem}
    (h : requests status fuel rs s = some out) :
    store out = rs.foldl (fun t r => r.apply t) (store s) := by
  induction rs generalizing s with
  | nil => rw [← Option.some.inj h, List.foldl_nil]
  | cons r rs ih =>
    obtain ⟨s₁, h₁, h⟩ := Option.bind_eq_some_iff.mp h
    rw [List.forall_mem_cons] at hrs
    rw [ih hrs.2 h, run_store hrs.1 h₁, List.foldl_cons]

theorem run_returns (hs : Responsive status) (r : Request) (s : AtaDisk × Mem) :
    ∃ bound out, ∀ fuel, bound ≤ fuel → r.run status fuel s = some out := by
  cases r with
  | read target lba sectorCount =>
    exact transfer_returns (AtaDisk.streams status) hs lba sectorCount 0x20#8 _ _ _ s
  | write lba sectorCount bytes =>
    exact transfer_returns (AtaDisk.streams status) hs lba sectorCount 0x30#8 _ _ _ s

theorem requests_returns (hs : Responsive status) (rs : List Request) (s : AtaDisk × Mem) :
    ∃ bound out, ∀ fuel, bound ≤ fuel → requests status fuel rs s = some out := by
  induction rs generalizing s with
  | nil => exact ⟨0, s, fun _ _ => rfl⟩
  | cons r rs ih =>
    obtain ⟨b₁, s₁, h₁⟩ := run_returns hs r s
    obtain ⟨b₂, out, h₂⟩ := ih s₁
    refine ⟨max b₁ b₂, out, ?_⟩
    intro fuel hfuel
    unfold requests
    rw [h₁ fuel (by omega), Option.bind_some, h₂ fuel (by omega)]

/-- **The driver is a store.** For every line of reads and writes of sectors below 2^28, every disk,
    stream of status bytes and memory: if it returns, the disk and the memory are those of the
    store behind the same requests; and if the disk is responsive it does return. -/
theorem requests_refines (status : ℕ → BitVec 8) (rs : List Request) (hrs : ∀ r ∈ rs, r.Fits)
    (s : AtaDisk × Mem) :
    (∀ fuel out, requests status fuel rs s = some out →
      store out = rs.foldl (fun t r => r.apply t) (store s)) ∧
      (Responsive status →
        ∃ bound out, ∀ fuel, bound ≤ fuel → requests status fuel rs s = some out) :=
  ⟨fun _ _ h => requests_store hrs h, fun hs => requests_returns hs rs s⟩

/-- Eleven bytes on: a write to sector 3, one to sector 7, and sector 3 read back. -/
theorem requests_refines_three : ∃ fuel out, requests (fun _ => 0x48#8) fuel
      [.write 3#32 1#8 0x1000#64, .write 7#32 2#8 0x3000#64, .read 0x5000#32 3#32 1#8]
        (blankDisk, fun x => x.setWidth 8) = some out ∧ out.2 0x500b#64 = 0x0b#8 := by
  obtain ⟨hstore, hreturns⟩ := requests_refines (fun _ => 0x48#8)
    [.write 3#32 1#8 0x1000#64, .write 7#32 2#8 0x3000#64, .read 0x5000#32 3#32 1#8]
    (by
      intro r hr
      simp only [List.mem_cons, List.not_mem_nil, or_false] at hr
      rcases hr with rfl | rfl | rfl
      all_goals
        unfold Request.Fits
        decide) (blankDisk, fun x => x.setWidth 8)
  obtain ⟨bound, out, hrun⟩ := hreturns always_responsive
  refine ⟨bound, out, hrun bound (le_refl bound), ?_⟩
  change (store out).mem 0x500b#64 = 0x0b#8
  rw [hstore bound out (hrun bound (le_refl bound))]
  rfl

/-! ## Read after write -/

theorem apply_disk {r : Request} {k : ℕ} (h : ¬ r.Writes k) (t : Store) :
    (r.apply t).disk k = t.disk k := by
  cases r with
  | read target lba sectorCount => rfl
  | write lba sectorCount bytes => exact if_neg h

/-- A byte that no request stores to. -/
theorem foldl_apply_disk {rs : List Request} {k : ℕ} (h : ∀ r ∈ rs, ¬ r.Writes k) (t : Store) :
    (rs.foldl (fun t r => r.apply t) t).disk k = t.disk k := by
  induction rs generalizing t with
  | nil => rfl
  | cons r rs ih =>
    rw [List.forall_mem_cons] at h
    rw [List.foldl_cons, ih h.2, apply_disk h.1]

/-- **Read after write.** From any disk and memory: sectors are written from `bytes`, then any
    requests follow that store to none of them, then they are read to `target`. What arrives is the
    first 1024 bytes that lay at `bytes`, over and over; so it is the buffer if and only if the
    buffer repeats its first 1024 bytes, as one of two sectors does. -/
theorem requests_readBack {lba target : BitVec 32} {sectorCount : BitVec 8} {bytes : BitVec 64}
    {rs : List Request} {s out : AtaDisk × Mem} (hfit : lba.toNat + sectorCount.toNat ≤ 2 ^ 28)
    (hrs : ∀ r ∈ rs, r.Fits)
    (hapart : ∀ r ∈ rs, ∀ k, (Request.write lba sectorCount bytes).Covers k → ¬ r.Writes k)
    (h : requests status fuel
      (.write lba sectorCount bytes :: rs ++ [.read target lba sectorCount]) s = some out) :
    (∀ k, k < 512 * sectorCount.toNat → out.2 (target.setWidth 64 + BitVec.ofNat 64 k) =
        s.2 (bytes + BitVec.ofNat 64 (k % 1024))) ∧
      (out.2.readBytes (target.setWidth 64) (512 * sectorCount.toNat) =
          s.2.readBytes bytes (512 * sectorCount.toNat) ↔
        ∀ k, 1024 ≤ k → k < 512 * sectorCount.toNat →
          s.2 (bytes + BitVec.ofNat 64 k) = s.2 (bytes + BitVec.ofNat 64 (k % 1024))) := by
  have hlt := sectorCount.isLt
  have hall : ∀ r ∈ .write lba sectorCount bytes :: rs ++ [.read target lba sectorCount],
      r.Fits := by
    rw [List.cons_append, List.forall_mem_cons, List.forall_mem_append]
    exact ⟨hfit, hrs, List.forall_mem_singleton.mpr hfit⟩
  have hstore := requests_store hall h
  rw [List.cons_append, List.foldl_cons, List.foldl_concat] at hstore
  have hbyte : ∀ k, k < 512 * sectorCount.toNat → out.2 (target.setWidth 64 + BitVec.ofNat 64 k) =
      s.2 (bytes + BitVec.ofNat 64 (k % 1024)) := by
    intro k hk
    have hcovers : (Request.write lba sectorCount bytes).Covers (512 * lba.toNat + k) := by
      refine ⟨Nat.le_add_right _ _, ?_⟩
      change 512 * lba.toNat + k < 512 * (lba.toNat + sectorCount.toNat)
      omega
    have hk64 : (BitVec.ofNat 64 k).toNat = k := toNat_ofNat_eq (by omega)
    -- what the read copies is what the write has left
    have hdisk := foldl_apply_disk (fun r hr => hapart r hr _ hcovers)
      ((Request.write lba sectorCount bytes).apply (store s))
    have hwrite : ((Request.write lba sectorCount bytes).apply (store s)).disk
        (512 * lba.toNat + k) = s.2 (bytes + BitVec.ofNat 64 (k % 1024)) := by
      refine (if_pos hcovers).trans ?_
      rw [Nat.add_sub_cancel_left]
      rfl
    generalize rs.foldl (fun t r => r.apply t) _ = t at hstore hdisk
    have hmem : out.2 = t.mem.fill (target.setWidth 64) (512 * sectorCount.toNat) fun i =>
        t.disk (512 * lba.toNat + i) := congrArg Store.mem hstore
    rw [hmem, Mem.fill_add _ _ _ (by rw [hk64]; exact hk), hk64, hdisk, hwrite]
  refine ⟨hbyte, Mem.readBytes_eq_iff.trans ⟨fun h k _ hk => ?_, fun h k hk => ?_⟩⟩
  · rw [← h k hk, hbyte k hk]
  · rw [hbyte k hk]
    by_cases hfirst : k < 1024
    · rw [Nat.mod_eq_of_lt hfirst]
    · exact (h k (by omega) hk).symm

/-- Two sectors, and one of another request in between. -/
theorem requests_readBack_two : ∃ fuel out, requests (fun _ => 0x48#8) fuel
      [.write 3#32 2#8 0x1000#64, .write 7#32 1#8 0x3000#64, .read 0x5000#32 3#32 2#8]
        (blankDisk, fun x => x.setWidth 8) = some out ∧
      out.2.readBytes 0x5000#64 1024 = Mem.readBytes (fun x => x.setWidth 8) 0x1000#64 1024 := by
  obtain ⟨bound, out, hrun⟩ := requests_returns always_responsive
    [.write 3#32 2#8 0x1000#64, .write 7#32 1#8 0x3000#64, .read 0x5000#32 3#32 2#8]
    (blankDisk, fun x => x.setWidth 8)
  have hfit : (Request.write 7#32 1#8 0x3000#64).Fits := by
    unfold Request.Fits
    decide
  have hapart : ∀ k, (Request.write 3#32 2#8 0x1000#64).Covers k →
      ¬ (Request.write 7#32 1#8 0x3000#64).Writes k := by
    rintro k ⟨-, hlt⟩ ⟨hle, -⟩
    change k < 2560 at hlt
    change 3584 ≤ k at hle
    omega
  refine ⟨bound, out, hrun bound (le_refl bound), ?_⟩
  have hline : requests (fun _ => 0x48#8) bound (.write 3#32 2#8 0x1000#64 ::
      [.write 7#32 1#8 0x3000#64] ++ [.read 0x5000#32 3#32 2#8])
      (blankDisk, fun x => x.setWidth 8) = some out := hrun bound (le_refl bound)
  refine (requests_readBack (by decide) (List.forall_mem_singleton.mpr hfit)
    (List.forall_mem_singleton.mpr hapart) hline).2.mpr fun k hk hlt => ?_
  change k < 1024 at hlt
  omega

end HelloOS.Drivers
