/-
  `ata_init` (`drivers/ata/ata.c`), which tries the disk out: it fills a part of an array on its
  stack, writes it to sector 0, reads the sector back to another array and prints what it finds.

  The stack is reached through the copy of low memory at `KERNEL_VIRADDR`, while `target_address`
  keeps 32 bits of a pointer only: the read goes through low memory itself, to the same bytes
  (`setWidth_vir2phy`).
-/
import HelloOS.Boot.Stores
import HelloOS.Drivers.DiskStore
import HelloOS.Kstring
import HelloOS.Printk.Text

namespace HelloOS.Drivers

open HelloOS.Lib HelloOS.Mm HelloOS.Boot HelloOS.Printk HelloOS.Kstring

/-- `buf[i]`. -/
def bufWord (m : Mem) (buf : BitVec 64) (i : ℕ) : BitVec 32 :=
  m.read32 (vir2phy buf + BitVec.ofNat 64 (4 * i))

/-- The two bytes of `buf[i]` that `ata_init` prints. -/
def printWord (w : BitVec 32) : List Print :=
  [kerrPrintf "%x " [(w &&& 0xff#32).setWidth 64],
    kerrPrintf "%x " [((w >>> 8) &&& 0xff#32).setWidth 64]]

/-- The calls of `kerr_printf` at its end. -/
def ataPrints (m : Mem) (buf : BitVec 64) : List Print :=
  (List.range 10).flatMap (fun i => printWord (bufWord m buf i)) ++ [kerrPrintf "\n" []]

/-- `ata_init`, with its arrays `bwrite` and `buf`; the value for `memset` is cut to a byte. -/
def ataInit (status : ℕ → BitVec 8) (fuel : ℕ) (bwrite buf : BitVec 64) (s : AtaDisk × Mem) :
    Option ((AtaDisk × Mem) × List Print) :=
  let m := memset s.2 (vir2phy bwrite) ((0xABCDEF12#32).setWidth 8) 128#64
  (writeSectorsAtaPio (AtaDisk.bus status) fuel 0#32 1#8 (vir2phy bwrite) (s.1, m)).bind fun s =>
    (readSectorsAtaPio (AtaDisk.bus status) fuel (buf.setWidth 32) 0#32 1#8 s).map fun s =>
      (s, ataPrints s.2 buf)

/-! ## The truncated pointer -/

/-- 32 bits of an address in the copy of the lowest GB, or in the lowest GB itself. -/
theorem setWidth_vir2phy {va : BitVec 64} {n : ℕ} (hn : 0 < n) (h : InKernel va n) :
    (va.setWidth 32).setWidth 64 = vir2phy va := by
  rw [inKernel_iff] at h
  apply BitVec.eq_of_toNat_eq
  rw [vir2phy_toNat, BitVec.toNat_setWidth, BitVec.toNat_setWidth]
  omega

/-! ## The two transfers -/

variable {status : ℕ → BitVec 8} {fuel : ℕ} {bwrite buf : BitVec 64} {s : AtaDisk × Mem}

/-- The requests that `ata_init` makes. -/
def ataRequests (bwrite buf : BitVec 64) : List Request :=
  [.write 0#32 1#8 (vir2phy bwrite), .read (buf.setWidth 32) 0#32 1#8]

theorem ataRequests_fit : ∀ r ∈ ataRequests bwrite buf, r.Fits := by
  have hone : 0 + 1 ≤ 2 ^ 28 := by decide
  exact List.forall_mem_cons.mpr ⟨hone, List.forall_mem_singleton.mpr hone⟩

/-- The memory behind the call of `memset`. -/
def setMem (m : Mem) (bwrite : BitVec 64) : Mem := m.fill (vir2phy bwrite) 128 fun _ => 0x12#8

theorem ataInit_eq : ataInit status fuel bwrite buf s =
    (requests status fuel (ataRequests bwrite buf) (s.1, setMem s.2 bwrite)).map fun s =>
      (s, ataPrints s.2 buf) := by
  have hset : memset s.2 (vir2phy bwrite) ((0xABCDEF12#32).setWidth 8) 128#64 =
      setMem s.2 bwrite := memset_eq_fill _ _ _ _
  unfold ataInit ataRequests
  dsimp only
  rw [hset, requests, Option.map_bind]
  refine Option.bind_congr fun s₁ _ => ?_
  change _ = Option.map _ (Option.bind (Request.run status fuel _ s₁) some)
  rw [Option.bind_fun_some]
  rfl

/-- What a run leaves: sector 0 starts with the bytes that were set, and goes on with what lay on
    the stack behind them; it is read to `buf`; and the rest of both is as it was. -/
structure Tried (bwrite buf : BitVec 64) (s out : AtaDisk × Mem) : Prop where
  sector : ∀ k < 512, out.1.bytes k =
    if k < 128 then 0x12#8 else s.2 (vir2phy bwrite + BitVec.ofNat 64 k)
  disk : ∀ k, 512 ≤ k → out.1.bytes k = s.1.bytes k
  buffer : ∀ k < 512, out.2 (vir2phy buf + BitVec.ofNat 64 k) = out.1.bytes k
  rest : ∀ x, x ∉ Region (vir2phy buf) 512 → out.2 x =
    if x ∈ Region (vir2phy bwrite) 128 then 0x12#8 else s.2 x

theorem tried_of_requests (hbuf : InKernel buf 512) {out : AtaDisk × Mem}
    (h : requests status fuel (ataRequests bwrite buf) (s.1, setMem s.2 bwrite) = some out) :
    Tried bwrite buf s out := by
  have hstore := requests_store ataRequests_fit h
  have hcovers : ∀ k, (Request.write 0#32 1#8 (vir2phy bwrite)).Covers k ↔ k < 512 := fun k =>
    ⟨fun h => h.2, fun h => ⟨Nat.zero_le k, h⟩⟩
  have hdisk : ∀ k, out.1.bytes k = if k < 512 then
      setMem s.2 bwrite (vir2phy bwrite + BitVec.ofNat 64 k) else s.1.bytes k := by
    intro k
    refine (congrFun (congrArg Store.disk hstore) k).trans ?_
    refine (if_congr (hcovers k) rfl rfl).trans ?_
    by_cases hk : k < 512
    · have hmod : (k - 512 * (0#32).toNat) % 1024 = k :=
        Nat.mod_eq_of_lt (by change k - 0 < _; omega)
      rw [if_pos hk, if_pos hk, hmod]
      rfl
    · rw [if_neg hk, if_neg hk]
      rfl
  have hread : out.2 = (setMem s.2 bwrite).fill ((buf.setWidth 32).setWidth 64) 512 fun i =>
      out.1.bytes (0 + i) := by
    have hbytes := congrArg Store.disk hstore
    change out.1.bytes = _ at hbytes
    rw [hbytes]
    exact congrArg Store.mem hstore
  have hmem : out.2 = (setMem s.2 bwrite).fill (vir2phy buf) 512 fun i => out.1.bytes i := by
    rw [hread, setWidth_vir2phy (by decide) hbuf]
    simp only [Nat.zero_add]
  have hset : ∀ k, k < 512 → setMem s.2 bwrite (vir2phy bwrite + BitVec.ofNat 64 k) =
      if k < 128 then 0x12#8 else s.2 (vir2phy bwrite + BitVec.ofNat 64 k) := by
    intro k hk
    have hk64 : (BitVec.ofNat 64 k).toNat = k := toNat_ofNat_eq (by omega)
    by_cases hlt : k < 128
    · rw [if_pos hlt]
      exact Mem.fill_of_mem _ _ _ (Mem.mem_region_add.mpr (by rw [hk64]; exact hlt))
    · rw [if_neg hlt]
      exact Mem.fill_of_notMem _ _ _ (fun h => hlt (by rw [← hk64]; exact Mem.mem_region_add.mp h))
  refine ⟨fun k hk => ?_, fun k hk => ?_, fun k hk => ?_, fun x hx => ?_⟩
  · rw [hdisk, if_pos hk, hset k hk]
  · rw [hdisk, if_neg (by omega)]
  · have hk64 : (BitVec.ofNat 64 k).toNat = k := toNat_ofNat_eq (by omega)
    rw [hmem, Mem.fill_add _ _ _ (by rw [hk64]; exact hk), hk64]
  · rw [hmem, Mem.fill_of_notMem _ _ _ hx, setMem, Mem.fill]
    rfl

/-! ## What is printed -/

/-- The words that are printed come from the bytes that were set. -/
theorem Tried.bufWord_eq {out : AtaDisk × Mem} (h : Tried bwrite buf s out) {i : ℕ} (hi : i < 10) :
    bufWord out.2 buf i = 0x12121212#32 := by
  have hbyte : ∀ j < 4, out.2 (vir2phy buf + BitVec.ofNat 64 (4 * i) + BitVec.ofNat 64 j) =
      0x12#8 := by
    intro j hj
    rw [BitVec.add_assoc, ← BitVec.ofNat_add, h.buffer _ (by omega), h.sector _ (by omega),
      if_pos (by omega)]
  have h0 := hbyte 0 (by decide)
  rw [BitVec.add_zero] at h0
  unfold bufWord Mem.read32
  rw [h0, hbyte 1 (by decide), hbyte 2 (by decide), hbyte 3 (by decide)]
  decide

theorem textOf_words :
    textOf ((List.range 10).flatMap (fun _ => printWord 0x12121212#32) ++ [kerrPrintf "\n" []]) =
      chars "12 12 12 12 12 12 12 12 12 12 12 12 12 12 12 12 12 12 12 12 \n" := by
  decide +kernel

/-- **`ata_init`.** On every disk, with whatever status bytes, for every memory and every stack in
    the lowest GB or its copy: a run that returns has set sector 0, read it back to `buf`, past the
    pointer cut to 32 bits, changed nothing else, and printed the low byte of the pattern, twice
    for each of the ten words; on a responsive disk it returns. -/
theorem ataInit_tries (status : ℕ → BitVec 8) (s : AtaDisk × Mem) (bwrite buf : BitVec 64)
    (hstack : InKernel bwrite 1024 ∧ InKernel buf 512) :
    (∀ fuel out log, ataInit status fuel bwrite buf s = some (out, log) →
      Tried bwrite buf s out ∧ textOf log =
        chars "12 12 12 12 12 12 12 12 12 12 12 12 12 12 12 12 12 12 12 12 \n") ∧
      (Responsive status → ∃ bound out, ∀ fuel, bound ≤ fuel →
        ataInit status fuel bwrite buf s = some out) := by
  refine ⟨fun fuel out log h => ?_, fun hs => ?_⟩
  · rw [ataInit_eq] at h
    obtain ⟨out', hrun, hout⟩ := Option.map_eq_some_iff.mp h
    obtain ⟨rfl, rfl⟩ := Prod.mk.inj hout
    have htried := tried_of_requests hstack.2 hrun
    refine ⟨htried, ?_⟩
    rw [← textOf_words, ataPrints]
    refine congrArg (fun ps => textOf (ps ++ [kerrPrintf "\n" []])) ?_
    exact List.flatMap_congr fun i hi =>
      congrArg printWord (htried.bufWord_eq (List.mem_range.mp hi))
  · obtain ⟨bound, out, hrun⟩ :=
      requests_returns hs (ataRequests bwrite buf) (s.1, setMem s.2 bwrite)
    refine ⟨bound, (out, ataPrints out.2 buf), fun fuel hfuel => ?_⟩
    rw [ataInit_eq, hrun fuel hfuel]
    rfl

theorem ataInit_tries_blank : ∃ fuel out log, ataInit (fun _ => 0x48#8) fuel 0xffff800000100000#64
      0xffff800000100200#64 (blankDisk, fun _ => 0xaa#8) = some (out, log) ∧
    out.1.bytes 3 = 0x12#8 ∧ out.1.bytes 128 = 0xaa#8 ∧ out.1.bytes 512 = 0#8 := by
  obtain ⟨hruns, hreturns⟩ := ataInit_tries (fun _ => 0x48#8) (blankDisk, fun _ => 0xaa#8)
    0xffff800000100000#64 0xffff800000100200#64 ⟨by decide, by decide⟩
  obtain ⟨bound, out, hrun⟩ := hreturns always_responsive
  obtain ⟨htried, -⟩ := hruns bound out.1 out.2 (hrun bound (le_refl bound))
  exact ⟨bound, out.1, out.2, hrun bound (le_refl bound), htried.sector 3 (by decide),
    htried.sector 128 (by decide), htried.disk 512 (by decide)⟩

end HelloOS.Drivers
