/-
  The copying loop of `_init_memory`.

  Behind `k` rounds the first `k` entries of the memory map lie in `gmdsc.e820`, and nothing
  outside the `20 * k` bytes they take has changed. Nothing in the loop bounds `k` by the 32
  entries that `e820` has: it ends when the tag ends.
-/
import HelloOS.Boot.Multiboot

namespace HelloOS.Boot

open HelloOS.Lib HelloOS.Mm

/-! ## One entry -/

/-- The bytes of `len` and of `type` in an entry, of 20 bytes in `e820` and of 24 or more in
    the memory map. -/
theorem lenBytes_subset (a : BitVec 64) {n : ℕ} (h : 20 ≤ n) :
    Region (a + 8#64) 8 ⊆ Region a n := region_subset a (Nat.le_trans (by decide) h)

theorem typeBytes_subset (a : BitVec 64) {n : ℕ} (h : 20 ≤ n) :
    Region (a + 16#64) 4 ⊆ Region a n := region_subset a (Nat.le_trans (by decide) h)

theorem readE820_congr {m m' : Mem} {g : BitVec 64} {i : ℕ}
    (h : Mem.AgreeOn (Region (e820Addr g i) 20) m m') : readE820 m g i = readE820 m' g i := by
  have hlen := h.mono (lenBytes_subset _ (le_refl 20))
  have htype := h.mono (typeBytes_subset _ (le_refl 20))
  unfold readE820
  rw [(h.mono (region_mono _ (by decide))).read64, hlen.read64, htype.read32]

theorem readEntry_congr {m m' : Mem} {a : BitVec 64}
    (h : Mem.AgreeOn (Region a 24) m m') : readEntry m a = readEntry m' a := by
  have hlen := h.mono (lenBytes_subset a (by decide))
  have htype := h.mono (typeBytes_subset a (by decide))
  unfold readEntry
  rw [(h.mono (region_mono _ (by decide))).read64, hlen.read64, htype.read32]

theorem writeE820_agreeOn (m : Mem) (g : BitVec 64) (i : ℕ) (e : E820) {s : Set (BitVec 64)}
    (h : Disjoint (Region (e820Addr g i) 20) s) : Mem.AgreeOn s (writeE820 m g i e) m := by
  unfold writeE820
  apply (Mem.agreeOn_write32 _ _ _ (h.mono_left (typeBytes_subset _ (le_refl 20)))).trans
  apply (Mem.agreeOn_write64 _ _ _ (h.mono_left (lenBytes_subset _ (le_refl 20)))).trans
  exact Mem.agreeOn_write64 _ _ _ (h.mono_left (region_mono _ (by decide)))

theorem readE820_writeE820 (m : Mem) (g : BitVec 64) (i : ℕ) (e : E820) :
    readE820 (writeE820 m g i e) g i = e := by
  have htype : ∀ m' : Mem, (m'.write32 (e820Addr g i + 16#64) e.type).read64 (e820Addr g i + 8#64) =
      m'.read64 (e820Addr g i + 8#64) := fun m' =>
    (m'.agreeOn_write32 _ _ (disjoint_offsets _ (by decide) (by decide)).symm).read64
  have htype' : ∀ m' : Mem, (m'.write32 (e820Addr g i + 16#64) e.type).read64 (e820Addr g i) =
      m'.read64 (e820Addr g i) := fun m' =>
    (m'.agreeOn_write32 _ _ (disjoint_offset _ (by decide) (by decide)).symm).read64
  have hlen : ∀ m' : Mem, (m'.write64 (e820Addr g i + 8#64) e.len).read64 (e820Addr g i) =
      m'.read64 (e820Addr g i) := fun m' =>
    (m'.agreeOn_write64 _ _ (disjoint_offset _ (by decide) (by decide)).symm).read64
  unfold readE820 writeE820
  rw [htype', hlen, Mem.read64_write64_self, htype, Mem.read64_write64_self,
    Mem.read32_write32_self]

/-- Offsets in `e820`, which are small. -/
theorem toNat_slot {j : ℕ} (h : j ≤ 41) : (BitVec.ofNat 64 (sizeofE820 * j)).toNat = 20 * j := by
  exact toNat_ofNat_eq (by unfold sizeofE820; omega)

theorem slot_subset (g : BitVec 64) {k n : ℕ} (h : sizeofE820 * (k + 1) ≤ n) :
    Region (e820Addr g k) 20 ⊆ Region g n := by
  have := toNat_ofNat_le (sizeofE820 * k)
  unfold e820Addr
  exact region_subset g (by unfold sizeofE820 at *; omega)

/-- A store to one entry leaves the entries before it. -/
theorem readE820_writeE820_of_lt (m : Mem) (g : BitVec 64) {j k : ℕ} (e : E820) (hjk : j < k)
    (hk : k ≤ 41) : readE820 (writeE820 m g k e) g j = readE820 m g j := by
  have hj' := toNat_slot (j := j) (by omega)
  have hk' := toNat_slot hk
  apply readE820_congr
  apply writeE820_agreeOn
  exact (disjoint_offsets g (by omega) (by omega)).symm

/-- A round stores the entry read, if the entry does not lie under the one stored to. -/
theorem Copy.next_mem {g tag : BitVec 64} {s : Copy}
    (h : Disjoint (Region (e820Addr g s.i.toNat) 20) (Region s.entry 24)) :
    (s.next g tag).mem = writeE820 s.mem g s.i.toNat (readEntry s.mem s.entry) := by
  have ha := lenBytes_subset (e820Addr g s.i.toNat) (le_refl 20)
  have hb := lenBytes_subset s.entry (n := 24) (by decide)
  have hc := typeBytes_subset s.entry (n := 24) (by decide)
  have h₁ : ∀ v, Mem.AgreeOn (Region s.entry 24) (s.mem.write64 (e820Addr g s.i.toNat) v) s.mem :=
    fun v => Mem.agreeOn_write64 _ _ v (h.mono_left (region_mono _ (by decide)))
  have h₂ : ∀ v w, Mem.AgreeOn (Region s.entry 24)
      ((s.mem.write64 (e820Addr g s.i.toNat) v).write64 (e820Addr g s.i.toNat + 8#64) w) s.mem :=
    fun v w => (Mem.agreeOn_write64 _ _ w (h.mono_left ha)).trans (h₁ v)
  unfold Copy.next writeE820 readEntry
  dsimp only
  rw [((h₁ _).mono hb).read64, ((h₂ _ _).mono hc).read32]

/-! ## The loop -/

section
variable {g tag : BitVec 64} {m : Mem} {entrySize : ℕ} {entries : List E820}

/-- What is assumed of a tag: a memory map of any number of entries lies there, does not
    reach the end of memory and does not overlap `gmdsc`. -/
structure MapAt (g tag : BitVec 64) (entrySize : ℕ) (entries : List E820) (m : Mem) : Prop where
  at_ : (Tag.mmap entrySize entries).At m tag
  wf : (Tag.mmap entrySize entries).Wf
  fits : tag.toNat + (Tag.mmap entrySize entries).size < 2 ^ 64
  apart : Disjoint (Region g sizeofGmdsc) (Region tag (Tag.mmap entrySize entries).size)

/-- The loop behind `k` rounds. -/
structure CopyInv (g tag : BitVec 64) (entrySize : ℕ) (entries : List E820) (m : Mem) (k : ℕ)
    (s : Copy) : Prop where
  entry : s.entry = tag + BitVec.ofNat 64 (16 + k * entrySize)
  i : s.i = BitVec.ofNat 32 k
  available : s.available =
    BitVec.ofNat 32 ((entries.take k).countP fun e => e.type = e820TypeAvailable)
  copied : ∀ j (h : j < entries.length), j < k → readE820 s.mem g j = entries.get ⟨j, h⟩
  frame : ∀ x, x ∉ Region g (sizeofE820 * k) → s.mem x = m x
  stored : s.stored = List.range k

theorem copyInv_start : CopyInv g tag entrySize entries m 0 (copyStart tag m) := by
  refine ⟨?_, rfl, ?_, ?_, fun _ _ => rfl, rfl⟩
  · rw [Nat.zero_mul, Nat.add_zero]
    rfl
  · rw [List.take_zero]
    rfl
  · intro j _ hj
    omega

/-- The number of entries fits the format's 32-bit size. -/
theorem MapAt.length_lt (h : MapAt g tag entrySize entries m) :
    16 + entries.length * entrySize < 2 ^ 32 ∧
      24 * entries.length ≤ entries.length * entrySize := by
  have hsize := h.at_.size
  have hlt := (tagSize m tag).isLt
  have hwf : 24 ≤ entrySize := h.wf
  change _ = 16 + entries.length * entrySize at hsize
  refine ⟨by omega, ?_⟩
  rw [Nat.mul_comm 24]
  exact Nat.mul_le_mul_left _ hwf

/-- Up to 41 rounds, what `gmdsc` has room for, the stores leave the tag alone. -/
theorem CopyInv.agreeOn_tag (h : MapAt g tag entrySize entries m) {k : ℕ} {s : Copy}
    (hs : CopyInv g tag entrySize entries m k s) (hk : k ≤ 41) :
    Mem.AgreeOn (Region tag (Tag.mmap entrySize entries).size) s.mem m := by
  intro x hx
  apply hs.frame
  intro hg
  have hsub : Region g (sizeofE820 * k) ⊆ Region g sizeofGmdsc := by
    unfold sizeofE820 sizeofGmdsc
    exact region_mono g (by omega)
  exact Set.disjoint_left.mp h.apart (hsub hg) hx

/-- The loop goes on exactly while there are entries. -/
theorem CopyInv.more_iff (h : MapAt g tag entrySize entries m) {k : ℕ} {s : Copy}
    (hs : CopyInv g tag entrySize entries m k s) (hk : k ≤ 41) (hle : k ≤ entries.length) :
    s.More tag ↔ k < entries.length := by
  obtain ⟨hlen, -⟩ := h.length_lt
  have hsize := h.at_.size
  have hfits := h.fits
  have hwf : 24 ≤ entrySize := h.wf
  have hread : tagSize s.mem tag = tagSize m tag := by
    have hsub : Region (tag + 4#64) 4 ⊆ Region tag (Tag.mmap entrySize entries).size :=
      region_subset tag (by change 8 ≤ 16 + _; omega)
    exact ((hs.agreeOn_tag h hk).mono hsub).read32
  change _ = 16 + entries.length * entrySize at hsize
  change _ + (16 + entries.length * entrySize) < _ at hfits
  have hmul := Nat.mul_le_mul_right entrySize hle
  have hentry : s.entry.toNat = tag.toNat + (16 + k * entrySize) := by
    rw [hs.entry, BitVec.toNat_add, BitVec.toNat_ofNat]
    omega
  have hend : (tag + (tagSize m tag).setWidth 64).toNat =
      tag.toNat + (16 + entries.length * entrySize) := by
    rw [BitVec.toNat_add, BitVec.toNat_setWidth, hsize]
    omega
  unfold Copy.More
  rw [hread, BitVec.lt_def, hentry, hend]
  constructor
  · intro hlt
    exact Nat.lt_of_mul_lt_mul_right (a := entrySize) (by omega)
  · intro hlt
    have := Nat.mul_lt_mul_of_pos_right hlt (by omega : 0 < entrySize)
    omega

/-- Entry `j` of a memory map with `n` entries of `size` bytes lies in its tag. -/
theorem entry_subset (a : BitVec 64) {size n j : ℕ} (hsize : 24 ≤ size) (hj : j < n) :
    Region (a + BitVec.ofNat 64 (16 + j * size)) 24 ⊆ Region a (16 + n * size) := by
  have hnat := toNat_ofNat_le (16 + j * size)
  have hmul := Nat.mul_le_mul_right size (show j + 1 ≤ n by omega)
  rw [Nat.add_mul] at hmul
  exact region_subset a (by omega)

/-- The entry of round `k`. -/
theorem MapAt.entry_region (h : MapAt g tag entrySize entries m) {k : ℕ}
    (hk : k < entries.length) :
    Region (tag + BitVec.ofNat 64 (16 + k * entrySize)) 24 ⊆
      Region tag (Tag.mmap entrySize entries).size :=
  entry_subset tag h.wf hk

/-- The size of the entries, as `_init_memory` adds it to `entry`. -/
theorem MapAt.entrySize_eq (h : MapAt g tag entrySize entries m) {m' : Mem}
    (hagree : Mem.AgreeOn (Region tag (Tag.mmap entrySize entries).size) m' m) :
    (mmapEntrySize m' tag).setWidth 64 = BitVec.ofNat 64 entrySize := by
  have hsub : Region (tag + 8#64) 4 ⊆ Region tag (Tag.mmap entrySize entries).size := by
    apply region_subset
    change 12 ≤ 16 + _
    omega
  have hread : mmapEntrySize m' tag = mmapEntrySize m tag := (hagree.mono hsub).read32
  have hnat := h.at_.entrySize entrySize entries rfl
  apply BitVec.eq_of_toNat_eq
  rw [hread, BitVec.toNat_setWidth, hnat, BitVec.toNat_ofNat]

theorem CopyInv.i_toNat (h : MapAt g tag entrySize entries m) {k : ℕ} {s : Copy}
    (hs : CopyInv g tag entrySize entries m k s) (hle : k ≤ entries.length) : s.i.toNat = k := by
  obtain ⟨hlen, hmul⟩ := h.length_lt
  rw [hs.i, BitVec.toNat_ofNat]
  omega

/-- A round stores entry `k` of the map, and leaves the tag alone. -/
theorem CopyInv.next_mem (h : MapAt g tag entrySize entries m) {k : ℕ} {s : Copy}
    (hs : CopyInv g tag entrySize entries m k s) (hk : k < 41) (hlt : k < entries.length) :
    (s.next g tag).mem = writeE820 s.mem g k (entries.get ⟨k, hlt⟩) ∧
      Mem.AgreeOn (Region tag (Tag.mmap entrySize entries).size) (s.next g tag).mem m := by
  have hagree := hs.agreeOn_tag h (by omega)
  have hregion := h.entry_region hlt
  have hslot := h.apart.mono_left (slot_subset g (k := k) (by
    unfold sizeofE820 sizeofGmdsc
    omega))
  have hread : readEntry s.mem s.entry = entries.get ⟨k, hlt⟩ := by
    rw [hs.entry, readEntry_congr (hagree.mono hregion)]
    exact h.at_.entries entrySize entries rfl k hlt
  have hmem : (s.next g tag).mem = writeE820 s.mem g k (entries.get ⟨k, hlt⟩) := by
    rw [← hread, ← hs.i_toNat h (by omega)]
    apply Copy.next_mem
    rw [hs.i_toNat h (by omega), hs.entry]
    exact hslot.mono_right hregion
  refine ⟨hmem, ?_⟩
  rw [hmem]
  exact (writeE820_agreeOn s.mem g k _ hslot).trans hagree

/-- One round, while `gmdsc` has room: 40 entries lie before its end. -/
theorem CopyInv.next (h : MapAt g tag entrySize entries m) {k : ℕ} {s : Copy}
    (hs : CopyInv g tag entrySize entries m k s) (hk : k < 41) (hlt : k < entries.length) :
    CopyInv g tag entrySize entries m (k + 1) (s.next g tag) := by
  obtain ⟨hmem, hagree⟩ := hs.next_mem h hk hlt
  have hi := hs.i_toNat h (by omega)
  refine ⟨?_, ?_, ?_, ?_, ?_, ?_⟩
  · change s.entry + (mmapEntrySize (s.next g tag).mem tag).setWidth 64 = _
    rw [hs.entry, h.entrySize_eq hagree, BitVec.add_assoc, ← BitVec.ofNat_add, Nat.add_mul,
      Nat.one_mul, Nat.add_assoc]
  · change s.i + 1#32 = _
    rw [hs.i, BitVec.ofNat_add]
  · change (if (readE820 (s.next g tag).mem g s.i.toNat).type = _ then _ else _) = _
    rw [hi, hmem, readE820_writeE820, hs.available, List.take_succ_eq_append_getElem hlt,
      List.countP_append, List.countP_singleton, List.get_eq_getElem]
    by_cases htype : (entries[k]).type = e820TypeAvailable
    · rw [if_pos htype, if_pos (decide_eq_true htype), BitVec.ofNat_add]
    · rw [if_neg htype, if_neg (by simpa using htype), Nat.add_zero]
  · intro j hj hjk
    rcases Nat.lt_succ_iff_lt_or_eq.mp hjk with hjk | rfl
    · rw [hmem, readE820_writeE820_of_lt _ _ _ hjk (by omega), hs.copied j hj hjk]
    · rw [hmem, readE820_writeE820]
  · intro x hx
    have hout : x ∉ Region g (sizeofE820 * k) := fun hin =>
      hx (region_mono g (by unfold sizeofE820; omega) hin)
    rw [hmem, ← hs.frame x hout]
    exact writeE820_agreeOn s.mem g k _ (Set.disjoint_singleton_right.mpr fun hin =>
      hx (slot_subset g (le_refl _) hin)) x (Set.mem_singleton x)
  · change s.stored ++ [s.i.toNat] = _
    rw [hs.stored, hi, List.range_succ]

/-- Some rounds on from round `j`. -/
theorem CopyInv.copy (h : MapAt g tag entrySize entries m) {j : ℕ} {s : Copy}
    (hs : CopyInv g tag entrySize entries m j s) (n : ℕ) (hn : j + n ≤ entries.length)
    (hroom : j + n ≤ 41) :
    CopyInv g tag entrySize entries m (j + n) (copy g tag n s) := by
  induction n generalizing j s with
  | zero => exact hs
  | succ n ih =>
    have hmore := (hs.more_iff h (by omega) (by omega)).mpr (by omega)
    unfold Boot.copy
    rw [if_pos hmore, show j + (n + 1) = j + 1 + n by omega]
    exact ih (hs.next h (by omega) (by omega)) (by omega) (by omega)

/-- The first `n` rounds. -/
theorem copyInv_run (h : MapAt g tag entrySize entries m) (n : ℕ) (hn : n ≤ entries.length)
    (hroom : n ≤ 41) : CopyInv g tag entrySize entries m n (copy g tag n (copyStart tag m)) := by
  have hstart : CopyInv g tag entrySize entries m 0 (copyStart tag m) := copyInv_start
  have hrun := hstart.copy h n (by omega) (by omega)
  rwa [Nat.zero_add] at hrun

/-- Behind the last entry the loop has ended. -/
theorem CopyInv.copy_end (h : MapAt g tag entrySize entries m) {s : Copy}
    (hs : CopyInv g tag entrySize entries m entries.length s) (hroom : entries.length ≤ 41)
    (n : ℕ) : Boot.copy g tag n s = s := by
  cases n with
  | zero => rfl
  | succ n =>
    have hmore := (hs.more_iff h hroom (le_refl _)).not.mpr (by omega)
    unfold Boot.copy
    rw [if_neg hmore]

theorem copy_succ (g tag : BitVec 64) (n : ℕ) (s : Copy) :
    copy g tag (n + 1) s = if s.More tag then copy g tag n (s.next g tag) else s := rfl

theorem copy_add (g tag : BitVec 64) (n k : ℕ) (s : Copy) :
    copy g tag (n + k) s = copy g tag k (copy g tag n s) := by
  induction n generalizing s with
  | zero => rw [Nat.zero_add]; rfl
  | succ n ih =>
    rw [Nat.add_right_comm]
    by_cases hmore : s.More tag
    · rw [copy_succ, if_pos hmore, ih, copy_succ g tag n, if_pos hmore]
    · have hstop : ∀ j, copy g tag j s = s := by
        intro j
        cases j with
        | zero => rfl
        | succ j => exact if_neg hmore
      rw [hstop, hstop, hstop]

/-- The loop with any fuel, for a map that fits. -/
theorem copy_fuel (h : MapAt g tag entrySize entries m) (hroom : entries.length ≤ 41) (fuel : ℕ) :
    CopyInv g tag entrySize entries m (min fuel entries.length)
      (copy g tag fuel (copyStart tag m)) := by
  have hrun := copyInv_run h (min fuel entries.length) (by omega) (by omega)
  by_cases hle : fuel ≤ entries.length
  · rw [Nat.min_eq_left hle] at hrun ⊢
    exact hrun
  · have hlen : min fuel entries.length = entries.length := by omega
    rw [hlen] at hrun ⊢
    have hadd := copy_add g tag entries.length (fuel - entries.length) (copyStart tag m)
    rw [show entries.length + (fuel - entries.length) = fuel by omega,
      hrun.copy_end h hroom] at hadd
    rw [hadd]
    exact hrun

/-! ## `_init_memory` -/

/-- The stores behind the loop: `gmdsc.e820_num` and `gmdsc.e820_available_size`. -/
def storeCounters (m : Mem) (g num available : BitVec 64) : Mem :=
  (m.write64 (g + BitVec.ofNat 64 offE820Num) num).write64
    (g + BitVec.ofNat 64 offE820AvailableSize) available

section
variable (m : Mem) (g num available : BitVec 64)

theorem e820Num_storeCounters : e820Num (storeCounters m g num available) g = num := by
  unfold storeCounters e820Num
  rw [Mem.read64_write64_offset _ _ _ (Or.inr (by decide)), Mem.read64_write64_self]

theorem e820AvailableSize_storeCounters :
    e820AvailableSize (storeCounters m g num available) g = available :=
  Mem.read64_write64_self _ _ _

theorem readE820_storeCounters {j : ℕ} (hj : j < 32) :
    readE820 (storeCounters m g num available) g j = readE820 m g j := by
  have hslot := toNat_slot (j := j) (by omega)
  have hnum : (BitVec.ofNat 64 offE820Num).toNat = 640 := rfl
  have havail : (BitVec.ofNat 64 offE820AvailableSize).toNat = 648 := rfl
  apply readE820_congr
  apply (Mem.agreeOn_write64 _ _ _ (disjoint_offsets g (by omega) (by omega)).symm).trans
  exact m.agreeOn_write64 _ _ (disjoint_offsets g (by omega) (by omega)).symm

theorem storeCounters_of_notMem {x : BitVec 64} (hx : x ∉ Region g 656) :
    storeCounters m g num available x = m x := by
  have hnum : Region (g + BitVec.ofNat 64 offE820Num) 8 ⊆ Region g 656 :=
    region_subset g (by decide)
  have havail : Region (g + BitVec.ofNat 64 offE820AvailableSize) 8 ⊆ Region g 656 :=
    region_subset g (by decide)
  exact (Mem.fill_of_notMem _ _ _ fun hin => hx (havail hin)).trans
    (Mem.fill_of_notMem _ _ _ fun hin => hx (hnum hin))

end

/-- What `gmdsc` says about the memory map. -/
structure E820Is (g : BitVec 64) (es : List E820) (m : Mem) : Prop where
  list : e820List m g = es
  num : (e820Num m g).toNat = es.length
  available : (e820AvailableSize m g).toNat = es.countP fun e => e.type = e820TypeAvailable

/-- For a map of at most 32 entries `_init_memory` returns, with the map in `gmdsc`, and has
    changed only `e820` and the two counters behind it. -/
theorem initMemoryTag_spec (h : MapAt g tag entrySize entries m) (hlen : entries.length ≤ 32)
    {fuel : ℕ} (hfuel : entries.length ≤ fuel) :
    ∃ m', initMemoryTag fuel g tag m = some m' ∧ E820Is g entries m' ∧
      ∀ x, x ∉ Region g 656 → m' x = m x := by
  have hs := copy_fuel h (by omega) fuel
  rw [Nat.min_eq_right hfuel] at hs
  generalize hcopy : copy g tag fuel (copyStart tag m) = s at hs
  have hmore := (hs.more_iff h (by omega) (le_refl _)).not.mpr (by omega)
  have hcount := List.countP_le_length (p := fun e : E820 => decide (e.type = e820TypeAvailable))
    (l := entries)
  have hnum : (e820Num (storeCounters s.mem g (s.i.setWidth 64) (s.available.setWidth 64))
      g).toNat = entries.length := by
    rw [e820Num_storeCounters, hs.i, BitVec.toNat_setWidth, BitVec.toNat_ofNat]
    omega
  refine ⟨_, ?_, ⟨?_, hnum, ?_⟩, ?_⟩
  · unfold initMemoryTag
    rw [hcopy]
    exact if_neg hmore
  · unfold e820List
    rw [hnum]
    apply List.ext_getElem
    · rw [List.length_map, List.length_range]
    · intro j hj hj'
      rw [List.getElem_map, List.getElem_range, readE820_storeCounters _ _ _ _ (by omega)]
      exact hs.copied j hj' hj'
  · rw [e820AvailableSize_storeCounters, hs.available, List.take_length, BitVec.toNat_setWidth,
      BitVec.toNat_ofNat]
    omega
  · intro x hx
    have hcopied : x ∉ Region g (sizeofE820 * entries.length) := fun hin =>
      hx (region_mono g (by unfold sizeofE820; omega) hin)
    rw [← hs.frame x hcopied]
    exact storeCounters_of_notMem _ _ _ _ hx

/-! ## The bound of `e820` -/

/-- `_init_memory` stays inside `e820`: every store of the copying loop has an index below 32,
    the loop changes nothing of `gmdsc` behind `e820`, and the loops that run to `e820_num`
    afterwards read entries of the array only. -/
structure InBounds (g tag : BitVec 64) (m : Mem) : Prop where
  indices : ∀ fuel, ∀ k ∈ (copy g tag fuel (copyStart tag m)).stored, k < 32
  rest : ∀ fuel, Mem.AgreeOn (Region (g + BitVec.ofNat 64 offE820Num) (sizeofGmdsc - offE820Num))
    (copy g tag fuel (copyStart tag m)).mem m
  later : ∀ fuel m', initMemoryTag fuel g tag m = some m' → (e820Num m' g).toNat ≤ 32

/-- **The memory map's storage.** For a memory map of any number of entries, `_init_memory`
    stays inside `e820` exactly if there are at most 32. -/
theorem mmap_inBounds_iff (h : MapAt g tag entrySize entries m) :
    InBounds g tag m ↔ entries.length ≤ 32 := by
  constructor
  · intro hin
    by_contra hlen
    -- the 33rd round stores to index 32
    have hs := copyInv_run h 33 (by omega) (by omega)
    have hmem : 32 ∈ (copy g tag 33 (copyStart tag m)).stored := by
      rw [hs.stored]
      exact List.mem_range.mpr (by omega)
    exact absurd (hin.indices 33 32 hmem) (by omega)
  · intro hlen
    refine ⟨?_, ?_, ?_⟩
    · intro fuel k hk
      rw [(copy_fuel h (by omega) fuel).stored, List.mem_range] at hk
      omega
    · intro fuel x hx
      apply (copy_fuel h (by omega) fuel).frame
      intro hin
      have hin' : x ∈ Region g 640 :=
        region_mono g (by unfold sizeofE820; omega) hin
      exact Set.disjoint_left.mp (disjoint_offset g (by decide) (by decide)) hin' hx
    · intro fuel m' hm'
      have hs := copy_fuel h (by omega) fuel
      by_cases hfuel : entries.length ≤ fuel
      · obtain ⟨m'', hm'', hspec, -⟩ := initMemoryTag_spec h hlen hfuel
        rw [hm''] at hm'
        rw [← Option.some.inj hm', hspec.num]
        exact hlen
      · -- with less fuel the loop has not ended
        have hmore := (hs.more_iff h (by omega) (by omega)).mpr (by omega)
        unfold initMemoryTag at hm'
        dsimp only at hm'
        rw [if_pos hmore] at hm'
        cases hm'

end

/-! ## A map of empty entries -/

/-- A memory map of size `size` at 0x1000, all of whose entries are zero. -/
def zeroMap (size : BitVec 16) : Mem := fun x =>
  if x = 0x1000#64 then 6#8
  else if x = 0x1004#64 then size.setWidth 8
  else if x = 0x1005#64 then (size >>> 8).setWidth 8
  else if x = 0x1008#64 then 24#8
  else 0#8

theorem zeroMap_at {n : ℕ} (hn : n ≤ 33)
    (hsize : (tagSize (zeroMap (BitVec.ofNat 16 (16 + n * 24))) 0x1000#64).toNat = 16 + n * 24) :
    MapAt 0x2000#64 0x1000#64 24 (List.replicate n ⟨0#64, 0#64, 0#32⟩)
      (zeroMap (BitVec.ofNat 16 (16 + n * 24))) := by
  have hlen : (Tag.mmap 24 (List.replicate n (⟨0#64, 0#64, 0#32⟩ : E820))).size = 16 + n * 24 := by
    change 16 + (List.replicate n _).length * 24 = _
    rw [List.length_replicate]
  have htype : tagType (zeroMap (BitVec.ofNat 16 (16 + n * 24))) 0x1000#64 = tagTypeMmap := by
    change (0#8 ++ 0#8 ++ 0#8 ++ 6#8 : BitVec 32) = _
    decide
  have hentry : mmapEntrySize (zeroMap (BitVec.ofNat 16 (16 + n * 24))) 0x1000#64 = 24#32 := by
    change (0#8 ++ 0#8 ++ 0#8 ++ 24#8 : BitVec 32) = _
    decide
  refine ⟨⟨htype, ?_, ?_, ?_⟩, ?_, ?_, ?_⟩
  · rw [hsize, hlen]
  · intro k es he
    cases he
    rw [hentry]
    rfl
  · intro k es he j hj
    cases he
    rw [List.length_replicate] at hj
    have hzero : Mem.AgreeOn (Region (0x1000#64 + BitVec.ofNat 64 (16 + j * 24)) 24)
        (zeroMap (BitVec.ofNat 16 (16 + n * 24))) fun _ => 0#8 := by
      intro x hx
      rw [mem_region] at hx
      have ha : (0x1000#64 + BitVec.ofNat 64 (16 + j * 24)).toNat = 0x1010 + j * 24 := by
        rw [← BitVec.ofNat_add, toNat_ofNat_eq (by omega)]
        omega
      have hj' : j * 24 ≤ 33 * 24 := Nat.mul_le_mul_right 24 (by omega)
      generalize 0x1000#64 + BitVec.ofNat 64 (16 + j * 24) = a at hx ha
      generalize j * 24 = o at ha hj'
      have hlow : 0x1010 ≤ x.toNat := by bv_omega
      unfold zeroMap
      rw [if_neg (by bv_omega), if_neg (by bv_omega), if_neg (by bv_omega), if_neg (by bv_omega)]
    have hword : (0#8 ++ 0#8 ++ 0#8 ++ 0#8 ++ 0#8 ++ 0#8 ++ 0#8 ++ 0#8 : BitVec 64) = 0#64 := by
      decide
    have hhalf : (0#8 ++ 0#8 ++ 0#8 ++ 0#8 : BitVec 32) = 0#32 := by decide
    rw [readEntry_congr hzero, List.get_eq_getElem, List.getElem_replicate]
    unfold readEntry Mem.read64 Mem.read32
    dsimp only
    rw [hword, hhalf]
  · change 24 ≤ 24
    omega
  · rw [hlen]
    change 0x1000 + _ < _
    omega
  · rw [hlen]
    exact (disjoint_of_le (by change 0x1000 + _ ≤ 0x2000; omega) (by decide)).symm

/-- A map of 32 entries fills `e820`. -/
theorem mmap_inBounds_zero : InBounds 0x2000#64 0x1000#64 (zeroMap (BitVec.ofNat 16 784)) := by
  have h := zeroMap_at (n := 32) (by omega) (by decide)
  exact (mmap_inBounds_iff h).mpr (by rw [List.length_replicate])

/-- A map of 33 entries, one too many. -/
theorem mmap_overrun :
    ¬ ∀ (g tag : BitVec 64) (entrySize : ℕ) (entries : List E820) (m : Mem),
      MapAt g tag entrySize entries m → InBounds g tag m := by
  intro hall
  have h := zeroMap_at (n := 33) (by omega) (by decide)
  have hs := copyInv_run h 33 (by decide) (by omega)
  have hmem : 32 ∈ (copy 0x2000#64 0x1000#64 33
      (copyStart 0x1000#64 (zeroMap (BitVec.ofNat 16 (16 + 33 * 24))))).stored := by
    rw [hs.stored]
    exact List.mem_range.mpr (by omega)
  exact absurd ((hall _ _ _ _ _ h).indices 33 32 hmem) (by omega)

end HelloOS.Boot
