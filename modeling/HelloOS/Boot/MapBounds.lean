/-
  The loads of `_init_memory`, whatever the tag holds.

  Nothing here assumes a well-formed tag. Round `k` of the copying loop is at the entry
  `16 + k * entry_size` bytes behind the tag and goes on while that is below the tag's size.
  As long as the stores to `gmdsc.e820` leave a set of addresses alone that the tag's header
  lies in, the loop can be followed on the memory before it (`CopyAt`): the entries it loads
  and whether it ends depend on the two sizes in the header alone (`initMemoryTag_ends`,
  `loads_of_initMemoryTag`).
-/
import HelloOS.Boot.MemoryMap

namespace HelloOS.Boot

open HelloOS.Lib HelloOS.Mm

/-! ## Loads -/

/-- A load of `size` bytes. -/
structure Load where
  addr : BitVec 64
  size : ℕ

/-- The load lies in the `n` bytes from `a` on. -/
def Load.Inside (a : BitVec 64) (n : ℕ) (l : Load) : Prop :=
  a.toNat ≤ l.addr.toNat ∧ l.addr.toNat + l.size ≤ a.toNat + n

theorem Load.Inside.subset {a : BitVec 64} {n : ℕ} {l : Load} (h : l.Inside a n) :
    Region l.addr l.size ⊆ Region a n := by
  have hsum : l.addr = a + (l.addr - a) := by ring
  have hoff : (l.addr - a).toNat = l.addr.toNat - a.toNat :=
    BitVec.toNat_sub_of_le (BitVec.le_def.mpr h.1)
  rw [hsum]
  apply region_subset
  have := h.1
  have := h.2
  omega

/-- What a round loads: the three fields of the entry, and the tag's `entry_size`. -/
def roundLoads (tag entry : BitVec 64) : List Load :=
  [⟨entry, 8⟩, ⟨entry + 8#64, 8⟩, ⟨entry + 16#64, 4⟩, ⟨tag + 8#64, 4⟩]

/-- The loads of the loop (`copy`) from the information. Its condition loads the tag's
    size. -/
def copyLoads (g tag : BitVec 64) : ℕ → Copy → List Load
  | 0, _ => [⟨tag + 4#64, 4⟩]
  | fuel + 1, s =>
    ⟨tag + 4#64, 4⟩ ::
      if s.More tag then roundLoads tag s.entry ++ copyLoads g tag fuel (s.next g tag) else []

/-! ## The loop -/

/-- `tag->size` and `mmap->entry_size`, as numbers. -/
def tagBytes (m : Mem) (tag : BitVec 64) : ℕ := (tagSize m tag).toNat

def entryBytes (m : Mem) (tag : BitVec 64) : ℕ := (mmapEntrySize m tag).toNat

/-- What following the loop rests on: the addresses `s` hold the tag's size, and its entry size
    when there is an entry, and are apart from the slots that the entries are copied to; the
    index has 32 bits. -/
structure MapIn (g tag : BitVec 64) (s : Set (BitVec 64)) (m : Mem) : Prop where
  low : tag.toNat < 2 ^ 48
  size : Region (tag + 4#64) 4 ⊆ s
  step : 16 < tagBytes m tag → Region (tag + 8#64) 4 ⊆ s
  slots : ∀ k < 2 ^ 32, 16 + k * entryBytes m tag < tagBytes m tag →
    Disjoint (Region (e820Addr g k) 20) s

/-- The loop at round `k`. -/
structure CopyAt (tag : BitVec 64) (s : Set (BitVec 64)) (m : Mem) (k : ℕ) (c : Copy) : Prop where
  entry : c.entry = tag + BitVec.ofNat 64 (16 + k * entryBytes m tag)
  i : c.i = BitVec.ofNat 32 k
  rounds : ∀ j < k, 16 + j * entryBytes m tag < tagBytes m tag
  agree : Mem.AgreeOn s c.mem m

section
variable {g tag : BitVec 64} {s : Set (BitVec 64)} {m m' : Mem} {k : ℕ} {c : Copy}

theorem tagBytes_lt (m : Mem) (tag : BitVec 64) : tagBytes m tag < 2 ^ 32 := (tagSize m tag).isLt

theorem entryBytes_lt (m : Mem) (tag : BitVec 64) : entryBytes m tag < 2 ^ 32 :=
  (mmapEntrySize m tag).isLt

theorem copyAt_start (h : Mem.AgreeOn s m' m) : CopyAt tag s m 0 (copyStart tag m') := by
  refine ⟨?_, rfl, ?_, h⟩
  · rw [Nat.zero_mul, Nat.add_zero]
    rfl
  · intro j hj
    omega

/-- The entry is not far behind the tag's end: the one before it was in front of the end. -/
theorem CopyAt.offset_lt (hc : CopyAt tag s m k c) : 16 + k * entryBytes m tag < 2 ^ 34 := by
  have hstep := entryBytes_lt m tag
  cases k with
  | zero => omega
  | succ k =>
    have hsize := tagBytes_lt m tag
    have hprev := hc.rounds k (by omega)
    rw [Nat.add_mul, Nat.one_mul]
    omega

theorem CopyAt.entry_toNat (hlow : tag.toNat < 2 ^ 48) (hc : CopyAt tag s m k c) :
    c.entry.toNat = tag.toNat + (16 + k * entryBytes m tag) := by
  have hoff := hc.offset_lt
  rw [hc.entry, BitVec.toNat_add, BitVec.toNat_ofNat]
  omega

theorem CopyAt.more_iff (hlow : tag.toNat < 2 ^ 48) (hsub : Region (tag + 4#64) 4 ⊆ s)
    (hc : CopyAt tag s m k c) : c.More tag ↔ 16 + k * entryBytes m tag < tagBytes m tag := by
  have hread : tagSize c.mem tag = tagSize m tag := (hc.agree.mono hsub).read32
  have hend : (tag + (tagSize m tag).setWidth 64).toNat = tag.toNat + tagBytes m tag := by
    have hsize := tagBytes_lt m tag
    unfold tagBytes at *
    rw [BitVec.toNat_add, BitVec.toNat_setWidth]
    omega
  unfold Copy.More
  rw [hread, BitVec.lt_def, hc.entry_toNat hlow, hend]
  omega

/-- A round stores to one slot only. -/
theorem Copy.next_agreeOn (h : Disjoint (Region (e820Addr g c.i.toNat) 20) s) :
    Mem.AgreeOn s (c.next g tag).mem c.mem := by
  have hlen := h.mono_left (lenBytes_subset (e820Addr g c.i.toNat) (le_refl 20))
  have htype := h.mono_left (typeBytes_subset (e820Addr g c.i.toNat) (le_refl 20))
  unfold Copy.next
  apply (Mem.agreeOn_write32 _ _ _ htype).trans
  apply (Mem.agreeOn_write64 _ _ _ hlen).trans
  exact Mem.agreeOn_write64 _ _ _ (h.mono_left (region_mono _ (by decide)))

theorem CopyAt.next (h : MapIn g tag s m) (hc : CopyAt tag s m k c)
    (hmore : 16 + k * entryBytes m tag < tagBytes m tag) :
    CopyAt tag s m (k + 1) (c.next g tag) := by
  have hslot : Disjoint (Region (e820Addr g c.i.toNat) 20) s := by
    rw [hc.i, BitVec.toNat_ofNat]
    apply h.slots _ (Nat.mod_lt _ (by decide))
    have hle := Nat.mul_le_mul_right (entryBytes m tag) (Nat.mod_le k (2 ^ 32))
    omega
  have hagree : Mem.AgreeOn s (c.next g tag).mem m := (Copy.next_agreeOn hslot).trans hc.agree
  refine ⟨?_, ?_, ?_, hagree⟩
  · have hread : mmapEntrySize (c.next g tag).mem tag = mmapEntrySize m tag :=
      (hagree.mono (h.step (by omega))).read32
    change c.entry + (mmapEntrySize (c.next g tag).mem tag).setWidth 64 = _
    have hstep : (mmapEntrySize m tag).setWidth 64 = BitVec.ofNat 64 (entryBytes m tag) :=
      BitVec.eq_of_toNat_eq (by rw [BitVec.toNat_setWidth, BitVec.toNat_ofNat]; rfl)
    rw [hread, hc.entry, hstep, BitVec.add_assoc, ← BitVec.ofNat_add, Nat.add_mul, Nat.one_mul,
      Nat.add_assoc]
  · change c.i + 1#32 = _
    rw [hc.i, BitVec.ofNat_add]
  · intro j hj
    rcases Nat.lt_succ_iff_lt_or_eq.mp hj with hj | rfl
    · exact hc.rounds j hj
    · exact hmore

/-- The loop with any fuel: it has used it up, or has come to the tag's end. -/
theorem CopyAt.run (h : MapIn g tag s m) (hc : CopyAt tag s m k c) (fuel : ℕ) :
    ∃ n ≤ k + fuel, CopyAt tag s m n (copy g tag fuel c) ∧
      (n = k + fuel ∨ ¬ (copy g tag fuel c).More tag) := by
  induction fuel generalizing k c with
  | zero => exact ⟨k, Nat.le_refl k, hc, Or.inl rfl⟩
  | succ fuel ih =>
    rw [copy_succ]
    by_cases hmore : c.More tag
    · rw [if_pos hmore]
      obtain ⟨n, hle, hn, hend⟩ := ih (hc.next h ((hc.more_iff h.low h.size).mp hmore))
      refine ⟨n, by omega, hn, hend.imp_left ?_⟩
      intro heq
      omega
    · rw [if_neg hmore]
      exact ⟨k, by omega, hc, Or.inr hmore⟩

/-! ## The loads of the loop -/

/-- Every entry in front of the tag's end is loaded, if the fuel lasts. -/
theorem CopyAt.loads (h : MapIn g tag s m) (hc : CopyAt tag s m k c) {fuel j : ℕ} (hkj : k ≤ j)
    (hj : j < k + fuel) (hmore : 16 + j * entryBytes m tag < tagBytes m tag) :
    ∀ l ∈ roundLoads tag (tag + BitVec.ofNat 64 (16 + j * entryBytes m tag)),
      l ∈ copyLoads g tag fuel c := by
  induction fuel generalizing k c with
  | zero => omega
  | succ fuel ih =>
    have hle := Nat.mul_le_mul_right (entryBytes m tag) hkj
    have hthis : 16 + k * entryBytes m tag < tagBytes m tag := by omega
    intro l hl
    unfold copyLoads
    rw [if_pos ((hc.more_iff h.low h.size).mpr hthis)]
    apply List.mem_cons_of_mem
    apply List.mem_append.mpr
    rcases Nat.lt_or_eq_of_le hkj with hlt | rfl
    · exact Or.inr (ih (hc.next h hthis) hlt (by omega) l hl)
    · rw [hc.entry]
      exact Or.inl hl

/-- If the size is in bounds, and each entry in front of the tag's end, with the entry size,
    then so is all that the loop loads. -/
theorem CopyAt.loads_of {p : Load → Prop} (h : MapIn g tag s m) (hc : CopyAt tag s m k c)
    (hsize : p ⟨tag + 4#64, 4⟩)
    (hrounds : ∀ j, 16 + j * entryBytes m tag < tagBytes m tag →
      ∀ l ∈ roundLoads tag (tag + BitVec.ofNat 64 (16 + j * entryBytes m tag)), p l)
    (fuel : ℕ) :
    ∀ l ∈ copyLoads g tag fuel c, p l := by
  induction fuel generalizing k c with
  | zero =>
    intro l hl
    rw [List.mem_singleton.mp hl]
    exact hsize
  | succ fuel ih =>
    unfold copyLoads
    rw [List.forall_mem_cons]
    refine ⟨hsize, ?_⟩
    by_cases hmore : c.More tag
    · have hthis := (hc.more_iff h.low h.size).mp hmore
      rw [if_pos hmore, List.forall_mem_append]
      refine ⟨?_, ih (hc.next h hthis)⟩
      rw [hc.entry]
      exact hrounds k hthis
    · rw [if_neg hmore]
      exact List.forall_mem_nil _

/-! ## `_init_memory` -/

/-- It ends, for some number of rounds below 2^32, unless the entry size of a map with an entry
    is zero. -/
theorem initMemoryTag_ends (h : MapIn g tag s m) (hm : Mem.AgreeOn s m' m)
    (hstep : 16 < tagBytes m tag → 0 < entryBytes m tag) {rounds : ℕ} (hr : 2 ^ 32 ≤ rounds) :
    (initMemoryTag rounds g tag m').isSome := by
  obtain ⟨n, -, hn, hend⟩ := (copyAt_start hm).run h rounds
  have hdone : ¬ (copy g tag rounds (copyStart tag m')).More tag := by
    rcases hend with rfl | hend
    · -- 2^32 rounds of at least one byte are more than a 32-bit size
      exfalso
      have hsize := tagBytes_lt m tag
      have hlast := hn.rounds (2 ^ 32 - 1) (by omega)
      have hle := Nat.mul_le_mul_left (2 ^ 32 - 1) (hstep (by omega))
      omega
    · exact hend
  unfold initMemoryTag
  dsimp only
  rw [if_neg hdone]
  rfl

theorem not_more_of_initMemoryTag {rounds : ℕ} (h : (initMemoryTag rounds g tag m').isSome) :
    ¬ (copy g tag rounds (copyStart tag m')).More tag := by
  intro hmore
  unfold initMemoryTag at h
  dsimp only at h
  rw [if_pos hmore] at h
  cases h

/-- A map with an entry that ended has loaded its entry size. -/
theorem stepLoad_of_initMemoryTag (hlow : tag.toNat < 2 ^ 48) (hsub : Region (tag + 4#64) 4 ⊆ s)
    (hm : Mem.AgreeOn s m' m) {rounds : ℕ} (hsome : (initMemoryTag rounds g tag m').isSome)
    (hsize : 16 < tagBytes m tag) :
    ⟨tag + 8#64, 4⟩ ∈ copyLoads g tag rounds (copyStart tag m') := by
  have hmore : (copyStart tag m').More tag :=
    ((copyAt_start hm).more_iff hlow hsub).mpr (by omega)
  cases rounds with
  | zero => exact absurd hmore (not_more_of_initMemoryTag hsome)
  | succ rounds =>
    unfold copyLoads roundLoads
    rw [if_pos hmore]
    simp

/-- Behind a map that ended, each entry in front of the tag's end has been loaded, and the entry
    size is not zero if there is one. -/
theorem loads_of_initMemoryTag (h : MapIn g tag s m) (hm : Mem.AgreeOn s m' m) {rounds : ℕ}
    (hsome : (initMemoryTag rounds g tag m').isSome) :
    (16 < tagBytes m tag → 0 < entryBytes m tag) ∧
      ∀ j, 16 + j * entryBytes m tag < tagBytes m tag →
        ∀ l ∈ roundLoads tag (tag + BitVec.ofNat 64 (16 + j * entryBytes m tag)),
          l ∈ copyLoads g tag rounds (copyStart tag m') := by
  have hdone := not_more_of_initMemoryTag hsome
  have hstart : CopyAt tag s m 0 (copyStart tag m') := copyAt_start hm
  obtain ⟨n, hle, hn, hend⟩ := hstart.run h rounds
  rw [hn.more_iff h.low h.size] at hdone
  refine ⟨?_, ?_⟩
  · intro hsize
    by_contra hzero
    rw [show entryBytes m tag = 0 by omega, Nat.mul_zero] at hdone
    omega
  · intro j hj
    have hjn : j < n := by
      by_contra hge
      have hmul := Nat.mul_le_mul_right (entryBytes m tag) (Nat.le_of_not_lt hge)
      omega
    exact hstart.loads h (Nat.zero_le j) (by omega) hj

/-- It leaves the addresses alone that its stores do not reach. -/
theorem initMemoryTag_agreeOn (h : MapIn g tag s m) (hm : Mem.AgreeOn s m' m)
    (hg : Disjoint (Region g sizeofGmdsc) s) {rounds : ℕ} {m₁ : Mem}
    (hsome : initMemoryTag rounds g tag m' = some m₁) : Mem.AgreeOn s m₁ m := by
  obtain ⟨n, -, hn, -⟩ := (copyAt_start hm).run h rounds
  have hnum : Region (g + BitVec.ofNat 64 offE820Num) 8 ⊆ Region g sizeofGmdsc :=
    region_subset g (by decide)
  have havail : Region (g + BitVec.ofNat 64 offE820AvailableSize) 8 ⊆ Region g sizeofGmdsc :=
    region_subset g (by decide)
  have hdone := not_more_of_initMemoryTag (Option.isSome_of_eq_some hsome)
  unfold initMemoryTag at hsome
  dsimp only at hsome
  rw [if_neg hdone] at hsome
  rw [← Option.some.inj hsome]
  apply (Mem.agreeOn_write64 _ _ _ (hg.mono_left havail)).trans
  exact (Mem.agreeOn_write64 _ _ _ (hg.mono_left hnum)).trans hn.agree

end

end HelloOS.Boot
