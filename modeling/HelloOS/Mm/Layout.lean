/-
  The three arrays as `init_memory` lays them out, before the zones are built.

  `Boot.totalPages` is the page count of the memory up to the end of the last E820 entry,
  `Boot.zoneCount` the number of available entries. The sizes and lengths of the arrays are
  stated in these two (`initStructs_sizes`), and so is what the arrays hold
  (`initStructs_arrays`): every bit set, every page struct and every zone struct zero.
  `Consistent` is the fact every later state keeps: the struct of a zone page carries that
  page's own number, and a zone page with an attribute has its bit set.
-/
import HelloOS.Mm.Zones

namespace HelloOS.Mm

open HelloOS.Lib

variable (b : Boot)

/-- `total_mem >> PAGE_4K_SHIFT`. -/
def Boot.totalPages (b : Boot) : Nat :=
  pageNumber (b.state.gmdsc.lastE820.addr + b.state.gmdsc.lastE820.len)

/-- The number of available entries. -/
def Boot.zoneCount (b : Boot) : Nat := b.e820.countP fun e => e.type = e820TypeAvailable

theorem Boot.totalPages_lt : b.totalPages < 2 ^ 52 := pageNumber_lt _

theorem Boot.zoneCount_le : b.zoneCount ≤ 32 :=
  Nat.le_trans (List.countP_le_length) b.e820_le

/-- `(len + sizeof(uint_t) - 1) & ~(sizeof(uint_t) - 1)` rounds up to a multiple of 8. -/
theorem toNat_roundUp8 (a : U64) (h : a.toNat + 7 < 2 ^ 64) :
    ((a + 8#64 - 1#64) &&& ~~~(8#64 - 1#64)).toNat = 8 * ((a.toNat + 7) / 8) := by
  have hm : ~~~(8#64 - 1#64) = highMask 3 := by decide
  have hs : (a + 8#64 - 1#64).toNat = a.toNat + 7 := by bv_omega
  rw [hm, toNat_and_highMask, hs]
  rfl

/-- `page_bits_length` for `n` pages: 8 bytes for every 64 pages begun. -/
theorem toNat_bitsLength (n : U64) (h : n.toNat < 2 ^ 52) :
    (((n + 64#64 - 1#64) / 8#64) &&& ~~~(8#64 - 1#64)).toNat = 8 * ((n.toNat + 63) / 64) := by
  have hm : ~~~(8#64 - 1#64) = highMask 3 := by decide
  have hs : (n + 64#64 - 1#64).toNat = n.toNat + 63 := by bv_omega
  rw [hm, toNat_and_highMask, BitVec.toNat_udiv, hs]
  change 8 * ((n.toNat + 63) / 8 / 8) = _
  omega

/-! ## Sizes and contents -/

theorem toNat_totalMem :
    ((b.state.gmdsc.lastE820.addr + b.state.gmdsc.lastE820.len) >>> 12).toNat = b.totalPages := rfl

/-- The sizes `init_memory` computes. -/
theorem initStructs_sizes :
    let g := (initStructs b).gmdsc
    g.e820 = b.e820 ∧ g.kernelStartPhyaddr = b.startKernel ∧ g.kernelEndPhyaddr = b.endKernel ∧
    g.pageBitsSize.toNat = b.totalPages ∧ g.pageBitsLength.toNat = 8 * ((b.totalPages + 63) / 64) ∧
    g.pagesSize.toNat = b.totalPages ∧ g.pagesLength.toNat = 40 * b.totalPages ∧
    g.zonesSize.toNat = b.zoneCount ∧ g.zonesLength.toNat = 72 * b.zoneCount := by
  have hT := toNat_totalMem b
  have hlt := b.totalPages_lt
  have hle := b.zoneCount_le
  have hZ : b.state.gmdsc.e820AvailableSize.toNat = b.zoneCount :=
    (BitVec.toNat_ofNat _ _).trans (Nat.mod_eq_of_lt (by unfold Boot.zoneCount at hle; omega))
  refine ⟨rfl, rfl, rfl, hT, ?_, hT, ?_, hZ, ?_⟩
  · exact (toNat_bitsLength _ (by omega)).trans (by rw [hT])
  · have hm : (((b.state.gmdsc.lastE820.addr + b.state.gmdsc.lastE820.len) >>> 12) *
        sizeofMmPage).toNat = 40 * b.totalPages := by
      rw [BitVec.toNat_mul, hT, show sizeofMmPage.toNat = 40 from rfl]
      omega
    refine (toNat_roundUp8 (((b.state.gmdsc.lastE820.addr + b.state.gmdsc.lastE820.len) >>> 12) *
      sizeofMmPage) (by omega)).trans ?_
    rw [hm]
    omega
  · have hm : (b.state.gmdsc.e820AvailableSize * sizeofMmZone).toNat = 72 * b.zoneCount := by
      rw [BitVec.toNat_mul, hZ, show sizeofMmZone.toNat = 72 from rfl]
      omega
    refine (toNat_roundUp8 (b.state.gmdsc.e820AvailableSize * sizeofMmZone) (by omega)).trans ?_
    rw [hm]
    omega

/-- What the arrays hold before the zones are built. -/
theorem initStructs_arrays :
    (initStructs b).bits = b.bits.ones ((b.totalPages + 63) / 64) ∧
    (∀ i, (initStructs b).pages i = if i < b.totalPages then MmPage.zero else b.pages i) ∧
    ∀ z, z < b.zoneCount → (initStructs b).zones z = MmZone.zero := by
  obtain ⟨-, -, -, -, hbl, -, hpl, -, hzl⟩ := initStructs_sizes b
  refine ⟨?_, fun i => ?_, fun z hz => ?_⟩
  · change b.bits.ones ((initStructs b).gmdsc.pageBitsLength.toNat / 8) = _
    rw [hbl, Nat.mul_div_cancel_left _ (by decide)]
  · change (if i < (initStructs b).gmdsc.pagesLength.toNat / 40 then MmPage.zero
      else b.pages i) = _
    rw [hpl, Nat.mul_div_cancel_left _ (by decide)]
  · change (if z < (initStructs b).gmdsc.zonesLength.toNat / 72 then MmZone.zero
      else b.zones z) = _
    rw [hzl, Nat.mul_div_cancel_left _ (by decide), if_pos hz]

/-! ## The state the zone loop leaves -/

/-- The extents of the map. -/
def Boot.extents (b : Boot) : List Extent := Mm.extents b.e820

theorem Boot.extents_length_le : b.extents.length ≤ b.zoneCount :=
  Mm.extents_length_le b.e820

/-- The state before any page is marked used. -/
def Boot.zoneState (b : Boot) : MmState := constructZones (initStructs b)

theorem zoneState_spec :
    b.zoneState.gmdsc = (initStructs b).gmdsc ∧
    (∀ (k : Nat) (hk : k < b.extents.length),
      b.zoneState.zones k = freshZone (b.extents[k]).start (b.extents[k]).end_) ∧
    (∀ z, b.extents.length ≤ z → z < b.zoneCount → b.zoneState.zones z = MmZone.zero) ∧
    (∀ i, (∃ (k : Nat) (hk : k < b.extents.length), (b.extents[k]).Has i ∧
        b.zoneState.pages i = freshPage k i) ∨
      (∀ x ∈ b.extents, ¬ x.Has i) ∧ b.zoneState.pages i = (initStructs b).pages i) ∧
    ∀ i, b.zoneState.bits.get i =
      (decide (b.extents.countP (·.Has i) % 2 = 1) ^^ (initStructs b).bits.get i) := by
  obtain ⟨hg, hz, hy, hp, hb⟩ := buildZones_spec b.extents (initStructs b) 0
  have heq : b.zoneState = buildZones (initStructs b) 0 b.extents := by
    unfold Boot.zoneState Boot.extents
    rw [constructZones_eq, (initStructs_sizes b).1]
  rw [heq]
  simp only [Nat.zero_add] at hz hp hy
  refine ⟨hg, hz, fun z h1 h2 => ?_, hp, hb⟩
  rw [hy z (Or.inr h1)]
  exact (initStructs_arrays b).2.2 z h2

@[simp] theorem zoneState_gmdsc : b.zoneState.gmdsc = (initStructs b).gmdsc := (zoneState_spec b).1

/-- The zone pages are the pages of the extents. -/
theorem zoneState_has {z i : Nat} (hz : z < b.zoneCount) :
    (b.zoneState.zones z).Has i ↔ ∃ hk : z < b.extents.length, (b.extents[z]).Has i := by
  obtain ⟨-, hzone, hzero, -, -⟩ := zoneState_spec b
  by_cases hk : z < b.extents.length
  · rw [hzone z hk, freshZone_has]
    exact ⟨fun h => ⟨hk, h⟩, fun ⟨_, h⟩ => h⟩
  · rw [hzero z (by omega) hz]
    exact ⟨fun h => absurd h (MmZone.zero_not_has i), fun ⟨h, _⟩ => absurd h hk⟩

theorem zoneState_inZone {i : Nat} : b.zoneState.InZone i ↔ ∃ x ∈ b.extents, x.Has i := by
  have hZ : b.zoneState.gmdsc.zonesSize.toNat = b.zoneCount := by
    rw [zoneState_gmdsc]
    exact (initStructs_sizes b).2.2.2.2.2.2.2.1
  unfold MmState.InZone
  rw [hZ]
  constructor
  · rintro ⟨z, hz, hhas⟩
    obtain ⟨hk, h⟩ := (zoneState_has b hz).mp hhas
    exact ⟨_, List.getElem_mem hk, h⟩
  · rintro ⟨x, hx, hhas⟩
    obtain ⟨k, hk, rfl⟩ := List.getElem_of_mem hx
    have hz : k < b.zoneCount := Nat.lt_of_lt_of_le hk b.extents_length_le
    exact ⟨k, hz, (zoneState_has b hz).mpr ⟨hk, hhas⟩⟩

/-! ## Consistency -/

/-- A zone page's struct carries its own page number; a used one has its bit set. -/
structure Consistent (s : MmState) : Prop where
  number : ∀ i, s.InZone i → pageNumber (s.pages i).phyAddr = i
  used : ∀ i, s.InZone i → (s.pages i).attr ≠ 0#64 → s.bits.get i = true

theorem consistent_zoneState : Consistent b.zoneState := by
  obtain ⟨-, -, -, hp, -⟩ := zoneState_spec b
  have hfresh : ∀ i, b.zoneState.InZone i →
      ∃ k, i < 2 ^ 52 ∧ b.zoneState.pages i = freshPage k i := by
    intro i hi
    obtain ⟨x, hx, hhas⟩ := (zoneState_inZone b).mp hi
    rcases hp i with ⟨k, _, _, hpage⟩ | ⟨hnot, _⟩
    · exact ⟨k, Nat.lt_trans hhas.2 (pageNumber_lt _), hpage⟩
    · exact absurd hhas (hnot x hx)
  constructor
  · intro i hi
    obtain ⟨k, hlt, hpage⟩ := hfresh i hi
    rw [hpage]
    exact pageNumber_ofNat hlt
  · intro i hi hattr
    obtain ⟨k, _, hpage⟩ := hfresh i hi
    rw [hpage] at hattr
    exact absurd rfl hattr

/-- `page_init` of a zone page sets its bit. -/
theorem pageInit_sets {s : MmState} (hs : Consistent s) {i : Nat} (hi : s.InZone i) (flags : U64) :
    (pageInit s i flags).bits.get i = true := by
  rw [pageInit_bits]
  split
  · exact hs.used i hi (by tauto)
  · rw [hs.number i hi]
    exact Bitmap.get_set_self _ _

theorem consistent_pageInit {s : MmState} (hs : Consistent s) (i : Nat) (flags : U64) :
    Consistent (pageInit s i flags) := by
  constructor
  · intro j hj
    rw [pageInit_inZone] at hj
    rw [pageInit_phyAddr]
    exact hs.number j hj
  · intro j hj hattr
    rw [pageInit_inZone] at hj
    by_cases h : j = i
    · subst h
      exact pageInit_sets hs hj flags
    · rw [pageInit_pages, Function.update_of_ne h] at hattr
      exact pageInit_bit_mono s i flags (hs.used j hj hattr)

theorem consistent_initPages {s : MmState} (hs : Consistent s) (flags : U64) (l : List Nat) :
    Consistent (initPages s flags l) :=
  initPages_induction flags (fun t i h => consistent_pageInit (s := t) h i flags) l hs

/-- A block of zone pages is marked as a whole. -/
theorem initPages_sets {s : MmState} (hs : Consistent s) (flags : U64) (l : List Nat) {i : Nat}
    (hl : i ∈ l) (hi : s.InZone i) : (initPages s flags l).bits.get i = true := by
  induction l generalizing s with
  | nil => simp at hl
  | cons j l ih =>
      rw [initPages_cons]
      by_cases h : i = j
      · subst h
        exact initPages_bit_mono _ flags l (pageInit_sets hs hi flags)
      · have hl' : i ∈ l := by simpa [h] using hl
        exact ih (consistent_pageInit hs j flags) hl' ((pageInit_inZone s j flags i).mpr hi)

theorem initMemory_gmdsc : (initMemory b).gmdsc = (initStructs b).gmdsc := by
  unfold initMemory constructMemStruct
  rw [initPages_gmdsc]
  exact zoneState_gmdsc b

/-- `construct_mem_struct` leaves the two sizes as they are. -/
theorem initMemory_pagesSize : (initMemory b).gmdsc.pagesSize.toNat = b.totalPages := by
  rw [initMemory_gmdsc]
  exact (initStructs_sizes b).2.2.2.2.2.1

theorem initMemory_zonesSize : (initMemory b).gmdsc.zonesSize.toNat = b.zoneCount := by
  rw [initMemory_gmdsc]
  exact (initStructs_sizes b).2.2.2.2.2.2.2.1

theorem consistent_initMemory : Consistent (initMemory b) :=
  consistent_initPages (consistent_zoneState b) kernelFlags _

end HelloOS.Mm
