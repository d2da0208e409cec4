/-
  Where `init_memory` puts the three arrays, in plain numbers.

  Every address is a page boundary computed from the image's end, the page count and the
  zone count (`initStructs_addresses`); none of the sums wraps. Two laws of placement are
  settled with them. `clears_below_iff` says when the bytes the three `memset` calls fill lie
  in the first 2^30 bytes, all the memory the boot page tables map. `layout_tight_iff` says
  when each array starts on the first page boundary behind the one before: `page_bits` is a
  pointer to 8-byte words, so `page_bits + page_bits_length` leaves eight times the bitmap's
  length, and the arrays are tight only while both round up to the same page.
-/
import HelloOS.Mm.Layout
import HelloOS.Kstring
import Mathlib.Order.Bounds.Basic

namespace HelloOS.Mm

open HelloOS.Lib

/-! ## Page boundaries -/

/-- The first page boundary at or behind `a`. -/
def pageUp (a : Nat) : Nat := 4096 * ((a + 4095) / 4096)

/-- `m` is the first page boundary at or behind `a`. -/
def FirstBoundary (a m : Nat) : Prop := IsLeast {m | 4096 ∣ m ∧ a ≤ m} m

theorem pageUp_isLeast (a : Nat) : FirstBoundary a (pageUp a) := by
  refine ⟨⟨Nat.dvd_mul_right _ _, ?_⟩, ?_⟩
  · unfold pageUp
    omega
  · rintro m ⟨⟨k, rfl⟩, hle⟩
    unfold pageUp
    omega

theorem firstBoundary_iff {a m : Nat} : FirstBoundary a m ↔ m = pageUp a :=
  ⟨fun h => h.unique (pageUp_isLeast a), fun h => h ▸ pageUp_isLeast a⟩

theorem toNat_page4kAlign_pageUp {a : U64} {n : Nat} (ha : a.toNat = n) (h : n < 2 ^ 63) :
    (page4kAlign a).toNat = pageUp n := by
  rw [toNat_page4kAlign (by omega), ha]
  rfl

theorem pageUp_lt (a : Nat) : pageUp a < a + 4096 := by
  unfold pageUp
  omega

theorem le_pageUp (a : Nat) : a ≤ pageUp a := (pageUp_isLeast a).1.2

/-! ## The addresses -/

section

variable (b : Boot)

/-- The bitmap's words. -/
def Boot.bitmapWords (b : Boot) : Nat := (b.totalPages + 63) / 64

/-- `page_bits`. -/
def Boot.bitsAt (b : Boot) : Nat := pageUp b.endKernel.toNat

/-- `pages_struct`. The pointer sum counts words: 8 bytes for each byte of the bitmap. -/
def Boot.pagesAt (b : Boot) : Nat := pageUp (b.bitsAt + 8 * (8 * b.bitmapWords))

/-- `zones_struct`. -/
def Boot.zonesAt (b : Boot) : Nat := pageUp (b.pagesAt + 40 * b.totalPages)

/-- `end_of_struct`. -/
def Boot.structsEnd (b : Boot) : Nat := pageUp (b.zonesAt + 72 * b.zoneCount)

theorem initStructs_addresses :
    let g := (initStructs b).gmdsc
    g.pageBits.toNat = b.bitsAt ∧ g.pagesStruct.toNat = b.pagesAt ∧
    g.zonesStruct.toNat = b.zonesAt ∧ g.endOfStruct.toNat = b.structsEnd ∧
    b.structsEnd < 2 ^ 60 := by
  obtain ⟨-, -, -, -, hbl, hps, -, hzs, -⟩ := initStructs_sizes b
  have hke := b.end_lt
  have hT := b.totalPages_lt
  have hZ := b.zoneCount_le
  have h0 := pageUp_lt b.endKernel.toNat
  have h1 := pageUp_lt (b.bitsAt + 8 * (8 * b.bitmapWords))
  have h2 := pageUp_lt (b.pagesAt + 40 * b.totalPages)
  have h3 := pageUp_lt (b.zonesAt + 72 * b.zoneCount)
  have hW : b.bitmapWords = (b.totalPages + 63) / 64 := rfl
  change b.bitsAt < _ at h0
  change b.pagesAt < _ at h1
  change b.zonesAt < _ at h2
  change b.structsEnd < _ at h3
  have hpb : (initStructs b).gmdsc.pageBits.toNat = b.bitsAt :=
    toNat_page4kAlign_pageUp (a := b.endKernel) rfl (by omega)
  have hbits : ((initStructs b).gmdsc.pageBits +
      8#64 * (initStructs b).gmdsc.pageBitsLength).toNat = b.bitsAt + 8 * (8 * b.bitmapWords) := by
    rw [BitVec.toNat_add, BitVec.toNat_mul, hbl, hpb, show (8#64).toNat = 8 from rfl]
    omega
  have hpg : (initStructs b).gmdsc.pagesStruct.toNat = b.pagesAt :=
    toNat_page4kAlign_pageUp hbits (by omega)
  have hpages : ((initStructs b).gmdsc.pagesStruct +
      sizeofMmPage * (initStructs b).gmdsc.pagesSize).toNat = b.pagesAt + 40 * b.totalPages := by
    rw [BitVec.toNat_add, BitVec.toNat_mul, hps, hpg, show sizeofMmPage.toNat = 40 from rfl]
    omega
  have hzn : (initStructs b).gmdsc.zonesStruct.toNat = b.zonesAt :=
    toNat_page4kAlign_pageUp hpages (by omega)
  have hzones : ((initStructs b).gmdsc.zonesStruct +
      sizeofMmZone * (initStructs b).gmdsc.zonesSize).toNat = b.zonesAt + 72 * b.zoneCount := by
    rw [BitVec.toNat_add, BitVec.toNat_mul, hzs, hzn, show sizeofMmZone.toNat = 72 from rfl]
    omega
  exact ⟨hpb, hpg, hzn, toNat_page4kAlign_pageUp hzones (by omega), by omega⟩

/-! ## The cleared bytes -/

/-- A call `memset(p, val, n)`. -/
structure Memset where
  p : U64
  val : BitVec 8
  n : U64

/-- The call, on a byte memory. -/
def Memset.run (c : Memset) (m : Mem) : Mem := Kstring.memset m c.p c.val c.n

/-- The addresses it stores to. -/
def Memset.bytes (c : Memset) : Set U64 := Region c.p c.n.toNat

instance (c : Memset) (x : U64) : Decidable (x ∈ c.bytes) :=
  inferInstanceAs (Decidable (x ∈ Region c.p c.n.toNat))

/-- A call sets its bytes and no others. -/
theorem Memset.run_apply (c : Memset) (m : Mem) (x : U64) :
    c.run m x = if x ∈ c.bytes then c.val else m x := by
  unfold Memset.run
  rw [Kstring.memset_eq_fill]
  rfl

/-- The calls of `page_bitmap_init`, `pages_struct_init` and `zones_struct_init`. -/
def Boot.memsets (b : Boot) : List Memset :=
  let g := (initStructs b).gmdsc
  [⟨g.pageBits, 0xff#8, g.pageBitsLength⟩, ⟨g.pagesStruct, 0#8, g.pagesLength⟩,
    ⟨g.zonesStruct, 0#8, g.zonesLength⟩]

/-- Every byte they store to lies in the first 2^30, which the boot page tables map. There is
    no error exit in front of the calls. -/
def ClearsMapped (b : Boot) : Prop := ∀ c ∈ b.memsets, ∀ a ∈ c.bytes, a.toNat < 2 ^ 30

/-- Array by array: each is empty or ends in the first 2^30. -/
theorem clearsMapped_iff_arrays :
    ClearsMapped b ↔
      (b.bitmapWords = 0 ∨ b.bitsAt + 8 * b.bitmapWords ≤ 2 ^ 30) ∧
      (b.totalPages = 0 ∨ b.pagesAt + 40 * b.totalPages ≤ 2 ^ 30) ∧
      (b.zoneCount = 0 ∨ b.zonesAt + 72 * b.zoneCount ≤ 2 ^ 30) := by
  obtain ⟨hpb, hpg, hzn, -, hlt⟩ := initStructs_addresses b
  obtain ⟨-, -, -, -, hbl, -, hpl, -, hzl⟩ := initStructs_sizes b
  have h1 := le_pageUp (b.bitsAt + 8 * (8 * b.bitmapWords))
  have h2 := le_pageUp (b.pagesAt + 40 * b.totalPages)
  have h3 := le_pageUp (b.zonesAt + 72 * b.zoneCount)
  change _ ≤ b.pagesAt at h1
  change _ ≤ b.zonesAt at h2
  change _ ≤ b.structsEnd at h3
  have hW : b.bitmapWords = (b.totalPages + 63) / 64 := rfl
  have hbits := region_below_iff (a := (initStructs b).gmdsc.pageBits)
    (n := (initStructs b).gmdsc.pageBitsLength.toNat) (l := 2 ^ 30) (by omega)
  have hpages := region_below_iff (a := (initStructs b).gmdsc.pagesStruct)
    (n := (initStructs b).gmdsc.pagesLength.toNat) (l := 2 ^ 30) (by omega)
  have hzones := region_below_iff (a := (initStructs b).gmdsc.zonesStruct)
    (n := (initStructs b).gmdsc.zonesLength.toNat) (l := 2 ^ 30) (by omega)
  have hall : ClearsMapped b ↔
      (∀ x ∈ Region (initStructs b).gmdsc.pageBits (initStructs b).gmdsc.pageBitsLength.toNat,
        x.toNat < 2 ^ 30) ∧
      (∀ x ∈ Region (initStructs b).gmdsc.pagesStruct (initStructs b).gmdsc.pagesLength.toNat,
        x.toNat < 2 ^ 30) ∧
      (∀ x ∈ Region (initStructs b).gmdsc.zonesStruct (initStructs b).gmdsc.zonesLength.toNat,
        x.toNat < 2 ^ 30) := by
    unfold ClearsMapped Boot.memsets
    simp only [List.forall_mem_cons, List.not_mem_nil, false_imp_iff, implies_true, and_true]
    exact Iff.rfl
  rw [hall, hbits, hpages, hzones, hpb, hpg, hzn, hbl, hpl, hzl]
  omega

/-- **When the metadata fits the boot mapping.** The bytes the three calls clear lie in the
    first 2^30 exactly when the page structs, if there are any, and the zone structs, if there
    are any, end there. -/
theorem clears_below_iff :
    ClearsMapped b ↔
      (b.totalPages = 0 ∨ b.pagesAt + 40 * b.totalPages ≤ 2 ^ 30) ∧
      (b.zoneCount = 0 ∨ b.zonesAt + 72 * b.zoneCount ≤ 2 ^ 30) := by
  rw [clearsMapped_iff_arrays]
  have h1 := le_pageUp (b.bitsAt + 8 * (8 * b.bitmapWords))
  change _ ≤ b.pagesAt at h1
  have hW : b.bitmapWords = (b.totalPages + 63) / 64 := rfl
  -- the bitmap ends in front of the page structs, and is empty when there are none
  omega

/-- 128 MB of memory, and the reserved range below 2^40 that some machines report: the page
    structs for 2^28 pages are cleared. -/
def reservedHighBoot : Boot where
  e820 := [⟨0x100000#64, 0x7ee0000#64, 1#32⟩, ⟨0xfd00000000#64, 0x300000000#64, 2#32⟩]
  e820_le := by decide
  e820Before := ⟨0#64, 0#64, 0#32⟩
  startKernel := 0x100000#64
  endKernel := 0x110000#64
  start_le := by decide
  end_lt := by decide
  bits := fun _ => 0#64
  pages := fun _ => MmPage.zero
  zones := fun _ => MmZone.zero
  nullZone := MmZone.zero

theorem not_clearsMapped_reservedHigh :
    reservedHighBoot.state.gmdsc.lastE820.addr.toNat +
        reservedHighBoot.state.gmdsc.lastE820.len.toNat < 2 ^ 43 ∧
      ¬ ClearsMapped reservedHighBoot := by
  refine ⟨by decide, ?_⟩
  rw [clearsMapped_iff_arrays]
  decide

/-! ## Tightness -/

/-- Each array starts on the first page boundary behind the one before, by its length in
    bytes; so less than four pages more are reserved than the arrays take. -/
structure LayoutTight (g : Gmdsc) : Prop where
  pages : FirstBoundary (g.pageBits.toNat + g.pageBitsLength.toNat) g.pagesStruct.toNat
  zones : FirstBoundary (g.pagesStruct.toNat + g.pagesLength.toNat) g.zonesStruct.toNat
  last : FirstBoundary (g.zonesStruct.toNat + g.zonesLength.toNat) g.endOfStruct.toNat
  waste : g.endOfStruct.toNat - g.kernelEndPhyaddr.toNat <
    g.pageBitsLength.toNat + g.pagesLength.toNat + g.zonesLength.toNat + 4 * 4096

theorem firstBoundary_pages_iff :
    FirstBoundary (b.bitsAt + 8 * b.bitmapWords) b.pagesAt ↔ b.totalPages ≤ 4096 := by
  have hA : b.bitsAt = 4096 * ((b.endKernel.toNat + 4095) / 4096) := rfl
  have hP : b.pagesAt = 4096 * ((b.bitsAt + 8 * (8 * b.bitmapWords) + 4095) / 4096) := rfl
  have hW : b.bitmapWords = (b.totalPages + 63) / 64 := rfl
  rw [firstBoundary_iff]
  unfold pageUp
  omega

theorem LayoutTight.totalPages_le {b : Boot} (h : LayoutTight (initMemory b).gmdsc) :
    b.totalPages ≤ 4096 := by
  obtain ⟨hpb, hpg, -⟩ := initStructs_addresses b
  obtain ⟨-, -, -, -, hbl, -⟩ := initStructs_sizes b
  have hpages := h.pages
  rw [initMemory_gmdsc, hpb, hbl, hpg] at hpages
  exact (firstBoundary_pages_iff b).mp hpages

/-- **When the layout is tight**: exactly for a memory of at most 4096 pages. From there on the
    eight bytes left for each byte of the bitmap reach a page boundary further. -/
theorem layout_tight_iff : LayoutTight (initMemory b).gmdsc ↔ b.totalPages ≤ 4096 := by
  obtain ⟨hpb, hpg, hzn, hend, -⟩ := initStructs_addresses b
  obtain ⟨-, -, hke, -, hbl, -, hpl, -, hzl⟩ := initStructs_sizes b
  refine ⟨fun h => h.totalPages_le, fun hT => ?_⟩
  have hpages := (firstBoundary_pages_iff b).mpr hT
  have h0 := pageUp_lt b.endKernel.toNat
  have h1 := pageUp_lt (b.bitsAt + 8 * b.bitmapWords)
  have h2 := pageUp_lt (b.pagesAt + 40 * b.totalPages)
  have h3 := pageUp_lt (b.zonesAt + 72 * b.zoneCount)
  rw [← firstBoundary_iff.mp hpages] at h1
  change b.bitsAt < _ at h0
  change b.zonesAt < _ at h2
  change b.structsEnd < _ at h3
  rw [initMemory_gmdsc]
  refine ⟨?_, ?_, ?_, ?_⟩
  · rw [hpb, hbl, hpg]
    exact hpages
  · rw [hpg, hpl, hzn]
    exact pageUp_isLeast _
  · rw [hzn, hzl, hend]
    exact pageUp_isLeast _
  · rw [hend, hke, hbl, hpl, hzl]
    change _ < 8 * b.bitmapWords + _ + _ + _
    omega

end

/-- The bitmap of 2^28 pages takes 32 MB, and 256 MB are left for it. -/
theorem not_layoutTight_reservedHigh :
    reservedHighBoot.state.gmdsc.lastE820.addr.toNat +
        reservedHighBoot.state.gmdsc.lastE820.len.toNat < 2 ^ 43 ∧
      ¬ LayoutTight (initMemory reservedHighBoot).gmdsc := by
  refine ⟨by decide, fun h => ?_⟩
  exact absurd h.totalPages_le (by decide)

end HelloOS.Mm
