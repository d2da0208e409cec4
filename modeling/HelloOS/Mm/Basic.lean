/-
  The data of the physical page allocator (`include/mm.h`): the address macros, the E820
  entries, the page and zone structs and the global descriptor `gmdsc`.

  Layout of the model. `gmdsc` holds the addresses and sizes, exactly the words the C
  struct holds. What lies at `gmdsc.page_bits`, `gmdsc.pages_struct` and
  `gmdsc.zones_struct` is kept in three maps of `MmState`, indexed as the C arrays are and
  total, like C pointers: an index past an array's length names whatever lies there. The maps
  are separate, so that a store past the end of one array does not reach the next. A
  `mm_zone_t *` is an index of `zones_struct`, `none` for `NULL`. `NULL` is mapped (the
  boot page tables map the first 2^30 bytes), so a store through it lands in low memory:
  that is `nullZone`. `int` and `uint_t` are `BitVec 32` and `BitVec 64`; page numbers and
  loop counters are `Nat`, wrapped by hand where the C value can wrap.
-/
import HelloOS.Lib.Align
import HelloOS.Lib.Bitmap
import Mathlib.Data.Nat.Bits

namespace HelloOS.Mm

open HelloOS.Lib

/-- `uint_t`, `uint64_t`, `unsigned long`. -/
abbrev U64 := BitVec 64

/-! ## Address macros -/

/-- `KERNEL_VIRADDR`. -/
def kernelViraddr : U64 := 0xffff800000000000#64

/-- `PAGE_4K_SIZE`. -/
def page4kSize : U64 := 1#64 <<< 12

/-- `PAGE_4K_MASK`. -/
def page4kMask : U64 := ~~~(page4kSize - 1#64)

/-- `PAGE_4K_ALIGN(addr)`. -/
def page4kAlign (addr : U64) : U64 := (addr + page4kSize - 1#64) &&& page4kMask

/-- `PHY2VIR(addr)`. -/
def phy2vir (addr : U64) : U64 := kernelViraddr ||| addr

/-- `VIR2PHY(addr)`. -/
def vir2phy (addr : U64) : U64 := ~~~kernelViraddr &&& addr

/-- `addr >> PAGE_4K_SHIFT`, the number of the page that holds `addr`. -/
def pageNumber (addr : U64) : Nat := (addr >>> 12).toNat

theorem page4kSize_eq : page4kSize = 4096#64 := rfl

theorem pageNumber_eq (a : U64) : pageNumber a = a.toNat / 4096 := by
  unfold pageNumber
  rw [BitVec.toNat_ushiftRight, Nat.shiftRight_eq_div_pow]

theorem pageNumber_lt (a : U64) : pageNumber a < 2 ^ 52 := by
  rw [pageNumber_eq]
  have := a.isLt
  omega

theorem page4kMask_eq : page4kMask = highMask 12 := by decide

/-- `PAGE_4K_ALIGN` always yields a multiple of 4096. -/
theorem page4kAlign_dvd (a : U64) : 4096 ∣ (page4kAlign a).toNat := by
  unfold page4kAlign
  rw [page4kMask_eq, toNat_and_highMask]
  exact Nat.dvd_mul_right _ _

/-- Below the top page, `PAGE_4K_ALIGN` rounds up to the next multiple of 4096. -/
theorem toNat_page4kAlign {a : U64} (h : a.toNat + 4095 < 2 ^ 64) :
    (page4kAlign a).toNat = 4096 * ((a.toNat + 4095) / 4096) := by
  unfold page4kAlign
  rw [page4kMask_eq, toNat_and_highMask, page4kSize_eq]
  have : (a + 4096#64 - 1#64).toNat = a.toNat + 4095 := by bv_omega
  rw [this]
  rfl

/-- `VIR2PHY` leaves an address below 2^47 alone. -/
theorem vir2phy_eq_self {a : U64} (h : a.toNat < 2 ^ 47) : vir2phy a = a := by
  unfold vir2phy
  have hk : ~~~kernelViraddr = BitVec.setWidth 64 (BitVec.allOnes 47) := by decide
  apply BitVec.eq_of_getLsbD_eq
  intro i hi
  rw [BitVec.getLsbD_and, hk, BitVec.getLsbD_setWidth, BitVec.getLsbD_allOnes]
  by_cases h47 : i < 47
  · simp [h47, hi]
  · have : a.getLsbD i = false := by
      rw [BitVec.getLsbD, Nat.testBit_lt_two_pow]
      exact Nat.lt_of_lt_of_le h (Nat.pow_le_pow_right (by decide) (by omega))
    simp [this]

/-! ## Records -/

/-- `E820_t`. -/
structure E820 where
  addr : U64
  len : U64
  type : BitVec 32
  deriving DecidableEq

/-- `E820_TYPE_AVAILABLE`. -/
def e820TypeAvailable : BitVec 32 := 1#32

/-- `mm_page_t`; `attr` is its `attribute`. `zone` is an index of `zones_struct`, `none` for
    `NULL`. -/
structure MmPage where
  phyAddr : U64
  attr : U64
  refCount : U64
  age : U64
  zone : Option Nat

/-- `mm_page_t` of all-zero bytes. -/
def MmPage.zero : MmPage := ⟨0#64, 0#64, 0#64, 0#64, none⟩

/-- `struct _mm_zone`; `attr` is its `attribute`. `pagesGroup` is an index of `pages_struct`. -/
structure MmZone where
  pagesGroup : Nat
  pagesLength : U64
  zoneStartAddr : U64
  zoneEndAddr : U64
  zoneLength : U64
  attr : U64
  pageUsingCount : U64
  pageFreeCount : U64
  totalPagesLink : U64

/-- `struct _mm_zone` of all-zero bytes. -/
def MmZone.zero : MmZone := ⟨0, 0#64, 0#64, 0#64, 0#64, 0#64, 0#64, 0#64, 0#64⟩

/-- `sizeof(mm_page_t)`. -/
def sizeofMmPage : U64 := 40#64

/-- `sizeof(mm_zone_t)`. -/
def sizeofMmZone : U64 := 72#64

/-! ### Page attributes -/

/-- `PG_PTable_Maped`. -/
def pgPTableMaped : U64 := 1#64 <<< 0

/-- `PG_Kernel_Init`. -/
def pgKernelInit : U64 := 1#64 <<< 1

/-- `PG_Referenced`. -/
def pgReferenced : U64 := 1#64 <<< 2

/-- `PG_Active`. -/
def pgActive : U64 := 1#64 <<< 4

/-- `PG_Kernel`. -/
def pgKernel : U64 := 1#64 <<< 7

/-- `PG_K_Share_To_U`. -/
def pgKShareToU : U64 := 1#64 <<< 8

/-- The fields of `global_mm_descriptor_t` the allocator uses. `e820` is
    `e820[0 .. e820_num)`; an empty map reads `e820Before`, the entry-sized bytes in
    front of the array, as `e820[e820_num - 1]`. -/
structure Gmdsc where
  e820 : List E820
  e820Before : E820
  e820AvailableSize : U64
  pageBits : U64
  pageBitsSize : U64
  pageBitsLength : U64
  pagesStruct : U64
  pagesSize : U64
  pagesLength : U64
  zonesStruct : U64
  zonesSize : U64
  zonesLength : U64
  totalMemLength : U64
  kernelStartPhyaddr : U64
  kernelEndPhyaddr : U64
  endOfStruct : U64

/-- The allocator's state: `gmdsc` and what its three array pointers reach. -/
structure MmState where
  gmdsc : Gmdsc
  bits : Bitmap
  pages : Nat → MmPage
  zones : Nat → MmZone
  nullZone : MmZone

namespace MmState

/-- `z->…` updated through a `mm_zone_t *`. -/
def modifyZone (s : MmState) (z : Option Nat) (f : MmZone → MmZone) : MmState :=
  match z with
  | some z => { s with zones := Function.update s.zones z (f (s.zones z)) }
  | none => { s with nullZone := f s.nullZone }

variable (s : MmState) (z : Option Nat) (f : MmZone → MmZone)

@[simp] theorem modifyZone_gmdsc : (s.modifyZone z f).gmdsc = s.gmdsc := by cases z <;> rfl

@[simp] theorem modifyZone_bits : (s.modifyZone z f).bits = s.bits := by cases z <;> rfl

@[simp] theorem modifyZone_pages : (s.modifyZone z f).pages = s.pages := by cases z <;> rfl

theorem modifyZone_zones (i : Nat) :
    (s.modifyZone z f).zones i = if z = some i then f (s.zones i) else s.zones i := by
  cases z with
  | none => simp [modifyZone]
  | some z =>
      by_cases h : i = z
      · subst h; simp [modifyZone]
      · have : z ≠ i := Ne.symm h
        simp [modifyZone, h, this]

end MmState

/-- Page `i` belongs to the zone record `z`: its number lies in
    `[zone_start_addr >> 12, zone_end_addr >> 12)`. -/
def MmZone.Has (z : MmZone) (i : Nat) : Prop :=
  pageNumber z.zoneStartAddr ≤ i ∧ i < pageNumber z.zoneEndAddr

instance (z : MmZone) (i : Nat) : Decidable (z.Has i) := inferInstanceAs (Decidable (_ ∧ _))

theorem MmZone.zero_not_has (i : Nat) : ¬ MmZone.zero.Has i := by
  rintro ⟨_, h⟩
  have : pageNumber MmZone.zero.zoneEndAddr = 0 := by decide
  omega

/-- Page `i` belongs to one of the `zones_size` zones. -/
def MmState.InZone (s : MmState) (i : Nat) : Prop :=
  ∃ z, z < s.gmdsc.zonesSize.toNat ∧ (s.zones z).Has i

end HelloOS.Mm
