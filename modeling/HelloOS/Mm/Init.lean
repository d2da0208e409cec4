/-
  `mm/mm.c`: `page_init`, which marks one page used, and `init_memory`, which lays the
  bitmap, the page structs and the zone structs out behind the kernel image, builds the
  zones from the E820 entries and marks the kernel's pages.

  `page_init` is described once, by `pageInit_eq`: every branch writes the page's struct
  and the counters of its zone, and all but the sharing branch set the bit of the page
  number in `phy_addr`. Whatever is proved about it goes through that lemma.
  `initMemory` starts from a `Boot`: the E820 entries as `_init_memory` left them, the
  linker's `_start_kernel` and `_end_kernel`, and the memory the arrays are laid over.
-/
import HelloOS.Mm.Basic

namespace HelloOS.Mm

open HelloOS.Lib

/-! ## `page_init` -/

/-- The second branch of `page_init`: the page or the request is referenced or shared. -/
def Shared (page : MmPage) (flags : U64) : Prop :=
  page.attr &&& pgReferenced ≠ 0#64 ∨ page.attr &&& pgKShareToU ≠ 0#64 ∨
    flags &&& pgReferenced ≠ 0#64 ∨ flags &&& pgKShareToU ≠ 0#64

instance (page : MmPage) (flags : U64) : Decidable (Shared page flags) :=
  inferInstanceAs (Decidable (_ ∨ _))

/-- `page_init(gmdsc.pages_struct + i, flags)`. It always returns 0. -/
def pageInit (s : MmState) (i : Nat) (flags : U64) : MmState :=
  let page := s.pages i
  if page.attr = 0#64 then
    { s with
      bits := s.bits.set (pageNumber page.phyAddr)
      pages := Function.update s.pages i
        { page with attr := flags, refCount := page.refCount + 1#64 } }.modifyZone page.zone
      fun z => { z with
        pageUsingCount := z.pageUsingCount + 1#64
        pageFreeCount := z.pageFreeCount - 1#64
        totalPagesLink := z.totalPagesLink + 1#64 }
  else if Shared page flags then
    { s with
      pages := Function.update s.pages i
        { page with attr := page.attr ||| flags, refCount := page.refCount + 1#64 }
      }.modifyZone page.zone
      fun z => { z with totalPagesLink := z.totalPagesLink + 1#64 }
  else
    { s with
      bits := s.bits.set (pageNumber page.phyAddr)
      pages := Function.update s.pages i { page with attr := page.attr ||| flags } }

/-- What `page_init` adds to `page_using_count` and takes from `page_free_count`: 1 for a
    page that was free. -/
def takes (page : MmPage) : U64 := if page.attr = 0#64 then 1#64 else 0#64

/-- What `page_init` adds to `ref_count` and `total_pages_link`. -/
def links (page : MmPage) (flags : U64) : U64 :=
  if page.attr = 0#64 ∨ Shared page flags then 1#64 else 0#64

/-- The page struct after `page_init`. -/
def MmPage.inited (page : MmPage) (flags : U64) : MmPage :=
  { page with attr := page.attr ||| flags, refCount := page.refCount + links page flags }

/-- The zone struct after `page_init` of one of its pages. -/
def MmZone.inited (z : MmZone) (page : MmPage) (flags : U64) : MmZone :=
  { z with
    pageUsingCount := z.pageUsingCount + takes page
    pageFreeCount := z.pageFreeCount - takes page
    totalPagesLink := z.totalPagesLink + links page flags }

variable (s : MmState) (i : Nat) (flags : U64)

/-- The three branches of `page_init` in one: only the bit depends on the branch. -/
theorem pageInit_eq :
    pageInit s i flags =
      { s with
        bits := if (s.pages i).attr ≠ 0#64 ∧ Shared (s.pages i) flags then s.bits
          else s.bits.set (pageNumber (s.pages i).phyAddr)
        pages := Function.update s.pages i ((s.pages i).inited flags) }.modifyZone
        (s.pages i).zone (·.inited (s.pages i) flags) := by
  unfold pageInit
  by_cases h0 : (s.pages i).attr = 0#64
  · simp [h0, MmPage.inited, MmZone.inited, takes, links]
  · by_cases hs : Shared (s.pages i) flags
    · simp [h0, hs, MmPage.inited, MmZone.inited, takes, links]
    · cases hz : (s.pages i).zone <;>
        simp [h0, hs, MmPage.inited, MmZone.inited, takes, links, MmState.modifyZone, hz]

@[simp] theorem pageInit_gmdsc : (pageInit s i flags).gmdsc = s.gmdsc := by
  simp [pageInit_eq]

theorem pageInit_pages :
    (pageInit s i flags).pages = Function.update s.pages i ((s.pages i).inited flags) := by
  simp [pageInit_eq]

theorem pageInit_zones (z : Nat) :
    (pageInit s i flags).zones z =
      if (s.pages i).zone = some z then (s.zones z).inited (s.pages i) flags
      else s.zones z := by
  simp [pageInit_eq, MmState.modifyZone_zones]

theorem pageInit_bits :
    (pageInit s i flags).bits =
      if (s.pages i).attr ≠ 0#64 ∧ Shared (s.pages i) flags then s.bits
      else s.bits.set (pageNumber (s.pages i).phyAddr) := by
  simp [pageInit_eq]

@[simp] theorem pageInit_phyAddr (j : Nat) :
    ((pageInit s i flags).pages j).phyAddr = (s.pages j).phyAddr := by
  rw [pageInit_pages]
  by_cases h : j = i
  · subst h; simp [MmPage.inited]
  · simp [h]

@[simp] theorem pageInit_page_zone (j : Nat) :
    ((pageInit s i flags).pages j).zone = (s.pages j).zone := by
  rw [pageInit_pages]
  by_cases h : j = i
  · subst h; simp [MmPage.inited]
  · simp [h]

/-- `page_init` leaves every zone's interval alone. -/
@[simp] theorem pageInit_has (z j : Nat) :
    ((pageInit s i flags).zones z).Has j ↔ (s.zones z).Has j := by
  rw [pageInit_zones]
  split <;> rfl

@[simp] theorem pageInit_zoneStartAddr (z : Nat) :
    ((pageInit s i flags).zones z).zoneStartAddr = (s.zones z).zoneStartAddr := by
  rw [pageInit_zones]
  split <;> rfl

@[simp] theorem pageInit_zoneEndAddr (z : Nat) :
    ((pageInit s i flags).zones z).zoneEndAddr = (s.zones z).zoneEndAddr := by
  rw [pageInit_zones]
  split <;> rfl

@[simp] theorem pageInit_inZone (j : Nat) : (pageInit s i flags).InZone j ↔ s.InZone j := by
  simp [MmState.InZone]

/-- `page_init` never clears a bit. -/
theorem pageInit_bit_mono {j : Nat} (h : s.bits.get j = true) :
    (pageInit s i flags).bits.get j = true := by
  rw [pageInit_bits]
  split
  · exact h
  · exact Bitmap.get_set_of_get _ h

/-- `page_init` sets at most the bit of the page number in the page's `phy_addr`. -/
theorem pageInit_bit_of_ne {j : Nat} (h : pageNumber (s.pages i).phyAddr ≠ j) :
    (pageInit s i flags).bits.get j = s.bits.get j := by
  rw [pageInit_bits]
  split
  · rfl
  · exact Bitmap.get_set_of_ne _ h

/-! ### Runs of `page_init` -/

/-- `page_init` of each page of a list, in order. -/
def initPages (s : MmState) (flags : U64) (pages : List Nat) : MmState :=
  pages.foldl (fun s i => pageInit s i flags) s

theorem initPages_cons (i : Nat) (l : List Nat) :
    initPages s flags (i :: l) = initPages (pageInit s i flags) flags l := rfl

/-- A property every `page_init` keeps is kept by a block of them. -/
theorem initPages_induction {P : MmState → Prop} {s : MmState}
    (hstep : ∀ s i, P s → P (pageInit s i flags)) (l : List Nat) (h : P s) :
    P (initPages s flags l) := by
  induction l generalizing s with
  | nil => exact h
  | cons i l ih => exact ih (hstep s i h)

@[simp] theorem initPages_gmdsc (l : List Nat) : (initPages s flags l).gmdsc = s.gmdsc :=
  initPages_induction flags (P := fun t => t.gmdsc = s.gmdsc)
    (fun t i h => (pageInit_gmdsc t i flags).trans h) l rfl

theorem initPages_bit_mono (l : List Nat) {j : Nat} (h : s.bits.get j = true) :
    (initPages s flags l).bits.get j = true :=
  initPages_induction flags (P := fun t => t.bits.get j = true)
    (fun t i h => pageInit_bit_mono t i flags h) l h

@[simp] theorem initPages_phyAddr (l : List Nat) (j : Nat) :
    ((initPages s flags l).pages j).phyAddr = (s.pages j).phyAddr :=
  initPages_induction flags (P := fun t => (t.pages j).phyAddr = (s.pages j).phyAddr)
    (fun t i h => (pageInit_phyAddr t i flags j).trans h) l rfl

@[simp] theorem initPages_has (l : List Nat) (z j : Nat) :
    ((initPages s flags l).zones z).Has j ↔ (s.zones z).Has j :=
  initPages_induction flags (P := fun t => (t.zones z).Has j ↔ (s.zones z).Has j)
    (fun t i h => (pageInit_has t i flags z j).trans h) l Iff.rfl

@[simp] theorem initPages_zoneStartAddr (l : List Nat) (z : Nat) :
    ((initPages s flags l).zones z).zoneStartAddr = (s.zones z).zoneStartAddr :=
  initPages_induction flags (P := fun t => (t.zones z).zoneStartAddr = (s.zones z).zoneStartAddr)
    (fun t i h => (pageInit_zoneStartAddr t i flags z).trans h) l rfl

@[simp] theorem initPages_zoneEndAddr (l : List Nat) (z : Nat) :
    ((initPages s flags l).zones z).zoneEndAddr = (s.zones z).zoneEndAddr :=
  initPages_induction flags (P := fun t => (t.zones z).zoneEndAddr = (s.zones z).zoneEndAddr)
    (fun t i h => (pageInit_zoneEndAddr t i flags z).trans h) l rfl

@[simp] theorem initPages_inZone (l : List Nat) (j : Nat) :
    (initPages s flags l).InZone j ↔ s.InZone j := by
  simp [MmState.InZone]

/-! ## `init_memory` -/

/-- `&gmdsc.e820[gmdsc.e820_num - 1]`. -/
def Gmdsc.lastE820 (g : Gmdsc) : E820 := g.e820.getLastD g.e820Before

/-- `page_bitmap_init`. `memset` fills `page_bits_length` bytes, a multiple of 8. -/
def pageBitmapInit (s : MmState) (startAddr : U64) : MmState :=
  let e820 := s.gmdsc.lastE820
  let totalMem := e820.addr + e820.len
  let length := (((totalMem >>> 12) + 64#64 - 1#64) / 8#64) &&& ~~~(8#64 - 1#64)
  { s with
    gmdsc := { s.gmdsc with
      totalMemLength := totalMem
      pageBits := startAddr
      pageBitsSize := totalMem >>> 12
      pageBitsLength := length }
    bits := s.bits.ones (length.toNat / 8) }

/-- `pages_struct_init`. `memset` clears the structs in the first `pages_length` bytes. -/
def pagesStructInit (s : MmState) (startAddr : U64) : MmState :=
  let size := s.gmdsc.totalMemLength >>> 12
  let length := (size * sizeofMmPage + 8#64 - 1#64) &&& ~~~(8#64 - 1#64)
  { s with
    gmdsc := { s.gmdsc with pagesStruct := startAddr, pagesSize := size, pagesLength := length }
    pages := fun i => if i < length.toNat / 40 then MmPage.zero else s.pages i }

/-- `zones_struct_init`. `memset` clears the structs in the first `zones_length` bytes. -/
def zonesStructInit (s : MmState) (startAddr : U64) : MmState :=
  let size := s.gmdsc.e820AvailableSize
  let length := (size * sizeofMmZone + 8#64 - 1#64) &&& ~~~(8#64 - 1#64)
  { s with
    gmdsc := { s.gmdsc with zonesStruct := startAddr, zonesSize := size, zonesLength := length }
    zones := fun z => if z < length.toNat / 72 then MmZone.zero else s.zones z }

/-- One turn of the inner loop of `construct_mem_struct`: page `j` of the zone `z` that
    starts at `start`. -/
def constructPage (z : Nat) (start : U64) (s : MmState) (j : Nat) : MmState :=
  let phyAddr := start + page4kSize * BitVec.ofNat 64 j
  { s with
    pages := Function.update s.pages (pageNumber start + j) ⟨phyAddr, 0#64, 0#64, 0#64, some z⟩
    bits := s.bits.toggle (pageNumber phyAddr) }

/-- The zone record `construct_mem_struct` writes for `[start, end)`. -/
def freshZone (start end_ : U64) : MmZone where
  pagesGroup := pageNumber start
  pagesLength := (end_ - start) >>> 12
  zoneStartAddr := start
  zoneEndAddr := end_
  zoneLength := end_ - start
  attr := 0#64
  pageUsingCount := 0#64
  pageFreeCount := (end_ - start) >>> 12
  totalPagesLink := 0#64

/-- The body of the zone loop for one entry it does not skip. -/
def constructZone (s : MmState) (z : Nat) (start end_ : U64) : MmState :=
  (List.range (freshZone start end_).pagesLength.toNat).foldl (constructPage z start)
    { s with zones := Function.update s.zones z (freshZone start end_) }

/-- `start` of an entry: its address rounded up to a page. -/
def E820.start (e : E820) : U64 := page4kAlign e.addr

/-- `end` of an entry: the end of its last whole page. -/
def E820.end_ (e : E820) : U64 := ((e.addr + e.len) >>> 12) <<< 12

/-- One turn of the zone loop: skip an entry that is not available or holds no whole
    page, else build zone `zone_idx` and count it. -/
def constructStep (sz : MmState × Nat) (e : E820) : MmState × Nat :=
  if e.type ≠ e820TypeAvailable then sz
  else if e.end_ ≤ e.start then sz
  else (constructZone sz.1 sz.2 e.start e.end_, sz.2 + 1)

/-- The zone loop of `construct_mem_struct`. -/
def constructZones (s : MmState) : MmState := (s.gmdsc.e820.foldl constructStep (s, 0)).1

/-- The page indices `i` of the kernel-marking loop, from the `int`s `kernel_start` and
    `kernel_end`; a negative `i` reaches in front of `pages_struct`. -/
def kernelPages (g : Gmdsc) : List Nat :=
  let kernelStart := ((g.kernelStartPhyaddr >>> 12).setWidth 32).toInt
  let kernelEnd := ((vir2phy g.endOfStruct >>> 12).setWidth 32).toInt
  (List.range (kernelEnd - kernelStart).toNat).map fun k : Nat =>
    (BitVec.ofInt 64 (kernelStart + (k : Int))).toNat

/-- The attributes the kernel's own pages get. -/
def kernelFlags : U64 := pgPTableMaped ||| pgKernelInit ||| pgActive ||| pgKernel

/-- `construct_mem_struct`: the zone loop, then the kernel-marking loop. -/
def constructMemStruct (s : MmState) : MmState :=
  let s := constructZones s
  initPages s kernelFlags (kernelPages s.gmdsc)

/-- What `init_memory` starts from. The map fits `E820_t e820[32]`; `link.lds` puts
    `_start_kernel` at the start of the image and defines `_end_kernel` as an address
    minus `VMA`, which is `2^64 - 2^47`. -/
structure Boot where
  e820 : List E820
  e820_le : e820.length ≤ 32
  e820Before : E820
  startKernel : U64
  endKernel : U64
  start_le : startKernel.toNat ≤ endKernel.toNat
  end_lt : endKernel.toNat < 2 ^ 47
  bits : Bitmap
  pages : Nat → MmPage
  zones : Nat → MmZone
  nullZone : MmZone

/-- `gmdsc` and the memory under the arrays when `init_memory` is called.
    `_init_memory` has set `e820_available_size` to the number of available entries. -/
def Boot.state (b : Boot) : MmState where
  gmdsc :=
    { e820 := b.e820
      e820Before := b.e820Before
      e820AvailableSize := BitVec.ofNat 64 (b.e820.countP fun e => e.type = e820TypeAvailable)
      pageBits := 0#64, pageBitsSize := 0#64, pageBitsLength := 0#64
      pagesStruct := 0#64, pagesSize := 0#64, pagesLength := 0#64
      zonesStruct := 0#64, zonesSize := 0#64, zonesLength := 0#64
      totalMemLength := 0#64
      kernelStartPhyaddr := b.startKernel
      kernelEndPhyaddr := b.endKernel
      endOfStruct := 0#64 }
  bits := b.bits
  pages := b.pages
  zones := b.zones
  nullZone := b.nullZone

/-- `init_memory` up to its call of `construct_mem_struct`. The pointer sums count in
    elements: 8 bytes a word, 40 a page struct, 72 a zone struct. -/
def initStructs (b : Boot) : MmState :=
  let s := pageBitmapInit b.state (page4kAlign b.state.gmdsc.kernelEndPhyaddr)
  let s := pagesStructInit s (page4kAlign (s.gmdsc.pageBits + 8#64 * s.gmdsc.pageBitsLength))
  let s := zonesStructInit s (page4kAlign (s.gmdsc.pagesStruct + sizeofMmPage * s.gmdsc.pagesSize))
  { s with gmdsc := { s.gmdsc with
      endOfStruct := page4kAlign (s.gmdsc.zonesStruct + sizeofMmZone * s.gmdsc.zonesSize) } }

/-- `init_memory`. -/
def initMemory (b : Boot) : MmState := constructMemStruct (initStructs b)

end HelloOS.Mm
