/-
  From the boot loader to `alloc_pages` (`arch/x86/boot/multiboot2.S`, `kernel/kernel.c`).

  `multiboot_entry` keeps the two registers of the loader in `mb2_magic` and `mb2_info`;
  `kernel_start` reads them back, walks the information and builds the page structs from the map
  it has found. Link by link, the loader's bytes decide what is handed out later: pages of the
  last memory map, off the kernel, and none twice.
-/
import HelloOS.Boot.ParseInfo
import HelloOS.Boot.Stores
import HelloOS.Mm.NoDouble

namespace HelloOS.Boot

open HelloOS.Lib HelloOS.Mm

/-! ## The code -/

/-- `MULTIBOOT2_BOOTLOADER_MAGIC`. -/
def multiboot2BootloaderMagic : BitVec 32 := 0x36d76289#32

/-- `multiboot_entry` up to the end of `.pd_loop`, with what the loader left in `eax` and `ebx`. -/
def multibootEntry (pml4 mb2Magic mb2Info eax ebx : BitVec 32) (m : Mem) : Mem :=
  bootPageTables pml4 ((m.write32 (mb2Magic.setWidth 64) eax).write32 (mb2Info.setWidth 64) ebx)

/-- What `kernel_start` has come to when `init_memory` returns. -/
inductive Start
  /-- It has returned -1. -/
  | refused
  | started (m : Mem) (s : MmState)

/-- `b` with another map. -/
def withMap (b : Mm.Boot) (es : List E820) (h : es.length ≤ 32) : Mm.Boot :=
  { b with e820 := es, e820_le := h }

/-- `kernel_start` up to `init_memory`, for `gmdsc` at `g`. The image and the memory the arrays are
    laid over are those of `b`; the map is the one in `gmdsc`, which has room for 32 entries. -/
def kernelStart (rounds fuel : ℕ) (g : BitVec 64) (mb2Magic mb2Info : BitVec 32) (b : Mm.Boot)
    (m : Mem) : Option Start :=
  let magic := m.read64 (mb2Magic.setWidth 64)
  let info := m.read64 (mb2Info.setWidth 64)
  if magic ≠ multiboot2BootloaderMagic.setWidth 64 ∨ info &&& 7#64 ≠ 0#64 then some .refused
  else
    (parseSysInfo rounds fuel g info m).bind fun r =>
      if h : (e820List r.2 g).length ≤ 32 then
        some (.started r.2 (initMemory (withMap b (e820List r.2 g) h)))
      else none

/-! ## `mb2_magic` and `mb2_info` -/

/-- The image as it is linked: the tables and the two words are zero, and apart. -/
structure Linked (pml4 mb2Magic mb2Info : BitVec 32) (m : Mem) : Prop where
  blank : Blank pml4 m
  magic : m.read32 (mb2Magic.setWidth 64 + 4#64) = 0#32
  info : m.read32 (mb2Info.setWidth 64 + 4#64) = 0#32
  apart : Disjoint (Region (mb2Info.setWidth 64) 8) (Region (mb2Magic.setWidth 64) 8)
  tablesMagic : Disjoint (tables pml4) (Region (mb2Magic.setWidth 64) 8)
  tablesInfo : Disjoint (tables pml4) (Region (mb2Info.setWidth 64) 8)

section
variable {pml4 mb2Magic mb2Info eax ebx : BitVec 32} {g info : BitVec 64} {m m' : Mem}
  {ts : List Tag} {es : List E820} {b : Mm.Boot} {rounds fuel : ℕ}

/-- The boot code stores to the two words and to the tables only. -/
theorem Linked.agreeOn (h : Linked pml4 mb2Magic mb2Info m) {s : Set (BitVec 64)}
    (hmagic : Disjoint (Region (mb2Magic.setWidth 64) 8) s)
    (hinfo : Disjoint (Region (mb2Info.setWidth 64) 8) s) (htables : Disjoint (tables pml4) s) :
    Mem.AgreeOn s (multibootEntry pml4 mb2Magic mb2Info eax ebx m) m := by
  refine (bootPageTables_agreeOn h.blank.toPlaced htables).trans ?_
  refine (Mem.agreeOn_write32 _ _ _ (hinfo.mono_left (region_mono _ (by decide)))).trans ?_
  exact Mem.agreeOn_write32 _ _ _ (hmagic.mono_left (region_mono _ (by decide)))

theorem Linked.read_magic (h : Linked pml4 mb2Magic mb2Info m) :
    (multibootEntry pml4 mb2Magic mb2Info eax ebx m).read64 (mb2Magic.setWidth 64) =
      eax.setWidth 64 := by
  rw [← m.read64_write32_self _ eax h.magic]
  apply Mem.AgreeOn.read64
  refine (bootPageTables_agreeOn h.blank.toPlaced h.tablesMagic).trans ?_
  exact Mem.agreeOn_write32 _ _ _ (h.apart.mono_left (region_mono _ (by decide)))

theorem Linked.read_info (h : Linked pml4 mb2Magic mb2Info m) :
    (multibootEntry pml4 mb2Magic mb2Info eax ebx m).read64 (mb2Info.setWidth 64) =
      ebx.setWidth 64 := by
  have hhigh : (m.write32 (mb2Magic.setWidth 64) eax).read32 (mb2Info.setWidth 64 + 4#64) =
      0#32 := by
    rw [← h.info]
    refine (m.agreeOn_write32 _ _ ?_).read32
    exact (h.apart.mono (region_subset _ (by decide)) (region_mono _ (by decide))).symm
  rw [← Mem.read64_write32_self _ _ ebx hhigh]
  apply Mem.AgreeOn.read64
  exact bootPageTables_agreeOn h.blank.toPlaced h.tablesInfo

theorem setWidth_inj {x y : BitVec 32} : x.setWidth 64 = y.setWidth 64 ↔ x = y := by
  rw [← BitVec.toNat_inj, ← BitVec.toNat_inj, BitVec.toNat_setWidth_of_le (by decide),
    BitVec.toNat_setWidth_of_le (by decide)]

/-- `mb2_info & 7`. -/
theorem and_seven_eq_zero (x : BitVec 32) : x.setWidth 64 &&& 7#64 = 0#64 ↔ x.toNat % 8 = 0 := by
  rw [← BitVec.toNat_inj, BitVec.toNat_and, BitVec.toNat_setWidth_of_le (by decide)]
  change x.toNat &&& 2 ^ 3 - 1 = 0 ↔ _
  rw [Nat.and_two_pow_sub_one_eq_mod]

/-- The two words reach `kernel_start` as the loader gave them, if nothing stores to them before. -/
theorem Linked.kernelStart_eq (h : Linked pml4 mb2Magic mb2Info m)
    (hmagic : Mem.AgreeOn (Region (mb2Magic.setWidth 64) 8) m'
      (multibootEntry pml4 mb2Magic mb2Info eax ebx m))
    (hinfo : Mem.AgreeOn (Region (mb2Info.setWidth 64) 8) m'
      (multibootEntry pml4 mb2Magic mb2Info eax ebx m)) :
    kernelStart rounds fuel g mb2Magic mb2Info b m' =
      if eax ≠ multiboot2BootloaderMagic ∨ ebx.toNat % 8 ≠ 0 then some .refused
      else (parseSysInfo rounds fuel g (ebx.setWidth 64) m').bind fun r =>
        if h : (e820List r.2 g).length ≤ 32 then
          some (.started r.2 (initMemory (withMap b (e820List r.2 g) h)))
        else none := by
  have hcond : (eax.setWidth 64 ≠ multiboot2BootloaderMagic.setWidth 64 ∨
      ebx.setWidth 64 &&& 7#64 ≠ 0#64) ↔
        (eax ≠ multiboot2BootloaderMagic ∨ ebx.toNat % 8 ≠ 0) := by
    rw [Ne, Ne, and_seven_eq_zero, setWidth_inj]
  unfold kernelStart
  dsimp only
  rw [hmagic.read64, hinfo.read64, h.read_magic, h.read_info]
  exact if_congr hcond rfl rfl

/-! ## The information -/

theorem InfoAt.congr (hwf : ∀ t ∈ ts, t.Wf) (h : InfoAt m info ts)
    (hm : Mem.AgreeOn (Region info (8 + tagsLength ts)) m' m) : InfoAt m' info ts := by
  have htotal : m'.read32 info = m.read32 info := (hm.mono (region_mono _ (by omega))).read32
  refine ⟨h.aligned, by rw [htotal]; exact h.total, h.fits, ?_⟩
  exact h.tags.congr hwf (hm.mono (region_subset _ (by change 8 + _ ≤ _; omega)))

/-! ## The pages -/

/-- Page `i` lies in an available entry of the map, and off what the kernel and its arrays take. -/
def FromMap (es : List E820) (s : MmState) (i : ℕ) : Prop :=
  Available es i ∧ ¬ (4096 * i < s.gmdsc.endOfStruct.toNat ∧
    s.gmdsc.kernelStartPhyaddr.toNat < 4096 * (i + 1))

/-- The free zone pages that `init_memory` leaves. -/
theorem fromMap_of_free (hm : Ordered b.e820) (hk : KernelFits b) {i : ℕ}
    (hzone : (initMemory b).InZone i) (hfree : (initMemory b).bits.get i = false) :
    FromMap b.e820 (initMemory b) i := by
  rw [initMemory_eq, initPages_inZone, zoneState_inZone_iff hm] at hzone
  obtain ⟨x, hx, hhas⟩ := (mem_extents_has hm i).mpr hzone
  have hlt : i < b.totalPages := Nat.lt_of_lt_of_le hhas.2 (extent_le_totalPages hm hx)
  have hker := ((initMemory_bit hm hk hlt).mp hfree).2
  have hal := hk.aligned
  have hd := (layout_chain b).2.2.2.2
  have hks : (initStructs b).gmdsc.kernelStartPhyaddr = b.startKernel := rfl
  rw [hk.mem_kernelPages hm] at hker
  refine ⟨hzone, ?_⟩
  rw [initMemory_gmdsc, hks]
  omega

/-- `alloc_pages` may go on from `s` as it likes: what covered calls hand out are pages of the map,
    off the kernel, and none twice. -/
def AllocsSafe (es : List E820) (s : MmState) : Prop :=
  ∀ cs : List AllocCall, (∀ c ∈ cs, c.Ok) → AllocsCovered s cs →
    (allocBlocks s cs).Pairwise List.Disjoint ∧
      ∀ block ∈ allocBlocks s cs, ∀ i ∈ block, FromMap es s i

theorem allocsSafe_initMemory (hm : Ordered b.e820) (hk : KernelFits b) :
    AllocsSafe b.e820 (initMemory b) := by
  intro cs hok hc
  have hs := consistent_initMemory b
  refine ⟨allocBlocks_pairwise cs hs hok hc, fun block hb i hi => ?_⟩
  obtain ⟨hzone, hfree⟩ := allocBlocks_free cs hs hok hc hb hi
  exact fromMap_of_free hm hk hzone hfree

/-- **From the loader to the allocator.** The loader enters with a well-formed information at `ebx`,
    whose last memory map `es` is ordered and has room for the kernel. Whatever is stored in
    between, off the two words and the information, `kernel_start` gets through `parse_sys_info`
    and `init_memory` if `eax` is the magic number: `gmdsc` holds `es`, and every run of covered
    `alloc_pages` calls hands out pages of `es` off the kernel, each once. -/
theorem kernelStart_safe (hl : Linked pml4 mb2Magic mb2Info m)
    (h : InfoAt m (ebx.setWidth 64) ts) (hwf : ∀ t ∈ ts, t.Wf)
    (hlen : ∀ t ∈ ts, ∀ es, t.entries? = some es → es.length ≤ 32)
    (hlast : lastMmap ts = some es) (hes : es.length ≤ 32) (hm : Ordered es)
    (hk : KernelFits (withMap b es hes))
    (hgmdsc : Disjoint (Region g sizeofGmdsc) (Region (ebx.setWidth 64) (8 + tagsLength ts)))
    (hoff : Disjoint
      (tables pml4 ∪ Region (mb2Magic.setWidth 64) 8 ∪ Region (mb2Info.setWidth 64) 8)
      (Region (ebx.setWidth 64) (8 + tagsLength ts)))
    (hkept : Mem.AgreeOn (Region (mb2Magic.setWidth 64) 8 ∪ Region (mb2Info.setWidth 64) 8 ∪
        Region (ebx.setWidth 64) (8 + tagsLength ts)) m'
      (multibootEntry pml4 mb2Magic mb2Info eax ebx m))
    (hr : 32 ≤ rounds) (hfuel : ts.length < fuel) :
    ∃ m₂, kernelStart rounds fuel g mb2Magic mb2Info b m' =
        some (if eax = multiboot2BootloaderMagic then .started m₂ (initMemory (withMap b es hes))
          else .refused) ∧
      (∀ x, x ∉ Region g 656 → m₂ x = m' x) ∧ e820List m₂ g = es ∧
      (initMemory (withMap b es hes)).gmdsc.e820 = es ∧
      (initMemory (withMap b es hes)).gmdsc.e820AvailableSize = e820AvailableSize m₂ g ∧
      AllocsSafe es (initMemory (withMap b es hes)) := by
  have hinfo : Mem.AgreeOn (Region (ebx.setWidth 64) (8 + tagsLength ts)) m' m := by
    rw [Set.disjoint_union_left, Set.disjoint_union_left] at hoff
    exact (hkept.mono Set.subset_union_right).trans (hl.agreeOn hoff.1.2 hoff.2 hoff.1.1)
  have h' := h.congr hwf hinfo
  obtain ⟨m₂, hparse, hparsed⟩ := h'.parse hr hfuel hwf hlen hgmdsc
  have hmap := (hparsed.some es hlast).list
  obtain ⟨-, havail⟩ := hparsed.boot (withMap b es hes) hlast
  refine ⟨m₂, ?_, hparsed.frame, hmap, ?_, ?_, allocsSafe_initMemory hm hk⟩
  · have haligned : ebx.toNat % 8 = 0 := by
      rw [← h.aligned, BitVec.toNat_setWidth_of_le (by decide)]
    have hkeep := Set.subset_union_left (s := Region (mb2Magic.setWidth 64) 8 ∪
      Region (mb2Info.setWidth 64) 8) (t := Region (ebx.setWidth 64) (8 + tagsLength ts))
    rw [hl.kernelStart_eq (hkept.mono (Set.subset_union_left.trans hkeep))
      (hkept.mono (Set.subset_union_right.trans hkeep))]
    by_cases hmagic : eax = multiboot2BootloaderMagic
    · rw [if_neg (by simp [hmagic, haligned]), if_pos hmagic, hparse, Option.bind_some,
        dif_pos (by rw [hmap]; exact hes)]
      simp only [hmap]
    · rw [if_pos (Or.inl hmagic), if_neg hmagic]
  · rw [initMemory_gmdsc]
    rfl
  · rw [initMemory_gmdsc, ← havail]
    rfl

end

/-! ### An information at 0x1000 -/

/-- One memory map, of the three entries of `oddBoot`. -/
def oddInfo : Mem := fun x =>
  if x = 0x1000#64 then 104#8
  else if x = 0x1008#64 then 6#8
  else if x = 0x100c#64 then 88#8
  else if x = 0x1010#64 then 24#8
  else if x = 0x1019#64 then 0x10#8
  else if x = 0x101a#64 then 0x10#8
  else if x = 0x1021#64 then 0xf0#8
  else if x = 0x1022#64 then 1#8
  else if x = 0x1028#64 then 1#8
  else if x = 0x1032#64 then 0x12#8
  else if x = 0x103a#64 then 0xee#8
  else if x = 0x103b#64 then 1#8
  else if x = 0x1040#64 then 2#8
  else if x = 0x104b#64 then 2#8
  else if x = 0x1052#64 then 0x10#8
  else if x = 0x1058#64 then 1#8
  else if x = 0x1064#64 then 8#8
  else 0#8

theorem oddInfo_infoAt : InfoAt oddInfo 0x1000#64 [.mmap 24 oddBoot.e820] := by
  have hat : Tag.At oddInfo 0x1008#64 (.mmap 24 oddBoot.e820) := by
    refine ⟨by decide, by decide, ?_, ?_⟩
    · intro n es he
      obtain ⟨rfl, rfl⟩ := Tag.mmap.inj he
      decide
    · intro n es he j hj
      obtain ⟨rfl, rfl⟩ := Tag.mmap.inj he
      change j < 3 at hj
      obtain rfl | rfl | rfl : j = 0 ∨ j = 1 ∨ j = 2 := by omega
      · change readEntry oddInfo _ = ⟨0x101000#64, 0x1f000#64, 1#32⟩
        decide
      · change readEntry oddInfo _ = ⟨0x120000#64, 0x1ee0000#64, 2#32⟩
        decide
      · change readEntry oddInfo _ = ⟨0x2000000#64, 0x100000#64, 1#32⟩
        decide
  exact ⟨by decide, by decide, by decide, hat, by decide, by decide⟩

theorem oddInfo_zero {x : BitVec 64} (h : 0x1068 ≤ x.toNat) : oddInfo x = 0#8 := by
  unfold oddInfo
  rw [if_neg, if_neg, if_neg, if_neg, if_neg, if_neg, if_neg, if_neg, if_neg, if_neg, if_neg,
    if_neg, if_neg, if_neg, if_neg, if_neg, if_neg]
  all_goals
    rintro rfl
    exact absurd h (by decide)

theorem kernelStart_safe_odd : ∃ m₂, kernelStart 32 2 0x2010000#64 0x2005000#32 0x2005008#32 lowBoot
      (multibootEntry 0x2001000#32 0x2005000#32 0x2005008#32 multiboot2BootloaderMagic 0x1000#32
        oddInfo) = some (.started m₂ (initMemory oddBoot)) ∧
    e820List m₂ 0x2010000#64 = oddBoot.e820 ∧ AllocsSafe oddBoot.e820 (initMemory oddBoot) := by
  have hblank : Blank 0x2001000#32 oddInfo := by
    refine ⟨⟨by decide, by decide⟩, fun x hx => oddInfo_zero ?_⟩
    rw [mem_region_interval (by decide)] at hx
    exact Nat.le_trans (by decide) hx.1
  have hlinked : Linked 0x2001000#32 0x2005000#32 0x2005008#32 oddInfo :=
    ⟨hblank, by decide, by decide, (disjoint_of_le (by decide) (by decide)).symm,
      disjoint_of_le (by decide) (by decide), disjoint_of_le (by decide) (by decide)⟩
  have hinfo : InfoAt oddInfo ((0x1000#32).setWidth 64) [.mmap 24 oddBoot.e820] := by
    rw [show (0x1000#32).setWidth 64 = 0x1000#64 by decide]
    exact oddInfo_infoAt
  have hwf : ∀ t ∈ [Tag.mmap 24 oddBoot.e820], t.Wf := by
    intro t ht
    rw [List.mem_singleton.mp ht]
    exact le_refl 24
  have hlen : ∀ t ∈ [Tag.mmap 24 oddBoot.e820], ∀ es, t.entries? = some es → es.length ≤ 32 := by
    intro t ht es hes
    rw [List.mem_singleton.mp ht] at hes
    cases hes
    decide
  have hgmdsc : Disjoint (Region 0x2010000#64 sizeofGmdsc)
      (Region ((0x1000#32).setWidth 64) (8 + tagsLength [.mmap 24 oddBoot.e820])) :=
    (disjoint_of_le (by decide) (by decide)).symm
  have hoff : Disjoint (tables 0x2001000#32 ∪ Region ((0x2005000#32).setWidth 64) 8 ∪
      Region ((0x2005008#32).setWidth 64) 8)
        (Region ((0x1000#32).setWidth 64) (8 + tagsLength [.mmap 24 oddBoot.e820])) := by
    rw [Set.disjoint_union_left, Set.disjoint_union_left]
    exact ⟨⟨(disjoint_of_le (by decide) (by decide)).symm,
      (disjoint_of_le (by decide) (by decide)).symm⟩,
      (disjoint_of_le (by decide) (by decide)).symm⟩
  obtain ⟨m₂, hstart, -, hlist, -, -, hsafe⟩ := kernelStart_safe hlinked hinfo hwf hlen rfl
    oddBoot.e820_le oddBoot_ordered oddBoot_kernelFits hgmdsc hoff (Mem.AgreeOn.refl _ _)
    (le_refl 32) (Nat.lt_succ_self 1)
  rw [if_pos rfl] at hstart
  exact ⟨m₂, hstart, hlist, hsafe⟩

end HelloOS.Boot
