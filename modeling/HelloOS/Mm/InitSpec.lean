/-
  The postcondition of `init_memory` on the maps GRUB hands over.

  `Ordered` is what is assumed of the map: each entry ends at or before the start of the
  next and all end below 2^43. Then the extents are disjoint (`extents_pairwise`) and lie
  below `totalPages`, so every bit is toggled at most once (`zoneState_bit`) and every zone
  page points to the one zone that contains it (`zoneState_page`). If the image and the
  arrays lie in one available entry (`KernelFits`), the kernel-marking loop marks zone
  pages only, and marks exactly those it names (`initPages_bit`).
-/
import HelloOS.Mm.Footprint
import Mathlib.Order.Interval.Set.Disjoint
import Mathlib.Data.List.Pairwise
import Mathlib.Data.Set.Lattice
import Mathlib.Order.CompletePartialOrder

namespace HelloOS.Mm

open HelloOS.Lib

/-! ## Ordered maps -/

/-- The end of an entry, `addr + len`. -/
def E820.endAddr (e : E820) : Nat := e.addr.toNat + e.len.toNat

/-- Each entry ends at or before the start of the next, and all end below 2^43. -/
structure Ordered (es : List E820) : Prop where
  chain : es.IsChain fun e f => e.endAddr ≤ f.addr.toNat
  below : ∀ e ∈ es, e.endAddr < 2 ^ 43

/-- The whole 4 KB page `i` lies inside the entry. -/
def E820.HasPage (e : E820) (i : Nat) : Prop := e.addr.toNat ≤ 4096 * i ∧ 4096 * (i + 1) ≤ e.endAddr

/-- Page `i` lies inside some available entry. -/
def Available (es : List E820) (i : Nat) : Prop :=
  ∃ e ∈ es, e.type = e820TypeAvailable ∧ e.HasPage i

theorem Ordered.pairwise {es : List E820} (h : Ordered es) :
    es.Pairwise fun e f => e.endAddr ≤ f.addr.toNat := by
  have : IsTrans E820 fun e f => e.endAddr ≤ f.addr.toNat :=
    ⟨fun e f g h1 h2 => by unfold E820.endAddr at *; omega⟩
  exact List.isChain_iff_pairwise.mp h.chain

theorem E820.toNat_start {e : E820} (h : e.endAddr < 2 ^ 43) :
    e.start.toNat = 4096 * ((e.addr.toNat + 4095) / 4096) := by
  unfold E820.endAddr at h
  exact toNat_page4kAlign (by omega)

theorem E820.toNat_end {e : E820} (h : e.endAddr < 2 ^ 43) :
    e.end_.toNat = 4096 * (e.endAddr / 4096) := by
  unfold E820.endAddr at h
  have hs : (e.addr + e.len).toNat = e.endAddr := by unfold E820.endAddr; bv_omega
  unfold E820.end_
  rw [toNat_shiftRight_shiftLeft, hs]
  rfl

/-- The pages of an entry's extent are the pages that lie inside the entry. -/
theorem E820.extent_has {e : E820} {x : Extent} (h : e.endAddr < 2 ^ 43) (hx : e.extent? = some x)
    (i : Nat) : x.Has i ↔ e.HasPage i := by
  obtain ⟨-, hs, he⟩ := E820.extent?_eq_some.mp hx
  unfold Extent.Has E820.HasPage
  rw [pageNumber_eq, pageNumber_eq, hs, he, e.toNat_start h, e.toNat_end h]
  omega

/-- An available entry with a page in it has an extent. -/
theorem E820.extent_of_hasPage {e : E820} {i : Nat} (h : e.endAddr < 2 ^ 43)
    (ht : e.type = e820TypeAvailable) (hi : e.HasPage i) : ∃ x, e.extent? = some x := by
  have hlt : e.start.toNat < e.end_.toNat := by
    unfold E820.HasPage at hi
    rw [e.toNat_start h, e.toNat_end h]
    omega
  exact ⟨⟨e.start, e.end_, page4kAlign_dvd e.addr, e.end_dvd, hlt⟩,
    E820.extent?_eq_some.mpr ⟨ht, rfl, rfl⟩⟩

/-- The pages of the extents are the available pages, in any order of the map. -/
theorem mem_extents_available {es : List E820} (h : ∀ e ∈ es, e.endAddr < 2 ^ 43) (i : Nat) :
    (∃ x ∈ extents es, x.Has i) ↔ Available es i := by
  constructor
  · rintro ⟨x, hx, hhas⟩
    obtain ⟨e, he, hex⟩ := mem_extents.mp hx
    exact ⟨e, he, (E820.extent?_eq_some.mp hex).1, (E820.extent_has (h e he) hex i).mp hhas⟩
  · rintro ⟨e, he, ht, hi⟩
    obtain ⟨x, hex⟩ := E820.extent_of_hasPage (h e he) ht hi
    exact ⟨x, mem_extents.mpr ⟨e, he, hex⟩, (E820.extent_has (h e he) hex i).mpr hi⟩

theorem mem_extents_has {es : List E820} (h : Ordered es) (i : Nat) :
    (∃ x ∈ extents es, x.Has i) ↔ Available es i :=
  mem_extents_available h.below i

/-- The extents of an ordered map come one after the other. -/
theorem extents_pairwise {es : List E820} (h : Ordered es) :
    (extents es).Pairwise fun x y => pageNumber x.end_ ≤ pageNumber y.start := by
  have hp := List.Pairwise.and_mem.mp h.pairwise
  refine List.Pairwise.filterMap E820.extent? ?_ hp
  rintro e f ⟨he, hf, hef⟩ x hx y hy
  obtain ⟨-, -, hxe⟩ := E820.extent?_eq_some.mp hx
  obtain ⟨-, hys, -⟩ := E820.extent?_eq_some.mp hy
  rw [pageNumber_eq, pageNumber_eq, hxe, hys, e.toNat_end (h.below e he),
    f.toNat_start (h.below f hf)]
  omega

/-- A page is in at most one extent. -/
theorem extents_unique {es : List E820} (h : Ordered es) {i k l : Nat}
    (hk : k < (extents es).length) (hl : l < (extents es).length)
    (h1 : ((extents es)[k]).Has i) (h2 : ((extents es)[l]).Has i) : k = l := by
  have hp := List.pairwise_iff_getElem.mp (extents_pairwise h)
  unfold Extent.Has at h1 h2
  rcases Nat.lt_trichotomy k l with hlt | heq | hgt
  · have := hp k l hk hl hlt; omega
  · exact heq
  · have := hp l k hl hk hgt; omega

/-- The number of extents with page `i` is odd exactly when there is one. -/
theorem countP_has_odd {es : List E820} (h : Ordered es) (i : Nat) :
    (extents es).countP (·.Has i) % 2 = 1 ↔ ∃ x ∈ extents es, x.Has i := by
  have hle : ∀ xs : List Extent, (xs.Pairwise fun x y => pageNumber x.end_ ≤ pageNumber y.start) →
      xs.countP (·.Has i) ≤ 1 := by
    intro xs hp
    induction xs with
    | nil => simp
    | cons x xs ih =>
        obtain ⟨hx, hxs⟩ := List.pairwise_cons.mp hp
        rw [List.countP_cons]
        by_cases hi : x.Has i
        · have : xs.countP (·.Has i) = 0 := by
            rw [List.countP_eq_zero]
            intro y hy hyi
            have := hx y hy
            have hyi := of_decide_eq_true hyi
            unfold Extent.Has at hi hyi
            omega
          simp [this, hi]
        · simpa [hi] using ih hxs
  have h1 := hle _ (extents_pairwise h)
  have h2 : 0 < (extents es).countP (·.Has i) ↔ ∃ x ∈ extents es, x.Has i := by
    simp [List.countP_pos_iff]
  rw [← h2]
  omega

/-- No entry of an ordered map ends behind the last one. -/
theorem Ordered.endAddr_le_getLast {es : List E820} (h : Ordered es) {e : E820} (he : e ∈ es)
    (d : E820) : e.endAddr ≤ (es.getLastD d).endAddr := by
  have hne : es ≠ [] := List.ne_nil_of_mem he
  rw [List.getLastD_eq_getLast?, List.getLast?_eq_some_getLast hne, Option.getD_some]
  have hsplit := List.dropLast_append_getLast hne
  have hp := h.pairwise
  rw [← hsplit, List.pairwise_append] at hp
  rw [← hsplit, List.mem_append, List.mem_singleton] at he
  rcases he with he | rfl
  · have := hp.2.2 e he _ (List.mem_singleton_self _)
    unfold E820.endAddr at *
    omega
  · exact Nat.le_refl _

variable {b : Boot}

/-- Every extent ends at or below the last page of the bitmap. -/
theorem extent_le_totalPages (h : Ordered b.e820) {x : Extent} (hx : x ∈ b.extents) :
    pageNumber x.end_ ≤ b.totalPages := by
  obtain ⟨e, he, hex⟩ := mem_extents.mp hx
  obtain ⟨-, -, hend⟩ := E820.extent?_eq_some.mp hex
  have hle := h.endAddr_le_getLast he b.e820Before
  have hlast : b.state.gmdsc.lastE820 ∈ b.e820 := by
    have hne : b.e820 ≠ [] := List.ne_nil_of_mem he
    change b.e820.getLastD b.e820Before ∈ b.e820
    rw [List.getLastD_eq_getLast?, List.getLast?_eq_some_getLast hne, Option.getD_some]
    exact List.getLast_mem hne
  have hb := h.below _ hlast
  have hsum : (b.state.gmdsc.lastE820.addr + b.state.gmdsc.lastE820.len).toNat =
      b.state.gmdsc.lastE820.endAddr := by
    unfold E820.endAddr at hb ⊢
    bv_omega
  change e.endAddr ≤ b.state.gmdsc.lastE820.endAddr at hle
  unfold Boot.totalPages
  rw [pageNumber_eq, pageNumber_eq, hend, e.toNat_end (h.below e he), hsum]
  omega

/-! ## The zone state of an ordered map -/

theorem zoneState_inZone_iff (h : Ordered b.e820) (i : Nat) :
    b.zoneState.InZone i ↔ Available b.e820 i :=
  (zoneState_inZone b).trans (mem_extents_has h i)

/-- After the zone loop the bit of a page is clear exactly when the page is available. -/
theorem zoneState_bit (h : Ordered b.e820) {i : Nat} (hi : i < b.totalPages) :
    b.zoneState.bits.get i = false ↔ Available b.e820 i := by
  obtain ⟨-, -, -, -, hb⟩ := zoneState_spec b
  have hone : (initStructs b).bits.get i = true := by
    rw [(initStructs_arrays b).1]
    exact Bitmap.get_ones_of_lt _ i (by omega)
  rw [hb i, hone, ← mem_extents_has h i, ← countP_has_odd h i, Bool.xor_true, Bool.not_eq_false',
    decide_eq_true_iff]
  rfl

/-- The address `a` lies in `[zone_start_addr, zone_end_addr)`. -/
def MmZone.Contains (z : MmZone) (a : Nat) : Prop :=
  z.zoneStartAddr.toNat ≤ a ∧ a < z.zoneEndAddr.toNat

/-- A zone contains a page's address exactly when it has the page. -/
theorem zoneState_contains {z i : Nat} (hz : z < b.zoneCount) :
    (b.zoneState.zones z).Contains (4096 * i) ↔ (b.zoneState.zones z).Has i := by
  obtain ⟨-, hzone, hzero, -, -⟩ := zoneState_spec b
  unfold MmZone.Contains MmZone.Has
  rw [pageNumber_eq, pageNumber_eq]
  by_cases hk : z < b.extents.length
  · rw [hzone z hk]
    have h1 := (b.extents[z]).start_dvd
    have h2 := (b.extents[z]).end_dvd
    unfold freshZone
    dsimp only
    omega
  · rw [hzero z (by omega) hz]
    have h0 : MmZone.zero.zoneEndAddr.toNat = 0 := rfl
    omega

/-- The struct of an available page: its own address, and the one zone that contains it. -/
theorem zoneState_page (h : Ordered b.e820) {i : Nat} (hi : Available b.e820 i) :
    ∃ z, z < b.zoneCount ∧ b.zoneState.pages i = freshPage z i ∧ i < 2 ^ 31 ∧
      (b.zoneState.zones z).Has i ∧
      ∀ y, y < b.zoneCount → (b.zoneState.zones y).Has i → y = z := by
  obtain ⟨-, -, -, hp, -⟩ := zoneState_spec b
  have hlt : i < 2 ^ 31 := by
    obtain ⟨e, he, -, hpage⟩ := hi
    have := h.below e he
    unfold E820.HasPage at hpage
    omega
  rcases hp i with ⟨k, hk, hhas, hpage⟩ | ⟨hnot, -⟩
  · have hz : k < b.zoneCount := Nat.lt_of_lt_of_le hk b.extents_length_le
    refine ⟨k, hz, hpage, hlt, (zoneState_has b hz).mpr ⟨hk, hhas⟩, fun y hy hyhas => ?_⟩
    obtain ⟨hyk, hyx⟩ := (zoneState_has b hy).mp hyhas
    exact extents_unique h hyk hk hyx hhas
  · obtain ⟨x, hx, hhas⟩ := (mem_extents_has h i).mpr hi
    exact absurd hhas (hnot x hx)

/-! ## The arrays in memory -/

/-- The arrays follow the image one behind the other, for every boot: the sums that place
    them never wrap. -/
theorem layout_chain (b : Boot) :
    let g := (initStructs b).gmdsc
    g.kernelEndPhyaddr.toNat ≤ g.pageBits.toNat ∧
    g.pageBits.toNat + g.pageBitsLength.toNat ≤ g.pagesStruct.toNat ∧
    g.pagesStruct.toNat + g.pagesLength.toNat ≤ g.zonesStruct.toNat ∧
    g.zonesStruct.toNat + g.zonesLength.toNat ≤ g.endOfStruct.toNat ∧
    4096 ∣ g.endOfStruct.toNat := by
  obtain ⟨-, -, hke, -, hbl, -, hpl, -, hzl⟩ := initStructs_sizes b
  obtain ⟨hpb, hpg, hzn, hend, -⟩ := initStructs_addresses b
  have h0 := le_pageUp b.endKernel.toNat
  have h1 := le_pageUp (b.bitsAt + 8 * (8 * b.bitmapWords))
  have h2 := le_pageUp (b.pagesAt + 40 * b.totalPages)
  have h3 := le_pageUp (b.zonesAt + 72 * b.zoneCount)
  have hW : b.bitmapWords = (b.totalPages + 63) / 64 := rfl
  change _ ≤ b.bitsAt at h0
  change _ ≤ b.pagesAt at h1
  change _ ≤ b.zonesAt at h2
  change _ ≤ b.structsEnd at h3
  dsimp only
  rw [hke, hpb, hbl, hpg, hpl, hzn, hzl, hend]
  exact ⟨h0, by omega, h2, h3, Nat.dvd_mul_right _ _⟩

/-! ## The kernel's pages -/

/-- The kernel starts on a page, and what lies from there to `end_of_struct` (the image and
    the three arrays) fits in one available entry. -/
structure KernelFits (b : Boot) : Prop where
  aligned : 4096 ∣ b.startKernel.toNat
  inside : ∃ e ∈ b.e820, e.type = e820TypeAvailable ∧ e.addr.toNat ≤ b.startKernel.toNat ∧
    (initStructs b).gmdsc.endOfStruct.toNat ≤ e.endAddr

/-- An address below 2^43 has a page number that is a non-negative `int`. -/
theorem toInt_pageNumber {a : U64} (h : a.toNat < 2 ^ 43) :
    ((a >>> 12).setWidth 32).toInt = (a.toNat / 4096 : Nat) := by
  have hn : ((a >>> 12).setWidth 32).toNat = a.toNat / 4096 := by
    rw [BitVec.toNat_setWidth, BitVec.toNat_ushiftRight, Nat.shiftRight_eq_div_pow]
    omega
  rw [BitVec.toInt_eq_toNat_of_lt (by omega), hn]

/-- The kernel-marking loop runs over the pages from the kernel's start to `end_of_struct`. -/
theorem mem_kernelPages {g : Gmdsc} (hs : g.kernelStartPhyaddr.toNat < 2 ^ 43)
    (he : g.endOfStruct.toNat < 2 ^ 43) (i : Nat) :
    i ∈ kernelPages g ↔
      g.kernelStartPhyaddr.toNat / 4096 ≤ i ∧ i < g.endOfStruct.toNat / 4096 := by
  unfold kernelPages
  rw [vir2phy_eq_self (by omega), toInt_pageNumber hs, toInt_pageNumber he]
  dsimp only
  generalize hst : g.kernelStartPhyaddr.toNat / 4096 = st
  generalize hen : g.endOfStruct.toNat / 4096 = en
  have hidx : ∀ k, k < en - st → (BitVec.ofInt 64 ((st : Int) + (k : Int))).toNat = st + k := by
    intro k hk
    rw [show (st : Int) + (k : Int) = ((st + k : Nat) : Int) by push_cast; rfl,
      BitVec.ofInt_natCast, BitVec.toNat_ofNat]
    exact Nat.mod_eq_of_lt (by omega)
  have hlen : ((en : Int) - (st : Int)).toNat = en - st := by omega
  rw [hlen, List.mem_map]
  constructor
  · rintro ⟨k, hk, rfl⟩
    rw [List.mem_range] at hk
    rw [hidx k hk]
    omega
  · rintro ⟨h1, h2⟩
    have hk : i - st < en - st := by omega
    exact ⟨i - st, List.mem_range.mpr hk, by rw [hidx _ hk]; omega⟩

/-- Marking zone pages sets exactly their bits. -/
theorem initPages_bit {s : MmState} (hs : Consistent s) (flags : U64) (l : List Nat)
    (hl : ∀ i ∈ l, s.InZone i) (j : Nat) :
    (initPages s flags l).bits.get j = (decide (j ∈ l) || s.bits.get j) := by
  by_cases hj : j ∈ l
  · rw [initPages_sets hs flags l hj (hl j hj)]
    simp [hj]
  · have hne : ∀ i ∈ l, i ≠ j := fun i hi h => hj (h ▸ hi)
    clear hj
    induction l generalizing s with
    | nil => simp [initPages]
    | cons i l ih =>
        rw [initPages_cons, ih (consistent_pageInit hs i flags)
          (fun k hk => (pageInit_inZone s i flags k).mpr (hl k (List.mem_cons_of_mem i hk)))
          (fun k hk => hne k (List.mem_cons_of_mem i hk))]
        have hij := hne i List.mem_cons_self
        rw [pageInit_bit_of_ne s i flags (by rw [hs.number i (hl i List.mem_cons_self)]; exact hij)]
        have : j ∉ l := fun h => hne j (List.mem_cons_of_mem i h) rfl
        have hji : j ≠ i := Ne.symm hij
        simp [this, hji]

theorem initMemory_eq (b : Boot) :
    initMemory b = initPages b.zoneState kernelFlags (kernelPages (initStructs b).gmdsc) := by
  unfold initMemory constructMemStruct
  rw [← zoneState_gmdsc b]
  rfl

/-- Zone `k` is where extent `k` is. -/
theorem initMemory_zone (b : Boot) {k : Nat} (hk : k < b.extents.length) :
    ((initMemory b).zones k).zoneStartAddr = (b.extents[k]).start ∧
      ((initMemory b).zones k).zoneEndAddr = (b.extents[k]).end_ := by
  rw [initMemory_eq, initPages_zoneStartAddr, initPages_zoneEndAddr,
    (zoneState_spec b).2.1 k hk]
  exact ⟨rfl, rfl⟩

/-- The bounds of the kernel's range. -/
theorem KernelFits.bounds (hk : KernelFits b) (hm : Ordered b.e820) :
    b.startKernel.toNat ≤ (initStructs b).gmdsc.endOfStruct.toNat ∧
      (initStructs b).gmdsc.endOfStruct.toNat < 2 ^ 43 := by
  obtain ⟨e, he, -, -, hend⟩ := hk.inside
  have hb := hm.below e he
  obtain ⟨h1, h2, h3, h4, -⟩ := layout_chain b
  have hs := b.start_le
  have hke : (initStructs b).gmdsc.kernelEndPhyaddr = b.endKernel := rfl
  rw [hke] at h1
  omega

/-- The pages the kernel-marking loop marks. -/
theorem KernelFits.mem_kernelPages (hk : KernelFits b) (hm : Ordered b.e820) (i : Nat) :
    i ∈ kernelPages (initStructs b).gmdsc ↔
      b.startKernel.toNat ≤ 4096 * i ∧
        4096 * i < (initStructs b).gmdsc.endOfStruct.toNat := by
  obtain ⟨hle, hlt⟩ := hk.bounds hm
  have hal := hk.aligned
  have hd := (layout_chain b).2.2.2.2
  have hks : (initStructs b).gmdsc.kernelStartPhyaddr = b.startKernel := rfl
  rw [Mm.mem_kernelPages (by rw [hks]; omega) hlt, hks]
  omega

/-- They are zone pages. -/
theorem KernelFits.available (hk : KernelFits b) (hm : Ordered b.e820) {i : Nat}
    (hi : i ∈ kernelPages (initStructs b).gmdsc) : Available b.e820 i := by
  rw [hk.mem_kernelPages hm] at hi
  obtain ⟨e, he, ht, hst, hend⟩ := hk.inside
  have hd := (layout_chain b).2.2.2.2
  exact ⟨e, he, ht, by unfold E820.HasPage; omega⟩

/-- After `init_memory` a bit is clear exactly for the available pages off the kernel's
    range. -/
theorem initMemory_bit (hm : Ordered b.e820) (hk : KernelFits b) {i : Nat}
    (hi : i < b.totalPages) :
    (initMemory b).bits.get i = false ↔
      Available b.e820 i ∧ i ∉ kernelPages (initStructs b).gmdsc := by
  rw [initMemory_eq, initPages_bit (consistent_zoneState b) _ _
    fun j hj => (zoneState_inZone_iff hm j).mpr (hk.available hm hj)]
  rw [Bool.or_eq_false_iff, zoneState_bit hm hi, decide_eq_false_iff_not]
  exact and_comm

/-- An available page below the kernel is free. -/
theorem initMemory_free (hm : Ordered b.e820) (hk : KernelFits b) {i : Nat}
    (hav : Available b.e820 i) (hi : 4096 * i < b.startKernel.toNat) :
    (initMemory b).bits.get i = false := by
  have hT : i < b.totalPages := by
    obtain ⟨x, hx, hhas⟩ := (mem_extents_has hm i).mpr hav
    exact Nat.lt_of_lt_of_le hhas.2 (extent_le_totalPages hm hx)
  refine (initMemory_bit hm hk hT).mpr ⟨hav, fun hker => ?_⟩
  have := ((hk.mem_kernelPages hm i).mp hker).1
  omega

/-! ## The postcondition -/

/-- The bytes of an array. -/
def bytesOf (start length : U64) : Set Nat := Set.Ico start.toNat (start.toNat + length.toNat)

theorem disjoint_bytesOf {a b n k : U64} (h : a.toNat + n.toNat ≤ b.toNat) :
    Disjoint (bytesOf a n) (bytesOf b k) := by
  rw [Set.disjoint_left]
  intro x hx hy
  exact absurd hy.1 (Nat.not_le_of_lt (Nat.lt_of_lt_of_le hx.2 h))

/-- The zones that contain a page are those that `construct_mem_struct` built around it. -/
theorem initMemory_contains {y i : Nat} (hy : y < b.zoneCount) :
    ((initMemory b).zones y).Contains (4096 * i) ↔ (b.zoneState.zones y).Has i := by
  rw [← zoneState_contains hy, initMemory_eq]
  exact initPages_induction kernelFlags
    (P := fun t => (t.zones y).Contains (4096 * i) ↔ (b.zoneState.zones y).Contains (4096 * i))
    (fun t j h => by rw [← h, pageInit_zones]; split <;> rfl) _ Iff.rfl

/-- `page_init` of the kernel's pages leaves the owner of a page as it is. -/
theorem initMemory_page_zone (i : Nat) :
    ((initMemory b).pages i).zone = (b.zoneState.pages i).zone := by
  rw [initMemory_eq]
  exact initPages_induction kernelFlags
    (P := fun t => (t.pages i).zone = (b.zoneState.pages i).zone)
    (fun t j h => by rw [pageInit_page_zone]; exact h) _ rfl

/-- **Postcondition of `init_memory`.** The bitmap, the page structs and the zone structs
    are disjoint and lie between the image's end and `end_of_struct`; a page's bit is clear
    exactly when the page lies inside some available entry and off the kernel's range; the
    struct of a page inside an available entry holds the page's address and points to the
    only zone that contains it. -/
theorem initMemory_post (b : Boot) (hm : Ordered b.e820) (hk : KernelFits b) :
    let s := initMemory b
    let g := s.gmdsc
    (Disjoint (bytesOf g.pageBits g.pageBitsLength) (bytesOf g.pagesStruct g.pagesLength) ∧
      Disjoint (bytesOf g.pageBits g.pageBitsLength) (bytesOf g.zonesStruct g.zonesLength) ∧
      Disjoint (bytesOf g.pagesStruct g.pagesLength) (bytesOf g.zonesStruct g.zonesLength) ∧
      bytesOf g.pageBits g.pageBitsLength ⊆ Set.Ico g.kernelEndPhyaddr.toNat g.endOfStruct.toNat ∧
      bytesOf g.pagesStruct g.pagesLength ⊆ Set.Ico g.kernelEndPhyaddr.toNat g.endOfStruct.toNat ∧
      bytesOf g.zonesStruct g.zonesLength ⊆
        Set.Ico g.kernelEndPhyaddr.toNat g.endOfStruct.toNat) ∧
    (∀ i, i < g.pageBitsSize.toNat →
      (s.bits.get i = false ↔ Available b.e820 i ∧
        ¬ (4096 * i < g.endOfStruct.toNat ∧ g.kernelStartPhyaddr.toNat < 4096 * (i + 1)))) ∧
    ∀ i, Available b.e820 i →
      (s.pages i).phyAddr.toNat = 4096 * i ∧
      ∃ z, (s.pages i).zone = some z ∧ z < g.zonesSize.toNat ∧
        (s.zones z).Contains (4096 * i) ∧
        ∀ y, y < g.zonesSize.toNat → (s.zones y).Contains (4096 * i) → y = z := by
  intro s g
  have hg : g = (initStructs b).gmdsc := initMemory_gmdsc b
  obtain ⟨-, hks, -, hbs, -, -, -, hzs, -⟩ := initStructs_sizes b
  refine ⟨?_, fun i hi => ?_, fun i hi => ?_⟩
  · obtain ⟨h1, h2, h3, h4, -⟩ := layout_chain b
    rw [← hg] at h1 h2 h3 h4
    refine ⟨?_, ?_, ?_, ?_, ?_, ?_⟩
    · exact disjoint_bytesOf h2
    · exact disjoint_bytesOf (by omega)
    · exact disjoint_bytesOf h3
    · exact Set.Ico_subset_Ico h1 (by omega)
    · exact Set.Ico_subset_Ico (by omega) (by omega)
    · exact Set.Ico_subset_Ico (by omega) h4
  · rw [hg, hbs] at hi
    have hal := hk.aligned
    have hd := (layout_chain b).2.2.2.2
    rw [initMemory_bit hm hk hi, hk.mem_kernelPages hm, hg, hks]
    refine and_congr_right fun _ => ?_
    omega
  · obtain ⟨z, hz, hp, hlt, hhas, huniq⟩ := zoneState_page hm hi
    refine ⟨?_, z, ?_, ?_, (initMemory_contains hz).mpr hhas, fun y hy hyc => ?_⟩
    · change ((initMemory b).pages i).phyAddr.toNat = 4096 * i
      rw [initMemory_eq, initPages_phyAddr, hp]
      change (BitVec.ofNat 64 (4096 * i)).toNat = 4096 * i
      exact toNat_ofNat_eq (by omega)
    · rw [initMemory_page_zone, hp]
      rfl
    · rw [hg, hzs]
      exact hz
    · rw [hg, hzs] at hy
      exact huniq y hy ((initMemory_contains hy).mp hyc)

/-! ### A small machine -/

/-- Fourteen low pages (258 to 271), reserved memory up to 32 MB, and one megabyte there
    that holds the kernel. -/
def lowBoot : Boot where
  e820 := [⟨0x102000#64, 0xe000#64, 1#32⟩, ⟨0x110000#64, 0x1ef0000#64, 2#32⟩,
    ⟨0x2000000#64, 0x100000#64, 1#32⟩]
  e820_le := by decide
  e820Before := ⟨0#64, 0#64, 0#32⟩
  startKernel := 0x2000000#64
  endKernel := 0x2010000#64
  start_le := by decide
  end_lt := by decide
  bits := fun _ => 0#64
  pages := fun _ => MmPage.zero
  zones := fun _ => MmZone.zero
  nullZone := MmZone.zero

theorem lowBoot_ordered : Ordered lowBoot.e820 := ⟨by decide, by decide⟩

theorem lowBoot_kernelFits : KernelFits lowBoot :=
  ⟨by decide, ⟨0x2000000#64, 0x100000#64, 1#32⟩, by decide, by decide, by decide, by decide⟩

theorem initMemory_post_lowBoot :
    ∃ z, ((initMemory lowBoot).pages 258).zone = some z ∧
      ((initMemory lowBoot).zones z).Contains 0x102000 := by
  obtain ⟨-, -, h⟩ := initMemory_post lowBoot lowBoot_ordered lowBoot_kernelFits
  have hav : Available lowBoot.e820 258 :=
    ⟨⟨0x102000#64, 0xe000#64, 1#32⟩, by decide, by decide, by unfold E820.HasPage; decide⟩
  obtain ⟨-, z, hz, -, hc, -⟩ := h 258 hav
  exact ⟨z, hz, hc⟩

end HelloOS.Mm
