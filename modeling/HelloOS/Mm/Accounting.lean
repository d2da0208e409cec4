/-
  Page accounting: a zone's counters against its pages.

  `ZoneAccounted s z` is the invariant of one zone record: `page_using_count` is the
  number of its pages with an attribute, `page_free_count` the number of its pages whose
  bit is clear, the two add up to `pages_length`, `total_pages_link` is the (64-bit) sum of
  the `ref_count`s, and a page's bit is set exactly when its attribute is non-zero.
  `page_init` of a page of the zone keeps it (`zoneAccounted_own`), `page_init` of a page
  elsewhere does not touch it (`zoneAccounted_other`). `Accounted` adds what tells the two
  apart, that every zone page points to its zone and carries its own number.
-/
import HelloOS.Lib.Count
import HelloOS.Mm.InitSpec
import Mathlib.Order.Interval.Finset.Nat

namespace HelloOS.Mm

open HelloOS.Lib

/-- The page numbers of a zone. -/
def MmZone.pageSet (z : MmZone) : Finset Nat :=
  Finset.Ico (pageNumber z.zoneStartAddr) (pageNumber z.zoneEndAddr)

@[simp] theorem MmZone.mem_pageSet {z : MmZone} {i : Nat} : i ∈ z.pageSet ↔ z.Has i := by
  simp [MmZone.pageSet, MmZone.Has]

/-- A zone's counters and its pages agree. -/
structure ZoneAccounted (s : MmState) (z : MmZone) : Prop where
  using_ : z.pageUsingCount.toNat = (z.pageSet.filter fun i => (s.pages i).attr ≠ 0#64).card
  free : z.pageFreeCount.toNat = (z.pageSet.filter fun i => s.bits.get i = false).card
  total : z.pageUsingCount.toNat + z.pageFreeCount.toNat = z.pagesLength.toNat
  links : z.totalPagesLink = ∑ i ∈ z.pageSet, (s.pages i).refCount
  marked : ∀ i ∈ z.pageSet, s.bits.get i = true ↔ (s.pages i).attr ≠ 0#64

/-- A free page is counted: `page_free_count` is at least 1, so taking the page does not
    underflow it. -/
theorem ZoneAccounted.free_pos {s : MmState} {z : MmZone} (h : ZoneAccounted s z) {i : Nat}
    (hi : i ∈ z.pageSet) (h0 : (s.pages i).attr = 0#64) : 1 ≤ z.pageFreeCount.toNat := by
  rw [h.free]
  refine Finset.card_pos.mpr ⟨i, Finset.mem_filter.mpr ⟨hi, ?_⟩⟩
  have := (h.marked i hi).not.mpr (by simp [h0])
  simpa using this

/-- `page_free_count` is at least the number of any free pages of the zone. -/
theorem ZoneAccounted.card_le_free {s : MmState} {z : MmZone} (h : ZoneAccounted s z)
    {t : Finset Nat} (ht : t ⊆ z.pageSet) (hfree : ∀ i ∈ t, s.bits.get i = false) :
    t.card ≤ z.pageFreeCount.toNat := by
  rw [h.free]
  exact Finset.card_le_card fun i hi => Finset.mem_filter.mpr ⟨ht hi, hfree i hi⟩

variable {s : MmState} {z : MmZone} {i : Nat} {flags : U64}

/-- Off `i`, `page_init` of page `i` changes no struct. -/
theorem pageInit_page_of_ne {j : Nat} (h : j ≠ i) : (pageInit s i flags).pages j = s.pages j := by
  rw [pageInit_pages, Function.update_of_ne h]

theorem pageInit_attr_self : ((pageInit s i flags).pages i).attr = (s.pages i).attr ||| flags := by
  rw [pageInit_pages, Function.update_self]
  rfl

theorem pageInit_refCount_self :
    ((pageInit s i flags).pages i).refCount = (s.pages i).refCount + links (s.pages i) flags := by
  rw [pageInit_pages, Function.update_self]
  rfl

theorem or_ne_zero_of_right {a f : U64} (h : f ≠ 0#64) : a ||| f ≠ 0#64 := by
  intro h0
  exact h (BitVec.or_eq_zero_iff.mp h0).2

/-- `page_init` of a page outside the zone. -/
theorem zoneAccounted_other (h : ZoneAccounted s z) (hi : i ∉ z.pageSet)
    (hn : pageNumber (s.pages i).phyAddr = i) : ZoneAccounted (pageInit s i flags) z := by
  have hp : ∀ j ∈ z.pageSet, (pageInit s i flags).pages j = s.pages j := fun j hj =>
    pageInit_page_of_ne fun hji => hi (hji ▸ hj)
  have hb : ∀ j ∈ z.pageSet, (pageInit s i flags).bits.get j = s.bits.get j := fun j hj =>
    pageInit_bit_of_ne s i flags fun hji => hi (by rw [hn] at hji; exact hji ▸ hj)
  constructor
  · rw [h.using_]
    exact congrArg Finset.card (Finset.filter_congr fun j hj => by rw [hp j hj])
  · rw [h.free]
    exact congrArg Finset.card (Finset.filter_congr fun j hj => by rw [hb j hj])
  · exact h.total
  · rw [h.links]
    exact Finset.sum_congr rfl fun j hj => by rw [hp j hj]
  · intro j hj
    rw [hp j hj, hb j hj]
    exact h.marked j hj

theorem MmZone.inited_pageSet (page : MmPage) : (z.inited page flags).pageSet = z.pageSet := rfl

/-- The bit of a page of the zone after `page_init` of that page. -/
theorem bit_self_of_marked (h : ZoneAccounted s z) (hi : i ∈ z.pageSet)
    (hn : pageNumber (s.pages i).phyAddr = i) : (pageInit s i flags).bits.get i = true := by
  rw [pageInit_bits]
  split
  · exact (h.marked i hi).mpr (by tauto)
  · rw [hn]
    exact Bitmap.get_set_self _ _

/-- Of the pages of the zone, one more is used when the page was free. -/
theorem card_used_own (hi : i ∈ z.pageSet) (hf : flags ≠ 0#64) :
    (z.pageSet.filter fun j => ((pageInit s i flags).pages j).attr ≠ 0#64).card =
      (z.pageSet.filter fun j => (s.pages j).attr ≠ 0#64).card + (takes (s.pages i)).toNat := by
  have hattr : ((pageInit s i flags).pages i).attr ≠ 0#64 := by
    rw [pageInit_attr_self]
    exact or_ne_zero_of_right hf
  by_cases h0 : (s.pages i).attr = 0#64
  · rw [takes, if_pos h0]
    exact card_filter_gain hi (by simp [h0]) hattr fun j _ hji => by rw [pageInit_page_of_ne hji]
  · rw [takes, if_neg h0]
    refine congrArg Finset.card (Finset.filter_congr fun j _ => ?_)
    by_cases hji : j = i
    · rw [hji]
      exact iff_of_true hattr h0
    · rw [pageInit_page_of_ne hji]

/-- And one fewer is free. -/
theorem card_free_own (flags : U64) (h : ZoneAccounted s z) (hi : i ∈ z.pageSet)
    (hn : pageNumber (s.pages i).phyAddr = i) :
    (z.pageSet.filter fun j => s.bits.get j = false).card =
      (z.pageSet.filter fun j => (pageInit s i flags).bits.get j = false).card +
        (takes (s.pages i)).toNat := by
  have hb : ∀ j, j ≠ i → (pageInit s i flags).bits.get j = s.bits.get j := fun j hji =>
    pageInit_bit_of_ne s i flags fun hij => hji (by rw [← hij, hn])
  have hbit : (pageInit s i flags).bits.get i = true := bit_self_of_marked h hi hn
  by_cases h0 : (s.pages i).attr = 0#64
  · have hclear : s.bits.get i = false := by
      have := (h.marked i hi).not.mpr (by simp [h0])
      simpa using this
    rw [takes, if_pos h0]
    exact card_filter_gain hi (by simp [hbit]) hclear fun j _ hji => by rw [hb j hji]
  · have hset : s.bits.get i = true := (h.marked i hi).mpr h0
    rw [takes, if_neg h0]
    refine congrArg Finset.card (Finset.filter_congr fun j _ => ?_)
    by_cases hji : j = i
    · rw [hji, hset, hbit]
    · rw [hb j hji]

/-- `page_init` of a page of the zone: the counters move with the pages. -/
theorem zoneAccounted_own (h : ZoneAccounted s z) (hi : i ∈ z.pageSet)
    (hn : pageNumber (s.pages i).phyAddr = i) (hf : flags ≠ 0#64) :
    ZoneAccounted (pageInit s i flags) (z.inited (s.pages i) flags) := by
  have hused := card_used_own (s := s) hi hf
  have hfree := card_free_own flags h hi hn
  have hcard : z.pageSet.card < 2 ^ 64 := by
    have := pageNumber_lt z.zoneEndAddr
    simp only [MmZone.pageSet, Nat.card_Ico]
    omega
  have hle := Finset.card_filter_le z.pageSet
    fun j => ((pageInit s i flags).pages j).attr ≠ 0#64
  have husing' : (z.pageUsingCount + takes (s.pages i)).toNat =
      z.pageUsingCount.toNat + (takes (s.pages i)).toNat := by
    have := h.using_
    rw [BitVec.toNat_add]
    exact Nat.mod_eq_of_lt (by omega)
  have hfree' : (z.pageFreeCount - takes (s.pages i)).toNat =
      z.pageFreeCount.toNat - (takes (s.pages i)).toNat := by
    have := h.free
    exact BitVec.toNat_sub_of_le (BitVec.le_def.mpr (by omega))
  constructor
  · change (z.pageUsingCount + takes (s.pages i)).toNat = _
    rw [husing', h.using_, MmZone.inited_pageSet, hused]
  · change (z.pageFreeCount - takes (s.pages i)).toNat = _
    rw [hfree', h.free, MmZone.inited_pageSet, hfree, Nat.add_sub_cancel]
  · change (z.pageUsingCount + takes (s.pages i)).toNat +
      (z.pageFreeCount - takes (s.pages i)).toNat = z.pagesLength.toNat
    have := h.free
    rw [husing', hfree', ← h.total]
    omega
  · have hsum := sum_change (f := fun j => (s.pages j).refCount)
      (g := fun j => ((pageInit s i flags).pages j).refCount) hi pageInit_refCount_self
      fun j _ hji => by rw [pageInit_page_of_ne hji]
    rw [MmZone.inited_pageSet, hsum, ← h.links]
    rfl
  · intro j hj
    by_cases hji : j = i
    · have hbit : (pageInit s i flags).bits.get i = true := bit_self_of_marked h hi hn
      rw [hji, hbit, pageInit_attr_self]
      exact iff_of_true rfl (or_ne_zero_of_right hf)
    · rw [pageInit_page_of_ne hji,
        pageInit_bit_of_ne s i flags fun hij => hji (by rw [← hij, hn])]
      exact h.marked j hj

/-! ## All zones -/

/-- Every zone is accounted for; every zone page points to its zone and carries its own
    number. -/
structure Accounted (s : MmState) : Prop where
  zones : ∀ z, z < s.gmdsc.zonesSize.toNat → ZoneAccounted s (s.zones z)
  owner : ∀ z, z < s.gmdsc.zonesSize.toNat → ∀ i, (s.zones z).Has i → (s.pages i).zone = some z
  number : ∀ i, s.InZone i → pageNumber (s.pages i).phyAddr = i

/-- `page_init` of a zone page keeps the accounts. -/
theorem accounted_pageInit (h : Accounted s) (hi : s.InZone i) (hf : flags ≠ 0#64) :
    Accounted (pageInit s i flags) := by
  constructor
  · intro z hz
    rw [pageInit_gmdsc] at hz
    have hown := h.owner z hz i
    rw [pageInit_zones]
    by_cases hzi : (s.pages i).zone = some z
    · rw [if_pos hzi]
      obtain ⟨y, hy, hyi⟩ := hi
      have hyz : y = z := by
        have := h.owner y hy i hyi
        rw [hzi] at this
        exact (Option.some.inj this).symm
      subst hyz
      exact zoneAccounted_own (h.zones y hz) (MmZone.mem_pageSet.mpr hyi)
        (h.number i ⟨y, hy, hyi⟩) hf
    · rw [if_neg hzi]
      exact zoneAccounted_other (h.zones z hz) (fun hin => hzi (hown (MmZone.mem_pageSet.mp hin)))
        (h.number i hi)
  · intro z hz j hj
    rw [pageInit_gmdsc] at hz
    rw [pageInit_has] at hj
    rw [pageInit_page_zone]
    exact h.owner z hz j hj
  · intro j hj
    rw [pageInit_inZone] at hj
    rw [pageInit_phyAddr]
    exact h.number j hj

/-- A run of `page_init` calls: page indices with their flags. -/
def pageInits (s : MmState) (calls : List (Nat × U64)) : MmState :=
  calls.foldl (fun s c => pageInit s c.1 c.2) s

/-- A run of `page_init` on zone pages with non-zero flags keeps the accounts. -/
theorem accounted_pageInits (h : Accounted s) (calls : List (Nat × U64))
    (hc : ∀ c ∈ calls, s.InZone c.1 ∧ c.2 ≠ 0#64) : Accounted (pageInits s calls) := by
  induction calls generalizing s with
  | nil => exact h
  | cons c calls ih =>
      obtain ⟨hin, hf⟩ := hc c List.mem_cons_self
      refine ih (accounted_pageInit h hin hf) fun d hd => ?_
      rw [pageInit_inZone]
      exact hc d (List.mem_cons_of_mem c hd)

@[simp] theorem pageInits_gmdsc (calls : List (Nat × U64)) :
    (pageInits s calls).gmdsc = s.gmdsc := by
  induction calls generalizing s with
  | nil => rfl
  | cons c calls ih => exact (ih (s := pageInit s c.1 c.2)).trans (pageInit_gmdsc s c.1 c.2)

theorem pageInits_inZone (calls : List (Nat × U64)) :
    (pageInits s calls).InZone i ↔ s.InZone i := by
  induction calls generalizing s with
  | nil => exact Iff.rfl
  | cons c calls ih => exact (ih (s := pageInit s c.1 c.2)).trans (pageInit_inZone s c.1 c.2 i)

theorem initPages_eq_pageInits (l : List Nat) :
    initPages s flags l = pageInits s (l.map fun i => (i, flags)) := by
  unfold initPages pageInits
  rw [List.foldl_map]

/-! ## The start -/

variable {b : Boot}

theorem zonesSize_zoneState : b.zoneState.gmdsc.zonesSize.toNat = b.zoneCount := by
  rw [zoneState_gmdsc]
  exact (initStructs_sizes b).2.2.2.2.2.2.2.1

/-- The zone loop leaves every zone all free. -/
theorem accounted_zoneState (hm : Ordered b.e820) : Accounted b.zoneState := by
  obtain ⟨-, hzone, hzero, -, -⟩ := zoneState_spec b
  have hpage : ∀ z, z < b.zoneCount → ∀ i, (b.zoneState.zones z).Has i →
      b.zoneState.pages i = freshPage z i ∧ b.zoneState.bits.get i = false := by
    intro z hz i hi
    obtain ⟨hk, hx⟩ := (zoneState_has b hz).mp hi
    have hav : Available b.e820 i := (mem_extents_has hm i).mp ⟨_, List.getElem_mem hk, hx⟩
    obtain ⟨y, hy, hp, -, -, huniq⟩ := zoneState_page hm hav
    have hlt : i < b.totalPages :=
      Nat.lt_of_lt_of_le hx.2 (extent_le_totalPages hm (List.getElem_mem hk))
    exact ⟨by rw [hp, huniq z hz hi], (zoneState_bit hm hlt).mpr hav⟩
  have hcount : ∀ z, z < b.zoneCount → (b.zoneState.zones z).pageUsingCount = 0#64 ∧
      (b.zoneState.zones z).totalPagesLink = 0#64 ∧
      (b.zoneState.zones z).pageFreeCount = (b.zoneState.zones z).pagesLength ∧
      (b.zoneState.zones z).pageFreeCount.toNat = (b.zoneState.zones z).pageSet.card := by
    intro z hz
    by_cases hk : z < b.extents.length
    · rw [hzone z hk]
      refine ⟨rfl, rfl, rfl, ?_⟩
      rw [MmZone.pageSet, Nat.card_Ico]
      exact (b.extents[z]).pagesLength
    · rw [hzero z (by omega) hz]
      refine ⟨rfl, rfl, rfl, ?_⟩
      rw [MmZone.pageSet, Nat.card_Ico]
      rfl
  constructor
  · intro z hz
    rw [zonesSize_zoneState] at hz
    obtain ⟨hu, hl, hfl, hfc⟩ := hcount z hz
    have hp := fun i hi => hpage z hz i (MmZone.mem_pageSet.mp hi)
    constructor
    · rw [hu, Finset.filter_false_of_mem fun i hi => by simp [(hp i hi).1, freshPage]]
      rfl
    · rw [hfc, Finset.filter_true_of_mem fun i hi => (hp i hi).2]
    · rw [hu, hfl]
      exact Nat.zero_add _
    · rw [hl, Finset.sum_congr rfl fun i hi => show _ = 0#64 by simp [(hp i hi).1, freshPage]]
      exact (Finset.sum_const_zero).symm
    · intro i hi
      simp [(hp i hi).1, (hp i hi).2, freshPage]
  · intro z hz i hi
    rw [zonesSize_zoneState] at hz
    rw [(hpage z hz i hi).1]
    rfl
  · exact (consistent_zoneState b).number

/-- The kernel-marking loop keeps the accounts of a map the kernel fits. -/
theorem accounted_initMemory (hm : Ordered b.e820) (hk : KernelFits b) :
    Accounted (initMemory b) := by
  rw [initMemory_eq, initPages_eq_pageInits]
  refine accounted_pageInits (accounted_zoneState hm) _ fun c hc => ?_
  obtain ⟨i, hi, rfl⟩ := List.mem_map.mp hc
  exact ⟨(zoneState_inZone_iff hm i).mpr (hk.available hm hi), show kernelFlags ≠ 0#64 by decide⟩

/-- So a zone's `page_free_count` is at least the number of any free pages of it. -/
theorem initMemory_card_le_free (hm : Ordered b.e820) (hk : KernelFits b) {z : Nat}
    (hz : z < b.zoneCount) {t : Finset Nat} (ht : ∀ i ∈ t, ((initMemory b).zones z).Has i)
    (hfree : ∀ i ∈ t, (initMemory b).bits.get i = false) :
    t.card ≤ ((initMemory b).zones z).pageFreeCount.toNat := by
  have hsize := initMemory_zonesSize b
  refine ((accounted_initMemory hm hk).zones z (by omega)).card_le_free (fun i hi => ?_) hfree
  exact MmZone.mem_pageSet.mpr (ht i hi)

/-! ## The sum of the reference counts -/

/-- Each `page_init` adds at most 1 to the sum of a set's `ref_count`s, wrapped or not. -/
theorem sum_refCount_le (t : Finset Nat) (calls : List (Nat × U64)) (s : MmState) :
    ∑ j ∈ t, ((pageInits s calls).pages j).refCount.toNat ≤
      ∑ j ∈ t, (s.pages j).refCount.toNat + calls.length := by
  induction calls generalizing s with
  | nil => exact Nat.le_refl _
  | cons c calls ih =>
      refine Nat.le_trans (ih (pageInit s c.1 c.2)) ?_
      have hone : ∑ j ∈ t, ((pageInit s c.1 c.2).pages j).refCount.toNat ≤
          ∑ j ∈ t, (s.pages j).refCount.toNat + 1 := by
        have hle : ((pageInit s c.1 c.2).pages c.1).refCount.toNat ≤
            (s.pages c.1).refCount.toNat + 1 := by
          rw [pageInit_refCount_self, BitVec.toNat_add]
          have h1 : (links (s.pages c.1) c.2).toNat ≤ 1 := by
            unfold links
            split <;> decide
          exact Nat.le_trans (Nat.mod_le _ _) (by omega)
        by_cases hct : c.1 ∈ t
        · rw [← Finset.add_sum_erase t _ hct, ← Finset.add_sum_erase t (fun j =>
            (s.pages j).refCount.toNat) hct]
          have : ∑ j ∈ t.erase c.1, ((pageInit s c.1 c.2).pages j).refCount.toNat =
              ∑ j ∈ t.erase c.1, (s.pages j).refCount.toNat :=
            Finset.sum_congr rfl fun j hj => by
              rw [pageInit_page_of_ne (Finset.ne_of_mem_erase hj)]
          omega
        · refine Nat.le_trans (Nat.le_of_eq (Finset.sum_congr rfl fun j hj => ?_)) (Nat.le_succ _)
          rw [pageInit_page_of_ne fun h => hct (by rw [← h]; exact hj)]
      simp only [List.length_cons]
      omega

/-! ## The invariant over runs -/

/-- **Page accounting.** From the state the zone loop builds for an ordered map, after any
    run of `page_init` on zone pages with non-zero flags, every zone is accounted for; a
    zone with a free page has a non-zero `page_free_count`; and `total_pages_link` is the sum of
    the `ref_count`s as numbers, modulo 2^64, which in a run of fewer calls changes nothing: the
    sum is not more than there are calls. -/
theorem pageInits_accounted (b : Boot) (hm : Ordered b.e820) (calls : List (Nat × U64))
    (hc : ∀ c ∈ calls, b.zoneState.InZone c.1 ∧ c.2 ≠ 0#64) :
    let s := pageInits b.zoneState calls
    ∀ z, z < s.gmdsc.zonesSize.toNat →
      ZoneAccounted s (s.zones z) ∧
      (∀ i ∈ (s.zones z).pageSet, (s.pages i).attr = 0#64 →
        1 ≤ (s.zones z).pageFreeCount.toNat) ∧
      (s.zones z).totalPagesLink.toNat =
        (∑ i ∈ (s.zones z).pageSet, (s.pages i).refCount.toNat) % 2 ^ 64 ∧
      ∑ i ∈ (s.zones z).pageSet, (s.pages i).refCount.toNat ≤ calls.length := by
  intro s z hz
  have hs : Accounted s := accounted_pageInits (accounted_zoneState hm) calls hc
  have h := hs.zones z hz
  refine ⟨h, fun i hi h0 => h.free_pos hi h0, by rw [h.links, toNat_sum], ?_⟩
  have hle := sum_refCount_le (s.zones z).pageSet calls b.zoneState
  have h0 : ∑ j ∈ (s.zones z).pageSet, (b.zoneState.pages j).refCount.toNat = 0 := by
    refine Finset.sum_eq_zero fun j hj => ?_
    have hin : s.InZone j := ⟨z, hz, MmZone.mem_pageSet.mp hj⟩
    obtain ⟨y, -, hp, -⟩ := zoneState_page hm
      ((zoneState_inZone_iff hm j).mp ((pageInits_inZone calls).mp hin))
    rw [hp]
    rfl
  rwa [h0, Nat.zero_add] at hle

theorem pageInits_accounted_lowBoot :
    ∃ z, ZoneAccounted (pageInits lowBoot.zoneState [(258, 1#64), (258, pgReferenced)])
      ((pageInits lowBoot.zoneState [(258, 1#64), (258, pgReferenced)]).zones z) := by
  have hin : lowBoot.zoneState.InZone 258 := (zoneState_inZone_iff lowBoot_ordered 258).mpr
    ⟨⟨0x102000#64, 0xe000#64, 1#32⟩, by decide, by decide, by unfold E820.HasPage; decide⟩
  have hz : 0 < lowBoot.zoneState.gmdsc.zonesSize.toNat := by
    rw [zonesSize_zoneState]; decide
  refine ⟨0, (pageInits_accounted lowBoot lowBoot_ordered [(258, 1#64), (258, pgReferenced)] ?_
    0 ?_).1⟩
  · intro c hc
    simp only [List.mem_cons, List.not_mem_nil, or_false] at hc
    rcases hc with rfl | rfl
    · exact ⟨hin, by decide⟩
    · exact ⟨hin, by decide⟩
  · rw [pageInits_gmdsc]
    exact hz

end HelloOS.Mm
