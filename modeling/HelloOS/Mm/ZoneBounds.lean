/-
  When an allocation stays in the selected zone.

  The block of a call starts at page `a + shift - 1`, where `a` is the least window of the
  first zone that serves. Nothing compares it with the zone: at the first bit of an aligned
  zone it starts one page in front, and behind an offset of 2 or more it is moved up and may
  run over the zone's end. `inSelectedZone_iff_run` is the exact condition, over whole runs
  from every state `init_memory` leaves for an ordered map.
-/
import HelloOS.Mm.NoDouble

namespace HelloOS.Mm

open HelloOS.Lib

variable {s : MmState} {c : AllocCall}

/-! ## One call -/

/-- If the call succeeds, the pages it initialises lie in one zone of the range, and below
    `pages_size`. -/
def InSelectedZone (s : MmState) (c : AllocCall) : Prop :=
  ∀ page, (c.run s).1 = some page →
    (∃ y ∈ zoneIndices s.gmdsc c.zoneSelect, ∀ i ∈ blockPages page c.n, (s.zones y).Has i) ∧
    ∀ i ∈ blockPages page c.n, i < s.gmdsc.pagesSize.toNat

/-- With `a` the least window of the first zone of the range that serves: some zone of the
    range starts below page `a + shift` and ends at or behind page `a + shift + n - 1`. -/
def ShiftFits (s : MmState) (c : AllocCall) : Prop :=
  ∀ i a, IsLeast {i | i ∈ zoneIndices s.gmdsc c.zoneSelect ∧ s.Serves c.n i} i →
    IsLeast ((s.zones i).windows s.bits c.n) a →
    ∃ y ∈ zoneIndices s.gmdsc c.zoneSelect,
      pageNumber (s.zones y).zoneStartAddr < a + (s.zones i).shift a ∧
      a + (s.zones i).shift a + c.n ≤ pageNumber (s.zones y).zoneEndAddr + 1

theorem MmZone.Reaches.lt {z : MmZone} {a : Nat} (h : z.Reaches a) : a < 2 ^ 52 + 64 := by
  have h1 := pageNumber_lt z.zoneStartAddr
  have h2 := pageNumber_lt z.zoneEndAddr
  unfold MmZone.Reaches Mm.Reaches at h
  omega

theorem MmZone.shift_lt (z : MmZone) (a : Nat) : z.shift a < 64 := by
  unfold MmZone.shift
  split <;> omega

/-- The block behind a shifted window lies in a zone exactly when the shifted window is above
    the zone's first page and ends at most one page behind it. -/
theorem block_in_zone_iff (z : MmZone) {n m : Nat} (hpos : 1 ≤ n) (hm : m < 2 ^ 53)
    (hn : n ≤ 64) :
    (∀ i ∈ blockPages ((m + (2 ^ 64 - 1)) % 2 ^ 64) n, z.Has i) ↔
      pageNumber z.zoneStartAddr < m ∧ m + n ≤ pageNumber z.zoneEndAddr + 1 := by
  have hend := pageNumber_lt z.zoneEndAddr
  unfold MmZone.Has
  constructor
  · intro h
    have hfirst := h _ (mem_blockPages.mpr ⟨0, hpos, rfl⟩)
    have hlast := h _ (mem_blockPages.mpr ⟨n - 1, by omega, rfl⟩)
    omega
  · rintro ⟨hlo, hhi⟩ i hi
    obtain ⟨l, hl, rfl⟩ := mem_blockPages.mp hi
    omega

/-- In a state whose zones end below `pages_size`, one call stays in its zone exactly when its
    shifted window fits. -/
theorem inSelectedZone_iff (hok : c.Ok)
    (hsize : ∀ y ∈ zoneIndices s.gmdsc c.zoneSelect, ∀ i, (s.zones y).Has i →
      i < s.gmdsc.pagesSize.toNat) : InSelectedZone s c ↔ ShiftFits s c := by
  constructor
  · intro h i a hi ha
    have hm : a + (s.zones i).shift a < 2 ^ 53 := by
      have := ha.1.1.lt
      have := (s.zones i).shift_lt a
      omega
    cases hrun : (c.run s).1 with
    | none => exact absurd hi.1.2 ((run_none_iff hok.le).mp hrun i hi.1.1)
    | some page =>
        obtain ⟨i', a', hi', ha', hpage⟩ := run_some hok.le hrun
        obtain rfl := hi.unique hi'
        obtain rfl := ha.unique ha'
        obtain ⟨⟨y, hy, hhas⟩, -⟩ := h page hrun
        rw [hpage] at hhas
        exact ⟨y, hy, (block_in_zone_iff _ hok.pos hm hok.le).mp hhas⟩
  · intro h page hrun
    obtain ⟨i, a, hi, ha, hpage⟩ := run_some hok.le hrun
    have hm : a + (s.zones i).shift a < 2 ^ 53 := by
      have := ha.1.1.lt
      have := (s.zones i).shift_lt a
      omega
    obtain ⟨y, hy, hfits⟩ := h i a hi ha
    have hhas := (block_in_zone_iff (s.zones y) hok.pos hm hok.le).mpr hfits
    rw [← hpage] at hhas
    exact ⟨⟨y, hy, hhas⟩, fun k hk => hsize y hy k (hhas k hk)⟩

/-! ## Whole runs -/

/-- `gmdsc`, and the interval of every zone, are the same. -/
structure SameZones (s t : MmState) : Prop where
  gmdsc : t.gmdsc = s.gmdsc
  has : ∀ y i, (t.zones y).Has i ↔ (s.zones y).Has i

theorem sameZones_run {s₀ s : MmState} (h : SameZones s₀ s) (c : AllocCall) :
    SameZones s₀ (c.run s).2 :=
  run_induction (P := SameZones s₀) (fun t i h => ⟨(pageInit_gmdsc t i c.flags).trans h.gmdsc,
    fun y k => (pageInit_has t i c.flags y k).trans (h.has y k)⟩) h

/-- The indices a call goes through are indices of zones, when there is one. -/
theorem mem_zoneIndices_lt {g : Gmdsc} {zoneSelect : Int} {i : Nat}
    (hpos : 1 ≤ g.zonesSize.toNat) (hsize : g.zonesSize.toNat < 2 ^ 31)
    (hi : i ∈ zoneIndices g zoneSelect) : i < g.zonesSize.toNat := by
  have hlast : ((g.zonesSize - 1#64).setWidth 32).toInt = (g.zonesSize.toNat - 1 : Nat) := by
    have hsub : (g.zonesSize - 1#64).toNat = g.zonesSize.toNat - 1 := by bv_omega
    have hn : ((g.zonesSize - 1#64).setWidth 32).toNat = g.zonesSize.toNat - 1 := by
      rw [BitVec.toNat_setWidth, hsub]
      exact Nat.mod_eq_of_lt (by omega)
    rw [BitVec.toInt_eq_toNat_of_lt (by omega), hn]
  unfold zoneIndices zoneRange at hi
  rw [hlast] at hi
  split_ifs at hi
  all_goals simp [zoneDmaIndex, zoneNormalIndex, zoneUnmapedIndex] at hi
  all_goals omega

theorem Boot.zoneCount_pos {b : Boot} (hk : KernelFits b) : 1 ≤ b.zoneCount := by
  obtain ⟨e, he, ht, -, -⟩ := hk.inside
  exact List.countP_pos_iff.mpr ⟨e, he, by simpa using ht⟩

/-- **When allocation stays in the selected zone.** From the state `init_memory` leaves for an
    ordered map that the kernel fits, in every run of calls: every block lies in one zone of
    its call's range, and below `pages_size`, exactly when at every call the shifted window
    fits a zone of the range. -/
theorem inSelectedZone_iff_run (b : Boot) (hm : Ordered b.e820) (hk : KernelFits b)
    (cs : List AllocCall) (hok : ∀ c ∈ cs, c.Ok) :
    EveryCall InSelectedZone (initMemory b) cs ↔ EveryCall ShiftFits (initMemory b) cs := by
  obtain ⟨-, -, -, -, -, hps, -, hzs, -⟩ := initStructs_sizes b
  have hZ := b.zoneCount_le
  have hpos := Boot.zoneCount_pos hk
  refine everyCall_congr (I := SameZones (initMemory b)) (fun s c h => sameZones_run h c) cs
    (fun s hs c hc => inSelectedZone_iff (hok c hc) fun y hy i hi => ?_)
    ⟨rfl, fun _ _ => Iff.rfl⟩
  rw [hs.gmdsc, initMemory_gmdsc] at hy ⊢
  have hylt := mem_zoneIndices_lt (by omega) (by omega) hy
  rw [hzs] at hylt
  rw [hs.has, initMemory_eq, initPages_has, zoneState_has b hylt] at hi
  obtain ⟨hx, hhas⟩ := hi
  rw [hps]
  exact Nat.lt_of_lt_of_le hhas.2 (extent_le_totalPages hm (List.getElem_mem hx))

theorem inSelectedZone_iff_run_lowBoot :
    EveryCall InSelectedZone (initMemory lowBoot) [onePage] := by
  have hok : onePage.Ok := ⟨by decide, by decide, by decide⟩
  refine (inSelectedZone_iff_run lowBoot lowBoot_ordered lowBoot_kernelFits [onePage]
    (by simp [hok])).mpr ⟨fun i a hi ha => ?_, trivial⟩
  have hw := onePage_firstWindow (accounted_initMemory lowBoot_ordered lowBoot_kernelFits)
    lowBoot_zonesSize lowBoot_zone.1 lowBoot_zone.2
    (lowBoot_free (i := 258) (by decide) (by decide))
  obtain ⟨i', a', hi', ha', hpage, hshift⟩ :=
    firstWindow_isLeast (by decide) (zoneIndices_pairwise _ _) hw
  obtain rfl := hi.unique hi'
  obtain rfl := ha.unique ha'
  have hmem := hi.1.1
  rw [onePage, zoneIndices_normal, List.mem_singleton] at hmem
  refine ⟨i, hi.1.1, ?_⟩
  rw [← hshift, hmem, lowBoot_zone.1, lowBoot_zone.2]
  decide

/-! ### The page in front of page 0 -/

/-- 636 KB of low memory, and memory from 1 MB on that holds the kernel. -/
def pcBoot : Boot :=
  { lowBoot with
    e820 := [⟨0#64, 0x9f000#64, 1#32⟩, ⟨0x100000#64, 0x7ef0000#64, 1#32⟩]
    e820_le := by decide }

theorem pcBoot_ordered : Ordered pcBoot.e820 := ⟨by decide, by decide⟩

theorem pcBoot_kernelFits : KernelFits pcBoot :=
  ⟨by decide, ⟨0x100000#64, 0x7ef0000#64, 1#32⟩, by decide, by decide, by decide, by decide⟩

theorem pcBoot_zone : ((initMemory pcBoot).zones 0).zoneStartAddr = 0#64 ∧
    ((initMemory pcBoot).zones 0).zoneEndAddr = 0x9f000#64 := by
  obtain ⟨hs, he⟩ := initMemory_zone pcBoot (k := 0) (by decide)
  exact ⟨hs.trans (by rfl), he.trans (by rfl)⟩

theorem pcBoot_free {i : Nat} (hi : i < 0x9f) : (initMemory pcBoot).bits.get i = false := by
  have hstart : pcBoot.startKernel.toNat = 0x2000000 := rfl
  refine initMemory_free pcBoot_ordered pcBoot_kernelFits ?_ (by omega)
  exact ⟨⟨0#64, 0x9f000#64, 1#32⟩, by decide, by decide, by
    change 0 ≤ 4096 * i ∧ 4096 * (i + 1) ≤ 0x9f000
    omega⟩

/-- The first zone serves a call for one page, and its least window is at page 0. -/
theorem pcBoot_serves : (initMemory pcBoot).Serves 1 0 ∧
    IsLeast (((initMemory pcBoot).zones 0).windows (initMemory pcBoot).bits 1) 0 := by
  have hmem : 0 ∈ ((initMemory pcBoot).zones 0).windows (initMemory pcBoot).bits 1 := by
    refine ⟨?_, fun l hl => ?_⟩
    · unfold MmZone.Reaches
      rw [pcBoot_zone.1, pcBoot_zone.2]
      decide
    · exact ⟨pcBoot_free (by omega), fun _ => pcBoot_free (by omega)⟩
  refine ⟨⟨?_, 0, hmem⟩, hmem, fun a _ => Nat.zero_le a⟩
  have hcard := initMemory_card_le_free pcBoot_ordered pcBoot_kernelFits (z := 0) (t := {0})
    (by decide)
    (fun i hi => by
      rw [Finset.mem_singleton.mp hi, MmZone.Has, pcBoot_zone.1, pcBoot_zone.2]
      decide)
    fun i hi => by
      rw [Finset.mem_singleton.mp hi]
      exact pcBoot_free (by decide)
  rwa [Finset.card_singleton] at hcard

/-- The first call for one page returns `pages_struct - 1`. -/
theorem not_inSelectedZone_pcBoot :
    (onePage.run (initMemory pcBoot)).1 = some (2 ^ 64 - 1) ∧
      ¬ EveryCall InSelectedZone (initMemory pcBoot) [onePage] := by
  obtain ⟨hserves, hleast⟩ := pcBoot_serves
  have hzone : 0 ∈ zoneIndices (initMemory pcBoot).gmdsc onePage.zoneSelect := by
    rw [onePage, zoneIndices_normal]
    exact List.mem_singleton_self 0
  have hrun : (onePage.run (initMemory pcBoot)).1 = some (2 ^ 64 - 1) := by
    cases h : (onePage.run (initMemory pcBoot)).1 with
    | none => exact absurd hserves ((run_none_iff (by decide)).mp h 0 hzone)
    | some page =>
        obtain ⟨i, a, hi, ha, hpage⟩ := run_some (by decide) h
        have hmem := hi.1.1
        rw [onePage, zoneIndices_normal, List.mem_singleton] at hmem
        subst hmem
        obtain rfl := ha.unique hleast
        rw [hpage, MmZone.shift, pcBoot_zone.1]
        rfl
  refine ⟨hrun, fun h => ?_⟩
  obtain ⟨⟨y, -, hhas⟩, -⟩ := h.1 _ hrun
  have hlast := hhas (2 ^ 64 - 1) (mem_blockPages.mpr ⟨0, by decide, by decide⟩)
  have hlt := pageNumber_lt ((initMemory pcBoot).zones y).zoneEndAddr
  have := hlast.2
  omega

end HelloOS.Mm
