/-
  What `construct_mem_struct` stores to, and when its tables cover it.

  Each function has its list of stores beside it, in the order of the source, and
  `constructMemStruct_unlogged` says that the lists are complete: what is not in the list is
  as it was. The zone loop stores to the struct and the bitmap word of every page of every
  extent (`mem_zoneLoopStores`); the kernel-marking loop stores to the struct of each of its
  pages, and to the word of the page number it finds there. The tables were sized by the last
  entry of the map alone, so they cover the stores exactly when no available page and no
  kernel page lies behind that entry's end (`metadata_covers_iff`).
-/
import HelloOS.Mm.InitSpec

namespace HelloOS.Mm

open HelloOS.Lib

/-! ## The stores -/

/-- A store to an element of `pages_struct`, of `page_bits`, or through a `mm_zone_t *`. -/
inductive Store where
  | page (i : Nat)
  | word (w : Nat)
  | zone (z : Option Nat)
  deriving DecidableEq

/-- The stores of `page_init`. -/
def pageInitStores (s : MmState) (i : Nat) (flags : U64) : List Store :=
  let page := s.pages i
  if page.attr = 0#64 then
    [.word (pageNumber page.phyAddr / 64), .page i, .zone page.zone]
  else if Shared page flags then [.page i, .zone page.zone]
  else [.word (pageNumber page.phyAddr / 64), .page i]

/-- The stores of `page_init` of each page of a list. -/
def initPagesStores (s : MmState) (flags : U64) : List Nat → List Store
  | [] => []
  | i :: is => pageInitStores s i flags ++ initPagesStores (pageInit s i flags) flags is

/-- One turn of the inner loop of `construct_mem_struct`. -/
def constructPageStores (start : U64) (j : Nat) : List Store :=
  [.page (pageNumber start + j),
    .word (pageNumber (start + page4kSize * BitVec.ofNat 64 j) / 64)]

/-- The body of the zone loop. -/
def constructZoneStores (z : Nat) (start end_ : U64) : List Store :=
  .zone (some z) ::
    (List.range (freshZone start end_).pagesLength.toNat).flatMap (constructPageStores start)

/-- One turn of the zone loop. -/
def constructStepStores (z : Nat) (e : E820) : List Store :=
  if e.type ≠ e820TypeAvailable then []
  else if e.end_ ≤ e.start then []
  else constructZoneStores z e.start e.end_

/-- The zone loop. -/
def zoneLoopStores (sz : MmState × Nat) : List E820 → List Store
  | [] => []
  | e :: es => constructStepStores sz.2 e ++ zoneLoopStores (constructStep sz e) es

/-- The stores of `construct_mem_struct`. -/
def constructMemStructStores (s : MmState) : List Store :=
  zoneLoopStores (s, 0) s.gmdsc.e820 ++
    initPagesStores (constructZones s) kernelFlags (kernelPages (constructZones s).gmdsc)

/-! ## The lists are complete -/

/-- `t` is `s` but for the elements in the list. -/
structure Unlogged (l : List Store) (s t : MmState) : Prop where
  pages : ∀ i, .page i ∉ l → t.pages i = s.pages i
  bits : ∀ w, .word w ∉ l → t.bits w = s.bits w
  zones : ∀ z, .zone (some z) ∉ l → t.zones z = s.zones z
  nullZone : .zone none ∉ l → t.nullZone = s.nullZone

theorem Unlogged.refl (l : List Store) (s : MmState) : Unlogged l s s :=
  ⟨fun _ _ => rfl, fun _ _ => rfl, fun _ _ => rfl, fun _ => rfl⟩

theorem Unlogged.append {l l' : List Store} {s t u : MmState} (h : Unlogged l s t)
    (h' : Unlogged l' t u) : Unlogged (l ++ l') s u := by
  have hnot : ∀ {x}, x ∉ l ++ l' → x ∉ l ∧ x ∉ l' := fun hx =>
    ⟨fun h => hx (List.mem_append_left _ h), fun h => hx (List.mem_append_right _ h)⟩
  constructor
  · intro i hi
    exact (h'.pages i (hnot hi).2).trans (h.pages i (hnot hi).1)
  · intro w hw
    exact (h'.bits w (hnot hw).2).trans (h.bits w (hnot hw).1)
  · intro z hz
    exact (h'.zones z (hnot hz).2).trans (h.zones z (hnot hz).1)
  · intro hz
    exact (h'.nullZone (hnot hz).2).trans (h.nullZone (hnot hz).1)

section PageInit

variable (s : MmState) (i : Nat) (flags : U64)

@[simp] theorem page_mem_pageInitStores (k : Nat) :
    .page k ∈ pageInitStores s i flags ↔ k = i := by
  unfold pageInitStores
  dsimp only
  split_ifs <;> simp

@[simp] theorem word_mem_pageInitStores (w : Nat) :
    .word w ∈ pageInitStores s i flags ↔
      ¬ ((s.pages i).attr ≠ 0#64 ∧ Shared (s.pages i) flags) ∧
        w = pageNumber (s.pages i).phyAddr / 64 := by
  unfold pageInitStores
  dsimp only
  split_ifs with h0 hs
  · simp [h0]
  · simp [h0, hs]
  · simp [hs]

@[simp] theorem zone_mem_pageInitStores (z : Option Nat) :
    .zone z ∈ pageInitStores s i flags ↔
      ((s.pages i).attr = 0#64 ∨ Shared (s.pages i) flags) ∧ z = (s.pages i).zone := by
  unfold pageInitStores
  dsimp only
  split_ifs with h0 hs
  · simp [h0]
  · simp [hs]
  · simp [h0, hs]

theorem pageInit_unlogged : Unlogged (pageInitStores s i flags) s (pageInit s i flags) := by
  -- in the third branch the zone is not stored to, and nothing is added to it
  have hkeep : ∀ z : MmZone, ¬ ((s.pages i).attr = 0#64 ∨ Shared (s.pages i) flags) →
      z.inited (s.pages i) flags = z := fun z h => by
    rw [not_or] at h
    simp [MmZone.inited, takes, links, h.1, h.2]
  constructor
  · intro k hk
    rw [page_mem_pageInitStores] at hk
    rw [pageInit_pages, Function.update_of_ne hk]
  · intro w hw
    rw [word_mem_pageInitStores, not_and] at hw
    rw [pageInit_bits]
    split
    · rfl
    · next h => rw [Bitmap.set, Function.update_of_ne (hw h)]
  · intro z hz
    rw [zone_mem_pageInitStores, not_and'] at hz
    rw [pageInit_zones]
    split
    · next hown => exact hkeep _ (hz hown.symm)
    · rfl
  · intro hz
    rw [zone_mem_pageInitStores, not_and'] at hz
    rw [pageInit_eq]
    cases hown : (s.pages i).zone with
    | none => exact hkeep _ (hz hown.symm)
    | some z => rfl

end PageInit

theorem initPages_unlogged (flags : U64) (l : List Nat) (s : MmState) :
    Unlogged (initPagesStores s flags l) s (initPages s flags l) := by
  induction l generalizing s with
  | nil => exact Unlogged.refl _ s
  | cons i l ih => exact (pageInit_unlogged s i flags).append (ih (pageInit s i flags))

theorem constructPage_unlogged (z : Nat) (start : U64) (s : MmState) (j : Nat) :
    Unlogged (constructPageStores start j) s (constructPage z start s j) := by
  constructor
  · intro i hi
    have hne : i ≠ pageNumber start + j := by
      rintro rfl
      simp [constructPageStores] at hi
    exact Function.update_of_ne hne _ _
  · intro w hw
    have hne : w ≠ pageNumber (start + page4kSize * BitVec.ofNat 64 j) / 64 := by
      rintro rfl
      simp [constructPageStores] at hw
    exact Function.update_of_ne hne _ _
  · intro _ _
    rfl
  · intro _
    rfl

theorem constructPage_foldl_unlogged (z : Nat) (start : U64) (l : List Nat) (s : MmState) :
    Unlogged (l.flatMap (constructPageStores start)) s (l.foldl (constructPage z start) s) := by
  induction l generalizing s with
  | nil => exact Unlogged.refl _ s
  | cons j l ih =>
      rw [List.flatMap_cons]
      exact (constructPage_unlogged z start s j).append (ih (constructPage z start s j))

theorem constructZone_unlogged (s : MmState) (z : Nat) (start end_ : U64) :
    Unlogged (constructZoneStores z start end_) s (constructZone s z start end_) := by
  have hzone : Unlogged [.zone (some z)] s
      { s with zones := Function.update s.zones z (freshZone start end_) } := by
    refine ⟨fun _ _ => rfl, fun _ _ => rfl, fun y hy => ?_, fun _ => rfl⟩
    have hne : y ≠ z := by
      rintro rfl
      simp at hy
    exact Function.update_of_ne hne _ _
  exact hzone.append (constructPage_foldl_unlogged z start _ _)

theorem constructStep_unlogged (sz : MmState × Nat) (e : E820) :
    Unlogged (constructStepStores sz.2 e) sz.1 (constructStep sz e).1 := by
  unfold constructStepStores constructStep
  split_ifs
  · exact Unlogged.refl _ _
  · exact Unlogged.refl _ _
  · exact constructZone_unlogged _ _ _ _

theorem zoneLoop_unlogged (es : List E820) (sz : MmState × Nat) :
    Unlogged (zoneLoopStores sz es) sz.1 (es.foldl constructStep sz).1 := by
  induction es generalizing sz with
  | nil => exact Unlogged.refl _ _
  | cons e es ih => exact (constructStep_unlogged sz e).append (ih (constructStep sz e))

/-- What `construct_mem_struct` does not store to is as it was. -/
theorem constructMemStruct_unlogged (s : MmState) :
    Unlogged (constructMemStructStores s) s (constructMemStruct s) :=
  (zoneLoop_unlogged s.gmdsc.e820 (s, 0)).append (initPages_unlogged _ _ _)

/-! ## What the loops store to -/

/-- The zone loop stores to the struct and the bitmap word of every extent's pages. -/
theorem mem_constructZoneStores (x : Extent) (z : Nat) :
    (∀ i, .page i ∈ constructZoneStores z x.start x.end_ ↔ x.Has i) ∧
    ∀ w, .word w ∈ constructZoneStores z x.start x.end_ ↔ ∃ i, x.Has i ∧ w = i / 64 := by
  have hsize : x.size = pageNumber x.end_ - pageNumber x.start := rfl
  have hlt := pageNumber_lt x.end_
  have hword : ∀ j, j < x.size →
      pageNumber (x.start + page4kSize * BitVec.ofNat 64 j) = pageNumber x.start + j := by
    intro j hj
    rw [x.phyAddr_eq, pageNumber_ofNat (by omega)]
  unfold constructZoneStores Extent.Has
  rw [x.pagesLength]
  constructor
  · intro i
    simp only [constructPageStores, List.mem_cons, List.mem_flatMap, List.mem_range, reduceCtorEq,
      Store.page.injEq, List.not_mem_nil, false_or, or_false]
    constructor
    · rintro ⟨j, hj, rfl⟩
      omega
    · intro h
      exact ⟨i - pageNumber x.start, by omega, by omega⟩
  · intro w
    simp only [constructPageStores, List.mem_cons, List.mem_flatMap, List.mem_range, reduceCtorEq,
      Store.word.injEq, List.not_mem_nil, false_or, or_false]
    constructor
    · rintro ⟨j, hj, rfl⟩
      exact ⟨pageNumber x.start + j, by omega, by rw [hword j hj]⟩
    · rintro ⟨i, hi, rfl⟩
      refine ⟨i - pageNumber x.start, by omega, ?_⟩
      rw [hword _ (by omega)]
      congr 1
      omega

theorem constructStepStores_eq (z : Nat) (e : E820) :
    constructStepStores z e =
      (e.extent?.toList.flatMap fun x => constructZoneStores z x.start x.end_) := by
  unfold constructStepStores
  cases h : e.extent? with
  | none =>
      by_cases ht : e.type = e820TypeAvailable
      · have hle : e.end_ ≤ e.start := by
          rw [BitVec.le_def]
          by_contra hlt
          simp [E820.extent?, ht, Nat.lt_of_not_le hlt] at h
        simp [ht, hle]
      · simp [ht]
  | some x =>
      obtain ⟨ht, hs, he⟩ := E820.extent?_eq_some.mp h
      have hlt := x.lt
      have hle : ¬ e.end_ ≤ e.start := by
        rw [BitVec.le_def, ← hs, ← he]
        omega
      simp [ht, hle, hs, he]

theorem mem_zoneLoopStores (es : List E820) (sz : MmState × Nat) :
    (∀ i, .page i ∈ zoneLoopStores sz es ↔ ∃ x ∈ extents es, x.Has i) ∧
    ∀ w, .word w ∈ zoneLoopStores sz es ↔ ∃ x ∈ extents es, ∃ i, x.Has i ∧ w = i / 64 := by
  induction es generalizing sz with
  | nil => simp [zoneLoopStores, extents]
  | cons e es ih =>
      obtain ⟨ihp, ihw⟩ := ih (constructStep sz e)
      unfold zoneLoopStores
      simp only [List.mem_append, ihp, ihw, constructStepStores_eq]
      cases h : e.extent? with
      | none => simp [extents, h]
      | some x =>
          obtain ⟨hp, hw⟩ := mem_constructZoneStores x sz.2
          simp [extents, h, hp, hw]

/-- The kernel-marking loop stores to the struct of each of its pages, and to the words of
    page numbers found in them. -/
theorem mem_initPagesStores (flags : U64) (l : List Nat) (s : MmState) :
    (∀ i, .page i ∈ initPagesStores s flags l ↔ i ∈ l) ∧
    ∀ w, .word w ∈ initPagesStores s flags l →
      ∃ i ∈ l, w = pageNumber (s.pages i).phyAddr / 64 := by
  induction l generalizing s with
  | nil => simp [initPagesStores]
  | cons k l ih =>
      obtain ⟨ihp, ihw⟩ := ih (pageInit s k flags)
      unfold initPagesStores
      constructor
      · intro i
        rw [List.mem_append, page_mem_pageInitStores, ihp, List.mem_cons]
      · intro w hw
        rcases List.mem_append.mp hw with hw | hw
        · exact ⟨k, List.mem_cons_self, ((word_mem_pageInitStores s k flags w).mp hw).2⟩
        · obtain ⟨i, hi, hwi⟩ := ihw w hw
          rw [pageInit_phyAddr] at hwi
          exact ⟨i, List.mem_cons_of_mem k hi, hwi⟩

/-! ## When the tables cover the stores -/

/-- The element lies in its table. -/
def Store.Covered (g : Gmdsc) : Store → Prop
  | .page i => i < g.pagesSize.toNat
  | .word w => w < g.pageBitsLength.toNat / 8
  | .zone _ => True

/-- Every page struct and every bitmap word `construct_mem_struct` stores to lies in its
    table. -/
def MetadataCovers (b : Boot) : Prop :=
  ∀ x ∈ constructMemStructStores (initStructs b), x.Covered (initStructs b).gmdsc

/-- `int i = addr >> PAGE_4K_SHIFT`. -/
def intPage (addr : U64) : Int := ((addr >>> 12).setWidth 32).toInt

/-- No page of the kernel-marking loop lies behind the last entry's end: the loop has none,
    or it starts at a page and ends at or before that page count. -/
def KernelBelow (b : Boot) : Prop :=
  let kernelStart := intPage b.startKernel
  let kernelEnd := intPage (vir2phy (BitVec.ofNat 64 b.structsEnd))
  kernelEnd ≤ kernelStart ∨ 0 ≤ kernelStart ∧ kernelEnd ≤ b.totalPages

instance (b : Boot) : Decidable (KernelBelow b) := inferInstanceAs (Decidable (_ ∨ _))

theorem kernelPages_below_iff (b : Boot) :
    (∀ i ∈ kernelPages (initStructs b).gmdsc, i < b.totalPages) ↔ KernelBelow b := by
  have hT := b.totalPages_lt
  have hend : (initStructs b).gmdsc.endOfStruct = BitVec.ofNat 64 b.structsEnd := by
    rw [← (initStructs_addresses b).2.2.2.1, BitVec.ofNat_toNat, BitVec.setWidth_eq]
  have hstart : (initStructs b).gmdsc.kernelStartPhyaddr = b.startKernel := rfl
  have hrange : ∀ a : U64, -(2 ^ 31) ≤ intPage a ∧ intPage a < 2 ^ 31 := fun a =>
    ⟨BitVec.le_toInt _, BitVec.toInt_lt⟩
  have h1 := hrange b.startKernel
  have h2 := hrange (vir2phy (BitVec.ofNat 64 b.structsEnd))
  unfold KernelBelow kernelPages
  rw [hend, hstart]
  change (∀ i ∈ (List.range (intPage (vir2phy (BitVec.ofNat 64 b.structsEnd)) -
    intPage b.startKernel).toNat).map fun k : Nat =>
      (BitVec.ofInt 64 (intPage b.startKernel + (k : Int))).toNat, i < b.totalPages) ↔ _
  dsimp only
  generalize intPage b.startKernel = ks at *
  generalize intPage (vir2phy (BitVec.ofNat 64 b.structsEnd)) = ke at *
  simp only [List.mem_map, List.mem_range, forall_exists_index, and_imp, forall_apply_eq_imp_iff₂,
    BitVec.toNat_ofInt]
  constructor
  · intro h
    by_contra hnot
    have h0 := h 0 (by omega)
    have hlast := h (ke - ks - 1).toNat (by omega)
    omega
  · rintro h k hk
    omega

theorem constructMemStructStores_eq (b : Boot) :
    constructMemStructStores (initStructs b) =
      zoneLoopStores (initStructs b, 0) b.e820 ++
        initPagesStores b.zoneState kernelFlags (kernelPages (initStructs b).gmdsc) := by
  unfold constructMemStructStores
  rw [(initStructs_sizes b).1]
  change _ ++ initPagesStores b.zoneState kernelFlags (kernelPages b.zoneState.gmdsc) = _
  rw [zoneState_gmdsc]

/-- The struct of a page is a fresh one with its own number, or still zero. -/
theorem zoneState_pageNumber_le (b : Boot) {i : Nat} (hi : i < b.totalPages) :
    pageNumber (b.zoneState.pages i).phyAddr ≤ i := by
  obtain ⟨-, -, -, hp, -⟩ := zoneState_spec b
  rcases hp i with ⟨k, -, -, hpage⟩ | ⟨-, hpage⟩
  · have := b.totalPages_lt
    rw [hpage]
    exact Nat.le_of_eq (pageNumber_ofNat (by omega))
  · rw [hpage, (initStructs_arrays b).2.1, if_pos hi]
    exact Nat.zero_le i

/-- **When the metadata covers every page it indexes.** For every map of entries that end below
    2^43, in any order: the stores of `construct_mem_struct` stay in the page structs and the
    bitmap exactly when every available page, and every page the kernel-marking loop names,
    lies in front of the end of the map's last entry. -/
theorem metadata_covers_iff (b : Boot) (hb : ∀ e ∈ b.e820, e.endAddr < 2 ^ 43) :
    MetadataCovers b ↔ (∀ i, Available b.e820 i → i < b.totalPages) ∧ KernelBelow b := by
  obtain ⟨-, -, -, -, hbl, hps, -⟩ := initStructs_sizes b
  obtain ⟨hzp, hzw⟩ := mem_zoneLoopStores b.e820 (initStructs b, 0)
  obtain ⟨hip, hiw⟩ := mem_initPagesStores kernelFlags (kernelPages (initStructs b).gmdsc)
    b.zoneState
  have hav := mem_extents_available hb
  unfold MetadataCovers
  rw [constructMemStructStores_eq, ← kernelPages_below_iff]
  simp only [List.mem_append]
  constructor
  · intro h
    refine ⟨fun i hi => ?_, fun i hi => ?_⟩
    · have := h (.page i) (Or.inl ((hzp i).mpr ((hav i).mpr hi)))
      rwa [Store.Covered, hps] at this
    · have := h (.page i) (Or.inr ((hip i).mpr hi))
      rwa [Store.Covered, hps] at this
  · rintro ⟨hA, hK⟩ x hx
    have hextent : ∀ i, (∃ x ∈ extents b.e820, x.Has i) → i < b.totalPages :=
      fun i hi => hA i ((hav i).mp hi)
    cases x with
    | zone z => trivial
    | page i =>
        rw [Store.Covered, hps]
        rcases hx with hx | hx
        · exact hextent i ((hzp i).mp hx)
        · exact hK i ((hip i).mp hx)
    | word w =>
        rw [Store.Covered, hbl]
        rcases hx with hx | hx
        · obtain ⟨y, hy, i, hi, rfl⟩ := (hzw w).mp hx
          have := hextent i ⟨y, hy, hi⟩
          omega
        · obtain ⟨i, hi, rfl⟩ := hiw w hx
          have hlt := hK i hi
          have hnum := zoneState_pageNumber_le b hlt
          omega

theorem metadata_covers_lowBoot : MetadataCovers lowBoot := by
  refine (metadata_covers_iff lowBoot lowBoot_ordered.below).mpr ⟨fun i hi => ?_, by decide⟩
  obtain ⟨x, hx, hhas⟩ := (mem_extents_has lowBoot_ordered i).mpr hi
  exact Nat.lt_of_lt_of_le hhas.2 (extent_le_totalPages lowBoot_ordered hx)

/-- The low memory of `lowBoot` behind its high memory: the tables are sized for the low one. -/
def lowLastBoot : Boot :=
  { lowBoot with
    e820 := [⟨0x2000000#64, 0x100000#64, 1#32⟩, ⟨0x102000#64, 0xe000#64, 1#32⟩]
    e820_le := by decide }

/-- There page 8192 is indexed, and the tables are for 272 pages. -/
theorem not_metadataCovers_lowLast :
    (∀ e ∈ lowLastBoot.e820, e.endAddr < 2 ^ 43) ∧
      .page 8192 ∈ constructMemStructStores (initStructs lowLastBoot) ∧
      (initStructs lowLastBoot).gmdsc.pagesSize = 272#64 ∧ ¬ MetadataCovers lowLastBoot := by
  have hsize : (initStructs lowLastBoot).gmdsc.pagesSize = 272#64 := by decide
  have hmem : .page 8192 ∈ constructMemStructStores (initStructs lowLastBoot) := by
    have hbelow : ∀ e ∈ lowLastBoot.e820, e.endAddr < 2 ^ 43 := by decide
    refine List.mem_append_left _ (((mem_zoneLoopStores _ _).1 8192).mpr ?_)
    refine (mem_extents_available hbelow 8192).mpr ?_
    exact ⟨⟨0x2000000#64, 0x100000#64, 1#32⟩, by decide, by decide, by
      unfold E820.HasPage
      decide⟩
  refine ⟨by decide, hmem, hsize, fun h => ?_⟩
  have := h _ hmem
  rw [Store.Covered, hsize] at this
  exact absurd this (by decide)

end HelloOS.Mm
