/-
  No double allocation, over whole runs of `alloc_pages`.

  The window `a` whose test a search passes is not the block it hands out: with `r` the offset of
  the stop that tries it, the block starts at page `a + r - 1`, one page in front of the window
  when `r` is 0, and the window itself only when `r` is 1. `CallCovered` says of the state before
  a call that this shift does no harm: the block's pages are zone pages, and those the test did
  not look at are free. `run_takes` is the step lemma (a covered call takes free zone pages and
  marks them) and `allocBlocks_free` the run lemma (what a run hands out was free when it began).
-/
import HelloOS.Mm.Search

namespace HelloOS.Mm

open HelloOS.Lib

/-! ## Runs of `alloc_pages` -/

/-- No page is handed out twice, and none that the kernel-marking loop had marked. -/
def NoDoubleAlloc (b : Boot) (cs : List AllocCall) : Prop :=
  (allocBlocks (initMemory b) cs).Pairwise List.Disjoint ∧
    ∀ block ∈ allocBlocks (initMemory b) cs,
      List.Disjoint block (kernelPages (initMemory b).gmdsc)

/-! ## The condition -/

/-- With `a` the least window of the first zone that serves, shifted by the offset of the zone's
    scan: the `n` pages from the one in front of it on are zone pages, and those of them that lie
    off the window are free. -/
def CallCovered (s : MmState) (c : AllocCall) : Prop :=
  ∀ i a, IsLeast {i | i ∈ zoneIndices s.gmdsc c.zoneSelect ∧ s.Serves c.n i} i →
    IsLeast ((s.zones i).windows s.bits c.n) a →
    ∀ l < c.n, ∃ p, p + 1 = a + (s.zones i).shift a + l ∧ s.InZone p ∧
      (a ≤ p ∧ p < a + c.n ∨ s.bits.get p = false)

/-- Every call of a run is covered in the state it starts from. -/
def AllocsCovered (s : MmState) (cs : List AllocCall) : Prop := EveryCall CallCovered s cs

/-- A window that is shifted by 1 is the block: all its pages were tested. -/
theorem callCovered_of_shift {s : MmState} {c : AllocCall}
    (h : ∀ i a, i ∈ zoneIndices s.gmdsc c.zoneSelect → a ∈ (s.zones i).windows s.bits c.n →
      (s.zones i).shift a = 1 ∧ ∀ p, a ≤ p → p < a + c.n → s.InZone p) : CallCovered s c := by
  intro i a hi ha l hl
  obtain ⟨hshift, hin⟩ := h i a hi.1.1 ha.1
  exact ⟨a + l, by omega, hin _ (by omega) (by omega), Or.inl ⟨by omega, by omega⟩⟩

/-! ## One call -/

variable {s : MmState} {c : AllocCall}

theorem MmState.InZone.lt {i : Nat} (h : s.InZone i) : i < 2 ^ 52 := by
  obtain ⟨z, -, -, hi⟩ := h
  exact Nat.lt_trans hi (pageNumber_lt _)

/-- A covered call takes pages of the zones that were free, and marks every one of them. -/
theorem run_takes (hs : Consistent s) (hn : c.n ≤ 64) (hc : CallCovered s c) {page i : Nat}
    (hp : (c.run s).1 = some page) (hi : i ∈ blockPages page c.n) :
    s.InZone i ∧ s.bits.get i = false ∧ (c.run s).2.bits.get i = true := by
  obtain ⟨z, a, hz, ha, hpage⟩ := run_some hn hp
  obtain ⟨l, hl, hli⟩ := mem_blockPages.mp hi
  obtain ⟨p, hidx, hin, hfree⟩ := hc z a hz ha l hl
  -- the covered page is the one the block names: nothing wraps below 2^52
  have hlt := hin.lt
  obtain rfl : i = p := by omega
  refine ⟨hin, ?_, ?_⟩
  · rcases hfree with ⟨hlo, hhi⟩ | hfree
    · have hclear := (ha.1.2 (i - a) (by omega)).1
      rwa [Nat.add_sub_cancel' hlo] at hclear
    · exact hfree
  · rw [run_eq_of_some hp]
    exact initPages_sets hs c.flags _ hi hin

/-! ## Whole runs -/

/-- What a covered run hands out are zone pages that were free when it began. -/
theorem allocBlocks_free (cs : List AllocCall) (hs : Consistent s) (hok : ∀ c ∈ cs, c.Ok)
    (hc : AllocsCovered s cs) {block : List Nat} (hb : block ∈ allocBlocks s cs) {i : Nat}
    (hi : i ∈ block) : s.InZone i ∧ s.bits.get i = false := by
  induction cs generalizing s with
  | nil => simp [allocBlocks] at hb
  | cons c cs ih =>
      obtain ⟨hcov, hrest⟩ := hc
      have hn := (hok c List.mem_cons_self).le
      rcases List.mem_append.mp hb with hb | hb
      · obtain ⟨page, hp, rfl⟩ := List.mem_map.mp hb
        obtain ⟨hin, hfree, -⟩ := run_takes hs hn hcov (Option.mem_toList.mp hp) hi
        exact ⟨hin, hfree⟩
      · obtain ⟨hin, hfree⟩ := ih (consistent_run hs)
          (fun d hd => hok d (List.mem_cons_of_mem c hd)) hrest hb
        refine ⟨(run_inZone i).mp hin, ?_⟩
        by_contra hset
        rw [run_bit_mono (by simpa using hset)] at hfree
        exact absurd hfree (by decide)

/-- The blocks of a covered run are pairwise disjoint: what the first call took is marked
    when the rest of the run begins. -/
theorem allocBlocks_pairwise (cs : List AllocCall) (hs : Consistent s) (hok : ∀ c ∈ cs, c.Ok)
    (hc : AllocsCovered s cs) : (allocBlocks s cs).Pairwise List.Disjoint := by
  induction cs generalizing s with
  | nil => exact List.Pairwise.nil
  | cons c cs ih =>
      obtain ⟨hcov, hrest⟩ := hc
      have hok' : ∀ d ∈ cs, d.Ok := fun d hd => hok d (List.mem_cons_of_mem c hd)
      refine List.pairwise_append.mpr ⟨?_, ih (consistent_run hs) hok' hrest, ?_⟩
      · cases h : (c.run s).1 with
        | none => exact List.Pairwise.nil
        | some page => exact List.pairwise_singleton _ _
      · intro x hx y hy i hix hiy
        obtain ⟨page, hp, rfl⟩ := List.mem_map.mp hx
        obtain ⟨-, -, hset⟩ :=
          run_takes hs (hok c List.mem_cons_self).le hcov (Option.mem_toList.mp hp) hix
        obtain ⟨-, hfree⟩ := allocBlocks_free cs (consistent_run hs) hok' hrest hy hiy
        rw [hset] at hfree
        exact absurd hfree (by decide)

/-- A kernel page that belongs to a zone is marked when `init_memory` returns. -/
theorem initMemory_kernel_bit (b : Boot) {i : Nat} (hi : i ∈ kernelPages (initMemory b).gmdsc)
    (hin : (initMemory b).InZone i) : (initMemory b).bits.get i = true := by
  rw [initMemory_gmdsc] at hi
  rw [initMemory_eq] at hin ⊢
  rw [initPages_inZone] at hin
  exact initPages_sets (consistent_zoneState b) kernelFlags _ hi hin

/-- **No double allocation.** From the state `init_memory` leaves for any boot, in every run
    of `alloc_pages` calls that are covered, no page is handed out twice and none that the
    kernel-marking loop had marked. -/
theorem allocs_disjoint (b : Boot) (cs : List AllocCall) (hok : ∀ c ∈ cs, c.Ok)
    (hc : AllocsCovered (initMemory b) cs) : NoDoubleAlloc b cs := by
  have hs := consistent_initMemory b
  refine ⟨allocBlocks_pairwise cs hs hok hc, fun block hb i hi hker => ?_⟩
  obtain ⟨hin, hfree⟩ := allocBlocks_free cs hs hok hc hb hi
  rw [initMemory_kernel_bit b hker hin] at hfree
  exact absurd hfree (by decide)

/-! ### A zone that starts behind a word boundary -/

/-- `lowBoot` with more low pages: its first zone is pages 257 to 287, and 257 is
    `64 * 4 + 1`. -/
def oddBoot : Boot :=
  { lowBoot with
    e820 := [⟨0x101000#64, 0x1f000#64, 1#32⟩, ⟨0x120000#64, 0x1ee0000#64, 2#32⟩,
      ⟨0x2000000#64, 0x100000#64, 1#32⟩]
    e820_le := by decide }

theorem oddBoot_ordered : Ordered oddBoot.e820 := ⟨by decide, by decide⟩

theorem oddBoot_kernelFits : KernelFits oddBoot :=
  ⟨by decide, ⟨0x2000000#64, 0x100000#64, 1#32⟩, by decide, by decide, by decide, by decide⟩

theorem oddBoot_zone : ((initMemory oddBoot).zones 0).zoneStartAddr = 0x101000#64 ∧
    ((initMemory oddBoot).zones 0).zoneEndAddr = 0x120000#64 := by
  obtain ⟨hs, he⟩ := initMemory_zone oddBoot (k := 0) (by decide)
  exact ⟨hs.trans (by rfl), he.trans (by rfl)⟩

/-- Every call for pages of the first zone is covered there: its scan has one stop, and the
    pages it can find free are zone pages. -/
theorem oddBoot_covered (hz : (s.zones 0).zoneStartAddr = 0x101000#64 ∧
      (s.zones 0).zoneEndAddr = 0x120000#64)
    (hbit : ∀ i, (initMemory oddBoot).bits.get i = true → s.bits.get i = true)
    (hin : ∀ i, s.InZone i ↔ (initMemory oddBoot).InZone i)
    (hc : c.zoneSelect = zoneNormal) (hn : c.n ≤ 64) : CallCovered s c := by
  have hT : oddBoot.totalPages = 8448 := by decide
  have hstart : pageNumber (s.zones 0).zoneStartAddr = 257 := by rw [hz.1]; decide
  have hend : pageNumber (s.zones 0).zoneEndAddr = 288 := by rw [hz.2]; decide
  refine callCovered_of_shift fun i a hi ⟨hreach, hclear⟩ => ?_
  rw [hc, zoneIndices_normal] at hi
  obtain rfl := List.mem_singleton.mp hi
  have hword : a / 64 = 4 := by
    unfold MmZone.Reaches Reaches at hreach
    omega
  refine ⟨?_, fun p hlo hhi => ?_⟩
  · unfold MmZone.shift
    rw [hstart, if_pos hword]
  have hfree := (hclear (p - a) (by omega)).1
  rw [Nat.add_sub_cancel' hlo] at hfree
  have hfree₀ : (initMemory oddBoot).bits.get p = false := by
    by_contra hset
    rw [hbit p (by simpa using hset)] at hfree
    exact absurd hfree (by decide)
  have hav := ((initMemory_bit oddBoot_ordered oddBoot_kernelFits (by omega)).mp hfree₀).1
  rw [hin, initMemory_eq, initPages_inZone]
  exact (zoneState_inZone_iff oddBoot_ordered p).mpr hav

theorem allocs_disjoint_oddBoot :
    NoDoubleAlloc oddBoot [⟨zoneNormal, 1, pgKernel⟩, ⟨zoneNormal, 3, pgReferenced⟩] := by
  refine allocs_disjoint oddBoot _ ?_ ⟨?_, ?_, trivial⟩
  · intro c hc
    simp only [List.mem_cons, List.not_mem_nil, or_false] at hc
    rcases hc with rfl | rfl
    · exact ⟨by decide, by decide, by decide⟩
    · exact ⟨by decide, by decide, by decide⟩
  · exact oddBoot_covered oddBoot_zone (fun _ h => h) (fun _ => Iff.rfl) rfl (by decide)
  · obtain ⟨h1, h2⟩ := run_zone_bounds (s := initMemory oddBoot)
      (c := ⟨zoneNormal, 1, pgKernel⟩) 0
    exact oddBoot_covered ⟨h1.trans oddBoot_zone.1, h2.trans oddBoot_zone.2⟩
      (fun _ h => run_bit_mono h) (fun i => run_inZone i) rfl (by decide)

/-! ### Two calls that take the same page -/

/-- The first zone of `lowBoot`: pages 258 to 271. -/
theorem lowBoot_zone : ((initMemory lowBoot).zones 0).zoneStartAddr = 0x102000#64 ∧
    ((initMemory lowBoot).zones 0).zoneEndAddr = 0x110000#64 := by
  obtain ⟨hs, he⟩ := initMemory_zone lowBoot (k := 0) (by decide)
  exact ⟨hs.trans (by rfl), he.trans (by rfl)⟩

theorem lowBoot_zonesSize : 0 < (initMemory lowBoot).gmdsc.zonesSize.toNat := by
  rw [initMemory_zonesSize]
  decide

/-- The pages of that zone are free when `init_memory` returns. -/
theorem lowBoot_free {i : Nat} (h1 : 258 ≤ i) (h2 : i < 272) :
    (initMemory lowBoot).bits.get i = false := by
  have hstart : lowBoot.startKernel.toNat = 0x2000000 := rfl
  refine initMemory_free lowBoot_ordered lowBoot_kernelFits ?_ (by omega)
  exact ⟨⟨0x102000#64, 0xe000#64, 1#32⟩, by decide, by decide, by
    change 0x102000 ≤ 4096 * i ∧ 4096 * (i + 1) ≤ 0x110000
    omega⟩

/-- A search for `n` pages starts at `(258, 2)`, on bit 258, and goes no further when the
    `n` bits from there on are clear. -/
theorem lowBoot_firstWindow {s : MmState} {n : Nat} (hn : n ≤ 64)
    (hstart : (s.zones 0).zoneStartAddr = 0x102000#64)
    (hend : (s.zones 0).zoneEndAddr = 0x110000#64)
    (hfree : n ≤ (s.zones 0).pageFreeCount.toNat)
    (hbits : ∀ l, l < n → s.bits.get (258 + l) = false) :
    firstWindow s n (zoneIndices s.gmdsc zoneNormal) = some (258, 2) := by
  have h1 : pageNumber (s.zones 0).zoneStartAddr = 258 := by rw [hstart]; decide
  have h2 : pageNumber (s.zones 0).zoneEndAddr = 272 := by rw [hend]; decide
  have hpass : WindowPasses s.bits n 258 2 :=
    (windowPasses_iff_free (by decide) (by decide) hn).mpr fun l hl => hbits l hl
  have hscan : scanWord s.bits n (pageNumber (s.zones 0).zoneStartAddr) = some 2 := by
    rw [h1]
    exact scanWord_eq_some (by decide) (by decide) hpass fun i hi _ => by omega
  have := firstWindow_first [] rfl hfree (by omega) hscan
  rwa [h1] at this

/-- One page of `ZONE_NORMAL`. -/
def onePage : AllocCall := ⟨zoneNormal, 1, pgKernel⟩

/-- While page 258 is free, a search for one page ends on it. -/
theorem onePage_firstWindow {s : MmState} (h : Accounted s) (hz : 0 < s.gmdsc.zonesSize.toNat)
    (hstart : (s.zones 0).zoneStartAddr = 0x102000#64)
    (hend : (s.zones 0).zoneEndAddr = 0x110000#64) (hbit : s.bits.get 258 = false) :
    firstWindow s 1 (zoneIndices s.gmdsc zoneNormal) = some (258, 2) := by
  have hmem : 258 ∈ (s.zones 0).pageSet := by
    rw [MmZone.mem_pageSet, MmZone.Has, hstart, hend]
    decide
  have hattr : (s.pages 258).attr = 0#64 := by
    have := (((h.zones 0 hz).marked 258 hmem).not.mp (by simp [hbit]))
    simpa using this
  refine lowBoot_firstWindow (by decide) hstart hend ((h.zones 0 hz).free_pos hmem hattr)
    fun l hl => ?_
  rw [show l = 0 by omega]
  exact hbit

/-- Two calls for one page of `ZONE_NORMAL` on `lowBoot` both find page 258 free and both
    return page 259. -/
theorem not_noDoubleAlloc_lowBoot :
    (∀ c ∈ [onePage, onePage], c.Ok) ∧ ¬ NoDoubleAlloc lowBoot [onePage, onePage] := by
  have hok : onePage.Ok := ⟨by decide, by decide, by decide⟩
  refine ⟨by simp [hok], fun h => ?_⟩
  have hacc := accounted_initMemory lowBoot_ordered lowBoot_kernelFits
  have hsize := lowBoot_zonesSize
  have hzone := lowBoot_zone
  have hbit := lowBoot_free (i := 258) (by decide) (by decide)
  rw [NoDoubleAlloc] at h
  generalize initMemory lowBoot = s at h hacc hsize hzone hbit
  have hin : s.InZone 259 := by
    refine ⟨0, hsize, ?_⟩
    rw [MmZone.Has, hzone.1, hzone.2]
    decide
  -- the first call marks page 259 and leaves page 258 free
  have hrun : ∀ t : MmState, firstWindow t 1 (zoneIndices t.gmdsc zoneNormal) = some (258, 2) →
      onePage.run t = (some 259, pageInit t 259 pgKernel) := by
    intro t ht
    have hstart : blockStart 258 2 = 259 := by decide
    have hpages : blockPages 259 1 = [259] := by decide
    have halloc := allocPages_of_window pgKernel ht
    rw [hstart, hpages] at halloc
    exact halloc
  have h1 := hrun s (onePage_firstWindow hacc hsize hzone.1 hzone.2 hbit)
  have h2 := hrun (pageInit s 259 pgKernel) (onePage_firstWindow
    (accounted_pageInit hacc hin (by decide)) (by rw [pageInit_gmdsc]; exact hsize)
    (by rw [pageInit_zoneStartAddr]; exact hzone.1) (by rw [pageInit_zoneEndAddr]; exact hzone.2)
    (by rw [pageInit_bit_of_ne s 259 pgKernel (by rw [hacc.number 259 hin]; decide)]; exact hbit))
  have hblocks : allocBlocks s [onePage, onePage] = [[259], [259]] := by
    simp only [allocBlocks, h1, h2]
    decide
  rw [hblocks] at h
  exact absurd h.1 (by simp)

end HelloOS.Mm
