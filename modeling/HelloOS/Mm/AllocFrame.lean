/-
  The frame of `alloc_pages`.

  `Frame l flags s t` says what a block of `page_init` calls over the pages `l` may do: it
  adds attributes and at most one reference to the structs in `l`, sets bits of `l`, and
  moves the counters of the zones those structs point to; all else stays. One call has the
  frame of its page (`frame_pageInit`), a block of different pages has the frame of the block
  (`frame_initPages`, by induction on the block), and a failed call does not get that far.
-/
import HelloOS.Mm.NoDouble

namespace HelloOS.Mm

open HelloOS.Lib

/-- `q` is `p` with the attributes `flags` added and at most one reference more. -/
def MmPage.Grown (flags : U64) (p q : MmPage) : Prop :=
  q = { p with attr := p.attr ||| flags, refCount := q.refCount } ∧
    (q.refCount = p.refCount ∨ q.refCount = p.refCount + 1#64)

/-- `y` is `z` but for its three counters. -/
def MmZone.SameButCounters (z y : MmZone) : Prop :=
  y = { z with
    pageUsingCount := y.pageUsingCount
    pageFreeCount := y.pageFreeCount
    totalPagesLink := y.totalPagesLink }

/-- From `s` to `t` only the structs, the bits and the zone counters of the pages `l` changed:
    the structs gained `flags` and at most one reference, the bits went from clear to set. -/
structure Frame (l : List Nat) (flags : U64) (s t : MmState) : Prop where
  gmdsc : t.gmdsc = s.gmdsc
  pages : ∀ i, i ∉ l → t.pages i = s.pages i
  block : ∀ i ∈ l, (s.pages i).Grown flags (t.pages i)
  bits : ∀ i, i ∉ l → t.bits.get i = s.bits.get i
  set : ∀ i, s.bits.get i = true → t.bits.get i = true
  zones : ∀ z, (∀ i ∈ l, (s.pages i).zone ≠ some z) → t.zones z = s.zones z
  counters : ∀ z, (s.zones z).SameButCounters (t.zones z)
  nullZone : (∀ i ∈ l, (s.pages i).zone ≠ none) → t.nullZone = s.nullZone
  nullCounters : s.nullZone.SameButCounters t.nullZone

variable {s t u : MmState} {l : List Nat} {i : Nat} {flags : U64}

theorem MmZone.SameButCounters.refl (z : MmZone) : z.SameButCounters z := rfl

theorem MmZone.SameButCounters.trans {x y z : MmZone} (h : x.SameButCounters y)
    (h' : y.SameButCounters z) : x.SameButCounters z := by
  unfold MmZone.SameButCounters at *
  cases x
  cases y
  cases z
  simp_all

theorem MmZone.inited_sameButCounters (z : MmZone) (page : MmPage) (flags : U64) :
    z.SameButCounters (z.inited page flags) := rfl

theorem MmPage.inited_grown (page : MmPage) (flags : U64) :
    page.Grown flags (page.inited flags) := by
  refine ⟨rfl, ?_⟩
  unfold MmPage.inited links
  split
  · exact Or.inr rfl
  · exact Or.inl (BitVec.add_zero _)

theorem pageInit_nullZone (s : MmState) (i : Nat) (flags : U64) :
    (pageInit s i flags).nullZone =
      if (s.pages i).zone = none then s.nullZone.inited (s.pages i) flags else s.nullZone := by
  rw [pageInit_eq]
  cases (s.pages i).zone with
  | none => rfl
  | some z => rfl

theorem frame_nil (flags : U64) (s : MmState) : Frame [] flags s s where
  gmdsc := rfl
  pages _ _ := rfl
  block _ hi := absurd hi List.not_mem_nil
  bits _ _ := rfl
  set _ h := h
  zones _ _ := rfl
  counters z := MmZone.SameButCounters.refl (s.zones z)
  nullZone _ := rfl
  nullCounters := MmZone.SameButCounters.refl s.nullZone

/-- `page_init` of a page whose struct carries its own number. -/
theorem frame_pageInit (hn : pageNumber (s.pages i).phyAddr = i) :
    Frame [i] flags s (pageInit s i flags) := by
  constructor
  · exact pageInit_gmdsc s i flags
  · intro j hj
    exact pageInit_page_of_ne fun h => hj (List.mem_singleton.mpr h)
  · intro j hj
    rw [List.mem_singleton.mp hj, pageInit_pages, Function.update_self]
    exact MmPage.inited_grown _ flags
  · intro j hj
    refine pageInit_bit_of_ne s i flags fun h => hj ?_
    rw [← h, hn]
    exact List.mem_singleton_self i
  · exact fun j => pageInit_bit_mono s i flags
  · intro z hz
    rw [pageInit_zones, if_neg (hz i (List.mem_singleton_self i))]
  · intro z
    rw [pageInit_zones]
    split
    · exact MmZone.inited_sameButCounters _ _ _
    · exact MmZone.SameButCounters.refl _
  · intro hz
    rw [pageInit_nullZone, if_neg (hz i (List.mem_singleton_self i))]
  · rw [pageInit_nullZone]
    split
    · exact MmZone.inited_sameButCounters _ _ _
    · exact MmZone.SameButCounters.refl _

/-- The frame of one page, then the frame of others. -/
theorem Frame.cons (h : Frame [i] flags s t) (h' : Frame l flags t u) (hi : i ∉ l)
    (hzone : ∀ j, (t.pages j).zone = (s.pages j).zone) : Frame (i :: l) flags s u := by
  constructor
  · exact h'.gmdsc.trans h.gmdsc
  · intro j hj
    rw [List.mem_cons, not_or] at hj
    rw [h'.pages j hj.2, h.pages j (by simpa using hj.1)]
  · intro j hj
    rcases List.mem_cons.mp hj with rfl | hj
    · rw [h'.pages j hi]
      exact h.block j (List.mem_singleton_self j)
    · have hne : j ∉ [i] := fun h => hi (List.mem_singleton.mp h ▸ hj)
      rw [← h.pages j hne]
      exact h'.block j hj
  · intro j hj
    rw [List.mem_cons, not_or] at hj
    rw [h'.bits j hj.2, h.bits j (by simpa using hj.1)]
  · exact fun j hj => h'.set j (h.set j hj)
  · intro z hz
    rw [h'.zones z fun j hj => by rw [hzone]; exact hz j (List.mem_cons_of_mem i hj),
      h.zones z fun j hj => hz j (by rw [List.mem_singleton.mp hj]; exact List.mem_cons_self)]
  · exact fun z => (h.counters z).trans (h'.counters z)
  · intro hz
    rw [h'.nullZone fun j hj => by rw [hzone]; exact hz j (List.mem_cons_of_mem i hj),
      h.nullZone fun j hj => hz j (by rw [List.mem_singleton.mp hj]; exact List.mem_cons_self)]
  · exact h.nullCounters.trans h'.nullCounters

/-- A block of different pages that carry their own numbers. -/
theorem frame_initPages (hl : l.Nodup) (hn : ∀ i ∈ l, pageNumber (s.pages i).phyAddr = i) :
    Frame l flags s (initPages s flags l) := by
  induction l generalizing s with
  | nil => exact frame_nil flags s
  | cons i l ih =>
      obtain ⟨hi, hl'⟩ := List.nodup_cons.mp hl
      have hstep : Frame [i] flags s (pageInit s i flags) :=
        frame_pageInit (hn i List.mem_cons_self)
      have hrest : Frame l flags (pageInit s i flags) (initPages (pageInit s i flags) flags l) :=
        ih hl' fun j hj => by
          rw [pageInit_phyAddr]
          exact hn j (List.mem_cons_of_mem i hj)
      exact hstep.cons hrest hi (pageInit_page_zone s i flags)

/-- The pages of a block that does not wrap. -/
theorem blockPages_eq {page n : Nat} (h : page + n ≤ 2 ^ 64) :
    blockPages page n = List.range' page n := by
  unfold blockPages
  rw [List.range'_eq_map_range]
  refine List.map_congr_left fun l hl => ?_
  rw [List.mem_range] at hl
  exact Nat.mod_eq_of_lt (by omega)

/-- **The frame of an allocation.** In every state whose page structs below `pages_size` carry
    their own addresses, for every selector, every `n` of at most 64 and all flags: if the
    pages touched lie below `pages_size`, a call changes at most the structs, the bits and the
    zone counters of the `n` consecutive pages from the returned one on; a call that returns
    `NULL` changes nothing. -/
theorem allocPages_frame (s : MmState) (zoneSelect : Int) (n : Nat) (flags : U64) (hn : n ≤ 64)
    (hphy : ∀ i, i < s.gmdsc.pagesSize.toNat → (s.pages i).phyAddr.toNat = 4096 * i)
    (hin : ∀ page, (allocPages s zoneSelect n flags).1 = some page →
      ∀ i ∈ blockPages page n, i < s.gmdsc.pagesSize.toNat) :
    ((allocPages s zoneSelect n flags).1 = none → (allocPages s zoneSelect n flags).2 = s) ∧
    ∀ page, (allocPages s zoneSelect n flags).1 = some page →
      Frame (List.range' page n) flags s (allocPages s zoneSelect n flags).2 := by
  have hnum : ∀ i, i < s.gmdsc.pagesSize.toNat → pageNumber (s.pages i).phyAddr = i := by
    intro i hi
    rw [pageNumber_eq, hphy i hi]
    omega
  rcases allocPages_cases s zoneSelect n flags with ⟨-, heq⟩ | ⟨j, k, -, heq⟩
  · rw [heq]
    exact ⟨fun _ => rfl, fun page h => absurd h (by simp)⟩
  · rw [heq] at hin ⊢
    refine ⟨fun h => absurd h (by simp), fun page h => ?_⟩
    have hpage : blockStart j k = page := Option.some.inj h
    have hblock := hin page h
    rw [hpage]
    have hwrap : page + n ≤ 2 ^ 64 := by
      rcases Nat.eq_zero_or_pos n with rfl | hpos
      · have : page < 2 ^ 64 := hpage ▸ Nat.mod_lt _ (by decide)
        omega
      · -- the first page carries its own number, so it is far below the wrap
        have hlt : page < 2 ^ 64 := hpage ▸ Nat.mod_lt _ (by decide)
        have hfirst := hblock page (mem_blockPages.mpr ⟨0, hpos, Nat.mod_eq_of_lt hlt⟩)
        have hadd := hphy page hfirst
        have := (s.pages page).phyAddr.isLt
        omega
    rw [blockPages_eq hwrap] at hblock ⊢
    exact frame_initPages List.nodup_range' fun i hi => hnum i (hblock i hi)

/-- 128 MB less the first page, in one entry: every page struct carries its own address, and
    the zone starts at page 1. -/
def oneEntryBoot : Boot :=
  { lowBoot with
    e820 := [⟨0x1000#64, 0x7fff000#64, 1#32⟩]
    e820_le := by decide }

theorem oneEntryBoot_ordered : Ordered oneEntryBoot.e820 := ⟨by decide, by decide⟩

theorem oneEntryBoot_kernelFits : KernelFits oneEntryBoot :=
  ⟨by decide, ⟨0x1000#64, 0x7fff000#64, 1#32⟩, by decide, by decide, by decide, by decide⟩

theorem oneEntryBoot_zone : ((initMemory oneEntryBoot).zones 0).zoneStartAddr = 0x1000#64 ∧
    ((initMemory oneEntryBoot).zones 0).zoneEndAddr = 0x8000000#64 := by
  obtain ⟨hs, he⟩ := initMemory_zone oneEntryBoot (k := 0) (by decide)
  exact ⟨hs.trans (by rfl), he.trans (by rfl)⟩

theorem oneEntryBoot_phyAddr {i : Nat}
    (hi : i < (initMemory oneEntryBoot).gmdsc.pagesSize.toNat) :
    ((initMemory oneEntryBoot).pages i).phyAddr.toNat = 4096 * i := by
  have hT : oneEntryBoot.totalPages = 0x8000 := by decide
  rw [initMemory_pagesSize, hT] at hi
  rw [initMemory_eq, initPages_phyAddr]
  obtain ⟨-, -, -, hp, -⟩ := zoneState_spec oneEntryBoot
  rcases hp i with ⟨k, -, -, hpage⟩ | ⟨hnot, hpage⟩
  · rw [hpage, freshPage, BitVec.toNat_ofNat]
    omega
  · -- only page 0 lies outside the entry
    have h0 : i = 0 := by
      by_contra hne
      have hav : Available oneEntryBoot.e820 i :=
        ⟨⟨0x1000#64, 0x7fff000#64, 1#32⟩, by decide, by decide, by
          change 0x1000 ≤ 4096 * i ∧ 4096 * (i + 1) ≤ 0x8000000
          omega⟩
      obtain ⟨x, hx, hhas⟩ := (mem_extents_has oneEntryBoot_ordered i).mpr hav
      exact hnot x hx hhas
    rw [hpage, (initStructs_arrays oneEntryBoot).2.1, if_pos (by omega), h0]
    rfl

theorem oneEntryBoot_free : (initMemory oneEntryBoot).bits.get 1 = false := by
  have hstart : oneEntryBoot.startKernel.toNat = 0x2000000 := rfl
  refine initMemory_free oneEntryBoot_ordered oneEntryBoot_kernelFits ?_ (by omega)
  exact ⟨⟨0x1000#64, 0x7fff000#64, 1#32⟩, by decide, by decide, by
    unfold E820.HasPage
    decide⟩

/-- The first window for one page lies on page 1. -/
theorem oneEntryBoot_firstWindow :
    firstWindow (initMemory oneEntryBoot) 1 (zoneIndices (initMemory oneEntryBoot).gmdsc zoneNormal)
      = some (1, 1) := by
  have hfree := initMemory_card_le_free oneEntryBoot_ordered oneEntryBoot_kernelFits
    (z := 0) (t := {1}) (by decide)
    (fun i hi => by
      rw [Finset.mem_singleton.mp hi, MmZone.Has, oneEntryBoot_zone.1, oneEntryBoot_zone.2]
      decide)
    fun i hi => by
      rw [Finset.mem_singleton.mp hi]
      exact oneEntryBoot_free
  have hscan : scanWord (initMemory oneEntryBoot).bits 1
      (pageNumber ((initMemory oneEntryBoot).zones 0).zoneStartAddr) = some 1 := by
    rw [oneEntryBoot_zone.1, show pageNumber 0x1000#64 = 1 by decide]
    refine scanWord_eq_some (by decide) (by decide) ?_ fun i hi _ => by omega
    refine (windowPasses_iff_free (by decide) (by decide) (by decide)).mpr fun l hl => ?_
    rw [Nat.lt_one_iff.mp hl]
    exact oneEntryBoot_free
  have hw := firstWindow_first (n := 1) [] rfl (by rwa [Finset.card_singleton] at hfree) (by
    rw [oneEntryBoot_zone.1, oneEntryBoot_zone.2]
    decide) hscan
  rwa [oneEntryBoot_zone.1, show pageNumber 0x1000#64 = 1 by decide] at hw

theorem allocPages_frame_oneEntryBoot :
    Frame [1] pgKernel (initMemory oneEntryBoot)
      (allocPages (initMemory oneEntryBoot) zoneNormal 1 pgKernel).2 := by
  have hcall : allocPages (initMemory oneEntryBoot) zoneNormal 1 pgKernel = _ :=
    allocPages_of_window pgKernel oneEntryBoot_firstWindow
  have hone : ∀ page, (allocPages (initMemory oneEntryBoot) zoneNormal 1 pgKernel).1 = some page →
      page = 1 := fun page h => by
    rw [hcall] at h
    exact (Option.some.inj h).symm
  have hpages : 1 < (initMemory oneEntryBoot).gmdsc.pagesSize.toNat := by
    rw [initMemory_pagesSize]
    decide
  exact (allocPages_frame (initMemory oneEntryBoot) zoneNormal 1 pgKernel (by decide)
    (fun i hi => oneEntryBoot_phyAddr hi) fun page h i hi => by
      rw [hone page h] at hi
      rw [List.mem_singleton.mp hi]
      exact hpages).2 1 (by rw [hcall]; rfl)

end HelloOS.Mm
