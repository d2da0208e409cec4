/-
  When `alloc_pages` finds what exists.

  A zone may hold `n` consecutive free pages that the search never finds: its scan skips part
  of the zone's first word, at the first bit of a word it wants the next word clear as well,
  and a zone that counts fewer than `n` free pages is not scanned. `finds_iff_run` gives the
  exact condition, call by call, over whole runs: where there is a free run, some zone of the
  range serves the request. `midwordBoot` is a machine whose first zone is never served from.
-/
import HelloOS.Mm.NoDouble

namespace HelloOS.Mm

open HelloOS.Lib

/-- The `n` pages from `a` on lie in the zone, and their bits are clear. -/
def FreeRun (s : MmState) (z : MmZone) (n a : Nat) : Prop :=
  ∀ l, l < n → z.Has (a + l) ∧ s.bits.get (a + l) = false

/-- Some zone the call may use holds a free run of the length it asks for. -/
def HasFreeRun (s : MmState) (c : AllocCall) : Prop :=
  ∃ i ∈ zoneIndices s.gmdsc c.zoneSelect, ∃ a, FreeRun s (s.zones i) c.n a

/-- The call finds what exists: it fails only when there is no free run. -/
def FindsFree (s : MmState) (c : AllocCall) : Prop :=
  HasFreeRun s c → (c.run s).1 ≠ none

/-- If there is a free run, some zone the call may use counts `n` free pages and has a window
    at a page its scan reaches. -/
def FreeRunServed (s : MmState) (c : AllocCall) : Prop :=
  HasFreeRun s c → ∃ i ∈ zoneIndices s.gmdsc c.zoneSelect, s.Serves c.n i

theorem findsFree_iff {s : MmState} {c : AllocCall} (hn : c.n ≤ 64) :
    FindsFree s c ↔ FreeRunServed s c := by
  unfold FindsFree FreeRunServed
  rw [Ne, run_none_iff hn]
  simp

/-- **When allocation finds what exists.** In every run of `alloc_pages` calls from the state
    `init_memory` leaves, for any boot: every call finds a free run if there is one exactly
    when, at every call, a free run means that a zone of the range serves the request. -/
theorem finds_iff_run (b : Boot) (cs : List AllocCall) (hn : ∀ c ∈ cs, 1 ≤ c.n ∧ c.n ≤ 64) :
    EveryCall FindsFree (initMemory b) cs ↔ EveryCall FreeRunServed (initMemory b) cs :=
  everyCall_congr (I := fun _ => True) (fun _ _ _ => trivial) cs
    (fun _ _ c hc => findsFree_iff (hn c hc).2) trivial

theorem finds_iff_run_lowBoot : EveryCall FindsFree (initMemory lowBoot) [onePage] := by
  refine (finds_iff_run lowBoot [onePage] (by simp [onePage])).mpr ⟨fun _ => ?_, trivial⟩
  have hacc := accounted_initMemory lowBoot_ordered lowBoot_kernelFits
  have hw := onePage_firstWindow hacc lowBoot_zonesSize lowBoot_zone.1 lowBoot_zone.2
    (lowBoot_free (i := 258) (by decide) (by decide))
  obtain ⟨i, -, ⟨hmem, -⟩, -⟩ := firstWindow_isLeast (by decide) (zoneIndices_pairwise _ _) hw
  exact ⟨i, hmem⟩

/-! ### A zone that is never scanned -/

/-- `lowBoot` with its first zone at pages 289 to 299, and 289 is `64 * 4 + 33`. -/
def midwordBoot : Boot :=
  { lowBoot with
    e820 := [⟨0x121000#64, 0xb000#64, 1#32⟩, ⟨0x12c000#64, 0x1ed4000#64, 2#32⟩,
      ⟨0x2000000#64, 0x100000#64, 1#32⟩]
    e820_le := by decide }

theorem midwordBoot_ordered : Ordered midwordBoot.e820 := ⟨by decide, by decide⟩

theorem midwordBoot_kernelFits : KernelFits midwordBoot :=
  ⟨by decide, ⟨0x2000000#64, 0x100000#64, 1#32⟩, by decide, by decide, by decide, by decide⟩

theorem midwordBoot_zone : ((initMemory midwordBoot).zones 0).zoneStartAddr = 0x121000#64 ∧
    ((initMemory midwordBoot).zones 0).zoneEndAddr = 0x12c000#64 := by
  obtain ⟨hs, he⟩ := initMemory_zone midwordBoot (k := 0) (by decide)
  exact ⟨hs.trans (by rfl), he.trans (by rfl)⟩

/-- Its scan reaches no page at all: page 289 has offset 33 in its word, and the next word
    starts behind the zone. -/
theorem midwordBoot_not_reaches (a : Nat) : ¬ ((initMemory midwordBoot).zones 0).Reaches a := by
  unfold MmZone.Reaches Reaches
  rw [midwordBoot_zone.1, midwordBoot_zone.2, show pageNumber 0x121000#64 = 289 by decide,
    show pageNumber 0x12c000#64 = 300 by decide]
  omega

/-- All of its pages are free, and a call for one of them fails. -/
theorem not_finds_midwordBoot :
    HasFreeRun (initMemory midwordBoot) onePage ∧
      ¬ EveryCall FindsFree (initMemory midwordBoot) [onePage] := by
  have hfree : (initMemory midwordBoot).bits.get 289 = false := by
    have hstart : midwordBoot.startKernel.toNat = 0x2000000 := rfl
    refine initMemory_free midwordBoot_ordered midwordBoot_kernelFits ?_ (by omega)
    exact ⟨⟨0x121000#64, 0xb000#64, 1#32⟩, by decide, by decide, by
      unfold E820.HasPage
      decide⟩
  have hrun : HasFreeRun (initMemory midwordBoot) onePage := by
    refine ⟨0, by rw [onePage, zoneIndices_normal]; simp, 289, fun l hl => ?_⟩
    have hl0 : l = 0 := Nat.lt_one_iff.mp hl
    subst hl0
    refine ⟨?_, hfree⟩
    rw [MmZone.Has, midwordBoot_zone.1, midwordBoot_zone.2]
    decide
  refine ⟨hrun, fun h => h.1 hrun ?_⟩
  refine (run_none_iff (by decide)).mpr fun i hi => ?_
  rw [onePage, zoneIndices_normal] at hi
  rw [List.mem_singleton.mp hi]
  rintro ⟨-, a, ha, -⟩
  exact midwordBoot_not_reaches a ha

end HelloOS.Mm
