/-
  `mm/alloc.c`: `alloc_pages` scans the bitmap words of the zones it may use for a window
  of `n` clear bits and hands out `n` pages.

  The search (`firstWindow`) and the marking of the pages (`pageInit` over `blockPages`)
  are kept apart, as they are in the C function by its `goto`: the search reads the state
  and never writes it. A window is named by the two loop counters: `j`, a page number, and
  `k`, a bit offset in the word `j >> 6`. The bits it tests start at `64 * (j >> 6) + k`;
  the page it hands out is `j + k - 1` (`blockStart`).
-/
import HelloOS.Mm.Init

namespace HelloOS.Mm

open HelloOS.Lib

/-! ## The window test -/

/-- `x << c` as `shl` performs it: the count is taken modulo 64. -/
def shl (x : U64) (c : Nat) : U64 := x <<< (c % 64)

/-- `n == 64 ? 0xffffffffffffffffUL : ((1UL << n) - 1)`. -/
def windowMask (n : Nat) : U64 :=
  if n = 64 then 0xffffffffffffffff#64 else shl 1#64 n - 1#64

/-- `!(((*p >> k) | (*(p + 1) << (64 - k))) & mask)`. -/
def windowTest (w w' : U64) (k n : Nat) : Bool :=
  ((w >>> k) ||| shl w' (64 - k)) &&& windowMask n == 0#64

/-- The window at `(j, k)` passes the test. -/
def WindowPasses (bits : Bitmap) (n j k : Nat) : Prop :=
  windowTest (bits (j / 64)) (bits (j / 64 + 1)) k n = true

instance (bits : Bitmap) (n j k : Nat) : Decidable (WindowPasses bits n j k) :=
  inferInstanceAs (Decidable (_ = _))

/-! ## The search -/

/-- The loop `for (k = shift; k < 64 - shift; k++)` with `shift = j % 64`. -/
def scanWord (bits : Bitmap) (n j : Nat) : Option Nat :=
  (List.range' (j % 64) (64 - j % 64 - j % 64)).find? fun k => WindowPasses bits n j k

/-- The step of the loop over `j`: `j % 64 ? tmp : 64`. -/
def scanStep (tmp j : Nat) : Nat := if j % 64 ≠ 0 then tmp else 64

/-- The loop `for (j = start; j <= end; j += …)`, for at most `fuel` turns. -/
def scanFrom (bits : Bitmap) (n end_ tmp : Nat) : Nat → Nat → Option (Nat × Nat)
  | 0, _ => none
  | fuel + 1, j =>
      if j ≤ end_ then
        match scanWord bits n j with
        | some k => some (j, k)
        | none => scanFrom bits n end_ tmp fuel (j + scanStep tmp j)
      else none

/-- The scan of one zone. Every step is at least 1, so `end + 1 - start` turns are all
    the loop takes. -/
def scanZone (bits : Bitmap) (n : Nat) (z : MmZone) : Option (Nat × Nat) :=
  let start := pageNumber z.zoneStartAddr
  let end_ := pageNumber z.zoneEndAddr
  scanFrom bits n end_ (64 - start % 64) (end_ + 1 - start) start

/-- The loop over the zones: those with `page_free_count < n` are skipped. -/
def firstWindow (s : MmState) (n : Nat) : List Nat → Option (Nat × Nat)
  | [] => none
  | i :: is =>
      if (s.zones i).pageFreeCount.toNat < n then firstWindow s n is
      else
        match scanZone s.bits n (s.zones i) with
        | some jk => some jk
        | none => firstWindow s n is

/-! ### Zone selection -/

/-- `ZONE_DMA`. -/
def zoneDma : Int := 1

/-- `ZONE_NORMAL`. -/
def zoneNormal : Int := 2

/-- `ZONE_UNMAPED`. -/
def zoneUnmaped : Int := 4

/-- `ZONE_DMA_INDEX`, a global that nothing assigns. -/
def zoneDmaIndex : Int := 0

/-- `ZONE_NORMAL_INDEX`, a global that nothing assigns. -/
def zoneNormalIndex : Int := 0

/-- `ZONE_UNMAPED_INDEX`, a global that nothing assigns. -/
def zoneUnmapedIndex : Int := 0

/-- `(zone_start, zone_end)` of the switch; `none` is its `default`, which reports an
    error and returns `NULL`. -/
def zoneRange (g : Gmdsc) (zoneSelect : Int) : Option (Int × Int) :=
  if zoneSelect = zoneDma then some (0, zoneDmaIndex)
  else if zoneSelect = zoneNormal then some (zoneDmaIndex, zoneNormalIndex)
  else if zoneSelect = zoneUnmaped then
    some (zoneUnmapedIndex, ((g.zonesSize - 1#64).setWidth 32).toInt)
  else none

/-- The indices of `for (i = zone_start; i <= zone_end; i++)`. -/
def zoneIndices (g : Gmdsc) (zoneSelect : Int) : List Nat :=
  match zoneRange g zoneSelect with
  | none => []
  | some (zoneStart, zoneEnd) =>
      (List.range (zoneEnd + 1 - zoneStart).toNat).map fun d : Nat => (zoneStart + (d : Int)).toNat

/-! ## `alloc_pages` -/

/-- `page = j + k - 1`, an `unsigned long`. -/
def blockStart (j k : Nat) : Nat := (j + k + (2 ^ 64 - 1)) % 2 ^ 64

/-- The page indices `page + l` for `l < n`. -/
def blockPages (page n : Nat) : List Nat := (List.range n).map fun l => (page + l) % 2 ^ 64

/-- `alloc_pages(zone_select, n, flags)` for `n ≥ 0`: the index in `pages_struct` of the
    page it returns, `none` for `NULL`, and the state it leaves. -/
def allocPages (s : MmState) (zoneSelect : Int) (n : Nat) (flags : U64) : Option Nat × MmState :=
  match firstWindow s n (zoneIndices s.gmdsc zoneSelect) with
  | none => (none, s)
  | some (j, k) =>
      let page := blockStart j k
      (some page, initPages s flags (blockPages page n))

variable (s : MmState) (zoneSelect : Int) (n : Nat) (flags : U64)

/-- What `alloc_pages` can do: find nothing and change nothing, or find a first window and
    initialise the `n` pages from `blockStart` on. -/
theorem allocPages_cases :
    (firstWindow s n (zoneIndices s.gmdsc zoneSelect) = none ∧
      allocPages s zoneSelect n flags = (none, s)) ∨
    ∃ j k, firstWindow s n (zoneIndices s.gmdsc zoneSelect) = some (j, k) ∧
      allocPages s zoneSelect n flags =
        (some (blockStart j k), initPages s flags (blockPages (blockStart j k) n)) := by
  unfold allocPages
  cases h : firstWindow s n (zoneIndices s.gmdsc zoneSelect) with
  | none => exact Or.inl ⟨rfl, rfl⟩
  | some jk => exact Or.inr ⟨jk.1, jk.2, rfl, rfl⟩

/-- A search that finds a window. -/
theorem allocPages_of_window {s : MmState} {zoneSelect : Int} {n j k : Nat}
    (hw : firstWindow s n (zoneIndices s.gmdsc zoneSelect) = some (j, k)) :
    allocPages s zoneSelect n flags =
      (some (blockStart j k), initPages s flags (blockPages (blockStart j k) n)) := by
  unfold allocPages
  rw [hw]

theorem mem_blockPages {page n i : Nat} :
    i ∈ blockPages page n ↔ ∃ l, l < n ∧ (page + l) % 2 ^ 64 = i := by
  simp [blockPages]

end HelloOS.Mm
