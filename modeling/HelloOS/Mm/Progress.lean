/-
  How the scan of a zone advances.

  The loop over `j` in `alloc_pages` starts at the zone's first page. Its step takes a first
  stop that is not at the start of a word to the next word, and every other stop 64 pages on
  (`next_stop`). A scan in which no window passes stops in every word from the zone's first to
  that of its end, once and in order, and ends (`zoneStops_eq`). `j` is an `unsigned long`:
  page numbers are below 2^52, so it does not wrap on the way.
-/
import HelloOS.Mm.NoDouble

namespace HelloOS.Mm

open HelloOS.Lib

/-- The values of `j` for which the body of the loop runs, if it ends within `turns` tests of
    its condition. -/
def scanStops (bits : Bitmap) (n end_ tmp : Nat) : Nat → Nat → Option (List Nat)
  | 0, _ => none
  | turns + 1, j =>
      if j ≤ end_ then
        if (scanWord bits n j).isSome then some [j]
        else (scanStops bits n end_ tmp turns ((j + scanStep tmp j) % 2 ^ 64)).map (j :: ·)
      else some []

/-- The stops of the scan of a zone. -/
def zoneStops (bits : Bitmap) (n : Nat) (z : MmZone) (turns : Nat) : Option (List Nat) :=
  let start := pageNumber z.zoneStartAddr
  let end_ := pageNumber z.zoneEndAddr
  scanStops bits n end_ (64 - start % 64) turns start

variable {bits : Bitmap} {n j end_ tmp fuel turns : Nat}

/-- A scan that finds nothing finds nothing in the word of its start, nor behind it. -/
theorem scanFrom_none_step (hle : j ≤ end_) (h : scanFrom bits n end_ tmp (fuel + 1) j = none) :
    scanWord bits n j = none ∧ scanFrom bits n end_ tmp fuel (j + scanStep tmp j) = none := by
  unfold scanFrom at h
  rw [if_pos hle] at h
  cases hw : scanWord bits n j with
  | none => exact ⟨rfl, by rwa [hw] at h⟩
  | some k => exact absurd h (by simp [hw])

/-- The turn at a stop where no window passes. -/
theorem scanStops_succ (hle : j ≤ end_) (hend : end_ < 2 ^ 52)
    (htmp : j % 64 = 0 ∨ tmp = 64 - j % 64) (hw : scanWord bits n j = none) :
    scanStops bits n end_ tmp (turns + 1) j =
      (scanStops bits n end_ tmp turns (64 * (j / 64 + 1))).map (j :: ·) := by
  have hwrap : (j + scanStep tmp j) % 2 ^ 64 = 64 * (j / 64 + 1) := by
    rw [next_stop htmp]
    exact Nat.mod_eq_of_lt (by omega)
  rw [scanStops, if_pos hle, hw, hwrap]
  rfl

/-- From a word's start on, the scan stops at the starts of all words up to the end's. -/
theorem scanStops_aligned {w : Nat} (hend : end_ < 2 ^ 52) (hfuel : end_ + 1 ≤ 64 * w + fuel)
    (h : scanFrom bits n end_ tmp fuel (64 * w) = none) (hturns : end_ / 64 + 1 - w < turns) :
    scanStops bits n end_ tmp turns (64 * w) =
      some ((List.range' w (end_ / 64 + 1 - w)).map (64 * ·)) := by
  induction turns generalizing w fuel with
  | zero => exact absurd hturns (Nat.not_lt_zero _)
  | succ turns ih =>
      have hmod : 64 * w % 64 = 0 := Nat.mul_mod_right 64 w
      have hword : 64 * w / 64 = w := Nat.mul_div_cancel_left w (by decide)
      by_cases hle : 64 * w ≤ end_
      · obtain ⟨fuel, rfl⟩ : ∃ f, fuel = f + 1 := ⟨fuel - 1, by omega⟩
        obtain ⟨hw, hrest⟩ := scanFrom_none_step hle h
        rw [next_stop (Or.inl hmod), hword] at hrest
        have hcount : end_ / 64 + 1 - w = end_ / 64 + 1 - (w + 1) + 1 := by omega
        rw [scanStops_succ hle hend (Or.inl hmod) hw, hword,
          ih (by omega) hrest (by omega), hcount, List.range'_succ, List.map_cons]
        rfl
      · have hcount : end_ / 64 + 1 - w = 0 := by omega
        rw [scanStops, if_neg hle, hcount]
        rfl

/-- The stops of a scan that finds nothing: the zone's first page, and the starts of the words
    behind its word up to the one of its end. -/
theorem zoneStops_eq {z : MmZone} (hle : pageNumber z.zoneStartAddr ≤ pageNumber z.zoneEndAddr)
    (h : scanZone bits n z = none)
    (hturns : pageNumber z.zoneEndAddr / 64 + 1 - pageNumber z.zoneStartAddr / 64 < turns) :
    zoneStops bits n z turns = some (pageNumber z.zoneStartAddr ::
      (List.range' (pageNumber z.zoneStartAddr / 64 + 1)
        (pageNumber z.zoneEndAddr / 64 - pageNumber z.zoneStartAddr / 64)).map (64 * ·)) := by
  have hend := pageNumber_lt z.zoneEndAddr
  unfold scanZone at h
  unfold zoneStops
  dsimp only at h ⊢
  generalize pageNumber z.zoneStartAddr = start at *
  generalize pageNumber z.zoneEndAddr = end_ at *
  have htmp : start % 64 = 0 ∨ 64 - start % 64 = 64 - start % 64 := Or.inr rfl
  obtain ⟨turns, rfl⟩ : ∃ t, turns = t + 1 := ⟨turns - 1, by omega⟩
  rw [show end_ + 1 - start = (end_ - start) + 1 by omega] at h
  obtain ⟨hw, hrest⟩ := scanFrom_none_step hle h
  rw [next_stop htmp] at hrest
  rw [scanStops_succ hle hend htmp hw, scanStops_aligned hend (by omega) hrest (by omega),
    Nat.add_sub_add_right]
  rfl

/-- **How the scan advances.** For every bitmap, size and zone with its start in front of its
    end in which no window test succeeds: the loop over `j` ends, the words it looks at are
    those from the start's to the end's, each once and in order, and every `j` but the first
    is a multiple of 64. -/
theorem scan_progress (bits : Bitmap) (n : Nat) (z : MmZone)
    (hlt : pageNumber z.zoneStartAddr < pageNumber z.zoneEndAddr)
    (hnone : scanZone bits n z = none) :
    ∃ js, (∀ turns, pageNumber z.zoneEndAddr / 64 + 1 - pageNumber z.zoneStartAddr / 64 < turns →
        zoneStops bits n z turns = some js) ∧
      js.map (· / 64) = List.range' (pageNumber z.zoneStartAddr / 64)
        (pageNumber z.zoneEndAddr / 64 + 1 - pageNumber z.zoneStartAddr / 64) ∧
      js.head? = some (pageNumber z.zoneStartAddr) ∧ ∀ j ∈ js.tail, j % 64 = 0 := by
  refine ⟨_, fun turns hturns => zoneStops_eq (Nat.le_of_lt hlt) hnone hturns, ?_, rfl, ?_⟩
  · have hwords : (fun w => 64 * w / 64) = id := by
      funext w
      exact Nat.mul_div_cancel_left w (by decide)
    have hcount : pageNumber z.zoneEndAddr / 64 + 1 - pageNumber z.zoneStartAddr / 64 =
        pageNumber z.zoneEndAddr / 64 - pageNumber z.zoneStartAddr / 64 + 1 := by omega
    rw [hcount, List.range'_succ, List.map_cons, List.map_map]
    change _ :: List.map (fun w => 64 * w / 64) _ = _
    rw [hwords, List.map_id]
  · intro j hj
    obtain ⟨w, -, rfl⟩ := List.mem_map.mp hj
    exact Nat.mul_mod_right 64 w

/-- Pages 100 to 199. -/
def fullZone : MmZone :=
  { MmZone.zero with zoneStartAddr := 0x64000#64, zoneEndAddr := 0xc8000#64 }

theorem scan_progress_fullZone :
    ∃ js, (∀ turns, 3 < turns →
        zoneStops (Bitmap.ones (fun _ => 0#64) 8) 1 fullZone turns = some js) ∧
      js.map (· / 64) = List.range' 1 3 ∧ js.head? = some 100 ∧ ∀ j ∈ js.tail, j % 64 = 0 :=
  scan_progress (Bitmap.ones (fun _ => 0#64) 8) 1 fullZone (by decide) (by decide +kernel)

end HelloOS.Mm
