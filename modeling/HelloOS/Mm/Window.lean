/-
  What the window test of `alloc_pages` says about bits, and where its scan stops.

  For a bit offset `k ≥ 1` the test on words `w` and `w + 1` says that the `n` bits from
  `64 * w + k` on are clear (`windowPasses_iff_free`). For `k = 0` the second shift count is
  64, which the CPU takes modulo 64: the test then also asks for the first `n` bits of word
  `w + 1` (`windowPasses_zero_iff`). So it asks for the window's bits only, unless the offset
  is 0 and the next word makes the difference (`windowTest_asks_iff`).
-/
import HelloOS.Mm.Alloc

namespace HelloOS.Mm

open HelloOS.Lib

theorem getLsbD_windowMask {n l : Nat} (hn : n ≤ 64) :
    (windowMask n).getLsbD l = decide (l < n) := by
  unfold windowMask
  by_cases h : n = 64
  · have hall : (0xffffffffffffffff#64) = BitVec.allOnes 64 := by decide
    rw [if_pos h, hall, BitVec.getLsbD_allOnes, h]
  · have hlt : n < 64 := by omega
    have hpow : 2 ^ n < 2 ^ 64 := Nat.pow_lt_pow_right (by decide) hlt
    have hone : (1#64 <<< n).toNat = 2 ^ n := by
      rw [BitVec.toNat_shiftLeft, Nat.shiftLeft_eq, show (1#64).toNat = 1 from rfl, Nat.one_mul]
      exact Nat.mod_eq_of_lt hpow
    have hsub : (1#64 <<< n - 1#64).toNat = 2 ^ n - 1 := by
      rw [BitVec.toNat_sub_of_le, hone]
      · rfl
      · rw [BitVec.le_def, hone]
        exact Nat.one_le_two_pow
    rw [if_neg h]
    unfold shl
    rw [Nat.mod_eq_of_lt hlt, BitVec.getLsbD, hsub, Nat.testBit_two_pow_sub_one]

/-- The test holds when both shifted words are clear in the low `n` bits. -/
theorem windowTest_iff {w w' : U64} {k n : Nat} (hn : n ≤ 64) :
    windowTest w w' k n = true ↔
      ∀ l, l < n → w.getLsbD (k + l) = false ∧ (shl w' (64 - k)).getLsbD l = false := by
  unfold windowTest
  rw [beq_iff_eq, BitVec.eq_of_getLsbD_eq_iff]
  constructor
  · intro h l hl
    have := h l (by omega)
    rw [BitVec.getLsbD_and, getLsbD_windowMask hn, BitVec.getLsbD_or,
      BitVec.getLsbD_ushiftRight] at this
    simpa [hl] using this
  · intro h l hl
    rw [BitVec.getLsbD_and, getLsbD_windowMask hn, BitVec.getLsbD_or,
      BitVec.getLsbD_ushiftRight]
    by_cases hln : l < n
    · simp [(h l hln).1, (h l hln).2]
    · simp [hln]

variable {bits : Bitmap} {n j k : Nat}

/-- The bits of word `j / 64`, and of the word after it. -/
theorem get_word (bits : Bitmap) (j : Nat) {l : Nat} (hl : l < 64) :
    (bits (j / 64)).getLsbD l = bits.get (64 * (j / 64) + l) := by
  unfold Bitmap.get
  rw [show (64 * (j / 64) + l) / 64 = j / 64 by omega,
    show (64 * (j / 64) + l) % 64 = l by omega]

theorem get_next_word (bits : Bitmap) (j : Nat) {l : Nat} (hl : l < 64) :
    (bits (j / 64 + 1)).getLsbD l = bits.get (64 * (j / 64) + 64 + l) := by
  unfold Bitmap.get
  rw [show (64 * (j / 64) + 64 + l) / 64 = j / 64 + 1 by omega,
    show (64 * (j / 64) + 64 + l) % 64 = l by omega]

/-- At a bit offset of at least 1 the test asks for the window's bits and no others. -/
theorem windowPasses_iff_free (hk : 1 ≤ k) (hk' : k < 64) (hn : n ≤ 64) :
    WindowPasses bits n j k ↔ ∀ l, l < n → bits.get (64 * (j / 64) + k + l) = false := by
  unfold WindowPasses
  rw [windowTest_iff hn]
  refine forall_congr' fun l => imp_congr_right fun hl => ?_
  unfold shl
  rw [show (64 - k) % 64 = 64 - k by omega, BitVec.getLsbD_shiftLeft]
  by_cases h : l < 64 - k
  · rw [get_word bits j (by omega), ← Nat.add_assoc]
    simp [h]
  · rw [BitVec.getLsbD_of_ge _ (k + l) (by omega), get_next_word bits j (by omega),
      show 64 * (j / 64) + 64 + (l - (64 - k)) = 64 * (j / 64) + k + l by omega]
    have : l < 64 := by omega
    simp [h, this]

/-- At bit offset 0 the test asks for the low `n` bits of the next word as well. -/
theorem windowPasses_zero_iff (hn : n ≤ 64) :
    WindowPasses bits n j 0 ↔ ∀ l, l < n →
      bits.get (64 * (j / 64) + l) = false ∧ bits.get (64 * (j / 64) + 64 + l) = false := by
  unfold WindowPasses
  rw [windowTest_iff hn]
  refine forall_congr' fun l => imp_congr_right fun hl => ?_
  unfold shl
  rw [show (64 - 0) % 64 = 0 by decide, BitVec.shiftLeft_zero, Nat.zero_add,
    get_word bits j (by omega), get_next_word bits j (by omega)]

/-- **What the window test says.** For every bitmap, word, bit offset and size: the test on the
    word and the next one asks whether the `n` bits from the offset on are clear, exactly when
    the offset is not 0, or one of them is set, or the low `n` bits of the next word are clear. -/
theorem windowTest_asks_iff (bits : Bitmap) (w k n : Nat) (hk : k < 64) (hn : n ≤ 64) :
    (windowTest (bits w) (bits (w + 1)) k n = true ↔
      ∀ l, l < n → bits.get (64 * w + k + l) = false) ↔
    k ≠ 0 ∨ (∃ l, l < n ∧ bits.get (64 * w + l) = true) ∨
      ∀ l, l < n → bits.get (64 * w + 64 + l) = false := by
  have hword : windowTest (bits w) (bits (w + 1)) k n = true ↔ WindowPasses bits n (64 * w) k := by
    unfold WindowPasses
    rw [Nat.mul_div_cancel_left w (by decide)]
  rw [hword]
  rcases Nat.eq_zero_or_pos k with rfl | hpos
  · rw [windowPasses_zero_iff hn, Nat.mul_div_cancel_left w (by decide)]
    have hset : (∃ l, l < n ∧ bits.get (64 * w + l) = true) ↔
        ¬ ∀ l, l < n → bits.get (64 * w + l) = false := by
      simp only [not_forall, Bool.not_eq_false, exists_prop]
    simp only [hset, Nat.add_zero, forall_and]
    tauto
  · rw [windowPasses_iff_free hpos hk hn, Nat.mul_div_cancel_left w (by decide)]
    exact iff_of_true Iff.rfl (Or.inl (Nat.ne_of_gt hpos))

theorem windowTest_asks_straddling :
    (windowTest ((fun _ => 0#64 : Bitmap) 0) ((fun _ => 0#64 : Bitmap) (0 + 1)) 60 8 = true ↔
      ∀ l, l < 8 → Bitmap.get (fun _ => 0#64) (64 * 0 + 60 + l) = false) ↔
    60 ≠ 0 ∨ (∃ l, l < 8 ∧ Bitmap.get (fun _ => 0#64) (64 * 0 + l) = true) ∨
      ∀ l, l < 8 → Bitmap.get (fun _ => 0#64) (64 * 0 + 64 + l) = false :=
  windowTest_asks_iff (fun _ => 0#64) 0 60 8 (by decide) (by decide)

/-- With bit 64 the only one set, the test at bit 0 for one bit fails. -/
theorem not_windowTest_asks :
    windowTest (Bitmap.set (fun _ => 0#64) 64 0) (Bitmap.set (fun _ => 0#64) 64 1) 0 1 = false ∧
      ¬ (windowTest (Bitmap.set (fun _ => 0#64) 64 0) (Bitmap.set (fun _ => 0#64) 64 (0 + 1)) 0 1 =
          true ↔ ∀ l, l < 1 → (Bitmap.set (fun _ => 0#64) 64).get (64 * 0 + 0 + l) = false) := by
  decide

/-! ## Where the scan stops -/

/-- A window the word scan finds passes, and its offset is in the loop's range. -/
theorem scanWord_some (h : scanWord bits n j = some k) :
    j % 64 ≤ k ∧ k < 64 - j % 64 ∧ WindowPasses bits n j k := by
  unfold scanWord at h
  have hm := List.mem_of_find?_eq_some h
  have hp := List.find?_some h
  rw [List.mem_range'_1] at hm
  exact ⟨hm.1, by omega, of_decide_eq_true hp⟩

/-- The word scan takes the first offset whose window passes. -/
theorem scanWord_eq_some (hlo : j % 64 ≤ k) (hhi : k < 64 - j % 64) (h : WindowPasses bits n j k)
    (hfirst : ∀ i, j % 64 ≤ i → i < k → ¬ WindowPasses bits n j i) :
    scanWord bits n j = some k := by
  unfold scanWord
  rw [List.find?_range'_eq_some]
  refine ⟨by simpa using h, List.mem_range'_1.mpr ⟨hlo, by omega⟩, fun i h1 h2 => ?_⟩
  simpa using hfirst i h1 h2

/-- If the first word of the first zone has a window, the search takes it. -/
theorem firstWindow_first {s : MmState} {i : Nat} (zs : List Nat) {z : MmZone}
    (hz : s.zones i = z) (hfree : n ≤ z.pageFreeCount.toNat)
    (hle : pageNumber z.zoneStartAddr ≤ pageNumber z.zoneEndAddr)
    (h : scanWord s.bits n (pageNumber z.zoneStartAddr) = some k) :
    firstWindow s n (i :: zs) = some (pageNumber z.zoneStartAddr, k) := by
  have hscan : scanZone s.bits n z = some (pageNumber z.zoneStartAddr, k) := by
    unfold scanZone
    dsimp only
    rw [show pageNumber z.zoneEndAddr + 1 - pageNumber z.zoneStartAddr =
      pageNumber z.zoneEndAddr - pageNumber z.zoneStartAddr + 1 by omega]
    unfold scanFrom
    rw [if_pos hle, h]
  unfold firstWindow
  rw [hz, if_neg (by omega), hscan]

end HelloOS.Mm
