/-
  The search of `alloc_pages`, said without its loops.

  A window is named by its first page `a`. The stops of a zone's scan lie in different words,
  so `a` determines the stop, and the scan order is the order of the pages: a scan ends at
  the least page of `MmZone.windows`, the pages it reaches whose window test passes
  (`scanZone_isLeast`), and finds nothing when there is none (`scanZone_none`). It does not
  reach every page of the zone: at a first stop `j` with offset `r` in its word it tries the
  offsets from `r` to `63 - r` only. The search over the zones ends at the least zone that
  counts enough free pages and has a window (`firstWindow_isLeast`).
-/
import HelloOS.Mm.Calls
import Mathlib.Order.Bounds.Basic

namespace HelloOS.Mm

open HelloOS.Lib

/-! ## Windows -/

/-- The bits the test of the window at `a` looks at are clear: the `n` bits from `a` on, and
    at the first bit of a word also the low `n` bits of the next word. -/
def ClearAt (bits : Bitmap) (n a : Nat) : Prop :=
  ∀ l, l < n → bits.get (a + l) = false ∧ (a % 64 = 0 → bits.get (a + 64 + l) = false)

/-- A scan that stops at `j` and runs to `end_` tries the window at `a`: in the word of `j` at
    an offset from `j % 64` to `63 - j % 64`, or anywhere in a later word that starts at or
    before `end_`. -/
def Reaches (j end_ a : Nat) : Prop :=
  (a / 64 = j / 64 ∧ j ≤ end_ ∧ j % 64 ≤ a % 64 ∧ a % 64 + j % 64 < 64) ∨
    (j / 64 < a / 64 ∧ 64 * (a / 64) ≤ end_)

instance (j end_ a : Nat) : Decidable (Reaches j end_ a) := inferInstanceAs (Decidable (_ ∨ _))

/-- The zone's scan tries the window at `a`. -/
def MmZone.Reaches (z : MmZone) (a : Nat) : Prop :=
  Mm.Reaches (pageNumber z.zoneStartAddr) (pageNumber z.zoneEndAddr) a

/-- The windows of `n` pages the zone's scan can end at. -/
def MmZone.windows (z : MmZone) (bits : Bitmap) (n : Nat) : Set Nat :=
  {a | z.Reaches a ∧ ClearAt bits n a}

/-- `j % 64` at the stop that tries the window at `a`: the zone's own offset in its first
    word, 0 in every other. -/
def MmZone.shift (z : MmZone) (a : Nat) : Nat :=
  if a / 64 = pageNumber z.zoneStartAddr / 64 then pageNumber z.zoneStartAddr % 64 else 0

variable {bits : Bitmap} {n j k end_ tmp fuel : Nat}

theorem windowPasses_iff_clearAt (hk : k < 64) (hn : n ≤ 64) :
    WindowPasses bits n j k ↔ ClearAt bits n (64 * (j / 64) + k) := by
  unfold ClearAt
  rcases Nat.eq_zero_or_pos k with rfl | hpos
  · rw [windowPasses_zero_iff hn]
    simp
  · rw [windowPasses_iff_free hpos hk hn]
    have hne : (64 * (j / 64) + k) % 64 ≠ 0 := by omega
    simp only [hne, false_imp_iff, and_true]

/-! ## The scan of one zone -/

theorem scanWord_none (hn : n ≤ 64) (h : scanWord bits n j = none) :
    ∀ a, a / 64 = j / 64 → j % 64 ≤ a % 64 → a % 64 + j % 64 < 64 → ¬ ClearAt bits n a := by
  intro a hw hlo hhi hc
  unfold scanWord at h
  rw [List.find?_eq_none] at h
  have hpass := h (a % 64) (List.mem_range'_1.mpr ⟨hlo, by omega⟩)
  rw [decide_eq_true_iff, windowPasses_iff_clearAt (by omega) hn,
    show 64 * (j / 64) + a % 64 = a by omega] at hpass
  exact hpass hc

/-- The word scan ends at the least window of the word. -/
theorem scanWord_isLeast (hn : n ≤ 64) (h : scanWord bits n j = some k) :
    (j % 64 ≤ k ∧ k + j % 64 < 64 ∧ ClearAt bits n (64 * (j / 64) + k)) ∧
    ∀ a, a / 64 = j / 64 → j % 64 ≤ a % 64 → a % 64 + j % 64 < 64 → ClearAt bits n a →
      64 * (j / 64) + k ≤ a := by
  obtain ⟨hlo, hhi, hpass⟩ := scanWord_some h
  refine ⟨⟨hlo, by omega, (windowPasses_iff_clearAt (by omega) hn).mp hpass⟩, ?_⟩
  intro a hw halo hahi hc
  by_contra hlt
  unfold scanWord at h
  rw [List.find?_range'_eq_some] at h
  have hfail := h.2.2 (a % 64) halo (by omega)
  have hpass' : WindowPasses bits n j (a % 64) := by
    rw [windowPasses_iff_clearAt (by omega) hn, show 64 * (j / 64) + a % 64 = a by omega]
    exact hc
  simp [hpass'] at hfail

/-- Behind a stop `j` the scan goes on at the next word. -/
theorem next_stop (h : j % 64 = 0 ∨ tmp = 64 - j % 64) :
    j + scanStep tmp j = 64 * (j / 64 + 1) := by
  unfold scanStep
  split <;> omega

theorem reaches_iff (j end_ a : Nat) :
    Reaches j end_ a ↔
      (a / 64 = j / 64 ∧ j ≤ end_ ∧ j % 64 ≤ a % 64 ∧ a % 64 + j % 64 < 64) ∨
        Reaches (64 * (j / 64 + 1)) end_ a := by
  unfold Reaches
  omega

theorem not_reaches_of_lt {a : Nat} (h : end_ < j) : ¬ Reaches j end_ a := by
  unfold Reaches
  omega

theorem scanFrom_none (hn : n ≤ 64) (htmp : j % 64 = 0 ∨ tmp = 64 - j % 64)
    (hfuel : end_ + 1 ≤ j + fuel) (h : scanFrom bits n end_ tmp fuel j = none) :
    ∀ a, Reaches j end_ a → ¬ ClearAt bits n a := by
  induction fuel generalizing j with
  | zero => exact fun a ha => absurd ha (not_reaches_of_lt (by omega))
  | succ fuel ih =>
      intro a ha
      unfold scanFrom at h
      split at h
      · next hle =>
          split at h
          · exact absurd h (by simp)
          · next hword =>
              rw [next_stop htmp] at h
              rcases (reaches_iff j end_ a).mp ha with ⟨hw, -, hlo, hhi⟩ | hnext
              · exact scanWord_none hn hword a hw hlo hhi
              · exact ih (Or.inl (by omega)) (by omega) h a hnext
      · exact absurd ha (not_reaches_of_lt (by omega))

/-- A scan ends at the least window it reaches; its stop is its start, or that window's word. -/
theorem scanFrom_isLeast {j' : Nat} (hn : n ≤ 64) (htmp : j % 64 = 0 ∨ tmp = 64 - j % 64)
    (h : scanFrom bits n end_ tmp fuel j = some (j', k)) :
    IsLeast {a | Reaches j end_ a ∧ ClearAt bits n a} (64 * (j' / 64) + k) ∧
      k < 64 ∧ j' % 64 = if j' / 64 = j / 64 then j % 64 else 0 := by
  induction fuel generalizing j with
  | zero => simp [scanFrom] at h
  | succ fuel ih =>
      unfold scanFrom at h
      split at h
      · next hle =>
          split at h
          · next k' hk' =>
              simp only [Option.some.injEq, Prod.mk.injEq] at h
              obtain ⟨rfl, rfl⟩ := h
              obtain ⟨⟨hlo, hhi, hc⟩, hleast⟩ := scanWord_isLeast hn hk'
              refine ⟨⟨⟨Or.inl ⟨by omega, hle, by omega, by omega⟩, hc⟩, ?_⟩, by omega, by simp⟩
              rintro a ⟨ha, hca⟩
              rcases ha with ⟨hw, -, halo, hahi⟩ | ⟨hw, -⟩
              · exact hleast a hw halo hahi hca
              · omega
          · next hword =>
              rw [next_stop htmp] at h
              obtain ⟨⟨⟨hr, hc⟩, hleast⟩, hk, hj'⟩ := ih (Or.inl (by omega)) h
              have hlater : j / 64 < (64 * (j' / 64) + k) / 64 := by
                unfold Reaches at hr
                omega
              refine ⟨⟨⟨(reaches_iff j end_ _).mpr (Or.inr hr), hc⟩, ?_⟩, hk, ?_⟩
              · rintro a ⟨ha, hca⟩
                rcases (reaches_iff j end_ a).mp ha with ⟨hw, -, halo, hahi⟩ | hnext
                · exact absurd hca (scanWord_none hn hword a hw halo hahi)
                · exact hleast ⟨hnext, hca⟩
              · rw [if_neg (by omega)]
                split at hj' <;> omega
      · exact absurd h (by simp)

/-- A zone's scan finds nothing exactly when the zone has no window. -/
theorem scanZone_none {z : MmZone} (hn : n ≤ 64) :
    scanZone bits n z = none ↔ z.windows bits n = ∅ := by
  constructor
  · intro h
    refine Set.eq_empty_of_forall_notMem fun a ha => ?_
    exact scanFrom_none hn (by omega) (by omega) h a ha.1 ha.2
  · intro h
    cases hs : scanZone bits n z with
    | none => rfl
    | some jk =>
        obtain ⟨j', k'⟩ := jk
        have hmem : 64 * (j' / 64) + k' ∈ z.windows bits n :=
          (scanFrom_isLeast hn (by omega) hs).1.1
        exact absurd hmem (by rw [h]; simp)

/-- A zone's scan ends at the zone's least window, at the stop of that window's word. -/
theorem scanZone_isLeast {z : MmZone} (hn : n ≤ 64) (h : scanZone bits n z = some (j, k)) :
    IsLeast (z.windows bits n) (64 * (j / 64) + k) ∧
      j + k = 64 * (j / 64) + k + z.shift (64 * (j / 64) + k) := by
  obtain ⟨hleast, hk, hj⟩ := scanFrom_isLeast hn (by omega) h
  refine ⟨hleast, ?_⟩
  unfold MmZone.shift
  rw [show (64 * (j / 64) + k) / 64 = j / 64 by omega, ← hj]
  omega

/-! ## The search over the zones -/

/-- Zone `i` can serve a request for `n` pages: it counts as many free pages, and has a
    window. -/
def MmState.Serves (s : MmState) (n i : Nat) : Prop :=
  n ≤ (s.zones i).pageFreeCount.toNat ∧ ((s.zones i).windows s.bits n).Nonempty

theorem not_serves_of_lt {s : MmState} {i : Nat} (h : (s.zones i).pageFreeCount.toNat < n) :
    ¬ s.Serves n i := fun hs => Nat.not_le_of_lt h hs.1

/-- A zone that counts enough free pages serves exactly when its scan finds a window. -/
theorem serves_iff_scanZone {s : MmState} {i : Nat} (hn : n ≤ 64)
    (hfree : ¬ (s.zones i).pageFreeCount.toNat < n) :
    s.Serves n i ↔ scanZone s.bits n (s.zones i) ≠ none := by
  unfold MmState.Serves
  rw [and_iff_right (Nat.le_of_not_lt hfree), Ne, scanZone_none hn, Set.nonempty_iff_ne_empty]

theorem firstWindow_none {s : MmState} (hn : n ≤ 64) (is : List Nat) :
    firstWindow s n is = none ↔ ∀ i ∈ is, ¬ s.Serves n i := by
  induction is with
  | nil => simp [firstWindow]
  | cons i is ih =>
      unfold firstWindow
      rw [List.forall_mem_cons]
      by_cases hfree : (s.zones i).pageFreeCount.toNat < n
      · rw [if_pos hfree, ih, and_iff_right (not_serves_of_lt hfree)]
      · rw [if_neg hfree, serves_iff_scanZone hn hfree]
        cases scanZone s.bits n (s.zones i) with
        | none => simp [ih]
        | some jk => simp

/-- The search takes the first zone of its list that serves, and that zone's least window. -/
theorem firstWindow_isLeast {s : MmState} (hn : n ≤ 64) {is : List Nat} (hord : is.Pairwise (· < ·))
    (h : firstWindow s n is = some (j, k)) :
    ∃ i a, IsLeast {i | i ∈ is ∧ s.Serves n i} i ∧ IsLeast ((s.zones i).windows s.bits n) a ∧
      a = 64 * (j / 64) + k ∧ j + k = a + (s.zones i).shift a := by
  induction is with
  | nil => simp [firstWindow] at h
  | cons i is ih =>
      obtain ⟨hlt, hord'⟩ := List.pairwise_cons.mp hord
      have hskip : firstWindow s n is = some (j, k) → ¬ s.Serves n i →
          ∃ i' a, IsLeast {i' | i' ∈ i :: is ∧ s.Serves n i'} i' ∧
            IsLeast ((s.zones i').windows s.bits n) a ∧
            a = 64 * (j / 64) + k ∧ j + k = a + (s.zones i').shift a := by
        intro hrest hnot
        obtain ⟨i', a, ⟨⟨hmem, hserves⟩, hleast⟩, ha⟩ := ih hord' hrest
        refine ⟨i', a, ⟨⟨List.mem_cons_of_mem i hmem, hserves⟩, ?_⟩, ha⟩
        rintro y ⟨hy, hys⟩
        rcases List.mem_cons.mp hy with rfl | hy
        · exact absurd hys hnot
        · exact hleast ⟨hy, hys⟩
      unfold firstWindow at h
      split at h
      · next hfree => exact hskip h (not_serves_of_lt hfree)
      · next hfree =>
          split at h
          · next jk hjk =>
              simp only [Option.some.injEq] at h
              subst h
              obtain ⟨hleast, hj⟩ := scanZone_isLeast hn hjk
              refine ⟨i, 64 * (j / 64) + k, ⟨⟨List.mem_cons_self, by omega, _, hleast.1⟩, ?_⟩,
                hleast, rfl, hj⟩
              rintro y ⟨hy, -⟩
              rcases List.mem_cons.mp hy with rfl | hy
              · exact Nat.le_refl _
              · exact Nat.le_of_lt (hlt y hy)
          · next hnone =>
              refine hskip h ?_
              rw [serves_iff_scanZone hn hfree]
              exact not_not_intro hnone

/-! ## One call -/

theorem zoneIndices_pairwise (g : Gmdsc) (zoneSelect : Int) :
    (zoneIndices g zoneSelect).Pairwise (· < ·) := by
  unfold zoneIndices
  split
  · exact List.Pairwise.nil
  · next zoneStart zoneEnd hrange =>
      have hstart : zoneStart = 0 := by
        unfold zoneRange at hrange
        split_ifs at hrange <;> exact (congrArg Prod.fst (Option.some.inj hrange)).symm
      rw [hstart, List.pairwise_map]
      exact List.pairwise_lt_range.imp fun h => by omega

variable {s : MmState} {c : AllocCall}

/-- A call fails exactly when no zone it may use serves. -/
theorem run_none_iff (hn : c.n ≤ 64) :
    (c.run s).1 = none ↔ ∀ i ∈ zoneIndices s.gmdsc c.zoneSelect, ¬ s.Serves c.n i := by
  rw [← firstWindow_none hn]
  rcases allocPages_cases s c.zoneSelect c.n c.flags with ⟨hw, heq⟩ | ⟨j, k, hw, heq⟩
  · rw [AllocCall.run, heq, hw]
    simp
  · rw [AllocCall.run, heq, hw]
    simp

/-- A call that succeeds takes the least zone that serves and the least window `a` there; its
    block starts at page `a + shift - 1`, taken modulo 2^64. -/
theorem run_some (hn : c.n ≤ 64) {page : Nat} (h : (c.run s).1 = some page) :
    ∃ i a, IsLeast {i | i ∈ zoneIndices s.gmdsc c.zoneSelect ∧ s.Serves c.n i} i ∧
      IsLeast ((s.zones i).windows s.bits c.n) a ∧
      page = (a + (s.zones i).shift a + (2 ^ 64 - 1)) % 2 ^ 64 := by
  rcases allocPages_cases s c.zoneSelect c.n c.flags with ⟨-, heq⟩ | ⟨j, k, hw, heq⟩
  · rw [AllocCall.run, heq] at h
    exact absurd h (by simp)
  · obtain ⟨i, a, hi, ha, -, hsum⟩ := firstWindow_isLeast hn (zoneIndices_pairwise _ _) hw
    rw [AllocCall.run, heq] at h
    refine ⟨i, a, hi, ha, ?_⟩
    rw [← Option.some.inj h, blockStart, hsum]

end HelloOS.Mm
