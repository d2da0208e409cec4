/-
  What the zone loop of `construct_mem_struct` builds, in terms of extents.

  An `Extent` is the page-aligned, non-empty interval of an available E820 entry; the
  loop skips every entry that has none, so it runs over `extents e820`
  (`constructStep_foldl`). `constructZone_spec` is one turn, `buildZones_spec` the whole
  loop, for any map: zone `t` is the record of extent `t`; a page of some extent gets a
  fresh struct that points to the zone of such an extent; a bit is toggled once for every
  extent that has its page. `Consistent` is what every allocator state keeps from this:
  a zone page's struct carries that page's own number, and a used zone page has its bit set.
-/
import HelloOS.Mm.Init

namespace HelloOS.Mm

open HelloOS.Lib

/-! ## Extents -/

/-- The whole pages of an available entry: what becomes a zone. -/
@[ext] structure Extent where
  start : U64
  end_ : U64
  start_dvd : 4096 ∣ start.toNat
  end_dvd : 4096 ∣ end_.toNat
  lt : start.toNat < end_.toNat

/-- Page `i` lies in the extent. -/
def Extent.Has (x : Extent) (i : Nat) : Prop := pageNumber x.start ≤ i ∧ i < pageNumber x.end_

instance (x : Extent) (i : Nat) : Decidable (x.Has i) := inferInstanceAs (Decidable (_ ∧ _))

theorem E820.end_dvd (e : E820) : 4096 ∣ e.end_.toNat := by
  unfold E820.end_
  rw [toNat_shiftRight_shiftLeft]
  exact Nat.dvd_mul_right _ _

/-- The extent of an entry, if it is available and holds a whole page. -/
def E820.extent? (e : E820) : Option Extent :=
  if h : e.type = e820TypeAvailable ∧ e.start.toNat < e.end_.toNat then
    some ⟨e.start, e.end_, page4kAlign_dvd e.addr, e.end_dvd, h.2⟩
  else none

/-- The extents of a map, in order. -/
def extents (es : List E820) : List Extent := es.filterMap E820.extent?

theorem E820.extent?_eq_some {e : E820} {x : Extent} :
    e.extent? = some x ↔ e.type = e820TypeAvailable ∧ x.start = e.start ∧ x.end_ = e.end_ := by
  unfold E820.extent?
  by_cases h : e.type = e820TypeAvailable ∧ e.start.toNat < e.end_.toNat
  · rw [dif_pos h, Option.some.injEq, Extent.ext_iff]
    exact ⟨fun hx => ⟨h.1, hx.1.symm, hx.2.symm⟩, fun hx => ⟨hx.2.1.symm, hx.2.2.symm⟩⟩
  · rw [dif_neg h]
    simp only [reduceCtorEq, false_iff]
    rintro ⟨ht, hs, he⟩
    exact h ⟨ht, hs ▸ he ▸ x.lt⟩

theorem mem_extents {es : List E820} {x : Extent} :
    x ∈ extents es ↔ ∃ e ∈ es, e.extent? = some x := by
  simp [extents]

theorem extents_length_le (es : List E820) :
    (extents es).length ≤ es.countP fun e => e.type = e820TypeAvailable := by
  induction es with
  | nil => exact Nat.le_refl _
  | cons e es ih =>
      unfold extents at ih ⊢
      cases h : e.extent? with
      | none =>
          rw [List.filterMap_cons_none h, List.countP_cons]
          omega
      | some x =>
          have ht := (E820.extent?_eq_some.mp h).1
          rw [List.filterMap_cons_some h, List.countP_cons, List.length_cons, if_pos (by simp [ht])]
          omega

/-- The number of pages of an extent. -/
def Extent.size (x : Extent) : Nat := pageNumber x.end_ - pageNumber x.start

theorem Extent.first_lt (x : Extent) : pageNumber x.start < pageNumber x.end_ := by
  have h1 := x.start_dvd
  have h2 := x.end_dvd
  have h3 := x.lt
  rw [pageNumber_eq, pageNumber_eq]
  omega

theorem Extent.pagesLength (x : Extent) :
    (freshZone x.start x.end_).pagesLength.toNat = x.size := by
  have h1 := x.start_dvd
  have h2 := x.end_dvd
  have h3 := x.lt
  have hsub : (x.end_ - x.start).toNat = x.end_.toNat - x.start.toNat := by bv_omega
  unfold freshZone Extent.size
  rw [pageNumber_eq, pageNumber_eq, BitVec.toNat_ushiftRight, hsub, Nat.shiftRight_eq_div_pow]
  omega

theorem freshZone_has (x : Extent) (i : Nat) :
    (freshZone x.start x.end_).Has i ↔ x.Has i := Iff.rfl

/-! ## One zone -/

/-- The struct `construct_mem_struct` writes for page `i` of zone `z`. -/
def freshPage (z i : Nat) : MmPage := ⟨BitVec.ofNat 64 (4096 * i), 0#64, 0#64, 0#64, some z⟩

theorem pageNumber_ofNat {i : Nat} (h : i < 2 ^ 52) :
    pageNumber (BitVec.ofNat 64 (4096 * i)) = i := by
  rw [pageNumber_eq, BitVec.toNat_ofNat, Nat.mod_eq_of_lt (by omega)]
  omega

/-- The address of page `j` of an extent. -/
theorem Extent.phyAddr_eq (x : Extent) (j : Nat) :
    x.start + page4kSize * BitVec.ofNat 64 j =
      BitVec.ofNat 64 (4096 * (pageNumber x.start + j)) := by
  have h1 : x.start = BitVec.ofNat 64 (4096 * pageNumber x.start) := by
    apply BitVec.eq_of_toNat_eq
    have hd := x.start_dvd
    have hl := x.start.isLt
    rw [BitVec.toNat_ofNat, pageNumber_eq]
    omega
  have h2 : page4kSize = BitVec.ofNat 64 4096 := rfl
  rw [Nat.mul_add, BitVec.ofNat_add, ← h1, h2, ← BitVec.ofNat_mul]

/-- The page loop after `n` turns. -/
theorem constructPage_foldl (x : Extent) (z n : Nat) (hn : n ≤ x.size) (s : MmState) :
    let t := (List.range n).foldl (constructPage z x.start) s
    t.gmdsc = s.gmdsc ∧ t.zones = s.zones ∧ t.nullZone = s.nullZone ∧
    (∀ i, t.pages i = if pageNumber x.start ≤ i ∧ i < pageNumber x.start + n then freshPage z i
      else s.pages i) ∧
    ∀ i, t.bits.get i =
      (decide (pageNumber x.start ≤ i ∧ i < pageNumber x.start + n) ^^ s.bits.get i) := by
  induction n with
  | zero =>
      refine ⟨rfl, rfl, rfl, fun i => ?_, fun i => ?_⟩
      · rw [if_neg (by omega)]; rfl
      · have : ¬ (pageNumber x.start ≤ i ∧ i < pageNumber x.start + 0) := by omega
        rw [decide_eq_false this, Bool.false_xor]
        rfl
  | succ n ih =>
      obtain ⟨hg, hz, hnz, hp, hb⟩ := ih (by omega)
      have hlt : pageNumber x.start + n < 2 ^ 52 := by
        have := pageNumber_lt x.end_
        have := x.first_lt
        unfold Extent.size at hn
        omega
      simp only [List.range_succ, List.foldl_append, List.foldl_cons, List.foldl_nil]
      rw [constructPage, x.phyAddr_eq, pageNumber_ofNat hlt]
      refine ⟨hg, hz, hnz, fun i => ?_, fun i => ?_⟩
      · dsimp only
        by_cases h : i = pageNumber x.start + n
        · subst h
          rw [Function.update_self, if_pos (by omega)]
          rfl
        · rw [Function.update_of_ne h, hp]
          have : (pageNumber x.start ≤ i ∧ i < pageNumber x.start + n) ↔
              (pageNumber x.start ≤ i ∧ i < pageNumber x.start + (n + 1)) := by omega
          simp only [this]
      · dsimp only
        rw [Bitmap.get_toggle, hb]
        by_cases h : i = pageNumber x.start + n
        · subst h
          simp
        · have h' : pageNumber x.start + n ≠ i := Ne.symm h
          have : (pageNumber x.start ≤ i ∧ i < pageNumber x.start + n) ↔
              (pageNumber x.start ≤ i ∧ i < pageNumber x.start + (n + 1)) := by omega
          simp [h', this]

/-- One turn of the zone loop. -/
theorem constructZone_spec (s : MmState) (z : Nat) (x : Extent) :
    let t := constructZone s z x.start x.end_
    t.gmdsc = s.gmdsc ∧
    t.zones = Function.update s.zones z (freshZone x.start x.end_) ∧
    (∀ i, t.pages i = if x.Has i then freshPage z i else s.pages i) ∧
    ∀ i, t.bits.get i = (decide (x.Has i) ^^ s.bits.get i) := by
  have hend : pageNumber x.start + x.size = pageNumber x.end_ := by
    have := x.first_lt
    unfold Extent.size
    omega
  have h := constructPage_foldl x z x.size (Nat.le_refl _)
    { s with zones := Function.update s.zones z (freshZone x.start x.end_) }
  simp only [hend] at h
  unfold constructZone
  rw [x.pagesLength]
  exact ⟨h.1, h.2.1, h.2.2.2.1, h.2.2.2.2⟩

/-! ## The zone loop -/

/-- The zone loop over extents, from zone index `z`. -/
def buildZones (s : MmState) (z : Nat) : List Extent → MmState
  | [] => s
  | x :: xs => buildZones (constructZone s z x.start x.end_) (z + 1) xs

theorem constructStep_none {e : E820} (h : e.extent? = none) (sz : MmState × Nat) :
    constructStep sz e = sz := by
  unfold constructStep
  by_cases ht : e.type = e820TypeAvailable
  · by_cases hlt : e.start.toNat < e.end_.toNat
    · simp [E820.extent?, ht, hlt] at h
    · have : e.end_ ≤ e.start := by rw [BitVec.le_def]; omega
      simp [ht, this]
  · simp [ht]

theorem constructStep_some {e : E820} {x : Extent} (h : e.extent? = some x) (s : MmState)
    (z : Nat) : constructStep (s, z) e = (constructZone s z x.start x.end_, z + 1) := by
  obtain ⟨ht, hs, he⟩ := E820.extent?_eq_some.mp h
  have hlt := x.lt
  have : ¬ e.end_ ≤ e.start := by rw [BitVec.le_def, ← hs, ← he]; omega
  simp [constructStep, ht, this, hs, he]

/-- Entries without an extent are skipped: the zone loop runs over the extents. -/
theorem constructStep_foldl (es : List E820) (s : MmState) (z : Nat) :
    (es.foldl constructStep (s, z)).1 = buildZones s z (extents es) := by
  induction es generalizing s z with
  | nil => rfl
  | cons e es ih =>
      rw [List.foldl_cons]
      unfold extents at ih ⊢
      cases h : e.extent? with
      | none => rw [constructStep_none h, ih, List.filterMap_cons_none h]
      | some x => rw [constructStep_some h, ih, List.filterMap_cons_some h]; rfl

theorem constructZones_eq (s : MmState) :
    constructZones s = buildZones s 0 (extents s.gmdsc.e820) :=
  constructStep_foldl _ _ _

/-- The whole zone loop, for any extents. Zone `z + t` is extent `t`; a page of some extent
    has a fresh struct of such an extent's zone, any other page is untouched; a bit is
    toggled as often as an extent has its page. -/
theorem buildZones_spec (xs : List Extent) (s : MmState) (z : Nat) :
    let t := buildZones s z xs
    t.gmdsc = s.gmdsc ∧
    (∀ (k : Nat) (hk : k < xs.length),
      t.zones (z + k) = freshZone (xs[k]).start (xs[k]).end_) ∧
    (∀ y, y < z ∨ z + xs.length ≤ y → t.zones y = s.zones y) ∧
    (∀ i, (∃ (k : Nat) (hk : k < xs.length), (xs[k]).Has i ∧ t.pages i = freshPage (z + k) i) ∨
      (∀ x ∈ xs, ¬ x.Has i) ∧ t.pages i = s.pages i) ∧
    ∀ i, t.bits.get i = (decide (xs.countP (·.Has i) % 2 = 1) ^^ s.bits.get i) := by
  induction xs generalizing s z with
  | nil => simp [buildZones]
  | cons x xs ih =>
      obtain ⟨cg, cz, cp, cb⟩ := constructZone_spec s z x
      obtain ⟨ig, iz, iy, ip, ib⟩ := ih (constructZone s z x.start x.end_) (z + 1)
      simp only [buildZones]
      refine ⟨ig.trans cg, fun k hk => ?_, fun y hy => ?_, fun i => ?_, fun i => ?_⟩
      · cases k with
        | zero =>
            simp only [Nat.add_zero]
            rw [iy z (Or.inl (Nat.lt_succ_self z)), cz, Function.update_self]
            rfl
        | succ k =>
            have := iz k (by simpa using hk)
            rw [show z + (k + 1) = z + 1 + k by omega, this]
            rfl
      · rw [List.length_cons] at hy
        rw [iy y (by omega), cz, Function.update_of_ne (by omega)]
      · rcases ip i with ⟨k, hk, hhas, hpage⟩ | ⟨hnot, hpage⟩
        · refine Or.inl ⟨k + 1, by simpa using hk, hhas, ?_⟩
          rw [hpage, show z + 1 + k = z + (k + 1) by omega]
        · rw [cp i] at hpage
          by_cases hx : x.Has i
          · refine Or.inl ⟨0, by simp, hx, ?_⟩
            rw [hpage, if_pos hx, Nat.add_zero]
          · refine Or.inr ⟨?_, by rw [hpage, if_neg hx]⟩
            intro y hy
            rcases List.mem_cons.mp hy with rfl | hy
            · exact hx
            · exact hnot y hy
      · rw [ib i, cb i, List.countP_cons]
        by_cases hx : x.Has i
        · rcases Nat.mod_two_eq_zero_or_one (xs.countP (·.Has i)) with h | h <;>
            simp [hx, h, Nat.add_mod]
        · simp [hx]

end HelloOS.Mm
