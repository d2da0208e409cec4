/-
  `%d` of an `int` (`kernel/printk/printk.c`).

  Without an `l` the argument is read as an `unsigned int`, and `number`, which takes a `long`,
  gets it extended by zeros. Its text is that of `%ld` on the number extended by its sign
  exactly if the number is not negative (`signed_sameText_iff`): of a negative one only `%ld`
  stores a `-`.
-/
import HelloOS.Printk.Directives
import HelloOS.Printk.Robust

namespace HelloOS.Printk.Format

open HelloOS.Lib

variable {fuel : ℕ}

/-! ## Which characters `number` stores -/

theorem padLoop_mem {c : Byte} {lo n : BitVec 32} {r : List Byte × BitVec 32}
    (h : padLoop c lo fuel n = some r) : ∀ x ∈ r.1, x = c := by
  induction fuel generalizing n r with
  | zero => exact nomatch h
  | succ fuel ih =>
      rw [padLoop] at h
      split at h
      · obtain ⟨r', hr', rfl⟩ := Option.map_eq_some_iff.mp h
        exact List.forall_mem_cons.mpr ⟨rfl, ih hr'⟩
      · rw [← Option.some.inj h]
        exact fun x hx => absurd hx List.not_mem_nil

theorem padUnless_mem {skip : Bool} {c : Byte} {lo n : BitVec 32} {r : List Byte × BitVec 32}
    (h : padUnless skip c lo fuel n = some r) : ∀ x ∈ r.1, x = c := by
  unfold padUnless at h
  split at h
  · rw [← Option.some.inj h]
    exact fun x hx => absurd hx List.not_mem_nil
  · exact padLoop_mem h

theorem digitsLoop_mem {digits : List Byte} {base num : BitVec 64} {tmp : List Byte}
    (h : digitsLoop digits base fuel num = some tmp) : ∀ x ∈ tmp, x ∈ digits ∨ x = 0#8 := by
  induction fuel generalizing num tmp with
  | zero => exact nomatch h
  | succ fuel ih =>
      rw [digitsLoop] at h
      split at h
      · rw [← Option.some.inj h]
        exact fun x hx => absurd hx List.not_mem_nil
      · obtain ⟨tmp', htmp', rfl⟩ := Option.map_eq_some_iff.mp h
        refine List.forall_mem_cons.mpr ⟨?_, ih htmp'⟩
        rw [List.getD_eq_getElem?_getD]
        cases hget : digits[(num % base).toNat]? with
        | none => exact Or.inr rfl
        | some x => exact Or.inl (List.mem_of_getElem? hget)

theorem minus_notMem_digitChars (type : BitVec 32) : chr '-' ∉ digitChars type := by
  unfold digitChars
  split <;> decide

theorem minus_notMem_numberTmp {type : BitVec 32} {base : ℕ} {num : BitVec 64} {tmp : List Byte}
    (h : numberTmp fuel (digitChars type) base num = some tmp) : chr '-' ∉ tmp := by
  unfold numberTmp at h
  split at h
  · rw [← Option.some.inj h]
    decide
  · intro hmem
    rcases digitsLoop_mem h _ hmem with hdigit | hzero
    · exact minus_notMem_digitChars type hdigit
    · exact absurd hzero (by decide)

/-- Behind the digits, `number` stores a `-` only as the sign. -/
theorem minus_mem_numberTail {type : BitVec 32} {c : Byte} {signChar baseChars tmp : List Byte}
    {size precision : BitVec 32} {r : Numbered} (hc : c ≠ chr '-') (hbase : chr '-' ∉ baseChars)
    (htmp : chr '-' ∉ tmp)
    (h : numberTail fuel type c signChar baseChars tmp size precision = some r) :
    chr '-' ∈ r.str ↔ chr '-' ∈ signChar := by
  unfold numberTail at h
  simp only [Option.bind_eq_bind, Option.bind_eq_some_iff, Option.pure_def, Option.some.injEq] at h
  obtain ⟨pad, hpad, fill, hfill, zeros, hzeros, rest, hrest, rfl⟩ := h
  have h₁ : chr '-' ∉ pad.1 := fun hmem => absurd (padUnless_mem hpad _ hmem) (by decide)
  have h₂ : chr '-' ∉ fill.1 := fun hmem => hc (padUnless_mem hfill _ hmem).symm
  have h₃ : chr '-' ∉ zeros.1 := fun hmem => absurd (padLoop_mem hzeros _ hmem) (by decide)
  have h₄ : chr '-' ∉ rest.1 := fun hmem => absurd (padLoop_mem hrest _ hmem) (by decide)
  simp only [copyLoop_eq tmp (le_refl _), List.take_length, List.mem_append, List.mem_reverse, h₁,
    h₂, h₃, h₄, hbase, htmp, false_or, or_false]

/-- `number` stores a `-` exactly for a negative number. -/
theorem minus_mem_number {num : BitVec 64} {base : ℕ} {size precision type : BitVec 32}
    {r : Numbered} (h : number fuel num base size precision type = some r) :
    chr '-' ∈ r.str ↔ numValue type num < 0 := by
  unfold number at h
  simp only [Option.bind_eq_bind] at h
  have hsign : has (if has type left then type &&& ~~~zeropad else type) sign = has type sign := by
    split
    · exact has_clear type (by decide)
    · rfl
  obtain ⟨tmp, htmp, htail⟩ := Option.bind_eq_some_iff.mp h
  rw [minus_mem_numberTail ?_ ?_ (minus_notMem_numberTmp htmp) htail, hsign, negative_eq]
  · by_cases hneg : numValue type num < 0
    · simp [hneg]
    · simp only [hneg, decide_false, Bool.false_eq_true, if_false, iff_false]
      split_ifs <;> decide
  · split_ifs <;> decide
  · rw [digitChars_x]
    split_ifs <;> decide

/-! ## `%d` and `%ld` -/

/-- The same directive with the qualifier `l`. -/
def Directive.long (d : Directive) : Directive := { d with qualifier := some .l }

/-- Width, precision and flags come from the `*` arguments alone. -/
theorem specAt_congr {va va' : VaList} {d : Directive} (h : ∀ k < d.stars, va.int k = va'.int k) :
    d.flagsAt va 0 = d.flagsAt va' 0 ∧ d.widthAt va 0 = d.widthAt va' 0 ∧
      d.precisionAt va (0 + amountArgs d.width) = d.precisionAt va' (0 + amountArgs d.width) := by
  have hwidth : d.width = some .star → va.int 0 = va'.int 0 := fun hw =>
    h 0 (by
      unfold Directive.stars
      rw [hw]
      exact Nat.lt_of_lt_of_le Nat.one_pos (Nat.le_add_right _ _))
  have hprec : d.precision = some .star →
      va.int (0 + amountArgs d.width) = va'.int (0 + amountArgs d.width) := fun hp =>
    h _ (by unfold Directive.stars; rw [hp, Nat.zero_add]; exact Nat.lt_succ_self _)
  refine ⟨?_, ?_, ?_⟩
  · unfold Directive.flagsAt
    cases hw : d.width with
    | none => rfl
    | some a =>
        cases a with
        | decimal n => rfl
        | star =>
            have hstar : ∀ va, starNegative va 0 (some .star) = (va.int 0).slt 0#32 := fun _ => rfl
            rw [hstar, hstar, hwidth hw]
  · unfold Directive.widthAt
    cases hw : d.width with
    | none => rfl
    | some a =>
        cases a with
        | decimal n => rfl
        | star => dsimp only; rw [hwidth hw]
  · unfold Directive.precisionAt
    cases hp : d.precision with
    | none => rfl
    | some a =>
        cases a with
        | decimal n => rfl
        | star => dsimp only; rw [hprec hp]

/-- The `int` that `%d` is given is read as an `unsigned int`; `%ld` reads the whole word. -/
theorem vsprintf_signed {va : VaList} {d : Directive}
    (hconv : d.conversion = .d ∨ d.conversion = .i) :
    vsprintf fuel va (d.render ++ [0#8]) =
      (number fuel (if d.qualifier = some .l then va.word d.stars
          else (va.int d.stars).setWidth 64) 10 (d.specAt va 0).widthInt
        (d.specAt va 0).precisionInt (d.flagsAt va 0 ||| sign)).map
          fun r => ⟨r.str ++ [0#8], d.stars + 1, []⟩ := by
  have hrun : ∀ s, convert fuel va (d.specAt va 0) s d.conversion.char =
      putNumber fuel s (numberArg va (d.specAt va 0) s) 10 (d.specAt va 0).widthInt
        (d.specAt va 0).precisionInt (d.flagsAt va 0 ||| sign) := by
    intro s
    rcases hconv with h | h <;> (rw [h]; rfl)
  have harg : numberArg va (d.specAt va 0) (State.readN ⟨[], 0, []⟩ d.stars) =
      if d.qualifier = some .l then va.word d.stars else (va.int d.stars).setWidth 64 := by
    have hargs : (State.readN ⟨[], 0, []⟩ d.stars).args = d.stars := Nat.zero_add _
    unfold numberArg intArg State.arg VaList.int
    rw [hargs]
    simp only [Directive.qualifier_long_iff]
  rw [vsprintf_directive, hrun, harg, putNumber]
  cases number fuel _ 10 _ _ _ with
  | none => rfl
  | some r => simp [State.readN, State.read, State.put]

/-- **Signed conversions of an `int`.** For every directive with `d` or `i` and without an `l`,
    the text that `vsprintf` stores for the `int` `v` is that of the same directive with an `l`
    for `v` extended by its sign, exactly if `v` is not negative. -/
theorem signed_sameText_iff {d : Directive} (hconv : d.conversion = .d ∨ d.conversion = .i)
    (hq : d.qualifier ≠ some .l) (v : BitVec 32) {va va' : VaList}
    (hstars : ∀ k < d.stars, va.int k = va'.int k) (hv : va.int d.stars = v)
    (hv' : va'.word d.stars = v.signExtend 64) {fuel : ℕ} (hfuel : loopFuel ≤ fuel) :
    ∃ s s', vsprintf fuel va (d.render ++ [0#8]) = some s ∧
      vsprintf fuel va' (d.long.render ++ [0#8]) = some s' ∧ (s.str = s'.str ↔ 0 ≤ v.toInt) := by
  obtain ⟨hflags, hwidth, hprec⟩ := specAt_congr hstars
  have hshort : vsprintf fuel va (d.render ++ [0#8]) = _ := vsprintf_signed hconv
  have hlong : vsprintf fuel va' (d.long.render ++ [0#8]) = _ := vsprintf_signed hconv
  have hwidth' : (d.specAt va 0).widthInt = (d.long.specAt va' 0).widthInt :=
    congrArg (BitVec.ofInt 32) hwidth
  have hprec' : (d.specAt va 0).precisionInt = (d.long.specAt va' 0).precisionInt :=
    congrArg (BitVec.ofInt 32) hprec
  have hflags' : d.flagsAt va 0 = d.long.flagsAt va' 0 := hflags
  rw [if_neg hq, hv, hwidth', hprec', hflags'] at hshort
  rw [if_pos (show d.long.qualifier = some .l from rfl), show va'.word d.long.stars = _ from hv']
    at hlong
  obtain ⟨r, hr⟩ := number_returns hfuel (v.setWidth 64) (show 1 < 10 by decide)
    (show 10 < 2 ^ 64 by decide)
    (d.long.specAt va' 0).widthInt (d.long.specAt va' 0).precisionInt
    (d.long.flagsAt va' 0 ||| sign)
  obtain ⟨r', hr'⟩ := number_returns hfuel (v.signExtend 64) (show 1 < 10 by decide)
    (show 10 < 2 ^ 64 by decide) (d.long.specAt va' 0).widthInt (d.long.specAt va' 0).precisionInt
    (d.long.flagsAt va' 0 ||| sign)
  rw [hr] at hshort
  rw [hr'] at hlong
  refine ⟨_, _, hshort, hlong, ?_⟩
  have hsign : has (d.long.flagsAt va' 0 ||| sign) sign = true := by
    generalize d.long.flagsAt va' 0 = f
    rw [has_iff, BitVec.and_comm, BitVec.and_or_distrib_left]
    intro h
    exact absurd (BitVec.or_eq_zero_iff.mp h).2 (by decide)
  -- extended by zeros the number is not negative
  have hpos : ¬ numValue (d.long.flagsAt va' 0 ||| sign) (v.setWidth 64) < 0 := by
    have hlt := v.isLt
    unfold numValue
    rw [if_pos hsign, BitVec.toInt_setWidth, Int.bmod_eq_of_le (by omega) (by omega)]
    omega
  constructor
  · intro heq
    by_contra hneg
    have hneg' : numValue (d.long.flagsAt va' 0 ||| sign) (v.signExtend 64) < 0 := by
      unfold numValue
      rw [if_pos hsign, BitVec.toInt_signExtend_of_le (by decide)]
      omega
    have hminus := (minus_mem_number hr').mpr hneg'
    have heq' : r.str = r'.str := List.append_cancel_right heq
    exact hpos ((minus_mem_number hr).mp (heq' ▸ hminus))
  · intro hnonneg
    have hsame : v.signExtend 64 = v.setWidth 64 :=
      BitVec.signExtend_eq_setWidth_of_msb_false (by
        rw [BitVec.msb_eq_toInt]
        exact decide_eq_false (by omega))
    rw [hsame, hr, Option.some.injEq] at hr'
    rw [hr']

/-- `%d`. -/
def plainSigned : Directive := ⟨[], none, none, none, .d, leading_none⟩

/-- A list of arguments that are all `w`. -/
def constVa (w : BitVec 64) : VaList := ⟨fun _ => w, fun _ => 0#8⟩

theorem signed_sameText_five :
    ∃ s s', vsprintf loopFuel (constVa 5#64) (plainSigned.render ++ [0#8]) = some s ∧
      vsprintf loopFuel (constVa 5#64) (plainSigned.long.render ++ [0#8]) = some s' ∧
      (s.str = s'.str ↔ 0 ≤ (5#32).toInt) :=
  signed_sameText_iff (Or.inl rfl) (by decide) 5#32 (fun _ _ => rfl) (by decide) (by decide)
    (le_refl loopFuel)

/-- Of -1, `%d` makes 4294967295. -/
theorem signed_not_sameText : ¬ ∀ (d : Directive) (v : BitVec 32) (va va' : VaList),
    (d.conversion = .d ∨ d.conversion = .i) → d.qualifier ≠ some .l →
    (∀ k < d.stars, va.int k = va'.int k) → va.int d.stars = v →
    va'.word d.stars = v.signExtend 64 →
    ∃ s s', vsprintf loopFuel va (d.render ++ [0#8]) = some s ∧
      vsprintf loopFuel va' (d.long.render ++ [0#8]) = some s' ∧ s.str = s'.str := by
  intro h
  obtain ⟨s, s', hs, hs', heq⟩ := h plainSigned (-1#32) (constVa (-1#64)) (constVa (-1#64))
    (Or.inl rfl) (by decide) (fun _ _ => rfl) (by decide) (by decide)
  have hshort : vsprintf loopFuel (constVa (-1#64)) (plainSigned.render ++ [0#8]) =
      some ⟨"4294967295".toList.map chr ++ [0#8], 1, []⟩ := by decide +kernel
  have hlong : vsprintf loopFuel (constVa (-1#64)) (plainSigned.long.render ++ [0#8]) =
      some ⟨"-1".toList.map chr ++ [0#8], 1, []⟩ := by decide +kernel
  rw [hshort, Option.some.injEq] at hs
  rw [hlong, Option.some.injEq] at hs'
  rw [← hs, ← hs'] at heq
  exact absurd heq (by decide)

end HelloOS.Printk.Format
