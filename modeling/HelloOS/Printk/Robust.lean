/-
  The formatter on any format (`kernel/printk/printk.c`): it returns, does not read behind the
  terminator, and terminates its output (`vsprintf_terminated`).

  Each part of the parser leaves a terminated rest of a terminated format; every round of the
  loop takes at least one character, also when the default case takes `fmt` back by one. The
  loops of the conversions end for all `int`s.
-/
import HelloOS.Printk.Loops
import HelloOS.Printk.Verbatim

namespace HelloOS.Printk.Format

open HelloOS.Lib

variable {fuel : ℕ}

/-! ## Conversions -/

theorem returns_ite {α : Type*} {p : Prop} [Decidable p] {a b : Option α} (ha : ∃ r, a = some r)
    (hb : ∃ r, b = some r) : ∃ r, (if p then a else b) = some r := by
  split
  · exact ha
  · exact hb

section Conversions

variable (hfuel : loopFuel ≤ fuel)

include hfuel

theorem padLoop_returns (c : Byte) (lo n : BitVec 32) : ∃ r, padLoop c lo fuel n = some r := by
  have hn := toInt_range n
  have hlo := toInt_range lo
  unfold loopFuel at hfuel
  exact ⟨_, padLoop_eq (by omega)⟩

theorem padUnless_returns (skip : Bool) (c : Byte) (lo n : BitVec 32) :
    ∃ r, padUnless skip c lo fuel n = some r := by
  cases skip with
  | true => exact ⟨_, rfl⟩
  | false => exact padLoop_returns hfuel c lo n

theorem padBeforeLoop_returns (n : BitVec 32) : ∃ r, padBeforeLoop fuel n = some r := by
  have hn := toInt_range (n - 1#32)
  unfold loopFuel at hfuel
  exact ⟨_, padBeforeLoop_eq (by omega)⟩

theorem stringLoop_returns (m : Mem) (len : BitVec 32) (s : BitVec 64) :
    ∃ t, stringLoop m len fuel 0#32 s = some t := by
  have hlen := toInt_range len
  have hzero : (0#32).toInt = 0 := by decide
  unfold loopFuel at hfuel
  exact ⟨_, stringLoop_eq m s (by omega)⟩

theorem numberTmp_returns (digits : List Byte) {base : ℕ} (hbase : 1 < base)
    (hbase' : base < 2 ^ 64)
    (num : BitVec 64) : ∃ tmp, numberTmp fuel digits base num = some tmp := by
  unfold numberTmp
  split
  · exact ⟨_, rfl⟩
  · unfold loopFuel at hfuel
    obtain ⟨k, rfl⟩ : ∃ k, fuel = k + 1 := ⟨fuel - 1, by omega⟩
    have hbits : num.toNat < 2 ^ k :=
      num.isLt.trans_le (Nat.pow_le_pow_right (by decide) (by omega))
    exact ⟨_, digitsLoop_eq digits hbase hbase' hbits⟩

theorem numberTail_returns (type : BitVec 32) (c : Byte) (signChar baseChars tmp : List Byte)
    (size precision : BitVec 32) :
    ∃ r, numberTail fuel type c signChar baseChars tmp size precision = some r := by
  unfold numberTail
  dsimp only
  generalize (if precision.slt (BitVec.ofNat 32 tmp.length) then BitVec.ofNat 32 tmp.length
    else precision) = most
  obtain ⟨pad, hp⟩ := padUnless_returns hfuel (has type (zeropad + left)) (chr ' ') 0#32
    (size - most)
  obtain ⟨fill, hf⟩ := padUnless_returns hfuel (has type left) c 0#32 pad.2
  obtain ⟨zeros, hz⟩ := padLoop_returns hfuel (chr '0') (BitVec.ofNat 32 tmp.length) most
  obtain ⟨rest, hr⟩ := padLoop_returns hfuel (chr ' ') 0#32 fill.2
  simp only [Option.bind_eq_bind, hp, hf, hz, hr, Option.bind_some]
  exact ⟨_, rfl⟩

theorem number_returns (num : BitVec 64) {base : ℕ} (hbase : 1 < base) (hbase' : base < 2 ^ 64)
    (size precision type : BitVec 32) :
    ∃ r, number fuel num base size precision type = some r := by
  unfold number
  dsimp only
  generalize (if has type left then type &&& ~~~zeropad else type) = type'
  obtain ⟨tmp, htmp⟩ := numberTmp_returns hfuel (digitChars type) hbase hbase'
    (if has type' sign && num.slt 0#64 then -num else num)
  simp only [Option.bind_eq_bind, htmp, Option.bind_some]
  exact numberTail_returns hfuel _ _ _ _ _ _ _

theorem putNumber_returns (s : State) (num : BitVec 64) {base : ℕ} (hbase : 1 < base)
    (hbase' : base < 2 ^ 64) (size precision flags : BitVec 32) :
    ∃ s', putNumber fuel s num base size precision flags = some s' := by
  obtain ⟨r, hr⟩ := number_returns hfuel num hbase hbase' size precision flags
  exact ⟨_, by rw [putNumber, hr]; rfl⟩

theorem putChar_returns (va : VaList) (d : Spec) (s : State) :
    ∃ s', putChar fuel va d s = some s' := by
  obtain ⟨pad, hpad⟩ : ∃ r, padBeforeUnless (has d.flags left) fuel d.widthInt = some r := by
    unfold padBeforeUnless
    split
    · exact ⟨_, rfl⟩
    · exact padBeforeLoop_returns hfuel d.widthInt
  obtain ⟨rest, hrest⟩ := padBeforeLoop_returns hfuel pad.2
  unfold putChar
  simp only [Option.bind_eq_bind, hpad, hrest, Option.bind_some]
  exact ⟨_, rfl⟩

theorem putString_returns (va : VaList) (d : Spec) (s : State) :
    ∃ s', putString fuel va d s = some s' := by
  unfold putString
  dsimp only
  generalize (if d.precisionInt.slt 0#32 then strlen va.mem (s.arg va)
    else if d.precisionInt.slt (strlen va.mem (s.arg va)) then d.precisionInt
      else strlen va.mem (s.arg va)) = len
  obtain ⟨pad, hpad⟩ := padUnless_returns hfuel (has d.flags left) (chr ' ') len d.widthInt
  obtain ⟨text, htext⟩ := stringLoop_returns hfuel va.mem len (s.arg va)
  obtain ⟨rest, hrest⟩ := padLoop_returns hfuel (chr ' ') len pad.2
  simp only [Option.bind_eq_bind, hpad, htext, hrest, Option.bind_some]
  exact ⟨_, rfl⟩

/-- Every conversion returns. -/
theorem convert_returns (va : VaList) (d : Spec) (s : State) (c : Byte) :
    ∃ s', convert fuel va d s c = some s' := by
  have hnumber : ∀ (num : BitVec 64) {base : ℕ} (size precision flags : BitVec 32),
      1 < base → base < 2 ^ 64 →
        ∃ s', putNumber fuel s num base size precision flags = some s' :=
    fun num _ size precision flags h h' =>
      putNumber_returns hfuel s num h h' size precision flags
  unfold convert putPointer
  exact returns_ite (putChar_returns hfuel va d s)
    (returns_ite (putString_returns hfuel va d s)
    (returns_ite (hnumber _ _ _ _ (by decide) (by decide))
    (returns_ite (returns_ite (hnumber _ _ _ _ (by decide) (by decide))
      (hnumber _ _ _ _ (by decide) (by decide)))
    (returns_ite (hnumber _ _ _ _ (by decide) (by decide))
    (returns_ite (hnumber _ _ _ _ (by decide) (by decide))
    (returns_ite (hnumber _ _ _ _ (by decide) (by decide))
    (returns_ite (hnumber _ _ _ _ (by decide) (by decide))
    (returns_ite ⟨_, rfl⟩ (returns_ite ⟨_, rfl⟩ ⟨_, rfl⟩)))))))))

end Conversions

/-! ## The parser -/

/-- The bytes of a NUL-terminated string, with the NUL. -/
def Terminated (fmt : List Byte) : Prop := ∃ t, 0#8 ∉ t ∧ fmt = t ++ [0#8]

theorem not_terminated_nil : ¬ Terminated [] := by
  rintro ⟨t, -, h⟩
  simp at h

theorem terminated_cons {c : Byte} {fmt : List Byte} :
    Terminated (c :: fmt) ↔ c = 0#8 ∧ fmt = [] ∨ c ≠ 0#8 ∧ Terminated fmt := by
  constructor
  · rintro ⟨t, ht, h⟩
    cases t with
    | nil =>
        rw [List.nil_append, List.cons.injEq] at h
        exact Or.inl h
    | cons x t =>
        rw [List.cons_append, List.cons.injEq] at h
        rw [List.mem_cons, not_or] at ht
        exact Or.inr ⟨h.1 ▸ Ne.symm ht.1, t, ht.2, h.2⟩
  · rintro (⟨rfl, rfl⟩ | ⟨hc, t, ht, rfl⟩)
    · exact ⟨[], List.not_mem_nil, rfl⟩
    · refine ⟨c :: t, ?_, rfl⟩
      rw [List.mem_cons, not_or]
      exact ⟨Ne.symm hc, ht⟩

/-- What is left of a terminated format is terminated, and no longer. -/
theorem Takes.terminated {own : Byte → Prop} {fmt rest : List Byte} (h : Takes own fmt rest)
    (hfmt : Terminated fmt) : Terminated rest ∧ rest.length ≤ fmt.length := by
  obtain ⟨u, hu, rfl, -⟩ := h
  obtain ⟨t, ht, heq⟩ := hfmt
  obtain ⟨t', ht', -, hrest⟩ := terminated_of_append hu ht heq.symm
  rw [List.length_append]
  exact ⟨⟨t', ht', hrest⟩, by omega⟩

variable (va : VaList) (s : State) {fmt : List Byte}

theorem skipAtoi_returns (h : Terminated fmt) (i : BitVec 32) : ∃ r, skipAtoi fmt i = some r := by
  induction fmt generalizing i with
  | nil => exact absurd h not_terminated_nil
  | cons c fmt ih =>
      rw [skipAtoi]
      split
      · next hdigit =>
          rcases terminated_cons.mp h with ⟨rfl, -⟩ | ⟨-, hrest⟩
          · exact absurd rfl (isDigit_ne hdigit)
          · exact ih hrest _
      · exact ⟨_, rfl⟩

theorem parseFlags_returns (h : Terminated fmt) (f : BitVec 32) :
    ∃ r, parseFlags fmt f = some r := by
  induction fmt generalizing f with
  | nil => exact absurd h not_terminated_nil
  | cons c fmt ih =>
      rw [parseFlags]
      split
      · next hflag =>
          rcases terminated_cons.mp h with ⟨rfl, -⟩ | ⟨-, hrest⟩
          · rw [flagOf_zero] at hflag
            exact (Option.some_ne_none _ hflag.symm).elim
          · exact ih hrest _
      · exact ⟨_, rfl⟩

theorem parseWidth_returns (h : Terminated fmt) (f : BitVec 32) :
    ∃ r, parseWidth va s f fmt = some r := by
  cases fmt with
  | nil => exact absurd h not_terminated_nil
  | cons c fmt =>
      obtain ⟨r, hr⟩ := skipAtoi_returns h 0#32
      rw [parseWidth, hr]
      dsimp only
      split_ifs <;> exact ⟨_, rfl⟩

theorem parsePoint_returns (h : Terminated fmt) : ∃ r, parsePoint va s fmt = some r := by
  cases fmt with
  | nil => exact absurd h not_terminated_nil
  | cons c fmt =>
      obtain ⟨r, hr⟩ := skipAtoi_returns h 0#32
      rw [parsePoint, hr]
      split_ifs <;> exact ⟨_, rfl⟩

theorem parsePrecision_returns (h : Terminated fmt) : ∃ r, parsePrecision va s fmt = some r := by
  cases fmt with
  | nil => exact absurd h not_terminated_nil
  | cons c fmt =>
      rw [parsePrecision]
      split
      · next hpoint =>
          rcases terminated_cons.mp h with ⟨rfl, -⟩ | ⟨-, hrest⟩
          · exact absurd hpoint (by decide)
          · exact parsePoint_returns va s hrest
      · exact ⟨_, rfl⟩

theorem parseQualifier_returns (h : Terminated fmt) : ∃ r, parseQualifier fmt = some r := by
  cases fmt with
  | nil => exact absurd h not_terminated_nil
  | cons c fmt =>
      rw [parseQualifier]
      split <;> exact ⟨_, rfl⟩

/-- What stands before the conversion is found without reading behind the terminator. -/
theorem parseSpec_returns (h : Terminated fmt) :
    ∃ d s' rest, parseSpec va s fmt = some (d, s', rest) ∧ Terminated rest ∧
      rest.length ≤ fmt.length := by
  obtain ⟨⟨f, fmt₁⟩, h₁⟩ := parseFlags_returns h 0#32
  have t₁ := ((parseFlags_takes h₁).terminated h).1
  obtain ⟨⟨w, f', s₁, fmt₂⟩, h₂⟩ := parseWidth_returns va s t₁ f
  have t₂ := ((parseWidth_takes va h₂).2.terminated t₁).1
  obtain ⟨⟨p, s₂, fmt₃⟩, h₃⟩ := parsePrecision_returns va s₁ t₂
  have t₃ := ((parsePrecision_takes va h₃).2.terminated t₂).1
  obtain ⟨⟨q, fmt₄⟩, h₄⟩ := parseQualifier_returns t₃
  have hspec : parseSpec va s fmt = some (⟨f', w, p, q⟩, s₂, fmt₄) := by
    simp [parseSpec, h₁, h₂, h₃, h₄]
  exact ⟨_, _, _, hspec, (parseSpec_takes va hspec).2.terminated h⟩

/-! ## The loop -/

/-- A directive takes no more than the format has: at the terminator it takes nothing. -/
theorem directive_returns (hfuel : loopFuel ≤ fuel) (h : Terminated fmt) :
    ∃ s' rest, directive fuel va s fmt = some (s', rest) ∧ Terminated rest ∧
      rest.length ≤ fmt.length := by
  obtain ⟨d, s₁, rest, hspec, hrest, hle⟩ := parseSpec_returns va s h
  rw [directive, hspec, Option.bind_some]
  cases rest with
  | nil => exact absurd hrest not_terminated_nil
  | cons c rest =>
      dsimp only
      rw [conversion]
      rcases terminated_cons.mp hrest with ⟨rfl, rfl⟩ | ⟨hc, hrest'⟩
      · exact ⟨_, _, if_pos rfl, hrest, hle⟩
      · obtain ⟨s', hs'⟩ := convert_returns hfuel va d s₁ c
        rw [if_neg hc, hs']
        rw [List.length_cons] at hle
        exact ⟨_, _, rfl, hrest', by omega⟩

theorem formatLoop_returns (hfuel : loopFuel ≤ fuel) {rounds : ℕ} (h : Terminated fmt)
    (hrounds : fmt.length ≤ rounds) : ∃ s', formatLoop fuel va rounds fmt s = some s' := by
  induction rounds generalizing fmt s with
  | zero =>
      rw [List.eq_nil_of_length_eq_zero (Nat.le_zero.mp hrounds)] at h
      exact absurd h not_terminated_nil
  | succ rounds ih =>
      cases fmt with
      | nil => exact absurd h not_terminated_nil
      | cons c fmt =>
          rw [List.length_cons] at hrounds
          rw [formatLoop]
          rcases terminated_cons.mp h with ⟨rfl, -⟩ | ⟨hc, hrest⟩
          · exact ⟨s, if_pos rfl⟩
          · rw [if_neg hc]
            split
            · obtain ⟨s', rest, hdir, ht, hle⟩ := directive_returns va s hfuel hrest
              rw [hdir, Option.bind_some]
              exact ih s' ht (hle.trans (by omega))
            · exact ih _ hrest (by omega)

/-- **Robustness.** On every NUL-terminated format and every argument list, `vsprintf` returns
    without reading behind the NUL, and what it has stored ends with a NUL. -/
theorem vsprintf_terminated (va : VaList) {fmt : List Byte} (h : Terminated fmt) {fuel : ℕ}
    (hfuel : loopFuel ≤ fuel) :
    ∃ s, vsprintf fuel va fmt = some s ∧ s.str.getLast? = some 0#8 := by
  obtain ⟨s, hs⟩ := formatLoop_returns va ⟨[], 0, []⟩ hfuel h (le_refl _)
  refine ⟨s.put [0#8], ?_, ?_⟩
  · rw [vsprintf, hs]
    rfl
  · exact List.getLast?_concat

/-- A `%` and a flag at the end. -/
theorem vsprintf_terminated_percent :
    ∃ s, vsprintf loopFuel countVa [chr '%', chr '-', 0#8] = some s ∧
      s.str.getLast? = some 0#8 :=
  vsprintf_terminated countVa ⟨[chr '%', chr '-'], by decide, rfl⟩ (le_refl _)

end HelloOS.Printk.Format
