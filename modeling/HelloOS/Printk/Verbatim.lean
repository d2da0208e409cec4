/-
  User text as a format (`kernel/syscall/syscall.c`, `kernel/printk/printk.c`).

  `sys_printf` passes the user's string to `kprintf` as the format. The string comes out as
  it went in exactly if it has no directive and fits `buf` (`sysPrintf_verbatim_iff`).

  One direction runs the formatter. The other counts: as long as no argument is read, the
  formatter stores no more characters than it takes from the format, and fewer at every
  directive (`formatLoop_bound`).
-/
import HelloOS.Printk.Format
import Mathlib.Data.List.TakeWhile

namespace HelloOS.Printk.Format

open HelloOS.Lib HelloOS.Entry

/-- The characters that make a directive of a `%` before them: flags, width, precision,
    qualifiers and conversions. -/
def directiveChars : List Byte := "-+ #0123456789*.hlLZcsopxXdiun%".toList.map chr

/-- A string in which no `%` stands before one of these. -/
def Plain (s : List Byte) : Prop := ∀ c ∈ directiveChars, ¬ [chr '%', c] <:+: s

/-- The text reaches `print` as it is, no argument is read, and nothing is stored through a
    pointer. -/
def Verbatim (s : List Byte) (r : Option Printed) : Prop :=
  ∃ p, r = some p ∧ p.text = s ∧ p.args = 0 ∧ p.stores = []

/-- The NUL-terminated string `s` at `p`. -/
structure CString (m : Mem) (p : BitVec 64) (s : List Byte) : Prop where
  bytes : m.readBytes p (s.length + 1) = s ++ [0#8]
  nul : 0#8 ∉ s

/-! ## Plain strings -/

theorem plain_nil : Plain [] := fun _ _ h => by simp at h

theorem plain_cons {x : Byte} {s : List Byte} :
    Plain (x :: s) ↔ (x = chr '%' → ∀ c ∈ s.head?, c ∉ directiveChars) ∧ Plain s := by
  constructor
  · intro h
    refine ⟨fun hx c hc hmem => h c hmem ?_, fun c hmem hin => h c hmem ?_⟩
    · obtain ⟨t, rfl⟩ := List.head?_eq_some_iff.mp hc
      exact List.infix_cons_iff.mpr (Or.inl ⟨t, by rw [hx]; rfl⟩)
    · exact List.infix_cons_iff.mpr (Or.inr hin)
  · rintro ⟨hhead, hs⟩ c hmem hin
    rcases List.infix_cons_iff.mp hin with ⟨t, ht⟩ | hin
    · rw [List.cons_append, List.cons_append, List.nil_append, List.cons.injEq] at ht
      exact hhead ht.1.symm c (by rw [← ht.2]; rfl) hmem
    · exact hs c hmem hin

/-- A conversion character. -/
def isConversion (c : Byte) : Bool := ("csopxXdiun%".toList.map chr).contains c

/-- Which part of a directive a character belongs to. -/
theorem mem_directiveChars (c : Byte) : c ∈ directiveChars ↔
    ((((flagOf c).isSome ∨ (isDigit c ∨ c = chr '*')) ∨ c = chr '.') ∨ isQualifier c) ∨
      isConversion c := by
  revert c
  decide +kernel

/-! ## What the parser takes -/

/-- `rest` is `fmt` without some characters in front, none of them NUL. If there are none,
    `fmt` does not start with one of those that `own` describes. -/
def Takes (own : Byte → Prop) (fmt rest : List Byte) : Prop :=
  ∃ t, 0#8 ∉ t ∧ fmt = t ++ rest ∧ (t = [] → ∀ c ∈ fmt.head?, ¬ own c)

theorem Takes.nothing {own : Byte → Prop} {c : Byte} {fmt : List Byte} (h : ¬ own c) :
    Takes own (c :: fmt) (c :: fmt) :=
  ⟨[], List.not_mem_nil, rfl, fun _ d hd => by
    rw [List.head?_cons, Option.mem_some_iff] at hd
    exact hd ▸ h⟩

theorem Takes.one (own : Byte → Prop) {c : Byte} {fmt : List Byte} (h : c ≠ 0#8) :
    Takes own (c :: fmt) fmt :=
  ⟨[c], by simpa using h.symm, rfl, fun h => absurd h (List.cons_ne_nil _ _)⟩

/-- A character and then some more. -/
theorem Takes.cons (own : Byte → Prop) {own' : Byte → Prop} {c : Byte} {fmt rest : List Byte}
    (h : c ≠ 0#8) (ht : Takes own' fmt rest) : Takes own (c :: fmt) rest := by
  obtain ⟨t, hnul, rfl, -⟩ := ht
  refine ⟨c :: t, ?_, rfl, fun h => absurd h (List.cons_ne_nil _ _)⟩
  rw [List.mem_cons, not_or]
  exact ⟨h.symm, hnul⟩

theorem Takes.trans {own own' : Byte → Prop} {a b c : List Byte} (h : Takes own a b)
    (h' : Takes own' b c) : Takes (fun x => own x ∨ own' x) a c := by
  obtain ⟨t, hnul, rfl, ht⟩ := h
  obtain ⟨t', hnul', rfl, ht'⟩ := h'
  refine ⟨t ++ t', ?_, (List.append_assoc _ _ _).symm, fun hnil x hx => ?_⟩
  · rw [List.mem_append, not_or]
    exact ⟨hnul, hnul'⟩
  · obtain ⟨rfl, rfl⟩ := List.append_eq_nil_iff.mp hnil
    exact not_or.mpr ⟨ht rfl x hx, ht' rfl x hx⟩

variable (va : VaList) {s s' : State} {fmt rest : List Byte}

theorem isDigit_ne {c : Byte} (h : isDigit c) : c ≠ 0#8 := by
  rintro rfl
  revert h
  decide

theorem skipAtoi_takes {i v : BitVec 32} (h : skipAtoi fmt i = some (v, rest)) :
    Takes (fun c => isDigit c) fmt rest := by
  induction fmt generalizing i with
  | nil => exact nomatch h
  | cons c fmt ih =>
      rw [skipAtoi] at h
      split at h
      · next hdigit => exact (ih h).cons _ (isDigit_ne hdigit)
      · next hdigit =>
          simp only [Option.some.injEq, Prod.mk.injEq] at h
          rw [← h.2]
          exact Takes.nothing hdigit

theorem flagOf_zero : flagOf 0#8 = none := by decide

theorem parseFlags_takes {f f' : BitVec 32} (h : parseFlags fmt f = some (f', rest)) :
    Takes (fun c => (flagOf c).isSome) fmt rest := by
  induction fmt generalizing f with
  | nil => exact nomatch h
  | cons c fmt ih =>
      rw [parseFlags] at h
      split at h
      · next hflag =>
          refine (ih h).cons _ ?_
          rintro rfl
          rw [flagOf_zero] at hflag
          exact nomatch hflag
      · next hflag =>
          simp only [Option.some.injEq, Prod.mk.injEq] at h
          rw [← h.2]
          exact Takes.nothing (by simp [hflag])

/-- Nothing but arguments has been read, and if none has, nothing has happened. -/
def ReadsOnly (s s' : State) : Prop := s' = s ∨ s.args < s'.args

theorem ReadsOnly.trans {s'' : State} (h : ReadsOnly s s') (h' : ReadsOnly s' s'') :
    ReadsOnly s s'' := by
  rcases h with rfl | h
  · exact h'
  · rcases h' with rfl | h'
    · exact Or.inr h
    · exact Or.inr (h.trans h')

theorem readsOnly_read (s : State) : ReadsOnly s s.read := Or.inr (Nat.lt_succ_self _)

theorem parseWidth_takes {f f' : BitVec 32} {w : ℤ}
    (h : parseWidth va s f fmt = some (w, f', s', rest)) :
    ReadsOnly s s' ∧ Takes (fun c => isDigit c ∨ c = chr '*') fmt rest := by
  cases fmt with
  | nil => exact nomatch h
  | cons c fmt =>
      rw [parseWidth] at h
      split at h
      · next hdigit =>
          obtain ⟨⟨v, r⟩, hv, hr⟩ := Option.map_eq_some_iff.mp h
          simp only [Prod.mk.injEq] at hr
          obtain ⟨-, -, rfl, rfl⟩ := hr
          rw [skipAtoi, if_pos hdigit] at hv
          exact ⟨Or.inl rfl, (skipAtoi_takes hv).cons _ (isDigit_ne hdigit)⟩
      · next hdigit =>
          split at h
          · next hstar =>
              have hne : c ≠ 0#8 := by rw [hstar]; decide
              dsimp only at h
              split at h
              all_goals
                simp only [Option.some.injEq, Prod.mk.injEq] at h
                obtain ⟨-, -, rfl, rfl⟩ := h
                exact ⟨readsOnly_read s, Takes.one _ hne⟩
          · next hstar =>
              simp only [Option.some.injEq, Prod.mk.injEq] at h
              obtain ⟨-, -, rfl, rfl⟩ := h
              exact ⟨Or.inl rfl, Takes.nothing (not_or.mpr ⟨hdigit, hstar⟩)⟩

theorem parsePoint_takes {w : ℤ} (h : parsePoint va s fmt = some (w, s', rest)) :
    ReadsOnly s s' ∧ Takes (fun c => isDigit c ∨ c = chr '*') fmt rest := by
  cases fmt with
  | nil => exact nomatch h
  | cons c fmt =>
      rw [parsePoint] at h
      split at h
      · next hdigit =>
          obtain ⟨⟨v, r⟩, hv, hr⟩ := Option.map_eq_some_iff.mp h
          simp only [Prod.mk.injEq] at hr
          obtain ⟨-, rfl, rfl⟩ := hr
          rw [skipAtoi, if_pos hdigit] at hv
          exact ⟨Or.inl rfl, (skipAtoi_takes hv).cons _ (isDigit_ne hdigit)⟩
      · next hdigit =>
          split at h
          · next hstar =>
              have hne : c ≠ 0#8 := by rw [hstar]; decide
              simp only [Option.some.injEq, Prod.mk.injEq] at h
              obtain ⟨-, rfl, rfl⟩ := h
              exact ⟨readsOnly_read s, Takes.one _ hne⟩
          · next hstar =>
              simp only [Option.some.injEq, Prod.mk.injEq] at h
              obtain ⟨-, rfl, rfl⟩ := h
              exact ⟨Or.inl rfl, Takes.nothing (not_or.mpr ⟨hdigit, hstar⟩)⟩

theorem parsePrecision_takes {w : ℤ} (h : parsePrecision va s fmt = some (w, s', rest)) :
    ReadsOnly s s' ∧ Takes (fun c => c = chr '.') fmt rest := by
  cases fmt with
  | nil => exact nomatch h
  | cons c fmt =>
      rw [parsePrecision] at h
      split at h
      · next hpoint =>
          obtain ⟨hreads, htakes⟩ := parsePoint_takes va h
          exact ⟨hreads, htakes.cons _ (by rw [hpoint]; decide)⟩
      · next hpoint =>
          simp only [Option.some.injEq, Prod.mk.injEq] at h
          obtain ⟨-, rfl, rfl⟩ := h
          exact ⟨Or.inl rfl, Takes.nothing hpoint⟩

theorem parseQualifier_takes {q : Option Byte} (h : parseQualifier fmt = some (q, rest)) :
    Takes (fun c => isQualifier c) fmt rest := by
  cases fmt with
  | nil => exact nomatch h
  | cons c fmt =>
      rw [parseQualifier] at h
      split at h
      · next hq =>
          simp only [Option.some.injEq, Prod.mk.injEq] at h
          rw [← h.2]
          refine Takes.one _ ?_
          rintro rfl
          revert hq
          decide
      · next hq =>
          simp only [Option.some.injEq, Prod.mk.injEq] at h
          rw [← h.2]
          exact Takes.nothing hq

/-- A character that may stand between the `%` and the conversion. -/
def isModifier (c : Byte) : Prop :=
  (((flagOf c).isSome ∨ (isDigit c ∨ c = chr '*')) ∨ c = chr '.') ∨ isQualifier c

theorem parseSpec_takes {d : Spec} (h : parseSpec va s fmt = some (d, s', rest)) :
    ReadsOnly s s' ∧ Takes isModifier fmt rest := by
  simp only [parseSpec, Option.bind_eq_bind, Option.bind_eq_some_iff, Prod.exists, Option.pure_def,
    Option.some.injEq, Prod.mk.injEq] at h
  obtain ⟨f, fmt₁, hflags, w, f', s₁, fmt₂, hwidth, p, s₂, fmt₃, hprec, q, fmt₄, hq, -, rfl, rfl⟩ :=
    h
  obtain ⟨hreads₁, htakes₁⟩ := parseWidth_takes va hwidth
  obtain ⟨hreads₂, htakes₂⟩ := parsePrecision_takes va hprec
  exact ⟨hreads₁.trans hreads₂,
    (((parseFlags_takes hflags).trans htakes₁).trans htakes₂).trans (parseQualifier_takes hq)⟩

/-! ## Directives -/

variable {fuel : ℕ}

theorem isConversion_iff (c : Byte) : isConversion c ↔
    c = chr 'c' ∨ c = chr 's' ∨ c = chr 'o' ∨ c = chr 'p' ∨ c = chr 'x' ∨ c = chr 'X' ∨
      (c = chr 'd' ∨ c = chr 'i') ∨ c = chr 'u' ∨ c = chr 'n' ∨ c = chr '%' := by
  simp [isConversion, or_assoc]

theorem putNumber_args {num : BitVec 64} {base : ℕ} {size precision flags : BitVec 32}
    (h : putNumber fuel s num base size precision flags = some s') : s'.args = s.args + 1 := by
  obtain ⟨r, -, rfl⟩ := Option.map_eq_some_iff.mp h
  rfl

theorem putPointer_args {d : Spec} (h : putPointer fuel va d s = some s') :
    s'.args = s.args + 1 := by
  unfold putPointer at h
  split at h
  · exact putNumber_args h
  · exact putNumber_args h

theorem putChar_args {d : Spec} (h : putChar fuel va d s = some s') :
    s'.args = s.args + 1 := by
  simp only [putChar, Option.bind_eq_bind, Option.bind_eq_some_iff, Option.pure_def,
    Option.some.injEq] at h
  obtain ⟨pad, -, rest, -, rfl⟩ := h
  rfl

theorem putString_args {d : Spec} (h : putString fuel va d s = some s') :
    s'.args = s.args + 1 := by
  simp only [putString, Option.bind_eq_bind, Option.bind_eq_some_iff, Option.pure_def,
    Option.some.injEq] at h
  obtain ⟨pad, -, text, -, rest, -, rfl⟩ := h
  rfl

/-- All conversions but `%` read an argument. -/
theorem convert_reads {d : Spec} {c : Byte} (hrun : convert fuel va d s c = some s')
    (h : isConversion c) (hc : c ≠ chr '%') : s'.args = s.args + 1 := by
  rcases (isConversion_iff c).mp h with rfl | rfl | rfl | rfl | rfl | rfl | (rfl | rfl) | rfl |
    rfl | rfl
  case inl => exact putChar_args va hrun
  case inr.inl => exact putString_args va hrun
  case inr.inr.inr.inl => exact putPointer_args va hrun
  case inr.inr.inr.inr.inr.inr.inr.inr.inl =>
    obtain rfl := Option.some.inj hrun
    rfl
  case inr.inr.inr.inr.inr.inr.inr.inr.inr => exact absurd rfl hc
  all_goals exact putNumber_args hrun

/-- The default case, at a character. -/
theorem convert_default (d : Spec) (s : State) {c : Byte} (h : ¬ isConversion c) :
    convert fuel va d s c = some (s.put [chr '%', c]) := by
  simp only [isConversion_iff, not_or] at h
  unfold convert
  simp only [h, if_false, or_self]

theorem convert_percent (d : Spec) (s : State) :
    convert fuel va d s (chr '%') = some (s.put [chr '%']) := rfl

/-- The conversion takes at most one character. If it reads no argument it stores at most one
    more than it takes, and fewer if it is a `%`. -/
theorem conversion_length {d : Spec} (h : conversion fuel va d s fmt = some (s', rest)) :
    s.args < s'.args ∨ s'.args = s.args ∧ ∃ u, 0#8 ∉ u ∧ fmt = u ++ rest ∧ u.length ≤ 1 ∧
      s'.str.length ≤ s.str.length + (u.length + 1) ∧
      (s'.str.length = s.str.length + (u.length + 1) → ∀ c ∈ fmt.head?, ¬ isConversion c) := by
  cases fmt with
  | nil => exact nomatch h
  | cons c fmt =>
      rw [conversion] at h
      split at h
      · next hzero =>
          simp only [Option.some.injEq, Prod.mk.injEq] at h
          obtain ⟨rfl, rfl⟩ := h
          refine Or.inr ⟨rfl, [], List.not_mem_nil, rfl, by simp, by simp [State.put],
            fun _ x hx => ?_⟩
          rw [List.head?_cons, Option.mem_some_iff] at hx
          rw [← hx, hzero]
          decide
      · next hzero =>
          obtain ⟨s₁, hrun, heq⟩ := Option.map_eq_some_iff.mp h
          simp only [Prod.mk.injEq] at heq
          obtain ⟨rfl, rfl⟩ := heq
          have hnul : 0#8 ∉ [c] := by simpa using Ne.symm hzero
          by_cases hconv : isConversion c
          · by_cases hpercent : c = chr '%'
            · subst hpercent
              rw [convert_percent, Option.some.injEq] at hrun
              subst hrun
              refine Or.inr ⟨rfl, [chr '%'], hnul, rfl, le_refl _, by simp [State.put],
                fun heq => ?_⟩
              simp [State.put] at heq
            · left
              rw [convert_reads va hrun hconv hpercent]
              exact Nat.lt_succ_self _
          · rw [convert_default va d s hconv, Option.some.injEq] at hrun
            subst hrun
            refine Or.inr ⟨rfl, [c], hnul, rfl, le_refl _, by simp [State.put], fun _ x hx => ?_⟩
            rw [List.head?_cons, Option.mem_some_iff] at hx
            exact hx ▸ hconv

/-- A directive that reads no argument stores at most as many characters as it takes with its
    `%`, and fewer unless no directive character follows the `%`. -/
theorem directive_length (h : directive fuel va s fmt = some (s', rest)) :
    s.args < s'.args ∨ s'.args = s.args ∧ ∃ t, 0#8 ∉ t ∧ fmt = t ++ rest ∧
      s'.str.length ≤ s.str.length + (t.length + 1) ∧
      (s'.str.length = s.str.length + (t.length + 1) →
        t.length ≤ 1 ∧ ∀ c ∈ fmt.head?, c ∉ directiveChars) := by
  unfold directive at h
  obtain ⟨⟨d, s₁, fmt₁⟩, hspec, hconv⟩ := Option.bind_eq_some_iff.mp h
  dsimp only at hconv
  obtain ⟨hreads, t, hnul, rfl, hmodifier⟩ := parseSpec_takes va hspec
  rcases hreads with rfl | hlt
  · rcases conversion_length va hconv with hlt | ⟨hargs, u, hnul', rfl, hone, hle, heq⟩
    · exact Or.inl hlt
    · refine Or.inr ⟨hargs, t ++ u, ?_, (List.append_assoc _ _ _).symm, ?_, fun hlen => ?_⟩
      · rw [List.mem_append, not_or]
        exact ⟨hnul, hnul'⟩
      · rw [List.length_append]
        omega
      · rw [List.length_append] at hlen ⊢
        have ht : t = [] := List.eq_nil_of_length_eq_zero (by omega)
        subst ht
        refine ⟨by simpa using hone, fun c hc => ?_⟩
        rw [mem_directiveChars, not_or]
        exact ⟨hmodifier rfl c hc, heq (by simpa using hlen) c hc⟩
  · left
    rcases conversion_length va hconv with hlt' | ⟨hargs, -⟩
    · exact hlt.trans hlt'
    · exact hargs ▸ hlt

/-! ## The loop -/

theorem formatLoop_nul (rounds : ℕ) (fmt : List Byte) (s : State) :
    formatLoop fuel va (rounds + 1) (0#8 :: fmt) s = some s := rfl

theorem formatLoop_percent (rounds : ℕ) (fmt : List Byte) (s : State) :
    formatLoop fuel va (rounds + 1) (chr '%' :: fmt) s =
      (directive fuel va s fmt).bind fun r => formatLoop fuel va rounds r.2 r.1 := rfl

theorem formatLoop_char (rounds : ℕ) {c : Byte} (fmt : List Byte) (s : State) (hzero : c ≠ 0#8)
    (hpercent : c ≠ chr '%') : formatLoop fuel va (rounds + 1) (c :: fmt) s =
      formatLoop fuel va rounds fmt (s.put [c]) := by
  rw [formatLoop, if_neg hzero, if_neg hpercent]

theorem formatLoop_args {rounds : ℕ} (h : formatLoop fuel va rounds fmt s = some s') :
    s.args ≤ s'.args := by
  induction rounds generalizing fmt s with
  | zero => exact nomatch h
  | succ rounds ih =>
      cases fmt with
      | nil => exact nomatch h
      | cons c fmt =>
          rw [formatLoop] at h
          split_ifs at h
          · exact le_of_eq (congrArg State.args (Option.some.inj h))
          · obtain ⟨⟨s₁, rest⟩, hdir, hrest⟩ := Option.bind_eq_some_iff.mp h
            have hmono : s₁.args ≤ s'.args := ih hrest
            rcases directive_length va hdir with hlt | ⟨hargs, -⟩
            · exact hlt.le.trans hmono
            · exact hargs ▸ hmono
          · exact ih (s := s.put [c]) h

/-- What is left of a terminated format is terminated. -/
theorem terminated_of_append {t u : List Byte} (hnul : 0#8 ∉ u) (ht : 0#8 ∉ t)
    (h : t ++ [0#8] = u ++ rest) : ∃ t', 0#8 ∉ t' ∧ t = u ++ t' ∧ rest = t' ++ [0#8] := by
  rcases List.append_eq_append_iff.mp h with ⟨v, hu, hv⟩ | ⟨v, htv, hv⟩
  · cases v with
    | nil => exact ⟨[], List.not_mem_nil, by simp [hu], by simpa using hv.symm⟩
    | cons x v =>
        rw [List.cons_append, List.cons.injEq] at hv
        refine absurd ?_ hnul
        rw [hu, ← hv.1]
        simp
  · refine ⟨v, fun hmem => ht ?_, htv, hv⟩
    rw [htv]
    exact List.mem_append_right u hmem

theorem percent_mem : chr '%' ∈ directiveChars := by decide

/-- A `%` and at most one character that is no directive character, before a plain string. -/
theorem plain_percent {u t : List Byte} (hone : u.length ≤ 1)
    (hhead : ∀ c ∈ (u ++ t).head?, c ∉ directiveChars) (ht : Plain t) :
    Plain (chr '%' :: (u ++ t)) := by
  refine plain_cons.mpr ⟨fun _ => hhead, ?_⟩
  cases u with
  | nil => exact ht
  | cons c u =>
      obtain rfl : u = [] := List.eq_nil_of_length_eq_zero (by rw [List.length_cons] at hone; omega)
      have hc : c ≠ chr '%' := fun h => hhead c rfl (h ▸ percent_mem)
      exact plain_cons.mpr ⟨fun h => absurd h hc, ht⟩

/-- As long as no argument is read, the formatter stores at most as many characters as the
    format has, and fewer unless the format is plain. -/
theorem formatLoop_bound {rounds : ℕ} {t : List Byte} (ht : 0#8 ∉ t)
    (h : formatLoop fuel va rounds (t ++ [0#8]) s = some s') (hargs : s'.args = s.args) :
    s'.str.length ≤ s.str.length + t.length ∧
      (s'.str.length = s.str.length + t.length → Plain t) := by
  induction rounds generalizing t s with
  | zero => exact nomatch h
  | succ rounds ih =>
      cases t with
      | nil =>
          rw [List.nil_append, formatLoop_nul, Option.some.injEq] at h
          exact ⟨by rw [h]; exact le_refl _, fun _ => plain_nil⟩
      | cons c t =>
          rw [List.mem_cons, not_or] at ht
          obtain ⟨hc, ht⟩ := ht
          rw [List.cons_append] at h
          rw [List.length_cons]
          by_cases hpercent : c = chr '%'
          · -- a directive, and then the rest of the format
            rw [hpercent, formatLoop_percent] at h
            obtain ⟨⟨s₁, rest⟩, hdir, hrest⟩ := Option.bind_eq_some_iff.mp h
            dsimp only at hrest
            have hmono := formatLoop_args va hrest
            rcases directive_length va hdir with hlt | ⟨hsame, u, hnul, hfmt, hle, heq⟩
            · omega
            · obtain ⟨t', ht', rfl, rfl⟩ := terminated_of_append hnul ht hfmt
              obtain ⟨hle', hplain⟩ := ih ht' hrest (by omega)
              rw [List.length_append]
              refine ⟨by omega, fun hsum => ?_⟩
              obtain ⟨hone, hhead⟩ := heq (by omega)
              rw [hpercent]
              refine plain_percent hone (fun x hx => hhead x ?_) (hplain (by omega))
              rw [List.head?_append_of_ne_nil _ (fun hnil => by rw [hnil] at hx; exact nomatch hx)]
              exact hx
          · rw [formatLoop_char va rounds _ s (Ne.symm hc) hpercent] at h
            obtain ⟨hle, hplain⟩ := ih ht h hargs
            simp only [State.put, List.length_append, List.length_singleton] at hle hplain
            refine ⟨by omega, fun hsum => ?_⟩
            exact plain_cons.mpr ⟨fun hx => absurd hx hpercent, hplain (by omega)⟩

/-! ## Plain formats -/

theorem parseSpec_plain (s : State) {c : Byte} (fmt : List Byte) (h : c ∉ directiveChars) :
    parseSpec va s (c :: fmt) = some (⟨0#32, -1, -1, none⟩, s, c :: fmt) := by
  simp only [mem_directiveChars, not_or, Option.not_isSome_iff_eq_none] at h
  obtain ⟨⟨⟨⟨hflag, hdigit, hstar⟩, hpoint⟩, hq⟩, -⟩ := h
  simp [parseSpec, parseFlags, parseWidth, parsePrecision, parseQualifier, hflag, hdigit, hstar,
    hpoint, hq]

/-- A `%` before any other character is stored with that character. -/
theorem directive_plain (s : State) {c : Byte} (fmt : List Byte) (h : c ∉ directiveChars)
    (hc : c ≠ 0#8) : directive fuel va s (c :: fmt) = some (s.put [chr '%', c], fmt) := by
  have hconv : ¬ isConversion c := by
    rw [mem_directiveChars, not_or] at h
    exact h.2
  rw [directive, parseSpec_plain va s fmt h]
  change conversion fuel va _ s (c :: fmt) = _
  rw [conversion, if_neg hc, convert_default va _ s hconv]
  rfl

/-- A `%` at the end is stored. -/
theorem directive_end (s : State) :
    directive fuel va s [0#8] = some (s.put [chr '%'], [0#8]) := by
  rw [directive, parseSpec_plain va s [] (by decide)]
  rfl

theorem State.put_put (s : State) (t u : List Byte) : (s.put t).put u = s.put (t ++ u) := by
  simp [State.put]

/-- A plain format is stored as it is. -/
theorem formatLoop_plain {rounds : ℕ} {t : List Byte} (ht : 0#8 ∉ t) (hplain : Plain t)
    (hrounds : t.length < rounds) (s : State) :
    formatLoop fuel va rounds (t ++ [0#8]) s = some (s.put t) := by
  induction rounds generalizing t s with
  | zero => omega
  | succ rounds ih =>
      cases t with
      | nil =>
          rw [List.nil_append, formatLoop_nul]
          simp [State.put]
      | cons c t =>
          rw [List.mem_cons, not_or] at ht
          obtain ⟨hc, ht⟩ := ht
          obtain ⟨hhead, hrest⟩ := plain_cons.mp hplain
          rw [List.length_cons] at hrounds
          rw [List.cons_append]
          by_cases hpercent : c = chr '%'
          · rw [hpercent, formatLoop_percent]
            cases t with
            | nil =>
                rw [List.nil_append, directive_end]
                cases rounds with
                | zero => omega
                | succ rounds => rfl
            | cons d t =>
                rw [List.mem_cons, not_or] at ht
                have hd := hhead hpercent d rfl
                rw [List.cons_append, directive_plain va s _ hd (Ne.symm ht.1)]
                rw [List.length_cons] at hrounds
                exact (ih ht.2 (plain_cons.mp hrest).2 (by omega) _).trans
                  (by rw [State.put_put]; rfl)
          · rw [formatLoop_char va rounds _ s (Ne.symm hc) hpercent, ih ht hrest (by omega),
              State.put_put]
            rfl

/-! ## `sys_printf` -/

/-- `print` stops at the NUL that `vsprintf` stores last, if not before. -/
theorem takeWhile_nul (t : List Byte) :
    (t ++ [0#8]).takeWhile (· ≠ 0#8) = t.takeWhile (· ≠ 0#8) := by
  rw [List.takeWhile_append]
  split
  · next hall =>
      rw [(List.takeWhile_prefix _).eq_of_length hall]
      exact List.append_nil t
  · rfl

theorem takeWhile_of_notMem {s : List Byte} (h : 0#8 ∉ s) : s.takeWhile (· ≠ 0#8) = s := by
  rw [List.takeWhile_eq_self_iff]
  intro c hc
  simpa using fun hzero : c = 0#8 => h (hzero ▸ hc)

/-- `kprintf` on a terminated format. -/
theorem kprintf_verbatim_iff {s : List Byte} (h : 0#8 ∉ s) :
    Verbatim s (kprintf va (s ++ [0#8])) ↔ Plain s ∧ s.length < bufSize := by
  have hlen : (s ++ [0#8]).length = s.length + 1 := by simp
  constructor
  · rintro ⟨p, hp, htext, hargs, hstores⟩
    obtain ⟨st, hst, hbuf⟩ := Option.bind_eq_some_iff.mp hp
    obtain ⟨u, hu, rfl⟩ := Option.map_eq_some_iff.mp hst
    split at hbuf
    · next hfits =>
        rw [Option.some.injEq] at hbuf
        subst hbuf
        have hle : s.length ≤ u.str.length := by
          rw [← htext]
          exact (takeWhile_nul u.str).symm ▸ (List.takeWhile_prefix _).length_le
        obtain ⟨hmost, hplain⟩ := formatLoop_bound va h hu hargs
        rw [List.length_nil, Nat.zero_add] at hmost hplain
        refine ⟨hplain (le_antisymm hmost hle), ?_⟩
        simp only [State.put, List.length_append, List.length_singleton] at hfits
        omega
    · exact nomatch hbuf
  · rintro ⟨hplain, hfits⟩
    have hst : vsprintf loopFuel va (s ++ [0#8]) = some ⟨s ++ [0#8], 0, []⟩ := by
      rw [vsprintf, formatLoop_plain va h hplain (by omega)]
      rfl
    refine ⟨⟨0x07#16, s, 0, []⟩, ?_, rfl, rfl, rfl⟩
    rw [kprintf, printf, hst, Option.bind_some, if_pos (hlen.trans_le hfits), takeWhile_nul,
      takeWhile_of_notMem h]

/-- A string in memory is shorter than memory. -/
theorem CString.length_lt {m : Mem} {p : BitVec 64} {s : List Byte} (h : CString m p s) :
    s.length < 2 ^ 64 := by
  by_contra hlong
  have hbyte : ∀ i < s.length + 1, (s ++ [0#8])[i]? = some (m (p + BitVec.ofNat 64 i)) := by
    intro i hi
    rw [← h.bytes]
    exact Mem.readBytes_getElem? _ _ hi
  -- the terminator's address is that of an earlier character
  have hwrap : BitVec.ofNat 64 s.length = BitVec.ofNat 64 (s.length - 2 ^ 64) := by
    apply BitVec.eq_of_toNat_eq
    rw [BitVec.toNat_ofNat, BitVec.toNat_ofNat]
    omega
  have hend := hbyte s.length (by omega)
  have hearly := hbyte (s.length - 2 ^ 64) (by omega)
  rw [List.getElem?_concat_length, hwrap] at hend
  rw [List.getElem?_append_left (by omega), ← hend] at hearly
  exact h.nul (List.mem_of_getElem? hearly)

theorem stringAt_eq {m : Mem} {p : BitVec 64} {s : List Byte} (h : CString m p s) {n : ℕ}
    (hn : s.length < n) : stringAt m p n = s ++ [0#8] := by
  obtain ⟨hbytes, hnul⟩ := h
  induction s generalizing p n with
  | nil =>
      cases n with
      | zero => omega
      | succ n =>
          have h0 : m p = 0#8 := by simpa [Mem.readBytes] using hbytes
          rw [stringAt, if_pos h0, List.nil_append]
  | cons c s ih =>
      cases n with
      | zero => omega
      | succ n =>
          rw [List.length_cons] at hn
          rw [List.length_cons, Mem.readBytes, List.cons_append, List.cons.injEq] at hbytes
          rw [List.mem_cons, not_or] at hnul
          rw [stringAt, hbytes.1, if_neg (Ne.symm hnul.1), ih (by omega) hbytes.2 hnul.2,
            List.cons_append]

/-- **When user text is printed verbatim.** The string at `rdi` reaches `print` as it is, with
    no argument read and nothing stored through a pointer, exactly when no `%` in it stands
    before a directive character and it fits `buf`. -/
theorem sysPrintf_verbatim_iff (regs : PtRegs) {s : List Byte} (h : CString va.mem regs.rdi s) :
    Verbatim s (sysPrintf va regs) ↔ Plain s ∧ s.length < bufSize := by
  rw [sysPrintf, stringAt_eq h h.length_lt]
  exact kprintf_verbatim_iff va h.nul

/-- `%n` at address 0, and nothing else in memory. -/
def countMem : Mem := fun a => if a = 0#64 then chr '%' else if a = 1#64 then chr 'n' else 0#8

/-- All words of the argument list are zero. -/
def countVa : VaList := ⟨fun _ => 0#64, countMem⟩

/-- `rdi` points to it. -/
def countRegs : PtRegs := PtRegs.read (fun _ => 0#8) 0#64

theorem countMem_string : CString countMem countRegs.rdi [chr '%', chr 'n'] :=
  ⟨by decide, by decide⟩

theorem sysPrintf_verbatim_count :
    Verbatim [chr '%', chr 'n'] (sysPrintf countVa countRegs) ↔
      Plain [chr '%', chr 'n'] ∧ [chr '%', chr 'n'].length < bufSize :=
  sysPrintf_verbatim_iff countVa countRegs countMem_string

/-- On `%n` the kernel reads an argument that nobody passed and stores through it. -/
theorem sysPrintf_not_verbatim : ¬ ∀ (va : VaList) (regs : PtRegs) (s : List Byte),
    CString va.mem regs.rdi s → Verbatim s (sysPrintf va regs) := by
  intro h
  obtain ⟨p, hp, -, hargs, -⟩ := h countVa countRegs _ countMem_string
  have hrun : sysPrintf countVa countRegs = some ⟨0x07#16, [], 1, [⟨0#64, 4, 0#64⟩]⟩ := by
    have hstring := stringAt_eq countMem_string (n := 2 ^ 64) (by decide)
    change kprintf countVa (stringAt countMem countRegs.rdi (2 ^ 64)) = _
    rw [hstring]
    decide
  rw [hrun, Option.some.injEq] at hp
  rw [← hp] at hargs
  exact absurd hargs (by decide)

end HelloOS.Printk.Format
