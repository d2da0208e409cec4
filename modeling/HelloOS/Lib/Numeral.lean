/-
  Numerals in a base. A number is written with its digits from the most significant one on
  and without a leading zero; 0 is one digit (`render`). `parse` reads a numeral, and reading
  what has been written gives the number back (`parse_render`).
-/
import Mathlib.Data.Nat.Digits.Lemmas

namespace HelloOS.Lib.Numeral

variable {α : Type*} (glyph : ℕ → α) (value : α → Option ℕ) (base : ℕ)

/-- The digits of `n`, as characters. -/
def render (n : ℕ) : List α :=
  if n = 0 then [glyph 0] else ((Nat.digits base n).map glyph).reverse

/-- One more digit behind a number. -/
def parseDigit (n : ℕ) (c : α) : Option ℕ :=
  (value c).bind fun d => if d < base then some (n * base + d) else none

/-- The number that a numeral stands for. -/
def parse (l : List α) : Option ℕ := l.foldlM (parseDigit value base) 0

theorem parse_nil : parse value base [] = some 0 := rfl

theorem parse_concat (l : List α) (c : α) :
    parse value base (l ++ [c]) = (parse value base l).bind fun n => parseDigit value base n c := by
  simp [parse, List.foldlM_append]

variable {glyph value base}

/-- Digits from the least significant one on, and their characters in reverse. -/
theorem parse_reverse (hval : ∀ d < base, value (glyph d) = some d) {ds : List ℕ}
    (hds : ∀ d ∈ ds, d < base) :
    parse value base (ds.map glyph).reverse = some (Nat.ofDigits base ds) := by
  induction ds with
  | nil => rfl
  | cons d ds ih =>
      rw [List.forall_mem_cons] at hds
      rw [List.map_cons, List.reverse_cons, parse_concat, ih hds.2, Option.bind_some, parseDigit,
        hval d hds.1, Option.bind_some, if_pos hds.1, Nat.ofDigits_cons, Nat.mul_comm, Nat.add_comm]

/-- **Round trip.** -/
theorem parse_render (hbase : 1 < base) (hval : ∀ d < base, value (glyph d) = some d) (n : ℕ) :
    parse value base (render glyph base n) = some n := by
  unfold render
  split
  · next h =>
      rw [h, ← List.nil_append [glyph 0], parse_concat, parse_nil, Option.bind_some, parseDigit,
        hval 0 (by omega), Option.bind_some, if_pos (by omega), Nat.zero_mul]
  · rw [parse_reverse hval fun d hd => Nat.digits_lt_base hbase hd, Nat.ofDigits_digits]

variable (glyph)

theorem render_length_le (hbase : 1 < base) {n k : ℕ} (hk : 0 < k) (h : n < base ^ k) :
    (render glyph base n).length ≤ k := by
  unfold render
  split
  · exact hk
  · rw [List.length_reverse, List.length_map]
    exact (Nat.digits_length_le_iff hbase n).mpr h

/-- There is no leading zero. -/
theorem render_head (hbase : 1 < base) {n : ℕ} (h : n ≠ 0) :
    ∃ d l, 0 < d ∧ d < base ∧ render glyph base n = glyph d :: l := by
  have hne : Nat.digits base n ≠ [] := mt (Nat.digits_eq_nil_iff_eq_zero).mp h
  have hlast := Nat.getLast_digit_ne_zero base h
  refine ⟨(Nat.digits base n).getLast hne, ((Nat.digits base n).dropLast.map glyph).reverse,
    Nat.pos_of_ne_zero hlast, Nat.digits_lt_base hbase (List.getLast_mem hne), ?_⟩
  rw [render, if_neg h]
  nth_rewrite 1 [← List.dropLast_append_getLast hne]
  rw [List.map_append, List.reverse_append]
  rfl

end HelloOS.Lib.Numeral
