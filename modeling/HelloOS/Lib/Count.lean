/-
  Counting and summing over a finite set when one element changes.

  A counter that is bumped whenever one element of a set changes state keeps equal to the
  cardinality or the sum it stands for. The lemmas say by how much the cardinality of a
  filter, or a sum, moves when its predicate or summand changes at one element `i` only.
-/
import Mathlib.Algebra.BigOperators.Group.Finset.Basic
import Mathlib.Algebra.Order.BigOperators.Group.Finset
import Mathlib.Data.BitVec

namespace HelloOS.Lib

variable {α : Type*} [DecidableEq α] {s : Finset α} {i : α}

/-- One more element satisfies the predicate. -/
theorem card_filter_gain {P Q : α → Prop} [DecidablePred P] [DecidablePred Q] (hi : i ∈ s)
    (hP : ¬ P i) (hQ : Q i) (h : ∀ j ∈ s, j ≠ i → (P j ↔ Q j)) :
    (s.filter Q).card = (s.filter P).card + 1 := by
  have hins : s.filter Q = insert i (s.filter P) := by
    ext j
    simp only [Finset.mem_filter, Finset.mem_insert]
    by_cases hj : j = i
    · subst hj; simp [hi, hQ]
    · simp only [hj, false_or]
      exact and_congr_right fun hjs => (h j hjs hj).symm
  rw [hins, Finset.card_insert_of_notMem (by simp [hP])]

/-- One summand grows by `d`. -/
theorem sum_change {M : Type*} [AddCommMonoid M] {f g : α → M} {d : M} (hi : i ∈ s)
    (hd : g i = f i + d) (h : ∀ j ∈ s, j ≠ i → g j = f j) :
    ∑ j ∈ s, g j = ∑ j ∈ s, f j + d := by
  rw [← Finset.add_sum_erase s g hi, ← Finset.add_sum_erase s f hi, hd]
  have : ∑ j ∈ s.erase i, g j = ∑ j ∈ s.erase i, f j :=
    Finset.sum_congr rfl fun j hj => h j (Finset.mem_of_mem_erase hj) (Finset.ne_of_mem_erase hj)
  rw [this, add_assoc, add_assoc, add_comm d]

/-- A sum of words is the sum of their values modulo `2^w`. -/
theorem toNat_sum {w : Nat} (f : α → BitVec w) :
    (∑ j ∈ s, f j).toNat = (∑ j ∈ s, (f j).toNat) % 2 ^ w := by
  induction s using Finset.induction_on with
  | empty => simp
  | insert j s hj ih =>
      rw [Finset.sum_insert hj, Finset.sum_insert hj, BitVec.toNat_add, ih, Nat.add_mod_mod]

end HelloOS.Lib
