/-
  Circular doubly linked lists over any type of nodes.

  A ring is named by a head `h` and the list `xs` of its other members in `next` order: the
  walk `h, xs, h` is linked both ways at every step (`Linked`), and no node occurs twice.
  How the links are stored is left open: `next` and `prev` are functions.

  A ring can be named by any of its members (`IsRing.rotate`). A new node goes in behind the
  head (`IsRing.insert`), and following `next` from the head visits the list and comes back
  (`IsRing.walk`).
-/
import Mathlib.Data.List.Chain
import Mathlib.Data.List.Iterate
import Mathlib.Data.List.Nodup
import Mathlib.Data.List.Rotate

namespace HelloOS.Lib

variable {α : Type*} {next prev : α → α} {h x y : α} {xs : List α}

/-- `y` follows `x`, and both links say so. -/
def Linked (next prev : α → α) (x y : α) : Prop := next x = y ∧ prev y = x

/-- The ring of `h` and `xs`. -/
structure IsRing (next prev : α → α) (h : α) (xs : List α) : Prop where
  nodup : (h :: xs).Nodup
  linked : List.IsChain (Linked next prev) (h :: (xs ++ [h]))

theorem isRing_nil : IsRing next prev h [] ↔ Linked next prev h h :=
  ⟨fun r => (List.isChain_cons_cons.mp r.linked).1, fun hl => ⟨by simp, by simpa using hl⟩⟩

theorem isRing_singleton (hne : h ≠ x) :
    IsRing next prev h [x] ↔ Linked next prev h x ∧ Linked next prev x h := by
  constructor
  · intro r
    obtain ⟨h1, h2⟩ := List.isChain_cons_cons.mp r.linked
    exact ⟨h1, (List.isChain_cons_cons.mp h2).1⟩
  · rintro ⟨h1, h2⟩
    exact ⟨by simp [hne], by simp [h1, h2]⟩

/-- A walk that is back at the head after two steps has seen the whole ring. -/
theorem IsRing.length_le_one (r : IsRing next prev h xs) (hback : next (next h) = h) :
    xs.length ≤ 1 := by
  obtain ⟨hnd, hl⟩ := r
  match xs, hnd, hl with
  | [], _, _ => exact Nat.zero_le 1
  | [_], _, _ => exact Nat.le_refl 1
  | x :: y :: _, hnd, hl =>
      obtain ⟨⟨hx, -⟩, hl⟩ := List.isChain_cons_cons.mp hl
      obtain ⟨⟨hy, -⟩, -⟩ := List.isChain_cons_cons.mp hl
      rw [hx, hy] at hback
      exact absurd hback.symm (by simp at hnd; tauto)

/-! ## Naming a ring by another member -/

theorem IsRing.rotate {ys : List α} (r : IsRing next prev h (xs ++ x :: ys)) :
    IsRing next prev x (ys ++ h :: xs) := by
  obtain ⟨hnd, hl⟩ := r
  have hperm : ((h :: xs) ++ (x :: ys)).Perm ((x :: ys) ++ (h :: xs)) := List.perm_append_comm
  -- the walk from `h` to `x`, and the one from `x` to `h`
  have hsplit : h :: ((xs ++ x :: ys) ++ [h]) = (h :: xs) ++ x :: (ys ++ [h]) := by simp
  rw [hsplit, List.isChain_split] at hl
  refine ⟨hperm.nodup hnd, ?_⟩
  have hjoin : x :: ((ys ++ h :: xs) ++ [x]) = (x :: ys) ++ h :: (xs ++ [x]) := by simp
  rw [hjoin, List.isChain_split]
  exact ⟨hl.2, hl.1⟩

/-- Every member names the ring, with the same members in the same cyclic order. -/
theorem IsRing.named (r : IsRing next prev h xs) (hx : x ∈ h :: xs) :
    ∃ ys, (x :: ys).IsRotated (h :: xs) ∧ IsRing next prev x ys := by
  rcases List.mem_cons.mp hx with rfl | hmem
  · exact ⟨xs, List.IsRotated.refl _, r⟩
  · obtain ⟨us, vs, rfl⟩ := List.append_of_mem hmem
    have hrot : ((x :: vs) ++ (h :: us)).IsRotated ((h :: us) ++ (x :: vs)) :=
      List.isRotated_append
    exact ⟨vs ++ h :: us, hrot, r.rotate⟩

/-! ## Putting a node in -/

/-- The ring of links that take `x` in behind the head and are the old ones elsewhere. -/
theorem IsRing.insert {next' prev' : α → α} (r : IsRing next prev h xs) (hx : x ∉ h :: xs)
    (hhead : Linked next' prev' h x) (hnew : Linked next' prev' x (next h))
    (hnext : ∀ y ∈ xs, next' y = next y) (hprev : ∀ y ∈ h :: xs, y ≠ next h → prev' y = prev y) :
    IsRing next' prev' h (x :: xs) := by
  obtain ⟨hnd, hl⟩ := r
  have hnd' : (h :: x :: xs).Nodup := (List.Perm.swap h x xs).nodup (List.nodup_cons.mpr ⟨hx, hnd⟩)
  refine ⟨hnd', ?_⟩
  rw [List.cons_append, List.isChain_cons_cons]
  refine ⟨hhead, ?_⟩
  cases xs with
  | nil =>
      have hself : Linked next prev h h := (List.isChain_cons_cons.mp hl).1
      rw [hself.1] at hnew
      exact List.isChain_pair.mpr hnew
  | cons y ys =>
      obtain ⟨⟨hy, -⟩, hrest⟩ := List.isChain_cons_cons.mp hl
      rw [hy] at hnew hprev
      refine List.isChain_cons_cons.mpr ⟨hnew, hrest.imp_of_mem_tail_imp fun a b ha hb hab => ?_⟩
      -- no link behind `y` leads to `y`, so none of them starts at the head
      have hby : b ≠ y := by
        rintro rfl
        rcases List.mem_append.mp hb with hb | hb
        · exact (List.nodup_cons.mp (List.nodup_cons.mp hnd).2).1 hb
        · exact (List.nodup_cons.mp hnd).1 (List.mem_singleton.mp hb ▸ List.mem_cons_self)
      have ha' : a ∈ y :: ys := by
        rcases List.mem_append.mp (show a ∈ (y :: ys) ++ [h] from ha) with ha | ha
        · exact ha
        · exact absurd (hab.1.symm.trans (List.mem_singleton.mp ha ▸ hy)) hby
      have hb' : b ∈ h :: y :: ys := by
        rcases List.mem_append.mp hb with hb | hb
        · exact List.mem_cons_of_mem h (List.mem_cons_of_mem y hb)
        · exact List.mem_singleton.mp hb ▸ List.mem_cons_self
      exact ⟨(hnext a ha').trans hab.1, (hprev b hb' hby).trans hab.2⟩

/-! ## Following the links -/

theorem iterate_of_isChain (hl : List.IsChain (Linked next prev) (h :: xs)) :
    List.iterate next (next h) xs.length = xs := by
  induction xs generalizing h with
  | nil => rfl
  | cons x xs ih =>
      obtain ⟨⟨hx, -⟩, hrest⟩ := List.isChain_cons_cons.mp hl
      rw [List.length_cons, List.iterate, hx, ih hrest]

/-- `next` leads from the head through the list and back to the head. -/
theorem IsRing.walk (r : IsRing next prev h xs) :
    List.iterate next (next h) (xs.length + 1) = xs ++ [h] := by
  have hwalk := iterate_of_isChain r.linked
  rwa [List.length_append, List.length_singleton] at hwalk

end HelloOS.Lib
