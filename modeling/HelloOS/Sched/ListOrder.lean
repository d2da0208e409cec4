/-
  The order of the lists of `include/list.h`.

  `list_add_tail` puts a node behind the head, where `list_next` comes first: the list it
  builds is last in, first out (`visited_addTails`). `list_add_head` puts it in front of the
  head, where `list_next` comes last: first in, first out (`visited_addHeads`). Each does what
  the name of the other says, and with two nodes the difference shows (`order_iff`).
-/
import HelloOS.Sched.ListRing

namespace HelloOS.Sched

open HelloOS.Lib

variable (m : Mem) {head : BitVec 64} {xs : List (BitVec 64)}

/-- `list_init(head)`, and `list_add_tail(x, head)` for every `x` of `xs`. -/
def addTails (m : Mem) (head : BitVec 64) (xs : List (BitVec 64)) : Mem :=
  xs.foldl (fun m x => listAddTail m x head) (listInit m head)

/-- `list_init(head)`, and `list_add_head(x, head)` for every `x` of `xs`. -/
def addHeads (m : Mem) (head : BitVec 64) (xs : List (BitVec 64)) : Mem :=
  xs.foldl (fun m x => listAddHead m x head) (listInit m head)

/-- The first `n` nodes that `list_next` leads to from the head. -/
def visited (m : Mem) (head : BitVec 64) (n : ℕ) : List (BitVec 64) :=
  List.iterate (listNext m) (listNext m head) n

/-- The head and the nodes to insert do not overlap. -/
def Fresh (head : BitVec 64) (xs : List (BitVec 64)) : Prop := (head :: xs).Pairwise NodesApart

/-- The last node to insert is apart from those in front of it. -/
theorem Fresh.concat {x : BitVec 64} (h : Fresh head (xs ++ [x])) :
    Fresh head xs ∧ ∀ y ∈ head :: xs, NodesApart x y := by
  have hsplit : ((head :: xs) ++ [x]).Pairwise NodesApart := h
  obtain ⟨hxs, -, hlast⟩ := List.pairwise_append.mp hsplit
  exact ⟨hxs, fun y hy => (hlast y hy x (List.mem_singleton_self x)).symm⟩

theorem nodeRing_addTails (h : Fresh head xs) : NodeRing (addTails m head xs) head xs.reverse := by
  induction xs using List.reverseRecOn with
  | nil => exact nodeRing_listInit m head
  | append_singleton xs x ih =>
      obtain ⟨hxs, hx⟩ := h.concat
      rw [List.reverse_append, List.reverse_singleton, List.singleton_append]
      unfold addTails
      rw [List.foldl_append, List.foldl_cons, List.foldl_nil]
      refine (ih hxs).addTail fun y hy => hx y ?_
      simpa using hy

theorem nodeRing_addHeads (h : Fresh head xs) : NodeRing (addHeads m head xs) head xs := by
  induction xs using List.reverseRecOn with
  | nil => exact nodeRing_listInit m head
  | append_singleton xs x ih =>
      obtain ⟨hxs, hx⟩ := h.concat
      unfold addHeads
      rw [List.foldl_append, List.foldl_cons, List.foldl_nil]
      exact (ih hxs).addHead hx

/-- `list_add_tail` builds the list backwards. -/
theorem visited_addTails (h : Fresh head xs) :
    visited (addTails m head xs) head (xs.length + 1) = xs.reverse ++ [head] := by
  have hwalk := (nodeRing_addTails m h).ring.walk
  rwa [List.length_reverse] at hwalk

/-- `list_add_head` builds it in order. -/
theorem visited_addHeads (h : Fresh head xs) :
    visited (addHeads m head xs) head (xs.length + 1) = xs ++ [head] :=
  (nodeRing_addHeads m h).ring.walk

/-- A list without repetition is its own reverse if it has at most one member. -/
theorem reverse_eq_self_iff {α : Type*} {xs : List α} (h : xs.Nodup) :
    xs.reverse = xs ↔ xs.length ≤ 1 := by
  constructor
  · intro hrev
    cases xs with
    | nil => exact Nat.zero_le 1
    | cons x xs =>
        rcases List.eq_nil_or_concat' xs with rfl | ⟨ys, y, rfl⟩
        · exact Nat.le_refl 1
        · -- the first member would be the last
          rw [List.reverse_cons, List.reverse_append, List.reverse_singleton,
            List.singleton_append, List.cons_append, List.cons.injEq] at hrev
          rw [← hrev.1] at h
          exact absurd (List.mem_append_right ys (List.mem_singleton_self y))
            (List.nodup_cons.mp h).1
  · intro hlen
    match xs, hlen with
    | [], _ => rfl
    | [_], _ => rfl

theorem Fresh.nodup (h : Fresh head xs) : xs.Nodup :=
  (List.pairwise_cons.mp h).2.imp NodesApart.ne

/-- **The order of the lists.** For every memory, head and sequence of fresh nodes: following
    `list_next` visits the nodes that `list_add_tail` has inserted in the order of insertion,
    and those of `list_add_head` in the reverse order, exactly when there are fewer than two. -/
theorem order_iff (h : Fresh head xs) :
    (visited (addTails m head xs) head (xs.length + 1) = xs ++ [head] ∧
      visited (addHeads m head xs) head (xs.length + 1) = xs.reverse ++ [head]) ↔
      xs.length < 2 := by
  rw [visited_addTails m h, visited_addHeads m h, List.append_left_inj, List.append_left_inj,
    Nat.lt_succ_iff, ← reverse_eq_self_iff h.nodup]
  exact ⟨fun hboth => hboth.1, fun hrev => ⟨hrev, hrev.symm⟩⟩

theorem fresh_pair : Fresh 0x1000#64 [0x2000#64, 0x3000#64] := by
  have h12 : NodesApart 0x1000#64 0x2000#64 := disjoint_of_le (by decide) (by decide)
  have h13 : NodesApart 0x1000#64 0x3000#64 := disjoint_of_le (by decide) (by decide)
  have h23 : NodesApart 0x2000#64 0x3000#64 := disjoint_of_le (by decide) (by decide)
  unfold Fresh
  simp [h12, h13, h23]

theorem order_iff_pair :
    (visited (addTails (fun _ => 0#8) 0x1000#64 [0x2000#64, 0x3000#64]) 0x1000#64 (2 + 1) =
        [0x2000#64, 0x3000#64] ++ [0x1000#64] ∧
      visited (addHeads (fun _ => 0#8) 0x1000#64 [0x2000#64, 0x3000#64]) 0x1000#64 (2 + 1) =
        [0x2000#64, 0x3000#64].reverse ++ [0x1000#64]) ↔ 2 < 2 :=
  order_iff (fun _ => 0#8) fresh_pair

/-- Two nodes that `list_add_tail` has inserted come in the reverse order, and two that
    `list_add_head` has inserted in the order of insertion. -/
theorem not_order_pair :
    Fresh 0x1000#64 [0x2000#64, 0x3000#64] ∧
    (visited (addTails (fun _ => 0#8) 0x1000#64 [0x2000#64, 0x3000#64]) 0x1000#64 3 =
        [0x3000#64, 0x2000#64, 0x1000#64] ∧
      visited (addTails (fun _ => 0#8) 0x1000#64 [0x2000#64, 0x3000#64]) 0x1000#64 3 ≠
        [0x2000#64, 0x3000#64] ++ [0x1000#64]) ∧
    visited (addHeads (fun _ => 0#8) 0x1000#64 [0x2000#64, 0x3000#64]) 0x1000#64 3 =
        [0x2000#64, 0x3000#64, 0x1000#64] ∧
      visited (addHeads (fun _ => 0#8) 0x1000#64 [0x2000#64, 0x3000#64]) 0x1000#64 3 ≠
        [0x2000#64, 0x3000#64].reverse ++ [0x1000#64] := by
  have htail := visited_addTails (fun _ => 0#8) fresh_pair
  have hhead := visited_addHeads (fun _ => 0#8) fresh_pair
  refine ⟨fresh_pair, ⟨htail, fun h => ?_⟩, hhead, fun h => ?_⟩
  · exact absurd (htail.symm.trans h) (by decide)
  · exact absurd (hhead.symm.trans h) (by decide)

end HelloOS.Sched
