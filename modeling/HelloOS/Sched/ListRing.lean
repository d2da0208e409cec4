/-
  Insertion into the rings of `include/list.h`.

  `__list_add(new, prev, next)` links `new` between two nodes (`listAdd_linked`) and leaves
  all other links alone (`listNext_listAdd`, `listPrev_listAdd`). In a ring the node behind
  `prev` is `next`, so `list_add_tail(new, head)` puts `new` behind the head
  (`NodeRing.addTail`), and `list_add_head(new, head)`, which does the same behind the node
  in front of the head, puts it last (`NodeRing.addHead`). A head that is alone is its own
  neighbour on both sides.
-/
import HelloOS.Sched.List
import HelloOS.Lib.Ring

namespace HelloOS.Sched

open HelloOS.Lib

/-- A well-formed list in memory: its links make a ring, and its nodes do not overlap. -/
structure NodeRing (m : Mem) (head : BitVec 64) (xs : List (BitVec 64)) : Prop where
  ring : IsRing (listNext m) (listPrev m) head xs
  apart : (head :: xs).Pairwise NodesApart

/-- `m'` and `m` hold the same bytes outside the nodes `ys`. -/
def OnlyNodes (ys : List (BitVec 64)) (m' m : Mem) : Prop :=
  Mem.AgreeOn {a | ∀ y ∈ ys, a ∉ Region y 16} m' m

variable (m : Mem) {new prev next head x y v : BitVec 64} {xs ys : List (BitVec 64)}

instance : Std.Symm NodesApart := ⟨fun _ _ => NodesApart.symm⟩

theorem NodesApart.ne (h : NodesApart x y) : x ≠ y := by
  rintro rfl
  have hmem : x ∈ Region x 16 := by
    rw [mem_region, BitVec.sub_self]
    decide
  exact Set.disjoint_left.mp h hmem hmem

/-! ## The links behind `__list_add` -/

theorem listNext_setPrev (h : x = y ∨ NodesApart x y) :
    listNext (setPrev m x v) y = listNext m y := by
  rcases h with rfl | h
  · exact listNext_setPrev_self m v
  · exact listNext_setPrev_of_apart m v h

theorem listPrev_setNext (h : x = y ∨ NodesApart x y) :
    listPrev (setNext m x v) y = listPrev m y := by
  rcases h with rfl | h
  · exact listPrev_setNext_self m v
  · exact listPrev_setNext_of_apart m v h

/-- The links of the new node and those to it. The neighbours may be one node. -/
theorem listAdd_linked (hp : NodesApart new prev) (hn : NodesApart new next)
    (hpn : prev = next ∨ NodesApart prev next) :
    let m' := listAdd m new prev next
    Linked (listNext m') (listPrev m') prev new ∧ Linked (listNext m') (listPrev m') new next := by
  have hnp : next = prev ∨ NodesApart next prev := hpn.imp Eq.symm NodesApart.symm
  intro m'
  unfold m' listAdd
  refine ⟨⟨?_, ?_⟩, ?_, ?_⟩
  · rw [listNext_setPrev _ hnp, listNext_setPrev _ (Or.inr hp), listNext_setNext_of_apart _ _ hp,
      listNext_setNext_self]
  · rw [listPrev_setPrev_of_apart _ _ hn.symm, listPrev_setPrev_self]
  · rw [listNext_setPrev _ (Or.inr hn.symm), listNext_setPrev _ (Or.inl rfl), listNext_setNext_self]
  · exact listPrev_setPrev_self _ _

/-- Of the other nodes, only `prev` gets another `next`. -/
theorem listNext_listAdd (hnew : NodesApart new y) (hp : NodesApart prev y)
    (hn : next = y ∨ NodesApart next y) : listNext (listAdd m new prev next) y = listNext m y := by
  unfold listAdd
  rw [listNext_setPrev _ hn, listNext_setPrev _ (Or.inr hnew), listNext_setNext_of_apart _ _ hnew,
    listNext_setNext_of_apart _ _ hp]

/-- Of the other nodes, only `next` gets another `prev`. -/
theorem listPrev_listAdd (hnew : NodesApart new y) (hn : NodesApart next y)
    (hp : prev = y ∨ NodesApart prev y) : listPrev (listAdd m new prev next) y = listPrev m y := by
  unfold listAdd
  rw [listPrev_setPrev_of_apart _ _ hn, listPrev_setPrev_of_apart _ _ hnew,
    listPrev_setNext _ (Or.inr hnew), listPrev_setNext _ hp]

theorem listAdd_onlyNodes : OnlyNodes [new, prev, next] (listAdd m new prev next) m := by
  have hout : ∀ z ∈ [new, prev, next],
      Disjoint (Region z 16) {a | ∀ y ∈ [new, prev, next], a ∉ Region y 16} := fun z hz =>
    Set.disjoint_left.mpr fun a ha hall => hall z hz ha
  exact listAdd_agreeOn m (hout _ (by simp)) (hout _ (by simp)) (hout _ (by simp))

/-! ## Rings -/

variable {m}

theorem NodeRing.same_or_apart (r : NodeRing m head xs) (hx : x ∈ head :: xs)
    (hy : y ∈ head :: xs) : x = y ∨ NodesApart x y := by
  by_cases h : x = y
  · exact Or.inl h
  · exact Or.inr (r.apart.forall hx hy h)

theorem NodeRing.rotate (r : NodeRing m head (xs ++ x :: ys)) :
    NodeRing m x (ys ++ head :: xs) := by
  have hperm : ((head :: xs) ++ (x :: ys)).Perm ((x :: ys) ++ (head :: xs)) := List.perm_append_comm
  exact ⟨r.ring.rotate, hperm.pairwise r.apart fun h => h.symm⟩

theorem NodeRing.next_mem (r : NodeRing m head xs) : listNext m head ∈ head :: xs := by
  have hl := r.ring.linked
  cases xs with
  | nil =>
      rw [(List.isChain_cons_cons.mp hl).1.1]
      exact List.mem_cons_self
  | cons x xs =>
      rw [(List.isChain_cons_cons.mp hl).1.1]
      exact List.mem_cons_of_mem head List.mem_cons_self

/-- **`list_add_tail`** puts the new node behind the head. -/
theorem NodeRing.addTail (r : NodeRing m head xs) (hnew : ∀ y ∈ head :: xs, NodesApart new y) :
    NodeRing (listAddTail m new head) head (new :: xs) := by
  have hhead : head ∈ head :: xs := List.mem_cons_self
  have hnext := r.next_mem
  obtain ⟨hl1, hl2⟩ := listAdd_linked m (hnew head hhead) (hnew _ hnext)
    (r.same_or_apart hhead hnext)
  have hfresh : new ∉ head :: xs := fun hmem => (hnew new hmem).ne rfl
  constructor
  · refine r.ring.insert hfresh hl1 hl2 (fun y hy => ?_) fun y hy hne => ?_
    · have hy' : y ∈ head :: xs := List.mem_cons_of_mem head hy
      have hapart : NodesApart head y := (List.pairwise_cons.mp r.apart).1 y hy
      exact listNext_listAdd m (hnew y hy') hapart (r.same_or_apart hnext hy')
    · have hapart : NodesApart (listNext m head) y :=
        (r.same_or_apart hnext hy).resolve_left fun h => hne h.symm
      exact listPrev_listAdd m (hnew y hy) hapart (r.same_or_apart hhead hy)
  · have hcons : (new :: head :: xs).Pairwise NodesApart := List.pairwise_cons.mpr ⟨hnew, r.apart⟩
    exact (List.Perm.swap head new xs).pairwise hcons fun h => h.symm

/-- To add in front of the head is to add behind the node in front of it. -/
theorem listAddHead_eq (h : listNext m (listPrev m head) = head) :
    listAddHead m new head = listAddTail m new (listPrev m head) := by
  unfold listAddHead listAddTail
  rw [h]

/-- **`list_add_head`** puts the new node in front of the head, behind all others. -/
theorem NodeRing.addHead (r : NodeRing m head xs) (hnew : ∀ y ∈ head :: xs, NodesApart new y) :
    NodeRing (listAddHead m new head) head (xs ++ [new]) := by
  rcases List.eq_nil_or_concat' xs with rfl | ⟨ys, last, rfl⟩
  · obtain ⟨h1, h2⟩ := isRing_nil.mp r.ring
    rw [listAddHead_eq (by rw [h2, h1]), h2]
    exact r.addTail hnew
  · -- named by its last member, the ring starts with the head
    have rlast : NodeRing m last ([] ++ head :: ys) := r.rotate
    obtain ⟨h1, h2⟩ := (List.isChain_cons_cons.mp rlast.ring.linked).1
    rw [listAddHead_eq (by rw [h2, h1]), h2]
    have hadded : NodeRing (listAddTail m new last) last ([new] ++ head :: ys) := by
      refine rlast.addTail fun y hy => hnew y ?_
      simp only [List.mem_cons, List.mem_append, List.not_mem_nil, or_false] at hy ⊢
      tauto
    have hback := hadded.rotate
    rwa [show ys ++ last :: [new] = ys ++ [last] ++ [new] by simp] at hback

/-- **Insertion keeps rings.** In every well-formed ring, named by any member `base`, for every
    member `head` and every new node: both insertions yield a well-formed ring of the old
    members, in their cyclic order, and the new one, which follows the head or comes last;
    and both write to the new node and its two neighbours only. -/
theorem listAdd_rings {base : BitVec 64} (r : NodeRing m base ys) (hhead : head ∈ base :: ys)
    (hnew : ∀ y ∈ base :: ys, NodesApart new y) :
    ∃ xs, (head :: xs).IsRotated (base :: ys) ∧
      NodeRing (listAddTail m new head) head (new :: xs) ∧
      OnlyNodes [new, head, listNext m head] (listAddTail m new head) m ∧
      NodeRing (listAddHead m new head) head (xs ++ [new]) ∧
      OnlyNodes [new, listPrev m head, head] (listAddHead m new head) m := by
  obtain ⟨xs, hrot, hring⟩ := r.ring.named hhead
  have rhead : NodeRing m head xs :=
    ⟨hring, hrot.perm.symm.pairwise r.apart fun h => h.symm⟩
  have hnew' : ∀ y ∈ head :: xs, NodesApart new y := fun y hy =>
    hnew y (hrot.perm.mem_iff.mp hy)
  exact ⟨xs, hrot, rhead.addTail hnew', listAdd_onlyNodes m, rhead.addHead hnew',
    listAdd_onlyNodes m⟩

/-- The ring `list_init` makes. -/
theorem nodeRing_listInit (m : Mem) (head : BitVec 64) : NodeRing (listInit m head) head [] :=
  ⟨isRing_nil.mpr ⟨listNext_listInit m, listPrev_listInit m⟩, List.pairwise_singleton _ _⟩

/-- A head at 0x1000 and two tasks. -/
def twoTasks : Mem :=
  listAddTail (listAddTail (listInit (fun _ => 0#8) 0x1000#64) 0x2000#64 0x1000#64) 0x3000#64
    0x1000#64

theorem twoTasks_ring : NodeRing twoTasks 0x1000#64 [0x3000#64, 0x2000#64] := by
  refine ((nodeRing_listInit _ _).addTail fun y hy => ?_).addTail fun y hy => ?_
  · rw [List.mem_singleton.mp hy]
    exact NodesApart.symm (disjoint_of_le (by decide) (by decide))
  · rcases List.mem_pair.mp hy with rfl | rfl
    all_goals exact NodesApart.symm (disjoint_of_le (by decide) (by decide))

/-- A third task, behind or in front of the first one. -/
theorem listAdd_rings_third :
    ∃ xs, ((0x2000#64) :: xs).IsRotated [0x1000#64, 0x3000#64, 0x2000#64] ∧
      NodeRing (listAddTail twoTasks 0x4000#64 0x2000#64) 0x2000#64 (0x4000#64 :: xs) ∧
      OnlyNodes [0x4000#64, 0x2000#64, listNext twoTasks 0x2000#64]
        (listAddTail twoTasks 0x4000#64 0x2000#64) twoTasks ∧
      NodeRing (listAddHead twoTasks 0x4000#64 0x2000#64) 0x2000#64 (xs ++ [0x4000#64]) ∧
      OnlyNodes [0x4000#64, listPrev twoTasks 0x2000#64, 0x2000#64]
        (listAddHead twoTasks 0x4000#64 0x2000#64) twoTasks := by
  refine listAdd_rings twoTasks_ring (by decide) fun y hy => ?_
  simp only [List.mem_cons, List.not_mem_nil, or_false] at hy
  rcases hy with rfl | rfl | rfl
  all_goals exact NodesApart.symm (disjoint_of_le (by decide) (by decide))

end HelloOS.Sched
