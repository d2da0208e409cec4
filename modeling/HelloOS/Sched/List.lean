/-
  The linked list of `include/list.h`, in memory.

  A `struct list_head` is two words, `prev` and `next`; a node is named by its address. The
  node of a task is the start of its `task_struct`. A store to one link leaves the other
  link of the node and all links of nodes apart from it alone; these facts are the simp set
  of the module.
-/
import HelloOS.Lib.Memory

namespace HelloOS.Sched

open HelloOS.Lib

/-- `x->next`, `list_next(x)`. -/
def listNext (m : Mem) (x : BitVec 64) : BitVec 64 := m.read64 (x + 8#64)

/-- `x->prev`. -/
def listPrev (m : Mem) (x : BitVec 64) : BitVec 64 := m.read64 x

/-- `x->next = v`. -/
def setNext (m : Mem) (x v : BitVec 64) : Mem := m.write64 (x + 8#64) v

/-- `x->prev = v`. -/
def setPrev (m : Mem) (x v : BitVec 64) : Mem := m.write64 x v

/-- `list_init(head)`. -/
def listInit (m : Mem) (head : BitVec 64) : Mem := setNext (setPrev m head head) head head

/-- `__list_add(new, prev, next)`. -/
def listAdd (m : Mem) (new prev next : BitVec 64) : Mem :=
  let m := setNext m prev new
  let m := setNext m new next
  let m := setPrev m new prev
  setPrev m next new

/-- `list_add_tail(new, head)`. -/
def listAddTail (m : Mem) (new head : BitVec 64) : Mem := listAdd m new head (listNext m head)

/-- `list_add_head(new, head)`. -/
def listAddHead (m : Mem) (new head : BitVec 64) : Mem := listAdd m new (listPrev m head) head

/-! ## Links after a store -/

/-- The two nodes do not overlap. -/
def NodesApart (x y : BitVec 64) : Prop := Disjoint (Region x 16) (Region y 16)

theorem NodesApart.symm {x y : BitVec 64} (h : NodesApart x y) : NodesApart y x :=
  Disjoint.symm h

variable (m : Mem) {x y : BitVec 64} (v : BitVec 64)

theorem next_subset (x : BitVec 64) : Region (x + 8#64) 8 ⊆ Region x 16 :=
  region_subset x (by decide)

theorem prev_subset (x : BitVec 64) : Region x 8 ⊆ Region x 16 := region_mono x (by decide)

/-- The words of a node do not overlap. -/
theorem prev_next_disjoint (x : BitVec 64) : Disjoint (Region x 8) (Region (x + 8#64) 8) :=
  disjoint_offset x (by decide) (by decide)

@[simp] theorem listNext_setNext_self : listNext (setNext m x v) x = v :=
  m.read64_write64_self _ v

@[simp] theorem listPrev_setPrev_self : listPrev (setPrev m x v) x = v :=
  m.read64_write64_self _ v

@[simp] theorem listNext_setPrev_self : listNext (setPrev m x v) x = listNext m x :=
  m.read64_write64_of_disjoint _ _ v (prev_next_disjoint x)

@[simp] theorem listPrev_setNext_self : listPrev (setNext m x v) x = listPrev m x :=
  m.read64_write64_of_disjoint _ _ v (prev_next_disjoint x).symm

theorem setNext_agreeOn {s : Set (BitVec 64)} (h : Disjoint (Region x 16) s) :
    Mem.AgreeOn s (setNext m x v) m := m.agreeOn_write64 _ v (h.mono_left (next_subset x))

theorem setPrev_agreeOn {s : Set (BitVec 64)} (h : Disjoint (Region x 16) s) :
    Mem.AgreeOn s (setPrev m x v) m := m.agreeOn_write64 _ v (h.mono_left (prev_subset x))

/-- Memories that agree on a node agree on its links. -/
theorem links_of_agreeOn {m m' : Mem} (h : Mem.AgreeOn (Region x 16) m' m) :
    listNext m' x = listNext m x ∧ listPrev m' x = listPrev m x :=
  ⟨(h.mono (next_subset x)).read64, (h.mono (prev_subset x)).read64⟩

@[simp] theorem listNext_setNext_of_apart (h : NodesApart x y) :
    listNext (setNext m x v) y = listNext m y := (links_of_agreeOn (setNext_agreeOn m v h)).1

@[simp] theorem listNext_setPrev_of_apart (h : NodesApart x y) :
    listNext (setPrev m x v) y = listNext m y := (links_of_agreeOn (setPrev_agreeOn m v h)).1

@[simp] theorem listPrev_setNext_of_apart (h : NodesApart x y) :
    listPrev (setNext m x v) y = listPrev m y := (links_of_agreeOn (setNext_agreeOn m v h)).2

@[simp] theorem listPrev_setPrev_of_apart (h : NodesApart x y) :
    listPrev (setPrev m x v) y = listPrev m y := (links_of_agreeOn (setPrev_agreeOn m v h)).2

/-! ## Frames -/

theorem listInit_agreeOn {s : Set (BitVec 64)} (h : Disjoint (Region x 16) s) :
    Mem.AgreeOn s (listInit m x) m := (setNext_agreeOn _ x h).trans (setPrev_agreeOn m x h)

/-- Adding a node between two others writes to the three nodes only. -/
theorem listAdd_agreeOn {s : Set (BitVec 64)} {new prev next : BitVec 64}
    (hnew : Disjoint (Region new 16) s) (hprev : Disjoint (Region prev 16) s)
    (hnext : Disjoint (Region next 16) s) : Mem.AgreeOn s (listAdd m new prev next) m := by
  unfold listAdd
  exact (setPrev_agreeOn _ new hnext).trans ((setPrev_agreeOn _ prev hnew).trans
    ((setNext_agreeOn _ next hnew).trans (setNext_agreeOn m new hprev)))

@[simp] theorem listNext_listInit : listNext (listInit m x) x = x := by simp [listInit]

@[simp] theorem listPrev_listInit : listPrev (listInit m x) x = x := by simp [listInit]

end HelloOS.Sched
