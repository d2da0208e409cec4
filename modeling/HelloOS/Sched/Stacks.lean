/-
  Where the state that a context switch works on lies in memory.

  A task owns the `thread` word of its `task_struct`, its `thread_struct` and its kernel
  stack; `init_tss[0]` and `TSS64_Table` belong to the CPU. A `Layout` is a placement of
  these pieces in which no two meet. `thread_struct` counts as two pieces: `rsp0`, which
  nothing writes once the task exists, and the fields behind it, which `switch_to` saves
  into.
-/
import HelloOS.Lib.Memory
import HelloOS.Sched.Task
import Mathlib.Data.List.Pairwise

namespace HelloOS.Sched

open HelloOS.Lib HelloOS.Mm

/-- The pieces of memory that context switches rely on. -/
inductive Piece
  | pointer (t : U64)
  | rsp0 (t : U64)
  | saved (t : U64)
  | stack (t : U64)
  | initTss
  | tssTable
  deriving DecidableEq

/-- The pieces that exist while the tasks `live` do. -/
def Piece.Of (live : Set U64) : Piece → Prop
  | .pointer t => t ∈ live
  | .rsp0 t => t ∈ live
  | .saved t => t ∈ live
  | .stack t => t ∈ live
  | .initTss => True
  | .tssTable => True

theorem Piece.Of.mono {live live' : Set U64} (h : live ⊆ live') {p : Piece} (hp : p.Of live) :
    p.Of live' := by
  cases p with
  | initTss => trivial
  | tssTable => trivial
  | _ => exact h hp

/-- Addresses: of each task's `thread_struct` and stack, of `init_tss` and `TSS64_Table`. -/
structure Places where
  init : U64
  thread : U64 → U64
  stackLow : U64 → U64
  stackLen : U64 → Nat
  initTss : U64
  tssTable : U64

namespace Places

variable (L : Places)

def start : Piece → U64
  | .pointer t => t + offThread
  | .rsp0 t => L.thread t + offRsp0
  | .saved t => L.thread t + offRip
  | .stack t => L.stackLow t
  | .initTss => L.initTss
  | .tssTable => L.tssTable

def len : Piece → Nat
  | .pointer _ => 8
  | .rsp0 _ => 8
  | .saved _ => 56
  | .stack t => L.stackLen t
  | .initTss => 104
  | .tssTable => 104

def region (p : Piece) : Set U64 := Region (L.start p) (L.len p)

end Places

/-- Places whose pieces do not meet. -/
structure Layout extends Places where
  tasks : Set U64
  init_mem : init ∈ tasks
  stackLen_le : ∀ t ∈ tasks, stackLen t ≤ 2 ^ 63
  apart : ∀ p q, p.Of tasks → q.Of tasks → p ≠ q →
    Disjoint (toPlaces.region p) (toPlaces.region q)

namespace Layout

variable (L : Layout) {t u : U64}

/-- A field that `switch_to` saves into. -/
theorem field_subset {c : U64} {n : Nat} (h : 8 ≤ c.toNat) (hn : c.toNat + n ≤ 64) :
    Region (L.thread t + c) n ⊆ L.region (.saved t) := by
  have hc : L.thread t + c = L.thread t + offRip + (c - 8#64) := by
    unfold offRip
    ring
  have hsub : (c - 8#64).toNat = c.toNat - 8 := BitVec.toNat_sub_of_le (BitVec.le_def.mpr h)
  rw [hc]
  refine region_subset _ ?_
  change (c - 8#64).toNat + n ≤ 56
  omega

/-- Fields one behind the other in a `thread_struct`. -/
theorem field_disjoint {c d : U64} (h : c.toNat + 8 ≤ d.toNat) (hd : d.toNat + 8 ≤ 64) :
    Disjoint (Region (L.thread t + c) 8) (Region (L.thread t + d) 8) :=
  disjoint_offsets _ h (by omega)

/-! ## Stacks -/

/-- How far the stack pointer `sp` stands above the low end of the stack of `t`. -/
def height (t sp : U64) : Nat := (sp - L.stackLow t).toNat

/-- `sp` points into the stack of `t`, with `n` bytes below it. -/
def Room (t sp : U64) (n : Nat) : Prop := n ≤ L.height t sp ∧ L.height t sp ≤ L.stackLen t

instance (t sp : U64) (n : Nat) : Decidable (L.Room t sp n) :=
  inferInstanceAs (Decidable (_ ∧ _))

/-- The part of the stack of `t` from `sp` on. -/
def above (t sp : U64) : Set U64 :=
  {x | L.height t sp ≤ L.height t x ∧ L.height t x < L.stackLen t}

variable {L} {sp : U64} {n k : Nat}

theorem height_below (h : 8 * k ≤ L.height t sp) :
    L.height t (Mem.below sp k) = L.height t sp - 8 * k := by
  have hk : (BitVec.ofNat 64 (8 * k)).toNat = 8 * k := by
    have := (sp - L.stackLow t).isLt
    unfold height at h
    exact toNat_ofNat_eq (by omega)
  unfold height at h ⊢
  rw [show Mem.below sp k - L.stackLow t = (sp - L.stackLow t) - BitVec.ofNat 64 (8 * k) by
    unfold Mem.below; ring, BitVec.toNat_sub_of_le (by rw [BitVec.le_def, hk]; exact h), hk]

theorem Room.mono (h : L.Room t sp n) (hk : k ≤ n) : L.Room t sp k := ⟨by have := h.1; omega, h.2⟩

/-- Pushing `k` words takes `8 * k` bytes of the room. -/
theorem Room.below (h : L.Room t sp (8 * k + n)) : L.Room t (Mem.below sp k) n := by
  have h1 := h.1
  have h2 := h.2
  unfold Room
  rw [height_below (by omega)]
  omega

/-- Pushes stay in the stack. -/
theorem Room.below_subset (h : L.Room t sp (8 * k)) :
    Region (Mem.below sp k) (8 * k) ⊆ L.region (.stack t) := by
  have h1 := h.1
  have h2 := h.2
  have hb := height_below (k := k) h1
  rw [show Mem.below sp k = L.stackLow t + (Mem.below sp k - L.stackLow t) by ring]
  refine region_subset _ ?_
  change L.height t (Mem.below sp k) + 8 * k ≤ L.stackLen t
  omega

/-- An address among the words pushed below `sp`. -/
theorem Room.height_of_mem (h : L.Room t sp (8 * k)) (ht : t ∈ L.tasks) {x : U64}
    (hx : x ∈ Region (Mem.below sp k) (8 * k)) :
    L.height t (Mem.below sp k) ≤ L.height t x ∧ L.height t x < L.height t sp := by
  have h1 := h.1
  have h2 := h.2
  have h3 := L.stackLen_le t ht
  have hb := height_below (k := k) h1
  rw [mem_region] at hx
  have hsum : L.height t x = (x - Mem.below sp k).toNat + L.height t (Mem.below sp k) := by
    unfold height at *
    rw [show x - L.stackLow t = (x - Mem.below sp k) + (Mem.below sp k - L.stackLow t) by ring,
      BitVec.toNat_add]
    exact Nat.mod_eq_of_lt (by omega)
  omega

/-- The words below `sp`, seen from a stack pointer that stands no higher than they do. -/
theorem Room.below_subset_above {a : U64} (ht : t ∈ L.tasks) (h : L.Room t sp (8 * k))
    (ha : L.height t a ≤ L.height t (Mem.below sp k)) :
    Region (Mem.below sp k) (8 * k) ⊆ L.above t a := by
  intro x hx
  have hx' := h.height_of_mem ht hx
  have h2 := h.2
  constructor <;> omega

/-- Pushes stay below what lies from the stack pointer on. -/
theorem Room.disjoint_above (h : L.Room t sp (8 * k)) (ht : t ∈ L.tasks) :
    Disjoint (Region (Mem.below sp k) (8 * k)) (L.above t sp) := by
  rw [Set.disjoint_left]
  intro x hx ha
  have hx' := h.height_of_mem ht hx
  have := ha.1
  omega

theorem above_mono {a : U64} (h : L.height t a ≤ L.height t sp) : L.above t sp ⊆ L.above t a :=
  fun _ hx => ⟨h.trans hx.1, hx.2⟩

theorem above_subset (L : Layout) (t sp : U64) : L.above t sp ⊆ L.region (.stack t) :=
  fun _ hx => hx.2

end Layout

end HelloOS.Sched
