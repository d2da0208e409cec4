/-
  Logs of loads and stores.

  A log says which bytes a piece of code loads and stores, and what it stores; replaying it on
  a memory gives the memory behind the code. A log inside a region leaves everything else as
  it was (`replay_agreeOn`).
-/
import HelloOS.Lib.Memory

namespace HelloOS.Lib

/-- A load of `n` bytes from `addr` on, or a store of `f 0, …, f (n - 1)` there. -/
inductive Access where
  | load (addr : BitVec 64) (n : ℕ)
  | store (addr : BitVec 64) (n : ℕ) (f : ℕ → BitVec 8)

namespace Access

/-- The bytes that are loaded or stored. -/
def bytes : Access → Set (BitVec 64)
  | load addr n => Region addr n
  | store addr n _ => Region addr n

def run (m : Mem) : Access → Mem
  | load _ _ => m
  | store addr n f => m.fill addr n f

/-- The memory behind the accesses of a log. -/
def replay (m : Mem) (log : List Access) : Mem := log.foldl run m

/-- All accesses of a log are in `s`. -/
def Within (s : Set (BitVec 64)) (log : List Access) : Prop := ∀ a ∈ log, a.bytes ⊆ s

variable {m : Mem} {log log' : List Access} {s t : Set (BitVec 64)}

theorem replay_append (m : Mem) (log log' : List Access) :
    replay m (log ++ log') = replay (replay m log) log' := List.foldl_append ..

theorem within_nil : Within s [] := fun _ h => absurd h List.not_mem_nil

theorem within_cons {a : Access} : Within s (a :: log) ↔ a.bytes ⊆ s ∧ Within s log :=
  List.forall_mem_cons

theorem Within.append (h : Within s log) (h' : Within s log') : Within s (log ++ log') :=
  fun a ha => (List.mem_append.mp ha).elim (h a) (h' a)

theorem Within.mono (h : Within s log) (hst : s ⊆ t) : Within t log :=
  fun a ha => (h a ha).trans hst

/-- Nothing outside the accesses of a log changes. -/
theorem replay_agreeOn (h : Within s log) (hd : Disjoint s t) :
    Mem.AgreeOn t (replay m log) m := by
  induction log generalizing m with
  | nil => exact Mem.AgreeOn.refl m t
  | cons a log ih =>
      obtain ⟨ha, hlog⟩ := within_cons.mp h
      refine (ih hlog).trans ?_
      cases a with
      | load addr n => exact Mem.AgreeOn.refl m t
      | store addr n f => exact m.agreeOn_fill addr f (hd.mono_left ha)

end Access

end HelloOS.Lib
