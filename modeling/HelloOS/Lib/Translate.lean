/-
  Stores through page tables.

  A byte is stored where the walk takes its virtual address. `Maps m cr3 va pa n` says that the
  walk takes `n` addresses from `va` on to those from `pa` on, one by one; there a store to `va`
  is a store to `pa` (`store64_eq`). A line of stores that all stay off the tables is a line of
  stores to physical memory, and leaves the tables as they are (`storeAll_eq`).
-/
import HelloOS.Lib.Paging

namespace HelloOS.Lib

/-- Stores of words to physical memory, one after the other. -/
def Mem.writes : List (BitVec 64 × BitVec 64) → Mem → Mem
  | [], m => m
  | (a, v) :: ws, m => writes ws (m.write64 a v)

theorem Mem.writes_append (ws vs : List (BitVec 64 × BitVec 64)) (m : Mem) :
    Mem.writes (ws ++ vs) m = Mem.writes vs (Mem.writes ws m) := by
  induction ws generalizing m with
  | nil => rfl
  | cons w ws ih => exact ih (m.write64 w.1 w.2)

theorem Mem.agreeOn_writes {s : Set (BitVec 64)} (ws : List (BitVec 64 × BitVec 64)) (m : Mem)
    (h : ∀ w ∈ ws, Disjoint (Region w.1 8) s) : Mem.AgreeOn s (Mem.writes ws m) m := by
  induction ws generalizing m with
  | nil => exact Mem.AgreeOn.refl m s
  | cons w ws ih =>
      exact (ih _ fun v hv => h v (List.mem_cons_of_mem w hv)).trans
        (m.agreeOn_write64 w.1 w.2 (h w List.mem_cons_self))

namespace Paging

variable {m m' : Mem} {cr3 va pa : BitVec 64} {n : ℕ}

/-- The walk takes the addresses from `va` on to those from `pa` on. -/
def Maps (m : Mem) (cr3 va pa : BitVec 64) (n : ℕ) : Prop :=
  ∀ i < n, walk m cr3 (va + BitVec.ofNat 64 i) = some (pa + BitVec.ofNat 64 i)

/-- The bytes `f 0, …, f (n - 1)`, from the virtual address `va` on. -/
def storeBytes (m : Mem) (cr3 va : BitVec 64) (n : ℕ) (f : ℕ → BitVec 8) : Option Mem :=
  (List.range n).foldlM (fun m' i =>
    (walk m cr3 (va + BitVec.ofNat 64 i)).map fun pa => Function.update m' pa (f i)) m

/-- A store of 8 bytes. -/
def store64 (m : Mem) (cr3 va v : BitVec 64) : Option Mem := storeBytes m cr3 va 8 (Mem.byteOf v)

/-- Stores one after the other, up to the first to an address that is not mapped. -/
def storeAll (cr3 : BitVec 64) : List (BitVec 64 × BitVec 64) → Mem → Option Mem
  | [], m => some m
  | (va, v) :: ws, m => (store64 m cr3 va v).bind (storeAll cr3 ws)

theorem fill_succ (m : Mem) (a : BitVec 64) {n : ℕ} (f : ℕ → BitVec 8) (h : n + 1 ≤ 2 ^ 64) :
    Function.update (m.fill a n f) (a + BitVec.ofNat 64 n) (f n) = m.fill a (n + 1) f := by
  rw [← m.fill_fill a f h]
  generalize m.fill a n f = m₁
  generalize a + BitVec.ofNat 64 n = b
  funext x
  by_cases hx : x = b
  · subst hx
    have hself : x ∈ Region x 1 := by rw [mem_region, BitVec.sub_self]; decide
    rw [Function.update_self, m₁.fill_of_mem x _ hself, BitVec.sub_self]
    rfl
  · have hout : x ∉ Region b 1 := by
      rw [mem_region]
      bv_omega
    rw [Function.update_of_ne hx, m₁.fill_of_notMem b _ hout]

theorem storeBytes_eq (f : ℕ → BitVec 8) (h : Maps m cr3 va pa n) (hn : n ≤ 2 ^ 64) :
    storeBytes m cr3 va n f = some (m.fill pa n f) := by
  have hpart : ∀ k ≤ n, (List.range k).foldlM (fun m' i =>
      (walk m cr3 (va + BitVec.ofNat 64 i)).map fun pa => Function.update m' pa (f i)) m =
        some (m.fill pa k f) := by
    intro k hk
    induction k with
    | zero => rw [m.fill_zero]; rfl
    | succ k ih =>
        rw [List.range_succ, List.foldlM_append, ih (by omega)]
        change (Option.map _ (walk m cr3 _) >>= fun m' => some m') = _
        rw [h k (by omega), ← fill_succ m pa f (by omega)]
        rfl
  exact hpart n le_rfl

theorem store64_eq (v : BitVec 64) (h : Maps m cr3 va pa 8) :
    store64 m cr3 va v = some (m.write64 pa v) := storeBytes_eq _ h (by decide)

theorem storeBytes_none {i : ℕ} (f : ℕ → BitVec 8) (hi : i < n)
    (h : walk m cr3 (va + BitVec.ofNat 64 i) = none) : storeBytes m cr3 va n f = none := by
  unfold storeBytes
  induction n with
  | zero => exact absurd hi (Nat.not_lt_zero i)
  | succ n ih =>
      rw [List.range_succ, List.foldlM_append]
      rcases Nat.lt_succ_iff_lt_or_eq.mp hi with hlt | rfl
      · rw [ih hlt]
        rfl
      · cases (List.range i).foldlM (fun m' i =>
          (walk m cr3 (va + BitVec.ofNat 64 i)).map fun pa => Function.update m' pa (f i)) m with
        | none => rfl
        | some m' =>
            change (Option.map _ (walk m cr3 _) >>= fun m' => some m') = _
            rw [h]
            rfl

/-- **Stores off the tables.** If the walks of a line of stores hold as long as the memory `t`
    does, and none of the stores meets `t`, memory changes as by the stores to physical memory. -/
theorem storeAll_eq (t : Set (BitVec 64)) (pa : BitVec 64 → BitVec 64)
    {ws : List (BitVec 64 × BitVec 64)}
    (hmap : ∀ m', Mem.AgreeOn t m' m → ∀ w ∈ ws, Maps m' cr3 w.1 (pa w.1) 8)
    (hoff : ∀ w ∈ ws, Disjoint (Region (pa w.1) 8) t) :
    storeAll cr3 ws m = some (Mem.writes (ws.map fun w => (pa w.1, w.2)) m) := by
  induction ws generalizing m with
  | nil => rfl
  | cons w ws ih =>
      have hkeep := m.agreeOn_write64 _ w.2 (hoff w List.mem_cons_self)
      have hstore := store64_eq w.2 (hmap m (Mem.AgreeOn.refl m t) w List.mem_cons_self)
      change (store64 m cr3 w.1 w.2).bind (storeAll cr3 ws) = _
      rw [hstore, Option.bind_some]
      exact ih (fun m' h v hv => hmap m' (h.trans hkeep) v (List.mem_cons_of_mem w hv))
        fun v hv => hoff v (List.mem_cons_of_mem w hv)

end Paging

end HelloOS.Lib
