/-
  Stores behind the boot page tables.

  The kernel reaches its memory at two addresses and never writes its page tables again. So the
  two mappings hold as long as the kernel runs, and a store through either is one to the same
  memory; a store anywhere else is a page fault (`boot_stores`).
-/
import HelloOS.Boot.Paging
import HelloOS.Lib.Translate

namespace HelloOS.Boot

open HelloOS.Lib HelloOS.Lib.Paging HelloOS.Mm

variable {pml4 : BitVec 32} {m m' : Mem}

/-- The three tables. -/
def tables (pml4 : BitVec 32) : Set (BitVec 64) := Region (pml4.setWidth 64) 0x3000

/-! ## The tables are where they are -/

/-- The same store to two memories. -/
theorem agreeOn_write32_both {s : Set (BitVec 64)} (h : Mem.AgreeOn s m' m) (a : BitVec 64)
    (v : BitVec 32) : Mem.AgreeOn s (m'.write32 a v) (m.write32 a v) := by
  intro x hx
  unfold Mem.write32 Mem.fill
  rw [h x hx]

theorem pdLoop_agreeOn_both {s : Set (BitVec 64)} (n : ℕ) (eax ebx : BitVec 32)
    (h : Mem.AgreeOn s m' m) : Mem.AgreeOn s (pdLoop n eax ebx m') (pdLoop n eax ebx m) := by
  induction n generalizing eax ebx m m' with
  | zero => exact h
  | succ n ih => exact ih _ _ (agreeOn_write32_both h _ _)

theorem bootPageTables_agreeOn_both {s : Set (BitVec 64)} (h : Mem.AgreeOn s m' m) :
    Mem.AgreeOn s (bootPageTables pml4 m') (bootPageTables pml4 m) := by
  unfold bootPageTables
  dsimp only
  refine pdLoop_agreeOn_both 512 _ _ ?_
  exact agreeOn_write32_both (agreeOn_write32_both (agreeOn_write32_both h _ _) _ _) _ _

/-- An entry lies in the tables. -/
theorem Placed.entry_subset (h : Placed pml4) {w : ℕ} (hw : w < 1536) :
    Region (entryAddr pml4 w) 4 ⊆ tables pml4 := by
  have hbelow := h.below
  have haddr := h.entryAddr_toNat hw
  have hbase : (pml4.setWidth 64).toNat = pml4.toNat := by
    rw [BitVec.toNat_setWidth]
    omega
  intro x hx
  rw [mem_region_interval (by omega)] at hx
  rw [tables, mem_region_interval (by omega)]
  omega

theorem pdLoop_agreeOn (h : Placed pml4) {s : Set (BitVec 64)} (hs : Disjoint (tables pml4) s)
    (n : ℕ) {k : ℕ} (hk : k + n ≤ 1536) (ebx : BitVec 32) :
    Mem.AgreeOn s (pdLoop n (pml4 + BitVec.ofNat 32 (8 * k)) ebx m) m := by
  induction n generalizing k ebx m with
  | zero => exact Mem.AgreeOn.refl m s
  | succ n ih =>
      have hnext : pml4 + BitVec.ofNat 32 (8 * k) + 0x08#32 =
          pml4 + BitVec.ofNat 32 (8 * (k + 1)) := by
        rw [BitVec.add_assoc, ← BitVec.ofNat_add, Nat.mul_succ]
      unfold pdLoop
      rw [hnext, h.setWidth_add (by omega)]
      exact (ih (by omega) _).trans
        (m.agreeOn_write32 _ _ (hs.mono_left (h.entry_subset (by omega))))

/-- The boot code writes to the tables only. -/
theorem bootPageTables_agreeOn (h : Placed pml4) {s : Set (BitVec 64)}
    (hs : Disjoint (tables pml4) s) : Mem.AgreeOn s (bootPageTables pml4 m) m := by
  have hstore : ∀ (m : Mem) {w : ℕ} (v : BitVec 32), w < 1536 →
      Mem.AgreeOn s (m.write32 (entryAddr pml4 w) v) m := fun m w v hw =>
    m.agreeOn_write32 _ v (hs.mono_left (h.entry_subset hw))
  have ha₀ := h.setWidth_add (w := 0) (by omega)
  have ha₁ := h.setWidth_add (w := 256) (by omega)
  have ha₂ := h.setWidth_add (w := 512) (by omega)
  rw [Nat.mul_zero, BitVec.add_zero] at ha₀
  change _ = entryAddr pml4 256 at ha₁
  change _ = entryAddr pml4 512 at ha₂
  have hpd : pml4 + 0x2000#32 = pml4 + BitVec.ofNat 32 (8 * 1024) := rfl
  unfold bootPageTables
  dsimp only
  rw [ha₀, ha₁, ha₂, hpd]
  refine (pdLoop_agreeOn h hs 512 (by omega) _).trans ?_
  refine (hstore _ _ (by omega)).trans ?_
  exact (hstore _ _ (by omega)).trans (hstore m _ (by omega))

/-- A memory with the same tables is one that the boot code has left. -/
theorem Blank.exists_of_agreeOn (h : Blank pml4 m)
    (hm : Mem.AgreeOn (tables pml4) m' (bootPageTables pml4 m)) :
    ∃ m₀, Blank pml4 m₀ ∧ m' = bootPageTables pml4 m₀ := by
  let m₀ := m'.fill (pml4.setWidth 64) 0x3000 fun _ => 0#8
  have hzero : ∀ x ∈ tables pml4, m₀ x = 0#8 := fun x hx => m'.fill_of_mem _ _ hx
  have hsame : Mem.AgreeOn (tables pml4) m₀ m := fun x hx => (hzero x hx).trans (h.zero x hx).symm
  refine ⟨m₀, ⟨h.toPlaced, hzero⟩, ?_⟩
  funext x
  by_cases hx : x ∈ tables pml4
  · exact (hm x hx).trans (bootPageTables_agreeOn_both hsame x hx).symm
  · have hout : Disjoint (tables pml4) {x} := Set.disjoint_singleton_right.mpr hx
    exact ((bootPageTables_agreeOn h.toPlaced hout x rfl).trans (m'.fill_of_notMem _ _ hx)).symm

/-! ## The two mappings -/

/-- `n` bytes from `va` on, in the lowest GB or in its copy from `KERNEL_VIRADDR` on. -/
def InKernel (va : BitVec 64) (n : ℕ) : Prop :=
  va.toNat + n ≤ 2 ^ 30 ∨
    (kernelViraddr.toNat ≤ va.toNat ∧ va.toNat + n ≤ kernelViraddr.toNat + 2 ^ 30)

instance (va : BitVec 64) (n : ℕ) : Decidable (InKernel va n) := by
  unfold InKernel
  infer_instance

theorem inKernel_iff {va : BitVec 64} {n : ℕ} : InKernel va n ↔ va.toNat + n ≤ 2 ^ 30 ∨
    ((2 ^ 17 - 1) * 2 ^ 47 ≤ va.toNat ∧ va.toNat + n ≤ (2 ^ 17 - 1) * 2 ^ 47 + 2 ^ 30) := by
  unfold InKernel
  rw [kernelViraddr_toNat]

theorem vir2phy_toNat (va : BitVec 64) : (vir2phy va).toNat = va.toNat % 2 ^ 47 := by
  have hmask : (~~~kernelViraddr).toNat = 2 ^ 47 - 1 := by decide
  unfold vir2phy
  rw [BitVec.toNat_and, hmask, Nat.and_comm, Nat.and_two_pow_sub_one_eq_mod]

/-- The walk, at all addresses. -/
theorem Blank.walk_eq (h : Blank pml4 m) (va : BitVec 64) :
    walk (bootPageTables pml4 m) (pml4.setWidth 64) va =
      if InKernel va 1 then some (vir2phy va) else none := by
  have hlt := va.isLt
  have h2 := index_toNat 2 va
  have h3 := index_toNat 3 va
  have hvir := vir2phy_toNat va
  by_cases hin : InKernel va 1
  · have hrange := inKernel_iff.mp hin
    have hc : Canonical va := by
      unfold Canonical
      omega
    obtain ⟨pa, hpa, hnat⟩ := walk_mapped va h hc (by omega) (by omega)
    have heq : pa = vir2phy va := BitVec.eq_of_toNat_eq (by omega)
    rw [if_pos hin, hpa, heq]
  · rw [inKernel_iff] at hin
    rw [if_neg (fun h => hin (inKernel_iff.mp h))]
    by_cases hc : Canonical va
    · have hc' := hc
      unfold Canonical at hc'
      exact walk_unmapped va h (by omega)
    · rw [walk, if_neg hc]

section Later

variable (h : Blank pml4 m) (hm : Mem.AgreeOn (tables pml4) m' (bootPageTables pml4 m))
include h hm

/-- It stays so while the tables do. -/
theorem Blank.walk_of_agreeOn (va : BitVec 64) :
    walk m' (pml4.setWidth 64) va = if InKernel va 1 then some (vir2phy va) else none := by
  obtain ⟨m₀, h₀, heq⟩ := h.exists_of_agreeOn hm
  rw [heq]
  exact h₀.walk_eq va

theorem Blank.maps {va : BitVec 64} {n : ℕ} (hn : n ≤ 2 ^ 30) (hin : InKernel va n) :
    Maps m' (pml4.setWidth 64) va (vir2phy va) n := by
  intro i hi
  have hoff : (BitVec.ofNat 64 i).toNat = i := by
    rw [BitVec.toNat_ofNat]
    omega
  have hva := vir2phy_toNat va
  have hsum := vir2phy_toNat (va + BitVec.ofNat 64 i)
  rw [inKernel_iff] at hin
  have hnat : (va + BitVec.ofNat 64 i).toNat = va.toNat + i := by
    rw [BitVec.toNat_add, hoff]
    omega
  have heq : vir2phy (va + BitVec.ofNat 64 i) = vir2phy va + BitVec.ofNat 64 i := by
    apply BitVec.eq_of_toNat_eq
    rw [hsum, hnat, BitVec.toNat_add, hoff, hva]
    omega
  have hbyte : InKernel (va + BitVec.ofNat 64 i) 1 := by
    rw [inKernel_iff, hnat]
    omega
  rw [h.walk_of_agreeOn hm, if_pos hbyte, heq]

/-- Eight bytes that are not all in one of the two have one that is not mapped. -/
theorem Blank.exists_unmapped {va : BitVec 64} (hout : ¬ InKernel va 8) :
    ∃ i < 8, walk m' (pml4.setWidth 64) (va + BitVec.ofNat 64 i) = none := by
  by_cases hfirst : InKernel va 1
  · refine ⟨7, by decide, ?_⟩
    rw [h.walk_of_agreeOn hm, if_neg]
    rw [inKernel_iff] at *
    rw [BitVec.toNat_add, show (BitVec.ofNat 64 7).toNat = 7 from rfl]
    omega
  · refine ⟨0, by decide, ?_⟩
    rw [show va + BitVec.ofNat 64 0 = va from BitVec.add_zero va, h.walk_of_agreeOn hm,
      if_neg hfirst]

end Later

/-! ## Stores -/

/-- The stores of a line, as stores to physical memory. -/
def physical (ws : List (BitVec 64 × BitVec 64)) : List (BitVec 64 × BitVec 64) :=
  ws.map fun w => (vir2phy w.1, w.2)

/-- Every store of a line is to one of the two mappings. -/
def AllInKernel (ws : List (BitVec 64 × BitVec 64)) : Prop := ∀ w ∈ ws, InKernel w.1 8

instance (ws : List (BitVec 64 × BitVec 64)) : Decidable (AllInKernel ws) :=
  List.decidableBAll (fun w : BitVec 64 × BitVec 64 => InKernel w.1 8) ws

theorem physical_agreeOn {s : Set (BitVec 64)} {ws : List (BitVec 64 × BitVec 64)}
    (hoff : ∀ w ∈ ws, Disjoint (Region (vir2phy w.1) 8) s) (m : Mem) :
    Mem.AgreeOn s (Mem.writes (physical ws) m) m :=
  Mem.agreeOn_writes _ m fun v hv => by
    obtain ⟨w, hw, rfl⟩ := List.mem_map.mp hv
    exact hoff w hw

/-- A line of stores to the two is a line of stores to physical memory. -/
theorem Blank.storeAll_eq (h : Blank pml4 m)
    (hm : Mem.AgreeOn (tables pml4) m' (bootPageTables pml4 m)) {ws : List (BitVec 64 × BitVec 64)}
    (hoff : ∀ w ∈ ws, Disjoint (Region (vir2phy w.1) 8) (tables pml4)) (hall : AllInKernel ws) :
    storeAll (pml4.setWidth 64) ws m' = some (Mem.writes (physical ws) m') :=
  Paging.storeAll_eq (tables pml4) vir2phy
    (fun _ h₁ w hw => h.maps (h₁.trans hm) (by decide) (hall w hw)) hoff

/-- A line with a store off the two ends in a page fault. -/
theorem Blank.storeAll_none (h : Blank pml4 m)
    (hm : Mem.AgreeOn (tables pml4) m' (bootPageTables pml4 m)) {ws : List (BitVec 64 × BitVec 64)}
    (hoff : ∀ w ∈ ws, Disjoint (Region (vir2phy w.1) 8) (tables pml4)) (hnot : ¬ AllInKernel ws) :
    storeAll (pml4.setWidth 64) ws m' = none := by
  induction ws generalizing m' with
  | nil => exact absurd (fun w hw => absurd hw List.not_mem_nil) hnot
  | cons w ws ih =>
      change (store64 m' (pml4.setWidth 64) w.1 w.2).bind (storeAll (pml4.setWidth 64) ws) = none
      by_cases hw : InKernel w.1 8
      · have hkeep := m'.agreeOn_write64 _ w.2 (hoff w List.mem_cons_self)
        have hrest : ¬ AllInKernel ws := fun hall => hnot (List.forall_mem_cons.mpr ⟨hw, hall⟩)
        rw [store64_eq w.2 (h.maps hm (by decide) hw), Option.bind_some]
        exact ih (hkeep.trans hm) (fun v hv => hoff v (List.mem_cons_of_mem w hv)) hrest
      · obtain ⟨i, hi, hnone⟩ := h.exists_unmapped hm hw
        rw [store64, storeBytes_none _ hi hnone, Option.bind_none]

/-- **Stores behind the boot code.** In any line of 8-byte stores off the page tables, through
    whatever addresses, either each is to the lowest GB or to its copy from `KERNEL_VIRADDR` on, and
    memory changes as by stores to the `VIR2PHY` addresses, or there is a page fault. The two
    mappings stay, and nothing else gets mapped. -/
theorem boot_stores (h : Blank pml4 m)
    (hm : Mem.AgreeOn (tables pml4) m' (bootPageTables pml4 m)) (ws : List (BitVec 64 × BitVec 64))
    (hoff : ∀ w ∈ ws, Disjoint (Region (vir2phy w.1) 8) (tables pml4)) :
    storeAll (pml4.setWidth 64) ws m' =
        (if AllInKernel ws then some (Mem.writes (physical ws) m') else none) ∧
      ∀ va, walk (Mem.writes (physical ws) m') (pml4.setWidth 64) va =
        if InKernel va 1 then some (vir2phy va) else none := by
  constructor
  · by_cases hall : AllInKernel ws
    · rw [if_pos hall]
      exact h.storeAll_eq hm hoff hall
    · rw [if_neg hall]
      exact h.storeAll_none hm hoff hall
  · exact h.walk_of_agreeOn ((physical_agreeOn hoff m').trans hm)

/-- A word at 0x100000 through its low address, one behind it through its high one. -/
theorem boot_stores_twice : storeAll 0x2000000#64 [(0x100000#64, 1#64),
    (0xffff800000100008#64, 2#64)] (bootPageTables 0x2000000#32 fun _ => 0#8) =
      some (((bootPageTables 0x2000000#32 fun _ => 0#8).write64 0x100000#64 1#64).write64
        0x100008#64 2#64) := by
  have hblank : Blank 0x2000000#32 fun _ => 0#8 := ⟨⟨by decide, by decide⟩, fun _ _ => rfl⟩
  have hlow : vir2phy 0x100000#64 = 0x100000#64 := by decide
  have hhigh : vir2phy 0xffff800000100008#64 = 0x100008#64 := by decide
  refine (boot_stores hblank (Mem.AgreeOn.refl _ _) _ fun w hw => ?_).1.trans ?_
  · rcases List.mem_pair.mp hw with rfl | rfl
    · rw [hlow]
      exact disjoint_of_le (by decide) (by decide)
    · rw [hhigh]
      exact disjoint_of_le (by decide) (by decide)
  · rw [if_pos (by decide), physical, List.map_cons, List.map_cons, List.map_nil, hlow, hhigh]
    rfl

end HelloOS.Boot
