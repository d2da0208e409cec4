/-
  The interrupt descriptor table, from boot to `do_IRQ`.

  `setup_IDT` fills the table at its low address with gates to `ignore_int`, and `init_interrupt`
  replaces 24 of them through `PHY2VIR`, both behind the boot page tables. The CPU reads the table
  at the low address again. There every vector then has one valid gate, to its own stub or to
  `ignore_int` (`idt_routes`), and the gates that `Machine` holds are these (`irqs_dispatched`).
-/
import HelloOS.Boot.Descriptors
import HelloOS.Boot.Stores
import HelloOS.Entry.Irq
import HelloOS.Irq.Acknowledge

namespace HelloOS.Irq

open HelloOS.Lib HelloOS.Lib.Paging HelloOS.Mm HelloOS.Boot

/-! ## The stores -/

/-- The two stores of a descriptor. -/
def descriptorStores (p : U64) (w : DescriptorWords) : List (U64 × U64) :=
  [(p, w.low), (p + 8#64, w.high)]

/-- The stores of `rp_sidt`. -/
def rpSidtStores (w : DescriptorWords) (rdi : U64) : ℕ → List (U64 × U64)
  | 0 => []
  | rcx + 1 => descriptorStores rdi w ++ rpSidtStores w (rdi + 0x10#64) rcx

/-- The stores of `setup_IDT`. -/
def setupIdtStores (idtTable ignoreInt : U64) : List (U64 × U64) :=
  rpSidtStores (setupIdtWords ignoreInt) idtTable 256

/-- The stores of `init_interrupt`'s loop over `set_intr_gate(i, 0, interrupt_table[i - 32])`. -/
def initInterruptStores (idtTable : U64) (stubs : Fin 24 → U64) : List (U64 × U64) :=
  (List.finRange 24).flatMap fun i : Fin 24 => descriptorStores
    (gateAddr idtTable (BitVec.ofNat 32 (32 + i.val))) (setGateWords 0x8e#8 0#8 (stubs i))

theorem rpSidt_eq_writes (w : DescriptorWords) (m : Mem) (p : U64) (n : ℕ) :
    Mem.writes (rpSidtStores w p n) m = rpSidt w m p n := by
  induction n generalizing m p with
  | zero => rfl
  | succ n ih => exact ih (w.store m p) (p + 0x10#64)

/-- An entry of the table. -/
def idtEntry (idtTable : U64) (v : ℕ) : U64 := idtTable + BitVec.ofNat 64 (16 * v)

/-- The gate of vector `v`. -/
def gateAt (m : Mem) (idtTable : U64) (v : ℕ) : Gate :=
  Gate.decode (DescriptorWords.load m (idtEntry idtTable v))

section Entries

variable {idtTable : U64} {m : Mem}

theorem idtEntry_toNat (hlow : idtTable.toNat + 4096 ≤ 2 ^ 30) {v : ℕ} (hv : v < 256) :
    (idtEntry idtTable v).toNat = idtTable.toNat + 16 * v := by
  unfold idtEntry
  rw [BitVec.toNat_add, BitVec.toNat_ofNat]
  omega

theorem idtEntry_disjoint (hlow : idtTable.toNat + 4096 ≤ 2 ^ 30) {u v : ℕ} (hu : u < 256)
    (hv : v < 256) (hne : u ≠ v) :
    Disjoint (Region (idtEntry idtTable u) 16) (Region (idtEntry idtTable v) 16) := by
  have h1 := idtEntry_toNat hlow hu
  have h2 := idtEntry_toNat hlow hv
  rcases Nat.lt_or_gt_of_ne hne with hlt | hgt
  · exact disjoint_of_le (by omega) (by omega)
  · exact (disjoint_of_le (by omega) (by omega)).symm

/-- Of the entries written one after the other, each holds its own words, and the others hold
    what they held. -/
theorem load_writes (hlow : idtTable.toNat + 4096 ≤ 2 ^ 30) (w : ℕ → DescriptorWords)
    {js : List ℕ} (hjs : ∀ j ∈ js, j < 256) {v : ℕ} (hv : v < 256) :
    DescriptorWords.load (Mem.writes (js.flatMap fun j =>
        descriptorStores (idtEntry idtTable j) (w j)) m) (idtEntry idtTable v) =
      if v ∈ js then w v else DescriptorWords.load m (idtEntry idtTable v) := by
  induction js generalizing m with
  | nil => rfl
  | cons j js ih =>
      rw [List.flatMap_cons, Mem.writes_append, ih fun i hi => hjs i (List.mem_cons_of_mem j hi)]
      change (if v ∈ js then w v else
        DescriptorWords.load ((w j).store m (idtEntry idtTable j)) (idtEntry idtTable v)) = _
      by_cases hmem : v ∈ js
      · rw [if_pos hmem, if_pos (List.mem_cons_of_mem j hmem)]
      · rw [if_neg hmem]
        by_cases hvj : v = j
        · subst hvj
          rw [DescriptorWords.load_store, if_pos List.mem_cons_self]
        · have hd := idtEntry_disjoint hlow (hjs j List.mem_cons_self) hv (Ne.symm hvj)
          rw [DescriptorWords.load_congr (DescriptorWords.store_agreeOn m _ (w j) hd),
            if_neg (by rw [List.mem_cons]; exact not_or.mpr ⟨hvj, hmem⟩)]

end Entries

/-! ## The addresses of the stores -/

section Addresses

variable {idtTable : U64} (hlow : idtTable.toNat + 4096 ≤ 2 ^ 30)

include hlow in
/-- A byte of the table. -/
theorem offset_toNat {c : ℕ} (hc : c + 8 ≤ 4096) :
    (idtTable + BitVec.ofNat 64 c).toNat = idtTable.toNat + c := by
  rw [BitVec.toNat_add, BitVec.toNat_ofNat]
  omega

theorem mem_descriptorStores {p : U64} {w : DescriptorWords} {x : U64 × U64}
    (hx : x ∈ descriptorStores p w) : x.1 = p ∨ x.1 = p + 8#64 := by
  rcases List.mem_pair.mp hx with rfl | rfl
  · exact Or.inl rfl
  · exact Or.inr rfl

/-- `rp_sidt` stores to the table at its low address. -/
theorem mem_rpSidtStores {w : DescriptorWords} {x : U64 × U64} {n k : ℕ} (hn : k + n ≤ 256)
    (hx : x ∈ rpSidtStores w (idtEntry idtTable k) n) :
    ∃ c, c + 8 ≤ 4096 ∧ x.1 = idtTable + BitVec.ofNat 64 c := by
  induction n generalizing k with
  | zero => exact absurd hx List.not_mem_nil
  | succ n ih =>
      have hnext : idtEntry idtTable k + 0x10#64 = idtEntry idtTable (k + 1) := by
        unfold idtEntry
        rw [BitVec.add_assoc, ← BitVec.ofNat_add, Nat.mul_succ]
      rw [rpSidtStores, List.mem_append, hnext] at hx
      rcases hx with hx | hx
      · rcases mem_descriptorStores hx with hx | hx
        · exact ⟨16 * k, by omega, hx⟩
        · refine ⟨16 * k + 8, by omega, hx.trans ?_⟩
          rw [idtEntry, BitVec.add_assoc, ← BitVec.ofNat_add]
      · exact ih (by omega) hx

include hlow in
theorem gateAddr_eq {v : ℕ} (hv : v < 256) :
    gateAddr idtTable (BitVec.ofNat 32 v) = phy2vir (idtEntry idtTable v) := by
  have hentry := idtEntry_toNat hlow hv
  unfold gateAddr
  apply congrArg
  apply BitVec.eq_of_toNat_eq
  rw [hentry, BitVec.toNat_add, BitVec.toNat_mul, BitVec.toNat_setWidth, BitVec.toNat_ofNat,
    show (16#64).toNat = 16 from rfl]
  omega

theorem phy2vir_add {a : U64} (h : a.toNat + 8 < 2 ^ 47) :
    phy2vir a + 8#64 = phy2vir (a + 8#64) := by
  have hsum : (a + 8#64).toNat = a.toNat + 8 := by
    rw [BitVec.toNat_add, show (8#64).toNat = 8 from rfl]
    omega
  apply BitVec.eq_of_toNat_eq
  rw [BitVec.toNat_add, phy2vir_toNat (by omega), phy2vir_toNat (by omega), hsum,
    show (8#64).toNat = 8 from rfl]
  omega

include hlow in
/-- The two stores of a gate, through `PHY2VIR`, go to its entry. -/
theorem physical_gate {v : ℕ} (hv : v < 256) (w : DescriptorWords) :
    physical (descriptorStores (gateAddr idtTable (BitVec.ofNat 32 v)) w) =
      descriptorStores (idtEntry idtTable v) w := by
  have hentry := idtEntry_toNat hlow hv
  have hsum : (idtEntry idtTable v + 8#64).toNat = (idtEntry idtTable v).toNat + 8 := by
    rw [BitVec.toNat_add, show (8#64).toNat = 8 from rfl]
    omega
  rw [gateAddr_eq hlow hv]
  change [(vir2phy (phy2vir _), w.low), (vir2phy (phy2vir _ + 8#64), w.high)] = _
  rw [phy2vir_add (by omega), vir2phy_phy2vir (by omega), vir2phy_phy2vir (by omega)]
  rfl

include hlow in
theorem physical_initInterrupt (stubs : Fin 24 → U64) :
    physical (initInterruptStores idtTable stubs) = (List.finRange 24).flatMap fun i : Fin 24 =>
      descriptorStores (idtEntry idtTable (32 + i.val)) (setGateWords 0x8e#8 0#8 (stubs i)) := by
  unfold physical initInterruptStores
  rw [List.map_flatMap]
  exact congrArg (List.flatMap · _) (funext fun i => physical_gate hlow (by omega) _)

include hlow in
/-- `init_interrupt` stores to the same table. -/
theorem mem_initInterruptStores {stubs : Fin 24 → U64} {x : U64 × U64}
    (hx : x ∈ initInterruptStores idtTable stubs) :
    ∃ c, c + 8 ≤ 4096 ∧ x.1 = phy2vir (idtTable + BitVec.ofNat 64 c) := by
  obtain ⟨i, -, hx⟩ := List.mem_flatMap.mp hx
  have hv : 32 + i.val < 256 := by omega
  have hentry := idtEntry_toNat hlow hv
  rcases mem_descriptorStores hx with hx | hx
  · exact ⟨16 * (32 + i.val), by omega, hx.trans (gateAddr_eq hlow hv)⟩
  · refine ⟨16 * (32 + i.val) + 8, by omega, hx.trans ?_⟩
    rw [gateAddr_eq hlow hv, phy2vir_add (by omega), idtEntry, BitVec.add_assoc,
      ← BitVec.ofNat_add]

include hlow in
/-- Either address of the table is mapped, to the low one. -/
theorem table_mapped {c : ℕ} (hc : c + 8 ≤ 4096) :
    let a := idtTable + BitVec.ofNat 64 c
    (InKernel a 8 ∧ vir2phy a = a) ∧ InKernel (phy2vir a) 8 ∧ vir2phy (phy2vir a) = a := by
  intro a
  have ha : a.toNat = idtTable.toNat + c := offset_toNat hlow hc
  have hvir := phy2vir_toNat (a := a) (by omega)
  exact ⟨⟨inKernel_iff.mpr (by omega), vir2phy_eq_self (by omega)⟩, inKernel_iff.mpr (by omega),
    vir2phy_phy2vir (by omega)⟩

end Addresses

/-! ## The table behind `init_interrupt` -/

/-- The code that vector `v` leads to. -/
def handler (stubs : Fin 24 → U64) (ignoreInt : U64) (v : ℕ) : U64 :=
  if h : 32 ≤ v ∧ v < 56 then stubs ⟨v - 32, by omega⟩ else ignoreInt

theorem handler_stub (stubs : Fin 24 → U64) (ignoreInt : U64) (i : Fin 24) :
    handler stubs ignoreInt (32 + i.val) = stubs i := by
  have h : 32 ≤ 32 + i.val ∧ 32 + i.val < 56 := by omega
  rw [handler, dif_pos h]
  exact congrArg stubs (Fin.ext (Nat.add_sub_cancel_left 32 i.val))

/-- Every vector has an interrupt gate to its handler, for code of level 0 on the stack it is on. -/
def Routed (m : Mem) (idtTable ignoreInt : U64) (stubs : Fin 24 → U64) : Prop :=
  ∀ v < 256, gateAt m idtTable v = ⟨handler stubs ignoreInt v, 8#16, 0#3, 0#5, 0x8e#8, 0#32⟩

theorem decode_setGateWords (addr : U64) :
    Gate.decode (setGateWords 0x8e#8 0#8 addr) = ⟨addr, 8#16, 0#3, 0#5, 0x8e#8, 0#32⟩ := by
  rw [setGateWords_eq, Gate.decode_encode]
  rfl

section Table

variable {idtTable ignoreInt : U64} {stubs : Fin 24 → U64} {m : Mem}
  (hlow : idtTable.toNat + 4096 ≤ 2 ^ 30)

include hlow in
theorem routed_initInterrupt
    (hold : ∀ v < 256, DescriptorWords.load m (idtEntry idtTable v) = setupIdtWords ignoreInt) :
    Routed (Mem.writes (physical (initInterruptStores idtTable stubs)) m) idtTable ignoreInt
      stubs := by
  let js : List ℕ := (List.finRange 24).map fun i : Fin 24 => 32 + i.val
  have hmem : ∀ v, v ∈ js ↔ 32 ≤ v ∧ v < 56 := fun v => by
    rw [List.mem_map]
    exact ⟨fun ⟨i, _, hi⟩ => by omega,
      fun h => ⟨⟨v - 32, by omega⟩, List.mem_finRange _, by change 32 + (v - 32) = v; omega⟩⟩
  have hstores : physical (initInterruptStores idtTable stubs) = js.flatMap fun j =>
      descriptorStores (idtEntry idtTable j)
        (setGateWords 0x8e#8 0#8 (handler stubs ignoreInt j)) := by
    rw [physical_initInterrupt hlow, List.flatMap_map]
    exact congrArg (List.flatMap · _) (funext fun i => by rw [handler_stub])
  intro v hv
  rw [gateAt, hstores, load_writes hlow _ (fun j hj => by have := (hmem j).mp hj; omega) hv]
  by_cases hin : v ∈ js
  · rw [if_pos hin, decode_setGateWords]
  · have hignore : handler stubs ignoreInt v = ignoreInt := dif_neg fun h => hin ((hmem v).mpr h)
    rw [if_neg hin, hold v hv, setupIdtWords_eq, decode_setGateWords, hignore]

/-- A line of stores into the table, from addresses that lead there. -/
theorem stores_inTable {ws : List (U64 × U64)} (hws : ∀ w ∈ ws, ∃ c, c + 8 ≤ 4096 ∧
      InKernel w.1 8 ∧ vir2phy w.1 = idtTable + BitVec.ofNat 64 c) :
    (∀ w ∈ ws, InKernel w.1 8) ∧
      ∀ w ∈ ws, Region (vir2phy w.1) 8 ⊆ Region idtTable 4096 := by
  refine ⟨fun w hw => ?_, fun w hw => ?_⟩
  · obtain ⟨-, -, hin, -⟩ := hws w hw
    exact hin
  · obtain ⟨c, hc, -, hphy⟩ := hws w hw
    rw [hphy]
    refine region_subset idtTable ?_
    have := toNat_ofNat_le c
    omega

variable (ignoreInt) in
include hlow in
theorem setupIdtStores_inTable : ∀ w ∈ setupIdtStores idtTable ignoreInt, ∃ c, c + 8 ≤ 4096 ∧
    (InKernel w.1 8 ∧ vir2phy w.1 = idtTable + BitVec.ofNat 64 c) ∧ vir2phy w.1 = w.1 := by
  intro w hw
  rw [setupIdtStores, ← show idtEntry idtTable 0 = idtTable from BitVec.add_zero idtTable] at hw
  obtain ⟨c, hc, hw⟩ := mem_rpSidtStores (k := 0) (by omega) hw
  obtain ⟨⟨hin, hphy⟩, -⟩ := table_mapped hlow hc
  rw [← hw] at hin hphy
  exact ⟨c, hc, ⟨hin, hphy.trans hw⟩, hphy⟩

variable (stubs) in
include hlow in
theorem initInterruptStores_inTable : ∀ w ∈ initInterruptStores idtTable stubs, ∃ c,
    c + 8 ≤ 4096 ∧ InKernel w.1 8 ∧ vir2phy w.1 = idtTable + BitVec.ofNat 64 c := by
  intro w hw
  obtain ⟨c, hc, hw⟩ := mem_initInterruptStores hlow hw
  obtain ⟨-, hin, hphy⟩ := table_mapped hlow hc
  rw [hw]
  exact ⟨c, hc, hin, hphy⟩

include hlow in
theorem physical_setupIdt :
    Mem.writes (physical (setupIdtStores idtTable ignoreInt)) m =
      setupIdt m idtTable ignoreInt := by
  have hself : physical (setupIdtStores idtTable ignoreInt) = setupIdtStores idtTable ignoreInt :=
    (List.map_congr_left fun w hw => by
      obtain ⟨-, -, -, hphy⟩ := setupIdtStores_inTable ignoreInt hlow w hw
      exact Prod.ext hphy rfl).trans (List.map_id _)
  rw [hself]
  exact rpSidt_eq_writes _ m idtTable 256

theorem idtEntry_subset {v : ℕ} (hv : v < 256) :
    Region (idtEntry idtTable v) 16 ⊆ Region idtTable 4096 := by
  refine region_subset idtTable ?_
  have := toNat_ofNat_le (16 * v)
  omega

end Table

/-- **The interrupt descriptor table.** Behind the boot page tables, the stores of `setup_IDT` and,
    whatever is stored elsewhere in between, those of `init_interrupt` go through without a page
    fault and into the table only. Then each of the 256 vectors has a gate that the CPU finds at
    the low address: vectors 32 to 55 to their stubs, all others to `ignore_int`. -/
theorem idt_routes {pml4 : BitVec 32} {m : Mem} (h : Blank pml4 m) {idtTable : U64}
    (hlow : idtTable.toNat + 4096 ≤ 2 ^ 30) (hapart : Disjoint (Region idtTable 4096) (tables pml4))
    (ignoreInt : U64) (stubs : Fin 24 → U64) :
    ∃ m₁, storeAll (pml4.setWidth 64) (setupIdtStores idtTable ignoreInt) (bootPageTables pml4 m) =
        some m₁ ∧ Mem.AgreeOn (Region idtTable 4096)ᶜ m₁ (bootPageTables pml4 m) ∧
      ∀ m₂, Mem.AgreeOn (tables pml4 ∪ Region idtTable 4096) m₂ m₁ →
        ∃ m₃, storeAll (pml4.setWidth 64) (initInterruptStores idtTable stubs) m₂ = some m₃ ∧
          Mem.AgreeOn (Region idtTable 4096)ᶜ m₃ m₂ ∧ Routed m₃ idtTable ignoreInt stubs ∧
          ∀ v < 256, Maps m₃ (pml4.setWidth 64) (idtEntry idtTable v) (idtEntry idtTable v) 16 := by
  obtain ⟨hin₁, hsub₁⟩ := stores_inTable fun w hw => by
    obtain ⟨c, hc, hw, -⟩ := setupIdtStores_inTable ignoreInt hlow w hw
    exact ⟨c, hc, hw⟩
  obtain ⟨hin₃, hsub₃⟩ := stores_inTable (initInterruptStores_inTable stubs hlow)
  have hout : Disjoint (Region idtTable 4096) (Region idtTable 4096)ᶜ := disjoint_compl_right
  have hoff₁ := fun w hw => hapart.mono_left (hsub₁ w hw)
  have hoff₃ := fun w hw => hapart.mono_left (hsub₃ w hw)
  have hstore₁ := h.storeAll_eq (Mem.AgreeOn.refl _ _) hoff₁ hin₁
  refine ⟨_, hstore₁, physical_agreeOn (fun w hw => hout.mono_left (hsub₁ w hw)) _,
    fun m₂ hm₂ => ?_⟩
  have htables : Mem.AgreeOn (tables pml4) m₂ (bootPageTables pml4 m) :=
    (hm₂.mono Set.subset_union_left).trans (physical_agreeOn hoff₁ _)
  have hstore₃ := h.storeAll_eq htables hoff₃ hin₃
  refine ⟨_, hstore₃, physical_agreeOn (fun w hw => hout.mono_left (hsub₃ w hw)) _,
    routed_initInterrupt hlow fun v hv => ?_, fun v hv => ?_⟩
  · have hentry := hm₂.mono ((idtEntry_subset hv).trans Set.subset_union_right)
    rw [DescriptorWords.load_congr hentry, physical_setupIdt hlow]
    exact rpSidt_load _ _ idtTable (by decide) hv
  · have hentry := idtEntry_toNat hlow hv
    have hmaps : Maps _ (pml4.setWidth 64) (idtEntry idtTable v) _ 16 :=
      h.maps ((physical_agreeOn hoff₃ _).trans htables) (by decide)
        (inKernel_iff.mpr (Or.inl (by omega)))
    rwa [vir2phy_eq_self (by omega)] at hmaps

/-- A table in front of the kernel, at an odd place. -/
theorem idt_routes_odd : ∃ m₁ m₂, storeAll 0x2000000#64 (setupIdtStores 0x100002#64 0x100f00#64)
      (bootPageTables 0x2000000#32 fun _ => 0#8) = some m₁ ∧
    storeAll 0x2000000#64 (initInterruptStores 0x100002#64 fun i => BitVec.ofNat 64 (4096 * i)) m₁ =
      some m₂ ∧ (gateAt m₂ 0x100002#64 0x21).offset = 4096#64 ∧
      (gateAt m₂ 0x100002#64 14).offset = 0x100f00#64 := by
  have hblank : Blank 0x2000000#32 fun _ => 0#8 := ⟨⟨by decide, by decide⟩, fun _ _ => rfl⟩
  have hapart : Disjoint (Region 0x100002#64 4096) (tables 0x2000000#32) :=
    disjoint_of_le (by decide) (by decide)
  obtain ⟨m₁, hstore₁, -, h⟩ := idt_routes hblank (by decide) hapart 0x100f00#64
    fun i => BitVec.ofNat 64 (4096 * i)
  obtain ⟨m₂, hstore₂, -, hroutes, -⟩ := h m₁ (Mem.AgreeOn.refl _ _)
  refine ⟨m₁, m₂, hstore₁, hstore₂, ?_, ?_⟩
  · rw [hroutes 0x21 (by decide)]
    rfl
  · rw [hroutes 14 (by decide)]
    rfl

/-! ## What a run of interrupts does with it -/

section Dispatch

variable {σ : Type} (dev : Bus σ)

/-- The states of a run keep the chips and the gates as programmed. -/
theorem afterEach_between {s : PicMachine σ} (h : BetweenIrqs s) (ds : List (Delivery σ)) :
    ∀ s' ∈ afterEach dev ds s, BetweenIrqs s' := by
  induction ds generalizing s with
  | nil => exact fun s' hs => absurd hs List.not_mem_nil
  | cons d ds ih =>
      intro s' hs
      rcases List.mem_cons.mp hs with rfl | hs
      · exact h.interrupt dev d
      · exact ih (h.interrupt dev d) s' hs

/-- **Dispatch.** In front of every interrupt of a run from `init_interrupt` on, whichever line it
    comes in on: the CPU takes the vector of the chips, through the gate in memory, to the stub of
    that line, in kernel code with interrupts off; the stub hands its vector to `do_IRQ`; and what
    the machine does is that `do_IRQ`. -/
theorem irqs_dispatched (s₀ : PicMachine σ) (ds : List (Delivery σ)) {m : Mem}
    {idtTable ignoreInt : U64} {stubs : Fin 24 → U64} (hm : Routed m idtTable ignoreInt stubs)
    (t : Tss) (c : Core) (ret : U64) :
    let start := initInterrupt (Pics.bus dev) s₀
    ∀ s ∈ start :: afterEach dev ds start, ∀ d : Delivery σ,
      let i : Fin 24 := d.line.castLE (by decide)
      let entry := c.deliver t (gateAt m idtTable (s.pics.vector d.line).toNat)
      let nr := (entry.cpu.run (Entry.buildIrq (interruptTable i) ret)).gpr .rsi
      entry.rip = stubs i ∧ entry.cs = 8#16 ∧ entry.cpu.intr = false ∧
        nr = BitVec.ofNat 64 (s.pics.vector d.line).toNat ∧
        interrupt dev d s =
          doIrq (Pics.bus dev) nr { s with dev := (s.pics.deliver d.line, d.dev) } := by
  intro start s hs d i entry nr
  have hstart : BetweenIrqs start := initInterrupt_between dev s₀
  have h : BetweenIrqs s := by
    rcases List.mem_cons.mp hs with rfl | hs
    · exact hstart
    · exact afterEach_between dev hstart ds s hs
  have hvector : (s.pics.vector d.line).toNat = 32 + i.val := by
    rw [h.programmed.vector_eq, BitVec.toNat_ofNat]
    exact Nat.mod_eq_of_lt (by omega)
  have hgate := hm (32 + i.val) (by omega)
  rw [handler_stub] at hgate
  have hentry : entry = c.deliver t ⟨stubs i, 8#16, 0#3, 0#5, 0x8e#8, 0#32⟩ := by
    rw [← hgate, ← hvector]
  have hnr : nr = interruptTable i := (Entry.run_buildIrq entry.cpu _ ret).2.2.2
  rw [hentry, hvector, hnr]
  have hcs : (8#16 : BitVec 16) &&& ~~~0x3#16 = 8#16 := by decide
  have htype : ((0x8e#8).setWidth 4 == 0xf#4) = false := by decide
  have hintr : (c.cpu.intr && (0x8e#8).setWidth 4 == 0xf#4) = false := by
    rw [htype, Bool.and_false]
  exact ⟨rfl, hcs, hintr, rfl, h.programmed.interrupt_eq dev d⟩

end Dispatch

/-- A key behind an interrupt of the disk. -/
theorem irqs_dispatched_key : ∃ (s : PicMachine Unit) (m : Mem) (c : Core),
    (c.deliver ⟨0#64, fun _ => 0#64⟩ (gateAt m 0x100002#64 (s.pics.vector 1).toNat)).rip =
      4096#64 ∧ ∃ s', interrupt emptyBus ⟨1, ()⟩ s = doIrq (Pics.bus emptyBus) 0x21#64 s' := by
  let blank : Pic := ⟨.ocw1, false, false, 0#8, 0#8, false, 0#8, ∅⟩
  let s₀ : PicMachine Unit := ⟨(⟨blank, blank⟩, ()), fun _ => none, ⟨false, false⟩, []⟩
  let stubs : Fin 24 → U64 := fun i => BitVec.ofNat 64 (4096 * i)
  have hm : Routed (Mem.writes (physical (initInterruptStores 0x100002#64 stubs))
      (setupIdt (fun _ => 0#8) 0x100002#64 0x100f00#64)) 0x100002#64 0x100f00#64 stubs :=
    routed_initInterrupt (by decide) fun v hv => rpSidt_load _ _ _ (by decide) hv
  let d : Delivery Unit := ⟨1, ()⟩
  have hstart : BetweenIrqs (initInterrupt (Pics.bus emptyBus) s₀) :=
    initInterrupt_between emptyBus s₀
  let c : Core := ⟨zeroCpu, 0#64, 8#16, 0#16, 0#64⟩
  obtain ⟨hrip, -, -, hnr, hrun⟩ := irqs_dispatched emptyBus s₀ [⟨14, ()⟩] hm
    ⟨0#64, fun _ => 0#64⟩ c 0#64 _ (List.mem_cons_of_mem _ List.mem_cons_self) d
  have hvector := ((hstart.interrupt emptyBus ⟨14, ()⟩).programmed).vector_eq 1
  rw [hnr, show d.line = 1 from rfl, hvector] at hrun
  exact ⟨_, _, c, hrip, _, hrun⟩

end HelloOS.Irq
