/-
  The page tables built at boot (`arch/x86/boot/multiboot2.S`): three zero-filled tables one
  behind the other, `pml4`, `pdpt` and `pd`, filled by 32-bit stores before paging is on.

  As 1536 entries: entries 0 and 256 of the first table point at the second, entry 0 of the
  second at the third, and the third maps 512 pages of 2 MB.
-/
import HelloOS.Lib.Paging
import HelloOS.Mm.Basic

namespace HelloOS.Boot

open HelloOS.Lib HelloOS.Mm

/-! ## The code -/

/-- `.pd_loop`, with `ecx` rounds to go. -/
def pdLoop : ℕ → BitVec 32 → BitVec 32 → Mem → Mem
  | 0, _, _, m => m
  | ecx + 1, eax, ebx, m =>
    pdLoop ecx (eax + 0x08#32) (ebx + 0x200000#32) (m.write32 (eax.setWidth 64) ebx)

/-- `multiboot_entry`, from the top table to the end of `.pd_loop`. -/
def bootPageTables (pml4 : BitVec 32) (m : Mem) : Mem :=
  let pdpt := pml4 + 0x1000#32
  let pd := pml4 + 0x2000#32
  let m := m.write32 (pml4.setWidth 64) (pdpt ||| 0x07#32)
  let m := m.write32 ((pml4 + 2048#32).setWidth 64) (pdpt ||| 0x07#32)
  let m := m.write32 (pdpt.setWidth 64) (pd ||| 0x07#32)
  pdLoop 512 pd 0x87#32 m

/-- Where the three tables are linked: at a page boundary below 4 GB. -/
structure Placed (pml4 : BitVec 32) : Prop where
  aligned : pml4.toNat % 0x1000 = 0
  below : pml4.toNat + 0x3000 ≤ 2 ^ 32

/-- The three tables as they are linked: in place, and zero. -/
structure Blank (pml4 : BitVec 32) (m : Mem) : Prop extends Placed pml4 where
  zero : ∀ x ∈ Region (pml4.setWidth 64) 0x3000, m x = 0#8

/-! ## The tables as entries -/

/-- Entry `w`, counted from `pml4` on. -/
def entryAddr (pml4 : BitVec 32) (w : ℕ) : BitVec 64 := BitVec.ofNat 64 (pml4.toNat + 8 * w)

/-- The 1536 entries are those of `f`. -/
def Entries (pml4 : BitVec 32) (f : ℕ → BitVec 32) (m : Mem) : Prop :=
  ∀ w, w < 1536 → m.read64 (entryAddr pml4 w) = (f w).setWidth 64

variable {pml4 : BitVec 32} {m : Mem} {f : ℕ → BitVec 32}

theorem Placed.entryAddr_toNat (h : Placed pml4) {w : ℕ} (hw : w < 1536) :
    (entryAddr pml4 w).toNat = pml4.toNat + 8 * w := by
  have := h.below
  unfold entryAddr
  rw [BitVec.toNat_ofNat]
  omega

theorem Placed.setWidth_add (h : Placed pml4) {w : ℕ} (hw : w < 1536) :
    (pml4 + BitVec.ofNat 32 (8 * w)).setWidth 64 = entryAddr pml4 w := by
  have := h.below
  apply BitVec.eq_of_toNat_eq
  rw [h.entryAddr_toNat hw, BitVec.toNat_setWidth, BitVec.toNat_add, BitVec.toNat_ofNat]
  omega

theorem Blank.entries (h : Blank pml4 m) : Entries pml4 (fun _ => 0#32) m := by
  intro w hw
  have hzero : m.read64 (entryAddr pml4 w) = Mem.read64 (fun _ => 0#8) (entryAddr pml4 w) := by
    apply Mem.AgreeOn.read64
    intro x hx
    apply h.zero x
    have hsub : Region (pml4.setWidth 64 + BitVec.ofNat 64 (8 * w)) 8 ⊆
        Region (pml4.setWidth 64) 0x3000 :=
      region_subset _ (by have := toNat_ofNat_le (8 * w); omega)
    apply hsub
    rw [show pml4.setWidth 64 + BitVec.ofNat 64 (8 * w) = entryAddr pml4 w by
      unfold entryAddr
      apply BitVec.eq_of_toNat_eq
      rw [BitVec.toNat_add, BitVec.toNat_setWidth, BitVec.toNat_ofNat, BitVec.toNat_ofNat]
      omega]
    exact hx
  rw [hzero]
  change (0#8 ++ 0#8 ++ 0#8 ++ 0#8 ++ 0#8 ++ 0#8 ++ 0#8 ++ 0#8 : BitVec 64) = (0#32).setWidth 64
  decide

/-- A 32-bit store to an entry replaces that entry. -/
theorem Entries.write (hb : Placed pml4) (h : Entries pml4 f m) {w : ℕ} (hw : w < 1536)
    (v : BitVec 32) :
    Entries pml4 (Function.update f w v) (m.write32 (entryAddr pml4 w) v) := by
  have hbelow := hb.below
  have haddr := hb.entryAddr_toNat hw
  intro k hk
  have haddr' := hb.entryAddr_toNat hk
  by_cases he : k = w
  · subst he
    rw [Function.update_self]
    apply Mem.read64_write32_self
    -- the entry was a 32-bit value before
    have hold := h k hk
    rw [Mem.read64_eq_append] at hold
    have hnat := congrArg BitVec.toNat hold
    have hlow := (m.read32 (entryAddr pml4 k)).isLt
    have hval := (f k).isLt
    rw [BitVec.toNat_append, BitVec.toNat_setWidth, Nat.shiftLeft_eq, Nat.mul_comm,
      ← Nat.two_pow_add_eq_or_of_lt hlow] at hnat
    apply BitVec.eq_of_toNat_eq
    change _ = 0
    omega
  · rw [Function.update_of_ne he, ← h k hk]
    apply Mem.AgreeOn.read64
    apply Mem.agreeOn_write32
    rcases Nat.lt_or_gt_of_ne he with hlt | hgt
    · exact (disjoint_of_le (by omega) (by omega)).symm
    · exact disjoint_of_le (by omega) (by omega)

/-- The loop fills the entries of `pd` from `k` on. -/
theorem Entries.pdLoop (hb : Placed pml4) (n : ℕ) {k : ℕ} (hk : k + n ≤ 512)
    (h : Entries pml4 f m) :
    Entries pml4
      (fun w => if 1024 + k ≤ w ∧ w < 1024 + k + n then
        BitVec.ofNat 32 ((w - 1024) * 0x200000 + 0x87) else f w)
      (pdLoop n (pml4 + BitVec.ofNat 32 (8 * (1024 + k))) (BitVec.ofNat 32 (k * 0x200000 + 0x87))
        m) := by
  induction n generalizing k f m with
  | zero =>
    have hf : (fun w => if 1024 + k ≤ w ∧ w < 1024 + k + 0 then
        BitVec.ofNat 32 ((w - 1024) * 0x200000 + 0x87) else f w) = f := by
      funext w
      rw [if_neg (by omega)]
    rw [hf]
    exact h
  | succ n ih =>
    have hwrite := h.write hb (w := 1024 + k) (by omega)
      (BitVec.ofNat 32 (k * 0x200000 + 0x87))
    have hrest := ih (k := k + 1) (by omega) hwrite
    have hf : (fun w => if 1024 + (k + 1) ≤ w ∧ w < 1024 + (k + 1) + n then
          BitVec.ofNat 32 ((w - 1024) * 0x200000 + 0x87)
          else Function.update f (1024 + k) (BitVec.ofNat 32 (k * 0x200000 + 0x87)) w) =
        fun w => if 1024 + k ≤ w ∧ w < 1024 + k + (n + 1) then
          BitVec.ofNat 32 ((w - 1024) * 0x200000 + 0x87) else f w := by
      funext w
      by_cases he : w = 1024 + k
      · subst he
        rw [if_neg (by omega), if_pos (by omega), Function.update_self, Nat.add_sub_cancel_left]
      · rw [Function.update_of_ne he]
        by_cases hin : 1024 + (k + 1) ≤ w ∧ w < 1024 + (k + 1) + n
        · rw [if_pos hin, if_pos (by omega)]
        · rw [if_neg hin, if_neg (by omega)]
    rw [hf] at hrest
    have haddr : pml4 + BitVec.ofNat 32 (8 * (1024 + k)) + 0x08#32 =
        pml4 + BitVec.ofNat 32 (8 * (1024 + (k + 1))) := by
      rw [BitVec.add_assoc, ← BitVec.ofNat_add]
      congr 2
    have hval : BitVec.ofNat 32 (k * 0x200000 + 0x87) + 0x200000#32 =
        BitVec.ofNat 32 ((k + 1) * 0x200000 + 0x87) := by
      rw [← BitVec.ofNat_add]
      apply congrArg
      omega
    unfold Boot.pdLoop
    rw [hb.setWidth_add (by omega), haddr, hval]
    exact hrest

/-- The entries behind the boot code. -/
def bootEntries (pml4 : BitVec 32) (w : ℕ) : BitVec 32 :=
  if 1024 ≤ w then BitVec.ofNat 32 ((w - 1024) * 0x200000 + 0x87)
  else if w = 512 then (pml4 + 0x2000#32) ||| 0x07#32
  else if w = 0 ∨ w = 256 then (pml4 + 0x1000#32) ||| 0x07#32
  else 0#32

theorem bootPageTables_entries (h : Blank pml4 m) :
    Entries pml4 (bootEntries pml4) (bootPageTables pml4 m) := by
  have hb : Placed pml4 := h.toPlaced
  have h₁ := h.entries.write hb (w := 0) (by omega) ((pml4 + 0x1000#32) ||| 0x07#32)
  have h₂ := h₁.write hb (w := 256) (by omega) ((pml4 + 0x1000#32) ||| 0x07#32)
  have h₃ := h₂.write hb (w := 512) (by omega) ((pml4 + 0x2000#32) ||| 0x07#32)
  have hfull := h₃.pdLoop hb 512 (k := 0) (by omega)
  have ha₀ := hb.setWidth_add (w := 0) (by omega)
  have ha₁ := hb.setWidth_add (w := 256) (by omega)
  have ha₂ := hb.setWidth_add (w := 512) (by omega)
  rw [Nat.mul_zero, BitVec.add_zero] at ha₀
  rw [← ha₀, ← ha₁, ← ha₂] at hfull
  change Entries pml4 _ (bootPageTables pml4 m) at hfull
  intro w hw
  rw [hfull w hw]
  apply congrArg
  unfold bootEntries
  dsimp only
  by_cases h1024 : 1024 ≤ w
  · rw [if_pos h1024, if_pos (by omega)]
  · rw [if_neg h1024, if_neg (by omega)]
    by_cases h512 : w = 512
    · rw [if_pos h512, h512, Function.update_self]
    · rw [if_neg h512, Function.update_of_ne h512]
      by_cases h256 : w = 256
      · rw [if_pos (Or.inr h256), h256, Function.update_self]
      · rw [Function.update_of_ne h256]
        by_cases h0 : w = 0
        · rw [if_pos (Or.inl h0), h0, Function.update_self]
        · rw [Function.update_of_ne h0, if_neg (by omega)]

/-! ## Walks -/

open Paging

/-- An address in the tables with flags 7: `PT_PRESENT`, writable, user. -/
theorem Placed.flagged (h : Placed pml4) {c : ℕ} (hc : c < 3) :
    (((pml4 + BitVec.ofNat 32 (4096 * c)) ||| 0x07#32).setWidth 64).toNat =
      4096 * (pml4.toNat / 4096 + c) + 7 := by
  have := h.aligned
  have := h.below
  have haddr : (pml4 + BitVec.ofNat 32 (4096 * c)).toNat = 2 ^ 12 * (pml4.toNat / 4096 + c) := by
    rw [BitVec.toNat_add, BitVec.toNat_ofNat]
    omega
  rw [BitVec.toNat_setWidth, BitVec.toNat_or, haddr, show (0x07#32).toNat = 7 from rfl,
    ← Nat.two_pow_add_eq_or_of_lt (by omega)]
  omega

theorem Placed.pdpt_toNat (h : Placed pml4) :
    (((pml4 + 0x1000#32) ||| 0x07#32).setWidth 64).toNat = 4096 * (pml4.toNat / 4096 + 1) + 7 :=
  h.flagged (c := 1) (by omega)

theorem Placed.pd_toNat (h : Placed pml4) :
    (((pml4 + 0x2000#32) ||| 0x07#32).setWidth 64).toNat = 4096 * (pml4.toNat / 4096 + 2) + 7 :=
  h.flagged (c := 2) (by omega)

/-- Entry `i` of table `j`. -/
theorem Entries.lookup (hb : Placed pml4) (h : Entries pml4 f m) {j : ℕ} (hj : j < 3)
    (level : ℕ) (va : BitVec 64) :
    m.read64 (entryAddr pml4 (512 * j) + 8#64 * (index level va).setWidth 64) =
      (f (512 * j + (index level va).toNat)).setWidth 64 := by
  have hi := (index level va).isLt
  have := hb.below
  rw [← h (512 * j + (index level va).toNat) (by omega)]
  apply congrArg
  apply BitVec.eq_of_toNat_eq
  rw [BitVec.toNat_add, BitVec.toNat_mul, BitVec.toNat_setWidth, hb.entryAddr_toNat (by omega),
    hb.entryAddr_toNat (by omega), show (8#64).toNat = 8 from rfl]
  omega

/-- The table that starts at entry `512 * j`. -/
theorem Placed.table_eq (h : Placed pml4) {e : BitVec 64} {j f : ℕ} (hj : j < 3) (hf : f < 4096)
    (he : e.toNat = 4096 * (pml4.toNat / 4096 + j) + f) : table e = entryAddr pml4 (512 * j) := by
  have := h.aligned
  have := h.below
  apply BitVec.eq_of_toNat_eq
  rw [table_toNat he hf (by omega), h.entryAddr_toNat (by omega)]
  omega

section
variable (va : BitVec 64)

theorem table_cr3 (h : Placed pml4) : table (pml4.setWidth 64) = entryAddr pml4 (512 * 0) := by
  have := h.aligned
  apply h.table_eq (by omega) (f := 0) (by omega)
  rw [BitVec.toNat_setWidth]
  omega

/-- The top entry: that of `pdpt` for the lowest and the 256th 512 GB, else none. -/
theorem entry_top (h : Blank pml4 m) :
    entry (bootPageTables pml4 m) (table (pml4.setWidth 64)) 3 va =
      if (index 3 va).toNat = 0 ∨ (index 3 va).toNat = 256 then
        some (((pml4 + 0x1000#32) ||| 0x07#32).setWidth 64) else none := by
  have hb : Placed pml4 := h.toPlaced
  have hi := (index 3 va).isLt
  have hread := (bootPageTables_entries h).lookup hb (j := 0) (by omega) 3 va
  have hval : bootEntries pml4 (512 * 0 + (index 3 va).toNat) =
      if (index 3 va).toNat = 0 ∨ (index 3 va).toNat = 256 then (pml4 + 0x1000#32) ||| 0x07#32
      else 0#32 := by
    unfold bootEntries
    rw [Nat.mul_zero, Nat.zero_add, if_neg (by omega), if_neg (by omega)]
  rw [hval] at hread
  rw [table_cr3 hb]
  split
  case isTrue ht =>
    rw [if_pos ht] at hread
    apply entry_some hread
    have := hb.pdpt_toNat
    omega
  case isFalse hf =>
    rw [if_neg hf] at hread
    exact entry_none hread

/-- The second entry: that of `pd` for the lowest GB, else none. -/
theorem entry_second (h : Blank pml4 m) :
    entry (bootPageTables pml4 m) (entryAddr pml4 512) 2 va =
      if (index 2 va).toNat = 0 then some (((pml4 + 0x2000#32) ||| 0x07#32).setWidth 64)
      else none := by
  have hb : Placed pml4 := h.toPlaced
  have hi := (index 2 va).isLt
  have hread := (bootPageTables_entries h).lookup hb (j := 1) (by omega) 2 va
  have hval : bootEntries pml4 (512 * 1 + (index 2 va).toNat) =
      if (index 2 va).toNat = 0 then (pml4 + 0x2000#32) ||| 0x07#32 else 0#32 := by
    unfold bootEntries
    rw [if_neg (by omega)]
    split
    · rw [if_pos (by omega)]
    · rw [if_neg (by omega), if_neg (by omega)]
  rw [hval] at hread
  split
  case isTrue ht =>
    rw [if_pos ht] at hread
    apply entry_some hread
    have := hb.pd_toNat
    omega
  case isFalse hf =>
    rw [if_neg hf] at hread
    exact entry_none hread

/-- The third entry: the 2 MB page with the index's number. -/
theorem entry_third (h : Blank pml4 m) :
    entry (bootPageTables pml4 m) (entryAddr pml4 1024) 1 va =
      some ((BitVec.ofNat 32 ((index 1 va).toNat * 0x200000 + 0x87)).setWidth 64) := by
  have hb : Placed pml4 := h.toPlaced
  have hread := (bootPageTables_entries h).lookup hb (j := 2) (by omega) 1 va
  have hval : bootEntries pml4 (512 * 2 + (index 1 va).toNat) =
      BitVec.ofNat 32 ((index 1 va).toNat * 0x200000 + 0x87) := by
    unfold bootEntries
    rw [if_pos (by omega), Nat.add_sub_cancel_left]
  rw [hval] at hread
  apply entry_some hread
  rw [BitVec.toNat_setWidth, BitVec.toNat_ofNat]
  omega

/-- The mapped addresses: the lowest GB below top entries 0 and 256. -/
theorem walk_mapped (h : Blank pml4 m) (hc : Canonical va)
    (h3 : (index 3 va).toNat = 0 ∨ (index 3 va).toNat = 256) (h2 : (index 2 va).toNat = 0) :
    ∃ pa, walk (bootPageTables pml4 m) (pml4.setWidth 64) va = some pa ∧
      pa.toNat = va.toNat % 2 ^ 30 := by
  have hb : Placed pml4 := h.toPlaced
  have hi := (index 1 va).isLt
  have hidx := index_toNat 1 va
  have hf₁ := hb.pdpt_toNat
  have hf₂ := hb.pd_toNat
  have he₃ := entry_top va h
  have he₂ := entry_second va h
  have he₁ := entry_third va h
  rw [if_pos h3] at he₃
  rw [if_pos h2] at he₂
  have hpage : ((BitVec.ofNat 32 ((index 1 va).toNat * 0x200000 + 0x87)).setWidth 64).toNat =
      2 ^ 21 * (index 1 va).toNat + 0x87 := by
    rw [BitVec.toNat_setWidth, BitVec.toNat_ofNat]
    omega
  have ht₂ : _ = entryAddr pml4 512 := hb.table_eq (j := 1) (by omega) (by omega) hf₁
  have ht₁ : _ = entryAddr pml4 1024 := hb.table_eq (j := 2) (by omega) (by omega) hf₂
  rw [← ht₂] at he₂
  rw [← ht₁] at he₁
  have hal := hb.aligned
  obtain ⟨pa, hpa, hnat⟩ := inLargePage_eq va hpage (by omega) (by omega)
  refine ⟨pa, ?_, ?_⟩
  · rw [← hpa]
    refine walk_large hc he₃ ?_ he₂ ?_ he₁ ?_
    · rw [large_iff, hf₁]
      omega
    · rw [large_iff, hf₂]
      omega
    · rw [large_iff, hpage]
      omega
  · rw [hnat, hidx]
    omega

/-- Every other address is unmapped. -/
theorem walk_unmapped (h : Blank pml4 m)
    (hidx : ¬ (((index 3 va).toNat = 0 ∨ (index 3 va).toNat = 256) ∧ (index 2 va).toNat = 0)) :
    walk (bootPageTables pml4 m) (pml4.setWidth 64) va = none := by
  have hb : Placed pml4 := h.toPlaced
  have he₃ := entry_top va h
  have he₂ := entry_second va h
  have ht₂ : _ = entryAddr pml4 512 := hb.table_eq (j := 1) (by omega) (by omega) hb.pdpt_toNat
  rw [← ht₂] at he₂
  by_cases h3 : (index 3 va).toNat = 0 ∨ (index 3 va).toNat = 256
  · rw [if_pos h3] at he₃
    rw [if_neg (fun h2 => hidx ⟨h3, h2⟩)] at he₂
    exact walk_none_second he₃ he₂
  · rw [if_neg h3] at he₃
    exact walk_none_top he₃

end

/-! ## Two mappings of one memory -/

theorem kernelViraddr_toNat : kernelViraddr.toNat = (2 ^ 17 - 1) * 2 ^ 47 := rfl

theorem phy2vir_toNat {a : BitVec 64} (h : a.toNat < 2 ^ 47) :
    (phy2vir a).toNat = (2 ^ 17 - 1) * 2 ^ 47 + a.toNat := by
  unfold phy2vir
  rw [BitVec.toNat_or, kernelViraddr_toNat, Nat.mul_comm, ← Nat.two_pow_add_eq_or_of_lt h]

/-- `VIR2PHY(PHY2VIR(a))`. -/
theorem vir2phy_phy2vir {a : BitVec 64} (h : a.toNat < 2 ^ 47) : vir2phy (phy2vir a) = a := by
  have hself := vir2phy_eq_self h
  unfold vir2phy at hself ⊢
  unfold phy2vir
  rw [BitVec.and_or_distrib_left, hself, BitVec.not_and_self]
  exact BitVec.zero_or

/-- **Two mappings, one memory.** Behind the boot code every physical address below 1 GB is
    the translation of itself and of its `PHY2VIR` address, which `VIR2PHY` takes back; no
    other canonical address is mapped. -/
theorem boot_two_mappings (pml4 : BitVec 32) (m : Mem) (h : Blank pml4 m) :
    (∀ a : BitVec 64, a.toNat < 2 ^ 30 →
      walk (bootPageTables pml4 m) (pml4.setWidth 64) a = some a ∧
        walk (bootPageTables pml4 m) (pml4.setWidth 64) (phy2vir a) = some a ∧
        vir2phy (phy2vir a) = a) ∧
      ∀ va : BitVec 64, Canonical va → ¬ va.toNat < 2 ^ 30 →
        ¬ (kernelViraddr.toNat ≤ va.toNat ∧ va.toNat < kernelViraddr.toNat + 2 ^ 30) →
        walk (bootPageTables pml4 m) (pml4.setWidth 64) va = none := by
  constructor
  · intro a ha
    have hvir := phy2vir_toNat (a := a) (by omega)
    obtain ⟨pa, hpa, hnat⟩ := walk_mapped a h (Or.inl (by omega))
      (Or.inl (by rw [index_toNat]; omega)) (by rw [index_toNat]; omega)
    obtain ⟨pa', hpa', hnat'⟩ := walk_mapped (phy2vir a) h (Or.inr (by omega))
      (Or.inr (by rw [index_toNat]; omega)) (by rw [index_toNat]; omega)
    have he : pa = a := BitVec.eq_of_toNat_eq (by omega)
    have he' : pa' = a := BitVec.eq_of_toNat_eq (by omega)
    rw [he] at hpa
    rw [he'] at hpa'
    exact ⟨hpa, hpa', vir2phy_phy2vir (by omega)⟩
  · intro va hc hlow hhigh
    apply walk_unmapped va h
    rw [kernelViraddr_toNat] at hhigh
    unfold Canonical at hc
    rw [index_toNat, index_toNat]
    omega

/-- The tables at 32 MB, where the kernel is linked. -/
theorem boot_two_mappings_linked :
    walk (bootPageTables 0x2000000#32 fun _ => 0#8) 0x2000000#64 (phy2vir 0x1234567#64) =
      some 0x1234567#64 := by
  have hblank : Blank 0x2000000#32 fun _ => 0#8 := ⟨⟨by decide, by decide⟩, fun _ _ => rfl⟩
  exact ((boot_two_mappings _ _ hblank).1 0x1234567#64 (by decide)).2.1

end HelloOS.Boot
