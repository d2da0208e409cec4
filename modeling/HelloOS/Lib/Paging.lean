/-
  The 4-level page walk of x86-64. A table is 512 entries of 8 bytes in physical memory; the
  address in bits 47 to 12 selects one entry at each level. An entry is present if bit 0 is
  set; bit 7 makes it a page of 1 GB or 2 MB at the two middle levels. What cannot be
  translated is `none`: addresses that are not canonical, entries that are not present and
  entries with a reserved bit set.
-/
import HelloOS.Lib.Memory

namespace HelloOS.Lib.Paging

/-- Bits 63 to 47 are equal. -/
def Canonical (va : BitVec 64) : Prop := va.toNat / 2 ^ 47 = 0 ∨ va.toNat / 2 ^ 47 = 2 ^ 17 - 1

instance (va : BitVec 64) : Decidable (Canonical va) := by
  unfold Canonical
  infer_instance

/-- The index into the table at `level`; 3 is the top. -/
def index (level : ℕ) (va : BitVec 64) : BitVec 9 := va.extractLsb' (12 + 9 * level) 9

def present (e : BitVec 64) : Bool := e.getLsbD 0

/-- `PS`: the entry maps a page, not a table. -/
def large (e : BitVec 64) : Bool := e.getLsbD 7

/-- The table an entry points at: bits 51 to 12. -/
def table (e : BitVec 64) : BitVec 64 := (e.extractLsb' 12 40).setWidth 64 <<< 12

/-- The entry for `va` in the table at `t`, if it is present. -/
def entry (m : Mem) (t : BitVec 64) (level : ℕ) (va : BitVec 64) : Option (BitVec 64) :=
  let e := m.read64 (t + 8#64 * (index level va).setWidth 64)
  if present e then some e else none

/-- The address in a page of `2 ^ k` bytes. -/
def inPage (k : ℕ) (e va : BitVec 64) : BitVec 64 :=
  (e.extractLsb' k (52 - k) ++ va.extractLsb' 0 k).setWidth 64

/-- A large page; bits 13 to `k - 1` are reserved. -/
def inLargePage (k : ℕ) (e va : BitVec 64) : Option (BitVec 64) :=
  if e.extractLsb' 13 (k - 13) = 0 then some (inPage k e va) else none

/-- The translation of `va` by the tables at `cr3`. -/
def walk (m : Mem) (cr3 va : BitVec 64) : Option (BitVec 64) :=
  if Canonical va then
    (entry m (table cr3) 3 va).bind fun e₃ =>
      if large e₃ then none
      else (entry m (table e₃) 2 va).bind fun e₂ =>
        if large e₂ then inLargePage 30 e₂ va
        else (entry m (table e₂) 1 va).bind fun e₁ =>
          if large e₁ then inLargePage 21 e₁ va
          else (entry m (table e₁) 0 va).bind fun e₀ => some (inPage 12 e₀ va)
  else none

/-! ## Entries as numbers -/

theorem index_toNat (level : ℕ) (va : BitVec 64) :
    (index level va).toNat = va.toNat / 2 ^ (12 + 9 * level) % 512 := by
  unfold index
  rw [BitVec.extractLsb'_toNat, Nat.shiftRight_eq_div_pow]

theorem present_iff (e : BitVec 64) : present e = true ↔ e.toNat % 2 = 1 := by
  unfold present
  rw [← BitVec.testBit_toNat, Nat.testBit_eq_decide_div_mod_eq, decide_eq_true_iff]
  omega

theorem large_iff (e : BitVec 64) : large e = true ↔ e.toNat / 2 ^ 7 % 2 = 1 := by
  unfold large
  rw [← BitVec.testBit_toNat, Nat.testBit_eq_decide_div_mod_eq, decide_eq_true_iff]

/-- An entry made of an aligned address and flags below bit 12. -/
theorem table_toNat {e : BitVec 64} {a f : ℕ} (he : e.toNat = 4096 * a + f) (hf : f < 4096)
    (ha : a < 2 ^ 40) : (table e).toNat = 4096 * a := by
  have hbits : (e.extractLsb' 12 40).toNat = a := by
    rw [BitVec.extractLsb'_toNat, Nat.shiftRight_eq_div_pow, he]
    omega
  unfold table
  rw [BitVec.toNat_shiftLeft, BitVec.toNat_setWidth, hbits, Nat.shiftLeft_eq]
  omega

/-- An entry that maps the page with number `n` of `2 ^ 21` bytes, with flags below bit 13. -/
theorem inLargePage_eq (va : BitVec 64) {e : BitVec 64} {n f : ℕ} (he : e.toNat = 2 ^ 21 * n + f)
    (hf : f < 2 ^ 13) (hn : n < 2 ^ 31) :
    ∃ pa, inLargePage 21 e va = some pa ∧ pa.toNat = 2 ^ 21 * n + va.toNat % 2 ^ 21 := by
  have hreserved : e.extractLsb' 13 (21 - 13) = 0 := by
    apply BitVec.eq_of_toNat_eq
    rw [BitVec.extractLsb'_toNat, Nat.shiftRight_eq_div_pow, he]
    change _ = 0
    omega
  have hhigh : (e.extractLsb' 21 (52 - 21)).toNat = n := by
    rw [BitVec.extractLsb'_toNat, Nat.shiftRight_eq_div_pow, he]
    omega
  have hlow : (va.extractLsb' 0 21).toNat = va.toNat % 2 ^ 21 := by
    rw [BitVec.extractLsb'_toNat, Nat.shiftRight_zero]
  refine ⟨inPage 21 e va, ?_, ?_⟩
  · unfold inLargePage
    rw [if_pos hreserved]
  · have hor : n * 2 ^ 21 ||| va.toNat % 2 ^ 21 = n * 2 ^ 21 + va.toNat % 2 ^ 21 := by
      have := Nat.two_pow_add_eq_or_of_lt (i := 21) (b := va.toNat % 2 ^ 21) (by omega) n
      rw [Nat.mul_comm n, this]
    unfold inPage
    rw [BitVec.toNat_setWidth, BitVec.toNat_append, hhigh, hlow, Nat.shiftLeft_eq, hor]
    omega

/-! ## Walks -/

variable {m : Mem} {cr3 va e₃ e₂ e₁ : BitVec 64}

theorem entry_some {t e : BitVec 64} {level : ℕ}
    (h : m.read64 (t + 8#64 * (index level va).setWidth 64) = e) (hp : e.toNat % 2 = 1) :
    entry m t level va = some e := by
  unfold entry
  dsimp only
  rw [h, if_pos ((present_iff e).mpr hp)]

theorem entry_none {t : BitVec 64} {level : ℕ}
    (h : m.read64 (t + 8#64 * (index level va).setWidth 64) = 0#64) :
    entry m t level va = none := by
  unfold entry
  dsimp only
  rw [h]
  rfl

/-- A walk that ends in a page of 2 MB. -/
theorem walk_large (hc : Canonical va) (h₃ : entry m (table cr3) 3 va = some e₃)
    (hl₃ : ¬ large e₃ = true) (h₂ : entry m (table e₃) 2 va = some e₂) (hl₂ : ¬ large e₂ = true)
    (h₁ : entry m (table e₂) 1 va = some e₁) (hl₁ : large e₁ = true) :
    walk m cr3 va = inLargePage 21 e₁ va := by
  unfold walk
  rw [if_pos hc, h₃, Option.bind_some, if_neg hl₃, h₂, Option.bind_some, if_neg hl₂, h₁,
    Option.bind_some, if_pos hl₁]

theorem walk_none_top (h₃ : entry m (table cr3) 3 va = none) : walk m cr3 va = none := by
  unfold walk
  rw [h₃, Option.bind_none]
  split <;> rfl

theorem walk_none_second (h₃ : entry m (table cr3) 3 va = some e₃)
    (h₂ : entry m (table e₃) 2 va = none) : walk m cr3 va = none := by
  unfold walk
  rw [h₃, Option.bind_some, h₂, Option.bind_none]
  split
  · split <;> rfl
  · rfl

end HelloOS.Lib.Paging
