/-
  The console (`kernel/printk/printk.c`): `clear_screen` and `print`.

  The screen is 25 rows of 80 two-byte cells from `VGA_BASE` on, in memory. `print` is one
  step a character (`putChar`), in three parts: the wrap, the scroll and the store. A `char`
  is signed, so a byte from 0x80 on takes one from the attribute it is added to.

  `scroll_cells` and `store_cells` say what the parts do to the cells of the screen.
-/
import HelloOS.Kstring

namespace HelloOS.Printk

open HelloOS.Lib HelloOS.Kstring

/-- `MAX_ROW`. -/
def maxRow : ℕ := 25

/-- `MAX_COLUMN`. -/
def maxColumn : ℕ := 80

/-- `VGA_BASE`. -/
def vgaBase : BitVec 64 := 0xb8000#64

/-- Memory and the cursor. -/
structure Console where
  mem : Mem
  x : BitVec 32
  y : BitVec 32

/-! ## `clear_screen` -/

/-- The loop, for `n` cells from `p` on. -/
def clearCells (m : Mem) (p : BitVec 64) : ℕ → Mem
  | 0 => m
  | n + 1 => clearCells (m.write16 p 0#16) (p + 2#64) n

/-- `clear_screen`, which clears one cell more than the screen has. -/
def clearScreen (c : Console) : Console :=
  ⟨clearCells c.mem vgaBase (maxRow * maxColumn + 1), 0#32, 0#32⟩

/-! ## `print` -/

def newlineChar : BitVec 8 := 0x0a#8

def tabChar : BitVec 8 := 0x09#8

/-- `(uint16_t)(color << 8) + ch`. -/
def cellOf (color : BitVec 16) (ch : BitVec 8) : BitVec 16 := (color <<< 8) + ch.signExtend 16

/-- `VGA_BASE + cursor.y*MAX_COLUMN*2 + cursor.x*2`, in 32 bits. -/
def cellAddr (x y : BitVec 32) : BitVec 64 :=
  (vgaBase.setWidth 32 + y * 80#32 * 2#32 + x * 2#32).setWidth 64

/-- The `strncpy` and the `memset` of the scroll. -/
def scroll (m : Mem) : Mem :=
  let m := strncpy m vgaBase (vgaBase + 160#64) ((maxRow - 1) * maxColumn * 2)
  memset m (vgaBase + 3840#64) 0#8 160#64

namespace Console

variable (c : Console)

/-- `if (cursor.x >= MAX_COLUMN-1)`. -/
def wrap : Console := if 79#32 ≤ c.x then { c with x := 0#32, y := c.y + 1#32 } else c

/-- `if (cursor.y >= MAX_ROW)`. -/
def scrolled : Console := if 25#32 ≤ c.y then ⟨scroll c.mem, 0#32, 24#32⟩ else c

/-- The store, and `cursor.x++`. -/
def store (cell : BitVec 16) : Console :=
  { c with mem := c.mem.write16 (cellAddr c.x c.y) cell, x := c.x + 1#32 }

/-- One round of `print`. -/
def putChar (color : BitVec 16) (ch : BitVec 8) : Console :=
  if ch = newlineChar then { c with x := 0#32, y := c.y + 1#32 }
  else if ch = tabChar then { c with x := c.x + 4#32 }
  else c.wrap.scrolled.store (cellOf color ch)

end Console

/-- `print(color, buf)`, on the bytes of `buf` up to its NUL. -/
def print (color : BitVec 16) : List (BitVec 8) → Console → Console
  | [], c => c
  | ch :: buf, c => if ch = 0#8 then c else print color buf (c.putChar color ch)

/-! ## Cells -/

/-- The cell in row `r` and column `k` of the screen. -/
def cellAt (m : Mem) (r k : ℕ) : BitVec 16 := m.read16 (vgaBase + BitVec.ofNat 64 (160 * r + 2 * k))

/-- A cell lies where two bytes do. -/
theorem cellAt_congr {m m' : Mem} {r k r' k' : ℕ}
    (h : ∀ i < 2, m (vgaBase + BitVec.ofNat 64 (160 * r + 2 * k + i)) =
      m' (vgaBase + BitVec.ofNat 64 (160 * r' + 2 * k' + i))) :
    cellAt m r k = cellAt m' r' k' := by
  have hbyte : ∀ (o : ℕ), vgaBase + BitVec.ofNat 64 o + 1#64 = vgaBase + BitVec.ofNat 64 (o + 1) :=
    fun o => ofNat_add_ofNat vgaBase o 1
  unfold cellAt Mem.read16
  rw [hbyte, hbyte, h 1 (by decide)]
  exact congrArg _ (h 0 (by decide))

/-- Two bytes that are zero. -/
theorem cellAt_eq_zero {m : Mem} {r k : ℕ}
    (h : ∀ i < 2, m (vgaBase + BitVec.ofNat 64 (160 * r + 2 * k + i)) = 0#8) :
    cellAt m r k = 0#16 := by
  have hzero : cellAt m r k = cellAt (fun _ => 0#8) r k := cellAt_congr h
  rw [hzero]
  change (0#8 ++ 0#8 : BitVec (8 + 8)) = 0#16
  decide

theorem clearCells_eq_fill (m : Mem) (p : BitVec 64) {o n : ℕ} (h : o + 2 * n ≤ 2 ^ 64) :
    clearCells (m.fill p o fun _ => 0#8) (p + BitVec.ofNat 64 o) n =
      m.fill p (o + 2 * n) fun _ => 0#8 := by
  induction n generalizing o with
  | zero => rfl
  | succ n ih =>
      have hcell : (m.fill p o fun _ => 0#8).write16 (p + BitVec.ofNat 64 o) 0#16 =
          m.fill p (o + 2) fun _ => 0#8 :=
        m.fill_next p (by omega) fun i _ => by simp
      have hnext := ih (o := o + 2) (by omega)
      rw [show o + 2 + 2 * n = o + 2 * (n + 1) by omega] at hnext
      rw [clearCells, hcell, ← hnext]
      exact congrArg (fun q => clearCells _ q n) (ofNat_add_ofNat p o 2)

/-- The cleared screen. -/
theorem clearScreen_cells (c : Console) {r k : ℕ} (hr : r < maxRow) (hk : k < maxColumn) :
    cellAt (clearScreen c).mem r k = 0#16 := by
  have hfill := clearCells_eq_fill c.mem vgaBase (o := 0) (n := maxRow * maxColumn + 1) (by decide)
  rw [Mem.fill_zero, BitVec.add_zero] at hfill
  unfold maxRow at hr
  unfold maxColumn at hk
  have hlen : 0 + 2 * (maxRow * maxColumn + 1) = 4002 := by decide
  refine cellAt_eq_zero fun i hi => ?_
  have hoff : (BitVec.ofNat 64 (160 * r + 2 * k + i)).toNat < 4002 := by
    rw [toNat_ofNat_eq (by omega)]
    omega
  unfold clearScreen
  dsimp only
  rw [hfill, hlen]
  exact Mem.fill_add _ _ _ hoff

/-- The bytes of a scroll: all but the last 160 come from 160 bytes further on. -/
theorem scroll_bytes (m : Mem) {o : ℕ} (ho : o < 4000) :
    scroll m (vgaBase + BitVec.ofNat 64 o) =
      if o < 3840 then m (vgaBase + BitVec.ofNat 64 (160 + o)) else 0#8 := by
  have hoff : (BitVec.ofNat 64 o).toNat = o := by
    exact toNat_ofNat_eq (by omega)
  unfold scroll
  rw [memset_eq_fill, strncpy_eq_fill m vgaBase 160#64 (by decide)]
  split
  · next hlow =>
      have hout : vgaBase + BitVec.ofNat 64 o ∉ Region (vgaBase + 3840#64) (160#64).toNat :=
        Set.disjoint_left.mp (disjoint_offset vgaBase (k := 3840) (n := 160) (by decide)
          (by decide)) (Mem.mem_region_add.mpr (by omega))
      rw [Mem.fill_of_notMem _ _ _ hout, Mem.fill_add _ _ _ (by rw [hoff]; exact hlow), hoff,
        bytesFrom, BitVec.add_assoc, BitVec.ofNat_add]
  · next hhigh =>
      have hsplit : vgaBase + BitVec.ofNat 64 o =
          vgaBase + 3840#64 + BitVec.ofNat 64 (o - 3840) := by
        rw [BitVec.add_assoc, ← BitVec.ofNat_add, Nat.add_sub_cancel' (by omega)]
      rw [hsplit]
      refine Mem.fill_of_mem _ _ _ (Mem.mem_region_add.mpr ?_)
      rw [toNat_ofNat_eq (by omega)]
      change o - 3840 < 160
      omega

/-- A scroll moves the rows up by one and clears the last. -/
theorem scroll_cells (m : Mem) {r k : ℕ} (hr : r < maxRow) (hk : k < maxColumn) :
    cellAt (scroll m) r k = if r < 24 then cellAt m (r + 1) k else 0#16 := by
  unfold maxRow at hr
  unfold maxColumn at hk
  split
  · next hlow =>
      refine cellAt_congr fun i hi => ?_
      rw [scroll_bytes m (by omega), if_pos (by omega),
        show 160 + (160 * r + 2 * k + i) = 160 * (r + 1) + 2 * k + i by omega]
  · next hlast =>
      refine cellAt_eq_zero fun i hi => ?_
      rw [scroll_bytes m (by omega), if_neg (by omega)]

/-- A scroll writes to the rows of the screen only. -/
theorem scroll_agreeOn (m : Mem) {s : Set (BitVec 64)} (h : Disjoint (Region vgaBase 4000) s) :
    Mem.AgreeOn s (scroll m) m := by
  have hrows : Disjoint (Region vgaBase 3840) s := h.mono_left (region_mono vgaBase (by decide))
  have hlast : Disjoint (Region (vgaBase + 3840#64) (160#64).toNat) s :=
    h.mono_left (region_subset vgaBase (by decide))
  unfold scroll
  rw [strncpy_eq_fill m vgaBase 160#64 (by decide)]
  exact (memset_agreeOn _ _ _ _ hlast).trans (m.agreeOn_fill vgaBase _ hrows)

/-- Byte `b` of row `r`. -/
def rowByte (r b : ℕ) : BitVec 64 := vgaBase + BitVec.ofNat 64 (160 * r + b)

/-- **The scroll.** For every content of memory, the scrolling branch of `print` leaves every row
    but the last as the next row was, the last row zero, and every byte outside the 25 rows as
    it was. -/
theorem scrolled_rows (c : Console) (h : 25#32 ≤ c.y) :
    (∀ r < maxRow - 1, ∀ b < 160, c.scrolled.mem (rowByte r b) = c.mem (rowByte (r + 1) b)) ∧
      (∀ b < 160, c.scrolled.mem (rowByte (maxRow - 1) b) = 0#8) ∧
      ∀ a, a ∉ Region vgaBase (maxRow * 160) → c.scrolled.mem a = c.mem a := by
  have hmem : c.scrolled.mem = scroll c.mem := by
    unfold Console.scrolled
    rw [if_pos h]
  rw [hmem]
  unfold maxRow rowByte
  refine ⟨fun r hr b hb => ?_, fun b hb => ?_, fun a ha => ?_⟩
  · rw [scroll_bytes c.mem (by omega), if_pos (by omega),
      show 160 + (160 * r + b) = 160 * (r + 1) + b by omega]
  · rw [scroll_bytes c.mem (by omega), if_neg (by omega)]
  · exact scroll_agreeOn c.mem (Set.disjoint_singleton_right.mpr ha) a rfl

theorem scrolled_rows_pattern :
    (∀ r < maxRow - 1, ∀ b < 160,
        (Console.scrolled ⟨fun a => a.setWidth 8, 3#32, 25#32⟩).mem (rowByte r b) =
          (rowByte (r + 1) b).setWidth 8) ∧
      (∀ b < 160,
        (Console.scrolled ⟨fun a => a.setWidth 8, 3#32, 25#32⟩).mem (rowByte (maxRow - 1) b) =
          0#8) ∧
      ∀ a, a ∉ Region vgaBase (maxRow * 160) →
        (Console.scrolled ⟨fun a => a.setWidth 8, 3#32, 25#32⟩).mem a = a.setWidth 8 :=
  scrolled_rows ⟨fun a => a.setWidth 8, 3#32, 25#32⟩ (by decide)

/-- Where a cell of the screen lies. -/
theorem cellAddr_eq {x y : BitVec 32} (hx : x.toNat < 80) (hy : y.toNat < 25) :
    cellAddr x y = vgaBase + BitVec.ofNat 64 (160 * y.toNat + 2 * x.toNat) := by
  have hrow : (y * 80#32 * 2#32).toNat = 160 * y.toNat := by
    rw [BitVec.toNat_mul, BitVec.toNat_mul]
    change y.toNat * 80 % 2 ^ 32 * 2 % 2 ^ 32 = _
    omega
  have hcol : (x * 2#32).toNat = 2 * x.toNat := by
    rw [BitVec.toNat_mul]
    change x.toNat * 2 % 2 ^ 32 = _
    omega
  have hoff : (BitVec.ofNat 64 (160 * y.toNat + 2 * x.toNat)).toNat =
      160 * y.toNat + 2 * x.toNat := by
    exact toNat_ofNat_eq (by omega)
  apply BitVec.eq_of_toNat_eq
  rw [cellAddr, BitVec.toNat_setWidth, BitVec.toNat_add, BitVec.toNat_add, hrow, hcol,
    BitVec.toNat_add, hoff]
  change ((0xb8000 + _) % 2 ^ 32 + _) % 2 ^ 32 % 2 ^ 64 = (0xb8000 + _) % 2 ^ 64
  omega

/-- A store on the screen changes its own cell only. -/
theorem store_cells (c : Console) (cell : BitVec 16) (hx : c.x.toNat < 80) (hy : c.y.toNat < 25)
    {r k : ℕ} (hr : r < maxRow) (hk : k < maxColumn) :
    cellAt (c.store cell).mem r k =
      if r = c.y.toNat ∧ k = c.x.toNat then cell else cellAt c.mem r k := by
  unfold maxRow at hr
  unfold maxColumn at hk
  have hoff : ∀ a b : ℕ, a < 25 → b < 80 →
      (BitVec.ofNat 64 (160 * a + 2 * b)).toNat = 160 * a + 2 * b := fun a b ha hb => by
    exact toNat_ofNat_eq (by omega)
  have ho := hoff c.y.toNat c.x.toNat hy hx
  have ho' := hoff r k hr hk
  unfold Console.store
  rw [cellAddr_eq hx hy]
  split
  · next hsame =>
      obtain ⟨rfl, rfl⟩ := hsame
      exact Mem.read16_write16_self _ _ _
  · next hother =>
      refine (Mem.agreeOn_write16 _ _ _ ?_).read16
      by_cases hlt : 160 * c.y.toNat + 2 * c.x.toNat < 160 * r + 2 * k
      · exact disjoint_offsets vgaBase (by omega) (by omega)
      · exact (disjoint_offsets vgaBase (by omega) (by omega)).symm

end HelloOS.Printk
