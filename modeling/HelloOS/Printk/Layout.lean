/-
  The screen as a window on an unbounded layout.

  The layout puts characters on a `Page` by the rules of `print` without a last row. The
  screen follows it (`Follows`) as long as each step is `StepOk`: bytes are below 0x80, and a
  scroll happens with the cursor at the start of row 25. It is there that `print` goes wrong
  otherwise: it scrolls by one row, and to column 0, wherever the cursor is.

  `follows_putChar` is the step, `shows_of_steps` the run.
-/
import HelloOS.Lib.Page
import HelloOS.Printk.Console

namespace HelloOS.Printk

open HelloOS.Lib

/-! ## The layout -/

/-- A character behind the colour of the `print` call it belongs to. -/
abbrev Colored := BitVec 8 × BitVec 8

/-- The characters of some `print` calls, each up to its NUL. -/
def characters (calls : List (BitVec 8 × List (BitVec 8))) : List Colored :=
  calls.flatMap fun call => (call.2.takeWhile (· ≠ 0#8)).map fun ch => (call.1, ch)

/-- One character on the layout. -/
def layoutChar (p : Page (BitVec 16)) (s : Colored) : Page (BitVec 16) :=
  if s.2 = newlineChar then p.newline
  else if s.2 = tabChar then p.tab 4
  else (p.wrap 79).set (s.1 ++ s.2)

/-- The layout of some characters on an empty page. -/
def layout (cs : List Colored) : Page (BitVec 16) := cs.foldl layoutChar (Page.empty 0#16)

/-- One character on the console. -/
def Console.printed (c : Console) (s : Colored) : Console := c.putChar (s.1.setWidth 16) s.2

/-- The console behind some characters. -/
def Console.run (c : Console) (cs : List Colored) : Console := cs.foldl Console.printed c

/-- The screen shows the last 25 rows of the layout, or the first 25 if it has no more. -/
def Shows (c : Console) (p : Page (BitVec 16)) : Prop :=
  ∀ r < maxRow, ∀ k < maxColumn, cellAt c.mem r k = p.cell (p.row + 1 - maxRow + r) k

/-- `print` is its characters, one by one. -/
theorem print_eq_run (color : BitVec 8) (buf : List (BitVec 8)) (c : Console) :
    print (color.setWidth 16) buf c =
      c.run ((buf.takeWhile (· ≠ 0#8)).map fun ch => (color, ch)) := by
  induction buf generalizing c with
  | nil => rfl
  | cons ch buf ih =>
      rw [print]
      by_cases h : ch = 0#8
      · rw [if_pos h, List.takeWhile_cons_of_neg (by simpa using h)]
        rfl
      · rw [if_neg h, ih, List.takeWhile_cons_of_pos (by simpa using h)]
        rfl

/-- A sequence of `print` calls. -/
theorem prints_eq_run (calls : List (BitVec 8 × List (BitVec 8))) (c : Console) :
    calls.foldl (fun c call => print (call.1.setWidth 16) call.2 c) c =
      c.run (characters calls) := by
  induction calls generalizing c with
  | nil => rfl
  | cons call calls ih =>
      rw [List.foldl_cons, ih, print_eq_run]
      exact (List.foldl_append ..).symm

/-! ## The condition -/

/-- The step `s` from `c` is one that `print` gets right: the cursor does not overflow, the
    byte is below 0x80, and if the screen scrolls, the cursor is at the start of row 25. -/
def StepOk (c : Console) (s : Colored) : Prop :=
  if s.2 = newlineChar then c.y.toNat + 1 < 2 ^ 32
  else if s.2 = tabChar then c.x.toNat + 4 < 2 ^ 32
  else s.2 < 0x80#8 ∧ (79#32 ≤ c.x → c.y.toNat + 1 < 2 ^ 32) ∧
    (25#32 ≤ c.wrap.y → c.wrap.x = 0#32 ∧ c.wrap.y = 25#32)

/-- All steps of a run are. -/
def StepsOk : Console → List Colored → Prop
  | _, [] => True
  | c, s :: cs => StepOk c s ∧ StepsOk (c.printed s) cs

/-! ## The invariant -/

/-- The screen shows the layout from row `top` on, the cursor is where the layout's next
    character goes, and if rows have been scrolled out, in row 24 or below. -/
structure Follows (c : Console) (p : Page (BitVec 16)) (top : ℕ) : Prop where
  window : Window maxRow maxColumn 0#16 (cellAt c.mem) p.cell top
  row : p.row = top + c.y.toNat
  col : p.col = c.x.toNat
  full : 0 < top → 24 ≤ c.y.toNat

variable {c : Console} {p : Page (BitVec 16)} {top : ℕ}

theorem follows_clearScreen (c : Console) : Follows (clearScreen c) (layout []) 0 where
  window := Window.blank fun _ hr _ hk => clearScreen_cells c hr hk
  row := rfl
  col := rfl
  full h := absurd h (lt_irrefl 0)

theorem Follows.newline (h : Follows c p top) (hy : c.y.toNat + 1 < 2 ^ 32) :
    Follows { c with x := 0#32, y := c.y + 1#32 } p.newline top := by
  have hnext : (c.y + 1#32).toNat = c.y.toNat + 1 := by
    rw [BitVec.toNat_add]
    exact Nat.mod_eq_of_lt hy
  refine ⟨h.window, ?_, rfl, fun htop => ?_⟩
  · change p.row + 1 = top + (c.y + 1#32).toNat
    rw [hnext, h.row, Nat.add_assoc]
  · have := h.full htop
    change 24 ≤ (c.y + 1#32).toNat
    omega

theorem Follows.tab (h : Follows c p top) (hx : c.x.toNat + 4 < 2 ^ 32) :
    Follows { c with x := c.x + 4#32 } (p.tab 4) top := by
  refine ⟨h.window, h.row, ?_, h.full⟩
  change p.col + 4 = (c.x + 4#32).toNat
  rw [BitVec.toNat_add, h.col]
  exact (Nat.mod_eq_of_lt hx).symm

theorem Follows.wrap (h : Follows c p top) (hy : 79#32 ≤ c.x → c.y.toNat + 1 < 2 ^ 32) :
    Follows c.wrap (p.wrap 79) top := by
  have hiff : 79 ≤ p.col ↔ 79#32 ≤ c.x := by
    rw [h.col]
    exact Iff.rfl
  unfold Console.wrap Page.wrap
  by_cases hx : 79#32 ≤ c.x
  · rw [if_pos hx, if_pos (hiff.mpr hx)]
    exact h.newline (hy hx)
  · rw [if_neg hx, if_neg (mt hiff.mp hx)]
    exact h

/-- A scroll from the start of row 25 moves the window down by one row. -/
theorem Follows.scrolled (h : Follows c p top) (hok : 25#32 ≤ c.y → c.x = 0#32 ∧ c.y = 25#32) :
    ∃ top', Follows c.scrolled p top' ∧ c.scrolled.y.toNat < maxRow := by
  unfold Console.scrolled
  by_cases hy : 25#32 ≤ c.y
  · obtain ⟨hx, hy'⟩ := hok hy
    rw [if_pos hy]
    refine ⟨top + 1, ⟨?_, ?_, ?_, fun _ => le_refl 24⟩, show 24 < 25 by decide⟩
    · refine Window.scroll (h := 24) h.window (fun r hr k hk => ?_) fun k hk => ?_
      · exact (scroll_cells c.mem (Nat.lt_succ_of_lt hr) hk).trans (if_pos hr)
      · exact (scroll_cells c.mem (by decide) hk).trans (if_neg (lt_irrefl 24))
    · rw [h.row, hy']
      change top + 25 = top + 1 + 24
      omega
    · rw [h.col, hx]
  · rw [if_neg hy]
    exact ⟨top, h, Nat.lt_of_not_le hy⟩

/-- The store, with the cursor on the screen. -/
theorem Follows.store (h : Follows c p top) (hx : c.x.toNat < 79) (hy : c.y.toNat < maxRow)
    (cell : BitVec 16) : Follows (c.store cell) (p.set cell) top := by
  have hcells : ∀ {r k : ℕ}, r < maxRow → k < maxColumn → cellAt (c.store cell).mem r k =
      if r = c.y.toNat ∧ k = c.x.toNat then cell else cellAt c.mem r k :=
    fun hr hk => store_cells c cell (Nat.lt_succ_of_lt hx) hy hr hk
  refine ⟨h.window.set cell hy h.row ?_ fun r hr k hk hne => ?_, h.row, ?_, h.full⟩
  · rw [h.col]
    exact (hcells hy (Nat.lt_succ_of_lt hx)).trans (if_pos ⟨rfl, rfl⟩)
  · rw [h.col] at hne
    exact (hcells hr hk).trans (if_neg hne)
  · change p.col + 1 = (c.x + 1#32).toNat
    rw [BitVec.toNat_add, h.col]
    change _ = (c.x.toNat + 1) % 2 ^ 32
    omega

/-- Behind the wrap and the scroll the cursor is left of the last column. -/
theorem wrap_scrolled_x (c : Console) : c.wrap.scrolled.x.toNat < 79 := by
  unfold Console.scrolled
  split
  · exact show 0 < 79 by decide
  · unfold Console.wrap
    split
    · exact show 0 < 79 by decide
    · next h => exact Nat.lt_of_not_le h

/-- The cell of a byte below 0x80. -/
theorem cellOf_eq (color : BitVec 8) {ch : BitVec 8} (h : ch < 0x80#8) :
    cellOf (color.setWidth 16) ch = color ++ ch := by
  have hch : ch.toNat < 128 := h
  have hsign : (ch.signExtend 16).toNat = ch.toNat := by
    rw [BitVec.signExtend_eq_setWidth_of_msb_false (by
      rw [BitVec.msb_eq_decide]
      exact decide_eq_false (by omega)), BitVec.toNat_setWidth]
    omega
  have hcolor := color.isLt
  apply BitVec.eq_of_toNat_eq
  rw [cellOf, BitVec.toNat_add, hsign, BitVec.toNat_shiftLeft, BitVec.toNat_setWidth,
    BitVec.toNat_append, Nat.shiftLeft_eq, ← Nat.shiftLeft_add_eq_or_of_lt ch.isLt,
    Nat.shiftLeft_eq]
  omega

/-- A character that `print` gets right is laid out as on the page. -/
theorem follows_putChar (h : Follows c p top) {s : Colored} (hok : StepOk c s) :
    ∃ top', Follows (c.printed s) (layoutChar p s) top' ∧
      (s.2 ≠ newlineChar → s.2 ≠ tabChar → (c.printed s).y.toNat < maxRow) := by
  unfold StepOk at hok
  unfold Console.printed Console.putChar layoutChar
  by_cases hnl : s.2 = newlineChar
  · rw [if_pos hnl] at hok
    rw [if_pos hnl, if_pos hnl]
    exact ⟨top, h.newline hok, fun hne => absurd hnl hne⟩
  · rw [if_neg hnl] at hok
    rw [if_neg hnl, if_neg hnl]
    by_cases htab : s.2 = tabChar
    · rw [if_pos htab] at hok
      rw [if_pos htab, if_pos htab]
      exact ⟨top, h.tab hok, fun _ hne => absurd htab hne⟩
    · rw [if_neg htab] at hok
      rw [if_neg htab, if_neg htab]
      obtain ⟨hbyte, hy, hscroll⟩ := hok
      obtain ⟨top', hfollows, hrow⟩ := (h.wrap hy).scrolled hscroll
      rw [cellOf_eq s.1 hbyte]
      exact ⟨top', hfollows.store (wrap_scrolled_x c) hrow _, fun _ _ => hrow⟩

/-- Behind a character on the screen, it shows the end of the layout. -/
theorem Follows.shows (h : Follows c p top) (hy : c.y.toNat < maxRow) : Shows c p := by
  have htop : p.row + 1 - maxRow = top := by
    have hrow := h.row
    unfold maxRow at hy ⊢
    by_cases hzero : top = 0
    · omega
    · have := h.full (Nat.pos_of_ne_zero hzero)
      omega
  intro r hr k hk
  rw [htop]
  exact h.window.shown r hr k hk

/-! ## Runs -/

theorem stepsOk_append (c : Console) (cs : List Colored) (s : Colored) :
    StepsOk c (cs ++ [s]) ↔ StepsOk c cs ∧ StepOk (c.run cs) s := by
  induction cs generalizing c with
  | nil => exact and_comm
  | cons s' cs ih =>
      change StepOk c s' ∧ StepsOk (c.printed s') (cs ++ [s]) ↔ _
      rw [ih, ← and_assoc]
      rfl

theorem follows_run {cs : List Colored} (h : Follows c p top) (hok : StepsOk c cs) :
    ∃ top', Follows (c.run cs) (cs.foldl layoutChar p) top' := by
  induction cs generalizing c p top with
  | nil => exact ⟨top, h⟩
  | cons s cs ih =>
      obtain ⟨top', hstep, -⟩ := follows_putChar h hok.1
      exact ih hstep hok.2

/-- Behind a character on the screen. -/
theorem shows_of_steps {c₀ : Console} {cs : List Colored} {n : ℕ} {s : Colored}
    (hs : cs[n]? = some s) (hnl : s.2 ≠ newlineChar) (htab : s.2 ≠ tabChar)
    (hok : StepsOk (clearScreen c₀) (cs.take (n + 1))) :
    Shows ((clearScreen c₀).run (cs.take (n + 1))) (layout (cs.take (n + 1))) := by
  have htake : cs.take (n + 1) = cs.take n ++ [s] := by
    rw [List.take_add_one, hs]
    rfl
  rw [htake] at hok ⊢
  obtain ⟨hbefore, hlast⟩ := (stepsOk_append _ _ _).mp hok
  obtain ⟨top, hrun⟩ := follows_run (follows_clearScreen c₀) hbefore
  obtain ⟨top', hstep, hrow⟩ := follows_putChar hrun hlast
  rw [Console.run, layout, List.foldl_append, List.foldl_append]
  exact hstep.shows (hrow hnl htab)

end HelloOS.Printk
