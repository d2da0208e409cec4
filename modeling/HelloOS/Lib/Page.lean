/-
  An unbounded page of cells, and a screen that shows some of its rows.

  Text is laid out on a `Page` without a last row. `Window` says that a screen of `h` rows and
  `w` columns shows the page from row `top` on, and that the page is blank below the screen.
  It is kept by a write to a cell that the screen shows (`Window.set`), and by a scroll, which
  moves it down by one row (`Window.scroll`).
-/
import Mathlib.Data.Nat.Notation

namespace HelloOS.Lib

/-- Cells by row and column, and where the next one goes. -/
structure Page (α : Type*) where
  cell : ℕ → ℕ → α
  row : ℕ
  col : ℕ

namespace Page

variable {α : Type*} (p : Page α)

/-- A page of `b`s, at its start. -/
def empty (b : α) : Page α := ⟨fun _ _ => b, 0, 0⟩

/-- Column 0 of the next row. -/
def newline : Page α := { p with row := p.row + 1, col := 0 }

/-- `n` columns on. -/
def tab (n : ℕ) : Page α := { p with col := p.col + n }

/-- To the next row, from the column `limit` on. -/
def wrap (limit : ℕ) : Page α := if limit ≤ p.col then p.newline else p

/-- `v` into the next cell. -/
def set (v : α) : Page α where
  cell r k := if r = p.row ∧ k = p.col then v else p.cell r k
  row := p.row
  col := p.col + 1

theorem set_self (v : α) : (p.set v).cell p.row p.col = v := if_pos ⟨rfl, rfl⟩

theorem set_of_ne (v : α) {r k : ℕ} (h : ¬ (r = p.row ∧ k = p.col)) :
    (p.set v).cell r k = p.cell r k := if_neg h

end Page

/-- The screen shows `cell` from row `top` on, and below it all is `b`. -/
structure Window {α : Type*} (h w : ℕ) (b : α) (screen cell : ℕ → ℕ → α) (top : ℕ) : Prop where
  shown : ∀ r < h, ∀ k < w, screen r k = cell (top + r) k
  below : ∀ r k, top + h ≤ r → cell r k = b

namespace Window

variable {α : Type*} {h w : ℕ} {b : α} {screen screen' cell : ℕ → ℕ → α} {top : ℕ}

/-- A screen and a page of `b`s. -/
theorem blank (hs : ∀ r < h, ∀ k < w, screen r k = b) :
    Window h w b screen (Page.empty b).cell 0 :=
  ⟨hs, fun _ _ _ => rfl⟩

/-- The same cell is written on the screen and on the page. -/
theorem set {p : Page α} (hw : Window h w b screen p.cell top) {r : ℕ} (v : α)
    (hr : r < h) (hrow : p.row = top + r) (hself : screen' r p.col = v)
    (hother : ∀ r' < h, ∀ k < w, ¬ (r' = r ∧ k = p.col) → screen' r' k = screen r' k) :
    Window h w b screen' (p.set v).cell top := by
  constructor
  · intro r' hr' k hk
    by_cases hsame : r' = r ∧ k = p.col
    · obtain ⟨rfl, rfl⟩ := hsame
      rw [hself, ← hrow, p.set_self]
    · rw [hother r' hr' k hk hsame, hw.shown r' hr' k hk, p.set_of_ne v (by omega)]
  · intro r' k hr'
    rw [p.set_of_ne v (by omega)]
    exact hw.below r' k hr'

/-- The rows move up by one, and the last one becomes blank. -/
theorem scroll (hw : Window (h + 1) w b screen cell top)
    (hup : ∀ r < h, ∀ k < w, screen' r k = screen (r + 1) k)
    (hlast : ∀ k < w, screen' h k = b) : Window (h + 1) w b screen' cell (top + 1) := by
  constructor
  · intro r hr k hk
    by_cases hlow : r < h
    · rw [hup r hlow k hk, hw.shown (r + 1) (by omega) k hk, Nat.add_right_comm, Nat.add_assoc]
    · obtain rfl : r = h := by omega
      rw [hlast k hk, hw.below (top + 1 + r) k (by omega)]
  · exact fun r k hr => hw.below r k (by omega)

end Window

end HelloOS.Lib
