/-
  What is on the screen when the kernel prints.

  `print` loses rows where the cursor gets below row 25, or to its right, before the next character
  scrolls. Texts without tabs and blank lines never take it there (`Ready`): of any calls whose text
  is of this kind the screen shows the end, behind every character (`prints_shown`).
-/
import HelloOS.Printk.OnScreen
import HelloOS.Printk.Text
import Mathlib.Data.List.Chain
import Mathlib.Data.List.TakeWhile

namespace HelloOS.Printk

open HelloOS.Lib

/-! ## Texts -/

/-- Bytes below 0x80, no tabs, and no two newlines in a row. -/
structure Tidy (t : List (BitVec 8)) : Prop where
  ascii : ∀ ch ∈ t, ch < 0x80#8
  tabs : tabChar ∉ t
  lines : t.IsChain fun a b => ¬ (a = newlineChar ∧ b = newlineChar)

instance (t : List (BitVec 8)) : Decidable (Tidy t) :=
  letI := List.decidableBAll (fun ch : BitVec 8 => ch < 0x80#8 ∧ ch ≠ tabChar) t
  decidable_of_iff ((∀ ch ∈ t, ch < 0x80#8 ∧ ch ≠ tabChar) ∧
      t.IsChain fun a b => ¬ (a = newlineChar ∧ b = newlineChar))
    ⟨fun h => ⟨fun ch hch => (h.1 ch hch).1, fun hmem => (h.1 tabChar hmem).2 rfl, h.2⟩,
      fun h => ⟨fun ch hch => ⟨h.ascii ch hch, fun he => h.tabs (he ▸ hch)⟩, h.lines⟩⟩

theorem Tidy.append {t u : List (BitVec 8)} (ht : Tidy t) (hu : Tidy u)
    (hhead : u.head? ≠ some newlineChar) : Tidy (t ++ u) := by
  refine ⟨fun ch hch => ?_, fun h => ?_, ht.lines.append hu.lines fun a _ b hb h => ?_⟩
  · exact (List.mem_append.mp hch).elim (ht.ascii ch) (hu.ascii ch)
  · exact (List.mem_append.mp h).elim ht.tabs hu.tabs
  · rw [Option.mem_def.mp hb, h.2] at hhead
    exact hhead rfl

/-! ## Calls -/

/-- A call of `print`. -/
structure Call where
  color : BitVec 16
  buf : List (BitVec 8)

/-- The text of a buffer ends in front of the first NUL. -/
def Call.text (q : Call) : List (BitVec 8) := q.buf.takeWhile (· ≠ 0#8)

/-- What a call does to the console. -/
def Console.call (c : Console) (q : Call) : Console := print q.color q.buf c

/-- The text of some calls. -/
def textsOf (qs : List Call) : List (BitVec 8) := qs.flatMap Call.text

/-- The characters of some calls, behind their colours. -/
def colored (qs : List Call) : List Colored :=
  qs.flatMap fun q => q.text.map fun ch => (q.color.setWidth 8, ch)

/-- `_printf` prints what the formatter has made of its arguments. -/
def Print.call (p : Print) : Call := ⟨p.color, p.text⟩

theorem textsOf_append (qs rs : List Call) : textsOf (qs ++ rs) = textsOf qs ++ textsOf rs :=
  List.flatMap_append

theorem colored_text (qs : List Call) : (colored qs).map Prod.snd = textsOf qs := by
  unfold colored textsOf
  rw [List.map_flatMap]
  refine List.flatMap_congr fun q _ => ?_
  rw [List.map_map]
  exact List.map_id q.text

theorem Print.text_call (p : Print) : p.call.text = p.text := by
  unfold Call.text Print.call Print.text
  cases Format.vsprintf Format.loopFuel ⟨fun k => p.args.getD k 0#64, fun _ => 0#8⟩
    (p.fmt.toList.map Format.chr ++ [0#8]) with
  | none => rfl
  | some s => exact List.takeWhile_idem

theorem textsOf_prints (ps : List Print) : textsOf (ps.map Print.call) = textOf ps := by
  unfold textsOf textOf
  rw [List.flatMap_map]
  exact List.flatMap_congr fun p _ => p.text_call

/-- Of a colour the low byte counts. -/
theorem cellOf_color (color : BitVec 16) (ch : BitVec 8) :
    cellOf color ch = cellOf ((color.setWidth 8).setWidth 16) ch := by
  have hshift : color <<< 8 = ((color.setWidth 8).setWidth 16) <<< 8 := by
    apply BitVec.eq_of_toNat_eq
    rw [BitVec.toNat_shiftLeft, BitVec.toNat_shiftLeft, BitVec.toNat_setWidth,
      BitVec.toNat_setWidth, Nat.shiftLeft_eq, Nat.shiftLeft_eq]
    omega
  unfold cellOf
  rw [hshift]

theorem putChar_color (c : Console) (color : BitVec 16) (ch : BitVec 8) :
    c.putChar color ch = c.putChar ((color.setWidth 8).setWidth 16) ch := by
  unfold Console.putChar
  rw [cellOf_color]

theorem print_color (color : BitVec 16) (buf : List (BitVec 8)) (c : Console) :
    print color buf c = print ((color.setWidth 8).setWidth 16) buf c := by
  induction buf generalizing c with
  | nil => rfl
  | cons ch buf ih => rw [print, print, ih, putChar_color]

theorem call_eq_run (c : Console) (q : Call) :
    c.call q = c.run (q.text.map fun ch => (q.color.setWidth 8, ch)) := by
  unfold Console.call
  rw [print_color, print_eq_run]
  rfl

/-- Calls are printed character by character. -/
theorem calls_eq_run (qs : List Call) (c : Console) :
    qs.foldl Console.call c = c.run (colored qs) := by
  induction qs generalizing c with
  | nil => rfl
  | cons q qs ih =>
    rw [List.foldl_cons, ih, call_eq_run]
    exact (List.foldl_append ..).symm

/-! ## The cursor -/

/-- The cursor is on the screen, or at the start of row 25 with no newline to come next. -/
def Ready (c : Console) (cs : List Colored) : Prop :=
  c.y.toNat ≤ 24 ∨ c.y = 25#32 ∧ c.x = 0#32 ∧ ∀ s ∈ cs.head?, s.2 ≠ newlineChar

variable {c c₀ : Console} {s : Colored} {cs : List Colored}

theorem Ready.newline (h : Ready c (s :: cs)) (hnl : s.2 = newlineChar)
    (hnext : ∀ t ∈ cs.head?, t.2 ≠ newlineChar) :
    StepOk c s ∧ Ready (c.printed s) cs := by
  have hy : c.y.toNat ≤ 24 := by
    rcases h with hy | ⟨-, -, hhead⟩
    · exact hy
    · exact absurd hnl (hhead s rfl)
  have hprinted : c.printed s = { c with x := 0#32, y := c.y + 1#32 } := if_pos hnl
  have hsum : (c.y + 1#32).toNat = c.y.toNat + 1 := by
    change (_ + 1) % 2 ^ 32 = _
    exact Nat.mod_eq_of_lt (by omega)
  refine ⟨?_, ?_⟩
  · rw [StepOk, if_pos hnl]
    omega
  · rw [hprinted]
    by_cases hlast : c.y.toNat = 24
    · exact Or.inr ⟨BitVec.eq_of_toNat_eq (hsum.trans (by rw [hlast]; rfl)), rfl, hnext⟩
    · refine Or.inl ?_
      change (c.y + 1#32).toNat ≤ 24
      omega

theorem Ready.char (h : Ready c (s :: cs)) (hascii : s.2 < 0x80#8) (hnl : s.2 ≠ newlineChar)
    (htab : s.2 ≠ tabChar) : StepOk c s ∧ Ready (c.printed s) cs := by
  have hy : c.y.toNat ≤ 25 := by
    rcases h with hy | ⟨hy, -, -⟩
    · omega
    · rw [hy]
      decide
  refine ⟨?_, Or.inl (putChar_cursor c _ hnl htab).2.2⟩
  rw [StepOk, if_neg hnl, if_neg htab]
  refine ⟨hascii, fun _ => by omega, fun hrow => ?_⟩
  unfold Console.wrap at hrow ⊢
  by_cases hx : 79#32 ≤ c.x
  · -- a full row: the cursor was on the screen
    rw [if_pos hx] at hrow ⊢
    have hlow : c.y.toNat ≤ 24 := by
      rcases h with hy | ⟨-, hzero, -⟩
      · exact hy
      · rw [hzero] at hx
        exact absurd hx (by decide)
    have hsum : (c.y + 1#32).toNat = c.y.toNat + 1 := by
      change (_ + 1) % 2 ^ 32 = _
      exact Nat.mod_eq_of_lt (by omega)
    have hrow' : 25 ≤ (c.y + 1#32).toNat := hrow
    refine ⟨rfl, BitVec.eq_of_toNat_eq ?_⟩
    change (c.y + 1#32).toNat = 25
    omega
  · rw [if_neg hx] at hrow ⊢
    have hrow' : 25 ≤ c.y.toNat := hrow
    rcases h with hy | ⟨hy, hzero, -⟩
    · omega
    · exact ⟨hzero, hy⟩

/-- `print` gets every step of a tidy text right. -/
theorem Ready.steps (h : Ready c cs) (ht : Tidy (cs.map Prod.snd)) : StepsOk c cs := by
  induction cs generalizing c with
  | nil => trivial
  | cons s cs ih =>
    obtain ⟨hascii, htabs, hlines⟩ := ht
    rw [List.map_cons] at hascii htabs hlines
    rw [List.forall_mem_cons] at hascii
    rw [List.mem_cons, not_or] at htabs
    have hrest : Tidy (cs.map Prod.snd) := ⟨hascii.2, htabs.2, hlines.tail⟩
    have hstep : StepOk c s ∧ Ready (c.printed s) cs := by
      by_cases hnl : s.2 = newlineChar
      · refine h.newline hnl fun t ht hnext => ?_
        refine hlines.rel_head? (y := t.2) ?_ ⟨hnl, hnext⟩
        rw [List.head?_map, Option.mem_def.mp ht]
        rfl
      · exact h.char hascii.1 hnl fun he => htabs.1 he.symm
    exact ⟨hstep.1, ih hstep.2 hrest⟩

theorem ready_clearScreen (c₀ : Console) (cs : List Colored) : Ready (clearScreen c₀) cs :=
  Or.inl (Nat.zero_le 24)

/-! ## The screen -/

/-- **The screen shows the layout.** In a run of `print` calls behind `clear_screen`, behind a
    character other than a newline or a tab, if every step so far is one that `print` gets
    right. -/
theorem screen_shows (c₀ : Console) (calls : List (BitVec 8 × List (BitVec 8))) {n : ℕ}
    {s : Colored} (hs : (characters calls)[n]? = some s) (hnl : s.2 ≠ newlineChar)
    (htab : s.2 ≠ tabChar)
    (hok : StepsOk (clearScreen c₀) ((characters calls).take (n + 1))) :
    Shows ((clearScreen c₀).run ((characters calls).take (n + 1)))
      (layout ((characters calls).take (n + 1))) :=
  shows_of_steps hs hnl htab hok

/-- Thirty lines in two colours. -/
def thirtyLines : List (BitVec 8 × List (BitVec 8)) :=
  [(0x07#8, (List.replicate 29 [0x61#8, 0x62#8, newlineChar]).flatten), (0x04#8, [0x41#8])]

/-- Behind the last character the screen has scrolled by five rows. -/
theorem screen_shows_scrolled :
    Shows ((clearScreen ⟨fun _ => 0xff#8, 7#32, 9#32⟩).run (characters thirtyLines))
      (layout (characters thirtyLines)) ∧ (layout (characters thirtyLines)).row = 29 := by
  have hall : (characters thirtyLines).take (87 + 1) = characters thirtyLines :=
    List.take_of_length_le (by decide +kernel)
  have htidy : Tidy (((characters thirtyLines).take (87 + 1)).map Prod.snd) := by
    decide +kernel
  have hshows := screen_shows ⟨fun _ => 0xff#8, 7#32, 9#32⟩ thirtyLines (n := 87)
    (s := (0x04#8, 0x41#8)) (by decide +kernel) (by decide) (by decide)
    ((ready_clearScreen _ _).steps htidy)
  rw [hall] at hshows
  exact ⟨hshows, by decide +kernel⟩

/-- A cleared console. -/
def zeroConsole : Console := clearScreen ⟨fun _ => 0#8, 0#32, 0#32⟩

/-- Its cursor neither wraps nor scrolls. -/
theorem zeroConsole_wrap : zeroConsole.wrap = zeroConsole := if_neg (show ¬ 79#32 ≤ 0#32 by decide)

theorem zeroConsole_scrolled : zeroConsole.scrolled = zeroConsole :=
  if_neg (show ¬ 25#32 ≤ 0#32 by decide)

/-- The byte 0x80 in white comes out in another colour. -/
theorem not_screen_shows : ¬ ∀ (c₀ : Console) (calls : List (BitVec 8 × List (BitVec 8))) (n : ℕ)
    (s : Colored), (characters calls)[n]? = some s → s.2 ≠ newlineChar → s.2 ≠ tabChar →
      Shows ((clearScreen c₀).run ((characters calls).take (n + 1)))
        (layout ((characters calls).take (n + 1))) := by
  intro h
  have hshows : Shows (zeroConsole.printed (0x07#8, 0x80#8)) (layout [(0x07#8, 0x80#8)]) :=
    h ⟨fun _ => 0#8, 0#32, 0#32⟩ [(0x07#8, [0x80#8])] 0 (0x07#8, 0x80#8) rfl (by decide) (by decide)
  have hcell := hshows 0 (by decide) 0 (by decide)
  have hprinted : zeroConsole.printed (0x07#8, 0x80#8) =
      zeroConsole.store (cellOf 0x07#16 0x80#8) := by
    rw [Console.printed, Console.putChar, if_neg (by decide), if_neg (by decide), zeroConsole_wrap,
      zeroConsole_scrolled]
    rfl
  rw [hprinted, store_cells zeroConsole _ (show 0 < 80 by decide) (show 0 < 25 by decide)
    (by decide) (by decide)] at hcell
  exact absurd hcell (show ¬ cellOf 0x07#16 0x80#8 = 0x07#8 ++ 0x80#8 by decide)

theorem Tidy.take {t : List (BitVec 8)} (h : Tidy t) (n : ℕ) : Tidy (t.take n) :=
  ⟨fun ch hch => h.ascii ch (List.mem_of_mem_take hch),
    fun hmem => h.tabs (List.mem_of_mem_take hmem), h.lines.take n⟩

/-- Behind a character of tidy calls that is no newline. -/
theorem shows_of_tidy {qs : List Call} (ht : Tidy (textsOf qs)) {n : ℕ}
    (hs : (colored qs)[n]? = some s) (hnl : s.2 ≠ newlineChar) :
    Shows ((clearScreen c₀).run ((colored qs).take (n + 1)))
      (layout ((colored qs).take (n + 1))) := by
  rw [← colored_text] at ht
  have htab : s.2 ≠ tabChar := fun he =>
    ht.tabs (he ▸ List.mem_map_of_mem (List.mem_of_getElem? hs))
  refine shows_of_steps hs hnl htab ((ready_clearScreen c₀ _).steps ?_)
  rw [List.map_take]
  exact ht.take (n + 1)

/-- **What the screen shows.** Of any calls of `print` behind `clear_screen` whose texts, one after
    the other, are tidy: behind every character but a newline, the last 25 rows of all that was
    printed up to it, in its colours. -/
theorem prints_shown (c₀ : Console) (qs : List Call) (ht : Tidy (textsOf qs)) :
    qs.foldl Console.call (clearScreen c₀) = (clearScreen c₀).run (colored qs) ∧
      ∀ (n : ℕ) (s : Colored), (colored qs)[n]? = some s → s.2 ≠ newlineChar →
        Shows ((clearScreen c₀).run ((colored qs).take (n + 1)))
          (layout ((colored qs).take (n + 1))) :=
  ⟨calls_eq_run qs _, fun _ _ hs hnl => shows_of_tidy ht hs hnl⟩

/-- Thirty lines in two calls. -/
theorem prints_shown_lines : ∃ qs : List Call, qs.length = 2 ∧
    ∀ (c₀ : Console) (n : ℕ) (s : Colored), (colored qs)[n]? = some s → s.2 ≠ newlineChar →
      Shows ((clearScreen c₀).run ((colored qs).take (n + 1)))
        (layout ((colored qs).take (n + 1))) := by
  let lines : List (BitVec 8) := (List.replicate 15 [0x61#8, newlineChar]).flatten
  refine ⟨[⟨wordWhite, lines⟩, ⟨wordRed, lines ++ [0#8]⟩], rfl, fun c₀ => ?_⟩
  exact (prints_shown c₀ [⟨wordWhite, lines⟩, ⟨wordRed, lines ++ [0#8]⟩] (by decide)).2

end HelloOS.Printk
