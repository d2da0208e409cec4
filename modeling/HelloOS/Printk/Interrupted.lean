/-
  `print` under interrupts (`kernel/printk/printk.c`, `kernel/irq/irq.c`).

  A call of `print` takes a character in up to four steps: the wrap, the scroll, the store at
  the cursor and the advance of the cursor. `do_IRQ` runs in between, as often as interrupts
  arrive, and prints at the same cursor. Behind the scroll the cursor must stay in the rows of
  the screen until the store, and a line that `do_IRQ` logs may take it out of them
  (`stores_onScreen_iff`).
-/
import HelloOS.Drivers.Typing
import HelloOS.Irq.DoIrq
import HelloOS.Printk.OnScreen

namespace HelloOS.Printk

open HelloOS.Lib HelloOS.Drivers HelloOS.Irq

/-! ## Steps of `print` -/

/-- Where a call of `print` is: before a character, or before the scroll, the store or the
    advance for one whose cell is `cell`. -/
inductive Phase where
  | next
  | scroll (cell : BitVec 16)
  | store (cell : BitVec 16)
  | advance
  deriving DecidableEq

/-- A call of `print`: where it is, what is left of its string, and the console. -/
structure Task where
  phase : Phase
  buf : List (BitVec 8)
  console : Console

/-- A step of the call; at the NUL there are no more. -/
def Task.step (color : BitVec 16) (t : Task) : Task :=
  let c := t.console
  match t.phase with
  | .next =>
    match t.buf with
    | [] => t
    | ch :: buf =>
      if ch = 0#8 then t
      else if ch = newlineChar then ⟨.next, buf, { c with x := 0#32, y := c.y + 1#32 }⟩
      else if ch = tabChar then ⟨.next, buf, { c with x := c.x + 4#32 }⟩
      else ⟨.scroll (cellOf color ch), buf, c.wrap⟩
  | .scroll cell => ⟨.store cell, t.buf, c.scrolled⟩
  | .store cell => ⟨.advance, t.buf, { c with mem := c.mem.write16 (cellAddr c.x c.y) cell }⟩
  | .advance => ⟨.next, t.buf, { c with x := c.x + 1#32 }⟩

/-- The steps of a character are a round of `print`. -/
theorem task_putChar (color : BitVec 16) {ch : BitVec 8} (h : ch ≠ 0#8) (buf : List (BitVec 8))
    (c : Console) :
    ∃ n, (Task.step color)^[n] ⟨.next, ch :: buf, c⟩ = ⟨.next, buf, c.putChar color ch⟩ := by
  by_cases hnl : ch = newlineChar
  · refine ⟨1, ?_⟩
    simp only [Function.iterate_one, Task.step, Console.putChar, if_neg h, if_pos hnl]
  · by_cases htab : ch = tabChar
    · refine ⟨1, ?_⟩
      simp only [Function.iterate_one, Task.step, Console.putChar, if_neg h, if_neg hnl,
        if_pos htab]
    · refine ⟨4, ?_⟩
      have hwrap : Task.step color ⟨.next, ch :: buf, c⟩ =
          ⟨.scroll (cellOf color ch), buf, c.wrap⟩ := by
        simp only [Task.step, if_neg h, if_neg hnl, if_neg htab]
      have hround : c.putChar color ch = c.wrap.scrolled.store (cellOf color ch) := by
        simp only [Console.putChar, if_neg hnl, if_neg htab]
      rw [hround]
      change Task.step color (Task.step color (Task.step color (Task.step color _))) = _
      rw [hwrap]
      rfl

/-- Without interrupts, the steps are `print`. -/
theorem task_print (color : BitVec 16) (buf : List (BitVec 8)) (c : Console) :
    ∃ n, ((Task.step color)^[n] ⟨.next, buf, c⟩).console = print color buf c := by
  induction buf generalizing c with
  | nil => exact ⟨0, rfl⟩
  | cons ch buf ih =>
      rw [print]
      split
      · exact ⟨0, rfl⟩
      · next h =>
          obtain ⟨n, hn⟩ := task_putChar color h buf c
          obtain ⟨k, hk⟩ := ih (c.putChar color ch)
          exact ⟨k + n, by rw [Function.iterate_add_apply, hn, hk]⟩

/-! ## The call and the interrupts -/

/-- The console behind some calls. -/
def Console.printAll (c : Console) (ps : List Print) : Console :=
  ps.foldl (fun c p => print p.color p.text c) c

variable {σ : Type}

/-- A call of `print` and the interrupt side of the kernel. -/
structure System (σ : Type) where
  machine : Machine σ
  task : Task

/-- What happens next: a step of the call, or an interrupt that `init_interrupt` has installed a
    gate for, with the devices in state `dev`. -/
inductive Event (σ : Type) where
  | step
  | irq (i : Fin 24) (dev : σ)

/-- The machine behind a run of `do_IRQ`; `printed` is what this run prints. -/
def handledIrq (bus : Bus σ) (m : Machine σ) (i : Fin 24) (dev : σ) : Machine σ :=
  doIrq bus (interruptTable i) { m with dev := dev, printed := [] }

def System.exec (bus : Bus σ) (color : BitVec 16) (s : System σ) : Event σ → System σ
  | .step => { s with task := s.task.step color }
  | .irq i dev =>
    let m := handledIrq bus s.machine i dev
    ⟨m, { s.task with console := s.task.console.printAll m.printed }⟩

def System.run (bus : Bus σ) (color : BitVec 16) (s : System σ) (es : List (Event σ)) : System σ :=
  es.foldl (System.exec bus color) s

/-! ## The property, and its condition -/

/-- Between a scroll check and its store. -/
def Phase.inWindow : Phase → Bool
  | .store _ => true
  | _ => false

/-- An address of a cell of the screen. -/
def IsCell (addr : BitVec 64) : Prop :=
  ∃ row < maxRow, ∃ col < maxColumn, addr = vgaBase + BitVec.ofNat 64 (160 * row + 2 * col)

/-- If the step stores, it stores a cell of the screen. -/
def StoreOk (s : System σ) : Event σ → Prop
  | .step => s.task.phase.inWindow → IsCell (cellAddr s.task.console.x s.task.console.y)
  | .irq _ _ => True

/-- Every cell store of a run is on the screen. -/
def StoresOnScreen (bus : Bus σ) (color : BitVec 16) : System σ → List (Event σ) → Prop
  | _, [] => True
  | s, e :: es => StoreOk s e ∧ StoresOnScreen bus color (s.exec bus color e) es

/-- The row and the column behind a character, on a screen without a last row. -/
def advanceBy (p : ℕ × ℕ) (ch : BitVec 8) : ℕ × ℕ :=
  if ch = newlineChar then (p.1 + 1, 0)
  else if ch = tabChar then (p.1, p.2 + 4)
  else if 79 ≤ p.2 then (p.1 + 1, 1)
  else (p.1, p.2 + 1)

/-- The row and the column behind a text. -/
def endOf (p : ℕ × ℕ) (t : List (BitVec 8)) : ℕ × ℕ := t.foldl advanceBy p

/-- An interrupt between a scroll check and its store prints no more than fits above the last
    row: behind its text, from the cursor on, the row is at most 24. -/
def IrqFits (bus : Bus σ) (s : System σ) : Event σ → Prop
  | .step => True
  | .irq i dev => s.task.phase.inWindow →
      (endOf (s.task.console.y.toNat, s.task.console.x.toNat)
        (textOf (handledIrq bus s.machine i dev).printed)).1 ≤ 24

/-- All interrupts of a run do. -/
def IrqsFit (bus : Bus σ) (color : BitVec 16) : System σ → List (Event σ) → Prop
  | _, [] => True
  | s, e :: es => IrqFits bus s e ∧ IrqsFit bus color (s.exec bus color e) es

/-! ## Lines of the log -/

/-- What `do_IRQ` prints: a text without tabs whose last line, ended by a newline, is not
    empty. -/
structure LogText (t : List (BitVec 8)) : Prop where
  tabs : tabChar ∉ t
  short : t.length < 100
  ends : ∃ u ch, t = u ++ [ch, newlineChar] ∧ ch ≠ newlineChar

theorem text_info : (kprintf "[info] " []).text = "[info] ".toList.map Format.chr := by
  decide +kernel

theorem text_code : ∀ i : Fin 24, (kprintf "\ncode: %x\n" [interruptTable i]).text =
    "\ncode: ".toList.map Format.chr ++ [(Format.digitChars Format.small).getD (2 + i / 16) 0#8,
      (Format.digitChars Format.small).getD (i % 16) 0#8, newlineChar] := by
  decide +kernel

theorem text_success : (kerrPrintf "write success!!!!!\n" []).text =
    "write success!!!!!\n".toList.map Format.chr := by
  decide +kernel

/-- No key is a tab. -/
theorem keycode_ne_tab : ∀ (x : BitVec 8) (column : Bool),
    (keycodeMapNormal x column).setWidth 8 ≠ tabChar := by
  decide +kernel

/-- The keyboard prints a character at most, and no tab. -/
theorem text_keyboard (x : BitVec 8) (k : Keyboard) :
    (textOf (parseKeycode x k).2).length ≤ 1 ∧ tabChar ∉ textOf (parseKeycode x k).2 := by
  have htab := keycode_ne_tab (keyOf x) (k.shiftL || k.shirtR)
  rw [text_parseKeycode]
  split
  · unfold entryText
    split
    · exact ⟨Nat.zero_le 1, List.not_mem_nil⟩
    · exact ⟨Nat.le_refl 1, fun h => htab (List.mem_singleton.mp h).symm⟩
  · exact ⟨Nat.zero_le 1, List.not_mem_nil⟩

/-- The last digit of the code is no newline. -/
theorem code_digit : ∀ i : Fin 24,
    (Format.digitChars Format.small).getD (i % 16) 0#8 ≠ newlineChar ∧
      tabChar ∉ (kprintf "\ncode: %x\n" [interruptTable i]).text := by
  intro i
  rw [text_code]
  revert i
  decide +kernel

/-- The line that `do_IRQ` logs, behind what the handler prints. -/
theorem logText_code (i : Fin 24) {ps : List Print} (htabs : tabChar ∉ textOf ps)
    (hshort : (textOf ps).length ≤ 20) :
    LogText (textOf (ps ++ kinfo "\ncode: %x\n" [interruptTable i])) := by
  have hcode := text_code i
  obtain ⟨hdigit, htab⟩ := code_digit i
  have hline : textOf (kinfo "\ncode: %x\n" [interruptTable i]) =
      "[info] ".toList.map Format.chr ++ (kprintf "\ncode: %x\n" [interruptTable i]).text := by
    rw [← text_info]
    exact congrArg (_ ++ ·) (List.append_nil _)
  rw [textOf_append, hline]
  refine ⟨?_, ?_, ?_⟩
  · rw [List.mem_append, List.mem_append, not_or, not_or]
    exact ⟨htabs, by decide, htab⟩
  · rw [List.length_append, List.length_append, hcode]
    change _ + (7 + 10) < 100
    omega
  · refine ⟨textOf ps ++ "[info] \ncode: ".toList.map Format.chr ++
      [(Format.digitChars Format.small).getD (2 + i / 16) 0#8], _, ?_, hdigit⟩
    rw [hcode, List.append_assoc, List.append_assoc]
    rfl

/-- Every interrupt but that of the timer logs its line, and that one prints nothing. -/
theorem handledIrq_text (bus : Bus σ) (m : Machine σ) (i : Fin 24) (dev : σ) :
    (handledIrq bus m i dev).printed = [] ∨ LogText (textOf (handledIrq bus m i dev).printed) := by
  have hcode : ∀ ps, tabChar ∉ textOf ps → (textOf ps).length ≤ 20 →
      (handledIrq bus m i dev).printed = ps ++ kinfo "\ncode: %x\n" [interruptTable i] →
      LogText (textOf (handledIrq bus m i dev).printed) := fun ps htabs hshort heq => by
    rw [heq]
    exact logText_code i htabs hshort
  by_cases htimer : interruptTable i = 0x20#64
  · left
    unfold handledIrq doIrq
    rw [htimer]
    rfl
  · right
    by_cases hkey : interruptTable i = 0x21#64
    · obtain ⟨hshort, htabs⟩ := text_keyboard (bus.in8 0x60#16 dev).1 m.keyboard
      refine hcode _ htabs (by omega) ?_
      unfold handledIrq doIrq
      rw [hkey]
      rfl
    · by_cases hread : interruptTable i = 0x2f#64
      · refine hcode [] List.not_mem_nil (Nat.zero_le 20) ?_
        unfold handledIrq doIrq
        rw [hread]
        rfl
      · by_cases hwrite : interruptTable i = 0x2e#64
        · have htext : textOf [kerrPrintf "write success!!!!!\n" []] =
              "write success!!!!!\n".toList.map Format.chr := by
            rw [textOf, List.flatMap_singleton, text_success]
          refine hcode [kerrPrintf "write success!!!!!\n" []] ?_ ?_ ?_
          · rw [htext]
            decide
          · rw [htext]
            decide
          · unfold handledIrq doIrq
            rw [hwrite]
            rfl
        · refine hcode [] List.not_mem_nil (Nat.zero_le 20) ?_
          unfold handledIrq doIrq
          simp only [if_neg hkey, if_neg hread, if_neg hwrite, if_pos htimer]
          rfl

/-! ## The cursor behind a text -/

/-- The cursor is where the text on a screen without a last row ends, or below row 23 and no
    lower than that. It is below row 24 at the start of a row only. -/
structure Tracks (c : Console) (p : ℕ × ℕ) : Prop where
  col : c.x.toNat = p.2
  le : p.2 ≤ 79
  row : c.y.toNat = p.1 ∨ 24 ≤ c.y.toNat ∧ c.y.toNat ≤ p.1
  start : 25 ≤ c.y.toNat → p.2 = 0

variable {c : Console} {p : ℕ × ℕ}

theorem toNat_succ {a : BitVec 32} (h : a.toNat + 1 < 2 ^ 32) : (a + 1#32).toNat = a.toNat + 1 := by
  rw [BitVec.toNat_add]
  exact Nat.mod_eq_of_lt h

theorem Tracks.newline (h : Tracks c p) (hp : p.1 + 1 < 2 ^ 32) (color : BitVec 16) :
    Tracks (c.putChar color newlineChar) (advanceBy p newlineChar) := by
  have hrow := h.row
  have hnext : (c.y + 1#32).toNat = c.y.toNat + 1 := toNat_succ (by omega)
  refine ⟨rfl, Nat.zero_le 79, ?_, fun _ => rfl⟩
  change (c.y + 1#32).toNat = p.1 + 1 ∨ 24 ≤ (c.y + 1#32).toNat ∧ (c.y + 1#32).toNat ≤ p.1 + 1
  omega

/-- A character that is stored: it scrolls only from the start of row 25. -/
theorem Tracks.visible (h : Tracks c p) (hp : p.1 + 1 < 2 ^ 32) (color : BitVec 16) {ch : BitVec 8}
    (hnl : ch ≠ newlineChar) (htab : ch ≠ tabChar) :
    Tracks (c.putChar color ch) (advanceBy p ch) ∧ (c.putChar color ch).y.toNat ≤ 24 := by
  obtain ⟨hcol, hle, hrow, hstart⟩ := h
  -- the wrap
  obtain ⟨w, hw, hwx, hwy⟩ : ∃ w : Console, c.wrap = w ∧
      w.x.toNat = (if 79 ≤ p.2 then 0 else p.2) ∧
      w.y.toNat = c.y.toNat + if 79 ≤ p.2 then 1 else 0 := by
    refine ⟨_, rfl, ?_⟩
    unfold Console.wrap
    by_cases hx : 79 ≤ p.2
    · rw [if_pos (show 79#32 ≤ c.x by rw [BitVec.le_def, hcol]; exact hx), if_pos hx, if_pos hx]
      exact ⟨rfl, toNat_succ (by omega)⟩
    · rw [if_neg (show ¬ 79#32 ≤ c.x by rw [BitVec.le_def, hcol]; exact hx), if_neg hx, if_neg hx]
      exact ⟨hcol, rfl⟩
  -- the scroll
  obtain ⟨v, hv, hvx, hvy⟩ : ∃ v : Console, w.scrolled = v ∧ v.x.toNat = w.x.toNat ∧
      v.y.toNat = min w.y.toNat 24 := by
    refine ⟨_, rfl, ?_⟩
    unfold Console.scrolled
    by_cases hy : 25 ≤ w.y.toNat
    · rw [if_pos (show 25#32 ≤ w.y from hy)]
      refine ⟨?_, ?_⟩
      · change 0 = w.x.toNat
        split_ifs at hwx hwy <;> omega
      · change 24 = min w.y.toNat 24
        omega
    · rw [if_neg (show ¬ 25#32 ≤ w.y from hy)]
      exact ⟨rfl, by omega⟩
  have hround : c.putChar color ch = v.store (cellOf color ch) := by
    rw [Console.putChar, if_neg hnl, if_neg htab, hw, hv]
  have hnext : (v.x + 1#32).toNat = v.x.toNat + 1 := toNat_succ (by split_ifs at hwx <;> omega)
  rw [hround, advanceBy, if_neg hnl, if_neg htab]
  have hlow : (v.store (cellOf color ch)).y.toNat ≤ 24 := by
    change v.y.toNat ≤ 24
    omega
  refine ⟨⟨?_, ?_, ?_, fun h => absurd h (by omega)⟩, hlow⟩
  · change (v.x + 1#32).toNat = _
    split_ifs at hwx ⊢ <;> omega
  · split_ifs <;> omega
  · change v.y.toNat = _ ∨ 24 ≤ v.y.toNat ∧ v.y.toNat ≤ _
    split_ifs at hwy ⊢ <;> omega

theorem advanceBy_row (p : ℕ × ℕ) (ch : BitVec 8) : (advanceBy p ch).1 ≤ p.1 + 1 := by
  unfold advanceBy
  split_ifs <;> omega

theorem endOf_row (p : ℕ × ℕ) (t : List (BitVec 8)) : (endOf p t).1 ≤ p.1 + t.length := by
  induction t generalizing p with
  | nil => exact le_refl p.1
  | cons ch t ih =>
      have hstep := advanceBy_row p ch
      have hrest := ih (advanceBy p ch)
      rw [List.length_cons]
      change (endOf (advanceBy p ch) t).1 ≤ _
      omega

theorem le_endOf_row (p : ℕ × ℕ) (t : List (BitVec 8)) : p.1 ≤ (endOf p t).1 := by
  induction t generalizing p with
  | nil => exact le_refl p.1
  | cons ch t ih =>
      have hstep : p.1 ≤ (advanceBy p ch).1 := by
        unfold advanceBy
        split_ifs <;> omega
      exact hstep.trans (ih (advanceBy p ch))

theorem endOf_append (p : ℕ × ℕ) (t u : List (BitVec 8)) :
    endOf p (t ++ u) = endOf (endOf p t) u := List.foldl_append ..

/-- The cursor behind a text without tabs. -/
theorem Tracks.print {t : List (BitVec 8)} (h : Tracks c p) (hp : p.1 + t.length < 2 ^ 32)
    (htabs : tabChar ∉ t) (hnul : 0#8 ∉ t) (color : BitVec 16) :
    Tracks (print color t c) (endOf p t) := by
  induction t generalizing c p with
  | nil => exact h
  | cons ch t ih =>
      rw [List.mem_cons, not_or] at htabs hnul
      rw [List.length_cons] at hp
      rw [Printk.print, if_neg (Ne.symm hnul.1)]
      have hrow := advanceBy_row p ch
      have hstep : Tracks (c.putChar color ch) (advanceBy p ch) := by
        by_cases hnl : ch = newlineChar
        · subst hnl
          exact h.newline (by omega) color
        · exact (h.visible (by omega) color hnl (Ne.symm htabs.1)).1
      exact ih hstep (by omega) htabs.2 hnul.2

/-! ## The cursor behind the log -/

/-- The same cursor. -/
structure SameCursor (c c' : Console) : Prop where
  x : c.x = c'.x
  y : c.y = c'.y

variable {c' : Console}

/-- Where the cursor goes depends on where it is, and on no colour. -/
theorem SameCursor.putChar (h : SameCursor c c') (color color' : BitVec 16) (ch : BitVec 8) :
    SameCursor (c.putChar color ch) (c'.putChar color' ch) := by
  obtain ⟨hx, hy⟩ := h
  have hwrap : c.wrap.x = c'.wrap.x ∧ c.wrap.y = c'.wrap.y := by
    unfold Console.wrap
    rw [hx]
    split
    · exact ⟨rfl, congrArg (· + 1#32) hy⟩
    · exact ⟨hx, hy⟩
  have hscroll : c.wrap.scrolled.x = c'.wrap.scrolled.x ∧
      c.wrap.scrolled.y = c'.wrap.scrolled.y := by
    unfold Console.scrolled
    rw [hwrap.2]
    split
    · exact ⟨rfl, rfl⟩
    · exact ⟨hwrap.1, hwrap.2⟩
  unfold Console.putChar
  split
  · exact ⟨rfl, congrArg (· + 1#32) hy⟩
  · split
    · exact ⟨congrArg (· + 4#32) hx, hy⟩
    · exact ⟨congrArg (· + 1#32) hscroll.1, hscroll.2⟩

theorem SameCursor.print (h : SameCursor c c') (color color' : BitVec 16) (t : List (BitVec 8)) :
    SameCursor (print color t c) (print color' t c') := by
  induction t generalizing c c' with
  | nil => exact h
  | cons ch t ih =>
      rw [Printk.print, Printk.print]
      split
      · exact h
      · exact ih (h.putChar color color' ch)

theorem print_append (color : BitVec 16) {t : List (BitVec 8)} (hnul : 0#8 ∉ t)
    (u : List (BitVec 8))
    (c : Console) : print color (t ++ u) c = print color u (print color t c) := by
  induction t generalizing c with
  | nil => rfl
  | cons ch t ih =>
      rw [List.mem_cons, not_or] at hnul
      rw [List.cons_append, print, print, if_neg (Ne.symm hnul.1), if_neg (Ne.symm hnul.1),
        ih hnul.2]

theorem text_nul (p : Print) : 0#8 ∉ p.text := by
  unfold Print.text
  cases Format.vsprintf _ _ _ with
  | none => exact List.not_mem_nil
  | some s =>
      intro h
      have hall : (s.str.takeWhile (· ≠ 0#8)).all (· ≠ 0#8) := List.all_takeWhile
      exact absurd (List.all_eq_true.mp hall 0#8 h) (by simp)

theorem textOf_nul (ps : List Print) : 0#8 ∉ textOf ps := by
  intro h
  obtain ⟨p, -, hp⟩ := List.mem_flatMap.mp h
  exact text_nul p hp

/-- Some calls move the cursor as one call with their text does. -/
theorem printAll_cursor (h : SameCursor c c') (ps : List Print) :
    SameCursor (c.printAll ps) (print 0#16 (textOf ps) c') := by
  induction ps generalizing c c' with
  | nil => exact h
  | cons p ps ih =>
      have htext : textOf (p :: ps) = p.text ++ textOf ps := List.flatMap_cons
      rw [htext, print_append _ (text_nul p)]
      exact ih (h.print p.color 0#16 p.text)

/-- Behind a line of the log the cursor is at the start of a row. -/
theorem LogText.cursor_x {t : List (BitVec 8)} (ht : LogText t) (hnul : 0#8 ∉ t) (c : Console) :
    (print 0#16 t c).x = 0#32 := by
  obtain ⟨u, ch, rfl, -⟩ := ht.ends
  have hsplit : u ++ [ch, newlineChar] = (u ++ [ch]) ++ [newlineChar] := by simp
  rw [hsplit, List.mem_append, not_or] at hnul
  rw [hsplit, print_append _ hnul.1]
  rfl

/-- Behind a line of the log, from a cursor on the screen or at the start of row 25: row 25 at
    most, and a row of the screen if and only if the text fits above the last row. -/
theorem LogText.cursor_y {t : List (BitVec 8)} (ht : LogText t) (hnul : 0#8 ∉ t) (h : Tracks c p)
    (hp : p.1 ≤ 25) : (print 0#16 t c).y.toNat ≤ 25 ∧
      ((print 0#16 t c).y.toNat ≤ 24 ↔ (endOf p t).1 ≤ 24) := by
  have hshort := ht.short
  have htabs := ht.tabs
  obtain ⟨u, ch, rfl, hnl⟩ := ht.ends
  have hsplit : u ++ [ch, newlineChar] = u ++ ([ch] ++ [newlineChar]) := rfl
  rw [hsplit] at htabs hnul ⊢
  simp only [List.mem_append, not_or, List.mem_singleton] at htabs hnul
  rw [List.length_append] at hshort
  have hu : Tracks (print 0#16 u c) (endOf p u) := h.print (by omega) htabs.1 hnul.1 0#16
  have hrow := endOf_row p u
  obtain ⟨hv, hlow⟩ := hu.visible (by omega) 0#16 hnl (Ne.symm htabs.2.1)
  have hprint : print 0#16 (u ++ ([ch] ++ [newlineChar])) c =
      ((print 0#16 u c).putChar 0#16 ch).putChar 0#16 newlineChar := by
    have hone : print 0#16 [ch] (print 0#16 u c) = (print 0#16 u c).putChar 0#16 ch := by
      rw [print, if_neg (Ne.symm hnul.2.1)]
      rfl
    rw [print_append _ hnul.1, print_append _ (by simpa using hnul.2.1), hone]
    rfl
  have hend : (endOf p (u ++ ([ch] ++ [newlineChar]))).1 = (advanceBy (endOf p u) ch).1 + 1 := by
    rw [endOf_append]
    rfl
  have hnext : (((print 0#16 u c).putChar 0#16 ch).y + 1#32).toNat =
      ((print 0#16 u c).putChar 0#16 ch).y.toNat + 1 := toNat_succ (by omega)
  have hy : (((print 0#16 u c).putChar 0#16 ch).putChar 0#16 newlineChar).y.toNat =
      ((print 0#16 u c).putChar 0#16 ch).y.toNat + 1 := hnext
  rw [hprint, hend, hy]
  have := hv.row
  omega

/-! ## Runs -/

/-- What holds at each phase, whatever has been interrupted so far. -/
def Invariant (s : System σ) : Prop :=
  match s.task.phase with
  | .scroll _ => s.task.console.x.toNat < 79
  | .store _ => s.task.console.x.toNat < 79 ∧ s.task.console.y.toNat ≤ 24
  | _ => True

/-- An interrupt has left the cursor in row 25 between a scroll check and its store. -/
structure Lost (s : System σ) : Prop where
  phase : s.task.phase.inWindow
  x : s.task.console.x = 0#32
  y : s.task.console.y.toNat = 25

/-- A step of the call keeps the invariant, and if it stores, it stores a cell. -/
theorem Invariant.step {s : System σ} (h : Invariant s) (bus : Bus σ) (color : BitVec 16) :
    StoreOk s .step ∧ Invariant (s.exec bus color .step) := by
  obtain ⟨m, phase, buf, c⟩ := s
  cases phase with
  | next =>
      refine ⟨(nomatch ·), ?_⟩
      unfold System.exec Task.step
      cases buf with
      | nil => trivial
      | cons ch buf =>
          dsimp only
          unfold Invariant
          split_ifs
          · trivial
          · trivial
          · trivial
          · change c.wrap.x.toNat < 79
            unfold Console.wrap
            split
            · exact show 0 < 79 by decide
            · next hx => exact Nat.lt_of_not_le hx
  | scroll cell =>
      refine ⟨(nomatch ·), ?_⟩
      change c.scrolled.x.toNat < 79 ∧ c.scrolled.y.toNat ≤ 24
      unfold Console.scrolled
      split
      · exact ⟨show 0 < 79 by decide, le_refl 24⟩
      · next hy => exact ⟨h, Nat.le_of_lt_succ (Nat.lt_of_not_le hy)⟩
  | store cell =>
      refine ⟨fun _ => ?_, trivial⟩
      obtain ⟨hx, hy⟩ := h
      change c.x.toNat < 79 at hx
      change c.y.toNat ≤ 24 at hy
      exact ⟨_, Nat.lt_succ_of_le hy, _, Nat.lt_succ_of_lt hx,
        cellAddr_eq (x := c.x) (y := c.y) (by omega) (by omega)⟩
  | advance => exact ⟨(nomatch ·), trivial⟩

/-- The cursor behind a run of `do_IRQ`. -/
theorem irq_cursor (bus : Bus σ) (color : BitVec 16) (s : System σ) (i : Fin 24) (dev : σ) :
    (s.exec bus color (.irq i dev)).task.console = s.task.console ∧
        textOf (handledIrq bus s.machine i dev).printed = [] ∨
      LogText (textOf (handledIrq bus s.machine i dev).printed) ∧
        SameCursor (s.exec bus color (.irq i dev)).task.console
          (print 0#16 (textOf (handledIrq bus s.machine i dev).printed) s.task.console) := by
  rcases handledIrq_text bus s.machine i dev with hnil | hlog
  · left
    unfold System.exec
    dsimp only
    rw [hnil]
    exact ⟨rfl, rfl⟩
  · exact Or.inr ⟨hlog, printAll_cursor ⟨rfl, rfl⟩ _⟩

theorem invariant_window {s : System σ} (hphase : s.task.phase.inWindow) :
    Invariant s ↔ s.task.console.x.toNat < 79 ∧ s.task.console.y.toNat ≤ 24 := by
  obtain ⟨m, phase, buf, c⟩ := s
  cases phase with
  | store cell => exact Iff.rfl
  | next => exact absurd hphase Bool.false_ne_true
  | scroll cell => exact absurd hphase Bool.false_ne_true
  | advance => exact absurd hphase Bool.false_ne_true

/-- An interrupt between a scroll check and its store, with the cursor on the screen or lost: if
    what it prints fits, the cursor stays on the screen, and otherwise it is lost. -/
theorem irq_window (bus : Bus σ) (color : BitVec 16) {s : System σ} (i : Fin 24) (dev : σ)
    (hphase : s.task.phase.inWindow) (hx : s.task.console.x.toNat < 79)
    (hy : s.task.console.y.toNat ≤ 25)
    (hstart : 25 ≤ s.task.console.y.toNat → s.task.console.x.toNat = 0) :
    (IrqFits bus s (.irq i dev) → Invariant (s.exec bus color (.irq i dev))) ∧
      (¬ IrqFits bus s (.irq i dev) → Lost (s.exec bus color (.irq i dev))) := by
  have hfits : IrqFits bus s (.irq i dev) ↔
      (endOf (s.task.console.y.toNat, s.task.console.x.toNat)
        (textOf (handledIrq bus s.machine i dev).printed)).1 ≤ 24 :=
    ⟨fun h => h hphase, fun h _ => h⟩
  have hphase' : (s.exec bus color (.irq i dev)).task.phase.inWindow := hphase
  rw [hfits, invariant_window hphase']
  rcases irq_cursor bus color s i dev with ⟨hsame, htext⟩ | ⟨hlog, hcursor⟩
  · -- the timer
    rw [htext, hsame]
    refine ⟨fun h => ⟨hx, h⟩, fun h => ⟨hphase', ?_, ?_⟩⟩
    · change ¬ s.task.console.y.toNat ≤ 24 at h
      rw [hsame]
      exact BitVec.eq_of_toNat_eq (hstart (by omega))
    · change ¬ s.task.console.y.toNat ≤ 24 at h
      rw [hsame]
      omega
  · have htracks : Tracks s.task.console (s.task.console.y.toNat, s.task.console.x.toNat) :=
      ⟨rfl, hx.le.trans (by decide), Or.inl rfl, hstart⟩
    obtain ⟨hle, hiff⟩ := hlog.cursor_y (textOf_nul _) htracks hy
    have hzero := hlog.cursor_x (textOf_nul _) s.task.console
    rw [← hcursor.y] at hle hiff
    rw [← hcursor.x] at hzero
    rw [← hiff, hzero]
    exact ⟨fun h => ⟨by decide, h⟩, fun h => ⟨hphase', hzero, by omega⟩⟩

/-- An interrupt keeps the invariant if what it prints between a scroll check and its store fits,
    and loses the cursor otherwise. -/
theorem Invariant.irq {s : System σ} (h : Invariant s) (bus : Bus σ) (color : BitVec 16)
    (i : Fin 24)
    (dev : σ) : (IrqFits bus s (.irq i dev) → Invariant (s.exec bus color (.irq i dev))) ∧
      (¬ IrqFits bus s (.irq i dev) → Lost (s.exec bus color (.irq i dev))) := by
  by_cases hphase : s.task.phase.inWindow
  · obtain ⟨hx, hy⟩ := (invariant_window hphase).mp h
    exact irq_window bus color _ _ hphase hx (by omega) fun h25 => absurd h25 (by omega)
  · refine ⟨fun _ => ?_, fun hfits => absurd (fun hin => absurd hin hphase) hfits⟩
    -- outside of it only the column matters
    have hx : s.task.console.x.toNat < 79 →
        (s.exec bus color (.irq i dev)).task.console.x.toNat < 79 := by
      intro hlt
      rcases irq_cursor bus color s i dev with ⟨hsame, -⟩ | ⟨hlog, hcursor⟩
      · rwa [hsame]
      · rw [hcursor.x, hlog.cursor_x (textOf_nul _)]
        decide
    obtain ⟨m, phase, buf, c⟩ := s
    cases phase with
    | next => trivial
    | scroll cell => exact hx h
    | store cell => exact absurd rfl hphase
    | advance => trivial

/-- The first cell of row 25 is not on the screen. -/
theorem not_isCell {x y : BitVec 32} (hx : x = 0#32) (hy : y.toNat = 25) :
    ¬ IsCell (cellAddr x y) := by
  rintro ⟨row, hrow, col, hcol, haddr⟩
  have hy' : y = 25#32 := BitVec.eq_of_toNat_eq hy
  unfold maxRow at hrow
  unfold maxColumn at hcol
  have htoNat := congrArg BitVec.toNat haddr
  have hoff : (160 * row + 2 * col) % 2 ^ 64 = 160 * row + 2 * col := Nat.mod_eq_of_lt (by omega)
  rw [hx, hy', BitVec.toNat_add, BitVec.toNat_ofNat, hoff] at htoNat
  change 757664 = (753664 + _) % 2 ^ 64 at htoNat
  omega

/-- A lost cursor stays lost until the store, which is then not on the screen. -/
theorem Lost.not_stores {s : System σ} (h : Lost s) {bus : Bus σ} {color : BitVec 16}
    {es : List (Event σ)} (hend : ¬ (s.run bus color es).task.phase.inWindow) :
    ¬ StoresOnScreen bus color s es := by
  induction es generalizing s with
  | nil => exact absurd h.phase hend
  | cons e es ih =>
      rintro ⟨hstore, hrest⟩
      cases e with
      | step => exact not_isCell h.x h.y (hstore h.phase)
      | irq i dev =>
          have hx : s.task.console.x.toNat = 0 := congrArg BitVec.toNat h.x
          have hfits : ¬ IrqFits bus s (.irq i dev) := fun hin => by
            have hrow := hin h.phase
            have hle := le_endOf_row (s.task.console.y.toNat, s.task.console.x.toNat)
              (textOf (handledIrq bus s.machine i dev).printed)
            have hy := h.y
            omega
          have hlost := (irq_window bus color i dev h.phase (by omega) h.y.le
            fun _ => hx).2 hfits
          exact ih hlost hend hrest

/-- **Console writes under interrupts.** A call of `print`, from any cursor, interrupted at any
    points by any number of runs of `do_IRQ`: if no interrupt between a scroll check and its
    store prints more than fits above the last row, all stores of the call are on the screen. In a
    run that does not stop between a scroll check and its store, only then. -/
theorem stores_onScreen_iff (bus : Bus σ) (color : BitVec 16) (m : Machine σ)
    (buf : List (BitVec 8)) (c : Console) (es : List (Event σ)) :
    let s : System σ := ⟨m, .next, buf, c⟩
    (IrqsFit bus color s es → StoresOnScreen bus color s es) ∧
      (¬ (s.run bus color es).task.phase.inWindow →
        StoresOnScreen bus color s es → IrqsFit bus color s es) := by
  intro s
  have hinv : Invariant s := trivial
  clear_value s
  induction es generalizing s with
  | nil => exact ⟨id, fun _ => id⟩
  | cons e es ih =>
      cases e with
      | step =>
          obtain ⟨hstore, hnext⟩ := hinv.step bus color
          obtain ⟨hfits, honly⟩ := ih _ hnext
          exact ⟨fun h => ⟨hstore, hfits h.2⟩, fun hend h => ⟨trivial, honly hend h.2⟩⟩
      | irq i dev =>
          obtain ⟨hkeep, hlose⟩ := hinv.irq bus color i dev
          refine ⟨fun h => ⟨trivial, (ih _ (hkeep h.1)).1 h.2⟩, fun hend h => ?_⟩
          by_cases hfits : IrqFits bus s (.irq i dev)
          · exact ⟨hfits, (ih _ (hkeep hfits)).2 hend h.2⟩
          · exact absurd h.2 ((hlose hfits).not_stores hend)

/-- A machine in front of no devices. -/
def idleMachine : Machine Unit := ⟨(), fun _ => none, ⟨false, false⟩, []⟩

/-- A character with an interrupt of the disk behind its scroll check. -/
def diskEvents : List (Event Unit) := [.step, .step, .irq 15 (), .step, .step]

/-- In the last row, the interrupt leaves the store behind the screen. -/
theorem not_storesOnScreen : ¬ ∀ (color : BitVec 16) (m : Machine Unit) (buf : List (BitVec 8))
    (c : Console) (es : List (Event Unit)),
    StoresOnScreen emptyBus color ⟨m, .next, buf, c⟩ es := by
  intro h
  have hstore :=
    (h 0x07#16 idleMachine [0x41#8, 0#8] ⟨fun _ => 0#8, 0#32, 24#32⟩ diskEvents).2.2.2.1
  refine not_isCell ?_ ?_ (hstore rfl)
  · decide +kernel
  · decide +kernel

end HelloOS.Printk
