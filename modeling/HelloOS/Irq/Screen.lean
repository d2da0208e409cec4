/-
  What interrupts show on the screen.

  Every text an interrupt prints is tidy and starts on its line, so behind no sequence of
  interrupts does `print` come to the rows it loses (`irqs_shown`).
-/
import HelloOS.Irq.Log
import HelloOS.Printk.Shown

namespace HelloOS.Irq

open HelloOS.Lib HelloOS.Drivers HelloOS.Printk

variable {σ : Type} (dev : Bus σ)

/-! ## Keys -/

/-- Neither a newline nor a tab nor a byte outside ASCII. -/
def Plain (ch : BitVec 8) : Prop := ch < 0x80#8 ∧ ch ≠ tabChar ∧ ch ≠ newlineChar

theorem keycodeRows_plain : ∀ r ∈ keycodeRows, ∀ column : Bool,
    Plain ((BitVec.ofNat 32 (if column then r.2 else r.1).toNat).setWidth 8) := by
  unfold Plain
  decide +kernel

theorem keycode_plain (x : BitVec 8) (column : Bool) :
    Plain ((keycodeMapNormal x column).setWidth 8) := by
  have hzero : Plain ((0#32).setWidth 8) := ⟨by decide, by decide, by decide⟩
  unfold keycodeMapNormal
  cases hrow : keycodeRows[x.toNat]? with
  | none => exact hzero
  | some r => exact keycodeRows_plain r (List.mem_of_getElem? hrow) column

theorem tidy_nil : Tidy [] := ⟨fun _ h => absurd h List.not_mem_nil, List.not_mem_nil, .nil⟩

theorem Plain.tidy {ch : BitVec 8} (h : Plain ch) : Tidy [ch] :=
  ⟨fun _ hch => List.mem_singleton.mp hch ▸ h.1, fun hch => h.2.1 (List.mem_singleton.mp hch).symm,
    .singleton ch⟩

/-- A key prints a character at most. -/
theorem keyText_cases (before : List (BitVec 8)) (x : BitVec 8) : keyText before x = [] ∨
    ∃ ch, keyText before x = [ch] ∧ Plain ch := by
  unfold keyText
  split
  · unfold entryText
    split
    · exact Or.inl rfl
    · exact Or.inr ⟨_, rfl, keycode_plain _ _⟩
  · exact Or.inl rfl

/-! ## Interrupts -/

/-- A text that can follow any other. -/
def Joins (t : List (BitVec 8)) : Prop := Tidy t ∧ t.head? ≠ some newlineChar

theorem joins_nil : Joins [] := ⟨tidy_nil, by decide⟩

theorem Joins.append {t u : List (BitVec 8)} (ht : Joins t) (hu : Joins u) :
    Joins (t ++ u) := by
  refine ⟨ht.1.append hu.1 hu.2, fun h => ?_⟩
  cases t with
  | nil => exact hu.2 h
  | cons ch t => exact ht.2 h

theorem joins_code : Joins (chars "[info] \ncode: ") := by
  unfold Joins
  decide +kernel

theorem joins_vector : ∀ l : Fin 16, Joins (vectorText l ++ chars "\n") := by
  unfold Joins
  decide +kernel

/-- The line of an interrupt in the log. -/
theorem joins_line (l : Fin 16) :
    Joins (chars "[info] \ncode: " ++ vectorText l ++ chars "\n") := by
  rw [List.append_assoc]
  exact joins_code.append (joins_vector l)

theorem joins_success : Joins (chars "write success!!!!!\n") := by
  unfold Joins
  decide +kernel

theorem joins_init : Joins (chars "[info] 8259A init \n") := by
  unfold Joins
  decide +kernel

theorem joins_keyText (before : List (BitVec 8)) (x : BitVec 8) :
    Joins (keyText before x) := by
  rcases keyText_cases before x with hnone | ⟨ch, hone, hplain⟩
  · rw [hnone]
    exact joins_nil
  · rw [hone]
    exact ⟨hplain.tidy, fun h => hplain.2.2 (Option.some.inj h)⟩

theorem joins_irqText (before : List (BitVec 8)) (d : Delivery σ) :
    Joins (irqText dev before d) := by
  unfold irqText
  refine Joins.append ?_ ?_
  · split
    · exact joins_keyText before _
    · split
      · exact joins_success
      · exact joins_nil
  · split
    · exact joins_nil
    · exact joins_line d.line

theorem joins_irqsText (ds : List (Delivery σ)) : Joins (irqsText dev ds) := by
  induction ds using List.reverseRecOn with
  | nil => exact joins_nil
  | append_singleton ds d ih =>
    rw [irqsText_concat]
    exact ih.append (joins_irqText dev _ d)

/-- The calls of a log. -/
def callsOf (s : PicMachine σ) : List Call := s.printed.map Print.call

/-- The text stays tidy, whatever interrupts come. -/
theorem tidy_afterAll {s : PicMachine σ} (hkey : s.keyboard = Keyboard.idle)
    (hlog : s.printed = []) {qs : List Call} (ht : Tidy (textsOf qs)) (ds : List (Delivery σ)) :
    Tidy (textsOf (qs ++ callsOf (afterAll dev ds (initInterrupt (Pics.bus dev) s)))) := by
  obtain ⟨hkeyboard, hinit⟩ := initInterrupt_log (Pics.bus dev) s
  have htext := (afterAll_log dev (initInterrupt_between dev s) (hkeyboard.trans hkey) ds).2.2
  have hjoins := joins_init.append (joins_irqsText dev ds)
  rw [hlog] at hinit
  rw [hinit] at htext
  unfold callsOf
  rw [textsOf_append, textsOf_prints, htext]
  exact ht.append hjoins.1 hjoins.2

/-- **The screen under interrupts.** Behind any calls of `print` whose text is tidy, from
    `init_interrupt` on: whichever interrupts come in whatever order, behind every character but a
    newline of all that was printed the screen shows the last 25 rows of it. -/
theorem irqs_shown (s : PicMachine σ) (hkey : s.keyboard = Keyboard.idle) (hlog : s.printed = [])
    (qs : List Call) (ht : Tidy (textsOf qs)) (ds : List (Delivery σ)) (c₀ : Console) :
    let calls := qs ++ callsOf (afterAll dev ds (initInterrupt (Pics.bus dev) s))
    calls.foldl Console.call (clearScreen c₀) = (clearScreen c₀).run (colored calls) ∧
      ∀ (n : ℕ) (q : Colored), (colored calls)[n]? = some q → q.2 ≠ newlineChar →
        Shows ((clearScreen c₀).run ((colored calls).take (n + 1)))
          (layout ((colored calls).take (n + 1))) := by
  intro calls
  refine ⟨calls_eq_run calls _, fun n q hq hnl => ?_⟩
  exact shows_of_tidy (tidy_afterAll dev hkey hlog ht ds) hq hnl

/-- A keyboard whose every code is that of `a`: forty keys scroll the screen. -/
theorem irqs_shown_keys : ∃ (bus : Bus Unit) (s : PicMachine Unit) (qs : List Call),
    qs.length = 1 ∧ ∀ c₀ : Console,
      let calls := qs ++
        callsOf (afterAll bus (List.replicate 40 ⟨1, ()⟩) (initInterrupt (Pics.bus bus) s))
      ∀ (n : ℕ) (q : Colored), (colored calls)[n]? = some q → q.2 ≠ newlineChar →
        Shows ((clearScreen c₀).run ((colored calls).take (n + 1)))
          (layout ((colored calls).take (n + 1))) := by
  let bus : Bus Unit := ⟨fun _ x => (0x1e#8, x), fun _ _ x => x, fun _ x => (0#16, x),
    fun _ _ x => x⟩
  let blank : Pic := ⟨.ocw1, false, false, 0#8, 0#8, false, 0#8, ∅⟩
  refine ⟨bus, ⟨(⟨blank, blank⟩, ()), fun _ => none, Keyboard.idle, []⟩,
    [⟨wordWhite, [0x61#8, newlineChar]⟩], rfl, fun c₀ => ?_⟩
  exact (irqs_shown bus _ rfl rfl [⟨wordWhite, [0x61#8, newlineChar]⟩] (by decide) _ c₀).2

end HelloOS.Irq
