/-
  What a run of interrupts prints.

  `do_IRQ` prints for every interrupt but the timer's: the keyboard's prints the character of its
  scan code first, the disk's write interrupt a message, and then each logs its vector. Behind any
  run the text printed is that of its interrupts, one after the other, and the character of a key
  depends on the scan codes of the earlier keyboard interrupts only (`irqs_text`).
-/
import HelloOS.Drivers.Typing
import HelloOS.Irq.Acknowledge

namespace HelloOS.Irq

open HelloOS.Lib HelloOS.Drivers HelloOS.Printk

variable {σ : Type} (dev : Bus σ)

/-- The state behind a sequence of interrupts. -/
def afterAll (ds : List (Delivery σ)) (s : PicMachine σ) : PicMachine σ :=
  ds.foldl (fun s d => interrupt dev d s) s

/-- What the keyboard's data port holds. -/
def scanCode (d : Delivery σ) : BitVec 8 := (dev.in8 0x60#16 d.dev).1

/-- The scan codes of the keyboard interrupts. -/
def scanCodes (ds : List (Delivery σ)) : List (BitVec 8) :=
  (ds.filter fun d => d.line = 1).map (scanCode dev)

/-- The character of the code `x` behind the codes `before`: the map entry of a make code that is no
    shift key's. -/
def keyText (before : List (BitVec 8)) (x : BitVec 8) : List (BitVec 8) :=
  if isMake x ∧ keyOf x ≠ 0x2a#8 ∧ keyOf x ≠ 0x36#8 then
    entryText (keycodeMapNormal (keyOf x) (held 0x2a#8 before || held 0x36#8 before))
  else []

/-- The hexadecimal digits of a vector of the chips. -/
def vectorText (l : Fin 16) : List (BitVec 8) :=
  [Format.chr '2', Format.chr ("0123456789abcdef".toList.getD l.val '0')]

/-- The text of one interrupt, behind the codes `before`. -/
def irqText (before : List (BitVec 8)) (d : Delivery σ) : List (BitVec 8) :=
  (if d.line = 1 then keyText before (scanCode dev d)
    else if d.line = 14 then chars "write success!!!!!\n" else []) ++
  if d.line = 0 then [] else chars "[info] \ncode: " ++ vectorText d.line ++ chars "\n"

/-- The text of a run: every interrupt, behind those in front of it. -/
def irqsText (ds : List (Delivery σ)) : List (BitVec 8) :=
  (List.range ds.length).flatMap fun i =>
    (ds[i]?.map fun d => irqText dev (scanCodes dev (ds.take i)) d).getD []

theorem textOf_parseKeycode (xs : List (BitVec 8)) (x : BitVec 8) :
    textOf (parseKeycode x (parseKeycodes xs).1).2 = keyText xs x := by
  rw [text_parseKeycode, parseKeycodes_state]
  rfl

/-- The line that logs an interrupt. -/
theorem textOf_code : ∀ l : Fin 16, textOf (kinfo "\ncode: %x\n" [BitVec.ofNat 64 (0x20 + l.val)]) =
    chars "[info] \ncode: " ++ vectorText l ++ chars "\n" := by
  decide +kernel

theorem textOf_init : textOf (kinfo "8259A init \n" []) = chars "[info] 8259A init \n" := by
  decide +kernel

theorem textOf_success :
    textOf [kerrPrintf "write success!!!!!\n" []] = chars "write success!!!!!\n" := by
  decide +kernel

/-- Vectors are told apart by their lines. -/
theorem vector_eq_iff (l k : Fin 16) :
    BitVec.ofNat 64 (0x20 + l.val) = BitVec.ofNat 64 (0x20 + k.val) ↔ l = k := by
  rw [Fin.ext_iff]
  constructor
  · intro h
    have hnat := congrArg BitVec.toNat h
    rw [BitVec.toNat_ofNat, BitVec.toNat_ofNat] at hnat
    omega
  · intro h
    rw [h]

/-- The drivers that `do_IRQ` calls for line `l`. -/
def handle (l : Fin 16) (s : PicMachine σ) : PicMachine σ :=
  if l = 1 then keyboardHandler (Pics.bus dev) s
  else if l = 15 then ataHandlerRead s
  else if l = 14 then ataHandlerWrite s
  else s

theorem doIrq_line (l : Fin 16) (s : PicMachine σ) :
    doIrq (Pics.bus dev) (BitVec.ofNat 64 (0x20 + l.val)) s =
      (if l = 0 then handle dev l s else (handle dev l s).print
        (kinfo "\ncode: %x\n" [BitVec.ofNat 64 (0x20 + l.val)])).ioOut8 (Pics.bus dev) 0x20#16
          0x20#8 := by
  have h1 := vector_eq_iff l 1
  have h14 := vector_eq_iff l 14
  have h15 := vector_eq_iff l 15
  have h0 := vector_eq_iff l 0
  change (_ = 0x21#64 ↔ _) at h1
  change (_ = 0x2e#64 ↔ _) at h14
  change (_ = 0x2f#64 ↔ _) at h15
  change (_ = 0x20#64 ↔ _) at h0
  unfold doIrq handle
  dsimp only
  simp only [h1, h14, h15, ne_eq, h0, ite_not]

/-- What a driver prints, and the keyboard's state behind it. -/
theorem handle_log {s : PicMachine σ} {xs : List (BitVec 8)} (l : Fin 16)
    (hkey : s.keyboard = (parseKeycodes xs).1) :
    let d : Delivery σ := ⟨l, s.dev.2⟩
    (handle dev l s).keyboard =
        (parseKeycodes (xs ++ if l = 1 then [scanCode dev d] else [])).1 ∧
      textOf (handle dev l s).printed = textOf s.printed ++
        if l = 1 then keyText xs (scanCode dev d)
        else if l = 14 then chars "write success!!!!!\n" else [] := by
  intro d
  unfold handle
  by_cases h1 : l = 1
  · rw [if_pos h1, if_pos h1, if_pos h1, parseKeycodes_concat]
    refine ⟨?_, ?_⟩
    · change (parseKeycode (scanCode dev d) s.keyboard).1 = _
      rw [hkey]
    · change textOf (s.printed ++ (parseKeycode (scanCode dev d) s.keyboard).2) = _
      rw [hkey, textOf_append, textOf_parseKeycode]
  rw [if_neg h1, if_neg h1, if_neg h1, List.append_nil]
  by_cases h15 : l = 15
  · rw [if_pos h15, if_neg (by rw [h15]; decide), List.append_nil]
    exact ⟨hkey, rfl⟩
  rw [if_neg h15]
  by_cases h14 : l = 14
  · rw [if_pos h14, if_pos h14]
    refine ⟨hkey, ?_⟩
    change textOf (s.printed ++ [_]) = _
    rw [textOf_append, textOf_success]
  · rw [if_neg h14, if_neg h14, List.append_nil]
    exact ⟨hkey, rfl⟩

/-- One interrupt. -/
theorem interrupt_log {s : PicMachine σ} (h : Programmed s) (d : Delivery σ) {xs : List (BitVec 8)}
    (hkey : s.keyboard = (parseKeycodes xs).1) :
    (interrupt dev d s).keyboard =
        (parseKeycodes (xs ++ if d.line = 1 then [scanCode dev d] else [])).1 ∧
      textOf (interrupt dev d s).printed = textOf s.printed ++ irqText dev xs d := by
  have hnr : interruptTable ⟨d.line.val, by omega⟩ = BitVec.ofNat 64 (0x20 + d.line.val) := rfl
  rw [h.interrupt_eq, hnr, doIrq_line]
  obtain ⟨hkeyboard, htext⟩ :=
    handle_log dev (s := { s with dev := (s.pics.deliver d.line, d.dev) }) d.line hkey
  unfold irqText
  by_cases h0 : d.line = 0
  · rw [if_pos h0, if_pos h0, List.append_nil]
    exact ⟨hkeyboard, htext⟩
  · rw [if_neg h0, if_neg h0, ← List.append_assoc, ← textOf_code]
    refine ⟨hkeyboard, (textOf_append _ _).trans ?_⟩
    rw [htext]

theorem scanCodes_concat (ds : List (Delivery σ)) (d : Delivery σ) : scanCodes dev (ds ++ [d]) =
    scanCodes dev ds ++ if d.line = 1 then [scanCode dev d] else [] := by
  unfold scanCodes
  rw [List.filter_append, List.map_append]
  by_cases h : d.line = 1
  · simp [h]
  · simp [h]

theorem irqsText_concat (ds : List (Delivery σ)) (d : Delivery σ) :
    irqsText dev (ds ++ [d]) = irqsText dev ds ++ irqText dev (scanCodes dev ds) d := by
  have hlast : (ds ++ [d])[ds.length]? = some d := List.getElem?_concat_length
  unfold irqsText
  rw [List.length_append, List.length_singleton, List.range_succ, List.flatMap_append,
    List.flatMap_singleton, hlast, List.take_left]
  refine congrArg₂ _ (List.flatMap_congr fun i hi => ?_) rfl
  have hlt := List.mem_range.mp hi
  rw [List.take_append_of_le_length (Nat.le_of_lt hlt), List.getElem?_append_left hlt]

/-- What holds behind a run: the chips and the gates are as programmed, and the keyboard has seen
    the scan codes of its interrupts. -/
theorem afterAll_log {s : PicMachine σ} (h : BetweenIrqs s) (hkey : s.keyboard = Keyboard.idle)
    (ds : List (Delivery σ)) :
    BetweenIrqs (afterAll dev ds s) ∧
      (afterAll dev ds s).keyboard = (parseKeycodes (scanCodes dev ds)).1 ∧
      textOf (afterAll dev ds s).printed = textOf s.printed ++ irqsText dev ds := by
  induction ds using List.reverseRecOn with
  | nil => exact ⟨h, hkey, (List.append_nil _).symm⟩
  | append_singleton ds d ih =>
      obtain ⟨hbetween, hkeyboard, htext⟩ := ih
      have hlast : afterAll dev (ds ++ [d]) s = interrupt dev d (afterAll dev ds s) :=
        List.foldl_concat ..
      obtain ⟨hkey', htext'⟩ := interrupt_log dev hbetween.programmed d hkeyboard
      rw [hlast, hkey', htext', htext, scanCodes_concat, irqsText_concat, List.append_assoc]
      exact ⟨hbetween.interrupt dev d, rfl, rfl⟩

/-- `init_interrupt` prints its line and leaves the keyboard alone. -/
theorem initInterrupt_log (bus : Bus σ) (s : Machine σ) :
    (initInterrupt bus s).keyboard = s.keyboard ∧
      textOf (initInterrupt bus s).printed = textOf s.printed ++ chars "[info] 8259A init \n" := by
  have hgates : ∀ (l : List (Fin 24)) (s : Machine σ),
      (l.foldl setIntrGate s).keyboard = s.keyboard ∧
        (l.foldl setIntrGate s).printed = s.printed := fun l => by
    induction l with
    | nil => exact fun s => ⟨rfl, rfl⟩
    | cons i l ih => exact fun s => ih (setIntrGate s i)
  have hports : ∀ (l : List (BitVec 16 × BitVec 8)) (s : Machine σ),
      (l.foldl (fun s w => s.ioOut8 bus w.1 w.2) s).keyboard = s.keyboard ∧
        (l.foldl (fun s w => s.ioOut8 bus w.1 w.2) s).printed = s.printed := fun l => by
    induction l with
    | nil => exact fun s => ⟨rfl, rfl⟩
    | cons w l ih => exact fun s => ih (s.ioOut8 bus w.1 w.2)
  unfold initInterrupt Machine.print
  dsimp only
  rw [(hports _ _).1, (hports _ _).2, (hgates _ _).1, (hgates _ _).2, textOf_append, textOf_init]
  exact ⟨rfl, rfl⟩

/-- **What interrupts print.** From `init_interrupt` on, whichever interrupts come in whatever
    order: the text printed is, in order, that of each interrupt, its line in the log behind the
    character of its key or the message of the disk. The characters are those of the keyboard's own
    sequence of scan codes, whatever comes in between. -/
theorem irqs_text (s : PicMachine σ) (hkey : s.keyboard = Keyboard.idle) (ds : List (Delivery σ)) :
    textOf (afterAll dev ds (initInterrupt (Pics.bus dev) s)).printed =
      textOf s.printed ++ chars "[info] 8259A init \n" ++ irqsText dev ds := by
  obtain ⟨hkeyboard, htext⟩ := initInterrupt_log (Pics.bus dev) s
  rw [← htext]
  exact (afterAll_log dev (initInterrupt_between dev s) (hkeyboard.trans hkey) ds).2.2

/-- Left shift, the timer, and the key of `a`. -/
theorem irqs_text_shift : ∃ (bus : Bus (BitVec 8)) (s : PicMachine (BitVec 8)),
    textOf (afterAll bus [⟨1, 0x2a#8⟩, ⟨0, 0#8⟩, ⟨1, 0x1e#8⟩]
      (initInterrupt (Pics.bus bus) s)).printed = chars "[info] 8259A init \n" ++
        chars "[info] \ncode: 21\nA[info] \ncode: 21\n" := by
  let bus : Bus (BitVec 8) := ⟨fun _ x => (x, x), fun _ _ x => x, fun _ x => (0#16, x),
    fun _ _ x => x⟩
  let blank : Pic := ⟨.ocw1, false, false, 0#8, 0#8, false, 0#8, ∅⟩
  refine ⟨bus, ⟨(⟨blank, blank⟩, 0#8), fun _ => none, Keyboard.idle, []⟩, ?_⟩
  rw [irqs_text bus _ rfl]
  exact congrArg (chars "[info] 8259A init \n" ++ ·) (by decide +kernel)

end HelloOS.Irq
