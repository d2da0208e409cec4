/-
  What a sequence of scan codes types (`drivers/keyboard/keyboard.c`).

  The driver keeps two flags, and behind any sequence they say which shift keys are held
  (`parseKeycodes_state`). A shift key prints nothing, but `parse_keycode` has no case for
  ctrl and alt: their make codes reach the default, and their map entries, 0x1d and 0x38, are
  printed like any key's. All other codes print what they should (`codeText_cases`), so a
  sequence types its text exactly when neither make code is in it (`typed_iff`).
-/
import HelloOS.Drivers.Keyboard
import HelloOS.Printk.Text
import Mathlib.Data.List.GetD

namespace HelloOS.Drivers

open HelloOS.Printk

/-! ## The driver's run -/

/-- No shift key is held: the initial values of the static variables. -/
def Keyboard.idle : Keyboard := ⟨false, false⟩

/-- `parse_keycode` on the scan codes `xs`, one after the other: the driver's state behind them
    and what it has printed. -/
def parseKeycodes (xs : List (BitVec 8)) : Keyboard × List Print :=
  xs.foldl (fun s x => ((parseKeycode x s.1).1, s.2 ++ (parseKeycode x s.1).2)) (Keyboard.idle, [])

theorem parseKeycodes_concat (xs : List (BitVec 8)) (x : BitVec 8) :
    parseKeycodes (xs ++ [x]) = ((parseKeycode x (parseKeycodes xs).1).1,
      (parseKeycodes xs).2 ++ (parseKeycode x (parseKeycodes xs).1).2) := by
  unfold parseKeycodes
  rw [List.foldl_append]
  rfl

/-! ## What should be typed -/

/-- A make code: bit 7 is clear. -/
def isMake (x : BitVec 8) : Bool := !x.getLsbD 7

/-- The key of a make or break code. -/
def keyOf (x : BitVec 8) : BitVec 8 := x &&& 0x7f#8

/-- Of the codes so far, the latest one of `key` is a make code. -/
def held (key : BitVec 8) (before : List (BitVec 8)) : Bool :=
  ((before.filter fun x => keyOf x = key).getLast?).any isMake

/-- Left and right shift, ctrl and alt. -/
def modifiers : List (BitVec 8) := [0x2a#8, 0x36#8, 0x1d#8, 0x38#8]

/-- The character of a map entry; 0 is none. -/
def entryText (entry : BitVec 32) : List (BitVec 8) :=
  if entry = 0#32 then [] else [entry.setWidth 8]

/-- What the code `x` should print behind the codes `before`. -/
def codeText (before : List (BitVec 8)) (x : BitVec 8) : List (BitVec 8) :=
  if isMake x ∧ keyOf x ∉ modifiers then
    entryText (keycodeMapNormal (keyOf x) (held 0x2a#8 before || held 0x36#8 before))
  else []

/-- What the codes should print: every code, behind those in front of it. -/
def typed (xs : List (BitVec 8)) : List (BitVec 8) :=
  (List.range xs.length).flatMap fun i => codeText (xs.take i) (xs.getD i 0#8)

theorem typed_concat (xs : List (BitVec 8)) (x : BitVec 8) :
    typed (xs ++ [x]) = typed xs ++ codeText xs x := by
  unfold typed
  rw [List.length_append, List.length_singleton, List.range_succ, List.flatMap_append,
    List.flatMap_singleton, List.take_left, List.getD_append_right _ _ _ _ (Nat.le_refl _),
    Nat.sub_self, List.getD_cons_zero]
  congr 1
  refine List.flatMap_congr fun i hi => ?_
  have hlt := List.mem_range.mp hi
  rw [List.take_append_of_le_length (Nat.le_of_lt hlt), List.getD_append _ _ _ _ hlt]

theorem held_concat (key : BitVec 8) (xs : List (BitVec 8)) (x : BitVec 8) :
    held key (xs ++ [x]) = if keyOf x = key then isMake x else held key xs := by
  unfold held
  rw [List.filter_append]
  by_cases h : keyOf x = key
  · simp [h]
  · simp [h]

/-! ## What is typed -/

/-- The flags say which shift keys are held. -/
theorem parseKeycodes_state (xs : List (BitVec 8)) :
    (parseKeycodes xs).1 = ⟨held 0x2a#8 xs, held 0x36#8 xs⟩ := by
  induction xs using List.reverseRecOn with
  | nil => rfl
  | append_singleton xs x ih =>
      rw [parseKeycodes_concat, ih, held_concat, held_concat]
      unfold parseKeycode
      change (if keyOf x = 0x2a#8 then _
        else if keyOf x = 0x36#8 then _ else _ : Keyboard × _).1 = _
      by_cases hl : keyOf x = 0x2a#8
      · rw [if_pos hl, if_pos hl, if_neg (by rw [hl]; decide)]
        rfl
      · by_cases hr : keyOf x = 0x36#8
        · rw [if_neg hl, if_pos hr, if_neg hl, if_pos hr]
          rfl
        · rw [if_neg hl, if_neg hr, if_neg hl, if_neg hr]
          split <;> rfl

/-- No entry of the map is lost when it becomes a `char`. -/
theorem entry_char : ∀ (x : BitVec 8) (column : Bool),
    keycodeMapNormal x column ≠ 0#32 → (keycodeMapNormal x column).setWidth 8 ≠ 0#8 := by
  decide +kernel

/-- The text of one code: that of its entry, unless it is a break code or a shift key's. -/
theorem text_parseKeycode (x : BitVec 8) (k : Keyboard) :
    textOf (parseKeycode x k).2 =
      if isMake x ∧ keyOf x ≠ 0x2a#8 ∧ keyOf x ≠ 0x36#8 then
        entryText (keycodeMapNormal (keyOf x) (k.shiftL || k.shirtR))
      else [] := by
  unfold parseKeycode
  change textOf (if keyOf x = 0x2a#8 then _ else if keyOf x = 0x36#8 then _
    else if isMake x && keycodeMapNormal (keyOf x) (k.shiftL || k.shirtR) != 0#32 then
      (k, [kprintf "%c"
        [((keycodeMapNormal (keyOf x) (k.shiftL || k.shirtR)).setWidth 8).signExtend 64]])
    else _ : Keyboard × List Print).2 = _
  by_cases hl : keyOf x = 0x2a#8
  · rw [if_pos hl, if_neg fun h => h.2.1 hl]
    rfl
  by_cases hr : keyOf x = 0x36#8
  · rw [if_neg hl, if_pos hr, if_neg fun h => h.2.2 hr]
    rfl
  rw [if_neg hl, if_neg hr]
  have hchar := entry_char (keyOf x) (k.shiftL || k.shirtR)
  generalize keycodeMapNormal (keyOf x) (k.shiftL || k.shirtR) = entry at hchar ⊢
  cases hm : isMake x with
  | false => simp [textOf]
  | true =>
      by_cases h0 : entry = 0#32
      · simp [h0, entryText, textOf]
      · have hset : ((entry.setWidth 8).signExtend 64).setWidth 8 = entry.setWidth 8 :=
          setWidth_signExtend _
        have hprint : textOf [kprintf "%c" [(entry.setWidth 8).signExtend 64]] =
            [entry.setWidth 8] := by
          rw [textOf, List.flatMap_singleton, text_char, hset]
          simp [hchar h0]
        simp [h0, hl, hr, entryText, hprint]

/-- The make codes of ctrl and alt. -/
theorem make_ctrl_alt : ∀ x : BitVec 8,
    (isMake x ∧ (keyOf x = 0x1d#8 ∨ keyOf x = 0x38#8)) ↔ x = 0x1d#8 ∨ x = 0x38#8 := by
  decide +kernel

/-- The next code prints what it should, unless it is the make code of ctrl or alt: that prints
    its entry, and should print nothing. -/
theorem codeText_cases (xs : List (BitVec 8)) (x : BitVec 8) :
    (¬ (x = 0x1d#8 ∨ x = 0x38#8) ∧
      textOf (parseKeycode x (parseKeycodes xs).1).2 = codeText xs x) ∨
    ((x = 0x1d#8 ∨ x = 0x38#8) ∧ codeText xs x = [] ∧
      (textOf (parseKeycode x (parseKeycodes xs).1).2).length = 1) := by
  rw [text_parseKeycode, parseKeycodes_state]
  unfold codeText modifiers
  by_cases hx : x = 0x1d#8 ∨ x = 0x38#8
  · refine Or.inr ⟨hx, ?_⟩
    generalize (held 0x2a#8 xs || held 0x36#8 xs) = column
    rcases hx with rfl | rfl
    · revert column
      decide +kernel
    · revert column
      decide +kernel
  · refine Or.inl ⟨hx, ?_⟩
    have hmod : (isMake x ∧ keyOf x ≠ 0x2a#8 ∧ keyOf x ≠ 0x36#8) ↔
        (isMake x ∧ keyOf x ∉ [0x2a#8, 0x36#8, 0x1d#8, 0x38#8]) := by
      rw [← make_ctrl_alt x] at hx
      simp only [List.mem_cons, List.not_mem_nil, or_false]
      tauto
    simp only [hmod]

/-- What should be typed is among what is typed. -/
theorem typed_sublist (xs : List (BitVec 8)) :
    (typed xs).Sublist (textOf (parseKeycodes xs).2) := by
  induction xs using List.reverseRecOn with
  | nil => exact List.Sublist.refl []
  | append_singleton xs x ih =>
      rw [typed_concat, parseKeycodes_concat, textOf_append]
      refine ih.append ?_
      rcases codeText_cases xs x with ⟨-, heq⟩ | ⟨-, hnil, -⟩
      · rw [heq]
      · rw [hnil]
        exact List.nil_sublist _

/-- **What the keyboard types.** For every sequence of scan codes from a state in which no shift
    key is held: what `parse_keycode` prints is, in order, the entry of every make code of a
    key that is no modifier, in the column that the shift keys held select, exactly when the
    make codes of ctrl and alt are not among them. -/
theorem typed_iff (xs : List (BitVec 8)) :
    textOf (parseKeycodes xs).2 = typed xs ↔ 0x1d#8 ∉ xs ∧ 0x38#8 ∉ xs := by
  induction xs using List.reverseRecOn with
  | nil => simp [parseKeycodes, typed, textOf]
  | append_singleton xs x ih =>
      rw [typed_concat, parseKeycodes_concat, textOf_append]
      rcases codeText_cases xs x with ⟨hx, heq⟩ | ⟨hx, hnil, hlen⟩
      · rw [heq, List.append_left_inj, ih]
        simp only [List.mem_append, List.mem_singleton]
        tauto
      · -- from the first such code on, more is printed than should be
        have hle := (typed_sublist xs).length_le
        constructor
        · intro h
          have hlengths := congrArg List.length h
          rw [hnil, List.append_nil, List.length_append, hlen] at hlengths
          omega
        · rintro ⟨hctrl, halt⟩
          rcases hx with rfl | rfl
          · exact absurd (List.mem_append_right xs (List.mem_singleton_self _)) hctrl
          · exact absurd (List.mem_append_right xs (List.mem_singleton_self _)) halt

/-- Pressing alt prints an 8. -/
theorem not_typed_alt :
    textOf (parseKeycodes [0x38#8]).2 = ['8'].map Format.chr ∧ typed [0x38#8] = [] ∧
      textOf (parseKeycodes [0x38#8]).2 ≠ typed [0x38#8] := by
  decide +kernel

end HelloOS.Drivers
