/-
  The kernel's own messages fit `buf`.

  A format overruns `buf` where its arguments ask for it (`vsprintf_fits_iff`): through a `*`, or
  through a long string. The formats in the kernel's source have no `*`, and `%s` in one of them
  only, which is given a file name. What such a format can store has a bound that stands in the
  format (`outputs_length_le`), and for each message it is below 512 (`messages_fit`).
-/
import HelloOS.Printk.Output
import HelloOS.Printk.Text

namespace HelloOS.Printk.Format

open HelloOS.Lib

/-! ## Formats without `*` -/

/-- The number that an amount is written as. -/
def amountValue : Option Amount → ℕ
  | some (.decimal n) => n.value
  | _ => 0

/-- No width and no precision is an argument, and none is out of range. -/
def Directive.Fixed (d : Directive) : Prop :=
  amountArgs d.width = 0 ∧ amountArgs d.precision = 0 ∧
    amountValue d.width < 2 ^ 30 ∧ amountValue d.precision < 2 ^ 30

instance (d : Directive) : Decidable d.Fixed := inferInstanceAs (Decidable (_ ∧ _))

def Piece.Fixed : Piece → Prop
  | text _ _ _ => True
  | directive d => d.Fixed

instance : (p : Piece) → Decidable p.Fixed
  | .text _ _ _ => .isTrue trivial
  | .directive d => inferInstanceAs (Decidable d.Fixed)

/-- The most that a directive stores if strings have `len` characters. A number has 22 digits at
    most, as many as 2^64 has in octal, a sign and a prefix of two. -/
def Directive.room (len : ℕ) (d : Directive) : ℕ :=
  max (amountValue d.width)
    (if d.conversion = .s then len else 3 + max (amountValue d.precision) 22)

def Piece.room (len : ℕ) : Piece → ℕ
  | text t _ _ => t.length
  | directive d => d.room len

/-- The arguments that are strings, from argument `k` on. -/
def stringArgs : ℕ → List Piece → List ℕ
  | _, [] => []
  | k, .text _ _ _ :: ps => stringArgs k ps
  | k, .directive d :: ps =>
    (if d.conversion = .s then [k + d.stars] else []) ++ stringArgs (k + d.argCount) ps

section Fixed

variable {va : VaList} {strings : ℕ → List Byte} {len k : ℕ} {d : Directive}

/-- An amount that reads no argument is a numeral, if it is there. -/
theorem amount_cases {a : Option Amount} (h : amountArgs a = 0) :
    a = none ∨ ∃ n, a = some (.decimal n) := by
  cases a with
  | none => exact .inl rfl
  | some a =>
      cases a with
      | decimal n => exact .inr ⟨n, rfl⟩
      | star => exact absurd h Nat.one_ne_zero

theorem amountOk_of_fixed {a : Option Amount} (hargs : amountArgs a = 0)
    (hlt : amountValue a < 2 ^ 30) : amountOk va k a := by
  obtain rfl | ⟨n, rfl⟩ := amount_cases hargs
  · trivial
  · exact hlt

theorem fieldWidth_of_fixed (h : d.Fixed) : d.fieldWidth va k = amountValue d.width := by
  unfold Directive.fieldWidth
  obtain hw | ⟨n, hw⟩ := amount_cases h.1 <;> rw [hw] <;> rfl

theorem fieldPrecision_of_fixed (h : d.Fixed) :
    (d.fieldPrecision va k).getD 0 = amountValue d.precision := by
  unfold Directive.fieldPrecision
  obtain hp | ⟨n, hp⟩ := amount_cases h.2.1 <;> rw [hp] <;> rfl

/-! ## How long the output is -/

theorem padded_length (toLeft : Bool) (width : ℕ) (t : List Byte) :
    (padded toLeft width t).length = max width t.length := by
  unfold padded
  cases toLeft <;> simp <;> omega

theorem numberText_length_le (flags : BitVec 32) (num : BitVec 64) {base : ℕ} (hbase : 8 ≤ base)
    (width precision : ℕ) :
    (numberText flags num base width precision).length ≤ max width (3 + max precision 22) := by
  have habs : (numValue flags num).natAbs < 2 ^ 64 := by
    rw [← abs_toNat]
    exact BitVec.isLt _
  have hpow : 2 ^ 64 ≤ base ^ 22 := le_trans (by decide : 2 ^ 64 ≤ 8 ^ 22)
    (Nat.pow_le_pow_left hbase 22)
  have hdigits : (Numeral.render (digitChar flags) base (numValue flags num).natAbs).length ≤ 22 :=
    Numeral.render_length_le _ (by omega) (by decide) (habs.trans_le hpow)
  have hsign := signText_length_le flags (numValue flags num)
  have hprefix : (baseText flags base).length ≤ 2 := by
    rw [baseText_length]
    split_ifs <;> decide
  unfold numberText numberParts NumberParts.text
  simp only [List.length_append, List.length_replicate]
  cases has flags left <;> cases has flags zeropad <;> simp <;> omega

theorem Directive.output_length_le (h : d.Fixed)
    (hstring : d.conversion = .s → (strings (k + d.stars)).length ≤ len) :
    (d.output va strings k).length ≤ d.room len := by
  have hw : d.fieldWidth va k = amountValue d.width := fieldWidth_of_fixed h
  have hp : (d.fieldPrecision va (k + amountArgs d.width)).getD 0 = amountValue d.precision :=
    fieldPrecision_of_fixed h
  have hnumber : ∀ flags num base, 8 ≤ base →
      (numberText flags num base (amountValue d.width) (amountValue d.precision)).length ≤
        max (amountValue d.width) (3 + max (amountValue d.precision) 22) :=
    fun flags num base hbase => numberText_length_le flags num hbase _ _
  have hroom : d.conversion ≠ .s → d.room len =
      max (amountValue d.width) (3 + max (amountValue d.precision) 22) := fun hs => by
    rw [Directive.room, if_neg hs]
  unfold Directive.output
  dsimp only
  rw [hw, hp]
  cases hc : d.conversion <;> dsimp only
  case s =>
    have hlen := hstring hc
    rw [padded_length, List.length_take, Directive.room, if_pos hc]
    omega
  all_goals rw [hroom (by rw [hc]; decide)]
  case c =>
    rw [padded_length, List.length_singleton]
    omega
  case p =>
    split
    · refine (numberText_length_le _ _ (by decide) 16 _).trans ?_
      omega
    · exact hnumber _ _ 16 (by decide)
  case percent =>
    rw [List.length_singleton]
    omega
  all_goals exact hnumber _ _ _ (by decide)

/-- The output of some pieces is no longer than they have room for, whatever the arguments. -/
theorem outputs_length_le {ps : List Piece} (hfixed : ∀ p ∈ ps, p.Fixed)
    (hstrings : ∀ i ∈ stringArgs k ps, (strings i).length ≤ len) :
    (outputs va strings k ps).length ≤ (ps.map (Piece.room len)).sum := by
  induction ps generalizing k with
  | nil => exact le_refl _
  | cons p ps ih =>
      obtain ⟨hp, hps⟩ := List.forall_mem_cons.mp hfixed
      rw [outputs, List.length_append, List.map_cons, List.sum_cons]
      cases p with
      | text t nul percent => exact Nat.add_le_add (le_refl _) (ih hps hstrings)
      | directive d =>
          obtain ⟨hown, hrest⟩ := List.forall_mem_append.mp hstrings
          refine Nat.add_le_add (Directive.output_length_le hp fun hc => ?_) (ih hps hrest)
          exact hown _ (by rw [if_pos hc]; exact List.mem_singleton_self _)

/-- Without a `*` the arguments match the format if the strings are there. -/
theorem argsOk_of_fixed {ps : List Piece} (hfixed : ∀ p ∈ ps, p.Fixed)
    (hstrings : ∀ i ∈ stringArgs k ps, va.word i ≠ 0#64 ∧
      CString va.mem (va.word i) (strings i)) : ArgsOk va strings k ps := by
  induction ps generalizing k with
  | nil => trivial
  | cons p ps ih =>
      obtain ⟨hp, hps⟩ := List.forall_mem_cons.mp hfixed
      cases p with
      | text t nul percent => exact ⟨trivial, ih hps hstrings⟩
      | directive d =>
          obtain ⟨hown, hrest⟩ := List.forall_mem_append.mp hstrings
          have harg : d.conversion = .s → k + d.stars ∈
              if d.conversion = .s then [k + d.stars] else [] := fun hc => by
            rw [if_pos hc]
            exact List.mem_singleton_self _
          exact ⟨⟨amountOk_of_fixed hp.1 hp.2.2.1, amountOk_of_fixed hp.2.1 hp.2.2.2,
            fun hc => (hown _ (harg hc)).1, fun hc => (hown _ (harg hc)).2⟩, ih hps hrest⟩

end Fixed

/-- A format without `*` fits `buf` if it has room, for every argument list whose strings are no
    longer than `len`. -/
theorem vsprintf_fits_fixed (va : VaList) {len : ℕ} (hlen : len < 2 ^ 31) {ps : List Piece}
    (hfixed : ∀ p ∈ ps, p.Fixed) (hroom : (ps.map (Piece.room len)).sum ≤ 511)
    (hstrings : ∀ i ∈ stringArgs 0 ps, va.word i ≠ 0#64 ∧
      ∃ t : List Byte, t.length ≤ len ∧ CString va.mem (va.word i) t)
    {fuel : ℕ} (hfuel : loopFuel ≤ fuel) :
    ∃ s, vsprintf fuel va (renderAll ps) = some s ∧ s.str.length ≤ bufSize := by
  have hex : ∀ i, ∃ t : List Byte, t.length ≤ len ∧
      (i ∈ stringArgs 0 ps → CString va.mem (va.word i) t) := fun i => by
    by_cases hi : i ∈ stringArgs 0 ps
    · obtain ⟨-, t, ht, hstr⟩ := hstrings i hi
      exact ⟨t, ht, fun _ => hstr⟩
    · exact ⟨[], Nat.zero_le _, fun h => absurd h hi⟩
  choose strings hshort hstr using hex
  have hok : ArgsOk va strings 0 ps :=
    argsOk_of_fixed hfixed fun i hi => ⟨(hstrings i hi).1, hstr i hi⟩
  refine ⟨⟨outputs va strings 0 ps ++ [0#8], (ps.map Piece.argCount).sum, []⟩, ?_, ?_⟩
  · rw [vsprintf, formatLoop_pieces (s := ⟨[], 0, []⟩) hfuel
      (fun i => (hshort i).trans_lt hlen) (le_refl _) hok]
    simp [State.put]
  · have hout : (outputs va strings 0 ps).length ≤ (ps.map (Piece.room len)).sum :=
      outputs_length_le hfixed fun i _ => hshort i
    change (outputs va strings 0 ps ++ [0#8]).length ≤ 512
    rw [List.length_append, List.length_singleton]
    omega

/-! ## The messages -/

/-- Literal text, of the characters `l`. -/
def lit (s : String) {l : List Char} (_ : s = String.ofList l)
    (h : 0#8 ∉ l.map chr ∧ chr '%' ∉ l.map chr) : Piece := .text (l.map chr) h.1 h.2

/-- The end of a line. -/
def newline : Piece := lit "\n" rfl (by decide)

/-- A conversion alone, such as `%x`. -/
def bare (conv : Conversion) : Piece := .directive ⟨[], none, none, none, conv, leading_none⟩

/-- A conversion of a `long`, such as `%lx`. -/
def long (conv : Conversion) : Piece := .directive ⟨[], none, none, some .l, conv, leading_none⟩

/-- `%#04x`. -/
def hexByte : Piece :=
  .directive ⟨[.special, .zeropad], some (.decimal ⟨[chr '4'], 4, by decide, by decide⟩), none,
    none, .x, by rintro _ ⟨⟩; decide⟩

/-- `%#018lx`. -/
def hexLong : Piece :=
  .directive ⟨[.special, .zeropad], some (.decimal ⟨[chr '1', chr '8'], 18, by decide, by decide⟩),
    none, some .l, .x, by rintro _ ⟨⟩; decide⟩

/-- A format of the source, and its pieces. -/
structure Message where
  fmt : String
  pieces : List Piece
  render : renderAll pieces = chars fmt ++ [0#8]

/-- The format `fmt`, of the characters `l`. -/
def message (fmt : String) {l : List Char} (hl : fmt = String.ofList l) (pieces : List Piece)
    (h : renderAll pieces = l.map chr ++ [0#8]) : Message where
  fmt := fmt
  pieces := pieces
  render := by rw [h, hl, chars, String.toList_ofList]

/-- The formats that the kernel's source passes to the functions of the `printf` kind. The format
    that `sys_printf` passes on is the user's. -/
def messages : List Message :=
  -- `include/kprint.h`: in front of the messages of a level
  [message "[info] " rfl [lit "[info] " rfl (by decide)] (by decide),
    message "[debug] (%s:%d) " rfl [lit "[debug] (" rfl (by decide), bare .s,
      lit ":" rfl (by decide), bare .d, lit ") " rfl (by decide)] (by decide),
    message "[warn] " rfl [lit "[warn] " rfl (by decide)] (by decide),
    message "[error] " rfl [lit "[error] " rfl (by decide)] (by decide),
    -- `kernel/kernel.c`
    message "[info] e820 memory: addr:%x len:%d type:%d\n" rfl
      [lit "[info] e820 memory: addr:" rfl (by decide), bare .x, lit " len:" rfl (by decide),
        bare .d, lit " type:" rfl (by decide), bare .d, newline] (by decide),
    -- `mm/mm.c`, `mm/alloc.c`
    message "kernel code start_phyaddr:%x end_phyaddr:%x\n" rfl
      [lit "kernel code start_phyaddr:" rfl (by decide), bare .x,
        lit " end_phyaddr:" rfl (by decide), bare .x, newline] (by decide),
    message "total memory: %d\n" rfl [lit "total memory: " rfl (by decide), bare .d, newline]
      (by decide),
    message "page_bitmap start_addr:%x page_bits_size:%d page_bits_length:%d\n" rfl
      [lit "page_bitmap start_addr:" rfl (by decide), bare .x,
        lit " page_bits_size:" rfl (by decide), bare .d,
        lit " page_bits_length:" rfl (by decide), bare .d, newline] (by decide),
    message "pages_struct start_addr:%x pages_size:%d pages_length:%d\n" rfl
      [lit "pages_struct start_addr:" rfl (by decide), bare .x,
        lit " pages_size:" rfl (by decide), bare .d,
        lit " pages_length:" rfl (by decide), bare .d, newline] (by decide),
    message "zones_struct start_addr:%x zones_size:%d zones_length:%d\n" rfl
      [lit "zones_struct start_addr:" rfl (by decide), bare .x,
        lit " zones_size:" rfl (by decide), bare .d,
        lit " zones_length:" rfl (by decide), bare .d, newline] (by decide),
    message "alloc_pages error zone_select index\n" rfl
      [lit "alloc_pages error zone_select index\n" rfl (by decide)] (by decide),
    -- `kernel/irq/irq.c`, `kernel/syscall/syscall.c`
    message "8259A init \n" rfl [lit "8259A init \n" rfl (by decide)] (by decide),
    message "\ncode: %x\n" rfl [lit "\ncode: " rfl (by decide), bare .x, newline] (by decide),
    message "no_system_call is calling, NR:%#04x\n" rfl
      [lit "no_system_call is calling, NR:" rfl (by decide), hexByte, newline] (by decide),
    -- `kernel/sched/task.c`
    message "next:%lx\n" rfl [lit "next:" rfl (by decide), long .x, newline] (by decide),
    message "prev->thread->rsp0:%#018lx\n" rfl
      [lit "prev->thread->rsp0:" rfl (by decide), hexLong, newline] (by decide),
    message "next->thread->rsp0:%#018lx\n" rfl
      [lit "next->thread->rsp0:" rfl (by decide), hexLong, newline] (by decide),
    message "user_level_function task is running\n" rfl
      [lit "user_level_function task is running\n" rfl (by decide)] (by decide),
    message "user_level_function task called sysenter,ret:%ld\n" rfl
      [lit "user_level_function task called sysenter,ret:" rfl (by decide), long .d, newline]
      (by decide),
    message "do_execve task is running\n" rfl
      [lit "do_execve task is running\n" rfl (by decide)] (by decide),
    message "exit task is running,arg:%#018lx\n" rfl
      [lit "exit task is running,arg:" rfl (by decide), hexLong, newline] (by decide),
    message "init task is running,arg:%#018lx\n" rfl
      [lit "init task is running,arg:" rfl (by decide), hexLong, newline] (by decide),
    message "struct task_struct address:%#018lx\n" rfl
      [lit "struct task_struct address:" rfl (by decide), hexLong, newline] (by decide),
    -- the drivers
    message "%c" rfl [bare .c] (by decide),
    message "%x " rfl [bare .x, lit " " rfl (by decide)] (by decide),
    message "\n" rfl [newline] (by decide),
    message "write success!!!!!\n" rfl [lit "write success!!!!!\n" rfl (by decide)] (by decide)]

/-- No message has a `*`, and with strings of 255 characters each leaves the buffer its NUL. -/
theorem messages_room : ∀ m ∈ messages,
    (∀ p ∈ m.pieces, p.Fixed) ∧ (m.pieces.map (Piece.room 255)).sum ≤ 511 := by
  decide

/-- **The kernel's own messages fit.** For each format in the kernel's source and every argument
    list, of which `%s` takes strings of 255 characters at most, `vsprintf` returns, and what it
    stores fits `buf`. -/
theorem messages_fit {m : Message} (hm : m ∈ messages) (va : VaList)
    (hstrings : ∀ i ∈ stringArgs 0 m.pieces, va.word i ≠ 0#64 ∧
      ∃ t : List Byte, t.length ≤ 255 ∧ CString va.mem (va.word i) t)
    {fuel : ℕ} (hfuel : loopFuel ≤ fuel) :
    ∃ s, vsprintf fuel va (chars m.fmt ++ [0#8]) = some s ∧ s.str.length ≤ bufSize := by
  obtain ⟨hfixed, hroom⟩ := messages_room m hm
  rw [← m.render]
  exact vsprintf_fits_fixed va (by decide) hfixed hroom hstrings hfuel

/-- The prefix of `kdebug`, with the string `hi`. -/
theorem messages_fit_debug :
    ∃ s, vsprintf loopFuel hiVa (chars "[debug] (%s:%d) " ++ [0#8]) = some s ∧
      s.str.length ≤ bufSize := by
  have hstr : CString hiVa.mem 1#64 [chr 'h', chr 'i'] := ⟨by decide, by decide⟩
  have hm : messages[1] ∈ messages := List.getElem_mem _
  exact messages_fit hm hiVa (fun _ _ => ⟨show 1#64 ≠ 0#64 by decide, _, by decide, hstr⟩)
    (le_refl loopFuel)

end HelloOS.Printk.Format
