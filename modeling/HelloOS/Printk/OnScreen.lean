/-
  What `print` loads and stores (`kernel/printk/printk.c`): the cells, and the copy and the
  clearing of a scroll, one access after another.

  Newlines and tabs move the cursor anywhere, also over 2^32 and back. The wrap and the scroll
  in front of every other character bring it back from wherever it is (`wrap_scrolled_y`),
  so that `print_onScreen` needs nothing of the cursor.
-/
import HelloOS.Lib.Access
import HelloOS.Printk.Layout

namespace HelloOS.Printk

open HelloOS.Lib HelloOS.Kstring

/-! ## Logs -/

/-- The accesses of `strncpy(dst, src, n)`. -/
def strncpyLog (m : Mem) (dst src : BitVec 64) : ℕ → List Access
  | 0 => []
  | n + 1 => .load src 1 :: .store dst 1 (fun _ => m src) ::
      strncpyLog (m.fill dst 1 fun _ => m src) (dst + 1#64) (src + 1#64) n

/-- The stores of `rep stosq`. -/
def repStosqLog (rdi rax : BitVec 64) : ℕ → List Access
  | 0 => []
  | c + 1 => .store rdi 8 (Mem.byteOf rax) :: repStosqLog (rdi + 8#64) rax c

/-- The store of `stosl`, `stosw` or `stosb`. -/
def stosTailLog (rdi rax n : BitVec 64) (bit : ℕ) : List Access :=
  if n &&& BitVec.ofNat 64 bit = 0#64 then [] else [.store rdi bit (Mem.byteOf rax)]

/-- The stores of `memset(p, val, n)`. -/
def memsetLog (m : Mem) (p : BitVec 64) (val : BitVec 8) (n : BitVec 64) : List Access :=
  let tmp := val.setWidth 64 * 0x0101010101010101#64
  let s := repStosq m p tmp (n / 8#64).toNat
  let s4 := stosTail s tmp n 4
  let s2 := stosTail s4 tmp n 2
  repStosqLog p tmp (n / 8#64).toNat ++ stosTailLog s.2 tmp n 4 ++ stosTailLog s4.2 tmp n 2 ++
    stosTailLog s2.2 tmp n 1

/-- The accesses of a scroll. -/
def scrollLog (m : Mem) : List Access :=
  strncpyLog m vgaBase (vgaBase + 160#64) ((maxRow - 1) * maxColumn * 2) ++
    memsetLog (strncpy m vgaBase (vgaBase + 160#64) ((maxRow - 1) * maxColumn * 2))
      (vgaBase + 3840#64) 0#8 160#64

/-- What `print` does to memory: a cell it stores, or an access of a scroll. -/
inductive ScreenAccess where
  | cell (addr : BitVec 64) (v : BitVec 16)
  | scroll (a : Access)

namespace ScreenAccess

/-- The access. -/
def access : ScreenAccess → Access
  | cell addr v => .store addr 2 fun i => (v >>> (8 * i)).setWidth 8
  | scroll a => a

/-- A cell in the rows 0 to 24 and the columns 0 to 78; a scroll inside the 25 rows. -/
def OnScreen : ScreenAccess → Prop
  | cell addr _ => ∃ row ≤ 24, ∃ col ≤ 78, addr = vgaBase + BitVec.ofNat 64 (160 * row + 2 * col)
  | scroll a => a.bytes ⊆ Region vgaBase (25 * 160)

end ScreenAccess

namespace Console

variable (c : Console)

/-- The accesses of `if (cursor.y >= MAX_ROW)`. -/
def scrolledLog : List ScreenAccess :=
  if 25#32 ≤ c.y then (scrollLog c.mem).map .scroll else []

/-- The accesses of one round of `print`. -/
def putCharLog (color : BitVec 16) (ch : BitVec 8) : List ScreenAccess :=
  if ch = newlineChar then []
  else if ch = tabChar then []
  else c.wrap.scrolledLog ++
    [.cell (cellAddr c.wrap.scrolled.x c.wrap.scrolled.y) (cellOf color ch)]

end Console

/-- The accesses of `print(color, buf)`. -/
def printLog (color : BitVec 16) : List (BitVec 8) → Console → List ScreenAccess
  | [], _ => []
  | ch :: buf, c =>
    if ch = 0#8 then [] else c.putCharLog color ch ++ printLog color buf (c.putChar color ch)

/-! ## Where they are -/

section Within

variable (m : Mem) (p : BitVec 64)

theorem strncpyLog_within (dst src : BitVec 64) (n : ℕ) :
    Access.Within (Region dst n ∪ Region src n) (strncpyLog m dst src n) := by
  induction n generalizing m dst src with
  | zero => exact Access.within_nil
  | succ n ih =>
      have hnext : ∀ q : BitVec 64, Region (q + 1#64) n ⊆ Region q (n + 1) := fun q =>
        region_subset q (by rw [show (1#64).toNat = 1 from rfl]; omega)
      refine Access.within_cons.mpr ⟨?_, Access.within_cons.mpr ⟨?_, ?_⟩⟩
      · exact (region_mono src (by omega)).trans Set.subset_union_right
      · exact (region_mono dst (by omega)).trans Set.subset_union_left
      · exact (ih _ _ _).mono (Set.union_subset_union (hnext dst) (hnext src))

theorem repStosqLog_within (rax : BitVec 64) {o c n : ℕ} (h : o + 8 * c ≤ n) :
    Access.Within (Region p n) (repStosqLog (p + BitVec.ofNat 64 o) rax c) := by
  induction c generalizing o with
  | zero => exact Access.within_nil
  | succ c ih =>
      have hle := toNat_ofNat_le o
      have hrest := ih (o := o + 8) (by omega)
      rw [← ofNat_add_ofNat p o 8] at hrest
      exact Access.within_cons.mpr ⟨region_subset p (by omega), hrest⟩

theorem stosTailLog_within (rax n : BitVec 64) (bit : ℕ) {o k : ℕ} (h : o + tailLen n bit ≤ k) :
    Access.Within (Region p k) (stosTailLog (p + BitVec.ofNat 64 o) rax n bit) := by
  unfold stosTailLog
  unfold tailLen at h
  split
  · exact Access.within_nil
  · next hbit =>
      rw [if_neg hbit] at h
      have hle := toNat_ofNat_le o
      exact Access.within_cons.mpr ⟨region_subset p (by omega), Access.within_nil⟩

/-- Where `rdi` is behind the words. -/
theorem repStosq_rdi (rdi rax : BitVec 64) (c : ℕ) :
    (repStosq m rdi rax c).2 = rdi + BitVec.ofNat 64 (8 * c) := by
  induction c generalizing m rdi with
  | zero => exact (BitVec.add_zero rdi).symm
  | succ c ih =>
      rw [repStosq, ih, show 8 * (c + 1) = 8 + 8 * c by omega]
      exact ofNat_add_ofNat rdi 8 (8 * c)

theorem stosTail_rdi {s : Mem × BitVec 64} (rax n : BitVec 64) (bit : ℕ) {o : ℕ}
    (hs : s.2 = p + BitVec.ofNat 64 o) :
    (stosTail s rax n bit).2 = p + BitVec.ofNat 64 (o + tailLen n bit) := by
  unfold stosTail tailLen
  split
  · exact hs
  · rw [hs]
    exact ofNat_add_ofNat p o bit

theorem memsetLog_within (val : BitVec 8) (n : BitVec 64) :
    Access.Within (Region p n.toNat) (memsetLog m p val n) := by
  have hlen := words_add_tails n
  have hc : (n / 8#64).toNat = n.toNat / 8 := BitVec.toNat_udiv
  unfold memsetLog
  dsimp only
  rw [hc]
  have h0 := repStosq_rdi m p (val.setWidth 64 * 0x0101010101010101#64) (n.toNat / 8)
  have h4 := stosTail_rdi p (val.setWidth 64 * 0x0101010101010101#64) n 4 h0
  have h2 := stosTail_rdi p (val.setWidth 64 * 0x0101010101010101#64) n 2 h4
  rw [h0, h4, h2]
  have hwords := repStosqLog_within p (val.setWidth 64 * 0x0101010101010101#64) (o := 0)
    (c := n.toNat / 8) (n := n.toNat) (by omega)
  rw [BitVec.add_zero] at hwords
  exact ((hwords.append (stosTailLog_within p _ n 4 (by omega))).append
    (stosTailLog_within p _ n 2 (by omega))).append (stosTailLog_within p _ n 1 (by omega))

/-- A scroll loads and stores inside the 25 rows. -/
theorem scrollLog_within : Access.Within (Region vgaBase (25 * 160)) (scrollLog m) := by
  have hcopy := strncpyLog_within m vgaBase (vgaBase + 160#64) ((maxRow - 1) * maxColumn * 2)
  refine (hcopy.mono (Set.union_subset (region_mono vgaBase (by decide))
    (region_subset vgaBase (by decide)))).append ?_
  exact (memsetLog_within _ _ _ _).mono (region_subset vgaBase (by decide))

end Within

/-! ## What they do -/

section Replay

open Access (replay replay_append)

variable (m : Mem)

theorem replay_strncpyLog (dst src : BitVec 64) (n : ℕ) :
    replay m (strncpyLog m dst src n) = strncpy m dst src n := by
  induction n generalizing m dst src with
  | zero => rfl
  | succ n ih => exact ih _ _ _

theorem replay_repStosqLog (rdi rax : BitVec 64) (c : ℕ) :
    replay m (repStosqLog rdi rax c) = (repStosq m rdi rax c).1 := by
  induction c generalizing m rdi with
  | zero => rfl
  | succ c ih => exact ih _ _

theorem replay_stosTailLog (s : Mem × BitVec 64) (rax n : BitVec 64) (bit : ℕ) :
    replay s.1 (stosTailLog s.2 rax n bit) = (stosTail s rax n bit).1 := by
  unfold stosTailLog stosTail
  split <;> rfl

theorem replay_memsetLog (p : BitVec 64) (val : BitVec 8) (n : BitVec 64) :
    replay m (memsetLog m p val n) = memset m p val n := by
  unfold memsetLog memset
  dsimp only
  rw [replay_append, replay_append, replay_append, replay_repStosqLog, replay_stosTailLog,
    replay_stosTailLog, replay_stosTailLog]

theorem replay_scrollLog : replay m (scrollLog m) = scroll m := by
  unfold scrollLog scroll
  rw [replay_append, replay_strncpyLog, replay_memsetLog]

/-- The accesses of a round are all it does to memory. -/
theorem replay_putCharLog (c : Console) (color : BitVec 16) (ch : BitVec 8) :
    replay c.mem ((c.putCharLog color ch).map ScreenAccess.access) = (c.putChar color ch).mem := by
  have hwrap : c.wrap.mem = c.mem := by
    unfold Console.wrap
    split <;> rfl
  have hscroll : replay c.mem (c.wrap.scrolledLog.map ScreenAccess.access) =
      c.wrap.scrolled.mem := by
    unfold Console.scrolledLog Console.scrolled
    rw [hwrap]
    split
    · rw [List.map_map]
      exact (congrArg (replay c.mem) (List.map_id _)).trans (replay_scrollLog c.mem)
    · exact hwrap.symm
  unfold Console.putCharLog Console.putChar
  split
  · rfl
  · split
    · rfl
    · rw [List.map_append, replay_append, hscroll]
      rfl

theorem replay_printLog (color : BitVec 16) (buf : List (BitVec 8)) (c : Console) :
    replay c.mem ((printLog color buf c).map ScreenAccess.access) = (print color buf c).mem := by
  induction buf generalizing c with
  | nil => rfl
  | cons ch buf ih =>
      rw [printLog, print]
      split
      · rfl
      · rw [List.map_append, replay_append, replay_putCharLog, ih]

end Replay

/-! ## The cursor -/

/-- Wherever the cursor is: behind the wrap and the scroll it is in the rows 0 to 24. -/
theorem wrap_scrolled_y (c : Console) : c.wrap.scrolled.y.toNat ≤ 24 := by
  unfold Console.scrolled
  split
  · exact le_refl 24
  · next h => exact Nat.le_of_lt_succ (Nat.lt_of_not_le h)

/-- The accesses of a round are on the screen. -/
theorem putCharLog_onScreen (c : Console) (color : BitVec 16) (ch : BitVec 8) :
    ∀ a ∈ c.putCharLog color ch, a.OnScreen := by
  intro a ha
  unfold Console.putCharLog at ha
  split at ha
  · exact absurd ha List.not_mem_nil
  · split at ha
    · exact absurd ha List.not_mem_nil
    · rcases List.mem_append.mp ha with hscroll | hcell
      · unfold Console.scrolledLog at hscroll
        split at hscroll
        · obtain ⟨a', ha', rfl⟩ := List.mem_map.mp hscroll
          exact scrollLog_within c.wrap.mem a' ha'
        · exact absurd hscroll List.not_mem_nil
      · rw [List.mem_singleton.mp hcell]
        have hx := wrap_scrolled_x c
        have hy := wrap_scrolled_y c
        exact ⟨_, hy, _, Nat.le_of_lt_succ hx, cellAddr_eq (by omega) (by omega)⟩

/-- The cursor behind a character that is stored. -/
theorem putChar_cursor (c : Console) (color : BitVec 16) {ch : BitVec 8} (hnl : ch ≠ newlineChar)
    (htab : ch ≠ tabChar) : 1 ≤ (c.putChar color ch).x.toNat ∧ (c.putChar color ch).x.toNat ≤ 79 ∧
      (c.putChar color ch).y.toNat ≤ 24 := by
  have hx := wrap_scrolled_x c
  have hnext : (c.wrap.scrolled.x + 1#32).toNat = c.wrap.scrolled.x.toNat + 1 := by
    rw [BitVec.toNat_add]
    change (_ + 1) % 2 ^ 32 = _
    exact Nat.mod_eq_of_lt (by omega)
  unfold Console.putChar
  rw [if_neg hnl, if_neg htab]
  change 1 ≤ (c.wrap.scrolled.x + 1#32).toNat ∧ (c.wrap.scrolled.x + 1#32).toNat ≤ 79 ∧ _
  exact ⟨by omega, by omega, wrap_scrolled_y c⟩

theorem printLog_onScreen (color : BitVec 16) (buf : List (BitVec 8)) (c : Console) :
    ∀ a ∈ printLog color buf c, a.OnScreen := by
  induction buf generalizing c with
  | nil => exact fun _ h => absurd h List.not_mem_nil
  | cons ch buf ih =>
      rw [printLog]
      split
      · exact fun _ h => absurd h List.not_mem_nil
      · exact fun a ha => (List.mem_append.mp ha).elim (putCharLog_onScreen c color ch a)
          (ih (c.putChar color ch) a)

/-- What is on the screen lies in its 4000 bytes. -/
theorem ScreenAccess.OnScreen.bytes {a : ScreenAccess} (h : a.OnScreen) :
    a.access.bytes ⊆ Region vgaBase (25 * 160) := by
  cases a with
  | cell addr v =>
      obtain ⟨row, hrow, col, hcol, rfl⟩ := h
      have hle := toNat_ofNat_le (160 * row + 2 * col)
      exact region_subset vgaBase (by omega)
  | scroll a => exact h

/-- `print` changes nothing but the screen. -/
theorem print_agreeOn (color : BitVec 16) (buf : List (BitVec 8)) (c : Console)
    {s : Set (BitVec 64)} (hd : Disjoint (Region vgaBase (25 * 160)) s) :
    Mem.AgreeOn s (print color buf c).mem c.mem := by
  rw [← replay_printLog]
  refine Access.replay_agreeOn (fun a ha => ?_) hd
  obtain ⟨b, hb, rfl⟩ := List.mem_map.mp ha
  exact (printLog_onScreen color buf c b hb).bytes

/-- **Console writes stay on screen.** From any cursor, in any colour and for any string: `print`
    stores cells in the rows 0 to 24 and the columns 0 to 78 only, its scrolls load and store
    inside the 25 rows, and behind every character but newlines and tabs the cursor is in the
    columns 1 to 79 and the rows 0 to 24. -/
theorem print_onScreen (color : BitVec 16) (buf : List (BitVec 8)) (c : Console) :
    (∀ a ∈ printLog color buf c, a.OnScreen) ∧
      ∀ (n : ℕ) (ch : BitVec 8), (buf.takeWhile (· ≠ 0#8))[n]? = some ch → ch ≠ newlineChar →
        ch ≠ tabChar →
          let c' := print color (buf.take (n + 1)) c
          1 ≤ c'.x.toNat ∧ c'.x.toNat ≤ 79 ∧ c'.y.toNat ≤ 24 := by
  refine ⟨printLog_onScreen color buf c, ?_⟩
  induction buf generalizing c with
  | nil => exact fun _ _ h => nomatch h
  | cons ch buf ih =>
      by_cases hnul : ch = 0#8
      · rw [List.takeWhile_cons_of_neg (by simpa using hnul)]
        exact fun _ _ h => nomatch h
      · rw [List.takeWhile_cons_of_pos (by simpa using hnul)]
        intro n ch' hn hnl htab
        have hprint : print color ((ch :: buf).take (n + 1)) c =
            print color (buf.take n) (c.putChar color ch) := by
          rw [List.take_succ_cons, print, if_neg hnul]
        rw [hprint]
        cases n with
        | zero =>
            rw [List.getElem?_cons_zero, Option.some.injEq] at hn
            subst hn
            exact putChar_cursor c color hnl htab
        | succ n =>
            rw [List.getElem?_cons_succ] at hn
            exact ih (c.putChar color ch) n ch' hn hnl htab

end HelloOS.Printk
