/-
  `memset` (`kernel/lib/string.c`) and `memcpy` (`include/kstring.h`), as their assembly
  runs: whole words with `rep stosq` or `rep movsq`, then a tail of 4, 2 and 1 bytes for the
  low bits of the length. `memcpy` takes its source first. `strncpy` (`kernel/lib/string.c`)
  is a loop over bytes.

  What the callers below rely on is the frame: neither writes outside the `n` bytes of its
  destination (`memset_agreeOn`, `memcpy_agreeOn`). What they write is one `fill`
  (`memset_eq_fill`, `memcpy_eq_fill`, `strncpy_eq_fill`). A copy reads every byte of its
  source before it writes there if the source lies ahead of the destination (`Ahead`): the two
  do not meet, or the destination starts at or below the source, at whatever distance, and the
  source does not wrap around to it (`memcpy_simultaneous`).
-/
import HelloOS.Lib.Memory
import Mathlib.Data.Nat.Bitwise

namespace HelloOS.Kstring

open HelloOS.Lib

/-- `rep stosq` with the direction flag clear: the memory and `rdi` behind it. -/
def repStosq (m : Mem) (rdi rax : BitVec 64) : Nat → Mem × BitVec 64
  | 0 => (m, rdi)
  | c + 1 => repStosq (m.write64 rdi rax) (rdi + 8#64) rax c

/-- `stosl`, `stosw` or `stosb`, if the bit `bit` of `n` is set: the low `bit` bytes of
    `rax`. -/
def stosTail (s : Mem × BitVec 64) (rax n : BitVec 64) (bit : Nat) : Mem × BitVec 64 :=
  if n &&& BitVec.ofNat 64 bit = 0#64 then s
  else (s.1.fill s.2 bit (Mem.byteOf rax), s.2 + BitVec.ofNat 64 bit)

/-- `memset(p, val, n)`. -/
def memset (m : Mem) (p : BitVec 64) (val : BitVec 8) (n : BitVec 64) : Mem :=
  let tmp := val.setWidth 64 * 0x0101010101010101#64
  let s := repStosq m p tmp (n / 8#64).toNat
  let s := stosTail s tmp n 4
  let s := stosTail s tmp n 2
  (stosTail s tmp n 1).1

/-- `rep movsq` with the direction flag clear: the memory, `rdi` and `rsi` behind it. -/
def repMovsq (m : Mem) (rdi rsi : BitVec 64) : Nat → Mem × BitVec 64 × BitVec 64
  | 0 => (m, rdi, rsi)
  | c + 1 => repMovsq (m.write64 rdi (m.read64 rsi)) (rdi + 8#64) (rsi + 8#64) c

/-- `movsl`, `movsw` or `movsb`, if the bit `bit` of `n` is set. -/
def movsTail (s : Mem × BitVec 64 × BitVec 64) (n : BitVec 64) (bit : Nat) :
    Mem × BitVec 64 × BitVec 64 :=
  if n &&& BitVec.ofNat 64 bit = 0#64 then s
  else (s.1.fill s.2.1 bit fun i => s.1 (s.2.2 + BitVec.ofNat 64 i),
    s.2.1 + BitVec.ofNat 64 bit, s.2.2 + BitVec.ofNat 64 bit)

/-- `memcpy(From, To, Num)`; `Num / 8` is a signed division. -/
def memcpy (m : Mem) (src dst num : BitVec 64) : Mem :=
  let s := repMovsq m dst src (num.sdiv 8#64).toNat
  let s := movsTail s num 4
  let s := movsTail s num 2
  (movsTail s num 1).1

/-- `strncpy(dst, src, n)`: it does not stop at a NUL. -/
def strncpy (m : Mem) (dst src : BitVec 64) : Nat → Mem
  | 0 => m
  | n + 1 => strncpy (m.fill dst 1 fun _ => m src) (dst + 1#64) (src + 1#64) n

/-! ### Calls -/

/-- `memset` with its value. The assembly takes `p` as an input and puts `rdi` into `d1`. -/
def memsetCall (m : Mem) (p : BitVec 64) (val : BitVec 8) (n : BitVec 64) : Mem × BitVec 64 :=
  (memset m p val n, p)

/-- `memcpy` with its value. The assembly takes `To` as an input and puts `rdi` into `d1`. -/
def memcpyCall (m : Mem) (src dst num : BitVec 64) : Mem × BitVec 64 := (memcpy m src dst num, dst)

/-- What `memset` stands for: a loop that stores `val` at `n` bytes, one after the other. -/
def setBytes (m : Mem) (p : BitVec 64) (val : BitVec 8) : Nat → Mem
  | 0 => m
  | n + 1 => setBytes (m.fill p 1 fun _ => val) (p + 1#64) val n

/-! ## Lengths -/

variable {s : Set (BitVec 64)}

/-- The bytes of the tail for `bit`. -/
def tailLen (n : BitVec 64) (bit : Nat) : Nat := if n &&& BitVec.ofNat 64 bit = 0#64 then 0 else bit

theorem tailLen_two_pow (n : BitVec 64) {i : Nat} (hi : i < 64) :
    tailLen n (2 ^ i) = n.toNat / 2 ^ i % 2 * 2 ^ i := by
  have hand : (n &&& BitVec.ofNat 64 (2 ^ i)).toNat = n.toNat / 2 ^ i % 2 * 2 ^ i := by
    rw [BitVec.toNat_and, toNat_ofNat_eq (Nat.pow_lt_pow_right (by decide) hi),
      Nat.and_comm, Nat.two_pow_and, Nat.toNat_testBit, Nat.mul_comm]
  unfold tailLen
  split
  · next h => rw [← hand, h]; rfl
  · next h =>
      have hne : n.toNat / 2 ^ i % 2 ≠ 0 := fun h0 => h (BitVec.eq_of_toNat_eq (by
        rw [hand, h0, Nat.zero_mul]
        rfl))
      rw [show n.toNat / 2 ^ i % 2 = 1 by omega, Nat.one_mul]

/-- The words and the three tails are the `n` bytes. -/
theorem words_add_tails (n : BitVec 64) :
    8 * (n.toNat / 8) + tailLen n 4 + tailLen n 2 + tailLen n 1 = n.toNat := by
  have h4 : tailLen n 4 = n.toNat / 4 % 2 * 4 := tailLen_two_pow n (i := 2) (by decide)
  have h2 : tailLen n 2 = n.toNat / 2 % 2 * 2 := tailLen_two_pow n (i := 1) (by decide)
  have h1 : tailLen n 1 = n.toNat / 1 % 2 * 1 := tailLen_two_pow n (i := 0) (by decide)
  omega

theorem ofNat_add_ofNat (p : BitVec 64) (c k : Nat) :
    p + BitVec.ofNat 64 c + BitVec.ofNat 64 k = p + BitVec.ofNat 64 (c + k) := by
  rw [BitVec.ofNat_add, BitVec.add_assoc]

/-! ## The fill -/

/-- The byte replicated into a word. -/
theorem byteOf_replicated (val : BitVec 8) {i : Nat} (hi : i < 8) :
    Mem.byteOf (val.setWidth 64 * 0x0101010101010101#64) i = val := by
  revert val i
  decide +kernel

section Fill

variable (m : Mem) (p : BitVec 64) (val : BitVec 8)

/-- `m` with the first `o` bytes filled, and the pointer behind them. -/
def filled (o : Nat) : Mem × BitVec 64 := (m.fill p o fun _ => val, p + BitVec.ofNat 64 o)

theorem filled_zero : filled m p val 0 = (m, p) := by
  unfold filled
  rw [Mem.fill_zero, BitVec.add_zero]

theorem fill_filled {o k : Nat} {f : Nat → BitVec 8} (h : o + k ≤ 2 ^ 64)
    (hf : ∀ i < k, f i = val) :
    (filled m p val o).1.fill (p + BitVec.ofNat 64 o) k f = (filled m p val (o + k)).1 :=
  m.fill_next p (f := fun _ => val) h hf

theorem repStosq_filled {o c : Nat} (h : o + 8 * c ≤ 2 ^ 64) :
    repStosq (filled m p val o).1 (filled m p val o).2
      (val.setWidth 64 * 0x0101010101010101#64) c = filled m p val (o + 8 * c) := by
  induction c generalizing o with
  | zero => rfl
  | succ c ih =>
      have hword := fill_filled m p val (o := o) (k := 8)
        (f := Mem.byteOf (val.setWidth 64 * 0x0101010101010101#64)) (by omega)
        fun i hi => byteOf_replicated val hi
      have hnext := ih (o := o + 8) (by omega)
      rw [show o + 8 + 8 * c = o + 8 * (c + 1) by omega] at hnext
      rw [repStosq, ← hnext]
      change repStosq ((filled m p val o).1.fill (p + BitVec.ofNat 64 o) 8 _)
        (p + BitVec.ofNat 64 o + BitVec.ofNat 64 8) _ c = _
      rw [hword, ofNat_add_ofNat]
      rfl

theorem stosTail_filled (n : BitVec 64) {o bit : Nat} (hbit : bit ≤ 8)
    (h : o + tailLen n bit ≤ 2 ^ 64) :
    stosTail (filled m p val o) (val.setWidth 64 * 0x0101010101010101#64) n bit =
      filled m p val (o + tailLen n bit) := by
  unfold tailLen at h ⊢
  unfold stosTail
  split
  · rfl
  · next hset =>
      rw [if_neg hset] at h
      have hbytes := fill_filled m p val h
        (f := Mem.byteOf (val.setWidth 64 * 0x0101010101010101#64))
        fun i hi => byteOf_replicated val (Nat.lt_of_lt_of_le hi hbit)
      change (_, p + BitVec.ofNat 64 o + BitVec.ofNat 64 bit) = _
      rw [ofNat_add_ofNat]
      exact congrArg (·, _) hbytes

end Fill

/-- **`memset` fills** the `n` bytes from `p` on with `val`. -/
theorem memset_eq_fill (m : Mem) (p : BitVec 64) (val : BitVec 8) (n : BitVec 64) :
    memset m p val n = m.fill p n.toNat fun _ => val := by
  have hlen := words_add_tails n
  have hlt := n.isLt
  have hc : (n / 8#64).toNat = n.toNat / 8 := BitVec.toNat_udiv
  have hwords := repStosq_filled m p val (o := 0) (c := n.toNat / 8) (by omega)
  rw [filled_zero] at hwords
  unfold memset
  dsimp only
  rw [hc, hwords, stosTail_filled m p val n (by decide) (by omega),
    stosTail_filled m p val n (by decide) (by omega),
    stosTail_filled m p val n (by decide) (by omega),
    show 0 + 8 * (n.toNat / 8) + tailLen n 4 + tailLen n 2 + tailLen n 1 = n.toNat by omega]
  rfl

/-- `memset` writes the `n` bytes from `p` on and no others. -/
theorem memset_agreeOn (m : Mem) (p : BitVec 64) (val : BitVec 8) (n : BitVec 64)
    (hd : Disjoint (Region p n.toNat) s) : Mem.AgreeOn s (memset m p val n) m := by
  rw [memset_eq_fill]
  exact m.agreeOn_fill p _ hd

/-- The byte loop fills as well. -/
theorem setBytes_filled (m : Mem) (p : BitVec 64) (val : BitVec 8) {o n : Nat}
    (h : o + n ≤ 2 ^ 64) :
    setBytes (filled m p val o).1 (filled m p val o).2 val n = (filled m p val (o + n)).1 := by
  induction n generalizing o with
  | zero => rfl
  | succ n ih =>
      have hbyte := fill_filled m p val (o := o) (k := 1) (f := fun _ => val) (by omega)
        fun _ _ => rfl
      have hnext := ih (o := o + 1) (by omega)
      rw [show o + 1 + n = o + (n + 1) by omega] at hnext
      rw [setBytes, ← hnext]
      change setBytes ((filled m p val o).1.fill (p + BitVec.ofNat 64 o) 1 _)
        (p + BitVec.ofNat 64 o + BitVec.ofNat 64 1) val n = _
      rw [hbyte, ofNat_add_ofNat]
      rfl

theorem memset_eq_setBytes (m : Mem) (p : BitVec 64) (val : BitVec 8) (n : BitVec 64) :
    memset m p val n = setBytes m p val n.toNat := by
  have hloop := setBytes_filled m p val (o := 0) (n := n.toNat) (by have := n.isLt; omega)
  rw [filled_zero, Nat.zero_add] at hloop
  rw [hloop, memset_eq_fill]
  rfl

/-- **`memset` is the byte loop.** For every memory, address, byte and length that does not wrap:
    the assembly leaves what the loop does, every byte of the interval is `val`, every other
    byte is as it was, and the value is `p`. -/
theorem memset_agrees (m : Mem) (p : BitVec 64) (val : BitVec 8) (n : BitVec 64)
    (h : p.toNat + n.toNat ≤ 2 ^ 64) :
    (memsetCall m p val n).1 = setBytes m p val n.toNat ∧
      (∀ a, p.toNat ≤ a.toNat ∧ a.toNat < p.toNat + n.toNat → (memsetCall m p val n).1 a = val) ∧
      (∀ a, ¬ (p.toNat ≤ a.toNat ∧ a.toNat < p.toNat + n.toNat) →
        (memsetCall m p val n).1 a = m a) ∧
      (memsetCall m p val n).2 = p := by
  refine ⟨memset_eq_setBytes m p val n, fun a ha => ?_, fun a ha => ?_, rfl⟩
  · change memset m p val n a = val
    rw [memset_eq_fill, m.fill_of_mem p _ ((mem_region_interval h).mpr ha)]
  · change memset m p val n a = m a
    rw [memset_eq_fill, m.fill_of_notMem p _ fun hmem => ha ((mem_region_interval h).mp hmem)]

theorem memset_agrees_small :
    (memsetCall (fun _ => 0#8) 0x1000#64 0xab#8 15#64).1 =
        setBytes (fun _ => 0#8) 0x1000#64 0xab#8 15 ∧
      (∀ a : BitVec 64, 0x1000 ≤ a.toNat ∧ a.toNat < 0x1000 + 15 →
        (memsetCall (fun _ => 0#8) 0x1000#64 0xab#8 15#64).1 a = 0xab#8) ∧
      (∀ a : BitVec 64, ¬ (0x1000 ≤ a.toNat ∧ a.toNat < 0x1000 + 15) →
        (memsetCall (fun _ => 0#8) 0x1000#64 0xab#8 15#64).1 a = 0#8) ∧
      (memsetCall (fun _ => 0#8) 0x1000#64 0xab#8 15#64).2 = 0x1000#64 :=
  memset_agrees (fun _ => 0#8) 0x1000#64 0xab#8 15#64 (by decide)

/-! ## The frame of a copy -/

/-- A store of `k` bytes at an offset `c` into the destination stays in it. -/
theorem agreeOn_fill_offset {m : Mem} {p : BitVec 64} {c k n : Nat} (f : Nat → BitVec 8)
    (hd : Disjoint (Region p n) s) (h : c + k ≤ n) :
    Mem.AgreeOn s (m.fill (p + BitVec.ofNat 64 c) k f) m := by
  have := toNat_ofNat_le c
  exact m.agreeOn_fill _ f (hd.mono_left (region_subset p (by omega)))

theorem repMovsq_spec (m : Mem) (p rsi : BitVec 64) {o c n : Nat} (hd : Disjoint (Region p n) s)
    (h : o + 8 * c ≤ n) :
    Mem.AgreeOn s (repMovsq m (p + BitVec.ofNat 64 o) rsi c).1 m ∧
      (repMovsq m (p + BitVec.ofNat 64 o) rsi c).2.1 = p + BitVec.ofNat 64 (o + 8 * c) := by
  induction c generalizing m o rsi with
  | zero => exact ⟨Mem.AgreeOn.refl m s, rfl⟩
  | succ c ih =>
      obtain ⟨h1, h2⟩ := ih (m.write64 (p + BitVec.ofNat 64 o) (m.read64 rsi)) (rsi + 8#64)
        (o := o + 8) (by omega)
      rw [← ofNat_add_ofNat p o 8] at h1 h2
      refine ⟨h1.trans (agreeOn_fill_offset _ hd (by omega)), ?_⟩
      rw [repMovsq, h2, show o + 8 + 8 * c = o + 8 * (c + 1) by omega]

theorem movsTail_spec {t : Mem × BitVec 64 × BitVec 64} (p n : BitVec 64) (bit : Nat) {o k : Nat}
    (ht : t.2.1 = p + BitVec.ofNat 64 o) (hd : Disjoint (Region p k) s)
    (h : o + tailLen n bit ≤ k) :
    Mem.AgreeOn s (movsTail t n bit).1 t.1 ∧
      (movsTail t n bit).2.1 = p + BitVec.ofNat 64 (o + tailLen n bit) := by
  unfold tailLen at h ⊢
  unfold movsTail
  split
  · exact ⟨Mem.AgreeOn.refl _ s, ht⟩
  · next hbit =>
      rw [if_neg hbit] at h
      rw [ht]
      dsimp only
      exact ⟨agreeOn_fill_offset _ hd h, ofNat_add_ofNat p o bit⟩

/-- `memcpy` writes the `num` bytes from `dst` on and no others. -/
theorem memcpy_agreeOn (m : Mem) (src dst num : BitVec 64) (hn : num.msb = false)
    (hd : Disjoint (Region dst num.toNat) s) : Mem.AgreeOn s (memcpy m src dst num) m := by
  have hlen := words_add_tails num
  have hc : (num.sdiv 8#64).toNat = num.toNat / 8 := by
    rw [BitVec.sdiv_eq, hn]
    exact BitVec.toNat_udiv
  unfold memcpy
  dsimp only
  rw [hc]
  obtain ⟨a0, e0⟩ := repMovsq_spec m dst src (o := 0) (c := num.toNat / 8) hd (by omega)
  rw [BitVec.add_zero] at a0 e0
  obtain ⟨a1, e1⟩ := movsTail_spec dst num 4 e0 hd (by omega)
  obtain ⟨a2, e2⟩ := movsTail_spec dst num 2 e1 hd (by omega)
  obtain ⟨a3, -⟩ := movsTail_spec dst num 1 e2 hd (by omega)
  exact a3.trans (a2.trans (a1.trans a0))

/-! ## The copy -/

/-- Going up from `dst`, the `n` bytes from `src` on end before `dst` comes again. -/
def Ahead (dst src : BitVec 64) (n : Nat) : Prop := (src - dst).toNat + n ≤ 2 ^ 64

theorem ahead_of_disjoint {src dst : BitVec 64} {n : Nat} (hn : n ≤ 2 ^ 64)
    (hd : Disjoint (Region src n) (Region dst n)) : Ahead dst src n := by
  unfold Ahead
  by_contra hover
  -- else `dst` is in both
  have hsrc : dst ∈ Region src n := by
    rw [mem_region]
    bv_omega
  have hdst : dst ∈ Region dst n := by
    rw [mem_region, BitVec.sub_self]
    exact Nat.pos_of_ne_zero fun h0 => by
      have := (src - dst).isLt
      omega
  exact Set.disjoint_left.mp hd hsrc hdst

/-- A destination at or below the source, and a source that does not wrap around to it. -/
theorem ahead_of_le {src dst : BitVec 64} {n : Nat} (hle : dst ≤ src)
    (h : src.toNat + n ≤ 2 ^ 64 + dst.toNat) : Ahead dst src n := by
  unfold Ahead
  rw [BitVec.toNat_sub_of_le hle]
  have := BitVec.le_def.mp hle
  omega

section Copy

variable (m : Mem) {src dst : BitVec 64} {n : Nat} (hd : Ahead dst src n)

/-- The bytes of `m` from `src` on. -/
def bytesFrom (m : Mem) (src : BitVec 64) (i : Nat) : BitVec 8 := m (src + BitVec.ofNat 64 i)

/-- `m` with the first `o` bytes copied, and the pointers behind them. -/
def copied (m : Mem) (dst src : BitVec 64) (o : Nat) : Mem × BitVec 64 × BitVec 64 :=
  (m.fill dst o (bytesFrom m src), dst + BitVec.ofNat 64 o, src + BitVec.ofNat 64 o)

theorem copied_zero (m : Mem) (dst src : BitVec 64) : copied m dst src 0 = (m, dst, src) := by
  unfold copied
  rw [Mem.fill_zero, BitVec.add_zero, BitVec.add_zero]

include hd in
/-- What is left to copy has not been written to. -/
theorem copied_source {o k i : Nat} (h : o + k ≤ n) (hi : i < k) :
    (copied m dst src o).1 (src + BitVec.ofNat 64 o + BitVec.ofNat 64 i) =
      bytesFrom m src (o + i) := by
  unfold Ahead at hd
  have hoff : (src - dst + BitVec.ofNat 64 (o + i)).toNat = (src - dst).toNat + (o + i) := by
    rw [BitVec.toNat_add, toNat_ofNat_eq (by omega)]
    exact Nat.mod_eq_of_lt (by omega)
  have haddr : src + BitVec.ofNat 64 (o + i) = dst + (src - dst + BitVec.ofNat 64 (o + i)) := by
    ring
  rw [ofNat_add_ofNat]
  refine m.fill_of_notMem dst _ ?_
  rw [haddr, Mem.mem_region_add, hoff]
  omega

include hd in
/-- The next `k` bytes copied at once. -/
theorem copied_chunk {o k : Nat} (h : o + k ≤ n) :
    (copied m dst src o).1.fill (dst + BitVec.ofNat 64 o) k
        (fun i => (copied m dst src o).1 (src + BitVec.ofNat 64 o + BitVec.ofNat 64 i)) =
      (copied m dst src (o + k)).1 := by
  unfold Ahead at hd
  exact m.fill_next dst (by omega) fun i hi => copied_source m hd h hi

include hd in
theorem repMovsq_copied {o c : Nat} (h : o + 8 * c ≤ n) :
    repMovsq (copied m dst src o).1 (copied m dst src o).2.1 (copied m dst src o).2.2 c =
      copied m dst src (o + 8 * c) := by
  induction c generalizing o with
  | zero => rfl
  | succ c ih =>
      have hword : (copied m dst src o).1.write64 (dst + BitVec.ofNat 64 o)
          ((copied m dst src o).1.read64 (src + BitVec.ofNat 64 o)) =
          (copied m dst src (o + 8)).1 := by
        rw [← copied_chunk m hd (by omega), Mem.write64]
        exact Mem.fill_congr _ _ fun i hi => Mem.byteOf_read64 _ _ hi
      have hnext := ih (o := o + 8) (by omega)
      rw [show o + 8 + 8 * c = o + 8 * (c + 1) by omega] at hnext
      rw [repMovsq, ← hnext]
      change repMovsq ((copied m dst src o).1.write64 (dst + BitVec.ofNat 64 o)
        ((copied m dst src o).1.read64 (src + BitVec.ofNat 64 o)))
        (dst + BitVec.ofNat 64 o + BitVec.ofNat 64 8) (src + BitVec.ofNat 64 o +
          BitVec.ofNat 64 8) c = _
      rw [hword, ofNat_add_ofNat, ofNat_add_ofNat]
      rfl

include hd in
theorem movsTail_copied (num : BitVec 64) {o bit : Nat} (h : o + tailLen num bit ≤ n) :
    movsTail (copied m dst src o) num bit = copied m dst src (o + tailLen num bit) := by
  unfold tailLen at h ⊢
  unfold movsTail
  split
  · rfl
  · next hbit =>
      rw [if_neg hbit] at h
      have hfill := copied_chunk m hd h
      change (_, dst + BitVec.ofNat 64 o + BitVec.ofNat 64 bit,
        src + BitVec.ofNat 64 o + BitVec.ofNat 64 bit) = _
      rw [ofNat_add_ofNat, ofNat_add_ofNat]
      exact congrArg (·, _, _) hfill

include hd in
theorem strncpy_copied {o k : Nat} (h : o + k ≤ n) :
    strncpy (copied m dst src o).1 (copied m dst src o).2.1 (copied m dst src o).2.2 k =
      (copied m dst src (o + k)).1 := by
  induction k generalizing o with
  | zero => rfl
  | succ k ih =>
      have hbyte : (copied m dst src o).1.fill (dst + BitVec.ofNat 64 o) 1
          (fun _ => (copied m dst src o).1 (src + BitVec.ofNat 64 o)) =
          (copied m dst src (o + 1)).1 := by
        rw [← copied_chunk m hd (by omega)]
        exact Mem.fill_congr _ _ fun i hi => by rw [Nat.lt_one_iff.mp hi, BitVec.add_zero]
      have hnext := ih (o := o + 1) (by omega)
      rw [show o + 1 + k = o + (k + 1) by omega] at hnext
      rw [strncpy, ← hnext]
      change strncpy ((copied m dst src o).1.fill (dst + BitVec.ofNat 64 o) 1
        (fun _ => (copied m dst src o).1 (src + BitVec.ofNat 64 o)))
        (dst + BitVec.ofNat 64 o + BitVec.ofNat 64 1)
        (src + BitVec.ofNat 64 o + BitVec.ofNat 64 1) k = _
      rw [hbyte, ofNat_add_ofNat, ofNat_add_ofNat]
      rfl

end Copy

/-- A copy whose source lies ahead of the destination is one fill, whether the two meet or
    not. -/
theorem memcpy_eq_fill_of_ahead (m : Mem) {src dst num : BitVec 64} (hn : num.msb = false)
    (hd : Ahead dst src num.toNat) :
    memcpy m src dst num = m.fill dst num.toNat (bytesFrom m src) := by
  have hlen := words_add_tails num
  have hc : (num.sdiv 8#64).toNat = num.toNat / 8 := by
    rw [BitVec.sdiv_eq, hn]
    exact BitVec.toNat_udiv
  have hwords := repMovsq_copied m hd (o := 0) (c := num.toNat / 8) (by omega)
  rw [copied_zero] at hwords
  unfold memcpy
  dsimp only
  rw [hc, hwords, movsTail_copied m hd num (by omega), movsTail_copied m hd num (by omega),
    movsTail_copied m hd num (by omega),
    show 0 + 8 * (num.toNat / 8) + tailLen num 4 + tailLen num 2 + tailLen num 1 = num.toNat by
      omega]
  rfl

/-- **`memcpy` copies.** Between regions that do not meet, the `num` bytes from `dst` on become
    those from `src` on. -/
theorem memcpy_eq_fill (m : Mem) {src dst num : BitVec 64} (hn : num.msb = false)
    (hd : Disjoint (Region src num.toNat) (Region dst num.toNat)) :
    memcpy m src dst num = m.fill dst num.toNat (bytesFrom m src) :=
  memcpy_eq_fill_of_ahead m hn (ahead_of_disjoint num.isLt.le hd)

/-- **`memcpy` is a simultaneous copy.** For every memory, source, destination and length: if the
    ranges are disjoint, or the destination starts at or below the source and the source does
    not wrap around to it, then the destination's bytes become the original ones of the source,
    every byte outside it is as it was, and the value is the destination. -/
theorem memcpy_simultaneous (m : Mem) (src dst num : BitVec 64) (hn : num.msb = false)
    (h : Disjoint (Region src num.toNat) (Region dst num.toNat) ∨
      dst ≤ src ∧ src.toNat + num.toNat ≤ 2 ^ 64 + dst.toNat) :
    (∀ i, i < num.toNat → (memcpyCall m src dst num).1 (dst + BitVec.ofNat 64 i) =
        m (src + BitVec.ofNat 64 i)) ∧
      (∀ a, a ∉ Region dst num.toNat → (memcpyCall m src dst num).1 a = m a) ∧
      (memcpyCall m src dst num).2 = dst := by
  have hd : Ahead dst src num.toNat := by
    rcases h with hdisj | ⟨hle, hwrap⟩
    · exact ahead_of_disjoint num.isLt.le hdisj
    · exact ahead_of_le hle hwrap
  have hfill : (memcpyCall m src dst num).1 = m.fill dst num.toNat (bytesFrom m src) :=
    memcpy_eq_fill_of_ahead m hn hd
  rw [hfill]
  refine ⟨fun i hi => ?_, fun a ha => m.fill_of_notMem dst _ ha, rfl⟩
  have hlt := num.isLt
  have hoff : (BitVec.ofNat 64 i).toNat = i := toNat_ofNat_eq (by omega)
  rw [Mem.fill_add _ _ _ (by omega), hoff]
  rfl

/-- Ranges three bytes apart. -/
theorem memcpy_simultaneous_overlap :
    (∀ i, i < 30 → (memcpyCall (fun a => a.setWidth 8) 0x1003#64 0x1000#64 30#64).1
        (0x1000#64 + BitVec.ofNat 64 i) = (0x1003#64 + BitVec.ofNat 64 i).setWidth 8) ∧
      (∀ a, a ∉ Region 0x1000#64 30 →
        (memcpyCall (fun a => a.setWidth 8) 0x1003#64 0x1000#64 30#64).1 a = a.setWidth 8) ∧
      (memcpyCall (fun a => a.setWidth 8) 0x1003#64 0x1000#64 30#64).2 = 0x1000#64 :=
  memcpy_simultaneous (fun a => a.setWidth 8) 0x1003#64 0x1000#64 30#64 (by decide)
    (Or.inr (by decide))

/-- A source that wraps around to a destination at 0: the second word is read from where the
    first was written. -/
theorem not_memcpy_simultaneous :
    (16#64).msb = false ∧ 0#64 ≤ 0xfffffffffffffff8#64 ∧
      ¬ ∀ i, i < (16#64).toNat →
        (memcpyCall (fun a => if a = 0#64 then 1#8 else 0#8) 0xfffffffffffffff8#64 0#64 16#64).1
          (0#64 + BitVec.ofNat 64 i) =
        if 0xfffffffffffffff8#64 + BitVec.ofNat 64 i = 0#64 then 1#8 else 0#8 := by
  refine ⟨by decide, by decide, fun h => ?_⟩
  exact absurd (h 8 (by decide)) (by decide +kernel)

/-- A word of the copy is the word of the original. -/
theorem memcpy_read64 (m : Mem) {src dst num c : BitVec 64} (hn : num.msb = false)
    (hd : Disjoint (Region src num.toNat) (Region dst num.toNat)) (hc : c.toNat + 8 ≤ num.toNat) :
    (memcpy m src dst num).read64 (dst + c) = m.read64 (src + c) := by
  rw [memcpy_eq_fill m hn hd]
  exact m.read64_copy dst src hc

/-- **`strncpy` copies** downwards, over ranges that may overlap. -/
theorem strncpy_eq_fill (m : Mem) (dst d : BitVec 64) {n : Nat} (h : d.toNat + n ≤ 2 ^ 64) :
    strncpy m dst (dst + d) n = m.fill dst n (bytesFrom m (dst + d)) := by
  have hd : Ahead dst (dst + d) n := by
    unfold Ahead
    rwa [show dst + d - dst = d by ring]
  have hcopy := strncpy_copied m hd (o := 0) (k := n) (by omega)
  rwa [copied_zero, Nat.zero_add] at hcopy

end HelloOS.Kstring
