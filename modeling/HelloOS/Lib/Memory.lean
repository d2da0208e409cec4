/-
  A 64-bit byte-addressed memory, and 8-byte little-endian words in it.

  A memory is a total map from addresses to bytes. `Region a n` is the set of the `n`
  addresses from `a` on, wrapping at 2^64 as address arithmetic does. `fill` is the one
  way to write: everything outside its region stays (`fill_of_notMem`). Whether two regions
  meet is decided by their offsets from a common base (`disjoint_offsets`), and a region
  inside another inherits what is known of it (`region_subset`).
-/
import Mathlib.Data.BitVec
import Mathlib.Data.Set.Basic
import Mathlib.Order.Disjoint
import Mathlib.Data.Set.Disjoint
import Mathlib.Data.Set.Lattice
import Mathlib.Order.CompletePartialOrder
import Mathlib.Tactic.Ring

namespace HelloOS.Lib

/-- A memory: a byte at every address. -/
abbrev Mem := BitVec 64 → BitVec 8

/-- The `n` addresses from `a` on. -/
def Region (a : BitVec 64) (n : Nat) : Set (BitVec 64) := {x | (x - a).toNat < n}

instance (a : BitVec 64) (n : Nat) (x : BitVec 64) : Decidable (x ∈ Region a n) :=
  inferInstanceAs (Decidable ((x - a).toNat < n))

theorem mem_region {a x : BitVec 64} {n : Nat} : x ∈ Region a n ↔ (x - a).toNat < n := Iff.rfl

theorem toNat_ofNat_le (n : Nat) : (BitVec.ofNat 64 n).toNat ≤ n := by
  rw [BitVec.toNat_ofNat]
  exact Nat.mod_le _ _

theorem toNat_ofNat_eq {w n : ℕ} (h : n < 2 ^ w) : (BitVec.ofNat w n).toNat = n := by
  rw [BitVec.toNat_ofNat]
  exact Nat.mod_eq_of_lt h

/-- A region at an offset lies in every region that reaches behind it. -/
theorem region_subset (a : BitVec 64) {c : BitVec 64} {k n : Nat} (h : c.toNat + k ≤ n) :
    Region (a + c) k ⊆ Region a n := by
  intro x hx
  rw [mem_region] at hx ⊢
  have hsum : x - a = (x - (a + c)) + c := by ring
  rw [hsum, BitVec.toNat_add]
  exact Nat.lt_of_le_of_lt (Nat.mod_le _ _) (by omega)

theorem region_mono (a : BitVec 64) {k n : Nat} (h : k ≤ n) : Region a k ⊆ Region a n :=
  fun _ hx => Nat.lt_of_lt_of_le hx h

/-- Regions at offsets one behind the other do not meet. -/
theorem disjoint_offsets (a : BitVec 64) {c d : BitVec 64} {k n : Nat} (h : c.toNat + k ≤ d.toNat)
    (hn : d.toNat + n ≤ 2 ^ 64) : Disjoint (Region (a + c) k) (Region (a + d) n) := by
  rw [Set.disjoint_left]
  intro x hc hd
  rw [mem_region] at hc hd
  have h1 : (x - a).toNat = (x - (a + c)).toNat + c.toNat := by
    rw [show x - a = (x - (a + c)) + c by ring, BitVec.toNat_add]
    exact Nat.mod_eq_of_lt (by omega)
  have h2 : (x - a).toNat = (x - (a + d)).toNat + d.toNat := by
    rw [show x - a = (x - (a + d)) + d by ring, BitVec.toNat_add]
    exact Nat.mod_eq_of_lt (by omega)
  omega

/-- A region and one that starts behind it, at an offset. -/
theorem disjoint_offset (a : BitVec 64) {d : BitVec 64} {k n : Nat} (h : k ≤ d.toNat)
    (hn : d.toNat + n ≤ 2 ^ 64) : Disjoint (Region a k) (Region (a + d) n) := by
  have := disjoint_offsets a (c := 0#64) (k := k) (by simpa using h) hn
  rwa [BitVec.add_zero] at this

/-- Regions that do not wrap, one behind the other. -/
theorem disjoint_of_le {a b : BitVec 64} {k n : Nat} (h : a.toNat + k ≤ b.toNat)
    (hn : b.toNat + n ≤ 2 ^ 64) : Disjoint (Region a k) (Region b n) := by
  have := disjoint_offsets 0#64 h hn
  rwa [BitVec.zero_add, BitVec.zero_add] at this

/-- A region that does not wrap is an interval. -/
theorem mem_region_interval {a x : BitVec 64} {n : Nat} (h : a.toNat + n ≤ 2 ^ 64) :
    x ∈ Region a n ↔ a.toNat ≤ x.toNat ∧ x.toNat < a.toNat + n := by
  rw [mem_region]
  bv_omega

/-- A region that does not wrap lies below a bound exactly when it is empty or ends there. -/
theorem region_below_iff {a : BitVec 64} {n l : Nat} (h : a.toNat + n ≤ 2 ^ 64) :
    (∀ x ∈ Region a n, x.toNat < l) ↔ n = 0 ∨ a.toNat + n ≤ l := by
  constructor
  · intro hall
    by_cases h0 : n = 0
    · exact Or.inl h0
    · have hlast : (BitVec.ofNat 64 (n - 1)).toNat = n - 1 := by
        exact toNat_ofNat_eq (by omega)
      have hx := hall (a + BitVec.ofNat 64 (n - 1)) (by
        rw [mem_region, show a + BitVec.ofNat 64 (n - 1) - a = BitVec.ofNat 64 (n - 1) by ring]
        omega)
      rw [BitVec.toNat_add, hlast, Nat.mod_eq_of_lt (by omega)] at hx
      omega
  · rintro hend x hx
    rw [mem_region] at hx
    have hsum : x.toNat = (x - a).toNat + a.toNat := by
      conv_lhs => rw [show x = x - a + a by ring]
      rw [BitVec.toNat_add]
      exact Nat.mod_eq_of_lt (by omega)
    omega

namespace Mem

variable (m : Mem) (a b : BitVec 64)

/-! ## Writing -/

/-- `m` with the bytes `f 0, …, f (n - 1)` from `a` on. -/
def fill (m : Mem) (a : BitVec 64) (n : Nat) (f : Nat → BitVec 8) : Mem :=
  fun x => if (x - a).toNat < n then f (x - a).toNat else m x

theorem fill_of_notMem {n : Nat} (f : Nat → BitVec 8) {x : BitVec 64} (h : x ∉ Region a n) :
    m.fill a n f x = m x := if_neg h

theorem fill_of_mem {n : Nat} (f : Nat → BitVec 8) {x : BitVec 64} (h : x ∈ Region a n) :
    m.fill a n f x = f (x - a).toNat := if_pos h

theorem fill_congr {n : Nat} {f g : Nat → BitVec 8} (h : ∀ i < n, f i = g i) :
    m.fill a n f = m.fill a n g := by
  funext x
  by_cases hx : x ∈ Region a n
  · rw [fill_of_mem _ _ _ hx, fill_of_mem _ _ _ hx, h _ hx]
  · rw [fill_of_notMem _ _ _ hx, fill_of_notMem _ _ _ hx]

@[simp] theorem fill_zero (f : Nat → BitVec 8) : m.fill a 0 f = m :=
  funext fun _ => m.fill_of_notMem a f (Nat.not_lt_zero _)

/-- Filling on where a fill ended. -/
theorem fill_fill {n k : Nat} (f : Nat → BitVec 8) (h : n + k ≤ 2 ^ 64) :
    (m.fill a n f).fill (a + BitVec.ofNat 64 n) k (fun i => f (n + i)) = m.fill a (n + k) f := by
  funext x
  have hsum : x - a = (x - (a + BitVec.ofNat 64 n)) + BitVec.ofNat 64 n := by ring
  have hn : k ≠ 0 → (BitVec.ofNat 64 n).toNat = n := fun hk => by
    exact toNat_ofNat_eq (by omega)
  unfold fill
  by_cases hx : (x - (a + BitVec.ofNat 64 n)).toNat < k
  · have hoff : (x - a).toNat = n + (x - (a + BitVec.ofNat 64 n)).toNat := by
      rw [hsum, BitVec.toNat_add, hn (by omega), Nat.add_comm]
      exact Nat.mod_eq_of_lt (by omega)
    rw [if_pos hx, if_pos (by omega), hoff]
  · rw [if_neg hx]
    by_cases hlow : (x - a).toNat < n
    · rw [if_pos hlow, if_pos (by omega)]
    · rw [if_neg hlow, if_neg fun hlt => hx ?_]
      -- an offset in the second part
      have hback : x - (a + BitVec.ofNat 64 n) = (x - a) - BitVec.ofNat 64 n := by ring
      rw [hback, BitVec.toNat_sub_of_le (by rw [BitVec.le_def, hn (by omega)]; omega),
        hn (by omega)]
      omega

/-- A store of the next bytes of a fill. -/
theorem fill_next {n k : Nat} {f g : Nat → BitVec 8} (h : n + k ≤ 2 ^ 64)
    (hg : ∀ i < k, g i = f (n + i)) :
    (m.fill a n f).fill (a + BitVec.ofNat 64 n) k g = m.fill a (n + k) f := by
  rw [fill_congr _ _ hg]
  exact m.fill_fill a f h

/-- Byte `i` of a word, from the low end. -/
def byteOf (v : BitVec 64) (i : Nat) : BitVec 8 := (v >>> (8 * i)).setWidth 8

/-- Store a word. -/
def write64 (m : Mem) (a : BitVec 64) (v : BitVec 64) : Mem := m.fill a 8 (byteOf v)

/-- Load a word. -/
def read64 (m : Mem) (a : BitVec 64) : BitVec 64 :=
  m (a + 7#64) ++ m (a + 6#64) ++ m (a + 5#64) ++ m (a + 4#64) ++
    m (a + 3#64) ++ m (a + 2#64) ++ m (a + 1#64) ++ m a

/-- Store a half-word. -/
def write16 (m : Mem) (a : BitVec 64) (v : BitVec 16) : Mem :=
  m.fill a 2 fun i => (v >>> (8 * i)).setWidth 8

/-- Load a half-word. -/
def read16 (m : Mem) (a : BitVec 64) : BitVec 16 := m (a + 1#64) ++ m a

/-- Store a double word. -/
def write32 (m : Mem) (a : BitVec 64) (v : BitVec 32) : Mem :=
  m.fill a 4 fun i => (v >>> (8 * i)).setWidth 8

/-- Load a double word. -/
def read32 (m : Mem) (a : BitVec 64) : BitVec 32 :=
  m (a + 3#64) ++ m (a + 2#64) ++ m (a + 1#64) ++ m a

/-- The `n` bytes from `a` on. -/
def readBytes (m : Mem) (a : BitVec 64) : ℕ → List (BitVec 8)
  | 0 => []
  | n + 1 => m a :: readBytes m (a + 1#64) n

@[simp] theorem readBytes_length (n : ℕ) : (m.readBytes a n).length = n := by
  induction n generalizing a with
  | zero => rfl
  | succ n ih => rw [readBytes, List.length_cons, ih]

theorem readBytes_getElem? {n i : ℕ} (h : i < n) :
    (m.readBytes a n)[i]? = some (m (a + BitVec.ofNat 64 i)) := by
  induction n generalizing a i with
  | zero => omega
  | succ n ih =>
    cases i with
    | zero =>
      rw [BitVec.add_zero]
      rfl
    | succ i =>
      rw [readBytes, List.getElem?_cons_succ, ih _ (by omega), BitVec.add_assoc, Nat.add_comm i 1,
        BitVec.ofNat_add]

theorem readBytes_append (n k : ℕ) :
    m.readBytes a (n + k) = m.readBytes a n ++ m.readBytes (a + BitVec.ofNat 64 n) k := by
  induction n generalizing a with
  | zero =>
    rw [Nat.zero_add, BitVec.add_zero]
    rfl
  | succ n ih =>
    rw [Nat.add_right_comm, readBytes, ih, readBytes, List.cons_append, BitVec.add_assoc,
      Nat.add_comm n 1, BitVec.ofNat_add]

theorem readBytes_eq_iff {m m' : Mem} {a b : BitVec 64} {n : ℕ} :
    m.readBytes a n = m'.readBytes b n ↔
      ∀ k < n, m (a + BitVec.ofNat 64 k) = m' (b + BitVec.ofNat 64 k) := by
  constructor
  · intro h k hk
    have hbyte := congrArg (fun l => l[k]?) h
    rw [m.readBytes_getElem? a hk, m'.readBytes_getElem? b hk] at hbyte
    exact Option.some.inj hbyte
  · intro h
    refine List.ext_getElem? fun k => ?_
    by_cases hk : k < n
    · rw [m.readBytes_getElem? a hk, m'.readBytes_getElem? b hk, h k hk]
    · rw [List.getElem?_eq_none (by rw [Mem.readBytes_length]; omega),
        List.getElem?_eq_none (by rw [Mem.readBytes_length]; omega)]

/-! ## Bytes of words -/

/-- The lowest byte. -/
theorem byte_zero (b : BitVec 8) : (b >>> (8 * 0)).setWidth 8 = b := by
  rw [Nat.mul_zero, BitVec.ushiftRight_zero, BitVec.setWidth_eq]

theorem byte_append_zero {n : ℕ} (x : BitVec n) (b : BitVec 8) :
    ((x ++ b) >>> (8 * 0)).setWidth 8 = b := by
  apply BitVec.eq_of_getLsbD_eq
  intro k hk
  rw [BitVec.getLsbD_setWidth, BitVec.getLsbD_ushiftRight, BitVec.getLsbD_append,
    decide_eq_true hk, Bool.true_and, if_pos (by omega), Nat.mul_zero, Nat.zero_add]

/-- The bytes above the lowest. -/
theorem byte_append_succ {n : ℕ} (x : BitVec n) (b : BitVec 8) (i : ℕ) :
    ((x ++ b) >>> (8 * (i + 1))).setWidth 8 = (x >>> (8 * i)).setWidth 8 := by
  apply BitVec.eq_of_getLsbD_eq
  intro k hk
  rw [BitVec.getLsbD_setWidth, BitVec.getLsbD_ushiftRight, BitVec.getLsbD_append,
    BitVec.getLsbD_setWidth, BitVec.getLsbD_ushiftRight, if_neg (by omega),
    show 8 * (i + 1) + k - 8 = 8 * i + k by omega]

/-- The bytes of a double word that was loaded. -/
theorem byte_read32 {i : ℕ} (h : i < 4) :
    (m.read32 a >>> (8 * i)).setWidth 8 = m (a + BitVec.ofNat 64 i) := by
  unfold read32
  rcases i with _ | _ | _ | _ | i
  · rw [byte_append_zero, BitVec.add_zero]
  · rw [byte_append_succ, byte_append_zero]
  · rw [byte_append_succ, byte_append_succ, byte_append_zero]
  · rw [byte_append_succ, byte_append_succ, byte_append_succ, byte_zero]
  · omega

/-- A word is its two halves. -/
theorem read64_eq_append : m.read64 a = m.read32 (a + 4#64) ++ m.read32 a := by
  have h5 : a + 4#64 + 1#64 = a + 5#64 := BitVec.add_assoc a _ _
  have h6 : a + 4#64 + 2#64 = a + 6#64 := BitVec.add_assoc a _ _
  have h7 : a + 4#64 + 3#64 = a + 7#64 := BitVec.add_assoc a _ _
  unfold read64 read32
  rw [h5, h6, h7]
  apply BitVec.eq_of_toNat_eq
  simp only [BitVec.toNat_append, Nat.shiftLeft_or_distrib, ← Nat.shiftLeft_add, Nat.or_assoc]

/-- The bytes of a word that was loaded. -/
theorem byteOf_read64 {i : ℕ} (h : i < 8) : byteOf (m.read64 a) i = m (a + BitVec.ofNat 64 i) := by
  unfold byteOf read64
  rcases i with _ | _ | _ | _ | _ | _ | _ | _ | i
  · rw [byte_append_zero, BitVec.add_zero]
  · rw [byte_append_succ, byte_append_zero]
  · iterate 2 rw [byte_append_succ]
    rw [byte_append_zero]
  · iterate 3 rw [byte_append_succ]
    rw [byte_append_zero]
  · iterate 4 rw [byte_append_succ]
    rw [byte_append_zero]
  · iterate 5 rw [byte_append_succ]
    rw [byte_append_zero]
  · iterate 6 rw [byte_append_succ]
    rw [byte_append_zero]
  · iterate 7 rw [byte_append_succ]
    rw [byte_zero]
  · omega

/-- Storing the word that is there changes nothing. -/
theorem write64_read64 : m.write64 a (m.read64 a) = m := by
  funext x
  unfold write64
  by_cases hx : x ∈ Region a 8
  · rw [fill_of_mem _ _ _ hx, m.byteOf_read64 a hx]
    congr 1
    rw [BitVec.ofNat_toNat, BitVec.setWidth_eq]
    ring
  · exact fill_of_notMem _ _ _ hx

/-- The word made of the bytes of `v` is `v`. -/
theorem append_byteOf (v : BitVec 64) :
    byteOf v 7 ++ byteOf v 6 ++ byteOf v 5 ++ byteOf v 4 ++ byteOf v 3 ++ byteOf v 2 ++
      byteOf v 1 ++ byteOf v 0 = v := by
  have hbyte : ∀ i, byteOf v i = v.extractLsb' (8 * i) 8 := fun i =>
    BitVec.setWidth_ushiftRight_eq_extractLsb
  simp only [hbyte]
  iterate 7 rw [BitVec.extractLsb'_append_extractLsb'_eq_extractLsb' (by rfl)]
  exact BitVec.extractLsb'_eq_self

/-! ## Agreement -/

/-- `m` and `m'` hold the same bytes in `s`. -/
def AgreeOn (s : Set (BitVec 64)) (m m' : Mem) : Prop := ∀ x ∈ s, m x = m' x

theorem AgreeOn.refl (s : Set (BitVec 64)) : AgreeOn s m m := fun _ _ => rfl

theorem AgreeOn.trans {s : Set (BitVec 64)} {m m' m'' : Mem} (h : AgreeOn s m m')
    (h' : AgreeOn s m' m'') : AgreeOn s m m'' := fun x hx => (h x hx).trans (h' x hx)

theorem AgreeOn.mono {s t : Set (BitVec 64)} {m m' : Mem} (h : AgreeOn t m m') (hst : s ⊆ t) :
    AgreeOn s m m' := fun x hx => h x (hst hx)

/-- A write changes nothing outside its region. -/
theorem agreeOn_fill {s : Set (BitVec 64)} {n : Nat} (f : Nat → BitVec 8)
    (h : Disjoint (Region a n) s) : AgreeOn s (m.fill a n f) m := fun _ hx =>
  m.fill_of_notMem a f fun ha => Set.disjoint_left.mp h ha hx

theorem agreeOn_write64 {s : Set (BitVec 64)} (v : BitVec 64) (h : Disjoint (Region a 8) s) :
    AgreeOn s (m.write64 a v) m := m.agreeOn_fill a _ h

/-- Equal bytes make equal words, at whatever addresses they lie. -/
theorem read64_congr {m m' : Mem} {a b : BitVec 64}
    (h : ∀ c : BitVec 64, c.toNat < 8 → m (a + c) = m' (b + c)) : m.read64 a = m'.read64 b := by
  have h0 : m a = m' b := by
    have := h 0#64 (by decide)
    rwa [BitVec.add_zero, BitVec.add_zero] at this
  unfold Mem.read64
  rw [h 7#64 (by decide), h 6#64 (by decide), h 5#64 (by decide), h 4#64 (by decide),
    h 3#64 (by decide), h 2#64 (by decide), h 1#64 (by decide), h0]

theorem mem_region_add {a c : BitVec 64} {n : Nat} : a + c ∈ Region a n ↔ c.toNat < n := by
  rw [mem_region, show a + c - a = c by ring]

/-- A byte at an offset in a fill. -/
theorem fill_add {n : Nat} (f : Nat → BitVec 8) {c : BitVec 64} (h : c.toNat < n) :
    m.fill a n f (a + c) = f c.toNat := by
  rw [fill_of_mem _ _ _ (mem_region_add.mpr h), show a + c - a = c by ring]

/-- A word only depends on its 8 bytes. -/
theorem AgreeOn.read64 {m m' : Mem} {a : BitVec 64} (h : AgreeOn (Region a 8) m m') :
    m.read64 a = m'.read64 a :=
  read64_congr fun _ hc => h _ (mem_region_add.mpr hc)

theorem AgreeOn.readBytes {m m' : Mem} {a : BitVec 64} {n : ℕ} (h : AgreeOn (Region a n) m m') :
    m.readBytes a n = m'.readBytes a n :=
  readBytes_eq_iff.mpr fun k hk =>
    h _ (mem_region_add.mpr ((toNat_ofNat_le k).trans_lt hk))

/-! ## Reading back -/

@[simp] theorem read64_write64_self (v : BitVec 64) : (m.write64 a v).read64 a = v := by
  have hi : ∀ c : BitVec 64, c.toNat < 8 → m.write64 a v (a + c) = byteOf v c.toNat := by
    intro c hc
    exact m.fill_add a _ hc
  have h0 : m.write64 a v a = byteOf v 0 := by
    have := hi 0#64 (by decide)
    rwa [BitVec.add_zero] at this
  unfold read64
  rw [hi 7#64 (by decide), hi 6#64 (by decide), hi 5#64 (by decide), hi 4#64 (by decide),
    hi 3#64 (by decide), hi 2#64 (by decide), hi 1#64 (by decide), h0]
  exact append_byteOf v

theorem read64_write64_of_disjoint (v : BitVec 64) (h : Disjoint (Region a 8) (Region b 8)) :
    (m.write64 a v).read64 b = m.read64 b := (m.agreeOn_write64 a v h).read64

/-- Words at offsets from a common base that do not overlap. -/
theorem read64_write64_offset (v : BitVec 64) {c d : BitVec 64}
    (h : c.toNat + 8 ≤ d.toNat ∧ d.toNat + 8 ≤ 2 ^ 64 ∨
      d.toNat + 8 ≤ c.toNat ∧ c.toNat + 8 ≤ 2 ^ 64) :
    (m.write64 (a + c) v).read64 (a + d) = m.read64 (a + d) := by
  apply m.read64_write64_of_disjoint
  rcases h with ⟨hlow, hd⟩ | ⟨hhigh, hc⟩
  · exact disjoint_offsets a hlow hd
  · exact (disjoint_offsets a hhigh hc).symm

/-! ## Half-words -/

theorem AgreeOn.read16 {m m' : Mem} {a : BitVec 64} (h : AgreeOn (Region a 2) m m') :
    m.read16 a = m'.read16 a := by
  have h0 : m a = m' a := h a (by rw [mem_region, BitVec.sub_self]; decide)
  unfold Mem.read16
  rw [h _ (mem_region_add.mpr (by decide)), h0]

theorem agreeOn_write16 {s : Set (BitVec 64)} (v : BitVec 16) (h : Disjoint (Region a 2) s) :
    AgreeOn s (m.write16 a v) m := m.agreeOn_fill a _ h

@[simp] theorem read16_write16_self (v : BitVec 16) : (m.write16 a v).read16 a = v := by
  have h1 : m.write16 a v (a + 1#64) = (v >>> 8).setWidth 8 := by
    exact m.fill_add a _ (by decide)
  have h0 : m.write16 a v a = v.setWidth 8 := by
    unfold write16
    rw [fill_of_mem _ _ _ (by rw [mem_region, BitVec.sub_self]; decide), BitVec.sub_self]
    rfl
  unfold read16
  rw [h1, h0, BitVec.setWidth_ushiftRight_eq_extractLsb, BitVec.setWidth_eq_extractLsb' (by decide),
    BitVec.extractLsb'_append_extractLsb'_eq_extractLsb' (by rfl)]
  exact BitVec.extractLsb'_eq_self

/-- A half-word at an offset in a fill. -/
theorem read16_fill {n k : ℕ} (f : ℕ → BitVec 8) (h : k + 1 < n) (hk : k + 1 < 2 ^ 64) :
    (m.fill a n f).read16 (a + BitVec.ofNat 64 k) = f (k + 1) ++ f k := by
  have hmod : ∀ i ≤ k + 1, (BitVec.ofNat 64 i).toNat = i := fun i hi => by
    exact toNat_ofNat_eq (by omega)
  unfold read16
  rw [BitVec.add_assoc, show (1#64 : BitVec 64) = BitVec.ofNat 64 1 from rfl, ← BitVec.ofNat_add,
    fill_add _ _ _ (by rw [hmod _ le_rfl]; exact h),
    fill_add _ _ _ (by rw [hmod k (by omega)]; omega),
    hmod _ le_rfl, hmod k (by omega)]

/-! ## Double words -/

theorem agreeOn_write32 {s : Set (BitVec 64)} (v : BitVec 32) (h : Disjoint (Region a 4) s) :
    AgreeOn s (m.write32 a v) m := m.agreeOn_fill a _ h

theorem AgreeOn.read32 {m m' : Mem} {a : BitVec 64} (h : AgreeOn (Region a 4) m m') :
    m.read32 a = m'.read32 a := by
  have h0 : m a = m' a := h a (by rw [mem_region, BitVec.sub_self]; decide)
  unfold Mem.read32
  rw [h _ (mem_region_add.mpr (by decide)), h _ (mem_region_add.mpr (by decide)),
    h _ (mem_region_add.mpr (by decide)), h0]

@[simp] theorem read32_write32_self (v : BitVec 32) : (m.write32 a v).read32 a = v := by
  have hi : ∀ (c : BitVec 64) (j : ℕ), c.toNat = j → j < 4 →
      m.write32 a v (a + c) = (v >>> (8 * j)).setWidth 8 := by
    intro c j hc hj
    unfold write32
    rw [fill_add _ _ _ (by omega), hc]
  have h0 : m.write32 a v a = (v >>> (8 * 0)).setWidth 8 := by
    have := hi 0#64 0 rfl (by decide)
    rwa [BitVec.add_zero] at this
  unfold read32
  rw [hi 3#64 3 rfl (by decide), hi 2#64 2 rfl (by decide), hi 1#64 1 rfl (by decide), h0]
  simp only [BitVec.setWidth_ushiftRight_eq_extractLsb]
  iterate 3 rw [BitVec.extractLsb'_append_extractLsb'_eq_extractLsb' (by rfl)]
  exact BitVec.extractLsb'_eq_self

/-- A double word stored into a word whose upper half is zero. -/
theorem read64_write32_self (v : BitVec 32) (h : m.read32 (a + 4#64) = 0#32) :
    (m.write32 a v).read64 a = v.setWidth 64 := by
  have hhigh : (m.write32 a v).read32 (a + 4#64) = 0#32 := by
    rw [← h]
    exact (m.agreeOn_write32 a v (disjoint_offset a (by decide) (by decide))).read32
  rw [read64_eq_append, read32_write32_self, hhigh]
  apply BitVec.eq_of_toNat_eq
  rw [BitVec.toNat_append, BitVec.toNat_setWidth]
  simp
  omega

/-- A word of a copied block is the word of the original. -/
theorem read64_copy {n : Nat} {c : BitVec 64} (h : c.toNat + 8 ≤ n) :
    (m.fill a n fun i => m (b + BitVec.ofNat 64 i)).read64 (a + c) = m.read64 (b + c) := by
  refine read64_congr fun d hd => ?_
  have hsum : (c + d).toNat ≤ c.toNat + d.toNat := by
    rw [BitVec.toNat_add]
    exact Nat.mod_le _ _
  rw [BitVec.add_assoc, BitVec.add_assoc, fill_add _ _ _ (by omega), BitVec.ofNat_toNat,
    BitVec.setWidth_eq]

/-! ## Blocks of words -/

/-- The `n` words from `a` on. -/
def readWords (m : Mem) (a : BitVec 64) : Nat → List (BitVec 64)
  | 0 => []
  | n + 1 => m.read64 a :: readWords m (a + 8#64) n

/-- Push the words `vs` one after the other below `sp`: the last one ends up lowest. -/
def pushWords (m : Mem) (sp : BitVec 64) : List (BitVec 64) → Mem
  | [] => m
  | v :: vs => pushWords (m.write64 (sp - 8#64) v) (sp - 8#64) vs

@[simp] theorem readWords_length (n : Nat) : (m.readWords a n).length = n := by
  induction n generalizing a with
  | zero => rfl
  | succ n ih => simp [readWords, ih]

theorem readWords_append (n k : Nat) :
    m.readWords a (n + k) = m.readWords a n ++ m.readWords (a + BitVec.ofNat 64 (8 * n)) k := by
  induction n generalizing a with
  | zero => simp [readWords]
  | succ n ih =>
      rw [Nat.succ_add, readWords, ih, readWords, List.cons_append]
      congr 3
      rw [BitVec.add_assoc]
      congr 1
      apply BitVec.eq_of_toNat_eq
      simp only [BitVec.toNat_add, BitVec.toNat_ofNat]
      omega

/-- A word block only depends on its bytes. -/
theorem AgreeOn.readWords {m m' : Mem} {a : BitVec 64} {n : Nat}
    (h : AgreeOn (Region a (8 * n)) m m') : m.readWords a n = m'.readWords a n := by
  induction n generalizing a with
  | zero => rfl
  | succ n ih =>
      have h8 : (8#64).toNat + 8 * n ≤ 8 * (n + 1) := by
        rw [show (8#64).toNat = 8 from rfl]
        omega
      rw [Mem.readWords, Mem.readWords, (h.mono (region_mono a (by omega))).read64,
        ih (h.mono (region_subset a h8))]

/-- Where the stack pointer stands after `n` pushes. -/
def below (sp : BitVec 64) (n : Nat) : BitVec 64 := sp - BitVec.ofNat 64 (8 * n)

theorem below_succ (sp : BitVec 64) (n : Nat) : below sp (n + 1) = below (sp - 8#64) n := by
  unfold below
  rw [Nat.mul_succ, BitVec.ofNat_add]
  ring

theorem below_below (sp : BitVec 64) (n k : Nat) : below (below sp n) k = below sp (n + k) := by
  unfold below
  rw [Nat.mul_add, BitVec.ofNat_add]
  ring

theorem below_add (sp : BitVec 64) (n : Nat) : below sp n + BitVec.ofNat 64 (8 * n) = sp := by
  unfold below
  ring

theorem below_add_word (sp : BitVec 64) (n : Nat) : below sp (n + 1) + 8#64 = below sp n := by
  unfold below
  rw [Nat.mul_succ, BitVec.ofNat_add]
  ring

/-- Of `n + 1` words below `sp`, one lies right below it and the others below that. -/
theorem region_below_succ (sp : BitVec 64) {n : Nat} (h : 8 * (n + 1) < 2 ^ 64) :
    Region (below sp (n + 1)) (8 * (n + 1)) =
      Region (below (sp - 8#64) n) (8 * n) ∪ Region (sp - 8#64) 8 := by
  have hoff : (BitVec.ofNat 64 (8 * n)).toNat = 8 * n := by
    exact toNat_ofNat_eq (by omega)
  ext x
  have hsum : x - below (sp - 8#64) n = x - (sp - 8#64) + BitVec.ofNat 64 (8 * n) := by
    unfold below
    ring
  have hlt := (x - (sp - 8#64)).isLt
  rw [below_succ, Set.mem_union, mem_region, mem_region, mem_region, hsum, BitVec.toNat_add, hoff]
  rcases Nat.lt_or_ge ((x - (sp - 8#64)).toNat + 8 * n) (2 ^ 64) with hw | hw
  · rw [Nat.mod_eq_of_lt hw]
    omega
  · rw [Nat.mod_eq_sub_mod hw, Nat.mod_eq_of_lt (by omega)]
    omega

/-- The words pushed below `sp` do not meet what lies from `sp` on. -/
theorem below_disjoint (sp : BitVec 64) {n k : Nat} (h : 8 * n + k ≤ 2 ^ 64) (hn : 8 * n < 2 ^ 64) :
    Disjoint (Region (below sp n) (8 * n)) (Region sp k) := by
  have hoff : (BitVec.ofNat 64 (8 * n)).toNat = 8 * n := by
    exact toNat_ofNat_eq hn
  have := disjoint_offset (below sp n) (d := BitVec.ofNat 64 (8 * n)) (k := 8 * n) (n := k)
    (by omega) (by omega)
  rwa [below_add] at this

theorem pushWords_append (sp : BitVec 64) (vs ws : List (BitVec 64)) :
    m.pushWords sp (vs ++ ws) = (m.pushWords sp vs).pushWords (below sp vs.length) ws := by
  induction vs generalizing m sp with
  | nil =>
      rw [List.nil_append, List.length_nil, show below sp 0 = sp from BitVec.sub_zero sp]
      rfl
  | cons v vs ih => rw [List.cons_append, pushWords, ih, pushWords, List.length_cons, below_succ]

/-- The `n`-th word above the `n + 1` pushed ones is the first one pushed. -/
theorem below_succ_add (sp : BitVec 64) (n : Nat) :
    below sp (n + 1) + BitVec.ofNat 64 (8 * n) = sp - 8#64 := by
  rw [below_succ]
  unfold below
  ring

/-- Pushing touches nothing outside the region the words take. -/
theorem agreeOn_pushWords (sp : BitVec 64) (vs : List (BitVec 64)) {s : Set (BitVec 64)}
    (h : Disjoint (Region (below sp vs.length) (8 * vs.length)) s) :
    AgreeOn s (m.pushWords sp vs) m := by
  induction vs generalizing m sp with
  | nil => exact AgreeOn.refl m s
  | cons v vs ih =>
      rw [List.length_cons] at h
      have hrest : Region (below (sp - 8#64) vs.length) (8 * vs.length) ⊆
          Region (below sp (vs.length + 1)) (8 * (vs.length + 1)) := by
        rw [← below_succ]
        exact region_mono _ (by omega)
      have hword : Region (sp - 8#64) 8 ⊆
          Region (below sp (vs.length + 1)) (8 * (vs.length + 1)) := by
        rw [← below_succ_add sp vs.length]
        have := toNat_ofNat_le (8 * vs.length)
        exact region_subset _ (by omega)
      exact (ih _ _ (h.mono_left hrest)).trans (m.agreeOn_write64 _ v (h.mono_left hword))

/-- What was pushed reads back in reverse order. -/
theorem readWords_pushWords (sp : BitVec 64) (vs : List (BitVec 64)) (h : 8 * vs.length ≤ 2 ^ 64) :
    (m.pushWords sp vs).readWords (below sp vs.length) vs.length = vs.reverse := by
  induction vs generalizing m sp with
  | nil => rfl
  | cons v vs ih =>
      rw [List.length_cons] at h
      -- the first word pushed is the highest, and later pushes stay below it
      have hfirst : ((m.write64 (sp - 8#64) v).pushWords (sp - 8#64) vs).read64 (sp - 8#64) =
          v := by
        have hdis := below_disjoint (sp - 8#64) (n := vs.length) (k := 8) (by omega) (by omega)
        rw [(agreeOn_pushWords _ _ vs hdis).read64, read64_write64_self]
      rw [List.length_cons, readWords_append, below_succ_add, List.reverse_cons, below_succ,
        pushWords, ih _ _ (by omega)]
      simp only [readWords, hfirst]

/-- The last word pushed, and behind it the ones before. -/
theorem pushWords_concat (sp : BitVec 64) (vs : List (BitVec 64)) (v : BitVec 64)
    (h : 8 * (vs.length + 1) ≤ 2 ^ 64) :
    (m.pushWords sp (vs ++ [v])).read64 (below sp (vs.length + 1)) = v ∧
      (m.pushWords sp (vs ++ [v])).readWords (below sp vs.length) vs.length = vs.reverse := by
  have hlen : (vs ++ [v]).length = vs.length + 1 := by simp
  have hpush := m.readWords_pushWords sp (vs ++ [v]) (by rw [hlen]; exact h)
  rw [hlen, List.reverse_append, List.reverse_singleton, List.singleton_append, readWords,
    below_add_word, List.cons.injEq] at hpush
  exact hpush

/-- What lies from `sp` on is not touched by pushes. -/
theorem readWords_above_pushWords (sp : BitVec 64) (vs : List (BitVec 64)) {k : Nat}
    (h : 8 * vs.length + 8 * k ≤ 2 ^ 64) (hn : 8 * vs.length < 2 ^ 64) :
    (m.pushWords sp vs).readWords sp k = m.readWords sp k :=
  (m.agreeOn_pushWords sp vs (below_disjoint sp h hn)).readWords

end Mem

end HelloOS.Lib
