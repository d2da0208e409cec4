/-
  The 16-byte descriptors of x86-64's long mode: a gate of the interrupt descriptor table and a
  system segment of the global descriptor table. Each is two words, with the address in three
  or four parts. `decode_encode` says that no part of a word overlaps another.
-/
import HelloOS.Lib.Memory

namespace HelloOS.Lib

theorem toNat_append_add {w v : ℕ} (x : BitVec w) (y : BitVec v) :
    (x ++ y).toNat = x.toNat * 2 ^ v + y.toNat := by
  rw [BitVec.toNat_append, ← Nat.shiftLeft_add_eq_or_of_lt y.isLt, Nat.shiftLeft_eq]

theorem toNat_extractLsb' {w : ℕ} (x : BitVec w) (s n : ℕ) :
    (x.extractLsb' s n).toNat = x.toNat / 2 ^ s % 2 ^ n := by
  rw [BitVec.extractLsb'_toNat, Nat.shiftRight_eq_div_pow]

/-- The two words of a descriptor, the low one first. -/
structure DescriptorWords where
  low : BitVec 64
  high : BitVec 64
  deriving DecidableEq

namespace DescriptorWords

/-- The words at `p`. -/
def load (m : Mem) (p : BitVec 64) : DescriptorWords := ⟨m.read64 p, m.read64 (p + 8#64)⟩

/-- `m` with the words at `p`. -/
def store (m : Mem) (p : BitVec 64) (w : DescriptorWords) : Mem :=
  (m.write64 p w.low).write64 (p + 8#64) w.high

theorem ext_toNat {w w' : DescriptorWords} (hlow : w.low.toNat = w'.low.toNat)
    (hhigh : w.high.toNat = w'.high.toNat) : w = w' :=
  congrArg₂ mk (BitVec.eq_of_toNat_eq hlow) (BitVec.eq_of_toNat_eq hhigh)

theorem load_store (m : Mem) (p : BitVec 64) (w : DescriptorWords) : load (w.store m p) p = w := by
  have hdisj : Disjoint (Region (p + 8#64) 8) (Region p 8) :=
    (disjoint_offset p (by decide) (by decide)).symm
  unfold load store
  rw [Mem.read64_write64_self, Mem.read64_write64_of_disjoint _ _ _ _ hdisj,
    Mem.read64_write64_self]

theorem store_agreeOn (m : Mem) (p : BitVec 64) (w : DescriptorWords) {s : Set (BitVec 64)}
    (hd : Disjoint (Region p 16) s) : Mem.AgreeOn s (w.store m p) m :=
  (Mem.agreeOn_write64 _ _ _ (hd.mono_left (region_subset p (by decide)))).trans
    (Mem.agreeOn_write64 _ _ _ (hd.mono_left (region_mono p (by decide))))

theorem load_congr {m m' : Mem} {p : BitVec 64} (h : Mem.AgreeOn (Region p 16) m m') :
    load m p = load m' p :=
  congrArg₂ mk (h.mono (region_mono p (by decide))).read64
    (h.mono (region_subset p (by decide))).read64

end DescriptorWords

/-! ## Gates -/

/-- A gate: where it leads, with which code segment and stack, its type, privilege level and
    presence (`attr`), and the bits that must be zero. -/
structure Gate where
  offset : BitVec 64
  selector : BitVec 16
  ist : BitVec 3
  reserved : BitVec 5
  attr : BitVec 8
  reservedHigh : BitVec 32
  deriving DecidableEq

namespace Gate

def decode (w : DescriptorWords) : Gate where
  offset := w.high.setWidth 32 ++ w.low.extractLsb' 48 16 ++ w.low.setWidth 16
  selector := w.low.extractLsb' 16 16
  ist := w.low.extractLsb' 32 3
  reserved := w.low.extractLsb' 35 5
  attr := w.low.extractLsb' 40 8
  reservedHigh := w.high.extractLsb' 32 32

def encode (g : Gate) : DescriptorWords where
  low := g.offset.extractLsb' 16 16 ++ g.attr ++ g.reserved ++ g.ist ++ g.selector ++
    g.offset.setWidth 16
  high := g.reservedHigh ++ g.offset.extractLsb' 32 32

variable (g : Gate)

/-- The values of the words. -/
theorem encode_low : g.encode.low.toNat =
    g.offset.toNat / 2 ^ 16 % 2 ^ 16 * 2 ^ 48 + g.attr.toNat * 2 ^ 40 + g.reserved.toNat * 2 ^ 35 +
      g.ist.toNat * 2 ^ 32 + g.selector.toNat * 2 ^ 16 + g.offset.toNat % 2 ^ 16 := by
  unfold encode
  simp only [toNat_append_add, toNat_extractLsb', BitVec.toNat_setWidth]
  ring

theorem encode_high :
    g.encode.high.toNat = g.reservedHigh.toNat * 2 ^ 32 + g.offset.toNat / 2 ^ 32 := by
  have hlt := g.offset.isLt
  unfold encode
  simp only [toNat_append_add, toNat_extractLsb']
  omega

/-- The words of a gate stand for it. -/
theorem decode_encode : decode g.encode = g := by
  obtain ⟨offset, selector, ist, reserved, attr, reservedHigh⟩ := g
  unfold decode encode
  rw [mk.injEq]
  refine ⟨?_, ?_, ?_, ?_, ?_, ?_⟩
  all_goals
    refine BitVec.eq_of_getLsbD_eq fun i hi => ?_
    simp only [BitVec.getLsbD_append, BitVec.getLsbD_extractLsb', BitVec.getLsbD_setWidth]
    grind

end Gate

/-! ## System segments -/

/-- A system segment, such as that of a task state segment. -/
structure SystemSegment where
  base : BitVec 64
  limit : BitVec 20
  attr : BitVec 8
  flags : BitVec 4
  reserved : BitVec 32
  deriving DecidableEq

namespace SystemSegment

def decode (w : DescriptorWords) : SystemSegment where
  base := w.high.setWidth 32 ++ w.low.extractLsb' 56 8 ++ w.low.extractLsb' 16 24
  limit := w.low.extractLsb' 48 4 ++ w.low.setWidth 16
  attr := w.low.extractLsb' 40 8
  flags := w.low.extractLsb' 52 4
  reserved := w.high.extractLsb' 32 32

def encode (s : SystemSegment) : DescriptorWords where
  low := s.base.extractLsb' 24 8 ++ s.flags ++ s.limit.extractLsb' 16 4 ++ s.attr ++
    s.base.setWidth 24 ++ s.limit.setWidth 16
  high := s.reserved ++ s.base.extractLsb' 32 32

variable (s : SystemSegment)

/-- The values of the words. -/
theorem encode_low : s.encode.low.toNat =
    s.base.toNat / 2 ^ 24 % 2 ^ 8 * 2 ^ 56 + s.flags.toNat * 2 ^ 52 +
      s.limit.toNat / 2 ^ 16 * 2 ^ 48 + s.attr.toNat * 2 ^ 40 + s.base.toNat % 2 ^ 24 * 2 ^ 16 +
      s.limit.toNat % 2 ^ 16 := by
  have hlimit := s.limit.isLt
  unfold encode
  simp only [toNat_append_add, toNat_extractLsb', BitVec.toNat_setWidth]
  omega

theorem encode_high :
    s.encode.high.toNat = s.reserved.toNat * 2 ^ 32 + s.base.toNat / 2 ^ 32 := by
  have hlt := s.base.isLt
  unfold encode
  simp only [toNat_append_add, toNat_extractLsb']
  omega

/-- The words of a system segment stand for it. -/
theorem decode_encode : decode s.encode = s := by
  obtain ⟨base, limit, attr, flags, reserved⟩ := s
  unfold decode encode
  rw [mk.injEq]
  refine ⟨?_, ?_, ?_, ?_, ?_⟩
  all_goals
    refine BitVec.eq_of_getLsbD_eq fun i hi => ?_
    simp only [BitVec.getLsbD_append, BitVec.getLsbD_extractLsb', BitVec.getLsbD_setWidth]
    grind

end SystemSegment

end HelloOS.Lib
