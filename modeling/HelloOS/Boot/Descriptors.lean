/-
  Descriptors (`include/gate.h`, `arch/x86/boot/multiboot2.S`): `_set_gate` and its callers,
  `setup_IDT` with its loop, and `SetUp_TSS64`. Each puts the parts of an address together in
  `rax`, with adds and shifts, and stores `rax` and the upper half of the address.

  None of the adds carries (`setGateWords_eq`, `setupIdtWords_eq`, `setUpTss64Words_eq`): what is
  stored is the encoding of a descriptor.
-/
import HelloOS.Lib.Descriptor
import HelloOS.Mm.Basic

namespace HelloOS.Boot

open HelloOS.Lib HelloOS.Mm

/-- `movw src, dst`: the other bits of `dst` stay. -/
def movw (src dst : BitVec 64) : BitVec 64 := dst.extractLsb' 16 48 ++ src.setWidth 16

/-- `movl src, dst`: the upper half of `dst` is zero. -/
def movl (src : BitVec 64) : BitVec 64 := (src.setWidth 32).setWidth 64

/-! ## Gates -/

/-- `_set_gate`, up to its stores. -/
def setGateWords (attr ist : BitVec 8) (codeAddr : BitVec 64) : DescriptorWords :=
  let rdx := codeAddr
  let rax := 0x8#64 <<< 16
  let rax := movw rdx rax
  let rcx := ist.setWidth 64 &&& 0x7#64
  let rcx := rcx + (attr.setWidth 32 <<< 8).signExtend 64
  let rcx := rcx <<< 32
  let rax := rax + rcx
  let rcx := movl rdx
  let rcx := rcx >>> 16
  let rcx := rcx <<< 48
  let rax := rax + rcx
  ⟨rax, rdx >>> 32⟩

/-- `_set_gate(gate_selector_addr, attr, ist, code_addr)`. -/
def setGate (m : Mem) (gateSelectorAddr : BitVec 64) (attr ist : BitVec 8) (codeAddr : BitVec 64) :
    Mem := (setGateWords attr ist codeAddr).store m gateSelectorAddr

section Gates

variable (m : Mem) (idtTable : BitVec 64) (n : BitVec 32) (ist : BitVec 8) (addr : BitVec 64)

/-- `PHY2VIR(IDT_Table+n)`. -/
def gateAddr : BitVec 64 := phy2vir (idtTable + n.setWidth 64 * 16#64)

def setIntrGate : Mem := setGate m (gateAddr idtTable n) 0x8e#8 ist addr

def setTrapGate : Mem := setGate m (gateAddr idtTable n) 0x8f#8 ist addr

def setSystemGate : Mem := setGate m (gateAddr idtTable n) 0xef#8 ist addr

def setSystemIntrGate : Mem := setGate m (gateAddr idtTable n) 0xee#8 ist addr

end Gates

/-- `setup_IDT`, up to its loop. -/
def setupIdtWords (ignoreInt : BitVec 64) : DescriptorWords :=
  let rdx := ignoreInt
  let rax := 0x08#64 <<< 16
  let rax := movw rdx rax
  let rcx := 0x8e00#64 <<< 32
  let rax := rax + rcx
  let rcx := movl rdx
  let rcx := (rcx.setWidth 32 >>> 16).setWidth 64
  let rcx := rcx <<< 48
  let rax := rax + rcx
  ⟨rax, rdx >>> 32⟩

/-- `rp_sidt`, for `rcx` rounds. -/
def rpSidt (w : DescriptorWords) (m : Mem) (rdi : BitVec 64) : ℕ → Mem
  | 0 => m
  | rcx + 1 => rpSidt w (w.store m rdi) (rdi + 0x10#64) rcx

/-- `setup_IDT`. -/
def setupIdt (m : Mem) (idtTable ignoreInt : BitVec 64) : Mem :=
  rpSidt (setupIdtWords ignoreInt) m idtTable 256

/-! ## The task state segment -/

/-- `SetUp_TSS64`, up to its stores. -/
def setUpTss64Words (tss64Table : BitVec 64) : DescriptorWords :=
  let rdx := tss64Table
  let rax := 0x89#64 <<< 40
  let rcx := movl rdx
  let rcx := (rcx.setWidth 32 >>> 24).setWidth 64
  let rcx := rcx <<< 56
  let rax := rax + rcx
  let rcx := movl rdx
  let rcx := (rcx.setWidth 32 &&& 0xffffff#32).setWidth 64
  let rcx := rcx <<< 16
  let rax := rax + rcx
  let rax := rax + 103#64
  ⟨rax, rdx >>> 32⟩

/-- `SetUp_TSS64`, up to `go_to_kernel`. -/
def setUpTss64 (m : Mem) (gdtTable tss64Table : BitVec 64) : Mem :=
  (setUpTss64Words tss64Table).store m (gdtTable + 80#64)

/-! ## What is stored -/

theorem movw_toNat (src dst : BitVec 64) :
    (movw src dst).toNat = dst.toNat / 2 ^ 16 * 2 ^ 16 + src.toNat % 2 ^ 16 := by
  have hdst := dst.isLt
  unfold movw
  rw [toNat_append_add, toNat_extractLsb', BitVec.toNat_setWidth]
  omega

theorem movl_toNat (src : BitVec 64) : (movl src).toNat = src.toNat % 2 ^ 32 := by
  unfold movl
  rw [BitVec.toNat_setWidth, BitVec.toNat_setWidth]
  omega

theorem toNat_shl (x : BitVec 64) (k : ℕ) (h : x.toNat * 2 ^ k < 2 ^ 64) :
    (x <<< k).toNat = x.toNat * 2 ^ k := by
  rw [BitVec.toNat_shiftLeft, Nat.shiftLeft_eq]
  exact Nat.mod_eq_of_lt h

/-- A sum that does not carry out of the word. -/
theorem toNat_add_eq {x y : BitVec 64} {a b : ℕ} (hx : x.toNat = a) (hy : y.toNat = b)
    (h : a + b < 2 ^ 64) : (x + y).toNat = a + b := by
  rw [BitVec.toNat_add, hx, hy]
  exact Nat.mod_eq_of_lt h

/-- The parts of an address: bits 0 to 15 in `ax`, bits 16 to 31 shifted to the top. -/
theorem selectorAx_toNat (a : BitVec 64) :
    (movw a (0x8#64 <<< 16)).toNat = 8 * 2 ^ 16 + a.toNat % 2 ^ 16 := by
  rw [movw_toNat]
  rfl

theorem middle_toNat (a : BitVec 64) :
    (movl a >>> 16 <<< 48).toNat = a.toNat / 2 ^ 16 % 2 ^ 16 * 2 ^ 48 := by
  have hshr : (movl a >>> 16).toNat = a.toNat / 2 ^ 16 % 2 ^ 16 := by
    rw [BitVec.toNat_ushiftRight, movl_toNat, Nat.shiftRight_eq_div_pow]
    omega
  rw [toNat_shl _ _ (by rw [hshr]; omega), hshr]

theorem high_toNat (a : BitVec 64) : (a >>> 32).toNat = a.toNat / 2 ^ 32 := by
  rw [BitVec.toNat_ushiftRight, Nat.shiftRight_eq_div_pow]

/-- `attr << 8` as the immediate of an `addq`. -/
theorem attr_toNat : ∀ attr : BitVec 8,
    ((attr.setWidth 32 <<< 8).signExtend 64).toNat = attr.toNat * 2 ^ 8 := by
  decide +kernel

/-- The gate that `_set_gate` stores. -/
theorem setGateWords_eq (attr ist : BitVec 8) (codeAddr : BitVec 64) :
    setGateWords attr ist codeAddr =
      Gate.encode ⟨codeAddr, 8#16, ist.setWidth 3, 0#5, attr, 0#32⟩ := by
  have ha := codeAddr.isLt
  have hattr := attr.isLt
  have hax := selectorAx_toNat codeAddr
  have hmiddle := middle_toNat codeAddr
  have hand : (ist.setWidth 64 &&& 0x7#64).toNat = ist.toNat % 2 ^ 3 := by
    rw [BitVec.toNat_and, BitVec.toNat_setWidth, Nat.mod_eq_of_lt (by omega)]
    exact Nat.and_two_pow_sub_one_eq_mod ist.toNat 3
  have hsum := toNat_add_eq hand (attr_toNat attr) (by omega)
  have hrcx := toNat_shl _ 32 (by rw [hsum]; omega)
  rw [hsum] at hrcx
  have hlow := toNat_add_eq (toNat_add_eq hax hrcx (by omega)) hmiddle (by omega)
  refine DescriptorWords.ext_toNat (Eq.trans (hlow.trans ?_) (Gate.encode_low _).symm)
    (Eq.trans (high_toNat codeAddr) (Eq.trans ?_ (Gate.encode_high _).symm))
  · change _ = _ + _ + 0 * 2 ^ 35 + (ist.setWidth 3).toNat * 2 ^ 32 + 8 * 2 ^ 16 + _
    rw [BitVec.toNat_setWidth]
    dsimp only
    omega
  · change _ = 0 * 2 ^ 32 + _
    rw [Nat.zero_mul, Nat.zero_add]

theorem shrl_toNat (a : BitVec 64) (k : ℕ) :
    (((movl a).setWidth 32 >>> k).setWidth 64).toNat = a.toNat % 2 ^ 32 / 2 ^ k := by
  have hlt : a.toNat % 2 ^ 32 / 2 ^ k ≤ a.toNat % 2 ^ 32 := Nat.div_le_self _ _
  rw [BitVec.toNat_setWidth, BitVec.toNat_ushiftRight, BitVec.toNat_setWidth, movl_toNat,
    Nat.shiftRight_eq_div_pow, Nat.mod_mod, Nat.mod_eq_of_lt (by omega)]

/-- `setup_IDT` stores what `_set_gate` does for an interrupt gate. -/
theorem setupIdtWords_eq (ignoreInt : BitVec 64) :
    setupIdtWords ignoreInt = setGateWords 0x8e#8 0#8 ignoreInt := by
  have himm : ((0#8).setWidth 64 &&& 0x7#64) + ((0x8e#8).setWidth 32 <<< 8).signExtend 64 =
      0x8e00#64 := by decide
  have hshr : ((movl ignoreInt).setWidth 32 >>> 16).setWidth 64 = movl ignoreInt >>> 16 := by
    apply BitVec.eq_of_toNat_eq
    rw [shrl_toNat, BitVec.toNat_ushiftRight, movl_toNat, Nat.shiftRight_eq_div_pow]
  unfold setupIdtWords setGateWords
  dsimp only
  rw [himm, hshr]

/-- The segment that `SetUp_TSS64` stores. -/
theorem setUpTss64Words_eq (tss64Table : BitVec 64) :
    setUpTss64Words tss64Table = SystemSegment.encode ⟨tss64Table, 103#20, 0x89#8, 0#4, 0#32⟩ := by
  have hbase := tss64Table.isLt
  have htop := toNat_shl _ 56 (by rw [shrl_toNat tss64Table 24]; omega)
  rw [shrl_toNat] at htop
  have hand : (((movl tss64Table).setWidth 32 &&& 0xffffff#32).setWidth 64).toNat =
      tss64Table.toNat % 2 ^ 24 := by
    rw [BitVec.toNat_setWidth, BitVec.toNat_and, BitVec.toNat_setWidth, movl_toNat]
    have := Nat.and_two_pow_sub_one_eq_mod (tss64Table.toNat % 2 ^ 32 % 2 ^ 32) 24
    change (_ &&& 2 ^ 24 - 1) % 2 ^ 64 = _
    omega
  have hmiddle := toNat_shl _ 16 (by rw [hand]; omega)
  rw [hand] at hmiddle
  have hattr : (0x89#64 <<< 40).toNat = 0x89 * 2 ^ 40 := by decide
  have hlimit : (103#64).toNat = 103 := rfl
  have hlow := toNat_add_eq (toNat_add_eq (toNat_add_eq hattr htop (by omega)) hmiddle (by omega))
    hlimit (by omega)
  refine DescriptorWords.ext_toNat (Eq.trans (hlow.trans ?_) (SystemSegment.encode_low _).symm)
    (Eq.trans (high_toNat tss64Table) (Eq.trans ?_ (SystemSegment.encode_high _).symm))
  · change _ = _ + 0 * 2 ^ 52 + 103 / 2 ^ 16 * 2 ^ 48 + 0x89 * 2 ^ 40 + _ + 103 % 2 ^ 16
    dsimp only
    omega
  · change _ = 0 * 2 ^ 32 + _
    rw [Nat.zero_mul, Nat.zero_add]

/-! ## The tables -/

/-- The loop stores in its entries only. -/
theorem rpSidt_agreeOn (w : DescriptorWords) (m : Mem) (p : BitVec 64) {n : ℕ}
    {s : Set (BitVec 64)} (hd : Disjoint (Region p (16 * n)) s) :
    Mem.AgreeOn s (rpSidt w m p n) m := by
  induction n generalizing m p with
  | zero => exact Mem.AgreeOn.refl m s
  | succ n ih =>
      have hrest : Region (p + 0x10#64) (16 * n) ⊆ Region p (16 * (n + 1)) :=
        region_subset p (by rw [show (0x10#64).toNat = 16 from rfl]; omega)
      exact (ih _ _ (hd.mono_left hrest)).trans
        (w.store_agreeOn m p (hd.mono_left (region_mono p (by omega))))

/-- Every entry that the loop has come by holds the words. -/
theorem rpSidt_load (w : DescriptorWords) (m : Mem) (p : BitVec 64) {n i : ℕ}
    (hn : 16 * n ≤ 2 ^ 64) (hi : i < n) :
    DescriptorWords.load (rpSidt w m p n) (p + BitVec.ofNat 64 (16 * i)) = w := by
  induction n generalizing m p i with
  | zero => exact absurd hi (Nat.not_lt_zero i)
  | succ n ih =>
      cases i with
      | zero =>
          have hd : Disjoint (Region (p + 0x10#64) (16 * n)) (Region p 16) :=
            (disjoint_offset p (by decide)
              (by rw [show (0x10#64).toNat = 16 from rfl]; omega)).symm
          rw [Nat.mul_zero, BitVec.add_zero, rpSidt,
            DescriptorWords.load_congr (rpSidt_agreeOn w _ _ hd), DescriptorWords.load_store]
      | succ i =>
          have hnext : p + BitVec.ofNat 64 (16 * (i + 1)) =
              p + 0x10#64 + BitVec.ofNat 64 (16 * i) := by
            rw [BitVec.add_assoc, ← BitVec.ofNat_add, Nat.mul_add, Nat.add_comm]
          rw [hnext]
          exact ih (w.store m p) (p + 0x10#64) (by omega) (by omega)

/-- A stored gate, for all attributes; of `ist` the low three bits count. -/
theorem setGate_decode (m : Mem) (p : BitVec 64) (attr ist : BitVec 8) (addr : BitVec 64) :
    Gate.decode (DescriptorWords.load (setGate m p attr ist addr) p) =
      ⟨addr, 8#16, ist.setWidth 3, 0#5, attr, 0#32⟩ := by
  rw [setGate, DescriptorWords.load_store, setGateWords_eq, Gate.decode_encode]

/-- The gates of the four functions differ in their attributes only. -/
theorem setGates_decode (m : Mem) (idtTable : BitVec 64) (n : BitVec 32) (ist : BitVec 8)
    (addr : BitVec 64) :
    let decodeAt (m : Mem) := Gate.decode (DescriptorWords.load m (gateAddr idtTable n))
    let gate (attr : BitVec 8) : Gate := ⟨addr, 8#16, ist.setWidth 3, 0#5, attr, 0#32⟩
    decodeAt (setIntrGate m idtTable n ist addr) = gate 0x8e#8 ∧
      decodeAt (setTrapGate m idtTable n ist addr) = gate 0x8f#8 ∧
      decodeAt (setSystemGate m idtTable n ist addr) = gate 0xef#8 ∧
      decodeAt (setSystemIntrGate m idtTable n ist addr) = gate 0xee#8 :=
  ⟨setGate_decode _ _ _ _ _, setGate_decode _ _ _ _ _, setGate_decode _ _ _ _ _,
    setGate_decode _ _ _ _ _⟩

/-- **Descriptors.** The 16 bytes that `_set_gate` stores decode to the handler's address, selector
    8, the stack `ist` and the attributes it is given, with all reserved bits zero; every entry of
    the table behind `setup_IDT` holds the bytes that `_set_gate` stores for an interrupt gate to
    `ignore_int`; and the 16 bytes of `SetUp_TSS64` decode to the segment at the base, with limit
    103 and type 0x89. -/
theorem descriptors_decode :
    (∀ (m : Mem) (p addr : BitVec 64) (attr : BitVec 8) (ist : BitVec 3),
      Gate.decode (DescriptorWords.load (setGate m p attr (ist.setWidth 8) addr) p) =
        ⟨addr, 8#16, ist, 0#5, attr, 0#32⟩) ∧
    (∀ (m m' : Mem) (idt p addr : BitVec 64), ∀ i < 256,
      DescriptorWords.load (setupIdt m idt addr) (idt + BitVec.ofNat 64 (16 * i)) =
        DescriptorWords.load (setGate m' p 0x8e#8 0#8 addr) p) ∧
    ∀ (m : Mem) (gdt base : BitVec 64),
      SystemSegment.decode (DescriptorWords.load (setUpTss64 m gdt base) (gdt + 80#64)) =
        ⟨base, 103#20, 0x89#8, 0#4, 0#32⟩ := by
  refine ⟨fun m p addr attr ist => ?_, fun m m' idt p addr i hi => ?_, fun m gdt base => ?_⟩
  · have hist : (ist.setWidth 8).setWidth 3 = ist := by
      rw [BitVec.setWidth_setWidth_of_le ist (by decide), BitVec.setWidth_eq]
    rw [setGate_decode, hist]
  · rw [setupIdt, rpSidt_load _ m idt (by decide) hi, setGate, DescriptorWords.load_store,
      setupIdtWords_eq]
  · rw [setUpTss64, DescriptorWords.load_store, setUpTss64Words_eq, SystemSegment.decode_encode]

end HelloOS.Boot
