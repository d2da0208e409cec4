/-
  An ATA disk in PIO mode, as its host sees it: a task file of five registers, a status
  port, a command port and a data port. Sectors have 512 bytes. A write command consumes the
  bytes sent to the data port in sector order, a read command yields them; what goes beyond
  the sectors that were asked for is lost. The stream of status bytes is left open.
-/
import HelloOS.Lib.Port
import Mathlib.Algebra.Group.Nat.Defs
import Mathlib.Logic.Function.Basic

namespace HelloOS.Lib

/-- What the data port is doing: for `count` sectors from `lba` on, `pos` bytes are done. -/
inductive Transfer
  | idle
  | reading (lba count pos : ℕ)
  | writing (lba count pos : ℕ)

structure AtaDisk where
  /-- The content; sector `l` is the bytes `512 * l, …, 512 * l + 511`. -/
  bytes : ℕ → BitVec 8
  device : BitVec 8
  count : BitVec 8
  low : BitVec 8
  mid : BitVec 8
  high : BitVec 8
  transfer : Transfer
  /-- The bytes sent to the data port since the last command. -/
  received : List (BitVec 8)
  /-- How often the status has been read. -/
  polls : ℕ

namespace AtaDisk

/-- The address in the task file, 28 bits. -/
def lba (d : AtaDisk) : ℕ :=
  d.low.toNat + 2 ^ 8 * d.mid.toNat + 2 ^ 16 * d.high.toNat + 2 ^ 24 * (d.device.toNat % 16)

/-- The number of sectors; 0 stands for 256. -/
def sectorCount (d : AtaDisk) : ℕ := if d.count = 0#8 then 256 else d.count.toNat

/-- The device register selects this drive, the master, and addressing by sector number. -/
def selected (d : AtaDisk) : Bool := d.device.getLsbD 6 && !d.device.getLsbD 4

/-- A command: 0x20 reads, 0x30 writes. -/
def command (v : BitVec 8) (d : AtaDisk) : AtaDisk :=
  { d with
    received := []
    transfer :=
      if d.selected && v == 0x20#8 then .reading d.lba d.sectorCount 0
      else if d.selected && v == 0x30#8 then .writing d.lba d.sectorCount 0
      else .idle }

/-- One byte arrives at the data port. -/
def consume (d : AtaDisk) (b : BitVec 8) : AtaDisk :=
  match d.transfer with
  | .writing l n pos =>
    if pos < 512 * n then
      { d with
        received := d.received ++ [b]
        bytes := Function.update d.bytes (512 * l + pos) b
        transfer := .writing l n (pos + 1) }
    else { d with received := d.received ++ [b] }
  | _ => { d with received := d.received ++ [b] }

/-- One byte leaves the data port. -/
def yieldByte (d : AtaDisk) : BitVec 8 × AtaDisk :=
  match d.transfer with
  | .reading l n pos =>
    if pos < 512 * n then (d.bytes (512 * l + pos), { d with transfer := .reading l n (pos + 1) })
    else (0xff#8, d)
  | _ => (0xff#8, d)

/-- Reading the status. -/
def tick (d : AtaDisk) : AtaDisk := { d with polls := d.polls + 1 }

/-- The ports 0x1F0 to 0x1F7, with the given status bytes. -/
def bus (status : ℕ → BitVec 8) : Bus AtaDisk where
  in8 := fun port d => if port = 0x1F7#16 then (status d.polls, d.tick) else (0xff#8, d)
  out8 := fun port v d =>
    if port = 0x1F2#16 then { d with count := v }
    else if port = 0x1F3#16 then { d with low := v }
    else if port = 0x1F4#16 then { d with mid := v }
    else if port = 0x1F5#16 then { d with high := v }
    else if port = 0x1F6#16 then { d with device := v }
    else if port = 0x1F7#16 then d.command v
    else d
  in16 := fun port d =>
    if port = 0x1F0#16 then
      let (b₀, d) := d.yieldByte
      let (b₁, d) := d.yieldByte
      (b₁ ++ b₀, d)
    else (0xffff#16, d)
  out32 := fun port v d =>
    if port = 0x1F0#16 then
      ([0, 1, 2, 3].map fun i => (v >>> (8 * i)).setWidth 8).foldl consume d
    else d

theorem streams (status : ℕ → BitVec 8) : Streams (bus status) 0x1F7#16 status polls tick :=
  ⟨fun _ => rfl, fun _ => rfl⟩

theorem iterate_tick (d : AtaDisk) (n : ℕ) :
    Nat.iterate tick n d = { d with polls := d.polls + n } := by
  induction n generalizing d with
  | zero => rfl
  | succ n ih =>
    rw [Function.iterate_succ_apply, ih]
    unfold tick
    rw [Nat.add_assoc, Nat.add_comm 1 n]

/-! ## Writing -/

theorem consume_received (d : AtaDisk) (b : BitVec 8) :
    (d.consume b).received = d.received ++ [b] := by
  unfold consume
  split
  · split <;> rfl
  · rfl

theorem foldl_consume_received (l : List (BitVec 8)) (d : AtaDisk) :
    (l.foldl consume d).received = d.received ++ l := by
  induction l generalizing d with
  | nil => exact (List.append_nil _).symm
  | cons b l ih =>
      rw [List.foldl_cons, ih, consume_received, List.append_assoc, List.singleton_append]

/-- Behind a write command for `n` sectors from `l` on, on a disk that held `old`: what has
    arrived lies on the sectors as far as they go, and the rest of the disk is as it was. -/
structure Writing (old : ℕ → BitVec 8) (l n : ℕ) (d : AtaDisk) : Prop where
  transfer : d.transfer = .writing l n (min d.received.length (512 * n))
  stored : ∀ k, k < 512 * n → ∀ b, d.received[k]? = some b → d.bytes (512 * l + k) = b
  rest : ∀ k, k < 512 * l ∨ 512 * l + min d.received.length (512 * n) ≤ k → d.bytes k = old k

/-- A byte that goes to the next place. -/
theorem Writing.consume_of_lt {old : ℕ → BitVec 8} {l n : ℕ} {d : AtaDisk} (h : Writing old l n d)
    (b : BitVec 8) (hlt : d.received.length < 512 * n) : Writing old l n (d.consume b) := by
  have hpos : min d.received.length (512 * n) = d.received.length := by omega
  have hd : d.consume b = { d with
      received := d.received ++ [b]
      bytes := Function.update d.bytes (512 * l + d.received.length) b
      transfer := .writing l n (d.received.length + 1) } := by
    unfold AtaDisk.consume
    rw [h.transfer, hpos]
    exact if_pos hlt
  have hlen : (d.received ++ [b]).length = d.received.length + 1 := by simp
  rw [hd]
  refine ⟨?_, ?_, ?_⟩
  · dsimp only
    rw [hlen, show min (d.received.length + 1) (512 * n) = d.received.length + 1 by omega]
  · intro k hk b' hb'
    dsimp only at hb' ⊢
    by_cases he : k = d.received.length
    · subst he
      rw [Function.update_self]
      rw [List.getElem?_concat_length] at hb'
      exact Option.some.inj hb'
    · rw [Function.update_of_ne (by omega)]
      apply h.stored k hk
      have hk' : k < d.received.length := by
        have := (List.getElem?_eq_some_iff.mp hb').1
        omega
      rw [← hb', List.getElem?_append_left hk']
  · intro k hk
    dsimp only at hk ⊢
    rw [Function.update_of_ne (by omega)]
    apply h.rest
    omega

/-- A byte beyond the sectors, which are full. -/
theorem Writing.consume_of_full {old : ℕ → BitVec 8} {l n : ℕ} {d : AtaDisk}
    (h : Writing old l n d) (b : BitVec 8) (hfull : 512 * n ≤ d.received.length) :
    Writing old l n (d.consume b) := by
  have hd : d.consume b = { d with received := d.received ++ [b] } := by
    unfold AtaDisk.consume
    rw [h.transfer]
    exact if_neg (by omega)
  have hlen : (d.received ++ [b]).length = d.received.length + 1 := by simp
  rw [hd]
  refine ⟨?_, ?_, ?_⟩
  · dsimp only
    rw [hlen, h.transfer]
    congr 1
    omega
  · intro k hk b' hb'
    dsimp only at hb' ⊢
    apply h.stored k hk
    rw [← hb', List.getElem?_append_left (by omega)]
  · intro k hk
    dsimp only at hk ⊢
    apply h.rest
    omega

theorem Writing.consume {old : ℕ → BitVec 8} {l n : ℕ} {d : AtaDisk} (h : Writing old l n d)
    (b : BitVec 8) : Writing old l n (d.consume b) := by
  by_cases hlt : d.received.length < 512 * n
  · exact h.consume_of_lt b hlt
  · exact h.consume_of_full b (by omega)

theorem Writing.foldl_consume {old : ℕ → BitVec 8} {l n : ℕ} {d : AtaDisk} (h : Writing old l n d)
    (bs : List (BitVec 8)) : Writing old l n (bs.foldl AtaDisk.consume d) := by
  induction bs generalizing d with
  | nil => exact h
  | cons b bs ih => exact ih (h.consume b)

/-! ## Reading -/

/-- `d` with `pos` bytes of a read of `n` sectors from `l` on done. -/
def readingAt (d : AtaDisk) (l n pos : ℕ) : AtaDisk := { d with transfer := .reading l n pos }

/-- `d` behind `k` status reads. -/
def atPoll (d : AtaDisk) (k : ℕ) : AtaDisk := { d with polls := k }

/-- The 16-bit word at byte `k` of the disk. -/
def wordAt (d : AtaDisk) (k : ℕ) : BitVec 16 := d.bytes (k + 1) ++ d.bytes k

theorem yieldByte_readingAt (d : AtaDisk) {l n pos : ℕ} (h : pos < 512 * n) :
    (d.readingAt l n pos).yieldByte = (d.bytes (512 * l + pos), d.readingAt l n (pos + 1)) :=
  if_pos h

/-- A 16-bit input takes the next two bytes. -/
theorem in16_readingAt (status : ℕ → BitVec 8) (d : AtaDisk) {l n pos : ℕ}
    (h : pos + 2 ≤ 512 * n) :
    (bus status).in16 0x1F0#16 (d.readingAt l n pos) =
      (d.wordAt (512 * l + pos), d.readingAt l n (pos + 2)) := by
  have hin : (bus status).in16 0x1F0#16 (d.readingAt l n pos) =
      ((d.readingAt l n pos).yieldByte.2.yieldByte.1 ++ (d.readingAt l n pos).yieldByte.1,
        (d.readingAt l n pos).yieldByte.2.yieldByte.2) := rfl
  rw [hin, d.yieldByte_readingAt (by omega), d.yieldByte_readingAt (by omega)]
  rfl

end AtaDisk

end HelloOS.Lib
