/-
  The ATA driver (`drivers/ata/ata.c`): `read_sectors_ATA_PIO` and `write_sectors_ATA_PIO`,
  over any devices behind the ports.

  Both wait for the disk, program its task file and then move one sector after another
  through the data port, each after the two polling loops. A polling loop takes fuel, the
  number of status reads it may make; a run is `none` if a loop has not ended by then.
-/
import HelloOS.Lib.Port
import HelloOS.Lib.Memory

namespace HelloOS.Drivers

open HelloOS.Lib

/-- `STATUS_BSY`. -/
def statusBsy : BitVec 8 := 0x80#8

/-- `STATUS_RDY`. -/
def statusRdy : BitVec 8 := 0x40#8

/-- `STATUS_DRQ`. -/
def statusDrq : BitVec 8 := 0x08#8

/-- The data port. -/
def portData : BitVec 16 := 0x1F0#16

/-- The port of the status byte and of the command. -/
def portStatus : BitVec 16 := 0x1F7#16

variable {σ : Type} (bus : Bus σ)

/-! ## Polling -/

/-- What ends `ATA_wait_BSY`. -/
def notBusy (v : BitVec 8) : Bool := v &&& statusBsy == 0#8

/-- What ends `ATA_wait_DRQ`: the test is for `STATUS_RDY`. -/
def ready (v : BitVec 8) : Bool := v &&& statusRdy != 0#8

/-- `ATA_wait_BSY`. -/
def ataWaitBsy (fuel : Nat) (s : σ) : Option σ := pollUntil bus portStatus notBusy fuel s

/-- `ATA_wait_DRQ`. -/
def ataWaitDrq (fuel : Nat) (s : σ) : Option σ := pollUntil bus portStatus ready fuel s

/-! ## Transfers -/

/-- The task file for `LBA` and `sector_count`, and the command behind it. -/
def taskFile (lba : BitVec 32) (sectorCount cmd : BitVec 8) : List (BitVec 16 × BitVec 8) :=
  [(0x1F6#16, (0xE0#32 ||| ((lba >>> 24) &&& 0xF#32)).setWidth 8),
   (0x1F2#16, sectorCount),
   (0x1F3#16, lba.setWidth 8),
   (0x1F4#16, (lba >>> 8).setWidth 8),
   (0x1F5#16, (lba >>> 16).setWidth 8),
   (portStatus, cmd)]

def outAll (ws : List (BitVec 16 × BitVec 8)) (s : σ) : σ :=
  ws.foldl (fun s w => bus.out8 w.1 w.2 s) s

/-- `for (i = 0; i < n; i++) target[i] = io_in16(0x1F0);` -/
def inWords : Nat → BitVec 64 → σ × Mem → σ × Mem
  | 0, _, s => s
  | n + 1, target, (s, m) =>
    let (w, s) := bus.in16 portData s
    inWords n (target + 2#64) (s, m.write16 target w)

/-- `for (i = 0; i < n; i++) io_out32(0x1F0, bytes[i]);` -/
def outWords : Nat → BitVec 64 → σ × Mem → σ × Mem
  | 0, _, s => s
  | n + 1, bytes, (s, m) => outWords n (bytes + 4#64) (bus.out32 portData (m.read32 bytes) s, m)

/-- The loop over the sectors: `burst p` moves one, and `p` advances behind it. -/
def sectors (fuel : Nat) (burst : BitVec 64 → σ × Mem → σ × Mem) (advance : BitVec 64) :
    Nat → BitVec 64 → σ × Mem → Option (σ × Mem)
  | 0, _, s => some s
  | n + 1, p, (s, m) =>
    (ataWaitBsy bus fuel s).bind fun s =>
      (ataWaitDrq bus fuel s).bind fun s =>
        sectors fuel burst advance n (p + advance) (burst p (s, m))

/-- What the two functions share. -/
def transfer (fuel : Nat) (lba : BitVec 32) (sectorCount cmd : BitVec 8)
    (burst : BitVec 64 → σ × Mem → σ × Mem) (advance p : BitVec 64) (s : σ × Mem) :
    Option (σ × Mem) :=
  (ataWaitBsy bus fuel s.1).bind fun d =>
    sectors bus fuel burst advance sectorCount.toNat p
      (outAll bus (taskFile lba sectorCount cmd) d, s.2)

/-- `read_sectors_ATA_PIO(target_address, LBA, sector_count)`; `target` advances by 256
    16-bit words behind every sector. -/
def readSectorsAtaPio (fuel : Nat) (targetAddress lba : BitVec 32) (sectorCount : BitVec 8)
    (s : σ × Mem) : Option (σ × Mem) :=
  transfer bus fuel lba sectorCount 0x20#8 (inWords bus 256) 512#64 (targetAddress.setWidth 64) s

/-- `write_sectors_ATA_PIO(LBA, sector_count, bytes)`: 256 32-bit words for every sector, and
    `bytes` stays where it is. -/
def writeSectorsAtaPio (fuel : Nat) (lba : BitVec 32) (sectorCount : BitVec 8) (bytes : BitVec 64)
    (s : σ × Mem) : Option (σ × Mem) :=
  transfer bus fuel lba sectorCount 0x30#8 (outWords bus 256) 0#64 bytes s

/-! ## Runs that return -/

/-- A disk that is not busy again and again, and ready again and again. -/
structure Responsive (status : ℕ → BitVec 8) : Prop where
  notBusy : ∀ p, ∃ q, p ≤ q ∧ notBusy (status q) = true
  ready : ∀ p, ∃ q, p ≤ q ∧ ready (status q) = true

variable {bus} {status : ℕ → BitVec 8} {pos : σ → ℕ} {tick : σ → σ}

theorem poll_returns (hs : Streams bus portStatus status pos tick) {stop : BitVec 8 → Bool}
    (h : ∀ p, ∃ q, p ≤ q ∧ stop (status q) = true) (s : σ) :
    ∃ bound s', ∀ fuel, bound ≤ fuel → pollUntil bus portStatus stop fuel s = some s' := by
  obtain ⟨q, hq⟩ := exists_firstFrom (h (pos s))
  refine ⟨q + 1, Nat.iterate tick (q + 1 - pos s) s, ?_⟩
  intro fuel hfuel
  rw [pollUntil_iff hs]
  exact ⟨q, hq, by omega, rfl⟩

theorem sectors_returns (hs : Streams bus portStatus status pos tick) (h : Responsive status)
    (burst : BitVec 64 → σ × Mem → σ × Mem) (advance : BitVec 64) (n : ℕ) (p : BitVec 64)
    (s : σ × Mem) :
    ∃ bound out, ∀ fuel, bound ≤ fuel → sectors bus fuel burst advance n p s = some out := by
  induction n generalizing p s with
  | zero => exact ⟨0, s, fun _ _ => rfl⟩
  | succ n ih =>
    obtain ⟨b₁, s₁, h₁⟩ := poll_returns hs h.notBusy s.1
    obtain ⟨b₂, s₂, h₂⟩ := poll_returns hs h.ready s₁
    obtain ⟨b₃, out, h₃⟩ := ih (p + advance) (burst p (s₂, s.2))
    refine ⟨max b₁ (max b₂ b₃), out, ?_⟩
    intro fuel hfuel
    unfold sectors ataWaitBsy ataWaitDrq
    rw [h₁ fuel (by omega), Option.bind_some, h₂ fuel (by omega), Option.bind_some]
    exact h₃ fuel (by omega)

/-- Against a responsive disk every request is served, if the loops may run long enough. -/
theorem transfer_returns (hs : Streams bus portStatus status pos tick) (h : Responsive status)
    (lba : BitVec 32) (sectorCount cmd : BitVec 8) (burst : BitVec 64 → σ × Mem → σ × Mem)
    (advance p : BitVec 64) (s : σ × Mem) :
    ∃ bound out, ∀ fuel, bound ≤ fuel →
      transfer bus fuel lba sectorCount cmd burst advance p s = some out := by
  obtain ⟨b₁, s₁, h₁⟩ := poll_returns hs h.notBusy s.1
  obtain ⟨b₂, out, h₂⟩ := sectors_returns hs h burst advance sectorCount.toNat p
    (outAll bus (taskFile lba sectorCount cmd) s₁, s.2)
  refine ⟨max b₁ b₂, out, ?_⟩
  intro fuel hfuel
  unfold transfer ataWaitBsy
  rw [h₁ fuel (by omega), Option.bind_some]
  exact h₂ fuel (by omega)

end HelloOS.Drivers
