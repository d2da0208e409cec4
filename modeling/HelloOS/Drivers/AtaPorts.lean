/-
  The disk driver on any bus (`drivers/ata/ata.c`).

  The driver keeps to the ports of the disk, so it cannot tell apart what answers alike there: the
  same calls return the same and store the same to memory (`requestsOn_simulates`).
-/
import HelloOS.Drivers.DiskStore
import HelloOS.Lib.Lockstep

namespace HelloOS.Drivers

open HelloOS.Lib

/-! ## The driver on any bus -/

/-- The ports of the disk. -/
def diskPort (port : BitVec 16) : Bool := 0x1F0#16 ≤ port && port ≤ 0x1F7#16

/-- A call, on any bus. -/
def Request.runOn {σ : Type} (bus : Bus σ) (fuel : ℕ) : Request → σ × Mem → Option (σ × Mem)
  | read target lba sectorCount, s => readSectorsAtaPio bus fuel target lba sectorCount s
  | write lba sectorCount bytes, s => writeSectorsAtaPio bus fuel lba sectorCount bytes s

/-- Calls one after the other, on any bus. -/
def requestsOn {σ : Type} (bus : Bus σ) (fuel : ℕ) : List Request → σ × Mem → Option (σ × Mem)
  | [], s => some s
  | r :: rs, s => (r.runOn bus fuel s).bind (requestsOn bus fuel rs)

theorem requestsOn_disk (status : ℕ → BitVec 8) (fuel : ℕ) (rs : List Request) (s : AtaDisk × Mem) :
    requestsOn (AtaDisk.bus status) fuel rs s = requests status fuel rs s := by
  induction rs generalizing s with
  | nil => rfl
  | cons r rs ih =>
    have hrun : r.runOn (AtaDisk.bus status) fuel s = r.run status fuel s := by cases r <;> rfl
    unfold requestsOn requests
    rw [hrun]
    exact Option.bind_congr fun t _ => ih t

section Lockstep

variable {σ τ : Type} {bus : Bus σ} {bus' : Bus τ} {R : σ → τ → Prop}

/-- Related devices, and the same memory. -/
def Both (R : σ → τ → Prop) (s : σ × Mem) (t : τ × Mem) : Prop := R s.1 t.1 ∧ s.2 = t.2

variable (h : bus.Simulates diskPort bus' R)
include h

theorem in_data {s : σ} {t : τ} (hs : R s t) :
    (bus.in16 portData s).1 = (bus'.in16 portData t).1 ∧
      R (bus.in16 portData s).2 (bus'.in16 portData t).2 := h.in16 (by decide) hs

theorem out_data {s : σ} {t : τ} (hs : R s t) (v : BitVec 32) :
    R (bus.out32 portData v s) (bus'.out32 portData v t) := h.out32 (by decide) hs v

theorem outAll_simulates {ws : List (BitVec 16 × BitVec 8)} (hws : ∀ w ∈ ws, diskPort w.1) {s : σ}
    {t : τ} (hs : R s t) : R (outAll bus ws s) (outAll bus' ws t) := by
  induction ws generalizing s t with
  | nil => exact hs
  | cons w ws ih =>
    rw [List.forall_mem_cons] at hws
    exact ih hws.2 (h.out8 hws.1 hs w.2)

theorem inWords_simulates (n : ℕ) (p : BitVec 64) {s : σ × Mem} {t : τ × Mem} (hs : Both R s t) :
    Both R (inWords bus n p s) (inWords bus' n p t) := by
  obtain ⟨s, m⟩ := s
  obtain ⟨t, m'⟩ := t
  obtain ⟨hr, hm⟩ := hs
  change m = m' at hm
  subst hm
  induction n generalizing p s t m with
  | zero => exact ⟨hr, rfl⟩
  | succ n ih =>
    obtain ⟨hv, hnext⟩ := in_data h hr
    unfold inWords
    dsimp only
    rw [hv]
    exact ih _ _ _ _ hnext

theorem outWords_simulates (n : ℕ) (p : BitVec 64) {s : σ × Mem} {t : τ × Mem} (hs : Both R s t) :
    Both R (outWords bus n p s) (outWords bus' n p t) := by
  obtain ⟨s, m⟩ := s
  obtain ⟨t, m'⟩ := t
  obtain ⟨hr, hm⟩ := hs
  change m = m' at hm
  subst hm
  induction n generalizing p s t with
  | zero => exact ⟨hr, rfl⟩
  | succ n ih => exact ih _ _ _ (out_data h hr _)

theorem sectors_simulates {burst : BitVec 64 → σ × Mem → σ × Mem}
    {burst' : BitVec 64 → τ × Mem → τ × Mem}
    (hburst : ∀ p s t, Both R s t → Both R (burst p s) (burst' p t)) (fuel : ℕ)
    (advance : BitVec 64) (n : ℕ) (p : BitVec 64) {s : σ × Mem} {t : τ × Mem} (hs : Both R s t) :
    Option.Rel (Both R) (sectors bus fuel burst advance n p s)
      (sectors bus' fuel burst' advance n p t) := by
  induction n generalizing p s t with
  | zero => exact .some hs
  | succ n ih =>
    refine rel_bind (h.pollUntil (by decide) fuel hs.1) fun s₁ t₁ h₁ => ?_
    refine rel_bind (h.pollUntil (by decide) fuel h₁) fun s₂ t₂ h₂ => ?_
    exact ih _ (hburst p _ _ ⟨h₂, hs.2⟩)

theorem transfer_simulates {burst : BitVec 64 → σ × Mem → σ × Mem}
    {burst' : BitVec 64 → τ × Mem → τ × Mem}
    (hburst : ∀ p s t, Both R s t → Both R (burst p s) (burst' p t)) (fuel : ℕ) (lba : BitVec 32)
    (sectorCount cmd : BitVec 8) (advance p : BitVec 64) {s : σ × Mem} {t : τ × Mem}
    (hs : Both R s t) :
    Option.Rel (Both R) (transfer bus fuel lba sectorCount cmd burst advance p s)
      (transfer bus' fuel lba sectorCount cmd burst' advance p t) := by
  have hports : ∀ w ∈ taskFile lba sectorCount cmd, diskPort w.1 := by
    simp only [taskFile, List.forall_mem_cons]
    exact ⟨rfl, rfl, rfl, rfl, rfl, rfl, fun w hw => absurd hw List.not_mem_nil⟩
  refine rel_bind (h.pollUntil (by decide) fuel hs.1) fun s₁ t₁ h₁ => ?_
  exact sectors_simulates h hburst fuel advance _ p ⟨outAll_simulates h hports h₁, hs.2⟩

theorem Request.runOn_simulates (fuel : ℕ) (r : Request) {s : σ × Mem} {t : τ × Mem}
    (hs : Both R s t) : Option.Rel (Both R) (r.runOn bus fuel s) (r.runOn bus' fuel t) := by
  cases r with
  | read target lba sectorCount =>
    exact transfer_simulates h (fun p _ _ => inWords_simulates h 256 p) fuel lba sectorCount _ _ _
      hs
  | write lba sectorCount bytes =>
    exact transfer_simulates h (fun p _ _ => outWords_simulates h 256 p) fuel lba sectorCount _ _ _
      hs

/-- Whatever cannot be told apart on the disk's ports serves the same calls alike. -/
theorem requestsOn_simulates (fuel : ℕ) (rs : List Request) {s : σ × Mem} {t : τ × Mem}
    (hs : Both R s t) :
    Option.Rel (Both R) (requestsOn bus fuel rs s) (requestsOn bus' fuel rs t) := by
  induction rs generalizing s t with
  | nil => exact .some hs
  | cons r rs ih => exact rel_bind (r.runOn_simulates h fuel hs) fun _ _ hnext => ih hnext

end Lockstep

end HelloOS.Drivers
