/-
  Calls of `alloc_pages`, and runs of them.

  A call changes the state by `page_init` of the pages of its block only (`run_eq_of_some`), so it
  keeps whatever `page_init` keeps (`run_induction`).
-/
import HelloOS.Mm.Accounting
import HelloOS.Mm.Window

namespace HelloOS.Mm

open HelloOS.Lib

/-! ## Runs of `alloc_pages` -/

/-- The arguments of one call of `alloc_pages`. -/
structure AllocCall where
  zoneSelect : Int
  n : Nat
  flags : U64

/-- From 1 to 64 pages, and non-zero flags. -/
structure AllocCall.Ok (c : AllocCall) : Prop where
  pos : 1 ≤ c.n
  le : c.n ≤ 64
  flags : c.flags ≠ 0#64

/-- One call. -/
def AllocCall.run (c : AllocCall) (s : MmState) : Option Nat × MmState :=
  allocPages s c.zoneSelect c.n c.flags

/-- The state after a run of calls. -/
def allocState (s : MmState) : List AllocCall → MmState
  | [] => s
  | c :: cs => allocState (c.run s).2 cs

/-- The blocks `[index, index + n)` of the calls of a run that do not return `NULL`. -/
def allocBlocks (s : MmState) : List AllocCall → List (List Nat)
  | [] => []
  | c :: cs => (c.run s).1.toList.map (blockPages · c.n) ++ allocBlocks (c.run s).2 cs

/-- A property of each call of a run and of the state it starts from. -/
def EveryCall (P : MmState → AllocCall → Prop) (s : MmState) : List AllocCall → Prop
  | [] => True
  | c :: cs => P s c ∧ EveryCall P (c.run s).2 cs

theorem zoneIndices_normal (g : Gmdsc) : zoneIndices g zoneNormal = [0] := rfl

/-! ## One call -/

variable {s : MmState} {c : AllocCall}

/-- A call that returns a page has initialised its block. -/
theorem run_eq_of_some {page : Nat} (h : (c.run s).1 = some page) :
    (c.run s).2 = initPages s c.flags (blockPages page c.n) := by
  rcases allocPages_cases s c.zoneSelect c.n c.flags with ⟨-, heq⟩ | ⟨j, k, -, heq⟩
  · rw [AllocCall.run, heq] at h
    cases h
  · rw [AllocCall.run, heq] at h ⊢
    rw [← Option.some.inj h]

/-- What every `page_init` keeps, a call keeps. -/
theorem run_induction {P : MmState → Prop}
    (hstep : ∀ s i, P s → P (pageInit s i c.flags)) (h : P s) : P (c.run s).2 := by
  rcases allocPages_cases s c.zoneSelect c.n c.flags with ⟨-, heq⟩ | ⟨j, k, -, heq⟩
  · rw [AllocCall.run, heq]
    exact h
  · rw [AllocCall.run, heq]
    exact initPages_induction c.flags hstep _ h

theorem consistent_run (hs : Consistent s) : Consistent (c.run s).2 :=
  run_induction (fun _ i h => consistent_pageInit h i c.flags) hs

/-- A call never frees a page. -/
theorem run_bit_mono {i : Nat} (h : s.bits.get i = true) : (c.run s).2.bits.get i = true :=
  run_induction (P := fun t => t.bits.get i = true)
    (fun t j h => pageInit_bit_mono t j c.flags h) h

theorem run_inZone (i : Nat) : (c.run s).2.InZone i ↔ s.InZone i :=
  run_induction (P := fun t => t.InZone i ↔ s.InZone i)
    (fun t j h => (pageInit_inZone t j c.flags i).trans h) Iff.rfl

/-- A call leaves every zone where it is. -/
theorem run_zone_bounds (z : Nat) :
    ((c.run s).2.zones z).zoneStartAddr = (s.zones z).zoneStartAddr ∧
      ((c.run s).2.zones z).zoneEndAddr = (s.zones z).zoneEndAddr :=
  run_induction (P := fun t => (t.zones z).zoneStartAddr = (s.zones z).zoneStartAddr ∧
      (t.zones z).zoneEndAddr = (s.zones z).zoneEndAddr)
    (fun t j h => ⟨(pageInit_zoneStartAddr t j c.flags z).trans h.1,
      (pageInit_zoneEndAddr t j c.flags z).trans h.2⟩) ⟨rfl, rfl⟩

/-! ## Whole runs -/

/-- What every `page_init` keeps, a run keeps. -/
theorem allocState_induction {P : MmState → Prop} (hstep : ∀ s i f, P s → P (pageInit s i f))
    {s : MmState} (cs : List AllocCall) (h : P s) : P (allocState s cs) := by
  induction cs generalizing s with
  | nil => exact h
  | cons c cs ih => exact ih (run_induction (fun s i => hstep s i c.flags) h)

/-- Two properties of a call that are equivalent in every state with an invariant the calls
    keep are equivalent along a run. -/
theorem everyCall_congr {P Q : MmState → AllocCall → Prop} {I : MmState → Prop}
    (hI : ∀ s (c : AllocCall), I s → I (c.run s).2) {s : MmState} (cs : List AllocCall)
    (h : ∀ s, I s → ∀ c ∈ cs, (P s c ↔ Q s c)) (hs : I s) :
    EveryCall P s cs ↔ EveryCall Q s cs := by
  induction cs generalizing s with
  | nil => exact Iff.rfl
  | cons c cs ih =>
      exact and_congr (h s hs c List.mem_cons_self)
        (ih (fun t ht d hd => h t ht d (List.mem_cons_of_mem c hd)) (hI s c hs))

end HelloOS.Mm
