/-
  Programs that talk to different devices.

  A program that keeps to some ports cannot tell two buses apart that answer alike on these: they
  may differ in what lies behind the other ports (`Bus.beside`) and in what happens between two
  accesses (`Bus.preempted`). What is behind either is related, access by access
  (`Bus.Simulates`), and so is the end of every loop that polls them.
-/
import HelloOS.Lib.Port
import Mathlib.Data.Option.Basic

namespace HelloOS.Lib

variable {σ τ υ : Type}

/-! ## Buses made of others -/

/-- `bus` behind the ports that `own` picks, `other` behind the rest. -/
def Bus.beside (own : BitVec 16 → Bool) (bus : Bus σ) (other : Bus τ) : Bus (σ × τ) where
  in8 := fun port s =>
    if own port then ((bus.in8 port s.1).1, (bus.in8 port s.1).2, s.2)
    else ((other.in8 port s.2).1, s.1, (other.in8 port s.2).2)
  out8 := fun port v s =>
    if own port then (bus.out8 port v s.1, s.2) else (s.1, other.out8 port v s.2)
  in16 := fun port s =>
    if own port then ((bus.in16 port s.1).1, (bus.in16 port s.1).2, s.2)
    else ((other.in16 port s.2).1, s.1, (other.in16 port s.2).2)
  out32 := fun port v s =>
    if own port then (bus.out32 port v s.1, s.2) else (s.1, other.out32 port v s.2)

/-- In front of access `n`, `before n` happens. -/
def Bus.preempted (bus : Bus σ) (before : ℕ → σ → σ) : Bus (σ × ℕ) where
  in8 := fun port s =>
    ((bus.in8 port (before s.2 s.1)).1, (bus.in8 port (before s.2 s.1)).2, s.2 + 1)
  out8 := fun port v s => (bus.out8 port v (before s.2 s.1), s.2 + 1)
  in16 := fun port s =>
    ((bus.in16 port (before s.2 s.1)).1, (bus.in16 port (before s.2 s.1)).2, s.2 + 1)
  out32 := fun port v s => (bus.out32 port v (before s.2 s.1), s.2 + 1)

/-! ## Simulation -/

/-- From related states, an access to one of the ports finds the same and leaves related states. -/
structure Bus.Simulates (own : BitVec 16 → Bool) (bus : Bus σ) (bus' : Bus τ)
    (R : σ → τ → Prop) : Prop where
  in8 : ∀ {port s t}, own port → R s t →
    (bus.in8 port s).1 = (bus'.in8 port t).1 ∧ R (bus.in8 port s).2 (bus'.in8 port t).2
  out8 : ∀ {port s t}, own port → R s t → ∀ v, R (bus.out8 port v s) (bus'.out8 port v t)
  in16 : ∀ {port s t}, own port → R s t →
    (bus.in16 port s).1 = (bus'.in16 port t).1 ∧ R (bus.in16 port s).2 (bus'.in16 port t).2
  out32 : ∀ {port s t}, own port → R s t → ∀ v, R (bus.out32 port v s) (bus'.out32 port v t)

variable {own : BitVec 16 → Bool} {bus : Bus σ} {bus' : Bus τ} {R : σ → τ → Prop}

/-- A bus beside another, whose state stays what it is. -/
theorem Bus.beside_simulates (own : BitVec 16 → Bool) (bus : Bus σ) (other : Bus υ) (u : υ) :
    (bus.beside own other).Simulates own bus fun s t => s = (t, u) where
  in8 := fun hport hs => by
    subst hs
    unfold Bus.beside
    dsimp only
    rw [if_pos hport]
    exact ⟨rfl, rfl⟩
  out8 := fun hport hs v => by
    subst hs
    exact if_pos hport
  in16 := fun hport hs => by
    subst hs
    unfold Bus.beside
    dsimp only
    rw [if_pos hport]
    exact ⟨rfl, rfl⟩
  out32 := fun hport hs v => by
    subst hs
    exact if_pos hport

/-- What happens between accesses may move the relation on; the accesses keep it where it is. -/
theorem Bus.Simulates.preempted {before : ℕ → σ → σ} (Rs : ℕ → σ → τ → Prop)
    (h : ∀ n, bus.Simulates own bus' (Rs n))
    (hbefore : ∀ n s t, Rs n s t → Rs (n + 1) (before n s) t) :
    (bus.preempted before).Simulates own bus' fun s t => Rs s.2 s.1 t where
  in8 := fun hport hs => (h _).in8 hport (hbefore _ _ _ hs)
  out8 := fun hport hs v => (h _).out8 hport (hbefore _ _ _ hs) v
  in16 := fun hport hs => (h _).in16 hport (hbefore _ _ _ hs)
  out32 := fun hport hs v => (h _).out32 hport (hbefore _ _ _ hs) v

/-! ## Partial runs -/

/-- Steps that may fail, one after the other. -/
theorem rel_bind {α β γ δ : Type} {Q : α → β → Prop} {Q' : γ → δ → Prop} {x : Option α}
    {y : Option β} {f : α → Option γ} {g : β → Option δ} (h : Option.Rel Q x y)
    (hstep : ∀ a b, Q a b → Option.Rel Q' (f a) (g b)) : Option.Rel Q' (x.bind f) (y.bind g) := by
  cases h with
  | none => exact .none
  | some hab => exact hstep _ _ hab

theorem Bus.Simulates.pollUntil (h : bus.Simulates own bus' R) {port : BitVec 16}
    (hport : own port) {stop : BitVec 8 → Bool} (fuel : ℕ) {s : σ} {t : τ} (hs : R s t) :
    Option.Rel R (pollUntil bus port stop fuel s) (Lib.pollUntil bus' port stop fuel t) := by
  induction fuel generalizing s t with
  | zero => exact .none
  | succ fuel ih =>
    obtain ⟨hv, hnext⟩ := h.in8 hport hs
    unfold Lib.pollUntil
    rw [hv]
    by_cases hstop : stop (bus'.in8 port t).1 = true
    · rw [if_pos hstop, if_pos hstop]
      exact .some hnext
    · rw [if_neg hstop, if_neg hstop]
      exact ih hnext

end HelloOS.Lib
