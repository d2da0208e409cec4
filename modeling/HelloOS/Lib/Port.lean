/-
  Port-mapped input and output. A bus is what a program sees of the devices behind the
  ports: how each access changes their state, and what a read returns.

  The second part is about polling: a loop that reads a status port until a byte satisfies
  a test. Against a port that returns a stream of bytes such a loop ends at the first byte of
  the stream that does, and has then made exactly the reads up to it.
-/
import Mathlib.Logic.Function.Iterate
import Mathlib.Data.Nat.Find

namespace HelloOS.Lib

/-- The devices behind the ports, with state `σ`. -/
structure Bus (σ : Type) where
  in8 : BitVec 16 → σ → BitVec 8 × σ
  out8 : BitVec 16 → BitVec 8 → σ → σ
  in16 : BitVec 16 → σ → BitVec 16 × σ
  out32 : BitVec 16 → BitVec 32 → σ → σ

/-- No device: reads find all lines high, writes are lost. -/
def emptyBus : Bus Unit where
  in8 := fun _ s => (0xff#8, s)
  out8 := fun _ _ s => s
  in16 := fun _ s => (0xffff#16, s)
  out32 := fun _ _ s => s

/-! ## Maps between buses -/

section Maps

variable {σ τ : Type}

/-- What happens on `bus` happens on `bus'` to the image of the state. -/
structure Bus.Maps (bus : Bus σ) (bus' : Bus τ) (f : σ → τ) : Prop where
  in8 : ∀ port s, bus'.in8 port (f s) = ((bus.in8 port s).1, f (bus.in8 port s).2)
  out8 : ∀ port v s, bus'.out8 port v (f s) = f (bus.out8 port v s)
  in16 : ∀ port s, bus'.in16 port (f s) = ((bus.in16 port s).1, f (bus.in16 port s).2)
  out32 : ∀ port v s, bus'.out32 port v (f s) = f (bus.out32 port v s)

/-- `bus` with a record of the 16-bit inputs: the ports and what came. -/
def Bus.recorded (bus : Bus σ) : Bus (σ × List (BitVec 16 × BitVec 16)) where
  in8 := fun port s => ((bus.in8 port s.1).1, (bus.in8 port s.1).2, s.2)
  out8 := fun port v s => (bus.out8 port v s.1, s.2)
  in16 := fun port s =>
    ((bus.in16 port s.1).1, (bus.in16 port s.1).2, s.2 ++ [(port, (bus.in16 port s.1).1)])
  out32 := fun port v s => (bus.out32 port v s.1, s.2)

/-- The record changes nothing. -/
theorem Bus.recorded_maps (bus : Bus σ) : bus.recorded.Maps bus Prod.fst :=
  ⟨fun _ _ => rfl, fun _ _ _ => rfl, fun _ _ => rfl, fun _ _ _ => rfl⟩

end Maps

/-! ## Polling -/

variable {σ : Type} (bus : Bus σ) (port : BitVec 16) (stop : BitVec 8 → Bool)

/-- `while (!stop(in8(port)));`, with at most `fuel` reads. -/
def pollUntil : Nat → σ → Option σ
  | 0, _ => none
  | fuel + 1, s =>
    if stop (bus.in8 port s).1 then some (bus.in8 port s).2
    else pollUntil fuel (bus.in8 port s).2

/-- The port returns the bytes of `stream` one after another: `pos` is the index of the next
    one, and a read does `tick` to the devices. -/
structure Streams (stream : ℕ → BitVec 8) (pos : σ → ℕ) (tick : σ → σ) : Prop where
  in8 : ∀ s, bus.in8 port s = (stream (pos s), tick s)
  pos : ∀ s, pos (tick s) = pos s + 1

/-- `q` is the first index from `p` on whose byte ends the loop. -/
def FirstFrom (stream : ℕ → BitVec 8) (p q : ℕ) : Prop :=
  p ≤ q ∧ stop (stream q) = true ∧ ∀ i, p ≤ i → i < q → stop (stream i) = false

variable {bus port stop} {stream : ℕ → BitVec 8} {pos : σ → ℕ} {tick : σ → σ}

theorem FirstFrom.unique {p q r : ℕ} (hq : FirstFrom stop stream p q)
    (hr : FirstFrom stop stream p r) : q = r := by
  obtain ⟨hpq, hsq, hbq⟩ := hq
  obtain ⟨hpr, hsr, hbr⟩ := hr
  rcases Nat.lt_trichotomy q r with h | h | h
  · exact absurd (hbr q hpq h) (ne_of_eq_of_ne hsq Bool.noConfusion)
  · exact h
  · exact absurd (hbq r hpr h) (ne_of_eq_of_ne hsr Bool.noConfusion)

theorem firstFrom_self {p : ℕ} (h : stop (stream p) = true) : FirstFrom stop stream p p :=
  ⟨le_refl p, h, fun _ hi hlt => absurd hlt (Nat.not_lt.mpr hi)⟩

theorem firstFrom_succ {p q : ℕ} (h : stop (stream p) = false) :
    FirstFrom stop stream (p + 1) q ↔ FirstFrom stop stream p q := by
  constructor
  · rintro ⟨hpq, hs, hb⟩
    refine ⟨by omega, hs, ?_⟩
    intro i hi hlt
    rcases Nat.eq_or_lt_of_le hi with rfl | hi
    · exact h
    · exact hb i hi hlt
  · rintro ⟨hpq, hs, hb⟩
    have hne : p ≠ q := by
      rintro rfl
      exact Bool.false_ne_true (h.symm.trans hs)
    exact ⟨by omega, hs, fun i hi hlt => hb i (by omega) hlt⟩

/-- A stream that satisfies the test again and again has a first such byte from any index. -/
theorem exists_firstFrom {p : ℕ} (h : ∃ q, p ≤ q ∧ stop (stream q) = true) :
    ∃ q, FirstFrom stop stream p q := by
  classical
  obtain ⟨hle, hs⟩ := Nat.find_spec h
  refine ⟨Nat.find h, hle, hs, ?_⟩
  intro i hi hlt
  have := Nat.find_min h hlt
  rw [not_and] at this
  exact Bool.eq_false_iff.mpr (this hi)

/-- The loop ends at the first byte that satisfies the test, if the fuel reaches it. -/
theorem pollUntil_iff (h : Streams bus port stream pos tick) (fuel : ℕ) (s s' : σ) :
    pollUntil bus port stop fuel s = some s' ↔
      ∃ q, FirstFrom stop stream (pos s) q ∧ q < pos s + fuel ∧
        s' = Nat.iterate tick (q + 1 - pos s) s := by
  induction fuel generalizing s with
  | zero =>
    unfold pollUntil
    constructor
    · intro he
      cases he
    · rintro ⟨q, ⟨hpq, -⟩, hlt, -⟩
      omega
  | succ fuel ih =>
    unfold pollUntil
    rw [h.in8 s]
    dsimp only
    by_cases hstop : stop (stream (pos s)) = true
    · rw [if_pos hstop]
      constructor
      · intro he
        refine ⟨pos s, firstFrom_self hstop, by omega, ?_⟩
        rw [Nat.add_sub_cancel_left]
        exact (Option.some.inj he).symm
      · rintro ⟨q, hq, -, rfl⟩
        rw [hq.unique (firstFrom_self hstop), Nat.add_sub_cancel_left]
        rfl
    · have hfalse := Bool.eq_false_iff.mpr hstop
      rw [if_neg hstop, ih, h.pos s]
      -- the index moves by one, and one read has been made
      have hiter : ∀ q, pos s + 1 ≤ q →
          Nat.iterate tick (q + 1 - (pos s + 1)) (tick s) =
            Nat.iterate tick (q + 1 - pos s) s := by
        intro q hq
        rw [← Function.iterate_succ_apply, show (q + 1 - (pos s + 1)).succ = q + 1 - pos s by omega]
      constructor
      · rintro ⟨q, hq, hlt, rfl⟩
        exact ⟨q, (firstFrom_succ hfalse).mp hq, by omega, hiter q hq.1⟩
      · rintro ⟨q, hq, hlt, rfl⟩
        have hq' := (firstFrom_succ hfalse).mpr hq
        exact ⟨q, hq', by omega, (hiter q hq'.1).symm⟩

/-- The stream of a bus with a record. -/
theorem Streams.recorded (h : Streams bus port stream pos tick) :
    Streams bus.recorded port stream (fun s => pos s.1) (Prod.map tick id) where
  in8 := fun s => congrArg (fun r => (r.1, r.2, s.2)) (h.in8 s.1)
  pos := fun s => h.pos s.1

/-- A loop on the image of a state. -/
theorem Bus.Maps.pollUntil {τ : Type} {bus' : Bus τ} {f : σ → τ} (h : bus.Maps bus' f) (fuel : ℕ)
    (s : σ) :
    pollUntil bus' port stop fuel (f s) = (Lib.pollUntil bus port stop fuel s).map f := by
  induction fuel generalizing s with
  | zero => rfl
  | succ fuel ih =>
    unfold Lib.pollUntil
    rw [h.in8]
    dsimp only
    by_cases hstop : stop (bus.in8 port s).1 = true
    · rw [if_pos hstop, if_pos hstop, Option.map_some]
    · rw [if_neg hstop, if_neg hstop, ih]

end HelloOS.Lib
