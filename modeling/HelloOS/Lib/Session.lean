/-
  Programs that make calls.

  A `Client` runs on its own and now and then makes a call, which a server answers: the client goes
  on in another state and something is put out, or the call does not come back (`none`). `Session`
  are the runs of a client with a server.

  Two servers that answer alike from related states have related sessions, if the client cannot
  tell related states apart (`Session.simulated`).
-/
import Mathlib.Data.List.Basic

namespace HelloOS.Lib

variable {σ α : Type}

/-- A program: the steps of its own, and the states in which it makes a call. -/
structure Client (σ : Type) where
  step : σ → σ → Prop
  calls : σ → Prop

/-- What becomes of a call. -/
abbrev Server (σ α : Type) := σ → Option (σ × List α) → Prop

/-- The runs from a state, with all that is put out on the way. -/
inductive Session (p : Client σ) (serve : Server σ α) (s : σ) : Option σ → List α → Prop
  | start : Session p serve s (some s) []
  | step {t t' : σ} {out : List α} (h : Session p serve s (some t) out) (hstep : p.step t t') :
      Session p serve s (some t') out
  | call {t t' : σ} {out put : List α} (h : Session p serve s (some t) out) (hcall : p.calls t)
      (hserve : serve t (some (t', put))) : Session p serve s (some t') (out ++ put)
  | lost {t : σ} {out : List α} (h : Session p serve s (some t) out) (hcall : p.calls t)
      (hserve : serve t none) : Session p serve s none out

/-- **Simulation.** If the client cannot tell related states apart and `other` answers every call
    as `serve` does, no session with `serve` gets lost, and each has one with `other` beside it
    that puts out the same. -/
theorem Session.simulated {p : Client σ} {serve other : Server σ α} {R : σ → σ → Prop} {s a : σ}
    (hinit : R s a)
    (hstep : ∀ t b t', R t b → p.step t t' → ∃ b', p.step b b' ∧ R t' b')
    (hcalls : ∀ t b, R t b → p.calls t → p.calls b)
    (hserve : ∀ t b out r, R t b → Session p other a (some b) out → p.calls b → serve t r →
      ∃ t' b' put, r = some (t', put) ∧ other b (some (b', put)) ∧ R t' b')
    {r : Option σ} {out : List α} (h : Session p serve s r out) :
    ∃ t b, r = some t ∧ Session p other a (some b) out ∧ R t b := by
  induction h with
  | start => exact ⟨s, a, rfl, .start, hinit⟩
  | step _ hs ih =>
      obtain ⟨_, b, ht, hb, hR⟩ := ih
      obtain rfl := Option.some.inj ht
      obtain ⟨b', hb', hR'⟩ := hstep _ b _ hR hs
      exact ⟨_, b', rfl, hb.step hb', hR'⟩
  | call _ hc hs ih =>
      obtain ⟨_, b, ht, hb, hR⟩ := ih
      obtain rfl := Option.some.inj ht
      have hcb := hcalls _ b hR hc
      obtain ⟨t', b', put, he, hb', hR'⟩ := hserve _ b _ _ hR hb hcb hs
      obtain ⟨rfl, rfl⟩ := Prod.mk.inj (Option.some.inj he)
      exact ⟨_, b', rfl, hb.call hcb hb', hR'⟩
  | lost _ hc hs ih =>
      obtain ⟨_, b, ht, hb, hR⟩ := ih
      obtain rfl := Option.some.inj ht
      obtain ⟨_, _, _, he, -, -⟩ := hserve _ b _ _ hR hb (hcalls _ b hR hc) hs
      exact nomatch he

end HelloOS.Lib
