/-
  The first switch to a task.

  While a new task waits for its first switch, the others run and switch among themselves
  (`Waiting`); the layout keeps all of them off its pieces (`Waiting.untouched`). So the
  switch that ends the wait starts the task from the `rip` and on the `rsp` that were put
  into its `thread_struct` when it was created, with its stack from there on as it was
  (`Waiting.firstSwitch`).
-/
import HelloOS.Sched.SwitchStep

namespace HelloOS.Sched

open HelloOS.Lib HelloOS.Mm

/-- The pieces of one task. -/
def ownPieces (t : U64) : List Piece := [.pointer t, .rsp0 t, .saved t, .stack t]

/-- The part of a run from `s₀` on in which nothing switches to `t`. -/
inductive Waiting (L : Layout) (t : U64) (s₀ : Sys) : Sys → Prop
  | start : Waiting L t s₀ s₀
  | work {s : Sys} (c : Cpu) (live : Set U64) (h : Waiting L t s₀ s) (hw : Work L s c live) :
      Waiting L t s₀ { s with cpu := c, live := live }
  | switch {s : Sys} (next label : U64) (c₂ : Cpu) (h : Waiting L t s₀ s) (hne : next ≠ t)
      (hok : SwitchOk L s next label c₂) : Waiting L t s₀ (s.switched next label c₂)

/-- The task `t` has not run yet, and its pieces are as they were in `m`. -/
structure Untouched (L : Layout) (t : U64) (m : Mem) (s : Sys) : Prop where
  inv : SwitchInv L s
  live : t ∈ s.live
  cur : s.cur ≠ t
  new : s.suspended t = none
  pieces : ∀ p ∈ ownPieces t, Mem.AgreeOn (L.region p) s.cpu.mem m

variable {L : Layout} {t : U64} {m : Mem} {s s₀ : Sys}

theorem ownPieces_of {live : Set U64} {p : Piece} (ht : t ∈ live) (hp : p ∈ ownPieces t) :
    p.Of live := by
  simp only [ownPieces, List.mem_cons, List.not_mem_nil, or_false] at hp
  rcases hp with rfl | rfl | rfl | rfl <;> exact ht

theorem ownPieces_ne {u : U64} {p : Piece} (hu : u ≠ t) (hp : p ∈ ownPieces t) :
    p ≠ .stack u ∧ p ≠ .saved u ∧ p ≠ .initTss ∧ p ≠ .tssTable := by
  simp only [ownPieces, List.mem_cons, List.not_mem_nil, or_false] at hp
  rcases hp with rfl | rfl | rfl | rfl <;> simp [hu.symm]

theorem Untouched.work {c : Cpu} {live : Set U64} (h : Untouched L t m s) (hw : Work L s c live) :
    Untouched L t m { s with cpu := c, live := live } where
  inv := switchInv_work h.inv hw
  live := hw.grows h.live
  cur := h.cur
  new := h.new
  pieces p hp := by
    obtain ⟨hstack, hsaved, -⟩ := ownPieces_ne h.cur hp
    exact (hw.pieces p (ownPieces_of h.live hp) hstack hsaved).trans (h.pieces p hp)

theorem Untouched.switch {next label : U64} {c₂ : Cpu} (h : Untouched L t m s) (hne : next ≠ t)
    (hok : SwitchOk L s next label c₂) : Untouched L t m (s.switched next label c₂) where
  inv := switchInv_switch h.inv hok
  live := h.live
  cur := hne
  new := by
    change Function.update (s.parked label) next none t = none
    rw [Function.update_of_ne hne.symm, Sys.parked, Function.update_of_ne h.cur.symm, h.new]
  pieces p hp := by
    obtain ⟨h1, h2, h3, h4⟩ := ownPieces_ne h.cur hp
    have hnext := (ownPieces_ne hne hp).1
    have hmem : (s.switched next label c₂).cpu.mem = c₂.mem := (resumeAt_mem _ _ _).1
    rw [hmem]
    refine Mem.AgreeOn.trans ?_ (h.pieces p hp)
    exact (switchFacts h.inv hok).pieces p (ownPieces_of h.live hp)
      (by simp [h1, h2, h3, h4, hnext])

/-- A task that waits is untouched. -/
theorem Waiting.untouched (w : Waiting L t s₀ s) (h : Untouched L t m s₀) : Untouched L t m s := by
  induction w with
  | start => exact h
  | work c live _ hw ih => exact ih.work hw
  | switch next label c₂ _ hne hok ih => exact ih.switch hne hok

/-- The switch `sw` starts the task `t`, whose pieces are as in `m`. -/
structure Starts (L : Layout) (t : U64) (m : Mem) (sw : Switch) : Prop where
  target : sw.target = m.read64 (L.thread t + offRip)
  rsp : sw.after.gpr .rsp = m.read64 (L.thread t + offRsp)
  above : Mem.AgreeOn (L.above t (m.read64 (L.thread t + offRsp))) sw.after.mem m
  pointer : Mem.AgreeOn (L.region (.pointer t)) sw.after.mem m
  rsp0 : Mem.AgreeOn (L.region (.rsp0 t)) sw.after.mem m

/-- A switch to an untouched task starts it. -/
theorem Untouched.starts {label : U64} {c₂ : Cpu} (h : Untouched L t m s)
    (hok : SwitchOk L s t label c₂) : Starts L t m (s.switch t label c₂) := by
  have hf := switchFacts h.inv hok
  have hparked : ∀ p ∈ ownPieces t,
      Mem.AgreeOn (L.region p) (parkMem s.cpu s.cur label) m := fun p hp => by
    obtain ⟨h1, h2, -⟩ := ownPieces_ne h.cur hp
    exact (parked_pieces h.inv hok (ownPieces_of h.live hp) h1 h2).trans (h.pieces p hp)
  have hafter : (s.switch t label c₂).after = c₂ := by
    change resumeAt (s.parked label t) _ c₂ = c₂
    rw [Sys.parked, Function.update_of_ne h.cur.symm, h.new]
    rfl
  have hripRsp : Mem.AgreeOn (ripRsp L t) c₂.mem m :=
    (after_ripRsp h.inv hok h.live).trans
      ((hparked (.saved t) (by simp [ownPieces])).mono (ripRsp_subset L t))
  have hrsp : c₂.mem.read64 (L.thread t + offRsp) = m.read64 (L.thread t + offRsp) :=
    (hripRsp.mono (rsp_subset L t)).read64
  have hnext : nextRsp s.cpu s.cur t = m.read64 (L.thread t + offRsp) := by
    rw [(nextRsp_room h.inv hok).1]
    exact ((hparked (.saved t) (by simp [ownPieces])).mono
      ((rsp_subset L t).trans (ripRsp_subset L t))).read64
  constructor
  · rw [hf.target]
    exact (hripRsp.mono (rip_subset L t)).read64
  · rw [hafter, hf.rsp, hrsp]
  · rw [hafter, ← hnext]
    refine (after_above h.inv hok).trans ?_
    exact (hparked (.stack t) (by simp [ownPieces])).mono (L.above_subset t _)
  · rw [hafter]
    refine (hf.pieces (.pointer t) h.live (by simp)).trans ?_
    exact h.pieces (.pointer t) (by simp [ownPieces])
  · rw [hafter]
    refine (hf.pieces (.rsp0 t) h.live (by simp)).trans ?_
    exact h.pieces (.rsp0 t) (by simp [ownPieces])

/-- **The first switch.** A task that has not run yet starts as it was created, whatever ran
    in the meantime. -/
theorem Waiting.firstSwitch {label : U64} {c₂ : Cpu} (w : Waiting L t s₀ s)
    (h : Untouched L t m s₀) (hok : SwitchOk L s t label c₂) :
    Starts L t m (s.switch t label c₂) :=
  (w.untouched h).starts hok

end HelloOS.Sched
