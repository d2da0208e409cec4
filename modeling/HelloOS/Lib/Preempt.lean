/-
  Code that may be interrupted between any two instructions.

  An interruption leaves the registers as they were and the memory, too, but for the stack below
  the stack pointer and what belongs to the interruption itself. `Preemption` is such a source of
  interruptions, and `PreemptedRun` a run of a straight line with any number of them.

  `SameBut g` relates two machines that differ in the memory `g` at most, and `Withstands` is the
  triple that goes with it: from `g` unknown, the line comes to its end with `g'` unknown,
  whatever interrupts it. What a line pushes becomes known, what it pops becomes unknown
  (`withstands_pushing`, `withstands_popping`).
-/
import HelloOS.Lib.X86

namespace HelloOS.Lib

/-! ## Interruptions -/

/-- Where interruptions come from. On a stack pointer that is `ok`, one of them changes no more
    than the memory `dead`, and what is pushed next is dead until then and known afterwards. -/
structure Preemption where
  step : Cpu → Cpu → Prop
  ok : BitVec 64 → Prop
  dead : BitVec 64 → Set (BitVec 64)
  gpr : ∀ c c', ok (c.gpr .rsp) → step c c' → c'.gpr = c.gpr
  seg : ∀ c c', ok (c.gpr .rsp) → step c c' → c'.seg = c.seg
  mem : ∀ c c', ok (c.gpr .rsp) → step c c' → Mem.AgreeOn (dead (c.gpr .rsp))ᶜ c'.mem c.mem
  dead_push : ∀ sp, ok sp → ok (sp - 8#64) → dead (sp - 8#64) ⊆ dead sp \ Region (sp - 8#64) 8

/-- The runs of a line, with interruptions in front of its instructions and at its end. -/
inductive PreemptedRun (p : Preemption) : Cpu → List Instr → Cpu → Prop
  | done (c : Cpu) : PreemptedRun p c [] c
  | exec {c d : Cpu} {i : Instr} {is : List Instr} (h : PreemptedRun p (c.exec i) is d) :
      PreemptedRun p c (i :: is) d
  | interrupt {c c' d : Cpu} {is : List Instr} (hp : p.step c c') (h : PreemptedRun p c' is d) :
      PreemptedRun p c is d

/-- The same machine, but for memory in `g`. -/
structure SameBut (g : Set (BitVec 64)) (c c' : Cpu) : Prop where
  gpr : c'.gpr = c.gpr
  seg : c'.seg = c.seg
  mem : Mem.AgreeOn gᶜ c'.mem c.mem

/-- If the line runs from a machine like `c`, with interruptions, it ends in one like the one that
    the plain run from `c` ends in. -/
def Withstands (p : Preemption) (g : Set (BitVec 64)) (c : Cpu) (is : List Instr)
    (g' : Set (BitVec 64)) : Prop :=
  ∀ c' d', SameBut g c c' → PreemptedRun p c' is d' → SameBut g' (c.run is) d'

variable {p : Preemption} {g g' g'' : Set (BitVec 64)} {c c' c'' d : Cpu} {is js : List Instr}

theorem SameBut.refl (g : Set (BitVec 64)) (c : Cpu) : SameBut g c c :=
  ⟨rfl, rfl, Mem.AgreeOn.refl _ _⟩

theorem SameBut.trans (h : SameBut g c c') (h' : SameBut g c' c'') : SameBut g c c'' :=
  ⟨h'.gpr.trans h.gpr, h'.seg.trans h.seg, h'.mem.trans h.mem⟩

theorem SameBut.mono (h : SameBut g c c') (hg : g ⊆ g') : SameBut g' c c' :=
  ⟨h.gpr, h.seg, h.mem.mono (Set.compl_subset_compl.mpr hg)⟩

theorem Preemption.sameBut (h : SameBut g c c') (hok : p.ok (c.gpr .rsp))
    (hg : p.dead (c.gpr .rsp) ⊆ g) (hp : p.step c' c'') : SameBut g c c'' := by
  have hsp : c'.gpr .rsp = c.gpr .rsp := congrFun h.gpr .rsp
  rw [← hsp] at hok hg
  exact h.trans (SameBut.mono ⟨p.gpr _ _ hok hp, p.seg _ _ hok hp, p.mem _ _ hok hp⟩ hg)

/-! ## One instruction -/

/-- The memory that an instruction reads. -/
def Instr.reads (c : Cpu) : Instr → Set (BitVec 64)
  | .pushMem a => Region a 8
  | .popq _ => Region (c.gpr .rsp) 8
  | .load a _ => Region a 8
  | _ => ∅

/-- The memory that an instruction writes. -/
def Instr.writes (c : Cpu) : Instr → Set (BitVec 64)
  | .pushq _ => Region (c.gpr .rsp - 8#64) 8
  | .pushImm _ => Region (c.gpr .rsp - 8#64) 8
  | .pushMem _ => Region (c.gpr .rsp - 8#64) 8
  | .store _ a => Region a 8
  | .storeAt _ off base => Region (c.gpr base + off) 8
  | _ => ∅

/-- The same word stored into two memories is known in both. -/
theorem Mem.AgreeOn.write64_both {m m' : Mem} (h : Mem.AgreeOn gᶜ m' m) (a v : BitVec 64) :
    Mem.AgreeOn (g \ Region a 8)ᶜ (m'.write64 a v) (m.write64 a v) := by
  intro x hx
  unfold Mem.write64
  by_cases ha : x ∈ Region a 8
  · rw [Mem.fill_of_mem _ _ _ ha, Mem.fill_of_mem _ _ _ ha]
  · rw [Mem.fill_of_notMem _ _ _ ha, Mem.fill_of_notMem _ _ _ ha]
    exact h x fun hg => hx ⟨hg, ha⟩

/-- A word outside what is unknown. -/
theorem Mem.AgreeOn.read64_of_disjoint {m m' : Mem} {a : BitVec 64} (h : Mem.AgreeOn gᶜ m' m)
    (hd : Disjoint (Region a 8) g) : m'.read64 a = m.read64 a :=
  (h.mono (Set.disjoint_left.mp hd)).read64

theorem SameBut.pushed (h : SameBut g c c') (v : BitVec 64) :
    SameBut (g \ Region (c.gpr .rsp - 8#64) 8) (c.pushed [v]) (c'.pushed [v]) := by
  have hsp : c'.gpr .rsp = c.gpr .rsp := congrFun h.gpr .rsp
  refine ⟨?_, h.seg, ?_⟩
  · change Function.update c'.gpr .rsp (Mem.below (c'.gpr .rsp) 1) =
      Function.update c.gpr .rsp (Mem.below (c.gpr .rsp) 1)
    rw [h.gpr]
  · change Mem.AgreeOn _ (c'.mem.write64 (c'.gpr .rsp - 8#64) v)
      (c.mem.write64 (c.gpr .rsp - 8#64) v)
    rw [hsp]
    exact h.mem.write64_both _ v

theorem SameBut.setReg (h : SameBut g c c') (r : Reg) (v : BitVec 64) :
    SameBut g (c.setReg r v) (c'.setReg r v) := by
  refine ⟨?_, h.seg, h.mem⟩
  change Function.update c'.gpr r v = Function.update c.gpr r v
  rw [h.gpr]

theorem SameBut.setSeg (h : SameBut g c c') (s : Seg) (v : BitVec 16) :
    SameBut g (c.setSeg s v) (c'.setSeg s v) := by
  refine ⟨h.gpr, ?_, h.mem⟩
  change Function.update c'.seg s v = Function.update c.seg s v
  rw [h.seg]

theorem SameBut.write64 (h : SameBut g c c') (a v : BitVec 64) :
    SameBut (g \ Region a 8) (c.setMem (c.mem.write64 a v)) (c'.setMem (c'.mem.write64 a v)) :=
  ⟨h.gpr, h.seg, h.mem.write64_both a v⟩

/-- An instruction that reads nothing unknown keeps two machines the same, and what it writes
    is known afterwards. -/
theorem SameBut.exec (h : SameBut g c c') (i : Instr) (hr : Disjoint (i.reads c) g) :
    SameBut (g \ i.writes c) (c.exec i) (c'.exec i) := by
  have hreg : ∀ r, c'.gpr r = c.gpr r := congrFun h.gpr
  have hseg : ∀ s, c'.seg s = c.seg s := congrFun h.seg
  have hnone : g \ ∅ = g := Set.sdiff_empty
  cases i with
  | pushq r =>
      change SameBut _ (c.pushed [c.gpr r]) (c'.pushed [c'.gpr r])
      rw [hreg]
      exact h.pushed _
  | pushImm v => exact h.pushed v
  | pushMem a =>
      change SameBut _ (c.pushed [c.mem.read64 a]) (c'.pushed [c'.mem.read64 a])
      rw [h.mem.read64_of_disjoint hr]
      exact h.pushed _
  | popq r =>
      change SameBut _ ((c.setReg .rsp (c.gpr .rsp + 8#64)).setReg r (c.mem.read64 (c.gpr .rsp)))
        ((c'.setReg .rsp (c'.gpr .rsp + 8#64)).setReg r (c'.mem.read64 (c'.gpr .rsp)))
      rw [hreg, h.mem.read64_of_disjoint hr]
      exact hnone.symm ▸ (h.setReg _ _).setReg _ _
  | movImm v r => exact hnone.symm ▸ h.setReg r v
  | movq src dst =>
      change SameBut _ (c.setReg dst (c.gpr src)) (c'.setReg dst (c'.gpr src))
      rw [hreg]
      exact hnone.symm ▸ h.setReg _ _
  | movFromSeg s r =>
      change SameBut _ (c.setReg r ((c.seg s).setWidth 64)) (c'.setReg r ((c'.seg s).setWidth 64))
      rw [hseg]
      exact hnone.symm ▸ h.setReg _ _
  | movToSeg r s =>
      change SameBut _ (c.setSeg s ((c.gpr r).setWidth 16)) (c'.setSeg s ((c'.gpr r).setWidth 16))
      rw [hreg]
      exact hnone.symm ▸ h.setSeg _ _
  | load a r =>
      change SameBut _ (c.setReg r (c.mem.read64 a)) (c'.setReg r (c'.mem.read64 a))
      rw [h.mem.read64_of_disjoint hr]
      exact hnone.symm ▸ h.setReg _ _
  | store r a =>
      change SameBut _ (c.setMem (c.mem.write64 a (c.gpr r)))
        (c'.setMem (c'.mem.write64 a (c'.gpr r)))
      rw [hreg]
      exact h.write64 _ _
  | storeAt r off base =>
      change SameBut _ (c.setMem (c.mem.write64 (c.gpr base + off) (c.gpr r)))
        (c'.setMem (c'.mem.write64 (c'.gpr base + off) (c'.gpr r)))
      rw [hreg, hreg]
      exact h.write64 _ _
  | leaq label r => exact hnone.symm ▸ h.setReg r label
  | addImm v r =>
      change SameBut _ (c.setReg r (c.gpr r + v)) (c'.setReg r (c'.gpr r + v))
      rw [hreg]
      exact hnone.symm ▸ h.setReg _ _
  | subImm v r =>
      change SameBut _ (c.setReg r (c.gpr r - v)) (c'.setReg r (c'.gpr r - v))
      rw [hreg]
      exact hnone.symm ▸ h.setReg _ _
  | xorq src dst =>
      change SameBut _ (c.setReg dst (c.gpr dst ^^^ c.gpr src))
        (c'.setReg dst (c'.gpr dst ^^^ c'.gpr src))
      rw [hreg, hreg]
      exact hnone.symm ▸ h.setReg _ _
  | cld => exact hnone.symm ▸ ⟨h.gpr, h.seg, h.mem⟩
  | sti => exact hnone.symm ▸ ⟨h.gpr, h.seg, h.mem⟩

/-! ## Lines -/

/-- A run with interruptions on a line in two parts. -/
theorem PreemptedRun.append (h : PreemptedRun p c (is ++ js) d) :
    ∃ e, PreemptedRun p c is e ∧ PreemptedRun p e js d := by
  generalize hl : is ++ js = l at h
  induction h generalizing is with
  | done c =>
      obtain ⟨rfl, rfl⟩ := List.append_eq_nil_iff.mp hl
      exact ⟨c, .done c, .done c⟩
  | @exec c d i l h ih =>
      cases is with
      | nil =>
          rw [List.nil_append] at hl
          exact ⟨c, .done c, hl ▸ .exec h⟩
      | cons j is =>
          obtain ⟨rfl, rfl⟩ := List.cons.inj hl
          obtain ⟨e, he, hd⟩ := ih rfl
          exact ⟨e, .exec he, hd⟩
  | interrupt hp h ih =>
      obtain ⟨e, he, hd⟩ := ih hl
      exact ⟨e, .interrupt hp he, hd⟩

theorem PreemptedRun.trans (h : PreemptedRun p c is c') (h' : PreemptedRun p c' js d) :
    PreemptedRun p c (is ++ js) d := by
  induction h with
  | done c => exact h'
  | exec _ ih => exact .exec (ih h')
  | interrupt hp _ ih => exact .interrupt hp (ih h')

/-- An interruption at the end of a line. -/
theorem PreemptedRun.interrupted (h : PreemptedRun p c is c') (hp : p.step c' d) :
    PreemptedRun p c is d := by
  have hlast := h.trans (.interrupt hp (.done d))
  rwa [List.append_nil] at hlast

/-- The run without interruptions. -/
theorem PreemptedRun.plain (p : Preemption) (c : Cpu) (is : List Instr) :
    PreemptedRun p c is (c.run is) := by
  induction is generalizing c with
  | nil => exact .done c
  | cons i is ih => exact .exec (ih (c.exec i))

theorem withstands_nil (hok : p.ok (c.gpr .rsp)) (hg : p.dead (c.gpr .rsp) ⊆ g) :
    Withstands p g c [] g := by
  intro c' d' hs h
  generalize hl : ([] : List Instr) = l at h
  induction h with
  | done c => exact hs
  | exec h ih => exact nomatch hl
  | interrupt hp h ih => exact ih (p.sameBut hs hok hg hp) hl

theorem withstands_cons {i : Instr} (hok : p.ok (c.gpr .rsp)) (hg : p.dead (c.gpr .rsp) ⊆ g)
    (hr : Disjoint (i.reads c) g) (h : Withstands p (g \ i.writes c) (c.exec i) is g') :
    Withstands p g c (i :: is) g' := by
  intro c' d' hs hrun
  generalize hl : i :: is = l at hrun
  induction hrun with
  | done c => exact nomatch hl
  | exec hrun ih =>
      obtain ⟨rfl, rfl⟩ := List.cons.inj hl
      exact h _ _ (hs.exec _ hr) hrun
  | interrupt hp hrun ih => exact ih (p.sameBut hs hok hg hp) hl

theorem Withstands.append (h : Withstands p g c is g') (h' : Withstands p g' (c.run is) js g'') :
    Withstands p g c (is ++ js) g'' := by
  intro c' d' hs hrun
  obtain ⟨e, he, hd⟩ := hrun.append
  rw [Cpu.run_append]
  exact h' _ _ (h _ _ hs he) hd

theorem Withstands.mono (h : Withstands p g c is g') (h₁ : g'' ⊆ g) {g₃ : Set (BitVec 64)}
    (h₂ : g' ⊆ g₃) : Withstands p g'' c is g₃ := fun c' d' hs hrun =>
  (h c' d' (hs.mono h₁) hrun).mono h₂

/-! ## Pushes and pops -/

/-- An instruction that leaves memory and the stack pointer alone. -/
def Instr.plain : Instr → Bool
  | .movImm _ r => r ≠ .rsp
  | .movq _ dst => dst ≠ .rsp
  | .movFromSeg _ r => r ≠ .rsp
  | .movToSeg _ _ => true
  | .leaq _ r => r ≠ .rsp
  | .xorq _ dst => dst ≠ .rsp
  | .cld => true
  | .sti => true
  | _ => false

/-- A push of something that is not in memory. -/
def Instr.isPush : Instr → Bool
  | .pushq _ => true
  | .pushImm _ => true
  | _ => false

/-- A pop of another register than the stack pointer. -/
def Instr.isPop : Instr → Bool
  | .popq r => r ≠ .rsp
  | _ => false

theorem Instr.plain_spec {i : Instr} (h : i.plain = true) (c : Cpu) :
    (c.exec i).gpr .rsp = c.gpr .rsp ∧ i.reads c = ∅ ∧ i.writes c = ∅ := by
  have hset : ∀ {r : Reg} (v : BitVec 64), decide (r ≠ .rsp) = true →
      (c.setReg r v).gpr .rsp = c.gpr .rsp := fun v hr =>
    c.setReg_gpr_of_ne (Ne.symm (of_decide_eq_true hr)) v
  cases i with
  | movImm v r => exact ⟨hset _ h, rfl, rfl⟩
  | movq src dst => exact ⟨hset _ h, rfl, rfl⟩
  | movFromSeg s r => exact ⟨hset _ h, rfl, rfl⟩
  | leaq label r => exact ⟨hset _ h, rfl, rfl⟩
  | xorq src dst => exact ⟨hset _ h, rfl, rfl⟩
  | movToSeg r s => exact ⟨rfl, rfl, rfl⟩
  | cld => exact ⟨rfl, rfl, rfl⟩
  | sti => exact ⟨rfl, rfl, rfl⟩
  | _ => exact absurd h Bool.false_ne_true

theorem Instr.isPush_spec {i : Instr} (h : i.isPush = true) (c : Cpu) :
    (c.exec i).gpr .rsp = c.gpr .rsp - 8#64 ∧ i.reads c = ∅ ∧
      i.writes c = Region (c.gpr .rsp - 8#64) 8 := by
  cases i with
  | pushq r => exact ⟨c.pushed_rsp _, rfl, rfl⟩
  | pushImm v => exact ⟨c.pushed_rsp _, rfl, rfl⟩
  | _ => exact absurd h Bool.false_ne_true

theorem Instr.isPop_spec {i : Instr} (h : i.isPop = true) (c : Cpu) :
    (c.exec i).gpr .rsp = c.gpr .rsp + 8#64 ∧ i.reads c = Region (c.gpr .rsp) 8 ∧
      i.writes c = ∅ := by
  cases i with
  | popq r =>
      refine ⟨?_, rfl, rfl⟩
      exact ((c.setReg .rsp _).setReg_gpr_of_ne (Ne.symm (of_decide_eq_true h)) _).trans
        (c.setReg_gpr_self _ _)
  | _ => exact absurd h Bool.false_ne_true

/-- The words that a line pushes. -/
def pushCount (is : List Instr) : Nat := is.countP Instr.isPush

def popCount (is : List Instr) : Nat := is.countP Instr.isPop

/-- What is pushed is dead until then. -/
theorem Preemption.dead_below {sp : BitVec 64} {n : Nat}
    (hok : ∀ k ≤ n, p.ok (Mem.below sp k)) (hn : 8 * n < 2 ^ 64) :
    p.dead (Mem.below sp n) ⊆ p.dead sp \ Region (Mem.below sp n) (8 * n) := by
  induction n generalizing sp with
  | zero =>
      rw [show Mem.below sp 0 = sp from BitVec.sub_zero sp]
      exact fun x hx => ⟨hx, fun h => absurd h (Nat.not_lt_zero _)⟩
  | succ n ih =>
      have hstep : ∀ k ≤ n, p.ok (Mem.below (sp - 8#64) k) := fun k hk => by
        rw [← Mem.below_succ]
        exact hok (k + 1) (by omega)
      have hok0 : p.ok sp := BitVec.sub_zero sp ▸ hok 0 (Nat.zero_le _)
      have h8 := p.dead_push sp hok0 (hok 1 (by omega))
      rw [Mem.region_below_succ sp hn, Mem.below_succ]
      intro x hx
      obtain ⟨hx1, hx2⟩ := ih hstep (by omega) hx
      exact ⟨(h8 hx1).1, not_or.mpr ⟨hx2, (h8 hx1).2⟩⟩

/-- A line of pushes: the words it pushes are known at its end. -/
theorem withstands_pushing (hline : ∀ i ∈ is, i.plain = true ∨ i.isPush = true)
    (hok : ∀ k ≤ pushCount is, p.ok (Mem.below (c.gpr .rsp) k)) (hn : 8 * pushCount is < 2 ^ 64)
    (hg : p.dead (c.gpr .rsp) ⊆ g) :
    Withstands p g c is
      (g \ Region (Mem.below (c.gpr .rsp) (pushCount is)) (8 * pushCount is)) := by
  have hok0 : p.ok (c.gpr .rsp) := BitVec.sub_zero (c.gpr .rsp) ▸ hok 0 (Nat.zero_le _)
  induction is generalizing c g with
  | nil =>
      refine (withstands_nil hok0 hg).mono subset_rfl ?_
      exact fun x hx => ⟨hx, fun h => absurd h (Nat.not_lt_zero _)⟩
  | cons i is ih =>
      have hrest : ∀ j ∈ is, j.plain = true ∨ j.isPush = true := fun j hj =>
        hline j (List.mem_cons_of_mem i hj)
      by_cases hi : i.isPush = true
      · obtain ⟨hsp, hr, hw⟩ := i.isPush_spec hi c
        have hcount : pushCount (i :: is) = pushCount is + 1 := List.countP_cons_of_pos hi
        rw [hcount] at hok hn ⊢
        have hok' : ∀ k ≤ pushCount is, p.ok (Mem.below (c.gpr .rsp - 8#64) k) := fun k hk => by
          rw [← Mem.below_succ]
          exact hok (k + 1) (by omega)
        have hok1 : p.ok (c.gpr .rsp - 8#64) := hok 1 (by omega)
        refine withstands_cons hok0 hg (by rw [hr]; exact Set.empty_disjoint g) ?_
        have hdead : p.dead (c.gpr .rsp - 8#64) ⊆ g \ i.writes c := by
          rw [hw]
          exact (p.dead_push _ hok0 hok1).trans (Set.sdiff_subset_sdiff_left hg)
        rw [← hsp] at hok' hok1 hdead
        refine (ih hrest hok' (by omega) hdead hok1).mono subset_rfl ?_
        rw [hsp, hw, Mem.region_below_succ _ hn, Set.sdiff_sdiff, Set.union_comm]
      · obtain ⟨hsp, hr, hw⟩ := i.plain_spec ((hline i List.mem_cons_self).resolve_right hi) c
        have hcount : pushCount (i :: is) = pushCount is := List.countP_cons_of_neg hi
        rw [hcount] at hok hn ⊢
        refine withstands_cons hok0 hg (by rw [hr]; exact Set.empty_disjoint g) ?_
        rw [hw, Set.sdiff_empty, ← hsp]
        rw [← hsp] at hok hok0 hg
        exact ih hrest hok hn hg hok0

/-- Where a line of pops leaves the stack pointer. -/
theorem run_popping_rsp {top : BitVec 64} (hline : ∀ i ∈ is, i.plain = true ∨ i.isPop = true)
    (hsp : c.gpr .rsp = Mem.below top (popCount is)) : (c.run is).gpr .rsp = top := by
  induction is generalizing c with
  | nil => exact hsp.trans (BitVec.sub_zero top)
  | cons i is ih =>
      have hrest : ∀ j ∈ is, j.plain = true ∨ j.isPop = true := fun j hj =>
        hline j (List.mem_cons_of_mem i hj)
      by_cases hi : i.isPop = true
      · have hcount : popCount (i :: is) = popCount is + 1 := List.countP_cons_of_pos hi
        refine ih hrest ?_
        rw [(i.isPop_spec hi c).1, hsp, hcount, Mem.below_add_word]
      · have hcount : popCount (i :: is) = popCount is := List.countP_cons_of_neg hi
        refine ih hrest ?_
        rw [(i.plain_spec ((hline i List.mem_cons_self).resolve_right hi) c).1, hsp, hcount]

/-- A line of pops, below `top`: what it reads must be known, and it is dead afterwards. -/
theorem withstands_popping {top : BitVec 64} (hline : ∀ i ∈ is, i.plain = true ∨ i.isPop = true)
    (hsp : c.gpr .rsp = Mem.below top (popCount is))
    (hok : ∀ k ≤ popCount is, p.ok (Mem.below top k)) (hn : 8 * popCount is < 2 ^ 64)
    (hg : Disjoint (Region (c.gpr .rsp) (8 * popCount is)) g) :
    Withstands p (g ∪ p.dead (c.gpr .rsp)) c is (g ∪ p.dead top) := by
  have hokc : p.ok (c.gpr .rsp) := hsp ▸ hok _ le_rfl
  induction is generalizing c with
  | nil =>
      rw [show top = c.gpr .rsp by rw [hsp]; exact (BitVec.sub_zero top).symm]
      exact withstands_nil hokc Set.subset_union_right
  | cons i is ih =>
      have hrest : ∀ j ∈ is, j.plain = true ∨ j.isPop = true := fun j hj =>
        hline j (List.mem_cons_of_mem i hj)
      by_cases hi : i.isPop = true
      · obtain ⟨hsp', hr, hw⟩ := i.isPop_spec hi c
        have hcount : popCount (i :: is) = popCount is + 1 := List.countP_cons_of_pos hi
        rw [hcount] at hsp hok hn hg
        have hnext : c.gpr .rsp + 8#64 = Mem.below top (popCount is) := by
          rw [hsp, Mem.below_add_word]
        have hback : c.gpr .rsp + 8#64 - 8#64 = c.gpr .rsp := by ring
        have hok1 : p.ok (c.gpr .rsp + 8#64) := hnext ▸ hok _ (by omega)
        have hdead := p.dead_push (c.gpr .rsp + 8#64) hok1 (hback.symm ▸ hokc)
        rw [hback] at hdead
        have hread : Disjoint (i.reads c) (g ∪ p.dead (c.gpr .rsp)) := by
          rw [hr]
          refine Set.disjoint_union_right.mpr ⟨hg.mono_left (region_mono _ (by omega)), ?_⟩
          exact Set.disjoint_left.mpr fun x hx hd => (hdead hd).2 hx
        have hlow : Region (c.gpr .rsp + 8#64) (8 * popCount is) ⊆
            Region (c.gpr .rsp) (8 * (popCount is + 1)) :=
          region_subset _ (by rw [show (8#64).toNat = 8 from rfl]; omega)
        refine withstands_cons hokc Set.subset_union_right hread ?_
        rw [← hsp'] at hnext hok1 hlow
        refine (ih hrest hnext (fun k hk => hok k (by omega)) (by omega) (hg.mono_left hlow)
          hok1).mono ?_ subset_rfl
        rw [hw, Set.sdiff_empty, hsp']
        exact Set.union_subset_union_right g fun x hx => (hdead hx).1
      · obtain ⟨hsp', hr, hw⟩ := i.plain_spec ((hline i List.mem_cons_self).resolve_right hi) c
        have hcount : popCount (i :: is) = popCount is := List.countP_cons_of_neg hi
        rw [hcount] at hsp hok hn hg
        refine withstands_cons hokc Set.subset_union_right
          (by rw [hr]; exact Set.empty_disjoint _) ?_
        rw [hw, Set.sdiff_empty, ← hsp']
        rw [← hsp'] at hsp hokc hg
        exact ih hrest hsp hok hn hg hokc

end HelloOS.Lib
