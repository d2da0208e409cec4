/-
  One step of a run of context switches.

  A switch changes memory in three places: the assembly saves `prev` (`parkMem`), it pushes
  the address that `__switch_to` is to return to, and `__switch_to` stores. `SwitchFacts`
  collects what comes of all three, and `switchFacts` proves it from the invariant
  `SwitchInv`: a task that is not running has its registers where `switch_to` left them.
-/
import HelloOS.Sched.SwitchRun

namespace HelloOS.Sched

open HelloOS.Lib HelloOS.Mm

variable {L : Layout}

/-! ## The assembly saves `prev` -/

section Park

variable {c : Cpu} {prev next label : U64} (hp : prev ∈ L.tasks)
  (hthread : threadOf c.mem prev = L.thread prev) (hroom : L.Room prev (c.gpr .rsp) 24)

include hthread hroom in
/-- It writes to the stack of `prev` and to its saved fields. -/
theorem parkMem_agreeOn {s : Set U64} (hs : Disjoint (L.region (.stack prev)) s)
    (hf : Disjoint (L.region (.saved prev)) s) : Mem.AgreeOn s (parkMem c prev label) c.mem := by
  have hpush : Region (Mem.below (c.gpr .rsp) 2) 16 ⊆ L.region (.stack prev) :=
    (hroom.mono (by decide)).below_subset (k := 2)
  have hfield : ∀ {o : U64}, 8 ≤ o.toNat → o.toNat + 8 ≤ 64 →
      Disjoint (Region (L.thread prev + o) 8) s := fun h1 h2 => hf.mono_left (L.field_subset h1 h2)
  unfold parkMem parkStack
  rw [hthread]
  refine (Mem.agreeOn_write64 _ _ _ (hfield (by decide) (by decide))).trans ?_
  refine (Mem.agreeOn_write64 _ _ _ (hfield (by decide) (by decide))).trans ?_
  exact Mem.agreeOn_pushWords _ _ _ (hs.mono_left hpush)

include hp hthread hroom in
/-- What it leaves is the frame of a suspended task. -/
theorem parkMem_frame : Frame L (parkMem c prev label) prev ⟨c, label⟩ where
  room := hroom
  rsp := by
    unfold parkMem parkStack
    rw [hthread, (Mem.agreeOn_write64 _ _ _ (L.field_disjoint (by decide) (by decide))).read64,
      Mem.read64_write64_self]
  rip := by
    unfold parkMem
    rw [hthread, Mem.read64_write64_self]
  words := by
    have hstack : Region (Mem.below (c.gpr .rsp) 2) 16 ⊆ L.region (.stack prev) :=
      (hroom.mono (by decide)).below_subset (k := 2)
    have hdis : Disjoint (L.region (.saved prev)) (L.region (.stack prev)) :=
      L.apart _ _ hp hp (by simp)
    have hfield : ∀ {o : U64}, 8 ≤ o.toNat → o.toNat + 8 ≤ 64 →
        Disjoint (Region (L.thread prev + o) 8) (Region (Mem.below (c.gpr .rsp) 2) (8 * 2)) :=
      fun h1 h2 => (hdis.mono_left (L.field_subset h1 h2)).mono_right hstack
    unfold parkMem parkStack
    rw [hthread, (Mem.agreeOn_write64 _ _ _ (hfield (by decide) (by decide))).readWords,
      (Mem.agreeOn_write64 _ _ _ (hfield (by decide) (by decide))).readWords]
    exact c.mem.readWords_pushWords (c.gpr .rsp) [c.gpr .rbp, c.gpr .rax] (by simp)

include hp hthread in
variable (label) in
/-- The stack pointer that the assembly loads is the one saved for `next`. -/
theorem nextRsp_eq (hn : next ∈ L.tasks) (hnext : threadOf c.mem next = L.thread next) :
    nextRsp c prev next = (parkMem c prev label).read64 (L.thread next + offRsp) := by
  have hdis : Disjoint (Region (L.thread prev + offRip) 8) (Region (L.thread next + offRsp) 8) := by
    by_cases h : prev = next
    · subst h
      exact L.field_disjoint (by decide) (by decide)
    · have hsaved := L.apart (.saved prev) (.saved next) hp hn (by simpa using h)
      exact (hsaved.mono_left (L.field_subset (by decide) (by decide))).mono_right
        (L.field_subset (by decide) (by decide))
  unfold nextRsp parkMem
  rw [hthread, hnext, (Mem.agreeOn_write64 _ _ _ hdis).read64]

end Park

/-! ## The stores of `__switch_to` -/

section Stores

variable {m : Mem} (fs gs : BitVec 16) {prev next : U64} (hp : prev ∈ L.tasks)
  (hthread : threadOf m prev = L.thread prev) (hnext : threadOf m next = L.thread next)

include hp hthread hnext in
/-- The stores, with the pointers to the two `thread_struct`s resolved. -/
theorem switchStores_eq : switchStores L.toPlaces m fs gs prev next =
    ((setInitTss (m.write64 (L.initTss + offTssRsp0) (m.read64 (L.thread next + offRsp0)))
      L.initTss L.tssTable).write64 (L.thread prev + offFs) (fs.setWidth 64)).write64
      (L.thread prev + offGs) (gs.setWidth 64) := by
  have hptr : ∀ q : Piece, q.Of L.tasks → q ≠ .pointer prev →
      Disjoint (L.region q) (Region (prev + offThread) 8) :=
    fun q hq hne => L.apart q (.pointer prev) hq hp hne
  have h1 : ∀ m', Mem.AgreeOn (Region (prev + offThread) 8) m' m →
      threadOf m' prev = L.thread prev := fun m' h => h.read64.trans hthread
  have htss : Region (L.initTss + offTssRsp0) 8 ⊆ L.region .initTss :=
    region_subset _ (show offTssRsp0.toNat + 8 ≤ 104 by decide)
  have ha : Mem.AgreeOn (Region (prev + offThread) 8)
      (setInitTss (m.write64 (L.initTss + offTssRsp0) (m.read64 (L.thread next + offRsp0)))
        L.initTss L.tssTable) m :=
    (setInitTss_agreeOn _ _ _ (hptr .tssTable trivial (by simp))).trans
      (Mem.agreeOn_write64 _ _ _ ((hptr .initTss trivial (by simp)).mono_left htss))
  have hb := (Mem.agreeOn_write64 _ (L.thread prev + offFs) (fs.setWidth 64)
    ((hptr (.saved prev) hp (by simp)).mono_left (L.field_subset (by decide) (by decide)))).trans ha
  unfold switchStores threadField
  dsimp only
  rw [hnext, h1 _ ha, h1 _ hb]

include hp hthread hnext in
theorem switchStores_agreeOn {s : Set U64} (hinit : Disjoint (L.region .initTss) s)
    (htable : Disjoint (L.region .tssTable) s)
    (hsegs : Disjoint (Region (L.thread prev + offFs) 16) s) :
    Mem.AgreeOn s (switchStores L.toPlaces m fs gs prev next) m := by
  have htss : Region (L.initTss + offTssRsp0) 8 ⊆ L.region .initTss :=
    region_subset _ (show offTssRsp0.toNat + 8 ≤ 104 by decide)
  have hgs : Region (L.thread prev + offGs) 8 ⊆ Region (L.thread prev + offFs) 16 := by
    rw [show L.thread prev + offGs = L.thread prev + offFs + 8#64 from
      (BitVec.add_assoc (L.thread prev) offFs 8#64).symm]
    exact region_subset _ (by decide)
  rw [switchStores_eq fs gs hp hthread hnext]
  refine (Mem.agreeOn_write64 _ _ _ (hsegs.mono_left hgs)).trans ?_
  refine (Mem.agreeOn_write64 _ _ _ (hsegs.mono_left (region_mono _ (by decide)))).trans ?_
  exact (setInitTss_agreeOn _ _ _ htable).trans (Mem.agreeOn_write64 _ _ _ (hinit.mono_left htss))

include hp hthread hnext in
/-- The selectors of `prev` are saved. -/
theorem switchStores_segs :
    (switchStores L.toPlaces m fs gs prev next).read64 (L.thread prev + offFs) = fs.setWidth 64 ∧
      (switchStores L.toPlaces m fs gs prev next).read64 (L.thread prev + offGs) =
        gs.setWidth 64 := by
  rw [switchStores_eq fs gs hp hthread hnext]
  refine ⟨?_, Mem.read64_write64_self _ _ _⟩
  rw [(Mem.agreeOn_write64 _ _ _ (L.field_disjoint (by decide) (by decide)).symm).read64,
    Mem.read64_write64_self]

include hp hthread hnext in
/-- The CPU's table gets `rsp0` of `next`. -/
theorem tssRsp0_switchStores :
    tssRsp0 (switchStores L.toPlaces m fs gs prev next) L.tssTable =
      m.read64 (L.thread next + offRsp0) := by
  have hdis : Disjoint (L.region (.saved prev)) (Region (L.tssTable + 4#64 * 1#64) 8) :=
    (L.apart (.saved prev) .tssTable hp trivial (by simp)).mono_right
      (region_subset _ (show (4#64 * 1#64).toNat + 8 ≤ 104 by decide))
  have hfield : ∀ {o : U64}, 8 ≤ o.toNat → o.toNat + 8 ≤ 64 →
      Disjoint (Region (L.thread prev + o) 8) (Region (L.tssTable + 4#64 * 1#64) 8) :=
    fun h1 h2 => hdis.mono_left (L.field_subset h1 h2)
  rw [switchStores_eq fs gs hp hthread hnext]
  unfold tssRsp0
  rw [(Mem.agreeOn_write64 _ _ _ (hfield (by decide) (by decide))).read64,
    (Mem.agreeOn_write64 _ _ _ (hfield (by decide) (by decide))).read64]
  exact (tssRsp0_setInitTss _ _ _).trans (Mem.read64_write64_self _ _ _)

end Stores

/-! ## The invariant -/

/-- What holds between the steps of a run: the pointers to the `thread_struct`s are in place,
    every task that is not running has a stack pointer to resume with, and the suspended
    ones have their frame and their selectors in memory. -/
structure SwitchInv (L : Layout) (s : Sys) : Prop where
  tasks : s.live ⊆ L.tasks
  cur : s.cur ∈ s.live
  init : L.init ∈ s.live
  pointer : ∀ t ∈ s.live, threadOf s.cpu.mem t = L.thread t
  room : ∀ t ∈ s.live, t ≠ s.cur → L.Room t (s.cpu.mem.read64 (L.thread t + offRsp)) 8
  suspended : ∀ t sv, s.suspended t = some sv → t ∈ s.live ∧ t ≠ s.cur
  frame : ∀ t sv, s.suspended t = some sv → Frame L s.cpu.mem t sv
  segs : ∀ t sv, s.suspended t = some sv → Segs L s.cpu.mem t sv

section Switch

variable {s : Sys} {next label : U64} {c₂ : Cpu} (h : SwitchInv L s)
  (hok : SwitchOk L s next label c₂)

include h in
/-- Pieces of different tasks, or of different kinds, do not meet. -/
theorem SwitchInv.apart {p q : Piece} (hp : p.Of s.live) (hq : q.Of s.live) (hne : p ≠ q) :
    Disjoint (L.region p) (L.region q) :=
  L.apart p q (hp.mono h.tasks) (hq.mono h.tasks) hne

/-! ### The running task is saved -/

include h hok in
theorem parked_pieces {p : Piece} (hp : p.Of s.live) (h1 : p ≠ .stack s.cur)
    (h2 : p ≠ .saved s.cur) : Mem.AgreeOn (L.region p) (parkMem s.cpu s.cur label) s.cpu.mem :=
  parkMem_agreeOn (h.pointer _ h.cur) hok.room (h.apart h.cur hp h1.symm) (h.apart h.cur hp h2.symm)

include h hok in
/-- Every suspended task, now with the running one, has its frame in memory. -/
theorem parked_frame {t : U64} {sv : Suspended} (hsv : s.parked label t = some sv) :
    t ∈ s.live ∧ Frame L (parkMem s.cpu s.cur label) t sv := by
  unfold Sys.parked at hsv
  by_cases ht : t = s.cur
  · subst ht
    rw [Function.update_self, Option.some.injEq] at hsv
    subst hsv
    exact ⟨h.cur, parkMem_frame (h.tasks h.cur) (h.pointer _ h.cur) hok.room⟩
  · rw [Function.update_of_ne ht] at hsv
    have hlive := (h.suspended t sv hsv).1
    have hf := h.frame t sv hsv
    refine ⟨hlive, hf.of_agreeOn ?_ ?_⟩
    · exact (parked_pieces h hok (p := .saved t) hlive (by simp) (by simpa using ht)).mono
        (ripRsp_subset L t)
    · exact (parked_pieces h hok (p := .stack t) hlive (by simpa using ht) (by simp)).mono
        hf.words_subset

include h hok in
/-- Every task has a stack pointer to resume with. -/
theorem parked_room {t : U64} (ht : t ∈ s.live) :
    L.Room t ((parkMem s.cpu s.cur label).read64 (L.thread t + offRsp)) 8 := by
  by_cases hcur : t = s.cur
  · have hsv : s.parked label t = some ⟨s.cpu, label⟩ := by
      unfold Sys.parked
      rw [hcur, Function.update_self]
    have hf := (parked_frame h hok hsv).2
    rw [hf.rsp]
    exact hf.room.below (k := 2)
  · have hag := (parked_pieces h hok (p := .saved t) ht (by simp) (by simpa using hcur)).mono
      (ripRsp_subset L t)
    rw [(hag.mono (rsp_subset L t)).read64]
    exact h.room t ht hcur

/-! ### The return address is pushed -/

include h hok in
theorem nextRsp_room :
    nextRsp s.cpu s.cur next = (parkMem s.cpu s.cur label).read64 (L.thread next + offRsp) ∧
      L.Room next (nextRsp s.cpu s.cur next) 8 := by
  have hsp := nextRsp_eq label (h.tasks h.cur) (h.pointer _ h.cur) (h.tasks hok.live)
    (h.pointer _ hok.live)
  refine ⟨hsp, ?_⟩
  rw [hsp]
  exact parked_room h hok hok.live

theorem enter_agreeOn {a : Set U64}
    (ha : Disjoint (Region (Mem.below (nextRsp s.cpu s.cur next) 1) 8) a) :
    Mem.AgreeOn a (switchEnter s.cpu s.cur next label).mem (parkMem s.cpu s.cur label) := by
  rw [(switchEnter_spec s.cpu s.cur next label).1]
  exact Mem.agreeOn_pushWords _ _ _ ha

include h hok in
theorem enter_pieces {p : Piece} (hp : p.Of s.live) (hne : p ≠ .stack next) :
    Mem.AgreeOn (L.region p) (switchEnter s.cpu s.cur next label).mem
      (parkMem s.cpu s.cur label) :=
  enter_agreeOn ((h.apart (p := .stack next) hok.live hp hne.symm).mono_left
    ((nextRsp_room h hok).2.below_subset (k := 1)))

include h hok in
theorem enter_pointer {t : U64} (ht : t ∈ s.live) :
    threadOf (switchEnter s.cpu s.cur next label).mem t = L.thread t :=
  ((enter_pieces h hok (p := .pointer t) ht (by simp)).trans
    (parked_pieces h hok (p := .pointer t) ht (by simp) (by simp))).read64.trans (h.pointer t ht)

theorem switch_target :
    (s.switch next label c₂).target =
      (parkMem s.cpu s.cur label).read64 (threadOf s.cpu.mem next + offRip) := by
  obtain ⟨hmem, hsp, -⟩ := switchEnter_spec s.cpu s.cur next label
  change (switchEnter s.cpu s.cur next label).mem.read64
    ((switchEnter s.cpu s.cur next label).gpr .rsp) = _
  rw [hmem, hsp]
  exact (Mem.pushWords_concat _ _ [] _ (by decide)).1

/-! ### `__switch_to` stores -/

include h hok in
theorem stores_agreeOn {a : Set U64} {q : Piece} (hq : q.Of s.live) (ha : a ⊆ L.region q)
    (h1 : q ≠ .initTss) (h2 : q ≠ .tssTable)
    (hsegs : Disjoint (Region (L.thread s.cur + offFs) 16) a) :
    Mem.AgreeOn a (switchStores L.toPlaces (switchEnter s.cpu s.cur next label).mem
      ((switchEnter s.cpu s.cur next label).seg .fs)
      ((switchEnter s.cpu s.cur next label).seg .gs) s.cur next)
      (switchEnter s.cpu s.cur next label).mem :=
  switchStores_agreeOn _ _ (h.tasks h.cur) (enter_pointer h hok h.cur)
    (enter_pointer h hok hok.live)
    ((h.apart (p := .initTss) trivial hq h1.symm).mono_right ha)
    ((h.apart (p := .tssTable) trivial hq h2.symm).mono_right ha) hsegs

include h in
theorem segs_disjoint {q : Piece} (hq : q.Of s.live) (hne : q ≠ .saved s.cur) :
    Disjoint (Region (L.thread s.cur + offFs) 16) (L.region q) :=
  (h.apart (p := .saved s.cur) h.cur hq hne.symm).mono_left (L.field_subset (by decide) (by decide))

include h hok in
/-- Of what the assembly left, the call keeps all but its stores and its own stack. -/
theorem after_pieces {p : Piece} (hp : p.Of s.live)
    (hne : p ∉ [Piece.stack next, .saved s.cur, .initTss, .tssTable]) :
    Mem.AgreeOn (L.region p) c₂.mem (parkMem s.cpu s.cur label) := by
  simp only [List.mem_cons, List.not_mem_nil, or_false, not_or] at hne
  obtain ⟨h1, h2, h3, h4⟩ := hne
  exact (hok.call.pieces p hp h1).trans ((stores_agreeOn h hok hp subset_rfl h3 h4
    (segs_disjoint h hp h2)).trans (enter_pieces h hok hp h1))

include h hok in
/-- It keeps the saved `rip` and `rsp` of every task. -/
theorem after_ripRsp {t : U64} (ht : t ∈ s.live) :
    Mem.AgreeOn (ripRsp L t) c₂.mem (parkMem s.cpu s.cur label) := by
  have hsub := ripRsp_subset L t
  by_cases hcur : t = s.cur
  · subst hcur
    have hsegs : Disjoint (Region (L.thread s.cur + offFs) 16) (ripRsp L s.cur) :=
      (disjoint_offsets (L.thread s.cur) (c := offRip) (d := offFs) (by decide) (by decide)).symm
    have hcall := (hok.call.pieces (.saved s.cur) ht (by simp)).mono hsub
    have henter := (enter_pieces h hok (p := .saved s.cur) ht (by simp)).mono hsub
    exact hcall.trans ((stores_agreeOn h hok (q := .saved s.cur) ht hsub (by simp) (by simp)
      hsegs).trans henter)
  · exact (after_pieces h hok (p := .saved t) ht (by simpa using hcur)).mono hsub

include h hok in
/-- It keeps the stack of `next` from the stack pointer saved for it on. -/
theorem after_above : Mem.AgreeOn (L.above next (nextRsp s.cpu s.cur next)) c₂.mem
    (parkMem s.cpu s.cur label) := by
  have hroom := (nextRsp_room h hok).2
  have hup : L.above next (nextRsp s.cpu s.cur next) ⊆
      L.above next ((switchEnter s.cpu s.cur next label).gpr .rsp) := by
    rw [(switchEnter_spec s.cpu s.cur next label).2.1]
    refine Layout.above_mono ?_
    rw [Layout.height_below (k := 1) hroom.1]
    exact Nat.sub_le _ _
  have hsub := L.above_subset next (nextRsp s.cpu s.cur next)
  have henter : Mem.AgreeOn (L.above next (nextRsp s.cpu s.cur next))
      (switchEnter s.cpu s.cur next label).mem (parkMem s.cpu s.cur label) :=
    enter_agreeOn (hroom.disjoint_above (k := 1) (h.tasks hok.live))
  exact (hok.call.above.mono hup).trans ((stores_agreeOn h hok (q := .stack next) hok.live hsub
    (by simp) (by simp) ((segs_disjoint h (q := .stack next) hok.live (by simp)).mono_right
      hsub)).trans henter)

include h hok in
theorem after_frame {t : U64} {sv : Suspended} (hsv : s.parked label t = some sv) :
    Frame L c₂.mem t sv := by
  obtain ⟨hlive, hf⟩ := parked_frame h hok hsv
  refine hf.of_agreeOn (after_ripRsp h hok hlive) ?_
  by_cases ht : t = next
  · subst ht
    have hsp : nextRsp s.cpu s.cur t = Mem.below (sv.cpu.gpr .rsp) 2 :=
      (nextRsp_room h hok).1.trans hf.rsp
    refine (after_above h hok).mono ?_
    exact (hf.room.mono (by decide)).below_subset_above (k := 2) (h.tasks hlive)
      (by rw [hsp])
  · exact (after_pieces h hok (p := .stack t) hlive (by simpa using ht)).mono hf.words_subset

include h hok in
theorem after_segs {t : U64} {sv : Suspended} (hsv : s.parked label t = some sv) :
    Segs L c₂.mem t sv := by
  have hlive := (parked_frame h hok hsv).1
  by_cases ht : t = s.cur
  · subst ht
    have hsv' : sv = ⟨s.cpu, label⟩ := by
      unfold Sys.parked at hsv
      rw [Function.update_self, Option.some.injEq] at hsv
      exact hsv.symm
    subst hsv'
    obtain ⟨-, -, -, hseg, -⟩ := switchEnter_spec s.cpu s.cur next label
    obtain ⟨hfs, hgs⟩ := switchStores_segs ((switchEnter s.cpu s.cur next label).seg .fs)
      ((switchEnter s.cpu s.cur next label).seg .gs) (h.tasks h.cur)
      (enter_pointer h hok h.cur) (enter_pointer h hok hok.live)
    have hag := hok.call.pieces (.saved s.cur) hlive (by simp)
    refine ⟨?_, ?_⟩
    · rw [(hag.mono (L.field_subset (by decide) (by decide))).read64, hfs, hseg]
    · rw [(hag.mono (L.field_subset (by decide) (by decide))).read64, hgs, hseg]
  · have hold : s.suspended t = some sv := by
      unfold Sys.parked at hsv
      rwa [Function.update_of_ne ht] at hsv
    have hag := (after_pieces h hok (p := .saved t) hlive (by simpa using ht)).trans
      (parked_pieces h hok (p := .saved t) hlive (by simp) (by simpa using ht))
    exact (h.segs t sv hold).of_agreeOn hag

/-! ### All that a switch does -/

/-- What a switch leaves, in terms of the state before it and of memory behind it. -/
structure SwitchFacts (L : Layout) (s : Sys) (next label : U64) (c₂ : Cpu) : Prop where
  pieces : ∀ p, p.Of s.live →
    p ∉ [Piece.stack s.cur, .saved s.cur, .stack next, .initTss, .tssTable] →
    Mem.AgreeOn (L.region p) c₂.mem s.cpu.mem
  frame : ∀ t sv, s.parked label t = some sv →
    t ∈ s.live ∧ Frame L c₂.mem t sv ∧ Segs L c₂.mem t sv
  room : ∀ t ∈ s.live, L.Room t (c₂.mem.read64 (L.thread t + offRsp)) 8
  target : (s.switch next label c₂).target = c₂.mem.read64 (L.thread next + offRip)
  rsp : c₂.gpr .rsp = c₂.mem.read64 (L.thread next + offRsp)
  regs : ∀ r ∈ unsaved, c₂.gpr r = s.cpu.gpr r
  fs : c₂.seg .fs = (c₂.mem.read64 (L.thread next + offFs)).setWidth 16
  gs : c₂.seg .gs = (c₂.mem.read64 (L.thread next + offGs)).setWidth 16
  tss : tssRsp0 c₂.mem L.tssTable = c₂.mem.read64 (L.thread next + offRsp0)
  msr : c₂.msr = s.cpu.msr

include h hok in
theorem switchFacts : SwitchFacts L s next label c₂ := by
  obtain ⟨-, hsp, hregs, -, hmsr⟩ := switchEnter_spec s.cpu s.cur next label
  have hpieces : ∀ p, p.Of s.live →
      p ∉ [Piece.stack s.cur, .saved s.cur, .stack next, .initTss, .tssTable] →
      Mem.AgreeOn (L.region p) c₂.mem s.cpu.mem := by
    intro p hp hne
    simp only [List.mem_cons, List.not_mem_nil, or_false, not_or] at hne
    obtain ⟨h1, h2, h3, h4, h5⟩ := hne
    exact (after_pieces h hok hp (by simp [h2, h3, h4, h5])).trans (parked_pieces h hok hp h1 h2)
  have hnext := after_ripRsp h hok hok.live
  have hthread : threadOf c₂.mem next = L.thread next :=
    (hpieces (.pointer next) hok.live (by simp)).read64.trans (h.pointer _ hok.live)
  refine ⟨hpieces, fun t sv hsv => ⟨(parked_frame h hok hsv).1, after_frame h hok hsv,
    after_segs h hok hsv⟩, fun t ht => ?_, ?_, ?_, fun r hr => ?_, ?_, ?_, ?_, ?_⟩
  · rw [((after_ripRsp h hok ht).mono (rsp_subset L t)).read64]
    exact parked_room h hok ht
  · rw [switch_target, h.pointer _ hok.live, (hnext.mono (rip_subset L next)).read64]
  · rw [hok.call.rsp, hsp, (hnext.mono (rsp_subset L next)).read64, (nextRsp_room h hok).1,
      Mem.below_add_word]
    exact BitVec.sub_zero _
  · rw [hok.call.saved r (by revert hr; revert r; decide)]
    exact hregs r (by revert hr; revert r; decide)
  · rw [hok.call.fs, threadField, hthread]
  · rw [hok.call.gs, threadField, hthread]
  · -- the table and `rsp0` of `next` are as the stores left them
    have htable := hok.call.pieces .tssTable trivial (by simp)
    have hrsp0 := (hok.call.pieces (.rsp0 next) hok.live (by simp)).trans
      (stores_agreeOn h hok (q := .rsp0 next) hok.live subset_rfl (by simp) (by simp)
        (segs_disjoint h (q := .rsp0 next) hok.live (by simp)))
    have hstores := tssRsp0_switchStores ((switchEnter s.cpu s.cur next label).seg .fs)
      ((switchEnter s.cpu s.cur next label).seg .gs) (h.tasks h.cur)
      (enter_pointer h hok h.cur) (enter_pointer h hok hok.live)
    have hword : Region (L.tssTable + 4#64 * 1#64) 8 ⊆ L.region .tssTable :=
      region_subset _ (show (4#64 * 1#64).toNat + 8 ≤ 104 by decide)
    rw [tssRsp0, (htable.mono hword).read64]
    exact hstores.trans hrsp0.read64.symm
  · rw [hok.call.msr, hmsr]

end Switch

/-! ## The label -/

/-- The two pops. -/
theorem run_label1 (c : Cpu) :
    let c' := c.run label1
    c'.mem = c.mem ∧ c'.seg = c.seg ∧ c'.msr = c.msr ∧ c'.gpr .rsp = c.gpr .rsp + 16#64 ∧
      c'.gpr .rbp = c.mem.read64 (c.gpr .rsp + 8#64) ∧
      ∀ r, r ∉ [Reg.rax, .rbp, .rsp] → c'.gpr r = c.gpr r := by
  refine ⟨rfl, rfl, rfl, ?_, ?_, fun r hr => ?_⟩
  · simp only [label1, Cpu.run_cons, Cpu.run_nil, Cpu.exec]
    rw [Cpu.setReg_gpr_of_ne _ (by decide), Cpu.setReg_gpr_self, Cpu.setReg_gpr_of_ne _ (by decide),
      Cpu.setReg_gpr_self, BitVec.add_assoc]
    rfl
  · simp [label1, Cpu.exec]
  · simp only [List.mem_cons, List.not_mem_nil, or_false, not_or] at hr
    simp [label1, Cpu.exec, hr]

/-- Where a switch returns to, memory and the model-specific registers are as `__switch_to`
    left them. -/
theorem resumeAt_mem (resumed : Option Suspended) (target : U64) (c : Cpu) :
    (resumeAt resumed target c).mem = c.mem ∧ (resumeAt resumed target c).msr = c.msr := by
  unfold resumeAt
  split
  · split
    · exact ⟨(run_label1 c).1, (run_label1 c).2.2.1⟩
    · exact ⟨rfl, rfl⟩
  · exact ⟨rfl, rfl⟩

/-! ## Runs -/

theorem switchInv_start (c : Cpu) (systemCall : U64)
    (hthread : threadOf c.mem L.init = L.thread L.init) :
    SwitchInv L ⟨taskInit L.toPlaces c systemCall, L.init, {L.init}, fun _ => none⟩ where
  tasks := Set.singleton_subset_iff.mpr L.init_mem
  cur := rfl
  init := rfl
  pointer t ht := by
    rw [Set.mem_singleton_iff.mp ht]
    exact (taskInit_agreeOn c systemCall
      (L.apart .initTss (.pointer L.init) trivial L.init_mem (by simp))
      (L.apart .tssTable (.pointer L.init) trivial L.init_mem (by simp))).read64.trans hthread
  room t ht hne := absurd (Set.mem_singleton_iff.mp ht) hne
  suspended t sv hsv := nomatch hsv
  frame t sv hsv := nomatch hsv
  segs t sv hsv := nomatch hsv

theorem switchInv_work {s : Sys} {c : Cpu} {live : Set U64} (h : SwitchInv L s)
    (hw : Work L s c live) : SwitchInv L { s with cpu := c, live := live } where
  tasks := hw.tasks
  cur := hw.grows h.cur
  init := hw.grows h.init
  pointer t ht := by
    by_cases hold : t ∈ s.live
    · exact (hw.pieces (.pointer t) hold (by simp) (by simp)).read64.trans (h.pointer t hold)
    · exact hw.pointer t ht hold
  room t ht hne := by
    by_cases hold : t ∈ s.live
    · have hag := hw.pieces (.saved t) hold (by simp) (by simpa using hne)
      change L.Room t (c.mem.read64 (L.thread t + offRsp)) 8
      rw [(hag.mono (L.field_subset (by decide) (by decide))).read64]
      exact h.room t hold hne
    · exact hw.room t ht hold
  suspended t sv hsv := ⟨hw.grows (h.suspended t sv hsv).1, (h.suspended t sv hsv).2⟩
  frame t sv hsv := by
    obtain ⟨hold, hne⟩ := h.suspended t sv hsv
    have hf := h.frame t sv hsv
    exact hf.of_agreeOn
      ((hw.pieces (.saved t) hold (by simp) (by simpa using hne)).mono (ripRsp_subset L t))
      ((hw.pieces (.stack t) hold (by simpa using hne) (by simp)).mono hf.words_subset)
  segs t sv hsv := by
    obtain ⟨hold, hne⟩ := h.suspended t sv hsv
    exact (h.segs t sv hsv).of_agreeOn (hw.pieces (.saved t) hold (by simp) (by simpa using hne))

theorem switchInv_switch {s : Sys} {next label : U64} {c₂ : Cpu} (h : SwitchInv L s)
    (hok : SwitchOk L s next label c₂) : SwitchInv L (s.switched next label c₂) := by
  have hf := switchFacts h hok
  have hmem : (s.switched next label c₂).cpu.mem = c₂.mem := (resumeAt_mem _ _ _).1
  -- the task resumed is no longer suspended
  have hsus : ∀ t sv, (s.switched next label c₂).suspended t = some sv →
      t ≠ next ∧ s.parked label t = some sv := fun t sv hsv => by
    change Function.update (s.parked label) next none t = some sv at hsv
    by_cases ht : t = next
    · subst ht
      rw [Function.update_self] at hsv
      exact nomatch hsv
    · rw [Function.update_of_ne ht] at hsv
      exact ⟨ht, hsv⟩
  refine ⟨h.tasks, hok.live, h.init, fun t ht => ?_, fun t ht _ => ?_, fun t sv hsv => ?_,
    fun t sv hsv => ?_, fun t sv hsv => ?_⟩
  · rw [hmem]
    exact (hf.pieces (.pointer t) ht (by simp)).read64.trans (h.pointer t ht)
  · rw [hmem]
    exact hf.room t ht
  · exact ⟨(hf.frame t sv (hsus t sv hsv).2).1, (hsus t sv hsv).1⟩
  · rw [hmem]
    exact (hf.frame t sv (hsus t sv hsv).2).2.1
  · rw [hmem]
    exact (hf.frame t sv (hsus t sv hsv).2).2.2

/-- **Every state of a run satisfies the invariant.** -/
theorem SwitchRun.inv {s : Sys} {log : List Switch} (r : SwitchRun L s log) : SwitchInv L s := by
  induction r with
  | start c systemCall _ hthread => exact switchInv_start c systemCall hthread
  | work c live _ hw ih => exact switchInv_work ih hw
  | switch next label c₂ _ hok ih => exact switchInv_switch ih hok

end HelloOS.Sched
