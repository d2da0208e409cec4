/-
  `parse_sys_info` on a well-formed Multiboot2 information: the walk visits the tags one after
  another, up to the END tag, and the last memory map among them ends up in `gmdsc`.
-/
import HelloOS.Boot.MemoryMap
import HelloOS.Mm.Init

namespace HelloOS.Boot

open HelloOS.Lib HelloOS.Mm

variable {m m' : Mem} {g info a : BitVec 64} {t : Tag} {ts : List Tag}

/-! ## The format -/

theorem tagsLength_cons (t : Tag) (ts : List Tag) :
    tagsLength (t :: ts) = t.padded + tagsLength ts := by
  unfold tagsLength
  rw [List.map_cons, List.sum_cons, Nat.add_assoc]

theorem tagsLength_pos (ts : List Tag) : 8 ≤ tagsLength ts := by
  unfold tagsLength
  omega

theorem Tag.size_le_padded (t : Tag) : t.size ≤ t.padded := by
  unfold Tag.padded
  omega

theorem Tag.Wf.size (h : t.Wf) : 8 ≤ t.size := by
  cases t with
  | mmap entrySize entries =>
    change 8 ≤ 16 + _
    omega
  | other type size => exact h.2.2

theorem Tag.Wf.not_end (h : t.Wf) : t.type ≠ tagTypeEnd := by
  cases t with
  | mmap entrySize entries =>
    change tagTypeMmap ≠ tagTypeEnd
    decide
  | other type size => exact h.1

/-- The entries of a memory map that is a tag of the list lie inside the tag. -/
theorem Tag.At.congr (hwf : t.Wf) (h : t.At m a)
    (hm : Mem.AgreeOn (Region a t.size) m' m) : t.At m' a := by
  have h8 := hwf.size
  have htype : tagType m' a = tagType m a := (hm.mono (region_mono a (by omega))).read32
  have hsize : tagSize m' a = tagSize m a :=
    (hm.mono (region_subset a (c := 4#64) h8)).read32
  refine ⟨htype.trans h.type, ?_, ?_, ?_⟩
  · rw [hsize]
    exact h.size
  · intro n es he
    subst he
    have hsub : Region (a + 8#64) 4 ⊆ Region a (16 + es.length * n) :=
      region_subset a (by change 12 ≤ _; omega)
    rw [← h.entrySize n es rfl]
    exact congrArg _ ((hm.mono hsub).read32)
  · intro n es he j hj
    subst he
    rw [← h.entries n es rfl j hj]
    exact readEntry_congr (hm.mono (entry_subset a hwf hj))

theorem TagsAt.congr (hwf : ∀ t ∈ ts, t.Wf) (h : TagsAt m a ts)
    (hm : Mem.AgreeOn (Region a (tagsLength ts)) m' m) : TagsAt m' a ts := by
  induction ts generalizing a with
  | nil =>
    have htype : tagType m' a = tagType m a := (hm.mono (region_mono a (by decide))).read32
    have hsize : tagSize m' a = tagSize m a := (hm.mono (region_subset a (by decide))).read32
    exact ⟨htype.trans h.1, hsize.trans h.2⟩
  | cons t ts ih =>
    rw [List.forall_mem_cons] at hwf
    rw [tagsLength_cons] at hm
    have hnat := toNat_ofNat_le t.padded
    have hsize := t.size_le_padded
    refine ⟨h.1.congr hwf.1 (hm.mono (region_mono a (by omega))), ?_⟩
    exact ih hwf.2 h.2 (hm.mono (region_subset a (by omega)))

theorem lastMmap_cons (t : Tag) (ts : List Tag) :
    lastMmap (t :: ts) = (lastMmap ts).or t.entries? := by
  unfold lastMmap
  rw [List.filterMap_cons]
  cases t.entries? with
  | none => exact Option.or_none.symm
  | some es =>
    dsimp only
    rw [List.getLast?_cons]
    cases List.getLast? (ts.filterMap Tag.entries?) <;> rfl

/-! ## The stride -/

theorem and_not7 (x : BitVec 32) : x &&& ~~~7#32 = (x >>> 3) <<< 3 := by
  apply BitVec.eq_of_getLsbD_eq
  intro i hi
  rw [show ~~~7#32 = BitVec.allOnes 32 <<< 3 by decide, BitVec.getLsbD_and,
    BitVec.getLsbD_shiftLeft, BitVec.getLsbD_shiftLeft, BitVec.getLsbD_ushiftRight,
    BitVec.getLsbD_allOnes]
  by_cases h : i < 3
  · rw [decide_eq_true h]
    simp
  · rw [decide_eq_false h, decide_eq_true hi, show 3 + (i - 3) = i by omega,
      decide_eq_true (show i - 3 < 32 by omega)]
    simp

/-- The step is the padded size. -/
theorem nextTag_eq (hsize : (tagSize m a).toNat = t.size) (hlt : t.padded < 2 ^ 32) :
    nextTag m a = a + BitVec.ofNat 64 t.padded := by
  unfold nextTag
  apply congrArg
  apply BitVec.eq_of_toNat_eq
  unfold Tag.padded at *
  have hsum : (tagSize m a + 7#32).toNat = t.size + 7 := by
    rw [BitVec.toNat_add, hsize]
    change (t.size + 7) % _ = _
    omega
  rw [BitVec.toNat_setWidth, and_not7, BitVec.toNat_shiftLeft, BitVec.toNat_ushiftRight, hsum,
    Nat.shiftLeft_eq, Nat.shiftRight_eq_div_pow, BitVec.toNat_ofNat]
  omega

/-! ## The walk -/

theorem E820Is.congr {es : List E820} (h : E820Is g es m) (hlen : es.length ≤ 32)
    (hm : Mem.AgreeOn (Region g 656) m' m) : E820Is g es m' := by
  have hnum : e820Num m' g = e820Num m g := (hm.mono (region_subset g (by decide))).read64
  have havail : e820AvailableSize m' g = e820AvailableSize m g :=
    (hm.mono (region_subset g (by decide))).read64
  refine ⟨?_, ?_, ?_⟩
  · rw [← h.list]
    unfold e820List
    rw [hnum]
    apply List.map_congr_left
    intro j hj
    rw [List.mem_range, h.num] at hj
    exact readE820_congr (hm.mono (slot_subset g (by unfold sizeofE820; omega)))
  · rw [hnum]
    exact h.num
  · rw [havail]
    exact h.available

/-- What the walk leaves in `gmdsc`: the last memory map, or what was there. -/
structure Parsed (g : BitVec 64) (ts : List Tag) (m m' : Mem) : Prop where
  none : lastMmap ts = none → Mem.AgreeOn (Region g 656) m' m
  some : ∀ es, lastMmap ts = some es → E820Is g es m'
  frame : ∀ x, x ∉ Region g 656 → m' x = m x

/-- Memory outside `gmdsc`, such as the tags that follow, is still there. -/
theorem Parsed.agreeOn (h : Parsed g ts m m') {s : Set (BitVec 64)}
    (hapart : Disjoint (Region g sizeofGmdsc) s) : Mem.AgreeOn s m' m := by
  intro x hx
  apply h.frame
  intro hg
  exact Set.disjoint_left.mp hapart (region_mono g (by decide) hg) hx

/-- A tag, and then some more. -/
theorem Parsed.cons {m₁ : Mem} (h₁ : Parsed g [t] m m₁) (h₂ : Parsed g ts m₁ m')
    (hlen : ∀ es, t.entries? = Option.some es → es.length ≤ 32) : Parsed g (t :: ts) m m' := by
  have hone : lastMmap [t] = t.entries? := by
    rw [lastMmap_cons]
    rfl
  refine ⟨?_, ?_, ?_⟩
  · intro h
    rw [lastMmap_cons, Option.or_eq_none_iff] at h
    exact (h₂.none h.1).trans (h₁.none (hone.trans h.2))
  · intro es h
    rw [lastMmap_cons] at h
    cases hlast : lastMmap ts with
    | none =>
      rw [hlast, Option.none_or] at h
      exact (h₁.some es (hone.trans h)).congr (hlen es h) (h₂.none hlast)
    | some es' =>
      rw [hlast, Option.some_or] at h
      rw [← Option.some.inj h]
      exact h₂.some es' hlast
  · intro x hx
    rw [h₂.frame x hx, h₁.frame x hx]

/-- The tag at hand: a memory map is copied, any other tag changes nothing. -/
theorem handle_tag {rounds : ℕ} (hr : 32 ≤ rounds) (hwf : t.Wf)
    (hlen : ∀ es, t.entries? = some es → es.length ≤ 32) (hat : t.At m a)
    (hfits : a.toNat + t.size < 2 ^ 64)
    (hapart : Disjoint (Region g sizeofGmdsc) (Region a t.size)) :
    ∃ m₁, (if tagType m a = tagTypeMmap then initMemoryTag rounds g a m else some m) = some m₁ ∧
      Parsed g [t] m m₁ := by
  cases t with
  | mmap entrySize entries =>
    have hle := hlen entries rfl
    obtain ⟨m₁, hm₁, hspec, hframe⟩ :=
      initMemoryTag_spec ⟨hat, hwf, hfits, hapart⟩ hle (by omega : entries.length ≤ rounds)
    refine ⟨m₁, ?_, ?_, ?_, hframe⟩
    · have htype : tagType m a = tagTypeMmap := hat.type
      rw [if_pos htype]
      exact hm₁
    · intro h
      cases h
    · intro es h
      cases h
      exact hspec
  | other type size =>
    refine ⟨m, ?_, ?_, ?_, fun _ _ => rfl⟩
    · rw [if_neg]
      rw [hat.type]
      exact hwf.2.1
    · intro _
      exact Mem.AgreeOn.refl _ _
    · intro es h
      cases h

theorem parseTags_spec {rounds : ℕ} (hr : 32 ≤ rounds) {fuel : ℕ} (hfuel : ts.length < fuel)
    (hwf : ∀ t ∈ ts, t.Wf) (hlen : ∀ t ∈ ts, ∀ es, t.entries? = some es → es.length ≤ 32)
    (hat : TagsAt m a ts) (hfits : a.toNat + tagsLength ts ≤ 2 ^ 64)
    (hlt : tagsLength ts < 2 ^ 32)
    (hapart : Disjoint (Region g sizeofGmdsc) (Region a (tagsLength ts))) :
    ∃ m', parseTags rounds g fuel a m = some (tagAddrs a ts, m') ∧ Parsed g ts m m' := by
  induction ts generalizing a m fuel with
  | nil =>
    obtain ⟨n, rfl⟩ := Nat.exists_eq_succ_of_ne_zero (show fuel ≠ 0 by omega)
    refine ⟨m, ?_, fun _ => Mem.AgreeOn.refl _ _, ?_, fun _ _ => rfl⟩
    · unfold parseTags
      rw [if_pos hat.1]
      rfl
    · intro es h
      cases h
  | cons t ts ih =>
    obtain ⟨n, rfl⟩ := Nat.exists_eq_succ_of_ne_zero (show fuel ≠ 0 by omega)
    rw [List.length_cons] at hfuel
    rw [List.forall_mem_cons] at hwf hlen
    rw [tagsLength_cons] at hfits hlt hapart
    have hpad := t.size_le_padded
    have hrest8 := tagsLength_pos ts
    obtain ⟨m₁, hm₁, hp₁⟩ := handle_tag hr hwf.1 hlen.1 hat.1 (by omega)
      (hapart.mono_right (region_mono a (by omega)))
    have hagree := hp₁.agreeOn hapart
    have hnat := toNat_ofNat_le t.padded
    have hsub : Region (a + BitVec.ofNat 64 t.padded) (tagsLength ts) ⊆
        Region a (t.padded + tagsLength ts) := region_subset a (by omega)
    have hnext : nextTag m₁ a = a + BitVec.ofNat 64 t.padded := by
      have hat₁ := hat.1.congr hwf.1 (hagree.mono (region_mono a (by omega)))
      exact nextTag_eq hat₁.size (by omega)
    have hfits' : (a + BitVec.ofNat 64 t.padded).toNat + tagsLength ts ≤ 2 ^ 64 := by
      rw [BitVec.toNat_add, BitVec.toNat_ofNat]
      omega
    obtain ⟨m₂, hm₂, hp₂⟩ := ih (Nat.succ_lt_succ_iff.mp hfuel) hwf.2 hlen.2
      (hat.2.congr hwf.2 (hagree.mono hsub)) hfits' (by omega) (hapart.mono_right hsub)
    have hend : tagType m a ≠ tagTypeEnd := by
      rw [hat.1.type]
      exact hwf.1.not_end
    refine ⟨m₂, ?_, hp₁.cons hp₂ hlen.1⟩
    unfold parseTags
    rw [if_neg hend, hm₁, Option.bind_some, hnext, hm₂]
    rfl

/-- The start of `init_memory` (`Mm.Boot.state`) is what the walk leaves: its map and its number
    of available entries are those that `gmdsc` holds. -/
theorem Parsed.boot (h : Parsed g ts m m') (b : Mm.Boot)
    (hlast : lastMmap ts = Option.some b.e820) :
    b.state.gmdsc.e820 = e820List m' g ∧
      b.state.gmdsc.e820AvailableSize = e820AvailableSize m' g := by
  have hmap := h.some b.e820 hlast
  refine ⟨hmap.list.symm, BitVec.eq_of_toNat_eq ?_⟩
  rw [hmap.available]
  change (BitVec.ofNat 64 (b.e820.countP _)).toNat = _
  rw [BitVec.toNat_ofNat]
  have hcount := List.countP_le_length (p := fun e : E820 => decide (e.type = e820TypeAvailable))
    (l := b.e820)
  have := b.e820_le
  exact Nat.mod_eq_of_lt (by omega)

/-- The walk from the first tag on. -/
theorem InfoAt.parse {rounds fuel : ℕ} (h : InfoAt m info ts) (hr : 32 ≤ rounds)
    (hfuel : ts.length < fuel) (hwf : ∀ t ∈ ts, t.Wf)
    (hlen : ∀ t ∈ ts, ∀ es, t.entries? = some es → es.length ≤ 32)
    (hapart : Disjoint (Region g sizeofGmdsc) (Region info (8 + tagsLength ts))) :
    ∃ m₂, parseSysInfo rounds fuel g info m = some (tagAddrs (info + 8#64) ts, m₂) ∧
      Parsed g ts m m₂ := by
  have hfits := h.fits
  have htotal := h.total
  have hlt := (m.read32 info).isLt
  have hpos := tagsLength_pos ts
  have hinfo : (info + 8#64).toNat = info.toNat + 8 := by
    rw [BitVec.toNat_add]
    change (info.toNat + 8) % _ = _
    omega
  apply parseTags_spec hr hfuel hwf hlen h.tags
  · omega
  · omega
  · exact hapart.mono_right (region_subset info (by change 8 + _ ≤ _; omega))

/-- **Parsing undoes encoding.** On every well-formed information outside `gmdsc` whose memory
    maps have at most 32 entries, `parse_sys_info` returns behind the END tag, having visited
    exactly the tags, in order. Afterwards `gmdsc` holds the entries of the last memory map, in
    order, and the number of available ones; without a memory map it is as it was. -/
theorem parseSysInfo_undoes (rounds fuel : ℕ) (g info : BitVec 64) (ts : List Tag) (m : Mem)
    (hr : 32 ≤ rounds) (hfuel : ts.length < fuel) (h : InfoAt m info ts)
    (hwf : ∀ t ∈ ts, t.Wf) (hlen : ∀ t ∈ ts, ∀ es, t.entries? = some es → es.length ≤ 32)
    (hapart : Disjoint (Region g sizeofGmdsc) (Region info (8 + tagsLength ts))) :
    ∃ m', parseSysInfo rounds fuel g info m = some (tagAddrs (info + 8#64) ts, m') ∧
      Parsed g ts m m' :=
  h.parse hr hfuel hwf hlen hapart

/-- An information at 0x1000: a command line of 14 bytes, padded to 16, and a memory map with two
    available entries around a reserved one. -/
def quietInfo : Mem := fun x =>
  if x = 0x1000#64 then 0x78#8
  else if x = 0x1008#64 then 1#8
  else if x = 0x100c#64 then 14#8
  else if x = 0x1010#64 then 0x71#8
  else if x = 0x1011#64 then 0x75#8
  else if x = 0x1012#64 then 0x69#8
  else if x = 0x1013#64 then 0x65#8
  else if x = 0x1014#64 then 0x74#8
  else if x = 0x1018#64 then 6#8
  else if x = 0x101c#64 then 0x58#8
  else if x = 0x1020#64 then 24#8
  else if x = 0x1031#64 then 0xfc#8
  else if x = 0x1032#64 then 9#8
  else if x = 0x1038#64 then 1#8
  else if x = 0x1041#64 then 0xfc#8
  else if x = 0x1042#64 then 9#8
  else if x = 0x1049#64 then 4#8
  else if x = 0x1050#64 then 2#8
  else if x = 0x105a#64 then 0x10#8
  else if x = 0x1062#64 then 0xee#8
  else if x = 0x1063#64 then 7#8
  else if x = 0x1068#64 then 1#8
  else if x = 0x1074#64 then 8#8
  else 0#8

def quietMap : List E820 :=
  [⟨0#64, 0x9fc00#64, 1#32⟩, ⟨0x9fc00#64, 0x400#64, 2#32⟩, ⟨0x100000#64, 0x7ee0000#64, 1#32⟩]

theorem quietInfo_at : InfoAt quietInfo 0x1000#64 [.other 1#32 14, .mmap 24 quietMap] := by
  have hline : (Tag.other 1#32 14).At quietInfo 0x1008#64 :=
    ⟨by decide, by decide, (nomatch ·, ·, ·), (nomatch ·, ·, ·)⟩
  have hmap : (Tag.mmap 24 quietMap).At quietInfo 0x1018#64 := by
    refine ⟨by decide, by decide, ?_, ?_⟩
    · intro n es he
      obtain ⟨rfl, rfl⟩ := Tag.mmap.inj he
      decide
    · intro n es he
      obtain ⟨rfl, rfl⟩ := Tag.mmap.inj he
      change ∀ j (h : j < 3), readEntry quietInfo (0x1018#64 + BitVec.ofNat 64 (16 + j * 24)) =
        quietMap.get ⟨j, h⟩
      decide
  exact ⟨by decide, by decide, by decide, hline, hmap, by decide, by decide⟩

theorem parseSysInfo_quiet : ∃ m', parseSysInfo 32 3 0x2000#64 0x1000#64 quietInfo =
      some ([0x1008#64, 0x1018#64], m') ∧
    e820List m' 0x2000#64 = quietMap ∧ (e820AvailableSize m' 0x2000#64).toNat = 2 := by
  have hwf : ∀ t ∈ [Tag.other 1#32 14, Tag.mmap 24 quietMap], t.Wf := by
    intro t ht
    rcases List.mem_pair.mp ht with rfl | rfl
    · exact ⟨by decide, by decide, by decide⟩
    · exact le_refl 24
  have hlen : ∀ t ∈ [Tag.other 1#32 14, Tag.mmap 24 quietMap], ∀ es, t.entries? = some es →
      es.length ≤ 32 := by
    intro t ht es hes
    rcases List.mem_pair.mp ht with rfl | rfl
    · cases hes
    · cases hes
      decide
  have hapart : Disjoint (Region 0x2000#64 sizeofGmdsc)
      (Region 0x1000#64 (8 + tagsLength [.other 1#32 14, .mmap 24 quietMap])) :=
    (disjoint_of_le (by decide) (by decide)).symm
  obtain ⟨m', hm', hparsed⟩ := parseSysInfo_undoes 32 3 0x2000#64 0x1000#64
    [.other 1#32 14, .mmap 24 quietMap] quietInfo (by omega) (by decide) quietInfo_at hwf hlen
    hapart
  have hmap := hparsed.some _ rfl
  exact ⟨m', hm', hmap.list, hmap.available.trans (by decide)⟩

end HelloOS.Boot
