/-
  `parse_sys_info` on any information.

  The walk trusts the sizes it finds: it never reads `total_size`, it takes a stride of zero
  like any other, and a memory map's loop ends with its entries only if they have a size. So it
  ends inside the information exactly if every tag it comes to is sound (`TagSound`): the
  measure is the distance to the information's end, which every stride but zero shortens.
-/
import HelloOS.Boot.MapBounds
import HelloOS.Boot.ParseInfo

namespace HelloOS.Boot

open HelloOS.Lib HelloOS.Mm

/-! ## The loads of the walk -/

/-- `total_size`, the first word of the information. -/
def totalSize (m : Mem) (info : BitVec 64) : ℕ := (m.read32 info).toNat

/-- The body of the loop over the tags. -/
def handleTag (rounds : ℕ) (g tag : BitVec 64) (m : Mem) : Option Mem :=
  if tagType m tag = tagTypeMmap then initMemoryTag rounds g tag m else some m

/-- The loads of the loop over the tags (`parseTags`) from the information: the type, in a
    memory map those of `_init_memory`, and the size that leads to the next tag. -/
def tagLoads (rounds : ℕ) (g : BitVec 64) : ℕ → BitVec 64 → Mem → List Load
  | 0, _, _ => []
  | fuel + 1, tag, m =>
    ⟨tag, 4⟩ ::
      if tagType m tag = tagTypeEnd then []
      else
        (if tagType m tag = tagTypeMmap then copyLoads g tag rounds (copyStart tag m) else []) ++
          (handleTag rounds g tag m).elim [] fun m =>
            ⟨tag + 4#64, 4⟩ :: tagLoads rounds g fuel (nextTag m tag) m

/-- `parse_sys_info` returns, and every load it makes on the way, of a tag's header or of an
    entry, lies in `[info, info + total_size)`. -/
def EndsInside (g info : BitVec 64) (m : Mem) : Prop :=
  ∃ rounds fuel, (parseSysInfo rounds fuel g info m).isSome ∧
    ∀ l ∈ tagLoads rounds g fuel (info + 8#64) m, l.Inside info (totalSize m info)

/-! ## The tags of an information -/

/-- The tags that the strides lead to, up to the first END tag. -/
inductive OnChain (m : Mem) (info : BitVec 64) : BitVec 64 → Prop
  | first : OnChain m info (info + 8#64)
  | next {tag : BitVec 64} (h : OnChain m info tag) (hend : tagType m tag ≠ tagTypeEnd) :
    OnChain m info (nextTag m tag)

/-- A memory map with entries says that they have a size, and each that starts in front of the
    tag's end lies below `hi` with the 20 bytes that are copied. -/
structure MapSound (m : Mem) (hi : ℕ) (tag : BitVec 64) : Prop where
  step : 16 < tagBytes m tag → 0 < entryBytes m tag
  entries : ∀ k, 16 + k * entryBytes m tag < tagBytes m tag →
    tag.toNat + (16 + k * entryBytes m tag) + 20 ≤ hi

/-- The tag's header lies below `hi`, of an END tag the type, and the size of any other is one
    that rounding up to 8 in 32 bits does not make zero. -/
structure TagSound (m : Mem) (hi : ℕ) (tag : BitVec 64) : Prop where
  type : tag.toNat + 4 ≤ hi
  size : tagType m tag ≠ tagTypeEnd → tag.toNat + 8 ≤ hi
  stride : tagType m tag ≠ tagTypeEnd → 0 < tagBytes m tag ∧ tagBytes m tag < 2 ^ 32 - 7
  map : tagType m tag = tagTypeMmap → MapSound m hi tag

/-- `gmdsc`, with as many slots for entries as the memory maps have entries, does not overlap
    the information. -/
structure StoresApart (g info : BitVec 64) (m : Mem) : Prop where
  gmdsc : Disjoint (Region g sizeofGmdsc) (Region info (totalSize m info))
  slots : ∀ tag, OnChain m info tag → tagType m tag = tagTypeMmap →
    ∀ k < 2 ^ 32, 16 + k * entryBytes m tag < tagBytes m tag →
      Disjoint (Region (e820Addr g k) 20) (Region info (totalSize m info))

/-- Whatever the information holds, the 32-bit index reaches no further than this. -/
theorem storesApart_of_far {g info : BitVec 64} {m : Mem}
    (h : Disjoint (Region g (20 * 2 ^ 32)) (Region info (totalSize m info))) :
    StoresApart g info m := by
  refine ⟨h.mono_left (region_mono g (by decide)), ?_⟩
  intro tag hon htype k hk hmore
  exact h.mono_left (slot_subset g (by unfold sizeofE820; omega))

section
variable {g info tag : BitVec 64} {m m' m₁ : Mem} {rounds fuel : ℕ}

theorem parseTags_succ (rounds : ℕ) (g : BitVec 64) (fuel : ℕ) (tag : BitVec 64) (m : Mem) :
    parseTags rounds g (fuel + 1) tag m =
      if tagType m tag = tagTypeEnd then some ([], m)
      else (handleTag rounds g tag m).bind fun m =>
        (parseTags rounds g fuel (nextTag m tag) m).map fun r => (tag :: r.1, r.2) := rfl

/-! ## The stride -/

theorem nextTag_toNat (htag : tag.toNat < 2 ^ 48) (hsize : tagBytes m tag < 2 ^ 32 - 7) :
    (nextTag m tag).toNat = tag.toNat + 8 * ((tagBytes m tag + 7) / 8) := by
  have hpad : (Tag.other 0#32 (tagBytes m tag)).padded = 8 * ((tagBytes m tag + 7) / 8) := rfl
  rw [nextTag_eq (t := .other 0#32 (tagBytes m tag)) rfl (by rw [hpad]; omega), hpad,
    BitVec.toNat_add, BitVec.toNat_ofNat]
  omega

/-- Size 0, and a size that wraps when it is rounded up. -/
theorem nextTag_self (h : ¬ (0 < tagBytes m tag ∧ tagBytes m tag < 2 ^ 32 - 7)) :
    nextTag m tag = tag := by
  have hlt := tagBytes_lt m tag
  have hzero : (tagSize m tag + 7#32) &&& ~~~7#32 = 0#32 := by
    rw [and_not7]
    apply BitVec.eq_of_toNat_eq
    rw [BitVec.toNat_shiftLeft, BitVec.toNat_ushiftRight, BitVec.toNat_add,
      Nat.shiftRight_eq_div_pow]
    unfold tagBytes at *
    have hsmall : ((tagSize m tag).toNat + 7) % 2 ^ 32 / 2 ^ 3 = 0 := by omega
    change (((tagSize m tag).toNat + 7) % 2 ^ 32 / 2 ^ 3) <<< 3 % 2 ^ 32 = 0
    rw [hsmall]
    rfl
  unfold nextTag
  rw [hzero]
  exact BitVec.add_zero tag

theorem nextTag_congr {s : Set (BitVec 64)} (hm : Mem.AgreeOn s m' m)
    (hsize : Region (tag + 4#64) 4 ⊆ s) : nextTag m' tag = nextTag m tag := by
  have hread : tagSize m' tag = tagSize m tag := (hm.mono hsize).read32
  unfold nextTag
  rw [hread]

/-! ## One tag -/

theorem handleTag_agreeOn (hapart : StoresApart g info m)
    (hm : Mem.AgreeOn (Region info (totalSize m info)) m' m)
    (hmap : tagType m' tag = tagTypeMmap → MapIn g tag (Region info (totalSize m info)) m)
    (h : handleTag rounds g tag m' = some m₁) :
    Mem.AgreeOn (Region info (totalSize m info)) m₁ m := by
  unfold handleTag at h
  by_cases htype : tagType m' tag = tagTypeMmap
  · rw [if_pos htype] at h
    exact initMemoryTag_agreeOn (hmap htype) hm hapart.gmdsc h
  · rw [if_neg htype] at h
    rw [← Option.some.inj h]
    exact hm

/-- A tag whose stride is zero is never left. -/
theorem parseTags_stuck (hapart : StoresApart g info m)
    (htype : Region tag 4 ⊆ Region info (totalSize m info))
    (hsize : Region (tag + 4#64) 4 ⊆ Region info (totalSize m info))
    (hmap : tagType m tag = tagTypeMmap → MapIn g tag (Region info (totalSize m info)) m)
    (hend : tagType m tag ≠ tagTypeEnd) (hself : nextTag m tag = tag)
    (hm : Mem.AgreeOn (Region info (totalSize m info)) m' m) :
    parseTags rounds g fuel tag m' = none := by
  induction fuel generalizing m' with
  | zero => rfl
  | succ fuel ih =>
    have hread : tagType m' tag = tagType m tag := (hm.mono htype).read32
    rw [parseTags_succ, hread, if_neg hend]
    cases hhandle : handleTag rounds g tag m' with
    | none => rfl
    | some m₁ =>
      have hm₁ := handleTag_agreeOn hapart hm (fun h => hmap (hread.symm.trans h)) hhandle
      rw [Option.bind_some, nextTag_congr hm₁ hsize, hself, ih hm₁]
      rfl

/-! ## Sound tags end -/

/-- The addresses of the chain do not wrap. -/
theorem OnChain.le (hlow : info.toNat + totalSize m info ≤ 2 ^ 47)
    (hsound : ∀ tag, OnChain m info tag → TagSound m (info.toNat + totalSize m info) tag)
    (h : OnChain m info tag) : info.toNat + 8 ≤ tag.toNat := by
  induction h with
  | first =>
    rw [BitVec.toNat_add]
    change _ ≤ (info.toNat + 8) % 2 ^ 64
    omega
  | next h hend ih =>
    have hs := hsound _ h
    have hsize := hs.size hend
    rw [nextTag_toNat (by omega) (hs.stride hend).2]
    omega

theorem toNat_field (htag : tag.toNat < 2 ^ 48) {c : BitVec 64} (hc : c.toNat < 2 ^ 48) :
    (tag + c).toNat = tag.toNat + c.toNat := by
  rw [BitVec.toNat_add]
  omega

/-- A field of a tag that ends in the information. -/
theorem inside_field {n : ℕ} (hlow : info.toNat + n ≤ 2 ^ 47) (hle : info.toNat ≤ tag.toNat)
    {c : BitVec 64} {k : ℕ} (h : tag.toNat + c.toNat + k ≤ info.toNat + n) :
    (⟨tag + c, k⟩ : Load).Inside info n := by
  have hsum : (tag + c).toNat = tag.toNat + c.toNat := toNat_field (by omega) (by omega)
  refine ⟨?_, ?_⟩
  · change _ ≤ (tag + c).toNat
    omega
  · change (tag + c).toNat + k ≤ _
    omega

theorem TagSound.typeInside {n : ℕ} (hle : info.toNat ≤ tag.toNat)
    (h : TagSound m (info.toNat + n) tag) : (⟨tag, 4⟩ : Load).Inside info n :=
  ⟨hle, h.type⟩

theorem TagSound.sizeInside {n : ℕ} (hlow : info.toNat + n ≤ 2 ^ 47)
    (hle : info.toNat ≤ tag.toNat) (h : TagSound m (info.toNat + n) tag)
    (hend : tagType m tag ≠ tagTypeEnd) : (⟨tag + 4#64, 4⟩ : Load).Inside info n := by
  have hsize := h.size hend
  exact inside_field hlow hle (by change _ + 4 + 4 ≤ _; omega)

theorem MapSound.round {n : ℕ} (hlow : info.toNat + n ≤ 2 ^ 47) (hle : info.toNat ≤ tag.toNat)
    (h : MapSound m (info.toNat + n) tag) {j : ℕ}
    (hj : 16 + j * entryBytes m tag < tagBytes m tag) :
    ∀ l ∈ roundLoads tag (tag + BitVec.ofNat 64 (16 + j * entryBytes m tag)),
      l.Inside info n := by
  have hentry := h.entries j hj
  have hoff : (BitVec.ofNat 64 (16 + j * entryBytes m tag)).toNat =
      16 + j * entryBytes m tag := by
    rw [BitVec.toNat_ofNat]
    omega
  have hsum : (tag + BitVec.ofNat 64 (16 + j * entryBytes m tag)).toNat = _ :=
    toNat_field (by omega) (by omega)
  unfold roundLoads
  iterate 4 rw [List.forall_mem_cons]
  refine ⟨⟨?_, ?_⟩, ?_, ?_, ?_, List.forall_mem_nil _⟩
  · change _ ≤ (tag + _).toNat
    omega
  · change (tag + _).toNat + 8 ≤ _
    omega
  · exact inside_field hlow (by omega) (by change _ + 8 + 8 ≤ _; omega)
  · exact inside_field hlow (by omega) (by change _ + 16 + 4 ≤ _; omega)
  · exact inside_field hlow hle (by change _ + 8 + 4 ≤ _; omega)

theorem TagSound.mapIn (hlow : info.toNat + totalSize m info ≤ 2 ^ 47)
    (hapart : StoresApart g info m) (hon : OnChain m info tag) (hle : info.toNat ≤ tag.toNat)
    (h : TagSound m (info.toNat + totalSize m info) tag) (htype : tagType m tag = tagTypeMmap) :
    MapIn g tag (Region info (totalSize m info)) m := by
  have hend : tagType m tag ≠ tagTypeEnd := by
    rw [htype]
    decide
  have hsize := h.size hend
  have hmap := h.map htype
  refine ⟨by omega, (h.sizeInside hlow hle hend).subset, ?_, hapart.slots tag hon htype⟩
  · intro hpos
    have hentry := hmap.entries 0 (by omega)
    exact (inside_field hlow hle (by change _ + 8 + 4 ≤ _; omega)).subset

/-- A sound tag is left, with the information as it was. -/
theorem TagSound.handled (hr : 2 ^ 32 ≤ rounds) (hapart : StoresApart g info m)
    (hm : Mem.AgreeOn (Region info (totalSize m info)) m' m)
    (hread : tagType m' tag = tagType m tag)
    (hmap : tagType m tag = tagTypeMmap → MapIn g tag (Region info (totalSize m info)) m)
    (h : TagSound m (info.toNat + totalSize m info) tag) :
    ∃ m₁, handleTag rounds g tag m' = some m₁ ∧
      Mem.AgreeOn (Region info (totalSize m info)) m₁ m := by
  have hsome : (handleTag rounds g tag m').isSome := by
    unfold handleTag
    rw [hread]
    by_cases htype : tagType m tag = tagTypeMmap
    · rw [if_pos htype]
      exact initMemoryTag_ends (hmap htype) hm (h.map htype).step hr
    · rw [if_neg htype]
      rfl
  obtain ⟨m₁, hm₁⟩ := Option.isSome_iff_exists.mp hsome
  exact ⟨m₁, hm₁, handleTag_agreeOn hapart hm (fun ht => hmap (hread.symm.trans ht)) hm₁⟩

/-- The walk ends. The induction is on the distance to the end of the information, which the
    next tag is nearer to by at least 8. -/
theorem parseTags_ends (hr : 2 ^ 32 ≤ rounds) (hlow : info.toNat + totalSize m info ≤ 2 ^ 47)
    (hapart : StoresApart g info m)
    (hsound : ∀ tag, OnChain m info tag → TagSound m (info.toNat + totalSize m info) tag)
    {d : ℕ} (hd : info.toNat + totalSize m info - tag.toNat ≤ d) (hon : OnChain m info tag)
    (hm : Mem.AgreeOn (Region info (totalSize m info)) m' m) :
    (parseTags rounds g (d + 1) tag m').isSome := by
  induction d generalizing tag m' with
  | zero =>
    have htype := (hsound tag hon).type
    omega
  | succ d ih =>
    have hs := hsound tag hon
    have hle := hon.le hlow hsound
    have htype := hs.type
    have hread : tagType m' tag = tagType m tag :=
      (hm.mono (hs.typeInside (by omega)).subset).read32
    rw [parseTags_succ, hread]
    by_cases hend : tagType m tag = tagTypeEnd
    · rw [if_pos hend]
      rfl
    · have hsize := hs.sizeInside hlow (by omega) hend
      have hstride := hs.stride hend
      have hnext : (nextTag m tag).toNat = _ := nextTag_toNat (by omega) hstride.2
      obtain ⟨m₁, hhandle, hm₁⟩ := hs.handled hr hapart hm hread
        (hs.mapIn hlow hapart hon (by omega))
      have hrest : (parseTags rounds g (d + 1) (nextTag m tag) m₁).isSome :=
        ih (by omega) (hon.next hend) hm₁
      rw [if_neg hend, hhandle, Option.bind_some, nextTag_congr hm₁ hsize.subset,
        Option.isSome_map]
      exact hrest

theorem tagLoads_inside (hlow : info.toNat + totalSize m info ≤ 2 ^ 47)
    (hapart : StoresApart g info m)
    (hsound : ∀ tag, OnChain m info tag → TagSound m (info.toNat + totalSize m info) tag)
    (hon : OnChain m info tag) (hm : Mem.AgreeOn (Region info (totalSize m info)) m' m) :
    ∀ l ∈ tagLoads rounds g fuel tag m', l.Inside info (totalSize m info) := by
  induction fuel generalizing tag m' with
  | zero => exact List.forall_mem_nil _
  | succ fuel ih =>
    have hs := hsound tag hon
    have hle := hon.le hlow hsound
    have htype := hs.typeInside (by omega)
    have hread : tagType m' tag = tagType m tag := (hm.mono htype.subset).read32
    unfold tagLoads
    rw [List.forall_mem_cons, hread]
    refine ⟨htype, ?_⟩
    by_cases hend : tagType m tag = tagTypeEnd
    · rw [if_pos hend]
      exact List.forall_mem_nil _
    · have hsize := hs.sizeInside hlow (by omega) hend
      have hmap := hs.mapIn hlow hapart hon (by omega)
      rw [if_neg hend, List.forall_mem_append]
      refine ⟨?_, ?_⟩
      · by_cases hmmap : tagType m tag = tagTypeMmap
        · rw [if_pos hmmap]
          exact (copyAt_start hm).loads_of (hmap hmmap) hsize
            (fun j hj => (hs.map hmmap).round hlow (by omega) hj) rounds
        · rw [if_neg hmmap]
          exact List.forall_mem_nil _
      · cases hhandle : handleTag rounds g tag m' with
        | none => exact List.forall_mem_nil _
        | some m₁ =>
          have hm₁ := handleTag_agreeOn hapart hm (fun h => hmap (hread.symm.trans h)) hhandle
          change ∀ l ∈ _ :: _, _
          rw [List.forall_mem_cons, nextTag_congr hm₁ hsize.subset]
          exact ⟨hsize, ih (hon.next hend) hm₁⟩

/-! ## What ends inside is sound -/

/-- The walk from a tag ends, with all its loads in the information. -/
structure WalkInside (rounds : ℕ) (g info : BitVec 64) (n fuel : ℕ) (tag : BitVec 64) (m : Mem) :
    Prop where
  ends : (parseTags rounds g fuel tag m).isSome
  loads : ∀ l ∈ tagLoads rounds g fuel tag m, l.Inside info n

/-- What a walk that ends inside says of its first tag, if that is not an END tag. -/
structure Left (rounds : ℕ) (g info : BitVec 64) (n fuel : ℕ) (tag : BitVec 64) (m m₁ : Mem) :
    Prop where
  handle : handleTag rounds g tag m = some m₁
  size : (⟨tag + 4#64, 4⟩ : Load).Inside info n
  map : tagType m tag = tagTypeMmap →
    ∀ l ∈ copyLoads g tag rounds (copyStart tag m), l.Inside info n
  rest : WalkInside rounds g info n fuel (nextTag m₁ tag) m₁

theorem WalkInside.left {n : ℕ} (h : WalkInside rounds g info n (fuel + 1) tag m')
    (hend : tagType m' tag ≠ tagTypeEnd) : ∃ m₁, Left rounds g info n fuel tag m' m₁ := by
  have hends := h.ends
  have hloads := h.loads
  rw [parseTags_succ, if_neg hend] at hends
  unfold tagLoads at hloads
  rw [List.forall_mem_cons, if_neg hend, List.forall_mem_append] at hloads
  cases hhandle : handleTag rounds g tag m' with
  | none =>
    rw [hhandle] at hends
    cases hends
  | some m₁ =>
    rw [hhandle, Option.bind_some, Option.isSome_map] at hends
    rw [hhandle] at hloads
    obtain ⟨-, hmap, hrest⟩ := hloads
    change ∀ l ∈ _ :: _, _ at hrest
    rw [List.forall_mem_cons] at hrest
    refine ⟨m₁, hhandle, hrest.1, ?_, hends, hrest.2⟩
    intro htype
    rw [if_pos htype] at hmap
    exact hmap

theorem Left.mapIn {n : ℕ} (hlow : info.toNat + totalSize m info ≤ 2 ^ 47)
    (hapart : StoresApart g info m) (hon : OnChain m info tag)
    (hm : Mem.AgreeOn (Region info (totalSize m info)) m' m)
    (hle : tag.toNat + 4 ≤ info.toNat + totalSize m info) (hread : tagType m' tag = tagType m tag)
    (h : Left rounds g info (totalSize m info) n tag m' m₁) (htype : tagType m tag = tagTypeMmap) :
    MapIn g tag (Region info (totalSize m info)) m := by
  refine ⟨by omega, h.size.subset, ?_, hapart.slots tag hon htype⟩
  intro hpos
  have htype' := hread.trans htype
  have hhandle := h.handle
  unfold handleTag at hhandle
  rw [if_pos htype'] at hhandle
  have hload := stepLoad_of_initMemoryTag (by omega) h.size.subset hm
    (Option.isSome_of_eq_some hhandle) hpos
  exact (h.map htype' _ hload).subset

/-- A memory map that was left with all its loads inside. -/
theorem Left.mapSound {n : ℕ} (hlow : info.toNat + totalSize m info ≤ 2 ^ 47)
    (hm : Mem.AgreeOn (Region info (totalSize m info)) m' m)
    (hread : tagType m' tag = tagType m tag)
    (h : Left rounds g info (totalSize m info) n tag m' m₁) (htype : tagType m tag = tagTypeMmap)
    (hmap : MapIn g tag (Region info (totalSize m info)) m) :
    MapSound m (info.toNat + totalSize m info) tag := by
  have htype' := hread.trans htype
  have hhandle := h.handle
  unfold handleTag at hhandle
  rw [if_pos htype'] at hhandle
  obtain ⟨hstep, hrounds⟩ := loads_of_initMemoryTag hmap hm (Option.isSome_of_eq_some hhandle)
  refine ⟨hstep, ?_⟩
  intro k hk
  have hlt := tagBytes_lt m tag
  have htag := hmap.low
  have hoff : (BitVec.ofNat 64 (16 + k * entryBytes m tag)).toNat =
      16 + k * entryBytes m tag := by
    rw [BitVec.toNat_ofNat]
    omega
  have hentry := toNat_field htag (c := BitVec.ofNat 64 (16 + k * entryBytes m tag)) (by omega)
  -- the type is the last of the three fields
  have hload := h.map htype' _ (hrounds k hk
    ⟨tag + BitVec.ofNat 64 (16 + k * entryBytes m tag) + 16#64, 4⟩ (by unfold roundLoads; simp))
  have hlast := hload.2
  change (tag + BitVec.ofNat 64 (16 + k * entryBytes m tag) + 16#64).toNat + 4 ≤ _ at hlast
  rw [BitVec.toNat_add, hentry, hoff] at hlast
  change (_ + 16) % _ + 4 ≤ _ at hlast
  omega

theorem WalkInside.sound (hlow : info.toNat + totalSize m info ≤ 2 ^ 47)
    (hapart : StoresApart g info m) (hon : OnChain m info tag)
    (hm : Mem.AgreeOn (Region info (totalSize m info)) m' m)
    (h : WalkInside rounds g info (totalSize m info) fuel tag m') :
    TagSound m (info.toNat + totalSize m info) tag ∧
      (tagType m tag ≠ tagTypeEnd → ∃ fuel m₁,
        WalkInside rounds g info (totalSize m info) fuel (nextTag m tag) m₁ ∧
          Mem.AgreeOn (Region info (totalSize m info)) m₁ m) := by
  cases fuel with
  | zero =>
    have hends := h.ends
    cases hends
  | succ fuel =>
    have htype : (⟨tag, 4⟩ : Load).Inside info (totalSize m info) :=
      h.loads _ (by unfold tagLoads; exact List.mem_cons_self)
    have hread : tagType m' tag = tagType m tag := (hm.mono htype.subset).read32
    have hle : tag.toNat + 4 ≤ info.toNat + totalSize m info := htype.2
    by_cases hend : tagType m tag = tagTypeEnd
    · refine ⟨⟨hle, fun hne => absurd hend hne, fun hne => absurd hend hne, ?_⟩,
        fun hne => absurd hend hne⟩
      intro hmmap
      rw [hend] at hmmap
      exact absurd hmmap (by decide)
    · obtain ⟨m₁, hleft⟩ := h.left (hread ▸ hend)
      have hsize := hleft.size
      have hmap := hleft.mapIn hlow hapart hon hm hle hread
      have hm₁ := handleTag_agreeOn hapart hm (fun ht => hmap (hread.symm.trans ht)) hleft.handle
      have hrest := hleft.rest
      rw [nextTag_congr hm₁ hsize.subset] at hrest
      refine ⟨⟨hle, ?_, ?_, fun hmmap => hleft.mapSound hlow hm hread hmmap (hmap hmmap)⟩,
        fun _ => ⟨fuel, m₁, hrest, hm₁⟩⟩
      · intro _
        have hlast := hsize.2
        rw [toNat_field (by omega) (by decide)] at hlast
        change _ + 4 + 4 ≤ _ at hlast
        omega
      · intro _
        by_contra hstride
        have hself := nextTag_self hstride
        have hnone : parseTags rounds g fuel tag m₁ = none :=
          parseTags_stuck hapart htype.subset hsize.subset hmap hend hself hm₁
        have hends := hrest.ends
        rw [hself, hnone] at hends
        cases hends

/-- Every tag of the chain is come to. -/
theorem OnChain.walkInside (hlow : info.toNat + totalSize m info ≤ 2 ^ 47)
    (hapart : StoresApart g info m)
    (h : WalkInside rounds g info (totalSize m info) fuel (info + 8#64) m)
    (hon : OnChain m info tag) :
    ∃ fuel m₁, WalkInside rounds g info (totalSize m info) fuel tag m₁ ∧
      Mem.AgreeOn (Region info (totalSize m info)) m₁ m := by
  induction hon with
  | first => exact ⟨fuel, m, h, Mem.AgreeOn.refl m _⟩
  | next hon hend ih =>
    obtain ⟨fuel, m₁, hwalk, hm₁⟩ := ih
    exact (hwalk.sound hlow hapart hon hm₁).2 hend

end

/-- **Untrusted boot information.** For every information below 2^47 that the stores to `gmdsc`
    do not reach, `parse_sys_info` ends and loads tags and entries only inside
    `[info, info + total_size)` exactly if every tag of the chain is sound. -/
theorem endsInside_iff_sound (g info : BitVec 64) (m : Mem)
    (hlow : info.toNat + totalSize m info ≤ 2 ^ 47) (hapart : StoresApart g info m) :
    EndsInside g info m ↔
      ∀ tag, OnChain m info tag → TagSound m (info.toNat + totalSize m info) tag := by
  have hrefl := Mem.AgreeOn.refl m (Region info (totalSize m info))
  constructor
  · rintro ⟨rounds, fuel, hends, hloads⟩ tag hon
    obtain ⟨fuel', m₁, hwalk, hm₁⟩ := hon.walkInside hlow hapart ⟨hends, hloads⟩
    exact (hwalk.sound hlow hapart hon hm₁).1
  · intro hsound
    have hends := parseTags_ends (le_refl _) hlow hapart hsound (le_refl _) .first hrefl
    exact ⟨2 ^ 32, _, hends, tagLoads_inside hlow hapart hsound .first hrefl⟩

/-! ## Informations at 0x1000 -/

/-- An information at 0x1000 with one memory map, of one available entry. -/
def oneMap : Mem := fun x =>
  if x = 0x1000#64 then 56#8
  else if x = 0x1008#64 then 6#8
  else if x = 0x100c#64 then 40#8
  else if x = 0x1010#64 then 24#8
  else if x = 0x1021#64 then 0x10#8
  else if x = 0x1028#64 then 1#8
  else if x = 0x1034#64 then 8#8
  else 0#8

theorem oneMap_onChain {tag : BitVec 64} (h : OnChain oneMap 0x1000#64 tag) :
    tag = 0x1008#64 ∨ tag = 0x1030#64 := by
  induction h with
  | first => exact Or.inl rfl
  | next hon hend ih =>
    rcases ih with rfl | rfl
    · exact Or.inr (by decide)
    · exact absurd (by decide) hend

/-- The information with one memory map, of one entry. -/
theorem endsInside_iff_sound_oneMap : EndsInside 0x2000#64 0x1000#64 oneMap := by
  have htotal : totalSize oneMap 0x1000#64 = 56 := by decide
  have hsize : tagBytes oneMap 0x1008#64 = 40 := by decide
  have hstep : entryBytes oneMap 0x1008#64 = 24 := by decide
  have hapart : StoresApart 0x2000#64 0x1000#64 oneMap := by
    apply storesApart_of_far
    rw [htotal]
    exact (disjoint_of_le (by decide) (by decide)).symm
  refine (endsInside_iff_sound _ _ _ (by rw [htotal]; decide) hapart).mpr ?_
  intro tag hon
  rw [htotal]
  rcases oneMap_onChain hon with rfl | rfl
  · refine ⟨by decide, fun _ => by decide, fun _ => ?_, fun _ => ⟨?_, ?_⟩⟩
    · rw [hsize]
      decide
    · rw [hstep]
      omega
    · intro k hk
      rw [hsize, hstep] at hk
      rw [hstep]
      change 0x1008 + _ + 20 ≤ 0x1000 + 56
      omega
  · refine ⟨by decide, fun h => absurd (by decide) h, fun h => absurd (by decide) h, ?_⟩
    intro h
    exact absurd h (by decide)

/-- An information of 16 bytes: a tag of type 1 and size 0. -/
def sizeZero : Mem := fun x =>
  if x = 0x1000#64 then 16#8
  else if x = 0x1008#64 then 1#8
  else 0#8

/-- Size 0: the walk stays at the tag for ever. -/
theorem not_endsInside_sizeZero :
    totalSize sizeZero 0x1000#64 = 16 ∧ ¬ EndsInside 0x2000#64 0x1000#64 sizeZero := by
  have htotal : totalSize sizeZero 0x1000#64 = 16 := by decide
  refine ⟨htotal, ?_⟩
  rintro ⟨rounds, fuel, hends, hloads⟩
  have hapart : StoresApart 0x2000#64 0x1000#64 sizeZero := by
    apply storesApart_of_far
    rw [htotal]
    exact (disjoint_of_le (by decide) (by decide)).symm
  have hwalk : WalkInside rounds 0x2000#64 0x1000#64 (totalSize sizeZero 0x1000#64) fuel
    (0x1000#64 + 8#64) sizeZero := ⟨hends, hloads⟩
  have hsound := (hwalk.sound (by rw [htotal]; decide) hapart .first (Mem.AgreeOn.refl _ _)).1
  exact absurd (hsound.stride (by decide)).1 (by decide)

end HelloOS.Boot
