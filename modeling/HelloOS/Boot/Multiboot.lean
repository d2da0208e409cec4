/-
  Boot information (`kernel/kernel.c`, `include/multiboot2.h`): `parse_sys_info` walks the
  tags of a Multiboot2 information and hands every memory map to `_init_memory`, which
  copies its entries to `gmdsc.e820`.

  Both work on one memory: the information is read from it, and `gmdsc`, a struct at some
  address of it, is written to. The loops take fuel, the number of rounds they may make. What
  `kprintf` writes to the screen is left out.
-/
import HelloOS.Lib.Memory
import HelloOS.Mm.Basic

namespace HelloOS.Boot

open HelloOS.Lib HelloOS.Mm

/-! ## `gmdsc` in memory -/

/-- `sizeof(E820_t)`; the struct is packed. -/
def sizeofE820 : ℕ := 20

/-- Offset of `e820_num` in `global_mm_descriptor_t`, behind the 32 entries of `e820`. -/
def offE820Num : ℕ := 640

/-- Offset of `e820_available_size`. -/
def offE820AvailableSize : ℕ := 648

/-- `sizeof(global_mm_descriptor_t)`. -/
def sizeofGmdsc : ℕ := 832

/-- The address of `gmdsc.e820[i]`, for `gmdsc` at `g`. -/
def e820Addr (g : BitVec 64) (i : ℕ) : BitVec 64 := g + BitVec.ofNat 64 (sizeofE820 * i)

def readE820 (m : Mem) (g : BitVec 64) (i : ℕ) : E820 where
  addr := m.read64 (e820Addr g i)
  len := m.read64 (e820Addr g i + 8#64)
  type := m.read32 (e820Addr g i + 16#64)

def writeE820 (m : Mem) (g : BitVec 64) (i : ℕ) (e : E820) : Mem :=
  ((m.write64 (e820Addr g i) e.addr).write64 (e820Addr g i + 8#64) e.len).write32
    (e820Addr g i + 16#64) e.type

def e820Num (m : Mem) (g : BitVec 64) : BitVec 64 := m.read64 (g + BitVec.ofNat 64 offE820Num)

def e820AvailableSize (m : Mem) (g : BitVec 64) : BitVec 64 :=
  m.read64 (g + BitVec.ofNat 64 offE820AvailableSize)

/-- `gmdsc.e820[0 .. e820_num)`. -/
def e820List (m : Mem) (g : BitVec 64) : List E820 :=
  (List.range (e820Num m g).toNat).map (readE820 m g)

/-! ## `_init_memory` -/

/-- `tag->type` and `tag->size`. -/
def tagType (m : Mem) (tag : BitVec 64) : BitVec 32 := m.read32 tag

def tagSize (m : Mem) (tag : BitVec 64) : BitVec 32 := m.read32 (tag + 4#64)

/-- `mmap->entry_size`. -/
def mmapEntrySize (m : Mem) (tag : BitVec 64) : BitVec 32 := m.read32 (tag + 8#64)

/-- `*entry`, a `struct multiboot_mmap_entry`. -/
def readEntry (m : Mem) (entry : BitVec 64) : E820 where
  addr := m.read64 entry
  len := m.read64 (entry + 8#64)
  type := m.read32 (entry + 16#64)

/-- The variables of the copying loop; `stored` lists the indices of `e820` stored to. -/
structure Copy where
  entry : BitVec 64
  i : BitVec 32
  available : BitVec 32
  mem : Mem
  stored : List ℕ

/-- `(uint8_t*)entry < (uint8_t*)mmap + mmap->size`. -/
def Copy.More (tag : BitVec 64) (s : Copy) : Prop :=
  s.entry < tag + (tagSize s.mem tag).setWidth 64

instance (tag : BitVec 64) (s : Copy) : Decidable (s.More tag) := by
  unfold Copy.More
  infer_instance

/-- One round. The three fields are copied one after another, and the type that decides is
    the one read back from `gmdsc`. -/
def Copy.next (g tag : BitVec 64) (s : Copy) : Copy :=
  let i := s.i.toNat
  let m := s.mem.write64 (e820Addr g i) (s.mem.read64 s.entry)
  let m := m.write64 (e820Addr g i + 8#64) (m.read64 (s.entry + 8#64))
  let m := m.write32 (e820Addr g i + 16#64) (m.read32 (s.entry + 16#64))
  { entry := s.entry + (mmapEntrySize m tag).setWidth 64
    i := s.i + 1#32
    available :=
      if (readE820 m g i).type = e820TypeAvailable then s.available + 1#32 else s.available
    mem := m
    stored := s.stored ++ [i] }

/-- The loop, for at most `fuel` rounds. -/
def copy (g tag : BitVec 64) : ℕ → Copy → Copy
  | 0, s => s
  | fuel + 1, s => if s.More tag then copy g tag fuel (s.next g tag) else s

/-- The state before the loop: `entry = mmap->entries`. -/
def copyStart (tag : BitVec 64) (m : Mem) : Copy := ⟨tag + 16#64, 0#32, 0#32, m, []⟩

/-- `_init_memory(tag)`. -/
def initMemoryTag (fuel : ℕ) (g tag : BitVec 64) (m : Mem) : Option Mem :=
  let s := copy g tag fuel (copyStart tag m)
  if s.More tag then none
  else
    let m := s.mem.write64 (g + BitVec.ofNat 64 offE820Num) (s.i.setWidth 64)
    some (m.write64 (g + BitVec.ofNat 64 offE820AvailableSize) (s.available.setWidth 64))

/-! ## `parse_sys_info` -/

/-- `MULTIBOOT_TAG_TYPE_END`. -/
def tagTypeEnd : BitVec 32 := 0#32

/-- `MULTIBOOT_TAG_TYPE_MMAP`. -/
def tagTypeMmap : BitVec 32 := 6#32

/-- `(uint8_t *)tag + ((tag->size + 7) & ~7)`. -/
def nextTag (m : Mem) (tag : BitVec 64) : BitVec 64 :=
  tag + ((tagSize m tag + 7#32) &&& ~~~7#32).setWidth 64

/-- The loop over the tags: the tags visited before the END tag, and the memory behind it. -/
def parseTags (rounds : ℕ) (g : BitVec 64) : ℕ → BitVec 64 → Mem → Option (List (BitVec 64) × Mem)
  | 0, _, _ => none
  | fuel + 1, tag, m =>
    if tagType m tag = tagTypeEnd then some ([], m)
    else
      (if tagType m tag = tagTypeMmap then initMemoryTag rounds g tag m else some m).bind fun m =>
        (parseTags rounds g fuel (nextTag m tag) m).map fun r => (tag :: r.1, r.2)

/-- `parse_sys_info(mb2_info_addr)`: the first tag lies behind the 8 bytes of the header. -/
def parseSysInfo (rounds fuel : ℕ) (g info : BitVec 64) (m : Mem) :
    Option (List (BitVec 64) × Mem) :=
  parseTags rounds g fuel (info + 8#64) m

/-! ## The format -/

/-- A tag: a memory map with the size of its entries, or any other with its type and size. -/
inductive Tag
  | mmap (entrySize : ℕ) (entries : List E820)
  | other (type : BitVec 32) (size : ℕ)

namespace Tag

def type : Tag → BitVec 32
  | mmap _ _ => tagTypeMmap
  | other type _ => type

def size : Tag → ℕ
  | mmap entrySize entries => 16 + entries.length * entrySize
  | other _ size => size

/-- The size with the padding to the next tag. -/
def padded (t : Tag) : ℕ := 8 * ((t.size + 7) / 8)

/-- Entries of 24 bytes or more; other tags are neither END nor a memory map and have room for
    their header. -/
def Wf : Tag → Prop
  | mmap entrySize _ => 24 ≤ entrySize
  | other type size => type ≠ tagTypeEnd ∧ type ≠ tagTypeMmap ∧ 8 ≤ size

/-- The entries of a memory map, `none` for other tags. -/
def entries? : Tag → Option (List E820)
  | mmap _ entries => some entries
  | other _ _ => none

/-- The tag lies at `a`. What its unused bytes hold is left open. -/
structure At (m : Mem) (a : BitVec 64) (t : Tag) : Prop where
  type : tagType m a = t.type
  size : (tagSize m a).toNat = t.size
  entrySize : ∀ n es, t = mmap n es → (mmapEntrySize m a).toNat = n
  entries : ∀ n es, t = mmap n es → ∀ j (h : j < es.length),
    readEntry m (a + BitVec.ofNat 64 (16 + j * n)) = es.get ⟨j, h⟩

end Tag

/-- Length of a list of tags with the END tag behind it. -/
def tagsLength (ts : List Tag) : ℕ := (ts.map Tag.padded).sum + 8

/-- The tags lie at `a`, one behind the other, and the END tag behind them. -/
def TagsAt (m : Mem) : BitVec 64 → List Tag → Prop
  | a, [] => tagType m a = tagTypeEnd ∧ tagSize m a = 8#32
  | a, t :: ts => t.At m a ∧ TagsAt m (a + BitVec.ofNat 64 t.padded) ts

/-- Where the tags start. -/
def tagAddrs : BitVec 64 → List Tag → List (BitVec 64)
  | _, [] => []
  | a, t :: ts => a :: tagAddrs (a + BitVec.ofNat 64 t.padded) ts

/-- The entries of the last memory map. -/
def lastMmap (ts : List Tag) : Option (List E820) := (ts.filterMap Tag.entries?).getLast?

/-- A Multiboot2 information at an 8-byte aligned address: a fixed header of 8 bytes, whose
    first word is the total size, and the tags. -/
structure InfoAt (m : Mem) (info : BitVec 64) (ts : List Tag) : Prop where
  aligned : info.toNat % 8 = 0
  total : (m.read32 info).toNat = 8 + tagsLength ts
  fits : info.toNat + (8 + tagsLength ts) ≤ 2 ^ 64
  tags : TagsAt m (info + 8#64) ts

end HelloOS.Boot
