import Tvmm.Machine

/-!
# `e820.c`: the memory map of the machine

`setupMemoryRegion` reads the Multiboot memory map into an `E820Map`, through
the identity mapping of the first 1 GB.  `getNrPages` and `getMaxPfn` go over
the entries.  An `E820Map` has at most `E820_MAX_ENTRIES` entries, since
`addMemoryRegion` stops when there is no room for one more.
-/

namespace Tvmm

open Exec

def E820_MAX_ENTRIES : Nat := 128

/-- `enum e820_type` -/
def E820_RAM : UInt32 := 1

/-- `struct e820_entry` -/
structure E820Entry where
  /-- start of memory segment -/
  addr : UInt64
  /-- size of memory segment -/
  size : UInt64
  /-- type of memory segment -/
  type : UInt32
  deriving DecidableEq, Repr

/-- `struct e820_map`: the first `nr_map` elements of the array `map`. -/
structure E820Map where
  map : List E820Entry
  length_le : map.length ≤ E820_MAX_ENTRIES

/-- `add_memory_region` -/
def addMemoryRegion (e820 : E820Map) (start size : UInt64) (type : UInt32) :
    M E820Map :=
  if h : e820.map.length ≥ E820_MAX_ENTRIES then
    fatalFailure "Too many entries in the memory map.\n"
  else
    pure
      { map := e820.map ++ [{ addr := start, size := size, type := type }]
        length_le := by
          rw [List.length_append, List.length_singleton]
          omega }

/-! `struct multiboot_info` and `struct memory_map` are read at these
offsets. -/

def MBI_CMDLINE : UInt32 := (1 : UInt32) <<< 2
def MBI_MODULES : UInt32 := (1 : UInt32) <<< 3
def MBI_MEMMAP : UInt32 := (1 : UInt32) <<< 6

def mbiFlags (mbi : UInt64) : M UInt32 := load32 mbi
def mbiModsCount (mbi : UInt64) : M UInt32 := load32 (mbi + 20)
def mbiModsAddr (mbi : UInt64) : M UInt32 := load32 (mbi + 24)
def mbiMmapLength (mbi : UInt64) : M UInt32 := load32 (mbi + 44)
def mbiMmapAddr (mbi : UInt64) : M UInt32 := load32 (mbi + 48)

/-- The fields of the record at `mmap`, in the order in which they are read. -/
def readEntryVia (load : UInt64 → M UInt32) (mmap : UInt64) : M E820Entry := do
  let baseAddrHigh ← load (mmap + 8)
  let baseAddrLow ← load (mmap + 4)
  let start := baseAddrHigh.toUInt64 <<< 32 ||| baseAddrLow.toUInt64
  let lengthHigh ← load (mmap + 16)
  let lengthLow ← load (mmap + 12)
  let size := lengthHigh.toUInt64 <<< 32 ||| lengthLow.toUInt64
  let type ← load (mmap + 20)
  return { addr := start, size := size, type := type }

section Loop

variable {μ : Type} (fields records : UInt64 → M UInt32)
  (add : μ → UInt64 → UInt64 → UInt32 → M μ) (mbi : UInt64)

/-- One turn of the loop in `setup_memory_region`, over the position `p` and a map of any
kind.  The fields of `*mbi` are loaded by `fields`, and those of a record by `records`. -/
def readRecordWith (turn : UInt64 × μ) : M ((UInt64 × μ) ⊕ μ) := do
  let (p, e820) := turn
  let mmapLength ← fields (mbi + 44)
  if p < mmapLength.toUInt64 then do
    let mmapAddr ← fields (mbi + 48)
    let mmap := mmapAddr.toUInt64 + p
    let entry ← readEntryVia records mmap
    let e820 ← add e820 entry.addr entry.size entry.type
    -- size + sizeof ( size ) is an unsigned long
    let recordSize ← records mmap
    pure (.inl (p + (recordSize.toUInt64 + 4), e820))
  else
    pure (.inr e820)

/-- `setup_memory_region` with these loads, starting with the empty map `e820`.  It is given
up as endless after `turns` evaluations of the condition of its loop. -/
def setupMemoryRegionWith (turns : Nat) (e820 : μ) : M μ := do
  let flags ← fields mbi
  if flags &&& MBI_MEMMAP = 0 then
    fatalFailure "Bootloader provided no memory information.\n"
  else
    loop .hang (readRecordWith fields records add mbi) turns (0, e820)

end Loop

/-- `setup_memory_region` -/
def setupMemoryRegion (mbi : UInt64) : M E820Map :=
  setupMemoryRegionWith load32 load32 addMemoryRegion mbi LONG_FUEL
    { map := [], length_le := Nat.zero_le _ }

/-- `get_nr_pages` -/
def getNrPages (e820 : E820Map) : UInt64 :=
  e820.map.foldl (fun n p =>
    if p.type ≠ E820_RAM then n else n + (p.size >>> PAGE_SHIFT)) 0

/-- `get_max_pfn` -/
def getMaxPfn (e820 : E820Map) : UInt64 :=
  e820.map.foldl (fun n p =>
    if p.type ≠ E820_RAM then n
    else
      let start := PFN_UP p.addr
      let e := PFN_DOWN (p.addr + p.size)
      if start < e ∧ e > n then e else n) 0

/-! ## Ranges of entries -/

namespace E820Entry

/-- The entry is RAM. -/
def IsRam (p : E820Entry) : Prop := p.type = E820_RAM

/-- The entry ends below the top of the address space. -/
def NoWrap (p : E820Entry) : Prop :=
  p.addr.toNat + p.size.toNat ≤ 2 ^ 64 - 4096

instance (p : E820Entry) : Decidable p.NoWrap :=
  inferInstanceAs (Decidable (_ ≤ _))

/-- The first address after the entry. -/
def stop (p : E820Entry) : Nat := p.addr.toNat + p.size.toNat

theorem NoWrap.toNat_add {p : E820Entry} (h : p.NoWrap) :
    (p.addr + p.size).toNat = p.stop := by
  unfold NoWrap at h
  rw [UInt64.toNat_add, stop, Nat.mod_eq_of_lt (by omega)]

end E820Entry

/-- A frame number is the top bits of an address. -/
theorem getMaxPfn_lt (e820 : E820Map) : (getMaxPfn e820).toNat < 2 ^ 52 := by
  suffices key : ∀ (l : List E820Entry) (n : UInt64), n.toNat < 2 ^ 52 →
      (l.foldl (fun n p =>
        if p.type ≠ E820_RAM then n
        else
          let start := PFN_UP p.addr
          let e := PFN_DOWN (p.addr + p.size)
          if start < e ∧ e > n then e else n) n).toNat < 2 ^ 52 by
    exact key e820.map 0 (by decide)
  intro l
  induction l with
  | nil =>
    intro n hn
    exact hn
  | cons p l ih =>
    intro n hn
    apply ih
    dsimp only
    split_ifs
    · exact hn
    · rw [toNat_PFN_DOWN]
      have := (p.addr + p.size).toNat_lt
      omega
    · exact hn

end Tvmm
