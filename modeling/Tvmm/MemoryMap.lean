import Tvmm.E820

/-!
# The Multiboot memory map

The boot loader lays out one record after another: the size of what follows, the
base and the length in two halves each, the type, and padding up to the size.
`setupMemoryRegion_decodes`: from the bytes of a list of records
`setup_memory_region` gets the list back, and stops if it is too long.
-/

namespace Tvmm

open Exec ByteMem

/-- A record of the Multiboot memory map. -/
structure MemoryRecord where
  /-- the size of the record without this field -/
  size : UInt32
  base : UInt64
  length : UInt64
  type : UInt32
  padding : List UInt8
  size_eq : size.toNat = 20 + padding.length

namespace MemoryRecord

/-- The bytes of a record. -/
def bytes (r : MemoryRecord) : List UInt8 :=
  bytesLE 4 r.size.toNat ++ (bytesLE 4 r.base.toNat ++ (bytesLE 4 (r.base.toNat / 2 ^ 32) ++
    (bytesLE 4 r.length.toNat ++ (bytesLE 4 (r.length.toNat / 2 ^ 32) ++
      (bytesLE 4 r.type.toNat ++ r.padding)))))

/-- The entry that a record stands for. -/
def entry (r : MemoryRecord) : E820Entry :=
  { addr := r.base, size := r.length, type := r.type }

/-- The size does not count itself. -/
theorem length_bytes (r : MemoryRecord) : r.bytes.length = r.size.toNat + 4 := by
  have := r.size_eq
  simp only [bytes, List.length_append, length_bytesLE]
  omega

end MemoryRecord

/-- The bytes of a list of records. -/
def encodeRecords (rs : List MemoryRecord) : List UInt8 := rs.flatMap MemoryRecord.bytes

theorem encodeRecords_append (rs rs' : List MemoryRecord) :
    encodeRecords (rs ++ rs') = encodeRecords rs ++ encodeRecords rs' :=
  List.flatMap_append

theorem encodeRecords_cons (r : MemoryRecord) (rs : List MemoryRecord) :
    encodeRecords (r :: rs) = r.bytes ++ encodeRecords rs :=
  List.flatMap_cons

theorem length_le_encodeRecords (rs : List MemoryRecord) :
    24 * rs.length ≤ (encodeRecords rs).length := by
  induction rs with
  | nil => exact Nat.le_refl _
  | cons r rs ih =>
    have hlen := r.length_bytes
    have hsize := r.size_eq
    rw [encodeRecords_cons, List.length_append, List.length_cons]
    omega

/-- The Multiboot information at `mbi` describes the records `rs`, which are laid
out at the physical address `a`. -/
structure HoldsMemoryMap (mbi : UInt64) (rs : List MemoryRecord) (flags len addr : UInt32)
    (a : Nat) (s : State) : Prop where
  mbiFlags : mbiFlags mbi s = .ok (flags, s)
  memmap : flags &&& MBI_MEMMAP ≠ 0
  mbiLength : mbiMmapLength mbi s = .ok (len, s)
  mbiAddr : mbiMmapAddr mbi s = .ok (addr, s)
  length : len.toNat = (encodeRecords rs).length
  mapped : Mapped addr.toUInt64 len.toNat a
  bytes : s.mem.Holds a (encodeRecords rs)

/-- The two halves of a number, put together again. -/
theorem join_halves (x : UInt64) :
    (UInt32.ofNat (x.toNat / 2 ^ 32 % 256 ^ 4)).toUInt64 <<< 32 |||
      (UInt32.ofNat (x.toNat % 256 ^ 4)).toUInt64 = x := by
  have hlt := x.toNat_lt
  rw [← UInt64.toNat_inj, UInt64.toNat_or, UInt64.toNat_shiftLeft, UInt32.toNat_toUInt64,
    UInt32.toNat_toUInt64, UInt32.toNat_ofNat', UInt32.toNat_ofNat',
    show (32 : UInt64).toNat % 64 = 32 from rfl, Nat.shiftLeft_eq,
    Nat.mod_eq_of_lt (a := x.toNat / 2 ^ 32 % 256 ^ 4 % 2 ^ 32 * 2 ^ 32) (by omega),
    ← Nat.shiftLeft_eq, ← Nat.shiftLeft_add_eq_or_of_lt (by omega), Nat.shiftLeft_eq]
  omega

section Decode

variable {mbi : UInt64} {rs : List MemoryRecord} {flags len addr : UInt32} {a : Nat}
  {s : State}

/-- A number that is laid out in the buffer is loaded. -/
theorem HoldsMemoryMap.load (h : HoldsMemoryMap mbi rs flags len addr a s) {p : UInt64}
    {k v : Nat} (hk : p.toNat + k + 4 ≤ len.toNat)
    (hv : s.mem.Holds (a + p.toNat + k) (bytesLE 4 v)) :
    load32 (addr.toUInt64 + p + UInt64.ofNat k) s = .ok (UInt32.ofNat (v % 256 ^ 4), s) := by
  have hmapped := bootTranslate_add (k := p.toNat + k) (j := 4) (h.mapped (by omega)) hk
  refine load32_eq_ok.mpr ⟨rfl, a + (p.toNat + k), ?_, ?_⟩
  · rwa [UInt64.ofNat_add, UInt64.ofNat_toNat, ← UInt64.add_assoc] at hmapped
  · rw [← Nat.add_assoc, hv.readLE]

/-- The loads of one record: its size, and the entry that it stands for. -/
structure RecordLoads (r : MemoryRecord) (mmap : UInt64) (s : State) : Prop where
  size : load32 mmap s = .ok (r.size, s)
  baseLow : load32 (mmap + 4) s = .ok (UInt32.ofNat (r.base.toNat % 256 ^ 4), s)
  baseHigh : load32 (mmap + 8) s = .ok (UInt32.ofNat (r.base.toNat / 2 ^ 32 % 256 ^ 4), s)
  lengthLow : load32 (mmap + 12) s = .ok (UInt32.ofNat (r.length.toNat % 256 ^ 4), s)
  lengthHigh : load32 (mmap + 16) s = .ok (UInt32.ofNat (r.length.toNat / 2 ^ 32 % 256 ^ 4), s)
  type : load32 (mmap + 20) s = .ok (r.type, s)

/-- The record behind the records `pre` is loaded from behind their bytes. -/
theorem HoldsMemoryMap.recordLoads {pre post : List MemoryRecord} {r : MemoryRecord}
    (h : HoldsMemoryMap mbi (pre ++ r :: post) flags len addr a s) {p : UInt64}
    (hp : p.toNat = (encodeRecords pre).length) :
    RecordLoads r (addr.toUInt64 + p) s := by
  have hbytes := h.bytes
  have hlen := h.length
  have hsize := r.size_eq
  have hrec := r.length_bytes
  rw [encodeRecords_append, encodeRecords_cons] at hbytes hlen
  rw [List.length_append, List.length_append] at hlen
  have hr : s.mem.Holds (a + p.toNat) r.bytes := by
    rw [hp]
    exact hbytes.right.left
  have hsmall : ∀ x : UInt32, UInt32.ofNat (x.toNat % 256 ^ 4) = x := by
    intro x
    have := x.toNat_lt
    rw [Nat.mod_eq_of_lt (by omega), UInt32.ofNat_toNat]
  have hload : ∀ k v, k + 4 ≤ 24 → s.mem.Holds (a + p.toNat + k) (bytesLE 4 v) →
      load32 (addr.toUInt64 + p + UInt64.ofNat k) s = .ok (UInt32.ofNat (v % 256 ^ 4), s) :=
    fun k v hk hv => h.load (by omega) hv
  -- The fields lie one behind the other, four bytes each.
  have h₀ := hr
  have h₁ := h₀.right
  have h₂ := h₁.right
  have h₃ := h₂.right
  have h₄ := h₃.right
  have h₅ := h₄.right
  simp only [length_bytesLE] at h₁ h₂ h₃ h₄ h₅
  constructor
  · have := hload 0 _ (by omega) h₀.left
    rwa [hsmall, show UInt64.ofNat 0 = 0 from rfl, UInt64.add_zero] at this
  · exact hload 4 _ (by omega) h₁.left
  · exact hload 8 _ (by omega) h₂.left
  · exact hload 12 _ (by omega) h₃.left
  · exact hload 16 _ (by omega) h₄.left
  · have := hload 20 _ (by omega) h₅.left
    rwa [hsmall] at this

/-- The loop goes on while there are records left. -/
theorem HoldsMemoryMap.lt_length_iff {pre post : List MemoryRecord}
    (h : HoldsMemoryMap mbi (pre ++ post) flags len addr a s) {p : UInt64}
    (hp : p.toNat = (encodeRecords pre).length) : p < len.toUInt64 ↔ post ≠ [] := by
  have hpost := length_le_encodeRecords post
  rw [UInt64.lt_iff_toNat_lt, UInt32.toNat_toUInt64, h.length, hp, encodeRecords_append,
    List.length_append]
  cases post with
  | nil => simp [encodeRecords]
  | cons r post =>
    rw [List.length_cons] at hpost
    exact iff_of_true (by omega) (List.cons_ne_nil r post)

/-- Where the record behind `r` starts. -/
theorem HoldsMemoryMap.toNat_next {pre post : List MemoryRecord} {r : MemoryRecord}
    (h : HoldsMemoryMap mbi (pre ++ r :: post) flags len addr a s) {p : UInt64}
    (hp : p.toNat = (encodeRecords pre).length) :
    (p + (r.size.toUInt64 + 4)).toNat = (encodeRecords (pre ++ [r])).length := by
  have hlen := h.length
  have hlt := len.toNat_lt
  have hrec := r.length_bytes
  rw [encodeRecords_append, encodeRecords_cons, List.length_append, List.length_append] at hlen
  rw [UInt64.toNat_add, UInt64.toNat_add, UInt32.toNat_toUInt64,
    show (4 : UInt64).toNat = 4 from rfl, hp, encodeRecords_append, List.length_append,
    encodeRecords_cons, List.length_append, show (encodeRecords []).length = 0 from rfl]
  omega

/-- `setup_memory_region` decodes the records in order, or stops at the first one
that there is no room for. -/
theorem wp_setupMemoryRegion (h : HoldsMemoryMap mbi rs flags len addr a s) :
    wp (setupMemoryRegion mbi)
      (fun e820 s' => s' = s ∧ e820.map = rs.map MemoryRecord.entry)
      (fun e => e = .fatalFailure "Too many entries in the memory map.\n" ∧
        E820_MAX_ENTRIES < rs.length) s := by
  rw [setupMemoryRegion, setupMemoryRegionWith]
  refine wp_bind_of_ok h.mbiFlags ?_
  rw [if_neg h.memmap]
  have hcount := length_le_encodeRecords rs
  have hlen := h.length
  have hlt := len.toNat_lt
  -- `p` is where the next record starts, and the ones before it are decoded.
  refine wp_loop (fun (i : UInt64 × E820Map) s' => s' = s ∧ ∃ pre post, rs = pre ++ post ∧
      i.1.toNat = (encodeRecords pre).length ∧ i.2.map = pre.map MemoryRecord.entry)
    (fun i => rs.length - i.2.map.length) ?_ _ _ _ ⟨rfl, [], rs, rfl, rfl, rfl⟩ (by
      rw [LONG_FUEL]
      omega)
  rintro ⟨p, e820⟩ _ ⟨rfl, pre, post, rfl, hp, hmap⟩
  dsimp only at hp hmap ⊢
  have hiff := h.lt_length_iff hp
  rw [readRecordWith]
  refine wp_bind_of_ok h.mbiLength ?_
  cases post with
  | nil =>
    rw [if_neg (by simpa using hiff), wp_pure, List.append_nil]
    exact ⟨rfl, hmap⟩
  | cons r post =>
    have hr := h.recordLoads hp
    rw [if_pos (hiff.mpr (by simp))]
    refine wp_bind_of_ok h.mbiAddr ?_
    simp only [readEntryVia, bind_assoc, pure_bind]
    refine wp_bind_of_ok hr.baseHigh ?_
    refine wp_bind_of_ok hr.baseLow ?_
    refine wp_bind_of_ok hr.lengthHigh ?_
    refine wp_bind_of_ok hr.lengthLow ?_
    refine wp_bind_of_ok hr.type ?_
    rw [join_halves, join_halves, wp_bind, addMemoryRegion]
    have hmaplen : e820.map.length = pre.length := by
      rw [hmap, List.length_map]
    split_ifs with hfull
    · rw [fatalFailure, wp_stop]
      refine ⟨rfl, ?_⟩
      rw [List.length_append, List.length_cons]
      omega
    · rw [wp_pure, wp_bind]
      refine wp_of_ok hr.size ?_
      rw [wp_pure]
      refine ⟨⟨rfl, pre ++ [r], post, by simp, h.toNat_next hp, ?_⟩, ?_⟩
      · show e820.map ++ [r.entry] = _
        rw [hmap, List.map_append]
        rfl
      · rw [List.length_append, List.length_append, List.length_cons, List.length_singleton]
        omega

/-- At most 128 records are decoded, in order. -/
theorem setupMemoryRegion_ok (h : HoldsMemoryMap mbi rs flags len addr a s)
    (hle : rs.length ≤ E820_MAX_ENTRIES) : ∃ e820, setupMemoryRegion mbi s = .ok (e820, s) ∧
      e820.map = rs.map MemoryRecord.entry := by
  have hwp := wp_setupMemoryRegion h
  cases hrun : setupMemoryRegion mbi s with
  | ok p =>
    obtain ⟨e820, s'⟩ := p
    obtain ⟨rfl, hmap⟩ := wp_ok hwp hrun
    exact ⟨e820, rfl, hmap⟩
  | error e => exact absurd (wp_error hwp hrun).2 (by omega)

/-- From the bytes of at most 128 records the entries come back in order; the
129th one is refused. -/
theorem setupMemoryRegion_decodes (h : HoldsMemoryMap mbi rs flags len addr a s) :
    (rs.length ≤ E820_MAX_ENTRIES → ∃ e820, setupMemoryRegion mbi s = .ok (e820, s) ∧
      e820.map = rs.map MemoryRecord.entry) ∧
    (E820_MAX_ENTRIES < rs.length → setupMemoryRegion mbi s =
      .error (.fatalFailure "Too many entries in the memory map.\n")) := by
  refine ⟨setupMemoryRegion_ok h, fun hlt => ?_⟩
  have hwp := wp_setupMemoryRegion h
  cases hrun : setupMemoryRegion mbi s with
  | ok p =>
    obtain ⟨e820, s'⟩ := p
    obtain ⟨-, hmap⟩ := wp_ok hwp hrun
    have hle := e820.length_le
    rw [hmap, List.length_map] at hle
    exact absurd hle (by omega)
  | error e => rw [(wp_error hwp hrun).1]

end Decode

/-! ## A sample map -/

/-- A machine with the Multiboot information at 4 KB and the records at 64 KB. -/
def memoryMapState (rs : List MemoryRecord) : State where
  mem :=
    let m := lay (fun _ => 0) 0x1000 (bytesLE 4 MBI_MEMMAP.toNat) -- flags
    let m := m.lay 0x102C (bytesLE 4 (encodeRecords rs).length) -- mmap_length
    let m := m.lay 0x1030 (bytesLE 4 0x10000) -- mmap_addr
    m.lay 0x10000 (encodeRecords rs)
  nalloc := { allocBitmap := 0, maxPage := 0 }
  handedOut := []

/-- A number in memory that is mapped can be loaded. -/
theorem load32_of_holds {v : UInt64} {a : Nat} {x : UInt32} {s : State}
    (hv : bootTranslate v 4 = some a) (hx : s.mem.Holds a (bytesLE 4 x.toNat)) :
    load32 v s = .ok (x, s) := by
  refine load32_eq_ok.mpr ⟨rfl, a, hv, ?_⟩
  rw [hx.readLE, Nat.mod_eq_of_lt (show x.toNat < 256 ^ 4 from x.toNat_lt), UInt32.ofNat_toNat]

/-- The Multiboot information at 4 KB, with the records at 64 KB. -/
theorem holdsMemoryMap_of_holds {rs : List MemoryRecord} {flags : UInt32} {s : State}
    (hflags : s.mem.Holds 0x1000 (bytesLE 4 flags.toNat)) (hmemmap : flags &&& MBI_MEMMAP ≠ 0)
    (hlength : s.mem.Holds 0x102C (bytesLE 4 (encodeRecords rs).length))
    (haddr : s.mem.Holds 0x1030 (bytesLE 4 (0x10000 : UInt32).toNat))
    (hrecords : s.mem.Holds 0x10000 (encodeRecords rs))
    (hlen : (encodeRecords rs).length ≤ 0x100000) :
    HoldsMemoryMap 0x1000 rs flags (UInt32.ofNat (encodeRecords rs).length) 0x10000
      0x10000 s := by
  have hsize : (UInt32.ofNat (encodeRecords rs).length).toNat = (encodeRecords rs).length := by
    rw [UInt32.toNat_ofNat']
    omega
  constructor
  · exact load32_of_holds (by decide) hflags
  · exact hmemmap
  · exact load32_of_holds (a := 0x102C) (by decide) (by rwa [hsize])
  · exact load32_of_holds (by decide) haddr
  · exact hsize
  · intro _
    rw [bootTranslate_eq_some, hsize, show (0x10000 : UInt32).toUInt64.toNat = 0x10000 from rfl]
    omega
  · exact hrecords

theorem memoryMapState_holds {rs : List MemoryRecord}
    (hlen : (encodeRecords rs).length ≤ 0x100000) :
    HoldsMemoryMap 0x1000 rs MBI_MEMMAP (UInt32.ofNat (encodeRecords rs).length) 0x10000
      0x10000 (memoryMapState rs) :=
  holdsMemoryMap_of_holds
    ((((holds_lay _ _ _).lay_above _ (by simp)).lay_above _ (by simp)).lay_above _ (by simp))
    (by decide) (((holds_lay _ _ _).lay_above _ (by simp)).lay_above _ (by simp))
    ((holds_lay _ _ _).lay_above _ (by simp)) (holds_lay _ _ _) hlen

/-- A record without padding. -/
def MemoryRecord.plain (base length : UInt64) (type : UInt32) : MemoryRecord :=
  ⟨20, base, length, type, [], rfl⟩

/-- A record with four bytes of padding. -/
def MemoryRecord.padded (base length : UInt64) (type : UInt32) : MemoryRecord :=
  ⟨24, base, length, type, [1, 2, 3, 4], rfl⟩

/-- RAM of 512 MB, and a reserved page with padding. -/
def sampleRecords : List MemoryRecord :=
  [.plain 0 0x20000000 1, .padded 0xFFFFF000 0x1000 2]

theorem sample_setupMemoryRegion_decodes : ∃ e820,
    setupMemoryRegion 0x1000 (memoryMapState sampleRecords) =
      .ok (e820, memoryMapState sampleRecords) ∧
    e820.map = [{ addr := 0, size := 0x20000000, type := 1 },
      { addr := 0xFFFFF000, size := 0x1000, type := 2 }] :=
  (setupMemoryRegion_decodes (memoryMapState_holds (by decide))).1 (by decide)

end Tvmm
