import Tvmm.MemoryMap

/-!
# What `setup_memory_region` reads

The loop asks whether a record starts inside the buffer, and then reads all of it.
`setupMemoryRegionVia` takes the loads of the records from a parameter; with
`load32In`, which stops outside the buffer, it is the same program as long as the
buffer is not left.

`setupMemoryRegion_readsMapOnly`: the buffer is not left exactly if every record that
starts inside it has its 24 bytes there, where `RecordStart` are the positions that
the sizes of the records lead to.
-/

namespace Tvmm

open Exec ByteMem

/-- One turn of the loop, with the loads of the record from `load`. -/
def readRecordVia (load : UInt64 → M UInt32) (mbi p : UInt64) (e820 : E820Map) :
    M ((UInt64 × E820Map) ⊕ E820Map) :=
  readRecordWith load32 load addMemoryRegion mbi (p, e820)

/-- `setup_memory_region`, with the loads of the records from `load`. -/
def setupMemoryRegionVia (load : UInt64 → M UInt32) (mbi : UInt64) : M E820Map :=
  setupMemoryRegionWith load32 load addMemoryRegion mbi LONG_FUEL
    { map := [], length_le := Nat.zero_le _ }

theorem setupMemoryRegion_eq_via (mbi : UInt64) :
    setupMemoryRegion mbi = setupMemoryRegionVia load32 mbi := rfl

/-- A load that stops with `e` outside of the `len` bytes at `addr`. -/
def load32In (addr len : Nat) (e : Stop) (v : UInt64) : M UInt32 :=
  if addr ≤ v.toNat ∧ v.toNat + 4 ≤ addr + len then load32 v else stop e

/-- The entry in the record at `a`. -/
def decodeRecord (m : ByteMem) (a : Nat) : E820Entry where
  addr := (UInt32.ofNat (m.readLE (a + 8) 4)).toUInt64 <<< 32 |||
    (UInt32.ofNat (m.readLE (a + 4) 4)).toUInt64
  size := (UInt32.ofNat (m.readLE (a + 16) 4)).toUInt64 <<< 32 |||
    (UInt32.ofNat (m.readLE (a + 12) 4)).toUInt64
  type := UInt32.ofNat (m.readLE (a + 20) 4)

/-- The Multiboot information says that there is a memory map of `len` bytes at
`addr`. -/
structure HasMemoryMap (mbi : UInt64) (addr len : UInt32) (s : State) : Prop where
  flags : ∃ flags, mbiFlags mbi s = .ok (flags, s) ∧ flags &&& MBI_MEMMAP ≠ 0
  length : mbiMmapLength mbi s = .ok (len, s)
  addr : mbiMmapAddr mbi s = .ok (addr, s)

/-- No load leaves the buffer, and every entry comes from a record that lies in it. -/
structure ReadsMapOnly (mbi : UInt64) (addr len : UInt32) (s : State) : Prop where
  reads : ∀ e, setupMemoryRegionVia (load32In addr.toNat len.toNat e) mbi s =
    setupMemoryRegion mbi s
  entries : ∀ e820 s', setupMemoryRegion mbi s = .ok (e820, s') → ∀ q ∈ e820.map,
    ∃ p, p + 24 ≤ len.toNat ∧ q = decodeRecord s.mem (addr.toNat + p)

/-- The record number `k` starts at `p`: the loop comes there if it does not stop
before, for want of room in the map or with a page fault. -/
inductive RecordStart (m : ByteMem) (addr len : Nat) : Nat → Nat → Prop
  | first : RecordStart m addr len 0 0
  | next {k p : Nat} (h : RecordStart m addr len k p) (hk : k < E820_MAX_ENTRIES)
      (hp : p < len) (hmapped : addr + p + 24 ≤ BOOT_MAP_SIZE) :
      RecordStart m addr len (k + 1) (p + (m.readLE (addr + p) 4 + 4))

/-- A record that is cut short is not read to the end of the buffer: a load before
that is a page fault. -/
def FaultsInside (addr len p : Nat) : Prop :=
  ∃ o, (o = 8 ∨ o = 16) ∧ p + o + 4 ≤ len ∧ BOOT_MAP_SIZE < addr + p + o + 4

/-- No record that the loop comes to leaves the buffer. -/
def RecordsInside (m : ByteMem) (addr len : Nat) : Prop :=
  ∀ k p, RecordStart m addr len k p → p < len → p + 24 ≤ len ∨ FaultsInside addr len p

/-! ## The loads -/

section Loads

variable (addr : UInt32) {len : UInt32} {p : UInt64} {o : Nat} {s : State} {e : Stop}

/-- The fields of a record lie at these addresses. -/
theorem toNat_field (hp : p.toNat < len.toNat) (ho : o ≤ 20) :
    (addr.toUInt64 + p + UInt64.ofNat o).toNat = addr.toNat + p.toNat + o := by
  have h1 := addr.toNat_lt
  have h2 := len.toNat_lt
  rw [UInt64.toNat_add, UInt64.toNat_add, UInt32.toNat_toUInt64, UInt64.toNat_ofNat']
  omega

theorem load32_field_ok (hp : p.toNat < len.toNat) (ho : o ≤ 20)
    (hmapped : addr.toNat + p.toNat + o + 4 ≤ BOOT_MAP_SIZE) :
    load32 (addr.toUInt64 + p + UInt64.ofNat o) s =
      .ok (UInt32.ofNat (s.mem.readLE (addr.toNat + p.toNat + o) 4), s) := by
  have hv := toNat_field addr hp ho
  rw [BOOT_MAP_SIZE_eq] at hmapped
  exact load32_eq_ok.mpr ⟨rfl, _, bootTranslate_eq_some.mpr ⟨hmapped, Or.inl hv⟩, rfl⟩

/-- The low addresses are mapped up to 1 GB. -/
theorem load32_field_fault (hp : p.toNat < len.toNat) (ho : o ≤ 20)
    (hfault : BOOT_MAP_SIZE < addr.toNat + p.toNat + o + 4) :
    load32 (addr.toUInt64 + p + UInt64.ofNat o) s =
      .error (.pageFault (addr.toUInt64 + p + UInt64.ofNat o)) := by
  have h1 := addr.toNat_lt
  have h2 := len.toNat_lt
  have hv := toNat_field addr hp ho
  rw [BOOT_MAP_SIZE_eq] at hfault
  have hnone : bootTranslate (addr.toUInt64 + p + UInt64.ofNat o) 4 = none := by
    rw [Option.eq_none_iff_forall_ne_some]
    intro a ha
    rw [bootTranslate_eq_some, hv] at ha
    omega
  exact bind_of_error (by rw [loadLE, hnone]) _

/-- The buffer is not left. -/
theorem load32In_field (hp : p.toNat < len.toNat) (ho : o ≤ 20)
    (hin : p.toNat + o + 4 ≤ len.toNat) :
    load32In addr.toNat len.toNat e (addr.toUInt64 + p + UInt64.ofNat o) =
      load32 (addr.toUInt64 + p + UInt64.ofNat o) := by
  have hv := toNat_field addr hp ho
  exact if_pos ⟨by omega, by omega⟩

/-- The buffer is left. -/
theorem load32In_field_out (hp : p.toNat < len.toNat) (ho : o ≤ 20)
    (hout : len.toNat < p.toNat + o + 4) :
    load32In addr.toNat len.toNat e (addr.toUInt64 + p + UInt64.ofNat o) s = .error e := by
  have hv := toNat_field addr hp ho
  rw [load32In, if_neg (by omega)]
  rfl

/-! ## One record -/

/-- A record in mapped memory is decoded. -/
theorem readEntryVia_ok (hp : p.toNat < len.toNat)
    (hmapped : addr.toNat + p.toNat + 24 ≤ BOOT_MAP_SIZE) :
    readEntryVia load32 (addr.toUInt64 + p) s =
      .ok (decodeRecord s.mem (addr.toNat + p.toNat), s) := by
  have h (o : Nat) (ho : o ≤ 20) := load32_field_ok addr (s := s) hp ho (by omega)
  have h8 : load32 (addr.toUInt64 + p + 8) s = _ := h 8 (by decide)
  have h4 : load32 (addr.toUInt64 + p + 4) s = _ := h 4 (by decide)
  have h16 : load32 (addr.toUInt64 + p + 16) s = _ := h 16 (by decide)
  have h12 : load32 (addr.toUInt64 + p + 12) s = _ := h 12 (by decide)
  have h20 : load32 (addr.toUInt64 + p + 20) s = _ := h 20 (by decide)
  rw [readEntryVia, bind_of_ok h8, bind_of_ok h4, bind_of_ok h16, bind_of_ok h12,
    bind_of_ok h20]
  rfl

/-- Only a record in mapped memory is decoded. -/
theorem readEntryVia_mapped (hp : p.toNat < len.toNat) {q : E820Entry} {s' : State}
    (h : readEntryVia load32 (addr.toUInt64 + p) s = .ok (q, s')) :
    addr.toNat + p.toNat + 24 ≤ BOOT_MAP_SIZE := by
  by_contra hfault
  rw [readEntryVia] at h
  obtain ⟨_, s₁, h8, h⟩ := bind_eq_ok.mp h
  obtain ⟨_, s₂, h4, h⟩ := bind_eq_ok.mp h
  obtain ⟨_, s₃, h16, h⟩ := bind_eq_ok.mp h
  obtain ⟨_, s₄, h12, h⟩ := bind_eq_ok.mp h
  obtain ⟨_, s₅, h20, -⟩ := bind_eq_ok.mp h
  have hlast : load32 (addr.toUInt64 + p + 20) s₄ = _ :=
    load32_field_fault addr (o := 20) hp (by decide) (by omega)
  rw [hlast] at h20
  cases h20

/-- A record inside the buffer is read without leaving it. -/
theorem readEntryVia_inside (hp : p.toNat < len.toNat) (hin : p.toNat + 24 ≤ len.toNat) :
    readEntryVia (load32In addr.toNat len.toNat e) (addr.toUInt64 + p) =
      readEntryVia load32 (addr.toUInt64 + p) := by
  have h (o : Nat) (ho : o ≤ 20) := load32In_field addr (e := e) hp ho (by omega)
  have h8 : load32In _ _ _ (addr.toUInt64 + p + 8) = _ := h 8 (by decide)
  have h4 : load32In _ _ _ (addr.toUInt64 + p + 4) = _ := h 4 (by decide)
  have h16 : load32In _ _ _ (addr.toUInt64 + p + 16) = _ := h 16 (by decide)
  have h12 : load32In _ _ _ (addr.toUInt64 + p + 12) = _ := h 12 (by decide)
  have h20 : load32In _ _ _ (addr.toUInt64 + p + 20) = _ := h 20 (by decide)
  rw [readEntryVia, h8, h4, h16, h12, h20]
  rfl

/-- A record that is cut short leaves the buffer, unless there is a fault before. -/
theorem readEntryVia_outside (hp : p.toNat < len.toNat) (hout : len.toNat < p.toNat + 24)
    (hfault : ¬FaultsInside addr.toNat len.toNat p.toNat) :
    readEntryVia (load32In addr.toNat len.toNat e) (addr.toUInt64 + p) s = .error e := by
  have hread {o o' : Nat} (ho' : o' = 8 ∨ o' = 16) (ho : o ≤ o')
      (hin : p.toNat + o' + 4 ≤ len.toNat) := by
    have hmapped : addr.toNat + p.toNat + o + 4 ≤ BOOT_MAP_SIZE := by
      by_contra hlt
      exact hfault ⟨o', ho', hin, by omega⟩
    exact (congrFun (load32In_field addr (e := e) hp (by omega) (by omega)) s).trans
      (load32_field_ok addr (o := o) hp (by omega) hmapped)
  have hleave {o : Nat} := load32In_field_out addr (o := o) (s := s) (e := e) hp
  by_cases hin8 : p.toNat + 8 + 4 ≤ len.toNat
  · have h8 : load32In _ _ e (addr.toUInt64 + p + 8) s = _ :=
      hread (Or.inl rfl) (Nat.le_refl 8) hin8
    have h4 : load32In _ _ e (addr.toUInt64 + p + 4) s = _ :=
      hread (o := 4) (Or.inl rfl) (by decide) hin8
    rw [readEntryVia, bind_of_ok h8, bind_of_ok h4]
    by_cases hin16 : p.toNat + 16 + 4 ≤ len.toNat
    · have h16 : load32In _ _ e (addr.toUInt64 + p + 16) s = _ :=
        hread (Or.inr rfl) (Nat.le_refl 16) hin16
      have h12 : load32In _ _ e (addr.toUInt64 + p + 12) s = _ :=
        hread (o := 12) (Or.inr rfl) (by decide) hin16
      rw [bind_of_ok h16, bind_of_ok h12]
      exact bind_of_error (hleave (o := 20) (by decide) (by omega)) _
    · exact bind_of_error (hleave (o := 16) (by decide) (by omega)) _
  · exact bind_of_error (hleave (o := 8) (by decide) (by omega)) _

/-- The loads are the same up to a fault inside the buffer. -/
theorem readEntryVia_faults (hp : p.toNat < len.toNat)
    (hfault : FaultsInside addr.toNat len.toNat p.toNat) :
    ∃ e', readEntryVia load32 (addr.toUInt64 + p) s = .error e' ∧
      readEntryVia (load32In addr.toNat len.toNat e) (addr.toUInt64 + p) s = .error e' := by
  obtain ⟨o, ho, hin, hlt⟩ := hfault
  have hsame {o' : Nat} (ho' : o' ≤ o) := load32In_field addr (e := e) hp
    (show o' ≤ 20 by omega) (show p.toNat + o' + 4 ≤ len.toNat by omega)
  have e8 : load32In _ _ e (addr.toUInt64 + p + 8) = _ := hsame (by omega : 8 ≤ o)
  have e4 : load32In _ _ e (addr.toUInt64 + p + 4) = _ := hsame (by omega : 4 ≤ o)
  by_cases hm8 : addr.toNat + p.toNat + 8 + 4 ≤ BOOT_MAP_SIZE
  · obtain rfl : o = 16 := by omega
    have e16 : load32In _ _ e (addr.toUInt64 + p + 16) = _ := hsame (Nat.le_refl 16)
    have h8 : load32 (addr.toUInt64 + p + 8) s = _ :=
      load32_field_ok addr (o := 8) hp (by decide) hm8
    have h4 : load32 (addr.toUInt64 + p + 4) s = _ :=
      load32_field_ok addr (o := 4) hp (by decide) (by omega)
    have h16 : load32 (addr.toUInt64 + p + 16) s = _ :=
      load32_field_fault addr (o := 16) hp (by decide) hlt
    rw [readEntryVia, readEntryVia, e8, e4, e16]
    exact ⟨_, (bind_of_ok h8 _).trans ((bind_of_ok h4 _).trans (bind_of_error h16 _)),
      (bind_of_ok h8 _).trans ((bind_of_ok h4 _).trans (bind_of_error h16 _))⟩
  · have h8 : load32 (addr.toUInt64 + p + 8) s = _ :=
      load32_field_fault addr (o := 8) hp (by decide) (by omega)
    rw [readEntryVia, readEntryVia, e8]
    exact ⟨_, bind_of_error h8 _, bind_of_error h8 _⟩

end Loads

section Turns

variable {mbi : UInt64} {addr len : UInt32} {p : UInt64} {e820 : E820Map} {s : State}
  {e : Stop}

/-- The position is past the map. -/
theorem readRecordVia_past {load : UInt64 → M UInt32} (h : HasMemoryMap mbi addr len s)
    (hp : len.toNat ≤ p.toNat) : readRecordVia load mbi p e820 s = .ok (.inr e820, s) := by
  have hlt : ¬p < len.toUInt64 := by
    rw [UInt64.lt_iff_toNat_lt, UInt32.toNat_toUInt64]
    omega
  have hlength : load32 (mbi + 44) s = .ok (len, s) := h.length
  rw [readRecordVia, readRecordWith, bind_of_ok hlength, if_neg hlt]
  rfl

/-- The position is in the map. -/
theorem readRecordVia_eq {load : UInt64 → M UInt32} (h : HasMemoryMap mbi addr len s)
    (hp : p.toNat < len.toNat) :
    readRecordVia load mbi p e820 s = (do
      let entry ← readEntryVia load (addr.toUInt64 + p)
      let e820 ← addMemoryRegion e820 entry.addr entry.size entry.type
      let recordSize ← load (addr.toUInt64 + p)
      pure (.inl (p + (recordSize.toUInt64 + 4), e820)) :
        M ((UInt64 × E820Map) ⊕ E820Map)) s := by
  have hlt : p < len.toUInt64 := by
    rwa [UInt64.lt_iff_toNat_lt, UInt32.toNat_toUInt64]
  have hlength : load32 (mbi + 44) s = .ok (len, s) := h.length
  have haddr : load32 (mbi + 48) s = .ok (addr, s) := h.addr
  rw [readRecordVia, readRecordWith, bind_of_ok hlength, if_pos hlt, bind_of_ok haddr]

/-- A turn for which there is room appends the entry of the record. -/
theorem readRecordVia_next (h : HasMemoryMap mbi addr len s) (hp : p.toNat < len.toNat)
    (hk : e820.map.length < E820_MAX_ENTRIES)
    (hmapped : addr.toNat + p.toNat + 24 ≤ BOOT_MAP_SIZE) :
    ∃ p' e820', readRecordVia load32 mbi p e820 s = .ok (.inl (p', e820'), s) ∧
      p'.toNat = p.toNat + (s.mem.readLE (addr.toNat + p.toNat) 4 + 4) ∧
      e820'.map = e820.map ++ [decodeRecord s.mem (addr.toNat + p.toNat)] := by
  have hsize : load32 (addr.toUInt64 + p) s =
      .ok (UInt32.ofNat (s.mem.readLE (addr.toNat + p.toNat) 4), s) := by
    have h0 := load32_field_ok addr (o := 0) (s := s) hp (by decide) (by omega)
    rwa [show UInt64.ofNat 0 = 0 from rfl, UInt64.add_zero, Nat.add_zero] at h0
  rw [readRecordVia_eq h hp, bind_of_ok (readEntryVia_ok addr hp hmapped), addMemoryRegion,
    dif_neg (by omega), pure_bind, bind_of_ok hsize]
  refine ⟨_, _, rfl, ?_, rfl⟩
  have hlen := len.toNat_lt
  have hread := s.mem.readLE_lt (addr.toNat + p.toNat) 4
  rw [UInt64.toNat_add, UInt64.toNat_add, UInt32.toNat_toUInt64, UInt32.toNat_ofNat',
    show (4 : UInt64).toNat = 4 from rfl]
  omega

/-- Only such a turn goes on. -/
theorem readRecordVia_goesOn (h : HasMemoryMap mbi addr len s) {j : UInt64 × E820Map}
    {s' : State} (hrun : readRecordVia load32 mbi p e820 s = .ok (.inl j, s')) :
    p.toNat < len.toNat ∧ e820.map.length < E820_MAX_ENTRIES ∧
      addr.toNat + p.toNat + 24 ≤ BOOT_MAP_SIZE := by
  have hp : p.toNat < len.toNat := by
    by_contra hp
    rw [readRecordVia_past h (Nat.not_lt.mp hp)] at hrun
    cases hrun
  rw [readRecordVia_eq h hp] at hrun
  obtain ⟨entry, s₁, hentry, hrun⟩ := bind_eq_ok.mp hrun
  obtain ⟨e820', s₂, hadd, -⟩ := bind_eq_ok.mp hrun
  refine ⟨hp, ?_, readEntryVia_mapped addr hp hentry⟩
  by_contra hfull
  rw [addMemoryRegion, dif_pos (Nat.not_lt.mp hfull)] at hadd
  cases hadd

/-- The loop ends with what it has. -/
theorem readRecordVia_done (h : HasMemoryMap mbi addr len s) {b : E820Map} {s' : State}
    (hrun : readRecordVia load32 mbi p e820 s = .ok (.inr b, s')) : b = e820 := by
  by_cases hp : p.toNat < len.toNat
  · rw [readRecordVia_eq h hp] at hrun
    obtain ⟨entry, s₁, -, hrun⟩ := bind_eq_ok.mp hrun
    obtain ⟨e820', s₂, -, hrun⟩ := bind_eq_ok.mp hrun
    obtain ⟨recordSize, s₃, -, hrun⟩ := bind_eq_ok.mp hrun
    cases hrun
  · rw [readRecordVia_past h (Nat.not_lt.mp hp)] at hrun
    cases hrun
    rfl

/-- A record of which nothing outside of the buffer is read. -/
theorem readRecordVia_same (h : HasMemoryMap mbi addr len s)
    (hin : p.toNat < len.toNat →
      p.toNat + 24 ≤ len.toNat ∨ FaultsInside addr.toNat len.toNat p.toNat) :
    readRecordVia (load32In addr.toNat len.toNat e) mbi p e820 s =
      readRecordVia load32 mbi p e820 s := by
  by_cases hp : p.toNat < len.toNat
  · rw [readRecordVia_eq h hp, readRecordVia_eq h hp]
    obtain hin | hfault := hin hp
    · have h0 := load32In_field addr (o := 0) (e := e) hp (by decide) (by omega)
      rw [show UInt64.ofNat 0 = 0 from rfl, UInt64.add_zero] at h0
      rw [readEntryVia_inside addr hp hin, h0]
    · obtain ⟨e', hreal, hguarded⟩ := readEntryVia_faults addr (s := s) (e := e) hp hfault
      rw [bind_of_error hreal, bind_of_error hguarded]
  · rw [readRecordVia_past h (Nat.not_lt.mp hp), readRecordVia_past h (Nat.not_lt.mp hp)]

/-- A record of which something outside of the buffer is read. -/
theorem readRecordVia_leaves (h : HasMemoryMap mbi addr len s) (hp : p.toNat < len.toNat)
    (hout : len.toNat < p.toNat + 24) (hfault : ¬FaultsInside addr.toNat len.toNat p.toNat) :
    readRecordVia (load32In addr.toNat len.toNat e) mbi p e820 s = .error e := by
  rw [readRecordVia_eq h hp]
  exact bind_of_error (readEntryVia_outside addr hp hout hfault) _

end Turns

/-! ## The loop -/

/-- Where the loop is, and what it has decoded. -/
structure RecordInv (m : ByteMem) (addr len : Nat) (i : UInt64 × E820Map) : Prop where
  start : RecordStart m addr len i.2.map.length i.1.toNat
  decoded : RecordsInside m addr len →
    ∀ q ∈ i.2.map, ∃ p, p + 24 ≤ len ∧ q = decodeRecord m (addr + p)

theorem RecordInv.init (m : ByteMem) (addr len : Nat) :
    RecordInv m addr len (0, { map := [], length_le := Nat.zero_le _ }) :=
  ⟨.first, by simp⟩

section Runs

variable {mbi : UInt64} {addr len : UInt32} {s : State}

/-- A mapped record does not fault. -/
theorem not_faultsInside {a n p : Nat} (hmapped : a + p + 24 ≤ BOOT_MAP_SIZE) :
    ¬FaultsInside a n p := by
  rintro ⟨o, ho, -, hlt⟩
  omega

/-- One turn keeps the invariant. -/
theorem RecordInv.next (h : HasMemoryMap mbi addr len s) {i j : UInt64 × E820Map} {s' : State}
    (hi : RecordInv s.mem addr.toNat len.toNat i)
    (hrun : readRecordVia load32 mbi i.1 i.2 s = .ok (.inl j, s')) :
    s' = s ∧ RecordInv s.mem addr.toNat len.toNat j := by
  obtain ⟨hp, hk, hmapped⟩ := readRecordVia_goesOn h hrun
  obtain ⟨p', e820', heq, hp', hmap⟩ := readRecordVia_next h hp hk hmapped
  obtain ⟨rfl, rfl⟩ : (p', e820') = j ∧ s = s' := by
    rw [heq] at hrun
    cases hrun
    exact ⟨rfl, rfl⟩
  refine ⟨rfl, ?_, fun hinside q hq => ?_⟩
  · have := hi.start.next hk hp hmapped
    rwa [← hp', ← List.length_singleton (a := decodeRecord s.mem (addr.toNat + i.1.toNat)),
      ← List.length_append, ← hmap] at this
  · dsimp only at hq
    rw [hmap, List.mem_append, List.mem_singleton] at hq
    obtain hq | rfl := hq
    · exact hi.decoded hinside q hq
    · exact ⟨i.1.toNat, (hinside _ _ hi.start hp).resolve_right (not_faultsInside hmapped), rfl⟩

/-- What is done after the test of the flags. -/
theorem HasMemoryMap.setupMemoryRegionVia_eq (h : HasMemoryMap mbi addr len s)
    (load : UInt64 → M UInt32) : setupMemoryRegionVia load mbi s =
      loop .hang (fun i => readRecordVia load mbi i.1 i.2) LONG_FUEL
        (0, { map := [], length_le := Nat.zero_le _ }) s := by
  obtain ⟨flags, hflags, hmemmap⟩ := h.flags
  have hflags : load32 mbi s = .ok (flags, s) := hflags
  rw [setupMemoryRegionVia, setupMemoryRegionWith, bind_of_ok hflags, if_neg hmemmap]
  rfl

/-- Enough for the loop to stay in the buffer. -/
theorem readsMapOnly_of_recordsInside (h : HasMemoryMap mbi addr len s)
    (hinside : RecordsInside s.mem addr.toNat len.toNat) : ReadsMapOnly mbi addr len s := by
  constructor
  · intro e
    rw [setupMemoryRegion_eq_via, h.setupMemoryRegionVia_eq, h.setupMemoryRegionVia_eq]
    refine (loop_congr_of_reached
      (fun i s' => s' = s ∧ RecordInv s.mem addr.toNat len.toNat i) ?_ ?_ _ _ _
      ⟨rfl, .init _ _ _⟩).symm
    · rintro ⟨p, e820⟩ _ ⟨rfl, hi⟩
      exact (readRecordVia_same h (hinside _ _ hi.start)).symm
    · rintro i _ j s' ⟨rfl, hi⟩ hrun
      exact hi.next h hrun
  · intro e820 s' hrun
    rw [setupMemoryRegion_eq_via, h.setupMemoryRegionVia_eq] at hrun
    refine wp_ok ( wp_loop_partial (E := fun _ => True)
      (Q := fun e820 _ => ∀ q ∈ e820.map, ∃ p, p + 24 ≤ len.toNat ∧
        q = decodeRecord s.mem (addr.toNat + p))
      (fun i s' => s' = s ∧ RecordInv s.mem addr.toNat len.toNat i) trivial ?_ _ _ _
      ⟨rfl, .init _ _ _⟩) hrun
    rintro i _ ⟨rfl, hi⟩
    refine wp_of_forall fun r s'' hturn => ?_
    cases r with
    | inl j => exact hi.next h hturn
    | inr b =>
      obtain rfl := readRecordVia_done h hturn
      exact hi.decoded hinside

theorem RecordStart.le_max {m : ByteMem} {a n k p : Nat} (h : RecordStart m a n k p) :
    k ≤ E820_MAX_ENTRIES := by
  cases h with
  | first => exact Nat.zero_le _
  | next _ hk => exact hk

/-- The loop that is kept in the buffer comes to every record, unless it is stopped
before. -/
theorem RecordStart.reached (h : HasMemoryMap mbi addr len s) (e : Stop) {k p : Nat}
    (hp : RecordStart s.mem addr.toNat len.toNat k p) (fuel : Nat) :
    let turn := fun i : UInt64 × E820Map =>
      readRecordVia (load32In addr.toNat len.toNat e) mbi i.1 i.2
    let start : UInt64 × E820Map := (0, { map := [], length_le := Nat.zero_le _ })
    loop .hang turn (fuel + k) start s = .error e ∨
      ∃ i, i.1.toNat = p ∧ i.2.map.length = k ∧
        loop .hang turn (fuel + k) start s = loop .hang turn fuel i s := by
  intro turn start
  induction hp generalizing fuel with
  | first => exact Or.inr ⟨start, rfl, rfl, rfl⟩
  | @next k p _ hk hp hmapped ih =>
    obtain herr | ⟨⟨p, e820⟩, rfl, rfl, heq⟩ := ih (fuel + 1)
    · exact Or.inl (by rwa [Nat.add_right_comm] at herr)
    rw [Nat.add_right_comm] at heq
    dsimp only at hk hp hmapped
    rw [← Nat.add_assoc, heq]
    by_cases hin : p.toNat + 24 ≤ len.toNat
    · obtain ⟨p', e820', hturn, hp', hmap⟩ := readRecordVia_next h hp hk hmapped
      rw [← readRecordVia_same (e := e) h fun _ => Or.inl hin] at hturn
      refine Or.inr ⟨(p', e820'), hp', ?_, loop_succ_of_ok hturn⟩
      rw [hmap, List.length_append, List.length_singleton]
    · exact Or.inl (loop_succ_of_error (readRecordVia_leaves h hp (Nat.not_le.mp hin)
        (not_faultsInside hmapped)))

/-- A record that leaves the buffer stops the loop that is kept in it. -/
theorem setupMemoryRegionVia_leaves (h : HasMemoryMap mbi addr len s) {k p : Nat}
    (hstart : RecordStart s.mem addr.toNat len.toNat k p) (hp : p < len.toNat)
    (hout : len.toNat < p + 24) (hfault : ¬FaultsInside addr.toNat len.toNat p) (e : Stop) :
    setupMemoryRegionVia (load32In addr.toNat len.toNat e) mbi s = .error e := by
  have hk := hstart.le_max
  have hfuel : LONG_FUEL = (2 ^ 64 - k) + 1 + k := by
    rw [LONG_FUEL, E820_MAX_ENTRIES] at *
    omega
  rw [h.setupMemoryRegionVia_eq, hfuel]
  obtain herr | ⟨⟨p, e820⟩, rfl, -, heq⟩ := hstart.reached h e (2 ^ 64 - k + 1)
  · exact herr
  · exact heq.trans (loop_succ_of_error (readRecordVia_leaves h hp hout hfault))

/-- Needed for the loop to stay in the buffer. -/
theorem ReadsMapOnly.recordsInside (h : HasMemoryMap mbi addr len s)
    (hreads : ReadsMapOnly mbi addr len s) : RecordsInside s.mem addr.toNat len.toNat := by
  intro k p hstart hp
  by_contra hout
  rw [not_or] at hout
  have hleaves := setupMemoryRegionVia_leaves h hstart hp (Nat.not_le.mp hout.1) hout.2
  -- The program itself does not stop with both of two different marks.
  have h₁ := (hreads.reads .hang).symm.trans (hleaves .hang)
  have h₂ := (hreads.reads (.fatalFailure "")).symm.trans (hleaves (.fatalFailure ""))
  rw [h₁] at h₂
  cases h₂

/-- `setup_memory_region` reads the memory map only if and only if no record that
starts inside the map is cut short by its end. -/
theorem setupMemoryRegion_readsMapOnly (h : HasMemoryMap mbi addr len s) :
    ReadsMapOnly mbi addr len s ↔ RecordsInside s.mem addr.toNat len.toNat :=
  ⟨fun hreads => hreads.recordsInside h, readsMapOnly_of_recordsInside h⟩

end Runs

/-! ## Whole records -/

section Whole

variable {mbi : UInt64} {rs : List MemoryRecord} {flags len addr : UInt32} {a : Nat}
  {s : State}

theorem HoldsMemoryMap.hasMemoryMap (h : HoldsMemoryMap mbi rs flags len addr a s) :
    HasMemoryMap mbi addr len s :=
  ⟨⟨flags, h.mbiFlags, h.memmap⟩, h.mbiLength, h.mbiAddr⟩

/-- The records that are laid out at a physical address are read there. -/
theorem HoldsMemoryMap.bytes_at_addr (h : HoldsMemoryMap mbi rs flags len addr a s) :
    s.mem.Holds addr.toNat (encodeRecords rs) := by
  intro k c hk
  have hlt := (List.getElem?_eq_some_iff.mp hk).1
  have hlen := h.length
  have hmapped := bootTranslate_eq_some.mp (h.mapped (by omega))
  have haddr := addr.toNat_lt
  rw [UInt32.toNat_toUInt64] at hmapped
  obtain rfl : addr.toNat = a := by omega
  exact h.bytes k c hk

/-- The loop comes from one record to the next. -/
theorem HoldsMemoryMap.recordStart (h : HoldsMemoryMap mbi rs flags len addr a s) {k p : Nat}
    (hp : RecordStart s.mem addr.toNat len.toNat k p) :
    ∃ pre post, rs = pre ++ post ∧ p = (encodeRecords pre).length := by
  induction hp with
  | first => exact ⟨[], rs, rfl, rfl⟩
  | @next k p _ hk hp hmapped ih =>
    obtain ⟨pre, post, rfl, rfl⟩ := ih
    have hbytes := h.bytes_at_addr
    have hlen := h.length
    rw [encodeRecords_append] at hbytes hlen
    cases post with
    | nil =>
      rw [show encodeRecords [] = [] from rfl, List.append_nil] at hlen
      omega
    | cons r post =>
      have hsize := hbytes.right
      rw [encodeRecords_cons] at hsize
      refine ⟨pre ++ [r], post, by simp, ?_⟩
      rw [hsize.left.left.readLE, encodeRecords_append, List.length_append, encodeRecords_cons,
        List.length_append, r.length_bytes, show (encodeRecords []).length = 0 from rfl,
        Nat.mod_eq_of_lt (show r.size.toNat < 256 ^ 4 from r.size.toNat_lt)]

/-- No record is cut short. -/
theorem HoldsMemoryMap.recordsInside (h : HoldsMemoryMap mbi rs flags len addr a s) :
    RecordsInside s.mem addr.toNat len.toNat := by
  intro k p hp hlt
  obtain ⟨pre, post, rfl, rfl⟩ := h.recordStart hp
  have hlen := h.length
  have hpost := length_le_encodeRecords post
  rw [encodeRecords_append, List.length_append] at hlen
  cases post with
  | nil =>
    rw [show (encodeRecords []).length = 0 from rfl] at hlen
    omega
  | cons r post =>
    rw [List.length_cons] at hpost
    exact Or.inl (by omega)

end Whole

theorem sample_setupMemoryRegion_readsMapOnly :
    ReadsMapOnly 0x1000 0x10000 52 (memoryMapState sampleRecords) :=
  have h : HoldsMemoryMap 0x1000 sampleRecords MBI_MEMMAP 52 0x10000 0x10000 _ :=
    memoryMapState_holds (by decide)
  (setupMemoryRegion_readsMapOnly h.hasMemoryMap).mpr h.recordsInside

/-- One record of 24 bytes, and a map that is said to be 20 bytes long. -/
def cutShortState : State :=
  let s := memoryMapState [.plain 0 0x20000000 1]
  { s with mem := s.mem.lay 0x102C (bytesLE 4 20) }

/-- The type of the record is read from behind the map. -/
theorem setupMemoryRegion_not_readsMapOnly : HasMemoryMap 0x1000 0x10000 20 cutShortState ∧
    ¬ReadsMapOnly 0x1000 0x10000 20 cutShortState := by
  have h : HasMemoryMap 0x1000 0x10000 20 cutShortState :=
    ⟨⟨MBI_MEMMAP, rfl, by decide⟩, rfl, rfl⟩
  refine ⟨h, fun hreads => ?_⟩
  obtain hin | ⟨o, ho, -, hfault⟩ := hreads.recordsInside h 0 0 .first (by decide)
  · exact absurd hin (by decide)
  · rw [BOOT_MAP_SIZE_eq, show (0x10000 : UInt32).toNat = 0x10000 from rfl] at hfault
    omega

end Tvmm
