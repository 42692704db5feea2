import Tvmm.Setup

/-!
# Where the guest image is saved

`find_memory_region_for_saving_guest_image` takes the first entry that passes its
test.  `Takes` is the test and `savePlace` the address in the entry, and
`findMemoryRegion_eq` puts the function together from them.

* `findMemoryRegion_placedInRam`: the address goes through `int`, so it has to
  survive that, and `vmm_heap_end + len` must not wrap (`KeepsPlace`);
* `findMemoryRegion_failsOnlyWithoutRoom`: an entry that ends with the image is not
  taken, so the search may fail although there is room.
-/

namespace Tvmm

open Exec CInt

/-- The test of the loop. -/
def Takes (pml : PmemLayout) (len : UInt64) (p : E820Entry) : Prop :=
  p.IsRam ∧ len ≤ p.size ∧
    (p.addr < pml.vmmHeapEnd ∧ pml.vmmHeapEnd + len < p.addr + p.size ∨
      pml.vmmHeapEnd ≤ p.addr)

instance (pml : PmemLayout) (len : UInt64) : DecidablePred (Takes pml len) := fun p =>
  inferInstanceAs (Decidable (p.type = E820_RAM ∧ len ≤ p.size ∧ _))

/-- The address that is taken in an entry. -/
def savePlace (pml : PmemLayout) (p : E820Entry) : UInt64 :=
  if p.addr < pml.vmmHeapEnd then pml.vmmHeapEnd else p.addr

section Search

variable {e820 : E820Map} {pml : PmemLayout} {len : UInt64}

theorem findMemoryRegionIn_cons (p : E820Entry) (l : List E820Entry) :
    findMemoryRegionIn pml len (p :: l) =
      if Takes pml len p then pure (ofULong (savePlace pml p))
      else findMemoryRegionIn pml len l := by
  rw [findMemoryRegionIn]
  by_cases hskip : p.type ≠ E820_RAM ∨ p.size < len
  · have hnot : ¬Takes pml len p := fun h =>
      absurd hskip (not_or.mpr ⟨not_not.mpr h.1, UInt64.not_lt.mpr h.2.1⟩)
    rw [if_pos hskip, if_neg hnot]
  rw [if_neg hskip]
  rw [not_or, not_not, UInt64.not_lt] at hskip
  obtain ⟨hram, hsize⟩ := hskip
  by_cases hbelow : p.addr < pml.vmmHeapEnd ∧ pml.vmmHeapEnd + len < p.addr + p.size
  · have htakes : Takes pml len p := ⟨hram, hsize, Or.inl hbelow⟩
    rw [if_pos hbelow, if_pos htakes, savePlace, if_pos hbelow.1]
  rw [if_neg hbelow]
  by_cases habove : pml.vmmHeapEnd ≤ p.addr
  · have htakes : Takes pml len p := ⟨hram, hsize, Or.inr habove⟩
    rw [if_pos habove, if_pos htakes, savePlace, if_neg (UInt64.not_lt.mpr habove)]
  · rw [if_neg habove, if_neg fun h => absurd h.2.2 (not_or.mpr ⟨hbelow, habove⟩)]

/-- The first entry that passes the test decides. -/
theorem findMemoryRegion_eq (s : State) :
    findMemoryRegionForSavingGuestImage e820 pml len s =
      match e820.map.find? (fun p => Takes pml len p) with
      | some p => .ok (ofULong (savePlace pml p), s)
      | none => .error
          (.fatalFailure "Not enough memory to stash the guest kernel image.\n") := by
  unfold findMemoryRegionForSavingGuestImage
  induction e820.map with
  | nil => rfl
  | cons p l ih =>
    rw [findMemoryRegionIn_cons, List.find?_cons]
    by_cases h : Takes pml len p
    · rw [if_pos h, decide_eq_true h]
      rfl
    · rw [if_neg h, decide_eq_false h]
      exact ih

theorem le_savePlace (pml : PmemLayout) (p : E820Entry) :
    pml.vmmHeapEnd ≤ savePlace pml p := by
  unfold savePlace
  split_ifs with h
  · exact UInt64.le_refl _
  · exact UInt64.not_lt.mp h

end Search

/-! ## The place is RAM -/

/-- The `len` bytes at `start` lie in one RAM entry, and not below the heap end. -/
def PlacedInRam (e820 : E820Map) (pml : PmemLayout) (len start : UInt64) : Prop :=
  pml.vmmHeapEnd ≤ start ∧ ∃ p ∈ e820.map, p.IsRam ∧
    Set.Ico start.toNat (start.toNat + len.toNat) ⊆ Set.Ico p.addr.toNat p.stop

/-- The number is that of an `int`, after sign extension. -/
def FitsInt (x : UInt64) : Prop := x.toNat < 2 ^ 31 ∨ 2 ^ 64 - 2 ^ 31 ≤ x.toNat

theorem FitsInt.toULong_ofULong {x : UInt64} (h : FitsInt x) :
    toULong (ofULong x) = x := by
  have hlt := x.toNat_lt
  apply UInt64.toNat_inj.mp
  rw [toNat_toULong_ofULong]
  rcases h with h | h
  · rw [if_pos (by omega)]
    omega
  · rw [if_neg (by omega)]
    omega

section Placed

variable {e820 : E820Map} {pml : PmemLayout} {len : UInt64} {p : E820Entry}

/-- An entry that is taken has room, unless the sum in the test wraps. -/
theorem Takes.placedInRam (h : Takes pml len p) (hp : p ∈ e820.map)
    (hwrap : p.stop ≤ 2 ^ 64)
    (hsum : p.addr < pml.vmmHeapEnd → pml.vmmHeapEnd.toNat + len.toNat < 2 ^ 64) :
    PlacedInRam e820 pml len (savePlace pml p) := by
  obtain ⟨hram, hsize, hplace⟩ := h
  refine ⟨le_savePlace pml p, p, hp, hram, ?_⟩
  rw [E820Entry.stop] at hwrap ⊢
  rw [UInt64.le_iff_toNat_le] at hsize
  unfold savePlace
  split_ifs with hlow
  · -- The heap ends in the entry.
    have hsum := hsum hlow
    have hroom := (hplace.resolve_right (UInt64.not_le.mpr hlow)).2
    rw [UInt64.lt_iff_toNat_lt, UInt64.toNat_add, UInt64.toNat_add] at hroom
    rw [UInt64.lt_iff_toNat_lt] at hlow
    exact Set.Ico_subset_Ico (by omega) (by omega)
  · exact Set.Ico_subset_Ico (Nat.le_refl _) (by omega)

/-- A range without bytes lies everywhere. -/
theorem ico_subset_iff {a b n stop : Nat} :
    Set.Ico a (a + n) ⊆ Set.Ico b stop ↔ n = 0 ∨ b ≤ a ∧ a + n ≤ stop := by
  by_cases hn : n = 0
  · refine iff_of_true ?_ (Or.inl hn)
    rw [hn, Nat.add_zero, Set.Ico_self]
    exact Set.empty_subset _
  · rw [Set.Ico_subset_Ico_iff (by omega), or_iff_right hn]

/-- The sum in the test does not wrap, or it gives just the end of the address space and
the RAM goes up to there. -/
def SumInRam (e820 : E820Map) (pml : PmemLayout) (len : UInt64) : Prop :=
  pml.vmmHeapEnd.toNat + len.toNat < 2 ^ 64 ∨
    pml.vmmHeapEnd.toNat + len.toNat = 2 ^ 64 ∧
      ∃ q ∈ e820.map, q.IsRam ∧ q.addr ≤ pml.vmmHeapEnd ∧ q.stop = 2 ^ 64

theorem Takes.placedInRam_iff (h : Takes pml len p) (hp : p ∈ e820.map)
    (hwrap : ∀ q ∈ e820.map, q.stop ≤ 2 ^ 64) :
    PlacedInRam e820 pml len (savePlace pml p) ↔
      (p.addr < pml.vmmHeapEnd → SumInRam e820 pml len) := by
  constructor
  · rintro ⟨-, q, hq, hram, hin⟩ hlow
    have hstop := hwrap q hq
    have hend := pml.vmmHeapEnd.toNat_lt
    rw [savePlace, if_pos hlow, ico_subset_iff] at hin
    rcases hin with hlen | ⟨hstart, hin⟩
    · exact Or.inl (by omega)
    · by_cases htop : pml.vmmHeapEnd.toNat + len.toNat < 2 ^ 64
      · exact Or.inl htop
      · exact Or.inr ⟨by omega, q, hq, hram, UInt64.le_iff_toNat_le.mpr hstart, by omega⟩
  · intro hsum
    by_cases hnowrap : p.addr < pml.vmmHeapEnd → pml.vmmHeapEnd.toNat + len.toNat < 2 ^ 64
    · exact h.placedInRam hp (hwrap p hp) hnowrap
    rw [Classical.not_imp] at hnowrap
    obtain ⟨hlow, hwraps⟩ := hnowrap
    obtain ⟨htop, q, hq, hram, hstart, hstop⟩ := (hsum hlow).resolve_left hwraps
    refine ⟨le_savePlace pml p, q, hq, hram, ?_⟩
    rw [savePlace, if_pos hlow, htop, ← hstop]
    exact Set.Ico_subset_Ico_left (UInt64.le_iff_toNat_le.mp hstart)

/-- What is left of an address in an `int`, after sign extension. -/
def intPart (x : UInt64) : Nat :=
  if x.toNat % 2 ^ 32 < 2 ^ 31 then x.toNat % 2 ^ 32
  else x.toNat % 2 ^ 32 + (2 ^ 64 - 2 ^ 32)

/-- What the place in the entry `p` needs in order to stay in RAM.  If it does not fit in
an `int`, some RAM has to be where the rest of it points to. -/
structure KeepsPlace (e820 : E820Map) (pml : PmemLayout) (len : UInt64) (p : E820Entry) :
    Prop where
  fits : FitsInt (savePlace pml p) → p.addr < pml.vmmHeapEnd → SumInRam e820 pml len
  cut : ¬FitsInt (savePlace pml p) → pml.vmmHeapEnd.toNat ≤ intPart (savePlace pml p) ∧
    ∃ q ∈ e820.map, q.IsRam ∧ (len.toNat = 0 ∨
      q.addr.toNat ≤ intPart (savePlace pml p) ∧
        intPart (savePlace pml p) + len.toNat ≤ q.stop)

theorem Takes.keepsPlace_iff (h : Takes pml len p) (hp : p ∈ e820.map)
    (hwrap : ∀ q ∈ e820.map, q.stop ≤ 2 ^ 64) :
    PlacedInRam e820 pml len (toULong (ofULong (savePlace pml p))) ↔
      KeepsPlace e820 pml len p := by
  by_cases hint : FitsInt (savePlace pml p)
  · rw [hint.toULong_ofULong, h.placedInRam_iff hp hwrap]
    exact ⟨fun hsum => ⟨fun _ => hsum, absurd hint⟩, fun hkeeps => hkeeps.fits hint⟩
  · have hcut : (toULong (ofULong (savePlace pml p))).toNat = intPart (savePlace pml p) :=
      toNat_toULong_ofULong _
    have hiff : PlacedInRam e820 pml len (toULong (ofULong (savePlace pml p))) ↔
        pml.vmmHeapEnd.toNat ≤ intPart (savePlace pml p) ∧
          ∃ q ∈ e820.map, q.IsRam ∧ (len.toNat = 0 ∨
            q.addr.toNat ≤ intPart (savePlace pml p) ∧
              intPart (savePlace pml p) + len.toNat ≤ q.stop) := by
      simp only [PlacedInRam, UInt64.le_iff_toNat_le, hcut, ico_subset_iff]
    rw [hiff]
    exact ⟨fun hplaced => ⟨fun h' => absurd h' hint, fun _ => hplaced⟩,
      fun hkeeps => hkeeps.cut hint⟩

/-- The place is RAM above the heap if and only if the first entry that passes the
test keeps it there. -/
theorem findMemoryRegion_placedInRam (hwrap : ∀ p ∈ e820.map, p.stop ≤ 2 ^ 64) :
    (∀ s r s', findMemoryRegionForSavingGuestImage e820 pml len s = .ok (r, s') →
      PlacedInRam e820 pml len (toULong r)) ↔
    ∀ p, e820.map.find? (fun p => Takes pml len p) = some p → KeepsPlace e820 pml len p := by
  have hfound : ∀ p, e820.map.find? (fun p => Takes pml len p) = some p →
      (PlacedInRam e820 pml len (toULong (ofULong (savePlace pml p))) ↔
        KeepsPlace e820 pml len p) := by
    intro p hp
    have htakes : Takes pml len p := by simpa using List.find?_some hp
    exact htakes.keepsPlace_iff (List.mem_of_find?_eq_some hp) hwrap
  constructor
  · intro h p hp
    refine (hfound p hp).mp (h sampleState _ sampleState ?_)
    rw [findMemoryRegion_eq, hp]
  · intro h s r s' hrun
    rw [findMemoryRegion_eq] at hrun
    cases hfind : e820.map.find? (fun p => Takes pml len p) with
    | none =>
      rw [hfind] at hrun
      cases hrun
    | some p =>
      rw [hfind] at hrun
      cases hrun
      exact (hfound p hfind).mpr (h p hfind)

end Placed

/-- What `setup_arch` passes with the first heap size. -/
def bootPml : PmemLayout := { sampleLayout with vmmHeapEnd := DEFAULT_VMM_HEAP_SIZE }

/-- On the sample machine a module of 1 MB goes behind the heap. -/
theorem sample_findMemoryRegion_placedInRam : ∃ r,
    findMemoryRegionForSavingGuestImage sampleMap bootPml 0x100000 sampleState =
      .ok (r, sampleState) ∧ PlacedInRam sampleMap bootPml 0x100000 (toULong r) := by
  refine ⟨_, rfl, (findMemoryRegion_placedInRam ?_).mpr (fun p hp => ?_) sampleState _
    sampleState rfl⟩
  · exact List.forall_mem_cons.mpr ⟨by decide, List.forall_mem_singleton.mpr (by decide)⟩
  · have hfirst : sampleMap.map.find? (fun p => Takes bootPml 0x100000 p) =
        some { addr := 0, size := 0x20000000, type := E820_RAM } := rfl
    rw [hfirst] at hp
    cases hp
    exact ⟨fun _ _ => Or.inl (by decide), fun h => absurd (Or.inl (by decide)) h⟩

/-- RAM of 4 MB, and then only from 4 GB on. -/
def highMap : E820Map where
  map := [{ addr := 0, size := 0x400000, type := E820_RAM },
    { addr := 0x100000000, size := 0x100000000, type := E820_RAM }]
  length_le := by decide

/-- The entry at 4 GB is taken, and the address that is returned is 0. -/
theorem findMemoryRegion_not_placedInRam : (∀ p ∈ highMap.map, p.stop ≤ 2 ^ 64) ∧ ∃ r,
    findMemoryRegionForSavingGuestImage highMap bootPml 0x100000 sampleState =
      .ok (r, sampleState) ∧ ¬PlacedInRam highMap bootPml 0x100000 (toULong r) := by
  refine ⟨List.forall_mem_cons.mpr ⟨by decide, List.forall_mem_singleton.mpr (by decide)⟩,
    0, rfl, fun h => ?_⟩
  exact absurd h.1 (by decide)

/-! ## The search fails -/

section Room

variable {e820 : E820Map} {pml : PmemLayout} {len : UInt64}

theorem findMemoryRegion_eq_error_iff (s : State) :
    (∃ e, findMemoryRegionForSavingGuestImage e820 pml len s = .error e) ↔
      ∀ p ∈ e820.map, ¬Takes pml len p := by
  rw [findMemoryRegion_eq]
  cases hfind : e820.map.find? (fun p => Takes pml len p) with
  | none =>
    rw [List.find?_eq_none] at hfind
    simpa using hfind
  | some p =>
    have htakes : Takes pml len p := by simpa using List.find?_some hfind
    refine iff_of_false ?_ fun h => h p (List.mem_of_find?_eq_some hfind) htakes
    rintro ⟨e, he⟩
    cases he

/-- The entry has no room for `len` bytes above the heap end. -/
def NoRoom (pml : PmemLayout) (len : UInt64) (p : E820Entry) : Prop :=
  p.stop < max p.addr.toNat pml.vmmHeapEnd.toNat + len.toNat

/-- The entry has room behind the heap but ends with the image, or at the top of
the address space, so that the test does not see the room. -/
def EndsWithImage (pml : PmemLayout) (len : UInt64) (p : E820Entry) : Prop :=
  p.addr < pml.vmmHeapEnd ∧ (pml.vmmHeapEnd.toNat + len.toNat = p.stop ∨
    pml.vmmHeapEnd.toNat + len.toNat ≤ p.stop ∧ p.stop = 2 ^ 64)

/-- What the test misses. -/
theorem noRoom_of_not_takes {p : E820Entry} (hram : p.IsRam) (hwrap : p.stop ≤ 2 ^ 64)
    (h : ¬Takes pml len p) : NoRoom pml len p ↔ ¬EndsWithImage pml len p := by
  unfold NoRoom EndsWithImage
  rw [E820Entry.stop] at hwrap ⊢
  have hlen := len.toNat_lt
  have hend : (p.addr + p.size).toNat = (p.addr.toNat + p.size.toNat) % 2 ^ 64 :=
    UInt64.toNat_add _ _
  have hsum : (pml.vmmHeapEnd + len).toNat =
      (pml.vmmHeapEnd.toNat + len.toNat) % 2 ^ 64 := UInt64.toNat_add _ _
  simp only [Takes, hram, true_and, UInt64.lt_iff_toNat_lt, UInt64.le_iff_toNat_le, hend,
    hsum] at h ⊢
  omega

/-- The search fails only without room if and only if some entry passes the test,
or no RAM entry with room behind the heap ends with the image. -/
theorem findMemoryRegion_failsOnlyWithoutRoom (hwrap : ∀ p ∈ e820.map, p.stop ≤ 2 ^ 64) :
    (∀ s e, findMemoryRegionForSavingGuestImage e820 pml len s = .error e →
      ∀ p ∈ e820.map, p.IsRam → NoRoom pml len p) ↔
    (∃ p ∈ e820.map, Takes pml len p) ∨
      ∀ p ∈ e820.map, p.IsRam → ¬EndsWithImage pml len p := by
  by_cases hnone : ∀ p ∈ e820.map, ¬Takes pml len p
  · have hiff : ∀ p ∈ e820.map, p.IsRam → (NoRoom pml len p ↔ ¬EndsWithImage pml len p) :=
      fun p hp hram => noRoom_of_not_takes hram (hwrap p hp) (hnone p hp)
    obtain ⟨e, he⟩ := (findMemoryRegion_eq_error_iff sampleState).mpr hnone
    constructor
    · exact fun h => Or.inr fun p hp hram => (hiff p hp hram).mp (h _ e he p hp hram)
    · rintro (⟨p, hp, htakes⟩ | h) _ _ - p' hp' hram
      · exact absurd htakes (hnone p hp)
      · exact (hiff p' hp' hram).mpr (h p' hp' hram)
  · refine iff_of_true (fun s e he => ?_) (Or.inl ?_)
    · exact absurd ((findMemoryRegion_eq_error_iff s).mp ⟨e, he⟩) hnone
    · simpa using hnone

end Room

/-- The sample machine has no room for 8 GB. -/
theorem sample_findMemoryRegion_failsOnlyWithoutRoom :
    findMemoryRegionForSavingGuestImage sampleMap bootPml 0x200000000 sampleState =
      .error (.fatalFailure "Not enough memory to stash the guest kernel image.\n") ∧
    ∀ p ∈ sampleMap.map, p.IsRam → NoRoom bootPml 0x200000000 p := by
  refine ⟨rfl, (findMemoryRegion_failsOnlyWithoutRoom ?_).mpr (Or.inr ?_) sampleState _ rfl⟩
  · exact List.forall_mem_cons.mpr ⟨by decide, List.forall_mem_singleton.mpr (by decide)⟩
  · refine List.forall_mem_cons.mpr ⟨fun _ h => ?_, List.forall_mem_singleton.mpr fun _ h => ?_⟩
    · rcases h.2 with h | h
      · exact absurd h (by decide)
      · exact absurd h.2 (by decide)
    · exact absurd h.1 (by decide)

/-- RAM of 8 MB. -/
def exactMap : E820Map where
  map := [{ addr := 0, size := 0x800000, type := E820_RAM }]
  length_le := by decide

/-- The 4 MB behind the heap are not taken for a module of 4 MB. -/
theorem findMemoryRegion_not_failsOnlyWithoutRoom : (∀ p ∈ exactMap.map, p.stop ≤ 2 ^ 64) ∧
    findMemoryRegionForSavingGuestImage exactMap bootPml 0x400000 sampleState =
      .error (.fatalFailure "Not enough memory to stash the guest kernel image.\n") ∧
    ∃ p ∈ exactMap.map, p.IsRam ∧ ¬NoRoom bootPml 0x400000 p :=
  ⟨List.forall_mem_singleton.mpr (by decide), rfl, _, List.mem_singleton_self _, rfl,
    show ¬(_ < _) by decide⟩

end Tvmm
