import Tvmm.Lib.CInt
import Tvmm.PageMap

/-!
# The memory of a VM and its nested page table

`alloc_vm_pmem` gets the memory and `create_vm_pmem_mapping_table` builds the
table for it.  Iteration `i` of the loop maps the guest-physical page at
`i << PAGE_SHIFT_2MB`.  The shift is computed in `int`, so from iteration 1024
on it leaves the range of the type: the low 11 bits of `i` decide which page is
mapped (`guestPage`), and iterations that agree in them map the same page.
`nestedMap` is the map that the loop builds, and `nestedMap_eq_some` and
`nestedMap_eq_none` read it off: a page goes where its last iteration sends it.
-/

set_option linter.style.nameCheck false

namespace Tvmm

open Exec LongMode CInt

/-- `is_reserved_pmem` -/
def isReservedPmem (pfn : UInt64) : Bool := pfn == 0

/-- `vm_paddr` in iteration `i` -/
def vmPaddr (i : Int32) : UInt64 := toULong (i <<< 21)

/-- `pm_paddr` in iteration `i` -/
def pmPaddr (vmPmemPfn : UInt64) (i : Int32) : UInt64 :=
  let pmPfn := toULong i + (if isReservedPmem (toULong i) then 0 else vmPmemPfn)
  pmPfn <<< PAGE_SHIFT_2MB

section Create

variable (allocPages : UInt64 → UInt64 → M UInt64)

/-- `alloc_vm_pmem` -/
def allocVmPmem (size : UInt64) : M UInt64 := do
  -- alignment for 2 MB page table
  let align := (1 : UInt64) <<< (PAGE_SHIFT_2MB - PAGE_SHIFT)
  let pfn ← allocPages (size >>> PAGE_SHIFT) align
  return VIRT (pfn <<< PAGE_SHIFT)

/-- One iteration of the loop of `create_vm_pmem_mapping_table`. -/
def mapVmPmemPage (pml4 vmPmemPfn vmPmemSize : UInt64) (i : Int32) : M (Int32 ⊕ Unit) :=
  if toULong i < PFN_UP_2MB vmPmemSize then do
    mmap allocPages pml4 (vmPaddr i) (pmPaddr vmPmemPfn i) 1
    return .inl (i + 1)
  else return .inr ()

/-- `create_vm_pmem_mapping_table` -/
def createVmPmemMappingTable (vmPmemStart vmPmemSize : UInt64) : M UInt64 := do
  let cr3 ← pml4TableCreate allocPages
  let pml4 := VIRT cr3
  let vmPmemPfn := PFN_DOWN_2MB (PHYS vmPmemStart)
  loop .hang (mapVmPmemPage allocPages pml4 vmPmemPfn vmPmemSize) INT_FUEL (0 : Int32)
  printf "Page table for nested paging created.\n"
  return cr3

end Create

/-! ## The map -/

/-- The page, by bits 47 to 21 of its address, that iteration `i` maps. -/
def guestPage (i : Nat) : Nat :=
  if i % 2048 < 1024 then i % 2048 else 2 ^ 27 - 2048 + i % 2048

/-- The map after `i` iterations. -/
def nestedMap (vmPmemPfn : UInt64) : Nat → PageMap
  | 0 => fun _ => none
  | i + 1 => (nestedMap vmPmemPfn i).set (vmPaddr (Int32.ofNat i))
      (pmPaddr vmPmemPfn (Int32.ofNat i)) 1

theorem vmPaddr_ofNat {i : Nat} (hi : i < 2 ^ 31) :
    vmPaddr (Int32.ofNat i) = termPaddr (UInt64.ofNat i) := by
  have h : (UInt64.ofNat i).toUInt32.toInt32 = Int32.ofNat i := by
    rw [← toULong_ofNat hi, ← Int32.toBitVec_inj]
    apply BitVec.eq_of_toNat_eq
    rw [toULong_ofNat hi, Int32.toBitVec_ofNat', BitVec.toNat_ofNat]
    show (UInt64.ofNat i).toUInt32.toNat = _
    rw [UInt64.toNat_toUInt32, UInt64.toNat_ofNat']
    omega
  rw [termPaddr, h]
  rfl

theorem samePage_vmPaddr {i : Nat} (hi : i < 2 ^ 31) (w : Nat) :
    SamePage (vmPaddr (Int32.ofNat i)).toNat w ↔ guestPage i = w / 2 ^ 21 % 2 ^ 27 := by
  rw [SamePage, vmPaddr_ofNat hi, toNat_termPaddr, UInt64.toNat_ofNat', guestPage]
  split_ifs <;> omega

theorem guestPage_eq_iff {i j : Nat} : guestPage i = guestPage j ↔ i % 2048 = j % 2048 := by
  rw [guestPage, guestPage]
  split_ifs <;> omega

theorem toNat_pmPaddr {vmPmemPfn : UInt64} {i : Nat} (hi : i < 2 ^ 31) :
    (pmPaddr vmPmemPfn (Int32.ofNat i)).toNat / 2 ^ 21 % 2 ^ 31 =
      if i = 0 then 0 else (i + vmPmemPfn.toNat) % 2 ^ 31 := by
  have hzero : isReservedPmem (UInt64.ofNat i) = true ↔ i = 0 := by
    rw [isReservedPmem, beq_iff_eq, ← UInt64.toNat_inj, UInt64.toNat_ofNat',
      show (0 : UInt64).toNat = 0 from rfl]
    omega
  rw [pmPaddr, toULong_ofNat hi, UInt64.toNat_shiftLeft, Nat.shiftLeft_eq, UInt64.toNat_add,
    show PAGE_SHIFT_2MB.toNat % 64 = 21 from rfl, UInt64.toNat_ofNat']
  split_ifs with h1 h2 h2
  · rw [h2, show (0 : UInt64).toNat = 0 from rfl]
    omega
  · exact absurd (hzero.mp h1) h2
  · exact absurd (hzero.mpr h2) h1
  · omega

/-- A page that some iteration maps goes where the last one sends it. -/
theorem nestedMap_eq_some {vmPmemPfn : UInt64} {n i w : Nat} (hn : n ≤ 2 ^ 31)
    (hi : i < n) (hlast : n ≤ i + 2048) (hw : guestPage i = w / 2 ^ 21 % 2 ^ 27) :
    nestedMap vmPmemPfn n w = some (pmPaddr vmPmemPfn (Int32.ofNat i), 1) := by
  induction n with
  | zero => exact absurd hi (Nat.not_lt_zero i)
  | succ n ih =>
    rw [nestedMap, PageMap.set, if_congr (samePage_vmPaddr (by omega) w) rfl rfl]
    split_ifs with h
    · rw [← hw, guestPage_eq_iff] at h
      rw [show n = i by omega]
    · refine ih (by omega) ?_ (by omega)
      by_contra hle
      exact h (by rw [show n = i by omega, hw])

/-- A page that no iteration maps is not mapped. -/
theorem nestedMap_eq_none {vmPmemPfn : UInt64} {n w : Nat} (hn : n ≤ 2 ^ 31)
    (hw : ∀ i, i < n → guestPage i ≠ w / 2 ^ 21 % 2 ^ 27) :
    nestedMap vmPmemPfn n w = none := by
  induction n with
  | zero => rfl
  | succ n ih =>
    rw [nestedMap, PageMap.set, if_neg fun h => hw n (by omega)
      ((samePage_vmPaddr (by omega) w).mp h)]
    exact ih (by omega) fun i hi => hw i (by omega)

/-- The last of the iterations that map the same page. -/
theorem exists_last_iteration {n i : Nat} (hi : i < n) :
    ∃ j, j < n ∧ n ≤ j + 2048 ∧ guestPage j = guestPage i := by
  refine ⟨i + (n - 1 - i) / 2048 * 2048, by omega, by omega, ?_⟩
  rw [guestPage_eq_iff]
  omega

/-- Where an address of the guest is mapped. -/
theorem nestedMap_cases (vmPmemPfn : UInt64) {n : Nat} (hn : n ≤ 2 ^ 31) (w : Nat) :
    (nestedMap vmPmemPfn n w = none ∧
      ∀ i, i < n → guestPage i ≠ w / 2 ^ 21 % 2 ^ 27) ∨
    ∃ i, i < n ∧ n ≤ i + 2048 ∧ guestPage i = w / 2 ^ 21 % 2 ^ 27 ∧
      nestedMap vmPmemPfn n w = some (pmPaddr vmPmemPfn (Int32.ofNat i), 1) := by
  by_cases h : ∃ i, i < n ∧ guestPage i = w / 2 ^ 21 % 2 ^ 27
  · obtain ⟨i, hi, hw⟩ := h
    obtain ⟨j, hj, hlast, hsame⟩ := exists_last_iteration hi
    exact Or.inr ⟨j, hj, hlast, hsame.trans hw,
      nestedMap_eq_some hn hj hlast (hsame.trans hw)⟩
  · push Not at h
    exact Or.inl ⟨nestedMap_eq_none hn h, h⟩

/-- Every page is mapped for the user. -/
theorem nestedMap_user {vmPmemPfn : UInt64} {n w : Nat} {p : UInt64} {isUser : Int32}
    (h : nestedMap vmPmemPfn n w = some (p, isUser)) : isUser = 1 := by
  induction n with
  | zero => cases h
  | succ n ih =>
    rw [nestedMap, PageMap.set] at h
    split_ifs at h
    · exact (Prod.mk.inj (Option.some.inj h)).2.symm
    · exact ih h

/-! ## The table -/

section Table

variable {alloc : UInt64 → UInt64 → M UInt64} {E : Stop → Prop} {priv : Set Nat}
  {Inv : Nat → State → Prop}

/-- `alloc_vm_pmem` gets whole pages at a 2 MB boundary. -/
theorem wp_allocVmPmem (hA : AllocContract alloc E priv Inv) {k : Nat} {s : State}
    {size : UInt64} (hinv : Inv (k + (size >>> PAGE_SHIFT).toNat + 512) s)
    {Q : UInt64 → State → Prop}
    (hQ : ∀ r s', AllocResult E priv (size >>> PAGE_SHIFT) 512 r s s' → Inv k s' →
      Q (VIRT (r <<< PAGE_SHIFT)) s') :
    wp (allocVmPmem alloc size) Q E s := by
  have hnr := toNat_shiftRight_PAGE_SHIFT size
  have hsize := size.toNat_lt
  have h512 : (512 : UInt64).toNat = 512 := rfl
  rw [allocVmPmem, wp_bind]
  refine wp_imp (hA.alloc (show AllocArgs (size >>> PAGE_SHIFT) 512 from
    ⟨by omega, by omega, by omega⟩) hinv) ?_
  rintro r s' ⟨hinv', hres⟩
  rw [wp_pure]
  exact hQ r s' hres hinv'

/-- The physical address of the memory of a VM. -/
theorem toNat_PHYS_vmPmem {nr r : UInt64} {s s' : State}
    (h : AllocResult E priv nr 512 r s s') :
    (PHYS (VIRT (r <<< PAGE_SHIFT))).toNat = r.toNat * 4096 ∧
      2 ^ 21 ∣ (VIRT (r <<< PAGE_SHIFT)).toNat := by
  have hle := h.le
  have hshift := toNat_shiftLeft_PAGE_SHIFT (x := r) (by omega)
  have hdvd : 512 ∣ r.toNat := h.aligned
  refine ⟨by rw [PHYS_VIRT, hshift], ?_⟩
  rw [toNat_VIRT, hshift]
  omega

/-- The number of iterations. -/
def nrVmPages (vmPmemSize : UInt64) : Nat := (vmPmemSize.toNat + 2097151) / 2097152

theorem toNat_PFN_UP_2MB {x : UInt64} (h : x.toNat ≤ 2 ^ 47) :
    (PFN_UP_2MB x).toNat = nrVmPages x := by
  have hsum : (x + PAGE_SIZE_2MB - 1).toNat = x.toNat + 2097151 := by
    rw [UInt64.toNat_sub, UInt64.toNat_add, show PAGE_SIZE_2MB.toNat = 2097152 from rfl,
      show (1 : UInt64).toNat = 1 from rfl]
    omega
  rw [PFN_UP_2MB, UInt64.toNat_shiftRight, Nat.shiftRight_eq_div_pow, hsum, nrVmPages]
  rfl

/-- The tables at frame `f`, all of them new, hold the map of the loop. -/
structure NestedTable (priv : Set Nat) (vmPmemStart vmPmemSize : UInt64) (f : Nat)
    (S : Set Nat) (s : State) (ext : List (UInt64 × UInt64)) (s' : State) : Prop where
  tree : Tables s'.mem 2 f S
  owned : OwnedTables priv s' S
  new : ∀ g ∈ S, ∃ q ∈ ext, g ∈ rangeFrames q
  holds : Holds s'.mem f
    (nestedMap (PFN_DOWN_2MB (PHYS vmPmemStart)) (nrVmPages vmPmemSize))
  evolves : Evolves priv ext s s'

/-- The loop before iteration `j`: the tables hold the map of the iterations so
far. -/
def NestedLoop (Inv : Nat → State → Prop) (priv : Set Nat) (vmPmemStart vmPmemSize : UInt64)
    (k f : Nat) (s₀ : State) (j : Nat) (s : State) : Prop :=
  j ≤ nrVmPages vmPmemSize ∧ Inv (k + 4 * (nrVmPages vmPmemSize - j)) s ∧
    ∃ ext S, TableRun priv f {f} s₀ ext S
      (nestedMap (PFN_DOWN_2MB (PHYS vmPmemStart)) j) s

/-- One iteration maps one page, or the loop ends. -/
theorem wp_mapVmPmemPage (hA : AllocContract alloc E priv Inv)
    {vmPmemStart vmPmemSize : UInt64} (hsize : vmPmemSize.toNat ≤ 2 ^ 47) {k f j : Nat}
    {s₀ s : State} (h : NestedLoop Inv priv vmPmemStart vmPmemSize k f s₀ j s) :
    wp (mapVmPmemPage alloc (frameVaddr f) (PFN_DOWN_2MB (PHYS vmPmemStart)) vmPmemSize
      (Int32.ofNat j)) (fun r s' =>
        match r with
        | .inl i => i = Int32.ofNat (j + 1) ∧
            NestedLoop Inv priv vmPmemStart vmPmemSize k f s₀ (j + 1) s'
        | .inr _ => NestedLoop Inv priv vmPmemStart vmPmemSize k f s₀
            (nrVmPages vmPmemSize) s') E s := by
  have hle : nrVmPages vmPmemSize ≤ 2 ^ 26 := by
    rw [nrVmPages]
    omega
  have hj := h.1
  have hlt : toULong (Int32.ofNat j) < PFN_UP_2MB vmPmemSize ↔ j < nrVmPages vmPmemSize := by
    rw [toULong_ofNat (by omega), UInt64.lt_iff_toNat_lt, toNat_PFN_UP_2MB hsize,
      UInt64.toNat_ofNat']
    omega
  rw [mapVmPmemPage]
  split_ifs with hcont
  · rw [hlt] at hcont
    obtain ⟨-, hinv, ext, S, hrun⟩ := h
    rw [wp_bind]
    refine wp_imp (wp_mmap hA (k := k + 4 * (nrVmPages vmPmemSize - (j + 1))) hrun
      (hA.mono (by omega) hinv) _ _ _) ?_
    rintro _ s' ⟨ext', S', hinv', hrun'⟩
    rw [wp_pure]
    exact ⟨ofNat_succ j, hcont, hinv', ext', S', hrun'⟩
  · rw [hlt, Nat.not_lt] at hcont
    rw [wp_pure]
    exact Nat.le_antisymm hj hcont ▸ h

/-- `create_vm_pmem_mapping_table` builds the map.  It may take two frames for
the PML4 table and four for each page. -/
theorem wp_createVmPmemMappingTable (hA : AllocContract alloc E priv Inv) {k : Nat}
    {s : State} {vmPmemStart vmPmemSize : UInt64} (hsize : vmPmemSize.toNat ≤ 2 ^ 47)
    (hinv : Inv (k + 4 * nrVmPages vmPmemSize + 2) s) {Q : UInt64 → State → Prop}
    (hQ : ∀ f S ext s', NestedTable priv vmPmemStart vmPmemSize f S s ext s' → Inv k s' →
      Q (UInt64.ofNat (f * 4096)) s') :
    wp (createVmPmemMappingTable alloc vmPmemStart vmPmemSize) Q E s := by
  have hle : nrVmPages vmPmemSize ≤ 2 ^ 26 := by
    rw [nrVmPages]
    omega
  rw [createVmPmemMappingTable, wp_bind]
  refine wp_pml4TableCreate hA hinv fun f s₁ hnew hinv₁ hrun₁ => ?_
  rw [wp_bind]
  refine wp_imp (wp_loop (Q := fun _ s' => NestedLoop Inv priv vmPmemStart vmPmemSize k f s₁
      (nrVmPages vmPmemSize) s')
    (fun i s' => ∃ j, i = Int32.ofNat j ∧
      NestedLoop Inv priv vmPmemStart vmPmemSize k f s₁ j s')
    (fun i => 2 ^ 26 - i.toInt.toNat) ?_ INT_FUEL 0 s₁
    ⟨0, rfl, Nat.zero_le _, hinv₁, [], {f}, hrun₁⟩ (by decide)) ?_
  · rintro _ s' ⟨j, rfl, h⟩
    refine wp_imp (wp_mapVmPmemPage hA hsize h) ?_
    rintro (i | _) s'' hr
    · obtain ⟨rfl, hr⟩ := hr
      have hj := hr.1
      refine ⟨⟨j + 1, rfl, hr⟩, ?_⟩
      rw [Int32.toInt_ofNat_of_lt (by omega), Int32.toInt_ofNat_of_lt (by omega)]
      omega
    · exact hr
  · rintro _ s' ⟨-, hinv', ext, S, hrun⟩
    have hroot : ∀ g, g = f → g ∈ rangeFrames (UInt64.ofNat f, 1) := fun g hg =>
      (rangeFrames_one (by have := hnew.lt; omega)).mpr hg
    rw [printf_bind, wp_pure]
    refine hQ f S (ext ++ [(UInt64.ofNat f, 1)]) s' ⟨hrun.step.tree, hrun.step.owned,
      fun g hg => ?_, hrun.holds, ?_⟩ (hA.mono (by omega) hinv')
    · by_cases hgf : g = f
      · exact ⟨_, List.mem_append_right _ (List.mem_singleton_self _), hroot g hgf⟩
      · obtain ⟨q, hq, hqg⟩ := hrun.step.new g hg hgf
        exact ⟨q, List.mem_append_left _ hq, hqg⟩
    · refine (hnew.evolves.trans hrun.step.evolves).mono ?_
      rintro a (ha | ha | ha)
      · exact Or.inl ha
      · exact Or.inl ha
      · exact Or.inr ⟨_, List.mem_append_right _ (List.mem_singleton_self _), hroot _ ha⟩

/-- The walk of the processor over the table. -/
theorem NestedTable.walk {vmPmemStart vmPmemSize : UInt64} {f : Nat} {S : Set Nat}
    {s s' : State} {ext : List (UInt64 × UInt64)}
    (h : NestedTable priv vmPmemStart vmPmemSize f S s ext s')
    (hsize : vmPmemSize.toNat ≤ 2 ^ 47) (g : Nat) :
    (walk s'.mem (f * 4096) g = none ∧
      ∀ i, i < nrVmPages vmPmemSize → guestPage i ≠ g / 2 ^ 21 % 2 ^ 27) ∨
    ∃ i t, i < nrVmPages vmPmemSize ∧ nrVmPages vmPmemSize ≤ i + 2048 ∧
      guestPage i = g / 2 ^ 21 % 2 ^ 27 ∧ walk s'.mem (f * 4096) g = some t ∧
      t.paddr = (if i = 0 then 0
        else (i + (PHYS vmPmemStart).toNat / 2 ^ 21) % 2 ^ 31) * 2 ^ 21 + g % 2 ^ 21 := by
  have hle : nrVmPages vmPmemSize ≤ 2 ^ 31 := by
    rw [nrVmPages]
    omega
  have hpfn : (PFN_DOWN_2MB (PHYS vmPmemStart)).toNat = (PHYS vmPmemStart).toNat / 2 ^ 21 := by
    rw [PFN_DOWN_2MB, UInt64.toNat_shiftRight, Nat.shiftRight_eq_div_pow]
    rfl
  obtain ⟨hnone, hsome⟩ := h.holds.walk h.tree h.owned g
  rcases nestedMap_cases (PFN_DOWN_2MB (PHYS vmPmemStart)) hle g with
    ⟨hm, hpages⟩ | ⟨i, hi, hlast, hpage, hm⟩
  · exact Or.inl ⟨hnone hm, hpages⟩
  · obtain ⟨t, hwalk, hpageOf⟩ := hsome _ _ hm
    refine Or.inr ⟨i, t, hi, hlast, hpage, hwalk, ?_⟩
    rw [hpageOf.paddr, toNat_pmPaddr (by omega), hpfn]

/-- The guest may read and write every page that the table maps. -/
theorem NestedTable.rights {vmPmemStart vmPmemSize : UInt64} {f : Nat} {S : Set Nat}
    {s s' : State} {ext : List (UInt64 × UInt64)}
    (h : NestedTable priv vmPmemStart vmPmemSize f S s ext s') {g : Nat} {t : Translation}
    (hw : LongMode.walk s'.mem (f * 4096) g = some t) :
    t.user = true ∧ t.writable = true := by
  obtain ⟨hnone, hsome⟩ := h.holds.walk h.tree h.owned g
  cases hm : nestedMap (PFN_DOWN_2MB (PHYS vmPmemStart)) (nrVmPages vmPmemSize) g with
  | none =>
    rw [hnone hm] at hw
    cases hw
  | some pu =>
    obtain ⟨p, isUser⟩ := pu
    obtain ⟨t', hw', hpage⟩ := hsome p isUser hm
    obtain rfl := nestedMap_user hm
    obtain rfl := Option.some.inj (hw.symm.trans hw')
    exact ⟨hpage.user.trans (by decide), hpage.writable⟩

end Table

/-! ## The intended map -/

/-- What the table is for: `[2 MB, size)` of the guest is the memory of the VM,
the first 2 MB are passed through, and there is nothing above. -/
structure MapsVmPmem (vmPmemStart vmPmemSize cr3 : UInt64) (s : State) : Prop where
  low : 0 < vmPmemSize.toNat → ∀ g, g < 2 ^ 21 →
    ∃ t, walk s.mem cr3.toNat g = some t ∧ t.paddr = g
  vm : ∀ g, 2 ^ 21 ≤ g → g < vmPmemSize.toNat →
    ∃ t, walk s.mem cr3.toNat g = some t ∧ t.paddr = (PHYS vmPmemStart).toNat + g
  above : ∀ g, nrVmPages vmPmemSize * 2 ^ 21 ≤ g → g < 2 ^ 48 →
    walk s.mem cr3.toNat g = none

section Maps

variable {priv : Set Nat} {vmPmemStart vmPmemSize : UInt64} {f : Nat} {S : Set Nat}
  {s s' : State} {ext : List (UInt64 × UInt64)}

theorem toNat_PHYS_aligned {start : UInt64} (h : 2 ^ 21 ∣ start.toNat) :
    2 ^ 21 ∣ (PHYS start).toNat := by
  rw [toNat_PHYS]
  omega

theorem guestPage_of_lt {i : Nat} (hi : i < 1024) : guestPage i = i := by
  rw [guestPage, Nat.mod_eq_of_lt (by omega), if_pos hi]

/-- Up to 2 GB every iteration maps its own page, and the walk of an address is
the one of its iteration. -/
theorem NestedTable.walk_of_le (h : NestedTable priv vmPmemStart vmPmemSize f S s ext s')
    (hsize : vmPmemSize.toNat ≤ 2 ^ 31) {g : Nat} (hg : g < 2 ^ 48) :
    (nrVmPages vmPmemSize ≤ g / 2 ^ 21 → LongMode.walk s'.mem (f * 4096) g = none) ∧
    (g / 2 ^ 21 < nrVmPages vmPmemSize →
      ∃ t, LongMode.walk s'.mem (f * 4096) g = some t ∧
        t.paddr = (if g < 2 ^ 21 then 0
          else (g / 2 ^ 21 + (PHYS vmPmemStart).toNat / 2 ^ 21) % 2 ^ 31) * 2 ^ 21 +
            g % 2 ^ 21) := by
  have hn : nrVmPages vmPmemSize ≤ 1024 := by
    rw [nrVmPages]
    omega
  have hmod : g / 2 ^ 21 % 2 ^ 27 = g / 2 ^ 21 := by omega
  rcases h.walk (by omega) g with ⟨hnone, hpages⟩ | ⟨i, t, hi, -, hpage, hwalk, hpaddr⟩
  · refine ⟨fun _ => hnone, fun hlt => absurd ?_ (hpages _ hlt)⟩
    rw [guestPage_of_lt (by omega), hmod]
  · rw [guestPage_of_lt (by omega), hmod] at hpage
    subst hpage
    refine ⟨fun hle => absurd hi (Nat.not_lt.mpr hle), fun _ => ⟨t, hwalk, ?_⟩⟩
    rw [hpaddr]
    congr 2
    exact if_congr (by omega) rfl rfl

/-- The table is the intended one exactly when the counter stays below 1024 and
the memory of the VM lies below the top of the physical address space. -/
theorem NestedTable.mapsVmPmem_iff (h : NestedTable priv vmPmemStart vmPmemSize f S s ext s')
    (hstart : 2 ^ 21 ∣ vmPmemStart.toNat) (hsize : vmPmemSize.toNat ≤ 2 ^ 47) :
    MapsVmPmem vmPmemStart vmPmemSize (UInt64.ofNat (f * 4096)) s' ↔
      vmPmemSize.toNat ≤ 2 ^ 31 ∧ (vmPmemSize.toNat ≤ 2 ^ 21 ∨
        (PHYS vmPmemStart).toNat + vmPmemSize.toNat ≤ 2 ^ 52) := by
  have hroot := (h.owned.addressable f h.tree.root_mem).toNat
  have hphys := toNat_PHYS_aligned hstart
  constructor
  · rintro ⟨-, hvm, -⟩
    have hle : vmPmemSize.toNat ≤ 2 ^ 31 := by
      by_contra hgt
      obtain ⟨t, hwalk, -⟩ := hvm (2 ^ 31) (by omega) (by omega)
      rw [hroot] at hwalk
      rcases h.walk hsize (2 ^ 31) with ⟨hnone, -⟩ | ⟨i, -, -, -, hpage, -⟩
      · rw [hnone] at hwalk
        cases hwalk
      · rw [guestPage] at hpage
        split_ifs at hpage <;> omega
    refine ⟨hle, ?_⟩
    by_contra hout
    push Not at hout
    obtain ⟨t, hwalk, hpaddr⟩ := hvm (vmPmemSize.toNat - 1) (by omega) (by omega)
    rw [hroot] at hwalk
    have hlt : (vmPmemSize.toNat - 1) / 2 ^ 21 < nrVmPages vmPmemSize := by
      rw [nrVmPages]
      omega
    obtain ⟨t', hwalk', hpaddr'⟩ := (h.walk_of_le hle (by omega)).2 hlt
    rw [hwalk] at hwalk'
    cases hwalk'
    rw [if_neg (by omega)] at hpaddr'
    omega
  · rintro ⟨hle, hfit⟩
    have hn : nrVmPages vmPmemSize = (vmPmemSize.toNat + 2097151) / 2097152 := rfl
    refine ⟨fun hpos g hg => ?_, fun g hg hlt => ?_, fun g hg hlt => ?_⟩
    · obtain ⟨t, hwalk, hpaddr⟩ := (h.walk_of_le hle (g := g) (by omega)).2 (by omega)
      rw [if_pos hg] at hpaddr
      rw [hroot]
      exact ⟨t, hwalk, by omega⟩
    · obtain ⟨t, hwalk, hpaddr⟩ := (h.walk_of_le hle (g := g) (by omega)).2 (by omega)
      rw [if_neg (by omega)] at hpaddr
      rw [hroot]
      exact ⟨t, hwalk, by omega⟩
    · rw [hroot]
      exact (h.walk_of_le hle hlt).1 (by omega)

end Maps

/-- `create_vm_pmem_mapping_table` implements the intended map exactly for a VM
of at most 2 GB that ends below the top of physical memory. -/
theorem createVmPmemMappingTable_maps {alloc : UInt64 → UInt64 → M UInt64}
    {E : Stop → Prop} {priv : Set Nat} {Inv : State → Prop}
    (hA : AllocContract alloc E priv fun _ => Inv) {s : State} (hs : Inv s)
    {vmPmemStart vmPmemSize : UInt64} (hstart : 2 ^ 21 ∣ vmPmemStart.toNat)
    (hsize : vmPmemSize.toNat ≤ 2 ^ 47) :
    wp (createVmPmemMappingTable alloc vmPmemStart vmPmemSize) (fun cr3 s' =>
      MapsVmPmem vmPmemStart vmPmemSize cr3 s' ↔
        vmPmemSize.toNat ≤ 2 ^ 31 ∧ (vmPmemSize.toNat ≤ 2 ^ 21 ∨
          (PHYS vmPmemStart).toNat + vmPmemSize.toNat ≤ 2 ^ 52)) E s :=
  wp_createVmPmemMappingTable hA (k := 0) hsize hs
    fun _ _ _ _ h _ => h.mapsVmPmem_iff hstart hsize

/-- A VM of 4 MB on the sample machine. -/
theorem sample_createVmPmemMappingTable_maps : ∃ s₁ start s₂ cr3 s₃,
    allocVmPmem allocPages 0x400000 s₁ = .ok (start, s₂) ∧
    createVmPmemMappingTable allocPages start 0x400000 s₂ = .ok (cr3, s₃) ∧
    (MapsVmPmem start 0x400000 cr3 s₃ ↔
      (0x400000 : UInt64).toNat ≤ 2 ^ 31 ∧ ((0x400000 : UInt64).toNat ≤ 2 ^ 21 ∨
        (PHYS start).toNat + (0x400000 : UInt64).toNat ≤ 2 ^ 52)) := by
  obtain ⟨L, s₁, -, hready, hroom⟩ := sample_init sampleState
  have hcontract := allocPages_contract (fun _ => False) L
  obtain ⟨_, s₂, halloc, hinv, r, rfl, hdvd⟩ := exists_ok_of_wp
    (c := allocVmPmem allocPages 0x400000)
    (wp_allocVmPmem hcontract (k := 10) (sample_budget hready hroom (by decide))
    (Q := fun start s₂ => Budget (fun _ => False) L 10 s₂ ∧
      ∃ r, start = VIRT (r <<< PAGE_SHIFT) ∧ 2 ^ 21 ∣ start.toNat)
    fun r s₂ hres hinv => ⟨hinv, r, rfl, (toNat_PHYS_vmPmem hres).2⟩)
  obtain ⟨cr3, s₃, hrun, -⟩ := exists_ok_of_wp
    (c := createVmPmemMappingTable allocPages (VIRT (r <<< PAGE_SHIFT)) 0x400000)
    (wp_createVmPmemMappingTable hcontract (k := 0) (by decide)
    (show Budget _ L (0 + 4 * nrVmPages 0x400000 + 2) s₂ from hinv)
    (Q := fun _ _ => True) fun _ _ _ _ _ _ => trivial)
  exact ⟨s₁, _, s₂, cr3, s₃, halloc, hrun, wp_ok (createVmPmemMappingTable_maps
    (allocPages_contract_returns L)
    hinv.1 hdvd (by decide)) hrun⟩

/-- A VM of 2 GB and 2 MB: the last page of its memory is mapped nowhere near
2 GB, where it belongs. -/
theorem createVmPmemMappingTable_not_maps : ∃ s₁ start s₂ cr3 s₃,
    allocVmPmem allocPages 0x80200000 s₁ = .ok (start, s₂) ∧ 2 ^ 21 ∣ start.toNat ∧
    createVmPmemMappingTable allocPages start 0x80200000 s₂ = .ok (cr3, s₃) ∧
    ¬MapsVmPmem start 0x80200000 cr3 s₃ := by
  obtain ⟨L, s₁, -, hready, hroom⟩ := sample_init sampleState
  have hcontract := allocPages_contract (fun _ => False) L
  have hwp : wp (allocVmPmem allocPages 0x80200000) (fun start s₂ =>
      Budget (fun _ => False) L 5000 s₂ ∧ 2 ^ 21 ∣ start.toNat) (fun _ => False) s₁ := by
    rw [allocVmPmem, wp_bind]
    refine sample_allocPages_high hready hroom (by decide)
      (by decide) fun r s₂ hr _ hroom₂ => ?_
    have hinv := hr.inv hready.inv
    have hlt := hr.lt_maxPage
    have hmax := hready.inv.maxPage_le
    have hdvd : 512 ∣ r.toNat := hr.aligned
    have hshift := toNat_shiftLeft_PAGE_SHIFT (x := r) (by omega)
    rw [wp_pure]
    refine ⟨⟨hinv, Or.inl ⟨4096, 131072, hroom₂, by decide, by decide⟩⟩, ?_⟩
    rw [toNat_VIRT, hshift]
    omega
  obtain ⟨start, s₂, halloc, hinv, hdvd⟩ := exists_ok_of_wp hwp
  obtain ⟨cr3, s₃, hrun, hnot⟩ := exists_ok_of_wp
    (c := createVmPmemMappingTable allocPages start 0x80200000)
    (wp_createVmPmemMappingTable hcontract (k := 0) (by decide)
    (hcontract.mono (by decide) hinv)
    (Q := fun cr3 s₃ => ¬MapsVmPmem start 0x80200000 cr3 s₃) fun f S ext s₃ h _ hmaps => by
      have := ((h.mapsVmPmem_iff hdvd (by decide)).mp hmaps).1
      exact absurd this (by decide))
  exact ⟨s₁, start, s₂, cr3, s₃, halloc, hdvd, hrun, hnot⟩

end Tvmm
