import Tvmm.ElfImage
import Tvmm.TempTable
import Tvmm.Vm

/-!
# `vm.c`: `vm_create`

The second part of `vm_create` loads the guest image into the memory of the VM,
stores the entry point and creates the temporary page table at the `cr3` that it
reads back from the VMCB.  `VmCreated` is the state in which it returns, when
the loader wrote only to the pages of the VM, and `vmCreate_of_run` finds it in every run.
-/

set_option linter.style.nameCheck false

namespace Tvmm

open Exec LongMode

/-- Where `init_vm_mbi` puts the multiboot information of the guest. -/
def vmMbi (vmPmemStart : UInt64) : UInt64 := vmPmemStart + 0x2d0e0

/-- `init_vm_mbi` -/
def initVmMbi (vmPmemStart : UInt64) : M UInt64 := do
  printf "Multiboot information initialized.\n"
  return vmMbi vmPmemStart

/-- `struct vm` -/
structure Vm where
  vmcb : UInt64
  hCr3 : UInt64
  mbi : UInt64
  deriving DecidableEq, Repr

/-- `vm_create` from the call of `load_elf_image` on. -/
def vmCreateGuest (guestImageStart guestImageSize : UInt64) (v : VmVars) : M Vm := do
  let rip ← loadElfImage guestImageStart guestImageSize v.vmPmemStart
  Vmcb.rip.store v.vmcb rip
  let mbi ← initVmMbi v.vmPmemStart
  let cr3 ← Vmcb.cr3.load v.vmcb
  createTempPageTable v.vmPmemStart cr3
  printf "New virtual machine created.\n"
  return { vmcb := v.vmcb, hCr3 := v.hCr3, mbi := mbi }

/-- `vm_create`.  The result is what is in `*vm` when it returns. -/
def vmCreate (allocPages : UInt64 → UInt64 → M UInt64)
    (guestImageStart guestImageSize vmPmemSize : UInt64) : M Vm := do
  let v ← vmCreateMemory allocPages vmPmemSize
  vmCreateGuest guestImageStart guestImageSize v

/-- The frames of the memory of the VM. -/
abbrev vmFrames (r vmPmemSize : UInt64) : Set Nat :=
  rangeFrames (r, nrVmFrames vmPmemSize)

/-- The bytes of those frames. -/
abbrev vmPmemBytes (r vmPmemSize : UInt64) : Set Nat :=
  rangeBytes [(r, nrVmFrames vmPmemSize)]

/-- The first frame of the temporary page table. -/
def tempFrame (r : UInt64) : Nat := r.toNat + 0x203

/-- The second part of `vm_create`, between the states `s₁` and `s'`: the loader
left `s₂`, the store of `rip` left `s₃`. -/
structure GuestCreated (n : Nat) (r vmPmemSize : UInt64) (s₁ s₂ s₃ s' : State) : Prop where
  load : OnlyWrites (vmPmemBytes r vmPmemSize) s₁ s₂
  rip : OnlyWrites (Vmcb.rip.bytes n) s₂ s₃
  temp : TempTable (tempFrame r) s₃ s'

section Guest

variable {E : Stop → Prop} {priv : Set Nat} {vmPmemSize : UInt64} {n : Nat} {r : UInt64}
  {f : Nat} {S : Set Nat} {own : List (UInt64 × UInt64)} {s₀ s₁ s₂ s₃ s' : State}

theorem mem_vmPmemBytes {a : Nat} :
    a ∈ vmPmemBytes r vmPmemSize ↔ a / 4096 ∈ vmFrames r vmPmemSize := by
  simp [vmPmemBytes, rangeBytes]

/-- The memory of the VM as a range of bytes. -/
theorem vmPmemBytes_eq (r vmPmemSize : UInt64) : vmPmemBytes r vmPmemSize =
    Set.Ico (r.toNat * 4096) (r.toNat * 4096 + (nrVmFrames vmPmemSize).toNat * 4096) := by
  ext a
  rw [mem_vmPmemBytes, mem_rangeFrames, Set.mem_Ico]
  omega

namespace VmMemory

/-- The physical address of the memory of the VM. -/
theorem toNat_start (h : VmMemory E priv vmPmemSize n r f S own s₀ s₁) :
    (r <<< PAGE_SHIFT).toNat = r.toNat * 4096 := by
  have := h.pmem_le
  exact toNat_shiftLeft_PAGE_SHIFT (by omega)

/-- The temporary page table lies at `cr3` from the start of that memory on. -/
theorem temp_start (h : VmMemory E priv vmPmemSize n r f S own s₀ s₁) :
    VIRT (r <<< PAGE_SHIFT) + GUEST_CR3 = VIRT (r <<< PAGE_SHIFT + GUEST_CR3) ∧
      (r <<< PAGE_SHIFT + GUEST_CR3).toNat = tempFrame r * 4096 := by
  have hle := h.pmem_le
  constructor
  · rw [VIRT, VIRT, UInt64.add_assoc, UInt64.add_assoc, UInt64.add_comm VMM_OFFSET]
  · rw [UInt64.toNat_add, h.toNat_start, show GUEST_CR3.toNat = 0x203000 by decide, tempFrame]
    omega

/-- The VMCB lies outside the memory of the VM. -/
theorem vmcb_disjoint (h : VmMemory E priv vmPmemSize n r f S own s₀ s₁) :
    Disjoint (vmPmemBytes r vmPmemSize) (frameBytes n) := by
  rw [Set.disjoint_left]
  intro a ha han
  rw [mem_vmPmemBytes] at ha
  rw [mem_frameBytes] at han
  exact h.vmcb_pmem (han ▸ ha)

/-- The second part of `vm_create`, for a loader that writes only to `X`, apart from
the VMCB. -/
theorem wp_vmCreateGuest_writes (h : VmMemory E priv vmPmemSize n r f S own s₀ s₁)
    {X : Set Nat} (hX : Disjoint X (frameBytes n)) {img imgSize : UInt64}
    {P : UInt64 → State → Prop}
    (hload : wp (loadElfImage img imgSize (VIRT (r <<< PAGE_SHIFT))) (fun entry s₂ =>
      OnlyWrites X s₁ s₂ ∧ P entry s₂) E s₁)
    (htemp : Accessible E (VIRT (r <<< PAGE_SHIFT) + GUEST_CR3) (3 * 4096))
    {Q : Vm → State → Prop}
    (hQ : ∀ entry s₂ s₃ s', P entry s₂ → OnlyWrites X s₁ s₂ →
      OnlyWrites (Vmcb.rip.bytes n) s₂ s₃ → TempTable (tempFrame r) s₃ s' →
      Q ⟨frameVaddr n, UInt64.ofNat (f * 4096), vmMbi (VIRT (r <<< PAGE_SHIFT))⟩ s') :
    wp (vmCreateGuest img imgSize
      ⟨frameVaddr n, VIRT (r <<< PAGE_SHIFT), UInt64.ofNat (f * 4096)⟩) Q E s₁ := by
  have hle := h.pmem_le
  obtain ⟨hstart, hfirst⟩ := h.temp_start
  rw [vmCreateGuest, wp_bind]
  refine wp_imp hload ?_
  rintro entry s₂ ⟨hw₂, hP⟩
  rw [wp_bind]
  refine Vmcb.rip.wp_store h.vmcb fun s₃ hw₃ _ => ?_
  have hcr3 : Vmcb.cr3.value n s₃ = GUEST_CR3.toNat := by
    rw [VmcbField.value_congr (hw₃.eqOn (Set.disjoint_left.mpr fun a ha ha' => ?_)),
      VmcbField.value_congr ((hw₂.eqOn hX).mono (Vmcb.cr3.bytes_subset n)), h.cr3]
    rw [VmcbField.bytes, Set.mem_Ico] at ha ha'
    simp only [Vmcb.rip, Vmcb.cr3] at ha ha'
    omega
  rw [initVmMbi, printf_bind, pure_bind]
  refine wp_bind_of_ok (Vmcb.cr3.load_of_addressable h.vmcb s₃) ?_
  rw [hcr3, UInt64.ofNat_toNat, wp_bind]
  refine wp_createTempPageTable hstart hfirst ?_ (hstart ▸ htemp) fun s' htable => ?_
  · have := r.toNat_lt
    rw [tempFrame]
    omega
  · rw [printf_bind, wp_pure]
    exact hQ entry s₂ s₃ s' hP hw₂ hw₃ htable

/-- The second part of `vm_create`, for a loader that stays in the pages of the
VM. -/
theorem wp_vmCreateGuest (h : VmMemory E priv vmPmemSize n r f S own s₀ s₁)
    {img imgSize : UInt64} {P : UInt64 → State → Prop}
    (hload : wp (loadElfImage img imgSize (VIRT (r <<< PAGE_SHIFT))) (fun entry s₂ =>
      OnlyWrites (vmPmemBytes r vmPmemSize) s₁ s₂ ∧ P entry s₂) E s₁)
    (htemp : Accessible E (VIRT (r <<< PAGE_SHIFT) + GUEST_CR3) (3 * 4096))
    {Q : Vm → State → Prop}
    (hQ : ∀ entry s₂ s₃ s', P entry s₂ → GuestCreated n r vmPmemSize s₁ s₂ s₃ s' →
      Q ⟨frameVaddr n, UInt64.ofNat (f * 4096), vmMbi (VIRT (r <<< PAGE_SHIFT))⟩ s') :
    wp (vmCreateGuest img imgSize
      ⟨frameVaddr n, VIRT (r <<< PAGE_SHIFT), UInt64.ofNat (f * 4096)⟩) Q E s₁ :=
  h.wp_vmCreateGuest_writes h.vmcb_disjoint hload htemp
    fun entry s₂ s₃ s' hP hw₂ hw₃ htable => hQ entry s₂ s₃ s' hP ⟨hw₂, hw₃, htable⟩

/-- A loader whose segments fit in the pages of the VM stays in them. -/
theorem wp_loadElfImage (h : VmMemory E priv vmPmemSize n r f S own s₀ s₁)
    (hE : ∀ u, E (.pageFault u)) {img imgSize : UInt64}
    (hfits : ∀ i s₂, Reaches (loadSegment img (VIRT (r <<< PAGE_SHIFT))) 0 s₁ i s₂ →
      SegmentFits img (VIRT (r <<< PAGE_SHIFT)) (PAGE_DOWN vmPmemSize).toNat i s₂) :
    wp (loadElfImage img imgSize (VIRT (r <<< PAGE_SHIFT)))
      (fun _ s₂ => OnlyWrites (vmPmemBytes r vmPmemSize) s₁ s₂) E s₁ := by
  have hle := h.pmem_le
  have hnr := toNat_shiftRight_PAGE_SHIFT vmPmemSize
  have hdown := toNat_PAGE_DOWN vmPmemSize
  have hpages : (PAGE_DOWN vmPmemSize).toNat = (nrVmFrames vmPmemSize).toNat * 4096 := by
    rw [hdown, nrVmFrames, hnr]
  refine wp_imp (wp_loadElfImage_fits hE hfits) fun _ s₂ hw => hw.mono ?_
  have hbytes := physBytes_VIRT (p := r <<< PAGE_SHIFT) (n := (PAGE_DOWN vmPmemSize).toNat)
    (by rw [h.toNat_start, hpages]; omega)
  rwa [h.toNat_start, hpages, ← vmPmemBytes_eq, ← hpages] at hbytes

/-- The second part of `vm_create` for an image whose segments fit, as far as it
returns. -/
theorem wp_vmCreateGuest_fits (h : VmMemory (fun _ => True) priv vmPmemSize n r f S own s₀ s₁)
    {img imgSize : UInt64}
    (hfits : ∀ i s₂, Reaches (loadSegment img (VIRT (r <<< PAGE_SHIFT))) 0 s₁ i s₂ →
      SegmentFits img (VIRT (r <<< PAGE_SHIFT)) (PAGE_DOWN vmPmemSize).toNat i s₂)
    {Q : Vm → State → Prop}
    (hQ : ∀ s₂ s₃ s', GuestCreated n r vmPmemSize s₁ s₂ s₃ s' →
      Q ⟨frameVaddr n, UInt64.ofNat (f * 4096), vmMbi (VIRT (r <<< PAGE_SHIFT))⟩ s') :
    wp (vmCreateGuest img imgSize
      ⟨frameVaddr n, VIRT (r <<< PAGE_SHIFT), UInt64.ofNat (f * 4096)⟩) Q
      (fun _ => True) s₁ := by
  have hload : wp (loadElfImage img imgSize (VIRT (r <<< PAGE_SHIFT)))
      (fun _ s₂ => OnlyWrites (vmPmemBytes r vmPmemSize) s₁ s₂ ∧ True) (fun _ => True) s₁ :=
    wp_imp (h.wp_loadElfImage (fun _ => trivial) hfits) fun _ _ hw => ⟨hw, trivial⟩
  exact h.wp_vmCreateGuest hload (Or.inr fun _ => trivial)
    fun _ s₂ s₃ s' _ hg => hQ s₂ s₃ s' hg

end VmMemory

end Guest

/-- Every segment that the loader accepts, as its header is found when
`vm_create` comes to it, fits in the pages of the VM. -/
def ImageFits (alloc : UInt64 → UInt64 → M UInt64) (img vmPmemSize : UInt64) (s : State) :
    Prop :=
  ∀ v s₁, vmCreateMemory alloc vmPmemSize s = .ok (v, s₁) → ∀ i s₂,
    Reaches (loadSegment img v.vmPmemStart) 0 s₁ i s₂ →
      SegmentFits img v.vmPmemStart (PAGE_DOWN vmPmemSize).toNat i s₂

/-- What a run of `vm_create` that returns has built, for an image that fits. -/
theorem vmCreate_of_run {alloc : UInt64 → UInt64 → M UInt64} {priv : Set Nat}
    {I : State → Prop} (hA : AllocContract alloc (fun _ => True) priv fun _ => I)
    {img imgSize vmPmemSize : UInt64} {vm : Vm} {s s' : State} (hs : I s)
    (hfits : ImageFits alloc img vmPmemSize s)
    (hrun : vmCreate alloc img imgSize vmPmemSize s = .ok (vm, s')) :
    ∃ n r f S own s₁ s₂ s₃, vmCreateMemory alloc vmPmemSize s =
        .ok (⟨frameVaddr n, VIRT (r <<< PAGE_SHIFT), UInt64.ofNat (f * 4096)⟩, s₁) ∧
      vm = ⟨frameVaddr n, UInt64.ofNat (f * 4096), vmMbi (VIRT (r <<< PAGE_SHIFT))⟩ ∧
      VmMemory (fun _ => True) priv vmPmemSize n r f S own s s₁ ∧ I s₁ ∧
      GuestCreated n r vmPmemSize s₁ s₂ s₃ s' := by
  obtain ⟨v, s₁, hmem, hguest⟩ := bind_eq_ok.mp hrun
  obtain ⟨n, r, f, S, own, rfl, hm, hinv⟩ := vmMemory_of_run hA hs hmem
  have hfits' := hfits _ _ hmem
  dsimp only at hfits'
  obtain ⟨s₂, s₃, hvm, hg⟩ := wp_ok (hm.wp_vmCreateGuest_fits hfits'
    (Q := fun vm s' => ∃ s₂ s₃,
      vm = ⟨frameVaddr n, UInt64.ofNat (f * 4096), vmMbi (VIRT (r <<< PAGE_SHIFT))⟩ ∧
        GuestCreated n r vmPmemSize s₁ s₂ s₃ s')
    fun s₂ s₃ s' hg => ⟨s₂, s₃, rfl, hg⟩) hguest
  exact ⟨n, r, f, S, own, s₁, s₂, s₃, hmem, hvm, hm, hinv, hg⟩

/-! ## What `vm_create` writes -/

/-- The temporary pages need this much memory. -/
theorem tempBytes_subset_iff {r vmPmemSize : UInt64} :
    tempBytes (tempFrame r) ⊆ vmPmemBytes r vmPmemSize ↔ 0x206000 ≤ vmPmemSize.toNat := by
  have hnr := toNat_shiftRight_PAGE_SHIFT vmPmemSize
  rw [← nrVmFrames] at hnr
  constructor
  · intro h
    have hlast : (tempFrame r + 2) * 4096 ∈ tempBytes (tempFrame r) := by
      rw [mem_tempBytes]
      omega
    have := mem_vmPmemBytes.mp (h hlast)
    rw [mem_rangeFrames, tempFrame] at this
    omega
  · intro h a ha
    rw [mem_tempBytes, tempFrame] at ha
    rw [mem_vmPmemBytes, mem_rangeFrames]
    omega

namespace GuestCreated

variable {E : Stop → Prop} {priv : Set Nat} {vmPmemSize : UInt64} {n : Nat} {r : UInt64}
  {f : Nat} {S : Set Nat} {own : List (UInt64 × UInt64)} {s₀ s₁ s₂ s₃ s' : State}

/-- The second part of `vm_create` writes the pages of the VM, the VMCB and the
temporary pages. -/
theorem onlyWrites (h : GuestCreated n r vmPmemSize s₁ s₂ s₃ s') :
    OnlyWrites (vmPmemBytes r vmPmemSize ∪ frameBytes n ∪ tempBytes (tempFrame r)) s₁ s' := by
  refine (h.load.mono ?_).trans ((h.rip.mono ?_).trans (h.temp.only.mono ?_))
  · exact Set.subset_union_of_subset_left Set.subset_union_left _
  · exact ((Vmcb.rip.bytes_subset n).trans Set.subset_union_right).trans
      Set.subset_union_left
  · exact Set.subset_union_right

/-- The second part of `vm_create` keeps the invariant of the allocator. -/
theorem keeps {alloc : UInt64 → UInt64 → M UInt64} {Inv : Nat → State → Prop} {k : Nat}
    (h : GuestCreated n r vmPmemSize s₁ s₂ s₃ s') (hA : AllocContract alloc E priv Inv)
    (hm : VmMemory E priv vmPmemSize n r f S own s₀ s₁)
    (hsize : 0x206000 ≤ vmPmemSize.toNat) (hinv : Inv k s₁) : Inv k s' := by
  have hpmem : Disjoint (vmPmemBytes r vmPmemSize) priv := rangeBytes_disjoint hm.pmem_priv
  refine hA.of_onlyWrites hinv h.onlyWrites ?_
  exact Set.disjoint_union_left.mpr ⟨Set.disjoint_union_left.mpr ⟨hpmem, hm.vmcb_priv⟩,
    hpmem.mono_left (tempBytes_subset_iff.mpr hsize)⟩

/-- In a VM that is large enough, `vm_create` writes only what it allocated. -/
theorem evolves (h : GuestCreated n r vmPmemSize s₁ s₂ s₃ s')
    (hm : VmMemory E priv vmPmemSize n r f S own s₀ s₁)
    (hsize : 0x206000 ≤ vmPmemSize.toNat) : Evolves priv own s₀ s' := by
  have hown : ∀ q ∈ own, rangeBytes [q] ⊆ rangeBytes own := by
    rintro q hq a ⟨q', hq', ha⟩
    rw [List.mem_singleton] at hq'
    exact ⟨q, hq, hq' ▸ ha⟩
  have hpmem := hown _ hm.pmem_own
  have hvmcb : frameBytes n ⊆ rangeBytes own := by
    refine Set.Subset.trans (fun a ha => ?_) (hown _ hm.vmcb_own)
    have hn := hm.vmcb
    unfold Addressable at hn
    rw [mem_frameBytes] at ha
    exact ⟨_, List.mem_singleton_self _, (rangeFrames_one (by omega)).mpr ha⟩
  refine (hm.evolves.trans (Evolves.of_onlyWrites h.onlyWrites)).mono ?_
  refine Set.union_subset Set.subset_union_left
    (Set.Subset.trans ?_ Set.subset_union_right)
  exact Set.union_subset (Set.union_subset hpmem hvmcb)
    ((tempBytes_subset_iff.mpr hsize).trans hpmem)

end GuestCreated

end Tvmm
