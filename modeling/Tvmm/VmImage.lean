import Tvmm.AllocContract
import Tvmm.VmCreate

/-!
# A VM from a saved image

`vm_create` is called with the image that `copy_guest_image` saved above the
heap.  The allocator keeps clear of it, so it is whole when the loader reads it,
and a well-formed image is loaded into the pages of the VM.
-/

namespace Tvmm

open Exec

section View

variable {E : Stop → Prop} {priv : Set Nat} {vmPmemSize : UInt64} {n : Nat} {r : UInt64}
  {f : Nat} {S : Set Nat} {own : List (UInt64 × UInt64)} {s₀ s₁ s₂ s₃ s' : State}

/-- The second part of `vm_create`, for a well-formed image apart from the VM. -/
theorem VmMemory.wp_vmCreateGuest_image
    (h : VmMemory E priv vmPmemSize n r f S own s₀ s₁) {p imgSize : UInt64} {N : Nat}
    (himage : ImageLayout p N (r <<< PAGE_SHIFT) ((nrVmFrames vmPmemSize).toNat * 4096) s₁)
    (htemp : Accessible E (VIRT (r <<< PAGE_SHIFT) + GUEST_CR3) (3 * 4096))
    {Q : Vm → State → Prop}
    (hQ : ∀ s₂ s₃ s', GuestCreated n r vmPmemSize s₁ s₂ s₃ s' →
      (∀ i, i < imagePhnum s₁.mem p.toNat → (segment s₁.mem p.toNat i).Loadable →
        InPlace s₁ p (r <<< PAGE_SHIFT) i s₂) →
      Q ⟨frameVaddr n, UInt64.ofNat (f * 4096), vmMbi (VIRT (r <<< PAGE_SHIFT))⟩ s') :
    wp (vmCreateGuest (VIRT p) imgSize
      ⟨frameVaddr n, VIRT (r <<< PAGE_SHIFT), UInt64.ofNat (f * 4096)⟩) Q E s₁ := by
  have hbytes : vmBytes (r <<< PAGE_SHIFT) ((nrVmFrames vmPmemSize).toNat * 4096) =
      vmPmemBytes r vmPmemSize := by
    rw [vmPmemBytes_eq, vmBytes, h.toNat_start]
  refine h.wp_vmCreateGuest (P := fun _ s₂ => ∀ i, i < imagePhnum s₁.mem p.toNat →
    (segment s₁.mem p.toNat i).Loadable → InPlace s₁ p (r <<< PAGE_SHIFT) i s₂)
    (wp_imp (wp_loadElfImage_image himage h.pmem_accessible) ?_) htemp
    fun _ s₂ s₃ s' hplace hg => hQ s₂ s₃ s' hg hplace
  rintro _ s₂ ⟨-, hw, hplace⟩
  exact ⟨hbytes ▸ hw, hplace⟩

end View

/-- The frames that were handed out do not meet what the safe frames do not
meet. -/
theorem AllocInv.rangeBytes_disjoint {L : AllocLayout} {s s' : State}
    {own : List (UInt64 × UInt64)} (h : AllocInv L s')
    (hown : s'.handedOut = own ++ s.handedOut) {X : Set Nat}
    (hX : ∀ f ∈ L.safe, Disjoint (frameBytes f) X) : Disjoint (rangeBytes own) X := by
  rw [Set.disjoint_left]
  rintro a ⟨q, hq, ha⟩ haX
  have hsafe := h.handedOut_safe q (by rw [hown]; exact List.mem_append_left _ hq) ha
  exact Set.disjoint_left.mp (hX _ hsafe) (mem_frameBytes.mpr rfl) haX

section Image

variable {E : Stop → Prop} {endSym : UInt64} {e820 : E820Map} {pml : PmemLayout}
  {L : AllocLayout} {vmPmemSize : UInt64} {n : Nat} {r : UInt64} {f : Nat} {S : Set Nat}
  {own : List (UInt64 × UInt64)} {s s' s₀ s₁ : State}

/-- The bytes of the saved guest image. -/
abbrev imageBytes (pml : PmemLayout) : Set Nat :=
  Set.Ico pml.guestImageStart.toNat (pml.guestImageStart.toNat + pml.guestImageSize.toNat)

/-- The allocator keeps clear of an image that was saved above its bitmap. -/
theorem AllocatorReady.image_disjoint (h : AllocatorReady endSym e820 pml L s s')
    (himg : (bitmapStart endSym).toNat + (bitmapSize pml.maxPage).toNat ≤
      pml.guestImageStart.toNat)
    (hstop : pml.imageStop ≤ 1073741824) :
    Disjoint L.bytes (imageBytes pml) ∧
      ∀ f ∈ L.safe, Disjoint (frameBytes f) (imageBytes pml) := by
  constructor
  · have hbitmap := h.bitmap
    have hwords := h.words
    rw [PmemLayout.imageStop] at hstop
    rw [bootTranslate_eq_some, toNat_VIRT] at hbitmap
    rw [AllocLayout.bytes, Set.Ico_disjoint_Ico]
    omega
  · intro f hf
    rw [h.safe] at hf
    exact hf.image

/-- The image is still there when the memory of the VM is set up, and apart from
it. -/
theorem VmMemory.imageLayout (hm : VmMemory E L.bytes vmPmemSize n r f S own s₀ s₁)
    (hready : AllocatorReady endSym e820 pml L s s') (hinv : AllocInv L s₁)
    (himg : (bitmapStart endSym).toNat + (bitmapSize pml.maxPage).toNat ≤
      pml.guestImageStart.toNat)
    (hstop : pml.imageStop ≤ 1073741824)
    (hwf : WellFormedImage s₀.mem pml.guestImageStart.toNat pml.guestImageSize.toNat
      ((nrVmFrames vmPmemSize).toNat * 4096)) :
    Set.EqOn s₁.mem s₀.mem (imageBytes pml) ∧
      ImageLayout pml.guestImageStart pml.guestImageSize.toNat (r <<< PAGE_SHIFT)
        ((nrVmFrames vmPmemSize).toNat * 4096) s₁ := by
  obtain ⟨hbitmap, hsafe⟩ := hready.image_disjoint himg hstop
  have hle := hm.pmem_le
  have hown := hinv.rangeBytes_disjoint hm.evolves.handedOut hsafe
  have heq : Set.EqOn s₁.mem s₀.mem (imageBytes pml) := hm.evolves.eqOn hbitmap hown
  refine ⟨heq, (hwf.congr heq).2.2, hstop, ?_, ?_⟩
  · rw [hm.toNat_start]
    omega
  · rw [hm.toNat_start, ← vmPmemBytes_eq]
    refine (hown.mono_left fun a ha => ?_).symm
    obtain ⟨q, hq, ha⟩ := ha
    rw [List.mem_singleton] at hq
    exact ⟨_, hm.pmem_own, hq ▸ ha⟩

/-- `vm_create` with a well-formed image, as far as it returns. -/
theorem wp_vmCreate_image (hready : AllocatorReady endSym e820 pml L s s')
    (hinv : AllocInv L s₀)
    (himg : (bitmapStart endSym).toNat + (bitmapSize pml.maxPage).toNat ≤
      pml.guestImageStart.toNat)
    (hstop : pml.imageStop ≤ 1073741824)
    (hwf : WellFormedImage s₀.mem pml.guestImageStart.toNat pml.guestImageSize.toNat
      ((nrVmFrames vmPmemSize).toNat * 4096)) {Q : Vm → State → Prop}
    (hQ : ∀ n r f S own s₁ s₂ s₃ s',
      VmMemory (fun _ => True) L.bytes vmPmemSize n r f S own s₀ s₁ →
      Set.EqOn s₁.mem s₀.mem (imageBytes pml) →
      GuestCreated n r vmPmemSize s₁ s₂ s₃ s' →
      (∀ i, i < imagePhnum s₁.mem pml.guestImageStart.toNat →
        (segment s₁.mem pml.guestImageStart.toNat i).Loadable →
        InPlace s₁ pml.guestImageStart (r <<< PAGE_SHIFT) i s₂) →
      Q ⟨frameVaddr n, UInt64.ofNat (f * 4096), vmMbi (VIRT (r <<< PAGE_SHIFT))⟩ s') :
    wp (vmCreate allocPages (VIRT pml.guestImageStart) pml.guestImageSize vmPmemSize) Q
      (fun _ => True) s₀ := by
  have hA := allocPages_contract_returns L
  rw [vmCreate, wp_bind]
  refine wp_vmCreateMemory hA (k := 0) hinv fun n r f S own s₁ hm hinv₁ => ?_
  obtain ⟨heq, hlayout⟩ := hm.imageLayout hready hinv₁ himg hstop hwf
  exact hm.wp_vmCreateGuest_image hlayout (Or.inr fun _ => trivial)
    fun s₂ s₃ s' hg hplace => hQ n r f S own s₁ s₂ s₃ s' hm heq hg hplace

/-- The segments of a well-formed image fit in the pages of the VM. -/
theorem imageFits_of_wellFormed (vmPmemSize : UInt64)
    (hready : AllocatorReady endSym e820 pml L s s')
    (hinv : AllocInv L s₀)
    (himg : (bitmapStart endSym).toNat + (bitmapSize pml.maxPage).toNat ≤
      pml.guestImageStart.toNat)
    (hstop : pml.imageStop ≤ 1073741824)
    (hwf : WellFormedImage s₀.mem pml.guestImageStart.toNat pml.guestImageSize.toNat
      (PAGE_DOWN vmPmemSize).toNat) :
    ImageFits allocPages (VIRT pml.guestImageStart) vmPmemSize s₀ := by
  have hpages : (PAGE_DOWN vmPmemSize).toNat = (nrVmFrames vmPmemSize).toNat * 4096 := by
    rw [toNat_PAGE_DOWN, nrVmFrames, toNat_shiftRight_PAGE_SHIFT]
  rw [hpages] at hwf
  intro v s₁ hrun i s₂ hreach
  obtain ⟨n, r, f, S, own, rfl, hm, hinv₁⟩ :=
    vmMemory_of_run (allocPages_contract_returns L) hinv hrun
  obtain ⟨-, hlayout⟩ := hm.imageLayout hready hinv₁ himg hstop hwf
  dsimp only at hreach ⊢
  rw [hpages]
  exact segmentFits_of_wellFormed hlayout hreach

end Image

/-! ## A VM on the sample machine -/

theorem VmMemory.temp_accessible {E : Stop → Prop} {priv : Set Nat} {vmPmemSize : UInt64}
    {n : Nat} {r : UInt64} {f : Nat} {S : Set Nat} {own : List (UInt64 × UInt64)}
    {s₀ s₁ : State} (h : VmMemory E priv vmPmemSize n r f S own s₀ s₁)
    (hsize : 0x206000 ≤ vmPmemSize.toNat) :
    Accessible E (VIRT (r <<< PAGE_SHIFT) + GUEST_CR3) (3 * 4096) := by
  have hnr := toNat_shiftRight_PAGE_SHIFT vmPmemSize
  rw [← nrVmFrames] at hnr
  exact h.pmem_accessible.part (k := 0x203000) (by omega)

/-- The sample image is above the bitmap and below 1 GB. -/
theorem sample_image : (bitmapStart sampleEnd).toNat + (bitmapSize sampleLayout.maxPage).toNat ≤
    sampleLayout.guestImageStart.toNat ∧ sampleLayout.imageStop ≤ 1073741824 := by
  decide

/-- The bitmap of the sample machine starts at 2 MB. -/
theorem sample_bitmap {L : AllocLayout} {s s' : State}
    (hready : AllocatorReady sampleEnd sampleMap sampleLayout L s s') :
    L.bitmap = 0x200000 := by
  have h : bootTranslate (VIRT (bitmapStart sampleEnd))
      (bitmapSize sampleLayout.maxPage).toNat = some 0x200000 := by decide
  exact Option.some.inj (hready.bitmap.symm.trans h)

/-- The allocator leaves the sample image alone. -/
theorem HasSampleElf.ready {p : ElfPhdr} {L : AllocLayout} {s s' s₁ s₂ : State}
    (h : HasSampleElf p s₁.mem)
    (hready : AllocatorReady sampleEnd sampleMap sampleLayout L s s')
    (hmem : Set.EqOn s₂.mem s₁.mem L.bytesᶜ) : HasSampleElf p s₂.mem := by
  obtain ⟨hbitmap, -⟩ := hready.image_disjoint sample_image.1 sample_image.2
  have hsub : Set.Ico 0x800000 (0x800000 + 84) ⊆ imageBytes sampleLayout :=
    Set.Ico_subset_Ico (by decide) (by decide)
  exact (hmem.mono fun a ha hb =>
    Set.disjoint_left.mp hbitmap hb (hsub ha)).trans h

/-- `vm_create` on the sample machine, with the sample image. -/
theorem sample_vmCreate {L : AllocLayout} {s s' s₀ : State} {p : ElfPhdr}
    (vmPmemSize : UInt64) (hready : AllocatorReady sampleEnd sampleMap sampleLayout L s s')
    (hbudget : Budget (fun _ => False) L (vmCost vmPmemSize) s₀)
    (himage : HasSampleElf p s₀.mem) (hfilesz : p.filesz ≤ p.memsz)
    (hfile : p.offset.toNat + p.filesz.toNat ≤ 0x100000)
    (hroom : p.stop ≤ (nrVmFrames vmPmemSize).toNat * 4096)
    (htemp : ∀ n r f S own s₁,
      VmMemory (fun _ => False) L.bytes vmPmemSize n r f S own s₀ s₁ → AllocInv L s₁ →
      Accessible (fun _ => False) (VIRT (r <<< PAGE_SHIFT) + GUEST_CR3) (3 * 4096)) :
    ∃ n r f S own s₁ s₂ s₃ s',
      vmCreateMemory allocPages vmPmemSize s₀ =
        .ok (⟨frameVaddr n, VIRT (r <<< PAGE_SHIFT), UInt64.ofNat (f * 4096)⟩, s₁) ∧
      vmCreate allocPages (VIRT 0x800000) 0x100000 vmPmemSize s₀ = .ok (⟨frameVaddr n,
        UInt64.ofNat (f * 4096), vmMbi (VIRT (r <<< PAGE_SHIFT))⟩, s') ∧
      VmMemory (fun _ => False) L.bytes vmPmemSize n r f S own s₀ s₁ ∧ AllocInv L s₁ ∧
      GuestCreated n r vmPmemSize s₁ s₂ s₃ s' := by
  have hwf : WellFormedImage s₀.mem sampleLayout.guestImageStart.toNat
      sampleLayout.guestImageSize.toNat ((nrVmFrames vmPmemSize).toNat * 4096) :=
    himage.wellFormed (by decide) hfilesz hfile hroom
  obtain ⟨n, r, f, S, own, s₁, hmemory, hm, hinv, -⟩ :=
    exists_vmCreateMemory (allocPages_contract (fun _ => False) L) vmPmemSize hbudget
  have hlayout := (hm.imageLayout hready hinv sample_image.1 sample_image.2 hwf).2
  obtain ⟨vm, s', hguest, s₂, s₃, rfl, hg⟩ := exists_ok_of_wp
    (c := vmCreateGuest (VIRT 0x800000) 0x100000 _)
    (hm.wp_vmCreateGuest_image hlayout
      (htemp n r f S own s₁ hm hinv)
      (Q := fun vm s' => ∃ s₂ s₃, vm = ⟨frameVaddr n, UInt64.ofNat (f * 4096),
        vmMbi (VIRT (r <<< PAGE_SHIFT))⟩ ∧ GuestCreated n r vmPmemSize s₁ s₂ s₃ s')
      fun s₂ s₃ s' hg _ => ⟨s₂, s₃, rfl, hg⟩)
  refine ⟨n, r, f, S, own, s₁, s₂, s₃, s', hmemory, ?_, hm, hinv, hg⟩
  rw [vmCreate, bind_of_ok hmemory]
  exact hguest

/-- A VM of 4 MB on the sample machine. -/
theorem sample_vmCreate_fits : ∃ L s₁ v s₂ vm s₃,
    naiveAllocatorInit sampleEnd sampleMap sampleLayout (sampleLoad samplePhdr) =
      .ok (initLayout sampleEnd sampleLayout, s₁) ∧
    AllocatorReady sampleEnd sampleMap sampleLayout L (sampleLoad samplePhdr) s₁ ∧
    HasSampleElf samplePhdr s₁.mem ∧
    vmCreateMemory allocPages 0x400000 s₁ = .ok (v, s₂) ∧
    vmCreate allocPages (VIRT 0x800000) 0x100000 0x400000 s₁ = .ok (vm, s₃) := by
  obtain ⟨L, s₁, hinit, hready, hroom⟩ := sample_init (sampleLoad samplePhdr)
  have himage := (sampleLoad_hasSampleElf samplePhdr).ready hready hready.mem
  obtain ⟨n, r, f, S, own, s₂, _, _, s₃, hmem, hvm, -⟩ := sample_vmCreate
    0x400000 hready (sample_budget hready hroom (by decide)) himage
    (by decide) (by decide) (by decide) fun _ _ _ _ _ _ hm _ => hm.temp_accessible (by decide)
  exact ⟨L, s₁, _, s₂, _, s₃, hinit, hready, himage, hmem, hvm⟩

end Tvmm
