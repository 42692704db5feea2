import Mathlib.Data.List.Pairwise
import Tvmm.AllocPacked
import Tvmm.GuestView
import Tvmm.VmImage

/-!
# The isolation of the VM

`Isolated` says that the nested table leads no guest-physical address from 2 MB
on out of the memory of the VM.  The loop of `create_vm_pmem_mapping_table` maps
whole 2 MB pages and `alloc_vm_pmem` gets whole 4 KB pages, so this depends on
the size of the VM: `NestedTable.isolated_iff` says for which sizes it holds.

`WritesOwn` says that `vm_create` writes only what it allocated.
-/

namespace Tvmm

open Exec LongMode

/-! ## The frames that the guest reaches -/

/-- The range that `alloc_vm_pmem` got. -/
def vmRange (v : VmVars) (vmPmemSize : UInt64) : UInt64 × UInt64 :=
  (PFN_DOWN (PHYS v.vmPmemStart), nrVmFrames vmPmemSize)

/-- The walk of a guest-physical address from 2 MB on, by the nested table at `hCr3`,
ends in the range `q`. -/
def Isolated (m : ByteMem) (hCr3 : UInt64) (q : UInt64 × UInt64) : Prop :=
  ∀ g t, 2 ^ 21 ≤ g → g < 2 ^ 48 → walk m hCr3.toNat g = some t →
    t.paddr / 4096 ∈ rangeFrames q

section Isolated

variable {E : Stop → Prop} {priv : Set Nat} {vmPmemSize : UInt64} {n : Nat} {r : UInt64}
  {f : Nat} {S : Set Nat} {own ext : List (UInt64 × UInt64)} {s₀ s₁ s s' : State}

theorem VmMemory.vmRange_eq (h : VmMemory E priv vmPmemSize n r f S own s₀ s₁) :
    vmRange ⟨frameVaddr n, VIRT (r <<< PAGE_SHIFT), UInt64.ofNat (f * 4096)⟩ vmPmemSize =
      (r, nrVmFrames vmPmemSize) := by
  have hr : PFN_DOWN (r <<< PAGE_SHIFT) = r := by
    apply UInt64.toNat_inj.mp
    rw [toNat_PFN_DOWN, h.toNat_start]
    omega
  rw [vmRange, PHYS_VIRT, hr]

namespace NestedTable

/-- A mapped address from 2 MB on belongs to an iteration of the loop, and ends
in the 512 frames of that iteration. -/
theorem walk_frame (h : NestedTable priv (VIRT (r <<< PAGE_SHIFT)) vmPmemSize f S s ext s')
    (hr : (r <<< PAGE_SHIFT).toNat = r.toNat * 4096) (hal : 512 ∣ r.toNat)
    (hle : r.toNat + (nrVmFrames vmPmemSize).toNat ≤ 2 ^ 33) {g : Nat}
    (hg : 2 ^ 21 ≤ g) (hg' : g < 2 ^ 48) :
    (LongMode.walk s'.mem (f * 4096) g = none ∧
      ∀ i, i < nrVmPages vmPmemSize → guestPage i ≠ g / 2 ^ 21) ∨
    ∃ i t, i < nrVmPages vmPmemSize ∧ nrVmPages vmPmemSize ≤ i + 2048 ∧
      guestPage i = g / 2 ^ 21 ∧ LongMode.walk s'.mem (f * 4096) g = some t ∧
      t.paddr / 4096 = r.toNat + i * 512 + g % 2 ^ 21 / 4096 := by
  have hnr := toNat_shiftRight_PAGE_SHIFT vmPmemSize
  rw [← nrVmFrames] at hnr
  have hpages : nrVmPages vmPmemSize ≤ 2 ^ 25 := by
    rw [nrVmPages]
    omega
  have hmod : g / 2 ^ 21 % 2 ^ 27 = g / 2 ^ 21 := by omega
  rcases h.walk (by omega) g with ⟨hnone, hpage⟩ | ⟨i, t, hi, hlast, hpage, hw, hp⟩
  · rw [hmod] at hpage
    exact Or.inl ⟨hnone, hpage⟩
  · rw [hmod] at hpage
    have hi0 : i ≠ 0 := by
      rintro rfl
      rw [guestPage_of_lt (by decide)] at hpage
      omega
    refine Or.inr ⟨i, t, hi, hlast, hpage, hw, ?_⟩
    rw [hp, if_neg hi0, PHYS_VIRT, hr]
    omega

/-- The guest stays in its memory exactly when the last page of the table is
whole, or is the page at guest-physical address 0. -/
theorem isolated_iff (h : NestedTable priv (VIRT (r <<< PAGE_SHIFT)) vmPmemSize f S s ext s')
    (hr : (r <<< PAGE_SHIFT).toNat = r.toNat * 4096) (hal : 512 ∣ r.toNat)
    (hle : r.toNat + (nrVmFrames vmPmemSize).toNat ≤ 2 ^ 33) :
    Isolated s'.mem (UInt64.ofNat (f * 4096)) (r, nrVmFrames vmPmemSize) ↔
      vmPmemSize.toNat % 2 ^ 21 = 0 ∨ vmPmemSize.toNat / 2 ^ 21 % 2048 = 0 := by
  have hroot := (h.owned.addressable f h.tree.root_mem).toNat
  have hnr := toNat_shiftRight_PAGE_SHIFT vmPmemSize
  rw [← nrVmFrames] at hnr
  have hpages : nrVmPages vmPmemSize = (vmPmemSize.toNat + 2097151) / 2097152 := rfl
  have hframe := fun g => h.walk_frame hr hal hle (g := g)
  rw [Isolated, hroot]
  constructor
  · intro hiso
    by_contra hcond
    push Not at hcond
    -- The last iteration maps a page that is not whole.
    have hpage : 0 < guestPage (vmPmemSize.toNat / 2 ^ 21) ∧
        guestPage (vmPmemSize.toNat / 2 ^ 21) < 2 ^ 27 := by
      rw [guestPage]
      split_ifs <;> omega
    have hg : (guestPage (vmPmemSize.toNat / 2 ^ 21) * 2 ^ 21 + 2093056) / 2 ^ 21 =
        guestPage (vmPmemSize.toNat / 2 ^ 21) := by omega
    rcases hframe (guestPage (vmPmemSize.toNat / 2 ^ 21) * 2 ^ 21 + 2093056)
      (by omega) (by omega) with ⟨-, hnone⟩ | ⟨i, t, hi, hlast, hi', hw, hp⟩
    · exact hnone (vmPmemSize.toNat / 2 ^ 21) (by omega) hg.symm
    · rw [hg, guestPage_eq_iff] at hi'
      have hin := hiso _ t (by omega) (by omega) hw
      rw [mem_rangeFrames, hp] at hin
      omega
  · intro hcond g t hg hg' hw
    rcases hframe g hg hg' with ⟨hnone, -⟩ | ⟨i, t', hi, -, hpage, hw', hp⟩
    · rw [hnone] at hw
      cases hw
    · rw [hw] at hw'
      cases hw'
      have hi' : i % 2048 ≠ 0 := by
        intro hz
        rw [guestPage, hz] at hpage
        split_ifs at hpage <;> omega
      rw [mem_rangeFrames, hp]
      omega

end NestedTable

/-- When `vm_create` returns, the nested table is still the one that it built. -/
theorem GuestCreated.isolated_iff {s₂ s₃ : State} (hg : GuestCreated n r vmPmemSize s₁ s₂ s₃ s')
    (hm : VmMemory E priv vmPmemSize n r f S own s₀ s₁)
    (hsize : 0x206000 ≤ vmPmemSize.toNat) :
    Isolated s'.mem (UInt64.ofNat (f * 4096)) (r, nrVmFrames vmPmemSize) ↔
      vmPmemSize.toNat % 2 ^ 21 = 0 ∨ vmPmemSize.toNat / 2 ^ 21 % 2048 = 0 :=
  (hg.nestedTable hm hsize).isolated_iff hm.toNat_start hm.pmem_aligned hm.pmem_le

/-- What is in a range that was handed out is in no other such range, safe, and not
free. -/
theorem AllocInv.handedOut_apart {L : AllocLayout} (hinv : AllocInv L s) {q : UInt64 × UInt64}
    (hq : q ∈ s.handedOut) {x : Nat} (hx : x ∈ rangeFrames q) :
    (∀ q' ∈ s.handedOut, q' ≠ q → x ∉ rangeFrames q') ∧ x ∈ L.safe ∧
      allocatedInMap (memTable s.nalloc.allocBitmap) (UInt64.ofNat x) s = .ok (true, s) := by
  refine ⟨fun q' hq' hne hxq => ?_, hinv.handedOut_safe _ hq hx, ?_⟩
  · have : Std.Symm fun q q' : UInt64 × UInt64 => Disjoint (rangeFrames q) (rangeFrames q') :=
      ⟨fun _ _ h => h.symm⟩
    have hd := hinv.pairwise.forall hq hq' hne.symm
    exact Set.disjoint_left.mp hd hx hxq
  · obtain ⟨hlt, hbusy⟩ := hinv.handedOut_busy _ hq x hx
    have hmax := hinv.maxPage_le
    have hcovers := hinv.covers
    have hx64 : (UInt64.ofNat x).toNat = x := by
      rw [UInt64.toNat_ofNat']
      omega
    obtain ⟨b, s', hok, rfl, rfl⟩ := exists_ok_of_wp (wp_allocatedInMap
      (memTable_lawful hinv.mapped).readable (E := fun _ => False)
      (show (UInt64.ofNat x).toNat / 64 < _ by rw [hx64]; omega)
      (Q := fun b s' => s' = s ∧ b = true) ⟨rfl, by rw [hx64]; exact hbusy⟩)
    exact hok

end Isolated

/-- After any calls of `alloc_pages`, `vm_create` leaves a VMCB whose nested table leads
the guest to frames of the VM exactly for these sizes.  What is in that range of frames
is neither in another range that was handed out, nor below the end of the heap, nor
free. -/
theorem vmCreate_isolated {endSym : UInt64} {e820 : E820Map} {pml pml' : PmemLayout}
    (hboot : BootLayout e820 pml) {calls : List (UInt64 × UInt64)}
    (hcalls : ∀ c ∈ calls, AllocArgs c.1 c.2) {s s₁ s₂ s₃ : State}
    {out : List ((UInt64 × UInt64) × UInt64)} {img imgSize vmPmemSize : UInt64} {vm : Vm}
    (hinit : naiveAllocatorInit endSym e820 pml s = .ok (pml', s₁))
    (hrun : allocPagesRun calls s₁ = .ok (out, s₂))
    (hfits : ImageFits allocPages img vmPmemSize s₂)
    (hsize : 0x206000 ≤ vmPmemSize.toNat)
    (hvm : vmCreate allocPages img imgSize vmPmemSize s₂ = .ok (vm, s₃)) :
    ∃ v s' own, vmCreateMemory allocPages vmPmemSize s₂ = .ok (v, s') ∧
      Vmcb.hCr3.load vm.vmcb s₃ = .ok (vm.hCr3, s₃) ∧
      s₃.handedOut = own ++ s₂.handedOut ∧ vmRange v vmPmemSize ∈ own ∧
      (Isolated s₃.mem vm.hCr3 (vmRange v vmPmemSize) ↔
        vmPmemSize.toNat % 2 ^ 21 = 0 ∨ vmPmemSize.toNat / 2 ^ 21 % 2048 = 0) ∧
      ∀ x ∈ rangeFrames (vmRange v vmPmemSize),
        (∀ q ∈ s₃.handedOut, q ≠ vmRange v vmPmemSize → x ∉ rangeFrames q) ∧
        SafeFrame e820 pml x ∧
        allocatedInMap (memTable s₃.nalloc.allocBitmap) (UInt64.ofNat x) s₃ =
          .ok (true, s₃) := by
  obtain ⟨L, hready⟩ := allocatorReady_of_init hboot hinit
  have hA := allocPages_contract_returns L
  obtain ⟨n, r, f, S, own, s', s₄, s₅, hmem, rfl, hm, hinv', hg⟩ :=
    vmCreate_of_run hA (hready.inv.of_run hcalls hrun) hfits hvm
  have hinv₃ : AllocInv L s₃ := hg.keeps (k := 0) hA hm hsize hinv'
  have hout := (hg.evolves hm hsize).handedOut
  have hq : (r, nrVmFrames vmPmemSize) ∈ s₃.handedOut := by
    rw [hout]
    exact List.mem_append_left _ hm.pmem_own
  refine ⟨_, s', own, hmem, ?_, hout, ?_, ?_, ?_⟩
  · rw [Vmcb.hCr3.load_of_addressable hm.vmcb, (hg.cr3 hm hsize).2]
  · rw [hm.vmRange_eq]
    exact hm.pmem_own
  · rw [hm.vmRange_eq]
    exact hg.isolated_iff hm hsize
  · rw [hm.vmRange_eq]
    intro x hx
    obtain ⟨hother, hsafe, hbusy⟩ := hinv₃.handedOut_apart hq hx
    rw [hready.safe] at hsafe
    exact ⟨hother, hsafe, hbusy⟩

/-- A VM of 4 MB on the sample machine, after one page was handed out. -/
theorem sample_vmCreate_isolated : ∃ s₁ out s₂ v s' vm s₃,
    naiveAllocatorInit sampleEnd sampleMap sampleLayout (sampleLoad samplePhdr) =
      .ok (initLayout sampleEnd sampleLayout, s₁) ∧
    allocPagesRun [(1, 1)] s₁ = .ok (out, s₂) ∧
    vmCreateMemory allocPages 0x400000 s₂ = .ok (v, s') ∧
    vmCreate allocPages (VIRT 0x800000) 0x100000 0x400000 s₂ = .ok (vm, s₃) ∧
    (Isolated s₃.mem vm.hCr3 (vmRange v 0x400000) ↔ (0x400000 : UInt64).toNat % 2 ^ 21 = 0 ∨
      (0x400000 : UInt64).toNat / 2 ^ 21 % 2048 = 0) := by
  obtain ⟨L, s₁, hinit, hready, hroom⟩ := sample_init (sampleLoad samplePhdr)
  have hcontract := allocPages_contract (fun _ => False) L
  obtain ⟨out, s₂, hrun, hbudget⟩ := exists_ok_of_wp (c := allocPagesRun [(1, 1)]) (s := s₁)
    (Q := fun _ s₂ => Budget (fun _ => False) L (vmCost 0x400000) s₂) (by
      rw [allocPagesRun_cons, wp_bind]
      refine wp_imp (hcontract.alloc (k := vmCost 0x400000) (show AllocArgs 1 1 by decide)
        (sample_budget hready hroom (by decide))) ?_
      rintro r s₂ ⟨hbudget, -⟩
      rw [allocPagesRun_nil, wp_bind, wp_pure, wp_pure]
      exact hbudget)
  -- The call itself writes the bitmap only.
  have hmem₂ : Set.EqOn s₂.mem s₁.mem L.bytesᶜ := by
    refine wp_ok (Q := fun _ s₂ => Set.EqOn s₂.mem s₁.mem L.bytesᶜ) (E := fun _ => False) ?_ hrun
    rw [allocPagesRun_cons, wp_bind]
    refine (sample_packed hready).wp_allocPages (show AllocArgs 1 1 by decide) (by decide)
      (by decide) (by decide) fun r s₃ _ hr _ => ?_
    rw [allocPagesRun_nil, wp_bind, wp_pure, wp_pure]
    exact hr.mem
  have himage := ((sampleLoad_hasSampleElf samplePhdr).ready hready hready.mem).ready
    hready hmem₂
  obtain ⟨_, _, _, _, _, _, _, _, s₃, -, hvm, -⟩ := sample_vmCreate 0x400000 hready
    hbudget himage (by decide) (by decide) (by decide)
    fun _ _ _ _ _ _ hm _ => hm.temp_accessible (by decide)
  have hfits := imageFits_of_wellFormed 0x400000 hready hbudget.1
    sample_image.1 sample_image.2
    (himage.wellFormed (by decide) (by decide) (by decide) (by decide))
  obtain ⟨v, s', own, hmem, -, -, -, hiso, -⟩ := vmCreate_isolated sample_bootLayout
    (List.forall_mem_singleton.mpr (by decide)) hinit hrun hfits (by decide) hvm
  exact ⟨s₁, out, s₂, v, s', _, s₃, hinit, hrun, hmem, hvm, hiso⟩

/-- A VM of 5 MB: `vm_create` returns, and the guest reaches frames behind its
memory. -/
theorem vmCreate_not_isolated : ∃ s₁ v s₂ vm s₃,
    naiveAllocatorInit sampleEnd sampleMap sampleLayout (sampleLoad samplePhdr) =
      .ok (initLayout sampleEnd sampleLayout, s₁) ∧
    vmCreateMemory allocPages 0x500000 s₁ = .ok (v, s₂) ∧
    vmCreate allocPages (VIRT 0x800000) 0x100000 0x500000 s₁ = .ok (vm, s₃) ∧
    ¬Isolated s₃.mem vm.hCr3 (vmRange v 0x500000) := by
  obtain ⟨L, s₁, hinit, hready, hroom⟩ := sample_init (sampleLoad samplePhdr)
  obtain ⟨n, r, f, S, own, s₂, _, _, s₃, hmemory, hvm, hm, -, hg⟩ := sample_vmCreate
    0x500000 hready (sample_budget hready hroom (by decide))
    ((sampleLoad_hasSampleElf samplePhdr).ready hready hready.mem) (by decide) (by decide)
    (by decide) fun _ _ _ _ _ _ hm _ => hm.temp_accessible (by decide)
  refine ⟨s₁, _, s₂, _, s₃, hinit, hmemory, hvm, fun hiso => ?_⟩
  rw [hm.vmRange_eq] at hiso
  exact absurd ((hg.isolated_iff hm (by decide)).mp hiso) (by decide)

/-! ## What `vm_create` writes -/

/-- Between `s` and `s'`, where `vm_create` returned `vm`, memory changed only in
the ranges that it allocated and in `priv`, and its three temporary pages lie in
the memory of the VM. -/
def WritesOwn (priv : Set Nat) (vmPmemSize : UInt64) (vm : Vm) (s s' : State) : Prop :=
  ∃ own r, s'.handedOut = own ++ s.handedOut ∧
    Set.EqOn s'.mem s.mem (priv ∪ rangeBytes own)ᶜ ∧
    (r, nrVmFrames vmPmemSize) ∈ own ∧ vm.mbi = vmMbi (VIRT (r <<< PAGE_SHIFT)) ∧
    tempBytes (tempFrame r) ⊆ vmPmemBytes r vmPmemSize

/-- For an image whose segments fit in the pages of the VM, `vm_create` writes
only what it allocated exactly when the VM has room for the temporary page
table. -/
theorem vmCreate_writesOwn {alloc : UInt64 → UInt64 → M UInt64} {priv : Set Nat}
    {Inv : State → Prop} (hA : AllocContract alloc (fun _ => True) priv fun _ => Inv)
    {s s' : State} (hs : Inv s) {img imgSize vmPmemSize : UInt64}
    (hfits : ImageFits alloc img vmPmemSize s) {vm : Vm}
    (hrun : vmCreate alloc img imgSize vmPmemSize s = .ok (vm, s')) :
    WritesOwn priv vmPmemSize vm s s' ↔ 0x206000 ≤ vmPmemSize.toNat := by
  obtain ⟨n, r, f, S, own, s₁, s₂, s₃, -, rfl, hm, -, hg⟩ := vmCreate_of_run hA hs hfits hrun
  constructor
  · rintro ⟨_, r', -, -, -, -, htemp⟩
    exact tempBytes_subset_iff.mp htemp
  · intro hsize
    have he := hg.evolves hm hsize
    exact ⟨own, r, he.handedOut, he.mem, hm.pmem_own, rfl, tempBytes_subset_iff.mpr hsize⟩

/-- A VM of 4 MB on the sample machine. -/
theorem sample_vmCreate_writesOwn : ∃ L s₁ vm s',
    AllocInv L s₁ ∧ vmCreate allocPages (VIRT 0x800000) 0x100000 0x400000 s₁ = .ok (vm, s') ∧
    (WritesOwn L.bytes 0x400000 vm s₁ s' ↔ 0x206000 ≤ (0x400000 : UInt64).toNat) := by
  obtain ⟨L, s₁, _, _, _, s', -, hready, himage, -, hvm⟩ := sample_vmCreate_fits
  have hfits := imageFits_of_wellFormed 0x400000 hready hready.inv
    sample_image.1 sample_image.2
    (himage.wellFormed (by decide) (by decide) (by decide) (by decide))
  exact ⟨L, s₁, _, s', hready.inv, hvm,
    vmCreate_writesOwn (allocPages_contract_returns L) hready.inv hfits hvm⟩

/-- A safe frame of the sample machine. -/
theorem sample_safe {f : Nat} (h : SafeFrame sampleMap sampleLayout f) :
    4096 ≤ f ∧ (f < 131072 ∨ 262144 ≤ f) := by
  have hheap := h.heap
  rw [show sampleLayout.vmmHeapEnd.toNat = 0x1000000 from rfl] at hheap
  exact ⟨by omega, sample_ram h⟩

/-- Two calls after which only 1000 frames below 1 GB are free, with one 2 MB
boundary among them. -/
theorem sample_gap {L : AllocLayout} {s s₁ : State}
    (hready : AllocatorReady sampleEnd sampleMap sampleLayout L s s₁) : ∃ out s₂,
    allocPagesRun [(1, 1), (125975, 5097)] s₁ = .ok (out, s₂) ∧ AllocInv L s₂ ∧
    Room (fun _ => False) L 4097 5097 s₂ ∧ s₂.handedOut = [(5097, 125975), (4096, 1)] ∧
    Set.EqOn s₂.mem s₁.mem L.bytesᶜ := by
  obtain ⟨out, s₂, hrun, h⟩ := exists_ok_of_wp
    (c := allocPagesRun [(1, 1), (125975, 5097)]) (s := s₁) (Q := fun _ s₂ =>
      AllocInv L s₂ ∧ Room (fun _ => False) L 4097 5097 s₂ ∧
      s₂.handedOut = [(5097, 125975), (4096, 1)] ∧ Set.EqOn s₂.mem s₁.mem L.bytesᶜ) (by
    -- The first call gets the first free frame.
    rw [allocPagesRun_cons, wp_bind]
    refine (sample_packed hready).wp_allocPages (show AllocArgs 1 1 by decide) (by decide)
      (by decide) (by decide) fun r s₂ hr4096 hr h₂ => ?_
    obtain rfl : r = 4096 := UInt64.toNat_inj.mp hr4096
    rw [wp_bind, allocPagesRun_cons, wp_bind]
    refine wp_allocPages h₂.inv (by decide) (Or.inl ⟨h₂.lt_maxPage, h₂.free⟩) (c := 5097)
      (by decide) (by decide) (by decide) fun r s₃ hr' => ?_
    -- The second call gets the frames from 5097 on.
    have hr5097 : r = 5097 := by
      have hle : r.toNat ≤ 5097 := by
        by_contra hlt
        obtain ⟨f, h1, h2, hb⟩ := hr'.first 5097 (by decide) (by omega)
        rw [show (125975 : UInt64).toNat = 125975 from rfl] at h2
        exact h₂.free f (show 4097 ≤ f by omega) (by omega) hb
      have hpos : r.toNat ≠ 0 := fun hz =>
        hr'.free 0 (mem_rangeFrames.mpr ⟨by omega, by rw [hz]; decide⟩)
          (h₂.busy 0 (by decide))
      have hdvd : 5097 ∣ r.toNat := hr'.aligned
      exact UInt64.toNat_inj.mp (by rw [show (5097 : UInt64).toNat = 5097 from rfl]; omega)
    subst hr5097
    rw [wp_bind, allocPagesRun_nil, wp_pure, wp_pure, wp_pure]
    refine ⟨hr'.inv h₂.inv, Or.inl ⟨?_, fun f hf hf' hb => ?_⟩, ?_, hr'.mem.trans hr.mem⟩
    · have := h₂.lt_maxPage
      rw [hr'.nalloc]
      omega
    · rcases (hr'.busy f).mp hb with hin | hb
      · have hin : 5097 ≤ f ∧ f < 5097 + 125975 := hin
        omega
      · exact h₂.free f hf (by omega) hb
    · rw [hr'.handedOut, hr.handedOut, hready.handedOut])
  exact ⟨out, s₂, hrun, h⟩

/-- After these calls the memory of a VM of one page is the page at that boundary. -/
theorem sample_gap_start {L : AllocLayout} {s s₁ s₂ s₃ : State} {n f : Nat} {r : UInt64}
    {S : Set Nat} {own : List (UInt64 × UInt64)}
    (hready : AllocatorReady sampleEnd sampleMap sampleLayout L s s₁)
    (hhist : s₂.handedOut = [(5097, 125975), (4096, 1)])
    (hm : VmMemory (fun _ => False) L.bytes 0x1000 n r f S own s₂ s₃) (hinv : AllocInv L s₃) :
    r.toNat = 4608 := by
  have hr : r.toNat ∈ rangeFrames (r, nrVmFrames 0x1000) :=
    mem_rangeFrames.mpr ⟨Nat.le_refl _, Nat.lt_add_of_pos_right (by decide)⟩
  have hsafe := hinv.handedOut_safe _ (by
    rw [hm.evolves.handedOut]
    exact List.mem_append_left _ hm.pmem_own) hr
  rw [hready.safe] at hsafe
  have hsafe := sample_safe hsafe
  have hal := hm.pmem_aligned
  have hfresh : ∀ q ∈ s₂.handedOut, r.toNat ∉ rangeFrames q := fun q hq hrq =>
    hm.evolves.notMem hq hrq _ hm.pmem_own hr
  have h1 : ¬(5097 ≤ r.toNat ∧ r.toNat < 5097 + 125975) :=
    hfresh (5097, 125975) (by rw [hhist]; simp)
  have h2 : ¬(4096 ≤ r.toNat ∧ r.toNat < 4096 + 1) :=
    hfresh (4096, 1) (by rw [hhist]; simp)
  have hmapped : r.toNat < 262144 := by
    rcases hm.pmem_accessible with ⟨a, ha⟩ | hF
    · have ha := ha (by decide)
      have hle := hm.pmem_le
      have hnr : (nrVmFrames 0x1000).toNat = 1 := rfl
      rw [bootTranslate_eq_some, toNat_VIRT, hm.toNat_start, hnr] at ha
      omega
    · exact (hF 0).elim
  omega

/-- A VM of one page, with an image that has nothing to load: `vm_create`
overwrites a page that was handed out before. -/
theorem vmCreate_not_writesOwn : ∃ s₁ out s₂ vm s₃,
    naiveAllocatorInit sampleEnd sampleMap sampleLayout (sampleLoad ⟨0, 0, 0, 0, 0, 0⟩) =
      .ok (initLayout sampleEnd sampleLayout, s₁) ∧
    allocPagesRun [(1, 1), (125975, 5097)] s₁ = .ok (out, s₂) ∧
    WellFormedImage s₂.mem 0x800000 0x100000 0x1000 ∧
    vmCreate allocPages (VIRT 0x800000) 0x100000 0x1000 s₂ = .ok (vm, s₃) ∧
    ∃ q ∈ s₂.handedOut, ∃ x ∈ rangeFrames q,
      (∀ own, s₃.handedOut = own ++ s₂.handedOut → ∀ q' ∈ own, x ∉ rangeFrames q') ∧
      ¬Set.EqOn s₃.mem s₂.mem (frameBytes x) := by
  obtain ⟨L, s₁, hinit, hready, -⟩ := sample_init (sampleLoad ⟨0, 0, 0, 0, 0, 0⟩)
  obtain ⟨out, s₂, hrun, hinv, hroom₂, hhist, hmem⟩ := sample_gap hready
  have himage := ((sampleLoad_hasSampleElf ⟨0, 0, 0, 0, 0, 0⟩).ready hready hready.mem).ready
    hready hmem
  obtain ⟨n, r, f, S, own, s₃, s₄, s₅, s₆, -, hvm, hm, hinv₃, hg⟩ := sample_vmCreate
    0x1000 hready ⟨hinv, Or.inl ⟨4097, 5097, hroom₂, by decide, by decide⟩⟩
    himage (by decide) (by decide) (by decide) fun n r f S own s₃ hm hinv₃ => by
      obtain ⟨hstart, hfirst⟩ := hm.temp_start
      have hr := sample_gap_start hready hhist hm hinv₃
      rw [hstart]
      refine Or.inl ⟨_, fun _ => bootTranslate_VIRT ?_⟩
      rw [hfirst, tempFrame, hr]
      decide
  have hr := sample_gap_start hready hhist hm hinv₃
  have hq : (5097, 125975) ∈ s₂.handedOut := by
    rw [hhist]
    exact List.mem_cons_self
  have hx : 5123 ∈ rangeFrames (5097, 125975) := mem_rangeFrames.mpr (by decide)
  refine ⟨s₁, out, s₂, _, s₆, hinit, hrun, himage.wellFormed (by decide) (by decide)
    (by decide) (by decide), hvm, _, hq, _, hx, fun own' hown' q' hq' => ?_, fun heq => ?_⟩
  · rw [hg.onlyWrites.handedOut, hm.evolves.handedOut, List.append_cancel_right_eq] at hown'
    exact hm.evolves.notMem hq hx q' (hown' ▸ hq')
  · -- The page was zero, and holds a page table now.
    have hzero : words s₂.mem 5123 0 = 0 := by
      refine ByteMem.read64_of_zero fun a ha => ?_
      rw [Set.mem_Ico, show (0 : Fin 512).val = 0 from rfl] at ha
      have hsafe := hinv.handedOut_safe _ hq hx
      have ha' : a ∉ L.bytes :=
        Set.disjoint_left.mp (L.safe_disjoint _ hsafe) (mem_frameBytes.mpr (by omega))
      rw [hmem ha', hready.mem ha']
      exact sampleElf_eq_zero _ (by rw [Set.mem_Ico]; omega)
    have hnew := hg.temp.pml4 0
    rw [tempFrame, hr, if_pos rfl, show 4608 + 0x203 = 5123 from rfl,
      words_congr heq, hzero] at hnew
    exact absurd hnew (by decide)

end Tvmm
