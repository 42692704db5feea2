import Tvmm.BootTables
import Tvmm.GuestBoot
import Tvmm.Setup
import Tvmm.VmcbTable

/-!
# Whole runs of `start_vmm`

`StartRun` takes a run of `start_vmm` apart: the guest image is saved, the
allocator starts, the host save area is allocated, and the VM is created from the
saved image.  What follows is about the run as a whole.  It writes nothing below
`_end` but the variables and the stack of the VMM, so its code and its page tables are
what the boot loader loaded, and the guest finds the module that the boot loader passed.
-/

set_option linter.style.nameCheck false

namespace Tvmm

open Exec LongMode

/-! ## The phases of a run -/

/-- A run of `start_vmm` on a module from `start` to `e`.  `copy_guest_image` left `s₀`
and `pml`, `naive_allocator_init` left `s₁`, and `identify_cpu` left `s₂` and handed out
the frame `h`. -/
structure StartRun (endSym mbi hsa : UInt64) (vm : Vm) (start e : UInt32) (e820 : E820Map)
    (pml : PmemLayout) (L : AllocLayout) (h : UInt64) (s s₀ s₁ s₂ s' : State) : Prop where
  module : guestModule mbi s = .ok ((start, e), s)
  size : pml.guestImageSize = (e - start).toUInt64
  heapEnd : pml.vmmHeapEnd = DEFAULT_VMM_HEAP_SIZE
  low : Set.EqOn s₀.mem s.mem (Set.Iio DEFAULT_VMM_HEAP_SIZE.toNat)
  place : DEFAULT_VMM_HEAP_SIZE.toNat ≤ pml.guestImageStart.toNat ∧
    pml.imageStop ≤ 1073741824
  bytes : SameBytes s₀.mem pml.guestImageStart.toNat s.mem start.toNat pml.guestImageSize.toNat
  ready : AllocatorReady endSym e820 pml L s₀ s₁
  hsa : hsa = h <<< PAGE_SHIFT
  cpu : Evolves L.bytes [(h, 1)] s₁ s₂
  inv : AllocInv L s₂
  create : vmCreate allocPages (VIRT pml.guestImageStart) pml.guestImageSize
    DEFAULT_VM_PMEM_SIZE s₂ = .ok (vm, s')

/-- `copy_guest_image` writes nothing below the end of the heap. -/
theorem copyGuestImage_low {mbi : UInt64} {e820 : E820Map} {pml pml' : PmemLayout}
    {s s' : State} (hends : ∀ p ∈ e820.map, p.stop ≤ 2 ^ 31)
    (hheap : pml.vmmHeapEnd.toNat ≤ 2 ^ 31)
    (h : copyGuestImage mbi e820 pml s = .ok (pml', s')) :
    Set.EqOn s'.mem s.mem (Set.Iio pml.vmmHeapEnd.toNat) := by
  obtain ⟨has, s₁, hhas, h₁⟩ := bind_eq_ok.mp h
  obtain rfl := hasGuestImage_readOnly _ _ _ _ hhas
  split_ifs at h₁
  · cases h₁
  obtain ⟨mods, s₂, hmods, h₂⟩ := bind_eq_ok.mp h₁
  obtain rfl := load32_readOnly _ _ _ _ hmods
  obtain ⟨e, s₃, hend, h₃⟩ := bind_eq_ok.mp h₂
  obtain rfl := load32_readOnly _ _ _ _ hend
  obtain ⟨start, s₄, hstart, h₄⟩ := bind_eq_ok.mp h₃
  obtain rfl := load32_readOnly _ _ _ _ hstart
  obtain ⟨r, s₅, hfind, h₅⟩ := bind_eq_ok.mp h₄
  obtain ⟨rfl, p, hp, place, rfl, hplace⟩ := findMemoryRegion_ok hfind
  obtain ⟨start', s₆, hstart', h₆⟩ := bind_eq_ok.mp h₅
  obtain rfl := load32_readOnly _ _ _ _ hstart'
  obtain ⟨_, s₇, hmove, h₇⟩ := bind_eq_ok.mp h₆
  cases h₇
  by_cases hzero : (e - start).toUInt64 = 0
  · -- Nothing is moved.
    rw [hzero] at hmove
    refine wp_ok (wp_memmove (E := fun _ => True) (Or.inr fun _ => trivial)
      (Or.inr fun _ => trivial) (Q := fun _ s' => Set.EqOn s'.mem _ _)
      fun pd ps s' _ _ hcopied a _ => hcopied.only.mem fun hin => ?_) hmove
    rw [Set.mem_Ico] at hin
    exact absurd hin.2 (Nat.not_lt.mpr hin.1)
  · obtain ⟨hint, hle, hstop⟩ := hplace.bounds (hends p hp) hheap hzero
    rw [hint] at hmove
    dsimp only at hle hstop hmove
    have hlt := start'.toNat_lt
    obtain ⟨hmapped, rfl⟩ := memmove_VIRT_ok (by omega)
      (by rw [UInt32.toNat_toUInt64]; omega) hzero hmove
    refine fun a ha => ByteMem.copy_of_notMem fun hin => ?_
    rw [Set.mem_Iio] at ha
    rw [Set.mem_Ico] at hin
    omega

/-- Every run of `start_vmm` with a module goes through these phases. -/
theorem startRun_of_run {endSym mbi hsa : UInt64} {cpuid : Cpuid} {pml₀ : PmemLayout} {vm : Vm}
    {s s' : State} (hends : ∀ e820 s₁, setupMemoryRegion mbi s = .ok (e820, s₁) →
      ∀ p ∈ e820.map, p.stop ≤ 2 ^ 31)
    (hmodule : ∀ start e, guestModule mbi s = .ok ((start, e), s) → (e - start).toUInt64 ≠ 0)
    (hrun : startVmmMsr endSym cpuid mbi pml₀ s = .ok ((hsa, vm), s')) :
    ∃ start e e820 pml L h s₀ s₁ s₂,
      StartRun endSym mbi hsa vm start e e820 pml L h s s₀ s₁ s₂ s' := by
  obtain ⟨_, _, hprint, h₀⟩ := bind_eq_ok.mp hrun
  cases hprint
  obtain ⟨opt, _, hparse, hsetup⟩ := bind_eq_ok.mp h₀
  obtain ⟨rfl, rfl⟩ := parseCmdline_ok hparse
  simp only [setupArch, bind_assoc, pure_bind] at hsetup
  obtain ⟨e820, _, hmap, h₂⟩ := bind_eq_ok.mp hsetup
  obtain rfl := setupMemoryRegion_readOnly _ _ _ _ hmap
  obtain ⟨pml, s₀, hcopy, h₃⟩ := bind_eq_ok.mp h₂
  obtain ⟨pml', s₁, hinit, h₄⟩ := bind_eq_ok.mp h₃
  obtain ⟨hsa', s₂, hcpu, h₅⟩ := bind_eq_ok.mp h₄
  obtain ⟨vm', s₃, hcreate, h₆⟩ := bind_eq_ok.mp h₅
  cases h₆
  have hend := hends e820 _ hmap
  have hheap : DEFAULT_VMM_HEAP_SIZE.toNat ≤ 2 ^ 31 := by decide
  obtain ⟨start, e, hmod, hsaved⟩ := copyGuestImage_ok hend hheap hcopy
  have hlow := copyGuestImage_low hend hheap hcopy
  have hsize : pml.guestImageSize ≠ 0 := by
    rw [hsaved.size]
    exact hmodule start e hmod
  obtain ⟨hplace, hstop⟩ := hsaved.place hsize
  have hboot : BootLayout e820 pml := by
    refine ⟨fun p hp => ?_, hsaved.maxPage, ?_, ?_⟩
    · have := hend p hp
      rw [E820Entry.stop] at this
      unfold E820Entry.NoWrap
      omega
    · rw [hsaved.heapEnd]
      exact (show DEFAULT_VMM_HEAP_SIZE.toNat ≤ 2 ^ 64 - 4096 by decide)
    · omega
  obtain ⟨L, hready⟩ := allocatorReady_of_init hboot hinit
  obtain ⟨h, rfl, hev, hinv⟩ := wp_ok (wp_identifyCpu (allocPages_contract_returns L) (k := 0)
    hready.inv (fun _ => trivial) (Q := fun hsa s₂ => ∃ h, hsa = h <<< PAGE_SHIFT ∧
      Evolves L.bytes [(h, 1)] s₁ s₂ ∧ AllocInv L s₂)
    fun h s₂ hev hinv => ⟨h, rfl, hev, hinv⟩) hcpu
  rw [naiveAllocatorInit_layout hinit] at hcreate
  exact ⟨start, e, e820, pml, L, h, s₀, s₁, s₂, hmod, hsaved.size, hsaved.heapEnd, hlow,
    ⟨hplace, hstop⟩, hsaved.bytes, hready, rfl, hev, hinv, hcreate⟩

/-! ## What a run leaves -/

/-- The machine when `start_vmm` calls `vm_boot`: the frame `h` is the host save area,
`n` the VMCB, the memory of the VM starts at frame `r`, and its nested tables are the
frames `S`. -/
structure VmmStarted (L : AllocLayout) (h n : Nat) (r : UInt64) (S : Set Nat)
    (hsa : UInt64) (vm : Vm) (s s' : State) : Prop where
  hsa : hsa.toNat = h * 4096
  vmcb : vm.vmcb = frameVaddr n
  vmcbAt : Addressable n
  np : Vmcb.npEnable.value n s' = 1
  hCr3 : Vmcb.hCr3.value n s' = vm.hCr3.toNat
  check : vmcbCheckConsistency vm.vmcb s' = .ok ((), s')
  enclosed : Enclosed s'.mem vm.hCr3.toNat (guestReach r DEFAULT_VM_PMEM_SIZE) S
  heap : L.bitmap + 8 * L.words < DEFAULT_VMM_HEAP_SIZE.toNat
  high : ∀ g, g = h ∨ g = n ∨ g ∈ S ∨ g ∈ vmFrames r DEFAULT_VM_PMEM_SIZE →
    DEFAULT_VMM_HEAP_SIZE.toNat ≤ g * 4096
  hostSave : h ≠ n ∧ h ∉ S ∧ h ∉ vmFrames r DEFAULT_VM_PMEM_SIZE
  vmcbApart : n ∉ S ∧ n ∉ vmFrames r DEFAULT_VM_PMEM_SIZE
  low : Set.EqOn s'.mem s.mem (Set.Iio L.bitmap)

/-- What the guest starts on, when its image is the module at `a` in `s` and its memory
starts at frame `r`.  The image is in place outside the temporary page table, and the
two page tables are all that a walk depends on. -/
structure GuestStarted (s : State) (a n : Nat) (r : UInt64) (vm : Vm) (s' : State) : Prop where
  rip : Vmcb.rip.value n s' = (imageEntry s.mem a).toNat
  cr3 : Vmcb.cr3.value n s' = GUEST_CR3.toNat
  walk : ∀ m, Set.EqOn m s'.mem (tempBytes (tempFrame r)) →
    (∀ g, guestAccess m vm.hCr3.toNat g = guestAccess s'.mem vm.hCr3.toNat g) →
    ∀ v, v < 2 ^ 48 →
      guestWalk m vm.hCr3.toNat GUEST_CR3.toNat v = bootTarget (r.toNat * 4096) v
  image : ∀ i, i < imagePhnum s.mem a → ∀ p, p = segment s.mem a i → p.Loadable →
    ∀ k, k < p.memsz.toNat → ¬InTempTable (p.paddr.toNat + k) →
      s'.mem (r.toNat * 4096 + (p.paddr.toNat + k)) =
        if k < p.filesz.toNat then s.mem (a + p.offset.toNat + k) else 0

/-- The temporary page table in a memory that has the same three pages. -/
theorem TempTable.at_mem {n : Nat} {s s' : State} (h : TempTable n s s') {m : ByteMem}
    (heq : Set.EqOn m s'.mem (tempBytes n)) :
    TempTable n { s' with mem := m } { s' with mem := m } := by
  have hword : ∀ k < 3, ∀ i, words m (n + k) i = words s'.mem (n + k) i := fun k hk i => by
    refine words_congr (heq.mono fun a ha => ?_) i
    rw [mem_frameBytes] at ha
    rw [mem_tempBytes]
    omega
  constructor
  · exact h.addressable
  · exact OnlyWrites.refl _ _
  · intro i
    exact (hword 0 (by decide) i).trans (h.pml4 i)
  · intro i
    exact (hword 1 (by decide) i).trans (h.pdp i)
  · intro i
    exact (hword 2 (by decide) i).trans (h.pd i)

section Started

variable {endSym mbi hsa : UInt64} {vm : Vm} {start e : UInt32} {e820 : E820Map}
  {pml : PmemLayout} {L : AllocLayout} {h r : UInt64} {s s₀ s₁ s₂ s' : State}

/-- The image that `vm_create` loads is the module. -/
theorem StartRun.image (hr : StartRun endSym mbi hsa vm start e e820 pml L h s s₀ s₁ s₂ s') :
    SameBytes s₂.mem pml.guestImageStart.toNat s.mem start.toNat pml.guestImageSize.toNat := by
  have hplace := hr.place.1
  rw [← hr.heapEnd] at hplace
  intro k hk
  refine Eq.trans ?_ (hr.bytes k hk)
  refine hr.ready.image_eqOn hplace hr.cpu hr.inv (Set.mem_Ico.mpr ?_)
  exact ⟨Nat.le_add_right _ _, Nat.add_lt_add_left hk _⟩

/-- The saved image lies behind the bitmap. -/
theorem StartRun.image_above
    (hr : StartRun endSym mbi hsa vm start e e820 pml L h s s₀ s₁ s₂ s')
    (hend : (PHYS endSym).toNat ≤ 1073741824) :
    L.bitmap = (bitmapStart endSym).toNat ∧ (PHYS endSym).toNat ≤ L.bitmap ∧
      (bitmapStart endSym).toNat + (bitmapSize pml.maxPage).toNat ≤
        pml.guestImageStart.toNat := by
  have hup : (bitmapStart endSym).toNat = ((PHYS endSym).toNat + 4095) / 4096 * 4096 :=
    toNat_PAGE_UP (by omega)
  have hbitmap := eq_of_bootTranslate_VIRT (by omega) hr.ready.bitmap
  have hheap := hr.ready.heap
  rw [hr.ready.words, hr.heapEnd] at hheap
  have hplace := hr.place.1
  omega

/-- Ranges that were handed out lie above the heap. -/
theorem StartRun.heapEnd_le
    (hr : StartRun endSym mbi hsa vm start e e820 pml L h s s₀ s₁ s₂ s') {t : State}
    (hinv : AllocInv L t) {q : UInt64 × UInt64} (hq : q ∈ t.handedOut) {f : Nat}
    (hf : f ∈ rangeFrames q) : DEFAULT_VMM_HEAP_SIZE.toNat ≤ f * 4096 := by
  rw [← hr.heapEnd]
  exact hinv.heap_le hr.ready.safe hq hf

/-- Whatever is allocated, nothing below the bitmap is written. -/
theorem StartRun.low_eqOn
    (hr : StartRun endSym mbi hsa vm start e e820 pml L h s s₀ s₁ s₂ s')
    {own : List (UInt64 × UInt64)} {t : State} (hinv : AllocInv L t)
    (hown : t.handedOut = own ++ s₂.handedOut) (hev : Evolves L.bytes own s₂ s') :
    Set.EqOn s'.mem s.mem (Set.Iio L.bitmap) := by
  have hheap := hr.ready.heap
  rw [hr.heapEnd] at hheap
  have hbitmap : Disjoint L.bytes (Set.Iio L.bitmap) := by
    rw [Set.disjoint_left]
    intro a ha hlt
    rw [AllocLayout.bytes, Set.mem_Ico] at ha
    rw [Set.mem_Iio] at hlt
    omega
  have hranges : ∀ qs : List (UInt64 × UInt64), (∀ q ∈ qs, q ∈ t.handedOut) →
      Disjoint (rangeBytes qs) (Set.Iio L.bitmap) := by
    intro qs hqs
    rw [Set.disjoint_left]
    rintro a ⟨q, hq, ha⟩ hlt
    have := hr.heapEnd_le hinv (hqs q hq) ha
    rw [Set.mem_Iio] at hlt
    omega
  have hcpu : ∀ q ∈ [(h, (1 : UInt64))], q ∈ t.handedOut := by
    intro q hq
    rw [hown, hr.cpu.handedOut]
    exact List.mem_append_right _ (List.mem_append_left _ hq)
  have hnew : ∀ q ∈ own, q ∈ t.handedOut := by
    intro q hq
    rw [hown]
    exact List.mem_append_left _ hq
  intro a ha
  rw [hev.eqOn hbitmap (hranges own hnew) ha, hr.cpu.eqOn hbitmap (hranges _ hcpu) ha,
    hr.ready.mem fun hin => Set.disjoint_left.mp hbitmap hin ha]
  refine hr.low (Set.mem_Iio.mpr ?_)
  rw [Set.mem_Iio] at ha
  omega

/-- The loader puts the module into the memory of the VM. -/
theorem StartRun.wp_load
    (hr : StartRun endSym mbi hsa vm start e e820 pml L h s s₀ s₁ s₂ s')
    (hend : (PHYS endSym).toNat ≤ 1073741824)
    (hwf : WellFormedImage s₂.mem pml.guestImageStart.toNat pml.guestImageSize.toNat
      DEFAULT_VM_PMEM_SIZE.toNat) {n f : Nat} {r : UInt64} {S : Set Nat}
    {own : List (UInt64 × UInt64)} {t₁ : State}
    (hm : VmMemory (fun _ => True) L.bytes DEFAULT_VM_PMEM_SIZE n r f S own s₂ t₁)
    (hinv : AllocInv L t₁) :
    wp (loadElfImage (VIRT pml.guestImageStart) pml.guestImageSize (VIRT (r <<< PAGE_SHIFT)))
      (fun entry t₂ => OnlyWrites (vmPmemBytes r DEFAULT_VM_PMEM_SIZE) t₁ t₂ ∧
        entry = (imageEntry s₂.mem pml.guestImageStart.toNat).toUInt64 ∧
        ∀ i, i < imagePhnum s₂.mem pml.guestImageStart.toNat →
          (segment s₂.mem pml.guestImageStart.toNat i).Loadable →
          InPlace s₂ pml.guestImageStart (r <<< PAGE_SHIFT) i t₂) (fun _ => True) t₁ := by
  obtain ⟨heq, hlayout⟩ := hm.imageLayout hr.ready hinv (hr.image_above hend).2.2 hr.place.2 hwf
  obtain ⟨hnum, hseg, -⟩ := hwf.congr heq
  refine wp_imp (wp_loadElfImage_image hlayout hm.pmem_accessible) fun entry t₂ ⟨he, hw, hin⟩ => ?_
  refine ⟨?_, ?_, fun i hi hl k hk => ?_⟩
  · rwa [vmPmemBytes_eq, ← hm.toNat_start]
  · rw [he, imageEntry_congr heq hwf.ehdr]
  · have hplace := hin i (hnum ▸ hi) (by rwa [hseg i hi])
    rw [InPlace, hseg i hi] at hplace
    rw [hplace k hk]
    split_ifs with hkf
    · have hfile := hwf.file i hi hl.1
      exact heq (Set.mem_Ico.mpr (by omega))
    · rfl

/-- What the guest finds, for a VM that `vm_create` built. -/
theorem StartRun.guestStarted
    (hr : StartRun endSym mbi hsa vm start e e820 pml L h s s₀ s₁ s₂ s')
    (hwf : WellFormedImage s.mem start.toNat pml.guestImageSize.toNat
      DEFAULT_VM_PMEM_SIZE.toNat) {n f : Nat} {r ri rm entry : UInt64} {S : Set Nat}
    {own : List (UInt64 × UInt64)} {t₁ t₂ t₃ : State}
    (hm : VmMemory (fun _ => True) L.bytes DEFAULT_VM_PMEM_SIZE n r f S own s₂ t₁)
    (hg : GuestCreated n r DEFAULT_VM_PMEM_SIZE t₁ t₂ t₃ s')
    (hb : VmcbBuilt L.bytes n ri rm (vmcbTable (ri <<< PAGE_SHIFT) (rm <<< PAGE_SHIFT)
      (UInt64.ofNat (f * 4096)) entry) s')
    (hentry : entry = (imageEntry s₂.mem pml.guestImageStart.toNat).toUInt64)
    (hplace : ∀ i, i < imagePhnum s₂.mem pml.guestImageStart.toNat →
      (segment s₂.mem pml.guestImageStart.toNat i).Loadable →
      InPlace s₂ pml.guestImageStart (r <<< PAGE_SHIFT) i t₂) :
    GuestStarted s start.toNat n r
      ⟨frameVaddr n, UInt64.ofNat (f * 4096), vmMbi (VIRT (r <<< PAGE_SHIFT))⟩ s' := by
  have hsize : 0x206000 ≤ DEFAULT_VM_PMEM_SIZE.toNat := by decide
  have hle := hm.pmem_le
  obtain ⟨hnum, hseg, -⟩ := hwf.copied hr.image
  have hroot := (hm.owned.addressable f hm.tree.root_mem).toNat
  have haccess : ∀ g, g < 2 ^ 22 → guestAccess s'.mem (f * 4096) g =
      some (if g < 2 ^ 21 then g else r.toNat * 4096 + g) := fun g hlt =>
    (hg.nestedTable hm hsize).guestAccess hm.toNat_start hm.pmem_aligned (by omega) (by decide) hlt
  constructor
  · rw [hb.holds.value (Vmcb.rip, entry) (by simp [vmcbTable]), hentry, UInt32.toNat_toUInt64,
      hr.image.imageEntry hwf.ehdr]
  · exact (hg.cr3 hm hsize).1
  · intro m hm' hacc v hv
    rw [hroot] at hacc ⊢
    refine (hg.temp.at_mem hm').guestWalk (by rw [tempFrame]; omega) (fun g hlt => ?_) hv
    rw [← haccess g hlt]
    exact hacc g
  · rintro i hi p rfl hl k hk htemp
    have hin := hplace i (hnum ▸ hi) (by rwa [hseg i hi])
    have hroom := hwf.room i hi hl.1
    have hfile := hwf.file i hi hl.1
    rw [InPlace, hseg i hi] at hin
    rw [ElfPhdr.stop] at hroom
    -- The byte is neither in the temporary page table nor in the VMCB.
    have ha : r.toNat * 4096 + ((segment s.mem start.toNat i).paddr.toNat + k) ∈
        vmPmemBytes r DEFAULT_VM_PMEM_SIZE := by
      rw [vmPmemBytes_eq, Set.mem_Ico, show (nrVmFrames DEFAULT_VM_PMEM_SIZE).toNat * 4096 =
        DEFAULT_VM_PMEM_SIZE.toNat from rfl]
      omega
    have hnotTemp : r.toNat * 4096 + ((segment s.mem start.toNat i).paddr.toNat + k) ∉
        tempBytes (tempFrame r) := by
      intro hmem
      rw [tempBytes, Set.mem_Ico, tempFrame] at hmem
      exact htemp ⟨by omega, by omega⟩
    have hnotRip : r.toNat * 4096 + ((segment s.mem start.toNat i).paddr.toNat + k) ∉
        Vmcb.rip.bytes n := fun hrip =>
      Set.disjoint_left.mp hm.vmcb_disjoint ha (Vmcb.rip.bytes_subset n hrip)
    rw [hg.temp.only.mem hnotTemp, hg.rip.mem hnotRip, ← Nat.add_assoc, ← hm.toNat_start, hin k hk]
    split_ifs with hkf
    · rw [Nat.add_assoc, hr.image _ (by omega), Nat.add_assoc]
    · rfl

/-- What a run leaves of the VMM, for a VM that `vm_create` built. -/
theorem StartRun.vmmStarted
    (hr : StartRun endSym mbi hsa vm start e e820 pml L h s s₀ s₁ s₂ s')
    {n f : Nat} {r ri rm entry : UInt64} {S : Set Nat} {own : List (UInt64 × UInt64)}
    {t₁ t₂ t₃ : State}
    (hvm : vm = ⟨frameVaddr n, UInt64.ofNat (f * 4096), vmMbi (VIRT (r <<< PAGE_SHIFT))⟩)
    (hm : VmMemory (fun _ => True) L.bytes DEFAULT_VM_PMEM_SIZE n r f S own s₂ t₁)
    (hinv : AllocInv L t₁) (hg : GuestCreated n r DEFAULT_VM_PMEM_SIZE t₁ t₂ t₃ s')
    (hb : VmcbBuilt L.bytes n ri rm
      (vmcbTable (ri <<< PAGE_SHIFT) (rm <<< PAGE_SHIFT) vm.hCr3 entry) s') :
    VmmStarted L h.toNat n r S hsa vm s s' := by
  subst hvm
  have hsize : 0x206000 ≤ DEFAULT_VM_PMEM_SIZE.toNat := by decide
  have hown := hm.evolves.handedOut
  have hnew : ∀ q ∈ own, q ∈ t₁.handedOut := by
    intro q hq
    rw [hown]
    exact List.mem_append_left _ hq
  have hn : n ∈ rangeFrames (UInt64.ofNat n, 1) := by
    have := hm.vmcb
    unfold Addressable at this
    exact (rangeFrames_one (by omega)).mpr rfl
  -- The frames of the VM lie above the heap, and the host save area does, too.
  have hhigh : ∀ q ∈ own, ∀ g ∈ rangeFrames q, DEFAULT_VMM_HEAP_SIZE.toNat ≤ g * 4096 :=
    fun q hq g hg => hr.heapEnd_le hinv (hnew q hq) hg
  have hh : h.toNat ∈ rangeFrames (h, 1) := by
    rw [mem_rangeFrames, show (1 : UInt64).toNat = 1 from rfl]
    omega
  have hh₂ : (h, 1) ∈ s₂.handedOut := by
    rw [hr.cpu.handedOut]
    exact List.mem_cons_self
  have hsave : ∀ q ∈ own, h.toNat ∉ rangeFrames q := hm.evolves.notMem hh₂ hh
  have htables : ∀ g ∈ S, ∃ q ∈ own, g ∈ rangeFrames q := hm.table_own
  have hapart := hm.reach_apart (by decide) fun g hgS => by
    obtain ⟨q, hq, hgq⟩ := htables g hgS
    have := hhigh q hq g hgq
    rw [show DEFAULT_VMM_HEAP_SIZE.toNat = 4194304 from rfl] at this
    omega
  have hle := hm.pmem_le
  have henc := (hg.nestedTable hm hsize).enclosed hm.toNat_start hm.pmem_aligned (by omega)
    (by decide) hapart
  have hroot := (hm.owned.addressable f hm.tree.root_mem).toNat
  have hmax : h.toNat < 2 ^ 52 := by
    have hbusy := (hr.inv.handedOut_busy _ hh₂ _ hh).1
    have := hr.inv.maxPage_le
    omega
  refine ⟨?_, rfl, hm.vmcb, ?_, ?_, ?_, ?_, ?_, ?_, ⟨?_, ?_, ?_⟩, ⟨?_, ?_⟩, ?_⟩
  · rw [hr.hsa, toNat_shiftLeft_PAGE_SHIFT hmax]
  · exact hb.holds.value (Vmcb.npEnable, 1) (by simp [vmcbTable, controlTable])
  · exact (hg.cr3 hm hsize).2.trans hroot.symm
  · exact (vmcbCheckConsistency_eq_ok_iff hb.vmcb).mpr hb.accepted.passes
  · rw [hroot]
    exact henc
  · rw [← hr.heapEnd]
    exact hr.ready.heap
  · rintro g (rfl | rfl | hgS | hgr)
    · exact hr.heapEnd_le hr.inv hh₂ hh
    · exact hhigh _ hm.vmcb_own _ hn
    · obtain ⟨q, hq, hgq⟩ := htables g hgS
      exact hhigh q hq g hgq
    · exact hhigh _ hm.pmem_own g hgr
  · rintro heq
    exact hsave _ hm.vmcb_own (heq ▸ hn)
  · intro hhS
    obtain ⟨q, hq, hhq⟩ := htables _ hhS
    exact hsave q hq hhq
  · exact hsave _ hm.pmem_own
  · exact hm.vmcb_table
  · exact hm.vmcb_pmem
  · exact hr.low_eqOn hinv hown (hg.evolves hm hsize)

/-- What a run with a well-formed module leaves. -/
theorem StartRun.started
    (hr : StartRun endSym mbi hsa vm start e e820 pml L h s s₀ s₁ s₂ s')
    (hend : (PHYS endSym).toNat ≤ 1073741824)
    (hwf : WellFormedImage s.mem start.toNat pml.guestImageSize.toNat
      DEFAULT_VM_PMEM_SIZE.toNat) :
    ∃ n r S, VmmStarted L h.toNat n r S hsa vm s s' ∧
      GuestStarted s start.toNat n r vm s' := by
  have hwf₂ := (hwf.copied hr.image).2.2
  obtain ⟨n, r, f, S, own, ri, rm, entry, t₁, t₂, t₃, hvm, hm, hinv, ⟨hentry, hplace⟩, hg, hb⟩ :=
    vmCreate_built_of_load (allocPages_contract_returns L) hr.inv (by decide)
      (P := fun r _ entry t₂ => entry = (imageEntry s₂.mem pml.guestImageStart.toNat).toUInt64 ∧
        ∀ i, i < imagePhnum s₂.mem pml.guestImageStart.toNat →
          (segment s₂.mem pml.guestImageStart.toNat i).Loadable →
          InPlace s₂ pml.guestImageStart (r <<< PAGE_SHIFT) i t₂)
      (fun _ _ _ _ _ _ hm hinv _ => hr.wp_load hend hwf₂ hm hinv) hr.create
  refine ⟨n, r, S, hr.vmmStarted hvm hm hinv hg hb, ?_⟩
  subst hvm
  exact hr.guestStarted hwf hm hg hb hentry hplace

end Started

/-! ## The VMM stays intact -/

/-- Memory from the end of the heap on is as `start_vmm` left it, apart from the host
save area. -/
def FromHeap (h : Nat) (m m' : ByteMem) : Prop :=
  Set.EqOn m m' (Set.Ici DEFAULT_VMM_HEAP_SIZE.toNat \ frameBytes h)

section Intact

variable {L : AllocLayout} {h n : Nat} {r : UInt64} {S : Set Nat} {hsa : UInt64} {vm : Vm}
  {s s' : State} {m m' : ByteMem}

theorem VmmStarted.high_bytes (hv : VmmStarted L h n r S hsa vm s s') {a : Nat}
    (ha : a / 4096 = h ∨ a / 4096 = n ∨ a / 4096 ∈ S ∨
      a / 4096 ∈ vmFrames r DEFAULT_VM_PMEM_SIZE) : DEFAULT_VMM_HEAP_SIZE.toNat ≤ a := by
  have := hv.high _ ha
  omega

theorem VmmStarted.eqOn_tables (hv : VmmStarted L h n r S hsa vm s s') (hm : FromHeap h m s'.mem) :
    Set.EqOn m s'.mem (framesBytes S) := by
  intro a ha
  refine hm ⟨hv.high_bytes (Or.inr (Or.inr (Or.inl ha))), fun hin => ?_⟩
  rw [mem_frameBytes] at hin
  exact hv.hostSave.2.1 (hin ▸ ha)

theorem VmmStarted.sameTables (hv : VmmStarted L h n r S hsa vm s s')
    (hm : FromHeap h m s'.mem) : SameTables S s'.mem m := by
  intro f hf i
  refine congrArg ignoreAD (words_congr ((hv.eqOn_tables hm).mono fun a ha => ?_) i)
  rw [mem_frameBytes] at ha
  exact show a / 4096 ∈ S from ha ▸ hf

theorem BootTablesAt.congr {p : Nat} (hb : BootTablesAt p m)
    (heq : Set.EqOn m' m (Set.Ico (p * 4096) ((p + 3) * 4096))) : BootTablesAt p m' := by
  have hw : ∀ k < 3, ∀ i, words m' (p + k) i = words m (p + k) i := fun k hk i =>
    words_congr (heq.mono (Set.Ico_subset_Ico (by omega) (by omega))) i
  refine ⟨hb.addressable, fun i => ?_, fun i => ?_, fun i => ?_⟩
  · rw [show words m' p i = words m p i from hw 0 (by decide) i]
    exact hb.pml4 i
  · rw [hw 1 (by decide)]
    exact hb.pdp i
  · rw [hw 2 (by decide)]
    exact hb.pdir i

theorem startVmm_ok {endSym mbi : UInt64} {cpuid : Cpuid} {pml₀ : PmemLayout}
    (hrun : startVmm endSym cpuid mbi pml₀ s = .ok (vm, s')) :
    ∃ hsa, startVmmMsr endSym cpuid mbi pml₀ s = .ok ((hsa, vm), s') := by
  rw [startVmm] at hrun
  obtain ⟨⟨hsa, vm'⟩, s₁, hmsr, hpure⟩ := bind_eq_ok.mp hrun
  cases hpure
  exact ⟨hsa, hmsr⟩

/-- The module that the boot loader passes is an image for a VM of the default size. -/
def ModuleWellFormed (mbi : UInt64) (s : State) : Prop :=
  ∀ start e, guestModule mbi s = .ok ((start, e), s) →
    WellFormedImage s.mem start.toNat (e - start).toUInt64.toNat DEFAULT_VM_PMEM_SIZE.toNat

/-- Every entry of the memory map, usable or not, ends at or below 2 GB. -/
def MapEndsBelow2GB (mbi : UInt64) (s : State) : Prop :=
  ∀ e820 s₁, setupMemoryRegion mbi s = .ok (e820, s₁) → ∀ p ∈ e820.map, p.stop ≤ 2 ^ 31

theorem ModuleWellFormed.ne_zero {mbi : UInt64} (hmod : ModuleWellFormed mbi s) (start e : UInt32)
    (hm : guestModule mbi s = .ok ((start, e), s)) : (e - start).toUInt64 ≠ 0 := by
  intro hzero
  have hehdr := (hmod start e hm).ehdr
  rw [hzero] at hehdr
  exact absurd hehdr (by decide)

/-- What every run of `start_vmm` with a well-formed module leaves. -/
theorem vmmStarted_of_run {endSym mbi : UInt64} {cpuid : Cpuid} {pml₀ : PmemLayout}
    (hmap : MapEndsBelow2GB mbi s) (hend : (PHYS endSym).toNat ≤ 1073741824)
    (hmod : ModuleWellFormed mbi s)
    (hrun : startVmmMsr endSym cpuid mbi pml₀ s = .ok ((hsa, vm), s')) :
    ∃ L h n r S, VmmStarted L h n r S hsa vm s s' ∧ (PHYS endSym).toNat ≤ L.bitmap ∧
      ∃ start e, guestModule mbi s = .ok ((start, e), s) ∧
        GuestStarted s start.toNat n r vm s' := by
  obtain ⟨start, e, e820, pml, L, h, s₀, s₁, s₂, hr⟩ :=
    startRun_of_run hmap hmod.ne_zero hrun
  have hwf := hmod start e hr.module
  rw [← hr.size] at hwf
  obtain ⟨n, r, S, hv, hgs⟩ := hr.started hend hwf
  exact ⟨L, h.toNat, n, r, S, hv, (hr.image_above hend).2.1, start, e, hr.module, hgs⟩

end Intact

/-! ## A sample run -/

open ByteMem in
/-- The sample boot with a module of 1 MB at 8 MB. -/
def elfBootPieces : List (Nat × List UInt8) := [
  (0x1000, bytesLE 4 (MBI_MODULES ||| MBI_MEMMAP).toNat),
  (0x1014, bytesLE 4 (1 : UInt32).toNat), -- mods_count
  (0x1018, bytesLE 4 (0x3000 : UInt32).toNat), -- mods_addr
  (0x102C, bytesLE 4 (encodeRecords bootRecords).length), -- mmap_length
  (0x1030, bytesLE 4 (0x10000 : UInt32).toNat), -- mmap_addr
  (0x3000, bytesLE 4 (0x800000 : UInt32).toNat), -- mod_start
  (0x3004, bytesLE 4 (0x900000 : UInt32).toNat), -- mod_end
  (0x10000, encodeRecords bootRecords)]

/-- A machine with these pieces, and the sample image as the module. -/
def elfBoot : State where
  mem := ByteMem.layAll (sampleElf samplePhdr) elfBootPieces
  nalloc := { allocBitmap := 0, maxPage := 0 }
  handedOut := []

/-- What is in `pml` when the allocator starts. -/
def elfBootLayout : PmemLayout := { bootLayout with guestImageSize := 0x100000 }

/-- `_end` of the VMM. -/
def vmmEnd : UInt64 := 0xFFFF83000021D000

/-- `t` has these pieces, and the image with the program header `p` as the module. -/
structure ElfBoot (p : ElfPhdr) (t : State) : Prop where
  holds : ∀ i (h : i < elfBootPieces.length), t.mem.Holds elfBootPieces[i].1 elfBootPieces[i].2
  elf : HasSampleElf p t.mem
  filesz : p.filesz ≤ p.memsz
  file : p.offset.toNat + p.filesz.toNat ≤ 0x100000
  room : p.stop ≤ 0x400000

theorem sampleElf_entry (p : ElfPhdr) : imageEntry (sampleElf p) 0x800000 = 0x200000 := by
  simp (disch := omega) only [imageEntry, sampleElf, ByteMem.readLE_writeLE,
    ByteMem.readLE_writeLE_of_disjoint]
  rfl

/-- The pieces lie below the module. -/
theorem layAll_elfBootPieces (m : ByteMem) {a : Nat} (ha : 0x800000 ≤ a) :
    m.layAll elfBootPieces a = m a := by
  have hlow : ∀ p ∈ elfBootPieces, p.1 + p.2.length ≤ 0x800000 := by decide
  refine ByteMem.layAll_of_notMem fun p hp hin => ?_
  have := hlow p hp
  rw [Set.mem_Ico] at hin
  omega

theorem elfBoot_elfBoot : ElfBoot samplePhdr elfBoot where
  holds i h := ByteMem.holds_layAll (by decide) _ _ (List.getElem_mem h)
  elf a ha := layAll_elfBootPieces _ ha.1
  filesz := by decide
  file := by decide
  room := by decide

namespace ElfBoot

variable {p : ElfPhdr} {t : State}

theorem memoryMap (ht : ElfBoot p t) :
    HoldsMemoryMap 0x1000 bootRecords (MBI_MODULES ||| MBI_MEMMAP)
      (UInt32.ofNat (encodeRecords bootRecords).length) 0x10000 0x10000 t :=
  holdsMemoryMap_of_holds (ht.holds 0 (by decide)) (by decide)
    (ht.holds 3 (by decide)) (ht.holds 4 (by decide))
    (ht.holds 7 (by decide)) (by decide)

theorem loads (ht : ElfBoot p t) :
    mbiModsCount 0x1000 t = .ok (1, t) ∧
    mbiModsAddr 0x1000 t = .ok (0x3000, t) ∧
    modStart (VIRT (0x3000 : UInt32).toUInt64) t = .ok (0x800000, t) ∧
    modEnd (VIRT (0x3000 : UInt32).toUInt64) t = .ok (0x900000, t) :=
  ⟨load32_of_holds (a := 0x1014) (by decide) (ht.holds 1 (by decide)),
    load32_of_holds (a := 0x1018) (by decide) (ht.holds 2 (by decide)),
    load32_of_holds (a := 0x3000) (by decide) (ht.holds 5 (by decide)),
    load32_of_holds (a := 0x3004) (by decide) (ht.holds 6 (by decide))⟩

protected theorem guestModule (ht : ElfBoot p t) :
    guestModule 0x1000 t = .ok ((0x800000, 0x900000), t) := by
  obtain ⟨-, haddr, hstart, hend⟩ := ht.loads
  rw [guestModule, bind_of_ok haddr, bind_of_ok hend, bind_of_ok hstart]
  rfl

theorem wellFormed (ht : ElfBoot p t) : ModuleWellFormed 0x1000 t := by
  intro start e hm
  rw [ht.guestModule] at hm
  cases hm
  exact ht.elf.wellFormed (by decide) ht.filesz ht.file ht.room

protected theorem setupMemoryRegion (ht : ElfBoot p t) :
    setupMemoryRegion 0x1000 t = .ok (bootMap, t) := by
  obtain ⟨⟨map, hle⟩, hok, rfl⟩ := setupMemoryRegion_ok ht.memoryMap (by decide)
  exact hok

theorem mapEnds (ht : ElfBoot p t) : MapEndsBelow2GB 0x1000 t := by
  intro e820 s₁ hmap
  rw [ht.setupMemoryRegion] at hmap
  cases hmap
  exact List.forall_mem_cons.mpr ⟨by decide, List.forall_mem_singleton.mpr (by decide)⟩

/-- The module is copied to 4 MB. -/
protected theorem copyGuestImage (ht : ElfBoot p t) : ∃ s₀, copyGuestImage 0x1000 bootMap
    { elfBootLayout with guestImageStart := 0, guestImageSize := 0 } t =
      .ok (elfBootLayout, s₀) ∧ SameBytes s₀.mem 0x400000 t.mem 0x800000 0x100000 := by
  obtain ⟨hcount, haddr, hstart, hend⟩ := ht.loads
  have hhas : hasGuestImage 0x1000 t = .ok (true, t) := by
    rw [hasGuestImage, bind_of_ok ht.memoryMap.mbiFlags, if_neg (by decide),
      bind_of_ok hcount]
    rfl
  have hfind : findMemoryRegionForSavingGuestImage bootMap
      { elfBootLayout with guestImageStart := 0 } 0x100000 t =
        .ok (0x400000, t) := by
    show findMemoryRegionIn _ _ (⟨0, 0x20000000, 1⟩ :: _) _ = _
    rw [findMemoryRegionIn, if_neg (by decide), if_pos (by decide)]
    rfl
  have hmapped : ∀ v a, bootTranslate v 0x100000 = some a →
      Accessible (fun _ => False) v (0x100000 : UInt64).toNat := fun v a h =>
    Or.inl ⟨a, fun _ => h⟩
  obtain ⟨_, s₀, hmove, -⟩ := exists_ok_of_wp (wp_memmove (s := t)
    (hmapped (VIRT 0x400000) 0x400000 (by decide))
    (hmapped (VIRT (0x800000 : UInt32).toUInt64) 0x800000 (by decide))
    (Q := fun _ _ => True) fun _ _ _ _ _ _ => trivial)
  have hcopy : copyGuestImage 0x1000 bootMap
      { elfBootLayout with guestImageStart := 0, guestImageSize := 0 } t =
        .ok (elfBootLayout, s₀) := by
    rw [copyGuestImage, bind_of_ok hhas, if_neg (by decide), bind_of_ok haddr, bind_of_ok hend,
      bind_of_ok hstart]
    exact (bind_of_ok hfind _).trans ((bind_of_ok hstart _).trans (bind_of_ok hmove _))
  refine ⟨s₀, hcopy, ?_⟩
  obtain ⟨start, e, hmod, hsaved⟩ := copyGuestImage_ok
    (ht.mapEnds _ _ ht.setupMemoryRegion) (by decide) hcopy
  rw [ht.guestModule] at hmod
  cases hmod
  exact hsaved.bytes

theorem elfBoot_bootLayout : BootLayout bootMap elfBootLayout where
  noWrap := boot_bootLayout.noWrap
  maxPage := by decide
  heapEnd := by decide
  image := by decide

theorem elfBoot_budget {L : AllocLayout} {s s₁ : State}
    (hready : AllocatorReady vmmEnd bootMap elfBootLayout L s s₁) {k : Nat} (hk : k ≤ 100000) :
    Budget (fun _ => False) L k s₁ := by
  have hmax : s₁.nalloc.maxPage.toNat = 131072 := by
    rw [hready.maxPage]
    rfl
  refine ⟨hready.inv, Or.inl ⟨1280, 131071, Or.inl ⟨by omega, fun f hf hf' => ?_⟩, by omega,
    by decide⟩⟩
  refine (hready.free_iff f (show f < 131072 by omega)).mpr
    ⟨⟨0, 0x20000000, 1⟩, List.mem_cons_self, rfl, ?_, ?_⟩
  · rw [show entryStart elfBootLayout ⟨0, 0x20000000, 1⟩ = 0x500000 by decide]
    omega
  · show f * 4096 + 4096 ≤ 0x20000000
    omega

/-- On this machine `start_vmm` comes to the call of `vm_boot`. -/
protected theorem startVmmMsr (ht : ElfBoot p t) : ∃ hsa vm s',
    startVmmMsr vmmEnd sampleCpuid 0x1000 ⟨0, 0, 0, 0, 0, 0⟩ t =
      .ok ((hsa, vm), s') := by
  obtain ⟨s₀, hcopy, hbytes⟩ := ht.copyGuestImage
  have hwf₀ : WellFormedImage t.mem 0x800000 0x100000 0x400000 :=
    ht.elf.wellFormed (by decide) ht.filesz ht.file ht.room
  have hwf := (hwf₀.copied hbytes).2.2
  have htail : wp (do
      let pml ← naiveAllocatorInit vmmEnd bootMap elfBootLayout
      let hsa ← identifyCpu allocPages sampleCpuid
      let vm ← vmCreate allocPages (VIRT pml.guestImageStart) pml.guestImageSize
        DEFAULT_VM_PMEM_SIZE
      return (hsa, vm)) (fun _ _ => True) (fun _ => False) s₀ := by
    rw [wp_bind]
    refine wp_naiveAllocatorInit elfBoot_bootLayout (Or.inl (by decide))
      (Or.inl ⟨0x21D000, fun _ => by decide⟩) fun L s₁ hready => ?_
    have hA := allocPages_contract (fun _ => False) L
    have hcost : vmCost DEFAULT_VM_PMEM_SIZE = 1555 := by decide
    rw [wp_bind, sample_identifyCpu, wp_bind]
    refine wp_allocHostSaveArea hA (elfBoot_budget hready (k := 0 + 1555 + 2) (by omega))
      fun h s₂ hev hbudget => ?_
    have himage := hready.image_eqOn (by decide) hev hbudget.1
    rw [wp_pure, wp_bind, vmCreate, wp_bind]
    refine wp_vmCreateMemory hA (k := 0) (by rwa [hcost]) fun n r f S own t₁ hm hbudget₁ => ?_
    have hlayout := (hm.imageLayout hready hbudget₁.1 (by decide) (by decide)
      (hwf.congr himage).2.2).2
    refine hm.wp_vmCreateGuest_image hlayout (hm.temp_accessible (by decide))
      fun _ _ _ _ _ => ?_
    rw [wp_pure]
    trivial
  obtain ⟨⟨hsa, vm⟩, s', hok, -⟩ := exists_ok_of_wp htail
  refine ⟨hsa, vm, s', ?_⟩
  have hparse : parseCmdline 0x1000 t =
      .ok (⟨DEFAULT_VMM_HEAP_SIZE, DEFAULT_VM_PMEM_SIZE⟩, t) := by
    rw [parseCmdline, bind_of_ok ht.memoryMap.mbiFlags, when, if_neg (by decide)]
    rfl
  have hlayout : ({ (⟨0, 0, 0, 0, 0, 0⟩ : PmemLayout) with
      totalPages := getNrPages bootMap
      maxPage := getMaxPfn bootMap
      vmmHeapEnd := DEFAULT_VMM_HEAP_SIZE } : PmemLayout) =
      { elfBootLayout with guestImageStart := 0, guestImageSize := 0 } := by decide
  simp only [startVmmMsr, setupArch, printf, bind_assoc, pure_bind]
  rw [bind_of_ok hparse, bind_of_ok ht.setupMemoryRegion, hlayout, bind_of_ok hcopy]
  exact hok

protected theorem startVmm (ht : ElfBoot p t) : ∃ vm s',
    startVmm vmmEnd sampleCpuid 0x1000 ⟨0, 0, 0, 0, 0, 0⟩ t = .ok (vm, s') := by
  obtain ⟨hsa, vm, s', hrun⟩ := ht.startVmmMsr
  refine ⟨vm, s', ?_⟩
  rw [startVmm, bind_of_ok hrun]
  rfl

end ElfBoot

/-! ## Results about every run -/

section Run

variable {endSym mbi : UInt64} {cpuid : Cpuid} {pml₀ : PmemLayout} {vm : Vm} {s s' : State}

/-- After every run of `start_vmm` the guest starts at the entry point of the module,
and through both of its page tables it finds the bytes of every loadable segment, apart
from those below 2 MB and in the temporary page table. -/
theorem startVmm_guest_finds_module
    (hmap : MapEndsBelow2GB mbi s) (hend : (PHYS endSym).toNat ≤ 1073741824)
    (hmod : ModuleWellFormed mbi s) (hrun : startVmm endSym cpuid mbi pml₀ s = .ok (vm, s')) :
    ∃ start e n, guestModule mbi s = .ok ((start, e), s) ∧ vm.vmcb = frameVaddr n ∧
      Vmcb.rip.value n s' = (imageEntry s.mem start.toNat).toNat ∧
      ∀ i, i < imagePhnum s.mem start.toNat → ∀ p, p = segment s.mem start.toNat i →
        p.Loadable → ∀ k, k < p.memsz.toNat → 2 ^ 21 ≤ p.paddr.toNat + k →
        ¬InTempTable (p.paddr.toNat + k) →
        ∃ a, guestWalk s'.mem (Vmcb.hCr3.value n s') (Vmcb.cr3.value n s') (p.paddr.toNat + k) =
            some a ∧
          s'.mem a = if k < p.filesz.toNat then s.mem (start.toNat + p.offset.toNat + k)
            else 0 := by
  obtain ⟨hsa, hmsr⟩ := startVmm_ok hrun
  obtain ⟨L, h, n, r, S, hv, -, start, e, hmodule, hg⟩ := vmmStarted_of_run hmap hend hmod hmsr
  refine ⟨start, e, n, hmodule, hv.vmcb, hg.rip, fun i hi p hp hl k hk h2mb htemp => ?_⟩
  have hroom := (hmod start e hmodule).room i hi (hp ▸ hl.1)
  rw [← hp, ElfPhdr.stop, show DEFAULT_VM_PMEM_SIZE.toNat = 4194304 from rfl] at hroom
  refine ⟨r.toNat * 4096 + (p.paddr.toNat + k), ?_, hg.image i hi p hp hl k hk htemp⟩
  rw [hv.hCr3, hg.cr3, hg.walk _ (Set.eqOn_refl _ _) (fun _ => rfl) _ (by omega), bootTarget,
    if_pos (by omega), if_neg (by omega)]

theorem sample_startVmm_guest_finds_module : ∃ vm s' n a,
    startVmm vmmEnd sampleCpuid 0x1000 ⟨0, 0, 0, 0, 0, 0⟩ elfBoot = .ok (vm, s') ∧
    vm.vmcb = frameVaddr n ∧ Vmcb.rip.value n s' = 0x200000 ∧
    guestWalk s'.mem (Vmcb.hCr3.value n s') (Vmcb.cr3.value n s') 0x200010 = some a ∧
    s'.mem a = elfBoot.mem 0x800010 := by
  obtain ⟨vm, s', hrun⟩ := elfBoot_elfBoot.startVmm
  obtain ⟨start, e, n, hmodule, hvmcb, hrip, hbytes⟩ :=
    startVmm_guest_finds_module elfBoot_elfBoot.mapEnds (by decide) elfBoot_elfBoot.wellFormed hrun
  rw [elfBoot_elfBoot.guestModule] at hmodule
  cases hmodule
  obtain ⟨hnum, -, hseg⟩ := elfBoot_elfBoot.elf.header
  obtain ⟨a, hwalk, hbyte⟩ := hbytes 0 (hnum ▸ Nat.one_pos) samplePhdr hseg.symm (by decide) 0x10
    (by decide) (by decide) (by decide)
  refine ⟨vm, s', n, a, hrun, hvmcb, ?_, hwalk, hbyte⟩
  rw [hrip, show (0x800000 : UInt32).toNat = 0x800000 from rfl,
    imageEntry_congr elfBoot_elfBoot.elf (by decide), sampleElf_entry]
  rfl

end Run

end Tvmm
