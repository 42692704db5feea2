import Tvmm.NestedTable
import Tvmm.Vmcb

/-!
# `vm.c`: the memory of a new VM

The part of `vm_create` up to the load of the guest image allocates everything
that the VM is made of: the VMCB, the two permission maps, the memory and the
nested page table.  `VmMemory` says what is where afterwards, and
`wp_vmCreateMemory` that the code gets there with any allocator that meets the
contract.
-/

set_option linter.style.nameCheck false

namespace Tvmm

open Exec LongMode

section Source

variable (allocPages : UInt64 → UInt64 → M UInt64)

/-- `alloc_vmcb` -/
def allocVmcb : M UInt64 := do
  let pfn ← allocPages 1 1
  let vmcb := VIRT (pfn <<< PAGE_SHIFT)
  memset vmcb 0 PAGE_SIZE -- sizeof ( struct vmcb )
  return vmcb

/-- `create_intercept_table` -/
def createInterceptTable (size : UInt64) : M UInt64 := do
  let pfn ← allocPages (size >>> PAGE_SHIFT) 1
  let p := VIRT (pfn <<< PAGE_SHIFT)
  memset p 0xff size
  return pfn <<< PAGE_SHIFT

def INTRCPT_VMRUN : UInt64 := (1 : UInt64) <<< 0

/-- `set_control_area` -/
def setControlArea (vmcb : UInt64) : M Unit := do
  Vmcb.npEnable.store vmcb 1
  printf "Nested paging enabled.\n"
  Vmcb.tlbControl.store vmcb 1
  Vmcb.tscOffset.store vmcb 0
  Vmcb.guestAsid.store vmcb 1
  Vmcb.general2Intercepts.store vmcb INTRCPT_VMRUN
  let iopm ← createInterceptTable allocPages ((12 : UInt64) <<< 10)
  Vmcb.iopmBasePa.store vmcb iopm
  let msrpm ← createInterceptTable allocPages ((8 : UInt64) <<< 10)
  Vmcb.msrpmBasePa.store vmcb msrpm

/-- What the first part of `vm_create` leaves in its variables. -/
structure VmVars where
  vmcb : UInt64
  vmPmemStart : UInt64
  hCr3 : UInt64
  deriving DecidableEq, Repr

/-- `vm_create` up to the call of `load_elf_image`. -/
def vmCreateMemory (vmPmemSize : UInt64) : M VmVars := do
  let vmcb ← allocVmcb allocPages
  setControlArea allocPages vmcb
  setStateSaveArea vmcb
  let vmPmemStart ← allocVmPmem allocPages vmPmemSize
  let hCr3 ← createVmPmemMappingTable allocPages vmPmemStart vmPmemSize
  Vmcb.hCr3.store vmcb hCr3
  return { vmcb := vmcb, vmPmemStart := vmPmemStart, hCr3 := hCr3 }

end Source

/-- The number of pages of the memory of a VM. -/
def nrVmFrames (vmPmemSize : UInt64) : UInt64 := vmPmemSize >>> PAGE_SHIFT

/-- The VM whose VMCB is frame `n`, whose memory starts at frame `r` and whose
nested tables are the frames `S` below `f`.  All of them, and the permission
maps, are in the ranges `own`, which were handed out between `s₀` and `s`. -/
structure VmMemory (E : Stop → Prop) (priv : Set Nat) (vmPmemSize : UInt64) (n : Nat)
    (r : UInt64) (f : Nat) (S : Set Nat) (own : List (UInt64 × UInt64)) (s₀ s : State) :
    Prop where
  vmcb : Addressable n
  vmcb_priv : Disjoint (frameBytes n) priv
  vmcb_own : (UInt64.ofNat n, 1) ∈ own
  pmem_own : (r, nrVmFrames vmPmemSize) ∈ own
  pmem_aligned : 512 ∣ r.toNat
  pmem_le : r.toNat + (nrVmFrames vmPmemSize).toNat ≤ 2 ^ 33
  pmem_priv : ∀ g ∈ rangeFrames (r, nrVmFrames vmPmemSize), Disjoint (frameBytes g) priv
  pmem_accessible : Accessible E (VIRT (r <<< PAGE_SHIFT))
    ((nrVmFrames vmPmemSize).toNat * 4096)
  vmcb_pmem : n ∉ rangeFrames (r, nrVmFrames vmPmemSize)
  tree : Tables s.mem 2 f S
  owned : OwnedTables priv s S
  table_own : ∀ g ∈ S, ∃ q ∈ own, g ∈ rangeFrames q
  table_pmem : ∀ g ∈ S, g ∉ rangeFrames (r, nrVmFrames vmPmemSize)
  vmcb_table : n ∉ S
  holds : Holds s.mem f (nestedMap (PFN_DOWN_2MB (r <<< PAGE_SHIFT)) (nrVmPages vmPmemSize))
  cr3 : Vmcb.cr3.value n s = GUEST_CR3.toNat
  hCr3 : Vmcb.hCr3.value n s = f * 4096
  evolves : Evolves priv own s₀ s

section Create

variable {alloc : UInt64 → UInt64 → M UInt64} {E : Stop → Prop} {priv : Set Nat}
  {Inv : Nat → State → Prop}

/-- `alloc_vmcb` is `pg_table_create`, as far as memory is concerned. -/
theorem allocVmcb_eq (alloc : UInt64 → UInt64 → M UInt64) :
    allocVmcb alloc = (do return VIRT (← pgTableCreate alloc)) := by
  simp only [allocVmcb, pgTableCreate, bind_assoc, pure_bind]

theorem wp_allocVmcb (hA : AllocContract alloc E priv Inv) {k : Nat} {s : State}
    (hinv : Inv (k + 2) s) {Q : UInt64 → State → Prop}
    (hQ : ∀ n s', NewTable priv n s s' → Inv k s' → Q (frameVaddr n) s') :
    wp (allocVmcb alloc) Q E s := by
  rw [allocVmcb_eq, wp_bind]
  refine wp_pgTableCreate hA hinv fun n s' hnew hinv' => ?_
  rw [wp_pure]
  exact hQ n s' hnew hinv'

/-- A permission map is handed out and filled. -/
theorem wp_createInterceptTable (hA : AllocContract alloc E priv Inv) {k : Nat} {s : State}
    {size : UInt64} (hsize : size.toNat % 4096 = 0)
    (hinv : Inv (k + (size >>> PAGE_SHIFT).toNat + 1) s) {Q : UInt64 → State → Prop}
    (hQ : ∀ r s', Filled priv (size >>> PAGE_SHIFT) 1 0xff r s s' → Inv k s' →
      Q (r <<< PAGE_SHIFT) s') :
    wp (createInterceptTable alloc size) Q E s := by
  have hnr := toNat_shiftRight_PAGE_SHIFT size
  have hlt := size.toNat_lt
  have h1 : (1 : UInt64).toNat = 1 := rfl
  rw [createInterceptTable]
  refine wp_alloc_memset hA ⟨by omega, by omega, by omega⟩ (by omega) hinv
    fun r s' hinv' hfill => ?_
  rw [wp_pure]
  exact hQ r s' hfill hinv'

/-- `set_control_area`, as far as its two allocations are concerned: `I₀` is turned
into `I₁` by the first and `I₁` into `I₂` by the second, and the stores to the VMCB
keep all three. -/
theorem wp_setControlArea_steps {n : Nat} (hn : Addressable n) {I₀ I₁ I₂ : State → Prop}
    (h₀ : ∀ s s', I₀ s → OnlyWrites (frameBytes n) s s' → I₀ s')
    (h₁ : ∀ s s', I₁ s → OnlyWrites (frameBytes n) s s' → I₁ s')
    (h₂ : ∀ s s', I₂ s → OnlyWrites (frameBytes n) s s' → I₂ s')
    (hiopm : ∀ s, I₀ s →
      wp (createInterceptTable alloc ((12 : UInt64) <<< 10)) (fun _ => I₁) E s)
    (hmsrpm : ∀ s, I₁ s →
      wp (createInterceptTable alloc ((8 : UInt64) <<< 10)) (fun _ => I₂) E s)
    {s : State} (hs : I₀ s) :
    wp (setControlArea alloc (frameVaddr n)) (fun _ => I₂) E s := by
  have hstore : ∀ (f : VmcbField) (x : UInt64),
      Within (frameBytes n) (f.store (frameVaddr n) x) :=
    fun f x => VmcbField.store_within hn (f.bytes_subset n) x
  have hstep : ∀ (f : VmcbField) (x : UInt64) {s : State}, I₀ s →
      wp (f.store (frameVaddr n) x) (fun _ => I₀) E s :=
    fun f x s hs => (hstore f x).wp fun _ s' hw => h₀ s s' hs hw
  rw [setControlArea, wp_bind]
  refine wp_imp (hstep _ _ hs) fun _ s₁ hs₁ => ?_
  rw [printf_bind, wp_bind]
  refine wp_imp (hstep _ _ hs₁) fun _ s₂ hs₂ => ?_
  rw [wp_bind]
  refine wp_imp (hstep _ _ hs₂) fun _ s₃ hs₃ => ?_
  rw [wp_bind]
  refine wp_imp (hstep _ _ hs₃) fun _ s₄ hs₄ => ?_
  rw [wp_bind]
  refine wp_imp (hstep _ _ hs₄) fun _ s₅ hs₅ => ?_
  rw [wp_bind]
  refine wp_imp (hiopm s₅ hs₅) fun _ s₆ hs₆ => ?_
  rw [wp_bind]
  refine (hstore _ _).wp fun _ s₇ hw₇ => ?_
  rw [wp_bind]
  refine wp_imp (hmsrpm s₇ (h₁ s₆ s₇ hs₆ hw₇)) fun _ s₈ hs₈ => ?_
  exact (hstore _ _).wp fun _ s₉ hw₉ => h₂ s₈ s₉ hs₈ hw₉

/-- `set_control_area` writes the VMCB and two new permission maps. -/
theorem wp_setControlArea (hA : AllocContract alloc E priv Inv) {k n : Nat} {s : State}
    (hn : Addressable n) (hpriv : Disjoint (frameBytes n) priv)
    (hinv : Inv (k + 7) s) {Q : Unit → State → Prop}
    (hQ : ∀ ext s', Evolves (priv ∪ frameBytes n) ext s s' → Inv k s' → Q () s') :
    wp (setControlArea alloc (frameVaddr n)) Q E s := by
  let I (j : Nat) (s' : State) : Prop :=
    (∃ ext, Evolves (priv ∪ frameBytes n) ext s s') ∧ Inv j s'
  -- A store keeps the invariant and adds nothing to what was handed out.
  have hstep : ∀ j s₁ s₂, I j s₁ → OnlyWrites (frameBytes n) s₁ s₂ → I j s₂ := by
    rintro j s₁ s₂ ⟨⟨ext, he⟩, hi⟩ hw
    refine ⟨⟨_, (he.trans (Evolves.of_onlyWrites hw)).mono ?_⟩, hA.of_onlyWrites hi hw hpriv⟩
    exact Set.union_subset Set.subset_union_left
      (Set.subset_union_right.trans Set.subset_union_left)
  have htable : ∀ (j : Nat) (size : UInt64), size.toNat % 4096 = 0 → ∀ s₁,
      I (j + (size >>> PAGE_SHIFT).toNat + 1) s₁ →
      wp (createInterceptTable alloc size) (fun _ => I j) E s₁ := by
    rintro j size hsize s₁ ⟨⟨ext, he⟩, hi⟩
    refine wp_createInterceptTable hA hsize hi fun r s₂ hfill hi₂ =>
      ⟨⟨[(r, size >>> PAGE_SHIFT)] ++ ext, ?_⟩, hi₂⟩
    refine (he.trans hfill.evolves).mono ?_
    exact Set.union_subset Set.subset_union_left
      (Set.subset_union_left.trans Set.subset_union_left)
  have hiopm : ∀ s₁, I (k + 7) s₁ →
      wp (createInterceptTable alloc ((12 : UInt64) <<< 10)) (fun _ => I (k + 3)) E s₁ :=
    htable (k + 3) ((12 : UInt64) <<< 10) (by decide)
  have hmsrpm : ∀ s₁, I (k + 3) s₁ →
      wp (createInterceptTable alloc ((8 : UInt64) <<< 10)) (fun _ => I k) E s₁ :=
    htable k ((8 : UInt64) <<< 10) (by decide)
  refine wp_imp (wp_setControlArea_steps hn (hstep _) (hstep _) (hstep _) hiopm hmsrpm
    ⟨⟨[], Evolves.refl _ _⟩, hinv⟩) ?_
  rintro _ s' ⟨⟨ext, he⟩, hi⟩
  exact hQ ext s' he hi

/-- The VMCB in frame `n`, which was allocated since `s₀`, when its two areas are
set. -/
structure VmcbReady (priv : Set Nat) (n : Nat) (own : List (UInt64 × UInt64))
    (s₀ s : State) : Prop where
  vmcb : Addressable n
  vmcb_priv : Disjoint (frameBytes n) priv
  vmcb_own : (UInt64.ofNat n, 1) ∈ own
  cr3 : Vmcb.cr3.value n s = GUEST_CR3.toNat
  evolves : Evolves priv own s₀ s

/-- The VMCB is allocated and its two areas are set. -/
theorem wp_setUpVmcb (hA : AllocContract alloc E priv Inv) {k : Nat} {s : State}
    (hinv : Inv (k + 9) s) {α : Type} {f : UInt64 → M α} {Q : α → State → Prop}
    (hQ : ∀ n own s', VmcbReady priv n own s s' → Inv k s' →
      wp (f (frameVaddr n)) Q E s') :
    wp (do
      let vmcb ← allocVmcb alloc
      setControlArea alloc vmcb
      setStateSaveArea vmcb
      f vmcb : M α) Q E s := by
  rw [wp_bind]
  refine wp_allocVmcb hA hinv fun n s₁ hvmcb inv₁ => ?_
  have hn := hvmcb.addressable
  have hroot : n ∈ rangeFrames (UInt64.ofNat n, 1) :=
    (rangeFrames_one (by have := hvmcb.lt; omega)).mpr rfl
  rw [wp_bind]
  refine wp_setControlArea hA hn hvmcb.disjoint inv₁ fun ext s₂ he₂ inv₂ => ?_
  rw [wp_bind]
  refine wp_setStateSaveArea hn fun s₃ hw₃ hcr3 => ?_
  refine hQ n (ext ++ [(UInt64.ofNat n, 1)]) s₃ ⟨hn, hvmcb.disjoint, by simp, hcr3, ?_⟩
    (hA.of_onlyWrites inv₂ hw₃ hvmcb.disjoint)
  -- The VMCB is in one of the ranges.
  have hframe : frameBytes n ⊆ rangeBytes (ext ++ [(UInt64.ofNat n, 1)]) := by
    intro a ha
    rw [mem_frameBytes] at ha
    exact ⟨(UInt64.ofNat n, 1), by simp, ha ▸ hroot⟩
  refine ((hvmcb.evolves.trans he₂).trans (Evolves.of_onlyWrites hw₃)).mono ?_
  refine Set.union_subset (Set.union_subset Set.subset_union_left
    (Set.union_subset Set.subset_union_left ?_)) ?_
  · exact hframe.trans Set.subset_union_right
  · exact hframe.trans Set.subset_union_right

namespace VmcbReady

variable {n : Nat} {own ext : List (UInt64 × UInt64)} {s₀ s₁ s₂ : State} {X : Set Nat}

theorem mem_range (h : VmcbReady priv n own s₀ s₁) :
    n ∈ rangeFrames (UInt64.ofNat n, 1) := by
  have hn := h.vmcb
  unfold Addressable at hn
  exact (rangeFrames_one (by omega)).mpr rfl

/-- What is handed out later is not the VMCB. -/
theorem notMem (h : VmcbReady priv n own s₀ s₁) (he : Evolves X ext s₁ s₂) :
    ∀ q ∈ ext, n ∉ rangeFrames q := by
  refine he.notMem ?_ h.mem_range
  rw [h.evolves.handedOut]
  exact List.mem_append_left _ h.vmcb_own

/-- The memory of the VM, when the memory itself was allocated, the nested table
was created and `h_cr3` was stored. -/
theorem vmMemory (h : VmcbReady priv n own s₀ s₁) {vmPmemSize r : UInt64} {f : Nat}
    {S : Set Nat} {s₃ s₄ : State}
    (hpmem : AllocResult E priv (nrVmFrames vmPmemSize) 512 r s₁ s₂)
    (htable : NestedTable priv (VIRT (r <<< PAGE_SHIFT)) vmPmemSize f S s₂ ext s₃)
    (hw : OnlyWrites (Vmcb.hCr3.bytes n) s₃ s₄)
    (hCr3 : Vmcb.hCr3.value n s₄ = (UInt64.ofNat (f * 4096)).toNat % 256 ^ Vmcb.hCr3.size) :
    VmMemory E priv vmPmemSize n r f S (ext ++ ([(r, nrVmFrames vmPmemSize)] ++ own))
      s₀ s₄ := by
  have hf := htable.owned.addressable f htable.tree.root_mem
  have hw' : OnlyWrites (frameBytes n) s₃ s₄ := hw.mono (Vmcb.hCr3.bytes_subset n)
  have hafter := hpmem.evolves.trans htable.evolves
  have hvmcb := h.notMem hafter
  have hvmcbTable : n ∉ S := by
    intro hnS
    obtain ⟨q, hq, hqn⟩ := htable.new n hnS
    exact hvmcb q (List.mem_append_left _ hq) hqn
  have htablePmem : ∀ g ∈ S, g ∉ rangeFrames (r, nrVmFrames vmPmemSize) := by
    intro g hg hgr
    obtain ⟨q, hq, hqg⟩ := htable.new g hg
    refine htable.evolves.notMem ?_ hgr q hq hqg
    rw [hpmem.evolves.handedOut]
    exact List.mem_cons_self
  -- The store to the VMCB does not change a table.
  have htables : ∀ g ∈ S, ∀ i, words s₄.mem g i = words s₃.mem g i := by
    intro g hg i
    refine words_congr (hw'.eqOn (Set.disjoint_left.mpr fun a ha hag => ?_)) i
    rw [mem_frameBytes] at ha hag
    exact hvmcbTable (by rw [← ha, hag]; exact hg)
  have hframe : frameBytes n ⊆
      rangeBytes (ext ++ ([(r, nrVmFrames vmPmemSize)] ++ own)) := by
    intro a ha
    rw [mem_frameBytes] at ha
    exact ⟨(UInt64.ofNat n, 1), by simp [h.vmcb_own], ha ▸ h.mem_range⟩
  refine ⟨h.vmcb, h.vmcb_priv, by simp [h.vmcb_own], by simp, hpmem.aligned, hpmem.le,
    hpmem.disjoint, hpmem.accessible, hvmcb _ (by simp), htable.tree.congr htables,
    htable.owned.evolves (Evolves.of_onlyWrites hw'), fun g hg => ?_, htablePmem, hvmcbTable,
    ?_, ?_, ?_, ?_⟩
  · obtain ⟨q, hq, hqg⟩ := htable.new g hg
    exact ⟨q, List.mem_append_left _ hq, hqg⟩
  · have hholds := htable.holds.congr htable.tree htables
    rwa [PHYS_VIRT] at hholds
  · have hkeep := hafter.frame_eqOn (Set.disjoint_union_left.mpr
      ⟨h.vmcb_priv.symm, h.vmcb_priv.symm⟩) hvmcb
    rw [VmcbField.value_congr (hw.eqOn (Set.disjoint_left.mpr fun a ha ha' => ?_)),
      VmcbField.value_congr (hkeep.mono (Vmcb.cr3.bytes_subset n)), h.cr3]
    rw [VmcbField.bytes, Set.mem_Ico] at ha ha'
    simp only [Vmcb.hCr3, Vmcb.cr3] at ha ha'
    omega
  · rw [hCr3, hf.toNat]
    unfold Addressable at hf
    exact Nat.mod_eq_of_lt (by simp only [Vmcb.hCr3]; omega)
  · have he := (h.evolves.trans hafter).trans (Evolves.of_onlyWrites hw')
    rw [List.nil_append, List.append_assoc] at he
    refine he.mono ?_
    refine Set.union_subset (Set.union_subset Set.subset_union_left
      (Set.union_subset Set.subset_union_left Set.subset_union_left)) ?_
    exact hframe.trans Set.subset_union_right

end VmcbReady

/-- What the first part of `vm_create` may take from the budget. -/
def vmCost (vmPmemSize : UInt64) : Nat :=
  (nrVmFrames vmPmemSize).toNat + 4 * nrVmPages vmPmemSize + 523

/-- The first part of `vm_create` sets up the memory of the VM. -/
theorem wp_vmCreateMemory (hA : AllocContract alloc E priv Inv) {k : Nat} {s : State}
    {vmPmemSize : UInt64} (hinv : Inv (k + vmCost vmPmemSize) s) {Q : VmVars → State → Prop}
    (hQ : ∀ n r f S own s', VmMemory E priv vmPmemSize n r f S own s s' → Inv k s' →
      Q ⟨frameVaddr n, VIRT (r <<< PAGE_SHIFT), UInt64.ofNat (f * 4096)⟩ s') :
    wp (vmCreateMemory alloc vmPmemSize) Q E s := by
  rw [vmCost] at hinv
  rw [vmCreateMemory]
  refine wp_setUpVmcb hA (k := k + 4 * nrVmPages vmPmemSize + 2 +
    (nrVmFrames vmPmemSize).toNat + 512) (hA.mono (by omega) hinv)
    fun n own s₁ hvmcb inv₁ => ?_
  rw [wp_bind]
  refine wp_allocVmPmem hA (k := k + 4 * nrVmPages vmPmemSize + 2)
    inv₁ fun r s₂ hpmem inv₂ => ?_
  have hnr := toNat_shiftRight_PAGE_SHIFT vmPmemSize
  have hle := hpmem.le
  rw [wp_bind]
  refine wp_createVmPmemMappingTable hA (by omega) inv₂ fun f S ext s₃ htable inv₃ => ?_
  rw [wp_bind]
  refine Vmcb.hCr3.wp_store hvmcb.vmcb fun s₄ hw hCr3 => ?_
  rw [wp_pure]
  exact hQ n r f S _ s₄ (hvmcb.vmMemory hpmem htable hw hCr3)
    (hA.of_onlyWrites inv₃ (hw.mono (Vmcb.hCr3.bytes_subset n)) hvmcb.vmcb_priv)

/-- What every run of the first part of `vm_create` that returns has set up. -/
theorem vmMemory_of_run {I : State → Prop}
    (hA : AllocContract alloc (fun _ => True) priv fun _ => I) {vmPmemSize : UInt64}
    {v : VmVars} {s s₁ : State} (hs : I s)
    (hrun : vmCreateMemory alloc vmPmemSize s = .ok (v, s₁)) :
    ∃ n r f S own, v = ⟨frameVaddr n, VIRT (r <<< PAGE_SHIFT), UInt64.ofNat (f * 4096)⟩ ∧
      VmMemory (fun _ => True) priv vmPmemSize n r f S own s s₁ ∧ I s₁ :=
  wp_ok (wp_vmCreateMemory hA (k := 0) hs (Q := fun v s₁ => ∃ n r f S own,
      v = ⟨frameVaddr n, VIRT (r <<< PAGE_SHIFT), UInt64.ofNat (f * 4096)⟩ ∧
      VmMemory (fun _ => True) priv vmPmemSize n r f S own s s₁ ∧ I s₁)
    fun n r f S own _ hm hinv => ⟨n, r, f, S, own, rfl, hm, hinv⟩) hrun

/-- With the budget for it, the first part of `vm_create` returns. -/
theorem exists_vmCreateMemory (hA : AllocContract alloc (fun _ => False) priv Inv)
    (vmPmemSize : UInt64) {s : State} (hs : Inv (vmCost vmPmemSize) s) :
    ∃ n r f S own s₁, vmCreateMemory alloc vmPmemSize s =
        .ok (⟨frameVaddr n, VIRT (r <<< PAGE_SHIFT), UInt64.ofNat (f * 4096)⟩, s₁) ∧
      VmMemory (fun _ => False) priv vmPmemSize n r f S own s s₁ ∧ Inv 0 s₁ := by
  obtain ⟨_, s₁, hrun, n, r, f, S, own, rfl, hm, hinv⟩ := exists_ok_of_wp
    (wp_vmCreateMemory hA (k := 0) (by rwa [Nat.zero_add]) (Q := fun v s₁ =>
      ∃ n r f S own, v = ⟨frameVaddr n, VIRT (r <<< PAGE_SHIFT), UInt64.ofNat (f * 4096)⟩ ∧
        VmMemory (fun _ => False) priv vmPmemSize n r f S own s s₁ ∧ Inv 0 s₁)
      fun n r f S own _ hm hinv => ⟨n, r, f, S, own, rfl, hm, hinv⟩)
  exact ⟨n, r, f, S, own, s₁, hrun, hm, hinv⟩

end Create

end Tvmm
