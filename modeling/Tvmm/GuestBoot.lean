import Tvmm.AllocPacked
import Tvmm.GuestView
import Tvmm.Lib.NestedPaging

/-!
# The guest boots on both tables

The guest starts on the temporary page table at `cr3`, and each of its accesses,
those of the page walk included, goes through the nested table at `hCr3`.  The
three pages of the temporary page table are written by the host through its own
mapping and filled by hand; the nested table is built by `mmap`.

* `TempTable.guestWalk` is the walk over the temporary page table, for any nested
  table that sends the first 4 MB where they belong;
* `NestedTable.guestAccess` says that the one of `vm_create` does;
* `vmCreate_bootTranslates` puts the two together.
-/

namespace Tvmm

open Exec LongMode

/-- Where the guest-virtual address `v` goes when the memory of the VM starts at
the physical address `start`. -/
def bootTarget (start v : Nat) : Option Nat :=
  if v < 2 ^ 22 then some (if v < 2 ^ 21 then v else start + v) else none

/-! ## The walk over the temporary page table -/

theorem toNat_guestTableEntry {g : Nat} (h : g < 2 ^ 40) :
    (guestTableEntry g).toNat = g * 4096 + 3 := by
  rw [guestTableEntry, UInt64.toNat_ofNat']
  omega

/-- What the flags of an entry for a table of the guest are, and where it points. -/
theorem flags_guestTableEntry {g : Nat} (h : g < 2 ^ 40) :
    flag (guestTableEntry g) 0 = true ∧ flag (guestTableEntry g) 7 = false ∧
      bits (guestTableEntry g) 7 2 = 0 ∧ frame (guestTableEntry g) = g := by
  refine ⟨?_, ?_, ?_, ?_⟩
  · rw [flag_eq, toNat_guestTableEntry h, decide_eq_true_eq]
    omega
  · rw [flag_eq, toNat_guestTableEntry h, decide_eq_false_iff_not]
    omega
  · rw [bits, toNat_guestTableEntry h]
    omega
  · rw [frame, bits, toNat_guestTableEntry h]
    omega

section Walk

variable {n start nCr3 : Nat} {s s' : State}

/-- An entry of the temporary page table, as the processor fetches it. -/
theorem guestRead_temp (hn : n * 4096 = start + 0x203000)
    (haccess : ∀ g, g < 2 ^ 22 →
      guestAccess s'.mem nCr3 g = some (if g < 2 ^ 21 then g else start + g))
    {g k : Nat} (hg : g = 0x203 + k) (hk : k < 3) (i : Fin 512) :
    guestRead s'.mem nCr3 (g * 4096 + 8 * i) = some (words s'.mem (n + k) i) := by
  have hi := i.isLt
  have haddr : start + (g * 4096 + 8 * i) = (n + k) * 4096 + 8 * i := by omega
  rw [guestRead, haccess _ (by omega), if_neg (by omega), haddr]
  rfl

/-- The page of the guest with number 0 or 1 maps its addresses to themselves. -/
theorem paddr_guestPage {k v : Nat} (hk : k < 2 ^ 31) (tables : List UInt64)
    (hv : v / 2 ^ 21 = k) : (translation tables (pageEntry k false) 21 v).paddr = v := by
  obtain ⟨-, -, -, -, -, -, hbase, -⟩ := flags_pageEntry hk false
  show bits (pageEntry k false) 21 31 * 2 ^ 21 + v % 2 ^ 21 = v
  rw [hbase]
  omega

/-- The entries of the page directory of the guest. -/
def tempPd (i : Fin 512) : UInt64 :=
  if i = 0 then pageEntry 0 false else if i = 1 then pageEntry 1 false else 0

theorem tempPd_slot {v : Nat} (hv : v < 2 ^ 30) :
    tempPd (slot v 1) = if v < 2 ^ 22 then pageEntry (v / 2 ^ 21) false else 0 := by
  have hslot : ∀ i : Fin 512, slot v 1 = i ↔ v / 2 ^ 21 = i := by
    intro i
    rw [Fin.ext_iff, show (slot v 1).val = v / 2 ^ 21 % 512 from rfl,
      Nat.mod_eq_of_lt (by omega)]
  rw [tempPd, if_congr (hslot 0) rfl rfl, if_congr (hslot 1) rfl rfl,
    show (0 : Fin 512).val = 0 from rfl, show (1 : Fin 512).val = 1 from rfl]
  split_ifs with h0 h1 h1 h2 h2
  · rw [h0]
  · omega
  · rw [h1]
  · omega
  · omega
  · rfl

/-- A present entry of it is one for a page. -/
theorem flags_tempPd (i : Fin 512) (hi : flag (tempPd i) 0 = true) :
    flag (tempPd i) 7 = true ∧ bits (tempPd i) 13 8 = 0 := by
  have hpage : ∀ k : Nat, k < 2 ^ 31 → flag (pageEntry k false) 7 = true ∧
      bits (pageEntry k false) 13 8 = 0 := by
    intro k hk
    obtain ⟨-, -, -, h7, -, h13, -⟩ := flags_pageEntry hk false
    exact ⟨h7, h13⟩
  rw [tempPd] at hi ⊢
  split_ifs at hi ⊢
  · exact hpage 0 (by decide)
  · exact hpage 1 (by decide)
  · exact absurd hi (by decide)

/-- The walk over both tables, when the nested one sends the first 4 MB where they
belong. -/
theorem TempTable.guestWalk (h : TempTable n s s') (hn : n * 4096 = start + 0x203000)
    (haccess : ∀ g, g < 2 ^ 22 →
      guestAccess s'.mem nCr3 g = some (if g < 2 ^ 21 then g else start + g))
    {v : Nat} (hv : v < 2 ^ 48) :
    LongMode.guestWalk s'.mem nCr3 0x203000 v = bootTarget start v := by
  obtain ⟨h4p, -, h4r, h4f⟩ := flags_guestTableEntry (g := 0x204) (by decide)
  obtain ⟨h3p, h3s, -, h3f⟩ := flags_guestTableEntry (g := 0x205) (by decide)
  have h4 : ∀ i : Fin 512, guestRead s'.mem nCr3 (0x203000 / 4096 % 2 ^ 40 * 4096 + 8 * i) =
      some (if i = 0 then guestTableEntry 0x204 else 0) := by
    intro i
    rw [show 0x203000 / 4096 % 2 ^ 40 * 4096 = 0x203 * 4096 by norm_num, ← h.pml4]
    exact guestRead_temp hn haccess (k := 0) rfl (by decide) i
  have h3 : ∀ i : Fin 512, guestRead s'.mem nCr3 (frame (guestTableEntry 0x204) * 4096 + 8 * i) =
      some (if i = 0 then guestTableEntry 0x205 else 0) := by
    intro i
    rw [h4f, ← h.pdp]
    exact guestRead_temp hn haccess (k := 1) rfl (by decide) i
  have h2 : ∀ i : Fin 512, guestRead s'.mem nCr3 (frame (guestTableEntry 0x205) * 4096 + 8 * i) =
      some (tempPd i) := by
    intro i
    rw [h3f, tempPd, ← h.pd]
    exact guestRead_temp hn haccess (k := 2) rfl (by decide) i
  have hwalk := walkVia_single h4 h4p h4r h3 h3p h3s h2 flags_tempPd hv
  rw [LongMode.guestWalk, hwalk, bootTarget]
  by_cases hlow : v < 2 ^ 22
  · obtain ⟨hp, -⟩ := flags_pageEntry (n := v / 2 ^ 21) (by omega) false
    rw [tempPd_slot (by omega), if_pos hlow, if_pos ⟨by omega, hp⟩, if_pos hlow,
      Option.bind_some, paddr_guestPage (by omega) _ rfl, haccess v hlow]
  · rw [if_neg, if_neg hlow]
    · rfl
    · rintro ⟨h1gb, hp⟩
      rw [tempPd_slot h1gb, if_neg hlow] at hp
      exact absurd hp (by decide)

end Walk

/-! ## The two tables of a new VM -/

/-- Where the nested table sends an access of the guest to its memory. -/
theorem NestedTable.guestAccess {priv : Set Nat} {vmPmemSize r : UInt64} {f : Nat}
    {S : Set Nat} {own : List (UInt64 × UInt64)} {s₀ s' : State}
    (h : NestedTable priv (VIRT (r <<< PAGE_SHIFT)) vmPmemSize f S s₀ own s')
    (hr : (r <<< PAGE_SHIFT).toNat = r.toNat * 4096) (hal : 512 ∣ r.toNat)
    (hle : r.toNat ≤ 2 ^ 33) (hsize : vmPmemSize.toNat ≤ 2 ^ 31) {g : Nat}
    (hg : g < vmPmemSize.toNat) :
    LongMode.guestAccess s'.mem (f * 4096) g =
      some (if g < 2 ^ 21 then g else r.toNat * 4096 + g) := by
  obtain ⟨t, hwalk, hpaddr⟩ := h.walk_pmem hr hal hle hsize hg
  obtain ⟨hu, hw⟩ := h.rights hwalk
  rw [guestAccess_of_walk (by omega) hwalk hu hw, hpaddr]

/-- With the two page tables of `vm`, whose memory starts at `vmPmemStart`, the
guest reaches its first 4 MB and nothing else.  The pages that the processor
fetches from `cr3` on are those at `vmPmemStart + cr3`. -/
def BootTranslates (vmPmemStart : UInt64) (vm : Vm) (s : State) : Prop :=
  ∃ hCr3 cr3, Vmcb.hCr3.load vm.vmcb s = .ok (hCr3, s) ∧
    Vmcb.cr3.load vm.vmcb s = .ok (cr3, s) ∧
    (∀ v, v < 2 ^ 48 → guestWalk s.mem hCr3.toNat cr3.toNat v =
      bootTarget (PHYS vmPmemStart).toNat v) ∧
    ∀ o, o < 3 * 4096 → guestAccess s.mem hCr3.toNat (cr3.toNat + o) =
      some ((PHYS (vmPmemStart + cr3)).toNat + o)

/-- When `vm_create` returns, for an image whose segments fit in the pages of the
VM, the guest boots on its two page tables. -/
theorem vmCreate_bootTranslates {alloc : UInt64 → UInt64 → M UInt64} {priv : Set Nat}
    {Inv : State → Prop} (hA : AllocContract alloc (fun _ => True) priv fun _ => Inv)
    {s s₁ s' : State} (hs : Inv s) {img imgSize vmPmemSize : UInt64}
    (hlow : 0x400000 ≤ vmPmemSize.toNat) (hhigh : vmPmemSize.toNat ≤ 2 ^ 31)
    (hfits : ImageFits alloc img vmPmemSize s) {v : VmVars} {vm : Vm}
    (hmem : vmCreateMemory alloc vmPmemSize s = .ok (v, s₁))
    (hrun : vmCreate alloc img imgSize vmPmemSize s = .ok (vm, s')) :
    BootTranslates v.vmPmemStart vm s' := by
  obtain ⟨n, r, f, S, own, rfl, hm, -⟩ := vmMemory_of_run hA hs hmem
  have hfits' := hfits _ _ hmem
  dsimp only at hfits' ⊢
  rw [vmCreate, bind_of_ok hmem] at hrun
  refine wp_ok (hm.wp_vmCreateGuest_fits hfits' (Q := fun vm s' =>
    BootTranslates (VIRT (r <<< PAGE_SHIFT)) vm s') fun s₂ s₃ s' hg => ?_) hrun
  have hsize : 0x206000 ≤ vmPmemSize.toNat := by omega
  have hle := hm.pmem_le
  obtain ⟨hcr3, hhCr3⟩ := hg.cr3 hm hsize
  obtain ⟨hstart, hfirst⟩ := hm.temp_start
  have hf := (hm.owned.addressable f hm.tree.root_mem).toNat
  have hnested := hg.nestedTable hm hsize
  have haccess : ∀ g, g < 2 ^ 22 → guestAccess s'.mem (f * 4096) g =
      some (if g < 2 ^ 21 then g else r.toNat * 4096 + g) := fun g hg =>
    hnested.guestAccess hm.toNat_start hm.pmem_aligned (by omega) hhigh (by omega)
  have hGuest : GUEST_CR3.toNat = 0x203000 := by decide
  rw [tempFrame] at hfirst
  refine ⟨UInt64.ofNat (f * 4096), GUEST_CR3, ?_, ?_, fun v hv => ?_, fun o ho => ?_⟩
  · rw [Vmcb.hCr3.load_of_addressable hm.vmcb, hhCr3]
  · rw [Vmcb.cr3.load_of_addressable hm.vmcb, hcr3, UInt64.ofNat_toNat]
  · rw [hf, hGuest, PHYS_VIRT, hm.toNat_start]
    exact hg.temp.guestWalk (by rw [tempFrame]; omega) haccess hv
  · rw [hf, hGuest, haccess _ (by omega), if_neg (by omega), hstart, PHYS_VIRT, hfirst]
    exact congrArg some (by omega)

/-- A VM of 4 MB on the sample machine. -/
theorem sample_vmCreate_bootTranslates : ∃ s₁ v s₂ vm s₃,
    naiveAllocatorInit sampleEnd sampleMap sampleLayout (sampleLoad samplePhdr) =
      .ok (initLayout sampleEnd sampleLayout, s₁) ∧
    vmCreateMemory allocPages 0x400000 s₁ = .ok (v, s₂) ∧
    vmCreate allocPages (VIRT 0x800000) 0x100000 0x400000 s₁ = .ok (vm, s₃) ∧
    BootTranslates v.vmPmemStart vm s₃ := by
  obtain ⟨L, s₁, _, s₂, _, s₃, hinit, hready, himage, hmem, hvm⟩ := sample_vmCreate_fits
  have hfits := imageFits_of_wellFormed 0x400000 hready hready.inv
    sample_image.1 sample_image.2
    (himage.wellFormed (by decide) (by decide) (by decide) (by decide))
  have hboot := vmCreate_bootTranslates
    (allocPages_contract_returns L)
    hready.inv (show 0x400000 ≤ (0x400000 : UInt64).toNat by decide) (by decide) hfits hmem hvm
  exact ⟨s₁, _, s₂, _, s₃, hinit, hmem, hvm, hboot⟩

/-! ## An image that is larger than the VM -/

namespace Packed

variable {L : AllocLayout} {j K : Nat} {s : State}

/-- A permission map takes the frames from `j` on. -/
theorem wp_createInterceptTable (h : Packed L j K s) {size : UInt64}
    (hpage : size.toNat % 4096 = 0) (hpos : size.toNat ≠ 0)
    (hle : j + (size >>> PAGE_SHIFT).toNat ≤ K) :
    wp (createInterceptTable allocPages size)
      (fun _ => Packed L (j + (size >>> PAGE_SHIFT).toNat) K) (fun _ => True) s := by
  have hsize := toNat_shiftRight_PAGE_SHIFT size
  have hlt := size.toNat_lt
  rw [createInterceptTable]
  refine h.wp_alloc_memset ⟨by omega, by decide, by decide⟩ (by omega)
    (show (1 : UInt64).toNat ∣ j from one_dvd j) hle (by omega) fun r s' _ h' _ => ?_
  rw [wp_pure]
  exact h'

/-- The VMCB is frame `j`, and the two permission maps are the five frames behind
it. -/
theorem wp_setUpVmcb (h : Packed L j K s) (hj : Addressable j) (hle : j + 6 ≤ K) {α : Type}
    {f : UInt64 → M α} {Q : α → State → Prop}
    (hQ : ∀ s', Packed L (j + 6) K s' → wp (f (frameVaddr j)) Q (fun _ => True) s') :
    wp (do
      let vmcb ← allocVmcb allocPages
      setControlArea allocPages vmcb
      setStateSaveArea vmcb
      f vmcb : M α) Q (fun _ => True) s := by
  have hmax := h.inv.maxPage_le
  have hlt := h.lt_maxPage
  rw [wp_bind, allocVmcb]
  have h1 : (1 : UInt64).toNat = 1 := rfl
  refine h.wp_alloc_memset (by decide) (by decide)
    (show (1 : UInt64).toNat ∣ j from one_dvd j) (by omega) (by decide)
    fun r s₁ hr h₁ hd => ?_
  have hframe : Disjoint (frameBytes j) L.bytes :=
    hd j (mem_rangeFrames.mpr ⟨by omega, by omega⟩)
  have hvmcb : r <<< PAGE_SHIFT = UInt64.ofNat (j * 4096) := UInt64.toNat_inj.mp
    (by rw [toNat_shiftLeft_PAGE_SHIFT (by omega), hj.toNat, hr])
  rw [wp_pure, hvmcb, ← frameVaddr.eq_def, wp_bind]
  have hkeep : ∀ i s s', Packed L i K s → OnlyWrites (frameBytes j) s s' → Packed L i K s' :=
    fun i s s' h hw => h.of_onlyWrites hw hframe
  have hiopm : ∀ s, Packed L (j + 1) K s →
      wp (createInterceptTable allocPages ((12 : UInt64) <<< 10))
        (fun _ => Packed L (j + 4) K) (fun _ => True) s := fun s h =>
    h.wp_createInterceptTable (by decide) (by decide)
      (show j + 1 + 3 ≤ K by omega)
  have hmsrpm : ∀ s, Packed L (j + 4) K s →
      wp (createInterceptTable allocPages ((8 : UInt64) <<< 10))
        (fun _ => Packed L (j + 6) K) (fun _ => True) s := fun s h =>
    h.wp_createInterceptTable (by decide) (by decide)
      (show j + 4 + 2 ≤ K by omega)
  refine wp_imp (wp_setControlArea_steps hj (hkeep _) (hkeep _) (hkeep _) hiopm hmsrpm h₁)
    fun _ s₂ h₂ => ?_
  rw [wp_bind]
  exact wp_setStateSaveArea hj fun s₃ hw₃ _ => hQ s₃ (hkeep _ s₂ s₃ h₂ hw₃)

/-- When the VMCB and the permission maps end at a 2 MB boundary, the memory of the VM
is behind them, and the nested table is behind the memory of the VM. -/
theorem wp_vmCreateMemory (h : Packed L j K s) {vmPmemSize : UInt64} (hj : Addressable j)
    (hal : 512 ∣ j + 6) (hnr : (nrVmFrames vmPmemSize).toNat ≠ 0)
    (hle : j + 6 + (nrVmFrames vmPmemSize).toNat ≤ K) :
    wp (vmCreateMemory allocPages vmPmemSize) (fun v _ => v.vmcb = frameVaddr j ∧
      v.vmPmemStart = VIRT (UInt64.ofNat (j + 6) <<< PAGE_SHIFT) ∧
      (j + 6 + (nrVmFrames vmPmemSize).toNat) * 4096 ≤ v.hCr3.toNat) (fun _ => True) s := by
  have hmax := h.inv.maxPage_le
  have hlt := h.lt_maxPage
  have hsize := toNat_shiftRight_PAGE_SHIFT vmPmemSize
  rw [← nrVmFrames] at hsize
  rw [vmCreateMemory]
  refine h.wp_setUpVmcb hj (by omega) fun s₁ h₁ => ?_
  rw [wp_bind, allocVmPmem, wp_bind]
  refine h₁.wp_allocPages ⟨by omega, by decide, by decide⟩ hnr
    (show (512 : UInt64).toNat ∣ j + 6 from hal) hle fun r s₂ hr _ h₂ => ?_
  rw [wp_pure, wp_bind]
  refine wp_createVmPmemMappingTable (allocPages_contract_above L _) (k := 0) (by omega)
    ⟨h₂.inv, h₂.le.trans h₂.lt_maxPage.le, h₂.busy⟩ fun f S ext s₃ htable _ => ?_
  have hroot := htable.tree.root_mem
  have hf := (htable.owned.addressable f hroot).toNat
  have hlow : ¬f < j + 6 + (nrVmFrames vmPmemSize).toNat := fun hlow =>
    Set.disjoint_left.mp (htable.owned.disjoint f hroot)
      (mem_frameBytes.mpr (show f * 4096 / 4096 = f by omega))
      (Or.inr (show f * 4096 / 4096 < _ by omega))
  rw [wp_bind]
  refine Vmcb.hCr3.wp_store hj fun s₄ _ _ => ?_
  rw [wp_pure]
  refine ⟨rfl, by rw [← hr, UInt64.ofNat_toNat], ?_⟩
  dsimp only
  rw [hf]
  omega

end Packed

/-- The sample machine with a heap that ends at frame 4601. -/
def tightLayout : PmemLayout := { sampleLayout with vmmHeapEnd := 0x11F9000 }

theorem tight_bootLayout : BootLayout sampleMap tightLayout where
  noWrap := sample_bootLayout.noWrap
  maxPage := by decide
  heapEnd := by decide
  image := by decide

theorem tight_init (s : State) : ∃ L s₁,
    naiveAllocatorInit sampleEnd sampleMap tightLayout s =
      .ok (initLayout sampleEnd tightLayout, s₁) ∧
    AllocatorReady sampleEnd sampleMap tightLayout L s s₁ ∧ Packed L 4601 131072 s₁ := by
  obtain ⟨_, s₁, hinit, rfl, L, hready⟩ := exists_ok_of_wp
    (wp_naiveAllocatorInit (s := s) (E := fun _ => False) tight_bootLayout
      (Or.inl (show bitmapStart sampleEnd + bitmapSize tightLayout.maxPage <
        tightLayout.vmmHeapEnd by decide)) (Or.inl ⟨0x200000, fun _ => by decide⟩)
      (Q := fun pml s₁ => pml = initLayout sampleEnd tightLayout ∧
        ∃ L, AllocatorReady sampleEnd sampleMap tightLayout L s s₁)
      fun L s₁ h => ⟨rfl, L, h⟩)
  have hmax : s₁.nalloc.maxPage.toNat = 2097152 := by
    rw [hready.maxPage]
    rfl
  refine ⟨L, s₁, hinit, hready, hready.inv, by decide, by omega, fun f hf => ?_,
    fun f hf hf' => ?_⟩
  · by_contra hb
    have hsafe := hready.inv.free_safe f (by omega) hb
    rw [hready.safe] at hsafe
    have hheap := hsafe.heap
    rw [show tightLayout.vmmHeapEnd.toNat = 0x11F9000 from rfl] at hheap
    omega
  · refine (hready.free_iff f (show f < 2097152 by omega)).mpr
      ⟨⟨0, 0x20000000, E820_RAM⟩, List.mem_cons_self, rfl, ?_, ?_⟩
    · rw [show entryStart tightLayout ⟨0, 0x20000000, E820_RAM⟩ = 0x11F9000 by decide]
      omega
    · show f * 4096 + 4096 ≤ 0x20000000
      omega

/-- A segment without file bytes, behind the memory of a VM of 4 MB.  At 18 MB it
takes all the memory up to 512 MB. -/
def largePhdr : ElfPhdr := ⟨PT_LOAD, 0, 0x400000, 0, 0x1EA00000, PF_X⟩

/-- The memory from 18 MB to 512 MB. -/
abbrev largeBytes : Set Nat := Set.Ico 0x1200000 0x20000000

/-- On that machine, with one page handed out before, the memory of the VM starts at
18 MB and the nested table is behind it. -/
theorem tight_vmCreateMemory : ∃ (L : AllocLayout) (s₁ : State) (out : _) (s₂ : State)
    (n : Nat) (r : UInt64) (f : Nat) (S : Set Nat) (own : _) (s₃ : State),
    naiveAllocatorInit sampleEnd sampleMap tightLayout (sampleLoad largePhdr) =
      .ok (initLayout sampleEnd tightLayout, s₁) ∧
    allocPagesRun [(1, 1)] s₁ = .ok (out, s₂) ∧
    vmCreateMemory allocPages 0x400000 s₂ =
      .ok (⟨frameVaddr n, VIRT (r <<< PAGE_SHIFT), UInt64.ofNat (f * 4096)⟩, s₃) ∧
    VmMemory (fun _ => False) L.bytes 0x400000 n r f S own s₂ s₃ ∧
    HasSampleElf largePhdr s₃.mem ∧ n < 4608 ∧ r.toNat = 4608 ∧ 5632 ≤ f ∧ f < 131072 := by
  obtain ⟨L, s₁, hinit, hready, h₁⟩ := tight_init (sampleLoad largePhdr)
  obtain ⟨out, s₂, hcall, h₂, hmem₂⟩ := exists_ok_of_wp (c := allocPagesRun [(1, 1)]) (s := s₁)
    (Q := fun _ s₂ => Packed L 4602 131072 s₂ ∧ Set.EqOn s₂.mem s₁.mem L.bytesᶜ) (by
      rw [allocPagesRun_cons, wp_bind]
      refine h₁.wp_allocPages (show AllocArgs 1 1 by decide) (by decide) (by decide) (by decide)
        fun r s₂ _ hr h₂ => ?_
      rw [allocPagesRun_nil, wp_bind, wp_pure, wp_pure]
      exact ⟨h₂, hr.mem⟩)
  obtain ⟨n, r, f, S, own, s₃, hrun, hm, hinv, -⟩ := exists_vmCreateMemory
    (allocPages_contract (fun _ => False) L) 0x400000
    ⟨h₂.inv, Or.inl ⟨4602, 131072, Or.inl ⟨h₂.lt_maxPage, h₂.free⟩, by decide, by decide⟩⟩
  have hvmcbFrame : Addressable 4602 := by
    unfold Addressable
    omega
  obtain ⟨hvmcb, hstart, hroot⟩ := wp_ok (h₂.wp_vmCreateMemory hvmcbFrame
    (by decide) (by decide) (by decide)) hrun
  dsimp only at hvmcb hstart hroot
  have hf := hm.owned.addressable f hm.tree.root_mem
  have hn : n = 4602 := frameVaddr_inj hm.vmcb hvmcbFrame hvmcb
  have hr : r.toNat = 4608 := by
    have hp := congrArg (fun x => (PHYS x).toNat) hstart
    simp only [PHYS_VIRT, hm.toNat_start] at hp
    rw [show (UInt64.ofNat (4602 + 6) <<< PAGE_SHIFT).toNat = 0x1200000 by decide] at hp
    omega
  rw [hf.toNat, show (nrVmFrames 0x400000).toNat = 1024 by decide] at hroot
  have hsafe : f ∈ L.safe := by
    obtain ⟨q, hq, hfq⟩ := hm.owned.handedOut f hm.tree.root_mem
    exact hinv.handedOut_safe q hq hfq
  rw [hready.safe] at hsafe
  have hram := sample_ram hsafe
  -- The image is still there.
  obtain ⟨hbitmap, himage⟩ := hready.image_disjoint sample_image.1 (by decide)
  have hown := hinv.rangeBytes_disjoint hm.evolves.handedOut himage
  have hsub : imageBytes tightLayout ⊆ L.bytesᶜ := Set.subset_compl_iff_disjoint_left.mpr hbitmap
  have heq : Set.EqOn s₃.mem (sampleLoad largePhdr).mem (imageBytes tightLayout) :=
    (hm.evolves.eqOn hbitmap hown).trans ((hmem₂.trans hready.mem).mono hsub)
  have himage₃ : HasSampleElf largePhdr s₃.mem :=
    heq.mono (Set.Ico_subset_Ico (by decide) (by decide))
  unfold Addressable at hf
  exact ⟨L, s₁, out, s₂, n, r, f, S, own, s₃, hinit, hcall, hrun, hm, himage₃, by omega, hr,
    by omega, by omega⟩

/-- The loader clears the memory behind a VM of 4 MB at 18 MB. -/
theorem HasSampleElf.wp_loadElfImage_large {s : State} (h : HasSampleElf largePhdr s.mem)
    {start : UInt64} (hstart : start.toNat = 0x1200000) :
    wp (Tvmm.loadElfImage (VIRT 0x800000) 0x100000 (VIRT start)) (fun _ s' =>
      OnlyWrites largeBytes s s' ∧ ∀ a, 0x1600000 ≤ a → a < 0x20000000 → s'.mem a = 0)
      (fun _ => False) s := by
  obtain ⟨hnum, -, hseg⟩ := h.header
  have hseg' : segment s.mem (0x800000 : UInt64).toNat 0 = largePhdr := hseg
  have hlayout : ImageLayout 0x800000 0x100000 start 0x1EE00000 s := by
    refine ⟨h.wellFormed (by decide) (by decide) (by decide) (by decide), by decide,
      by rw [hstart]; decide, ?_⟩
    rw [hstart, Set.Ico_disjoint_Ico]
    decide
  have hE : Accessible (fun _ => False) (VIRT start) 0x1EE00000 :=
    Or.inl ⟨_, fun _ => bootTranslate_VIRT (by rw [hstart]; decide)⟩
  refine wp_imp (wp_loadElfImage_image hlayout hE) ?_
  rintro _ s' ⟨-, hw, hplace⟩
  rw [vmBytes, hstart] at hw
  have hin := hplace 0 (hnum ▸ Nat.one_pos) (hseg'.symm ▸ (by decide))
  rw [InPlace, hseg', hstart] at hin
  refine ⟨hw, fun a ha ha' => ?_⟩
  obtain ⟨k, rfl⟩ : ∃ k, a = 0x1600000 + k := ⟨a - 0x1600000, by omega⟩
  exact (hin k (show k < 0x1EA00000 by omega)).trans (if_neg (Nat.not_lt_zero k))

/-- With an empty nested table the guest does not boot. -/
theorem not_bootTranslates {n f : Nat} {r : UInt64} {vm : Vm} {s : State}
    (hn : Addressable n) (hvm : vm.vmcb = frameVaddr n)
    (hCr3 : Vmcb.hCr3.value n s = f * 4096) (hf : Addressable f)
    (hempty : ∀ i, words s.mem f i = 0) : ¬BootTranslates r vm s := by
  rintro ⟨hCr3', cr3, hload, -, hwalk, -⟩
  rw [hvm, Vmcb.hCr3.load_of_addressable hn, hCr3] at hload
  cases hload
  have hnone := hwalk 0 (by decide)
  rw [hf.toNat] at hnone
  unfold Addressable at hf
  rw [guestWalk_eq_none (walk_eq_none_of_empty (by omega) hempty)] at hnone
  cases hnone

/-- An image whose segment fills the memory behind a VM of 4 MB with zeros:
`vm_create` returns, and the nested table is empty. -/
theorem vmCreate_not_bootTranslates : ∃ s₁ out s₂ v s₃ vm s₄,
    naiveAllocatorInit sampleEnd sampleMap tightLayout (sampleLoad largePhdr) =
      .ok (initLayout sampleEnd tightLayout, s₁) ∧
    allocPagesRun [(1, 1)] s₁ = .ok (out, s₂) ∧
    vmCreateMemory allocPages 0x400000 s₂ = .ok (v, s₃) ∧
    2 ^ 21 ∣ v.vmPmemStart.toNat ∧
    vmCreate allocPages (VIRT 0x800000) 0x100000 0x400000 s₂ = .ok (vm, s₄) ∧
    ¬BootTranslates v.vmPmemStart vm s₄ := by
  obtain ⟨L, s₁, out, s₂, n, r, f, S, own, s₃, hinit, hcall, hmem, hm, himage, hn, hr, hlow,
    hhigh⟩ := tight_vmCreateMemory
  have hstart : (r <<< PAGE_SHIFT).toNat = 0x1200000 := by
    rw [hm.toNat_start, hr]
  have htempFrame : tempFrame r = 5123 := by
    rw [tempFrame, hr]
  -- The VMCB is below the memory of the VM.
  have hX : Disjoint largeBytes (frameBytes n) := by
    rw [Set.disjoint_left]
    intro a ha han
    rw [Set.mem_Ico] at ha
    rw [mem_frameBytes] at han
    omega
  have htemp : Disjoint (tempBytes (tempFrame r)) (frameBytes n) := by
    rw [Set.disjoint_left]
    intro a ha han
    rw [mem_tempBytes, htempFrame] at ha
    rw [mem_frameBytes] at han
    omega
  have hf := hm.owned.addressable f hm.tree.root_mem
  obtain ⟨vm, s₄, hguest, hnot⟩ := exists_ok_of_wp (c := vmCreateGuest _ 0x100000 _)
    (hm.wp_vmCreateGuest_writes hX (himage.wp_loadElfImage_large hstart)
      (hm.temp_accessible (by decide))
      (Q := fun vm s₄ => ¬BootTranslates (VIRT (r <<< PAGE_SHIFT)) vm s₄)
      fun _ s₄ s₅ s₆ hzero hload hrip htable => by
        refine not_bootTranslates hm.vmcb rfl ?_ hf fun i => ?_
        · rw [value_eq_of_apart hX hload hrip htable htemp (by decide), hm.hCr3]
        · refine ByteMem.read64_of_zero fun a ha => ?_
          rw [Set.mem_Ico] at ha
          have hi := i.isLt
          have htempOut : a ∉ tempBytes (tempFrame r) := by
            rw [mem_tempBytes, htempFrame]
            omega
          have hripOut : a ∉ Vmcb.rip.bytes n := by
            intro hin
            have := mem_frameBytes.mp (Vmcb.rip.bytes_subset n hin)
            omega
          rw [htable.only.mem htempOut, hrip.mem hripOut]
          exact hzero a (by omega) (by omega))
  refine ⟨s₁, out, s₂, _, s₃, vm, s₄, hinit, hcall, hmem, ?_, ?_, hnot⟩
  · show 2 ^ 21 ∣ (VIRT (r <<< PAGE_SHIFT)).toNat
    rw [toNat_VIRT, hstart]
    decide
  · rw [vmCreate, bind_of_ok hmem]
    exact hguest

end Tvmm
