import Tvmm.VmImage

/-!
# What the guest sees

The guest reads its memory through the nested table.  `GuestCreated.nestedTable`
says that the table is still there when `vm_create` returns, and
`NestedTable.walk_pmem` where it sends a guest-physical address.
-/

namespace Tvmm

open Exec LongMode

section View

variable {E : Stop → Prop} {priv : Set Nat} {vmPmemSize : UInt64} {n : Nat} {r : UInt64}
  {f : Nat} {S : Set Nat} {own : List (UInt64 × UInt64)} {s₀ s₁ s₂ s₃ s' : State}

/-- The nested table before the guest image is loaded. -/
theorem VmMemory.nestedTable (h : VmMemory E priv vmPmemSize n r f S own s₀ s₁) :
    NestedTable priv (VIRT (r <<< PAGE_SHIFT)) vmPmemSize f S s₀ own s₁ where
  tree := h.tree
  owned := h.owned
  new := h.table_own
  holds := by
    rw [PHYS_VIRT]
    exact h.holds
  evolves := h.evolves

/-- The second part of `vm_create` leaves every field of the VMCB but `rip` alone,
when the loader does. -/
theorem value_eq_of_apart {X : Set Nat} (hX : Disjoint X (frameBytes n))
    (hload : OnlyWrites X s₁ s₂) (hrip : OnlyWrites (Vmcb.rip.bytes n) s₂ s₃) {m : Nat}
    (htemp : TempTable m s₃ s') (hm : Disjoint (tempBytes m) (frameBytes n)) {g : VmcbField}
    (hg : Vmcb.rip.Apart g) : g.value n s' = g.value n s₁ := by
  have hsub := g.bytes_subset n
  rw [VmcbField.value_congr (htemp.only.eqOn (hm.mono_right hsub)),
    VmcbField.value_congr (hrip.eqOn (Set.disjoint_left.mpr fun a ha =>
      (VmcbField.bytes_subset_diff hg ha).2)),
    VmcbField.value_congr (hload.eqOn (hX.mono_right hsub))]

namespace GuestCreated

/-- No table of the nested table is written after it was built. -/
theorem words_eq (h : GuestCreated n r vmPmemSize s₁ s₂ s₃ s')
    (hm : VmMemory E priv vmPmemSize n r f S own s₀ s₁)
    (hsize : 0x206000 ≤ vmPmemSize.toNat) :
    ∀ g ∈ S, ∀ i, words s'.mem g i = words s₁.mem g i := by
  intro g hg i
  refine words_congr (h.onlyWrites.eqOn (Set.disjoint_left.mpr ?_)) i
  have hpmem : ∀ a ∈ vmPmemBytes r vmPmemSize, a ∉ frameBytes g := by
    intro a ha hag
    rw [mem_vmPmemBytes] at ha
    rw [mem_frameBytes] at hag
    exact hm.table_pmem g hg (hag ▸ ha)
  rintro a ((ha | ha) | ha) hag
  · exact hpmem a ha hag
  · rw [mem_frameBytes] at ha hag
    exact hm.vmcb_table (by rw [← ha, hag]; exact hg)
  · exact hpmem a (tempBytes_subset_iff.mpr hsize ha) hag

/-- The nested table when `vm_create` returns. -/
theorem nestedTable (h : GuestCreated n r vmPmemSize s₁ s₂ s₃ s')
    (hm : VmMemory E priv vmPmemSize n r f S own s₀ s₁)
    (hsize : 0x206000 ≤ vmPmemSize.toNat) :
    NestedTable priv (VIRT (r <<< PAGE_SHIFT)) vmPmemSize f S s₀ own s' where
  tree := hm.tree.congr (h.words_eq hm hsize)
  owned := hm.owned.evolves (Evolves.of_onlyWrites h.onlyWrites)
  new := hm.table_own
  holds := hm.nestedTable.holds.congr hm.tree (h.words_eq hm hsize)
  evolves := h.evolves hm hsize

/-- The VMCB still has the two page tables. -/
theorem cr3 (h : GuestCreated n r vmPmemSize s₁ s₂ s₃ s')
    (hm : VmMemory E priv vmPmemSize n r f S own s₀ s₁)
    (hsize : 0x206000 ≤ vmPmemSize.toNat) :
    Vmcb.cr3.value n s' = GUEST_CR3.toNat ∧ Vmcb.hCr3.value n s' = f * 4096 := by
  have htemp := hm.vmcb_disjoint.mono_left (tempBytes_subset_iff.mpr hsize)
  rw [value_eq_of_apart hm.vmcb_disjoint h.load h.rip h.temp htemp (by decide),
    value_eq_of_apart hm.vmcb_disjoint h.load h.rip h.temp htemp (by decide)]
  exact ⟨hm.cr3, hm.hCr3⟩

end GuestCreated

/-- Where the table of a VM of at most 2 GB sends a guest-physical address. -/
theorem NestedTable.walk_pmem {own : List (UInt64 × UInt64)}
    (h : NestedTable priv (VIRT (r <<< PAGE_SHIFT)) vmPmemSize f S s₀ own s')
    (hr : (r <<< PAGE_SHIFT).toNat = r.toNat * 4096) (hal : 512 ∣ r.toNat)
    (hle : r.toNat ≤ 2 ^ 33) (hsize : vmPmemSize.toNat ≤ 2 ^ 31) {g : Nat}
    (hg : g < vmPmemSize.toNat) :
    ∃ t, LongMode.walk s'.mem (f * 4096) g = some t ∧
      t.paddr = if g < 2 ^ 21 then g else r.toNat * 4096 + g := by
  have hlt : g / 2 ^ 21 < nrVmPages vmPmemSize := by
    rw [nrVmPages]
    omega
  obtain ⟨t, hwalk, hpaddr⟩ := (h.walk_of_le hsize (by omega)).2 hlt
  refine ⟨t, hwalk, ?_⟩
  rw [hpaddr, PHYS_VIRT, hr]
  split_ifs <;> omega

end View

/-! ## The guest sees its program -/

/-- The pages of the temporary page table, as the guest sees them. -/
def InTempTable (g : Nat) : Prop := 0x203000 ≤ g ∧ g < 0x206000

instance (g : Nat) : Decidable (InTempTable g) := inferInstanceAs (Decidable (_ ∧ _))

/-- Through the nested table of `vm` the guest reads the loadable segments of the
image that was at the physical address `a` in `s`, apart from what lies below
2 MB or in the temporary page table. -/
def SeesImage (s : State) (a : Nat) (vm : Vm) (s' : State) : Prop :=
  ∃ hCr3, Vmcb.hCr3.load vm.vmcb s' = .ok (hCr3, s') ∧
    ∀ i, i < imagePhnum s.mem a → ∀ p, p = segment s.mem a i → p.Loadable →
      ∀ k, k < p.memsz.toNat → 2 ^ 21 ≤ p.paddr.toNat + k →
        ¬InTempTable (p.paddr.toNat + k) →
        ∃ t, walk s'.mem hCr3.toNat (p.paddr.toNat + k) = some t ∧
          s'.mem t.paddr = if k < p.filesz.toNat then s.mem (a + p.offset.toNat + k) else 0

/-- When `vm_create` returns, the guest reads the bytes of every loadable segment
through the nested table, except below 2 MB and in the temporary page table. -/
theorem vmCreate_guestReads {endSym : UInt64} {e820 : E820Map} {pml pml' : PmemLayout}
    (hboot : BootLayout e820 pml) {calls : List (UInt64 × UInt64)}
    (hcalls : ∀ c ∈ calls, AllocArgs c.1 c.2)
    (himg : (bitmapStart endSym).toNat + (bitmapSize pml.maxPage).toNat ≤
      pml.guestImageStart.toNat)
    (hstop : pml.imageStop ≤ 1073741824) {s s₁ s₂ s₃ : State}
    {out : List ((UInt64 × UInt64) × UInt64)} {vmPmemSize : UInt64} {vm : Vm}
    (hinit : naiveAllocatorInit endSym e820 pml s = .ok (pml', s₁))
    (hrun : allocPagesRun calls s₁ = .ok (out, s₂))
    (hal : 2 ^ 21 ∣ vmPmemSize.toNat) (hlow : 0x400000 ≤ vmPmemSize.toNat)
    (hhigh : vmPmemSize.toNat ≤ 2 ^ 31)
    (hwf : WellFormedImage s₂.mem pml.guestImageStart.toNat pml.guestImageSize.toNat
      vmPmemSize.toNat)
    (hvm : vmCreate allocPages (VIRT pml.guestImageStart) pml.guestImageSize vmPmemSize s₂ =
      .ok (vm, s₃)) :
    SeesImage s₂ pml.guestImageStart.toNat vm s₃ := by
  obtain ⟨L, hready⟩ := allocatorReady_of_init hboot hinit
  have hinv := hready.inv.of_run hcalls hrun
  have hpages : (nrVmFrames vmPmemSize).toNat * 4096 = vmPmemSize.toNat := by
    rw [nrVmFrames, toNat_shiftRight_PAGE_SHIFT]
    omega
  refine wp_ok (wp_vmCreate_image hready hinv himg hstop (by rwa [hpages])
    (Q := SeesImage s₂ pml.guestImageStart.toNat) ?_) hvm
  intro n r f S own s₄ s₅ s₆ s' hm heq hg hplace
  have hsize : 0x206000 ≤ vmPmemSize.toNat := by omega
  have hf := (hm.owned.addressable f hm.tree.root_mem).toNat
  refine ⟨UInt64.ofNat (f * 4096), ?_, ?_⟩
  · rw [Vmcb.hCr3.load_of_addressable hm.vmcb, (hg.cr3 hm hsize).2]
  · rintro i hi p rfl hl k hk h2mb htemp
    obtain ⟨hnum, hseg, -⟩ := hwf.congr heq
    have hin := hplace i (hnum ▸ hi) (by rwa [hseg i hi])
    have hroom := hwf.room i hi hl.1
    have hfile := hwf.file i hi hl.1
    rw [InPlace, hseg i hi] at hin
    rw [ElfPhdr.stop] at hroom
    have hle := hm.pmem_le
    obtain ⟨t, hwalk, hpaddr⟩ := (hg.nestedTable hm hsize).walk_pmem hm.toNat_start
      hm.pmem_aligned (by omega) hhigh
      (g := (segment s₂.mem pml.guestImageStart.toNat i).paddr.toNat + k) (by omega)
    rw [if_neg (by omega)] at hpaddr
    refine ⟨t, by rwa [hf], ?_⟩
    -- The byte is neither in the temporary page table nor in the VMCB.
    have hnr := hpages
    have ha : t.paddr ∈ vmPmemBytes r vmPmemSize := by
      rw [vmPmemBytes_eq, Set.mem_Ico]
      omega
    have hnotTemp : t.paddr ∉ tempBytes (tempFrame r) := by
      intro hin
      rw [tempBytes, Set.mem_Ico, tempFrame] at hin
      exact htemp ⟨by omega, by omega⟩
    have hnotRip : t.paddr ∉ Vmcb.rip.bytes n := fun hr =>
      Set.disjoint_left.mp hm.vmcb_disjoint ha (Vmcb.rip.bytes_subset n hr)
    rw [hg.temp.only.mem hnotTemp, hg.rip.mem hnotRip, hpaddr, ← Nat.add_assoc,
      ← hm.toNat_start, hin k hk]
    split_ifs with hkf
    · refine heq (Set.mem_Ico.mpr ⟨?_, ?_⟩) <;> omega
    · rfl

/-- A VM of 4 MB on the sample machine. -/
theorem sample_vmCreate_guestReads : ∃ s₁ vm s₃,
    naiveAllocatorInit sampleEnd sampleMap sampleLayout (sampleLoad samplePhdr) =
      .ok (initLayout sampleEnd sampleLayout, s₁) ∧
    vmCreate allocPages (VIRT 0x800000) 0x100000 0x400000 s₁ = .ok (vm, s₃) ∧
    SeesImage s₁ 0x800000 vm s₃ := by
  obtain ⟨L, s₁, _, _, _, s₃, hinit, hready, himage, -, hvm⟩ := sample_vmCreate_fits
  exact ⟨s₁, _, s₃, hinit, hvm, vmCreate_guestReads sample_bootLayout
    (List.forall_mem_nil _) sample_image.1 sample_image.2 hinit rfl (by decide) (by decide)
    (by decide) (himage.wellFormed (by decide) (by decide) (by decide) (by decide)) hvm⟩

/-- A segment at 1 MB: its byte is loaded, and the guest reads another one. -/
theorem vmCreate_not_guestReads : ∃ s₁ vm s₃ hCr3 t,
    naiveAllocatorInit sampleEnd sampleMap sampleLayout
        (sampleLoad ⟨PT_LOAD, 28, 0x100000, 1, 1, PF_X⟩) =
      .ok (initLayout sampleEnd sampleLayout, s₁) ∧
    WellFormedImage s₁.mem 0x800000 0x100000 0x400000 ∧
    imagePhnum s₁.mem 0x800000 = 1 ∧
    segment s₁.mem 0x800000 0 = ⟨PT_LOAD, 28, 0x100000, 1, 1, PF_X⟩ ∧
    vmCreate allocPages (VIRT 0x800000) 0x100000 0x400000 s₁ = .ok (vm, s₃) ∧
    Vmcb.hCr3.load vm.vmcb s₃ = .ok (hCr3, s₃) ∧
    walk s₃.mem hCr3.toNat 0x100000 = some t ∧
    s₃.mem t.paddr ≠ s₁.mem (0x800000 + 28) := by
  let p : ElfPhdr := ⟨PT_LOAD, 28, 0x100000, 1, 1, PF_X⟩
  obtain ⟨L, s₁, hinit, hready, hroom⟩ := sample_init (sampleLoad p)
  have himage := (sampleLoad_hasSampleElf p).ready hready hready.mem
  obtain ⟨n, r, f, S, own, s₄, _, _, s₃, -, hvm, hm, hinv, hg⟩ := sample_vmCreate
    0x400000 hready (sample_budget hready hroom (by decide)) himage
    (by decide) (by decide) (by decide) fun _ _ _ _ _ _ hm _ => hm.temp_accessible (by decide)
  have hf := (hm.owned.addressable f hm.tree.root_mem).toNat
  have hle := hm.pmem_le
  obtain ⟨t, hwalk, hpaddr⟩ := (hg.nestedTable hm (by decide)).walk_pmem hm.toNat_start
    hm.pmem_aligned (by omega) (by decide) (g := 0x100000) (by decide)
  rw [if_pos (by decide)] at hpaddr
  refine ⟨s₁, _, s₃, UInt64.ofNat (f * 4096), t, hinit, himage.wellFormed (by decide)
    (by decide) (by decide) (by decide), himage.header.1, himage.header.2.2, hvm, ?_,
    by rwa [hf], ?_⟩
  · rw [Vmcb.hCr3.load_of_addressable hm.vmcb, (hg.cr3 hm (by decide)).2]
  · -- Host memory at 1 MB is neither the bitmap nor in a safe frame.
    have hbitmap := sample_bitmap hready
    have hout : 0x100000 ∉ L.bytes := by
      rw [AllocLayout.bytes, Set.mem_Ico]
      omega
    have hown : 0x100000 ∉ rangeBytes own := by
      rintro ⟨q, hq, ha⟩
      have hsafe := hinv.handedOut_safe q
        (by rw [hm.evolves.handedOut]; exact List.mem_append_left _ hq) ha
      rw [hready.safe] at hsafe
      exact absurd hsafe.heap (by decide)
    have hold : s₃.mem 0x100000 = 0 := by
      rw [(hg.evolves hm (by decide)).mem (by simp [hout, hown]), hready.mem hout]
      exact sampleElf_eq_zero p (x := 0x100000) (by rw [Set.mem_Ico]; omega)
    have hfile : s₁.mem (0x800000 + 28) = 52 := by
      rw [@himage (0x800000 + 28) (Set.mem_Ico.mpr (by omega))]
      decide +kernel
    rw [hpaddr, hold, hfile]
    decide

end Tvmm
