import Tvmm.ElfImage
import Tvmm.Lib.TwoRuns

/-!
# What the loaded guest depends on

Two memories that agree on a set `A` lead to loads that agree on `A`, as long as
everything that the loader reads lies in `A`.  `ReadsIn` lists the reads of one
iteration: the fields of the headers, each one only when the code gets to it,
and the file bytes of a segment.

The image size that `load_elf_image` is called with plays no part in it.
-/

namespace Tvmm

open Exec CInt

/-- The two memories agree on `A`. -/
def Agree (A : Set Nat) (s t : State) : Prop := Set.EqOn s.mem t.mem A

section Rules

variable {A : Set Nat} {s t : State} {v dest src count : UInt64}

theorem readLE_agree (h : Agree A s t) {n a : Nat} (hv : physBytes v n ⊆ A)
    (ha : bootTranslate v n = some a) : s.mem.readLE a n = t.mem.readLE a n := by
  have hm : Mapped v n a := fun _ => ha
  exact ByteMem.readLE_congr fun x hx => h (hv (hm.subset_physBytes hx))

theorem wp₂_loadLE (h : Agree A s t) {n : Nat} (hv : physBytes v n ⊆ A) :
    wp₂ (loadLE n v) (fun _ s' t' => s' = s ∧ t' = t) s t := by
  intro x s' y t' hs ht
  rw [loadLE] at hs ht
  cases ha : bootTranslate v n with
  | none =>
    rw [ha] at hs
    cases hs
  | some a =>
    rw [ha] at hs ht
    cases hs
    cases ht
    exact ⟨readLE_agree h hv ha, rfl, rfl⟩

theorem wp₂_load32 (h : Agree A s t)
    (hv : ∀ x, load32 v s = .ok (x, s) → physBytes v 4 ⊆ A) :
    wp₂ (load32 v) (fun x s' t' => s' = s ∧ t' = t ∧ load32 v s = .ok (x, s)) s t := by
  intro x s' y t' hs ht
  obtain ⟨rfl, a, ha, rfl⟩ := load32_eq_ok.mp hs
  obtain ⟨rfl, b, hb, rfl⟩ := load32_eq_ok.mp ht
  cases ha.symm.trans hb
  exact ⟨by rw [readLE_agree h (hv _ hs) ha], rfl, rfl, hs⟩

theorem wp₂_load16 (h : Agree A s t) (hv : physBytes v 2 ⊆ A) :
    wp₂ (load16 v) (fun x s' t' => s' = s ∧ t' = t ∧ load16 v s = .ok (x, s)) s t := by
  intro x s' y t' hs ht
  obtain ⟨rfl, a, ha, rfl⟩ := load16_eq_ok.mp hs
  obtain ⟨rfl, b, hb, rfl⟩ := load16_eq_ok.mp ht
  cases ha.symm.trans hb
  exact ⟨by rw [readLE_agree h hv ha], rfl, rfl, hs⟩

theorem wp₂_storeLE (h : Agree A s t) (n x : Nat) :
    wp₂ (storeLE n v x) (fun _ s' t' => Agree A s' t') s t := by
  intro _ s' _ t' hs ht
  rw [storeLE] at hs ht
  cases hv : bootTranslate v n with
  | none =>
    rw [hv] at hs
    cases hs
  | some a =>
    rw [hv] at hs ht
    cases hs
    cases ht
    refine ⟨rfl, fun y hy => ?_⟩
    show s.mem.writeLE a n x y = t.mem.writeLE a n x y
    rw [ByteMem.writeLE, ByteMem.writeLE, h hy]

theorem wp₂_movs (h : Agree A s t) {w : Nat} (hsrc : physBytes src w ⊆ A) :
    wp₂ (movs w dest src) (fun _ s' t' => Agree A s' t') s t := by
  refine wp₂_bind (wp₂_imp (wp₂_loadLE h hsrc) ?_)
  rintro x _ _ ⟨rfl, rfl⟩
  exact wp₂_storeLE h w x

theorem wp₂_memset (h : Agree A s t) (c : UInt8) :
    wp₂ (memset v c count) (fun _ s' t' => Agree A s' t') s t :=
  wp₂_forRange h fun _ _ _ _ h' => wp₂_storeLE h' _ _

theorem wp₂_memmove (h : Agree A s t) (hsrc : physBytes src count.toNat ⊆ A) :
    wp₂ (memmove dest src count) (fun _ s' t' => Agree A s' t') s t := by
  have hpart : ∀ k w, k + w ≤ count.toNat → physBytes (src + UInt64.ofNat k) w ⊆ A :=
    fun k w hk => (physBytes_part hk).trans hsrc
  rw [memmove, memmoveVia]
  split_ifs
  · rw [__inlineMemcpyVia]
    refine wp₂_bind (wp₂_imp (wp₂_forRange h fun k s₁ t₁ hk h₁ =>
      wp₂_movs h₁ (hpart _ _ (by omega))) ?_)
    intro _ s₁ t₁ h₁
    refine wp₂_bind (wp₂_imp (wp₂_when (fun hw => wp₂_movs h₁ (hpart _ _ (by omega)))
      fun _ => h₁) ?_)
    intro _ s₂ t₂ h₂
    exact wp₂_when (fun hw => wp₂_movs h₂ (hpart _ _ (by omega))) fun _ => h₂
  · exact wp₂_forRange h fun k s₁ t₁ hk h₁ => wp₂_movs h₁ (hpart _ _ (by omega))

end Rules

/-! ## The reads of the loader -/

/-- Everything that iteration `i` reads lies in `A`. -/
structure ReadsIn (A : Set Nat) (ehdr start : UInt64) (i : Int32) (s : State) : Prop where
  phnum : physBytes (ehdr + 44) 2 ⊆ A
  header : ∀ n, ePhnum ehdr s = .ok (n, s) → i < ofUShort n →
    physBytes (ehdr + 28) 4 ⊆ A ∧ physBytes (ehdr + 42) 2 ⊆ A
  type : ∀ n phdr, ePhnum ehdr s = .ok (n, s) → i < ofUShort n →
    getElfPhdr ehdr i s = .ok (phdr, s) → physBytes (phdr + 0) 4 ⊆ A ∧
      (pType phdr s = .ok (PT_LOAD, s) → physBytes (phdr + 24) 4 ⊆ A)
  copy : ∀ phdr, Accepts ehdr i phdr s → physBytes (phdr + 16) 4 ⊆ A ∧
    (pFilesz phdr s ≠ .ok (0, s) →
      physBytes (phdr + 12) 4 ⊆ A ∧ physBytes (phdr + 4) 4 ⊆ A) ∧
    ∀ p : ElfPhdr, p.Copies phdr s →
      physBytes (ehdr + p.offset.toUInt64) p.filesz.toNat ⊆ A
  zero : ∀ phdr, Accepts ehdr i phdr s → physBytes (phdr + 20) 4 ⊆ A ∧
    ∀ s', copySegment ehdr start phdr s = .ok ((), s') →
      ∀ p : ElfPhdr, p.Zeroes phdr s' → physBytes (phdr + 12) 4 ⊆ A

section Load

variable {A : Set Nat} {ehdr phdr start : UInt64} {i : Int32} {s t : State}

theorem wp₂_getElfPhdr (h : Agree A s t) (hoff : physBytes (ehdr + 28) 4 ⊆ A)
    (hsize : physBytes (ehdr + 42) 2 ⊆ A) :
    wp₂ (getElfPhdr ehdr i) (fun phdr s' t' => s' = s ∧ t' = t ∧
      getElfPhdr ehdr i s = .ok (phdr, s)) s t := by
  have hread : wp₂ (getElfPhdr ehdr i) (fun _ s' t' => s' = s ∧ t' = t) s t := by
    refine wp₂_bind (wp₂_imp (wp₂_load32 h fun _ _ => hoff) ?_)
    rintro phoff s' t' ⟨rfl, rfl, -⟩
    refine wp₂_bind (wp₂_imp (wp₂_load16 h hsize) ?_)
    rintro phentsize s' t' ⟨rfl, rfl, -⟩
    exact wp₂_pure ⟨rfl, rfl⟩
  refine wp₂_imp (wp₂_self hread) ?_
  rintro phdr s' t' ⟨⟨rfl, rfl⟩, hok⟩
  exact ⟨rfl, rfl, hok⟩

theorem wp₂_isLoadablePhdr (h : Agree A s t) (htype : physBytes (phdr + 0) 4 ⊆ A)
    (hflags : pType phdr s = .ok (PT_LOAD, s) → physBytes (phdr + 24) 4 ⊆ A) :
    wp₂ (isLoadablePhdr phdr) (fun b s' t' => s' = s ∧ t' = t ∧
      isLoadablePhdr phdr s = .ok (b, s)) s t := by
  have hread : wp₂ (isLoadablePhdr phdr) (fun _ s' t' => s' = s ∧ t' = t) s t := by
    refine wp₂_bind (wp₂_imp (wp₂_load32 h fun _ _ => htype) ?_)
    rintro type s' t' ⟨rfl, rfl, htype'⟩
    split_ifs with hload
    · rw [hload] at htype'
      refine wp₂_bind (wp₂_imp (wp₂_load32 h fun _ _ => hflags htype') ?_)
      rintro flags s' t' ⟨rfl, rfl, -⟩
      exact wp₂_pure ⟨rfl, rfl⟩
    · exact wp₂_pure ⟨rfl, rfl⟩
  refine wp₂_imp (wp₂_self hread) ?_
  rintro b s' t' ⟨⟨rfl, rfl⟩, hok⟩
  exact ⟨rfl, rfl, hok⟩

theorem wp₂_copySegment (h : Agree A s t) (hr : ReadsIn A ehdr start i s)
    (haccepts : Accepts ehdr i phdr s) :
    wp₂ (copySegment ehdr start phdr) (fun _ s' t' => Agree A s' t') s t := by
  obtain ⟨hfilesz, hfields, hfile⟩ := hr.copy phdr haccepts
  refine wp₂_bind (wp₂_imp (wp₂_load32 h fun _ _ => hfilesz) ?_)
  rintro filesz _ _ ⟨rfl, rfl, hf⟩
  refine wp₂_when (fun hpos => ?_) fun _ => h
  obtain ⟨hpaddr, hoffset⟩ := hfields fun hz => hpos (by
    have := hf.symm.trans hz
    simp only [Except.ok.injEq, Prod.mk.injEq, and_true] at this
    exact this)
  refine wp₂_bind (wp₂_imp (wp₂_load32 h fun _ _ => hpaddr) ?_)
  rintro paddr _ _ ⟨rfl, rfl, hp⟩
  refine wp₂_bind (wp₂_imp (wp₂_load32 h fun _ _ => hoffset) ?_)
  rintro offset _ _ ⟨rfl, rfl, ho⟩
  refine wp₂_bind (wp₂_imp (wp₂_load32 h fun _ _ => hfilesz) ?_)
  rintro filesz' _ _ ⟨rfl, rfl, hf'⟩
  obtain rfl : filesz = filesz' := by
    have := hf.symm.trans hf'
    simp only [Except.ok.injEq, Prod.mk.injEq, and_true] at this
    exact this
  refine wp₂_memmove h ?_
  rw [UInt32.toNat_toUInt64]
  exact hfile ⟨0, offset, paddr, filesz, 0, 0⟩ ⟨hf, hp, ho, hpos⟩

theorem wp₂_zeroSegment (h : Agree A s t) (hmemsz : physBytes (phdr + 20) 4 ⊆ A)
    (hfilesz : physBytes (phdr + 16) 4 ⊆ A)
    (hpaddr : ∀ memsz filesz, pMemsz phdr s = .ok (memsz, s) →
      pFilesz phdr s = .ok (filesz, s) → memsz - filesz ≠ 0 →
      ∀ paddr, pPaddr phdr s = .ok (paddr, s) → physBytes (phdr + 12) 4 ⊆ A) :
    wp₂ (zeroSegment start phdr) (fun _ s' t' => Agree A s' t') s t := by
  refine wp₂_bind (wp₂_imp (wp₂_load32 h fun _ _ => hmemsz) ?_)
  rintro memsz _ _ ⟨rfl, rfl, hm⟩
  refine wp₂_bind (wp₂_imp (wp₂_load32 h fun _ _ => hfilesz) ?_)
  rintro filesz _ _ ⟨rfl, rfl, hf⟩
  refine wp₂_when (fun hpos => ?_) fun _ => h
  have hpos' : memsz - filesz ≠ 0 := fun hz => hpos (by rw [hz]; rfl)
  refine wp₂_bind (wp₂_imp (wp₂_load32 h (hpaddr memsz filesz hm hf hpos')) ?_)
  rintro paddr _ _ ⟨rfl, rfl, -⟩
  refine wp₂_bind (wp₂_imp (wp₂_load32 h fun _ _ => hfilesz) ?_)
  rintro filesz' _ _ ⟨rfl, rfl, -⟩
  exact wp₂_memset h 0

/-- One iteration keeps the agreement. -/
theorem wp₂_loadSegment (h : Agree A s t) (hr : ReadsIn A ehdr start i s) :
    wp₂ (loadSegment ehdr start i) (fun _ s' t' => Agree A s' t') s t := by
  refine wp₂_bind (wp₂_imp (wp₂_load16 h hr.phnum) ?_)
  rintro n _ _ ⟨rfl, rfl, hn⟩
  split_ifs with hlt
  · obtain ⟨hoff, hsize⟩ := hr.header n hn hlt
    refine wp₂_bind (wp₂_imp (wp₂_getElfPhdr h hoff hsize) ?_)
    rintro phdr _ _ ⟨rfl, rfl, hphdr⟩
    obtain ⟨htype, hflags⟩ := hr.type n phdr hn hlt hphdr
    refine wp₂_bind (wp₂_imp (wp₂_isLoadablePhdr h htype hflags) ?_)
    rintro b _ _ ⟨rfl, rfl, hb⟩
    refine wp₂_bind (wp₂_imp (Q := fun _ s' t' => Agree A s' t')
      (wp₂_when (fun hload => ?_) fun _ => h) fun _ s' t' h' => wp₂_pure h')
    rw [hload] at hb
    have haccepts : Accepts ehdr i phdr _ := ⟨⟨n, hn, hlt⟩, hphdr, hb⟩
    obtain ⟨hmemsz, hzero⟩ := hr.zero phdr haccepts
    refine wp₂_bind (wp₂_imp (wp₂_self (wp₂_copySegment h hr haccepts)) ?_)
    rintro _ s₁ t₁ ⟨h₁, hcopy⟩
    refine wp₂_zeroSegment h₁ hmemsz (hr.copy phdr haccepts).1 ?_
    intro memsz filesz hm hf hpos paddr hp
    exact hzero s₁ hcopy ⟨0, 0, paddr, filesz, memsz, 0⟩ ⟨hm, hf, hp, hpos⟩
  · exact wp₂_pure h

/-- So does the whole load. -/
theorem wp₂_loadElfImage (h : Agree A s t) {imageSize : UInt64}
    (hr : ∀ i s', Reaches (loadSegment ehdr start) 0 s i s' → ReadsIn A ehdr start i s')
    (hentry : physBytes (ehdr + 24) 4 ⊆ A) :
    wp₂ (loadElfImage ehdr imageSize start) (fun _ s' t' => Agree A s' t') s t := by
  rw [loadElfImage, loadElfImageWith]
  refine wp₂_bind (wp₂_imp (wp₂_loop (R := Agree A) (Q := fun _ s' t' => Agree A s' t')
    (fun i s' t' hreach h' => wp₂_imp (wp₂_loadSegment h' (hr i s' hreach)) ?_) _ t h) ?_)
  · rintro (j | _) s'' t'' h'' <;> exact h''
  · intro _ s' t' h'
    rw [printf_bind]
    refine wp₂_bind (wp₂_imp (wp₂_load32 h' fun _ _ => hentry) ?_)
    rintro entry _ _ ⟨rfl, rfl, -⟩
    exact wp₂_pure h'

end Load

/-- A load of a well-formed image reads nothing else. -/
theorem readsIn_of_wellFormed {A : Set Nat} {p q : UInt64} {n size : Nat} {s s' : State}
    {i₀ : Int32} (h : ImageLayout p n q size s) (hA : physBytes (VIRT p) n ⊆ A)
    (hreach : Reaches (loadSegment (VIRT p) (VIRT q)) 0 s i₀ s') :
    ReadsIn A (VIRT p) (VIRT q) i₀ s' := by
  have hlayout := h.loadLayout
  obtain ⟨i, hi, rfl, hs⟩ := hlayout.reaches hreach
  have hehdr := h.wellFormed.ehdr
  rw [EHDR_SIZE] at hehdr
  have hpart : ∀ k j, k + j ≤ n → physBytes (VIRT p + UInt64.ofNat k) j ⊆ A :=
    fun k j hk => (physBytes_part hk).trans hA
  have hfield : i < imagePhnum s.mem p.toNat → ∀ k, k + 4 ≤ PHDR_SIZE →
      physBytes (VIRT p + UInt64.ofNat (phdrOffset s.mem p.toNat i) + UInt64.ofNat k) 4 ⊆
        A := by
    intro hlt k hk
    have := h.wellFormed.phdr i hlt
    rw [UInt64.add_assoc, ← UInt64.ofNat_add]
    exact hpart _ _ (by omega)
  refine ⟨hpart 44 2 (by omega), fun x hx hlt => ⟨hpart 28 4 (by omega),
    hpart 42 2 (by omega)⟩, fun x phdr hx hlt hget => ?_, fun phdr haccepts => ?_,
    fun phdr haccepts => ?_⟩
  · have hlt' := hlayout.lt_phnum hs hi hx hlt
    obtain rfl := hlayout.phdr_eq hs hlt' hget
    exact ⟨hfield hlt' 0 (by decide), fun _ => hfield hlt' 24 (by decide)⟩
  · obtain ⟨hlt, rfl, hl⟩ := hlayout.accepts hs hi haccepts
    refine ⟨hfield hlt 16 (by decide), fun _ => ⟨hfield hlt 12 (by decide),
      hfield hlt 4 (by decide)⟩, fun c hc => ?_⟩
    obtain ⟨h1, -, h3⟩ := (hlayout.hasPhdr hs hlt).2.eq_of_copies hc
    have := h.wellFormed.file i hlt hl.1
    rw [h1, h3, add_toUInt64]
    exact hpart _ _ (by omega)
  · obtain ⟨hlt, rfl, -⟩ := hlayout.accepts hs hi haccepts
    exact ⟨hfield hlt 20 (by decide), fun _ _ _ _ => hfield hlt 12 (by decide)⟩

/-- The memory that the loader may depend on: the image and the memory of the
VM. -/
def loadInputs (guestImageStart guestImageSize vmPmemStart : UInt64) (vmPmemSize : Nat) :
    Set Nat :=
  physBytes guestImageStart guestImageSize.toNat ∪ physBytes vmPmemStart vmPmemSize

/-- When the loader reads nothing but the image and the memory of the VM, what
the guest receives depends on nothing else. -/
theorem loadElfImage_agree {guestImageStart guestImageSize vmPmemStart : UInt64}
    {vmPmemSize : Nat} {s t s' t' : State} {entry entry' : UInt64}
    (hagree : Agree (loadInputs guestImageStart guestImageSize vmPmemStart vmPmemSize) s t)
    (hreads : ∀ i s₁, Reaches (loadSegment guestImageStart vmPmemStart) 0 s i s₁ →
      ReadsIn (loadInputs guestImageStart guestImageSize vmPmemStart vmPmemSize)
        guestImageStart vmPmemStart i s₁)
    (hentry : physBytes (guestImageStart + 24) 4 ⊆
      loadInputs guestImageStart guestImageSize vmPmemStart vmPmemSize)
    (hs : loadElfImage guestImageStart guestImageSize vmPmemStart s = .ok (entry, s'))
    (ht : loadElfImage guestImageStart guestImageSize vmPmemStart t = .ok (entry', t')) :
    entry = entry' ∧ Agree (physBytes vmPmemStart vmPmemSize) s' t' := by
  obtain ⟨he, h'⟩ := wp₂_loadElfImage hagree hreads hentry entry s' entry' t' hs ht
  exact ⟨he, h'.mono Set.subset_union_right⟩

/-- The sample machine with one more byte set, at 10 MB. -/
def sampleLoadByte (p : ElfPhdr) : State :=
  { sampleState with mem := (sampleElf p).fill 0xA00000 1 1 }

theorem sampleLoadByte_hasSampleElf (p : ElfPhdr) :
    HasSampleElf p (sampleLoadByte p).mem := by
  intro x hx
  refine ByteMem.fill_of_notMem ?_
  rw [Set.mem_Ico] at hx ⊢
  omega

/-- The two machines agree on memory that does not hold that byte. -/
theorem sampleLoadByte_agree (p : ElfPhdr) {A : Set Nat} (hA : 0xA00000 ∉ A) :
    Agree A (sampleLoad p) (sampleLoadByte p) := by
  intro x hx
  refine (ByteMem.fill_of_notMem fun hin => hA ?_).symm
  rw [Set.mem_Ico] at hin
  rwa [show 0xA00000 = x by omega]

theorem notMem_loadInputs {n : UInt64} {size : Nat} (hn : n.toNat ≤ 0x200000)
    (hsize : size ≤ 0x1000000) :
    0xA00000 ∉ loadInputs (VIRT 0x800000) n (VIRT 0x1000000) size := by
  have h8 : (0x800000 : UInt64).toNat = 0x800000 := rfl
  have h16 : (0x1000000 : UInt64).toNat = 0x1000000 := rfl
  rintro (hin | hin)
  · have := physBytes_VIRT (by omega) hin
    rw [Set.mem_Ico] at this
    omega
  · have := physBytes_VIRT (by omega) hin
    rw [Set.mem_Ico] at this
    omega

/-- The byte at 10 MB has no influence on the load of an image of 1 MB. -/
theorem sample_loadElfImage_agree : ∃ entry s' t',
    loadElfImage (VIRT 0x800000) 0x100000 (VIRT 0x1000000) (sampleLoad samplePhdr) =
      .ok (entry, s') ∧
    loadElfImage (VIRT 0x800000) 0x100000 (VIRT 0x1000000) (sampleLoadByte samplePhdr) =
      .ok (entry, t') ∧
    Agree (physBytes (VIRT 0x1000000) 0x400000) s' t' := by
  have h := sampleLoad_hasSampleElf samplePhdr
  obtain ⟨entry, s', hs, -⟩ := h.loadElfImage (n := 0x100000) 0x400000
    (by decide) (by decide) (by decide) (by decide) (by decide) (by decide) (by decide)
    0x100000
  obtain ⟨entry', t', ht, -⟩ := (sampleLoadByte_hasSampleElf samplePhdr).loadElfImage
    (n := 0x100000) 0x400000 (by decide) (by decide) (by decide) (by decide)
    (by decide) (by decide) (by decide) 0x100000
  have hlayout : ImageLayout 0x800000 0x100000 0x1000000 0x400000 (sampleLoad samplePhdr) :=
    h.imageLayout (by decide) (by decide) (by decide) (by decide) (by decide) (by decide)
  have hA : physBytes (VIRT 0x800000) 0x100000 ⊆
      loadInputs (VIRT 0x800000) 0x100000 (VIRT 0x1000000) 0x400000 := by
    rw [loadInputs, show (0x100000 : UInt64).toNat = 0x100000 from rfl]
    exact Set.subset_union_left
  obtain ⟨rfl, hagree⟩ := loadElfImage_agree
    (show Agree (loadInputs (VIRT 0x800000) 0x100000 (VIRT 0x1000000) 0x400000) _ _ from
      sampleLoadByte_agree samplePhdr (notMem_loadInputs (by decide) (by decide)))
    (fun i s₁ hreach => readsIn_of_wellFormed hlayout hA hreach)
    ((physBytes_part (k := 24) (by decide)).trans hA) hs ht
  exact ⟨entry, s', t', hs, ht, hagree⟩

/-- A segment whose file byte lies at 10 MB, outside the image of one page.  Its
value ends up in the memory of the VM. -/
theorem loadElfImage_not_agree : ∃ s t entry s' entry' t',
    Agree (loadInputs (VIRT 0x800000) 0x1000 (VIRT 0x1000000) 0x400000) s t ∧
    loadElfImage (VIRT 0x800000) 0x1000 (VIRT 0x1000000) s = .ok (entry, s') ∧
    loadElfImage (VIRT 0x800000) 0x1000 (VIRT 0x1000000) t = .ok (entry', t') ∧
    ¬Agree (physBytes (VIRT 0x1000000) 0x400000) s' t' := by
  let p : ElfPhdr := ⟨PT_LOAD, 0x200000, 0x200000, 1, 1, PF_X⟩
  obtain ⟨entry, s', hs, hplace⟩ := (sampleLoad_hasSampleElf p).loadElfImage
    (n := 0x300000) 0x400000 (by decide) (by decide) (by decide) (by decide)
    (by decide) (by decide) (by decide) 0x1000
  obtain ⟨entry', t', ht, hplace'⟩ := (sampleLoadByte_hasSampleElf p).loadElfImage
    (n := 0x300000) 0x400000 (by decide) (by decide) (by decide) (by decide)
    (by decide) (by decide) (by decide) 0x1000
  refine ⟨_, _, entry, s', entry', t', sampleLoadByte_agree p
    (notMem_loadInputs (by decide) (by decide)), hs, ht, fun hagree => ?_⟩
  have hdst : 0x1000000 + p.paddr.toNat + 0 = 0x1200000 := by decide
  have hsrc : 0x800000 + p.offset.toNat + 0 = 0xA00000 := by decide
  have hold := hplace 0 (by decide)
  have hnew := hplace' 0 (by decide)
  rw [hdst, hsrc] at hold hnew
  have hzero : s'.mem 0x1200000 = 0 := by
    rw [hold]
    decide +kernel
  have hone : t'.mem 0x1200000 = 1 := by
    rw [hnew]
    decide +kernel
  have hin : 0x1200000 ∈ physBytes (VIRT 0x1000000) 0x400000 := by
    have hm : Mapped (VIRT 0x1000000) 0x400000 0x1000000 :=
      fun _ => bootTranslate_VIRT (by decide)
    exact hm.subset_physBytes (Set.mem_Ico.mpr (by decide))
  rw [hagree hin, hone] at hzero
  exact absurd hzero (by decide)

end Tvmm
