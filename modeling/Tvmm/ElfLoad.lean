import Mathlib.Order.Interval.Set.Disjoint
import Tvmm.Elf

/-!
# What `load_elf_image` does with the segments of an image

`LoadableImage` is what the segments that the loader accepts need: that they are
read from inside the image and written inside the memory of the VM.  Segments may
overlap.  `LoadLayout.wp_loadSegment` says what one iteration does: it puts its
segment in place, over what earlier ones have put there, and leaves the image alone.
-/

namespace Tvmm

open Exec CInt

/-- The program header at `h` in physical memory. -/
def readPhdr (m : ByteMem) (h : Nat) : ElfPhdr where
  type := UInt32.ofNat (m.readLE h 4)
  offset := UInt32.ofNat (m.readLE (h + 4) 4)
  paddr := UInt32.ofNat (m.readLE (h + 12) 4)
  filesz := UInt32.ofNat (m.readLE (h + 16) 4)
  memsz := UInt32.ofNat (m.readLE (h + 20) 4)
  flags := UInt32.ofNat (m.readLE (h + 24) 4)

/-- The number of program headers of the image at `a`. -/
def imagePhnum (m : ByteMem) (a : Nat) : Nat := m.readLE (a + 44) 2

/-- Where program header `i` lies in the image at `a`. -/
def phdrOffset (m : ByteMem) (a i : Nat) : Nat :=
  m.readLE (a + 28) 4 + i * m.readLE (a + 42) 2

/-- Program header `i` of the image at `a`. -/
def segment (m : ByteMem) (a i : Nat) : ElfPhdr := readPhdr m (a + phdrOffset m a i)

/-- The entry point of the image at `a`. -/
def imageEntry (m : ByteMem) (a : Nat) : UInt32 := UInt32.ofNat (m.readLE (a + 24) 4)

namespace ElfPhdr

/-- What `is_loadable_phdr` tests. -/
def Loadable (p : ElfPhdr) : Prop := p.type = PT_LOAD ∧ p.flags &&& (PF_W ||| PF_X) ≠ 0

instance (p : ElfPhdr) : Decidable p.Loadable := inferInstanceAs (Decidable (_ ∧ _))

/-- The first guest-physical address after the segment. -/
def stop (p : ElfPhdr) : Nat := p.paddr.toNat + p.memsz.toNat

end ElfPhdr

/-- The `n` bytes at `a` are an image whose loadable segments fit into a VM with
`size` bytes of memory. -/
structure LoadableImage (m : ByteMem) (a n size : Nat) : Prop where
  ehdr : EHDR_SIZE ≤ n
  phdr : ∀ i, i < imagePhnum m a → phdrOffset m a i + PHDR_SIZE ≤ n
  filesz : ∀ i, i < imagePhnum m a → (segment m a i).Loadable →
    (segment m a i).filesz ≤ (segment m a i).memsz
  file : ∀ i, i < imagePhnum m a → (segment m a i).Loadable →
    (segment m a i).filesz.toNat ≠ 0 →
    (segment m a i).offset.toNat + (segment m a i).filesz.toNat ≤ n
  room : ∀ i, i < imagePhnum m a → (segment m a i).Loadable →
    (segment m a i).memsz.toNat ≠ 0 → (segment m a i).stop ≤ size

theorem ElfPhdr.Copies.filesz_toNat_ne_zero {p : ElfPhdr} {phdr : UInt64} {s : State}
    (h : p.Copies phdr s) : p.filesz.toNat ≠ 0 :=
  fun hz => h.pos (UInt32.toNat_inj.mp hz)

theorem ElfPhdr.Zeroes.len_toNat_ne_zero {p : ElfPhdr} {phdr : UInt64} {s : State}
    (h : p.Zeroes phdr s) : p.len.toNat ≠ 0 :=
  fun hz => h.pos (UInt32.toNat_inj.mp hz)

/-- All loads of the fields of the header at `phdr` succeed. -/
structure HasPhdr (s : State) (phdr : UInt64) (p : ElfPhdr) : Prop where
  type : pType phdr s = .ok (p.type, s)
  offset : pOffset phdr s = .ok (p.offset, s)
  paddr : pPaddr phdr s = .ok (p.paddr, s)
  filesz : pFilesz phdr s = .ok (p.filesz, s)
  memsz : pMemsz phdr s = .ok (p.memsz, s)
  flags : pFlags phdr s = .ok (p.flags, s)

namespace HasPhdr

variable {s : State} {phdr : UInt64} {p q : ElfPhdr}

theorem isLoadablePhdr (h : HasPhdr s phdr p) :
    isLoadablePhdr phdr s = .ok (decide p.Loadable, s) := by
  rw [Tvmm.isLoadablePhdr, bind_of_ok h.type]
  split_ifs with ht
  · rw [bind_of_ok h.flags]
    show Except.ok (p.flags &&& (PF_W ||| PF_X) != 0, s) = _
    simp [ElfPhdr.Loadable, ht, bne, beq_eq_decide]
  · show Except.ok (false, s) = _
    simp [ElfPhdr.Loadable, ht]

/-- The fields of a copy are those of the header. -/
theorem eq_of_copies (h : HasPhdr s phdr p) (hq : q.Copies phdr s) :
    q.filesz = p.filesz ∧ q.paddr = p.paddr ∧ q.offset = p.offset := by
  have h1 := h.filesz.symm.trans hq.filesz
  have h2 := h.paddr.symm.trans hq.paddr
  have h3 := h.offset.symm.trans hq.offset
  simp only [Except.ok.injEq, Prod.mk.injEq, and_true] at h1 h2 h3
  exact ⟨h1.symm, h2.symm, h3.symm⟩

/-- The fields of a zero fill are those of the header. -/
theorem eq_of_zeroes (h : HasPhdr s phdr p) (hq : q.Zeroes phdr s) :
    q.memsz = p.memsz ∧ q.filesz = p.filesz ∧ q.paddr = p.paddr := by
  have h1 := h.memsz.symm.trans hq.memsz
  have h2 := h.filesz.symm.trans hq.filesz
  have h3 := h.paddr.symm.trans hq.paddr
  simp only [Except.ok.injEq, Prod.mk.injEq, and_true] at h1 h2 h3
  exact ⟨h1.symm, h2.symm, h3.symm⟩

end HasPhdr

/-! ## Reading an image that is mapped -/

section Read

variable {ehdr : UInt64} {a n : Nat}

theorem load32_of_mapped {k : Nat} (h : bootTranslate ehdr n = some a) (hk : k + 4 ≤ n)
    (s : State) : load32 (ehdr + UInt64.ofNat k) s =
      .ok (UInt32.ofNat (s.mem.readLE (a + k) 4), s) :=
  load32_eq_ok.mpr ⟨rfl, _, bootTranslate_add h hk, rfl⟩

theorem load16_of_mapped {k : Nat} (h : bootTranslate ehdr n = some a) (hk : k + 2 ≤ n)
    (s : State) : load16 (ehdr + UInt64.ofNat k) s =
      .ok (UInt16.ofNat (s.mem.readLE (a + k) 2), s) :=
  load16_eq_ok.mpr ⟨rfl, _, bootTranslate_add h hk, rfl⟩

theorem hasPhdr_of_mapped {o : Nat} (h : bootTranslate ehdr n = some a)
    (ho : o + PHDR_SIZE ≤ n) (s : State) :
    HasPhdr s (ehdr + UInt64.ofNat o) (readPhdr s.mem (a + o)) := by
  rw [PHDR_SIZE] at ho
  have hload : ∀ k, k + 4 ≤ 32 → load32 (ehdr + UInt64.ofNat o + UInt64.ofNat k) s =
      .ok (UInt32.ofNat (s.mem.readLE (a + o + k) 4), s) := by
    intro k hk
    rw [UInt64.add_assoc, ← UInt64.ofNat_add, Nat.add_assoc]
    exact load32_of_mapped h (by omega) s
  exact ⟨hload 0 (by decide), hload 4 (by decide), hload 12 (by decide),
    hload 16 (by decide), hload 20 (by decide), hload 24 (by decide)⟩

theorem ePhnum_of_mapped (h : bootTranslate ehdr n = some a) (hn : EHDR_SIZE ≤ n) (s : State) :
    ∃ x, ePhnum ehdr s = .ok (x, s) ∧ x.toNat = imagePhnum s.mem a := by
  rw [EHDR_SIZE] at hn
  refine ⟨_, load16_of_mapped (k := 44) h (by omega) s, ?_⟩
  have := s.mem.readLE_lt (a + 44) 2
  rw [UInt16.toNat_ofNat', imagePhnum]
  omega

theorem eEntry_of_mapped (h : bootTranslate ehdr n = some a) (hn : EHDR_SIZE ≤ n) (s : State) :
    eEntry ehdr s = .ok (imageEntry s.mem a, s) := by
  rw [EHDR_SIZE] at hn
  exact load32_of_mapped (k := 24) h (by omega) s

/-- The product in `get_elf_phdr` does not overflow for a header that lies in
mapped memory. -/
theorem getElfPhdr_of_mapped {i : Nat} {s : State} (h : bootTranslate ehdr n = some a)
    (hn : EHDR_SIZE ≤ n) (hi : phdrOffset s.mem a i < 2 ^ 31) :
    getElfPhdr ehdr (Int32.ofNat i) s =
      .ok (ehdr + UInt64.ofNat (phdrOffset s.mem a i), s) := by
  rw [EHDR_SIZE] at hn
  have hoff := s.mem.readLE_lt (a + 28) 4
  have hent := s.mem.readLE_lt (a + 42) 2
  rw [phdrOffset] at hi
  have hphoff : ePhoff ehdr s = .ok (_, s) := load32_of_mapped (k := 28) h (by omega) s
  have hphentsize : ePhentsize ehdr s = .ok (_, s) :=
    load16_of_mapped (k := 42) h (by omega) s
  have hentsize : (UInt16.ofNat (s.mem.readLE (a + 42) 2)).toNat =
      s.mem.readLE (a + 42) 2 := by
    rw [UInt16.toNat_ofNat', Nat.mod_eq_of_lt (by omega)]
  rw [getElfPhdr, bind_of_ok hphoff, bind_of_ok hphentsize]
  show Except.ok (_, s) = _
  rw [ofUShort_eq, hentsize, ← Int32.ofNat_mul, toULong_ofNat (by omega), add_toUInt64,
    UInt64.add_assoc, ← UInt64.ofNat_add, UInt32.toNat_ofNat', Nat.mod_eq_of_lt (by omega),
    phdrOffset]

end Read

/-! ## The same image in another place -/

/-- The `n` bytes at `a'` in `m'` are those at `a` in `m`. -/
def SameBytes (m' : ByteMem) (a' : Nat) (m : ByteMem) (a n : Nat) : Prop :=
  ∀ k < n, m' (a' + k) = m (a + k)

section Copied

variable {m m' : ByteMem} {a a' n size : Nat}

theorem SameBytes.readLE (h : SameBytes m' a' m a n) {k j : Nat} (hk : k + j ≤ n) :
    m'.readLE (a' + k) j = m.readLE (a + k) j := by
  refine ByteMem.readLE_shift fun i hi => ?_
  rw [Nat.add_assoc, Nat.add_assoc]
  exact h _ (by omega)

theorem SameBytes.imagePhnum (h : SameBytes m' a' m a n) (hn : EHDR_SIZE ≤ n) :
    imagePhnum m' a' = imagePhnum m a :=
  h.readLE (by rw [EHDR_SIZE] at hn; omega)

theorem SameBytes.imageEntry (h : SameBytes m' a' m a n) (hn : EHDR_SIZE ≤ n) :
    imageEntry m' a' = imageEntry m a :=
  congrArg UInt32.ofNat (h.readLE (by rw [EHDR_SIZE] at hn; omega))

theorem SameBytes.phdrOffset (h : SameBytes m' a' m a n) (hn : EHDR_SIZE ≤ n) (i : Nat) :
    phdrOffset m' a' i = phdrOffset m a i := by
  rw [EHDR_SIZE] at hn
  rw [Tvmm.phdrOffset, Tvmm.phdrOffset, h.readLE (by omega), h.readLE (by omega)]

theorem SameBytes.readPhdr (h : SameBytes m' a' m a n) {o : Nat} (ho : o + PHDR_SIZE ≤ n) :
    readPhdr m' (a' + o) = readPhdr m (a + o) := by
  rw [PHDR_SIZE] at ho
  have hfield : ∀ k, k + 4 ≤ 32 → m'.readLE (a' + o + k) 4 = m.readLE (a + o + k) 4 := by
    intro k hk
    rw [Nat.add_assoc, Nat.add_assoc]
    exact h.readLE (by omega)
  rw [Tvmm.readPhdr, Tvmm.readPhdr, hfield 4 (by decide), hfield 12 (by decide),
    hfield 16 (by decide), hfield 20 (by decide), hfield 24 (by decide),
    show m'.readLE (a' + o) 4 = m.readLE (a + o) 4 from hfield 0 (by decide)]

/-- Where the headers are inside the image, they are copied with it. -/
theorem SameBytes.segments (h : SameBytes m' a' m a n) (hn : EHDR_SIZE ≤ n)
    (hphdr : ∀ i, i < Tvmm.imagePhnum m a → Tvmm.phdrOffset m a i + PHDR_SIZE ≤ n) :
    Tvmm.imagePhnum m' a' = Tvmm.imagePhnum m a ∧
      ∀ i, i < Tvmm.imagePhnum m a → segment m' a' i = segment m a i := by
  refine ⟨h.imagePhnum hn, fun i hi => ?_⟩
  rw [segment, segment, h.phdrOffset hn, h.readPhdr (hphdr i hi)]

/-- A copy of a loadable image has the same segments, and is loadable. -/
theorem LoadableImage.copied (hl : LoadableImage m a n size) (h : SameBytes m' a' m a n) :
    imagePhnum m' a' = imagePhnum m a ∧
      (∀ i, i < imagePhnum m a → segment m' a' i = segment m a i) ∧
      LoadableImage m' a' n size := by
  obtain ⟨hnum, hseg⟩ := h.segments hl.ehdr hl.phdr
  refine ⟨hnum, hseg, hl.ehdr, fun i hi => ?_, fun i hi => ?_, fun i hi => ?_, fun i hi => ?_⟩
  · rw [h.phdrOffset hl.ehdr]
    exact hl.phdr i (hnum ▸ hi)
  · rw [hseg i (hnum ▸ hi)]
    exact hl.filesz i (hnum ▸ hi)
  · rw [hseg i (hnum ▸ hi)]
    exact hl.file i (hnum ▸ hi)
  · rw [hseg i (hnum ▸ hi)]
    exact hl.room i (hnum ▸ hi)

end Copied

/-! ## The headers do not change while they are read -/

section Congr

variable {m m' : ByteMem} {a n : Nat}

theorem SameBytes.of_eqOn (h : Set.EqOn m' m (Set.Ico a (a + n))) : SameBytes m' a m a n :=
  fun _ hk => h (Set.mem_Ico.mpr ⟨Nat.le_add_right _ _, Nat.add_lt_add_left hk a⟩)

theorem imagePhnum_congr (h : Set.EqOn m' m (Set.Ico a (a + n))) (hn : EHDR_SIZE ≤ n) :
    imagePhnum m' a = imagePhnum m a :=
  (SameBytes.of_eqOn h).imagePhnum hn

theorem imageEntry_congr (h : Set.EqOn m' m (Set.Ico a (a + n))) (hn : EHDR_SIZE ≤ n) :
    imageEntry m' a = imageEntry m a :=
  (SameBytes.of_eqOn h).imageEntry hn

theorem phdrOffset_congr (h : Set.EqOn m' m (Set.Ico a (a + n))) (hn : EHDR_SIZE ≤ n)
    (i : Nat) : phdrOffset m' a i = phdrOffset m a i :=
  (SameBytes.of_eqOn h).phdrOffset hn i

theorem readPhdr_congr (h : Set.EqOn m' m (Set.Ico a (a + n))) {o : Nat}
    (ho : o + PHDR_SIZE ≤ n) : readPhdr m' (a + o) = readPhdr m (a + o) :=
  (SameBytes.of_eqOn h).readPhdr ho

end Congr

/-! ## One iteration -/

/-- What is mapped of `[v, v + n)` lies in `[a, a + n)`. -/
def MapsTo (v : UInt64) (n a : Nat) : Prop :=
  ∀ k j c, j ≠ 0 → k + j ≤ n → bootTranslate (v + UInt64.ofNat k) j = some c → c = a + k

theorem Mapped.mapsTo {v : UInt64} {n a : Nat} (h : Mapped v n a) : MapsTo v n a := by
  intro k j c hj hk hc
  rw [bootTranslate_add (h (by omega)) hk] at hc
  exact (Option.some.inj hc).symm

theorem MapsTo.physBytes_subset {v : UInt64} {n a : Nat} (h : MapsTo v n a) :
    physBytes v n ⊆ Set.Ico a (a + n) := by
  rintro x ⟨k, hk, hx⟩
  obtain rfl := h k 1 x (by decide) (by omega) hx
  exact Set.mem_Ico.mpr ⟨by omega, by omega⟩

theorem Mapped.physBytes_subset {v : UInt64} {n a : Nat} (h : Mapped v n a) :
    physBytes v n ⊆ Set.Ico a (a + n) :=
  h.mapsTo.physBytes_subset

/-- An image of `n` bytes at `a`, apart from the `size` bytes at `b` that belong to the
VM, as the loader sees them. -/
structure LoadLayout (ehdr start : UInt64) (a n b size : Nat) (s : State) : Prop where
  loadable : LoadableImage s.mem a n size
  image : bootTranslate ehdr n = some a
  vm : MapsTo start size b
  apart : Disjoint (Set.Ico a (a + n)) (Set.Ico b (b + size))

namespace ElfPhdr

/-- The segment of an image at `a` in `m` is in place in the memory `m'` of a VM at
`b`. -/
def Placed (m : ByteMem) (a b : Nat) (p : ElfPhdr) (m' : ByteMem) : Prop :=
  ∀ k, k < p.memsz.toNat → m' (b + p.paddr.toNat + k) =
    if k < p.filesz.toNat then m (a + p.offset.toNat + k) else 0

/-- The bytes of the segment in the memory of a VM at `b`. -/
def bytesAt (b : Nat) (p : ElfPhdr) : Set Nat := Set.Ico (b + p.paddr.toNat) (b + p.stop)

end ElfPhdr

namespace LoadLayout

variable {E : Stop → Prop} {ehdr start : UInt64} {a n b size i : Nat} {s s' : State}

theorem image_eqOn (h : LoadLayout ehdr start a n b size s)
    (hs : OnlyWrites (Set.Ico b (b + size)) s s') :
    Set.EqOn s'.mem s.mem (Set.Ico a (a + n)) :=
  hs.eqOn h.apart.symm

theorem accessible_ehdr (h : LoadLayout ehdr start a n b size s) :
    Accessible E ehdr EHDR_SIZE := by
  have hn := h.loadable.ehdr
  have := bootTranslate_add (k := 0) (j := EHDR_SIZE) h.image (by omega)
  rw [show UInt64.ofNat 0 = 0 from rfl, UInt64.add_zero] at this
  exact Or.inl ⟨_, fun _ => this⟩

/-- The headers that the loader finds are those of the image. -/
theorem hasPhdr (h : LoadLayout ehdr start a n b size s)
    (hs : OnlyWrites (Set.Ico b (b + size)) s s') (hi : i < imagePhnum s.mem a) :
    getElfPhdr ehdr (Int32.ofNat i) s' =
        .ok (ehdr + UInt64.ofNat (phdrOffset s.mem a i), s') ∧
      HasPhdr s' (ehdr + UInt64.ofNat (phdrOffset s.mem a i)) (segment s.mem a i) := by
  have himage := h.image_eqOn hs
  have hphdr := h.loadable.phdr i hi
  have hn := bootTranslate_le h.image
  have hoff := phdrOffset_congr himage h.loadable.ehdr i
  constructor
  · have := getElfPhdr_of_mapped (s := s') (i := i) h.image h.loadable.ehdr
      (by rw [hoff]; omega)
    rwa [hoff] at this
  · have := hasPhdr_of_mapped h.image hphdr s'
    rwa [readPhdr_congr himage hphdr] at this

theorem accessible_phdr (h : LoadLayout ehdr start a n b size s)
    (hi : i < imagePhnum s.mem a) :
    Accessible E (ehdr + UInt64.ofNat (phdrOffset s.mem a i)) PHDR_SIZE :=
  Or.inl ⟨_, fun _ => bootTranslate_add h.image (h.loadable.phdr i hi)⟩

/-- A loadable segment lies in the memory of the VM. -/
theorem bytesAt_subset (h : LoadLayout ehdr start a n b size s)
    (hi : i < imagePhnum s.mem a) (hl : (segment s.mem a i).Loadable) :
    (segment s.mem a i).bytesAt b ⊆ Set.Ico b (b + size) := by
  have hroom := h.loadable.room i hi hl
  rw [ElfPhdr.stop] at hroom
  intro x hx
  rw [ElfPhdr.bytesAt, ElfPhdr.stop, Set.mem_Ico] at hx
  rw [Set.mem_Ico]
  omega

/-- The copy of the file bytes of a segment. -/
theorem wp_copySegment (h : LoadLayout ehdr start a n b size s)
    (hs : OnlyWrites (Set.Ico b (b + size)) s s') (hi : i < imagePhnum s.mem a)
    (hl : (segment s.mem a i).Loadable) (hE : Accessible E start size) :
    wp (copySegment ehdr start (ehdr + UInt64.ofNat (phdrOffset s.mem a i)))
      (fun _ s₁ => OnlyWrites ((segment s.mem a i).bytesAt b) s' s₁ ∧
        ∀ k, k < (segment s.mem a i).filesz.toNat →
          s₁.mem (b + (segment s.mem a i).paddr.toNat + k) =
            s.mem (a + (segment s.mem a i).offset.toNat + k)) E s' := by
  obtain ⟨-, hphdr⟩ := h.hasPhdr hs hi
  have hfile := h.loadable.file i hi hl
  have hfilesz := UInt32.le_iff_toNat_le.mp (h.loadable.filesz i hi hl)
  have hroom := h.loadable.room i hi hl
  have himage := h.image_eqOn hs
  rw [ElfPhdr.stop] at hroom
  refine Tvmm.wp_copySegment (h.accessible_phdr hi) (fun c hc => ?_) (fun hz => ?_) ?_
  · obtain ⟨h1, h2, h3⟩ := hphdr.eq_of_copies hc
    have hpos := hc.filesz_toNat_ne_zero
    rw [h1] at hpos
    rw [h1, h2, h3, add_toUInt64, add_toUInt64]
    exact ⟨hE.part (by omega), Or.inl ⟨_, fun _ => bootTranslate_add h.image (hfile hpos)⟩⟩
  · have := hphdr.filesz.symm.trans hz
    simp only [Except.ok.injEq, Prod.mk.injEq, and_true] at this
    refine ⟨OnlyWrites.refl _ _, fun k hk => ?_⟩
    rw [this] at hk
    exact absurd hk (Nat.not_lt_zero k)
  · intro c pd ps s₁ hc hpd hps hcopied
    obtain ⟨h1, h2, h3⟩ := hphdr.eq_of_copies hc
    have hpos := hc.filesz_toNat_ne_zero
    rw [h1] at hpos
    rw [h1, h2, add_toUInt64] at hpd
    rw [h1, h3, add_toUInt64] at hps
    rw [h1] at hcopied
    obtain rfl := h.vm _ _ _ hpos (by omega) (hpd hpos)
    obtain rfl := Option.some.inj 
      ((bootTranslate_add h.image (hfile hpos)).symm.trans (hps hpos))
    have hapart := Set.Ico_disjoint_Ico.mp h.apart
    have hcopy := hcopied.copy (Or.inr (by omega))
    refine ⟨hcopied.only.mono (Set.Ico_subset_Ico_right ?_), fun k hk => ?_⟩
    · rw [ElfPhdr.stop]
      omega
    · rw [hcopy]
      show ByteMem.copy _ _ _ _ _ = _
      rw [ByteMem.copy_add hk]
      refine himage (Set.mem_Ico.mpr ?_)
      omega

/-- The zero fill of a segment. -/
theorem wp_zeroSegment (h : LoadLayout ehdr start a n b size s)
    (hs : OnlyWrites (Set.Ico b (b + size)) s s') (hi : i < imagePhnum s.mem a)
    (hl : (segment s.mem a i).Loadable) (hE : Accessible E start size)
    (hfilebytes : ∀ k, k < (segment s.mem a i).filesz.toNat →
      s'.mem (b + (segment s.mem a i).paddr.toNat + k) =
        s.mem (a + (segment s.mem a i).offset.toNat + k)) :
    wp (zeroSegment start (ehdr + UInt64.ofNat (phdrOffset s.mem a i)))
      (fun _ s₁ => OnlyWrites ((segment s.mem a i).bytesAt b) s' s₁ ∧
        (segment s.mem a i).Placed s.mem a b s₁.mem) E s' := by
  obtain ⟨-, hphdr⟩ := h.hasPhdr hs hi
  have hfilesz := h.loadable.filesz i hi hl
  have hle := UInt32.le_iff_toNat_le.mp hfilesz
  have hroom := h.loadable.room i hi hl
  have hlen : (segment s.mem a i).len.toNat =
      (segment s.mem a i).memsz.toNat - (segment s.mem a i).filesz.toNat :=
    UInt32.toNat_sub_of_le _ _ hfilesz
  rw [ElfPhdr.stop] at hroom
  have heq : ∀ c : ElfPhdr, c.Zeroes (ehdr + UInt64.ofNat (phdrOffset s.mem a i)) s' →
      c.len = (segment s.mem a i).len ∧
      start + c.paddr.toUInt64 + c.filesz.toUInt64 = start + UInt64.ofNat
        ((segment s.mem a i).paddr.toNat +
          (segment s.mem a i).filesz.toNat) := by
    intro c hc
    obtain ⟨h1, h2, h3⟩ := hphdr.eq_of_zeroes hc
    refine ⟨by rw [ElfPhdr.len, ElfPhdr.len, h1, h2], ?_⟩
    rw [add_toUInt64_add_toUInt64, h2, h3]
  refine Tvmm.wp_zeroSegment (h.accessible_phdr hi) (fun c hc => ?_) (fun x hm hf => ?_) ?_
  · obtain ⟨h1, h2⟩ := heq c hc
    have hpos := hc.len_toNat_ne_zero
    rw [h1, hlen] at hpos
    rw [h1, h2, hlen]
    exact hE.part (by omega)
  · have h1 := hphdr.memsz.symm.trans hm
    have h2 := hphdr.filesz.symm.trans hf
    simp only [Except.ok.injEq, Prod.mk.injEq, and_true] at h1 h2
    refine ⟨OnlyWrites.refl _ _, fun k hk => ?_⟩
    rw [h1, ← h2] at hk
    rw [if_pos hk]
    exact hfilebytes k hk
  · intro c pd hc hpd
    obtain ⟨h1, h2⟩ := heq c hc
    have hpos := hc.len_toNat_ne_zero
    rw [h1, hlen] at hpos hpd ⊢
    rw [h2] at hpd
    obtain rfl := h.vm _ _ _ hpos (by omega) (hpd hpos)
    refine ⟨OnlyWrites.of_mem ((ByteMem.eqOn_fill _ _ _ _).mono ?_), fun k hk => ?_⟩
    · refine Set.compl_subset_compl.mpr (Set.Ico_subset_Ico (by omega) ?_)
      rw [ElfPhdr.stop]
      omega
    · show ByteMem.fill _ _ _ _ _ = _
      split_ifs with hkf
      · rw [ByteMem.fill_of_notMem (by rw [Set.mem_Ico]; omega)]
        exact hfilebytes k hkf
      · exact ByteMem.fill_of_mem (Set.mem_Ico.mpr (by omega))

/-- One iteration puts its segment in place, if the segment is loadable. -/
theorem wp_loadSegment (h : LoadLayout ehdr start a n b size s)
    (hs : OnlyWrites (Set.Ico b (b + size)) s s') (hi : i ≤ 65535)
    (hE : Accessible E start size) :
    wp (loadSegment ehdr start (Int32.ofNat i)) (fun r s₁ =>
      match r with
      | .inl j => j = Int32.ofNat (i + 1) ∧ i < imagePhnum s.mem a ∧
          (s₁ = s' ∧ ¬(segment s.mem a i).Loadable ∨
            OnlyWrites ((segment s.mem a i).bytesAt b) s' s₁ ∧
              (segment s.mem a i).Placed s.mem a b s₁.mem ∧
              (segment s.mem a i).Loadable)
      | .inr _ => s₁ = s' ∧ imagePhnum s.mem a ≤ i) E s' := by
  have hphnum : ∀ x, ePhnum ehdr s' = .ok (x, s') →
      x.toNat = imagePhnum s.mem a := by
    intro x hx
    obtain ⟨y, hy, hyn⟩ := ePhnum_of_mapped h.image h.loadable.ehdr s'
    have := hx.symm.trans hy
    simp only [Except.ok.injEq, Prod.mk.injEq, and_true] at this
    rw [this, hyn, imagePhnum_congr (h.image_eqOn hs) h.loadable.ehdr]
  refine Tvmm.wp_loadSegment hi h.accessible_ehdr (fun x hx hle => ⟨rfl, hphnum x hx ▸ hle⟩) ?_
  intro x phdr hx hlt hget
  rw [hphnum x hx] at hlt
  obtain ⟨hget', hphdr⟩ := h.hasPhdr hs hlt
  obtain rfl : phdr = ehdr + UInt64.ofNat (phdrOffset s.mem a i) := by
    have := hget.symm.trans hget'
    simp only [Except.ok.injEq, Prod.mk.injEq, and_true] at this
    exact this
  refine ⟨h.accessible_phdr hlt, fun hskip => ⟨rfl, hlt, Or.inl ⟨rfl, ?_⟩⟩, fun haccepts => ?_⟩
  · have := hphdr.isLoadablePhdr.symm.trans hskip
    simpa using this
  · have hl : (segment s.mem a i).Loadable := by
      have := hphdr.isLoadablePhdr.symm.trans haccepts.loadable
      simpa using this
    refine wp_imp (h.wp_copySegment hs hlt hl hE) ?_
    rintro _ s₁ ⟨h₁, hfile⟩
    have hs₁ := hs.trans (h₁.mono (h.bytesAt_subset hlt hl))
    refine wp_imp (h.wp_zeroSegment hs₁ hlt hl hE hfile) ?_
    rintro _ s₂ ⟨h₂, hplace⟩
    exact ⟨rfl, hlt, Or.inr ⟨h₁.trans h₂, hplace, hl⟩⟩

/-- The iterations that a load makes. -/
theorem reaches (h : LoadLayout ehdr start a n b size s) {i₀ : Int32}
    (hreach : Reaches (loadSegment ehdr start) 0 s i₀ s') :
    ∃ i, i ≤ 65535 ∧ i₀ = Int32.ofNat i ∧ OnlyWrites (Set.Ico b (b + size)) s s' := by
  have hE : Accessible (fun _ => True) start size := Or.inr fun _ => trivial
  induction hreach with
  | start => exact ⟨0, by decide, rfl, OnlyWrites.refl _ _⟩
  | next _ hstep ih =>
    obtain ⟨i, hi, rfl, hs⟩ := ih
    obtain ⟨rfl, hlt, hw⟩ := wp_ok (h.wp_loadSegment hs hi hE) hstep
    have := s.mem.readLE_lt (a + 44) 2
    refine ⟨i + 1, by rw [imagePhnum] at hlt; omega, rfl, ?_⟩
    rcases hw with ⟨rfl, -⟩ | ⟨hw, -, hl⟩
    · exact hs
    · exact hs.trans (hw.mono (h.bytesAt_subset hlt hl))

theorem lt_phnum (h : LoadLayout ehdr start a n b size s)
    (hs : OnlyWrites (Set.Ico b (b + size)) s s')
    (hi : i ≤ 65535) {x : UInt16} (hx : ePhnum ehdr s' = .ok (x, s'))
    (hlt : Int32.ofNat i < ofUShort x) : i < imagePhnum s.mem a := by
  obtain ⟨y, hy, hyn⟩ := ePhnum_of_mapped h.image h.loadable.ehdr s'
  have := hx.symm.trans hy
  simp only [Except.ok.injEq, Prod.mk.injEq, and_true] at this
  rwa [this, ofNat_lt_ofUShort (by omega), hyn,
    imagePhnum_congr (h.image_eqOn hs) h.loadable.ehdr] at hlt

theorem phdr_eq (h : LoadLayout ehdr start a n b size s)
    (hs : OnlyWrites (Set.Ico b (b + size)) s s')
    (hi : i < imagePhnum s.mem a) {phdr : UInt64}
    (hget : getElfPhdr ehdr (Int32.ofNat i) s' = .ok (phdr, s')) :
    phdr = ehdr + UInt64.ofNat (phdrOffset s.mem a i) := by
  have := hget.symm.trans (h.hasPhdr hs hi).1
  simp only [Except.ok.injEq, Prod.mk.injEq, and_true] at this
  exact this

/-- The headers that an iteration accepts are loadable segments of the image. -/
theorem accepts (h : LoadLayout ehdr start a n b size s)
    (hs : OnlyWrites (Set.Ico b (b + size)) s s')
    (hi : i ≤ 65535) {phdr : UInt64} (haccepts : Accepts ehdr (Int32.ofNat i) phdr s') :
    i < imagePhnum s.mem a ∧
      phdr = ehdr + UInt64.ofNat (phdrOffset s.mem a i) ∧
      (segment s.mem a i).Loadable := by
  obtain ⟨x, hx, hlt⟩ := haccepts.phnum
  have hi' := h.lt_phnum hs hi hx hlt
  obtain rfl := h.phdr_eq hs hi' haccepts.header
  have hl := (h.hasPhdr hs hi').2.isLoadablePhdr.symm.trans haccepts.loadable
  exact ⟨hi', rfl, by simpa using hl⟩

/-- The headers of such an image fit. -/
theorem headersFit (h : LoadLayout ehdr start a n b size s) : HeadersFit ehdr start size s := by
  have hn := h.loadable.ehdr
  have hvm := h.vm.physBytes_subset
  have himage : physBytes ehdr n ⊆ Set.Ico a (a + n) :=
    Mapped.physBytes_subset fun _ => h.image
  have hpart : ∀ k j, k + j ≤ n →
      Disjoint (physBytes (ehdr + UInt64.ofNat k) j) (physBytes start size) := fun k j hk =>
    h.apart.mono ((physBytes_part hk).trans himage) hvm
  have hs := OnlyWrites.refl (Set.Ico b (b + size)) s
  constructor
  · have := hpart 0 EHDR_SIZE (by omega)
    rwa [show UInt64.ofNat 0 = 0 from rfl, UInt64.add_zero] at this
  · intro k hk x phdr hx hlt hget
    have hlt' := h.lt_phnum hs hk hx hlt
    obtain rfl := h.phdr_eq hs hlt' hget
    exact hpart _ _ (h.loadable.phdr k hlt')
  · intro k hk phdr haccepts c hc
    obtain ⟨hlt, rfl, hl⟩ := h.accepts hs hk haccepts
    obtain ⟨h1, h2, -⟩ := (h.hasPhdr hs hlt).2.eq_of_copies hc
    have hle := UInt32.le_iff_toNat_le.mp (h.loadable.filesz k hlt hl)
    have hroom := h.loadable.room k hlt hl
    have hpos := hc.filesz_toNat_ne_zero
    rw [ElfPhdr.stop] at hroom
    rw [h1] at hpos
    rw [h1, h2]
    omega
  · intro k hk phdr haccepts c hc
    obtain ⟨hlt, rfl, hl⟩ := h.accepts hs hk haccepts
    obtain ⟨h1, h2, h3⟩ := (h.hasPhdr hs hlt).2.eq_of_zeroes hc
    have hfilesz := h.loadable.filesz k hlt hl
    have hle := UInt32.le_iff_toNat_le.mp hfilesz
    have hroom := h.loadable.room k hlt hl
    have hlen : (segment s.mem a k).len.toNat =
        (segment s.mem a k).memsz.toNat - (segment s.mem a k).filesz.toNat :=
      UInt32.toNat_sub_of_le _ _ hfilesz
    have hpos := hc.len_toNat_ne_zero
    rw [ElfPhdr.stop] at hroom
    rw [show c.len = (segment s.mem a k).len by
      rw [ElfPhdr.len, ElfPhdr.len, h1, h2], hlen] at *
    rw [h2, h3]
    omega

/-- In a load of such an image every segment fits when its turn comes. -/
theorem segmentFits (h : LoadLayout ehdr start a n b size s) {i₀ : Int32}
    (hreach : Reaches (loadSegment ehdr start) 0 s i₀ s') :
    SegmentFits ehdr start size i₀ s' := by
  obtain ⟨k, hk, rfl, hw⟩ := h.headersFit.reaches hreach
  exact h.headersFit.segmentFits hw hk

/-- The rule of a load, for an invariant over the number of headers that are done. -/
theorem wp_loadElfImage (h : LoadLayout ehdr start a n b size s) {imageSize : UInt64}
    (hE : Accessible E start size) (I : Nat → State → Prop) (h0 : I 0 s)
    (skip : ∀ k s₁, ¬(segment s.mem a k).Loadable → I k s₁ → I (k + 1) s₁)
    (load : ∀ k s₁ s₂, k < imagePhnum s.mem a → (segment s.mem a k).Loadable →
      OnlyWrites ((segment s.mem a k).bytesAt b) s₁ s₂ →
      (segment s.mem a k).Placed s.mem a b s₂.mem → I k s₁ → I (k + 1) s₂) :
    wp (loadElfImage ehdr imageSize start) (fun entry s' =>
      entry = (imageEntry s.mem a).toUInt64 ∧ OnlyWrites (Set.Ico b (b + size)) s s' ∧
        I (imagePhnum s.mem a) s') E s := by
  refine Tvmm.wp_loadElfImage (fun k s' => k ≤ imagePhnum s.mem a ∧
    OnlyWrites (Set.Ico b (b + size)) s s' ∧ I k s')
    ⟨Nat.zero_le _, OnlyWrites.refl _ _, h0⟩ h.accessible_ehdr ?_
  rintro k s₁ hk - ⟨hkn, hs, hI⟩
  refine wp_imp (h.wp_loadSegment hs hk hE) ?_
  rintro (j | _) s₂ hr
  · obtain ⟨rfl, hlt, hstep⟩ := hr
    have := s.mem.readLE_lt (a + 44) 2
    refine ⟨by rw [imagePhnum] at hlt; omega, rfl, hlt, ?_⟩
    rcases hstep with ⟨rfl, hl⟩ | ⟨hw, hplaced, hl⟩
    · exact ⟨hs, skip k s₂ hl hI⟩
    · exact ⟨hs.trans (hw.mono (h.bytesAt_subset hlt hl)), load k s₁ s₂ hlt hl hw hplaced hI⟩
  · obtain ⟨rfl, hle⟩ := hr
    intro entry hentry
    have := (eEntry_of_mapped h.image h.loadable.ehdr s₂).symm.trans hentry
    simp only [Except.ok.injEq, Prod.mk.injEq, and_true] at this
    rw [← this, imageEntry_congr (h.image_eqOn hs) h.loadable.ehdr]
    exact ⟨rfl, hs, Nat.le_antisymm hkn hle ▸ hI⟩

end LoadLayout

end Tvmm
