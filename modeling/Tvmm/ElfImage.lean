import Tvmm.AllocInv
import Tvmm.ElfLoad

/-!
# Loading a well-formed image

`WellFormedImage` is a static condition on the bytes of an ELF32 image: the
program headers and the file ranges lie inside the image, the segments lie
inside the memory of the VM and do not overlap.  `wp_loadElfImage_image` says
that the loader then puts every loadable segment where its header says, and
`segmentFits_of_wellFormed` that such an image meets the condition of every
iteration.
-/

namespace Tvmm

open Exec CInt

/-- The `n` bytes at `a` are an ELF32 image for a VM with `size` bytes of
memory. -/
structure WellFormedImage (m : ByteMem) (a n size : Nat) : Prop where
  ehdr : EHDR_SIZE ≤ n
  phdr : ∀ i, i < imagePhnum m a → phdrOffset m a i + PHDR_SIZE ≤ n
  filesz : ∀ i, i < imagePhnum m a → (segment m a i).type = PT_LOAD →
    (segment m a i).filesz ≤ (segment m a i).memsz
  file : ∀ i, i < imagePhnum m a → (segment m a i).type = PT_LOAD →
    (segment m a i).offset.toNat + (segment m a i).filesz.toNat ≤ n
  room : ∀ i, i < imagePhnum m a → (segment m a i).type = PT_LOAD →
    (segment m a i).stop ≤ size
  disjoint : ∀ i j, i < j → j < imagePhnum m a → (segment m a i).type = PT_LOAD →
    (segment m a j).type = PT_LOAD → (segment m a i).stop ≤ (segment m a j).paddr.toNat ∨
      (segment m a j).stop ≤ (segment m a i).paddr.toNat

theorem WellFormedImage.loadable {m : ByteMem} {a n size : Nat}
    (h : WellFormedImage m a n size) : LoadableImage m a n size where
  ehdr := h.ehdr
  phdr := h.phdr
  filesz := fun i hi hl => h.filesz i hi hl.1
  file := fun i hi hl _ => h.file i hi hl.1
  room := fun i hi hl _ => h.room i hi hl.1

/-- A copy of a well-formed image has the same segments, and is well formed. -/
theorem WellFormedImage.copied {m m' : ByteMem} {a a' n size : Nat}
    (hwf : WellFormedImage m a n size) (h : SameBytes m' a' m a n) :
    imagePhnum m' a' = imagePhnum m a ∧
      (∀ i, i < imagePhnum m a → segment m' a' i = segment m a i) ∧
      WellFormedImage m' a' n size := by
  obtain ⟨hnum, hseg, hl⟩ := hwf.loadable.copied h
  refine ⟨hnum, hseg, hl.ehdr, hl.phdr, fun i hi => ?_, fun i hi => ?_, fun i hi => ?_,
    fun i j hij hj => ?_⟩
  · rw [hseg i (hnum ▸ hi)]
    exact hwf.filesz i (hnum ▸ hi)
  · rw [hseg i (hnum ▸ hi)]
    exact hwf.file i (hnum ▸ hi)
  · rw [hseg i (hnum ▸ hi)]
    exact hwf.room i (hnum ▸ hi)
  · rw [hseg i (by omega), hseg j (hnum ▸ hj)]
    exact hwf.disjoint i j hij (hnum ▸ hj)

/-- A copy at the same place. -/
theorem WellFormedImage.congr {m m' : ByteMem} {a n size : Nat} (hm : WellFormedImage m a n size)
    (h : Set.EqOn m' m (Set.Ico a (a + n))) :
    imagePhnum m' a = imagePhnum m a ∧
      (∀ i, i < imagePhnum m a → segment m' a i = segment m a i) ∧
      WellFormedImage m' a n size :=
  hm.copied (.of_eqOn h)

/-! ## The loader over a well-formed image -/

/-- A well-formed image of `n` bytes at `p` in mapped memory, apart from the
`size` bytes at `q` that belong to the VM. -/
structure ImageLayout (p : UInt64) (n : Nat) (q : UInt64) (size : Nat) (s : State) :
    Prop where
  wellFormed : WellFormedImage s.mem p.toNat n size
  image : p.toNat + n ≤ 1073741824
  room : q.toNat + size ≤ 2 ^ 46
  apart : Disjoint (Set.Ico p.toNat (p.toNat + n)) (Set.Ico q.toNat (q.toNat + size))

/-- Segment `i` of the image at `p` in `s` is in place in `s'`. -/
def InPlace (s : State) (p q : UInt64) (i : Nat) (s' : State) : Prop :=
  ∀ k, k < (segment s.mem p.toNat i).memsz.toNat →
    s'.mem (q.toNat + (segment s.mem p.toNat i).paddr.toNat + k) =
      if k < (segment s.mem p.toNat i).filesz.toNat then
        s.mem (p.toNat + (segment s.mem p.toNat i).offset.toNat + k)
      else 0

/-- The bytes of segment `i` in the memory of the VM at `q`. -/
def segmentBytes (s : State) (p q : UInt64) (i : Nat) : Set Nat :=
  Set.Ico (q.toNat + (segment s.mem p.toNat i).paddr.toNat)
    (q.toNat + (segment s.mem p.toNat i).stop)

section Load

variable {E : Stop → Prop} {p q : UInt64} {n size : Nat} {s s' : State} {i : Nat}

/-- The bytes of the memory of the VM. -/
abbrev vmBytes (q : UInt64) (size : Nat) : Set Nat := Set.Ico q.toNat (q.toNat + size)

theorem mapsTo_VIRT (hq : q.toNat + size ≤ 2 ^ 46) : MapsTo (VIRT q) size q.toNat := by
  intro k j c _ hk h
  rw [bootTranslate_eq_some, UInt64.toNat_add, toNat_VIRT, UInt64.toNat_ofNat'] at h
  omega

theorem ImageLayout.loadLayout (h : ImageLayout p n q size s) :
    LoadLayout (VIRT p) (VIRT q) p.toNat n q.toNat size s :=
  ⟨h.wellFormed.loadable, bootTranslate_VIRT h.image, mapsTo_VIRT h.room, h.apart⟩

/-- A write outside a segment leaves it in place. -/
theorem InPlace.of_onlyWrites {s₁ s₂ : State} {X : Set Nat} (h : InPlace s p q i s₁)
    (hw : OnlyWrites X s₁ s₂) (hX : Disjoint X (segmentBytes s p q i)) :
    InPlace s p q i s₂ := by
  intro k hk
  rw [← h k hk]
  refine hw.eqOn hX ?_
  rw [segmentBytes, Set.mem_Ico, ElfPhdr.stop]
  omega

theorem segmentBytes_disjoint {a j : Nat} (h : ImageLayout p n q size s)
    (hi : a < imagePhnum s.mem p.toNat) (hj : j < imagePhnum s.mem p.toNat) (hne : a ≠ j)
    (hil : (segment s.mem p.toNat a).Loadable)
    (hjl : (segment s.mem p.toNat j).Loadable) :
    Disjoint (segmentBytes s p q a) (segmentBytes s p q j) := by
  rw [segmentBytes, segmentBytes, Set.Ico_disjoint_Ico]
  rcases Nat.lt_or_gt_of_ne hne with hlt | hlt
  · have := h.wellFormed.disjoint a j hlt hj hil.1 hjl.1
    omega
  · have := h.wellFormed.disjoint j a hlt hi hjl.1 hil.1
    omega

/-- The loader puts every loadable segment in place, and writes nothing
else. -/
theorem wp_loadElfImage_image {imageSize : UInt64} (h : ImageLayout p n q size s)
    (hE : Accessible E (VIRT q) size) :
    wp (loadElfImage (VIRT p) imageSize (VIRT q)) (fun entry s' =>
      entry = (imageEntry s.mem p.toNat).toUInt64 ∧ OnlyWrites (vmBytes q size) s s' ∧
      ∀ i, i < imagePhnum s.mem p.toNat → (segment s.mem p.toNat i).Loadable →
        InPlace s p q i s') E s := by
  refine wp_imp (h.loadLayout.wp_loadElfImage hE (fun k s' => ∀ i, i < k →
    i < imagePhnum s.mem p.toNat → (segment s.mem p.toNat i).Loadable → InPlace s p q i s')
    (fun i hi => absurd hi (Nat.not_lt_zero i)) ?_ ?_) fun _ _ ⟨he, hs, hplace⟩ =>
      ⟨he, hs, fun i hi => hplace i hi hi⟩
  · intro k s₁ hl hplace i hi hi' hil
    rcases Nat.lt_succ_iff_lt_or_eq.mp hi with hi | rfl
    · exact hplace i hi hi' hil
    · exact absurd hil hl
  · intro k s₁ s₂ hlt hl hw hplaced hplace i hi hi' hil
    rcases Nat.lt_succ_iff_lt_or_eq.mp hi with hi | rfl
    · exact (hplace i hi hi' hil).of_onlyWrites hw
        (segmentBytes_disjoint h hlt hi' (by omega) hl hil)
    · exact hplaced

/-- In a load of a well-formed image every segment fits when its turn comes. -/
theorem segmentFits_of_wellFormed (h : ImageLayout p n q size s) {i₀ : Int32}
    (hreach : Reaches (loadSegment (VIRT p) (VIRT q)) 0 s i₀ s') :
    SegmentFits (VIRT p) (VIRT q) size i₀ s' :=
  h.loadLayout.segmentFits hreach

end Load

/-! ## A sample image -/

/-- An image at 8 MB with one program header.  The rest of memory is zero. -/
def sampleElf (p : ElfPhdr) : ByteMem :=
  let m : ByteMem := fun _ => 0
  let m := m.writeLE (0x800000 + 24) 4 0x200000 -- e_entry
  let m := m.writeLE (0x800000 + 28) 4 52 -- e_phoff
  let m := m.writeLE (0x800000 + 42) 2 32 -- e_phentsize
  let m := m.writeLE (0x800000 + 44) 2 1 -- e_phnum
  let m := m.writeLE (0x800000 + 52) 4 p.type.toNat
  let m := m.writeLE (0x800000 + 52 + 4) 4 p.offset.toNat
  let m := m.writeLE (0x800000 + 52 + 12) 4 p.paddr.toNat
  let m := m.writeLE (0x800000 + 52 + 16) 4 p.filesz.toNat
  let m := m.writeLE (0x800000 + 52 + 20) 4 p.memsz.toNat
  m.writeLE (0x800000 + 52 + 24) 4 p.flags.toNat

theorem sampleElf_header (p : ElfPhdr) : imagePhnum (sampleElf p) 0x800000 = 1 ∧
    phdrOffset (sampleElf p) 0x800000 0 = 52 := by
  simp (disch := omega) only [imagePhnum, phdrOffset, sampleElf, ByteMem.readLE_writeLE,
    ByteMem.readLE_writeLE_of_disjoint]
  decide

theorem sampleElf_segment (p : ElfPhdr) : segment (sampleElf p) 0x800000 0 = p := by
  have hfield : ∀ x : UInt32, UInt32.ofNat (x.toNat % 256 ^ 4) = x := by
    intro x
    have := x.toNat_lt
    rw [Nat.mod_eq_of_lt (by omega), UInt32.ofNat_toNat]
  rw [segment, (sampleElf_header p).2]
  simp (disch := omega) only [readPhdr, sampleElf, ByteMem.readLE_writeLE,
    ByteMem.readLE_writeLE_of_disjoint, hfield]

theorem sampleElf_eq_zero (p : ElfPhdr) {x : Nat}
    (hx : x ∉ Set.Ico 0x800000 (0x800000 + 84)) : sampleElf p x = 0 := by
  rw [Set.mem_Ico] at hx
  simp only [sampleElf]
  repeat rw [ByteMem.writeLE_of_notMem (by rw [Set.mem_Ico]; omega)]

/-- The memory has that image at 8 MB, apart from its file bytes. -/
def HasSampleElf (p : ElfPhdr) (m : ByteMem) : Prop :=
  Set.EqOn m (sampleElf p) (Set.Ico 0x800000 (0x800000 + 84))

theorem HasSampleElf.header {p : ElfPhdr} {m : ByteMem} (h : HasSampleElf p m) :
    imagePhnum m 0x800000 = 1 ∧ phdrOffset m 0x800000 0 = 52 ∧
      segment m 0x800000 0 = p := by
  obtain ⟨hnum, hoff⟩ := sampleElf_header p
  have hoff' := phdrOffset_congr h (by decide) 0
  refine ⟨by rw [imagePhnum_congr h (by decide), hnum], by rw [hoff', hoff], ?_⟩
  have hseg := sampleElf_segment p
  rw [segment, hoff] at hseg
  rw [segment, hoff', hoff, readPhdr_congr h (by decide), hseg]

/-- When the image is well formed. -/
theorem HasSampleElf.wellFormed {p : ElfPhdr} {m : ByteMem} (h : HasSampleElf p m)
    {n size : Nat} (hn : 84 ≤ n) (hfilesz : p.filesz ≤ p.memsz)
    (hfile : p.offset.toNat + p.filesz.toNat ≤ n) (hroom : p.stop ≤ size) :
    WellFormedImage m 0x800000 n size := by
  obtain ⟨hnum, hoff, hseg⟩ := h.header
  have hzero : ∀ i, i < imagePhnum m 0x800000 → i = 0 := by
    intro i hi
    omega
  refine ⟨by rw [EHDR_SIZE]; omega, fun i hi => ?_, fun i hi _ => ?_, fun i hi _ => ?_,
    fun i hi _ => ?_, fun i j hij hj => absurd (hzero j hj) (by omega)⟩ <;>
    rw [hzero i hi]
  · rw [hoff, PHDR_SIZE]
    omega
  · rwa [hseg]
  · rwa [hseg]
  · rwa [hseg]

theorem HasSampleElf.imageLayout {p : ElfPhdr} {s : State} (h : HasSampleElf p s.mem)
    {n size : Nat} (hn : 84 ≤ n) (hn' : n ≤ 0x800000) (hsize : size ≤ 2 ^ 31)
    (hfilesz : p.filesz ≤ p.memsz) (hfile : p.offset.toNat + p.filesz.toNat ≤ n)
    (hroom : p.stop ≤ size) : ImageLayout 0x800000 n 0x1000000 size s where
  wellFormed := h.wellFormed hn hfilesz hfile hroom
  image := by
    rw [show (0x800000 : UInt64).toNat = 0x800000 from rfl]
    omega
  room := by
    rw [show (0x1000000 : UInt64).toNat = 0x1000000 from rfl]
    omega
  apart := by
    rw [Set.Ico_disjoint_Ico, show (0x800000 : UInt64).toNat = 0x800000 from rfl,
      show (0x1000000 : UInt64).toNat = 0x1000000 from rfl]
    omega

/-- Loading the sample image into the memory at 16 MB. -/
theorem HasSampleElf.loadElfImage {p : ElfPhdr} {s : State} (h : HasSampleElf p s.mem)
    {n : Nat} (size : Nat) (hn : 84 ≤ n) (hn' : n ≤ 0x800000) (hsize : size ≤ 0x1000000)
    (hfilesz : p.filesz ≤ p.memsz) (hfile : p.offset.toNat + p.filesz.toNat ≤ n)
    (hroom : p.stop ≤ size) (hl : p.Loadable) (imageSize : UInt64) : ∃ entry s',
      loadElfImage (VIRT 0x800000) imageSize (VIRT 0x1000000) s = .ok (entry, s') ∧
      ∀ k, k < p.filesz.toNat →
        s'.mem (0x1000000 + p.paddr.toNat + k) = s.mem (0x800000 + p.offset.toNat + k) := by
  have hlayout := h.imageLayout hn hn' (by omega) hfilesz hfile hroom
  have hE : Accessible (fun _ => False) (VIRT 0x1000000) size := by
    refine Or.inl ⟨_, fun _ => bootTranslate_VIRT ?_⟩
    rw [show (0x1000000 : UInt64).toNat = 0x1000000 from rfl]
    omega
  obtain ⟨entry, s', hrun, -, -, hplace⟩ := exists_ok_of_wp
    (c := Tvmm.loadElfImage _ imageSize _) (wp_loadElfImage_image hlayout hE)
  obtain ⟨hnum, -, hseg⟩ := h.header
  have hseg' : segment s.mem (0x800000 : UInt64).toNat 0 = p := hseg
  refine ⟨entry, s', hrun, fun k hk => ?_⟩
  have hin := hplace 0 (hnum ▸ Nat.one_pos) (hseg'.symm ▸ hl)
  rw [InPlace, hseg'] at hin
  have := UInt32.le_iff_toNat_le.mp hfilesz
  exact (hin k (by omega)).trans (if_pos hk)

/-- The machine with that image. -/
def sampleLoad (p : ElfPhdr) : State := { sampleState with mem := sampleElf p }

theorem sampleLoad_hasSampleElf (p : ElfPhdr) : HasSampleElf p (sampleLoad p).mem :=
  fun _ _ => rfl

/-- A segment of two pages, half of it zero fill. -/
def samplePhdr : ElfPhdr where
  type := PT_LOAD
  offset := 0
  paddr := 0x200000
  filesz := 0x1000
  memsz := 0x2000
  flags := PF_X

end Tvmm
