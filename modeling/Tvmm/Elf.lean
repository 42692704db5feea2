import Tvmm.Lib.CInt
import Tvmm.String

/-!
# `elf.c`: loading the guest image

`loadElfImage` goes over the program headers of an ELF32 image and copies the
loadable segments.  It reads every field from memory where the code does, also
the fields that it reads more than once: a segment that is copied over a header
changes what is read next.

The source address, the destination, the length of the copy and the length of
the zero fill come from the image and are not checked.  `SegmentFits` is what
the header of one iteration must satisfy for its two writes to stay inside the
memory of the VM, and `wp_loadElfImage_fits` says that nothing else is written
then.
-/

namespace Tvmm

open Exec CInt

/-- `PT_LOAD` of `enum segment_type` -/
def PT_LOAD : UInt32 := 1

/-! `enum segment_flag` -/

def PF_X : UInt32 := 1
def PF_W : UInt32 := 2

/-! The fields of `struct Elf32_Ehdr` and `struct Elf32_Phdr` that the code
reads, at their offsets. -/

def eEntry (ehdr : UInt64) : M UInt32 := load32 (ehdr + 24)
def ePhoff (ehdr : UInt64) : M UInt32 := load32 (ehdr + 28)
def ePhentsize (ehdr : UInt64) : M UInt16 := load16 (ehdr + 42)
def ePhnum (ehdr : UInt64) : M UInt16 := load16 (ehdr + 44)

def pType (phdr : UInt64) : M UInt32 := load32 (phdr + 0)
def pOffset (phdr : UInt64) : M UInt32 := load32 (phdr + 4)
def pPaddr (phdr : UInt64) : M UInt32 := load32 (phdr + 12)
def pFilesz (phdr : UInt64) : M UInt32 := load32 (phdr + 16)
def pMemsz (phdr : UInt64) : M UInt32 := load32 (phdr + 20)
def pFlags (phdr : UInt64) : M UInt32 := load32 (phdr + 24)

/-- `sizeof ( struct Elf32_Ehdr )` -/
def EHDR_SIZE : Nat := 52

/-- `sizeof ( struct Elf32_Phdr )` -/
def PHDR_SIZE : Nat := 32

/-- `is_loadable_phdr` -/
def isLoadablePhdr (phdr : UInt64) : M Bool := do
  let type ← pType phdr
  if type = PT_LOAD then do
    let flags ← pFlags phdr
    return flags &&& (PF_W ||| PF_X) != 0
  else return false

/-- `get_elf_phdr`.  The product is an `int`. -/
def getElfPhdr (ehdr : UInt64) (i : Int32) : M UInt64 := do
  let phoff ← ePhoff ehdr
  let phentsize ← ePhentsize ehdr
  return ehdr + phoff.toUInt64 + toULong (i * ofUShort phentsize)

/-- `if ( phdr->p_filesz > 0 ) memmove ( .. )` -/
def copySegment (ehdr vmPmemStart phdr : UInt64) : M Unit := do
  let filesz ← pFilesz phdr
  when (filesz ≠ 0) do
    let paddr ← pPaddr phdr
    let offset ← pOffset phdr
    let filesz ← pFilesz phdr
    memmove (vmPmemStart + paddr.toUInt64) (ehdr + offset.toUInt64) filesz.toUInt64

/-- `len = phdr->p_memsz - phdr->p_filesz`, in `u32`, and the `memset`. -/
def zeroSegment (vmPmemStart phdr : UInt64) : M Unit := do
  let memsz ← pMemsz phdr
  let filesz ← pFilesz phdr
  let len := (memsz - filesz).toUInt64
  when (len ≠ 0) do
    let paddr ← pPaddr phdr
    let filesz ← pFilesz phdr
    memset (vmPmemStart + paddr.toUInt64 + filesz.toUInt64) 0 len

/-- One iteration of the loop of `load_elf_image`. -/
def loadSegment (ehdr vmPmemStart : UInt64) (i : Int32) : M (Int32 ⊕ Unit) := do
  let phnum ← ePhnum ehdr
  if i < ofUShort phnum then do
    let phdr ← getElfPhdr ehdr i
    let loadable ← isLoadablePhdr phdr
    when (loadable = true) do
      copySegment ehdr vmPmemStart phdr
      zeroSegment vmPmemStart phdr
    return .inl (i + 1)
  else return .inr ()

/-- `load_elf_image`, where `run` does what concerns the memory and `print` is the call
of `printf`. -/
def loadElfImageWith {σ : Type} (run : {α : Type} → M α → Exec σ Stop α)
    (print : Exec σ Stop Unit) (guestImageStart _guestImageSize vmPmemStart : UInt64) :
    Exec σ Stop UInt64 := do
  let ehdr := guestImageStart
  run (loop .hang (loadSegment ehdr vmPmemStart) INT_FUEL (0 : Int32))
  print
  let entry ← run (eEntry ehdr)
  return entry.toUInt64

/-- `load_elf_image` -/
def loadElfImage (guestImageStart guestImageSize vmPmemStart : UInt64) : M UInt64 :=
  loadElfImageWith (fun c => c) (printf "ELF image loaded.\n") guestImageStart guestImageSize
    vmPmemStart

/-- The fields of a program header. -/
structure ElfPhdr where
  type : UInt32
  offset : UInt32
  paddr : UInt32
  filesz : UInt32
  memsz : UInt32
  flags : UInt32
  deriving DecidableEq, Repr

namespace ElfPhdr

/-- `size_t len`, the length of the zero fill. -/
def len (p : ElfPhdr) : UInt32 := p.memsz - p.filesz

/-- `copy_segment` finds these fields and has something to copy. -/
structure Copies (p : ElfPhdr) (phdr : UInt64) (s : State) : Prop where
  filesz : pFilesz phdr s = .ok (p.filesz, s)
  paddr : pPaddr phdr s = .ok (p.paddr, s)
  offset : pOffset phdr s = .ok (p.offset, s)
  pos : p.filesz ≠ 0

/-- `zero_segment` finds these fields and has something to fill. -/
structure Zeroes (p : ElfPhdr) (phdr : UInt64) (s : State) : Prop where
  memsz : pMemsz phdr s = .ok (p.memsz, s)
  filesz : pFilesz phdr s = .ok (p.filesz, s)
  paddr : pPaddr phdr s = .ok (p.paddr, s)
  pos : p.len ≠ 0

end ElfPhdr

/-- Iteration `i` finds a loadable program header at `phdr`. -/
structure Accepts (ehdr : UInt64) (i : Int32) (phdr : UInt64) (s : State) : Prop where
  phnum : ∃ n, ePhnum ehdr s = .ok (n, s) ∧ i < ofUShort n
  header : getElfPhdr ehdr i s = .ok (phdr, s)
  loadable : isLoadablePhdr phdr s = .ok (true, s)

/-! ## Reading the headers -/

section Headers

variable {E : Stop → Prop} {ehdr phdr start : UInt64} {i : Int32} {s : State}

theorem wp_getElfPhdr (hE : Accessible E ehdr EHDR_SIZE) {Q : UInt64 → State → Prop}
    (hQ : ∀ phdr, getElfPhdr ehdr i s = .ok (phdr, s) → Q phdr s) :
    wp (getElfPhdr ehdr i) Q E s := by
  rw [getElfPhdr, wp_bind]
  refine wp_load32 (hE.part (k := 28) (by decide)) fun phoff hphoff => ?_
  rw [wp_bind]
  refine wp_load16 (hE.part (k := 42) (by decide)) fun phentsize hphentsize => ?_
  rw [wp_pure]
  refine hQ _ ?_
  rw [getElfPhdr, ePhoff, bind_of_ok hphoff, ePhentsize, bind_of_ok hphentsize]
  rfl

theorem wp_isLoadablePhdr (hE : Accessible E phdr PHDR_SIZE) {Q : Bool → State → Prop}
    (hQ : ∀ b, isLoadablePhdr phdr s = .ok (b, s) → Q b s) :
    wp (isLoadablePhdr phdr) Q E s := by
  have htype := hE.part (k := 0) (j := 4) (by decide)
  rw [isLoadablePhdr, wp_bind]
  refine wp_load32 htype fun type ht => ?_
  split_ifs with h
  · rw [wp_bind]
    refine wp_load32 (hE.part (k := 24) (by decide)) fun flags hf => ?_
    rw [wp_pure]
    refine hQ _ ?_
    rw [isLoadablePhdr, pType, bind_of_ok ht, if_pos h, pFlags, bind_of_ok hf]
    rfl
  · rw [wp_pure]
    refine hQ _ ?_
    rw [isLoadablePhdr, pType, bind_of_ok ht, if_neg h]
    rfl

/-- The copy of a segment, or nothing when `p_filesz` is zero. -/
theorem wp_copySegment (hE : Accessible E phdr PHDR_SIZE)
    (hrange : ∀ p : ElfPhdr, p.Copies phdr s →
      Accessible E (start + p.paddr.toUInt64) p.filesz.toNat ∧
      Accessible E (ehdr + p.offset.toUInt64) p.filesz.toNat)
    {Q : Unit → State → Prop} (hnone : pFilesz phdr s = .ok (0, s) → Q () s)
    (hcopy : ∀ (p : ElfPhdr) pd ps s', p.Copies phdr s →
      Mapped (start + p.paddr.toUInt64) p.filesz.toNat pd →
      Mapped (ehdr + p.offset.toUInt64) p.filesz.toNat ps →
      Copied ((start + p.paddr.toUInt64 < ehdr + p.offset.toUInt64 ↔ pd < ps) ∨
        ps + p.filesz.toNat ≤ pd ∨ pd + p.filesz.toNat ≤ ps) pd ps p.filesz.toNat s s' →
      Q () s') :
    wp (copySegment ehdr start phdr) Q E s := by
  rw [copySegment, wp_bind]
  refine wp_load32 (hE.part (k := 16) (by decide)) fun filesz hfilesz => ?_
  refine wp_when (fun hpos => ?_) fun hzero => ?_
  · rw [wp_bind]
    refine wp_load32 (hE.part (k := 12) (by decide)) fun paddr hpaddr => ?_
    rw [wp_bind]
    refine wp_load32 (hE.part (k := 4) (by decide)) fun offset hoffset => ?_
    rw [wp_bind]
    refine wp_load32 (hE.part (k := 16) (by decide)) fun filesz' hfilesz' => ?_
    obtain rfl : filesz = filesz' := eq_of_ok hfilesz hfilesz'
    let p : ElfPhdr := ⟨0, offset, paddr, filesz, 0, 0⟩
    have hp : p.Copies phdr s := ⟨hfilesz, hpaddr, hoffset, hpos⟩
    have hn : filesz.toUInt64.toNat = p.filesz.toNat := UInt32.toNat_toUInt64 filesz
    obtain ⟨hd, hs⟩ := hrange p hp
    refine wp_memmove (hn ▸ hd) (hn ▸ hs) fun pd ps s' hpd hps hc => ?_
    rw [hn] at hpd hps hc
    exact hcopy p pd ps s' hp hpd hps hc
  · rw [not_not] at hzero
    subst hzero
    exact hnone hfilesz

/-- The zero fill of a segment, or nothing when `len` is zero. -/
theorem wp_zeroSegment (hE : Accessible E phdr PHDR_SIZE)
    (hrange : ∀ p : ElfPhdr, p.Zeroes phdr s →
      Accessible E (start + p.paddr.toUInt64 + p.filesz.toUInt64) p.len.toNat)
    {Q : Unit → State → Prop}
    (hnone : ∀ x, pMemsz phdr s = .ok (x, s) → pFilesz phdr s = .ok (x, s) → Q () s)
    (hzero : ∀ (p : ElfPhdr) pd, p.Zeroes phdr s →
      Mapped (start + p.paddr.toUInt64 + p.filesz.toUInt64) p.len.toNat pd →
      Q () { s with mem := s.mem.fill pd p.len.toNat 0 }) :
    wp (zeroSegment start phdr) Q E s := by
  rw [zeroSegment, wp_bind]
  refine wp_load32 (hE.part (k := 20) (by decide)) fun memsz hmemsz => ?_
  rw [wp_bind]
  refine wp_load32 (hE.part (k := 16) (by decide)) fun filesz hfilesz => ?_
  have hn : (memsz - filesz).toUInt64.toNat = (memsz - filesz).toNat :=
    UInt32.toNat_toUInt64 _
  refine wp_when (fun hpos => ?_) fun hz => ?_
  · rw [wp_bind]
    refine wp_load32 (hE.part (k := 12) (by decide)) fun paddr hpaddr => ?_
    rw [wp_bind]
    refine wp_load32 (hE.part (k := 16) (by decide)) fun filesz' hfilesz' => ?_
    obtain rfl : filesz = filesz' := eq_of_ok hfilesz hfilesz'
    let p : ElfPhdr := ⟨0, 0, paddr, filesz, memsz, 0⟩
    have hp : p.Zeroes phdr s := ⟨hmemsz, hfilesz, hpaddr, fun h => hpos (by
      rw [show memsz - filesz = 0 from h]
      rfl)⟩
    have hn' : (memsz - filesz).toUInt64.toNat = p.len.toNat := hn
    refine wp_memset (hn' ▸ hrange p hp) fun pd hpd => ?_
    rw [hn'] at hpd ⊢
    exact hzero p pd hp hpd
  · rw [not_not] at hz
    have hsub : memsz - filesz = 0 := by
      rw [← UInt32.toNat_inj, ← hn, hz]
      rfl
    obtain rfl : memsz = filesz := by
      rwa [UInt32.sub_eq_iff_eq_add, UInt32.zero_add] at hsub
    exact hnone memsz hmemsz hfilesz

end Headers

/-! ## The loop -/

section Loop

variable {E : Stop → Prop} {ehdr size start : UInt64} {k : Nat} {s : State}

/-- The iteration `k`: the loop ends, the header is skipped, or its segment is
copied and filled. -/
theorem wp_loadSegment (hk : k ≤ 65535) (hE : Accessible E ehdr EHDR_SIZE)
    {Q : Int32 ⊕ Unit → State → Prop}
    (hdone : ∀ n, ePhnum ehdr s = .ok (n, s) → n.toNat ≤ k → Q (.inr ()) s)
    (hnext : ∀ n phdr, ePhnum ehdr s = .ok (n, s) → k < n.toNat →
      getElfPhdr ehdr (Int32.ofNat k) s = .ok (phdr, s) → Accessible E phdr PHDR_SIZE ∧
      (isLoadablePhdr phdr s = .ok (false, s) → Q (.inl (Int32.ofNat (k + 1))) s) ∧
      (Accepts ehdr (Int32.ofNat k) phdr s →
        wp (copySegment ehdr start phdr) (fun _ s₁ => wp (zeroSegment start phdr)
          (fun _ s₂ => Q (.inl (Int32.ofNat (k + 1))) s₂) E s₁) E s)) :
    wp (loadSegment ehdr start (Int32.ofNat k)) Q E s := by
  rw [loadSegment, wp_bind]
  refine wp_load16 (hE.part (k := 44) (by decide)) fun n hn => ?_
  have hlt := ofNat_lt_ofUShort (k := k) (x := n) (by omega)
  split_ifs with hcont
  · rw [wp_bind]
    refine wp_getElfPhdr hE fun phdr hphdr => ?_
    obtain ⟨hacc, hskip, hload⟩ := hnext n phdr hn (hlt.mp hcont) hphdr
    rw [wp_bind]
    refine wp_isLoadablePhdr hacc fun b hb => ?_
    rw [wp_bind]
    refine wp_when (fun hb' => ?_) fun hb' => ?_
    · rw [hb'] at hb
      rw [wp_bind]
      refine wp_imp (hload ⟨⟨n, hn, hcont⟩, hphdr, hb⟩) fun _ s₁ h₁ => ?_
      refine wp_imp h₁ fun _ s₂ h₂ => ?_
      rw [wp_pure, ofNat_succ]
      exact h₂
    · rw [Bool.eq_false_of_not_eq_true hb'] at hb
      rw [wp_pure, ofNat_succ]
      exact hskip hb
  · rw [wp_pure]
    exact hdone n hn (Nat.not_lt.mp fun h => hcont (hlt.mpr h))

/-- The rule of the loop, for an invariant over the number of headers that are
done. -/
theorem wp_loadElfImage (I : Nat → State → Prop) (h0 : I 0 s)
    (hE : Accessible E ehdr EHDR_SIZE) {Q : UInt64 → State → Prop}
    (step : ∀ k s', k ≤ 65535 → Reaches (loadSegment ehdr start) 0 s (Int32.ofNat k) s' →
      I k s' → wp (loadSegment ehdr start (Int32.ofNat k)) (fun r s'' =>
        match r with
        | .inl j => k < 65535 ∧ j = Int32.ofNat (k + 1) ∧ I (k + 1) s''
        | .inr _ => ∀ entry, eEntry ehdr s'' = .ok (entry, s'') → Q entry.toUInt64 s'')
        E s') :
    wp (loadElfImage ehdr size start) Q E s := by
  rw [loadElfImage, loadElfImageWith, wp_bind]
  refine wp_imp (wp_loop_reaches (Q := fun _ s' => ∀ entry,
    eEntry ehdr s' = .ok (entry, s') → Q entry.toUInt64 s')
    (fun i s' => ∃ k, k ≤ 65535 ∧ i = Int32.ofNat k ∧ I k s')
    (fun i => 65536 - i.toInt.toNat) ?_ ⟨0, by decide, rfl, h0⟩ (by decide)) ?_
  · rintro i s' hreach ⟨k, hk, rfl, hI⟩
    refine wp_imp (step k s' hk hreach hI) ?_
    rintro (j | _) s'' hr
    · obtain ⟨hk', rfl, hI'⟩ := hr
      refine ⟨⟨k + 1, hk', rfl, hI'⟩, ?_⟩
      rw [Int32.toInt_ofNat_of_lt (by omega), Int32.toInt_ofNat_of_lt (by omega)]
      omega
    · exact hr
  · intro _ s' hQ
    rw [printf_bind, wp_bind]
    refine wp_load32 (hE.part (k := 24) (by decide)) fun entry hentry => ?_
    rw [wp_pure]
    exact hQ entry hentry

end Loop

/-! ## Containment -/

/-- The two writes of iteration `i`, if its header is loadable, stay below
`size` bytes from the start of the memory of the VM.  The header of the zero
fill is the one that is there after the copy. -/
def SegmentFits (ehdr start : UInt64) (size : Nat) (i : Int32) (s : State) : Prop :=
  ∀ phdr, Accepts ehdr i phdr s →
    (∀ p : ElfPhdr, p.Copies phdr s → p.paddr.toNat + p.filesz.toNat ≤ size) ∧
    ∀ s', copySegment ehdr start phdr s = .ok ((), s') → ∀ p : ElfPhdr,
      p.Zeroes phdr s' → p.paddr.toNat + p.filesz.toNat + p.len.toNat ≤ size

theorem add_toUInt64 (v : UInt64) (x : UInt32) :
    v + x.toUInt64 = v + UInt64.ofNat x.toNat := by
  rw [← UInt32.toNat_toUInt64, UInt64.ofNat_toNat]

theorem add_toUInt64_add_toUInt64 (v : UInt64) (x y : UInt32) :
    v + x.toUInt64 + y.toUInt64 = v + UInt64.ofNat (x.toNat + y.toNat) := by
  rw [add_toUInt64, add_toUInt64, UInt64.ofNat_add, UInt64.add_assoc]

section Contained

variable {E : Stop → Prop} {ehdr phdr start : UInt64} {size : Nat} {s : State}

/-- The copy of a segment that fits. -/
theorem wp_copySegment_fits (hE : ∀ u, E (.pageFault u))
    (hfits : ∀ p : ElfPhdr, p.Copies phdr s → p.paddr.toNat + p.filesz.toNat ≤ size) :
    wp (copySegment ehdr start phdr)
      (fun _ s' => OnlyWrites (physBytes start size) s s') E s := by
  refine wp_copySegment (Or.inr hE) (fun _ _ => ⟨Or.inr hE, Or.inr hE⟩)
    (fun _ => OnlyWrites.refl _ _) ?_
  intro p pd ps s' hp hpd _ hc
  rw [add_toUInt64] at hpd
  exact hc.only.mono (hpd.subset_physBytes.trans (physBytes_part (hfits p hp)))

/-- The two writes of a segment that fits. -/
theorem wp_segment_fits (hE : ∀ u, E (.pageFault u)) {i : Int32}
    (hfits : SegmentFits ehdr start size i s) (haccepts : Accepts ehdr i phdr s) :
    wp (copySegment ehdr start phdr) (fun _ s₁ => wp (zeroSegment start phdr)
      (fun _ s₂ => OnlyWrites (physBytes start size) s s₂) E s₁) E s := by
  obtain ⟨hfitCopy, hfitZero⟩ := hfits phdr haccepts
  refine wp_imp (wp_self (wp_copySegment_fits hE hfitCopy)) ?_
  rintro _ s₁ ⟨h₁, hok⟩
  refine wp_zeroSegment (Or.inr hE) (fun _ _ => Or.inr hE) (fun _ _ _ => h₁) ?_
  intro p pd hp hpd
  rw [add_toUInt64_add_toUInt64] at hpd
  refine h₁.trans (OnlyWrites.of_mem ((ByteMem.eqOn_fill _ _ _ _).mono ?_))
  refine Set.compl_subset_compl.mpr (hpd.subset_physBytes.trans ?_)
  exact physBytes_part (hfitZero s₁ hok p hp)

/-- An iteration whose segment fits. -/
theorem wp_loadSegment_fits (hE : ∀ u, E (.pageFault u)) {k : Nat} (hk : k ≤ 65535)
    (hfits : SegmentFits ehdr start size (Int32.ofNat k) s) :
    wp (loadSegment ehdr start (Int32.ofNat k)) (fun r s' =>
      OnlyWrites (physBytes start size) s s' ∧
        ∀ j, r = .inl j → k < 65535 ∧ j = Int32.ofNat (k + 1)) E s := by
  refine wp_loadSegment hk (Or.inr hE) (fun _ _ _ => ⟨OnlyWrites.refl _ _, by simp⟩) ?_
  intro n phdr _ hkn _
  have hnext : ∀ j : Int32, (.inl (Int32.ofNat (k + 1)) : Int32 ⊕ Unit) = .inl j →
      k < 65535 ∧ j = Int32.ofNat (k + 1) := by
    rintro j ⟨⟩
    have := n.toNat_lt
    exact ⟨by omega, rfl⟩
  refine ⟨Or.inr hE, fun _ => ⟨OnlyWrites.refl _ _, hnext⟩, fun haccepts => ?_⟩
  refine wp_imp (wp_segment_fits hE hfits haccepts) fun _ s₁ h₁ => ?_
  exact wp_imp h₁ fun _ s₂ h₂ => ⟨h₂, hnext⟩

/-- A load whose segments all fit. -/
theorem wp_loadElfImage_fits (hE : ∀ u, E (.pageFault u)) {imageSize : UInt64}
    (hfits : ∀ i s', Reaches (loadSegment ehdr start) 0 s i s' →
      SegmentFits ehdr start size i s') :
    wp (loadElfImage ehdr imageSize start)
      (fun _ s' => OnlyWrites (physBytes start size) s s') E s := by
  refine wp_loadElfImage (fun _ s' => OnlyWrites (physBytes start size) s s')
    (OnlyWrites.refl _ _) (Or.inr hE) fun k s' hk hreach h => ?_
  refine wp_imp (wp_loadSegment_fits hE hk (hfits _ _ hreach)) ?_
  rintro (j | _) s'' ⟨hstep, hnext⟩
  · obtain ⟨hk', rfl⟩ := hnext j rfl
    exact ⟨hk', rfl, h.trans hstep⟩
  · exact fun _ _ => h.trans hstep

end Contained

/-! ## The headers before the load -/

/-- `c` only reads, and stores to `X` make no difference to it. -/
def ReadsOutside {α : Type} (X : Set Nat) (c : M α) : Prop :=
  ∀ s s', OnlyWrites X s s' → ∀ a s'', c s' = .ok (a, s'') → s'' = s' ∧ c s = .ok (a, s)

namespace ReadsOutside

variable {α β : Type} {X : Set Nat} {c : M α} {s s' : State}

protected theorem pure (a : α) : ReadsOutside X (pure a : M α) := by
  intro s s' _ b s'' h
  cases h
  exact ⟨rfl, rfl⟩

protected theorem bind {f : α → M β} (hc : ReadsOutside X c)
    (hf : ∀ a, ReadsOutside X (f a)) : ReadsOutside X (c >>= f) := by
  intro s s' hw b s'' h
  obtain ⟨a, s₁, hca, hfa⟩ := bind_eq_ok.mp h
  obtain ⟨rfl, hcs⟩ := hc s s' hw a s₁ hca
  obtain ⟨rfl, hfs⟩ := hf a s s₁ hw b s'' hfa
  exact ⟨rfl, by rw [bind_of_ok hcs, hfs]⟩

/-- What is read after the stores was there before them. -/
theorem ok (h : ReadsOutside X c) (hw : OnlyWrites X s s') {a : α}
    (ha : c s' = .ok (a, s')) : c s = .ok (a, s) :=
  (h s s' hw a s' ha).2

end ReadsOutside

section Reads

variable {X : Set Nat} {v ehdr phdr : UInt64} {n : Nat}

theorem readsOutside_loadLE (h : Disjoint (physBytes v n) X) :
    ReadsOutside X (loadLE n v) := by
  intro s s' hw x s'' hx
  unfold loadLE at hx ⊢
  cases ha : bootTranslate v n with
  | none =>
    rw [ha] at hx
    cases hx
  | some a =>
    rw [ha] at hx
    cases hx
    have hsub : Set.Ico a (a + n) ⊆ physBytes v n := Mapped.subset_physBytes fun _ => ha
    rw [ByteMem.readLE_congr fun y hy => hw.eqOn h.symm (hsub hy)]
    exact ⟨rfl, rfl⟩

/-- A field of four bytes. -/
theorem readsOutside_load32 (h : Disjoint (physBytes v n) X) {k : Nat} (hk : k + 4 ≤ n) :
    ReadsOutside X (load32 (v + UInt64.ofNat k)) :=
  (readsOutside_loadLE (h.mono_left (physBytes_part hk))).bind fun _ => .pure _

/-- A field of two bytes. -/
theorem readsOutside_load16 (h : Disjoint (physBytes v n) X) {k : Nat} (hk : k + 2 ≤ n) :
    ReadsOutside X (load16 (v + UInt64.ofNat k)) :=
  (readsOutside_loadLE (h.mono_left (physBytes_part hk))).bind fun _ => .pure _

theorem readsOutside_getElfPhdr (h : Disjoint (physBytes ehdr EHDR_SIZE) X) (i : Int32) :
    ReadsOutside X (getElfPhdr ehdr i) := by
  have hphoff : ReadsOutside X (ePhoff ehdr) := readsOutside_load32 (k := 28) h (by decide)
  have hphentsize : ReadsOutside X (ePhentsize ehdr) :=
    readsOutside_load16 (k := 42) h (by decide)
  exact hphoff.bind fun _ => hphentsize.bind fun _ => .pure _

theorem readsOutside_isLoadablePhdr (h : Disjoint (physBytes phdr PHDR_SIZE) X) :
    ReadsOutside X (isLoadablePhdr phdr) := by
  have htype : ReadsOutside X (pType phdr) := readsOutside_load32 (k := 0) h (by decide)
  have hflags : ReadsOutside X (pFlags phdr) := readsOutside_load32 (k := 24) h (by decide)
  refine htype.bind fun type => ?_
  split_ifs
  · exact hflags.bind fun _ => .pure _
  · exact .pure _

/-- The fields that a copy needs. -/
theorem ElfPhdr.Copies.of_onlyWrites {p : ElfPhdr} {s s' : State} (hp : p.Copies phdr s')
    (hw : OnlyWrites X s s') (h : Disjoint (physBytes phdr PHDR_SIZE) X) : p.Copies phdr s where
  filesz := (readsOutside_load32 (k := 16) h (by decide)).ok hw hp.filesz
  paddr := (readsOutside_load32 (k := 12) h (by decide)).ok hw hp.paddr
  offset := (readsOutside_load32 (k := 4) h (by decide)).ok hw hp.offset
  pos := hp.pos

/-- The fields that a zero fill needs. -/
theorem ElfPhdr.Zeroes.of_onlyWrites {p : ElfPhdr} {s s' : State} (hp : p.Zeroes phdr s')
    (hw : OnlyWrites X s s') (h : Disjoint (physBytes phdr PHDR_SIZE) X) : p.Zeroes phdr s where
  memsz := (readsOutside_load32 (k := 20) h (by decide)).ok hw hp.memsz
  filesz := (readsOutside_load32 (k := 16) h (by decide)).ok hw hp.filesz
  paddr := (readsOutside_load32 (k := 12) h (by decide)).ok hw hp.paddr
  pos := hp.pos

end Reads

/-- As the headers are in `s`, none of them lies in the `size` bytes of the VM, and the
two writes of each one that is accepted stay in there. -/
structure HeadersFit (ehdr start : UInt64) (size : Nat) (s : State) : Prop where
  ehdr_apart : Disjoint (physBytes ehdr EHDR_SIZE) (physBytes start size)
  phdr_apart : ∀ k ≤ 65535, ∀ n phdr, ePhnum ehdr s = .ok (n, s) → Int32.ofNat k < ofUShort n →
    getElfPhdr ehdr (Int32.ofNat k) s = .ok (phdr, s) →
      Disjoint (physBytes phdr PHDR_SIZE) (physBytes start size)
  copy : ∀ k ≤ 65535, ∀ phdr, Accepts ehdr (Int32.ofNat k) phdr s → ∀ p : ElfPhdr,
    p.Copies phdr s → p.paddr.toNat + p.filesz.toNat ≤ size
  zero : ∀ k ≤ 65535, ∀ phdr, Accepts ehdr (Int32.ofNat k) phdr s → ∀ p : ElfPhdr,
    p.Zeroes phdr s → p.paddr.toNat + p.filesz.toNat + p.len.toNat ≤ size

namespace HeadersFit

variable {ehdr start : UInt64} {size k : Nat} {s s' : State} {i : Int32}

/-- What is accepted after some segments were loaded was accepted before. -/
theorem accepts (h : HeadersFit ehdr start size s) (hw : OnlyWrites (physBytes start size) s s')
    (hk : k ≤ 65535) {phdr : UInt64} (ha : Accepts ehdr (Int32.ofNat k) phdr s') :
    Accepts ehdr (Int32.ofNat k) phdr s ∧
      Disjoint (physBytes phdr PHDR_SIZE) (physBytes start size) := by
  obtain ⟨n, hn, hlt⟩ := ha.phnum
  have hn' : ePhnum ehdr s = .ok (n, s) :=
    (readsOutside_load16 (k := 44) h.ehdr_apart (by decide)).ok hw hn
  have hget := (readsOutside_getElfPhdr h.ehdr_apart _).ok hw ha.header
  have hapart := h.phdr_apart k hk n phdr hn' hlt hget
  exact ⟨⟨⟨n, hn', hlt⟩, hget, (readsOutside_isLoadablePhdr hapart).ok hw ha.loadable⟩, hapart⟩

/-- Then the next segment fits, too. -/
theorem segmentFits (h : HeadersFit ehdr start size s)
    (hw : OnlyWrites (physBytes start size) s s') (hk : k ≤ 65535) :
    SegmentFits ehdr start size (Int32.ofNat k) s' := by
  intro phdr haccepts
  obtain ⟨ha, hapart⟩ := h.accepts hw hk haccepts
  have hcopy : ∀ p : ElfPhdr, p.Copies phdr s' → p.paddr.toNat + p.filesz.toNat ≤ size :=
    fun p hp => h.copy k hk phdr ha p (hp.of_onlyWrites hw hapart)
  refine ⟨hcopy, fun s₁ hrun p hp => ?_⟩
  have hw₁ : OnlyWrites (physBytes start size) s' s₁ :=
    wp_ok (wp_copySegment_fits (E := fun _ => True) (fun _ => trivial) hcopy) hrun
  exact h.zero k hk phdr ha p (hp.of_onlyWrites (hw.trans hw₁) hapart)

/-- The iterations that a load makes. -/
theorem reaches (h : HeadersFit ehdr start size s)
    (hreach : Reaches (loadSegment ehdr start) 0 s i s') :
    ∃ k ≤ 65535, i = Int32.ofNat k ∧ OnlyWrites (physBytes start size) s s' := by
  induction hreach with
  | start => exact ⟨0, by decide, rfl, OnlyWrites.refl _ _⟩
  | next _ hstep ih =>
    obtain ⟨k, hk, rfl, hw⟩ := ih
    obtain ⟨hw', hnext⟩ := wp_ok (wp_loadSegment_fits (E := fun _ => True) (fun _ => trivial)
      hk (h.segmentFits hw hk)) hstep
    obtain ⟨hlt, rfl⟩ := hnext _ rfl
    exact ⟨k + 1, hlt, rfl, hw.trans hw'⟩

end HeadersFit

/-- When the headers fit before the load, the load stays in the memory of the VM. -/
theorem wp_loadElfImage_headersFit {E : Stop → Prop} (hE : ∀ u, E (.pageFault u))
    {ehdr imageSize start : UInt64} {size : Nat} {s : State}
    (h : HeadersFit ehdr start size s) :
    wp (loadElfImage ehdr imageSize start)
      (fun _ s' => OnlyWrites (physBytes start size) s s') E s := by
  refine wp_loadElfImage_fits hE fun i s' hreach => ?_
  obtain ⟨k, hk, rfl, hw⟩ := h.reaches hreach
  exact h.segmentFits hw hk

end Tvmm
