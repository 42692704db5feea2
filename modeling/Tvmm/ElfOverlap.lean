import Tvmm.ElfImage

/-!
# Segments that overlap

`load_elf_image` does not ask whether two segments share guest memory.
`loadElfImage_lastCovering`: of the segments that cover a byte the last one in the
header table decides it, and nothing else changes.
-/

namespace Tvmm

open Exec

/-- The segment covers the guest-physical address `x`. -/
def ElfPhdr.Covers (p : ElfPhdr) (x : Nat) : Prop := p.paddr.toNat ≤ x ∧ x < p.stop

instance (p : ElfPhdr) (x : Nat) : Decidable (p.Covers x) := inferInstanceAs (Decidable (_ ∧ _))

/-- Of the first `k` headers in the table of the image at `a`, the last loadable one
that covers `x`. -/
def lastCovering (m : ByteMem) (a k x : Nat) : Option ElfPhdr :=
  ((List.range k).map (segment m a)).reverse.find? fun p => p.Loadable ∧ p.Covers x

/-- The byte that the segment `p` of the image at `a` has at `x`. -/
def segmentByte (m : ByteMem) (a : Nat) (p : ElfPhdr) (x : Nat) : UInt8 :=
  if x - p.paddr.toNat < p.filesz.toNat then m (a + p.offset.toNat + (x - p.paddr.toNat)) else 0

/-- The byte at `x`, after `k` headers, in a VM whose memory is at `b`. -/
def loadedByte (m : ByteMem) (a b k x : Nat) : UInt8 :=
  match lastCovering m a k x with
  | some p => segmentByte m a p x
  | none => m (b + x)

variable {m m' : ByteMem} {a b k x : Nat}

theorem lastCovering_zero : lastCovering m a 0 x = none := rfl

theorem loadedByte_zero : loadedByte m a b 0 x = m (b + x) := by
  rw [loadedByte, lastCovering_zero]

theorem lastCovering_succ : lastCovering m a (k + 1) x =
    if (segment m a k).Loadable ∧ (segment m a k).Covers x then some (segment m a k)
    else lastCovering m a k x := by
  rw [lastCovering, lastCovering, List.range_succ, List.map_append, List.reverse_append,
    List.map_singleton, List.reverse_singleton, List.singleton_append]
  split_ifs with h
  · exact List.find?_cons_of_pos (decide_eq_true h)
  · exact List.find?_cons_of_neg (by rwa [decide_eq_true_iff])

/-- The last covering header is one of the table. -/
theorem lastCovering_eq_some {p : ElfPhdr} (h : lastCovering m a k x = some p) :
    ∃ i < k, p = segment m a i ∧ p.Loadable ∧ p.Covers x := by
  have hmem := List.mem_of_find?_eq_some h
  rw [List.mem_reverse, List.mem_map] at hmem
  obtain ⟨i, hi, rfl⟩ := hmem
  have hp := List.find?_some h
  rw [decide_eq_true_iff] at hp
  exact ⟨i, List.mem_range.mp hi, rfl, hp⟩

theorem exists_lastCovering {i : Nat} (hi : i < k) (hl : (segment m a i).Loadable)
    (hx : (segment m a i).Covers x) : ∃ p, lastCovering m a k x = some p := by
  rw [← Option.isSome_iff_exists, lastCovering, List.find?_isSome]
  refine ⟨segment m a i, ?_, decide_eq_true ⟨hl, hx⟩⟩
  rw [List.mem_reverse]
  exact List.mem_map_of_mem (List.mem_range.mpr hi)

theorem lastCovering_congr (h : ∀ i, i < k → segment m' a i = segment m a i) :
    lastCovering m' a k x = lastCovering m a k x := by
  rw [lastCovering, lastCovering,
    List.map_congr_left fun i hi => h i (List.mem_range.mp hi)]

theorem loadedByte_succ_of_covers (hl : (segment m a k).Loadable)
    (hx : (segment m a k).Covers x) :
    loadedByte m a b (k + 1) x = segmentByte m a (segment m a k) x := by
  rw [loadedByte, lastCovering_succ, if_pos ⟨hl, hx⟩]

theorem loadedByte_succ_of_not (h : ¬((segment m a k).Loadable ∧ (segment m a k).Covers x)) :
    loadedByte m a b (k + 1) x = loadedByte m a b k x := by
  rw [loadedByte, lastCovering_succ, if_neg h]
  rfl

/-- A segment that is in place has its bytes where it covers. -/
theorem ElfPhdr.Placed.eq_segmentByte {p : ElfPhdr} (h : p.Placed m a b m')
    (hx : p.Covers x) : m' (b + x) = segmentByte m a p x := by
  rw [ElfPhdr.Covers, ElfPhdr.stop] at hx
  have := h (x - p.paddr.toNat) (by omega)
  rwa [Nat.add_assoc, Nat.add_sub_cancel' hx.1] at this

/-- The loader decides every byte of the memory of the VM by the last accepted header
that covers it, and writes nothing else. -/
theorem loadElfImage_lastCovering (imageSize : UInt64) {ehdr start : UInt64} {n size : Nat}
    {s : State} (hloadable : LoadableImage s.mem a n size) (himage : bootTranslate ehdr n = some a)
    (hvm : Mapped start size b)
    (hapart : Disjoint (Set.Ico a (a + n)) (Set.Ico b (b + size))) :
    ∃ s', loadElfImage ehdr imageSize start s =
        .ok ((imageEntry s.mem a).toUInt64, s') ∧
      OnlyWrites (Set.Ico b (b + size)) s s' ∧
      ∀ x, x < size → s'.mem (b + x) = loadedByte s.mem a b (imagePhnum s.mem a) x := by
  have hlayout : LoadLayout ehdr start a n b size s := ⟨hloadable, himage, hvm.mapsTo, hapart⟩
  suffices hwp : wp (loadElfImage ehdr imageSize start) (fun entry s' =>
      entry = (imageEntry s.mem a).toUInt64 ∧ OnlyWrites (Set.Ico b (b + size)) s s' ∧
      ∀ x, x < size → s'.mem (b + x) = loadedByte s.mem a b (imagePhnum s.mem a) x)
      (fun _ => False) s by
    obtain ⟨entry, s', hrun, rfl, hs, hbytes⟩ := exists_ok_of_wp hwp
    exact ⟨s', hrun, hs, hbytes⟩
  refine hlayout.wp_loadElfImage (Or.inl ⟨b, hvm⟩)
    (fun k s' => ∀ x, x < size → s'.mem (b + x) = loadedByte s.mem a b k x)
    (fun x _ => loadedByte_zero.symm) ?_ ?_
  · intro k s₁ hl hI x hx
    rw [hI x hx, loadedByte_succ_of_not fun h => hl h.1]
  · intro k s₁ s₂ _ hl hw hplaced hI x hx
    by_cases hcovers : (segment s.mem a k).Covers x
    · rw [loadedByte_succ_of_covers hl hcovers, hplaced.eq_segmentByte hcovers]
    · rw [loadedByte_succ_of_not fun h => hcovers h.2, ← hI x hx]
      refine hw.mem fun hin => hcovers ?_
      rw [ElfPhdr.bytesAt, Set.mem_Ico] at hin
      rw [ElfPhdr.Covers]
      omega

/-- A segment of one page in the middle of the sample segment, with half a page of file
bytes. -/
def overlapPhdr : ElfPhdr where
  type := PT_LOAD
  offset := 0
  paddr := 0x200800
  filesz := 0x800
  memsz := 0x1000
  flags := PF_W

/-- The sample image at 8 MB with this header as a second one. -/
def overlapElf : ByteMem :=
  let m := sampleElf samplePhdr
  let m := m.writeLE (0x800000 + 44) 2 2 -- e_phnum
  let m := m.writeLE (0x800000 + 84) 4 overlapPhdr.type.toNat
  let m := m.writeLE (0x800000 + 84 + 4) 4 overlapPhdr.offset.toNat
  let m := m.writeLE (0x800000 + 84 + 12) 4 overlapPhdr.paddr.toNat
  let m := m.writeLE (0x800000 + 84 + 16) 4 overlapPhdr.filesz.toNat
  let m := m.writeLE (0x800000 + 84 + 20) 4 overlapPhdr.memsz.toNat
  m.writeLE (0x800000 + 84 + 24) 4 overlapPhdr.flags.toNat

theorem overlapElf_header : imagePhnum overlapElf 0x800000 = 2 ∧
    phdrOffset overlapElf 0x800000 0 = 52 ∧ phdrOffset overlapElf 0x800000 1 = 84 ∧
    imageEntry overlapElf 0x800000 = 0x200000 := by
  simp (disch := omega) only [imagePhnum, phdrOffset, imageEntry, overlapElf, sampleElf,
    ByteMem.readLE_writeLE, ByteMem.readLE_writeLE_of_disjoint]
  decide

theorem overlapElf_segment : segment overlapElf 0x800000 0 = samplePhdr ∧
    segment overlapElf 0x800000 1 = overlapPhdr := by
  obtain ⟨-, h0, h1, -⟩ := overlapElf_header
  rw [segment, segment, h0, h1]
  simp (disch := omega) only [readPhdr, overlapElf, sampleElf, ByteMem.readLE_writeLE,
    ByteMem.readLE_writeLE_of_disjoint]
  decide

theorem overlapElf_loadable : LoadableImage overlapElf 0x800000 0x100000 0x400000 := by
  obtain ⟨hnum, h0, h1, -⟩ := overlapElf_header
  obtain ⟨hs0, hs1⟩ := overlapElf_segment
  have hcases : ∀ i, i < imagePhnum overlapElf 0x800000 → i = 0 ∨ i = 1 := by
    intro i hi
    omega
  refine ⟨by decide, fun i hi => ?_, fun i hi => ?_, fun i hi => ?_, fun i hi => ?_⟩ <;>
    obtain rfl | rfl := hcases i hi <;> simp only [h0, h1, hs0, hs1] <;> decide

def overlapLoad : State := { sampleState with mem := overlapElf }

end Tvmm
