import Mathlib.Data.List.Pairwise
import Mathlib.Data.List.Perm.Basic
import Mathlib.Order.Interval.Set.Basic
import Mathlib.Order.Interval.Set.Disjoint
import Tvmm.AllocInv

/-!
# The initial free set, in terms of pages

`setup.c` places the guest image at the end of the heap or at the start of an
entry above it.  Then `init_alloc_bitmap` frees every page of RAM above the heap
that does not meet the image, and no other one (`initAllocBitmap_exact`).  This
needs the placement: of an entry with the image in the middle, what lies below
the image would be lost.
-/

namespace Tvmm

open Exec Bitmap

/-- One entry ends before the other one starts. -/
def E820Entry.Apart (p q : E820Entry) : Prop :=
  p.stop ≤ q.addr.toNat ∨ q.stop ≤ p.addr.toNat

instance (p q : E820Entry) : Decidable (p.Apart q) := inferInstanceAs (Decidable (_ ∨ _))

/-- The RAM entries of the map do not overlap. -/
def E820Map.RamApart (e820 : E820Map) : Prop :=
  e820.map.Pairwise fun p q => p.IsRam → q.IsRam → p.Apart q

/-- The guest image lies in a RAM entry, at the end of the heap or at the start
of the entry. -/
def PlacedImage (e820 : E820Map) (pml : PmemLayout) : Prop :=
  ∃ q ∈ e820.map, q.IsRam ∧ pml.imageStop ≤ q.stop ∧
    (pml.guestImageStart = pml.vmmHeapEnd ∧ q.addr ≤ pml.vmmHeapEnd ∨
      pml.guestImageStart = q.addr ∧ pml.vmmHeapEnd ≤ q.addr)

/-- A page of RAM above the heap that does not meet the guest image. -/
structure UsablePage (e820 : E820Map) (pml : PmemLayout) (f : Nat) : Prop where
  ram : ∃ p ∈ e820.map, p.IsRam ∧ frameBytes f ⊆ Set.Ico p.addr.toNat p.stop
  heap : pml.vmmHeapEnd.toNat ≤ f * 4096
  image : Disjoint (frameBytes f) (Set.Ico pml.guestImageStart.toNat pml.imageStop)

theorem frameBytes_subset_iff {f lo hi : Nat} :
    frameBytes f ⊆ Set.Ico lo hi ↔ lo ≤ f * 4096 ∧ f * 4096 + 4096 ≤ hi := by
  rw [frameBytes, Set.Ico_subset_Ico_iff (by omega)]

theorem frameBytes_disjoint_iff {f lo hi : Nat} (h : lo < hi) :
    Disjoint (frameBytes f) (Set.Ico lo hi) ↔ f * 4096 + 4096 ≤ lo ∨ hi ≤ f * 4096 := by
  rw [frameBytes, Set.Ico_disjoint_Ico]
  omega

section

variable {e820 : E820Map} {pml : PmemLayout}

/-- Two overlapping RAM entries are the same one. -/
theorem E820Map.RamApart.eq_of_overlap (h : e820.RamApart) {p q : E820Entry}
    (hp : p ∈ e820.map) (hq : q ∈ e820.map) (hpr : p.IsRam) (hqr : q.IsRam)
    (hnot : ¬p.Apart q) : p = q := by
  by_contra hne
  have : Std.Symm fun p q : E820Entry => p.IsRam → q.IsRam → p.Apart q :=
    ⟨fun _ _ h hq hp => (h hp hq).symm⟩
  exact hnot (List.Pairwise.forall h hp hq hne hpr hqr)

/-- What the placement says about the bounds of the heap and the image. -/
theorem PlacedImage.bounds (h : PlacedImage e820 pml) (hwrap : ∀ p ∈ e820.map, p.NoWrap) :
    pml.vmmHeapEnd.toNat ≤ 2 ^ 64 - 4096 ∧ pml.imageStop ≤ 2 ^ 64 - 4096 ∧
      pml.vmmHeapEnd.toNat ≤ pml.guestImageStart.toNat := by
  obtain ⟨q, hq, -, hstop, hstart⟩ := h
  have hq' := hwrap q hq
  unfold E820Entry.NoWrap at hq'
  unfold PmemLayout.imageStop at hstop ⊢
  rw [E820Entry.stop] at hstop
  simp only [← UInt64.toNat_inj, UInt64.le_iff_toNat_le] at hstart
  omega

/-- Every usable page of an entry is freed: the start of the entry is raised to
the end of the image only if the image starts the rest of the entry. -/
theorem PlacedImage.entryStart_le (h : PlacedImage e820 pml) (hapart : e820.RamApart)
    {p : E820Entry} (hp : p ∈ e820.map) (hram : p.IsRam) {f : Nat}
    (hlo : p.addr.toNat ≤ f * 4096) (hheap : pml.vmmHeapEnd.toNat ≤ f * 4096)
    (himg : Disjoint (frameBytes f) (Set.Ico pml.guestImageStart.toNat pml.imageStop)) :
    entryStart pml p ≤ f * 4096 := by
  obtain ⟨q, hq, hqram, hstop, hstart⟩ := h
  rw [entryStart]
  split_ifs with hcond
  · have himgLe : pml.guestImageStart.toNat ≤ pml.imageStop := Nat.le_add_right _ _
    simp only [← UInt64.toNat_inj, UInt64.le_iff_toNat_le] at hstart
    -- The image meets the entry, so it is the one that holds the image.
    have hpq : p = q := by
      refine hapart.eq_of_overlap hp hq hram hqram fun h => ?_
      rcases h with h | h
      · omega
      · omega
    subst hpq
    rcases Nat.eq_or_lt_of_le himgLe with heq | hlt
    · omega
    · rcases (frameBytes_disjoint_iff hlt).mp himg with h | h
      · omega
      · exact h
  · omega

theorem freedBy_iff_usablePage (hwrap : ∀ p ∈ e820.map, p.NoWrap) (hapart : e820.RamApart)
    (hplace : PlacedImage e820 pml) (f : Nat) :
    FreedBy e820 pml f ↔ UsablePage e820 pml f := by
  obtain ⟨hheap, himg, -⟩ := hplace.bounds hwrap
  constructor
  · rintro ⟨p, hp, hram, hf⟩
    obtain ⟨hlo, hhi⟩ := ((hwrap p hp).mem_entryFrames hheap himg f).mp hf
    obtain ⟨hmax, hstop⟩ := entryStart_bounds pml p
    refine ⟨⟨p, hp, hram, frameBytes_subset_iff.mpr ⟨by omega, hhi⟩⟩, by omega, ?_⟩
    rw [frameBytes, Set.Ico_disjoint_Ico]
    omega
  · rintro ⟨⟨p, hp, hram, hsub⟩, hf, hdisj⟩
    obtain ⟨hlo, hhi⟩ := frameBytes_subset_iff.mp hsub
    exact ⟨p, hp, hram, ((hwrap p hp).mem_entryFrames hheap himg f).mpr
      ⟨hplace.entryStart_le hapart hp hram hlo hf hdisj, hhi⟩⟩

/-! ## The order of the entries -/

theorem getMaxPfn_perm {e820 e820' : E820Map} (h : e820.map.Perm e820'.map) :
    getMaxPfn e820 = getMaxPfn e820' := by
  refine h.foldl_eq' ?_ 0
  intro p _ q _ n
  dsimp only
  generalize PFN_DOWN (p.addr + p.size) = a
  generalize PFN_DOWN (q.addr + q.size) = b
  split_ifs <;> simp only [gt_iff_lt, UInt64.lt_iff_toNat_lt, ← UInt64.toNat_inj] at * <;> omega

theorem UsablePage.perm {e820' : E820Map} (h : e820'.map.Perm e820.map) {f : Nat} :
    UsablePage e820' pml f ↔ UsablePage e820 pml f := by
  constructor
  · rintro ⟨⟨p, hp, hram⟩, hheap, himg⟩
    exact ⟨⟨p, h.mem_iff.mp hp, hram⟩, hheap, himg⟩
  · rintro ⟨⟨p, hp, hram⟩, hheap, himg⟩
    exact ⟨⟨p, h.mem_iff.mpr hp, hram⟩, hheap, himg⟩

theorem PlacedImage.perm {e820' : E820Map} (h : e820'.map.Perm e820.map)
    (hplace : PlacedImage e820 pml) : PlacedImage e820' pml := by
  obtain ⟨q, hq, hplaced⟩ := hplace
  exact ⟨q, h.mem_iff.mpr hq, hplaced⟩

theorem E820Map.RamApart.perm {e820' : E820Map} (h : e820'.map.Perm e820.map)
    (hapart : e820.RamApart) : e820'.RamApart :=
  h.symm.pairwise hapart fun hpq hq hp => (hpq hp hq).symm

end

section Bitmap

variable {σ : Type} {T : WordTable σ Stop} {n : Nat} {view : σ → Nat → UInt64}
  {rest : σ → σ → Prop} {s : σ} {e820 : E820Map} {pml : PmemLayout}

theorem initAllocBitmap_usable (hT : T.Lawful n view rest)
    (hwrap : ∀ p ∈ e820.map, p.NoWrap) (hapart : e820.RamApart)
    (hplace : PlacedImage e820 pml) (hn : (getMaxPfn e820).toNat / 64 < n)
    (hones : ∀ f, f < 64 * n → bit (view s) f = true) :
    ∃ s', initAllocBitmap e820 T pml s = .ok ((), s') ∧
      ∀ f, f < 64 * n → (bit (view s') f = false ↔ UsablePage e820 pml f) := by
  obtain ⟨hheap, himg, -⟩ := hplace.bounds hwrap
  obtain ⟨_, s', hrun, hbits⟩ := exists_ok_of_wp (c := initAllocBitmap e820 T pml) (s := s)
    (wp_initAllocBitmap hT hheap himg hn (Q := fun _ s' => ∀ f, bit (view s') f = false ↔
      FreedBy e820 pml f ∨ bit (view s) f = false) fun s' _ h => h)
  refine ⟨s', hrun, fun f hf => ?_⟩
  rw [hbits f, hones f hf, freedBy_iff_usablePage hwrap hapart hplace f]
  simp

/-- On a bitmap of ones, `init_alloc_bitmap` frees exactly the usable pages, in
whatever order the entries come. -/
theorem initAllocBitmap_exact (hT : T.Lawful n view rest)
    (hwrap : ∀ p ∈ e820.map, p.NoWrap) (hapart : e820.RamApart)
    (hplace : PlacedImage e820 pml) (hn : (getMaxPfn e820).toNat / 64 < n)
    (hones : ∀ f, f < 64 * n → bit (view s) f = true) :
    ∃ s', initAllocBitmap e820 T pml s = .ok ((), s') ∧
      (∀ f, f < 64 * n → (bit (view s') f = false ↔ UsablePage e820 pml f)) ∧
      ∀ e820' : E820Map, e820'.map.Perm e820.map →
        ∃ s'', initAllocBitmap e820' T pml s = .ok ((), s'') ∧
          ∀ f, f < 64 * n → bit (view s'') f = bit (view s') f := by
  obtain ⟨s', hrun, hbits⟩ := initAllocBitmap_usable hT hwrap hapart hplace hn hones
  refine ⟨s', hrun, hbits, fun e820' hperm => ?_⟩
  obtain ⟨s'', hrun', hbits'⟩ := initAllocBitmap_usable hT
    (fun p hp => hwrap p (hperm.mem_iff.mp hp)) (hapart.perm hperm) (hplace.perm hperm)
    (by rwa [getMaxPfn_perm hperm]) hones
  refine ⟨s'', hrun', fun f hf => ?_⟩
  have h := ((hbits' f hf).trans (UsablePage.perm hperm)).trans (hbits f hf).symm
  exact Bool.eq_iff_iff.mpr (by simpa using not_congr h)

end Bitmap

/-- The sample machine, with the image at the end of the heap. -/
def placedLayout : PmemLayout := { sampleLayout with vmmHeapEnd := 0x800000 }

theorem sample_initAllocBitmap_exact :
    ∃ s', initAllocBitmap sampleMap WordTable.ofFun placedLayout (fun _ => ~~~0) =
        .ok ((), s') ∧
      (∀ f, f < 64 * 40000 → (bit s' f = false ↔ UsablePage sampleMap placedLayout f)) ∧
      ∀ e820' : E820Map, e820'.map.Perm sampleMap.map →
        ∃ s'', initAllocBitmap e820' WordTable.ofFun placedLayout (fun _ => ~~~0) =
            .ok ((), s'') ∧
          ∀ f, f < 64 * 40000 → bit s'' f = bit s' f := by
  refine initAllocBitmap_exact (WordTable.ofFun_lawful 40000) sample_bootLayout.noWrap
    (List.pairwise_pair.mpr fun _ _ => by decide) ?_ (by decide)
    fun f _ => testBit_ones (Nat.mod_lt _ (by decide))
  exact ⟨{ addr := 0, size := 0x20000000, type := E820_RAM }, List.mem_cons_self, rfl,
    by decide, Or.inl ⟨rfl, by decide⟩⟩

/-- RAM from 4 MB to 512 MB, and an empty RAM entry in the middle of it. -/
def emptyEntryMap : E820Map where
  map := [{ addr := 0x6400000, size := 0, type := E820_RAM },
    { addr := 0x400000, size := 0x1FC00000, type := E820_RAM }]
  length_le := by decide

/-- An empty image at the start of the empty entry. -/
def emptyImageLayout : PmemLayout where
  maxPage := 0x20000
  totalPages := 0x1FC00
  vmmHeapStart := 0
  vmmHeapEnd := 0x400000
  guestImageStart := 0x6400000
  guestImageSize := 0

/-- The two entries have no byte in common, but neither ends before the other one
starts.  The first page of RAM is usable, and stays allocated. -/
theorem initAllocBitmap_not_exact :
    (∀ p ∈ emptyEntryMap.map, p.NoWrap) ∧
    (emptyEntryMap.map.Pairwise fun p q => p.IsRam → q.IsRam →
      Disjoint (Set.Ico p.addr.toNat p.stop) (Set.Ico q.addr.toNat q.stop)) ∧
    PlacedImage emptyEntryMap emptyImageLayout ∧ 0x400 < (getMaxPfn emptyEntryMap).toNat ∧
    ∃ s', initAllocBitmap emptyEntryMap WordTable.ofFun emptyImageLayout (fun _ => ~~~0) =
        .ok ((), s') ∧
      bit s' 0x400 = true ∧ UsablePage emptyEntryMap emptyImageLayout 0x400 := by
  have hones : bit (fun _ => ~~~(0 : UInt64)) 0x400 = true := testBit_ones (by decide)
  obtain ⟨_, s', hrun, hbits⟩ := exists_ok_of_wp
    (c := initAllocBitmap emptyEntryMap WordTable.ofFun emptyImageLayout)
    (s := fun _ => ~~~(0 : UInt64))
    (wp_initAllocBitmap (WordTable.ofFun_lawful 40000) (by decide) (by decide) (by decide)
      (Q := fun _ s' => ∀ f, bit s' f = false ↔
        FreedBy emptyEntryMap emptyImageLayout f ∨ bit (fun _ => ~~~(0 : UInt64)) f = false)
      fun s' _ h => h)
  refine ⟨List.forall_mem_cons.mpr ⟨by decide, List.forall_mem_singleton.mpr (by decide)⟩,
    List.pairwise_pair.mpr fun _ _ => ?_, ?_, by decide, s', hrun, ?_, ?_⟩
  · rw [Set.Ico_disjoint_Ico]
    decide
  · exact ⟨_, List.mem_cons_self, rfl, by decide, Or.inr ⟨rfl, by decide⟩⟩
  · rw [← Bool.not_eq_false, hbits, hones]
    rintro (⟨p, hp, -, hf⟩ | h)
    · -- What is freed of the second entry lies behind the image.
      rcases List.mem_pair.mp hp with rfl | rfl <;> exact absurd hf.1 (by decide)
    · cases h
  · refine ⟨⟨_, List.mem_cons_of_mem _ List.mem_cons_self, rfl, ?_⟩, by decide, ?_⟩
    · exact frameBytes_subset_iff.mpr (by decide)
    · rw [frameBytes, Set.Ico_disjoint_Ico]
      decide

end Tvmm
