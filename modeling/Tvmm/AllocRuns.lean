import Mathlib.Order.Interval.Set.Disjoint
import Tvmm.AllocExact

/-!
# What runs of calls hand out, for every memory map

The invariant of `Tvmm.AllocInv` is about maps whose entries do not wrap.  Here
nothing is asked of the entries:

* `wp_allocPagesRun_free`: what a run of calls returns was free before it;
* `exists_run_taking`: every free frame but the last one is returned by some run.

So a property holds of everything that any run returns exactly if it holds of
the frames that `init_alloc_bitmap` frees.  `allocPagesRun_belowBootMap` uses
this for the part of memory that the boot page tables map, and
`naiveAllocatorInit_reserved` looks at entries that are not RAM.
-/

namespace Tvmm

open Exec Bitmap

section Run

variable {a n : Nat}

/-- What a run of calls returns was free before the run, and is not the last
frame. -/
theorem wp_allocPagesRun_free :
    ∀ (calls : List (UInt64 × UInt64)) (s : State),
      bootTranslate s.nalloc.allocBitmap (8 * n) = some a →
      s.nalloc.maxPage.toNat / 64 < n → (∀ c ∈ calls, AllocArgs c.1 c.2) →
      wp (allocPagesRun calls) (fun out _ => ∀ o ∈ out, ∀ f ∈ rangeFrames (callRange o),
        f + 1 < s.nalloc.maxPage.toNat ∧ bit (memWords a s) f = false) (fun _ => True) s := by
  intro calls
  induction calls with
  | nil =>
    intro s _ _ _
    rw [allocPagesRun_nil, wp_pure]
    simp
  | cons c calls ih =>
    intro s hmapped hn hcalls
    rw [allocPagesRun_cons, wp_bind]
    refine wp_allocPages_least (hcalls c List.mem_cons_self) hmapped hn ?_ fun _ => trivial
    intro r s₁ hnalloc hleast hset
    rw [wp_bind]
    refine wp_imp (ih s₁ (by rwa [hnalloc]) (by rwa [hnalloc])
      fun c' hc' => hcalls c' (List.mem_cons_of_mem _ hc')) ?_
    intro out s₂ hout
    rw [wp_pure]
    intro o ho f hf
    rcases List.mem_cons.mp ho with rfl | ho
    · obtain ⟨⟨-, hfree⟩, hlt⟩ := hleast.1
      rw [callRange, mem_rangeFrames] at hf
      dsimp only at hf
      exact ⟨by omega, hfree f hf.1 hf.2⟩
    · obtain ⟨hlt, hfree⟩ := hout o ho f hf
      rw [hnalloc] at hlt
      rw [hset f] at hfree
      split_ifs at hfree
      exact ⟨hlt, hfree⟩

/-- One call for one page takes the free frame `f`, or the frame 0. -/
theorem wp_allocPages_taking {s : State} {f : Nat}
    (hmapped : bootTranslate s.nalloc.allocBitmap (8 * n) = some a)
    (hn : s.nalloc.maxPage.toNat / 64 < n) (hfree : bit (memWords a s) f = false)
    (hlt : f + 1 < s.nalloc.maxPage.toNat) :
    wp (allocPages 1 (UInt64.ofNat (max f 1))) (fun r s' => s'.nalloc = s.nalloc ∧
      (r.toNat = f ∨ r.toNat = 0) ∧ bit (memWords a s) r.toNat = false ∧
      SetRange true (memWords a s) (memWords a s') r.toNat (r.toNat + 1))
      (fun _ => False) s := by
  have hle := bootTranslate_le hmapped
  have hone : (1 : UInt64).toNat = 1 := rfl
  have hal : (UInt64.ofNat (max f 1)).toNat = max f 1 := by
    rw [UInt64.toNat_ofNat']
    omega
  have hmem : f ∈ candidates (memWords a s) s.nalloc.maxPage.toNat (1 : UInt64).toNat
      (UInt64.ofNat (max f 1)).toNat := by
    refine ⟨⟨?_, fun g hg hg' => ?_⟩, by rwa [hone]⟩
    · rw [hal]
      rcases Nat.eq_zero_or_pos f with rfl | hpos
      · exact Nat.dvd_zero _
      · rw [Nat.max_eq_left hpos]
    · rwa [show g = f by omega]
  refine wp_allocPages_least ⟨by omega, by omega, by omega⟩ hmapped hn ?_ ?_
  · intro r s' hnalloc hleast hset
    obtain ⟨⟨hdvd, hr⟩, -⟩ := hleast.1
    rw [hal] at hdvd
    rw [hone] at hset hr
    refine ⟨hnalloc, ?_, hr _ (Nat.le_refl _) (by omega), hset⟩
    have hrf : r.toNat ≤ f := hleast.2 hmem
    rcases Nat.eq_or_lt_of_le hrf with heq | hlt'
    · exact Or.inl heq
    · exact Or.inr (Nat.eq_zero_of_dvd_of_lt hdvd (by omega))
  · intro hnone
    rw [hnone] at hmem
    exact hmem

/-- Some run of calls returns the free frame `f`. -/
theorem exists_run_taking {s : State} {f : Nat}
    (hmapped : bootTranslate s.nalloc.allocBitmap (8 * n) = some a)
    (hn : s.nalloc.maxPage.toNat / 64 < n) (hfree : bit (memWords a s) f = false)
    (hlt : f + 1 < s.nalloc.maxPage.toNat) :
    ∃ calls out s', (∀ c ∈ calls, AllocArgs c.1 c.2) ∧
      allocPagesRun calls s = .ok (out, s') ∧ ∃ o ∈ out, f ∈ rangeFrames (callRange o) := by
  have hle := bootTranslate_le hmapped
  let c : UInt64 × UInt64 := (1, UInt64.ofNat (max f 1))
  have hargs : AllocArgs c.1 c.2 := by
    have hal : (UInt64.ofNat (max f 1)).toNat = max f 1 := by
      rw [UInt64.toNat_ofNat']
      omega
    exact ⟨show (1 : UInt64).toNat ≤ 2 ^ 52 by decide, by rw [hal]; omega, by rw [hal]; omega⟩
  have htaken : ∀ {r : UInt64}, r.toNat = f → f ∈ rangeFrames (callRange (c, r)) := by
    intro r hr
    rw [callRange, mem_rangeFrames, hr, show c.1.toNat = 1 from rfl]
    omega
  obtain ⟨r, s₁, hrun, hnalloc, hr, hrfree, hset⟩ :=
    exists_ok_of_wp (wp_allocPages_taking hmapped hn hfree hlt)
  by_cases hrf : r.toNat = f
  · refine ⟨[c], [(c, r)], s₁, List.forall_mem_singleton.mpr hargs, ?_, (c, r),
      List.mem_cons_self, htaken hrf⟩
    rw [allocPagesRun_cons, bind_of_ok hrun, allocPagesRun_nil]
    rfl
  · -- The first call returned the frame 0, and the second one returns `f`.
    have hr0 : r.toNat = 0 := hr.resolve_left hrf
    have hfree₁ : bit (memWords a s₁) f = false := by
      rw [hset f, if_neg (by omega)]
      exact hfree
    obtain ⟨r', s₂, hrun', -, hr', hrfree', -⟩ := exists_ok_of_wp
      (wp_allocPages_taking (by rwa [hnalloc]) (by rwa [hnalloc]) hfree₁ (by rwa [hnalloc]))
    have hrf' : r'.toNat = f := by
      refine hr'.resolve_right fun h0 => ?_
      rw [h0, hset 0, if_pos (by omega)] at hrfree'
      cases hrfree'
    refine ⟨[c, c], [(c, r), (c, r')], s₂, List.forall_mem_cons.mpr
      ⟨hargs, List.forall_mem_singleton.mpr hargs⟩, ?_, (c, r'), by simp, htaken hrf'⟩
    rw [allocPagesRun_cons, bind_of_ok hrun, allocPagesRun_cons, bind_assoc, bind_of_ok hrun',
      allocPagesRun_nil]
    rfl

end Run

/-! ## The memory that the VMM can reach -/

/-- Every byte of the ranges that the calls returned lies in the part of memory
that the boot page tables map. -/
def BelowBootMap (out : List ((UInt64 × UInt64) × UInt64)) : Prop :=
  ∀ o ∈ out, ∀ f ∈ rangeFrames (callRange o), frameBytes f ⊆ Set.Iio BOOT_MAP_SIZE

theorem frameBytes_subset_Iio {f n : Nat} :
    frameBytes f ⊆ Set.Iio n ↔ f * 4096 + 4096 ≤ n := by
  constructor
  · intro h
    have hlast : f * 4096 + 4095 ∈ frameBytes f := Set.mem_Ico.mpr (by omega)
    have := Set.mem_Iio.mp (h hlast)
    omega
  · intro h x hx
    rw [frameBytes, Set.mem_Ico] at hx
    exact Set.mem_Iio.mpr (by omega)

section Start

variable {endSym : UInt64} {e820 : E820Map} {pml pml' : PmemLayout} {s s₁ : State}

/-- No run of calls returns memory that the VMM cannot reach if and only if
`init_alloc_bitmap` frees none, the last frame apart. -/
theorem allocPagesRun_belowBootMap (hmax : pml.maxPage = getMaxPfn e820)
    (hheap : pml.vmmHeapEnd.toNat ≤ 2 ^ 64 - 4096) (himg : pml.imageStop ≤ 2 ^ 64 - 4096)
    (hinit : naiveAllocatorInit endSym e820 pml s = .ok (pml', s₁)) :
    (∀ calls out s₂, (∀ c ∈ calls, AllocArgs c.1 c.2) →
      allocPagesRun calls s₁ = .ok (out, s₂) → BelowBootMap out) ↔
    ∀ f, FreedBy e820 pml f → f + 1 < pml.maxPage.toNat → (f + 1) * 4096 ≤ BOOT_MAP_SIZE := by
  obtain ⟨a, hready⟩ := bitmapReady_of_init hmax hheap himg hinit
  have hsize := hready.size
  have hmax₁ := hready.maxPage_eq
  have hiff : ∀ f, f < pml.maxPage.toNat →
      (bit (memWords a s₁) f = false ↔ FreedBy e820 pml f) := fun f hf =>
    hready.free_iff f (by omega)
  constructor
  · intro hall f hf hlt
    obtain ⟨calls, out, s₂, hcalls, hrun, o, ho, hfo⟩ := exists_run_taking hready.mapped
      hready.covers ((hiff f (by omega)).mpr hf) (by rwa [hmax₁])
    have := frameBytes_subset_Iio.mp (hall calls out s₂ hcalls hrun o ho f hfo)
    omega
  · intro hfreed calls out s₂ hcalls hrun o ho f hf
    obtain ⟨hlt, hfree⟩ := wp_ok (wp_allocPagesRun_free calls s₁ hready.mapped hready.covers
      hcalls) hrun o ho f hf
    rw [hmax₁] at hlt
    have := hfreed f ((hiff f (by omega)).mp hfree) hlt
    exact frameBytes_subset_Iio.mpr (by omega)

end Start

/-- The sample machine. -/
theorem sample_allocPagesRun_belowBootMap : ∃ s₁,
    naiveAllocatorInit sampleEnd sampleMap sampleLayout sampleState =
      .ok (initLayout sampleEnd sampleLayout, s₁) ∧
    ((∀ calls out s₂, (∀ c ∈ calls, AllocArgs c.1 c.2) →
      allocPagesRun calls s₁ = .ok (out, s₂) → BelowBootMap out) ↔
    ∀ f, FreedBy sampleMap sampleLayout f → f + 1 < sampleLayout.maxPage.toNat →
      (f + 1) * 4096 ≤ BOOT_MAP_SIZE) := by
  obtain ⟨L, s₁, hinit, -⟩ := sample_init sampleState
  exact ⟨s₁, hinit, allocPagesRun_belowBootMap (by decide) (by decide) (by decide) hinit⟩

/-- A call for more pages than there are below 512 MB returns memory from 1 GB
on. -/
theorem allocPagesRun_not_belowBootMap : ∃ s₁ out s₂,
    naiveAllocatorInit sampleEnd sampleMap sampleLayout sampleState =
      .ok (initLayout sampleEnd sampleLayout, s₁) ∧
    allocPagesRun [(126977, 512)] s₁ = .ok (out, s₂) ∧ ¬BelowBootMap out := by
  obtain ⟨L, s₁, hinit, hready, hroom⟩ := sample_init sampleState
  obtain ⟨r, s₂, hrun, hr⟩ := exists_ok_of_wp (sample_allocPages_high hready hroom
    (show 126976 < (126977 : UInt64).toNat by decide) (by decide)
    (Q := fun r _ => 262144 ≤ r.toNat) fun _ _ _ hr _ => hr)
  refine ⟨s₁, [((126977, 512), r)], s₂, hinit, ?_, fun hbelow => ?_⟩
  · rw [allocPagesRun_cons, bind_of_ok hrun, allocPagesRun_nil]
    rfl
  · have hmem : r.toNat ∈ rangeFrames (callRange ((126977, 512), r)) :=
      mem_rangeFrames.mpr ⟨Nat.le_refl _, Nat.lt_add_of_pos_right
        (show 0 < (126977 : UInt64).toNat by decide)⟩
    have := frameBytes_subset_Iio.mp (hbelow _ List.mem_cons_self _ hmem)
    rw [BOOT_MAP_SIZE_eq] at this
    omega

/-! ## Memory that is not RAM -/

/-- The frame does not meet an entry that is not RAM. -/
def ClearOfReserved (e820 : E820Map) (f : Nat) : Prop :=
  ∀ q ∈ e820.map, ¬q.IsRam → Disjoint (frameBytes f) (Set.Ico q.addr.toNat q.stop)

/-- No page that the allocator may have meets an entry that is not RAM. -/
def ReservedApart (e820 : E820Map) (pml : PmemLayout) : Prop :=
  ∀ f, SafeFrame e820 pml f → ClearOfReserved e820 f

section Reserved

variable {endSym : UInt64} {e820 : E820Map} {pml pml' : PmemLayout} {a : Nat} {s s₁ : State}

/-- When the allocator comes up, the frames of a RAM entry that ends at the top of
the address space at the latest may be freed. -/
theorem BitmapReady.safeFrame (hready : BitmapReady endSym e820 pml a s s₁)
    (hmax : pml.maxPage = getMaxPfn e820) (hheap : pml.vmmHeapEnd.toNat ≤ 2 ^ 64 - 4096)
    (himg : pml.imageStop ≤ 2 ^ 64 - 4096) {p : E820Entry} (hp : p ∈ e820.map)
    (hram : p.IsRam) (hwrap : p.stop ≤ 2 ^ 64) {f : Nat} (hf : f ∈ entryFrames pml p) :
    SafeFrame e820 pml f := by
  refine E820Entry.NoWrap.safeFrame ?_ hmax hheap himg hp hram hf
  have hle := stop_le_getMaxPfn hheap himg hp hram ⟨f, hf⟩
  have hhi := hf.2
  have hsize := hready.size
  have hmapped := bootTranslate_le hready.bitmap
  have hend : (entryRange pml p).2.toNat = (p.addr.toNat + p.size.toNat) % 2 ^ 64 := by
    rw [entryRange, UInt64.toNat_add]
  rw [← hmax, toNat_PFN_DOWN, hend] at hle
  rw [toNat_PFN_DOWN, hend] at hhi
  -- An entry up to the top would need a bitmap for all of the address space.
  rw [E820Entry.stop] at hwrap
  unfold E820Entry.NoWrap
  omega

/-- If no page of RAM above the heap and apart from the guest image meets an entry of
another type, then no frame that meets such an entry is marked free, and no call returns
one. -/
theorem naiveAllocatorInit_reserved (hmax : pml.maxPage = getMaxPfn e820)
    (hheap : pml.vmmHeapEnd.toNat ≤ 2 ^ 64 - 4096) (himg : pml.imageStop ≤ 2 ^ 64 - 4096)
    (hwrap : ∀ p ∈ e820.map, p.stop ≤ 2 ^ 64) (hapart : ReservedApart e820 pml)
    (hinit : naiveAllocatorInit endSym e820 pml s = .ok (pml', s₁)) :
    (∀ pfn < pml.maxPage,
      allocatedInMap (memTable s₁.nalloc.allocBitmap) pfn s₁ = .ok (false, s₁) →
        ClearOfReserved e820 pfn.toNat) ∧
    ∀ calls out s₂, (∀ c ∈ calls, AllocArgs c.1 c.2) →
      allocPagesRun calls s₁ = .ok (out, s₂) →
      ∀ o ∈ out, ∀ f ∈ rangeFrames (callRange o), ClearOfReserved e820 f := by
  obtain ⟨a, hready⟩ := bitmapReady_of_init hmax hheap himg hinit
  have hsize := hready.size
  have hmax₁ := hready.maxPage_eq
  have hclear : ∀ f, f < pml.maxPage.toNat → bit (memWords a s₁) f = false →
      ClearOfReserved e820 f := by
    intro f hf hfree
    obtain ⟨p, hp, hram, hmem⟩ := (hready.free_iff f (by omega)).mp hfree
    exact hapart f (hready.safeFrame hmax hheap himg hp hram (hwrap p hp) hmem)
  constructor
  · intro pfn hpfn hfree
    rw [UInt64.lt_iff_toNat_lt] at hpfn
    have hbit : wp (allocatedInMap (memTable s₁.nalloc.allocBitmap) pfn)
        (fun b _ => b = bit (memWords a s₁) pfn.toNat) (fun _ => False) s₁ :=
      wp_allocatedInMap (memTable_lawful hready.mapped).readable (by omega) rfl
    exact hclear _ hpfn (wp_ok hbit hfree).symm
  · intro calls out s₂ hcalls hrun o ho f hf
    obtain ⟨hlt, hfree⟩ := wp_ok (wp_allocPagesRun_free calls s₁ hready.mapped hready.covers
      hcalls) hrun o ho f hf
    rw [hmax₁] at hlt
    exact hclear f (by omega) hfree

end Reserved

/-- The sample machine with one more entry of the memory map. -/
def addEntry (p : E820Entry) : E820Map where
  map := sampleMap.map ++ [p]
  length_le := by
    rw [List.length_append, List.length_singleton]
    decide

/-- The allocator comes up on it. -/
theorem sample_bitmapReady (e820 : E820Map) (hmax : sampleLayout.maxPage = getMaxPfn e820) :
    ∃ s₁ a, naiveAllocatorInit sampleEnd e820 sampleLayout sampleState =
        .ok (initLayout sampleEnd sampleLayout, s₁) ∧
      BitmapReady sampleEnd e820 sampleLayout a sampleState s₁ := by
  have hmapped : Accessible (fun _ => False) (VIRT (bitmapStart sampleEnd))
      (bitmapSize sampleLayout.maxPage).toNat :=
    Or.inl ⟨0x200000, fun _ => by decide⟩
  obtain ⟨pml, s₁, hinit, rfl, a, hready⟩ := exists_ok_of_wp
    (c := naiveAllocatorInit sampleEnd e820 sampleLayout) (s := sampleState)
    (wp_naiveAllocatorInit_bitmap hmax (by decide) (by decide) (Or.inl (by decide))
      hmapped (Q := fun pml s₁ => pml = initLayout sampleEnd sampleLayout ∧
        ∃ a, BitmapReady sampleEnd e820 sampleLayout a sampleState s₁)
      fun a _ h => ⟨rfl, a, h⟩)
  exact ⟨s₁, a, hinit, hready⟩

/-- The hole below 1 MB, which lies in the first RAM entry. -/
def videoHole : E820Entry := { addr := 0xA0000, size := 0x60000, type := 2 }

theorem sample_naiveAllocatorInit_reserved : ∃ s₁,
    naiveAllocatorInit sampleEnd (addEntry videoHole) sampleLayout sampleState =
      .ok (initLayout sampleEnd sampleLayout, s₁) ∧
    (∀ pfn < sampleLayout.maxPage,
      allocatedInMap (memTable s₁.nalloc.allocBitmap) pfn s₁ = .ok (false, s₁) →
        ClearOfReserved (addEntry videoHole) pfn.toNat) ∧
    ∀ calls out s₂, (∀ c ∈ calls, AllocArgs c.1 c.2) →
      allocPagesRun calls s₁ = .ok (out, s₂) →
      ∀ o ∈ out, ∀ f ∈ rangeFrames (callRange o), ClearOfReserved (addEntry videoHole) f := by
  obtain ⟨s₁, a, hinit, -⟩ := sample_bitmapReady (addEntry videoHole) (by decide)
  have hmem : ∀ p ∈ (addEntry videoHole).map, p ∈ sampleMap.map ∨ p = videoHole := fun p hp =>
    (List.mem_append.mp hp).imp_right List.mem_singleton.mp
  have hwrap : ∀ p ∈ (addEntry videoHole).map, p.stop ≤ 2 ^ 64 :=
    List.forall_mem_cons.mpr ⟨by decide, List.forall_mem_cons.mpr ⟨by decide,
      List.forall_mem_singleton.mpr (by decide)⟩⟩
  refine ⟨s₁, hinit, naiveAllocatorInit_reserved (by decide) (by decide) (by decide) hwrap
    (fun f hf q hq hres => ?_) hinit⟩
  -- The hole lies below the heap.
  have hheap : 0x1000000 ≤ f * 4096 := hf.heap
  have hram : ∀ p ∈ sampleMap.map, p.IsRam :=
    List.forall_mem_cons.mpr ⟨rfl, List.forall_mem_singleton.mpr rfl⟩
  obtain rfl := (hmem q hq).resolve_left fun h => hres (hram q h)
  rw [frameBytes, Set.Ico_disjoint_Ico, show videoHole.stop = 0x100000 by decide]
  omega

/-- A reserved page at 32 MB, inside the first RAM entry. -/
def reservedPage : E820Entry := { addr := 0x2000000, size := 0x1000, type := 2 }

/-- It is marked free. -/
theorem naiveAllocatorInit_not_reserved : ∃ s₁,
    naiveAllocatorInit sampleEnd (addEntry reservedPage) sampleLayout sampleState =
      .ok (initLayout sampleEnd sampleLayout, s₁) ∧
    sampleLayout.maxPage = getMaxPfn (addEntry reservedPage) ∧
    allocatedInMap (memTable s₁.nalloc.allocBitmap) 0x2000 s₁ = .ok (false, s₁) ∧
    ¬ClearOfReserved (addEntry reservedPage) (0x2000 : UInt64).toNat := by
  obtain ⟨s₁, a, hinit, hready⟩ := sample_bitmapReady (addEntry reservedPage) (by decide)
  have hsize := hready.size
  have hmax : sampleLayout.maxPage.toNat = 0x200000 := rfl
  have hfree : bit (memWords a s₁) 0x2000 = false :=
    (hready.free_iff 0x2000 (by omega)).mpr
      ⟨{ addr := 0, size := 0x20000000, type := E820_RAM }, List.mem_cons_self, rfl,
        Set.mem_Ico.mpr ⟨by decide, by decide⟩⟩
  obtain ⟨b, s', hread, rfl, rfl⟩ := exists_ok_of_wp
    (c := allocatedInMap (memTable s₁.nalloc.allocBitmap) 0x2000) (s := s₁)
    (wp_allocatedInMap (memTable_lawful hready.mapped).readable
      (Nat.lt_of_lt_of_le (show (0x2000 : UInt64).toNat / 64 < 32768 by decide) (by omega))
      (Q := fun b s' => b = false ∧ s' = s₁) ⟨hfree, rfl⟩)
  refine ⟨_, hinit, by decide, hread, fun hclear => ?_⟩
  have hdisj := hclear reservedPage (List.mem_append_right _ (List.mem_singleton_self _))
    (show (2 : UInt32) ≠ 1 by decide)
  have hin : 0x2000000 ∈ frameBytes (0x2000 : UInt64).toNat := Set.mem_Ico.mpr (by decide)
  exact Set.disjoint_left.mp hdisj hin (Set.mem_Ico.mpr (by decide))

end Tvmm
