import Tvmm.AllocExact

/-!
# The indices into the bitmap

`WordTable.guard` adds a check of the index to a table.  The functions over the
bitmap do the same with and without the check, so that no access is ever out of
range: for any table, whatever its words are.  `naiveAllocatorInit_guard` puts
this together for the start of the allocator and all calls after it.
-/

set_option linter.style.nameCheck false

namespace Tvmm

open Exec Bitmap

section Guard

variable {σ : Type} (T : WordTable σ Stop) {n : Nat} (e : Stop)

theorem allocatedInMap_guard {pfn : UInt64} (hn : pfn.toNat / 64 < n) :
    allocatedInMap (T.guard n e) pfn = allocatedInMap T pfn := by
  rw [allocatedInMap, allocatedInMap, T.guard_get e (by rwa [toNat_getAllocBitmapIdx])]

/-- `map_alloc` and `map_free` touch the word behind a range that ends with a
word, and no further one. -/
theorem mapRange_guard (same : UInt64 → UInt64 → UInt64 → UInt64)
    (head tail : UInt64 → UInt64 → UInt64) (mid : UInt64) {first nr : UInt64}
    (hwrap : first.toNat + nr.toNat < 2 ^ 64) (hn : (first.toNat + nr.toNat) / 64 < n) :
    mapRange same head tail mid (T.guard n e) first nr =
      mapRange same head tail mid T first nr := by
  have hcur := toNat_getAllocBitmapIdx first
  have hend := toNat_getAllocBitmapIdx (first + nr)
  rw [UInt64.toNat_add, Nat.mod_eq_of_lt hwrap] at hend
  have hfirst : (getAllocBitmapIdx first).toNat < n := by omega
  rw [mapRange, mapRange]
  dsimp only
  split_ifs with heq
  · rw [T.guard_get e hfirst, T.guard_set e hfirst]
  · have hne : first.toNat / 64 ≠ (first.toNat + nr.toNat) / 64 := fun h =>
      heq (UInt64.toNat_inj.mp (by rw [hcur, hend]; exact h))
    have hnext := toNat_getAllocBitmapIdx_add first (k := 0) (by omega)
    rw [show UInt64.ofNat 0 = 0 from rfl, UInt64.add_zero] at hnext
    have hidx : ∀ k, k ≤ (getAllocBitmapIdx (first + nr)).toNat -
        (getAllocBitmapIdx first + 1).toNat →
        (getAllocBitmapIdx first + 1 + UInt64.ofNat k).toNat < n := by
      intro k hk
      rw [toNat_getAllocBitmapIdx_add first (by omega)]
      omega
    have hlast := hidx _ (Nat.le_refl _)
    rw [T.guard_get e hfirst, T.guard_set e hfirst, T.guard_get e hlast,
      T.guard_set e hlast]
    have hset : ∀ k, k < (getAllocBitmapIdx (first + nr)).toNat -
        (getAllocBitmapIdx first + 1).toNat →
        (T.guard n e).set (getAllocBitmapIdx first + 1 + UInt64.ofNat k) mid =
          T.set (getAllocBitmapIdx first + 1 + UInt64.ofNat k) mid :=
      fun k hk => by rw [T.guard_set e (hidx k (Nat.le_of_lt hk))]
    rw [forRange_congr hset]

theorem isFreeContiguousRegion_guard {pfn nr : UInt64}
    (hwrap : pfn.toNat + nr.toNat < 2 ^ 64) (hn : (pfn.toNat + nr.toNat) / 64 < n) :
    isFreeContiguousRegion (T.guard n e) pfn nr = isFreeContiguousRegion T pfn nr := by
  refine loop_congr (fun _ => True) (fun i _ => ?_) (fun i s _ => ?_) _ _ trivial
  · split_ifs with hlt
    · rw [UInt64.lt_iff_toNat_lt] at hlt
      rw [allocatedInMap_guard T e]
      rw [UInt64.toNat_add, Nat.mod_eq_of_lt (by omega)]
      omega
    · rfl
  · exact wp_of_forall fun _ _ _ _ _ => trivial

theorem allocBootPages_guard {maxPage nr al : UInt64} (hmax : maxPage.toNat ≤ 2 ^ 52)
    (hargs : AllocArgs nr al) (hn : maxPage.toNat / 64 < n) :
    allocBootPages (T.guard n e) maxPage nr al = allocBootPages T maxPage nr al := by
  obtain ⟨hnr, -, hal⟩ := hargs
  refine loop_congr (fun i : UInt64 => i.toNat < 2 ^ 53) (fun i hi => ?_) (fun i s hi => ?_)
    _ _ (by decide)
  · have hsum : (i + nr).toNat = i.toNat + nr.toNat := by
      rw [UInt64.toNat_add, Nat.mod_eq_of_lt (by omega)]
    split_ifs with hlt
    · rw [UInt64.lt_iff_toNat_lt, hsum] at hlt
      rw [isFreeContiguousRegion_guard T e (by omega) (by omega)]
      simp only [mapAlloc]
      rw [mapRange_guard T e _ _ _ _ (by omega) (by omega)]
    · rfl
  · -- The next candidate is one stride further.
    have hsum : (i + nr).toNat = i.toNat + nr.toNat := by
      rw [UInt64.toNat_add, Nat.mod_eq_of_lt (by omega)]
    have hnext : (i + al).toNat = i.toNat + al.toNat := by
      rw [UInt64.toNat_add, Nat.mod_eq_of_lt (by omega)]
    split_ifs with hlt
    · rw [UInt64.lt_iff_toNat_lt, hsum] at hlt
      rw [wp_bind]
      refine wp_of_forall fun b s' _ => ?_
      cases b with
      | true =>
        rw [if_pos rfl, wp_bind]
        refine wp_of_forall fun _ s'' _ => ?_
        rw [wp_pure]
        rintro j ⟨⟩
      | false =>
        rw [if_neg (by decide), wp_pure]
        rintro j ⟨⟩
        omega
    · rw [fatalFailure, wp_stop]
      trivial

theorem __initAllocBitmap_guard {start stop : UInt64}
    (hn : PFN_UP start < PFN_DOWN stop → (PFN_DOWN stop).toNat / 64 < n) :
    __initAllocBitmap (T.guard n e) start stop = __initAllocBitmap T start stop := by
  rw [__initAllocBitmap_eq, __initAllocBitmap_eq]
  split_ifs with hlt
  · have hsum := toNat_add_toNat_sub hlt
    have hwrap : (PFN_UP start).toNat + (PFN_DOWN stop - PFN_UP start).toNat < 2 ^ 64 := by
      rw [hsum]
      exact (PFN_DOWN stop).toNat_lt
    rw [mapFree, mapFree, mapRange_guard T e _ _ _ _ hwrap]
    rw [hsum]
    exact hn hlt
  · rfl

theorem initAllocBitmap_guard {e820 : E820Map} {pml : PmemLayout}
    (hheap : pml.vmmHeapEnd.toNat ≤ 2 ^ 64 - 4096) (himg : pml.imageStop ≤ 2 ^ 64 - 4096)
    (hn : (getMaxPfn e820).toNat / 64 < n) :
    initAllocBitmap e820 (T.guard n e) pml = initAllocBitmap e820 T pml := by
  refine forEach_congr fun p hp => ?_
  split_ifs with hram
  · rfl
  · refine __initAllocBitmap_guard T e fun hne => ?_
    have := stop_le_getMaxPfn hheap himg hp (not_not.mp hram)
      ⟨_, Nat.le_refl _, UInt64.lt_iff_toNat_lt.mp hne⟩
    exact lt_of_le_of_lt (Nat.div_le_div_right this) hn

end Guard

/-! ## The allocator over checked words -/

/-- Calls of `alloc_pages` over the words that `tbl` finds at an address. -/
def allocPagesRunVia (tbl : UInt64 → WordTable State Stop) :
    List (UInt64 × UInt64) → M (List ((UInt64 × UInt64) × UInt64)) :=
  callsRun (allocPagesVia tbl)

/-- The first `n` words at an address of memory; an access behind them stops with
`e`. -/
def checkedTable (n : Nat) (e : Stop) (base : UInt64) : WordTable State Stop :=
  (memTable base).guard n e

theorem naiveAllocatorInitVia_checked {e820 : E820Map} {pml : PmemLayout} {n : Nat}
    (hheap : pml.vmmHeapEnd.toNat ≤ 2 ^ 64 - 4096) (himg : pml.imageStop ≤ 2 ^ 64 - 4096)
    (hn : (getMaxPfn e820).toNat / 64 < n) (e : Stop) (endSym : UInt64) :
    naiveAllocatorInitVia (checkedTable n e) endSym e820 pml =
      naiveAllocatorInit endSym e820 pml := by
  have hinit : initAllocBitmap e820 (checkedTable n e (VIRT (bitmapStart endSym)))
      (initLayout endSym pml) =
      initAllocBitmap e820 (memTable (VIRT (bitmapStart endSym))) (initLayout endSym pml) :=
    initAllocBitmap_guard _ e hheap himg hn
  rw [naiveAllocatorInit, naiveAllocatorInitVia, naiveAllocatorInitVia]
  dsimp only
  simp only [← bitmapStart.eq_def, ← bitmapSize.eq_def, ← initLayout.eq_def, hinit]

/-- A run of calls never goes behind the words that cover `max_page`. -/
theorem allocPagesRunVia_checked {a n : Nat} (e : Stop) :
    ∀ (calls : List (UInt64 × UInt64)) (s : State),
      bootTranslate s.nalloc.allocBitmap (8 * n) = some a →
      s.nalloc.maxPage.toNat / 64 < n → (∀ c ∈ calls, AllocArgs c.1 c.2) →
      allocPagesRunVia (checkedTable n e) calls s = allocPagesRun calls s := by
  intro calls
  unfold allocPagesRunVia allocPagesRun
  induction calls with
  | nil =>
    intro s _ _ _
    rw [callsRun, callsRun]
  | cons c calls ih =>
    intro s hmapped hn hcalls
    have hle := bootTranslate_le hmapped
    have hargs := hcalls c List.mem_cons_self
    have hone : allocPagesVia (checkedTable n e) c.1 c.2 s = allocPages c.1 c.2 s := by
      have hget : (get : M State) s = .ok (s, s) := rfl
      rw [allocPages, allocPagesVia, allocPagesVia, bind_of_ok hget, bind_of_ok hget,
        checkedTable, allocBootPages_guard _ e (by omega) hargs hn]
    rw [callsRun, callsRun]
    cases hrun : allocPages c.1 c.2 s with
    | error e' => rw [bind_of_error (hone.trans hrun), bind_of_error hrun]
    | ok p =>
      obtain ⟨r, s₁⟩ := p
      have hnalloc : s₁.nalloc = s.nalloc :=
        wp_ok (wp_allocPages_least hargs hmapped hn (E := fun _ => True)
          (Q := fun _ s₁ => s₁.nalloc = s.nalloc) (fun _ _ h _ _ => h) fun _ => trivial) hrun
      have htail := ih s₁ (by rwa [hnalloc]) (by rwa [hnalloc])
        fun c' hc' => hcalls c' (List.mem_cons_of_mem _ hc')
      rw [bind_of_ok (hone.trans hrun), bind_of_ok hrun]
      cases hrest : callsRun allocPages calls s₁ with
      | error e' => rw [bind_of_error (htail.trans hrest), bind_of_error hrest]
      | ok q => rw [bind_of_ok (htail.trans hrest), bind_of_ok hrest]

/-- No access to the bitmap is out of range: with a check of every index against
the size of the bitmap the functions do the same, over any words, and so do
`naive_allocator_init` and every later sequence of calls. -/
theorem bitmap_inRange {e820 : E820Map} {pml : PmemLayout}
    (hmax : pml.maxPage = getMaxPfn e820) (hheap : pml.vmmHeapEnd.toNat ≤ 2 ^ 64 - 4096)
    (himg : pml.imageStop ≤ 2 ^ 64 - 4096) (e : Stop) :
    (∀ {σ : Type} (T : WordTable σ Stop),
      initAllocBitmap e820 (T.guard ((bitmapSize pml.maxPage).toNat / 8) e) pml =
        initAllocBitmap e820 T pml ∧
      ∀ nr al, AllocArgs nr al →
        allocBootPages (T.guard ((bitmapSize pml.maxPage).toNat / 8) e) pml.maxPage nr al =
          allocBootPages T pml.maxPage nr al) ∧
    ∀ endSym s pml' s₁, naiveAllocatorInit endSym e820 pml s = .ok (pml', s₁) →
      naiveAllocatorInitVia (checkedTable ((bitmapSize pml.maxPage).toNat / 8) e)
        endSym e820 pml s = .ok (pml', s₁) ∧
      ∀ calls, (∀ c ∈ calls, AllocArgs c.1 c.2) →
        allocPagesRunVia (checkedTable ((bitmapSize pml.maxPage).toNat / 8) e) calls s₁ =
          allocPagesRun calls s₁ := by
  have hlt : pml.maxPage.toNat < 2 ^ 52 := hmax ▸ getMaxPfn_lt e820
  have hsize := toNat_bitmapSize hlt
  have hn : pml.maxPage.toNat / 64 < (bitmapSize pml.maxPage).toNat / 8 := by omega
  have hn' : (getMaxPfn e820).toNat / 64 < (bitmapSize pml.maxPage).toNat / 8 := by
    rwa [← hmax]
  constructor
  · intro σ T
    exact ⟨initAllocBitmap_guard T e hheap himg hn', fun nr al hargs =>
      allocBootPages_guard T e (Nat.le_of_lt hlt) hargs hn⟩
  · intro endSym s pml' s₁ hinit
    obtain ⟨a, hready⟩ := bitmapReady_of_init hmax hheap himg hinit
    refine ⟨?_, fun calls hcalls =>
      allocPagesRunVia_checked e calls s₁ hready.mapped hready.covers hcalls⟩
    rw [naiveAllocatorInitVia_checked hheap himg hn', hinit]

/-- The sample machine. -/
theorem sample_bitmap_inRange : ∃ s₁,
    naiveAllocatorInit sampleEnd sampleMap sampleLayout sampleState =
      .ok (initLayout sampleEnd sampleLayout, s₁) ∧
    naiveAllocatorInitVia (checkedTable ((bitmapSize sampleLayout.maxPage).toNat / 8) .hang)
      sampleEnd sampleMap sampleLayout sampleState =
        .ok (initLayout sampleEnd sampleLayout, s₁) ∧
    ∀ calls, (∀ c ∈ calls, AllocArgs c.1 c.2) →
      allocPagesRunVia (checkedTable ((bitmapSize sampleLayout.maxPage).toNat / 8) .hang)
        calls s₁ = allocPagesRun calls s₁ := by
  obtain ⟨L, s₁, hinit, -⟩ := sample_init sampleState
  exact ⟨s₁, hinit,
    (bitmap_inRange (by decide) (by decide) (by decide) .hang).2 _ _ _ _ hinit⟩

end Tvmm
