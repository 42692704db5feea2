import Mathlib.Order.Bounds.Basic
import Tvmm.AllocInv

/-!
# One call of `alloc_pages`, exactly

A call takes the first aligned range of free frames that ends below `max_page`,
marks it, and changes no other bit; it fails when there is no such range, and
then it makes no store.  This is `allocPages_exact`, for the words of any table
as well as for the bitmap in memory.

The search stops one frame early: a range that ends at `max_page` itself is
never taken.  `allocPages_failsOnlyWhenFull` says when this shows.
-/

namespace Tvmm

open Exec Bitmap

/-- An aligned range of `nr` free frames starts at `c`. -/
def FreeStart (w : Nat → UInt64) (nr al c : Nat) : Prop := al ∣ c ∧ AllFree w c nr

/-- The starts that `alloc_boot_pages` looks at. -/
def candidates (w : Nat → UInt64) (maxPage nr al : Nat) : Set Nat :=
  {c | FreeStart w nr al c ∧ c + nr < maxPage}

section Exact

variable {σ : Type} {T : WordTable σ Stop} {n : Nat} {view : σ → Nat → UInt64}
  {rest : σ → σ → Prop} {s : σ} {maxPage nr al : UInt64}

/-- The call returns the least candidate and marks its range, or fails for want
of a candidate. -/
def TakesLeast (c : Exec σ Stop UInt64) (view : σ → Nat → UInt64)
    (maxPage nr al : UInt64) (s : σ) : Prop :=
  wp c
    (fun r s' => IsLeast (candidates (view s) maxPage.toNat nr.toNat al.toNat) r.toNat ∧
      SetRange true (view s) (view s') r.toNat (r.toNat + nr.toNat))
    (fun e => e = allocBootPagesFailure ∧
      candidates (view s) maxPage.toNat nr.toNat al.toNat = ∅) s

theorem candidates_eq_empty {w : Nat → UInt64} {maxPage nr al : Nat}
    (h : ∀ c, al ∣ c → c + nr < maxPage → ¬AllFree w c nr) :
    candidates w maxPage nr al = ∅ := by
  rw [Set.eq_empty_iff_forall_notMem]
  rintro c ⟨⟨hdvd, hfree⟩, hlt⟩
  exact h c hdvd hlt hfree

theorem isLeast_candidates {w : Nat → UInt64} {maxPage nr al r : Nat} (hdvd : al ∣ r)
    (hlt : r + nr < maxPage) (hfree : AllFree w r nr)
    (hmin : ∀ c, al ∣ c → c < r → ¬AllFree w c nr) :
    IsLeast (candidates w maxPage nr al) r := by
  refine ⟨⟨⟨hdvd, hfree⟩, hlt⟩, ?_⟩
  rintro c ⟨⟨hc, hcfree⟩, -⟩
  by_contra hcr
  exact hmin c hc (by omega) hcfree

theorem allocBootPages_takesLeast (hT : T.Lawful n view rest)
    (hmax : maxPage.toNat ≤ 2 ^ 52) (hargs : AllocArgs nr al)
    (hn : maxPage.toNat / 64 < n) (s : σ) :
    TakesLeast (allocBootPages T maxPage nr al) view maxPage nr al s := by
  obtain ⟨hnr, hal, hal'⟩ := hargs
  refine wp_allocBootPages hT hmax hnr hal hal' hn ?_ ?_
  · intro r s' hdvd hlt hfree hmin _ hset
    exact ⟨isLeast_candidates hdvd hlt hfree hmin, hset⟩
  · intro hnone
    exact ⟨rfl, candidates_eq_empty hnone⟩

/-- A call without a candidate fails in the same way over a table that cannot be
written. -/
theorem allocBootPages_readOnly (hT : T.Readable n view) (hmax : maxPage.toNat ≤ 2 ^ 52)
    (hargs : AllocArgs nr al) (hn : maxPage.toNat / 64 < n)
    (hnone : candidates (view s) maxPage.toNat nr.toNat al.toNat = ∅) (e : Stop) :
    allocBootPages (T.readOnly e) maxPage nr al s = .error allocBootPagesFailure := by
  obtain ⟨hnr, hal, hal'⟩ := hargs
  have hwp : wp (allocBootPages (T.readOnly e) maxPage nr al) (fun _ _ => False)
      (fun e => e = allocBootPagesFailure) s := by
    refine wp_allocBootPages_search (hT.readOnly e) hmax hnr hal hal' hn ?_ ?_
    · intro r hdvd hlt hfree _
      have hmem : r.toNat ∈ candidates (view s) maxPage.toNat nr.toNat al.toNat :=
        ⟨⟨hdvd, hfree⟩, hlt⟩
      rw [hnone] at hmem
      exact hmem.elim
    · exact fun _ => rfl
  cases hrun : allocBootPages (T.readOnly e) maxPage nr al s with
  | ok p => exact (wp_ok hwp hrun).elim
  | error e' => rw [wp_error hwp hrun]

/-- `alloc_pages` is `alloc_boot_pages` over the bitmap in memory. -/
theorem wp_allocPages_least {nr al : UInt64} (hargs : AllocArgs nr al) {s : State}
    {a n : Nat} (hmapped : bootTranslate s.nalloc.allocBitmap (8 * n) = some a)
    (hn : s.nalloc.maxPage.toNat / 64 < n) {Q : UInt64 → State → Prop} {E : Stop → Prop}
    (hQ : ∀ r s', s'.nalloc = s.nalloc →
      IsLeast (candidates (memWords a s) s.nalloc.maxPage.toNat nr.toNat al.toNat) r.toNat →
      SetRange true (memWords a s) (memWords a s') r.toNat (r.toNat + nr.toNat) → Q r s')
    (hE : candidates (memWords a s) s.nalloc.maxPage.toNat nr.toNat al.toNat = ∅ →
      E allocBootPagesFailure) : wp (allocPages nr al) Q E s := by
  obtain ⟨hnr, hal, hal'⟩ := hargs
  have hle := bootTranslate_le hmapped
  rw [allocPages, allocPagesVia, wp_bind, wp_get, wp_bind]
  refine wp_allocBootPages (memTable_lawful hmapped) (by omega) hnr hal hal' hn ?_ ?_
  · intro r s' hdvd hlt hfree hmin honly hset
    rw [wp_bind, wp_modify, wp_pure]
    exact hQ r _ honly.nalloc (isLeast_candidates hdvd hlt hfree hmin) hset
  · exact fun hnone => hE (candidates_eq_empty hnone)

theorem allocPages_takesLeast {nr al : UInt64} (hargs : AllocArgs nr al) {s : State}
    {a n : Nat} (hmapped : bootTranslate s.nalloc.allocBitmap (8 * n) = some a)
    (hn : s.nalloc.maxPage.toNat / 64 < n) :
    TakesLeast (allocPages nr al) (memWords a) s.nalloc.maxPage nr al s :=
  wp_allocPages_least hargs hmapped hn (fun _ _ _ hleast hset => ⟨hleast, hset⟩)
    fun hnone => ⟨rfl, hnone⟩

end Exact

/-- A call of `alloc_pages` ends.  When it returns, then with the least multiple
of the alignment whose frames were free and end below `max_page`; exactly their
bits change, from free to allocated.  When it fails there is no such place, and
the bitmap is not written. -/
theorem allocPages_exact {nr al : UInt64} (hargs : AllocArgs nr al) :
    (∀ {σ : Type} {T : WordTable σ Stop} {n : Nat} {view : σ → Nat → UInt64}
      {rest : σ → σ → Prop}, T.Lawful n view rest → ∀ maxPage : UInt64,
      maxPage.toNat ≤ 2 ^ 52 → maxPage.toNat / 64 < n → ∀ s,
        TakesLeast (allocBootPages T maxPage nr al) view maxPage nr al s ∧
        (candidates (view s) maxPage.toNat nr.toNat al.toNat = ∅ → ∀ e,
          allocBootPages (T.readOnly e) maxPage nr al s = .error allocBootPagesFailure)) ∧
    (∀ (s : State) (a n : Nat), bootTranslate s.nalloc.allocBitmap (8 * n) = some a →
      s.nalloc.maxPage.toNat / 64 < n →
        TakesLeast (allocPages nr al) (memWords a) s.nalloc.maxPage nr al s) :=
  ⟨fun hT _ hmax hn s => ⟨allocBootPages_takesLeast hT hmax hargs hn s,
    fun hnone e => allocBootPages_readOnly hT.readable hmax hargs hn hnone e⟩,
    fun _ _ _ hmapped hn => allocPages_takesLeast hargs hmapped hn⟩

/-- Three pages on the sample machine. -/
theorem sample_allocPages_exact : ∃ (L : AllocLayout) (s₁ : State),
    naiveAllocatorInit sampleEnd sampleMap sampleLayout sampleState =
      .ok (initLayout sampleEnd sampleLayout, s₁) ∧
    TakesLeast (allocPages 3 1) (memWords L.bitmap) s₁.nalloc.maxPage 3 1 s₁ := by
  obtain ⟨L, s₁, hinit, hready, -⟩ := sample_init sampleState
  exact ⟨L, s₁, hinit, (allocPages_exact (show AllocArgs 3 1 by decide)).2 s₁ L.bitmap L.words
    hready.inv.mapped hready.inv.covers⟩

/-! ## When a call fails -/

/-- The call fails only if there is no place left, up to the last frame. -/
def FailsOnlyWhenFull {σ : Type} (c : Exec σ Stop UInt64) (view : σ → Nat → UInt64)
    (maxPage nr al : UInt64) (s : σ) : Prop :=
  c s = .error allocBootPagesFailure →
    ¬∃ r, FreeStart (view s) nr.toNat al.toNat r ∧ r + nr.toNat ≤ maxPage.toNat

/-- If the last `nr` frames are a place for the call, there is another one before
them. -/
def SparesLast (w : Nat → UInt64) (maxPage nr al : Nat) : Prop :=
  nr ≤ maxPage → FreeStart w nr al (maxPage - nr) → ∃ r, FreeStart w nr al r ∧ r + nr < maxPage

theorem TakesLeast.failsOnlyWhenFull_iff {σ : Type} {c : Exec σ Stop UInt64}
    {view : σ → Nat → UInt64} {maxPage nr al : UInt64} {s : σ}
    (h : TakesLeast c view maxPage nr al s) :
    FailsOnlyWhenFull c view maxPage nr al s ↔
      SparesLast (view s) maxPage.toNat nr.toNat al.toNat := by
  constructor
  · intro hfull hle hlast
    cases hrun : c s with
    | ok p =>
      obtain ⟨⟨hmem, -⟩, -⟩ := wp_ok h hrun
      exact ⟨_, hmem⟩
    | error e =>
      obtain ⟨rfl, -⟩ := wp_error h hrun
      exact absurd ⟨_, hlast, by omega⟩ (hfull hrun)
  · rintro hspare hrun ⟨r, hr, hle⟩
    obtain ⟨-, hnone⟩ := wp_error h hrun
    rw [Set.eq_empty_iff_forall_notMem] at hnone
    have hend : r = maxPage.toNat - nr.toNat := by
      by_contra hne
      exact hnone r ⟨hr, by omega⟩
    obtain ⟨r', hr'⟩ := hspare (by omega) (hend ▸ hr)
    exact hnone r' hr'

/-- A call that fails although there is a place for it is one whose only places
end at `max_page`. -/
theorem allocPages_failsOnlyWhenFull {nr al : UInt64} (hargs : AllocArgs nr al) :
    (∀ {σ : Type} {T : WordTable σ Stop} {n : Nat} {view : σ → Nat → UInt64}
      {rest : σ → σ → Prop}, T.Lawful n view rest → ∀ maxPage : UInt64,
      maxPage.toNat ≤ 2 ^ 52 → maxPage.toNat / 64 < n → ∀ s,
        (FailsOnlyWhenFull (allocBootPages T maxPage nr al) view maxPage nr al s ↔
          SparesLast (view s) maxPage.toNat nr.toNat al.toNat)) ∧
    (∀ (s : State) (a n : Nat), bootTranslate s.nalloc.allocBitmap (8 * n) = some a →
      s.nalloc.maxPage.toNat / 64 < n →
        (FailsOnlyWhenFull (allocPages nr al) (memWords a) s.nalloc.maxPage nr al s ↔
          SparesLast (memWords a s) s.nalloc.maxPage.toNat nr.toNat al.toNat)) :=
  ⟨fun hT _ hmax hn s => (allocBootPages_takesLeast hT hmax hargs hn s).failsOnlyWhenFull_iff,
    fun _ _ _ hmapped hn => (allocPages_takesLeast hargs hmapped hn).failsOnlyWhenFull_iff⟩

theorem sample_allocPages_failsOnlyWhenFull : ∃ (L : AllocLayout) (s₁ : State),
    naiveAllocatorInit sampleEnd sampleMap sampleLayout sampleState =
      .ok (initLayout sampleEnd sampleLayout, s₁) ∧
    (FailsOnlyWhenFull (allocPages 3 1) (memWords L.bitmap) s₁.nalloc.maxPage 3 1 s₁ ↔
      SparesLast (memWords L.bitmap s₁) s₁.nalloc.maxPage.toNat (3 : UInt64).toNat
        (1 : UInt64).toNat) := by
  obtain ⟨L, s₁, hinit, hready, -⟩ := sample_init sampleState
  exact ⟨L, s₁, hinit, (allocPages_failsOnlyWhenFull (show AllocArgs 3 1 by decide)).2 s₁
    L.bitmap L.words hready.inv.mapped hready.inv.covers⟩

/-- The sample machine has 1835008 free frames from 1 GB to the end of memory.  A
call for all of them fails. -/
theorem allocPages_not_failsOnlyWhenFull : ∃ (L : AllocLayout) (s₁ : State),
    naiveAllocatorInit sampleEnd sampleMap sampleLayout sampleState =
      .ok (initLayout sampleEnd sampleLayout, s₁) ∧
    allocPages 1835008 1 s₁ = .error allocBootPagesFailure ∧
    ¬FailsOnlyWhenFull (allocPages 1835008 1) (memWords L.bitmap) s₁.nalloc.maxPage
      1835008 1 s₁ := by
  obtain ⟨L, s₁, hinit, hready, -⟩ := sample_init sampleState
  have hnr : (1835008 : UInt64).toNat = 1835008 := rfl
  have hmax : s₁.nalloc.maxPage.toNat = 2097152 := by
    rw [hready.maxPage]
    rfl
  have hfree : ∀ f, f < 2097152 → (bit (memWords L.bitmap s₁) f = false ↔
      4096 ≤ f ∧ f < 131072 ∨ 262144 ≤ f) := by
    intro f hf
    rw [← not_busy_iff]
    exact sample_free_iff hready hf
  have hleast := allocPages_takesLeast (show AllocArgs 1835008 1 by decide)
    hready.inv.mapped hready.inv.covers
  have hfail : allocPages 1835008 1 s₁ = .error allocBootPagesFailure := by
    cases hrun : allocPages 1835008 1 s₁ with
    | error e =>
      obtain ⟨rfl, -⟩ := wp_error hleast hrun
      rfl
    | ok p =>
      obtain ⟨⟨⟨⟨-, hr⟩, hlt⟩, -⟩, -⟩ := wp_ok hleast hrun
      rw [hmax, hnr] at hlt
      rw [hnr] at hr
      -- The range would have to hold the gap below 1 GB.
      have := (hfree (max p.1.toNat 131072) (by omega)).mp (hr _ (by omega) (by omega))
      omega
  refine ⟨L, s₁, hinit, hfail, fun hfull => hfull hfail ⟨262144, ⟨one_dvd _, ?_⟩, ?_⟩⟩
  · intro f hf hf'
    rw [hnr] at hf'
    exact (hfree f (by omega)).mpr (Or.inr hf)
  · rw [hmax, hnr]

end Tvmm
