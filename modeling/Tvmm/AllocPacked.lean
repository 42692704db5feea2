import Tvmm.AllocContract

/-!
# Where the next call lands

`alloc_pages` searches from frame 0 on.  When the frames below `j` are all
allocated and those from `j` on are free (`Packed`), a call takes the frames from
`j` on, and leaves the allocator in the same shape.  So it is known which frames a
sequence of calls gets.

`allocPages_contract_above` is the contract of an allocator that has no free frame
below `j`: it keeps clear of that part of memory.
-/

namespace Tvmm

open Exec

/-- The frames below `j` are allocated, and those in `[j, K)` are free. -/
structure Packed (L : AllocLayout) (j K : Nat) (s : State) : Prop where
  inv : AllocInv L s
  le : j ≤ K
  lt_maxPage : K < s.nalloc.maxPage.toNat
  busy : ∀ f, f < j → L.Busy s f
  free : ∀ f, j ≤ f → f < K → ¬L.Busy s f

namespace Packed

variable {L : AllocLayout} {j K : Nat} {s s' : State} {E : Stop → Prop} {nr al : UInt64}

/-- A write outside the bitmap keeps the shape. -/
theorem of_onlyWrites (h : Packed L j K s) {X : Set Nat} (hw : OnlyWrites X s s')
    (hd : Disjoint X L.bytes) : Packed L j K s' := by
  have hcovers := h.inv.covers
  have hK := h.lt_maxPage
  have hle := h.le
  have hbusy : ∀ f, f < K → (L.Busy s' f ↔ L.Busy s f) := fun f hf =>
    AllocLayout.busy_congr (by omega) (hw.eqOn hd)
  refine ⟨h.inv.of_onlyWrites hw hd, hle, by rwa [hw.nalloc], fun f hf => ?_, fun f hf hf' => ?_⟩
  · exact (hbusy f (by omega)).mpr (h.busy f hf)
  · rw [hbusy f hf']
    exact h.free f hf hf'

/-- A call whose alignment divides `j` takes the frames from `j` on. -/
theorem wp_allocPages (h : Packed L j K s) (hargs : AllocArgs nr al) (hnr : nr.toNat ≠ 0)
    (hal : al.toNat ∣ j) (hle : j + nr.toNat ≤ K) {Q : UInt64 → State → Prop}
    (hQ : ∀ r s', r.toNat = j → Allocated L nr al r s s' → Packed L (j + nr.toNat) K s' →
      Q r s') :
    wp (allocPages nr al) Q E s := by
  have hroom : Room E L j K s := Or.inl ⟨h.lt_maxPage, h.free⟩
  refine Tvmm.wp_allocPages h.inv hargs hroom hal (Nat.le_refl j) hle fun r s' hr => ?_
  have hlo : j ≤ r.toNat := by
    by_contra hlt
    exact hr.free r.toNat (mem_rangeFrames.mpr ⟨Nat.le_refl _, by omega⟩)
      (h.busy _ (by omega))
  have hhi : r.toNat ≤ j := by
    by_contra hlt
    obtain ⟨f, hf, hf', hb⟩ := hr.first j hal (by omega)
    exact h.free f hf (by omega) hb
  have hrj : r.toNat = j := Nat.le_antisymm hhi hlo
  refine hQ r s' hrj hr ⟨hr.inv h.inv, hle, by rw [hr.nalloc]; exact h.lt_maxPage,
    fun f hf => (hr.busy f).mpr ?_, fun f hf hf' hb => ?_⟩
  · by_cases hfj : f < j
    · exact Or.inr (h.busy f hfj)
    · exact Or.inl (mem_rangeFrames.mpr ⟨by omega, by omega⟩)
  · rcases (hr.busy f).mp hb with hin | hb
    · rw [mem_rangeFrames] at hin
      omega
    · exact h.free f (by omega) hf' hb

end Packed

/-- The frames that a call returned do not meet the bitmap. -/
theorem Allocated.disjoint {L : AllocLayout} {nr al r : UInt64} {s s' : State}
    (h : Allocated L nr al r s s') (hinv : AllocInv L s) :
    ∀ f ∈ rangeFrames (r, nr), Disjoint (frameBytes f) L.bytes := by
  intro f hf
  have hmax := h.lt_maxPage
  refine AllocLayout.frameBytes_disjoint (hinv.free_safe f ?_ (h.free f hf))
  rw [mem_rangeFrames] at hf
  omega

/-- Allocating pages from `j` on and filling them. -/
theorem Packed.wp_alloc_memset {L : AllocLayout} {j K : Nat} {s : State} {nr al size : UInt64}
    {c : UInt8} (h : Packed L j K s) (hargs : AllocArgs nr al) (hnr : nr.toNat ≠ 0)
    (hal : al.toNat ∣ j) (hle : j + nr.toNat ≤ K) (hsize : size.toNat = nr.toNat * 4096)
    {α : Type} {f : UInt64 → M α} {Q : α → State → Prop}
    (hQ : ∀ r s', r.toNat = j → Packed L (j + nr.toNat) K s' →
      (∀ g ∈ rangeFrames (r, nr), Disjoint (frameBytes g) L.bytes) →
      wp (f r) Q (fun _ => True) s') :
    wp (do
      let pfn ← allocPages nr al
      memset (VIRT (pfn <<< PAGE_SHIFT)) c size
      f pfn : M α) Q (fun _ => True) s := by
  have hmax := h.inv.maxPage_le
  have hlt := h.lt_maxPage
  rw [wp_bind]
  refine h.wp_allocPages hargs hnr hal hle fun r s₁ hr hall h₁ => ?_
  have hd := hall.disjoint h.inv
  rw [wp_bind]
  refine wp_memset_range (by omega) hsize (Or.inr fun _ => trivial) fun s₂ honly _ _ => ?_
  exact hQ r s₂ hr (h₁.of_onlyWrites honly (rangeBytes_disjoint hd)) hd

/-- When no frame below `j` is free, the allocator keeps clear of them. -/
theorem allocPages_contract_above (L : AllocLayout) (j : Nat) :
    AllocContract allocPages (fun _ => True) (L.bytes ∪ {a | a / 4096 < j}) fun _ s =>
      AllocInv L s ∧ j ≤ s.nalloc.maxPage.toNat ∧ ∀ f, f < j → L.Busy s f := by
  have hA := allocPages_contract_returns L
  constructor
  · exact fun _ h => h
  · rintro k X s s' ⟨hinv, hle, hbusy⟩ honly hd
    have hd' := hd.mono_right Set.subset_union_left
    have hcovers := hinv.covers
    refine ⟨hinv.of_onlyWrites honly hd', by rwa [honly.nalloc], fun f hf => ?_⟩
    exact (AllocLayout.busy_congr (by omega) (honly.eqOn hd')).mpr (hbusy f hf)
  · rintro k s nr al hargs ⟨hinv, hle, hbusy⟩
    have hcall : wp (allocPages nr al) (fun r s' => Allocated L nr al r s s')
        (fun _ => True) s :=
      wp_allocPages hinv hargs (Room.of_fail trivial L 0 _ s) (Nat.dvd_zero _)
        (Nat.le_refl 0) (Nat.le_refl _) fun _ _ hr => hr
    refine wp_mono (wp_and (hA.alloc (k := 0) hargs hinv) hcall) ?_ fun _ _ => trivial
    rintro r s' ⟨⟨hinv', hres⟩, hr⟩
    refine ⟨⟨hinv', by rwa [hr.nalloc], fun f hf => (hr.busy f).mpr (Or.inr (hbusy f hf))⟩,
      hres.aligned, hres.le, fun f hf => ?_, Or.inr fun _ => trivial, ?_⟩
    · refine Set.disjoint_union_right.mpr ⟨hres.disjoint f hf, Set.disjoint_left.mpr ?_⟩
      intro a ha hlow
      rw [mem_frameBytes] at ha
      exact hr.free f hf (hbusy f (ha ▸ hlow))
    · exact hres.evolves.mono (Set.subset_union_of_subset_left Set.subset_union_left _)

/-- The sample machine hands out the frames from 16 MB on. -/
theorem sample_packed {L : AllocLayout} {s s₁ : State}
    (hready : AllocatorReady sampleEnd sampleMap sampleLayout L s s₁) :
    Packed L 4096 131072 s₁ := by
  have hmax : s₁.nalloc.maxPage.toNat = 2097152 := by
    rw [hready.maxPage]
    rfl
  refine ⟨hready.inv, by decide, by omega, fun f hf => ?_, fun f hf hf' => ?_⟩
  · by_contra hb
    have := (sample_free_iff hready (by omega)).mp hb
    omega
  · exact (sample_free_iff hready (by omega)).mpr (Or.inl ⟨hf, hf'⟩)

end Tvmm
