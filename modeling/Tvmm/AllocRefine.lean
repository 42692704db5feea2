import Tvmm.AllocExact
import Tvmm.FreeSet
import Tvmm.Lib.FirstFit
import Tvmm.Lib.Simulation

/-!
# The allocator is first-fit over the usable pages

The bitmap, its words and its masks are a representation.  What they represent is
the set of the frames that `allocated_in_map` finds free (`freeFrames`).  Under this
abstraction `alloc_pages` is `FirstFit.take` (`allocPages_refines`), and what the
callers write in between makes no difference as long as it is not the bitmap.  After
`naive_allocator_init` the set is that of the usable pages, so a whole run of calls
is a run of `FirstFit.run` from there (`clientRun_refines`).

What holds of every first-fit allocator then holds of this one: no frame is lost
between the calls, and calls for one page get the usable pages in ascending order
(`clientRun_ascending`).
-/

namespace Tvmm

open Exec Bitmap FirstFit

/-- What the rest of the VMM does to the allocator: it calls `alloc_pages`, or writes a
byte of physical memory. -/
inductive ClientStep where
  | allocPages (nrPfns pfnAlign : UInt64)
  | store (a : Nat) (b : UInt8)

/-- Step after step.  The result lists the calls with the frame that each of them
returned. -/
def clientRun : List ClientStep → M (List ((UInt64 × UInt64) × UInt64))
  | [] => pure []
  | .allocPages nr al :: steps => do
      let r ← allocPages nr al
      let out ← clientRun steps
      return ((nr, al), r) :: out
  | .store a b :: steps => do
      modify fun s => { s with mem := Function.update s.mem a b }
      clientRun steps

/-- The arguments of the calls are in range, and the bytes `X` are not written. -/
def ClientStep.Spares (X : Set Nat) : ClientStep → Prop
  | .allocPages nr al => AllocArgs nr al
  | .store a _ => a ∉ X

/-- The physical addresses of the bitmap. -/
def bitmapBytes (s : State) : Set Nat :=
  {x | ∃ a, bootTranslate s.nalloc.allocBitmap (bitmapSize s.nalloc.maxPage).toNat = some a ∧
    a ≤ x ∧ x < a + (bitmapSize s.nalloc.maxPage).toNat}

/-- The frames that `allocated_in_map` finds free. -/
def freeFrames (s : State) : Set Nat :=
  {f | ∃ pfn < s.nalloc.maxPage, pfn.toNat = f ∧
    allocatedInMap (memTable s.nalloc.allocBitmap) pfn s = .ok (false, s)}

/-- The request that a call makes. -/
def request (nr al : UInt64) : Request := { nr := nr.toNat, align := al.toNat }

/-- The requests among the steps. -/
def requests : List ClientStep → List Request
  | [] => []
  | .allocPages nr al :: steps => request nr al :: requests steps
  | .store _ _ :: steps => requests steps

/-- A call with its frame, as an answered request. -/
def answer (o : (UInt64 × UInt64) × UInt64) : Request × Nat := (request o.1.1 o.1.2, o.2.toNat)

section Refine

variable {s : State} {a n : Nat}

theorem mem_freeFrames (hmapped : bootTranslate s.nalloc.allocBitmap (8 * n) = some a)
    (hn : s.nalloc.maxPage.toNat / 64 < n) {f : Nat} :
    f ∈ freeFrames s ↔ f < s.nalloc.maxPage.toNat ∧ bit (memWords a s) f = false := by
  have hread : ∀ pfn : UInt64, pfn.toNat < s.nalloc.maxPage.toNat →
      allocatedInMap (memTable s.nalloc.allocBitmap) pfn s =
        .ok (bit (memWords a s) pfn.toNat, s) := by
    intro pfn hpfn
    have hwp : wp (allocatedInMap (memTable s.nalloc.allocBitmap) pfn)
        (fun b s' => b = bit (memWords a s) pfn.toNat ∧ s' = s) (fun _ => False) s :=
      wp_allocatedInMap (memTable_lawful hmapped).readable (by omega) ⟨rfl, rfl⟩
    obtain ⟨b, s', hrun, rfl, rfl⟩ := exists_ok_of_wp hwp
    exact hrun
  constructor
  · rintro ⟨pfn, hlt, rfl, hfree⟩
    rw [UInt64.lt_iff_toNat_lt] at hlt
    rw [hread pfn hlt] at hfree
    cases hb : bit (memWords a s) pfn.toNat with
    | false => exact ⟨hlt, rfl⟩
    | true =>
      rw [hb] at hfree
      cases hfree
  · rintro ⟨hlt, hb⟩
    have hf : (UInt64.ofNat f).toNat = f := by
      have := s.nalloc.maxPage.toNat_lt
      rw [UInt64.toNat_ofNat']
      omega
    refine ⟨UInt64.ofNat f, UInt64.lt_iff_toNat_lt.mpr (by rwa [hf]), hf, ?_⟩
    rw [hread _ (by rwa [hf]), hf, hb]

/-- The places for a request are the starts that `alloc_boot_pages` looks for. -/
theorem places_freeFrames (hmapped : bootTranslate s.nalloc.allocBitmap (8 * n) = some a)
    (hn : s.nalloc.maxPage.toNat / 64 < n) (nr al : UInt64) :
    places s.nalloc.maxPage.toNat (request nr al) (freeFrames s) =
      candidates (memWords a s) s.nalloc.maxPage.toNat nr.toNat al.toNat := by
  ext c
  constructor
  · rintro ⟨hdvd, hsub, hlt⟩
    refine ⟨⟨hdvd, fun f hf hf' => ?_⟩, hlt⟩
    exact ((mem_freeFrames hmapped hn).mp (hsub ⟨hf, hf'⟩)).2
  · rintro ⟨⟨hdvd, hfree⟩, hlt⟩
    refine ⟨hdvd, fun f hf => (mem_freeFrames hmapped hn).mpr ?_, hlt⟩
    exact ⟨lt_trans hf.2 hlt, hfree f hf.1 hf.2⟩

/-- `alloc_pages` is `take` on the free frames. -/
theorem allocPages_refines (hmapped : bootTranslate s.nalloc.allocBitmap (8 * n) = some a)
    (hn : s.nalloc.maxPage.toNat / 64 < n) {nr al : UInt64} (hargs : AllocArgs nr al) :
    EndsAlike (allocPages nr al)
      (take allocBootPagesFailure s.nalloc.maxPage.toNat (request nr al))
      (fun r s' c free => s'.nalloc = s.nalloc ∧ r.toNat = c ∧ free = freeFrames s')
      s (freeFrames s) := by
  have hplaces := places_freeFrames hmapped hn nr al
  apply EndsAlike.of_wp
  apply wp_allocPages_least hargs hmapped hn
  · intro r s' hnalloc hleast hset
    rw [← hplaces] at hleast
    refine ⟨r.toNat, _, take_of_isLeast hleast, hnalloc, rfl, ?_⟩
    have hmapped' : bootTranslate s'.nalloc.allocBitmap (8 * n) = some a := by rwa [hnalloc]
    have hn' : s'.nalloc.maxPage.toNat / 64 < n := by rwa [hnalloc]
    ext f
    rw [Set.mem_sdiff, mem_freeFrames hmapped hn, mem_freeFrames hmapped' hn', hnalloc, hset f]
    show _ ∧ ¬(r.toNat ≤ f ∧ f < r.toNat + nr.toNat) ↔ _
    by_cases hin : r.toNat ≤ f ∧ f < r.toNat + nr.toNat
    · simp [hin]
    · simp [hin]
  · intro hnone
    exact take_of_eq_empty (hplaces.trans hnone)

/-- A write outside the bitmap does not show. -/
theorem freeFrames_congr {s' : State} (hnalloc : s'.nalloc = s.nalloc)
    (hmapped : bootTranslate s.nalloc.allocBitmap (8 * n) = some a)
    (hn : s.nalloc.maxPage.toNat / 64 < n)
    (hmem : Set.EqOn s'.mem s.mem (Set.Ico a (a + 8 * n))) : freeFrames s' = freeFrames s := by
  have hmapped' : bootTranslate s'.nalloc.allocBitmap (8 * n) = some a := by rwa [hnalloc]
  have hn' : s'.nalloc.maxPage.toNat / 64 < n := by rwa [hnalloc]
  ext f
  rw [mem_freeFrames hmapped hn, mem_freeFrames hmapped' hn', hnalloc]
  refine and_congr_right fun hf => ?_
  have hword : memWords a s' (f / 64) = memWords a s (f / 64) := by
    refine ByteMem.read64_congr fun y hy => hmem ?_
    rw [Set.mem_Ico] at hy ⊢
    omega
  rw [bit, bit, hword]

/-- A run of calls, with writes in between, is a run of the first-fit allocator. -/
theorem clientRun_endsAlike : ∀ (steps : List ClientStep) (s : State),
    bootTranslate s.nalloc.allocBitmap (8 * n) = some a → s.nalloc.maxPage.toNat / 64 < n →
    (∀ st ∈ steps, st.Spares (Set.Ico a (a + 8 * n))) →
    EndsAlike (clientRun steps)
      (run allocBootPagesFailure s.nalloc.maxPage.toNat (requests steps))
      (fun out s' out' free => out.map answer = out' ∧ s'.nalloc = s.nalloc ∧
        free = freeFrames s') s (freeFrames s) := by
  intro steps
  induction steps with
  | nil =>
    intro s _ _ _
    rw [clientRun, requests, run]
    exact .pure ⟨rfl, rfl, rfl⟩
  | cons st steps ih =>
    intro s hmapped hn hsteps
    have hst := hsteps st List.mem_cons_self
    have hrest := fun st' h => hsteps st' (List.mem_cons_of_mem st h)
    cases st with
    | allocPages nr al =>
      rw [clientRun, requests, run]
      refine (allocPages_refines hmapped hn hst).bind ?_
      rintro r s₁ _ _ ⟨hnalloc, rfl, rfl⟩
      have htail := ih s₁ (by rwa [hnalloc]) (by rwa [hnalloc]) hrest
      rw [hnalloc] at htail
      refine htail.bind ?_
      rintro out s₂ _ _ ⟨rfl, hnalloc₂, rfl⟩
      exact .pure ⟨rfl, hnalloc₂, rfl⟩
    | store x b =>
      rw [clientRun, requests]
      have hfree : freeFrames { s with mem := Function.update s.mem x b } = freeFrames s := by
        refine freeFrames_congr (show (State.mk _ s.nalloc _).nalloc = s.nalloc from rfl)
          hmapped hn ?_
        intro y hy
        apply Function.update_of_ne
        rintro rfl
        exact hst hy
      have htail := ih { s with mem := Function.update s.mem x b } hmapped hn hrest
      rw [hfree] at htail
      exact EndsAlike.step_left rfl htail

end Refine

/-! ## The sample machine -/

theorem sample_placedImage : PlacedImage sampleMap placedLayout :=
  ⟨{ addr := 0, size := 0x20000000, type := E820_RAM }, List.mem_cons_self, rfl, by decide,
    Or.inl ⟨rfl, by decide⟩⟩

theorem sample_ramApart : sampleMap.RamApart :=
  List.pairwise_pair.mpr fun _ _ => by decide

/-- The allocator starts on the sample machine with the image at the end of the heap. -/
theorem sample_placed_init : ∃ s₁,
    naiveAllocatorInit sampleEnd sampleMap placedLayout sampleState =
      .ok (initLayout sampleEnd placedLayout, s₁) ∧
    ∀ x ∈ bitmapBytes s₁, x < 0x241000 := by
  have hmapped : Accessible (fun _ => False) (VIRT (bitmapStart sampleEnd))
      (bitmapSize placedLayout.maxPage).toNat :=
    Or.inl ⟨0x200000, fun _ => by decide⟩
  have hmax : placedLayout.maxPage = getMaxPfn sampleMap := by decide
  have hwp : wp (naiveAllocatorInit sampleEnd sampleMap placedLayout) (fun pml s₁ =>
      pml = initLayout sampleEnd placedLayout ∧ s₁.nalloc =
        { allocBitmap := VIRT (bitmapStart sampleEnd), maxPage := placedLayout.maxPage })
      (fun _ => False) sampleState :=
    wp_naiveAllocatorInit_bitmap hmax (by decide) (by decide) (Or.inl (by decide)) hmapped
      fun _ _ h => ⟨rfl, h.nalloc⟩
  obtain ⟨pml, s₁, hinit, rfl, hnalloc⟩ := exists_ok_of_wp hwp
  refine ⟨s₁, hinit, ?_⟩
  rintro x ⟨a, ha, -, hlt⟩
  rw [hnalloc] at ha hlt
  have hat : bootTranslate (VIRT (bitmapStart sampleEnd))
      (bitmapSize placedLayout.maxPage).toNat = some 0x200000 := by decide
  rw [hat] at ha
  cases ha
  exact hlt

/-! ## From `naive_allocator_init` on -/

section Boot

variable {endSym : UInt64} {e820 : E820Map} {pml pml' : PmemLayout} {s s₁ : State}

/-- After `naive_allocator_init` exactly the usable pages are free. -/
theorem freeFrames_init (hmax : pml.maxPage = getMaxPfn e820)
    (hwrap : ∀ p ∈ e820.map, p.NoWrap) (hapart : e820.RamApart) (hplace : PlacedImage e820 pml)
    (hinit : naiveAllocatorInit endSym e820 pml s = .ok (pml', s₁)) :
    freeFrames s₁ = {f | UsablePage e820 pml f} := by
  obtain ⟨hheap, himg, -⟩ := hplace.bounds hwrap
  obtain ⟨a, hready⟩ := bitmapReady_of_init hmax hheap himg hinit
  have hsize := hready.size
  have hmax₁ := hready.maxPage_eq
  ext f
  rw [mem_freeFrames hready.mapped hready.covers, hmax₁, Set.mem_ofPred_eq,
    ← freedBy_iff_usablePage hwrap hapart hplace f]
  constructor
  · rintro ⟨hlt, hfree⟩
    exact (hready.free_iff f (by omega)).mp hfree
  · intro hfreed
    obtain ⟨p, hp, hram, hmem⟩ := hfreed
    have hlt : f < pml.maxPage.toNat := by
      rw [hmax]
      exact lt_of_lt_of_le hmem.2 (stop_le_getMaxPfn hheap himg hp hram ⟨f, hmem⟩)
    exact ⟨hlt, (hready.free_iff f (by omega)).mpr ⟨p, hp, hram, hmem⟩⟩

/-- The steps that spare the bitmap keep to the first-fit allocator. -/
theorem clientRun_endsAlike_init (hmax : pml.maxPage = getMaxPfn e820)
    (hwrap : ∀ p ∈ e820.map, p.NoWrap) (hapart : e820.RamApart) (hplace : PlacedImage e820 pml)
    (hinit : naiveAllocatorInit endSym e820 pml s = .ok (pml', s₁)) {steps : List ClientStep}
    (hsteps : ∀ st ∈ steps, st.Spares (bitmapBytes s₁)) :
    EndsAlike (clientRun steps)
      (run allocBootPagesFailure pml.maxPage.toNat (requests steps))
      (fun out s' out' free => out.map answer = out' ∧ s'.nalloc = s₁.nalloc ∧
        free = freeFrames s') s₁ {f | UsablePage e820 pml f} := by
  obtain ⟨hheap, himg, -⟩ := hplace.bounds hwrap
  obtain ⟨a, hready⟩ := bitmapReady_of_init hmax hheap himg hinit
  rw [← freeFrames_init hmax hwrap hapart hplace hinit, ← hready.maxPage_eq]
  apply clientRun_endsAlike steps s₁ hready.mapped hready.covers
  intro st hst
  have hspares := hsteps st hst
  cases st with
  | allocPages nr al => exact hspares
  | store x b =>
    rintro ⟨hlo, hhi⟩
    refine hspares ⟨a, ?_, hlo, ?_⟩
    · rw [hready.nalloc]
      exact hready.bitmap
    · rw [hready.words] at hhi
      rwa [hready.maxPage_eq]

open Classical in
/-- The usable pages that can be handed out: all but the last frame. -/
noncomputable def usablePages (e820 : E820Map) (pml : PmemLayout) : Finset Nat :=
  (Finset.range (pml.maxPage.toNat - 1)).filter fun f => UsablePage e820 pml f

theorem mem_usablePages {f : Nat} : f ∈ usablePages e820 pml ↔
    f ∈ {f | UsablePage e820 pml f} ∧ f + 1 < pml.maxPage.toNat := by
  unfold usablePages
  simp only [Finset.mem_filter, Finset.mem_range, Set.mem_ofPred_eq]
  constructor
  · rintro ⟨hlt, hf⟩
    exact ⟨hf, by omega⟩
  · rintro ⟨hf, hlt⟩
    exact ⟨by omega, hf⟩

/-- `m` calls for one page each, from `naive_allocator_init` on, return the first `m` usable
pages in ascending order.  They fail exactly if there are fewer. -/
theorem clientRun_ascending (hmax : pml.maxPage = getMaxPfn e820)
    (hwrap : ∀ p ∈ e820.map, p.NoWrap) (hapart : e820.RamApart) (hplace : PlacedImage e820 pml)
    (hinit : naiveAllocatorInit endSym e820 pml s = .ok (pml', s₁)) {steps : List ClientStep}
    (hsteps : ∀ st ∈ steps, st.Spares (bitmapBytes s₁)) {m : Nat}
    (hones : requests steps = List.replicate m one) :
    wp (clientRun steps) (fun out _ => m ≤ (usablePages e820 pml).card ∧
        (out.map fun o => o.2.toNat) = (usablePages e820 pml).sort.take m)
      (fun e => e = allocBootPagesFailure ∧ (usablePages e820 pml).card < m) s₁ := by
  have hends := clientRun_endsAlike_init hmax hwrap hapart hplace hinit hsteps
  rw [hones] at hends
  refine wp_imp (hends.wp (wp_run_ones m _ _ fun _ => mem_usablePages)) ?_
  rintro out s' ⟨_, _, ⟨rfl, -, -⟩, hle, hout⟩
  rw [List.map_map] at hout
  exact ⟨hle, hout⟩

theorem sample_clientRun_ascending : ∃ s₁,
    naiveAllocatorInit sampleEnd sampleMap placedLayout sampleState =
      .ok (initLayout sampleEnd placedLayout, s₁) ∧
    wp (clientRun [.allocPages 1 1, .store 0x300000 7, .allocPages 1 1])
      (fun out _ => 2 ≤ (usablePages sampleMap placedLayout).card ∧
        (out.map fun o => o.2.toNat) = (usablePages sampleMap placedLayout).sort.take 2)
      (fun e => e = allocBootPagesFailure ∧ (usablePages sampleMap placedLayout).card < 2)
      s₁ := by
  obtain ⟨s₁, hinit, hbitmap⟩ := sample_placed_init
  refine ⟨s₁, hinit, clientRun_ascending (by decide) sample_bootLayout.noWrap sample_ramApart
    sample_placedImage hinit ?_ (m := 2) rfl⟩
  intro st hst
  simp only [List.mem_cons, List.not_mem_nil, or_false] at hst
  rcases hst with rfl | rfl | rfl
  · exact (by decide : AllocArgs 1 1)
  · exact fun h => absurd (hbitmap _ h) (by decide)
  · exact (by decide : AllocArgs 1 1)

end Boot

end Tvmm
