import Tvmm.E820
import Tvmm.Lib.Bitmap
import Tvmm.String

/-!
# `alloc.c`: the naive allocator

The functions over the bitmap take it as a `WordTable`, so that they run on
the words in memory (`memTable`) as well as on any other array of words.
`mapAlloc` and `mapFree` share their shape, `mapRange`, and differ in what they
do to the words.

The specifications are `wp_mapAlloc`, `wp_mapFree`, `wp_isFreeContiguousRegion`
and `wp_allocBootPages`.  They hold for every lawful table.  `mapAlloc_mapFree_bits`
says it with `allocated_in_map`, for a table that has the words of the range.
-/

set_option linter.style.nameCheck false

namespace Tvmm

open Exec Bitmap

variable {σ : Type}

def ALLOC_BITMAP_SHIFT : UInt64 := 6

/-- `get_alloc_bitmap_idx` -/
def getAllocBitmapIdx (pfn : UInt64) : UInt64 := pfn >>> ALLOC_BITMAP_SHIFT

/-- `get_alloc_bitmap_offset` -/
def getAllocBitmapOffset (pfn : UInt64) : UInt64 :=
  pfn &&& ((1 <<< ALLOC_BITMAP_SHIFT) - 1)

/-- `allocated_in_map` -/
def allocatedInMap (tbl : WordTable σ Stop) (pfn : UInt64) : Exec σ Stop Bool := do
  let idx := getAllocBitmapIdx pfn
  let offset := getAllocBitmapOffset pfn
  let w ← tbl.get idx
  return w &&& (1 <<< offset) != 0

/-- The common shape of `map_alloc` and `map_free`.  `same`, `head` and `tail`
are the new values of the only word, the first and the last word of the range,
given the offsets of the start and the end in their words; `mid` is the new
value of the words between. -/
def mapRange (same : UInt64 → UInt64 → UInt64 → UInt64)
    (head tail : UInt64 → UInt64 → UInt64) (mid : UInt64)
    (tbl : WordTable σ Stop) (firstPage nrPages : UInt64) : Exec σ Stop Unit := do
  let currIdx := getAllocBitmapIdx firstPage
  let startOff := getAllocBitmapOffset firstPage
  let endIdx := getAllocBitmapIdx (firstPage + nrPages)
  let endOff := getAllocBitmapOffset (firstPage + nrPages)
  if currIdx = endIdx then
    let w ← tbl.get currIdx
    tbl.set currIdx (same startOff endOff w)
  else
    let w ← tbl.get currIdx
    tbl.set currIdx (head startOff w)
    -- for ( curr_idx += 1; curr_idx < end_idx; curr_idx++ )
    let n := endIdx.toNat - (currIdx + 1).toNat
    forRange n fun k => tbl.set (currIdx + 1 + UInt64.ofNat k) mid
    let currIdx := currIdx + 1 + UInt64.ofNat n
    let w ← tbl.get currIdx
    tbl.set currIdx (tail endOff w)

/-- `map_alloc` -/
def mapAlloc (tbl : WordTable σ Stop) (firstPage nrPages : UInt64) :
    Exec σ Stop Unit :=
  mapRange
    (fun startOff endOff w =>
      w ||| (((1 : UInt64) <<< endOff - 1) &&& (-((1 : UInt64) <<< startOff))))
    (fun startOff w => w ||| -((1 : UInt64) <<< startOff))
    (fun endOff w => w ||| ((1 : UInt64) <<< endOff - 1))
    (~~~0) tbl firstPage nrPages

/-- `map_free` -/
def mapFree (tbl : WordTable σ Stop) (firstPage nrPages : UInt64) :
    Exec σ Stop Unit :=
  mapRange
    (fun startOff endOff w =>
      w &&& (-((1 : UInt64) <<< endOff) ||| ((1 : UInt64) <<< startOff - 1)))
    (fun startOff w => w &&& ((1 : UInt64) <<< startOff - 1))
    (fun endOff w => w &&& -((1 : UInt64) <<< endOff))
    0 tbl firstPage nrPages

/-- `struct pmem_layout` -/
structure PmemLayout where
  maxPage : UInt64
  totalPages : UInt64
  vmmHeapStart : UInt64
  vmmHeapEnd : UInt64
  guestImageStart : UInt64
  guestImageSize : UInt64
  deriving DecidableEq, Repr

/-- `__init_alloc_bitmap` -/
def __initAllocBitmap (tbl : WordTable σ Stop) (_start _end : UInt64) :
    Exec σ Stop Unit :=
  let start := PAGE_UP _start
  let e := PAGE_DOWN _end
  if e ≤ start then pure ()
  else mapFree tbl (start >>> PAGE_SHIFT) ((e - start) >>> PAGE_SHIFT)

/-- `init_alloc_bitmap` -/
def initAllocBitmap (e820 : E820Map) (tbl : WordTable σ Stop) (pml : PmemLayout) :
    Exec σ Stop Unit :=
  forEach (fun p =>
    if p.type ≠ E820_RAM then pure ()
    else
      let s := p.addr
      let e := s + p.size
      -- Skip vmm heap and guest image.
      let s := if s < pml.vmmHeapEnd then pml.vmmHeapEnd else s
      let guestImageEnd := pml.guestImageStart + pml.guestImageSize
      let s := if s < guestImageEnd ∧ e > pml.guestImageStart
        then guestImageEnd else s
      __initAllocBitmap tbl s e) e820.map

/-- `is_free_contiguous_region` -/
def isFreeContiguousRegion (tbl : WordTable σ Stop) (pfn nrPfns : UInt64) :
    Exec σ Stop Bool :=
  loop .hang (fun i => do
      if i < nrPfns then
        if ← allocatedInMap tbl (pfn + i) then pure (.inr false)
        else pure (.inl (i + 1))
      else pure (.inr true))
    LONG_FUEL (0 : UInt64)

/-- `alloc_boot_pages`, with the bitmap and `max_page` of `naive_allocator`. -/
def allocBootPages (tbl : WordTable σ Stop) (maxPage nrPfns pfnAlign : UInt64) :
    Exec σ Stop UInt64 :=
  loop .hang (fun i => do
      if i + nrPfns < maxPage then
        if ← isFreeContiguousRegion tbl i nrPfns then do
          mapAlloc tbl i nrPfns
          pure (.inr i)
        else pure (.inl (i + pfnAlign))
      else fatalFailure "alloc_boot_pages\n")
    LONG_FUEL (0 : UInt64)

/-! ## The bitmap in memory -/

/-- The words at the virtual address `base`. -/
def memTable (base : UInt64) : WordTable State Stop where
  get i := load64 (base + i * 8)
  set i w := store64 (base + i * 8) w

/-- `alloc_pages` over the words that `tbl` finds at an address.  It also notes what it
returns in the history. -/
def allocPagesVia (tbl : UInt64 → WordTable State Stop) (nrPfns pfnAlign : UInt64) :
    M UInt64 := do
  let s ← get
  let r ← allocBootPages (tbl s.nalloc.allocBitmap) s.nalloc.maxPage nrPfns pfnAlign
  modify fun s => { s with handedOut := (r, nrPfns) :: s.handedOut }
  return r

/-- `alloc_pages` -/
def allocPages (nrPfns pfnAlign : UInt64) : M UInt64 :=
  allocPagesVia memTable nrPfns pfnAlign

/-- `naive_allocator_init` over the words that `tbl` finds at an address.  `endSym` is the
address of the linker symbol `_end`; the result is the updated `*pml`.  The history starts
here. -/
def naiveAllocatorInitVia (tbl : UInt64 → WordTable State Stop) (endSym : UInt64)
    (e820 : E820Map) (pml : PmemLayout) : M PmemLayout := do
  let allocBitmapStart := PAGE_UP (PHYS endSym)
  -- Include an extra longword of padding for possible overrun.
  let bytes := pml.maxPage / 8
  let bitmapSize := PAGE_UP (bytes + 8)
  let pml := { pml with vmmHeapStart := allocBitmapStart + bitmapSize }
  if pml.vmmHeapStart ≥ pml.vmmHeapEnd then
    fatalFailure "No heap space.\n"
  else
    modify fun s =>
      { s with
        nalloc := { allocBitmap := VIRT allocBitmapStart, maxPage := pml.maxPage }
        handedOut := [] }
    -- All allocated by default.
    memset (VIRT allocBitmapStart) 0xff bitmapSize
    initAllocBitmap e820 (tbl (VIRT allocBitmapStart)) pml
    return pml

/-- `naive_allocator_init` -/
def naiveAllocatorInit (endSym : UInt64) (e820 : E820Map) (pml : PmemLayout) : M PmemLayout :=
  naiveAllocatorInitVia memTable endSym e820 pml

/-! ## Indices and offsets -/

theorem toNat_getAllocBitmapIdx (pfn : UInt64) :
    (getAllocBitmapIdx pfn).toNat = pfn.toNat / 64 := by
  rw [getAllocBitmapIdx, UInt64.toNat_shiftRight, Nat.shiftRight_eq_div_pow]
  rfl

/-- The index of the `k`th word after the first one of a range. -/
theorem toNat_getAllocBitmapIdx_add (first : UInt64) {k : Nat} (hk : k < 2 ^ 58) :
    (getAllocBitmapIdx first + 1 + UInt64.ofNat k).toNat = first.toNat / 64 + 1 + k := by
  have hlt := first.toNat_lt
  rw [UInt64.toNat_add, UInt64.toNat_add, toNat_getAllocBitmapIdx, UInt64.toNat_ofNat',
    show (1 : UInt64).toNat = 1 from rfl]
  omega

theorem toNat_getAllocBitmapOffset (pfn : UInt64) :
    (getAllocBitmapOffset pfn).toNat = pfn.toNat % 64 := by
  rw [getAllocBitmapOffset, UInt64.toNat_and,
    show ((1 : UInt64) <<< ALLOC_BITMAP_SHIFT - 1).toNat = 2 ^ 6 - 1 from rfl,
    Nat.and_two_pow_sub_one_eq_mod]

section Spec

variable {T : WordTable σ Stop} {n : Nat} {S : Set Nat} {view : σ → Nat → UInt64}
  {rest : σ → σ → Prop} {s : σ} {E : Stop → Prop}

/-- The test of one bit of a word. -/
theorem and_bit_eq (w : Nat → UInt64) (pfn : UInt64) :
    (w (pfn.toNat / 64) &&& 1 <<< getAllocBitmapOffset pfn != 0) = bit w pfn.toNat := by
  have hoff : (getAllocBitmapOffset pfn).toNat < 64 := by
    rw [toNat_getAllocBitmapOffset]
    omega
  have hz : (w (pfn.toNat / 64) &&& 1 <<< getAllocBitmapOffset pfn) = 0 ↔
      (w (pfn.toNat / 64)).toNat.testBit (pfn.toNat % 64) = false := by
    rw [← UInt64.toNat_inj, UInt64.toNat_and, toNat_one_shiftLeft hoff,
      toNat_getAllocBitmapOffset, show (0 : UInt64).toNat = 0 from rfl,
      Nat.and_two_pow]
    simp
  rw [bit, bne]
  cases hb : (w (pfn.toNat / 64)).toNat.testBit (pfn.toNat % 64) with
  | false => simp [hz.mpr hb]
  | true =>
    have : (w (pfn.toNat / 64) &&& 1 <<< getAllocBitmapOffset pfn) ≠ 0 := by
      intro h
      rw [hz.mp h] at hb
      cases hb
    simp [this]

/-- `allocated_in_map` reads one bit, of a word that is there. -/
theorem allocatedInMap_eq (hT : T.LawfulOn S view rest) {pfn : UInt64}
    (hS : pfn.toNat / 64 ∈ S) (s : σ) :
    allocatedInMap T pfn s = .ok (bit (view s) pfn.toNat, s) := by
  rw [← toNat_getAllocBitmapIdx] at hS
  rw [allocatedInMap, bind_of_ok (hT.get_eq _ s hS), toNat_getAllocBitmapIdx, ← and_bit_eq]
  rfl

/-- `allocated_in_map` reads one bit. -/
theorem wp_allocatedInMap (hT : T.Readable n view) {pfn : UInt64}
    (hn : pfn.toNat / 64 < n) {Q : Bool → σ → Prop}
    (hQ : Q (bit (view s) pfn.toNat) s) : wp (allocatedInMap T pfn) Q E s := by
  rw [allocatedInMap, wp_bind]
  refine hT.wp_get (by rwa [toNat_getAllocBitmapIdx]) ?_
  rw [toNat_getAllocBitmapIdx, wp_pure, and_bit_eq]
  exact hQ

/-- What the words of `map_alloc` and `map_free` have to do for the range to
be set to `b`. -/
structure SetsBits (b : Bool) (same : UInt64 → UInt64 → UInt64 → UInt64)
    (head tail : UInt64 → UInt64 → UInt64) (mid : UInt64) : Prop where
  same : ∀ so eo w : UInt64, so.toNat < 64 → eo.toNat < 64 → ∀ k, k < 64 →
    (same so eo w).toNat.testBit k =
      if so.toNat ≤ k ∧ k < eo.toNat then b else w.toNat.testBit k
  head : ∀ so w : UInt64, so.toNat < 64 → ∀ k, k < 64 →
    (head so w).toNat.testBit k = if so.toNat ≤ k then b else w.toNat.testBit k
  tail : ∀ eo w : UInt64, eo.toNat < 64 → ∀ k, k < 64 →
    (tail eo w).toNat.testBit k = if k < eo.toNat then b else w.toNat.testBit k
  mid : ∀ k, k < 64 → mid.toNat.testBit k = b

/-- A range inside one word. -/
theorem SetsBits.setRange_same {b : Bool} {same : UInt64 → UInt64 → UInt64 → UInt64}
    {head tail : UInt64 → UInt64 → UInt64} {mid : UInt64}
    (hb : SetsBits b same head tail mid) (w : Nat → UInt64) {first last : UInt64}
    (heq : first.toNat / 64 = last.toNat / 64) :
    SetRange b w (Function.update w (first.toNat / 64)
      (same (getAllocBitmapOffset first) (getAllocBitmapOffset last)
        (w (first.toNat / 64)))) first.toNat last.toNat := by
  have hso := toNat_getAllocBitmapOffset first
  have heo := toNat_getAllocBitmapOffset last
  refine SetRange.of_update (by omega) (by omega) fun k hk => ?_
  rw [hb.same _ _ _ (by omega) (by omega) k hk, hso, heo]
  congr 1
  exact propext (by omega)

/-- The first word of a longer range. -/
theorem SetsBits.setRange_head {b : Bool} {same : UInt64 → UInt64 → UInt64 → UInt64}
    {head tail : UInt64 → UInt64 → UInt64} {mid : UInt64}
    (hb : SetsBits b same head tail mid) (w : Nat → UInt64) (first : UInt64) :
    SetRange b w (Function.update w (first.toNat / 64)
      (head (getAllocBitmapOffset first) (w (first.toNat / 64))))
      first.toNat (64 * (first.toNat / 64 + 1)) := by
  have hso := toNat_getAllocBitmapOffset first
  refine SetRange.of_update (by omega) (by omega) fun k hk => ?_
  rw [hb.head _ _ (by omega) k hk, hso]
  congr 1
  exact propext (by omega)

/-- The last word of a longer range. -/
theorem SetsBits.setRange_tail {b : Bool} {same : UInt64 → UInt64 → UInt64 → UInt64}
    {head tail : UInt64 → UInt64 → UInt64} {mid : UInt64}
    (hb : SetsBits b same head tail mid) (w : Nat → UInt64) (last : UInt64) :
    SetRange b w (Function.update w (last.toNat / 64)
      (tail (getAllocBitmapOffset last) (w (last.toNat / 64))))
      (64 * (last.toNat / 64)) last.toNat := by
  have heo := toNat_getAllocBitmapOffset last
  refine SetRange.of_update (by omega) (by omega) fun k hk => ?_
  rw [hb.tail _ _ (by omega) k hk, heo]
  congr 1
  exact propext (by omega)

/-- A word between them. -/
theorem SetsBits.setRange_mid {b : Bool} {same : UInt64 → UInt64 → UInt64 → UInt64}
    {head tail : UInt64 → UInt64 → UInt64} {mid : UInt64}
    (hb : SetsBits b same head tail mid) (w : Nat → UInt64) (j : Nat) :
    SetRange b w (Function.update w j mid) (64 * j) (64 * (j + 1)) := by
  refine SetRange.of_update (by omega) (by omega) fun i hi => ?_
  rw [hb.mid i hi, if_pos (by omega)]

/-- The words between, from word `j` on: a range that ends there grows to the right. -/
theorem SetsBits.wp_setWords {b : Bool} {same : UInt64 → UInt64 → UInt64 → UInt64}
    {head tail : UInt64 → UInt64 → UInt64} {mid : UInt64}
    (hb : SetsBits b same head tail mid) (hT : T.LawfulOn S view rest) {s s₁ : σ} {i : UInt64}
    {lo j m : Nat} (hlo : lo ≤ 64 * j) (hS : ∀ k, k < m → j + k ∈ S)
    (hidx : ∀ k, k < m → (i + UInt64.ofNat k).toNat = j + k) (hrest : rest s s₁)
    (hrange : SetRange b (view s) (view s₁) lo (64 * j)) :
    wp (forRange m fun k => T.set (i + UInt64.ofNat k) mid)
      (fun _ s' => rest s s' ∧ SetRange b (view s) (view s') lo (64 * (j + m))) E s₁ := by
  refine wp_forRange (fun k s' => rest s s' ∧
    SetRange b (view s) (view s') lo (64 * (j + k))) ⟨hrest, hrange⟩ ?_
  rintro k s₂ hk ⟨hr₂, h₂⟩
  have hk' := hidx k hk
  have hword := hS k hk
  rw [← hk'] at hword
  refine hT.wp_set hword fun s₃ hs₃ hr₃ => ⟨hT.rest_trans hr₂ hr₃, ?_⟩
  refine h₂.append (64 * (j + k)) ?_ (by omega) (by omega)
  rw [hs₃, hk']
  exact hb.setRange_mid _ _

/-- The words that `map_alloc` and `map_free` touch: those of the range, and the one
behind a range that ends with a word. -/
def rangeWords (first nr : UInt64) : Set Nat :=
  {j | first.toNat / 64 ≤ j ∧ j ≤ (first.toNat + nr.toNat) / 64}

theorem rangeWords_subset {first nr : UInt64} (hn : (first.toNat + nr.toNat) / 64 < n) :
    rangeWords first nr ⊆ {j | j < n} := fun _ hj => Nat.lt_of_le_of_lt hj.2 hn

/-- `map_alloc` and `map_free` set one range of bits. -/
theorem wp_mapRange {b : Bool} {same : UInt64 → UInt64 → UInt64 → UInt64}
    {head tail : UInt64 → UInt64 → UInt64} {mid : UInt64}
    (hb : SetsBits b same head tail mid) (hT : T.LawfulOn S view rest)
    {first nr : UInt64} (hwrap : first.toNat + nr.toNat < 2 ^ 64)
    (hS : rangeWords first nr ⊆ S) {Q : Unit → σ → Prop}
    (hQ : ∀ s', rest s s' → SetRange b (view s) (view s') first.toNat
      (first.toNat + nr.toNat) → Q () s') :
    wp (mapRange same head tail mid T first nr) Q E s := by
  have hsum : (first + nr).toNat = first.toNat + nr.toNat := by
    rw [UInt64.toNat_add, Nat.mod_eq_of_lt hwrap]
  have hcur := toNat_getAllocBitmapIdx first
  have hend := toNat_getAllocBitmapIdx (first + nr)
  have hword : ∀ {i : UInt64} (j : Nat), i.toNat = j → first.toNat / 64 ≤ j →
      j ≤ (first.toNat + nr.toNat) / 64 → i.toNat ∈ S := fun j hi hlo hhi => by
    rw [hi]
    exact hS ⟨hlo, hhi⟩
  rw [mapRange]
  dsimp only
  rw [← hsum] at hword hQ
  have hle : first.toNat ≤ (first + nr).toNat := by omega
  generalize first + nr = last at hword hQ hend hle ⊢
  have hlt := last.toNat_lt
  have hfirst := hword _ hcur (Nat.le_refl _) (by omega)
  split_ifs with heq
  · -- The range lies in one word.
    have heq' := congrArg UInt64.toNat heq
    rw [hcur, hend] at heq'
    rw [wp_bind]
    refine hT.wp_get hfirst (hT.wp_set hfirst fun s' hs' hr => hQ s' hr ?_)
    rw [hs', hcur]
    exact hb.setRange_same _ heq'
  · -- First word, whole words, last word: the range grows to the right.
    have hne : first.toNat / 64 ≠ last.toNat / 64 := fun h =>
      heq (UInt64.toNat_inj.mp (by rw [hcur, hend]; exact h))
    have hnext : (getAllocBitmapIdx first + 1).toNat = first.toNat / 64 + 1 := by
      rw [UInt64.toNat_add, hcur, show (1 : UInt64).toNat = 1 from rfl]
      omega
    have hidx : ∀ k, k ≤ last.toNat / 64 - (first.toNat / 64 + 1) →
        (getAllocBitmapIdx first + 1 + UInt64.ofNat k).toNat =
          first.toNat / 64 + 1 + k := fun k hk =>
      toNat_getAllocBitmapIdx_add first (by omega)
    have hwords : ∀ k, k < last.toNat / 64 - (first.toNat / 64 + 1) →
        first.toNat / 64 + 1 + k ∈ S := fun k hk => by
      have hk' := hidx k (Nat.le_of_lt hk)
      rw [← hk']
      exact hword _ hk' (by omega) (by omega)
    rw [hnext, hend, wp_bind]
    refine hT.wp_get hfirst ?_
    rw [wp_bind]
    refine hT.wp_set hfirst fun s₁ hs₁ hr₁ => ?_
    have h₁ : SetRange b (view s) (view s₁) first.toNat (64 * (first.toNat / 64 + 1)) := by
      rw [hs₁, hcur]
      exact hb.setRange_head _ _
    rw [wp_bind]
    refine wp_imp (hb.wp_setWords hT (by omega) hwords (fun k hk => hidx k (by omega))
      hr₁ h₁) ?_
    rintro _ s₂ ⟨hr₂, h₂⟩
    have hlast := hidx _ (Nat.le_refl _)
    rw [show first.toNat / 64 + 1 + (last.toNat / 64 - (first.toNat / 64 + 1)) =
      last.toNat / 64 by omega] at hlast h₂
    have hlast' := hword _ hlast (by omega) (Nat.le_refl _)
    rw [wp_bind]
    refine hT.wp_get hlast' (hT.wp_set hlast' fun s₃ hs₃ hr₃ =>
      hQ s₃ (hT.rest_trans hr₂ hr₃) ?_)
    refine h₂.append _ ?_ (by omega) (by omega)
    rw [hs₃, hlast]
    exact hb.setRange_tail _ _

/-- The masks of `map_alloc`. -/
theorem setsBits_mapAlloc : SetsBits true
    (fun so eo w => w ||| (((1 : UInt64) <<< eo - 1) &&& (-((1 : UInt64) <<< so))))
    (fun so w => w ||| -((1 : UInt64) <<< so))
    (fun eo w => w ||| ((1 : UInt64) <<< eo - 1)) (~~~0) where
  same := by
    intro so eo w hso heo k hk
    rw [UInt64.toNat_or, UInt64.toNat_and, Nat.testBit_or, Nat.testBit_and,
      testBit_lowMask heo, testBit_highMask hso hk]
    by_cases h1 : so.toNat ≤ k <;> by_cases h2 : k < eo.toNat <;> simp [h1, h2]
  head := by
    intro so w hso k hk
    rw [UInt64.toNat_or, Nat.testBit_or, testBit_highMask hso hk]
    by_cases h1 : so.toNat ≤ k <;> simp [h1]
  tail := by
    intro eo w heo k hk
    rw [UInt64.toNat_or, Nat.testBit_or, testBit_lowMask heo]
    by_cases h2 : k < eo.toNat <;> simp [h2]
  mid := fun k hk => testBit_ones hk

/-- The masks of `map_free`. -/
theorem setsBits_mapFree : SetsBits false
    (fun so eo w => w &&& (-((1 : UInt64) <<< eo) ||| ((1 : UInt64) <<< so - 1)))
    (fun so w => w &&& ((1 : UInt64) <<< so - 1))
    (fun eo w => w &&& -((1 : UInt64) <<< eo)) 0 where
  same := by
    intro so eo w hso heo k hk
    rw [UInt64.toNat_and, UInt64.toNat_or, Nat.testBit_and, Nat.testBit_or,
      testBit_lowMask hso, testBit_highMask heo hk]
    by_cases h1 : so.toNat ≤ k <;> by_cases h2 : k < eo.toNat <;>
      simp only [h1, h2] <;> simp <;> omega
  head := by
    intro so w hso k hk
    rw [UInt64.toNat_and, Nat.testBit_and, testBit_lowMask hso]
    by_cases h1 : so.toNat ≤ k
    · simp [h1]
    · simp [h1]
      omega
  tail := by
    intro eo w heo k hk
    rw [UInt64.toNat_and, Nat.testBit_and, testBit_highMask heo hk]
    by_cases h2 : k < eo.toNat
    · simp [h2]
    · simp [h2]
      omega
  mid := fun k _ => Nat.zero_testBit k

/-- `map_alloc` sets the bits of the range and no others. -/
theorem wp_mapAlloc (hT : T.Lawful n view rest)
    {first nr : UInt64} (hwrap : first.toNat + nr.toNat < 2 ^ 64)
    (hn : (first.toNat + nr.toNat) / 64 < n) {Q : Unit → σ → Prop}
    (hQ : ∀ s', rest s s' → SetRange true (view s) (view s') first.toNat
      (first.toNat + nr.toNat) → Q () s') :
    wp (mapAlloc T first nr) Q E s :=
  wp_mapRange setsBits_mapAlloc hT.lawfulOn hwrap (rangeWords_subset hn) hQ

/-- `map_free` clears the bits of the range and no others. -/
theorem wp_mapFree (hT : T.Lawful n view rest)
    {first nr : UInt64} (hwrap : first.toNat + nr.toNat < 2 ^ 64)
    (hn : (first.toNat + nr.toNat) / 64 < n) {Q : Unit → σ → Prop}
    (hQ : ∀ s', rest s s' → SetRange false (view s) (view s') first.toNat
      (first.toNat + nr.toNat) → Q () s') :
    wp (mapFree T first nr) Q E s :=
  wp_mapRange setsBits_mapFree hT.lawfulOn hwrap (rangeWords_subset hn) hQ

/-- `is_free_contiguous_region` looks for a set bit in the range. -/
theorem wp_isFreeContiguousRegion (hT : T.Readable n view)
    {pfn nr : UInt64} (hwrap : pfn.toNat + nr.toNat < 2 ^ 64)
    (hn : (pfn.toNat + nr.toNat) / 64 < n) {Q : Bool → σ → Prop}
    (hfree : (∀ f, pfn.toNat ≤ f → f < pfn.toNat + nr.toNat →
      bit (view s) f = false) → Q true s)
    (hbusy : (∃ f, pfn.toNat ≤ f ∧ f < pfn.toNat + nr.toNat ∧
      bit (view s) f = true) → Q false s) :
    wp (isFreeContiguousRegion T pfn nr) Q E s := by
  -- The bits before the current one are clear.
  refine wp_loop (fun i s' => s' = s ∧ i.toNat ≤ nr.toNat ∧
      ∀ f, pfn.toNat ≤ f → f < pfn.toNat + i.toNat → bit (view s) f = false)
    (fun i => nr.toNat - i.toNat) ?_ _ _ _ ⟨rfl, Nat.zero_le _, by
      intro f h1 h2
      simp only [UInt64.toNat_zero] at h2
      omega⟩ (by
      have := nr.toNat_lt
      rw [LONG_FUEL]
      omega)
  rintro i _ ⟨rfl, hi, hclear⟩
  split_ifs with hlt
  · rw [UInt64.lt_iff_toNat_lt] at hlt
    have hsum : (pfn + i).toNat = pfn.toNat + i.toNat := by
      rw [UInt64.toNat_add, Nat.mod_eq_of_lt (by omega)]
    rw [wp_bind]
    refine wp_allocatedInMap hT (by rw [hsum]; omega) ?_
    rw [hsum]
    split_ifs with hbit
    · rw [wp_pure]
      exact hbusy ⟨_, Nat.le_add_right _ _, by omega, hbit⟩
    · have hi1 : (i + 1).toNat = i.toNat + 1 := by
        rw [UInt64.toNat_add, show (1 : UInt64).toNat = 1 from rfl]
        omega
      rw [wp_pure]
      refine ⟨⟨rfl, by omega, fun f h1 h2 => ?_⟩, by omega⟩
      by_cases hf : f = pfn.toNat + i.toNat
      · rw [hf]
        simpa using hbit
      · exact hclear f h1 (by omega)
  · rw [UInt64.lt_iff_toNat_lt] at hlt
    rw [wp_pure]
    exact hfree fun f h1 h2 => hclear f h1 (by omega)

/-- The frames `[r, r + nr)` are free in the bitmap `w`. -/
def AllFree (w : Nat → UInt64) (r nr : Nat) : Prop :=
  ∀ f, r ≤ f → f < r + nr → bit w f = false

/-- The search of `alloc_boot_pages`: it comes to `map_alloc` at the first aligned
free range that ends below `max_page`, and fails when there is none. -/
theorem wp_allocBootPages_search (hT : T.Readable n view) {maxPage nr al : UInt64}
    (hmax : maxPage.toNat ≤ 2 ^ 52) (hnr : nr.toNat ≤ 2 ^ 52)
    (hal : 1 ≤ al.toNat) (hal' : al.toNat ≤ 2 ^ 52)
    (hn : maxPage.toNat / 64 < n) {Q : UInt64 → σ → Prop}
    (hQ : ∀ r, al.toNat ∣ r.toNat → r.toNat + nr.toNat < maxPage.toNat →
      AllFree (view s) r.toNat nr.toNat →
      (∀ c, al.toNat ∣ c → c < r.toNat → ¬AllFree (view s) c nr.toNat) →
      wp (mapAlloc T r nr) (fun _ => Q r) E s)
    (hE : (∀ c, al.toNat ∣ c → c + nr.toNat < maxPage.toNat →
      ¬AllFree (view s) c nr.toNat) → E (.fatalFailure "alloc_boot_pages\n")) :
    wp (allocBootPages T maxPage nr al) Q E s := by
  -- No aligned candidate below the current one is free.
  refine wp_loop (fun i s' => s' = s ∧ al.toNat ∣ i.toNat ∧ i.toNat < 2 ^ 53 ∧
      ∀ c, al.toNat ∣ c → c < i.toNat → ¬AllFree (view s) c nr.toNat)
    (fun i => 2 ^ 53 - i.toNat) ?_ _ _ _ ⟨rfl, by simp, by simp, by simp⟩ (by
      rw [LONG_FUEL]
      omega)
  rintro i _ ⟨rfl, hdvd, hi, hmin⟩
  have hsum : (i + nr).toNat = i.toNat + nr.toNat := by
    rw [UInt64.toNat_add, Nat.mod_eq_of_lt (by omega)]
  split_ifs with hlt <;> rw [UInt64.lt_iff_toNat_lt, hsum] at hlt
  · rw [wp_bind]
    refine wp_isFreeContiguousRegion hT (by omega) (by omega) ?_ ?_
    · intro hfree
      rw [if_pos rfl, wp_bind]
      refine wp_imp (hQ i hdvd hlt hfree hmin) fun _ s' h => ?_
      rw [wp_pure]
      exact h
    · rintro ⟨f, hf1, hf2, hbit⟩
      have hnext : (i + al).toNat = i.toNat + al.toNat := by
        rw [UInt64.toNat_add, Nat.mod_eq_of_lt (by omega)]
      rw [if_neg (by decide), wp_pure]
      refine ⟨⟨rfl, ?_, by omega, fun c hc hci hfree => ?_⟩, by omega⟩
      · rw [hnext]
        exact Nat.dvd_add hdvd (Nat.dvd_refl _)
      · -- The multiples of `al` below `i + al` are those up to `i`.
        rw [hnext] at hci
        by_cases hcl : c < i.toNat
        · exact hmin c hc hcl hfree
        · have hd : al.toNat ∣ c - i.toNat := Nat.dvd_sub hc hdvd
          have hz : c - i.toNat = 0 := Nat.eq_zero_of_dvd_of_lt hd (by omega)
          have hbit' := hfree f (by omega) (by omega)
          rw [hbit] at hbit'
          cases hbit'
  · rw [fatalFailure, wp_stop]
    exact hE fun c hc hcmax hfree => hmin c hc (by omega) hfree

/-- `alloc_boot_pages` takes the first aligned free range that ends below
`max_page`, and fails when there is none. -/
theorem wp_allocBootPages (hT : T.Lawful n view rest) {maxPage nr al : UInt64}
    (hmax : maxPage.toNat ≤ 2 ^ 52) (hnr : nr.toNat ≤ 2 ^ 52)
    (hal : 1 ≤ al.toNat) (hal' : al.toNat ≤ 2 ^ 52)
    (hn : maxPage.toNat / 64 < n) {Q : UInt64 → σ → Prop}
    (hQ : ∀ r s', al.toNat ∣ r.toNat → r.toNat + nr.toNat < maxPage.toNat →
      AllFree (view s) r.toNat nr.toNat →
      (∀ c, al.toNat ∣ c → c < r.toNat → ¬AllFree (view s) c nr.toNat) →
      rest s s' → SetRange true (view s) (view s') r.toNat (r.toNat + nr.toNat) →
      Q r s')
    (hE : (∀ c, al.toNat ∣ c → c + nr.toNat < maxPage.toNat →
      ¬AllFree (view s) c nr.toNat) → E (.fatalFailure "alloc_boot_pages\n")) :
    wp (allocBootPages T maxPage nr al) Q E s := by
  refine wp_allocBootPages_search hT.readable hmax hnr hal hal' hn ?_ hE
  intro r hdvd hlt hfree hmin
  exact wp_mapAlloc hT (by omega) (by omega) fun s' hrest hset =>
    hQ r s' hdvd hlt hfree hmin hrest hset

end Spec

/-! ## The bitmap in memory -/

/-- The word `i` of the table at the physical address `a`. -/
def memWords (a : Nat) (s : State) (i : Nat) : UInt64 := s.mem.read64 (a + 8 * i)

/-- A mapped range of `n` words is a lawful table, whose writes stay inside
the range. -/
theorem memTable_lawful {base : UInt64} {n a : Nat}
    (h : bootTranslate base (8 * n) = some a) :
    (memTable base).Lawful n (memWords a) (OnlyWrites (Set.Ico a (a + 8 * n))) := by
  have hle := bootTranslate_le h
  have hpart : ∀ i : UInt64, i.toNat < n →
      bootTranslate (base + i * 8) 8 = some (a + 8 * i.toNat) := by
    intro i hi
    have := bootTranslate_add (k := 8 * i.toNat) (j := 8) h (by omega)
    rwa [show UInt64.ofNat (8 * i.toNat) = i * 8 by
      rw [UInt64.ofNat_mul, UInt64.ofNat_toNat, UInt64.mul_comm]
      rfl] at this
  constructor
  · intro i s hi
    exact load64_of_mapped (hpart i hi) s
  · intro i w s hi
    refine ⟨_, store64_of_mapped (hpart i hi) w s, ?_, ?_⟩
    · funext j
      by_cases hj : j = i.toNat
      · subst hj
        rw [Function.update_self]
        exact ByteMem.read64_write64 _ _ _
      · rw [Function.update_of_ne hj]
        exact ByteMem.read64_write64_of_disjoint (by omega)
    · refine OnlyWrites.of_mem ((ByteMem.eqOn_write64 _ _ _).mono ?_)
      exact Set.compl_subset_compl.mpr (Set.Ico_subset_Ico (by omega) (by omega))
  · exact OnlyWrites.refl _
  · exact OnlyWrites.trans

/-! ## Words and bits -/

/-- `upd` sets the bits of the range to `b`, as `allocated_in_map` sees them, and leaves
every other bit of a word in `S` as it is. -/
def SetsRange {σ : Type} (T : WordTable σ Stop) (S : Set Nat) (rest : σ → σ → Prop) (b : Bool)
    (upd : UInt64 → UInt64 → Exec σ Stop Unit) (first nr : UInt64) (s : σ) : Prop :=
  ∃ s', upd first nr s = .ok ((), s') ∧ rest s s' ∧
    ∀ pfn : UInt64, pfn.toNat / 64 ∈ S → ∃ old, allocatedInMap T pfn s = .ok (old, s) ∧
      allocatedInMap T pfn s' = .ok (if first.toNat ≤ pfn.toNat ∧
        pfn.toNat < first.toNat + nr.toNat then b else old, s')

section Bits

variable {σ : Type} {T : WordTable σ Stop} {S : Set Nat} {view : σ → Nat → UInt64}
  {rest : σ → σ → Prop} {first nr : UInt64}

theorem SetsBits.setsRange {b : Bool} {same : UInt64 → UInt64 → UInt64 → UInt64}
    {head tail : UInt64 → UInt64 → UInt64} {mid : UInt64}
    (hb : SetsBits b same head tail mid) (hT : T.LawfulOn S view rest)
    (hwrap : first.toNat + nr.toNat < 2 ^ 64) (hS : rangeWords first nr ⊆ S) (s : σ) :
    SetsRange T S rest b (mapRange same head tail mid T) first nr s := by
  have hwp : wp (mapRange same head tail mid T first nr) (fun _ s' => rest s s' ∧
      SetRange b (view s) (view s') first.toNat (first.toNat + nr.toNat))
      (fun _ => False) s :=
    wp_mapRange hb hT hwrap hS fun _ hrest hset => ⟨hrest, hset⟩
  obtain ⟨_, s', hrun, hrest, hset⟩ := exists_ok_of_wp hwp
  refine ⟨s', hrun, hrest, fun pfn hpfn => ⟨_, allocatedInMap_eq hT hpfn s, ?_⟩⟩
  rw [allocatedInMap_eq hT hpfn s', hset pfn.toNat]

/-- `map_alloc` sets the bits of its range and `map_free` clears them, and no other bit
changes, if the words from the one of the first bit to the one of the bit behind the
range are there. -/
theorem mapAlloc_mapFree_bits (hT : T.LawfulOn S view rest)
    (hwrap : first.toNat + nr.toNat < 2 ^ 64) (hS : rangeWords first nr ⊆ S) (s : σ) :
    SetsRange T S rest true (mapAlloc T) first nr s ∧
      SetsRange T S rest false (mapFree T) first nr s :=
  ⟨setsBits_mapAlloc.setsRange hT hwrap hS s, setsBits_mapFree.setsRange hT hwrap hS s⟩

end Bits

/-- A machine with a bitmap at 4096. -/
def sampleBitmap : State where
  mem := fun _ => 0
  nalloc := { allocBitmap := 0x1000, maxPage := 128 }
  handedOut := []

/-- A range from the first word to the end of the second one. -/
theorem sample_mapAlloc_mapFree_bits :
    SetsRange (memTable 0x1000) {j | j < 3} (OnlyWrites (Set.Ico 0x1000 (0x1000 + 8 * 3))) true
        (mapAlloc (memTable 0x1000)) 60 68 sampleBitmap ∧
      SetsRange (memTable 0x1000) {j | j < 3} (OnlyWrites (Set.Ico 0x1000 (0x1000 + 8 * 3)))
        false (mapFree (memTable 0x1000)) 60 68 sampleBitmap := by
  have hmapped : bootTranslate 0x1000 (8 * 3) = some 0x1000 := by decide
  have hwords : rangeWords 60 68 ⊆ {j | j < 3} := rangeWords_subset (by decide)
  exact mapAlloc_mapFree_bits (memTable_lawful hmapped).lawfulOn (by decide) hwords _

end Tvmm
