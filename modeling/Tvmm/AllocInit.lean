import Tvmm.Alloc

/-!
# The initial free set

`wp_initAllocBitmap` says exactly which bits `init_alloc_bitmap` clears: frame
`f` becomes free when it lies, for some RAM entry, between the start of the
entry (raised to the end of the VMM heap and to the end of the guest image, as
the code raises it) and the end of the entry.  This holds for every map, with
the rounding of the code (`FreedBy`).  When no entry wraps it is a statement
about addresses (`Freed`), and `Freed.safe` reads off what such a frame is clear
of.
-/

set_option linter.style.nameCheck false

namespace Tvmm

open Exec Bitmap

/-- The first address after the guest image. -/
def PmemLayout.imageStop (pml : PmemLayout) : Nat :=
  pml.guestImageStart.toNat + pml.guestImageSize.toNat

/-- The memory map and the layout that `naive_allocator_init` is called with:
no entry wraps, `max_page` is the one of the map, and neither the heap nor the
guest image reaches the top of the address space. -/
structure BootLayout (e820 : E820Map) (pml : PmemLayout) : Prop where
  noWrap : ∀ p ∈ e820.map, p.NoWrap
  maxPage : pml.maxPage = getMaxPfn e820
  heapEnd : pml.vmmHeapEnd.toNat ≤ 2 ^ 64 - 4096
  image : pml.imageStop ≤ 2 ^ 64 - 4096

/-- Where `init_alloc_bitmap` starts to free the entry `p`. -/
def entryStart (pml : PmemLayout) (p : E820Entry) : Nat :=
  let s := max p.addr.toNat pml.vmmHeapEnd.toNat
  if s < pml.imageStop ∧ pml.guestImageStart.toNat < p.stop then pml.imageStop
  else s

/-- The frames that `init_alloc_bitmap` frees. -/
def Freed (e820 : E820Map) (pml : PmemLayout) (f : Nat) : Prop :=
  ∃ p ∈ e820.map, p.IsRam ∧ entryStart pml p ≤ f * 4096 ∧ f * 4096 + 4096 ≤ p.stop

/-- A frame that nothing but the allocator may use. -/
structure SafeFrame (e820 : E820Map) (pml : PmemLayout) (f : Nat) : Prop where
  lt_maxPage : f < pml.maxPage.toNat
  ram : ∃ p ∈ e820.map, p.IsRam ∧ frameBytes f ⊆ Set.Ico p.addr.toNat p.stop
  heap : pml.vmmHeapEnd.toNat ≤ f * 4096
  image : Disjoint (frameBytes f)
    (Set.Ico pml.guestImageStart.toNat pml.imageStop)

/-! ## The frames of an entry -/

theorem toNat_PFN_UP (x : UInt64) : (PFN_UP x).toNat = (x.toNat + 4095) % 2 ^ 64 / 4096 := by
  rw [PFN_UP, toNat_shiftRight_PAGE_SHIFT, UInt64.toNat_sub, UInt64.toNat_add,
    show PAGE_SIZE.toNat = 4096 from rfl, show (1 : UInt64).toNat = 1 from rfl]
  omega

theorem toNat_PAGE_UP_mod (x : UInt64) : (PAGE_UP x).toNat = (PFN_UP x).toNat * 4096 := by
  rw [PAGE_UP, toNat_and_PAGE_MASK, UInt64.toNat_add,
    show (PAGE_SIZE - 1).toNat = 4095 from rfl, toNat_PFN_UP]

theorem toNat_add_toNat_sub {x y : UInt64} (h : x < y) :
    x.toNat + (y - x).toNat = y.toNat := by
  rw [UInt64.toNat_sub_of_le _ _ (UInt64.le_of_lt h)]
  exact Nat.add_sub_of_le (UInt64.le_iff_toNat_le.mp (UInt64.le_of_lt h))

/-- `__init_alloc_bitmap` frees the frames from `PFN_UP` of the start to `PFN_DOWN` of
the end. -/
theorem __initAllocBitmap_eq {σ : Type} (T : WordTable σ Stop) (start stop : UInt64) :
    __initAllocBitmap T start stop =
      if PFN_UP start < PFN_DOWN stop then
        mapFree T (PFN_UP start) (PFN_DOWN stop - PFN_UP start)
      else pure () := by
  have hup := toNat_PAGE_UP_mod start
  have hdown := toNat_PAGE_DOWN stop
  have hpfn := toNat_PFN_DOWN stop
  have hstop := stop.toNat_lt
  have hle : PAGE_DOWN stop ≤ PAGE_UP start ↔ ¬PFN_UP start < PFN_DOWN stop := by
    rw [UInt64.le_iff_toNat_le, UInt64.lt_iff_toNat_lt, hup, hdown, ← hpfn]
    omega
  rw [__initAllocBitmap]
  by_cases hlt : PFN_UP start < PFN_DOWN stop
  · have hfirst : PAGE_UP start >>> PAGE_SHIFT = PFN_UP start := by
      rw [← UInt64.toNat_inj, toNat_shiftRight_PAGE_SHIFT, hup]
      omega
    have hcount : (PAGE_DOWN stop - PAGE_UP start) >>> PAGE_SHIFT =
        PFN_DOWN stop - PFN_UP start := by
      rw [UInt64.lt_iff_toNat_lt] at hlt
      rw [← UInt64.toNat_inj, toNat_shiftRight_PAGE_SHIFT, UInt64.toNat_sub, UInt64.toNat_sub,
        hup, hdown, ← hpfn]
      omega
    rw [if_neg (fun h => hle.mp h hlt), if_pos hlt, hfirst, hcount]
  · rw [if_pos (hle.mpr hlt), if_neg hlt]

/-- What `init_alloc_bitmap` passes to `__init_alloc_bitmap` for the entry `p`. -/
def entryRange (pml : PmemLayout) (p : E820Entry) : UInt64 × UInt64 :=
  let e := p.addr + p.size
  let s := if p.addr < pml.vmmHeapEnd then pml.vmmHeapEnd else p.addr
  let guestImageEnd := pml.guestImageStart + pml.guestImageSize
  (if s < guestImageEnd ∧ e > pml.guestImageStart then guestImageEnd else s, e)

/-- The frames that are freed because of the entry `p`. -/
def entryFrames (pml : PmemLayout) (p : E820Entry) : Set Nat :=
  Set.Ico (PFN_UP (entryRange pml p).1).toNat (PFN_DOWN (entryRange pml p).2).toNat

/-- The frames that are freed, whatever the entries are. -/
def FreedBy (e820 : E820Map) (pml : PmemLayout) (f : Nat) : Prop :=
  ∃ p ∈ e820.map, p.IsRam ∧ f ∈ entryFrames pml p

/-- `get_max_pfn` bounds the whole frames of every RAM entry. -/
theorem le_getMaxPfn {e820 : E820Map} {p : E820Entry} (hp : p ∈ e820.map)
    (hram : p.IsRam) (hne : PFN_UP p.addr < PFN_DOWN (p.addr + p.size)) :
    (PFN_DOWN (p.addr + p.size)).toNat ≤ (getMaxPfn e820).toNat := by
  let step : UInt64 → E820Entry → UInt64 := fun n p =>
    if p.type ≠ E820_RAM then n
    else
      let start := PFN_UP p.addr
      let e := PFN_DOWN (p.addr + p.size)
      if start < e ∧ e > n then e else n
  have hmono : ∀ (q : E820Entry) (n : UInt64), n.toNat ≤ (step n q).toNat := by
    intro q n
    dsimp only [step]
    split_ifs with h1 h2
    · exact Nat.le_refl _
    · exact Nat.le_of_lt (UInt64.lt_iff_toNat_lt.mp h2.2)
    · exact Nat.le_refl _
  have hmonos : ∀ (l : List E820Entry) (n : UInt64),
      n.toNat ≤ (l.foldl step n).toNat := by
    intro l
    induction l with
    | nil => intro n; exact Nat.le_refl _
    | cons q l ih => intro n; exact (hmono q n).trans (ih _)
  have hstep : ∀ n : UInt64, (PFN_DOWN (p.addr + p.size)).toNat ≤ (step n p).toNat := by
    intro n
    dsimp only [step]
    rw [if_neg (show ¬p.type ≠ E820_RAM from not_not.mpr hram)]
    split_ifs with h
    · exact Nat.le_refl _
    · exact Nat.le_of_not_lt fun hlt => h ⟨hne, UInt64.lt_iff_toNat_lt.mpr hlt⟩
  have hmem : ∀ (l : List E820Entry), p ∈ l → ∀ n : UInt64,
      (PFN_DOWN (p.addr + p.size)).toNat ≤ (l.foldl step n).toNat := by
    intro l
    induction l with
    | nil => intro h; cases h
    | cons q l ih =>
      intro h n
      rcases List.mem_cons.mp h with rfl | h
      · exact (hstep n).trans (hmonos l _)
      · exact ih h _
  exact hmem e820.map hp 0

/-- The start of an entry is raised only to addresses that round up without
wrapping. -/
theorem entryRange_start {pml : PmemLayout} (hheap : pml.vmmHeapEnd.toNat ≤ 2 ^ 64 - 4096)
    (himg : pml.imageStop ≤ 2 ^ 64 - 4096) (p : E820Entry) :
    (entryRange pml p).1 = p.addr ∨
      p.addr.toNat ≤ (entryRange pml p).1.toNat ∧
        (entryRange pml p).1.toNat ≤ 2 ^ 64 - 4096 := by
  have himgEnd : (pml.guestImageStart + pml.guestImageSize).toNat = pml.imageStop := by
    rw [PmemLayout.imageStop] at himg ⊢
    rw [UInt64.toNat_add, Nat.mod_eq_of_lt (by omega)]
  rw [entryRange]
  dsimp only
  split_ifs with h1 h2 h2 <;> simp only [UInt64.lt_iff_toNat_lt, himgEnd] at h1 h2
  · exact Or.inr (by rw [himgEnd]; omega)
  · exact Or.inr (by omega)
  · exact Or.inr (by rw [himgEnd]; omega)
  · exact Or.inl rfl

/-- The frames of an entry lie below the result of `get_max_pfn`, even if the
entry wraps, when neither the heap nor the guest image reaches the top of the
address space. -/
theorem stop_le_getMaxPfn {e820 : E820Map} {pml : PmemLayout} {p : E820Entry}
    (hheap : pml.vmmHeapEnd.toNat ≤ 2 ^ 64 - 4096) (himg : pml.imageStop ≤ 2 ^ 64 - 4096)
    (hp : p ∈ e820.map) (hram : p.IsRam) (hne : (entryFrames pml p).Nonempty) :
    (PFN_DOWN (entryRange pml p).2).toNat ≤ (getMaxPfn e820).toNat := by
  obtain ⟨f, hlo, hhi⟩ := hne
  refine le_getMaxPfn hp hram (UInt64.lt_iff_toNat_lt.mpr (lt_of_le_of_lt ?_
    (lt_of_le_of_lt hlo hhi)))
  rw [toNat_PFN_UP, toNat_PFN_UP]
  rcases entryRange_start hheap himg p with h | ⟨h1, h2⟩
  · rw [h]
  · have := p.addr.toNat_lt
    omega

/-- The frames of an entry that does not wrap. -/
theorem E820Entry.NoWrap.mem_entryFrames {pml : PmemLayout} {p : E820Entry}
    (hwrap : p.NoWrap) (hheap : pml.vmmHeapEnd.toNat ≤ 2 ^ 64 - 4096)
    (himg : pml.imageStop ≤ 2 ^ 64 - 4096) (f : Nat) :
    f ∈ entryFrames pml p ↔ entryStart pml p ≤ f * 4096 ∧ f * 4096 + 4096 ≤ p.stop := by
  have himgEnd : (pml.guestImageStart + pml.guestImageSize).toNat = pml.imageStop := by
    rw [PmemLayout.imageStop] at himg ⊢
    rw [UInt64.toNat_add, Nat.mod_eq_of_lt (by omega)]
  -- The start that the code computes is `entryStart`.
  have hlo : (entryRange pml p).1.toNat = entryStart pml p := by
    have hmax : (if p.addr < pml.vmmHeapEnd then pml.vmmHeapEnd else p.addr).toNat =
        max p.addr.toNat pml.vmmHeapEnd.toNat := by
      split_ifs with h <;> rw [UInt64.lt_iff_toNat_lt] at h <;> omega
    have hcond : ((if p.addr < pml.vmmHeapEnd then pml.vmmHeapEnd else p.addr) <
          pml.guestImageStart + pml.guestImageSize ∧ p.addr + p.size > pml.guestImageStart) ↔
        (max p.addr.toNat pml.vmmHeapEnd.toNat < pml.imageStop ∧
          pml.guestImageStart.toNat < p.stop) := by
      rw [← hmax, ← himgEnd, ← hwrap.toNat_add]
      exact and_congr UInt64.lt_iff_toNat_lt UInt64.lt_iff_toNat_lt
    rw [entryRange, entryStart]
    dsimp only
    by_cases h : max p.addr.toNat pml.vmmHeapEnd.toNat < pml.imageStop ∧
        pml.guestImageStart.toNat < p.stop
    · rw [if_pos (hcond.mpr h), if_pos h, himgEnd]
    · rw [if_neg (mt hcond.mp h), if_neg h, hmax]
  have hbound : entryStart pml p ≤ 2 ^ 64 - 4096 := by
    unfold E820Entry.NoWrap at hwrap
    rw [entryStart]
    split_ifs <;> omega
  have hhi : (PFN_DOWN (entryRange pml p).2).toNat = p.stop / 4096 := by
    rw [entryRange, toNat_PFN_DOWN, hwrap.toNat_add]
  rw [entryFrames, Set.mem_Ico, toNat_PFN_UP, hlo, hhi]
  omega

theorem BootLayout.mem_entryFrames {e820 : E820Map} {pml : PmemLayout}
    (hboot : BootLayout e820 pml) {p : E820Entry} (hp : p ∈ e820.map) (f : Nat) :
    f ∈ entryFrames pml p ↔ entryStart pml p ≤ f * 4096 ∧ f * 4096 + 4096 ≤ p.stop :=
  (hboot.noWrap p hp).mem_entryFrames hboot.heapEnd hboot.image f

theorem BootLayout.freedBy_iff {e820 : E820Map} {pml : PmemLayout}
    (hboot : BootLayout e820 pml) (f : Nat) : FreedBy e820 pml f ↔ Freed e820 pml f := by
  constructor
  · rintro ⟨p, hp, hram, hf⟩
    exact ⟨p, hp, hram, (hboot.mem_entryFrames hp f).mp hf⟩
  · rintro ⟨p, hp, hram, hf⟩
    exact ⟨p, hp, hram, (hboot.mem_entryFrames hp f).mpr hf⟩

/-- Where the freed part of an entry starts. -/
theorem entryStart_bounds (pml : PmemLayout) (p : E820Entry) :
    max p.addr.toNat pml.vmmHeapEnd.toNat ≤ entryStart pml p ∧
      (pml.imageStop ≤ entryStart pml p ∨ p.stop ≤ pml.guestImageStart.toNat) := by
  rw [entryStart]
  split_ifs <;> omega

/-- What a frame that is freed because of the entry `p` is clear of. -/
theorem E820Entry.NoWrap.safeFrame {e820 : E820Map} {pml : PmemLayout} {p : E820Entry}
    (hwrap : p.NoWrap) (hmax : pml.maxPage = getMaxPfn e820)
    (hheap : pml.vmmHeapEnd.toNat ≤ 2 ^ 64 - 4096) (himg : pml.imageStop ≤ 2 ^ 64 - 4096)
    (hp : p ∈ e820.map) (hram : p.IsRam) {f : Nat} (hf : f ∈ entryFrames pml p) :
    SafeFrame e820 pml f := by
  obtain ⟨hlo, hhi⟩ := (hwrap.mem_entryFrames hheap himg f).mp hf
  have hstart := entryStart_bounds pml p
  refine ⟨?_, ⟨p, hp, hram, ?_⟩, by omega, ?_⟩
  · rw [hmax]
    exact hf.2.trans_le (stop_le_getMaxPfn hheap himg hp hram ⟨f, hf⟩)
  · exact Set.Ico_subset_Ico (by omega) hhi
  · rw [frameBytes, Set.disjoint_left]
    intro a ha ha'
    rw [Set.mem_Ico] at ha ha'
    omega

theorem Freed.safe {e820 : E820Map} {pml : PmemLayout} {f : Nat}
    (hboot : BootLayout e820 pml) (h : Freed e820 pml f) :
    SafeFrame e820 pml f := by
  obtain ⟨p, hp, hram, hf⟩ := (hboot.freedBy_iff f).mpr h
  exact (hboot.noWrap p hp).safeFrame hboot.maxPage hboot.heapEnd hboot.image hp hram hf

section Spec

variable {σ : Type} {T : WordTable σ Stop} {n : Nat} {view : σ → Nat → UInt64}
  {rest : σ → σ → Prop} {s : σ} {E : Stop → Prop}

/-- `__init_alloc_bitmap` frees the whole frames of `[start, stop)`. -/
theorem wp___initAllocBitmap (hT : T.Lawful n view rest) {start stop : UInt64}
    (hn : PFN_UP start < PFN_DOWN stop → (PFN_DOWN stop).toNat / 64 < n)
    {Q : Unit → σ → Prop}
    (hQ : ∀ s', rest s s' → SetRange false (view s) (view s')
      (PFN_UP start).toNat (PFN_DOWN stop).toNat → Q () s') :
    wp (__initAllocBitmap T start stop) Q E s := by
  rw [__initAllocBitmap_eq]
  split_ifs with hlt
  · have hsum := toNat_add_toNat_sub hlt
    have hwrap : (PFN_UP start).toNat + (PFN_DOWN stop - PFN_UP start).toNat < 2 ^ 64 := by
      rw [hsum]
      exact (PFN_DOWN stop).toNat_lt
    refine wp_mapFree hT hwrap (by rw [hsum]; exact hn hlt) fun s' hrest hset => hQ s' hrest ?_
    rwa [hsum] at hset
  · rw [UInt64.lt_iff_toNat_lt] at hlt
    rw [wp_pure]
    refine hQ s (hT.rest_refl s) fun f => ?_
    rw [if_neg (by omega)]

/-- `init_alloc_bitmap` frees the frames of the RAM entries and no others. -/
theorem wp_initAllocBitmap (hT : T.Lawful n view rest) {e820 : E820Map}
    {pml : PmemLayout} (hheap : pml.vmmHeapEnd.toNat ≤ 2 ^ 64 - 4096)
    (himg : pml.imageStop ≤ 2 ^ 64 - 4096) (hn : (getMaxPfn e820).toNat / 64 < n)
    {Q : Unit → σ → Prop}
    (hQ : ∀ s', rest s s' → (∀ f, bit (view s') f = false ↔
      FreedBy e820 pml f ∨ bit (view s) f = false) → Q () s') :
    wp (initAllocBitmap e820 T pml) Q E s := by
  refine wp_imp (wp_forEach (fun pre s' => rest s s' ∧ ∀ f,
    bit (view s') f = false ↔
      (∃ p ∈ pre, p.IsRam ∧ f ∈ entryFrames pml p) ∨ bit (view s) f = false)
    ⟨hT.rest_refl s, by simp⟩ ?_) ?_
  · rintro pre p s' hpre ⟨hrest, hbits⟩
    have hp : p ∈ e820.map := hpre.subset (by simp)
    split_ifs with hram
    · -- Not RAM: nothing is freed.
      rw [wp_pure]
      refine ⟨hrest, fun f => ?_⟩
      rw [hbits f]
      have hnp : ¬p.IsRam := hram
      simp [exists_or, or_and_right, hnp]
    · have hram : p.IsRam := not_not.mp hram
      show wp (__initAllocBitmap T (entryRange pml p).1 (entryRange pml p).2) _ E s'
      refine wp___initAllocBitmap hT ?_ fun s'' hrest' hset => ?_
      · intro hne
        have := stop_le_getMaxPfn hheap himg hp hram
          ⟨_, Nat.le_refl _, UInt64.lt_iff_toNat_lt.mp hne⟩
        omega
      · refine ⟨hT.rest_trans hrest hrest', fun f => ?_⟩
        rw [hset f]
        constructor
        · intro h
          split_ifs at h with hin
          · exact Or.inl ⟨p, by simp, hram, hin⟩
          · rcases (hbits f).mp h with ⟨q, hq, hq'⟩ | h
            · exact Or.inl ⟨q, by simp [hq], hq'⟩
            · exact Or.inr h
        · intro h
          split_ifs with hin
          · rfl
          · rw [hbits f]
            rcases h with ⟨q, hq, hq'⟩ | h
            · rcases List.mem_append.mp hq with hq | hq
              · exact Or.inl ⟨q, hq, hq'⟩
              · rw [List.mem_singleton] at hq
                subst hq
                exact absurd hq'.2 hin
            · exact Or.inr h
  · rintro _ s' ⟨hrest, hbits⟩
    exact hQ s' hrest hbits

end Spec

end Tvmm
