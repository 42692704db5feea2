import Tvmm.AllocInit

/-!
# The invariant of the allocator

* `AllocLayout` says where the bitmap lies and which frames may be handed out;
* `AllocInv` is the invariant: only safe frames are free, and what was handed
  out is safe, marked, and pairwise disjoint;
* `BitmapReady` is the bitmap after `naive_allocator_init`, for any memory map;
* `wp_naiveAllocatorInit` establishes the invariant, `wp_allocPages` keeps it, and
  `AllocInv.of_onlyWrites` says that a write outside the bitmap keeps it;
* `wp_allocPagesRun` carries it over any sequence of calls.

`Room` is the part of a state that makes the next calls succeed.  A proof that
only cares about calls that return never needs it.
-/

namespace Tvmm

open Exec Bitmap

/-- The message that `alloc_boot_pages` gives up with. -/
def allocBootPagesFailure : Stop := .fatalFailure "alloc_boot_pages\n"

/-- Where the bitmap lies in physical memory, and which frames may be handed
out.  None of them holds a part of the bitmap. -/
structure AllocLayout where
  bitmap : Nat
  words : Nat
  safe : Set Nat
  safe_disjoint : ∀ f ∈ safe,
    Disjoint (frameBytes f) (Set.Ico bitmap (bitmap + 8 * words))

namespace AllocLayout

/-- The bytes of the bitmap. -/
def bytes (L : AllocLayout) : Set Nat := Set.Ico L.bitmap (L.bitmap + 8 * L.words)

/-- The frame is marked as allocated. -/
def Busy (L : AllocLayout) (s : State) (f : Nat) : Prop :=
  bit (memWords L.bitmap s) f = true

end AllocLayout

/-- The invariant of the allocator. -/
structure AllocInv (L : AllocLayout) (s : State) : Prop where
  mapped : bootTranslate s.nalloc.allocBitmap (8 * L.words) = some L.bitmap
  covers : s.nalloc.maxPage.toNat / 64 < L.words
  free_safe : ∀ f, f < s.nalloc.maxPage.toNat → ¬L.Busy s f → f ∈ L.safe
  handedOut_safe : ∀ r ∈ s.handedOut, rangeFrames r ⊆ L.safe
  handedOut_busy : ∀ r ∈ s.handedOut, ∀ f ∈ rangeFrames r,
    f < s.nalloc.maxPage.toNat ∧ L.Busy s f
  pairwise : s.handedOut.Pairwise fun r r' => Disjoint (rangeFrames r) (rangeFrames r')

/-- The numbers of pages and the alignments that a call may ask for. -/
def AllocArgs (nr al : UInt64) : Prop :=
  nr.toNat ≤ 2 ^ 52 ∧ 1 ≤ al.toNat ∧ al.toNat ≤ 2 ^ 52

instance (nr al : UInt64) : Decidable (AllocArgs nr al) :=
  inferInstanceAs (Decidable (_ ∧ _))

/-- What a call of `alloc_pages` that returned `r` did, as far as its caller
can tell. -/
structure Allocated (L : AllocLayout) (nr al r : UInt64) (s s' : State) : Prop where
  aligned : al.toNat ∣ r.toNat
  lt_maxPage : r.toNat + nr.toNat < s.nalloc.maxPage.toNat
  free : ∀ f ∈ rangeFrames (r, nr), ¬L.Busy s f
  first : ∀ c, al.toNat ∣ c → c < r.toNat →
    ∃ f, c ≤ f ∧ f < c + nr.toNat ∧ L.Busy s f
  busy : ∀ f, L.Busy s' f ↔ f ∈ rangeFrames (r, nr) ∨ L.Busy s f
  mem : Set.EqOn s'.mem s.mem L.bytesᶜ
  nalloc : s'.nalloc = s.nalloc
  handedOut : s'.handedOut = (r, nr) :: s.handedOut

/-- The frames `[k, K)` are free, so that the next calls have a place to take
their frames from; or a call that finds none may stop. -/
def Room (E : Stop → Prop) (L : AllocLayout) (k K : Nat) (s : State) : Prop :=
  (K < s.nalloc.maxPage.toNat ∧ ∀ f, k ≤ f → f < K → ¬L.Busy s f) ∨
    E allocBootPagesFailure

section Frame

variable {L : AllocLayout} {s s' : State} {X : Set Nat}

/-- A write outside the bitmap does not mark or unmark a frame. -/
theorem AllocLayout.busy_congr {f : Nat} (hf : f / 64 < L.words)
    (h : Set.EqOn s'.mem s.mem L.bytes) : L.Busy s' f ↔ L.Busy s f := by
  rw [AllocLayout.Busy, AllocLayout.Busy, bit, bit, memWords, memWords,
    ByteMem.read64_congr fun i hi => h ?_]
  rw [Set.mem_Ico] at hi
  rw [AllocLayout.bytes, Set.mem_Ico]
  omega

/-- The invariant survives every write outside the bitmap. -/
theorem AllocInv.of_onlyWrites (hinv : AllocInv L s) (h : OnlyWrites X s s')
    (hd : Disjoint X L.bytes) : AllocInv L s' := by
  have hbusy : ∀ f, f < s.nalloc.maxPage.toNat → (L.Busy s' f ↔ L.Busy s f) :=
    fun f hf => AllocLayout.busy_congr (by have := hinv.covers; omega) (h.eqOn hd)
  obtain ⟨hmapped, hcovers, hfree, hsafe, hmarked, hpair⟩ := hinv
  refine ⟨?_, ?_, ?_, ?_, ?_, ?_⟩
  · rwa [h.nalloc]
  · rwa [h.nalloc]
  · intro f hf hb
    rw [h.nalloc] at hf
    exact hfree f hf (by rwa [hbusy f hf] at hb)
  · rwa [h.handedOut]
  · intro r hr f hf
    rw [h.handedOut] at hr
    obtain ⟨hmax, hb⟩ := hmarked r hr f hf
    rw [h.nalloc]
    exact ⟨hmax, (hbusy f hmax).mpr hb⟩
  · rwa [h.handedOut]

/-- So does the room for the next calls. -/
theorem Room.of_onlyWrites {E : Stop → Prop} {k K : Nat} (hroom : Room E L k K s)
    (hinv : AllocInv L s) (h : OnlyWrites X s s') (hd : Disjoint X L.bytes) :
    Room E L k K s' := by
  refine hroom.imp (fun ⟨hK, hfree⟩ => ⟨by rwa [h.nalloc], fun f hkf hfK hb => ?_⟩) id
  refine hfree f hkf hfK ((AllocLayout.busy_congr ?_ (h.eqOn hd)).mp hb)
  have := hinv.covers
  omega

/-- Memory that is mapped and covered by the bitmap ends far below the top of
the address space. -/
theorem AllocInv.maxPage_le (hinv : AllocInv L s) :
    s.nalloc.maxPage.toNat ≤ 2 ^ 33 := by
  have := bootTranslate_le hinv.mapped
  have := hinv.covers
  omega

/-- A safe frame does not meet the bitmap. -/
theorem AllocLayout.frameBytes_disjoint {f : Nat} (hf : f ∈ L.safe) :
    Disjoint (frameBytes f) L.bytes :=
  L.safe_disjoint f hf

end Frame

section Calls

variable {L : AllocLayout} {s : State} {E : Stop → Prop} {nr al : UInt64}

theorem not_busy_iff {f : Nat} :
    ¬L.Busy s f ↔ bit (memWords L.bitmap s) f = false := by
  rw [AllocLayout.Busy, Bool.not_eq_true]

/-- The invariant after a call. -/
theorem Allocated.inv {r : UInt64} {s' : State} (h : Allocated L nr al r s s')
    (hinv : AllocInv L s) : AllocInv L s' := by
  have hmax := h.lt_maxPage
  have hr : ∀ f ∈ rangeFrames (r, nr), f < s.nalloc.maxPage.toNat := by
    intro f hf
    rw [mem_rangeFrames] at hf
    omega
  constructor
  · rw [h.nalloc]
    exact hinv.mapped
  · rw [h.nalloc]
    exact hinv.covers
  · intro f hf hb
    rw [h.busy, not_or] at hb
    rw [h.nalloc] at hf
    exact hinv.free_safe f hf hb.2
  · rw [h.handedOut]
    intro q hq
    rcases List.mem_cons.mp hq with rfl | hq
    · exact fun f hf => hinv.free_safe f (hr f hf) (h.free f hf)
    · exact hinv.handedOut_safe q hq
  · rw [h.handedOut, h.nalloc]
    intro q hq f hf
    rcases List.mem_cons.mp hq with rfl | hq
    · exact ⟨hr f hf, (h.busy f).mpr (Or.inl hf)⟩
    · obtain ⟨hlt, hb⟩ := hinv.handedOut_busy q hq f hf
      exact ⟨hlt, (h.busy f).mpr (Or.inr hb)⟩
  · rw [h.handedOut, List.pairwise_cons]
    refine ⟨fun q hq => Set.disjoint_left.mpr fun f hf hf' => ?_, hinv.pairwise⟩
    exact h.free f hf (hinv.handedOut_busy q hq f hf').2

/-- A call takes its range from the room, or from before it. -/
theorem Allocated.room {r : UInt64} {s' : State} (h : Allocated L nr al r s s')
    {k K c : Nat} (hroom : Room E L k K s) (hal : al.toNat ∣ c) (hkc : k ≤ c)
    (hcK : c + nr.toNat ≤ K) : Room E L (c + nr.toNat) K s' := by
  refine hroom.imp (fun ⟨hK, hfree⟩ => ⟨by rwa [h.nalloc], fun f hf hfK hb => ?_⟩) id
  have hrc : r.toNat ≤ c := by
    by_contra hlt
    obtain ⟨g, hg, hg', hb'⟩ := h.first c hal (by omega)
    exact hfree g (by omega) (by omega) hb'
  rcases (h.busy f).mp hb with hin | hb
  · rw [mem_rangeFrames] at hin
    omega
  · exact hfree f (by omega) hfK hb

/-- `alloc_pages` returns a range of free frames and marks it, or fails for
want of room. -/
theorem wp_allocPages (hinv : AllocInv L s) (hargs : AllocArgs nr al) {k K c : Nat}
    (hroom : Room E L k K s) (hal : al.toNat ∣ c) (hkc : k ≤ c)
    (hcK : c + nr.toNat ≤ K) {Q : UInt64 → State → Prop}
    (hQ : ∀ r s', Allocated L nr al r s s' → Q r s') :
    wp (allocPages nr al) Q E s := by
  have hmax := hinv.maxPage_le
  obtain ⟨hnr, hal1, hal2⟩ := hargs
  rw [allocPages, allocPagesVia, wp_bind, wp_get, wp_bind]
  refine wp_allocBootPages (memTable_lawful hinv.mapped) (by omega) hnr hal1 hal2
    hinv.covers ?_ ?_
  · intro r s' hdvd hlt hfree hfirst honly hset
    rw [wp_bind, wp_modify, wp_pure]
    refine hQ r _ ⟨hdvd, hlt, ?_, ?_, ?_, honly.mem, honly.nalloc, ?_⟩
    · intro f hf
      rw [mem_rangeFrames] at hf
      rw [not_busy_iff]
      exact hfree f hf.1 hf.2
    · intro c hc hcr
      have h := hfirst c hc hcr
      rw [AllFree] at h
      push Not at h
      obtain ⟨f, h1, h2, h3⟩ := h
      exact ⟨f, h1, h2, by rwa [AllocLayout.Busy, ← Bool.not_eq_false]⟩
    · intro f
      rw [AllocLayout.Busy]
      show bit (memWords L.bitmap s') f = true ↔ _
      rw [hset f, mem_rangeFrames]
      split_ifs with h
      · simp [h]
      · simp [h, AllocLayout.Busy]
    · show (r, nr) :: s'.handedOut = _
      rw [honly.handedOut]
  · intro hnone
    rcases hroom with ⟨hK, hfree⟩ | hE
    · refine absurd (fun f hf hf' => ?_) (hnone c hal (by omega))
      rw [← not_busy_iff]
      exact hfree f (by omega) (by omega)
    · exact hE

end Calls

/-! ## A run of calls -/

/-- Calls of `alloc`, each given by `nr_pfns` and `pfn_align`.  The result lists the calls
with the frame that each of them returned. -/
def callsRun (alloc : UInt64 → UInt64 → M UInt64) :
    List (UInt64 × UInt64) → M (List ((UInt64 × UInt64) × UInt64))
  | [] => pure []
  | c :: calls => do
      let r ← alloc c.1 c.2
      let out ← callsRun alloc calls
      return (c, r) :: out

/-- Calls of `alloc_pages` -/
def allocPagesRun : List (UInt64 × UInt64) → M (List ((UInt64 × UInt64) × UInt64)) :=
  callsRun allocPages

@[simp] theorem allocPagesRun_nil : allocPagesRun [] = pure [] := rfl

@[simp] theorem allocPagesRun_cons (c : UInt64 × UInt64) (calls : List (UInt64 × UInt64)) :
    allocPagesRun (c :: calls) = (do
      let r ← allocPages c.1 c.2
      let out ← allocPagesRun calls
      return (c, r) :: out) := rfl

/-- The range that a call returned. -/
def callRange (o : (UInt64 × UInt64) × UInt64) : UInt64 × UInt64 := (o.2, o.1.1)

/-- Without the promise of room, the range may be anywhere. -/
theorem Room.of_fail {E : Stop → Prop} (hE : E allocBootPagesFailure) (L : AllocLayout)
    (k K : Nat) (s : State) : Room E L k K s :=
  Or.inr hE

/-- A run of calls keeps the invariant, returns aligned frames and adds what it
returns to the history. -/
theorem wp_allocPagesRun {L : AllocLayout} {E : Stop → Prop}
    (hE : E allocBootPagesFailure) :
    ∀ (calls : List (UInt64 × UInt64)) (s : State), AllocInv L s →
      (∀ c ∈ calls, AllocArgs c.1 c.2) →
      wp (allocPagesRun calls) (fun out s' =>
        AllocInv L s' ∧ s'.nalloc = s.nalloc ∧ out.map Prod.fst = calls ∧
        (∀ o ∈ out, o.1.2.toNat ∣ o.2.toNat) ∧
        s'.handedOut = (out.map callRange).reverse ++ s.handedOut) E s := by
  intro calls
  induction calls with
  | nil =>
    intro s hinv _
    rw [allocPagesRun_nil, wp_pure]
    exact ⟨hinv, rfl, rfl, by simp, rfl⟩
  | cons c calls ih =>
    intro s hinv hcalls
    rw [allocPagesRun_cons, wp_bind]
    refine wp_allocPages hinv (hcalls c (by simp)) (Room.of_fail hE L 0 _ s)
      (Nat.dvd_zero _) (Nat.le_refl 0) (Nat.le_refl _) fun r s₁ hr => ?_
    rw [wp_bind]
    refine wp_imp (ih s₁ (hr.inv hinv) fun c hc => hcalls c (by simp [hc])) ?_
    rintro out s₂ ⟨hinv₂, hn₂, hmap, hdvd, hhist⟩
    rw [wp_pure]
    refine ⟨hinv₂, hn₂.trans hr.nalloc, by rw [List.map_cons, hmap], ?_, ?_⟩
    · intro o ho
      rcases List.mem_cons.mp ho with rfl | ho
      · exact hr.aligned
      · exact hdvd o ho
    · rw [hhist, hr.handedOut]
      simp [callRange]

/-- The invariant after every run of calls that returns. -/
theorem AllocInv.of_run {L : AllocLayout} {calls : List (UInt64 × UInt64)} {s s' : State}
    {out : List ((UInt64 × UInt64) × UInt64)} (hinv : AllocInv L s)
    (hcalls : ∀ c ∈ calls, AllocArgs c.1 c.2) (hrun : allocPagesRun calls s = .ok (out, s')) :
    AllocInv L s' :=
  (wp_ok (wp_allocPagesRun (E := fun _ => True) trivial calls s hinv hcalls) hrun).1

/-! ## `naive_allocator_init` -/

/-- The physical address of the bitmap. -/
def bitmapStart (endSym : UInt64) : UInt64 := PAGE_UP (PHYS endSym)

/-- The size of the bitmap in bytes, with its padding. -/
def bitmapSize (maxPage : UInt64) : UInt64 := PAGE_UP (maxPage / 8 + 8)

/-- The layout that `naive_allocator_init` leaves in `*pml`. -/
def initLayout (endSym : UInt64) (pml : PmemLayout) : PmemLayout :=
  { pml with vmmHeapStart := bitmapStart endSym + bitmapSize pml.maxPage }

/-- Whatever the map is, `*pml` gets the start of the heap and nothing else. -/
theorem naiveAllocatorInit_layout {endSym : UInt64} {e820 : E820Map} {pml pml' : PmemLayout}
    {s s' : State} (h : naiveAllocatorInit endSym e820 pml s = .ok (pml', s')) :
    pml' = initLayout endSym pml := by
  rw [naiveAllocatorInit, naiveAllocatorInitVia] at h
  dsimp only at h
  split_ifs at h
  · cases h
  · obtain ⟨_, _, _, h₁⟩ := bind_eq_ok.mp h
    obtain ⟨_, _, _, h₂⟩ := bind_eq_ok.mp h₁
    obtain ⟨_, _, _, h₃⟩ := bind_eq_ok.mp h₂
    cases h₃
    rfl

theorem toNat_bitmapSize {maxPage : UInt64} (h : maxPage.toNat < 2 ^ 52) :
    (bitmapSize maxPage).toNat = (maxPage.toNat / 8 + 8 + 4095) / 4096 * 4096 := by
  have hsum : (maxPage / 8 + 8).toNat = maxPage.toNat / 8 + 8 := by
    rw [UInt64.toNat_add, UInt64.toNat_div, show (8 : UInt64).toNat = 8 from rfl]
    omega
  rw [bitmapSize, toNat_PAGE_UP (by omega), hsum]

/-- The bitmap at the physical address `a` when `naive_allocator_init` returns,
for any memory map. -/
structure BitmapReady (endSym : UInt64) (e820 : E820Map) (pml : PmemLayout) (a : Nat)
    (s s' : State) : Prop where
  bitmap : bootTranslate (VIRT (bitmapStart endSym)) (bitmapSize pml.maxPage).toNat = some a
  size : (bitmapSize pml.maxPage).toNat = (pml.maxPage.toNat / 8 + 8 + 4095) / 4096 * 4096
  heap : a + (bitmapSize pml.maxPage).toNat < pml.vmmHeapEnd.toNat
  nalloc : s'.nalloc = { allocBitmap := VIRT (bitmapStart endSym), maxPage := pml.maxPage }
  free_iff : ∀ f, f < 8 * (bitmapSize pml.maxPage).toNat →
    (bit (memWords a s') f = false ↔ FreedBy e820 pml f)
  mem : Set.EqOn s'.mem s.mem (Set.Ico a (a + (bitmapSize pml.maxPage).toNat))ᶜ
  handedOut : s'.handedOut = []

namespace BitmapReady

variable {endSym : UInt64} {e820 : E820Map} {pml : PmemLayout} {a : Nat} {s s' : State}

theorem maxPage_eq (h : BitmapReady endSym e820 pml a s s') :
    s'.nalloc.maxPage = pml.maxPage := by
  rw [h.nalloc]

/-- The size of the bitmap in words. -/
theorem words (h : BitmapReady endSym e820 pml a s s') :
    8 * ((bitmapSize pml.maxPage).toNat / 8) = (bitmapSize pml.maxPage).toNat := by
  have := h.size
  omega

theorem mapped (h : BitmapReady endSym e820 pml a s s') :
    bootTranslate s'.nalloc.allocBitmap (8 * ((bitmapSize pml.maxPage).toNat / 8)) =
      some a := by
  rw [h.nalloc, h.words]
  exact h.bitmap

theorem covers (h : BitmapReady endSym e820 pml a s s') :
    s'.nalloc.maxPage.toNat / 64 < (bitmapSize pml.maxPage).toNat / 8 := by
  have := h.size
  rw [show s'.nalloc.maxPage = pml.maxPage by rw [h.nalloc]]
  omega

end BitmapReady

/-- `naive_allocator_init` marks every frame, then frees those in `FreedBy`. -/
theorem wp_naiveAllocatorInit_bitmap {endSym : UInt64} {e820 : E820Map} {pml : PmemLayout}
    {s : State} {E : Stop → Prop} (hmax : pml.maxPage = getMaxPfn e820)
    (hheap : pml.vmmHeapEnd.toNat ≤ 2 ^ 64 - 4096) (himg : pml.imageStop ≤ 2 ^ 64 - 4096)
    (hfail : bitmapStart endSym + bitmapSize pml.maxPage < pml.vmmHeapEnd ∨
      E (.fatalFailure "No heap space.\n"))
    (hE : Accessible E (VIRT (bitmapStart endSym)) (bitmapSize pml.maxPage).toNat)
    {Q : PmemLayout → State → Prop}
    (hQ : ∀ a s', BitmapReady endSym e820 pml a s s' → Q (initLayout endSym pml) s') :
    wp (naiveAllocatorInit endSym e820 pml) Q E s := by
  have hlt : pml.maxPage.toNat < 2 ^ 52 := hmax ▸ getMaxPfn_lt e820
  have hsize := toNat_bitmapSize hlt
  rw [naiveAllocatorInit, naiveAllocatorInitVia]
  dsimp only
  simp only [← bitmapStart.eq_def, ← bitmapSize.eq_def]
  split_ifs with hge
  · rcases hfail with hlt | hE
    · exact absurd hge (UInt64.not_le.mpr hlt)
    · rw [fatalFailure, wp_stop]
      exact hE
  · rw [wp_bind, wp_modify, wp_bind]
    refine wp_memset hE fun a ha => ?_
    have hmapped := ha (by omega)
    have hwords : 8 * ((bitmapSize pml.maxPage).toNat / 8) =
        (bitmapSize pml.maxPage).toNat := by omega
    have hcovers : (getMaxPfn e820).toNat / 64 < (bitmapSize pml.maxPage).toNat / 8 := by
      rw [← hmax]
      omega
    rw [wp_bind]
    refine wp_initAllocBitmap (memTable_lawful (n := (bitmapSize pml.maxPage).toNat / 8)
      (by rwa [hwords])) hheap himg hcovers fun s' honly hbits => ?_
    rw [hwords] at honly
    rw [wp_pure]
    refine hQ a s' ⟨hmapped, hsize, ?_, honly.nalloc, fun f hf => ?_, fun x hx => ?_,
      honly.handedOut⟩
    · -- The bitmap ends below the heap end, whichever window of the boot
      -- mapping it is reached through.
      have hlt := UInt64.lt_iff_toNat_lt.mp (UInt64.not_le.mp hge)
      rw [UInt64.toNat_add] at hlt
      rw [bootTranslate_eq_some, toNat_VIRT] at hmapped
      have := (bitmapStart endSym).toNat_lt
      omega
    · rw [hbits f]
      refine ⟨fun h => h.resolve_right fun h => ?_, Or.inl⟩
      -- Every word of the bitmap was set to ones.
      rw [bit, memWords, ByteMem.read64_of_ones, testBit_ones (by omega)] at h
      · cases h
      · intro x hx
        rw [Set.mem_Ico] at hx
        exact ByteMem.fill_of_mem (Set.mem_Ico.mpr (by omega))
    · rw [honly.mem hx]
      exact ByteMem.fill_of_notMem hx

/-- The bitmap of every run of `naive_allocator_init` that returns. -/
theorem bitmapReady_of_init {endSym : UInt64} {e820 : E820Map} {pml pml' : PmemLayout}
    {s s₁ : State} (hmax : pml.maxPage = getMaxPfn e820)
    (hheap : pml.vmmHeapEnd.toNat ≤ 2 ^ 64 - 4096) (himg : pml.imageStop ≤ 2 ^ 64 - 4096)
    (hinit : naiveAllocatorInit endSym e820 pml s = .ok (pml', s₁)) :
    ∃ a, BitmapReady endSym e820 pml a s s₁ :=
  wp_ok (wp_naiveAllocatorInit_bitmap (E := fun _ => True) hmax hheap himg (Or.inr trivial)
    (Or.inr fun _ => trivial) (Q := fun _ s₁ => ∃ a, BitmapReady endSym e820 pml a s s₁)
    fun a _ h => ⟨a, h⟩) hinit

/-- The state in which `naive_allocator_init` returns. -/
structure AllocatorReady (endSym : UInt64) (e820 : E820Map) (pml : PmemLayout)
    (L : AllocLayout) (s s' : State) : Prop where
  safe : L.safe = {f | SafeFrame e820 pml f}
  words : 8 * L.words = (bitmapSize pml.maxPage).toNat
  bitmap : bootTranslate (VIRT (bitmapStart endSym)) (bitmapSize pml.maxPage).toNat =
    some L.bitmap
  heap : L.bitmap + 8 * L.words < pml.vmmHeapEnd.toNat
  inv : AllocInv L s'
  maxPage : s'.nalloc.maxPage = pml.maxPage
  free_iff : ∀ f, f < pml.maxPage.toNat → (¬L.Busy s' f ↔ Freed e820 pml f)
  mem : Set.EqOn s'.mem s.mem L.bytesᶜ
  handedOut : s'.handedOut = []

/-- `naive_allocator_init` marks every frame, then frees those in `Freed`. -/
theorem wp_naiveAllocatorInit {endSym : UInt64} {e820 : E820Map} {pml : PmemLayout}
    {s : State} {E : Stop → Prop} (hboot : BootLayout e820 pml)
    (hheap : bitmapStart endSym + bitmapSize pml.maxPage < pml.vmmHeapEnd ∨
      E (.fatalFailure "No heap space.\n"))
    (hE : Accessible E (VIRT (bitmapStart endSym)) (bitmapSize pml.maxPage).toNat)
    {Q : PmemLayout → State → Prop}
    (hQ : ∀ L s', AllocatorReady endSym e820 pml L s s' →
      Q (initLayout endSym pml) s') :
    wp (naiveAllocatorInit endSym e820 pml) Q E s := by
  refine wp_naiveAllocatorInit_bitmap hboot.maxPage hboot.heapEnd hboot.image hheap hE
    fun a s' h => ?_
  have hend := h.heap
  have hsize := h.size
  let L : AllocLayout :=
    { bitmap := a
      words := (bitmapSize pml.maxPage).toNat / 8
      safe := {f | SafeFrame e820 pml f}
      safe_disjoint := by
        intro f hf
        have := hf.heap
        rw [frameBytes, Set.disjoint_left]
        intro x hx hx'
        rw [Set.mem_Ico] at hx hx'
        omega }
  have hfree : ∀ f, f < pml.maxPage.toNat → (¬L.Busy s' f ↔ Freed e820 pml f) := by
    intro f hf
    rw [not_busy_iff, h.free_iff f (by omega), hboot.freedBy_iff]
  have hmax : s'.nalloc.maxPage = pml.maxPage := by
    rw [h.nalloc]
  refine hQ L s' ⟨rfl, h.words, h.bitmap, ?_, ⟨h.mapped, h.covers, ?_, ?_, ?_, ?_⟩,
    hmax, hfree, ?_, h.handedOut⟩
  · show a + 8 * ((bitmapSize pml.maxPage).toNat / 8) < _
    rw [h.words]
    exact hend
  · intro f hf hb
    rw [hmax] at hf
    exact ((hfree f hf).mp hb).safe hboot
  · rw [h.handedOut]
    simp
  · rw [h.handedOut]
    simp
  · rw [h.handedOut]
    exact List.Pairwise.nil
  · show Set.EqOn s'.mem s.mem
      (Set.Ico a (a + 8 * ((bitmapSize pml.maxPage).toNat / 8)))ᶜ
    rw [h.words]
    exact h.mem

/-- The allocator after every run of `naive_allocator_init` that returns. -/
theorem allocatorReady_of_init {endSym : UInt64} {e820 : E820Map} {pml pml' : PmemLayout}
    {s s₁ : State} (hboot : BootLayout e820 pml)
    (hinit : naiveAllocatorInit endSym e820 pml s = .ok (pml', s₁)) :
    ∃ L, AllocatorReady endSym e820 pml L s s₁ :=
  wp_ok (wp_naiveAllocatorInit (E := fun _ => True) hboot (Or.inr trivial)
    (Or.inr fun _ => trivial)
    (Q := fun _ s₁ => ∃ L, AllocatorReady endSym e820 pml L s s₁) fun L _ h => ⟨L, h⟩) hinit

/-! ## A sample machine

Two ranges of RAM, a heap from 16 MB on, and `_end` at 2 MB.  The witnesses and
counterexamples of the later modules start here. -/

/-- RAM from 0 to 512 MB and from 1 GB to 8 GB. -/
def sampleMap : E820Map where
  map := [{ addr := 0, size := 0x20000000, type := E820_RAM },
    { addr := 0x40000000, size := 0x1C0000000, type := E820_RAM }]
  length_le := by decide

def sampleLayout : PmemLayout where
  maxPage := 0x200000
  totalPages := 0x1E0000
  vmmHeapStart := 0
  vmmHeapEnd := 0x1000000
  guestImageStart := 0x800000
  guestImageSize := 0x100000

def sampleEnd : UInt64 := 0xFFFF830000200000

/-- A machine whose memory is zero. -/
def sampleState : State where
  mem := fun _ => 0
  nalloc := { allocBitmap := 0, maxPage := 0 }
  handedOut := []

theorem sample_bootLayout : BootLayout sampleMap sampleLayout where
  noWrap := by
    intro p hp
    simp only [sampleMap, List.mem_cons, List.not_mem_nil, or_false] at hp
    rcases hp with rfl | rfl <;> decide
  maxPage := by decide
  heapEnd := by decide
  image := by decide

/-- The RAM of the sample machine. -/
theorem sample_ram {pml : PmemLayout} {f : Nat} (h : SafeFrame sampleMap pml f) :
    f < 131072 ∨ 262144 ≤ f := by
  obtain ⟨p, hp, -, hin⟩ := h.ram
  have hlo := hin (mem_frameBytes.mpr (show f * 4096 / 4096 = f by omega))
  simp only [sampleMap, List.mem_cons, List.not_mem_nil, or_false] at hp
  rcases hp with rfl | rfl
  · rw [Set.mem_Ico, E820Entry.stop, show (0 : UInt64).toNat = 0 from rfl,
      show (0x20000000 : UInt64).toNat = 0x20000000 from rfl] at hlo
    omega
  · rw [Set.mem_Ico, show (0x40000000 : UInt64).toNat = 0x40000000 from rfl] at hlo
    omega

/-- The free frames of the sample machine lie between 16 MB and 512 MB, and from
1 GB on. -/
theorem sample_free_iff {L : AllocLayout} {s s' : State}
    (hready : AllocatorReady sampleEnd sampleMap sampleLayout L s s') {f : Nat}
    (hf : f < 2097152) : ¬L.Busy s' f ↔ 4096 ≤ f ∧ f < 131072 ∨ 262144 ≤ f := by
  have hlow : entryStart sampleLayout { addr := 0, size := 0x20000000, type := E820_RAM } =
      0x1000000 := by decide
  have hhigh : entryStart sampleLayout
      { addr := 0x40000000, size := 0x1C0000000, type := E820_RAM } = 0x40000000 := by decide
  rw [hready.free_iff f hf, Freed]
  simp only [sampleMap, List.mem_cons, List.not_mem_nil, or_false, exists_eq_or_imp,
    exists_eq_left, hlow, hhigh, E820Entry.IsRam, E820Entry.stop, true_and,
    show (0 : UInt64).toNat = 0 from rfl, show (0x20000000 : UInt64).toNat = 0x20000000 from rfl,
    show (0x40000000 : UInt64).toNat = 0x40000000 from rfl,
    show (0x1C0000000 : UInt64).toNat = 0x1C0000000 from rfl]
  omega

/-- The allocator starts on the sample machine, with room for calls between
16 MB and 512 MB. -/
theorem sample_init (s : State) : ∃ L s',
    naiveAllocatorInit sampleEnd sampleMap sampleLayout s =
      .ok (initLayout sampleEnd sampleLayout, s') ∧
    AllocatorReady sampleEnd sampleMap sampleLayout L s s' ∧
    Room (fun _ => False) L 4096 131072 s' := by
  have hmapped : Accessible (fun _ => False) (VIRT (bitmapStart sampleEnd))
      (bitmapSize sampleLayout.maxPage).toNat :=
    Or.inl ⟨0x200000, fun _ => by decide⟩
  have hlt : bitmapStart sampleEnd + bitmapSize sampleLayout.maxPage <
      sampleLayout.vmmHeapEnd := by decide
  have hwp : wp (naiveAllocatorInit sampleEnd sampleMap sampleLayout) (fun pml s' =>
      pml = initLayout sampleEnd sampleLayout ∧
        ∃ L, AllocatorReady sampleEnd sampleMap sampleLayout L s s')
      (fun _ => False) s :=
    wp_naiveAllocatorInit sample_bootLayout (Or.inl hlt) hmapped
      fun L s' h => ⟨rfl, L, h⟩
  obtain ⟨pml, s', hok, rfl, L, hready⟩ := exists_ok_of_wp hwp
  refine ⟨L, s', hok, hready, Or.inl ⟨?_, fun f hf hf' => ?_⟩⟩
  · rw [hready.maxPage]
    decide
  · exact (sample_free_iff hready (by omega)).mpr (Or.inl ⟨hf, hf'⟩)

/-- A call for more frames than there are below 512 MB takes them from 1 GB on,
and leaves the room below. -/
theorem sample_allocPages_high {L : AllocLayout} {s s' : State}
    (hready : AllocatorReady sampleEnd sampleMap sampleLayout L s s')
    (hroom : Room (fun _ => False) L 4096 131072 s') {nr : UInt64}
    (hnr : 126976 < nr.toNat) (hnr' : nr.toNat ≤ 1835007) {Q : UInt64 → State → Prop}
    (hQ : ∀ r s'', Allocated L nr 512 r s' s'' → 262144 ≤ r.toNat →
      Room (fun _ => False) L 4096 131072 s'' → Q r s'') :
    wp (allocPages nr 512) Q (fun _ => False) s' := by
  have h512 : (512 : UInt64).toNat = 512 := rfl
  have hmax : s'.nalloc.maxPage.toNat = 2097152 := by
    rw [hready.maxPage]
    rfl
  have hhigh : Room (fun _ => False) L 262144 2097151 s' :=
    Or.inl ⟨by omega, fun f hf hf' =>
      (sample_free_iff hready (by omega)).mpr (Or.inr hf)⟩
  refine wp_allocPages hready.inv ⟨by omega, by omega, by omega⟩ hhigh (c := 262144)
    (by decide) (Nat.le_refl _) (by omega) fun r s'' hr => ?_
  have hlt := hr.lt_maxPage
  have hfree : ∀ f, r.toNat ≤ f → f < r.toNat + nr.toNat →
      4096 ≤ f ∧ f < 131072 ∨ 262144 ≤ f := fun f hf hf' =>
    (sample_free_iff hready (by omega)).mp (hr.free f (mem_rangeFrames.mpr ⟨hf, hf'⟩))
  have hle : 262144 ≤ r.toNat := by
    by_contra hlow
    rcases hfree r.toNat (Nat.le_refl _) (by omega) with ⟨h1, h2⟩ | h
    · have := hfree 131072 (by omega) (by omega)
      omega
    · exact hlow h
  refine hQ r s'' hr hle ?_
  rcases hroom with ⟨hK, hlowfree⟩ | hF
  · refine Or.inl ⟨by rw [hr.nalloc]; exact hK, fun f hf hf' hb => ?_⟩
    rcases (hr.busy f).mp hb with hin | hb
    · rw [mem_rangeFrames] at hin
      omega
    · exact hlowfree f hf hf' hb
  · exact hF.elim

/-! ## What the allocator guarantees -/

/-- `naive_allocator_init`, then any calls of `alloc_pages`. -/
def initAndAllocate (endSym : UInt64) (e820 : E820Map) (pml : PmemLayout)
    (calls : List (UInt64 × UInt64)) : M (List ((UInt64 × UInt64) × UInt64)) := do
  let _ ← naiveAllocatorInit endSym e820 pml
  allocPagesRun calls

/-- Every sequence of calls that is not stopped gets pairwise disjoint, aligned
ranges of safe frames. -/
theorem initAndAllocate_disjoint_safe {endSym : UInt64} {e820 : E820Map}
    {pml : PmemLayout} (hboot : BootLayout e820 pml) {calls : List (UInt64 × UInt64)}
    (hcalls : ∀ c ∈ calls, AllocArgs c.1 c.2) {s s' : State}
    {out : List ((UInt64 × UInt64) × UInt64)}
    (hrun : initAndAllocate endSym e820 pml calls s = .ok (out, s')) :
    out.map Prod.fst = calls ∧
    out.Pairwise (fun o o' =>
      Disjoint (rangeFrames (callRange o)) (rangeFrames (callRange o'))) ∧
    ∀ o ∈ out, o.1.2.toNat ∣ o.2.toNat ∧
      ∀ f ∈ rangeFrames (callRange o), SafeFrame e820 pml f := by
  have hwp : wp (initAndAllocate endSym e820 pml calls) (fun out s' => ∃ L : AllocLayout,
      L.safe = {f | SafeFrame e820 pml f} ∧ AllocInv L s' ∧
      out.map Prod.fst = calls ∧ (∀ o ∈ out, o.1.2.toNat ∣ o.2.toNat) ∧
      s'.handedOut = (out.map callRange).reverse) (fun _ => True) s := by
    rw [initAndAllocate, wp_bind]
    refine wp_naiveAllocatorInit hboot (Or.inr trivial) (Or.inr fun _ => trivial) ?_
    intro L s₁ hready
    refine wp_imp (wp_allocPagesRun trivial calls s₁ hready.inv hcalls) ?_
    rintro out s' ⟨hinv, -, hmap, hdvd, hhist⟩
    rw [hready.handedOut, List.append_nil] at hhist
    exact ⟨L, hready.safe, hinv, hmap, hdvd, hhist⟩
  obtain ⟨L, hsafe, hinv, hmap, hdvd, hhist⟩ := wp_ok hwp hrun
  refine ⟨hmap, ?_, fun o ho => ⟨hdvd o ho, fun f hf => ?_⟩⟩
  · have hpair := hinv.pairwise
    rw [hhist, List.pairwise_reverse, List.pairwise_map] at hpair
    exact hpair.imp fun h => h.symm
  · have hmem : callRange o ∈ s'.handedOut := by
      rw [hhist, List.mem_reverse]
      exact List.mem_map_of_mem ho
    have := hinv.handedOut_safe _ hmem hf
    rwa [hsafe] at this

/-- On the sample machine three pages and then two aligned pages are handed
out. -/
theorem sample_initAndAllocate : ∃ out s',
    initAndAllocate sampleEnd sampleMap sampleLayout [(3, 1), (2, 4)] sampleState =
      .ok (out, s') ∧
    out.map Prod.fst = [(3, 1), (2, 4)] ∧
    out.Pairwise (fun o o' =>
      Disjoint (rangeFrames (callRange o)) (rangeFrames (callRange o'))) ∧
    ∀ o ∈ out, o.1.2.toNat ∣ o.2.toNat ∧
      ∀ f ∈ rangeFrames (callRange o), SafeFrame sampleMap sampleLayout f := by
  obtain ⟨L, s₁, hok, hready, hroom⟩ := sample_init sampleState
  have hwp : wp (allocPagesRun [(3, 1), (2, 4)]) (fun _ _ => True) (fun _ => False) s₁ := by
    rw [allocPagesRun_cons, wp_bind]
    refine wp_allocPages hready.inv (by decide) hroom (c := 4096) (by decide)
      (Nat.le_refl _) (by decide) fun r s₂ hr => ?_
    rw [wp_bind, allocPagesRun_cons, wp_bind]
    refine wp_allocPages (hr.inv hready.inv) (by decide)
      (hr.room hroom (by decide) (Nat.le_refl _) (by decide)) (c := 4100) (by decide)
      (by decide) (by decide) fun r s₃ hr => ?_
    simp only [allocPagesRun_nil, wp_bind, wp_pure]
  obtain ⟨out, s', hrun, -⟩ := exists_ok_of_wp hwp
  have hrun' : initAndAllocate sampleEnd sampleMap sampleLayout [(3, 1), (2, 4)]
      sampleState = .ok (out, s') := by
    rw [initAndAllocate, bind_of_ok hok]
    exact hrun
  exact ⟨out, s', hrun', initAndAllocate_disjoint_safe sample_bootLayout
    (List.forall_mem_cons.mpr ⟨by decide, List.forall_mem_singleton.mpr (by decide)⟩) hrun'⟩

end Tvmm
