import Tvmm.AllocInv

/-!
# What a caller relies on of `alloc_pages`

`Evolves` is the footprint of a piece of the VMM that also allocates: memory
changed only in a given set and in the frames that it got.  `AllocContract` is
the contract of an allocator, stated for any allocator, and
`allocPages_contract` says that `alloc_pages` meets it.

The contract carries a budget, the `k` of `Inv k`.  A call takes `nr + al` from
it.  For `alloc_pages` the budget is room in memory that is mapped, or nothing
at all when `E` accepts that the machine stops for want of it.
-/

namespace Tvmm

open Exec

/-- The bytes of the frames of the ranges in a list. -/
def rangeBytes (ext : List (UInt64 × UInt64)) : Set Nat :=
  {a | ∃ r ∈ ext, a / 4096 ∈ rangeFrames r}

theorem rangeBytes_append (ext ext' : List (UInt64 × UInt64)) :
    rangeBytes (ext ++ ext') = rangeBytes ext ∪ rangeBytes ext' := by
  ext a
  simp only [rangeBytes, List.mem_append, Set.mem_ofPred_eq, Set.mem_union]
  constructor
  · rintro ⟨r, hr | hr, ha⟩
    · exact Or.inl ⟨r, hr, ha⟩
    · exact Or.inr ⟨r, hr, ha⟩
  · rintro (⟨r, hr, ha⟩ | ⟨r, hr, ha⟩)
    · exact ⟨r, Or.inl hr, ha⟩
    · exact ⟨r, Or.inr hr, ha⟩

@[simp] theorem rangeBytes_nil : rangeBytes [] = ∅ := by
  ext a
  simp [rangeBytes]

/-- From `s` to `s'` the ranges `ext` were handed out, none of them for the
second time, and memory outside them and outside `X` did not change. -/
structure Evolves (X : Set Nat) (ext : List (UInt64 × UInt64)) (s s' : State) :
    Prop where
  mem : Set.EqOn s'.mem s.mem (X ∪ rangeBytes ext)ᶜ
  handedOut : s'.handedOut = ext ++ s.handedOut
  fresh : ∀ q ∈ ext, ∀ q' ∈ s.handedOut, Disjoint (rangeFrames q) (rangeFrames q')

namespace Evolves

variable {X Y : Set Nat} {ext ext' : List (UInt64 × UInt64)} {s s' s'' : State}

theorem refl (X : Set Nat) (s : State) : Evolves X [] s s :=
  ⟨fun _ _ => rfl, rfl, by simp⟩

theorem of_onlyWrites (h : OnlyWrites X s s') : Evolves X [] s s' :=
  ⟨by simpa using h.mem, h.handedOut, by simp⟩

theorem trans (h : Evolves X ext s s') (h' : Evolves Y ext' s' s'') :
    Evolves (X ∪ Y) (ext' ++ ext) s s'' := by
  refine ⟨fun a ha => ?_, ?_, fun q hq q' hq' => ?_⟩
  · rw [rangeBytes_append] at ha
    simp only [Set.mem_compl_iff, Set.mem_union, not_or] at ha
    obtain ⟨⟨hX, hY⟩, he', he⟩ := ha
    rw [h'.mem (by simp [hY, he']), h.mem (by simp [hX, he])]
  · rw [h'.handedOut, h.handedOut, List.append_assoc]
  · rcases List.mem_append.mp hq with hq | hq
    · exact h'.fresh q hq q' (by rw [h.handedOut]; exact List.mem_append_right _ hq')
    · exact h.fresh q hq q' hq'

/-- What lies in the new frames need not be listed. -/
theorem mono (h : Evolves X ext s s') (hX : X ⊆ Y ∪ rangeBytes ext) :
    Evolves Y ext s s' := by
  refine ⟨fun a ha => h.mem fun hXa => ha ?_, h.handedOut, h.fresh⟩
  rcases hXa with hXa | hXa
  · exact hX hXa
  · exact Or.inr hXa

/-- Memory of frames that are not written keeps its content. -/
theorem eqOn (h : Evolves X ext s s') {Z : Set Nat} (hX : Disjoint X Z)
    (hext : Disjoint (rangeBytes ext) Z) : Set.EqOn s'.mem s.mem Z := by
  refine fun a ha => h.mem fun hm => ?_
  rcases hm with hm | hm
  · exact Set.disjoint_left.mp hX hm ha
  · exact Set.disjoint_left.mp hext hm ha

/-- A frame that was handed out before is not handed out again. -/
theorem notMem (h : Evolves X ext s s') {q' : UInt64 × UInt64} (hq' : q' ∈ s.handedOut)
    {f : Nat} (hf : f ∈ rangeFrames q') : ∀ q ∈ ext, f ∉ rangeFrames q :=
  fun q hq hqf => Set.disjoint_left.mp (h.fresh q hq q' hq') hqf hf

/-- A frame that is neither new nor written keeps its content. -/
theorem frame_eqOn (h : Evolves X ext s s') {f : Nat} (hX : Disjoint X (frameBytes f))
    (hext : ∀ q ∈ ext, f ∉ rangeFrames q) : Set.EqOn s'.mem s.mem (frameBytes f) := by
  refine h.eqOn hX (Set.disjoint_left.mpr ?_)
  rintro a ⟨q, hq, ha⟩ haf
  rw [mem_frameBytes] at haf
  exact hext q hq (haf ▸ ha)

end Evolves

/-- What a call of an allocator did that returned `r`.  `priv` is the memory
that the allocator keeps for itself. -/
structure AllocResult (E : Stop → Prop) (priv : Set Nat) (nr al r : UInt64)
    (s s' : State) : Prop where
  aligned : al.toNat ∣ r.toNat
  le : r.toNat + nr.toNat ≤ 2 ^ 33
  disjoint : ∀ f ∈ rangeFrames (r, nr), Disjoint (frameBytes f) priv
  accessible : Accessible E (VIRT (r <<< PAGE_SHIFT)) (nr.toNat * 4096)
  evolves : Evolves priv [(r, nr)] s s'

/-- The contract of an allocator that may stop into `E`. -/
structure AllocContract (alloc : UInt64 → UInt64 → M UInt64) (E : Stop → Prop)
    (priv : Set Nat) (Inv : Nat → State → Prop) : Prop where
  mono : ∀ {j k s}, j ≤ k → Inv k s → Inv j s
  of_onlyWrites : ∀ {k X s s'}, Inv k s → OnlyWrites X s s' → Disjoint X priv →
    Inv k s'
  alloc : ∀ {k s nr al}, AllocArgs nr al → Inv (k + nr.toNat + al.toNat) s →
    wp (alloc nr al) (fun r s' => Inv k s' ∧ AllocResult E priv nr al r s s') E s

/-- What a call that returned `r` and a `memset` of the whole range did. -/
structure Filled (priv : Set Nat) (nr al : UInt64) (c : UInt8) (r : UInt64)
    (s s' : State) : Prop where
  aligned : al.toNat ∣ r.toNat
  le : r.toNat + nr.toNat ≤ 2 ^ 33
  mapped : nr.toNat ≠ 0 → r.toNat * 4096 + nr.toNat * 4096 ≤ 1073741824
  disjoint : ∀ f ∈ rangeFrames (r, nr), Disjoint (frameBytes f) priv
  fill : ∀ a, a / 4096 ∈ rangeFrames (r, nr) → s'.mem a = c
  evolves : Evolves priv [(r, nr)] s s'

/-- The frames of a range that was handed out do not meet `priv`. -/
theorem rangeBytes_disjoint {priv : Set Nat} {r nr : UInt64}
    (h : ∀ f ∈ rangeFrames (r, nr), Disjoint (frameBytes f) priv) :
    Disjoint (rangeBytes [(r, nr)]) priv := by
  rw [Set.disjoint_left]
  rintro a ⟨q, hq, ha⟩ hp
  rw [List.mem_singleton] at hq
  subst hq
  exact Set.disjoint_left.mp (h _ ha) (mem_frameBytes.mpr rfl) hp

/-- Filling the pages of a range. -/
theorem wp_memset_range {E : Stop → Prop} {r nr size : UInt64} {c : UInt8} {s : State}
    (hle : r.toNat + nr.toNat ≤ 2 ^ 33) (hsize : size.toNat = nr.toNat * 4096)
    (hE : Accessible E (VIRT (r <<< PAGE_SHIFT)) (nr.toNat * 4096))
    {Q : Unit → State → Prop}
    (hQ : ∀ s', OnlyWrites (rangeBytes [(r, nr)]) s s' →
      (nr.toNat ≠ 0 → r.toNat * 4096 + nr.toNat * 4096 ≤ 1073741824) →
      (∀ a, a / 4096 ∈ rangeFrames (r, nr) → s'.mem a = c) → Q () s') :
    wp (memset (VIRT (r <<< PAGE_SHIFT)) c size) Q E s := by
  have hshift := toNat_shiftLeft_PAGE_SHIFT (x := r) (by omega)
  refine wp_memset (hsize ▸ hE) fun a ha => ?_
  rw [hsize] at ha ⊢
  -- The range is filled at its own physical address.
  have ha' : nr.toNat ≠ 0 → a = r.toNat * 4096 ∧ a + nr.toNat * 4096 ≤ 1073741824 := by
    intro hnr
    have hmapped := ha (by omega)
    refine ⟨?_, bootTranslate_le hmapped⟩
    rw [← hshift]
    exact eq_of_bootTranslate_VIRT (by omega) hmapped
  have hin : ∀ x, x ∈ Set.Ico a (a + nr.toNat * 4096) ↔ x / 4096 ∈ rangeFrames (r, nr) := by
    intro x
    rw [Set.mem_Ico, mem_rangeFrames]
    by_cases hnr : nr.toNat = 0
    · omega
    · have := (ha' hnr).1
      omega
  refine hQ _ (OnlyWrites.of_mem fun x hx => ByteMem.fill_of_notMem fun hx' => hx ?_)
    (fun hnr => ?_) fun x hx => ByteMem.fill_of_mem ((hin x).mpr hx)
  · exact ⟨_, List.mem_singleton_self _, (hin x).mp hx'⟩
  · have := ha' hnr
    omega

/-- Filling the pages that a call returned. -/
theorem AllocResult.wp_memset {alloc : UInt64 → UInt64 → M UInt64} {E : Stop → Prop}
    {priv : Set Nat} {Inv : Nat → State → Prop} (hA : AllocContract alloc E priv Inv)
    {nr al size r : UInt64} {c : UInt8} {k : Nat} {s s₁ : State}
    (hres : AllocResult E priv nr al r s s₁) (hsize : size.toNat = nr.toNat * 4096)
    (hinv : Inv k s₁) {Q : Unit → State → Prop}
    (hQ : ∀ s', Inv k s' → Filled priv nr al c r s s' → Q () s') :
    wp (memset (VIRT (r <<< PAGE_SHIFT)) c size) Q E s₁ := by
  refine wp_memset_range hres.le hsize hres.accessible fun s' honly hmapped hfill => ?_
  refine hQ s' (hA.of_onlyWrites hinv honly (rangeBytes_disjoint hres.disjoint))
    ⟨hres.aligned, hres.le, hmapped, hres.disjoint, hfill, ?_⟩
  exact (hres.evolves.trans (Evolves.of_onlyWrites honly)).mono
    (Set.union_subset_union_right priv fun x hx => by simpa using hx)

/-- Allocating pages and filling them. -/
theorem wp_alloc_memset {alloc : UInt64 → UInt64 → M UInt64} {E : Stop → Prop}
    {priv : Set Nat} {Inv : Nat → State → Prop} (hA : AllocContract alloc E priv Inv)
    {nr al size : UInt64} {c : UInt8} {k : Nat} {s : State} (hargs : AllocArgs nr al)
    (hsize : size.toNat = nr.toNat * 4096) (hinv : Inv (k + nr.toNat + al.toNat) s)
    {α : Type} {f : UInt64 → M α} {Q : α → State → Prop}
    (hQ : ∀ r s', Inv k s' → Filled priv nr al c r s s' → wp (f r) Q E s') :
    wp (do
      let pfn ← alloc nr al
      memset (VIRT (pfn <<< PAGE_SHIFT)) c size
      f pfn : M α) Q E s := by
  rw [wp_bind]
  refine wp_imp (hA.alloc hargs hinv) ?_
  rintro r s₁ ⟨hinv₁, hres⟩
  rw [wp_bind]
  exact hres.wp_memset hA hsize hinv₁ fun s' => hQ r s'

/-- The stops that a proof about returning calls accepts. -/
def AnyStop (E : Stop → Prop) : Prop :=
  E allocBootPagesFailure ∧ ∀ v, E (.pageFault v)

/-- The invariant of the allocator and room for calls that take `k` frames in
all, in the first 1 GB of memory. -/
def Budget (E : Stop → Prop) (L : AllocLayout) (k : Nat) (s : State) : Prop :=
  AllocInv L s ∧ ((∃ j K, Room (fun _ => False) L j K s ∧ j + k ≤ K ∧ K ≤ 2 ^ 18) ∨
    AnyStop E)

theorem Budget.of_anyStop {E : Stop → Prop} {L : AllocLayout} {s : State}
    (hE : AnyStop E) (hinv : AllocInv L s) (k : Nat) : Budget E L k s :=
  ⟨hinv, Or.inr hE⟩

/-- `alloc_pages` meets the contract. -/
theorem allocPages_contract (E : Stop → Prop) (L : AllocLayout) :
    AllocContract allocPages E L.bytes (Budget E L) := by
  constructor
  · rintro j k s hjk ⟨hinv, hroom⟩
    refine ⟨hinv, hroom.imp ?_ id⟩
    rintro ⟨i, K, hroom, hk, hK⟩
    exact ⟨i, K, hroom, by omega, hK⟩
  · rintro k X s s' ⟨hinv, hroom⟩ honly hd
    refine ⟨hinv.of_onlyWrites honly hd, hroom.imp ?_ id⟩
    rintro ⟨i, K, hroom, hk, hK⟩
    exact ⟨i, K, hroom.of_onlyWrites hinv honly hd, hk, hK⟩
  · rintro k s nr al hargs ⟨hinv, hbudget⟩
    have hmax := hinv.maxPage_le
    have hal := hargs.2.1
    -- What a returned range is like, whatever happens to the budget.
    have hresult : ∀ r s', Allocated L nr al r s s' →
        Accessible E (VIRT (r <<< PAGE_SHIFT)) (nr.toNat * 4096) →
        AllocResult E L.bytes nr al r s s' := by
      intro r s' hr hacc
      have hinv' := hr.inv hinv
      have hpair := hinv'.pairwise
      rw [hr.handedOut, List.pairwise_cons] at hpair
      refine ⟨hr.aligned, by have := hr.lt_maxPage; omega, fun f hf => ?_, hacc, ?_, ?_, ?_⟩
      · refine AllocLayout.frameBytes_disjoint (hinv'.handedOut_safe (r, nr) ?_ hf)
        rw [hr.handedOut]
        exact List.mem_cons_self
      · exact fun a ha => hr.mem fun hb => ha (Or.inl hb)
      · exact hr.handedOut
      · intro q hq q' hq'
        rw [List.mem_singleton] at hq
        subst hq
        exact hpair.1 q' hq'
    rcases hbudget with ⟨j, K, hroom, hk, hK⟩ | hE
    · -- The first aligned frame of the room.
      let c := (j + al.toNat - 1) / al.toNat * al.toNat
      have hc : al.toNat ∣ c := Nat.dvd_mul_left _ _
      have hjc : j ≤ c := by
        have := Nat.div_add_mod (j + al.toNat - 1) al.toNat
        have hlt := Nat.mod_lt (j + al.toNat - 1) hal
        have hcomm := Nat.mul_comm al.toNat ((j + al.toNat - 1) / al.toNat)
        show j ≤ (j + al.toNat - 1) / al.toNat * al.toNat
        omega
      have hcj : c ≤ j + al.toNat - 1 := Nat.div_mul_le_self _ _
      refine wp_allocPages hinv hargs (hroom.imp id False.elim) hc hjc (by omega)
        fun r s' hr => ?_
      have hroom' := hr.room hroom hc hjc (by omega)
      have hrc : r.toNat ≤ c := by
        by_contra hlt
        obtain ⟨g, hg, hg', hb⟩ := hr.first c hc (by omega)
        rcases hroom with ⟨-, hfree⟩ | hF
        · exact hfree g (by omega) (by omega) hb
        · exact hF
      refine ⟨⟨hr.inv hinv, Or.inl ⟨_, K, hroom', by omega, hK⟩⟩, hresult r s' hr ?_⟩
      have hshift := toNat_shiftLeft_PAGE_SHIFT (x := r) (by omega)
      exact Or.inl ⟨_, fun _ => bootTranslate_VIRT (by rw [hshift]; omega)⟩
    · refine wp_allocPages hinv hargs (Room.of_fail hE.1 L 0 _ s) (Nat.dvd_zero _)
        (Nat.le_refl 0) (Nat.le_refl _) fun r s' hr => ?_
      exact ⟨Budget.of_anyStop hE (hr.inv hinv) k, hresult r s' hr (Or.inr hE.2)⟩

/-- Without a budget, when running out of memory is accepted. -/
theorem allocPages_contract_anyStop {E : Stop → Prop} (hE : AnyStop E) (L : AllocLayout) :
    AllocContract allocPages E L.bytes fun _ => AllocInv L := by
  have h : Budget E L = fun _ => AllocInv L := by
    funext k s
    exact propext ⟨And.left, fun hinv => Budget.of_anyStop hE hinv k⟩
  exact h ▸ allocPages_contract E L

/-- The contract for calls that return, whatever stops the others. -/
theorem allocPages_contract_returns (L : AllocLayout) :
    AllocContract allocPages (fun _ => True) L.bytes fun _ => AllocInv L :=
  allocPages_contract_anyStop ⟨trivial, fun _ => trivial⟩ L

/-- The budget of the sample machine after `naive_allocator_init`. -/
theorem sample_budget {L : AllocLayout} {s s' : State}
    (hready : AllocatorReady sampleEnd sampleMap sampleLayout L s s')
    (hroom : Room (fun _ => False) L 4096 131072 s') {k : Nat} (hk : k ≤ 126976) :
    Budget (fun _ => False) L k s' :=
  ⟨hready.inv, Or.inl ⟨4096, 131072, hroom, by omega, by decide⟩⟩

end Tvmm
