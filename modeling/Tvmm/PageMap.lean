import Tvmm.PageTree

/-!
# Page tables as finite maps

The purpose of the page tables is a map from 2 MB pages to physical pages with
a user flag (`PageMap`).  `Holds` says that the tables in memory hold a map, and
`wp_mmap` that `mmap` updates it at one page.

Over a whole run, `TableOp` is an `mmap` or any other call of `alloc_pages`, and
the map is the one of the last `mmap` of each page (`lastMmap`).  The results
are `buildTable_walk`, for the walk that the processor makes, and
`buildTable_vaddrToPaddr`, for the walk that `vaddr_to_paddr` makes.
-/

set_option linter.style.nameCheck false

namespace Tvmm

open Exec LongMode

/-- A map from virtual addresses, by their 2 MB page, to the address and the
user flag that the page was mapped with. -/
abbrev PageMap : Type := Nat → Option (UInt64 × Int32)

/-- Two addresses lie in the same 2 MB page: bits 47 to 21 agree. -/
def SamePage (v w : Nat) : Prop := v / 2 ^ 21 % 2 ^ 27 = w / 2 ^ 21 % 2 ^ 27

instance (v w : Nat) : Decidable (SamePage v w) := inferInstanceAs (Decidable (_ = _))

/-- The map with the page of `v` mapped. -/
def PageMap.set (m : PageMap) (v p : UInt64) (isUser : Int32) : PageMap := fun w =>
  if SamePage v.toNat w then some (p, isUser) else m w

/-- The entry for a value of the map. -/
def entryOf : Option (UInt64 × Int32) → UInt64
  | none => 0
  | some (p, isUser) => pageEntry (p.toNat / 2 ^ 21 % 2 ^ 31) (decide (isUser ≠ 0))

/-- The tables at frame `f` hold the map `m`. -/
def Holds (mem : ByteMem) (f : Nat) (m : PageMap) : Prop :=
  ∀ w, format.lookup (words mem) f (path w) = entryOf (m w)

theorem Holds.mmap {priv : Set Nat} {v p : UInt64} {isUser : Int32} {f : Nat}
    {S S' : Set Nat} {s s' : State} {ext : List (UInt64 × UInt64)} {m : PageMap}
    (h : Holds s.mem f m)
    (hm : Mmapped priv v p (decide (isUser ≠ 0)) 2 f S s ext S' s') :
    Holds s'.mem f (m.set v p isUser) := by
  intro w
  rw [PageMap.set]
  split_ifs with hw
  · rw [← path_eq_iff.mpr hw, ← route_two]
    exact hm.here
  · rw [hm.there (path w) rfl fun hp => hw (path_eq_iff.mp (hp.trans (route_two _)).symm)]
    exact h w

/-- Tables that are not written hold the same map. -/
theorem Holds.congr {mem mem' : ByteMem} {f : Nat} {S : Set Nat} {m : PageMap}
    (h : Holds mem f m) (hT : Tables mem 2 f S)
    (heq : ∀ g ∈ S, ∀ i, words mem' g i = words mem g i) : Holds mem' f m := by
  intro w
  rw [hT.lookup_congr heq rfl]
  exact h w

section Build

variable {alloc : UInt64 → UInt64 → M UInt64} {E : Stop → Prop} {priv : Set Nat}
  {Inv : Nat → State → Prop}

/-- The tables at frame `f` grew from `S₀` to `S` and hold the map `m`. -/
structure TableRun (priv : Set Nat) (f : Nat) (S₀ : Set Nat) (s₀ : State)
    (ext : List (UInt64 × UInt64)) (S : Set Nat) (m : PageMap) (s : State) : Prop where
  step : TreeStep priv 2 f S₀ s₀ ext S s
  holds : Holds s.mem f m

/-- `mmap` updates the map at one page. -/
theorem wp_mmap (hA : AllocContract alloc E priv Inv) {f k : Nat} {S₀ S : Set Nat}
    {s₀ s : State} {ext : List (UInt64 × UInt64)} {m : PageMap}
    (h : TableRun priv f S₀ s₀ ext S m s) (hinv : Inv (k + 4) s) (v p : UInt64)
    (isUser : Int32) :
    wp (mmap alloc (frameVaddr f) v p isUser) (fun _ s' => ∃ ext' S', Inv k s' ∧
      TableRun priv f S₀ s₀ ext' S' (m.set v p isUser) s') E s := by
  rw [mmap]
  refine wp_imp (wp___mmap hA v p isUser 2 .PML4 rfl h.step.tree h.step.owned hinv) ?_
  rintro _ s' ⟨ext', S', hinv', hm⟩
  exact ⟨_, S', hinv', h.step.trans hm.step, h.holds.mmap hm⟩

/-- A new PML4 table holds the empty map. -/
theorem wp_pml4TableCreate (hA : AllocContract alloc E priv Inv) {k : Nat} {s : State}
    (hinv : Inv (k + 2) s) {Q : UInt64 → State → Prop}
    (hQ : ∀ f s', NewTable priv f s s' → Inv k s' →
      TableRun priv f {f} s' [] {f} (fun _ => none) s' →
      Q (UInt64.ofNat (f * 4096)) s') :
    wp (pml4TableCreate alloc) Q E s := by
  rw [pml4TableCreate]
  refine wp_pgTableCreate hA hinv fun f s' hnew hinv' => ?_
  have hzero : (0 : UInt64).toNat < 2 ^ 52 := by decide
  refine hQ f s' hnew hinv' ⟨⟨?_, hnew.owned, fun _ h => h, fun g hg hn => absurd hg hn,
    Evolves.refl _ _⟩, fun w => ?_⟩
  · exact RadixFormat.Tree.fresh hzero hnew.zero 2
  · exact RadixFormat.Tree.lookup_fresh hnew.zero (path w)

/-! ## Runs -/

/-- What may happen between the creation of a table and its use. -/
inductive TableOp where
  | mmap (vaddr paddr : UInt64) (isUser : Int32)
  | allocPages (nrPfns pfnAlign : UInt64)
  deriving DecidableEq, Repr

namespace TableOp

/-- The operation on the table at the physical address `pml4`. -/
def run (alloc : UInt64 → UInt64 → M UInt64) (pml4 : UInt64) : TableOp → M Unit
  | mmap v p isUser => Tvmm.mmap alloc (VIRT pml4) v p isUser
  | allocPages nr al => do
      let _ ← alloc nr al
      pure ()

/-- The arguments are those that the operation takes. -/
def Ok : TableOp → Prop
  | mmap _ p _ => p.toNat < 2 ^ 52
  | allocPages nr al => AllocArgs nr al

instance (op : TableOp) : Decidable op.Ok := by
  cases op
  · exact inferInstanceAs (Decidable (_ < _))
  · exact inferInstanceAs (Decidable (AllocArgs _ _))

/-- What the operation may take from the budget of the allocator. -/
def cost : TableOp → Nat
  | mmap _ _ _ => 4
  | allocPages nr al => nr.toNat + al.toNat

/-- What the operation maps the page of `w` to, if it does. -/
def mapping (w : Nat) : TableOp → Option (UInt64 × Int32)
  | mmap v p isUser => if SamePage v.toNat w then some (p, isUser) else none
  | allocPages _ _ => none

end TableOp

/-- `pml4_table_create`, then the operations. -/
def buildTable (alloc : UInt64 → UInt64 → M UInt64) (ops : List TableOp) : M UInt64 := do
  let pml4 ← pml4TableCreate alloc
  forEach (TableOp.run alloc pml4) ops
  return pml4

/-- The last `mmap` of the page of `w`. -/
def lastMmap (ops : List TableOp) (w : Nat) : Option (UInt64 × Int32) :=
  ops.reverse.findSome? (TableOp.mapping w)

theorem lastMmap_concat (ops : List TableOp) (op : TableOp) (w : Nat) :
    lastMmap (ops ++ [op]) w = (op.mapping w).or (lastMmap ops w) := by
  rw [lastMmap, List.reverse_append, List.reverse_singleton, List.singleton_append,
    List.findSome?_cons]
  cases op.mapping w <;> rfl

/-- An address that is mapped was mapped by an operation of the list. -/
theorem paddr_lt_of_lastMmap {ops : List TableOp} (hops : ∀ op ∈ ops, op.Ok) {w : Nat}
    {p : UInt64} {isUser : Int32} (h : lastMmap ops w = some (p, isUser)) :
    p.toNat < 2 ^ 52 := by
  obtain ⟨op, hop, hm⟩ := List.exists_of_findSome?_eq_some h
  have hok := hops op (List.mem_reverse.mp hop)
  cases op with
  | mmap v q u =>
    rw [TableOp.mapping] at hm
    split_ifs at hm
    cases hm
    exact hok
  | allocPages nr al => cases hm

/-- What a run of operations may take from the budget. -/
def opsCost (ops : List TableOp) : Nat := (ops.map TableOp.cost).sum

theorem opsCost_concat (ops : List TableOp) (op : TableOp) :
    opsCost (ops ++ [op]) = opsCost ops + op.cost := by
  simp [opsCost]

/-- A step of a run. -/
theorem wp_tableOp (hA : AllocContract alloc E priv Inv) {op : TableOp} (hop : op.Ok)
    {f k : Nat} {S₀ S : Set Nat} {s₀ s : State} {ext : List (UInt64 × UInt64)}
    {pre : List TableOp} (h : TableRun priv f S₀ s₀ ext S (lastMmap pre) s)
    (hinv : Inv (k + op.cost) s) :
    wp (op.run alloc (UInt64.ofNat (f * 4096))) (fun _ s' => ∃ ext' S', Inv k s' ∧
      TableRun priv f S₀ s₀ ext' S' (lastMmap (pre ++ [op])) s') E s := by
  cases op with
  | mmap v p isUser =>
    refine wp_imp (wp_mmap hA h hinv v p isUser) ?_
    rintro _ s' ⟨ext', S', hinv', hrun⟩
    refine ⟨ext', S', hinv', hrun.step, fun w => ?_⟩
    rw [hrun.holds w, lastMmap_concat, TableOp.mapping, PageMap.set]
    split_ifs <;> rfl
  | allocPages nr al =>
    rw [TableOp.cost, ← Nat.add_assoc] at hinv
    rw [TableOp.run, wp_bind]
    refine wp_imp (hA.alloc hop hinv) ?_
    rintro r s' ⟨hinv', hres⟩
    have he : Evolves (priv ∪ tableBytes ∅) [(r, nr)] s s' :=
      hres.evolves.mono fun a ha => Or.inl (Or.inl ha)
    have hwords : ∀ g ∈ S, ∀ i, words s'.mem g i = words s.mem g i := fun g hg =>
      h.step.owned.words_eq he hg (Set.notMem_empty g)
    have hstep : TreeStep priv 2 f S s [(r, nr)] S s' :=
      ⟨h.step.tree.congr hwords, h.step.owned.evolves he, fun _ hg => hg,
        fun g hg hn => absurd hg hn, hres.evolves.mono fun a ha => Or.inl (Or.inl ha)⟩
    rw [wp_pure]
    refine ⟨_, S, hinv', h.step.trans hstep, ?_⟩
    rw [show lastMmap (pre ++ [.allocPages nr al]) = lastMmap pre by
      funext w
      rw [lastMmap_concat, TableOp.mapping, Option.none_or]]
    exact h.holds.congr h.step.tree hwords

/-- The run as a whole: the tables hold the map of the last `mmap`s. -/
theorem wp_buildTable (hA : AllocContract alloc E priv Inv) {ops : List TableOp}
    (hops : ∀ op ∈ ops, op.Ok) {k : Nat} {s : State} (hinv : Inv (k + opsCost ops + 2) s) :
    wp (buildTable alloc ops) (fun pml4 s' => ∃ f S ext, pml4 = UInt64.ofNat (f * 4096) ∧
      Inv k s' ∧ Tables s'.mem 2 f S ∧ OwnedTables priv s' S ∧
      Holds s'.mem f (lastMmap ops) ∧ Evolves priv ext s s') E s := by
  rw [buildTable, wp_bind]
  refine wp_pml4TableCreate hA hinv fun f s₁ hnew hinv₁ hrun₁ => ?_
  rw [wp_bind]
  refine wp_imp (wp_forEach (fun pre s' => ∃ ext S,
    Inv (k + (opsCost ops - opsCost pre)) s' ∧
      TableRun priv f {f} s₁ ext S (lastMmap pre) s')
    ⟨[], {f}, hinv₁, hrun₁⟩ ?_) ?_
  · rintro pre op s' ⟨post, hpost⟩ ⟨ext, S, hinv', hrun⟩
    have hcost : opsCost ops = opsCost pre + op.cost + opsCost post := by
      rw [← hpost, ← opsCost_concat, opsCost, opsCost, opsCost, ← List.sum_append,
        ← List.map_append]
    refine wp_tableOp hA (hops op (by rw [← hpost]; simp)) hrun ?_
    rw [opsCost_concat]
    exact hA.mono (by omega) hinv'
  · rintro _ s' ⟨ext, S, hinv', hrun⟩
    rw [wp_pure]
    refine ⟨f, S, _, rfl, hA.mono (by omega) hinv', hrun.step.tree, hrun.step.owned,
      hrun.holds, (hnew.evolves.trans hrun.step.evolves).mono ?_⟩
    rintro a (ha | ha | ha)
    · exact Or.inl ha
    · exact Or.inl ha
    · refine Or.inr ⟨_, List.mem_append_right _ (List.mem_singleton_self _), ?_⟩
      exact (rangeFrames_one (by have := hnew.lt; omega)).mpr ha

end Build

/-- The walk of the processor over tables that hold a map. -/
theorem Holds.walk {priv : Set Nat} {s s' : State} {f : Nat} {S : Set Nat} {m : PageMap}
    (h : Holds s.mem f m) (hT : Tables s.mem 2 f S) (hS : OwnedTables priv s' S)
    (w : Nat) :
    (m w = none → walk s.mem (f * 4096) w = none) ∧
    ∀ p isUser, m w = some (p, isUser) → ∃ t, walk s.mem (f * 4096) w = some t ∧
      t.IsPage (p.toNat / 2 ^ 21 % 2 ^ 31) (decide (isUser ≠ 0)) w := by
  have hw := h w
  refine ⟨fun hm => ?_, fun p isUser hm => ?_⟩
  · rw [hm] at hw
    exact walk_eq_none hT hS.lt hw
  · rw [hm] at hw
    exact walk_eq_some hT hS.lt (Nat.mod_lt _ (by decide)) hw

/-- On the sample machine a run of moderate length returns. -/
theorem sample_buildTable (ops : List TableOp) (hops : ∀ op ∈ ops, op.Ok)
    (hcost : opsCost ops + 2 ≤ 126976) : ∃ L s₁ pml4 s',
      naiveAllocatorInit sampleEnd sampleMap sampleLayout sampleState =
        .ok (initLayout sampleEnd sampleLayout, s₁) ∧ AllocInv L s₁ ∧
      buildTable allocPages ops s₁ = .ok (pml4, s') ∧
      ∃ f S, pml4 = UInt64.ofNat (f * 4096) ∧ Tables s'.mem 2 f S ∧
        OwnedTables L.bytes s' S ∧ Holds s'.mem f (lastMmap ops) := by
  obtain ⟨L, s₁, hok, hready, hroom⟩ := sample_init sampleState
  obtain ⟨pml4, s', hrun, f, S, -, hpml4, -, hT, hS, hholds, -⟩ := exists_ok_of_wp
    (wp_buildTable (allocPages_contract (fun _ => False) L) hops (k := 0)
      (sample_budget hready hroom (by omega)))
  exact ⟨L, s₁, pml4, s', hok, hready.inv, hrun, f, S, hpml4, hT, hS, hholds⟩

/-- After any run the processor finds exactly the pages that were mapped, each
at the address and with the rights of its last `mmap`. -/
theorem buildTable_walk {alloc : UInt64 → UInt64 → M UInt64} {E : Stop → Prop}
    {priv : Set Nat} {Inv : State → Prop} (hA : AllocContract alloc E priv fun _ => Inv)
    {ops : List TableOp} (hops : ∀ op ∈ ops, op.Ok) {s : State} (hs : Inv s) :
    wp (buildTable alloc ops) (fun pml4 s' => ∀ w : Nat,
      match lastMmap ops w with
      | none => walk s'.mem pml4.toNat w = none
      | some (p, isUser) => ∃ t, walk s'.mem pml4.toNat w = some t ∧
          t.IsPage (p.toNat / 2 ^ 21) (decide (isUser ≠ 0)) w) E s := by
  refine wp_imp (wp_buildTable hA hops (k := 0) hs) ?_
  rintro pml4 s' ⟨f, S, ext, rfl, -, hT, hS, hholds, -⟩ w
  rw [(hS.addressable f hT.root_mem).toNat]
  obtain ⟨hnone, hsome⟩ := hholds.walk hT hS w
  cases hm : lastMmap ops w with
  | none => exact hnone hm
  | some pu =>
    obtain ⟨p, isUser⟩ := pu
    have hp := paddr_lt_of_lastMmap hops hm
    have := hsome p isUser hm
    rwa [show p.toNat / 2 ^ 21 % 2 ^ 31 = p.toNat / 2 ^ 21 by omega] at this

/-- A page that is mapped twice, with another allocation in between. -/
def sampleOps : List TableOp :=
  [.mmap 0x200000 0x40000000 1, .allocPages 3 1, .mmap 0x200000 0x80000000 0]

/-- The processor finds the second mapping. -/
theorem sample_buildTable_walk : ∃ s₁ pml4 s',
    buildTable allocPages sampleOps s₁ = .ok (pml4, s') ∧ ∀ w : Nat,
      match lastMmap sampleOps w with
      | none => walk s'.mem pml4.toNat w = none
      | some (p, isUser) => ∃ t, walk s'.mem pml4.toNat w = some t ∧
          t.IsPage (p.toNat / 2 ^ 21) (decide (isUser ≠ 0)) w := by
  obtain ⟨L, s₁, pml4, s', -, hinv, hrun, -⟩ := sample_buildTable sampleOps
    (by decide) (by decide)
  exact ⟨s₁, pml4, s', hrun, wp_ok (buildTable_walk
    (allocPages_contract_returns L)
    (by decide) hinv) hrun⟩

/-! ## `vaddr_to_paddr` -/

/-- The value of the shift: the low 32 bits, sign-extended. -/
theorem toNat_termPaddr (b : UInt64) :
    (termPaddr b).toNat = b.toNat % 2 ^ 11 * 2 ^ 21 +
      if b.toNat % 2 ^ 11 < 2 ^ 10 then 0 else 2 ^ 64 - 2 ^ 32 := by
  have h : (termPaddr b).toBitVec = (b.toBitVec.setWidth 32 <<< 21).signExtend 64 := rfl
  rw [← UInt64.toNat_toBitVec, h, BitVec.toNat_signExtend, BitVec.msb_eq_decide]
  simp only [BitVec.toNat_setWidth, BitVec.toNat_shiftLeft, UInt64.toNat_toBitVec,
    Nat.shiftLeft_eq]
  simp
  split_ifs <;> omega

theorem toNat_low21 (v : UInt64) :
    (v &&& (((1 : UInt64) <<< PAGE_SHIFT_2MB) - 1)).toNat = v.toNat % 2 ^ 21 := by
  rw [UInt64.toNat_and, show (((1 : UInt64) <<< PAGE_SHIFT_2MB) - 1).toNat = 2 ^ 21 - 1
    from rfl, Nat.and_two_pow_sub_one_eq_mod]

/-- The flags of a page entry through the view that the code uses. -/
theorem termFlags_pageEntry {n : Nat} (hn : n < 2 ^ 31) (u : Bool) :
    termFlags.get (pageEntry n u) &&& PTTEF_PAGE_SIZE ≠ 0 := by
  have hget : ∀ u : Bool, (termFlags.get (pageEntry n u)).toNat =
      0x83 + if u then 4 else 0 := by
    intro u
    rw [BitField.toNat_get, toNat_pageEntry hn]
    simp only [termFlags]
    split_ifs <;> omega
  cases u
  · rw [show termFlags.get (pageEntry n false) = 0x83 from UInt64.toNat_inj.mp (hget false)]
    decide
  · rw [show termFlags.get (pageEntry n true) = 0x87 from UInt64.toNat_inj.mp (hget true)]
    decide

theorem termBase_pageEntry {n : Nat} (hn : n < 2 ^ 31) (u : Bool) :
    termBase.get (pageEntry n u) = UInt64.ofNat n := by
  apply UInt64.toNat_inj.mp
  rw [BitField.toNat_get, toNat_pageEntry hn, UInt64.toNat_ofNat']
  simp only [termBase]
  split_ifs <;> omega

/-- The walk of the code at a page directory. -/
theorem __vaddrToPaddr_pd {n : Nat} (hn : Addressable n) (v : UInt64) (s : State) :
    (words s.mem n (slot v.toNat 1) = 0 → __vaddrToPaddr (frameVaddr n) v .PD s =
      .error (.fatalFailure "Page table entry is not present.\n")) ∧
    ∀ b u, b < 2 ^ 31 → words s.mem n (slot v.toNat 1) = pageEntry b u →
      __vaddrToPaddr (frameVaddr n) v .PD s = .ok (termPaddr (UInt64.ofNat b) +
        (v &&& (((1 : UInt64) <<< PAGE_SHIFT_2MB) - 1)), s) := by
  have he : bootTranslate (getEntry (frameVaddr n) v .PD) 8 =
      some (n * 4096 + 8 * slot v.toNat 1) := bootTranslate_getEntry hn v .PD
  have hpresent := entryIsPresent_of_mapped he s
  rw [show s.mem.read64 (n * 4096 + 8 * slot v.toNat 1) =
    words s.mem n (slot v.toNat 1) from rfl] at hpresent
  refine ⟨fun hz => ?_, fun b u hb hword => ?_⟩
  · rw [hz] at hpresent
    rw [__vaddrToPaddr, bind_of_ok hpresent]
    rfl
  · rw [hword, (flags_pageEntry hb u).1] at hpresent
    have hflags := loadField_of_mapped he termFlags s
    have hbase := loadField_of_mapped he termBase s
    rw [show s.mem.read64 (n * 4096 + 8 * slot v.toNat 1) = pageEntry b u from hword]
      at hflags hbase
    rw [__vaddrToPaddr, bind_of_ok hpresent, if_neg (by decide), dif_pos rfl,
      bind_of_ok hflags, if_neg (termFlags_pageEntry hb u), bind_of_ok hbase,
      termBase_pageEntry hb u]
    rfl

/-- The walk of the code at a table of another level: it goes on at the table that
the entry links, or stops when there is none. -/
theorem __vaddrToPaddr_table {level : PgTableLevel} (hpd : level ≠ .PD) {n : Nat}
    (hn : Addressable n) (v : UInt64) (s : State) :
    (words s.mem n (slot v.toNat (level.depth + 1)) = 0 →
      __vaddrToPaddr (frameVaddr n) v level s =
        .error (.fatalFailure "Page table entry is not present.\n")) ∧
    ∀ m, Addressable m → words s.mem n (slot v.toNat (level.depth + 1)) = tableEntry m →
      __vaddrToPaddr (frameVaddr n) v level s =
        __vaddrToPaddr (frameVaddr m) v level.pred s := by
  have he : bootTranslate (getEntry (frameVaddr n) v level) 8 =
      some (n * 4096 + 8 * slot v.toNat (level.depth + 1)) := bootTranslate_getEntry hn v level
  have hpresent := entryIsPresent_of_mapped he s
  rw [show s.mem.read64 (n * 4096 + 8 * slot v.toNat (level.depth + 1)) =
    words s.mem n (slot v.toNat (level.depth + 1)) from rfl] at hpresent
  refine ⟨fun hz => ?_, fun m hm hlink => ?_⟩
  · rw [hz] at hpresent
    rw [__vaddrToPaddr, bind_of_ok hpresent]
    rfl
  · have hflag : flag (tableEntry m) 0 = true := by
      refine (flags_tableEntry ?_).1
      unfold Addressable at hm
      omega
    rw [hlink, hflag] at hpresent
    rw [__vaddrToPaddr, bind_of_ok hpresent, if_neg (by decide), dif_neg hpd,
      bind_of_ok (nextTableBaseVaddr_of_mapped he hm hlink)]

/-- The walk of the code over tables in memory. -/
theorem __vaddrToPaddr_eq (v : UInt64) (s : State) : ∀ (d : Nat) (level : PgTableLevel),
    level.depth = d → ∀ {n : Nat} {S : Set Nat}, Tables s.mem d n S →
    (∀ f ∈ S, Addressable f) →
    (format.lookup (words s.mem) n (route v.toNat d) = 0 →
      __vaddrToPaddr (frameVaddr n) v level s =
        .error (.fatalFailure "Page table entry is not present.\n")) ∧
    ∀ b u, b < 2 ^ 31 →
      format.lookup (words s.mem) n (route v.toNat d) = pageEntry b u →
      __vaddrToPaddr (frameVaddr n) v level s = .ok (termPaddr (UInt64.ofNat b) +
        (v &&& (((1 : UInt64) <<< PAGE_SHIFT_2MB) - 1)), s) := by
  intro d
  induction d with
  | zero =>
    intro level hlevel n S hT hS
    obtain rfl := PgTableLevel.eq_PD_of_depth hlevel
    exact __vaddrToPaddr_pd (hS n hT.root_mem) v s
  | succ d ih =>
    intro level hlevel n S hT hS
    obtain ⟨hpd, hpred⟩ := PgTableLevel.pred_of_depth hlevel
    obtain ⟨hstop, hnext⟩ := __vaddrToPaddr_table hpd (hS n hT.root_mem) v s
    rw [hlevel] at hstop hnext
    have hroute : route v.toNat d ≠ [] := fun h => by simpa [h] using length_route v.toNat d
    rw [route, format.lookup_cons hroute]
    cases hc : format.child (words s.mem n (slot v.toNat (d + 2))) with
    | none =>
      -- A missing table: the code stops, and there is no page behind it.
      refine ⟨fun _ => hstop (hT.eq_empty hc), fun b u hb hp => ?_⟩
      have h0 := (flags_pageEntry hb u).1
      rw [← hp] at h0
      simp [flag, format] at h0
    | some m =>
      obtain ⟨hlink, T, hTS, hTm, -⟩ := hT.focus hc
      rw [hnext m (hS m (hTS hTm.root_mem)) hlink]
      exact ih level.pred hpred hTm fun f hf => hS f (hTS hf)

/-- `vaddr_to_paddr` over tables that hold a map. -/
theorem Holds.vaddrToPaddr {s s' : State} {priv : Set Nat} {f : Nat} {S : Set Nat}
    {m : PageMap} (h : Holds s.mem f m) (hT : Tables s.mem 2 f S)
    (hS : OwnedTables priv s' S) (v : UInt64) :
    (m v.toNat = none → vaddrToPaddr (frameVaddr f) v s =
      .error (.fatalFailure "Page table entry is not present.\n")) ∧
    ∀ p isUser, m v.toNat = some (p, isUser) → vaddrToPaddr (frameVaddr f) v s =
      .ok (termPaddr (UInt64.ofNat (p.toNat / 2 ^ 21 % 2 ^ 31)) +
        (v &&& (((1 : UInt64) <<< PAGE_SHIFT_2MB) - 1)), s) := by
  obtain ⟨hnone, hsome⟩ := __vaddrToPaddr_eq v s 2 .PML4 rfl hT hS.addressable
  have hv := h v.toNat
  refine ⟨fun hm => hnone ?_, fun p isUser hm =>
    hsome _ (decide (isUser ≠ 0)) (Nat.mod_lt _ (by decide)) ?_⟩
  · rw [route_two, hv, hm]
    rfl
  · rw [route_two, hv, hm]
    rfl

/-- `vaddr_to_paddr` undoes the last `mmap` of the page of `w`, and fails when
there is none. -/
def RoundTrip (ops : List TableOp) (pml4 : UInt64) (s : State) (w : UInt64) : Prop :=
  (lastMmap ops w.toNat = none →
    ∃ msg, vaddrToPaddr (VIRT pml4) w s = .error (.fatalFailure msg)) ∧
  ∀ p isUser, lastMmap ops w.toNat = some (p, isUser) → 2 ^ 21 ∣ p.toNat →
    ∃ s', vaddrToPaddr (VIRT pml4) w s =
      .ok (p + UInt64.ofNat (w.toNat % 2 ^ 21), s')

/-- The shift gives the address back exactly when it is below 2 GB. -/
theorem termPaddr_eq_iff {p : UInt64} (hp : p.toNat < 2 ^ 52) (hdvd : 2 ^ 21 ∣ p.toNat)
    (w : UInt64) :
    termPaddr (UInt64.ofNat (p.toNat / 2 ^ 21 % 2 ^ 31)) +
        (w &&& (((1 : UInt64) <<< PAGE_SHIFT_2MB) - 1)) =
      p + UInt64.ofNat (w.toNat % 2 ^ 21) ↔ p.toNat < 2 ^ 31 := by
  rw [show (w &&& (((1 : UInt64) <<< PAGE_SHIFT_2MB) - 1)) =
    UInt64.ofNat (w.toNat % 2 ^ 21) by
      rw [← toNat_low21, UInt64.ofNat_toNat], UInt64.add_left_inj, ← UInt64.toNat_inj,
    toNat_termPaddr, UInt64.toNat_ofNat']
  split_ifs <;> omega

/-- The walk of the code agrees with the map exactly for pages below 2 GB. -/
theorem buildTable_vaddrToPaddr {alloc : UInt64 → UInt64 → M UInt64} {E : Stop → Prop}
    {priv : Set Nat} {Inv : State → Prop} (hA : AllocContract alloc E priv fun _ => Inv)
    {ops : List TableOp} (hops : ∀ op ∈ ops, op.Ok) {s : State} (hs : Inv s) :
    wp (buildTable alloc ops) (fun pml4 s' => ∀ w : UInt64,
      RoundTrip ops pml4 s' w ↔ ∀ p isUser, lastMmap ops w.toNat = some (p, isUser) →
        2 ^ 21 ∣ p.toNat → p.toNat < 2 ^ 31) E s := by
  refine wp_imp (wp_buildTable hA hops (k := 0) hs) ?_
  rintro pml4 s' ⟨f, S, ext, rfl, -, hT, hS, hholds, -⟩ w
  obtain ⟨hnone, hsome⟩ := hholds.vaddrToPaddr hT hS w
  constructor
  · rintro ⟨-, hround⟩ p isUser hm hdvd
    obtain ⟨s'', hs''⟩ := hround p isUser hm hdvd
    have heq := (hsome p isUser hm).symm.trans hs''
    simp only [Except.ok.injEq, Prod.mk.injEq] at heq
    exact (termPaddr_eq_iff (paddr_lt_of_lastMmap hops hm) hdvd w).mp heq.1
  · intro hlow
    refine ⟨fun hm => ⟨_, hnone hm⟩, fun p isUser hm hdvd => ⟨s', ?_⟩⟩
    have hp := paddr_lt_of_lastMmap hops hm
    exact (hsome p isUser hm).trans
      (by rw [(termPaddr_eq_iff hp hdvd w).mpr (hlow p isUser hm hdvd)])

/-- A page below 2 GB. -/
theorem sample_buildTable_vaddrToPaddr : ∃ s₁ pml4 s',
    buildTable allocPages [.mmap 0 0x40000000 1] s₁ = .ok (pml4, s') ∧ ∀ w : UInt64,
      RoundTrip [.mmap 0 0x40000000 1] pml4 s' w ↔
        ∀ p isUser, lastMmap [.mmap 0 0x40000000 1] w.toNat = some (p, isUser) →
          2 ^ 21 ∣ p.toNat → p.toNat < 2 ^ 31 := by
  obtain ⟨L, s₁, pml4, s', -, hinv, hrun, -⟩ := sample_buildTable
    [.mmap 0 0x40000000 1] (by decide) (by decide)
  exact ⟨s₁, pml4, s', hrun, wp_ok (buildTable_vaddrToPaddr
    (allocPages_contract_returns L)
    (by decide) hinv) hrun⟩

/-- The page at 2 GB is read back as `0xFFFFFFFF80000000`. -/
theorem vaddrToPaddr_not_roundTrip : ∃ s₁ pml4 s',
    buildTable allocPages [.mmap 0 0x80000000 0] s₁ = .ok (pml4, s') ∧
    lastMmap [.mmap 0 0x80000000 0] 0 = some (0x80000000, 0) ∧
    vaddrToPaddr (VIRT pml4) 0 s' = .ok (0xFFFFFFFF80000000, s') ∧
    ¬RoundTrip [.mmap 0 0x80000000 0] pml4 s' 0 := by
  obtain ⟨L, s₁, pml4, s', -, -, hrun, f, S, rfl, hT, hS, hholds⟩ := sample_buildTable
    [.mmap 0 0x80000000 0] (by decide) (by decide)
  have hval : vaddrToPaddr (frameVaddr f) 0 s' = .ok (0xFFFFFFFF80000000, s') :=
    ((hholds.vaddrToPaddr hT hS 0).2 0x80000000 0 (by decide)).trans (by congr)
  refine ⟨s₁, _, s', hrun, by decide, hval, fun hround => ?_⟩
  obtain ⟨s'', hs''⟩ := hround.2 0x80000000 0 (by decide) (by decide)
  have heq := hval.symm.trans hs''
  simp only [Except.ok.injEq, Prod.mk.injEq] at heq
  exact absurd heq.1 (by decide)

end Tvmm
