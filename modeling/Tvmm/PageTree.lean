import Tvmm.Page

/-!
# What the page-table builder does to the tables

The tables of a PML4 are a radix tree in memory (`LongMode.format` over
`LongMode.words`), made of frames that `alloc_pages` handed out.  `TreeStep` is
what any piece of the builder preserves: the tables stay a tree, the tree only
grows, by frames that were handed out on the way, and memory changes only in
its tables.

`wp___mmap` says in addition what an `mmap` stores: the entry of its own 2 MB
page becomes the one of the given physical page, and no other entry changes.
-/

set_option linter.style.nameCheck false

namespace Tvmm

open Exec LongMode

/-- A word that the builder may leave in a page directory: its high bits are
zero. -/
def LeafOk (e : UInt64) : Prop := e.toNat < 2 ^ 52

/-- The bytes of the tables in the frames `S`. -/
def tableBytes (S : Set Nat) : Set Nat := {a | a / 4096 ∈ S}

/-- The tables `S` lie in memory that was handed out and that the VMM can
address. -/
structure OwnedTables (priv : Set Nat) (s : State) (S : Set Nat) : Prop where
  addressable : ∀ f ∈ S, Addressable f
  disjoint : ∀ f ∈ S, Disjoint (frameBytes f) priv
  handedOut : ∀ f ∈ S, ∃ q ∈ s.handedOut, f ∈ rangeFrames q

/-- The entry of `v` in an owned table. -/
theorem OwnedTables.entry_mapped {priv : Set Nat} {s : State} {S : Set Nat}
    (h : OwnedTables priv s S) {n d : Nat} (hn : n ∈ S) {level : PgTableLevel}
    (hlevel : level.depth = d) (v : UInt64) :
    bootTranslate (getEntry (frameVaddr n) v level) 8 =
      some (n * 4096 + 8 * slot v.toNat (d + 1)) := by
  have hentry := bootTranslate_getEntry (h.addressable n hn) v level
  rwa [hlevel] at hentry

/-- The tables of depth `d` below frame `n`. -/
abbrev Tables (m : ByteMem) (d n : Nat) (S : Set Nat) : Prop :=
  format.Tree LeafOk (words m) d n S

/-- The tables grew from `S` to `S'`, and nothing else happened. -/
structure TreeStep (priv : Set Nat) (d n : Nat) (S : Set Nat) (s : State)
    (ext : List (UInt64 × UInt64)) (S' : Set Nat) (s' : State) : Prop where
  tree : Tables s'.mem d n S'
  owned : OwnedTables priv s' S'
  sub : S ⊆ S'
  new : ∀ f ∈ S', f ∉ S → ∃ q ∈ ext, f ∈ rangeFrames q
  evolves : Evolves (priv ∪ tableBytes S) ext s s'

/-- The way of `v` through tables of depth `d`. -/
def route (v : Nat) : Nat → List (Fin 512)
  | 0 => [slot v 1]
  | d + 1 => slot v (d + 2) :: route v d

theorem route_two (v : Nat) : route v 2 = path v := rfl

@[simp] theorem length_route (v d : Nat) : (route v d).length = d + 1 := by
  induction d with
  | zero => rfl
  | succ d ih => rw [route, List.length_cons, ih]

/-- An `mmap` of the page of `v` to the one of `p`. -/
structure Mmapped (priv : Set Nat) (v p : UInt64) (user : Bool) (d n : Nat)
    (S : Set Nat) (s : State) (ext : List (UInt64 × UInt64)) (S' : Set Nat)
    (s' : State) : Prop where
  step : TreeStep priv d n S s ext S' s'
  here : format.lookup (words s'.mem) n (route v.toNat d) =
    pageEntry (p.toNat / 2 ^ 21 % 2 ^ 31) user
  there : ∀ q, q.length = d + 1 → q ≠ route v.toNat d →
    format.lookup (words s'.mem) n q = format.lookup (words s.mem) n q

/-! ## Words and frames -/

/-- The state after a store of `w` in the word `i` of the table in frame `n`. -/
def State.storeWord (s : State) (n : Nat) (i : Fin 512) (w : UInt64) : State :=
  { s with mem := s.mem.write64 (n * 4096 + 8 * i) w }

/-- The words of a frame depend on its bytes only. -/
theorem words_congr {m m' : ByteMem} {f : Nat} (h : Set.EqOn m' m (frameBytes f))
    (i : Fin 512) : words m' f i = words m f i := by
  refine ByteMem.read64_congr fun x hx => h ?_
  rw [Set.mem_Ico] at hx
  rw [mem_frameBytes]
  omega

/-- A store of one word of a table. -/
theorem words_storeWord (s : State) (n f : Nat) (i j : Fin 512) (w : UInt64) :
    words (s.storeWord n i w).mem f j = if f = n ∧ j = i then w else words s.mem f j := by
  rw [words, words]
  split_ifs with h
  · rw [h.1, h.2]
    exact ByteMem.read64_write64 _ _ _
  · refine ByteMem.read64_write64_of_disjoint ?_
    have hne : f ≠ n ∨ j.val ≠ i.val := by
      by_contra hc
      push Not at hc
      exact h ⟨hc.1, Fin.ext hc.2⟩
    omega

@[simp] theorem words_storeWord_self (s : State) (n : Nat) (i : Fin 512) (w : UInt64) :
    words (s.storeWord n i w).mem n i = w := by
  rw [words_storeWord, if_pos ⟨rfl, rfl⟩]

@[simp] theorem storeWord_storeWord (s : State) (n : Nat) (i : Fin 512) (w w' : UInt64) :
    (s.storeWord n i w).storeWord n i w' = s.storeWord n i w' := by
  simp only [State.storeWord, ByteMem.write64_write64]

/-- It writes the frame of the table only. -/
theorem onlyWrites_storeWord (s : State) (n : Nat) (i : Fin 512) (w : UInt64) :
    OnlyWrites (frameBytes n) s (s.storeWord n i w) := by
  refine OnlyWrites.of_mem ((ByteMem.eqOn_write64 _ _ _).mono ?_)
  refine Set.compl_subset_compl.mpr fun a ha => ?_
  rw [Set.mem_Ico] at ha
  rw [mem_frameBytes]
  omega

section Entry

variable {e x : UInt64} {n : Nat} {i : Fin 512} {s : State} {E : Stop → Prop}
  {f : BitField}

/-- Reading a field of an entry. -/
theorem wp_loadEntry (h : bootTranslate e 8 = some (n * 4096 + 8 * i))
    {Q : UInt64 → State → Prop} (hQ : Q (f.get (words s.mem n i)) s) :
    wp (loadField f e) Q E s :=
  wp_loadField h hQ

/-- Assigning a field of an entry. -/
theorem wp_storeEntry (h : bootTranslate e 8 = some (n * 4096 + 8 * i))
    {Q : Unit → State → Prop}
    (hQ : Q () (s.storeWord n i (f.set (words s.mem n i) x))) :
    wp (storeField f e x) Q E s :=
  wp_storeField h hQ

end Entry

theorem rangeFrames_one {f g : Nat} (hf : f < 2 ^ 64) :
    g ∈ rangeFrames (UInt64.ofNat f, 1) ↔ g = f := by
  rw [mem_rangeFrames, UInt64.toNat_ofNat', show (1 : UInt64).toNat = 1 from rfl]
  omega

theorem frameBytes_subset_tableBytes {n : Nat} {S : Set Nat} (hn : n ∈ S) :
    frameBytes n ⊆ tableBytes S := by
  intro a ha
  rw [mem_frameBytes] at ha
  rw [tableBytes, Set.mem_ofPred_eq, ha]
  exact hn

namespace OwnedTables

variable {priv : Set Nat} {s s' : State} {S T : Set Nat}

theorem mono (h : OwnedTables priv s S) (hT : T ⊆ S) : OwnedTables priv s T :=
  ⟨fun f hf => h.addressable f (hT hf), fun f hf => h.disjoint f (hT hf),
    fun f hf => h.handedOut f (hT hf)⟩

theorem evolves (h : OwnedTables priv s S) {X : Set Nat} {ext : List (UInt64 × UInt64)}
    (he : Evolves X ext s s') : OwnedTables priv s' S := by
  refine ⟨h.addressable, h.disjoint, fun f hf => ?_⟩
  obtain ⟨q, hq, hqf⟩ := h.handedOut f hf
  exact ⟨q, by rw [he.handedOut]; exact List.mem_append_right _ hq, hqf⟩

theorem union (h : OwnedTables priv s S) (h' : OwnedTables priv s T) :
    OwnedTables priv s (S ∪ T) :=
  ⟨fun f hf => hf.elim (h.addressable f) (h'.addressable f),
    fun f hf => hf.elim (h.disjoint f) (h'.disjoint f),
    fun f hf => hf.elim (h.handedOut f) (h'.handedOut f)⟩

theorem lt (h : OwnedTables priv s S) : ∀ f ∈ S, f < 2 ^ 40 := by
  intro f hf
  have := h.addressable f hf
  unfold Addressable at this
  omega

/-- A table that the step neither owns nor gets keeps its words. -/
theorem words_eq (h : OwnedTables priv s S) {ext : List (UInt64 × UInt64)}
    (he : Evolves (priv ∪ tableBytes T) ext s s') {f : Nat} (hf : f ∈ S)
    (hT : f ∉ T) (i : Fin 512) : words s'.mem f i = words s.mem f i := by
  obtain ⟨q', hq', hf'⟩ := h.handedOut f hf
  refine words_congr (he.frame_eqOn (Set.disjoint_left.mpr ?_) (he.notMem hq' hf')) i
  rintro a (ha | ha) haf
  · exact Set.disjoint_left.mp (h.disjoint f hf) haf ha
  · rw [mem_frameBytes] at haf
    rw [tableBytes, Set.mem_ofPred_eq, haf] at ha
    exact hT ha

end OwnedTables

namespace TreeStep

variable {priv : Set Nat} {d n : Nat} {S S₁ S₂ : Set Nat} {s s₁ s₂ : State}
  {ext ext' : List (UInt64 × UInt64)}

/-- New tables are not handed out before. -/
theorem not_handedOut (h : TreeStep priv d n S s ext S₁ s₁) {f : Nat} (hf : f ∈ S₁)
    (hnew : f ∉ S) {q : UInt64 × UInt64} (hq : q ∈ s.handedOut) :
    f ∉ rangeFrames q := by
  obtain ⟨q', hq', hf'⟩ := h.new f hf hnew
  exact Set.disjoint_left.mp (h.evolves.fresh q' hq' q hq) hf'

theorem trans (h : TreeStep priv d n S s ext S₁ s₁)
    (h' : TreeStep priv d n S₁ s₁ ext' S₂ s₂) :
    TreeStep priv d n S s (ext' ++ ext) S₂ s₂ := by
  refine ⟨h'.tree, h'.owned, h.sub.trans h'.sub, fun f hf hnew => ?_, ?_⟩
  · by_cases hf₁ : f ∈ S₁
    · obtain ⟨q, hq, hqf⟩ := h.new f hf₁ hnew
      exact ⟨q, List.mem_append_right _ hq, hqf⟩
    · obtain ⟨q, hq, hqf⟩ := h'.new f hf hf₁
      exact ⟨q, List.mem_append_left _ hq, hqf⟩
  · refine (h.evolves.trans h'.evolves).mono ?_
    rintro a ((ha | ha) | (ha | ha))
    · exact Or.inl (Or.inl ha)
    · exact Or.inl (Or.inr ha)
    · exact Or.inl (Or.inl ha)
    · by_cases hS : a / 4096 ∈ S
      · exact Or.inl (Or.inr hS)
      · obtain ⟨q, hq, hqf⟩ := h.new _ ha hS
        exact Or.inr ⟨q, List.mem_append_right _ hq, hqf⟩

end TreeStep

section Build

variable {alloc : UInt64 → UInt64 → M UInt64} {E : Stop → Prop} {priv : Set Nat}
  {Inv : Nat → State → Prop}

/-- What `pg_table_create` returned. -/
structure NewTable (priv : Set Nat) (f : Nat) (s s' : State) : Prop where
  addressable : Addressable f
  disjoint : Disjoint (frameBytes f) priv
  zero : ∀ i, words s'.mem f i = 0
  evolves : Evolves priv [(UInt64.ofNat f, 1)] s s'

namespace NewTable

variable {f : Nat} {s s' : State}

theorem lt (h : NewTable priv f s s') : f < 2 ^ 28 := by
  have := h.addressable
  unfold Addressable at this
  omega

theorem owned (h : NewTable priv f s s') : OwnedTables priv s' {f} := by
  refine ⟨?_, ?_, ?_⟩
  · rintro _ rfl
    exact h.addressable
  · rintro _ rfl
    exact h.disjoint
  · rintro _ rfl
    refine ⟨_, by rw [h.evolves.handedOut]; exact List.mem_cons_self, ?_⟩
    rw [rangeFrames_one (by have := h.lt; omega)]

theorem notMem (h : NewTable priv f s s') {S : Set Nat} (hS : OwnedTables priv s S) :
    f ∉ S := by
  intro hf
  obtain ⟨q, hq, hqf⟩ := hS.handedOut f hf
  refine Set.disjoint_left.mp (h.evolves.fresh _ (List.mem_singleton_self _) q hq) ?_ hqf
  rw [rangeFrames_one (by have := h.lt; omega)]

end NewTable

/-- `pg_table_create` returns a frame of zeros that was not handed out before. -/
theorem wp_pgTableCreate (hA : AllocContract alloc E priv Inv) {k : Nat} {s : State}
    (hinv : Inv (k + 2) s) {Q : UInt64 → State → Prop}
    (hQ : ∀ f s', NewTable priv f s s' → Inv k s' → Q (UInt64.ofNat (f * 4096)) s') :
    wp (pgTableCreate alloc) Q E s := by
  rw [pgTableCreate]
  refine wp_alloc_memset hA (show AllocArgs 1 1 by decide) (by decide) hinv
    fun r s' hinv' hfill => ?_
  have hle := hfill.le
  have hmapped := hfill.mapped (by decide)
  rw [show (1 : UInt64).toNat = 1 from rfl] at hle hmapped
  have hframe : r.toNat ∈ rangeFrames (r, 1) := by
    rw [mem_rangeFrames, show (1 : UInt64).toNat = 1 from rfl]
    omega
  have hpaddr : r <<< PAGE_SHIFT = UInt64.ofNat (r.toNat * 4096) := by
    rw [← toNat_shiftLeft_PAGE_SHIFT (by omega), UInt64.ofNat_toNat]
  rw [wp_pure, hpaddr]
  refine hQ r.toNat s' ⟨hmapped, hfill.disjoint _ hframe, fun i => ?_, ?_⟩ hinv'
  · refine ByteMem.read64_of_zero fun x hx => hfill.fill x ?_
    rw [Set.mem_Ico] at hx
    rw [show x / 4096 = r.toNat by omega]
    exact hframe
  · rw [UInt64.ofNat_toNat]
    exact hfill.evolves

/-- The stores into an entry of a page directory. -/
theorem Mmapped.leaf {n : Nat} {S : Set Nat} {s : State} (hT : Tables s.mem 0 n S)
    (hS : OwnedTables priv s S) (v p : UInt64) (user : Bool) :
    Mmapped priv v p user 0 n S s [] S
      (s.storeWord n (slot v.toNat 1) (pageEntry (p.toNat / 2 ^ 21 % 2 ^ 31) user)) := by
  have honly := onlyWrites_storeWord s n (slot v.toNat 1)
    (pageEntry (p.toNat / 2 ^ 21 % 2 ^ 31) user)
  have he : Evolves (priv ∪ tableBytes S) [] s _ := (Evolves.of_onlyWrites honly).mono
    fun a ha => Or.inl (Or.inr (frameBytes_subset_tableBytes hT.root_mem ha))
  have hok : LeafOk (pageEntry (p.toNat / 2 ^ 21 % 2 ^ 31) user) := by
    rw [LeafOk, toNat_pageEntry (by omega)]
    split_ifs <;> omega
  have hleaf := hT.set_leaf (i := slot v.toNat 1)
    (show LeafOk (words (s.storeWord n (slot v.toNat 1)
      (pageEntry (p.toNat / 2 ^ 21 % 2 ^ 31) user)).mem n (slot v.toNat 1)) by
        rwa [words_storeWord_self])
    fun j hj => by rw [words_storeWord, if_neg fun h => hj h.2]
  exact ⟨⟨hleaf.1, hS.evolves he, fun _ h => h, fun f hf hnew => absurd hf hnew, he⟩,
    words_storeWord_self s n (slot v.toNat 1) _, hleaf.2⟩

/-- The page-directory case of `__mmap`. -/
theorem wp_mmapPd (hA : AllocContract alloc E priv Inv) {n k : Nat} {S : Set Nat}
    {s : State} (hT : Tables s.mem 0 n S) (hS : OwnedTables priv s S) (hinv : Inv k s)
    (v p : UInt64) (isUser : Int32) :
    wp (__mmap alloc (frameVaddr n) v p .PD isUser) (fun _ s' => ∃ ext S', Inv k s' ∧
      Mmapped priv v p (decide (isUser ≠ 0)) 0 n S s ext S' s') E s := by
  have hn := hT.root_mem
  have he := hS.entry_mapped hn (show PgTableLevel.PD.depth = 0 from rfl) v
  have hw : (words s.mem n (slot v.toNat 1)).toNat < 2 ^ 52 := hT.2 (slot v.toNat 1)
  have hp : p.toNat / 2 ^ 21 % 2 ^ 31 < 2 ^ 31 := Nat.mod_lt _ (by decide)
  -- Where the stores lead: to the entry of the page.
  have hdone : ∀ u : Bool, ∃ ext S',
      Inv k (s.storeWord n (slot v.toNat 1) (pageEntry (p.toNat / 2 ^ 21 % 2 ^ 31) u)) ∧
      Mmapped priv v p u 0 n S s ext S'
        (s.storeWord n (slot v.toNat 1) (pageEntry (p.toNat / 2 ^ 21 % 2 ^ 31) u)) :=
    fun u => ⟨[], S, hA.of_onlyWrites hinv (onlyWrites_storeWord s n _ _)
      (hS.disjoint n hn), Mmapped.leaf hT hS v p u⟩
  rw [__mmap, dif_pos rfl, wp_bind]
  refine wp_storeEntry he ?_
  rw [wp_bind]
  refine wp_storeEntry he ?_
  rw [words_storeWord_self, storeWord_storeWord, set_term hw]
  refine wp_when (fun hu => ?_) (fun hu => ?_)
  · rw [wp_bind]
    refine wp_loadEntry he (wp_storeEntry he ?_)
    rw [words_storeWord_self, storeWord_storeWord, set_user hp, decide_eq_true hu]
    exact hdone true
  · rw [decide_eq_false hu]
    exact hdone false

/-- The creation of a missing table. -/
theorem wp_linkTable (hA : AllocContract alloc E priv Inv) {v : UInt64}
    {level : PgTableLevel} {d n k : Nat} {S : Set Nat} {s : State}
    (hlevel : level.depth = d + 1) (hT : Tables s.mem (d + 1) n S)
    (hS : OwnedTables priv s S) (hinv : Inv (k + 2) s)
    (hemp : words s.mem n (slot v.toNat (d + 2)) = 0) {Q : Unit → State → Prop}
    (hQ : ∀ f s', TreeStep priv (d + 1) n S s [(UInt64.ofNat f, 1)] (S ∪ {f}) s' →
      Inv k s' → words s'.mem n (slot v.toNat (d + 2)) = tableEntry f → f < 2 ^ 40 →
      (∀ q, q.length = d + 2 →
        format.lookup (words s'.mem) n q = format.lookup (words s.mem) n q) → Q () s') :
    wp (do
      let paddr ← pgTableCreate alloc
      storeField nonTermBase (getEntry (frameVaddr n) v level) (paddr >>> PAGE_SHIFT)
      storeField nonTermFlags (getEntry (frameVaddr n) v level)
        (PTTEF_PRESENT ||| PTTEF_RW ||| PTTEF_US)) Q E s := by
  have hn := hT.root_mem
  have he := hS.entry_mapped hn hlevel v
  rw [wp_bind]
  refine wp_pgTableCreate hA hinv fun f s₁ hnew hinv₁ => ?_
  have hf := hnew.lt
  have hfS := hnew.notMem hS
  have hevolves : Evolves (priv ∪ tableBytes ∅) [(UInt64.ofNat f, 1)] s s₁ :=
    hnew.evolves.mono fun a ha => Or.inl (Or.inl ha)
  have hsame : ∀ m ∈ S, ∀ i, words s₁.mem m i = words s.mem m i := fun m hm i =>
    hS.words_eq hevolves hm (Set.notMem_empty m) i
  have hpfn : (UInt64.ofNat (f * 4096) >>> PAGE_SHIFT).toNat = f := by
    rw [toNat_shiftRight_PAGE_SHIFT, hnew.addressable.toNat]
    omega
  rw [wp_bind]
  refine wp_storeEntry he (wp_storeEntry he ?_)
  rw [words_storeWord_self, storeWord_storeWord, hsame n hn, hemp,
    set_nonTerm (show f < 2 ^ 40 by omega) hpfn]
  have honly := onlyWrites_storeWord s₁ n (slot v.toNat (d + 2)) (tableEntry f)
  have hlink := hT.link_new (m := f)
    (show (0 : UInt64).toNat < 2 ^ 52 by decide) hemp hfS (child_tableEntry (by omega))
    (words_storeWord_self s₁ n _ _)
    (fun j => by
      rw [words_storeWord, if_neg fun h => hfS (by rw [h.1]; exact hn)]
      exact hnew.zero j)
    (fun m hm j hmj => by rw [words_storeWord, if_neg hmj, hsame m hm])
  refine hQ f _ ⟨hlink.1, ?_, Set.subset_union_left, ?_, ?_⟩
    (hA.of_onlyWrites hinv₁ honly (hS.disjoint n hn))
    (words_storeWord_self s₁ n _ _) (by omega) hlink.2
  · exact ((hS.evolves hnew.evolves).union hnew.owned).evolves (Evolves.of_onlyWrites honly)
  · rintro g (hg | rfl) hgS
    · exact absurd hg hgS
    · exact ⟨_, List.mem_singleton_self _, (rangeFrames_one (by omega)).mpr rfl⟩
  · refine (hnew.evolves.trans (Evolves.of_onlyWrites honly)).mono ?_
    rintro a (ha | ha)
    · exact Or.inl (Or.inl ha)
    · exact Or.inl (Or.inr (frameBytes_subset_tableBytes hn ha))

/-- An `mmap` of the subtree behind a link is one of the whole tree. -/
theorem Mmapped.ofSubtree {v p : UInt64} (user : Bool) {d n m : Nat} {S : Set Nat}
    {s : State} (hT : Tables s.mem (d + 1) n S) (hS : OwnedTables priv s S)
    (hchild : format.child (words s.mem n (slot v.toNat (d + 2))) = some m) :
    words s.mem n (slot v.toNat (d + 2)) = tableEntry m ∧
    ∃ T ⊆ S, Tables s.mem d m T ∧ ∀ ext T' s',
      Mmapped priv v p user d m T s ext T' s' →
      Mmapped priv v p user (d + 1) n S s ext (S ∪ T') s' := by
  obtain ⟨hlink, T, hTS, hTm, hback⟩ := hT.focus hchild
  refine ⟨hlink, T, hTS, hTm, fun ext T' s' hm => ?_⟩
  have hfresh : ∀ k ∈ T', k ∉ T → k ∉ S := fun k hk hkT hkS => by
    obtain ⟨q, hq, hqk⟩ := hS.handedOut k hkS
    exact hm.step.not_handedOut hk hkT hq hqk
  obtain ⟨htree, hin, hout⟩ := hback (words s'.mem) T' hm.step.sub hfresh
    (fun k hk hkT => hS.words_eq hm.step.evolves hk hkT) hm.step.tree
  -- Before the call the tree behind the link was read in the same way.
  obtain ⟨-, hin₀, -⟩ := hback (words s.mem) T (fun _ h => h)
    (fun k hk hkT => absurd hk hkT) (fun _ _ _ _ => rfl) hTm
  refine ⟨⟨htree, ?_, Set.subset_union_left, ?_, ?_⟩, ?_, ?_⟩
  · exact (hS.evolves hm.step.evolves).union hm.step.owned
  · rintro f (hf | hf) hfS
    · exact absurd hf hfS
    · exact hm.step.new f hf fun hfT => hfS (hTS hfT)
  · refine hm.step.evolves.mono ?_
    rintro a (ha | ha)
    · exact Or.inl (Or.inl ha)
    · exact Or.inl (Or.inr (hTS ha))
  · rw [route, hin _ (length_route _ _)]
    exact hm.here
  · intro q hlen hq
    obtain ⟨j, is, rfl⟩ := List.exists_cons_of_length_eq_add_one hlen
    have hlen' : is.length = d + 1 := by simpa using hlen
    by_cases hj : j = slot v.toNat (d + 2)
    · subst hj
      rw [hin is hlen', hin₀ is hlen']
      exact hm.there is hlen' fun his => hq (by rw [his, route])
    · exact hout j is hj hlen'

/-- `__mmap` maps one page of the tables that it is given. -/
theorem wp___mmap (hA : AllocContract alloc E priv Inv) (v p : UInt64)
    (isUser : Int32) : ∀ (d : Nat) (level : PgTableLevel), level.depth = d →
      ∀ {n k : Nat} {S : Set Nat} {s : State}, Tables s.mem d n S →
      OwnedTables priv s S → Inv (k + 2 * d) s →
      wp (__mmap alloc (frameVaddr n) v p level isUser) (fun _ s' => ∃ ext S', Inv k s' ∧
        Mmapped priv v p (decide (isUser ≠ 0)) d n S s ext S' s') E s := by
  intro d
  induction d with
  | zero =>
    intro level hlevel n k S s hT hS hinv
    obtain rfl := PgTableLevel.eq_PD_of_depth hlevel
    exact wp_mmapPd hA hT hS hinv v p isUser
  | succ d ih =>
    intro level hlevel n k S s hT hS hinv
    obtain ⟨hpd, hpred⟩ := PgTableLevel.pred_of_depth hlevel
    have hn := hT.root_mem
    have he := hS.entry_mapped hn hlevel v
    -- From a state in which the next table is there.
    have hdescend : ∀ {S₁ s₁ m}, Tables s₁.mem (d + 1) n S₁ → OwnedTables priv s₁ S₁ →
        Inv (k + 2 * d) s₁ →
        format.child (words s₁.mem n (slot v.toNat (d + 2))) = some m →
        wp (do
          let next ← nextTableBaseVaddr (getEntry (frameVaddr n) v level)
          __mmap alloc next v p level.pred isUser) (fun _ s' => ∃ ext S', Inv k s' ∧
            Mmapped priv v p (decide (isUser ≠ 0)) (d + 1) n S₁ s₁ ext S' s') E s₁ := by
      intro S₁ s₁ m hT₁ hS₁ hinv₁ hchild
      obtain ⟨hlink, T, hTS, hTm, hback⟩ := Mmapped.ofSubtree (p := p)
        (decide (isUser ≠ 0)) hT₁ hS₁ hchild
      have hm := hS₁.addressable m (hTS hTm.root_mem)
      refine wp_bind_of_ok (nextTableBaseVaddr_of_mapped he hm hlink) ?_
      refine wp_imp (ih level.pred hpred hTm (hS₁.mono hTS) hinv₁) ?_
      rintro _ s' ⟨ext, T', hinv', hmap⟩
      exact ⟨ext, _, hinv', hback ext T' s' hmap⟩
    rw [__mmap, dif_neg hpd]
    refine wp_bind_of_ok (entryIsPresent_of_mapped he s) ?_
    rw [show s.mem.read64 (n * 4096 + 8 * slot v.toNat (d + 2)) =
      words s.mem n (slot v.toNat (d + 2)) from rfl, wp_bind]
    refine wp_when (fun habsent => ?_) (fun hpresent => ?_)
    · have hemp : words s.mem n (slot v.toNat (d + 2)) = 0 :=
        hT.eq_empty (if_neg (by rw [habsent]; decide))
      refine wp_linkTable hA hlevel hT hS (k := k + 2 * d) (by
        rwa [Nat.mul_add, ← Nat.add_assoc] at hinv) hemp fun f s₁ hstep hinv₁ hlink hf hsame => ?_
      refine wp_imp (hdescend hstep.tree hstep.owned hinv₁
        (by rw [hlink]; exact child_tableEntry hf)) ?_
      rintro _ s' ⟨ext, S', hinv', hmap⟩
      refine ⟨_, S', hinv', hstep.trans hmap.step, hmap.here, fun q hlen hq => ?_⟩
      rw [hmap.there q hlen hq, hsame q hlen]
    · have hchild : format.child (words s.mem n (slot v.toNat (d + 2))) =
          some (frame (words s.mem n (slot v.toNat (d + 2)))) :=
        if_pos (by rwa [Bool.not_eq_false] at hpresent)
      exact hdescend hT hS (hA.mono (by omega) hinv) hchild

end Build

end Tvmm
