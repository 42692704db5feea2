import Mathlib.Data.Set.Lattice
import Mathlib.Logic.Relation
import Mathlib.Order.CompletePartialOrder
import Tvmm.Lib.AccessedDirty

/-!
# A guest that runs on a nested table

Whatever a guest does, it changes physical memory in two ways only: it stores a
byte where an access to a guest-physical address goes, and the processor marks an
entry of the nested table that such an access walks over.  `GuestRun` is any
number of these steps in any order.

`Enclosed` says that the accesses go to `R` and the walks stay in the tables of
`T`, which do not meet `R`.  Then no run leaves these bounds, and none changes
where an access goes: `GuestRun.keeps` and `SameButMarks.guestAccess_eq`.
-/

namespace LongMode

/-- One store of the guest, or one mark that the processor leaves. -/
inductive GuestStep (nCr3 : Nat) (m : ByteMem) : ByteMem → Prop
  | store {g a : Nat} (b : UInt8) (h : guestAccess m nCr3 g = some a) :
      GuestStep nCr3 m (Function.update m a b)
  | mark {g a : Nat} (e : UInt64) (h : a ∈ walkAddrs (memRead m) nCr3 g)
      (he : ignoreAD e = ignoreAD (m.read64 a)) : GuestStep nCr3 m (m.write64 a e)

/-- A run of the guest. -/
abbrev GuestRun (nCr3 : Nat) : ByteMem → ByteMem → Prop :=
  Relation.ReflTransGen (GuestStep nCr3)

/-- The bytes of the tables in the frames `T`. -/
def framesBytes (T : Set Nat) : Set Nat := {a | a / 4096 ∈ T}

/-- The guest's accesses go to `R`, and their walks read the tables in `T` only. -/
structure Enclosed (m : ByteMem) (nCr3 : Nat) (R T : Set Nat) : Prop where
  reach : ∀ g a, guestAccess m nCr3 g = some a → a ∈ R
  entries : ∀ g, ∀ a ∈ walkAddrs (memRead m) nCr3 g,
    ∃ f ∈ T, ∃ i : Fin 512, a = f * 4096 + 8 * i
  apart : Disjoint R (framesBytes T)

/-- The tables of `T` are the same in `m`, up to the marks. -/
def SameTables (T : Set Nat) (m₀ m : ByteMem) : Prop :=
  ∀ f ∈ T, ∀ i, ignoreAD (words m f i) = ignoreAD (words m₀ f i)

/-- From `m₀` to `m` memory changed in `R` only, apart from marks in `T`. -/
structure SameButMarks (R T : Set Nat) (m₀ m : ByteMem) : Prop where
  mem : Set.EqOn m m₀ (R ∪ framesBytes T)ᶜ
  words : SameTables T m₀ m

section Run

variable {m₀ m m' : ByteMem} {nCr3 : Nat} {R T : Set Nat}

theorem SameButMarks.refl (R T : Set Nat) (m : ByteMem) : SameButMarks R T m m :=
  ⟨fun _ _ => rfl, fun _ _ _ => rfl⟩

/-- The entries that a walk reads are the same, up to the marks. -/
theorem Enclosed.read64 (h : Enclosed m₀ nCr3 R T) (hw : SameTables T m₀ m) (g : Nat) :
    ∀ a ∈ walkAddrs (memRead m₀) nCr3 g,
      ignoreAD (m.read64 a) = ignoreAD (m₀.read64 a) := by
  intro a ha
  obtain ⟨f, hf, i, rfl⟩ := h.entries g a ha
  exact hw f hf i

theorem Enclosed.guestAccess_eq (h : Enclosed m₀ nCr3 R T) (hw : SameTables T m₀ m) (g : Nat) :
    guestAccess m nCr3 g = guestAccess m₀ nCr3 g :=
  guestAccess_same (h.read64 hw g)

theorem Enclosed.walkAddrs_eq (h : Enclosed m₀ nCr3 R T) (hw : SameTables T m₀ m) (g : Nat) :
    walkAddrs (memRead m) nCr3 g = walkAddrs (memRead m₀) nCr3 g :=
  (walk_same (h.read64 hw g)).2

/-- What encloses a guest is in the words of the tables, up to the marks. -/
theorem Enclosed.congr (h : Enclosed m₀ nCr3 R T) (hw : SameTables T m₀ m) :
    Enclosed m nCr3 R T := by
  constructor
  · intro g a ha
    rw [h.guestAccess_eq hw] at ha
    exact h.reach g a ha
  · intro g a ha
    rw [h.walkAddrs_eq hw] at ha
    exact h.entries g a ha
  · exact h.apart

theorem SameButMarks.guestAccess_eq (hs : SameButMarks R T m₀ m) (h : Enclosed m₀ nCr3 R T)
    (g : Nat) : guestAccess m nCr3 g = guestAccess m₀ nCr3 g :=
  h.guestAccess_eq hs.words g

theorem SameButMarks.walkAddrs_eq (hs : SameButMarks R T m₀ m) (h : Enclosed m₀ nCr3 R T)
    (g : Nat) : walkAddrs (memRead m) nCr3 g = walkAddrs (memRead m₀) nCr3 g :=
  h.walkAddrs_eq hs.words g

/-- A store of one byte outside the tables changes no word of them. -/
theorem words_update {a f : Nat} (b : UInt8) (ha : a / 4096 ≠ f) (i : Fin 512) :
    words (Function.update m a b) f i = words m f i := by
  refine ByteMem.read64_congr fun x hx => Function.update_of_ne ?_ _ _
  rintro rfl
  rw [Set.mem_Ico] at hx
  omega

/-- A store of one entry changes that word only. -/
theorem words_write64 (m : ByteMem) (f g : Nat) (i j : Fin 512) (e : UInt64) :
    words (m.write64 (f * 4096 + 8 * i) e) g j =
      if g = f ∧ j = i then e else words m g j := by
  unfold words
  split_ifs with h
  · rw [h.1, h.2]
    exact ByteMem.read64_write64 _ _ _
  · refine ByteMem.read64_write64_of_disjoint ?_
    have hne : g ≠ f ∨ j.val ≠ i.val := by
      by_contra hc
      push Not at hc
      exact h ⟨hc.1, Fin.ext hc.2⟩
    omega

/-- One step stays in the bounds. -/
theorem GuestStep.keeps (h : Enclosed m₀ nCr3 R T) (hs : SameButMarks R T m₀ m)
    (hstep : GuestStep nCr3 m m') : SameButMarks R T m₀ m' := by
  cases hstep with
  | @store g a b hacc =>
    have ha : a ∈ R := by
      rw [hs.guestAccess_eq h] at hacc
      exact h.reach g a hacc
    constructor
    · intro x hx
      have hne : x ≠ a := fun hxa => hx (Or.inl (hxa ▸ ha))
      rw [Function.update_of_ne hne]
      exact hs.mem hx
    · intro f hf i
      have hout : a / 4096 ≠ f := fun haf =>
        Set.disjoint_left.mp h.apart ha (show a / 4096 ∈ T from haf ▸ hf)
      rw [words_update b hout]
      exact hs.words f hf i
  | @mark g a e hmem he =>
    rw [hs.walkAddrs_eq h] at hmem
    obtain ⟨f, hf, i, rfl⟩ := h.entries g a hmem
    constructor
    · intro x hx
      have hne : x ∉ Set.Ico (f * 4096 + 8 * i.val) (f * 4096 + 8 * i.val + 8) := by
        intro hin
        rw [Set.mem_Ico] at hin
        have hxf : x / 4096 = f := by omega
        exact hx (Or.inr (show x / 4096 ∈ T from hxf ▸ hf))
      rw [ByteMem.eqOn_write64 m _ e hne]
      exact hs.mem hx
    · intro g' hg' j
      rw [words_write64]
      split_ifs with heq
      · rw [heq.1, heq.2, ← hs.words f hf i]
        exact he
      · exact hs.words g' hg' j

/-- No run leaves the bounds. -/
theorem GuestRun.keeps (h : Enclosed m₀ nCr3 R T) (hrun : GuestRun nCr3 m₀ m) :
    SameButMarks R T m₀ m := by
  induction hrun with
  | refl => exact SameButMarks.refl R T m₀
  | tail _ hstep ih => exact hstep.keeps h ih

/-- A byte that an access goes to can be given any value. -/
theorem GuestRun.store {g a : Nat} (b : UInt8) (h : guestAccess m nCr3 g = some a) :
    GuestRun nCr3 m (Function.update m a b) :=
  Relation.ReflTransGen.single (.store b h)

end Run

/-! ## Tables of 2 MB pages -/

/-- Over a tree of tables whose leaves are 2 MB pages, a walk reads the tables of the
tree only. -/
theorem walkAddrs_of_tree {m : ByteMem} {leafOk : UInt64 → Prop} {root v : Nat} {S : Set Nat}
    (hT : format.Tree leafOk (words m) 2 root S) (hS : ∀ f ∈ S, f < 2 ^ 40)
    (hleaf : flag (format.lookup (words m) root (path v)) 0 = true →
      flag (format.lookup (words m) root (path v)) 7 = true) :
    ∀ a ∈ walkAddrs (memRead m) (root * 4096) v,
      ∃ f ∈ S, ∃ i : Fin 512, a = f * 4096 + 8 * i := by
  have hroot : root * 4096 / 4096 % 2 ^ 40 = root := by
    have := hS root hT.root_mem
    omega
  have hread : ∀ f l, memRead m (f * 4096 + 8 * index v l) = some (words m f (slot v l)) :=
    fun _ _ => rfl
  have hentry : ∀ f ∈ S, ∀ l, ∃ f' ∈ S, ∃ i : Fin 512,
      f * 4096 + 8 * index v l = f' * 4096 + 8 * i :=
    fun f hf l => ⟨f, hf, slot v l, rfl⟩
  have hroot_mem := hT.root_mem
  obtain ⟨sub, hSeq, -, -, hword⟩ := hT
  have hsub : ∀ i, ∀ f ∈ sub i, f ∈ S := fun i f hf => by
    rw [hSeq]
    exact Set.mem_insert_of_mem _ (Set.mem_iUnion.mpr ⟨i, hf⟩)
  unfold walkAddrs
  dsimp only
  rw [hroot, hread]
  dsimp only
  rw [List.forall_mem_cons]
  refine ⟨hentry root hroot_mem 3, ?_⟩
  rw [path, format.lookup_cons (by simp)] at hleaf
  rcases hword (slot v 3) with ⟨h4, -⟩ | ⟨f₁, h4, hc₁, hsub₁⟩
  · rw [h4]
    exact List.forall_mem_nil _
  have hf₁ := hsub _ f₁ hsub₁.root_mem
  obtain ⟨hp₁, -, -, -, -, hr₁, -⟩ := flags_tableEntry (hS f₁ hf₁)
  rw [h4, hc₁] at hleaf
  rw [show words m root (slot v 3) = tableEntry f₁ from h4, if_neg (by simp [hp₁, hr₁]),
    frame_tableEntry (hS f₁ hf₁), hread, List.forall_mem_cons]
  refine ⟨hentry f₁ hf₁ 2, ?_⟩
  dsimp only at hleaf ⊢
  rw [format.lookup_cons (by simp)] at hleaf
  obtain ⟨sub₂, hsub₂eq, -, -, hword₂⟩ := hsub₁
  rcases hword₂ (slot v 2) with ⟨h3, -⟩ | ⟨f₂, h3, hc₂, hsub₂⟩
  · rw [h3]
    exact List.forall_mem_nil _
  have hf₂ : f₂ ∈ S := by
    refine hsub (slot v 3) f₂ ?_
    rw [hsub₂eq]
    exact Set.mem_insert_of_mem _ (Set.mem_iUnion.mpr ⟨_, hsub₂.root_mem⟩)
  obtain ⟨hp₂, -, -, hs₂, -⟩ := flags_tableEntry (hS f₂ hf₂)
  rw [h3, hc₂] at hleaf
  rw [show words m f₁ (slot v 2) = tableEntry f₂ from h3, if_neg (by simp [hp₂, hs₂]),
    frame_tableEntry (hS f₂ hf₂), hread, List.forall_mem_cons]
  refine ⟨hentry f₂ hf₂ 1, ?_⟩
  -- The word of the page directory is missing, or a page.
  have hleaf : flag (words m f₂ (slot v 1)) 0 = true → flag (words m f₂ (slot v 1)) 7 = true :=
    hleaf
  have hend : flag (words m f₂ (slot v 1)) 0 = false ∨
      flag (words m f₂ (slot v 1)) 7 = true := by
    cases hp : flag (words m f₂ (slot v 1)) 0 with
    | false => exact Or.inl rfl
    | true => exact Or.inr (hleaf hp)
  dsimp only
  rw [if_pos hend]
  exact List.forall_mem_nil _

end LongMode
