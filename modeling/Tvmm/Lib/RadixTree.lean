import Mathlib.Data.Set.Lattice
import Mathlib.Logic.Function.Basic
import Mathlib.Order.CompletePartialOrder
import Mathlib.Tactic.Common

/-!
# Radix trees in a heap of tables

A heap gives every table `n : ν` and every index `i : ι` a word.  A word is
either `empty`, or the link to a table one level down, or, at the last level,
a leaf word.  `lookup` follows a path of indices and returns the word at its
end, or `empty` when a table on the way is missing, so a tree is a map from
paths to words.

`Tree` is the ownership predicate: the tables of the tree form the set `S`,
and no table is reached by two paths.  It is what makes an update local.

* `Tree.lookup_congr`: the map depends on the words of the tables in `S` only.
* `Tree.set_leaf`: storing a leaf word changes the map at one path.
* `Tree.link_new`: linking a fresh empty table changes the map nowhere.
* `Tree.focus`: a subtree can be changed on its own and put back.
-/

/-- How words link tables. -/
structure RadixFormat (ν ω : Type) where
  /-- The word of a missing entry. -/
  empty : ω
  /-- The word that links a table. -/
  link : ν → ω
  /-- The table that a word links, if any. -/
  child : ω → Option ν
  child_empty : child empty = none

namespace RadixFormat

variable {ν ι ω : Type} (F : RadixFormat ν ω)

/-- The word at the end of a path, or `empty` when the path breaks off. -/
def lookup (h : ν → ι → ω) : ν → List ι → ω
  | _, [] => F.empty
  | n, [i] => h n i
  | n, i :: j :: is =>
      match F.child (h n i) with
      | none => F.empty
      | some m => lookup h m (j :: is)

theorem lookup_cons {h : ν → ι → ω} {n : ν} {i : ι} {is : List ι}
    (hne : is ≠ []) :
    F.lookup h n (i :: is) =
      match F.child (h n i) with
      | none => F.empty
      | some m => F.lookup h m is := by
  cases is with
  | nil => exact absurd rfl hne
  | cons j js => rfl

variable (leafOk : ω → Prop)

/-- The tables `S` form a tree of depth `d` below `n`, and every word of its
last level satisfies `leafOk`. -/
def Tree (h : ν → ι → ω) : Nat → ν → Set ν → Prop
  | 0, n, S => S = {n} ∧ ∀ i, leafOk (h n i)
  | d + 1, n, S =>
      ∃ sub : ι → Set ν,
        S = insert n (⋃ i, sub i) ∧ (∀ i, n ∉ sub i) ∧
        (∀ i j, i ≠ j → Disjoint (sub i) (sub j)) ∧
        ∀ i, (h n i = F.empty ∧ sub i = ∅) ∨
          ∃ m, h n i = F.link m ∧ F.child (F.link m) = some m ∧
            Tree h d m (sub i)

namespace Tree

variable {F leafOk} {h h' : ν → ι → ω} {d : Nat} {n m : ν} {S T : Set ν} {i : ι}

theorem root_mem (hT : F.Tree leafOk h d n S) : n ∈ S := by
  cases d with
  | zero => rw [hT.1]; rfl
  | succ d =>
    obtain ⟨sub, rfl, _⟩ := hT
    exact Set.mem_insert n _

/-- A tree depends on the words of its own tables only. -/
theorem congr : ∀ {d : Nat} {n : ν} {S : Set ν}, F.Tree leafOk h d n S →
    (∀ m ∈ S, ∀ i, h' m i = h m i) → F.Tree leafOk h' d n S := by
  intro d
  induction d with
  | zero =>
    intro n S hT hag
    refine ⟨hT.1, fun i => ?_⟩
    rw [hag n hT.root_mem i]
    exact hT.2 i
  | succ d ih =>
    intro n S hT hag
    have hn := hag n hT.root_mem
    obtain ⟨sub, rfl, hroot, hdisj, hword⟩ := hT
    refine ⟨sub, rfl, hroot, hdisj, fun i => ?_⟩
    rw [hn i]
    rcases hword i with hemp | ⟨m, hm, hc, hsub⟩
    · exact Or.inl hemp
    · refine Or.inr ⟨m, hm, hc, ih hsub fun k hk => hag k ?_⟩
      exact Set.mem_insert_of_mem _ (Set.mem_iUnion.mpr ⟨i, hk⟩)

/-- The map of a tree depends on the words of its own tables only. -/
theorem lookup_congr : ∀ {d : Nat} {n : ν} {S : Set ν}, F.Tree leafOk h d n S →
    (∀ m ∈ S, ∀ i, h' m i = h m i) → ∀ {path : List ι}, path.length = d + 1 →
      F.lookup h' n path = F.lookup h n path := by
  intro d
  induction d with
  | zero =>
    intro n S hT hag path hlen
    obtain ⟨i, rfl⟩ := List.length_eq_one_iff.mp hlen
    exact hag n hT.root_mem i
  | succ d ih =>
    intro n S hT hag path hlen
    have hn := hag n hT.root_mem
    obtain ⟨sub, rfl, hroot, hdisj, hword⟩ := hT
    obtain ⟨i, is, rfl⟩ := List.exists_cons_of_length_eq_add_one hlen
    have hlen' : is.length = d + 1 := by simpa using hlen
    have hne : is ≠ [] := by
      rintro rfl
      simp at hlen'
    rw [F.lookup_cons hne, F.lookup_cons hne, hn i]
    rcases hword i with ⟨hemp, _⟩ | ⟨m, hm, hc, hsub⟩
    · rw [hemp, F.child_empty]
    · rw [hm, hc]
      refine ih hsub (fun k hk => hag k ?_) hlen'
      exact Set.mem_insert_of_mem _ (Set.mem_iUnion.mpr ⟨i, hk⟩)

/-- A table of empty words is a tree of any depth on its own. -/
theorem fresh (hleaf : leafOk F.empty) (hm : ∀ i, h m i = F.empty) (d : Nat) :
    F.Tree leafOk h d m {m} := by
  cases d with
  | zero => exact ⟨rfl, fun i => by rw [hm i]; exact hleaf⟩
  | succ d =>
    refine ⟨fun _ => ∅, by simp, by simp, by simp, fun i => Or.inl ⟨hm i, rfl⟩⟩

/-- The map of a table of empty words is empty. -/
theorem lookup_fresh (hm : ∀ i, h m i = F.empty) (path : List ι) :
    F.lookup h m path = F.empty := by
  match path with
  | [] => rfl
  | [i] => exact hm i
  | i :: j :: is => rw [lookup, hm i, F.child_empty]

/-- Storing a word in a last-level table changes the map at its path only. -/
theorem set_leaf (hT : F.Tree leafOk h 0 n S) (hw : leafOk (h' n i))
    (hag : ∀ j, j ≠ i → h' n j = h n j) :
    F.Tree leafOk h' 0 n S ∧ ∀ path, path.length = 1 → path ≠ [i] →
      F.lookup h' n path = F.lookup h n path := by
  refine ⟨⟨hT.1, fun j => ?_⟩, fun path hlen hne => ?_⟩
  · by_cases hj : j = i
    · rw [hj]
      exact hw
    · rw [hag j hj]
      exact hT.2 j
  · obtain ⟨j, rfl⟩ := List.length_eq_one_iff.mp hlen
    exact hag j fun hj => hne (by rw [hj])

private theorem iUnion_update [DecidableEq ι] {sub : ι → Set ν} {T' : Set ν}
    (hsub : sub i ⊆ T') : ⋃ j, Function.update sub i T' j = (⋃ j, sub j) ∪ T' := by
  ext k
  simp only [Set.mem_union, Set.mem_iUnion]
  constructor
  · rintro ⟨j, hj⟩
    by_cases hji : j = i
    · subst hji
      rw [Function.update_self] at hj
      exact Or.inr hj
    · rw [Function.update_of_ne hji] at hj
      exact Or.inl ⟨j, hj⟩
  · rintro (⟨j, hj⟩ | hk)
    · by_cases hji : j = i
      · subst hji
        exact ⟨j, by rw [Function.update_self]; exact hsub hj⟩
      · exact ⟨j, by rw [Function.update_of_ne hji]; exact hj⟩
    · exact ⟨i, by rw [Function.update_self]; exact hk⟩

private theorem disjoint_update [DecidableEq ι] {sub : ι → Set ν} {T' : Set ν}
    (hdisj : ∀ j k, j ≠ k → Disjoint (sub j) (sub k))
    (hT' : ∀ j, j ≠ i → Disjoint (sub j) T') {j k : ι} (hjk : j ≠ k) :
    Disjoint (Function.update sub i T' j) (Function.update sub i T' k) := by
  by_cases hji : j = i
  · subst hji
    rw [Function.update_self, Function.update_of_ne (Ne.symm hjk)]
    exact (hT' k (Ne.symm hjk)).symm
  · rw [Function.update_of_ne hji]
    by_cases hki : k = i
    · subst hki
      rw [Function.update_self]
      exact hT' j hji
    · rw [Function.update_of_ne hki]
      exact hdisj j k hjk

/-- The `i`-th subtree gives way to `T'`, which contains it and is otherwise
new to the tree. -/
private theorem replace_sub {sub : ι → Set ν} {T' : Set ν}
    (hroot : ∀ j, n ∉ sub j) (hdisj : ∀ j k, j ≠ k → Disjoint (sub j) (sub k))
    (hword : ∀ j, j ≠ i → (h n j = F.empty ∧ sub j = ∅) ∨
      ∃ m, h n j = F.link m ∧ F.child (F.link m) = some m ∧
        F.Tree leafOk h d m (sub j))
    (hsub : sub i ⊆ T') (hnew : ∀ k ∈ T', k ∉ sub i → k ≠ n ∧ ∀ j, k ∉ sub j)
    (hlink : h' n i = F.link m) (hchild : F.child (F.link m) = some m)
    (hT' : F.Tree leafOk h' d m T') (hn : ∀ j, j ≠ i → h' n j = h n j)
    (hag : ∀ j, j ≠ i → ∀ k ∈ sub j, ∀ l, h' k l = h k l) :
    F.Tree leafOk h' (d + 1) n (insert n (⋃ j, sub j) ∪ T') ∧
      ∀ j is, j ≠ i → is.length = d + 1 →
        F.lookup h' n (j :: is) = F.lookup h n (j :: is) := by
  classical
  have hdisj' : ∀ j, j ≠ i → Disjoint (sub j) T' := fun j hj =>
    Set.disjoint_left.mpr fun k hk hkT' => by
      by_cases hki : k ∈ sub i
      · exact Set.disjoint_left.mp (hdisj j i hj) hk hki
      · exact (hnew k hkT' hki).2 j hk
  refine ⟨⟨Function.update sub i T', ?_, ?_, ?_, ?_⟩, ?_⟩
  · rw [iUnion_update hsub, Set.insert_union]
  · intro j
    by_cases hji : j = i
    · subst hji
      rw [Function.update_self]
      exact fun hnT' => (hnew n hnT' (hroot j)).1 rfl
    · rw [Function.update_of_ne hji]
      exact hroot j
  · exact fun j k hjk => disjoint_update hdisj hdisj' hjk
  · intro j
    by_cases hji : j = i
    · subst hji
      rw [Function.update_self]
      exact Or.inr ⟨m, hlink, hchild, hT'⟩
    · rw [Function.update_of_ne hji, hn j hji]
      rcases hword j hji with hemp | ⟨m', hm', hc', hsubj⟩
      · exact Or.inl hemp
      · exact Or.inr ⟨m', hm', hc', hsubj.congr (hag j hji)⟩
  · intro j is hji hlen
    have hne : is ≠ [] := by
      rintro rfl
      simp at hlen
    rw [F.lookup_cons hne, F.lookup_cons hne, hn j hji]
    rcases hword j hji with ⟨hemp, _⟩ | ⟨m', hm', hc', hsubj⟩
    · rw [hemp, F.child_empty]
    · rw [hm', hc']
      exact hsubj.lookup_congr (hag j hji) hlen

/-- A word above the last level that links no table is empty. -/
theorem eq_empty (hT : F.Tree leafOk h (d + 1) n S) (hc : F.child (h n i) = none) :
    h n i = F.empty := by
  obtain ⟨sub, -, -, -, hword⟩ := hT
  rcases hword i with ⟨hemp, -⟩ | ⟨m, hm, hc', -⟩
  · exact hemp
  · rw [hm, hc'] at hc
    cases hc

/-- The subtree behind a link, and how a changed subtree is put back: the
tables that it gained must not belong to the rest of the tree. -/
theorem focus (hT : F.Tree leafOk h (d + 1) n S)
    (hc : F.child (h n i) = some m) :
    h n i = F.link m ∧ ∃ T, T ⊆ S ∧ F.Tree leafOk h d m T ∧
      ∀ (h' : ν → ι → ω) (T' : Set ν), T ⊆ T' → (∀ k ∈ T', k ∉ T → k ∉ S) →
        (∀ k ∈ S, k ∉ T → ∀ j, h' k j = h k j) → F.Tree leafOk h' d m T' →
        F.Tree leafOk h' (d + 1) n (S ∪ T') ∧
        (∀ is, is.length = d + 1 →
          F.lookup h' n (i :: is) = F.lookup h' m is) ∧
        ∀ j is, j ≠ i → is.length = d + 1 →
          F.lookup h' n (j :: is) = F.lookup h n (j :: is) := by
  obtain ⟨sub, rfl, hroot, hdisj, hword⟩ := hT
  obtain ⟨hlnk, hchild, hsubi⟩ : h n i = F.link m ∧ F.child (F.link m) = some m ∧
      F.Tree leafOk h d m (sub i) := by
    rcases hword i with ⟨hemp, _⟩ | ⟨m', hm', hc', hsub⟩
    · rw [hemp, F.child_empty] at hc
      cases hc
    · rw [hm', hc'] at hc
      cases hc
      exact ⟨hm', hc', hsub⟩
  have hsubS : ∀ j, sub j ⊆ insert n (⋃ j, sub j) := fun j k hk =>
    Set.mem_insert_of_mem _ (Set.mem_iUnion.mpr ⟨j, hk⟩)
  refine ⟨hlnk, sub i, hsubS i, hsubi, fun h' T' hTT' hfresh hag hT' => ?_⟩
  have hn : ∀ j, h' n j = h n j := hag n (Set.mem_insert n _) (hroot i)
  have hrep := replace_sub hroot hdisj (fun j _ => hword j) hTT'
    (fun k hk hki => ⟨fun hkn => hfresh k hk hki (by rw [hkn]; exact Set.mem_insert n _),
      fun j hkj => hfresh k hk hki (hsubS j hkj)⟩)
    ((hn i).trans hlnk) hchild hT' (fun j _ => hn j)
    -- The other subtrees keep their words.
    (fun j hj k hk => hag k (hsubS j hk) fun hki =>
      Set.disjoint_left.mp (hdisj j i hj) hk hki)
  refine ⟨hrep.1, fun is hlen => ?_, hrep.2⟩
  rw [F.lookup_cons (by rintro rfl; simp at hlen), hn i, hlnk, hchild]

/-- Linking a fresh table of empty words at a missing entry keeps the map. -/
theorem link_new (hT : F.Tree leafOk h (d + 1) n S) (hleaf : leafOk F.empty)
    (hemp : h n i = F.empty) (hm : m ∉ S) (hchild : F.child (F.link m) = some m)
    (hlink : h' n i = F.link m) (hzero : ∀ j, h' m j = F.empty)
    (hag : ∀ k ∈ S, ∀ j, ¬(k = n ∧ j = i) → h' k j = h k j) :
    F.Tree leafOk h' (d + 1) n (S ∪ {m}) ∧
      ∀ path, path.length = d + 2 → F.lookup h' n path = F.lookup h n path := by
  obtain ⟨sub, rfl, hroot, hdisj, hword⟩ := hT
  have hsubS : ∀ j, sub j ⊆ insert n (⋃ j, sub j) := fun j k hk =>
    Set.mem_insert_of_mem _ (Set.mem_iUnion.mpr ⟨j, hk⟩)
  have hsubi : sub i = ∅ := by
    rcases hword i with ⟨_, hs⟩ | ⟨m', hm', hc', _⟩
    · exact hs
    · rw [hm'] at hemp
      rw [hemp, F.child_empty] at hc'
      cases hc'
  have hrep := replace_sub hroot hdisj (fun j _ => hword j)
    (hsubi ▸ Set.empty_subset _)
    (fun k hk _ => by
      rw [Set.mem_singleton_iff.mp hk]
      exact ⟨fun hmn => hm (by rw [hmn]; exact Set.mem_insert n _),
        fun j hmj => hm (hsubS j hmj)⟩)
    hlink hchild (fresh hleaf hzero d)
    (fun j hj => hag n (Set.mem_insert n _) j fun hj' => hj hj'.2)
    (fun j _ k hk l => hag k (hsubS j hk) l fun hkn =>
      hroot j (by rw [← hkn.1]; exact hk))
  refine ⟨hrep.1, fun path hlen => ?_⟩
  obtain ⟨j, is, rfl⟩ := List.exists_cons_of_length_eq_add_one hlen
  have hlen' : is.length = d + 1 := by simpa using hlen
  by_cases hji : j = i
  · have hne : is ≠ [] := by
      rintro rfl
      simp at hlen'
    rw [F.lookup_cons hne, F.lookup_cons hne, hji, hlink, hchild, hemp, F.child_empty]
    exact lookup_fresh hzero is
  · exact hrep.2 j is hji hlen'

end Tree

end RadixFormat
