import Mathlib.Data.Finset.Sort
import Mathlib.Data.Set.Card
import Mathlib.Order.CompletePartialOrder
import Mathlib.Order.Lattice.Nat
import Mathlib.Order.Interval.Finset.Nat
import Tvmm.Lib.Exec

/-!
# First-fit allocation

The cells are the natural numbers, and the state of the allocator is the set of
the free ones.  A request asks for cells in a row from an aligned one on; `take`
answers it with the least place that there is below `limit`, or stops.

* `Handed` is a run of any allocator that answers with free cells: the answers do
  not overlap, and no cell is lost (`Handed.ncard`);
* `wp_run` says that a run of `take` is one;
* `wp_run_ones` says which cells the requests for one cell get: the free ones in
  ascending order, until there are none left.
-/

namespace FirstFit

open Exec

variable {ε : Type}

/-- A request for `nr` cells in a row from a multiple of `align` on. -/
structure Request where
  nr : Nat
  align : Nat

/-- The cells that an answer to the request gives away. -/
def Request.cells (q : Request) (c : Nat) : Set Nat := Set.Ico c (c + q.nr)

/-- The places for the request. -/
def places (limit : Nat) (q : Request) (free : Set Nat) : Set Nat :=
  {c | q.align ∣ c ∧ q.cells c ⊆ free ∧ c + q.nr < limit}

open Classical in
/-- Take the least place for the request. -/
noncomputable def take (full : ε) (limit : Nat) (q : Request) : Exec (Set Nat) ε Nat :=
  fun free =>
    if (places limit q free).Nonempty then
      .ok (sInf (places limit q free), free \ q.cells (sInf (places limit q free)))
    else .error full

/-- One request after another, each with its answer. -/
noncomputable def run (full : ε) (limit : Nat) :
    List Request → Exec (Set Nat) ε (List (Request × Nat))
  | [] => pure []
  | q :: qs => do
      let c ← take full limit q
      let out ← run full limit qs
      return (q, c) :: out

variable {full : ε} {limit : Nat} {q : Request} {free free' : Set Nat}

theorem take_of_isLeast {c : Nat} (h : IsLeast (places limit q free) c) :
    take full limit q free = .ok (c, free \ q.cells c) := by
  have hc : sInf (places limit q free) = c := h.csInf_eq
  unfold take
  rw [if_pos h.nonempty, hc]

theorem take_of_eq_empty (h : places limit q free = ∅) :
    take full limit q free = .error full := by
  unfold take
  rw [if_neg (by rw [h]; exact Set.not_nonempty_empty)]

theorem wp_take {Q : Nat → Set Nat → Prop} {E : ε → Prop}
    (hQ : ∀ c, IsLeast (places limit q free) c → Q c (free \ q.cells c))
    (hE : places limit q free = ∅ → E full) : wp (take full limit q) Q E free := by
  rcases Set.eq_empty_or_nonempty (places limit q free) with hnone | hne
  · unfold wp
    rw [take_of_eq_empty hnone]
    exact hE hnone
  · have hleast : IsLeast (places limit q free) (sInf (places limit q free)) :=
      ⟨Nat.sInf_mem hne, fun c hc => Nat.sInf_le hc⟩
    exact wp_of_ok (take_of_isLeast hleast) (hQ _ hleast)

/-! ## What a run hands out -/

/-- The requests of `out` are answered one after another with places of free cells, which
are then no longer free. -/
inductive Handed (limit : Nat) : Set Nat → List (Request × Nat) → Set Nat → Prop
  | nil (free : Set Nat) : Handed limit free [] free
  | cons {free free' : Set Nat} {q : Request} {c : Nat} {out : List (Request × Nat)}
      (hc : c ∈ places limit q free) (h : Handed limit (free \ q.cells c) out free') :
      Handed limit free ((q, c) :: out) free'

namespace Handed

variable {out : List (Request × Nat)}

/-- The cells that are free afterwards are those that were free and are not handed out. -/
theorem eq_sdiff (h : Handed limit free out free') :
    free' = free \ ⋃ o ∈ out, o.1.cells o.2 := by
  induction h with
  | nil => simp
  | cons hc h ih =>
    rw [ih, Set.sdiff_sdiff]
    simp

/-- Every answer is aligned, ends below the limit and consists of free cells. -/
theorem mem (h : Handed limit free out free') :
    ∀ o ∈ out, o.1.align ∣ o.2 ∧ o.1.cells o.2 ⊆ free ∧ o.2 + o.1.nr < limit := by
  induction h with
  | nil => simp
  | cons hc h ih =>
    intro o ho
    rcases List.mem_cons.mp ho with rfl | ho
    · exact hc
    · obtain ⟨hal, hsub, hlt⟩ := ih o ho
      exact ⟨hal, hsub.trans Set.sdiff_subset, hlt⟩

/-- No cell is handed out twice. -/
theorem pairwise (h : Handed limit free out free') :
    out.Pairwise fun o o' => Disjoint (o.1.cells o.2) (o'.1.cells o'.2) := by
  induction h with
  | nil => exact List.Pairwise.nil
  | cons hc h ih =>
    refine List.Pairwise.cons (fun o ho => ?_) ih
    exact Set.disjoint_sdiff_right.mono_right (h.mem o ho).2.1

/-- No cell is lost: what is free and what was handed out are all the cells there were. -/
theorem ncard (h : Handed limit free out free') (hfin : free.Finite) :
    free'.ncard + (out.map fun o => o.1.nr).sum = free.ncard := by
  induction h with
  | nil => simp
  | @cons free free' q c out hc h ih =>
    have hcells : (q.cells c).ncard = q.nr := by
      rw [Request.cells, Set.ncard_eq_toFinset_card', Set.toFinset_Ico, Nat.card_Ico]
      omega
    have hsplit := Set.ncard_sdiff_add_ncard_of_subset hc.2.1 hfin
    have hrest := ih hfin.sdiff
    rw [List.map_cons, List.sum_cons, show (q, c).1.nr = q.nr from rfl]
    omega

end Handed

/-- A run answers the requests in their order, or finds no place for one. -/
theorem wp_run : ∀ (qs : List Request) (free : Set Nat),
    wp (run full limit qs)
      (fun out free' => out.map Prod.fst = qs ∧ Handed limit free out free')
      (fun e => e = full) free := by
  intro qs
  induction qs with
  | nil =>
    intro free
    rw [run, wp_pure]
    exact ⟨rfl, .nil free⟩
  | cons q qs ih =>
    intro free
    rw [run, wp_bind]
    apply wp_take
    · intro c hc
      rw [wp_bind]
      refine wp_imp (ih (free \ q.cells c)) ?_
      intro out free' h
      rw [wp_pure, List.map_cons, h.1]
      exact ⟨rfl, .cons hc.1 h.2⟩
    · intro _
      rfl

/-! ## Requests for one cell -/

/-- A request for one cell, wherever it is. -/
def one : Request := { nr := 1, align := 1 }

theorem one_cells (c : Nat) : one.cells c = {c} := by
  ext f
  rw [Request.cells, Set.mem_Ico, Set.mem_singleton_iff, show one.nr = 1 from rfl]
  omega

theorem mem_places_one {c : Nat} : c ∈ places limit one free ↔ c ∈ free ∧ c + 1 < limit := by
  show one.align ∣ c ∧ one.cells c ⊆ free ∧ c + one.nr < limit ↔ _
  rw [one_cells, Set.singleton_subset_iff, one]
  simp

/-- When `S` are the free cells that can be handed out, `m` requests for one cell get
the first `m` of them, in ascending order; they fail if there are fewer. -/
theorem wp_run_ones : ∀ (m : Nat) (S : Finset Nat) (free : Set Nat),
    (∀ f, f ∈ S ↔ f ∈ free ∧ f + 1 < limit) →
    wp (run full limit (List.replicate m one))
      (fun out _ => m ≤ S.card ∧ out.map Prod.snd = S.sort.take m)
      (fun e => e = full ∧ S.card < m) free := by
  intro m
  induction m with
  | zero =>
    intro S free _
    rw [List.replicate_zero, run, wp_pure]
    simp
  | succ m ih =>
    intro S free hS
    rw [List.replicate_succ, run, wp_bind]
    apply wp_take
    · intro c hc
      -- The answer is the least cell of `S`.
      have hmem : c ∈ S := (hS c).mpr (mem_places_one.mp hc.1)
      have hle : ∀ f ∈ S.erase c, c ≤ f := fun f hf =>
        hc.2 (mem_places_one.mpr ((hS f).mp (Finset.mem_of_mem_erase hf)))
      have hsort : S.sort = c :: (S.erase c).sort := by
        conv_lhs => rw [← Finset.insert_erase hmem]
        exact Finset.sort_insert _ hle (Finset.notMem_erase c S)
      have hcard := Finset.card_erase_add_one hmem
      have hrest : ∀ f, f ∈ S.erase c ↔ f ∈ free \ one.cells c ∧ f + 1 < limit := by
        intro f
        rw [Finset.mem_erase, hS, one_cells, Set.mem_sdiff, Set.mem_singleton_iff]
        tauto
      rw [wp_bind]
      refine wp_mono (ih (S.erase c) _ hrest) ?_ ?_
      · rintro out free' ⟨hle, hout⟩
        rw [wp_pure, hsort, List.take_succ_cons, List.map_cons, hout]
        exact ⟨by omega, rfl⟩
      · rintro e ⟨he, hlt⟩
        exact ⟨he, by omega⟩
    · intro hnone
      have hempty : S = ∅ := by
        rw [Finset.eq_empty_iff_forall_notMem]
        intro f hf
        have hf' : f ∈ places limit one free := mem_places_one.mpr ((hS f).mp hf)
        rw [hnone] at hf'
        exact hf'
      rw [hempty]
      exact ⟨rfl, Nat.succ_pos m⟩

end FirstFit
