import Mathlib.Data.Set.Card
import Mathlib.Order.Interval.Finset.Nat
import Tvmm.FreeSet

/-!
# The page count and the page frames

`get_nr_pages` adds up the sizes of the RAM entries in pages.  `get_max_pfn` and
`__init_alloc_bitmap` round the start of an entry up and its end down.  An entry with
an odd start may so have a page more than it has whole frames.

* `getNrPages_countsFrames`: the count is the number of whole frames, and then bounded
  by `get_max_pfn`, exactly if every RAM entry has `WholePages`;
* `ncard_exists_mem` and `sum_map_eq_iff` are the counting argument.
-/

namespace Tvmm

/-! ## Counting -/

/-- Disjoint sets are counted one after the other. -/
theorem ncard_exists_mem {α β : Type} {F : α → Set β} {l : List α}
    (hfin : ∀ a ∈ l, (F a).Finite) (hdisj : l.Pairwise fun a b => Disjoint (F a) (F b)) :
    {b | ∃ a ∈ l, b ∈ F a}.Finite ∧
      {b | ∃ a ∈ l, b ∈ F a}.ncard = (l.map fun a => (F a).ncard).sum := by
  induction l with
  | nil => simp
  | cons a l ih =>
    obtain ⟨hhead, htail⟩ := List.pairwise_cons.mp hdisj
    obtain ⟨hrest, hcount⟩ := ih (fun b hb => hfin b (List.mem_cons_of_mem a hb)) htail
    have ha := hfin a List.mem_cons_self
    have hsplit : {b | ∃ c ∈ a :: l, b ∈ F c} = F a ∪ {b | ∃ c ∈ l, b ∈ F c} := by
      ext b
      simp
    have happart : Disjoint (F a) {b | ∃ c ∈ l, b ∈ F c} := by
      refine Set.disjoint_left.mpr ?_
      rintro b hb ⟨c, hc, hbc⟩
      exact Set.disjoint_left.mp (hhead c hc) hb hbc
    rw [hsplit, Set.ncard_union_eq happart ha hrest, hcount, List.map_cons, List.sum_cons]
    exact ⟨ha.union hrest, rfl⟩

/-- A sum is as large as a bound of its terms only if every term is. -/
theorem sum_map_eq_iff {α : Type} {f g : α → Nat} {l : List α} (hle : ∀ a ∈ l, f a ≤ g a) :
    (l.map f).sum = (l.map g).sum ↔ ∀ a ∈ l, f a = g a := by
  suffices key : (l.map f).sum ≤ (l.map g).sum ∧
      ((l.map f).sum = (l.map g).sum ↔ ∀ a ∈ l, f a = g a) from key.2
  induction l with
  | nil => simp
  | cons a l ih =>
    obtain ⟨hsum, hiff⟩ := ih fun b hb => hle b (List.mem_cons_of_mem a hb)
    have ha := hle a List.mem_cons_self
    rw [List.map_cons, List.map_cons, List.sum_cons, List.sum_cons, List.forall_mem_cons, ← hiff]
    omega

/-! ## The frames of an entry -/

/-- The page frames that lie wholly inside the entry, if it is RAM. -/
def E820Entry.frames (p : E820Entry) : Set Nat :=
  {f | p.IsRam ∧ frameBytes f ⊆ Set.Ico p.addr.toNat p.stop}

/-- The page frames that lie wholly inside a RAM entry. -/
def E820Map.ramFrames (e820 : E820Map) : Set Nat := {f | ∃ p ∈ e820.map, f ∈ p.frames}

/-- No two RAM entries have a byte in common. -/
def E820Map.RamDisjoint (e820 : E820Map) : Prop :=
  e820.map.Pairwise fun p q => p.IsRam → q.IsRam →
    Disjoint (Set.Ico p.addr.toNat p.stop) (Set.Ico q.addr.toNat q.stop)

/-- What the entry adds to the count. -/
def E820Entry.pages (p : E820Entry) : Nat :=
  if p.type = E820_RAM then p.size.toNat / 4096 else 0

/-- The pages of the size are whole frames: the entry starts with a page, or the odd
parts of its start and of its size make up for each other, or there is no page. -/
def E820Entry.WholePages (p : E820Entry) : Prop :=
  p.addr.toNat % 4096 = 0 ∨ 4096 ≤ p.addr.toNat % 4096 + p.size.toNat % 4096 ∨
    p.size.toNat < 4096

namespace E820Entry

variable {p q : E820Entry}

theorem frames_eq (hram : p.IsRam) :
    p.frames = Finset.Ico ((p.addr.toNat + 4095) / 4096) (p.stop / 4096) := by
  ext f
  rw [Finset.coe_Ico, Set.mem_Ico]
  refine (and_iff_right hram).trans (frameBytes_subset_iff.trans ?_)
  omega

theorem pages_of_ram (hram : p.IsRam) : p.pages = p.size.toNat / 4096 := if_pos hram

theorem pages_of_not_ram (hram : ¬p.IsRam) : p.pages = 0 := if_neg hram

theorem frames_eq_empty (hram : ¬p.IsRam) : p.frames = ∅ :=
  Set.eq_empty_of_forall_notMem fun _ h => hram h.1

theorem frames_finite (p : E820Entry) : p.frames.Finite := by
  by_cases hram : p.IsRam
  · rw [frames_eq hram]
    exact Finset.finite_toSet _
  · rw [frames_eq_empty hram]
    exact Set.finite_empty

theorem ncard_frames (hram : p.IsRam) :
    p.frames.ncard = p.stop / 4096 - (p.addr.toNat + 4095) / 4096 := by
  rw [frames_eq hram, Set.ncard_coe_finset, Nat.card_Ico]

/-- Two entries without a common byte have no common frame. -/
theorem frames_disjoint (h : p.IsRam → q.IsRam →
    Disjoint (Set.Ico p.addr.toNat p.stop) (Set.Ico q.addr.toNat q.stop)) :
    Disjoint p.frames q.frames := by
  refine Set.disjoint_left.mpr ?_
  rintro f ⟨hp, hfp⟩ ⟨hq, hfq⟩
  have hf : f * 4096 ∈ frameBytes f := mem_frameBytes.mpr (by omega)
  exact Set.disjoint_left.mp (h hp hq) (hfp hf) (hfq hf)

/-- There are at most as many whole frames as pages, and as many only if the pages are
whole. -/
theorem ncard_frames_le (p : E820Entry) : p.frames.ncard ≤ p.pages := by
  by_cases hram : p.IsRam
  · rw [ncard_frames hram, pages_of_ram hram, stop]
    omega
  · rw [frames_eq_empty hram, Set.ncard_empty]
    exact Nat.zero_le _

theorem ncard_frames_eq_iff (p : E820Entry) :
    p.frames.ncard = p.pages ↔ (p.IsRam → p.WholePages) := by
  by_cases hram : p.IsRam
  · rw [ncard_frames hram, pages_of_ram hram, stop, WholePages, forall_prop_of_true hram]
    omega
  · rw [frames_eq_empty hram, Set.ncard_empty, pages_of_not_ram hram]
    exact iff_of_true rfl fun h => absurd h hram

end E820Entry

/-! ## The count -/

section Count

variable {e820 : E820Map}

/-- The sum does not wrap, since there are at most 128 entries. -/
theorem toNat_getNrPages (e820 : E820Map) :
    (getNrPages e820).toNat = (e820.map.map E820Entry.pages).sum := by
  suffices key : ∀ (l : List E820Entry) (n : UInt64), n.toNat + l.length * 2 ^ 52 < 2 ^ 64 →
      (l.foldl (fun n p => if p.type ≠ E820_RAM then n else n + (p.size >>> PAGE_SHIFT)) n).toNat =
        n.toNat + (l.map E820Entry.pages).sum by
    have hlen := e820.length_le
    rw [E820_MAX_ENTRIES] at hlen
    have hbound : (0 : UInt64).toNat + e820.map.length * 2 ^ 52 < 2 ^ 64 := by
      rw [UInt64.toNat_zero]
      omega
    have hsum := key e820.map 0 hbound
    rwa [UInt64.toNat_zero, Nat.zero_add] at hsum
  intro l
  induction l with
  | nil =>
    intro n _
    rfl
  | cons p l ih =>
    intro n hn
    rw [List.length_cons, Nat.succ_mul] at hn
    rw [List.foldl_cons, List.map_cons, List.sum_cons]
    have hsize := p.size.toNat_lt
    have hrest : n.toNat + l.length * 2 ^ 52 < 2 ^ 64 :=
      Nat.lt_of_le_of_lt (Nat.add_le_add_left (Nat.le_add_right _ _) _) hn
    by_cases hram : p.type = E820_RAM
    · have hadd : (n + p.size >>> PAGE_SHIFT).toNat = n.toNat + p.size.toNat / 4096 := by
        rw [UInt64.toNat_add, toNat_shiftRight_PAGE_SHIFT]
        omega
      rw [if_neg (not_not_intro hram), ih _ (by omega), hadd, E820Entry.pages_of_ram hram,
        Nat.add_assoc]
    · rw [if_pos hram, ih n hrest, E820Entry.pages_of_not_ram hram, Nat.zero_add]

/-- The frames of disjoint entries are counted entry by entry. -/
theorem ncard_ramFrames (hdisj : e820.RamDisjoint) :
    e820.ramFrames.ncard = (e820.map.map fun p => p.frames.ncard).sum :=
  (ncard_exists_mem (fun p _ => p.frames_finite)
    (hdisj.imp fun h => E820Entry.frames_disjoint h)).2

/-- The count is right if and only if it is right for every entry. -/
theorem getNrPages_eq_ncard_iff (hdisj : e820.RamDisjoint) :
    (getNrPages e820).toNat = e820.ramFrames.ncard ↔
      ∀ p ∈ e820.map, p.IsRam → p.WholePages := by
  rw [toNat_getNrPages, ncard_ramFrames hdisj, eq_comm,
    sum_map_eq_iff fun p _ => p.ncard_frames_le]
  exact forall₂_congr fun p _ => p.ncard_frames_eq_iff

/-- `get_max_pfn` bounds the frames of the entries. -/
theorem ramFrames_subset (hwrap : ∀ p ∈ e820.map, p.IsRam → p.stop < 2 ^ 64) :
    e820.ramFrames ⊆ Finset.range (getMaxPfn e820).toNat := by
  rintro f ⟨p, hp, hram, hf⟩
  obtain ⟨hlo, hhi⟩ := frameBytes_subset_iff.mp hf
  have hstop := hwrap p hp hram
  have hend : (PFN_DOWN (p.addr + p.size)).toNat = p.stop / 4096 := by
    rw [E820Entry.stop] at hstop ⊢
    rw [toNat_PFN_DOWN, UInt64.toNat_add, Nat.mod_eq_of_lt hstop]
  have hstart : (PFN_UP p.addr).toNat = (p.addr.toNat + 4095) / 4096 := by
    rw [toNat_PFN_UP, Nat.mod_eq_of_lt (by omega)]
  have hle := le_getMaxPfn hp hram (UInt64.lt_iff_toNat_lt.mpr (by rw [hend, hstart]; omega))
  rw [hend] at hle
  exact Finset.mem_coe.mpr (Finset.mem_range.mpr (by omega))

/-- The count is that of the whole frames, and it is not above `get_max_pfn`. -/
structure CountsFrames (e820 : E820Map) : Prop where
  count : (getNrPages e820).toNat = e820.ramFrames.ncard
  le_max : getNrPages e820 ≤ getMaxPfn e820

/-- The page count agrees with the page frames if and only if every RAM entry has whole
pages. -/
theorem getNrPages_countsFrames (hwrap : ∀ p ∈ e820.map, p.IsRam → p.stop < 2 ^ 64)
    (hdisj : e820.RamDisjoint) :
    CountsFrames e820 ↔ ∀ p ∈ e820.map, p.IsRam → p.WholePages := by
  rw [← getNrPages_eq_ncard_iff hdisj]
  refine ⟨CountsFrames.count, fun hcount => ⟨hcount, UInt64.le_iff_toNat_le.mpr ?_⟩⟩
  calc (getNrPages e820).toNat = e820.ramFrames.ncard := hcount
    _ ≤ (Finset.range (getMaxPfn e820).toNat : Set Nat).ncard :=
      Set.ncard_le_ncard (ramFrames_subset hwrap) (Finset.finite_toSet _)
    _ = (getMaxPfn e820).toNat := by rw [Set.ncard_coe_finset, Finset.card_range]

end Count

/-- The entries of the sample machine start with a page. -/
theorem sample_getNrPages_countsFrames : CountsFrames sampleMap := by
  have hwrap : ∀ p ∈ sampleMap.map, p.IsRam → p.stop < 2 ^ 64 :=
    List.forall_mem_cons.mpr ⟨fun _ => by decide, List.forall_mem_singleton.mpr fun _ => by decide⟩
  have hdisj : sampleMap.RamDisjoint := by
    refine List.pairwise_pair.mpr fun _ _ => Set.Ico_disjoint_Ico.mpr ?_
    decide
  refine (getNrPages_countsFrames hwrap hdisj).mpr (List.forall_mem_cons.mpr ⟨?_, ?_⟩)
  · exact fun _ => Or.inl rfl
  · exact List.forall_mem_singleton.mpr fun _ => Or.inl rfl

/-- RAM of one page that starts in the middle of a page. -/
def oddMap : E820Map where
  map := [{ addr := 0x800, size := 0x1000, type := E820_RAM }]
  length_le := by decide

/-- One page is counted, and there is no whole frame. -/
theorem getNrPages_not_countsFrames : (∀ p ∈ oddMap.map, p.IsRam → p.stop < 2 ^ 64) ∧
    oddMap.RamDisjoint ∧ (getNrPages oddMap).toNat = 1 ∧ oddMap.ramFrames.ncard = 0 ∧
    ¬getNrPages oddMap ≤ getMaxPfn oddMap := by
  have hdisj : oddMap.RamDisjoint := List.pairwise_singleton _ _
  refine ⟨List.forall_mem_singleton.mpr fun _ => by decide, hdisj, rfl, ?_, by decide⟩
  have hram : E820Entry.IsRam { addr := 0x800, size := 0x1000, type := E820_RAM } := rfl
  rw [ncard_ramFrames hdisj, oddMap, List.map_singleton, List.sum_singleton,
    E820Entry.ncard_frames hram]
  rfl

end Tvmm
