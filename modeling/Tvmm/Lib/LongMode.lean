import Mathlib.Data.Nat.Bitwise
import Tvmm.Lib.ByteMem
import Tvmm.Lib.RadixTree

/-!
# The AMD64 long-mode page walk

`walk` is the four-level walk that the processor makes over the page tables in
physical memory, for a virtual address under `CR3` as well as for a
guest-physical address under `hCR3`.  It ends at a 1 GB, 2 MB or 4 KB page and
yields no translation when an entry is not present or has a reserved bit set.

Tables that map 2 MB pages only are a radix tree of depth 2 (`format`), and the
walk is a lookup in it: `walk_of_tree`.
-/

namespace LongMode

/-- Bit `k` of an entry. -/
def flag (e : UInt64) (k : Nat) : Bool := e.toNat.testBit k

/-- The bits `lo` up to `lo + n - 1` of an entry. -/
def bits (e : UInt64) (lo n : Nat) : Nat := e.toNat / 2 ^ lo % 2 ^ n

/-- The frame that an entry points to, bits 51 to 12. -/
def frame (e : UInt64) : Nat := bits e 12 40

/-- The index of `v` in a table of level `l`: 3 for the PML4, 2 for the PDP, 1
for the PD and 0 for the page table. -/
def index (v l : Nat) : Nat := v / 2 ^ (12 + 9 * l) % 512

/-- Bits 63 to 47 of the address are the same. -/
def Canonical (v : UInt64) : Prop := v.toNat < 2 ^ 47 ∨ 2 ^ 64 - 2 ^ 47 ≤ v.toNat

instance (v : UInt64) : Decidable (Canonical v) := inferInstanceAs (Decidable (_ ∨ _))

/-- What the walk yields: the physical address, the access rights, and the
entries that were read, the one of the PML4 first. -/
structure Translation where
  paddr : Nat
  writable : Bool
  user : Bool
  noExec : Bool
  entries : List UInt64
  deriving DecidableEq, Repr

/-- The translation by a page of `2 ^ shift` bytes whose entry is `leaf`. -/
def translation (tables : List UInt64) (leaf : UInt64) (shift v : Nat) :
    Translation where
  paddr := bits leaf shift (52 - shift) * 2 ^ shift + v % 2 ^ shift
  writable := (tables ++ [leaf]).all fun e => flag e 1
  user := (tables ++ [leaf]).all fun e => flag e 2
  noExec := (tables ++ [leaf]).any fun e => flag e 63
  entries := tables ++ [leaf]

/-- The walk from the entry `e2` of a page directory on. -/
def walkPd (m : ByteMem) (tables : List UInt64) (e2 : UInt64) (v : Nat) :
    Option Translation :=
  if flag e2 0 = false then none
  else if flag e2 7 then
    if bits e2 13 8 ≠ 0 then none else some (translation tables e2 21 v)
  else
    let e1 := m.read64 (frame e2 * 4096 + 8 * index v 0)
    if flag e1 0 = false then none
    else some (translation (tables ++ [e2]) e1 12 v)

/-- The walk of `v` over the tables at `cr3`. -/
def walk (m : ByteMem) (cr3 v : Nat) : Option Translation :=
  let e4 := m.read64 (cr3 / 4096 % 2 ^ 40 * 4096 + 8 * index v 3)
  if flag e4 0 = false ∨ bits e4 7 2 ≠ 0 then none
  else
    let e3 := m.read64 (frame e4 * 4096 + 8 * index v 2)
    if flag e3 0 = false then none
    else if flag e3 7 then
      if bits e3 13 17 ≠ 0 then none else some (translation [e4] e3 30 v)
    else walkPd m [e4, e3] (m.read64 (frame e3 * 4096 + 8 * index v 1)) v

/-! ## Tables of 2 MB pages -/

/-- The entry that points to the table in frame `f`: present, writable and
user. -/
def tableEntry (f : Nat) : UInt64 := UInt64.ofNat (f * 4096 + 7)

/-- The entry of the writable 2 MB page number `n`. -/
def pageEntry (n : Nat) (user : Bool) : UInt64 :=
  UInt64.ofNat (n * 2 ^ 21 + 0x83 + if user then 4 else 0)

/-- The words of the table in frame `n`. -/
def words (m : ByteMem) (n : Nat) (i : Fin 512) : UInt64 :=
  m.read64 (n * 4096 + 8 * i)

/-- An index of `v`, as an index of a table. -/
def slot (v l : Nat) : Fin 512 := ⟨index v l, Nat.mod_lt _ (by decide)⟩

/-- The way of `v` through the three tables. -/
def path (v : Nat) : List (Fin 512) := [slot v 3, slot v 2, slot v 1]

/-- The entries of the PML4 and the PDP tables as links. -/
def format : RadixFormat Nat UInt64 where
  empty := 0
  link := tableEntry
  child e := if flag e 0 then some (frame e) else none
  child_empty := if_neg (by simp [flag])

theorem flag_eq (e : UInt64) (k : Nat) :
    flag e k = decide (e.toNat / 2 ^ k % 2 = 1) := by
  rw [flag, Nat.testBit_eq_decide_div_mod_eq]

theorem toNat_tableEntry {f : Nat} (h : f < 2 ^ 40) :
    (tableEntry f).toNat = f * 4096 + 7 := by
  rw [tableEntry, UInt64.toNat_ofNat']
  omega

theorem toNat_pageEntry {n : Nat} (h : n < 2 ^ 31) (u : Bool) :
    (pageEntry n u).toNat = n * 2 ^ 21 + 0x83 + if u then 4 else 0 := by
  rw [pageEntry, UInt64.toNat_ofNat']
  split_ifs <;> omega

theorem frame_tableEntry {f : Nat} (h : f < 2 ^ 40) : frame (tableEntry f) = f := by
  rw [frame, bits, toNat_tableEntry h]
  omega

/-- The available and no-execute bits of the entry are zero, and so are the
reserved bits of its kind. -/
def Plain (e : UInt64) : Prop :=
  bits e 9 3 = 0 ∧ bits e 52 12 = 0 ∧
    if flag e 7 then bits e 13 8 = 0 else bits e 7 2 = 0

/-- What the flags of an entry for a table are. -/
theorem flags_tableEntry {f : Nat} (h : f < 2 ^ 40) :
    flag (tableEntry f) 0 = true ∧ flag (tableEntry f) 1 = true ∧
      flag (tableEntry f) 2 = true ∧ flag (tableEntry f) 7 = false ∧
      flag (tableEntry f) 63 = false ∧ bits (tableEntry f) 7 2 = 0 ∧
      Plain (tableEntry f) := by
  have h7 : flag (tableEntry f) 7 = false := by
    rw [flag_eq, toNat_tableEntry h, decide_eq_false_iff_not]
    omega
  have hr : bits (tableEntry f) 7 2 = 0 := by
    rw [bits, toNat_tableEntry h]
    omega
  refine ⟨?_, ?_, ?_, h7, ?_, hr, ?_, ?_, ?_⟩
  · rw [flag_eq, toNat_tableEntry h, decide_eq_true_eq]
    omega
  · rw [flag_eq, toNat_tableEntry h, decide_eq_true_eq]
    omega
  · rw [flag_eq, toNat_tableEntry h, decide_eq_true_eq]
    omega
  · rw [flag_eq, toNat_tableEntry h, decide_eq_false_iff_not]
    omega
  · rw [bits, toNat_tableEntry h]
    omega
  · rw [bits, toNat_tableEntry h]
    omega
  · rw [h7, if_neg (by decide)]
    exact hr

theorem child_tableEntry {f : Nat} (h : f < 2 ^ 40) :
    format.child (tableEntry f) = some f := by
  show (if flag (tableEntry f) 0 then some (frame (tableEntry f)) else none) = _
  rw [if_pos (flags_tableEntry h).1, frame_tableEntry h]

section Walk

variable {m : ByteMem} {leafOk : UInt64 → Prop} {root : Nat} {S : Set Nat}

/-- An empty PML4 table maps nothing. -/
theorem walk_eq_none_of_empty (hroot : root < 2 ^ 40) (h : ∀ i, words m root i = 0)
    (v : Nat) : walk m (root * 4096) v = none := by
  have h4 : m.read64 (root * 4096 + 8 * index v 3) = 0 := h (slot v 3)
  rw [walk, show root * 4096 / 4096 % 2 ^ 40 = root by omega, h4]
  rfl

/-- The walk over a tree of tables ends where the lookup ends. -/
theorem walk_of_tree (hT : format.Tree leafOk (words m) 2 root S)
    (hS : ∀ f ∈ S, f < 2 ^ 40) (v : Nat) :
    (walk m (root * 4096) v = none ∧ format.lookup (words m) root (path v) = 0) ∨
    ∃ f₁ ∈ S, ∃ f₂ ∈ S, walk m (root * 4096) v =
      walkPd m [tableEntry f₁, tableEntry f₂]
        (format.lookup (words m) root (path v)) v := by
  have hroot : root * 4096 / 4096 % 2 ^ 40 = root := by
    have := hS root hT.root_mem
    omega
  obtain ⟨sub, rfl, -, -, hword⟩ := hT
  have hsub : ∀ i, ∀ f ∈ sub i, f ∈ insert root (⋃ i, sub i) := fun i f hf =>
    Set.mem_insert_of_mem _ (Set.mem_iUnion.mpr ⟨i, hf⟩)
  rw [walk, hroot, path, format.lookup_cons (by simp)]
  rcases hword (slot v 3) with ⟨h4, -⟩ | ⟨f₁, h4, hc₁, hsub₁⟩
  · left
    rw [h4]
    refine ⟨?_, rfl⟩
    rw [show m.read64 (root * 4096 + 8 * index v 3) = 0 from h4]
    rfl
  · have hf₁ := hsub _ f₁ hsub₁.root_mem
    obtain ⟨hp₁, -, -, -, -, hr₁, -⟩ := flags_tableEntry (hS f₁ hf₁)
    rw [h4, hc₁]
    rw [show m.read64 (root * 4096 + 8 * index v 3) = tableEntry f₁ from h4]
    dsimp only
    rw [if_neg (by simp [hp₁, hr₁]), frame_tableEntry (hS f₁ hf₁),
      format.lookup_cons (by simp)]
    obtain ⟨sub₂, hsub₂eq, -, -, hword₂⟩ := hsub₁
    rcases hword₂ (slot v 2) with ⟨h3, -⟩ | ⟨f₂, h3, hc₂, hsub₂⟩
    · left
      rw [h3]
      refine ⟨?_, rfl⟩
      rw [show m.read64 (f₁ * 4096 + 8 * index v 2) = 0 from h3]
      rfl
    · have hf₂ : f₂ ∈ insert root (⋃ i, sub i) := by
        refine hsub (slot v 3) f₂ ?_
        rw [hsub₂eq]
        exact Set.mem_insert_of_mem _ (Set.mem_iUnion.mpr ⟨_, hsub₂.root_mem⟩)
      obtain ⟨hp₂, -, -, hs₂, -⟩ := flags_tableEntry (hS f₂ hf₂)
      right
      refine ⟨f₁, hf₁, f₂, hf₂, ?_⟩
      rw [h3, hc₂]
      rw [show m.read64 (f₁ * 4096 + 8 * index v 2) = tableEntry f₂ from h3]
      dsimp only
      rw [if_neg (by simp [hp₂]), if_neg (by simp [hs₂]), frame_tableEntry (hS f₂ hf₂)]
      rfl

/-- The walk of an address whose entry is missing. -/
theorem walk_eq_none (hT : format.Tree leafOk (words m) 2 root S)
    (hS : ∀ f ∈ S, f < 2 ^ 40) {v : Nat}
    (hv : format.lookup (words m) root (path v) = 0) : walk m (root * 4096) v = none := by
  rcases walk_of_tree hT hS v with ⟨hw, -⟩ | ⟨f₁, -, f₂, -, hw⟩
  · exact hw
  · rw [hw, hv]
    rfl

end Walk

/-- The translation of `v` by the writable 2 MB page number `n`. -/
structure Translation.IsPage (t : Translation) (n : Nat) (user : Bool) (v : Nat) :
    Prop where
  paddr : t.paddr = n * 2 ^ 21 + v % 2 ^ 21
  writable : t.writable = true
  user : t.user = user
  noExec : t.noExec = false
  plain : ∀ e ∈ t.entries, Plain e

/-- What the flags of an entry for a page are. -/
theorem flags_pageEntry {n : Nat} (h : n < 2 ^ 31) (u : Bool) :
    flag (pageEntry n u) 0 = true ∧ flag (pageEntry n u) 1 = true ∧
      flag (pageEntry n u) 2 = u ∧ flag (pageEntry n u) 7 = true ∧
      flag (pageEntry n u) 63 = false ∧ bits (pageEntry n u) 13 8 = 0 ∧
      bits (pageEntry n u) 21 31 = n ∧ Plain (pageEntry n u) := by
  have hu : ∀ u : Bool, (if u = true then 4 else 0 : Nat) = 4 * u.toNat := by decide
  have hu1 := Bool.toNat_le u
  have h7 : flag (pageEntry n u) 7 = true := by
    rw [flag_eq, toNat_pageEntry h, hu, decide_eq_true_eq]
    omega
  have h13 : bits (pageEntry n u) 13 8 = 0 := by
    rw [bits, toNat_pageEntry h, hu]
    omega
  refine ⟨?_, ?_, ?_, h7, ?_, h13, ?_, ?_, ?_, ?_⟩
  · rw [flag_eq, toNat_pageEntry h, hu, decide_eq_true_eq]
    omega
  · rw [flag_eq, toNat_pageEntry h, hu, decide_eq_true_eq]
    omega
  · rw [flag_eq, toNat_pageEntry h]
    cases u
    · rw [decide_eq_false_iff_not]
      simp only [Bool.false_eq_true, if_false]
      omega
    · rw [decide_eq_true_eq]
      simp only [if_true]
      omega
  · rw [flag_eq, toNat_pageEntry h, hu, decide_eq_false_iff_not]
    omega
  · rw [bits, toNat_pageEntry h, hu]
    omega
  · rw [bits, toNat_pageEntry h, hu]
    omega
  · rw [bits, toNat_pageEntry h, hu]
    omega
  · rw [h7, if_pos rfl]
    exact h13

/-- The walk of an address whose entry is the one of a 2 MB page. -/
theorem walk_eq_some {m : ByteMem} {leafOk : UInt64 → Prop} {root : Nat} {S : Set Nat}
    (hT : format.Tree leafOk (words m) 2 root S) (hS : ∀ f ∈ S, f < 2 ^ 40)
    {v n : Nat} {u : Bool} (hn : n < 2 ^ 31)
    (hv : format.lookup (words m) root (path v) = pageEntry n u) :
    ∃ t, walk m (root * 4096) v = some t ∧ t.IsPage n u v := by
  obtain ⟨h0, h1, h2, h7, h63, h13, hbase, hplain⟩ := flags_pageEntry hn u
  rcases walk_of_tree hT hS v with ⟨-, hz⟩ | ⟨f₁, hf₁, f₂, hf₂, hw⟩
  · rw [hz] at hv
    rw [← hv] at h0
    simp [flag] at h0
  · obtain ⟨-, ha1, ha2, -, ha63, -, hap⟩ := flags_tableEntry (hS f₁ hf₁)
    obtain ⟨-, hb1, hb2, -, hb63, -, hbp⟩ := flags_tableEntry (hS f₂ hf₂)
    rw [hv] at hw
    refine ⟨translation [tableEntry f₁, tableEntry f₂] (pageEntry n u) 21 v, ?_, ?_⟩
    · rw [hw, walkPd, if_neg (by simp [h0]), if_pos h7, if_neg (by simp [h13])]
    · constructor
      · rw [translation, hbase]
      · simp [translation, ha1, hb1, h1]
      · simp [translation, ha2, hb2, h2]
      · simp [translation, ha63, hb63, h63]
      · simp [translation, hap, hbp, hplain]

/-- Two addresses take the same way exactly when they lie in the same 2 MB
page. -/
theorem path_eq_iff {v w : Nat} :
    path v = path w ↔ v / 2 ^ 21 % 2 ^ 27 = w / 2 ^ 21 % 2 ^ 27 := by
  simp only [path, slot, index, List.cons.injEq, Fin.mk.injEq, and_true]
  omega

end LongMode
