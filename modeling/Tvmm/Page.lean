import Mathlib.Data.UInt
import Tvmm.AllocContract
import Tvmm.Lib.BitField
import Tvmm.Lib.LongMode

/-!
# `page.c`: building and reading page tables

The functions take `alloc_pages` as a parameter: all they rely on is
`AllocContract`.  An entry is a 64-bit word that the code reads and writes
through the bit-fields of the two views of `union pgt_entry`; a store of a
field reads the word and writes it back.

Two shifts are computed in the type of a bit-field.  `non_term.base` has 40
bits, so `e->non_term.base << PAGE_SHIFT` has 40 bits.  `term.base` has 31 bits
of a `u32`, so it is promoted to `int`, and `e->term.base << PAGE_SHIFT_2MB` is
an `int` that is sign-extended when it is added to an `unsigned long`.
-/

set_option linter.style.nameCheck false

namespace Tvmm

open Exec LongMode

/-- `enum pg_table_level`.  No function is called with another value. -/
inductive PgTableLevel where
  | PML4
  | PDP
  | PD
  deriving DecidableEq, Repr

namespace PgTableLevel

/-- `level - 1`, for a level above `PD`. -/
def pred : PgTableLevel → PgTableLevel
  | PML4 => PDP
  | PDP => PD
  | PD => PD

/-- The number of levels below. -/
def depth : PgTableLevel → Nat
  | PML4 => 2
  | PDP => 1
  | PD => 0

theorem depth_pred_lt {level : PgTableLevel} (h : level ≠ PD) :
    level.pred.depth < level.depth := by
  cases level <;> first | exact absurd rfl h | decide

theorem eq_PD_of_depth {level : PgTableLevel} (h : level.depth = 0) : level = PD := by
  cases level <;> first | rfl | cases h

/-- A level above `PD`. -/
theorem pred_of_depth {level : PgTableLevel} {d : Nat} (h : level.depth = d + 1) :
    level ≠ PD ∧ level.pred.depth = d := by
  cases level with
  | PD => cases h
  | PDP => exact ⟨by decide, Nat.succ.inj h⟩
  | PML4 => exact ⟨by decide, Nat.succ.inj h⟩

end PgTableLevel

def PTTEF_PRESENT : UInt64 := (1 : UInt64) <<< 0
def PTTEF_RW : UInt64 := (1 : UInt64) <<< 1
def PTTEF_US : UInt64 := (1 : UInt64) <<< 2
def PTTEF_PAGE_SIZE : UInt64 := (1 : UInt64) <<< 7

/-- `non_term.flags` of `union pgt_entry` -/
def nonTermFlags : BitField := { lo := 0, width := 12 }
/-- `non_term.base` -/
def nonTermBase : BitField := { lo := 12, width := 40 }
/-- `term.flags` -/
def termFlags : BitField := { lo := 0, width := 21 }
/-- `term.base` -/
def termBase : BitField := { lo := 21, width := 31 }

/-- Read a bit-field of the entry at `e`. -/
def loadField (f : BitField) (e : UInt64) : M UInt64 := do
  return f.get (← load64 e)

/-- Assign a bit-field of the entry at `e`. -/
def storeField (f : BitField) (e x : UInt64) : M Unit := do
  let w ← load64 e
  store64 e (f.set w x)

/-- `get_index` -/
def getIndex (vaddr : UInt64) (level : PgTableLevel) : UInt64 :=
  let shift : UInt64 :=
    match level with
    | .PML4 => 39
    | .PDP => 30
    | .PD => 21
  (vaddr >>> shift) &&& (((1 : UInt64) <<< 9) - 1)

/-- `get_entry` -/
def getEntry (pgTableBaseVaddr vaddr : UInt64) (level : PgTableLevel) : UInt64 :=
  pgTableBaseVaddr + getIndex vaddr level * 8

/-- `entry_is_present` -/
def entryIsPresent (x : UInt64) : M Bool := do
  let flags ← loadField termFlags x
  return flags &&& PTTEF_PRESENT != 0

/-- `VIRT ( e->non_term.base << PAGE_SHIFT )` -/
def nextTableBaseVaddr (e : UInt64) : M UInt64 := do
  let base ← loadField nonTermBase e
  return VIRT ((base <<< PAGE_SHIFT) % 2 ^ 40)

/-- `e->term.base << PAGE_SHIFT_2MB`, as an `unsigned long`. -/
def termPaddr (base : UInt64) : UInt64 :=
  (base.toUInt32.toInt32 <<< 21).toInt64.toUInt64

section Build

variable (allocPages : UInt64 → UInt64 → M UInt64)

/-- `pg_table_create` -/
def pgTableCreate : M UInt64 := do
  let pfn ← allocPages 1 1
  let paddr := pfn <<< PAGE_SHIFT
  memset (VIRT paddr) 0 PAGE_SIZE
  return paddr

/-- `pml4_table_create` -/
def pml4TableCreate : M UInt64 := pgTableCreate allocPages

/-- `__mmap` -/
def __mmap (pgTableBaseVaddr vaddr paddr : UInt64) (level : PgTableLevel)
    (isUser : Int32) : M Unit := do
  let e := getEntry pgTableBaseVaddr vaddr level
  if _h : level = .PD then
    -- For page directory entry
    storeField termBase e (paddr >>> PAGE_SHIFT_2MB)
    storeField termFlags e (PTTEF_PRESENT ||| PTTEF_RW ||| PTTEF_PAGE_SIZE)
    when (isUser ≠ 0) do
      let flags ← loadField termFlags e
      storeField termFlags e (flags ||| PTTEF_US)
  else
    -- For page-map level-4 entry and page-directory-pointer entry
    let present ← entryIsPresent e
    when (present = false) do
      let paddr ← pgTableCreate allocPages
      storeField nonTermBase e (paddr >>> PAGE_SHIFT)
      storeField nonTermFlags e (PTTEF_PRESENT ||| PTTEF_RW ||| PTTEF_US)
    let next ← nextTableBaseVaddr e
    __mmap next vaddr paddr level.pred isUser
termination_by level.depth
decreasing_by exact PgTableLevel.depth_pred_lt ‹_›

/-- `mmap` -/
def mmap (pml4TableBaseVaddr vaddr paddr : UInt64) (isUser : Int32) : M Unit :=
  __mmap allocPages pml4TableBaseVaddr vaddr paddr .PML4 isUser

end Build

/-- `__vaddr_to_paddr` -/
def __vaddrToPaddr (pgTableBaseVaddr vaddr : UInt64) (level : PgTableLevel) :
    M UInt64 := do
  let e := getEntry pgTableBaseVaddr vaddr level
  let present ← entryIsPresent e
  if present = false then
    fatalFailure "Page table entry is not present.\n"
  else if _h : level = .PD then
    -- For page directory entry
    let flags ← loadField termFlags e
    if flags &&& PTTEF_PAGE_SIZE = 0 then
      fatalFailure "Not 2 Mbyte page size.\n"
    else
      let base ← loadField termBase e
      return termPaddr base + (vaddr &&& (((1 : UInt64) <<< PAGE_SHIFT_2MB) - 1))
  else
    let next ← nextTableBaseVaddr e
    __vaddrToPaddr next vaddr level.pred
termination_by level.depth
decreasing_by exact PgTableLevel.depth_pred_lt ‹_›

/-- `vaddr_to_paddr` -/
def vaddrToPaddr (pml4TableBaseVaddr vaddr : UInt64) : M UInt64 :=
  __vaddrToPaddr pml4TableBaseVaddr vaddr .PML4

/-! ## Addresses of entries -/

/-- The virtual address of frame `f`. -/
def frameVaddr (f : Nat) : UInt64 := VIRT (UInt64.ofNat (f * 4096))

/-- The frame lies in the memory that the VMM can address. -/
def Addressable (f : Nat) : Prop := f * 4096 + 4096 ≤ 1073741824

theorem Addressable.toNat {f : Nat} (h : Addressable f) :
    (UInt64.ofNat (f * 4096)).toNat = f * 4096 := by
  unfold Addressable at h
  rw [UInt64.toNat_ofNat']
  omega

theorem frameVaddr_inj {f g : Nat} (hf : Addressable f) (hg : Addressable g)
    (h : frameVaddr f = frameVaddr g) : f = g := by
  have hp := congrArg (fun x => (PHYS x).toNat) h
  simp only [frameVaddr, PHYS_VIRT, hf.toNat, hg.toNat] at hp
  omega

theorem toNat_getIndex (v : UInt64) (level : PgTableLevel) :
    (getIndex v level).toNat = index v.toNat (level.depth + 1) := by
  have h : ∀ shift : UInt64, ((v >>> shift) &&& (((1 : UInt64) <<< 9) - 1)).toNat =
      v.toNat / 2 ^ (shift.toNat % 64) % 512 := by
    intro shift
    rw [UInt64.toNat_and, UInt64.toNat_shiftRight, Nat.shiftRight_eq_div_pow,
      show (((1 : UInt64) <<< 9) - 1).toNat = 2 ^ 9 - 1 from rfl,
      Nat.and_two_pow_sub_one_eq_mod]
  cases level <;> exact h _

/-- Where the entry of `v` in the table of frame `f` lies. -/
theorem bootTranslate_getEntry {f : Nat} (hf : Addressable f) (v : UInt64)
    (level : PgTableLevel) :
    bootTranslate (getEntry (frameVaddr f) v level) 8 =
      some (f * 4096 + 8 * index v.toNat (level.depth + 1)) := by
  have hidx : index v.toNat (level.depth + 1) < 512 := Nat.mod_lt _ (by decide)
  have h := bootTranslate_VIRT (p := UInt64.ofNat (f * 4096)) (n := 4096)
    (by rw [hf.toNat]; exact hf)
  rw [hf.toNat] at h
  have h' := bootTranslate_add (k := 8 * index v.toNat (level.depth + 1)) (j := 8) h
    (by omega)
  rwa [show UInt64.ofNat (8 * index v.toNat (level.depth + 1)) = getIndex v level * 8 by
    rw [← toNat_getIndex, UInt64.ofNat_mul, UInt64.ofNat_toNat, UInt64.mul_comm]
    rfl] at h'

section Fields

variable {e x : UInt64} {a : Nat} {s : State} {E : Stop → Prop} {f : BitField}

theorem loadField_of_mapped (h : bootTranslate e 8 = some a) (f : BitField) (s : State) :
    loadField f e s = .ok (f.get (s.mem.read64 a), s) := by
  rw [loadField, bind_of_ok (load64_of_mapped h s)]
  rfl

theorem wp_loadField (h : bootTranslate e 8 = some a) {Q : UInt64 → State → Prop}
    (hQ : Q (f.get (s.mem.read64 a)) s) : wp (loadField f e) Q E s :=
  wp_of_ok (loadField_of_mapped h f s) hQ

theorem wp_storeField (h : bootTranslate e 8 = some a) {Q : Unit → State → Prop}
    (hQ : Q () { s with mem := s.mem.write64 a (f.set (s.mem.read64 a) x) }) :
    wp (storeField f e x) Q E s := by
  rw [storeField, wp_bind]
  refine wp_of_ok (load64_of_mapped h s) ?_
  exact wp_of_ok (store64_of_mapped h _ s) hQ

end Fields

/-! ## Values of entries -/

/-- The two stores of a new link. -/
theorem set_nonTerm {f : Nat} (hf : f < 2 ^ 40) {x : UInt64} (hx : x.toNat = f) :
    nonTermFlags.set (nonTermBase.set 0 x) (PTTEF_PRESENT ||| PTTEF_RW ||| PTTEF_US) =
      tableEntry f := by
  apply UInt64.toNat_inj.mp
  rw [toNat_tableEntry hf, BitField.toNat_set (by decide), BitField.toNat_set (by decide),
    hx, show (0 : UInt64).toNat = 0 from rfl,
    show (PTTEF_PRESENT ||| PTTEF_RW ||| PTTEF_US).toNat = 7 from rfl]
  simp only [nonTermFlags, nonTermBase]
  omega

/-- The stores of a page, into an entry whose top bits are zero. -/
theorem set_term {w p : UInt64} (hw : w.toNat < 2 ^ 52) :
    termFlags.set (termBase.set w (p >>> PAGE_SHIFT_2MB))
      (PTTEF_PRESENT ||| PTTEF_RW ||| PTTEF_PAGE_SIZE) =
      pageEntry (p.toNat / 2 ^ 21 % 2 ^ 31) false := by
  apply UInt64.toNat_inj.mp
  rw [toNat_pageEntry (by omega), BitField.toNat_set (by decide),
    BitField.toNat_set (by decide), UInt64.toNat_shiftRight, Nat.shiftRight_eq_div_pow,
    show PAGE_SHIFT_2MB.toNat % 64 = 21 from rfl,
    show (PTTEF_PRESENT ||| PTTEF_RW ||| PTTEF_PAGE_SIZE).toNat = 0x83 from rfl]
  simp only [termFlags, termBase, Bool.false_eq_true, if_false]
  omega

/-- The store of the user flag. -/
theorem set_user {n : Nat} (hn : n < 2 ^ 31) :
    termFlags.set (pageEntry n false) (termFlags.get (pageEntry n false) ||| PTTEF_US) =
      pageEntry n true := by
  have hget : termFlags.get (pageEntry n false) = 0x83 := by
    apply UInt64.toNat_inj.mp
    rw [BitField.toNat_get, toNat_pageEntry hn, show (0x83 : UInt64).toNat = 0x83 from rfl]
    simp only [termFlags, Bool.false_eq_true, if_false]
    omega
  apply UInt64.toNat_inj.mp
  rw [hget, BitField.toNat_set (by decide), toNat_pageEntry hn, toNat_pageEntry hn,
    show ((0x83 : UInt64) ||| PTTEF_US).toNat = 0x87 from rfl]
  simp only [termFlags, Bool.false_eq_true, if_false, if_true]
  omega

/-- The present bit through the view that `entry_is_present` uses. -/
theorem present_iff (w : UInt64) :
    (termFlags.get w &&& PTTEF_PRESENT != 0) = flag w 0 := by
  have h : (termFlags.get w &&& PTTEF_PRESENT).toNat = w.toNat % 2 := by
    rw [UInt64.toNat_and, BitField.toNat_get,
      show PTTEF_PRESENT.toNat = 2 ^ 1 - 1 from rfl, Nat.and_two_pow_sub_one_eq_mod]
    simp only [termFlags]
    omega
  rw [flag_eq, Nat.pow_zero, Nat.div_one, bne]
  have hz : termFlags.get w &&& PTTEF_PRESENT = 0 ↔ w.toNat % 2 = 0 := by
    rw [← UInt64.toNat_inj, h]
    rfl
  rcases Nat.mod_two_eq_zero_or_one w.toNat with h0 | h1
  · simp [hz.mpr h0, h0]
  · have hnz : termFlags.get w &&& PTTEF_PRESENT ≠ 0 := fun h0 => by
      rw [hz] at h0
      omega
    simp [hnz, h1]

/-- `entry_is_present` reads the present bit. -/
theorem entryIsPresent_of_mapped {e : UInt64} {a : Nat} (h : bootTranslate e 8 = some a)
    (s : State) : entryIsPresent e s = .ok (flag (s.mem.read64 a) 0, s) := by
  rw [entryIsPresent, bind_of_ok (loadField_of_mapped h _ s), present_iff]
  rfl

/-- The address of the next table. -/
theorem nextTableBaseVaddr_of_mapped {e : UInt64} {a f : Nat} {s : State}
    (h : bootTranslate e 8 = some a) (hf : Addressable f)
    (hw : s.mem.read64 a = tableEntry f) :
    nextTableBaseVaddr e s = .ok (frameVaddr f, s) := by
  have hf' : f < 2 ^ 40 := by
    unfold Addressable at hf
    omega
  rw [nextTableBaseVaddr, bind_of_ok (loadField_of_mapped h _ s), hw]
  have hbase : (nonTermBase.get (tableEntry f)).toNat = f := by
    rw [BitField.toNat_get, toNat_tableEntry hf']
    simp only [nonTermBase]
    omega
  have hpaddr : (nonTermBase.get (tableEntry f) <<< PAGE_SHIFT) % 2 ^ 40 =
      UInt64.ofNat (f * 4096) := by
    apply UInt64.toNat_inj.mp
    rw [hf.toNat, UInt64.toNat_mod, toNat_shiftLeft_PAGE_SHIFT (by omega), hbase,
      show ((2 : UInt64) ^ 40).toNat = 2 ^ 40 from rfl]
    unfold Addressable at hf
    omega
  rw [hpaddr]
  rfl

end Tvmm
