import Mathlib.Algebra.Group.Nat.Defs
import Mathlib.Tactic.Common

/-!
# The C type `int` in expressions with wider types

A counter of type `int` is `Int32.ofNat k` as long as it stays below `2 ^ 31`.
Promotion to `unsigned long` goes through the sign extension to 64 bits.
-/

namespace CInt

/-- The conversion of an `int` to `unsigned long`. -/
def toULong (i : Int32) : UInt64 := i.toInt64.toUInt64

/-- The integer promotion of an `unsigned short`. -/
def ofUShort (x : UInt16) : Int32 := x.toUInt32.toInt32

/-- The conversion of an `unsigned long` to `int` keeps the low 32 bits. -/
def ofULong (x : UInt64) : Int32 := x.toUInt32.toInt32

/-- The value of a comparison or of a logical operator. -/
def ofBool (b : Bool) : Int32 := if b then 1 else 0

theorem ofNat_succ (k : Nat) : Int32.ofNat k + 1 = Int32.ofNat (k + 1) := by
  rw [Int32.ofNat_add]
  rfl

theorem toULong_ofNat {k : Nat} (h : k < 2 ^ 31) :
    toULong (Int32.ofNat k) = UInt64.ofNat k := by
  have hmax : Int32.maxValue.toInt = 2147483647 := rfl
  rw [toULong, Int32.toInt64_ofNat' (by omega)]
  rfl

theorem toULong_ofULong {x : UInt64} (h : x.toNat < 2 ^ 31) : toULong (ofULong x) = x := by
  have hx : ofULong x = Int32.ofNat x.toNat := by
    rw [ofULong, ← Int32.toBitVec_inj, Int32.toBitVec_ofNat']
    apply BitVec.eq_of_toNat_eq
    rw [BitVec.toNat_ofNat]
    rfl
  rw [hx, toULong_ofNat h, UInt64.ofNat_toNat]

/-- The conversion to `unsigned long` loses nothing. -/
theorem ofULong_toULong (i : Int32) : ofULong (toULong i) = i := by
  rw [ofULong, toULong, ← Int32.toBitVec_inj]
  show (i.toBitVec.signExtend 64).setWidth 32 = i.toBitVec
  apply BitVec.eq_of_getLsbD_eq
  intro k hk
  rw [BitVec.getLsbD_setWidth, BitVec.getLsbD_signExtend]
  simp [hk]
  omega

/-- The way through `int` keeps the low 32 bits and repeats the highest of them. -/
theorem toNat_toULong_ofULong (x : UInt64) : (toULong (ofULong x)).toNat =
    if x.toNat % 2 ^ 32 < 2 ^ 31 then x.toNat % 2 ^ 32
    else x.toNat % 2 ^ 32 + (2 ^ 64 - 2 ^ 32) := by
  show (BitVec.signExtend 64 (BitVec.setWidth 32 x.toBitVec)).toNat = _
  rw [BitVec.toNat_signExtend, BitVec.msb_eq_decide, BitVec.toNat_setWidth,
    BitVec.toNat_setWidth, show x.toBitVec.toNat = x.toNat from rfl]
  simp only [decide_eq_true_eq]
  split_ifs <;> omega

theorem ofUShort_eq (x : UInt16) : ofUShort x = Int32.ofNat x.toNat := by
  rw [ofUShort, ← Int32.toBitVec_inj, Int32.toBitVec_ofNat']
  apply BitVec.eq_of_toNat_eq
  rw [BitVec.toNat_ofNat]
  have hx := x.toNat_lt
  show x.toUInt32.toNat = _
  rw [UInt16.toNat_toUInt32]
  omega

theorem ofNat_lt_ofUShort {k : Nat} {x : UInt16} (hk : k < 2 ^ 31) :
    Int32.ofNat k < ofUShort x ↔ k < x.toNat := by
  rw [ofUShort_eq]
  have := x.toNat_lt
  exact Int32.ofNat_lt_iff_lt (by omega) (by omega)

theorem ofULong_ne_zero_iff {x : UInt64} : ofULong x ≠ 0 ↔ x.toNat % 2 ^ 32 ≠ 0 := by
  have h : ofULong x = 0 ↔ x.toUInt32.toNat = 0 := by
    rw [ofULong, ← Int32.toBitVec_inj, ← BitVec.toNat_inj]
    rfl
  rw [Ne, h, UInt64.toNat_toUInt32]

theorem ofBool_ne_zero_iff {b : Bool} : ofBool b ≠ 0 ↔ b = true := by
  cases b <;> decide

end CInt
