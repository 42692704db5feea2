import Mathlib.Algebra.Group.Nat.Defs
import Mathlib.Tactic.Common

/-!
# Bit-fields of a 64-bit word

A field is the `width` bits of a word from bit `lo` on.  `get` reads it as a
number and `set` stores the low `width` bits of a number in it; the other bits
of the word stay.  Tests for zero, of a field or under a mask, are read as tests
of single bits.
-/

/-- The bits `lo` up to `lo + width - 1` of a word. -/
structure BitField where
  lo : Nat
  width : Nat

namespace BitField

variable {f : BitField} {w x : UInt64}

/-- The value of the field. -/
def get (f : BitField) (w : UInt64) : UInt64 :=
  UInt64.ofNat (w.toNat / 2 ^ f.lo % 2 ^ f.width)

/-- Store the low bits of `x` in the field. -/
def set (f : BitField) (w x : UInt64) : UInt64 :=
  UInt64.ofNat (w.toNat / 2 ^ (f.lo + f.width) * 2 ^ (f.lo + f.width) +
    x.toNat % 2 ^ f.width * 2 ^ f.lo + w.toNat % 2 ^ f.lo)

theorem toNat_get (f : BitField) (w : UInt64) :
    (f.get w).toNat = w.toNat / 2 ^ f.lo % 2 ^ f.width := by
  rw [get, UInt64.toNat_ofNat', Nat.mod_eq_of_lt]
  calc w.toNat / 2 ^ f.lo % 2 ^ f.width
      ≤ w.toNat / 2 ^ f.lo := Nat.mod_le _ _
    _ ≤ w.toNat := Nat.div_le_self _ _
    _ < 2 ^ 64 := w.toNat_lt

theorem toNat_set (h : f.lo + f.width ≤ 64) (w x : UInt64) :
    (f.set w x).toNat = w.toNat / 2 ^ (f.lo + f.width) * 2 ^ (f.lo + f.width) +
      x.toNat % 2 ^ f.width * 2 ^ f.lo + w.toNat % 2 ^ f.lo := by
  rw [set, UInt64.toNat_ofNat', Nat.mod_eq_of_lt]
  have hlow : x.toNat % 2 ^ f.width * 2 ^ f.lo + w.toNat % 2 ^ f.lo <
      2 ^ (f.lo + f.width) := by
    have hx : x.toNat % 2 ^ f.width + 1 ≤ 2 ^ f.width :=
      Nat.mod_lt _ (Nat.two_pow_pos _)
    calc x.toNat % 2 ^ f.width * 2 ^ f.lo + w.toNat % 2 ^ f.lo
        < x.toNat % 2 ^ f.width * 2 ^ f.lo + 2 ^ f.lo :=
          Nat.add_lt_add_left (Nat.mod_lt _ (Nat.two_pow_pos _)) _
      _ = (x.toNat % 2 ^ f.width + 1) * 2 ^ f.lo := by rw [Nat.add_mul, Nat.one_mul]
      _ ≤ 2 ^ f.width * 2 ^ f.lo := Nat.mul_le_mul_right _ hx
      _ = 2 ^ (f.lo + f.width) := by rw [Nat.pow_add, Nat.mul_comm]
  have hsplit : 2 ^ 64 = 2 ^ (64 - (f.lo + f.width)) * 2 ^ (f.lo + f.width) := by
    rw [← Nat.pow_add, Nat.sub_add_cancel h]
  have hhigh : w.toNat / 2 ^ (f.lo + f.width) + 1 ≤ 2 ^ (64 - (f.lo + f.width)) := by
    refine Nat.div_lt_of_lt_mul ?_
    rw [Nat.mul_comm, ← hsplit]
    exact w.toNat_lt
  calc w.toNat / 2 ^ (f.lo + f.width) * 2 ^ (f.lo + f.width) +
        x.toNat % 2 ^ f.width * 2 ^ f.lo + w.toNat % 2 ^ f.lo
      < w.toNat / 2 ^ (f.lo + f.width) * 2 ^ (f.lo + f.width) + 2 ^ (f.lo + f.width) := by
        omega
    _ = (w.toNat / 2 ^ (f.lo + f.width) + 1) * 2 ^ (f.lo + f.width) := by
        rw [Nat.add_mul, Nat.one_mul]
    _ ≤ 2 ^ 64 := by
        rw [hsplit]
        exact Nat.mul_le_mul_right _ hhigh

/-! ## Single bits -/

/-- A field is not zero when one of its bits is set. -/
theorem get_ne_zero_iff {f : BitField} {w : UInt64} :
    f.get w ≠ 0 ↔ ∃ i < f.lo + f.width, f.lo ≤ i ∧ w.toNat.testBit i := by
  rw [Ne, ← UInt64.toNat_inj, toNat_get, UInt64.toNat_zero]
  constructor
  · intro h
    obtain ⟨i, hi⟩ := Nat.exists_testBit_of_ne_zero h
    rw [Nat.testBit_mod_two_pow, Nat.testBit_div_two_pow, Bool.and_eq_true,
      decide_eq_true_eq] at hi
    exact ⟨i + f.lo, by omega, by omega, hi.2⟩
  · rintro ⟨i, hlt, hle, hi⟩ hzero
    have h : (w.toNat / 2 ^ f.lo % 2 ^ f.width).testBit (i - f.lo) = true := by
      rw [Nat.testBit_mod_two_pow, Nat.testBit_div_two_pow, Nat.sub_add_cancel hle, hi,
        Bool.and_true, decide_eq_true_eq]
      omega
    rw [hzero, Nat.zero_testBit] at h
    cases h

/-- A masked word is not zero when it has a bit of the mask. -/
theorem and_ne_zero_iff {w m : UInt64} :
    w &&& m ≠ 0 ↔ ∃ i, w.toNat.testBit i ∧ m.toNat.testBit i := by
  rw [Ne, ← UInt64.toNat_inj, UInt64.toNat_and, UInt64.toNat_zero]
  constructor
  · intro h
    obtain ⟨i, hi⟩ := Nat.exists_testBit_of_ne_zero h
    rw [Nat.testBit_and, Bool.and_eq_true] at hi
    exact ⟨i, hi⟩
  · rintro ⟨i, hi⟩ hzero
    rw [← Bool.and_eq_true, ← Nat.testBit_and, hzero, Nat.zero_testBit] at hi
    cases hi

/-- A mask of one bit tests that bit. -/
theorem and_bit_ne_zero_iff {w m : UInt64} {i : Nat} (h : m.toNat = 2 ^ i) :
    w &&& m ≠ 0 ↔ w.toNat.testBit i := by
  rw [and_ne_zero_iff, h]
  constructor
  · rintro ⟨j, hj, hij⟩
    rw [Nat.testBit_two_pow, decide_eq_true_eq] at hij
    rwa [hij]
  · exact fun hi => ⟨i, hi, Nat.testBit_two_pow_self⟩

end BitField
