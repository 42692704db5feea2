import Mathlib.Data.Nat.Bitwise
import Tvmm.Lib.Exec

/-!
# Bitmaps in tables of 64-bit words

A `WordTable` is an array of words that a program can read and write by index.
`WordTable.LawfulOn` says that it behaves as an array on a set of indices, what its
content is in a state (`view`), and what a write leaves alone (`rest`).  `Lawful` says
so for the indices below `n`.

The bitmap of a content `w` has bit `f` at place `f % 64` of word `f / 64`.
`SetRange` is the change of one range of bits.  The masks with which a program
sets or clears a range word by word are `2 ^ e - 1` and `- 2 ^ s`; their bits
are `testBit_lowMask` and `testBit_highMask`.
-/

/-- An array of words in the state. -/
structure WordTable (σ ε : Type) where
  get : UInt64 → Exec σ ε UInt64
  set : UInt64 → UInt64 → Exec σ ε Unit

namespace WordTable

variable {σ ε : Type}

/-- The first `n` words of the table can be read, and are `view`. -/
def Readable (T : WordTable σ ε) (n : Nat) (view : σ → Nat → UInt64) : Prop :=
  ∀ i s, i.toNat < n → T.get i s = .ok (view s i.toNat, s)

/-- The table without its writes: a write stops with `e`. -/
def readOnly (T : WordTable σ ε) (e : ε) : WordTable σ ε where
  get := T.get
  set _ _ := Exec.stop e

/-- The table with a check: an access at an index from `n` on stops with `e`. -/
def guard (T : WordTable σ ε) (n : Nat) (e : ε) : WordTable σ ε where
  get i := if i.toNat < n then T.get i else Exec.stop e
  set i w := if i.toNat < n then T.set i w else Exec.stop e

theorem guard_get (T : WordTable σ ε) {n : Nat} (e : ε) {i : UInt64} (h : i.toNat < n) :
    (T.guard n e).get i = T.get i := if_pos h

theorem guard_set (T : WordTable σ ε) {n : Nat} (e : ε) {i : UInt64} (h : i.toNat < n) :
    (T.guard n e).set i = T.set i := funext fun _ => if_pos h

/-- The table is an array of `n` words with content `view`, and a write keeps
`rest`. -/
structure Lawful (T : WordTable σ ε) (n : Nat) (view : σ → Nat → UInt64)
    (rest : σ → σ → Prop) : Prop where
  get_eq : ∀ i s, i.toNat < n → T.get i s = .ok (view s i.toNat, s)
  set_ok : ∀ i w s, i.toNat < n → ∃ s', T.set i w s = .ok ((), s') ∧
    view s' = Function.update (view s) i.toNat w ∧ rest s s'
  rest_refl : ∀ s, rest s s
  rest_trans : ∀ {s s' s''}, rest s s' → rest s' s'' → rest s s''

/-- The words with an index in `S` are there, and `view` is what they hold.  A write
changes one of them, and keeps `rest`. -/
structure LawfulOn (T : WordTable σ ε) (S : Set Nat) (view : σ → Nat → UInt64)
    (rest : σ → σ → Prop) : Prop where
  get_eq : ∀ i s, i.toNat ∈ S → T.get i s = .ok (view s i.toNat, s)
  set_ok : ∀ i w s, i.toNat ∈ S → ∃ s', T.set i w s = .ok ((), s') ∧
    view s' = Function.update (view s) i.toNat w ∧ rest s s'
  rest_refl : ∀ s, rest s s
  rest_trans : ∀ {s s' s''}, rest s s' → rest s' s'' → rest s s''

open Exec

variable {T : WordTable σ ε} {n : Nat} {S : Set Nat} {view : σ → Nat → UInt64}
  {rest : σ → σ → Prop} {i w : UInt64} {s : σ} {E : ε → Prop}

theorem Readable.wp_get (hT : T.Readable n view) (hi : i.toNat < n)
    {Q : UInt64 → σ → Prop} (hQ : Q (view s i.toNat) s) :
    wp (T.get i) Q E s :=
  wp_of_ok (hT i s hi) hQ

theorem Readable.readOnly (hT : T.Readable n view) (e : ε) : (T.readOnly e).Readable n view :=
  hT

namespace Lawful

theorem readable (hT : T.Lawful n view rest) : T.Readable n view := hT.get_eq

theorem lawfulOn (hT : T.Lawful n view rest) : T.LawfulOn {i | i < n} view rest :=
  ⟨hT.get_eq, hT.set_ok, hT.rest_refl, hT.rest_trans⟩

end Lawful

namespace LawfulOn

theorem wp_get (hT : T.LawfulOn S view rest) (hi : i.toNat ∈ S)
    {Q : UInt64 → σ → Prop} (hQ : Q (view s i.toNat) s) :
    wp (T.get i) Q E s :=
  wp_of_ok (hT.get_eq i s hi) hQ

theorem wp_set (hT : T.LawfulOn S view rest) (hi : i.toNat ∈ S)
    {Q : Unit → σ → Prop}
    (hQ : ∀ s', view s' = Function.update (view s) i.toNat w → rest s s' →
      Q () s') : wp (T.set i w) Q E s := by
  obtain ⟨s', hok, hview, hrest⟩ := hT.set_ok i w s hi
  exact wp_of_ok hok (hQ s' hview hrest)

end LawfulOn

/-- The table whose content is the state. -/
def ofFun : WordTable (Nat → UInt64) ε where
  get i w := .ok (w i.toNat, w)
  set i x w := .ok ((), Function.update w i.toNat x)

theorem ofFun_lawful (n : Nat) :
    (ofFun : WordTable (Nat → UInt64) ε).Lawful n id fun _ _ => True where
  get_eq _ _ _ := rfl
  set_ok _ _ _ _ := ⟨_, rfl, rfl, trivial⟩
  rest_refl _ := trivial
  rest_trans _ _ := trivial

end WordTable

namespace Bitmap

/-- Bit `f` of the words `w`. -/
def bit (w : Nat → UInt64) (f : Nat) : Bool := (w (f / 64)).toNat.testBit (f % 64)

/-- From `w` to `w'` the bits `[lo, hi)` became `b` and no other bit changed. -/
def SetRange (b : Bool) (w w' : Nat → UInt64) (lo hi : Nat) : Prop :=
  ∀ f, bit w' f = if lo ≤ f ∧ f < hi then b else bit w f

theorem SetRange.empty (b : Bool) (w : Nat → UInt64) (lo : Nat) :
    SetRange b w w lo lo := by
  intro f
  rw [if_neg (by omega)]

/-- Two adjacent ranges. -/
theorem SetRange.append {b : Bool} {w w' w'' : Nat → UInt64} {lo hi : Nat} (mid : Nat)
    (h : SetRange b w w' lo mid) (h' : SetRange b w' w'' mid hi)
    (hlo : lo ≤ mid) (hhi : mid ≤ hi) : SetRange b w w'' lo hi := by
  intro f
  rw [h' f, h f]
  split_ifs <;> first | rfl | omega

/-- One word after another: new bits in word `j` that agree with the old ones
outside `[lo, hi)`. -/
theorem SetRange.of_update {b : Bool} {w : Nat → UInt64} {j lo hi : Nat}
    {x : UInt64} (hlo : 64 * j ≤ lo) (hhi : hi ≤ 64 * j + 64)
    (hx : ∀ k, k < 64 → x.toNat.testBit k =
      if lo ≤ 64 * j + k ∧ 64 * j + k < hi then b else (w j).toNat.testBit k) :
    SetRange b w (Function.update w j x) lo hi := by
  intro f
  by_cases hf : f / 64 = j
  · have hfj : 64 * j + f % 64 = f := by omega
    rw [bit, hf, Function.update_self, hx (f % 64) (by omega), hfj, bit, hf]
  · rw [bit, Function.update_of_ne hf, if_neg (by omega), bit]

/-! ## Masks -/

theorem toNat_one_shiftLeft {k : UInt64} (hk : k.toNat < 64) :
    ((1 : UInt64) <<< k).toNat = 2 ^ k.toNat := by
  rw [UInt64.toNat_shiftLeft, show (1 : UInt64).toNat = 1 from rfl, Nat.shiftLeft_eq,
    Nat.one_mul, Nat.mod_eq_of_lt hk]
  exact Nat.mod_eq_of_lt (Nat.pow_lt_pow_right (by decide) hk)

/-- The bits of `( 1UL << k ) - 1`. -/
theorem testBit_lowMask {k : UInt64} (hk : k.toNat < 64) (i : Nat) :
    ((1 : UInt64) <<< k - 1).toNat.testBit i = decide (i < k.toNat) := by
  have hpow := toNat_one_shiftLeft hk
  have hpos : 0 < 2 ^ k.toNat := Nat.two_pow_pos _
  have hlt : 2 ^ k.toNat < 2 ^ 64 := Nat.pow_lt_pow_right (by decide) hk
  have hsub : ((1 : UInt64) <<< k - 1).toNat = 2 ^ k.toNat - 1 := by
    rw [UInt64.toNat_sub, hpow, show (1 : UInt64).toNat = 1 from rfl]
    omega
  rw [hsub, Nat.testBit_two_pow_sub_one]

/-- The bits of `- ( 1UL << k )`. -/
theorem testBit_highMask {k : UInt64} (hk : k.toNat < 64) {i : Nat} (hi : i < 64) :
    (-((1 : UInt64) <<< k)).toNat.testBit i = decide (k.toNat ≤ i) := by
  have hpow := toNat_one_shiftLeft hk
  have hpos : 0 < 2 ^ k.toNat := Nat.two_pow_pos _
  have hlt : 2 ^ k.toNat < 2 ^ 64 := Nat.pow_lt_pow_right (by decide) hk
  have hsplit : (2 : Nat) ^ 64 = 2 ^ (64 - k.toNat) * 2 ^ k.toNat := by
    rw [← Nat.pow_add, Nat.sub_add_cancel hk.le]
  have hneg : (-((1 : UInt64) <<< k)).toNat =
      (2 ^ (64 - k.toNat) - 1) <<< k.toNat := by
    rw [UInt64.toNat_neg, hpow, show UInt64.size = 2 ^ 64 from rfl,
      Nat.shiftLeft_eq, Nat.sub_mul, Nat.one_mul, ← hsplit]
    exact Nat.mod_eq_of_lt (by omega)
  rw [hneg, Nat.testBit_shiftLeft, Nat.testBit_two_pow_sub_one]
  by_cases h : k.toNat ≤ i
  · simp [h, show i - k.toNat < 64 - k.toNat by omega]
  · simp [h]

/-- The bits of `~0UL`. -/
theorem testBit_ones {i : Nat} (hi : i < 64) :
    (~~~(0 : UInt64)).toNat.testBit i = true := by
  rw [show (~~~(0 : UInt64)).toNat = 2 ^ 64 - 1 from rfl, Nat.testBit_two_pow_sub_one,
    decide_eq_true hi]

end Bitmap
