import Mathlib.Data.Set.Function
import Mathlib.Order.Interval.Set.Basic
import Mathlib.Tactic.Common
import Mathlib.Tactic.Ring

/-!
# Byte-addressed memory

A memory is a function from addresses to bytes.  `fill`, `copy` and `writeLE`
change one range of it, and `readLE` reads a little-endian number.  The lemmas
say what each operation does inside its range, that it does nothing outside
it, and that a read depends on the bytes of its own range only.  Agreement of
two memories on a set of addresses is `Set.EqOn`, and the range of `n` bytes
at `a` is `Set.Ico a (a + n)`.
-/

/-- The content of every address. -/
abbrev ByteMem := Nat → UInt8

namespace ByteMem

/-! ## Filling and copying a range -/

/-- `n` bytes at `a` become `c`. -/
def fill (m : ByteMem) (a n : Nat) (c : UInt8) : ByteMem :=
  fun x => if a ≤ x ∧ x < a + n then c else m x

/-- `n` bytes at `dst` become the bytes that `m` has at `src`. -/
def copy (m : ByteMem) (dst src n : Nat) : ByteMem :=
  fun x => if dst ≤ x ∧ x < dst + n then m (src + (x - dst)) else m x

@[simp] theorem fill_zero (m : ByteMem) (a : Nat) (c : UInt8) :
    m.fill a 0 c = m := by
  funext x
  rw [fill, if_neg (by omega)]

@[simp] theorem copy_zero (m : ByteMem) (dst src : Nat) :
    m.copy dst src 0 = m := by
  funext x
  rw [copy, if_neg (by omega)]

theorem fill_of_mem {m : ByteMem} {a n x : Nat} {c : UInt8}
    (h : x ∈ Set.Ico a (a + n)) : m.fill a n c x = c :=
  if_pos h

theorem fill_of_notMem {m : ByteMem} {a n x : Nat} {c : UInt8}
    (h : x ∉ Set.Ico a (a + n)) : m.fill a n c x = m x :=
  if_neg h

theorem copy_of_notMem {m : ByteMem} {dst src n x : Nat}
    (h : x ∉ Set.Ico dst (dst + n)) : m.copy dst src n x = m x :=
  if_neg h

theorem copy_add {m : ByteMem} {dst src n k : Nat} (h : k < n) :
    m.copy dst src n (dst + k) = m (src + k) := by
  rw [copy, if_pos (by omega)]
  congr 1
  omega

theorem eqOn_fill (m : ByteMem) (a n : Nat) (c : UInt8) :
    Set.EqOn (m.fill a n c) m (Set.Ico a (a + n))ᶜ :=
  fun _ hx => fill_of_notMem hx

theorem eqOn_copy (m : ByteMem) (dst src n : Nat) :
    Set.EqOn (m.copy dst src n) m (Set.Ico dst (dst + n))ᶜ :=
  fun _ hx => copy_of_notMem hx

/-- Filling upwards in two pieces. -/
theorem fill_append (m : ByteMem) (a n k : Nat) (c : UInt8) :
    (m.fill a n c).fill (a + n) k c = m.fill a (n + k) c := by
  funext x
  simp only [fill]
  split_ifs <;> first | rfl | omega

/-- Copying upwards in two pieces.  The second piece reads bytes that the
first one has not written. -/
theorem copy_append {m : ByteMem} {dst src k j : Nat}
    (h : dst ≤ src ∨ src + (k + j) ≤ dst) :
    (m.copy dst src k).copy (dst + k) (src + k) j = m.copy dst src (k + j) := by
  funext x
  simp only [copy]
  split_ifs <;> first | omega | rfl | (congr 1; omega)

/-- Copying downwards, one byte below what is copied already. -/
theorem copy_prepend {m : ByteMem} {dst src k : Nat}
    (h : src ≤ dst ∨ dst + (k + 1) ≤ src) :
    (m.copy (dst + 1) (src + 1) k).copy dst src 1 = m.copy dst src (k + 1) := by
  funext x
  simp only [copy]
  split_ifs <;> first | omega | rfl | (congr 1; omega)

/-! ## Little-endian numbers -/

/-- The number in the `n` bytes at `a`, least significant byte first. -/
def readLE (m : ByteMem) (a : Nat) : Nat → Nat
  | 0 => 0
  | n + 1 => readLE m a n + (m (a + n)).toNat * 256 ^ n

/-- The `n` bytes at `a` become the number `v`, least significant byte
first. -/
def writeLE (m : ByteMem) (a n v : Nat) : ByteMem :=
  fun x => if a ≤ x ∧ x < a + n then UInt8.ofNat (v / 256 ^ (x - a)) else m x

theorem readLE_lt (m : ByteMem) (a n : Nat) : m.readLE a n < 256 ^ n := by
  induction n with
  | zero => simp [readLE]
  | succ n ih =>
    have hb : (m (a + n)).toNat ≤ 255 := by
      have := (m (a + n)).toNat_lt
      omega
    calc m.readLE a (n + 1)
        = m.readLE a n + (m (a + n)).toNat * 256 ^ n := rfl
      _ < 256 ^ n + 255 * 256 ^ n :=
          Nat.add_lt_add_of_lt_of_le ih (Nat.mul_le_mul_right _ hb)
      _ = 256 ^ (n + 1) := by ring

theorem readLE_congr {m m' : ByteMem} {a : Nat} :
    ∀ {n : Nat}, Set.EqOn m' m (Set.Ico a (a + n)) →
      m'.readLE a n = m.readLE a n := by
  intro n
  induction n with
  | zero => intro _; rfl
  | succ n ih =>
    intro h
    rw [readLE, readLE, ih (h.mono (Set.Ico_subset_Ico_right (by omega))),
      h ⟨Nat.le_add_right a n, by omega⟩]

/-- The same bytes at another place. -/
theorem readLE_shift {m m' : ByteMem} {a a' : Nat} :
    ∀ {n : Nat}, (∀ k < n, m' (a' + k) = m (a + k)) → m'.readLE a' n = m.readLE a n := by
  intro n
  induction n with
  | zero => intro _; rfl
  | succ n ih =>
    intro h
    rw [readLE, readLE, ih fun k hk => h k (Nat.lt_succ_of_lt hk), h n (Nat.lt_succ_self n)]

theorem readLE_of_zero {m : ByteMem} {a n : Nat} (h : ∀ x ∈ Set.Ico a (a + n), m x = 0) :
    m.readLE a n = 0 := by
  have hz : m.readLE a n = readLE (fun _ => 0) a n := readLE_congr fun x hx => h x hx
  rw [hz]
  clear h hz
  induction n with
  | zero => rfl
  | succ n ih => simp [readLE, ih]

theorem writeLE_of_notMem {m : ByteMem} {a n v x : Nat}
    (h : x ∉ Set.Ico a (a + n)) : m.writeLE a n v x = m x :=
  if_neg h

theorem eqOn_writeLE (m : ByteMem) (a n v : Nat) :
    Set.EqOn (m.writeLE a n v) m (Set.Ico a (a + n))ᶜ :=
  fun _ hx => writeLE_of_notMem hx

@[simp] theorem writeLE_zero (m : ByteMem) (a v : Nat) : m.writeLE a 0 v = m := by
  funext x
  exact if_neg (by omega)

/-- Writing the most significant byte last. -/
theorem writeLE_succ (m : ByteMem) (a n v : Nat) :
    m.writeLE a (n + 1) v =
      Function.update (m.writeLE a n v) (a + n) (UInt8.ofNat (v / 256 ^ n)) := by
  funext x
  by_cases hx : x = a + n
  · rw [hx, Function.update_self, writeLE, if_pos (by omega), Nat.add_sub_cancel_left]
  · rw [Function.update_of_ne hx, writeLE, writeLE]
    exact if_congr (by omega) rfl rfl

theorem writeLE_one (m : ByteMem) (a v : Nat) :
    m.writeLE a 1 v = Function.update m a (UInt8.ofNat v) := by
  rw [writeLE_succ, writeLE_zero, Nat.pow_zero, Nat.div_one, Nat.add_zero]

theorem readLE_one (m : ByteMem) (a : Nat) : m.readLE a 1 = (m a).toNat := by
  simp [readLE]

/-- Digit `n` of `v` in base 256, put back in its place. -/
theorem mod_pow_succ_digit (v n : Nat) :
    v % 256 ^ (n + 1) = v % 256 ^ n + v / 256 ^ n % 256 * 256 ^ n := by
  rw [Nat.mod_pow_succ, Nat.mul_comm (256 ^ n)]

/-- The low bytes of a number that was written. -/
theorem readLE_writeLE_of_le (m : ByteMem) (a n v : Nat) :
    ∀ k, k ≤ n → (m.writeLE a n v).readLE a k = v % 256 ^ k := by
  intro k
  induction k with
  | zero =>
    intro _
    rw [readLE, Nat.pow_zero, Nat.mod_one]
  | succ k ih =>
    intro hk
    have hbyte : (m.writeLE a n v (a + k)).toNat = v / 256 ^ k % 256 := by
      rw [writeLE, if_pos (by omega), Nat.add_sub_cancel_left, UInt8.toNat_ofNat']
    rw [readLE, ih (by omega), hbyte, mod_pow_succ_digit]

/-- Reading back what was written. -/
theorem readLE_writeLE (m : ByteMem) (a n v : Nat) :
    (m.writeLE a n v).readLE a n = v % 256 ^ n :=
  readLE_writeLE_of_le m a n v n (Nat.le_refl n)

/-- A write does not change a read of a disjoint range. -/
theorem readLE_writeLE_of_disjoint {m : ByteMem} {a b n k v : Nat}
    (h : a + n ≤ b ∨ b + k ≤ a) :
    (m.writeLE a n v).readLE b k = m.readLE b k := by
  refine readLE_congr fun x hx => writeLE_of_notMem fun hx' => ?_
  have h1 := hx.1
  have h2 := hx.2
  have h3 := hx'.1
  have h4 := hx'.2
  omega

/-- The bytes of the number that was read. -/
theorem readLE_byte (m : ByteMem) (a : Nat) :
    ∀ n k, k < n → m.readLE a n / 256 ^ k % 256 = (m (a + k)).toNat := by
  intro n
  induction n with
  | zero =>
    intro k hk
    exact absurd hk (Nat.not_lt_zero k)
  | succ n ih =>
    intro k hk
    have hpos : 0 < 256 ^ k := Nat.pow_pos (by decide)
    rw [readLE]
    by_cases hkn : k = n
    · subst hkn
      rw [Nat.add_mul_div_right _ _ hpos, Nat.div_eq_of_lt (readLE_lt m a k),
        Nat.zero_add]
      exact Nat.mod_eq_of_lt (m (a + k)).toNat_lt
    · have hsplit : (256 : Nat) ^ n = 256 ^ (n - k - 1) * 256 * 256 ^ k := by
        rw [← Nat.pow_succ, ← Nat.pow_add]
        congr 1
        omega
      rw [hsplit, ← Nat.mul_assoc, Nat.add_mul_div_right _ _ hpos,
        ← Nat.mul_assoc, Nat.add_mul_mod_self_right]
      exact ih k (by omega)

/-- Moving a number from one place to another copies its bytes. -/
theorem writeLE_readLE (m : ByteMem) (dst src n : Nat) :
    m.writeLE dst n (m.readLE src n) = m.copy dst src n := by
  funext x
  rw [writeLE, copy]
  split
  · rename_i h
    apply UInt8.toNat_inj.mp
    rw [UInt8.toNat_ofNat', readLE_byte m src n (x - dst) (by omega)]
  · rfl

/-! ## Words -/

/-- The 64-bit word at `a`. -/
def read64 (m : ByteMem) (a : Nat) : UInt64 :=
  UInt64.ofNat (m.readLE a 8)

/-- The 64-bit word at `a` becomes `w`. -/
def write64 (m : ByteMem) (a : Nat) (w : UInt64) : ByteMem :=
  m.writeLE a 8 w.toNat

theorem read64_congr {m m' : ByteMem} {a : Nat}
    (h : Set.EqOn m' m (Set.Ico a (a + 8))) : m'.read64 a = m.read64 a := by
  rw [read64, read64, readLE_congr h]

theorem read64_write64 (m : ByteMem) (a : Nat) (w : UInt64) :
    (m.write64 a w).read64 a = w := by
  apply UInt64.toNat_inj.mp
  rw [read64, write64, readLE_writeLE, UInt64.toNat_ofNat']
  have := w.toNat_lt
  omega

theorem read64_write64_of_disjoint {m : ByteMem} {a b : Nat} {w : UInt64}
    (h : a + 8 ≤ b ∨ b + 8 ≤ a) : (m.write64 a w).read64 b = m.read64 b := by
  rw [read64, write64, readLE_writeLE_of_disjoint h, read64]

theorem write64_write64 (m : ByteMem) (a : Nat) (w w' : UInt64) :
    (m.write64 a w).write64 a w' = m.write64 a w' := by
  funext x
  simp only [write64, writeLE]
  split_ifs <;> rfl

theorem eqOn_write64 (m : ByteMem) (a : Nat) (w : UInt64) :
    Set.EqOn (m.write64 a w) m (Set.Ico a (a + 8))ᶜ :=
  eqOn_writeLE m a 8 w.toNat

/-- A word of zero bytes is zero. -/
theorem read64_of_zero {m : ByteMem} {a : Nat}
    (h : ∀ x ∈ Set.Ico a (a + 8), m x = 0) : m.read64 a = 0 := by
  have hz : m.read64 a = read64 (fun _ => 0) a :=
    read64_congr fun x hx => h x hx
  rw [hz]
  simp [read64, readLE]

/-- A word of `0xff` bytes has every bit set. -/
theorem read64_of_ones {m : ByteMem} {a : Nat}
    (h : ∀ x ∈ Set.Ico a (a + 8), m x = 0xff) : m.read64 a = ~~~0 := by
  have hz : m.read64 a = read64 (fun _ => 0xff) a :=
    read64_congr fun x hx => h x hx
  rw [hz, read64, show readLE (fun _ => 0xff) a 8 = 2 ^ 64 - 1 by
    simp only [readLE]
    rfl]
  rfl

/-! ## Lists of bytes in memory -/

/-- The `n` bytes of the number `v`, least significant byte first. -/
def bytesLE : Nat → Nat → List UInt8
  | 0, _ => []
  | n + 1, v => UInt8.ofNat v :: bytesLE n (v / 256)

@[simp] theorem length_bytesLE (n v : Nat) : (bytesLE n v).length = n := by
  induction n generalizing v with
  | zero => rfl
  | succ n ih => rw [bytesLE, List.length_cons, ih]

/-- The bytes at `a` are `bs`. -/
def Holds (m : ByteMem) (a : Nat) (bs : List UInt8) : Prop :=
  ∀ k c, bs[k]? = some c → m (a + k) = c

theorem Holds.left {m : ByteMem} {a : Nat} {xs ys : List UInt8} (h : m.Holds a (xs ++ ys)) :
    m.Holds a xs := by
  intro k c hk
  refine h k c ?_
  rw [List.getElem?_append_left (List.getElem?_eq_some_iff.mp hk).1, hk]

theorem Holds.right {m : ByteMem} {a : Nat} {xs ys : List UInt8} (h : m.Holds a (xs ++ ys)) :
    m.Holds (a + xs.length) ys := by
  intro k c hk
  rw [Nat.add_assoc]
  refine h _ c ?_
  rw [List.getElem?_append_right (Nat.le_add_right _ _), Nat.add_sub_cancel_left, hk]

theorem Holds.cons {m : ByteMem} {a : Nat} {x : UInt8} {xs : List UInt8}
    (h : m.Holds a (x :: xs)) : m a = x ∧ m.Holds (a + 1) xs :=
  ⟨h 0 x rfl, Holds.right (show m.Holds a ([x] ++ xs) from h)⟩

/-- A part of the bytes. -/
theorem Holds.slice {m : ByteMem} {a : Nat} {xs : List UInt8} (h : m.Holds a xs) (k n : Nat) :
    m.Holds (a + k) ((xs.drop k).take n) := by
  intro j c hj
  rw [List.getElem?_take] at hj
  split_ifs at hj
  rw [List.getElem?_drop] at hj
  rw [Nat.add_assoc]
  exact h (k + j) c hj

/-- Reading a number of which the lowest byte is read first. -/
theorem readLE_succ_low (m : ByteMem) (a n : Nat) :
    m.readLE a (n + 1) = (m a).toNat + 256 * m.readLE (a + 1) n := by
  induction n with
  | zero => simp [readLE]
  | succ n ih =>
    rw [readLE, ih, readLE, Nat.add_right_comm a 1 n, Nat.add_assoc a n 1]
    ring

/-- A number that is laid out is read back. -/
theorem Holds.readLE {m : ByteMem} {a n v : Nat} (h : m.Holds a (bytesLE n v)) :
    m.readLE a n = v % 256 ^ n := by
  induction n generalizing a v with
  | zero =>
    rw [Nat.pow_zero, Nat.mod_one]
    rfl
  | succ n ih =>
    obtain ⟨hx, hxs⟩ := Holds.cons h
    have hsplit : v % 256 ^ (n + 1) = v % 256 + 256 * (v / 256 % 256 ^ n) := by
      rw [Nat.pow_succ', Nat.mod_mul]
    rw [readLE_succ_low, hx, ih hxs, UInt8.toNat_ofNat', hsplit]

/-- The bytes at `a` become `bs`. -/
def lay (m : ByteMem) (a : Nat) (bs : List UInt8) : ByteMem := fun x =>
  if a ≤ x then (bs[x - a]?).getD (m x) else m x

theorem holds_lay (m : ByteMem) (a : Nat) (bs : List UInt8) : (m.lay a bs).Holds a bs := by
  intro k c hk
  rw [lay, if_pos (Nat.le_add_right _ _), Nat.add_sub_cancel_left, hk]
  rfl

theorem Holds.lay_above {m : ByteMem} {a b : Nat} {bs : List UInt8} (h : m.Holds b bs)
    (xs : List UInt8) (hab : b + bs.length ≤ a) : (m.lay a xs).Holds b bs := by
  intro k c hk
  have hlt := (List.getElem?_eq_some_iff.mp hk).1
  rw [lay, if_neg (by omega)]
  exact h k c hk

/-- One byte is laid out, and then the others. -/
theorem lay_cons (m : ByteMem) (a : Nat) (b : UInt8) (bs : List UInt8) :
    m.lay a (b :: bs) = lay (Function.update m a b) (a + 1) bs := by
  funext x
  unfold lay
  rcases Nat.lt_trichotomy x a with hlt | rfl | hgt
  · rw [if_neg (by omega), if_neg (by omega), Function.update_of_ne (by omega)]
  · rw [if_pos (Nat.le_refl x), if_neg (by omega), Nat.sub_self, Function.update_self]
    rfl
  · obtain ⟨k, rfl⟩ : ∃ k, x = a + 1 + k := ⟨x - (a + 1), by omega⟩
    rw [if_pos (by omega), if_pos (by omega), Function.update_of_ne (by omega),
      Nat.add_sub_cancel_left, show a + 1 + k - a = k + 1 by omega, List.getElem?_cons_succ]

/-- Lay out several pieces, each at its address. -/
def layAll (m : ByteMem) (ps : List (Nat × List UInt8)) : ByteMem :=
  ps.foldl (fun m p => m.lay p.1 p.2) m

theorem lay_of_notMem {m : ByteMem} {a x : Nat} {bs : List UInt8}
    (hx : x ∉ Set.Ico a (a + bs.length)) : m.lay a bs x = m x := by
  rw [Set.mem_Ico] at hx
  unfold lay
  split_ifs with hle
  · rw [List.getElem?_eq_none (by omega)]
    rfl
  · rfl

theorem layAll_of_notMem {ps : List (Nat × List UInt8)} {m : ByteMem} {x : Nat}
    (hx : ∀ p ∈ ps, x ∉ Set.Ico p.1 (p.1 + p.2.length)) : m.layAll ps x = m x := by
  induction ps generalizing m with
  | nil => rfl
  | cons p ps ih =>
    rw [List.forall_mem_cons] at hx
    show (m.lay p.1 p.2).layAll ps x = m x
    rw [ih hx.2, lay_of_notMem hx.1]

theorem Holds.layAll_above {m : ByteMem} {b : Nat} {bs : List UInt8} (h : m.Holds b bs)
    {ps : List (Nat × List UInt8)} (hps : ∀ p ∈ ps, b + bs.length ≤ p.1) :
    (m.layAll ps).Holds b bs := by
  induction ps generalizing m with
  | nil => exact h
  | cons p ps ih =>
    exact ih (h.lay_above _ (hps p List.mem_cons_self))
      fun q hq => hps q (List.mem_cons_of_mem p hq)

/-- Pieces that are laid out upwards do not overwrite each other. -/
theorem holds_layAll {ps : List (Nat × List UInt8)}
    (h : ps.Pairwise fun p q => p.1 + p.2.length ≤ q.1) (m : ByteMem) :
    ∀ p ∈ ps, (m.layAll ps).Holds p.1 p.2 := by
  induction ps generalizing m with
  | nil => exact fun p hp => absurd hp List.not_mem_nil
  | cons q ps ih =>
    rw [List.pairwise_cons] at h
    intro p hp
    rcases List.mem_cons.mp hp with rfl | hp
    · exact (holds_lay m p.1 p.2).layAll_above h.1
    · exact ih h.2 _ p hp

end ByteMem
