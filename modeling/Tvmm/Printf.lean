import Tvmm.Lib.CInt
import Tvmm.Machine

/-!
# `printf.c`: formatting

`vsnprintf` writes into the buffer that it gets, and `number` into the same buffer
with offsets of its own.  A `CharBuf` is the memory from the start of the buffer on,
also behind its end, with a history of the stores, so that a store there can be seen.

`Directive.expand` says what a conversion stands for and `expand` what a whole format
does.  Every part of the formatter meets `Prints`: what it prints, up to the size of
the buffer, is what is in the buffer then.

* `vsnprintf_expand`: the result, the characters and the NUL;
* `vsnprintf_inside`: no store is outside of the buffer if and only if every `%x` ends
  inside of it, since `number` does not check its prefix and checks its digits two
  characters too early.
-/

set_option linter.style.nameCheck false

namespace Tvmm

open Exec CInt

/-! ## Strings and arguments -/

/-- A string of C: the characters before the NUL. -/
structure CString where
  chars : List UInt8
  nul : 0 ∉ chars
  /-- The NUL lies in the address space, too. -/
  length_lt : chars.length < 2 ^ 64

/-- An argument slot: the word in it, and the string that it points to if it is used as a
`char *`. -/
structure VaArg where
  word : UInt64
  str : CString

/-- `va_list`: the slots that are left.  Behind the last argument there is what the stack
holds. -/
abbrev VaList := Nat → VaArg

/-- The slots behind the first one, which `va_arg` returns. -/
def vaNext (args : VaList) : VaList := fun k => args (k + 1)

/-! ## The code -/

/-- The memory from `buf` on. -/
structure CharBuf where
  bytes : ByteMem
  /-- The index of each store, the last one first.  No function reads it. -/
  stores : List Nat

/-- `buf [ i ] = c` -/
def CharBuf.store (b : CharBuf) (i : Nat) (c : UInt8) : CharBuf where
  bytes := Function.update b.bytes i c
  stores := i :: b.stores

/-- `buf [ i ] = c`, for an `int`. -/
def storeChar (i : Int32) (c : UInt8) : Exec CharBuf Stop Unit :=
  modify fun b => b.store (toULong i).toNat c

def DIGITS : List UInt8 := "0123456789abcdef".toList.map Char.toUInt8

/-- `do { .. } while ( n )`: the first `len` elements of `tmp`. -/
def digitLoop (num : UInt64) : Exec CharBuf Stop (List UInt8) :=
  loop .hang (fun ((tmp, n) : List UInt8 × UInt64) =>
      if n >>> 4 ≠ 0 then pure (.inl (tmp ++ [DIGITS.getD (n &&& 0xf).toNat 0], n >>> 4))
      else pure (.inr (tmp ++ [DIGITS.getD (n &&& 0xf).toNat 0])))
    LONG_FUEL ([], num)

/-- `number` -/
def number (size : UInt64) (j : Int32) (num : UInt64) : Exec CharBuf Stop Int32 := do
  let tmp ← digitLoop num
  let len := tmp.length
  storeChar j '0'.toUInt8
  storeChar (j + 1) 'x'.toUInt8
  forRange len fun i =>
    when (toULong (j + Int32.ofNat i) < size)
      (storeChar (j + 2 + Int32.ofNat i) (tmp.getD (len - i - 1) 0))
  return Int32.ofNat len + 2

/-- `PUT_CHAR` -/
def PUT_CHAR (size : UInt64) (index : Int32) (c : UInt8) : Exec CharBuf Stop Int32 := do
  when (toULong index < size) (storeChar index c)
  return index + 1

/-- `for ( k = 0; s [ k ] != '\0'; k++ )` -/
def putChars (size : UInt64) : List UInt8 → Int32 → Exec CharBuf Stop Int32
  | [], j => pure j
  | c :: cs, j => do
    let j ← PUT_CHAR size j c
    putChars size cs j

/-- `switch ( fmt [ i ] )` -/
def convert (size : UInt64) (k : UInt8) (args : VaList) (j : Int32) :
    Exec CharBuf Stop (VaList × Int32) :=
  if k = 'c'.toUInt8 then do
    let j ← PUT_CHAR size j (args 0).word.toUInt8
    return (vaNext args, j)
  else if k = 's'.toUInt8 then do
    let j ← putChars size (args 0).str.chars j
    return (vaNext args, j)
  else if k = 'x'.toUInt8 then do
    let len ← number size j (args 0).word
    return (vaNext args, j + len)
  else if k = '%'.toUInt8 then do
    let j ← PUT_CHAR size j '%'.toUInt8
    return (args, j)
  else fatalFailure "vsnprintf"

/-- The loop of `vsnprintf`, over what is left of `fmt`. -/
def formatLoop (size : UInt64) : List UInt8 → VaList → Int32 → Exec CharBuf Stop Int32
  | [], _, j => pure j
  | c :: fmt, args, j =>
    if c ≠ '%'.toUInt8 then do
      let j ← PUT_CHAR size j c
      formatLoop size fmt args j
    else
      match fmt with
      -- the `switch` finds the NUL
      | [] => fatalFailure "vsnprintf"
      | k :: fmt => do
        let (args, j) ← convert size k args j
        formatLoop size fmt args j

/-- `vsnprintf` -/
def vsnprintf (size : UInt64) (fmt : CString) (args : VaList) : Exec CharBuf Stop Int32 :=
  if size ≤ 0 then pure 0
  else do
    let j ← formatLoop size fmt.chars args 0
    when (toULong j < size) (storeChar j 0)
    return j

/-! ## What a format stands for -/

/-- The numeral of a number in base 16. -/
def hexNumeral (n : UInt64) : List UInt8 := (Nat.toDigits 16 n.toNat).map Char.toUInt8

/-- A character of a format, or a conversion. -/
inductive Directive where
  | ordinary (ch : UInt8) (hch : ch ≠ 0 ∧ ch ≠ '%'.toUInt8)
  | char
  | str
  | hex
  | percent

namespace Directive

/-- How it is written in a format string. -/
def text : Directive → List UInt8
  | ordinary ch _ => [ch]
  | char => ['%'.toUInt8, 'c'.toUInt8]
  | str => ['%'.toUInt8, 's'.toUInt8]
  | hex => ['%'.toUInt8, 'x'.toUInt8]
  | percent => ['%'.toUInt8, '%'.toUInt8]

/-- A text of ordinary characters. -/
def ordinaries (cs : List UInt8) (hnul : 0 ∉ cs) (hpercent : '%'.toUInt8 ∉ cs) :
    List Directive :=
  List.pmap ordinary cs fun _ hch =>
    ⟨ne_of_mem_of_not_mem hch hnul, ne_of_mem_of_not_mem hch hpercent⟩

/-- What is printed for it. -/
def expand (arg : VaArg) : Directive → List UInt8
  | ordinary ch _ => [ch]
  | char => [arg.word.toUInt8]
  | str => arg.str.chars
  | hex => '0'.toUInt8 :: 'x'.toUInt8 :: hexNumeral arg.word
  | percent => ['%'.toUInt8]

/-- The arguments behind it. -/
def rest (args : VaList) : Directive → VaList
  | ordinary _ _ => args
  | percent => args
  | _ => vaNext args

/-- What its stores need, if it is printed at `k`, to stay below `size`. -/
def Fits (size k : Nat) (arg : VaArg) : Directive → Prop
  | hex => k + (hex.expand arg).length ≤ size
  | _ => True

end Directive

/-- What is printed for a format. -/
def expand : List Directive → VaList → List UInt8
  | [], _ => []
  | d :: ds, args => d.expand (args 0) ++ expand ds (d.rest args)

/-- Every `%x` ends at or before `size`, if the first directive is printed at `k`. -/
def HexFits (size : Nat) : List Directive → VaList → Nat → Prop
  | [], _, _ => True
  | d :: ds, args, k =>
    d.Fits size k (args 0) ∧ HexFits size ds (d.rest args) (k + (d.expand (args 0)).length)

/-- The format string `fmt` consists of the directives `ds`. -/
def IsFormat (fmt : CString) (ds : List Directive) : Prop := fmt.chars = ds.flatMap Directive.text

/-! ## Printing -/

/-- All stores were below `size`. -/
def CharBuf.Inside (b : CharBuf) (size : Nat) : Prop := ∀ i ∈ b.stores, i < size

/-- `cs` is printed at the position `k`: `b'` shows as much of it as `size` leaves room
for, what `b` shows before it is kept, and the stores are below `size` on the condition
`inside`. -/
structure Prints (size k : Nat) (cs : List UInt8) (inside : Prop) (b b' : CharBuf) :
    Prop where
  shown : ∀ i c, cs[i]? = some c → k + i < size → b'.bytes (k + i) = c
  kept : ∀ i, i < k → b'.bytes i = b.bytes i
  stores : b'.Inside size ↔ b.Inside size ∧ inside

namespace Prints

variable {size k : Nat} {cs cs' : List UInt8} {inside inside' : Prop} {b b' b'' : CharBuf}

theorem nil (size k : Nat) (b : CharBuf) : Prints size k [] True b b :=
  ⟨by simp, fun _ _ => rfl, (and_true _).symm.to_iff⟩

theorem store (size k : Nat) (c : UInt8) (b : CharBuf) :
    Prints size k [c] (k < size) b (b.store k c) where
  shown := by
    intro i c' hc' _
    obtain ⟨rfl, rfl⟩ : i = 0 ∧ c = c' := by
      cases i with
      | zero => exact ⟨rfl, Option.some.inj hc'⟩
      | succ i => cases hc'
    exact Function.update_self _ _ _
  kept := fun i hi => Function.update_of_ne (by omega) _ _
  stores := by
    rw [CharBuf.Inside, CharBuf.store, List.forall_mem_cons, and_comm]
    rfl

/-- Behind the end of the buffer there is nothing to show. -/
theorem skip (h : size ≤ k) (c : UInt8) (b : CharBuf) : Prints size k [c] True b b :=
  ⟨fun i _ _ hi => absurd hi (by omega), fun _ _ => rfl, (and_true _).symm.to_iff⟩

theorem append (h : Prints size k cs inside b b')
    (h' : Prints size (k + cs.length) cs' inside' b' b'') :
    Prints size k (cs ++ cs') (inside ∧ inside') b b'' where
  shown := by
    intro i c hc hi
    by_cases hlt : i < cs.length
    · rw [List.getElem?_append_left hlt] at hc
      rw [h'.kept _ (by omega), h.shown i c hc hi]
    · rw [List.getElem?_append_right (Nat.le_of_not_lt hlt)] at hc
      have := h'.shown (i - cs.length) c hc (by omega)
      rwa [show k + cs.length + (i - cs.length) = k + i by omega] at this
  kept := fun i hi => by rw [h'.kept i (by omega), h.kept i hi]
  stores := by rw [h'.stores, h.stores, and_assoc]

theorem iff (h : Prints size k cs inside b b') (hiff : inside ↔ inside') :
    Prints size k cs inside' b b' :=
  ⟨h.shown, h.kept, by rw [h.stores, hiff]⟩

end Prints

section Steps

variable {E : Stop → Prop} {size : UInt64} {k : Nat} {b : CharBuf}

theorem toULong_lt_iff (hk : k < 2 ^ 31) : toULong (Int32.ofNat k) < size ↔ k < size.toNat := by
  rw [toULong_ofNat hk, UInt64.lt_iff_toNat_lt, UInt64.toNat_ofNat', Nat.mod_eq_of_lt (by omega)]

theorem wp_storeChar {c : UInt8} {Q : Unit → CharBuf → Prop} (hk : k < 2 ^ 31)
    (hQ : Q () (b.store k c)) : wp (storeChar (Int32.ofNat k) c) Q E b := by
  rw [storeChar, wp_modify, toULong_ofNat hk, UInt64.toNat_ofNat', Nat.mod_eq_of_lt (by omega)]
  exact hQ

theorem wp_PUT_CHAR (hk : k < 2 ^ 31) (c : UInt8) :
    wp (PUT_CHAR size (Int32.ofNat k) c) (fun j b' => j = Int32.ofNat (k + 1) ∧
      Prints size.toNat k [c] True b b') E b := by
  rw [PUT_CHAR, wp_bind]
  refine wp_when (fun hlt => wp_storeChar hk ?_) fun hlt => ?_
  · rw [toULong_lt_iff hk] at hlt
    rw [wp_pure]
    exact ⟨ofNat_succ k, (Prints.store _ k c b).iff (iff_true_intro hlt)⟩
  · rw [toULong_lt_iff hk] at hlt
    rw [wp_pure]
    exact ⟨ofNat_succ k, Prints.skip (Nat.le_of_not_lt hlt) c b⟩

theorem wp_putChars {cs : List UInt8} (hk : k + cs.length < 2 ^ 31) :
    wp (putChars size cs (Int32.ofNat k)) (fun j b' => j = Int32.ofNat (k + cs.length) ∧
      Prints size.toNat k cs True b b') E b := by
  induction cs generalizing k b with
  | nil =>
    rw [putChars, wp_pure]
    exact ⟨rfl, Prints.nil _ k b⟩
  | cons c cs ih =>
    rw [List.length_cons] at hk ⊢
    rw [putChars, wp_bind]
    refine wp_imp (wp_PUT_CHAR (by omega) c) ?_
    rintro _ b₁ ⟨rfl, h₁⟩
    refine wp_imp (ih (k := k + 1) (by omega)) ?_
    rintro j b₂ ⟨rfl, h₂⟩
    refine ⟨by rw [Nat.add_assoc, Nat.add_comm 1], ?_⟩
    exact (h₁.append (by exact h₂)).iff (and_self_iff)

/-! ## Numbers -/

theorem toNat_shiftRight_four (n : UInt64) : (n >>> 4).toNat = n.toNat / 16 := by
  rw [UInt64.toNat_shiftRight, show (4 : UInt64).toNat % 64 = 4 from rfl,
    Nat.shiftRight_eq_div_pow]

/-- The table has the digits. -/
theorem DIGITS_getD (n : UInt64) :
    DIGITS.getD (n &&& 0xf).toNat 0 = (Nat.digitChar (n.toNat % 16)).toUInt8 := by
  have hdigit : ∀ d, d < 16 → DIGITS.getD d 0 = (Nat.digitChar d).toUInt8 := by decide
  rw [UInt64.toNat_and, show (0xf : UInt64).toNat = 2 ^ 4 - 1 from rfl,
    Nat.and_two_pow_sub_one_eq_mod, hdigit _ (Nat.mod_lt _ (by decide))]

theorem hexNumeral_of_eq_zero {n : UInt64} (h : n >>> 4 = 0) :
    hexNumeral n = [DIGITS.getD (n &&& 0xf).toNat 0] := by
  have hlt : n.toNat < 16 := by
    have := toNat_shiftRight_four n
    rw [h, show (0 : UInt64).toNat = 0 from rfl] at this
    omega
  rw [hexNumeral, Nat.toDigits_of_lt_base hlt, DIGITS_getD, Nat.mod_eq_of_lt hlt]
  rfl

/-- The last digit comes off the end. -/
theorem hexNumeral_of_ne_zero {n : UInt64} (h : n >>> 4 ≠ 0) :
    hexNumeral n = hexNumeral (n >>> 4) ++ [DIGITS.getD (n &&& 0xf).toNat 0] := by
  have hle : 16 ≤ n.toNat := by
    by_contra hlt
    refine h (UInt64.toNat_inj.mp ?_)
    rw [toNat_shiftRight_four, show (0 : UInt64).toNat = 0 from rfl]
    omega
  rw [hexNumeral, Nat.toDigits_of_base_le (by decide) hle, List.map_append, DIGITS_getD,
    hexNumeral, toNat_shiftRight_four]
  rfl

theorem nul_notMem_hexNumeral (n : UInt64) : 0 ∉ hexNumeral n := by
  have hdigit : ∀ d, d < 16 → 0 ≠ (Nat.digitChar d).toUInt8 := by decide
  induction hn : n.toNat using Nat.strong_induction_on generalizing n with
  | _ m ih =>
    have hlast : 0 ≠ DIGITS.getD (n &&& 0xf).toNat 0 := by
      rw [DIGITS_getD]
      exact hdigit _ (Nat.mod_lt _ (by decide))
    by_cases hz : n >>> 4 = 0
    · rw [hexNumeral_of_eq_zero hz, List.mem_singleton]
      exact hlast
    · have hpos : (n >>> 4).toNat ≠ 0 := fun h => hz (UInt64.toNat_inj.mp h)
      rw [toNat_shiftRight_four] at hpos
      rw [hexNumeral_of_ne_zero hz, List.mem_append, List.mem_singleton, not_or]
      exact ⟨ih _ (by rw [toNat_shiftRight_four]; omega) _ rfl, hlast⟩

/-- Only a `%c` prints a NUL. -/
theorem nul_notMem_expand {ds : List Directive} (h : Directive.char ∉ ds) (args : VaList) :
    0 ∉ expand ds args := by
  induction ds generalizing args with
  | nil => exact List.not_mem_nil
  | cons d ds ih =>
    rw [List.mem_cons, not_or] at h
    rw [expand, List.mem_append, not_or]
    refine ⟨?_, ih h.2 _⟩
    cases d with
    | ordinary ch hch => exact fun hmem => hch.1 (List.mem_singleton.mp hmem).symm
    | char => exact absurd rfl h.1
    | str => exact (args 0).str.nul
    | hex =>
      rw [Directive.expand, List.mem_cons, List.mem_cons, not_or, not_or]
      exact ⟨by decide, by decide, nul_notMem_hexNumeral _⟩
    | percent => exact fun hmem => absurd (List.mem_singleton.mp hmem) (by decide)

/-- The first loop of `number` gets the digits from the last one on. -/
theorem wp_digitLoop (num : UInt64) :
    wp (digitLoop num) (fun tmp b' => tmp = (hexNumeral num).reverse ∧ b' = b) E b := by
  refine wp_loop (fun i b' => hexNumeral num = hexNumeral i.2 ++ i.1.reverse ∧ b' = b)
    (fun i => i.2.toNat) ?_ _ _ _ ⟨(List.append_nil _).symm, rfl⟩
    (Nat.lt_succ_of_lt num.toNat_lt)
  rintro ⟨tmp, n⟩ b₁ ⟨hI, hb⟩
  dsimp only at hI ⊢
  split_ifs with hn
  · rw [wp_pure]
    rw [hexNumeral_of_ne_zero hn, List.append_assoc] at hI
    refine ⟨⟨by rw [hI, List.reverse_append]; rfl, hb⟩, ?_⟩
    have hpos : (n >>> 4).toNat ≠ 0 := fun hz => hn (UInt64.toNat_inj.mp hz)
    rw [toNat_shiftRight_four] at hpos ⊢
    omega
  · rw [wp_pure]
    rw [not_not] at hn
    rw [hexNumeral_of_eq_zero hn] at hI
    exact ⟨by rw [hI, List.reverse_append, List.reverse_reverse]; rfl, hb⟩

/-- One digit.  The check is for the position two before the one that is written. -/
theorem wp_putDigit {i : Nat} (hk : k + 2 + i < 2 ^ 31) (c : UInt8) :
    wp (when (toULong (Int32.ofNat k + Int32.ofNat i) < size)
        (storeChar (Int32.ofNat k + 2 + Int32.ofNat i) c))
      (fun _ b' => Prints size.toNat (k + 2 + i) [c]
        (k + i < size.toNat → k + 2 + i < size.toNat) b b') E b := by
  rw [← Int32.ofNat_add, show (2 : Int32) = Int32.ofNat 2 from rfl, ← Int32.ofNat_add,
    ← Int32.ofNat_add]
  refine wp_when (fun hlt => wp_storeChar hk ?_) fun hlt => ?_
  · rw [toULong_lt_iff (by omega)] at hlt
    exact (Prints.store _ _ c b).iff ⟨fun h _ => h, fun h => h hlt⟩
  · rw [toULong_lt_iff (by omega)] at hlt
    exact (Prints.skip (by omega) c b).iff (iff_of_true trivial fun h => absurd h hlt)

/-- The second loop of `number`. -/
theorem wp_putDigits {ds : List UInt8} (hk : k + 2 + ds.length < 2 ^ 31) :
    wp (forRange ds.reverse.length fun i =>
        when (toULong (Int32.ofNat k + Int32.ofNat i) < size)
          (storeChar (Int32.ofNat k + 2 + Int32.ofNat i)
            (ds.reverse.getD (ds.reverse.length - i - 1) 0)))
      (fun _ b' => Prints size.toNat (k + 2) ds
        (∀ i, i < ds.length → k + i < size.toNat → k + 2 + i < size.toNat) b b') E b := by
  rw [List.length_reverse]
  have hinit : Prints size.toNat (k + 2) (ds.take 0)
      (∀ i, i < 0 → k + i < size.toNat → k + 2 + i < size.toNat) b b :=
    (Prints.nil _ _ b).iff (by simp)
  refine wp_imp (wp_forRange (fun n b' => Prints size.toNat (k + 2) (ds.take n)
    (∀ i, i < n → k + i < size.toNat → k + 2 + i < size.toNat) b b') hinit ?_)
    fun _ b' h => by rwa [List.take_length] at h
  intro n b₁ hn h
  have hdigit : ds.reverse.getD (ds.length - n - 1) 0 = ds[n] := by
    rw [List.getD_eq_getElem?_getD, List.getElem?_reverse (by omega),
      show ds.length - 1 - (ds.length - n - 1) = n by omega, List.getElem?_eq_getElem hn]
    rfl
  refine wp_imp (wp_putDigit (i := n) (by omega) _) fun _ b₂ h₂ => ?_
  have hlen : (ds.take n).length = n := List.length_take_of_le (Nat.le_of_lt hn)
  rw [hdigit] at h₂
  rw [← List.take_append_getElem hn]
  refine (h.append (by rwa [hlen])).iff ⟨fun hp i hi => ?_, fun hp =>
    ⟨fun i hi => hp i (by omega), hp n (Nat.lt_succ_self n)⟩⟩
  rcases Nat.lt_succ_iff_lt_or_eq.mp hi with hi | rfl
  · exact hp.1 i hi
  · exact hp.2

theorem length_hexNumeral_pos (n : UInt64) : 0 < (hexNumeral n).length := by
  rw [hexNumeral, List.length_map]
  exact Nat.length_toDigits_pos

/-- A number with its prefix. -/
theorem wp_number {num : UInt64} (hk : k + 2 + (hexNumeral num).length < 2 ^ 31) :
    wp (number size (Int32.ofNat k) num) (fun len b' =>
      len = Int32.ofNat (2 + (hexNumeral num).length) ∧
      Prints size.toNat k ('0'.toUInt8 :: 'x'.toUInt8 :: hexNumeral num)
        (k + (2 + (hexNumeral num).length) ≤ size.toNat) b b') E b := by
  have hpos := length_hexNumeral_pos num
  rw [number, wp_bind]
  refine wp_imp (wp_digitLoop num) ?_
  rintro _ b₀ ⟨rfl, hb⟩
  rw [hb, ofNat_succ, wp_bind]
  refine wp_storeChar (by omega) ?_
  rw [wp_bind]
  refine wp_storeChar (by omega) ?_
  rw [wp_bind]
  refine wp_imp (wp_putDigits hk) fun _ b' h => ?_
  rw [wp_pure, List.length_reverse]
  refine ⟨?_, ?_⟩
  · rw [show (2 : Int32) = Int32.ofNat 2 from rfl, ← Int32.ofNat_add, Nat.add_comm]
  · have hprefix := (Prints.store size.toNat k '0'.toUInt8 b).append
      (by exact Prints.store size.toNat (k + 1) 'x'.toUInt8 _)
    have hnumber : Prints size.toNat k ('0'.toUInt8 :: 'x'.toUInt8 :: hexNumeral num) _ b b' :=
      hprefix.append h
    refine hnumber.iff ⟨?_, fun hle => ?_⟩
    · rintro ⟨⟨-, h1⟩, hd⟩
      -- Were a digit cut off, one more would be stored behind the buffer.
      by_contra hlt
      have := hd (size.toNat - 2 - k) (by omega) (by omega)
      omega
    · exact ⟨⟨by omega, by omega⟩, fun i hi _ => by omega⟩

/-! ## The format -/

variable {fmt : List UInt8} {args : VaList}

theorem formatLoop_ordinary {ch : UInt8} (hch : ch ≠ '%'.toUInt8) (j : Int32) :
    formatLoop size (ch :: fmt) args j = (do
      let j ← PUT_CHAR size j ch
      formatLoop size fmt args j) := by
  rw [formatLoop.eq_def]
  exact if_pos hch

theorem formatLoop_convert (ch : UInt8) (j : Int32) :
    formatLoop size ('%'.toUInt8 :: ch :: fmt) args j = (do
      let (args, j) ← convert size ch args j
      formatLoop size fmt args j) := by
  rw [formatLoop, if_neg (not_not_intro rfl)]

/-- One directive prints what it stands for and leaves the arguments behind it. -/
theorem wp_formatLoop_directive (d : Directive)
    (hk : k + (d.expand (args 0)).length < 2 ^ 31) {Q : Int32 → CharBuf → Prop}
    (hQ : ∀ b', Prints size.toNat k (d.expand (args 0)) (d.Fits size.toNat k (args 0)) b b' →
      wp (formatLoop size fmt (d.rest args)
        (Int32.ofNat (k + (d.expand (args 0)).length))) Q E b') :
    wp (formatLoop size (d.text ++ fmt) args (Int32.ofNat k)) Q E b := by
  cases d with
  | ordinary ch hch =>
    refine (congrArg (wp · Q E b) (formatLoop_ordinary hch.2 _)).mpr ?_
    rw [wp_bind]
    refine wp_imp (wp_PUT_CHAR (by omega) ch) ?_
    rintro _ b' ⟨rfl, h⟩
    exact hQ b' h
  | char =>
    refine (congrArg (wp · Q E b) (formatLoop_convert _ _)).mpr ?_
    rw [convert, if_pos rfl, bind_assoc, wp_bind]
    refine wp_imp (wp_PUT_CHAR (by omega) _) ?_
    rintro _ b' ⟨rfl, h⟩
    exact hQ b' h
  | str =>
    refine (congrArg (wp · Q E b) (formatLoop_convert _ _)).mpr ?_
    rw [convert, if_neg (by decide), if_pos rfl, bind_assoc, wp_bind]
    refine wp_imp (wp_putChars hk) ?_
    rintro _ b' ⟨rfl, h⟩
    exact hQ b' h
  | hex =>
    refine (congrArg (wp · Q E b) (formatLoop_convert _ _)).mpr ?_
    rw [convert, if_neg (by decide), if_neg (by decide), if_pos rfl, bind_assoc, wp_bind]
    have hlen : (Directive.hex.expand (args 0)).length =
        2 + (hexNumeral (args 0).word).length := Nat.add_comm _ 2
    rw [hlen] at hk hQ
    refine wp_imp (wp_number (by omega)) ?_
    rintro _ b' ⟨rfl, h⟩
    rw [pure_bind, ← Int32.ofNat_add]
    exact hQ b' (h.iff (by rw [Directive.Fits, hlen]))
  | percent =>
    refine (congrArg (wp · Q E b) (formatLoop_convert _ _)).mpr ?_
    rw [convert, if_neg (by decide), if_neg (by decide), if_neg (by decide), if_pos rfl,
      bind_assoc, wp_bind]
    refine wp_imp (wp_PUT_CHAR (by omega) _) ?_
    rintro _ b' ⟨rfl, h⟩
    exact hQ b' h

/-- The loop prints the expansion. -/
theorem wp_formatLoop {ds : List Directive} (hk : k + (expand ds args).length < 2 ^ 31) :
    wp (formatLoop size (ds.flatMap Directive.text) args (Int32.ofNat k)) (fun j b' =>
      j = Int32.ofNat (k + (expand ds args).length) ∧
      Prints size.toNat k (expand ds args) (HexFits size.toNat ds args k) b b') E b := by
  induction ds generalizing args k b with
  | nil =>
    rw [List.flatMap_nil, formatLoop, wp_pure]
    exact ⟨rfl, Prints.nil _ k b⟩
  | cons d ds ih =>
    rw [expand, List.length_append] at hk ⊢
    rw [List.flatMap_cons]
    refine wp_formatLoop_directive d (by omega) fun b₁ h₁ => ?_
    refine wp_imp (ih (by omega)) ?_
    rintro j b₂ ⟨rfl, h₂⟩
    exact ⟨by rw [Nat.add_assoc], h₁.append h₂⟩

end Steps

section Format

variable {fmt : CString} {ds : List Directive} {args : VaList} {size : UInt64}

/-- `vsnprintf` prints the expansion of its format, and a NUL. -/
theorem vsnprintf_prints (hfmt : IsFormat fmt ds) (hsize : 0 < size)
    (hlen : (expand ds args).length < 2 ^ 31) (b : CharBuf) :
    ∃ b', vsnprintf size fmt args b = .ok (Int32.ofNat (expand ds args).length, b') ∧
      Prints size.toNat 0 (expand ds args ++ [0]) (HexFits size.toNat ds args 0) b b' := by
  suffices hwp : wp (vsnprintf size fmt args) (fun j b' =>
      j = Int32.ofNat (expand ds args).length ∧
      Prints size.toNat 0 (expand ds args ++ [0]) (HexFits size.toNat ds args 0) b b')
      (fun _ => False) b by
    obtain ⟨j, b', hrun, rfl, h⟩ := exists_ok_of_wp hwp
    exact ⟨b', hrun, h⟩
  rw [vsnprintf, if_neg (UInt64.not_le.mpr hsize), hfmt, wp_bind]
  refine wp_imp (wp_formatLoop (k := 0) (by omega)) ?_
  rintro _ b₁ ⟨rfl, h₁⟩
  rw [Nat.zero_add] at *
  rw [wp_bind]
  refine wp_when (fun hlt => wp_storeChar hlen ?_) fun hlt => ?_
  · rw [toULong_lt_iff hlen] at hlt
    rw [wp_pure]
    refine ⟨rfl, (h₁.append ?_).iff (and_iff_left trivial)⟩
    rw [Nat.zero_add]
    exact (Prints.store _ _ 0 b₁).iff (iff_true_intro hlt)
  · rw [toULong_lt_iff hlen] at hlt
    rw [wp_pure]
    refine ⟨rfl, (h₁.append ?_).iff (and_iff_left trivial)⟩
    rw [Nat.zero_add]
    exact Prints.skip (Nat.le_of_not_lt hlt) 0 b₁

/-- The formatter returns the length of the expansion, has as much of it in the buffer as
there is room for, and a NUL behind it if there is room for that. -/
theorem vsnprintf_expand (hfmt : IsFormat fmt ds) (hsize : 0 < size)
    (hlen : (expand ds args).length < 2 ^ 31) (b : CharBuf) :
    ∃ b', vsnprintf size fmt args b = .ok (Int32.ofNat (expand ds args).length, b') ∧
      (∀ k c, (expand ds args)[k]? = some c → k < size.toNat → b'.bytes k = c) ∧
      ((expand ds args).length < size.toNat → b'.bytes (expand ds args).length = 0) := by
  obtain ⟨b', hrun, h⟩ := vsnprintf_prints hfmt hsize hlen b
  refine ⟨b', hrun, fun k c hc hk => ?_, fun hlt => ?_⟩
  · have := h.shown k c
    rw [Nat.zero_add] at this
    refine this ?_ hk
    rwa [List.getElem?_append_left (List.getElem?_eq_some_iff.mp hc).1]
  · have := h.shown (expand ds args).length 0 (by simp)
    rw [Nat.zero_add] at this
    exact this hlt

/-- The format `n=%x` -/
def sampleFormat : CString where
  chars := "n=%x".toList.map Char.toUInt8
  nul := by decide
  length_lt := by decide

def sampleDirectives : List Directive :=
  [.ordinary 'n'.toUInt8 (by decide), .ordinary '='.toUInt8 (by decide), .hex]

/-- Any arguments, of which the words are `n`. -/
def wordArgs (n : UInt64) : VaList := fun _ =>
  { word := n, str := ⟨[], List.not_mem_nil, by decide⟩ }

/-- The number is cut off behind its first digit. -/
theorem sample_vsnprintf_expand : ∃ b',
    vsnprintf 5 sampleFormat (wordArgs 0xab) { bytes := fun _ => 1, stores := [] } =
      .ok (6, b') ∧
    b'.bytes 4 = 'a'.toUInt8 := by
  have hfmt : IsFormat sampleFormat sampleDirectives := rfl
  have hlen : (expand sampleDirectives (wordArgs 0xab)).length < 2 ^ 31 := by decide
  obtain ⟨b', hrun, hshown, -⟩ := vsnprintf_expand hfmt (show (0 : UInt64) < 5 by decide) hlen
    { bytes := fun _ => 1, stores := [] }
  exact ⟨b', hrun, hshown 4 'a'.toUInt8 (by decide) (by decide)⟩

theorem vsnprintf_stores (hfmt : IsFormat fmt ds) (hsize : 0 < size)
    (hlen : (expand ds args).length < 2 ^ 31) (m : ByteMem) :
    ∃ b', vsnprintf size fmt args { bytes := m, stores := [] } =
        .ok (Int32.ofNat (expand ds args).length, b') ∧
      ((∀ i ∈ b'.stores, i < size.toNat) ↔ HexFits size.toNat ds args 0) := by
  obtain ⟨b', hrun, h⟩ := vsnprintf_prints hfmt hsize hlen { bytes := m, stores := [] }
  refine ⟨b', hrun, h.stores.trans (and_iff_right ?_)⟩
  exact fun i hi => absurd hi List.not_mem_nil

/-- The formatter stores below `size` only if and only if every `%x` ends there. -/
theorem vsnprintf_inside (hfmt : IsFormat fmt ds) (hsize : 0 < size)
    (hlen : (expand ds args).length < 2 ^ 31) (m : ByteMem) :
    (∀ j b', vsnprintf size fmt args { bytes := m, stores := [] } = .ok (j, b') →
      ∀ i ∈ b'.stores, i < size.toNat) ↔ HexFits size.toNat ds args 0 := by
  obtain ⟨b', hrun, hiff⟩ := vsnprintf_stores hfmt hsize hlen m
  rw [← hiff]
  constructor
  · exact fun hin => hin _ b' hrun
  · intro hin j b'' hrun'
    rw [hrun] at hrun'
    cases hrun'
    exact hin

/-- The number ends with the buffer, and the NUL is left out. -/
theorem sample_vsnprintf_inside : ∃ j b',
    vsnprintf 6 sampleFormat (wordArgs 0xab) { bytes := fun _ => 0, stores := [] } =
      .ok (j, b') ∧
    ∀ i ∈ b'.stores, i < 6 := by
  have hfmt : IsFormat sampleFormat sampleDirectives := rfl
  have hsize : (0 : UInt64) < 6 := by decide
  have hlen : (expand sampleDirectives (wordArgs 0xab)).length < 2 ^ 31 := by decide
  have hfits : HexFits 6 sampleDirectives (wordArgs 0xab) 0 :=
    ⟨trivial, trivial, show 2 + 4 ≤ 6 by decide, trivial⟩
  obtain ⟨b', hrun, -⟩ := vsnprintf_stores hfmt hsize hlen fun _ => 0
  exact ⟨_, b', hrun, (vsnprintf_inside hfmt hsize hlen fun _ => 0).mpr hfits _ b' hrun⟩

/-- The format `%s%x` -/
def stringHexFormat : CString where
  chars := "%s%x".toList.map Char.toUInt8
  nul := by decide
  length_lt := by decide

/-- A string of 1023 characters, and the number 0. -/
def longArgs : VaList := fun _ =>
  { word := 0
    str := ⟨List.replicate 1023 'a'.toUInt8, fun h => absurd (List.eq_of_mem_replicate h)
      (by decide), by rw [List.length_replicate]; decide⟩ }

theorem length_longArgs (k : Nat) : (longArgs k).str.chars.length = 1023 :=
  List.length_replicate

/-- The prefix of the number is stored at 1023 and 1024, and its digit behind it. -/
theorem vsnprintf_not_inside : ∃ j b',
    vsnprintf 1024 stringHexFormat longArgs { bytes := fun _ => 0, stores := [] } =
      .ok (j, b') ∧
    ¬∀ i ∈ b'.stores, i < 1024 := by
  have hfmt : IsFormat stringHexFormat [.str, .hex] := rfl
  have hlen : (expand [.str, .hex] longArgs).length < 2 ^ 31 := by
    rw [expand, List.length_append, Directive.expand, length_longArgs]
    decide
  obtain ⟨b', hrun, hiff⟩ := vsnprintf_stores hfmt (show (0 : UInt64) < 1024 by decide) hlen
    fun _ => 0
  refine ⟨_, b', hrun, fun hin => ?_⟩
  obtain ⟨-, hfits, -⟩ := hiff.mp hin
  rw [Directive.expand, length_longArgs] at hfits
  exact absurd (show 0 + 1023 + 3 ≤ 1024 from hfits) (by decide)

end Format

end Tvmm
