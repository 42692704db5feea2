import Tvmm.Lib.Terminal
import Tvmm.Printf
import Tvmm.String

/-!
# `printf.c`: the console

`putstr` writes into the video memory at `0xb8000`, where each of the 25 rows has 80
cells of two bytes, the character and its attribute.  `Shows` relates the video memory
and the cursor to a terminal with an unbounded page: the cells show its window.

* `wp_putChar`: one character keeps that up;
* `putstrs_shows`: so does every sequence of strings, with the cursor on the screen
  between any two characters, and it does not matter how a text is split into strings.

A row that is on the screen keeps what it shows until a character is printed over it.
-/

set_option linter.style.nameCheck false

namespace Tvmm

open Exec CInt

/-! ## The code -/

def VIDEO_MEM : UInt64 := 0xb8000
def COLS : Int32 := 80
def LINES : Int32 := 25

/-- `struct screen_info` -/
structure ScreenInfo where
  origX : Int32
  origY : Int32

/-- The machine and what `printf.c` has beside it. -/
structure Console where
  machine : State
  /-- `static struct screen_info scr_info` -/
  scrInfo : ScreenInfo
  /-- The index in `VIDEO_MEM` of each store apart from the row moves, and the position
  in the string of each read, the last one first.  No function reads these. -/
  stores : List UInt64
  reads : List Nat

/-- Run a function of the machine. -/
def onMachine {α : Type} (c : M α) : Exec Console Stop α :=
  zoom Console.machine (fun con s => { con with machine := s }) c

/-- `VIDEO_MEM [ i ] = c` -/
def storeVideo (i : Int32) (c : UInt8) : Exec Console Stop Unit := do
  onMachine (store8 (VIDEO_MEM + toULong i) c)
  modify fun con => { con with stores := toULong i :: con.stores }

/-- `scroll` -/
def scroll : Exec Console Stop Unit := do
  onMachine (memmove VIDEO_MEM (VIDEO_MEM + toULong (COLS * 2))
    (toULong ((LINES - 1) * COLS * 2)))
  loop .hang (fun i =>
      if i < LINES * COLS * 2 then do
        storeVideo i ' '.toUInt8
        return .inl (i + 2)
      else return .inr ())
    INT_FUEL ((LINES - 1) * COLS * 2)

/-- `if ( ++y >= LINES ) { scroll ( ); y--; }` -/
def nextRow (y : Int32) : Exec Console Stop Int32 :=
  if y + 1 ≥ LINES then do
    scroll
    return y + 1 - 1
  else return y + 1

/-- The body of the loop of `putstr`, for the character `c`. -/
def putChar (c : UInt8) (x y : Int32) : Exec Console Stop (Int32 × Int32) :=
  if c = '\n'.toUInt8 then do
    let y ← nextRow y
    return (0, y)
  else do
    storeVideo ((x + COLS * y) * 2) c
    if x + 1 ≥ COLS then do
      let y ← nextRow y
      return (0, y)
    else return (x + 1, y)

/-- `c = *s++`, at the position `k`. -/
def readChar (s : ByteMem) (k : Nat) : Exec Console Stop UInt8 := do
  modify fun con => { con with reads := k :: con.reads }
  return s k

/-- One turn of the loop of `putstr`. -/
def putNext (s : ByteMem) : Nat × Int32 × Int32 →
    Exec Console Stop ((Nat × Int32 × Int32) ⊕ (Int32 × Int32))
  | (k, x, y) => do
    let c ← readChar s k
    if c ≠ 0 then do
      let (x, y) ← putChar c x y
      return .inl (k + 1, x, y)
    else return .inr (x, y)

/-- `putstr`, for the string in the memory from `s` on. -/
def putstr (s : ByteMem) : Exec Console Stop Unit := do
  let con ← get
  let (x, y) ← loop .hang (putNext s) LONG_FUEL (0, con.scrInfo.origX, con.scrInfo.origY)
  modify fun con => { con with scrInfo := { origX := x, origY := y } }

/-- The memory from a string on. -/
def CString.mem (s : CString) : ByteMem := fun k => s.chars.getD k 0

/-- One call of `putstr` after the other. -/
def putstrs (ss : List CString) : Exec Console Stop Unit := forEach (fun s => putstr s.mem) ss

/-! ## The screen -/

/-- Where the character of a cell lies in the video memory. -/
def cellAt (r c : Nat) : Nat := (c + 80 * r) * 2

/-- The memory and the cursor. -/
structure Screen where
  mem : ByteMem
  x : Nat
  y : Nat
  x_lt : x < 80
  y_lt : y < 25

/-- The first `k` characters of the last row become blanks. -/
def blankCells (m : ByteMem) (k : Nat) : ByteMem := fun a =>
  if 0xb8000 + 3840 ≤ a ∧ a < 0xb8000 + 3840 + 2 * k ∧ a % 2 = 0 then ' '.toUInt8 else m a

/-- The rows move up, and the last one becomes blank. -/
def scrolled (m : ByteMem) : ByteMem := blankCells (m.copy 0xb8000 (0xb8000 + 160) 3840) 80

namespace Screen

/-- The cursor goes to the next row. -/
def nextRow (s : Screen) : Screen where
  mem := if s.y + 1 < 25 then s.mem else scrolled s.mem
  x := 0
  y := if s.y + 1 < 25 then s.y + 1 else s.y
  x_lt := by decide
  y_lt := by
    have := s.y_lt
    split_ifs <;> assumption

/-- The cell of the cursor becomes `c`. -/
def write (c : UInt8) (s : Screen) : Screen :=
  { s with mem := s.mem.fill (0xb8000 + cellAt s.y s.x) 1 c }

/-- Print a character. -/
def draw (s : Screen) (c : UInt8) : Screen :=
  if c = '\n'.toUInt8 then s.nextRow
  else if h : s.x + 1 < 80 then { s.write c with x := s.x + 1, x_lt := h }
  else (s.write c).nextRow

end Screen

/-- The stores since `con`, apart from the row moves, are to the characters of cells. -/
def StoresCells (con con' : Console) : Prop :=
  ∃ is, con'.stores = is ++ con.stores ∧ ∀ i ∈ is, i.toNat % 2 = 0 ∧ i.toNat < 4000

theorem StoresCells.of_eq {con con' : Console} (h : con'.stores = con.stores) :
    StoresCells con con' :=
  ⟨[], h, List.forall_mem_nil _⟩

theorem StoresCells.trans {con con' con'' : Console} (h : StoresCells con con')
    (h' : StoresCells con' con'') : StoresCells con con'' := by
  obtain ⟨is, his, heven⟩ := h
  obtain ⟨is', his', heven'⟩ := h'
  refine ⟨is' ++ is, by rw [his', his, List.append_assoc], fun i hi => ?_⟩
  rcases List.mem_append.mp hi with hi | hi
  · exact heven' i hi
  · exact heven i hi

/-- The memory becomes `m`, with stores to the characters of cells apart from the row
moves. -/
structure Draws (m : ByteMem) (con con' : Console) : Prop where
  machine : con'.machine = { con.machine with mem := m }
  scrInfo : con'.scrInfo = con.scrInfo
  reads : con'.reads = con.reads
  stores : StoresCells con con'

theorem Draws.refl (con : Console) : Draws con.machine.mem con con :=
  ⟨rfl, rfl, rfl, .of_eq rfl⟩

theorem Draws.trans {m m' : ByteMem} {con con' con'' : Console} (h : Draws m con con')
    (h' : Draws m' con' con'') : Draws m' con con'' :=
  ⟨by rw [h'.machine, h.machine], h'.scrInfo.trans h.scrInfo, h'.reads.trans h.reads,
    h.stores.trans h'.stores⟩

section Draw

variable {E : Stop → Prop} {con : Console} {m : ByteMem}

theorem wp_onMachine {α : Type} {c : M α} {Q : α → Console → Prop}
    (h : wp c (fun a s => Q a { con with machine := s }) E con.machine) :
    wp (onMachine c) Q E con := wp_zoom.mpr h

/-- A store to the video memory. -/
theorem wp_storeVideo {k : Nat} (hk : k < 4000) (heven : k % 2 = 0) (c : UInt8) :
    wp (storeVideo (Int32.ofNat k) c) (fun _ con' =>
      Draws (con.machine.mem.fill (0xb8000 + k) 1 c) con con') E con := by
  have hv : bootTranslate (VIDEO_MEM + UInt64.ofNat k) 1 = some (0xb8000 + k) :=
    bootTranslate_add (n := 4000) (by decide) hk
  rw [storeVideo, toULong_ofNat (by omega), wp_bind]
  refine wp_onMachine (wp_of_ok (a := ()) (by rw [store8, storeLE, hv]) ?_)
  rw [wp_modify]
  refine ⟨by rw [writeLE_one], rfl, rfl, [UInt64.ofNat k], rfl, ?_⟩
  have hi : (UInt64.ofNat k).toNat = k := by
    rw [UInt64.toNat_ofNat']
    omega
  exact List.forall_mem_singleton.mpr (by rw [hi]; exact ⟨heven, hk⟩)

theorem blankCells_zero (m : ByteMem) : blankCells m 0 = m := by
  funext a
  rw [blankCells, if_neg (by omega)]

theorem blankCells_succ (m : ByteMem) (k : Nat) :
    (blankCells m k).fill (0xb8000 + (3840 + 2 * k)) 1 ' '.toUInt8 = blankCells m (k + 1) := by
  funext a
  simp only [ByteMem.fill, blankCells]
  split_ifs <;> first | rfl | omega

/-- The rows move up in one simultaneous copy. -/
theorem wp_moveRows :
    wp (onMachine (memmove VIDEO_MEM (VIDEO_MEM + toULong (COLS * 2))
        (toULong ((LINES - 1) * COLS * 2)))) (fun _ con' =>
      Draws (con.machine.mem.copy 0xb8000 (0xb8000 + 160) 3840) con con') E con := by
  have hd : bootTranslate VIDEO_MEM 3840 = some 0xb8000 := by decide
  have hs : bootTranslate (VIDEO_MEM + toULong (COLS * 2)) 3840 = some (0xb8000 + 160) := by
    decide
  refine wp_onMachine (wp_memmove (Or.inl ⟨_, fun _ => hd⟩) (Or.inl ⟨_, fun _ => hs⟩) ?_)
  intro pd ps s' hpd hps hc
  obtain rfl := Option.some.inj (hd.symm.trans (hpd (by decide)))
  obtain rfl := Option.some.inj (hs.symm.trans (hps (by decide)))
  exact ⟨hc.copy (Or.inl (by decide)), rfl, rfl, .of_eq rfl⟩

/-- The last row becomes blank. -/
theorem wp_blankRow : wp (loop .hang (fun i =>
      if i < LINES * COLS * 2 then do
        storeVideo i ' '.toUInt8
        return .inl (i + 2)
      else return .inr ()) INT_FUEL ((LINES - 1) * COLS * 2))
    (fun (_ : Unit) con' => Draws (blankCells con.machine.mem 80) con con') E con := by
  refine wp_loop (fun i con' => ∃ k, k ≤ 80 ∧ i = Int32.ofNat (3840 + 2 * k) ∧
      Draws (blankCells con.machine.mem k) con con') (fun i => 4000 - i.toInt.toNat) ?_ _ _ _
    ⟨0, by decide, rfl, by rw [blankCells_zero]; exact .refl con⟩ (by decide)
  rintro _ con' ⟨k, hk, rfl, h⟩
  have hlt : Int32.ofNat (3840 + 2 * k) < LINES * COLS * 2 ↔ 3840 + 2 * k < 4000 :=
    Int32.ofNat_lt_iff_lt (by omega) (by decide)
  split_ifs with hcont
  · rw [hlt] at hcont
    rw [wp_bind]
    refine wp_imp (wp_storeVideo hcont (by omega) _) fun _ con'' h' => ?_
    rw [wp_pure, show (2 : Int32) = Int32.ofNat 2 from rfl, ← Int32.ofNat_add]
    refine ⟨⟨k + 1, by omega, rfl, ?_⟩, ?_⟩
    · rw [h.machine, blankCells_succ] at h'
      exact h.trans h'
    · rw [Int32.toInt_ofNat_of_lt (by omega), Int32.toInt_ofNat_of_lt (by omega)]
      omega
  · rw [hlt] at hcont
    obtain rfl : k = 80 := by omega
    rw [wp_pure]
    exact h

theorem wp_scroll : wp scroll (fun _ con' => Draws (scrolled con.machine.mem) con con') E con := by
  unfold scroll
  rw [wp_bind]
  refine wp_imp wp_moveRows fun _ con₁ h₁ => ?_
  refine wp_imp wp_blankRow fun _ con₂ h₂ => ?_
  rw [h₁.machine] at h₂
  exact h₁.trans h₂

/-- The comparisons of the cursor with the size of the screen. -/
theorem succ_ge_iff {k n : Nat} (hk : k < 100) (hn : n < 100) :
    Int32.ofNat k + 1 ≥ Int32.ofNat n ↔ n ≤ k + 1 := by
  rw [ofNat_succ]
  exact Int32.ofNat_le_iff_le (by omega) (by omega)

theorem wp_nextRow (s : Screen) (hm : con.machine.mem = s.mem) :
    wp (nextRow (Int32.ofNat s.y)) (fun y con' => y = Int32.ofNat s.nextRow.y ∧
      Draws s.nextRow.mem con con') E con := by
  have hy := s.y_lt
  have hge : Int32.ofNat s.y + 1 ≥ LINES ↔ 25 ≤ s.y + 1 := succ_ge_iff (by omega) (by decide)
  unfold nextRow Screen.nextRow
  dsimp only
  split_ifs with h h' h'
  · rw [hge] at h
    omega
  · rw [wp_bind]
    refine wp_imp wp_scroll fun _ con' hdraws => ?_
    rw [wp_pure, Int32.add_sub_cancel]
    rw [hm] at hdraws
    exact ⟨rfl, hdraws⟩
  · rw [wp_pure, ofNat_succ]
    exact ⟨rfl, hm ▸ .refl con⟩
  · rw [hge] at h
    omega

/-- One character. -/
theorem wp_putChar (s : Screen) (hm : con.machine.mem = s.mem) (c : UInt8) :
    wp (putChar c (Int32.ofNat s.x) (Int32.ofNat s.y)) (fun p con' =>
      p = (Int32.ofNat (s.draw c).x, Int32.ofNat (s.draw c).y) ∧
      Draws (s.draw c).mem con con') E con := by
  have hx := s.x_lt
  have hy := s.y_lt
  have hge : Int32.ofNat s.x + 1 ≥ COLS ↔ 80 ≤ s.x + 1 := succ_ge_iff (by omega) (by decide)
  have hcell : (Int32.ofNat s.x + COLS * Int32.ofNat s.y) * 2 =
      Int32.ofNat (cellAt s.y s.x) := by
    rw [cellAt, Int32.ofNat_mul, Int32.ofNat_add, Int32.ofNat_mul]
    rfl
  unfold putChar Screen.draw
  by_cases hc : c = '\n'.toUInt8
  · rw [if_pos hc, if_pos hc, wp_bind]
    refine wp_imp (wp_nextRow s hm) ?_
    rintro _ con' ⟨rfl, h⟩
    rw [wp_pure]
    exact ⟨rfl, h⟩
  rw [if_neg hc, if_neg hc, hcell, wp_bind]
  refine wp_imp (wp_storeVideo (by rw [cellAt]; omega) (by rw [cellAt]; omega) c)
    fun _ con₁ h₁ => ?_
  rw [hm] at h₁
  have hm₁ : con₁.machine.mem = (s.write c).mem := by
    rw [h₁.machine]
    rfl
  by_cases hwrap : s.x + 1 < 80
  · rw [if_neg (by rw [hge]; omega), dif_pos hwrap, wp_pure, ofNat_succ]
    exact ⟨rfl, h₁⟩
  · rw [if_pos (by rw [hge]; omega), dif_neg hwrap, wp_bind]
    refine wp_imp (wp_nextRow (s.write c) hm₁) ?_
    rintro _ con₂ ⟨rfl, h₂⟩
    rw [wp_pure]
    exact ⟨rfl, h₁.trans h₂⟩

end Draw

/-! ## Strings -/

namespace Screen

/-- Print one character after the other. -/
def print (s : Screen) (cs : List UInt8) : Screen := cs.foldl draw s

end Screen

/-- The console with these reads in front of the others. -/
def Console.reading (con : Console) (ks : List Nat) : Console :=
  { con with reads := ks ++ con.reads }

theorem Console.reading_cons (con : Console) (k : Nat) (ks : List Nat) :
    (con.reading ks).reading [k] = con.reading (k :: ks) := rfl

theorem Draws.reading {m : ByteMem} {con con' : Console} (h : Draws m con con') (ks : List Nat) :
    Draws m (con.reading ks) (con'.reading ks) :=
  ⟨h.machine, h.scrInfo, congrArg (ks ++ ·) h.reads, h.stores⟩

section Put

variable {E : Stop → Prop} {con : Console} {s : ByteMem} {k : Nat}

/-- A turn of the loop that finds a character. -/
theorem wp_putNext_char (sc : Screen) (hk : s k ≠ 0) (hm : con.machine.mem = sc.mem) :
    wp (putNext s (k, Int32.ofNat sc.x, Int32.ofNat sc.y)) (fun r con' =>
      r = .inl (k + 1, Int32.ofNat (sc.draw (s k)).x, Int32.ofNat (sc.draw (s k)).y) ∧
      Draws (sc.draw (s k)).mem (con.reading [k]) con') E con := by
  rw [putNext, readChar, bind_assoc, wp_bind, wp_modify, pure_bind, if_pos hk, wp_bind]
  have hm' : (con.reading [k]).machine.mem = sc.mem := hm
  refine wp_imp (wp_putChar sc hm' (s k)) ?_
  rintro _ con' ⟨rfl, h⟩
  rw [wp_pure]
  exact ⟨rfl, h⟩

/-- The turn that finds the NUL. -/
theorem wp_putNext_nul (hk : s k = 0) (x y : Int32) :
    wp (putNext s (k, x, y)) (fun r con' => r = .inr (x, y) ∧ con' = con.reading [k]) E con := by
  rw [putNext, readChar, bind_assoc, wp_bind, wp_modify, pure_bind,
    if_neg (not_not_intro hk), wp_pure]
  exact ⟨rfl, rfl⟩

/-- The text of the string in the memory from `s` on, if its NUL is at `n`. -/
def textOf (s : ByteMem) (n : Nat) : List UInt8 := (List.range n).map s

theorem print_textOf_succ (sc : Screen) (s : ByteMem) (n : Nat) :
    sc.print (textOf s (n + 1)) = (sc.print (textOf s n)).draw (s n) := by
  rw [textOf, List.range_succ, List.map_append, Screen.print, List.foldl_append]
  rfl

theorem reverse_range_succ (n : Nat) :
    (List.range (n + 1)).reverse = n :: (List.range n).reverse := by
  rw [List.range_succ, List.reverse_append]
  rfl

/-- The loop of `putstr` prints the text, and reads it with its NUL. -/
theorem wp_putLoop {n : Nat} (hne : ∀ k, k < n → s k ≠ 0) (hnul : s n = 0) (hn : n < 2 ^ 64)
    (sc : Screen) (hm : con.machine.mem = sc.mem) :
    wp (loop .hang (putNext s) LONG_FUEL (0, Int32.ofNat sc.x, Int32.ofNat sc.y))
      (fun p con' => p = (Int32.ofNat (sc.print (textOf s n)).x,
          Int32.ofNat (sc.print (textOf s n)).y) ∧
        Draws (sc.print (textOf s n)).mem (con.reading (List.range (n + 1)).reverse) con')
      E con := by
  have hinit : Draws (sc.print (textOf s 0)).mem (con.reading (List.range 0).reverse) con :=
    hm ▸ Draws.refl con
  refine wp_loop (fun i con' => ∃ k, k ≤ n ∧ i = (k, Int32.ofNat (sc.print (textOf s k)).x,
      Int32.ofNat (sc.print (textOf s k)).y) ∧
      Draws (sc.print (textOf s k)).mem (con.reading (List.range k).reverse) con')
    (fun i => n - i.1) ?_ _ _ _ ⟨0, Nat.zero_le n, rfl, hinit⟩
    (Nat.lt_of_le_of_lt (Nat.sub_le n 0) (Nat.lt_succ_of_lt hn))
  rintro _ con' ⟨k, hk, rfl, h⟩
  have hm' : con'.machine.mem = (sc.print (textOf s k)).mem := by
    rw [h.machine]
  have hread := h.reading [k]
  rw [Console.reading_cons, ← reverse_range_succ] at hread
  by_cases hlt : k < n
  · refine wp_imp (wp_putNext_char (sc.print (textOf s k)) (hne k hlt) hm') ?_
    rintro _ con'' ⟨rfl, h'⟩
    rw [← print_textOf_succ] at h' ⊢
    exact ⟨⟨k + 1, hlt, rfl, hread.trans h'⟩, Nat.sub_lt_sub_left hlt (Nat.lt_succ_self k)⟩
  · obtain rfl : k = n := Nat.le_antisymm hk (Nat.le_of_not_lt hlt)
    refine wp_imp (wp_putNext_nul hnul _ _) ?_
    rintro _ _ ⟨rfl, rfl⟩
    exact ⟨rfl, hread⟩

end Put

/-- Between two calls of `putstr` the console has this screen. -/
structure Console.HasScreen (con : Console) (sc : Screen) : Prop where
  mem : con.machine.mem = sc.mem
  scrInfo : con.scrInfo = { origX := Int32.ofNat sc.x, origY := Int32.ofNat sc.y }

/-- Calls of `putstr` lead to the screen `sc`. -/
structure Puts (sc : Screen) (con con' : Console) : Prop where
  screen : con'.HasScreen sc
  machine : con'.machine = { con.machine with mem := sc.mem }
  stores : StoresCells con con'

theorem Puts.refl {sc : Screen} {con : Console} (h : con.HasScreen sc) : Puts sc con con :=
  ⟨h, by rw [← h.mem], .of_eq rfl⟩

theorem Puts.trans {sc sc' : Screen} {con con' con'' : Console} (h : Puts sc con con')
    (h' : Puts sc' con' con'') : Puts sc' con con'' :=
  ⟨h'.screen, by rw [h'.machine, h.machine], h.stores.trans h'.stores⟩

section Putstr

variable {E : Stop → Prop} {con con' : Console} {sc : Screen}

/-- `putstr` prints the text of its string, and reads it with its NUL. -/
theorem wp_putstr {s : ByteMem} {n : Nat} (hne : ∀ k, k < n → s k ≠ 0) (hnul : s n = 0)
    (hn : n < 2 ^ 64) (h : con.HasScreen sc) :
    wp (putstr s) (fun _ con' => Puts (sc.print (textOf s n)) con con' ∧
      con'.reads = (List.range (n + 1)).reverse ++ con.reads) E con := by
  rw [putstr, wp_bind, wp_get, h.scrInfo, wp_bind]
  refine wp_imp (wp_putLoop hne hnul hn sc h.mem) ?_
  rintro _ con' ⟨rfl, hdraws⟩
  rw [wp_modify]
  exact ⟨⟨⟨by rw [hdraws.machine], rfl⟩, hdraws.machine, hdraws.stores⟩, hdraws.reads⟩

theorem CString.mem_ne_zero (s : CString) {k : Nat} (hk : k < s.chars.length) :
    s.mem k ≠ 0 := by
  intro hz
  refine s.nul ?_
  rw [← hz, CString.mem, List.getD_eq_getElem?_getD, List.getElem?_eq_getElem hk]
  exact List.getElem_mem hk

theorem CString.mem_length (s : CString) : s.mem s.chars.length = 0 := by
  rw [CString.mem, List.getD_eq_getElem?_getD, List.getElem?_eq_none (Nat.le_refl _)]
  rfl

theorem CString.textOf_mem (s : CString) : textOf s.mem s.chars.length = s.chars := by
  refine List.ext_getElem (by rw [textOf, List.length_map, List.length_range]) fun k h₁ h₂ => ?_
  simp [textOf, CString.mem, h₂]

/-- A sequence of strings is printed as one text. -/
theorem wp_putstrs (ss : List CString) (h : con.HasScreen sc) :
    wp (putstrs ss) (fun _ con' => Puts (sc.print (ss.flatMap CString.chars)) con con') E con := by
  refine wp_forEach (fun pre con' => Puts (sc.print (pre.flatMap CString.chars)) con con')
    (Puts.refl h) fun pre s con₁ _ h₁ => ?_
  refine wp_imp (wp_putstr (fun k hk => s.mem_ne_zero hk) s.mem_length s.length_lt h₁.screen)
    fun _ con₂ h₂ => ?_
  have htext : sc.print ((pre ++ [s]).flatMap CString.chars) =
      (sc.print (pre.flatMap CString.chars)).print (textOf s.mem s.chars.length) := by
    rw [s.textOf_mem, List.flatMap_append, List.flatMap_singleton, Screen.print,
      List.foldl_append]
    rfl
  rw [htext]
  exact h₁.trans h₂.1

/-- In the loop of `putstr` the cursor is on a screen, and the string is read as far as
the position. -/
def PutAt (con : Console) (i : Nat × Int32 × Int32) (con' : Console) : Prop :=
  ∃ sc : Screen, i.2 = (Int32.ofNat sc.x, Int32.ofNat sc.y) ∧ con'.machine.mem = sc.mem ∧
    con'.reads = (List.range i.1).reverse ++ con.reads

theorem PutAt.start (h : con.HasScreen sc) :
    PutAt con (0, con.scrInfo.origX, con.scrInfo.origY) con :=
  ⟨sc, by rw [h.scrInfo], h.mem, rfl⟩

theorem PutAt.next {s : ByteMem} {i : Nat × Int32 × Int32} (h : PutAt con i con') :
    wp (putNext s i) (fun r con'' =>
      match r with
      | .inl j => PutAt con j con''
      | .inr _ => s i.1 = 0 ∧ con''.reads = (List.range (i.1 + 1)).reverse ++ con.reads)
      E con' := by
  obtain ⟨sc, hcur, hm, hreads⟩ := h
  obtain ⟨k, x, y⟩ := i
  obtain ⟨rfl, rfl⟩ := Prod.mk.inj hcur
  have hread : (con'.reading [k]).reads = (List.range (k + 1)).reverse ++ con.reads := by
    rw [reverse_range_succ, Console.reading, hreads]
    rfl
  by_cases hk : s k = 0
  · refine wp_imp (wp_putNext_nul hk _ _) ?_
    rintro _ _ ⟨rfl, rfl⟩
    exact ⟨hk, hread⟩
  · refine wp_imp (wp_putNext_char sc hk hm) ?_
    rintro _ con'' ⟨rfl, hdraws⟩
    exact ⟨sc.draw (s k), rfl, by rw [hdraws.machine], hdraws.reads.trans hread⟩

/-- Wherever the loop of `putstr` comes to, the cursor is on a screen. -/
theorem putNext_reaches {s : ByteMem} {i : Nat × Int32 × Int32} (h : con.HasScreen sc)
    (hreach : Reaches (putNext s) (0, con.scrInfo.origX, con.scrInfo.origY) con i con') :
    PutAt con i con' := by
  induction hreach with
  | start => exact .start h
  | next _ hstep ih => exact wp_ok (ih.next (E := fun _ => True)) hstep

/-- If `putstr` returns, it has read a NUL, and everything before it. -/
theorem putstr_reads {s : ByteMem} (h : con.HasScreen sc)
    (hrun : putstr s con = .ok ((), con')) :
    ∃ n, s n = 0 ∧ con'.reads = (List.range (n + 1)).reverse ++ con.reads := by
  have hloop : wp (loop .hang (putNext s) LONG_FUEL (0, con.scrInfo.origX, con.scrInfo.origY))
      (fun _ con' => ∃ n, s n = 0 ∧ con'.reads = (List.range (n + 1)).reverse ++ con.reads)
      (fun _ => True) con := by
    refine wp_loop_partial (PutAt con) trivial ?_ _ _ _ (.start h)
    intro i con₁ hat
    refine wp_imp hat.next fun r con₂ hr => ?_
    cases r with
    | inl j => exact hr
    | inr p => exact ⟨i.1, hr⟩
  have hput : wp (putstr s)
      (fun _ con' => ∃ n, s n = 0 ∧ con'.reads = (List.range (n + 1)).reverse ++ con.reads)
      (fun _ => True) con := by
    rw [putstr, wp_bind, wp_get, wp_bind]
    refine wp_imp hloop ?_
    rintro ⟨x, y⟩ con₁ hreads
    rw [wp_modify]
    exact hreads
  exact wp_ok hput hrun

end Putstr

/-! ## The terminal -/

/-- The screen shows the window of the terminal. -/
structure Screen.Shows (sc : Screen) (t : Terminal UInt8) : Prop where
  inWindow : t.InWindow 80 25
  blankBelow : t.BlankBelow 25 ' '.toUInt8
  x : sc.x = t.col
  y : sc.y = t.row - t.top
  cells : ∀ r c, r < 25 → c < 80 → sc.mem (0xb8000 + cellAt r c) = t.window r c

/-- Two cells with the same character are one cell. -/
theorem cellAt_eq_iff {r c r' c' : Nat} (hc : c < 80) (hc' : c' < 80) :
    cellAt r c = cellAt r' c' ↔ r = r' ∧ c = c' := by
  unfold cellAt
  omega

/-- The rows move up by one, and a blank row comes in. -/
theorem scrolled_cell (m : ByteMem) {r c : Nat} (hr : r < 25) (hc : c < 80) :
    scrolled m (0xb8000 + cellAt r c) =
      if r + 1 < 25 then m (0xb8000 + cellAt (r + 1) c) else ' '.toUInt8 := by
  unfold scrolled blankCells
  by_cases hlast : r + 1 < 25
  · rw [if_neg (by rw [cellAt]; omega), if_pos hlast,
      ByteMem.copy_add (by rw [cellAt]; omega)]
    congr 1
    unfold cellAt
    omega
  · rw [if_pos (by rw [cellAt]; omega), if_neg hlast]

namespace Screen.Shows

variable {sc : Screen} {t : Terminal UInt8}

theorem nextRow (h : sc.Shows t) : sc.nextRow.Shows (t.nextLine 25) := by
  have htop := h.inWindow.top_le
  have hy := h.y
  refine ⟨h.inWindow.nextLine, h.blankBelow.nextLine, rfl, ?_, ?_⟩
  · show (if sc.y + 1 < 25 then sc.y + 1 else sc.y) =
      t.row + 1 - if t.row + 1 < t.top + 25 then t.top else t.top + 1
    split_ifs <;> omega
  · intro r c hr hc
    show (if sc.y + 1 < 25 then sc.mem else scrolled sc.mem) _ = _
    by_cases hlt : t.row + 1 < t.top + 25
    · rw [if_pos (by omega), (Terminal.window_nextLine_of_lt hlt).2]
      exact h.cells r c hr hc
    · obtain ⟨-, hshift, hblank⟩ := Terminal.window_nextLine_of_ge hlt h.blankBelow
      rw [if_neg (by omega), scrolled_cell sc.mem hr hc, hshift]
      split_ifs with hlast
      · exact h.cells (r + 1) c hlast hc
      · rw [show r + 1 = 25 by omega, hblank]

theorem write (h : sc.Shows t) (a : UInt8) : (sc.write a).Shows (t.write a) := by
  refine ⟨h.inWindow.write a, h.blankBelow.write h.inWindow a, h.x, h.y, fun r c hr hc => ?_⟩
  have hx := sc.x_lt
  rw [Terminal.window_write h.inWindow.top_le, ← h.x, ← h.y]
  show ByteMem.fill _ _ _ _ _ = _
  by_cases hcell : r = sc.y ∧ c = sc.x
  · obtain ⟨rfl, rfl⟩ := hcell
    rw [if_pos ⟨rfl, rfl⟩, ByteMem.fill_of_mem (Set.mem_Ico.mpr (by omega))]
  · have hne := (not_congr (cellAt_eq_iff hc hx)).mpr hcell
    rw [if_neg hcell, ByteMem.fill_of_notMem (by rw [Set.mem_Ico]; omega)]
    exact h.cells r c hr hc

/-- One character. -/
theorem draw (h : sc.Shows t) (a : UInt8) :
    (sc.draw a).Shows (t.type 80 25 '\n'.toUInt8 a) := by
  rw [Screen.draw, Terminal.type, Terminal.put, ← h.x]
  split_ifs with hnl hwrap
  · exact h.nextRow
  · have hw := h.write a
    exact ⟨⟨hwrap, hw.inWindow.top_le, hw.inWindow.row_lt⟩, hw.blankBelow, rfl, hw.y, hw.cells⟩
  · exact (h.write a).nextRow

/-- A text, character by character. -/
theorem print (h : sc.Shows t) (as : List UInt8) :
    (sc.print as).Shows (t.print 80 25 '\n'.toUInt8 as) := by
  induction as generalizing sc t with
  | nil => exact h
  | cons a as ih => exact ih (h.draw a)

end Screen.Shows

/-- The cursor is on the screen. -/
def OnScreen (x y : Int32) : Prop := 0 ≤ x ∧ x < COLS ∧ 0 ≤ y ∧ y < LINES

instance (x y : Int32) : Decidable (OnScreen x y) := inferInstanceAs (Decidable (_ ∧ _))

theorem Screen.onScreen (sc : Screen) : OnScreen (Int32.ofNat sc.x) (Int32.ofNat sc.y) := by
  have hx := sc.x_lt
  have hy := sc.y_lt
  exact ⟨(Int32.ofNat_le_iff_le (by decide) (by omega)).mpr (Nat.zero_le _),
    (Int32.ofNat_lt_iff_lt (by omega) (by decide)).mpr hx,
    (Int32.ofNat_le_iff_le (by decide) (by omega)).mpr (Nat.zero_le _),
    (Int32.ofNat_lt_iff_lt (by omega) (by decide)).mpr hy⟩

theorem ofNat_toNatClampNeg {x : Int32} {n : Nat} (h : 0 ≤ x) (hn : n < 2 ^ 31)
    (hlt : x < Int32.ofNat n) : Int32.ofNat x.toNatClampNeg = x ∧ x.toNatClampNeg < n := by
  have hx : Int32.ofNat x.toNatClampNeg = x := Int32.ofNat_toNatClampNeg x h
  refine ⟨hx, (Int32.ofNat_lt_iff_lt ?_ hn).mp (by rwa [hx])⟩
  exact Int32.toNatClampNeg_lt x

/-- The terminal that shows what is on the screen, with the cursor where it is. -/
def Console.terminal (con : Console) : Terminal UInt8 :=
  Terminal.ofScreen 25 ' '.toUInt8 (fun r c => con.machine.mem (0xb8000 + cellAt r c))
    con.scrInfo.origY.toNatClampNeg con.scrInfo.origX.toNatClampNeg

/-- The screen of a console whose cursor is on it. -/
theorem Console.exists_screen {con : Console} (h : OnScreen con.scrInfo.origX con.scrInfo.origY) :
    ∃ sc, con.HasScreen sc ∧ sc.Shows con.terminal := by
  obtain ⟨hx, hx', hy, hy'⟩ := h
  obtain ⟨hxeq, hxlt⟩ := ofNat_toNatClampNeg hx (by decide) (show _ < Int32.ofNat 80 from hx')
  obtain ⟨hyeq, hylt⟩ := ofNat_toNatClampNeg hy (by decide) (show _ < Int32.ofNat 25 from hy')
  refine ⟨⟨con.machine.mem, _, _, hxlt, hylt⟩, ⟨rfl, ?_⟩,
    Terminal.ofScreen_inWindow hylt hxlt, Terminal.ofScreen_blankBelow _ _ _, rfl, rfl, ?_⟩
  · rw [hxeq, hyeq]
  · intro r c hr _
    rw [Console.terminal, Terminal.window_ofScreen hr]

/-- The cells of the console and its cursor are those of the window. -/
structure Console.Shows (con : Console) (t : Terminal UInt8) : Prop where
  cells : ∀ r c, r < 25 → c < 80 →
    con.machine.mem (0xb8000 + cellAt r c) = t.window r c
  x : con.scrInfo.origX = Int32.ofNat t.col
  y : con.scrInfo.origY = Int32.ofNat (t.row - t.top)

theorem Console.HasScreen.shows {con : Console} {sc : Screen} {t : Terminal UInt8}
    (h : con.HasScreen sc) (hsc : sc.Shows t) : con.Shows t :=
  ⟨fun r c hr hc => by rw [h.mem, hsc.cells r c hr hc], by rw [h.scrInfo, hsc.x],
    by rw [h.scrInfo, hsc.y]⟩

/-- The text of a sequence of strings. -/
def textOfAll (ss : List CString) : List UInt8 := ss.flatMap CString.chars

/-- Every sequence of calls of `putstr` leaves the window of a terminal on the screen,
with the cursor on the screen between any two characters and with stores to characters
only, apart from the row moves.  How a text is split into strings makes no difference. -/
theorem putstrs_shows {con : Console} (h : OnScreen con.scrInfo.origX con.scrInfo.origY)
    (ss : List CString) : ∃ con', putstrs ss con = .ok ((), con') ∧
      con'.Shows (con.terminal.print 80 25 '\n'.toUInt8 (textOfAll ss)) ∧
      StoresCells con con' ∧
      (∀ pre s post con₁, ss = pre ++ s :: post → putstrs pre con = .ok ((), con₁) →
        ∀ k x y con₂, Reaches (putNext s.mem) (0, con₁.scrInfo.origX, con₁.scrInfo.origY) con₁
          (k, x, y) con₂ → OnScreen x y) ∧
      ∀ ss', textOfAll ss' = textOfAll ss → ∃ con'', putstrs ss' con = .ok ((), con'') ∧
        con''.machine = con'.machine ∧ con''.scrInfo = con'.scrInfo := by
  obtain ⟨sc, hsc, hshows⟩ := Console.exists_screen h
  have hrun := fun ss => exists_ok_of_wp (wp_putstrs (E := fun _ => False) ss hsc)
  obtain ⟨_, con', hok, hputs⟩ := hrun ss
  refine ⟨con', hok, hputs.screen.shows (hshows.print _), hputs.stores, ?_, ?_⟩
  · rintro pre s post con₁ rfl hpre k x y con₂ hreach
    have hputs₁ := wp_ok (wp_putstrs (E := fun _ => True) pre hsc) hpre
    obtain ⟨sc', hcur, -, -⟩ := putNext_reaches hputs₁.screen hreach
    obtain ⟨rfl, rfl⟩ := Prod.mk.inj hcur
    exact sc'.onScreen
  · intro ss' htext
    obtain ⟨_, con'', hok', hputs'⟩ := hrun ss'
    rw [show ss'.flatMap CString.chars = ss.flatMap CString.chars from htext] at hputs'
    exact ⟨con'', hok', hputs'.machine.trans hputs.machine.symm,
      hputs'.screen.scrInfo.trans hputs.screen.scrInfo.symm⟩

/-- A screen full of the letter X, with the cursor in its first cell. -/
def filledConsole : Console where
  machine :=
    { mem := fun _ => 'X'.toUInt8
      nalloc := { allocBitmap := 0, maxPage := 0 }
      handedOut := [] }
  scrInfo := { origX := 0, origY := 0 }
  stores := []
  reads := []

def newlineString : CString where
  chars := ['\n'.toUInt8]
  nul := by decide
  length_lt := by decide

/-- A newline keeps what the next row shows. -/
theorem sample_putstrs_shows : ∃ con', putstrs [newlineString] filledConsole = .ok ((), con') ∧
    con'.scrInfo = { origX := 0, origY := 1 } ∧
    con'.machine.mem (0xb8000 + cellAt 1 0) = 'X'.toUInt8 := by
  have hcur : OnScreen filledConsole.scrInfo.origX filledConsole.scrInfo.origY := by decide
  obtain ⟨con', hrun, hshows, -⟩ := putstrs_shows hcur [newlineString]
  refine ⟨con', hrun, ?_, hshows.cells 1 0 (by decide) (by decide)⟩
  calc con'.scrInfo = ⟨con'.scrInfo.origX, con'.scrInfo.origY⟩ := rfl
    _ = ⟨0, 1⟩ := by rw [hshows.x, hshows.y]; rfl

/-- The cursor goes to the next row, which becomes blank. -/
def blankLine (t : Terminal UInt8) : Terminal UInt8 :=
  { t.nextLine 25 with
    page := Function.update t.page (t.row + 1) fun _ => ' '.toUInt8 }

/-- `Terminal.print`, except that every newline starts a blank row. -/
def printBlankLines (as : List UInt8) (t : Terminal UInt8) : Terminal UInt8 :=
  as.foldl (fun t a => if a = '\n'.toUInt8 then blankLine t else t.put 80 25 a) t

/-- The next row does not become blank. -/
theorem putstrs_not_blankLine : ∃ con', putstrs [newlineString] filledConsole = .ok ((), con') ∧
    ¬con'.Shows (printBlankLines newlineString.chars filledConsole.terminal) := by
  have hcur : OnScreen filledConsole.scrInfo.origX filledConsole.scrInfo.origY := by decide
  obtain ⟨sc, hsc, hshows⟩ := Console.exists_screen hcur
  obtain ⟨_, con', hrun, hputs⟩ :=
    exists_ok_of_wp (wp_putstrs (E := fun _ => False) [newlineString] hsc)
  refine ⟨con', hrun, fun hblank => ?_⟩
  have hcell := hblank.cells 1 0 (by decide) (by decide)
  rw [(hputs.screen.shows (hshows.print _)).cells 1 0 (by decide) (by decide)] at hcell
  exact absurd (show 'X'.toUInt8 = ' '.toUInt8 from hcell) (by decide)

end Tvmm
