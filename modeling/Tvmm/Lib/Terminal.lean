import Mathlib.Tactic.Common

/-!
# A terminal

The page of a terminal has rows without end, of which a window shows `lines`.  A
character goes to the cell of the cursor, and the cursor to the next cell, from the
last one of `cols` cells to the next row.  A newline goes to the next row as well.
When the next row lies below the window, the window shifts by one row.  So what has
been printed stays on the page, and the window shows the last rows of it.

* `InWindow`: the cursor stays in the window;
* `BlankBelow`: nothing is printed below the window;
* `window_nextLine_of_lt`, `window_nextLine_of_ge`, `window_write`: what one step does to the
  window;
* `print_lines`: lines that fit are shown one below the other.
-/

/-- The page, the first row of the window, and the cursor. -/
structure Terminal (α : Type) where
  page : Nat → Nat → α
  top : Nat
  row : Nat
  col : Nat

namespace Terminal

variable {α : Type}

/-- What the window shows. -/
def window (t : Terminal α) (r c : Nat) : α := t.page (t.top + r) c

section Steps

variable (cols lines : Nat)

/-- The cursor goes to the next row. -/
def nextLine (t : Terminal α) : Terminal α where
  page := t.page
  top := if t.row + 1 < t.top + lines then t.top else t.top + 1
  row := t.row + 1
  col := 0

/-- The cell of the cursor becomes `a`. -/
def write (a : α) (t : Terminal α) : Terminal α :=
  { t with page := Function.update t.page t.row (Function.update (t.page t.row) t.col a) }

/-- Print `a`. -/
def put (a : α) (t : Terminal α) : Terminal α :=
  if t.col + 1 < cols then { t.write a with col := t.col + 1 } else (t.write a).nextLine lines

/-- A character that is printed, or a newline. -/
def type [DecidableEq α] (newline a : α) (t : Terminal α) : Terminal α :=
  if a = newline then t.nextLine lines else t.put cols lines a

/-- Print one character after the other. -/
def print [DecidableEq α] (newline : α) (as : List α) (t : Terminal α) : Terminal α :=
  as.foldl (fun t a => t.type cols lines newline a) t

/-- The cursor lies in the window. -/
structure InWindow (t : Terminal α) : Prop where
  col_lt : t.col < cols
  top_le : t.top ≤ t.row
  row_lt : t.row < t.top + lines

/-- The page is blank below the window. -/
def BlankBelow (blank : α) (t : Terminal α) : Prop :=
  ∀ r c, t.top + lines ≤ r → t.page r c = blank

end Steps

variable {cols lines : Nat} {t : Terminal α} {a blank : α}

/-! ## The cursor -/

theorem InWindow.nextLine (h : InWindow cols lines t) :
    InWindow cols lines (t.nextLine lines) := by
  have hcol := h.col_lt
  have htop := h.top_le
  have hrow := h.row_lt
  unfold Terminal.nextLine
  constructor
  · exact Nat.zero_lt_of_lt hcol
  · dsimp only
    split_ifs <;> omega
  · dsimp only
    split_ifs <;> omega

theorem InWindow.write (h : InWindow cols lines t) (a : α) : InWindow cols lines (t.write a) :=
  ⟨h.col_lt, h.top_le, h.row_lt⟩

theorem InWindow.put (h : InWindow cols lines t) (a : α) :
    InWindow cols lines (t.put cols lines a) := by
  unfold Terminal.put
  split_ifs with hlt
  · exact ⟨hlt, h.top_le, h.row_lt⟩
  · exact (h.write a).nextLine

/-! ## Below the window -/

theorem BlankBelow.nextLine (h : BlankBelow lines blank t) :
    BlankBelow lines blank (t.nextLine lines) := by
  intro r c hr
  refine h r c (Nat.le_trans ?_ hr)
  unfold Terminal.nextLine
  dsimp only
  split_ifs <;> omega

theorem BlankBelow.write (h : BlankBelow lines blank t) (hw : InWindow cols lines t) (a : α) :
    BlankBelow lines blank (t.write a) := by
  intro r c hr
  have hrow := hw.row_lt
  have hr' : t.top + lines ≤ r := hr
  unfold Terminal.write
  dsimp only
  rw [Function.update_of_ne (by omega)]
  exact h r c hr

theorem BlankBelow.put (h : BlankBelow lines blank t) (hw : InWindow cols lines t) (a : α) :
    BlankBelow lines blank (t.put cols lines a) := by
  unfold Terminal.put
  split_ifs
  · exact h.write hw a
  · exact (h.write hw a).nextLine

/-! ## The window -/

/-- The next row is in the window. -/
theorem window_nextLine_of_lt (h : t.row + 1 < t.top + lines) :
    (t.nextLine lines).top = t.top ∧ (t.nextLine lines).window = t.window := by
  have htop : (t.nextLine lines).top = t.top := if_pos h
  refine ⟨htop, ?_⟩
  funext r c
  rw [window, htop]
  rfl

/-- The window shifts by one row, and a blank row comes in. -/
theorem window_nextLine_of_ge (h : ¬t.row + 1 < t.top + lines)
    (hblank : BlankBelow lines blank t) :
    (t.nextLine lines).top = t.top + 1 ∧
      (∀ r c, (t.nextLine lines).window r c = t.window (r + 1) c) ∧
      ∀ c, t.window lines c = blank := by
  have htop : (t.nextLine lines).top = t.top + 1 := if_neg h
  refine ⟨htop, fun r c => ?_, fun c => hblank _ c (Nat.le_refl _)⟩
  rw [window, window, htop, Nat.add_assoc, Nat.add_comm 1 r]
  rfl

theorem window_write (h : t.top ≤ t.row) (r c : Nat) :
    (t.write a).window r c = if r = t.row - t.top ∧ c = t.col then a else t.window r c := by
  rw [window, window, write]
  dsimp only
  by_cases hr : t.top + r = t.row
  · rw [hr, Function.update_self, Function.update_apply]
    exact if_congr ⟨fun hc => ⟨by omega, hc⟩, fun hc => hc.2⟩ rfl rfl
  · rw [Function.update_of_ne hr, if_neg (by omega)]

/-! ## Lines -/

/-- A row that starts with `as` and is blank behind it. -/
def lineRow (blank : α) (as : List α) : Nat → α := fun c => as.getD c blank

/-- The page is blank from row `r₀` on. -/
def BlankFrom (blank : α) (r₀ : Nat) (t : Terminal α) : Prop :=
  ∀ r, r₀ ≤ r → t.page r = fun _ => blank

theorem lineRow_concat (as : List α) (a : α) :
    lineRow blank (as ++ [a]) = Function.update (lineRow blank as) as.length a := by
  funext c
  unfold lineRow
  rw [Function.update_apply, List.getD_eq_getElem?_getD, List.getD_eq_getElem?_getD,
    List.getElem?_append]
  split_ifs with hlt heq heq
  · omega
  · rfl
  · simp [heq]
  · rw [List.getElem?_eq_none (by simp; omega), List.getElem?_eq_none (by omega)]

/-- The window stays where it is, or the cursor is in its last row. -/
theorem InWindow.top_nextLine (h : InWindow cols lines t) :
    (t.nextLine lines).top = t.top ∨
      (t.nextLine lines).row + 1 = (t.nextLine lines).top + lines := by
  have hrow := h.row_lt
  unfold Terminal.nextLine
  dsimp only
  split_ifs <;> omega

/-- What printing `ls`, each of them with a newline, does to a page that is blank from the
cursor on. -/
structure PrintsLines (cols lines : Nat) (blank : α) (ls : List (List α))
    (t t' : Terminal α) : Prop where
  inWindow : InWindow cols lines t'
  row : t'.row = t.row + ls.length
  col : t'.col = 0
  top : t'.top = t.top ∨ t'.row + 1 = t'.top + lines
  shown : ∀ k (hk : k < ls.length), t'.page (t.row + k) = lineRow blank ls[k]
  above : ∀ r < t.row, t'.page r = t.page r

/-- As long as the window is higher than the text, all of the text is in it. -/
theorem PrintsLines.window {ls : List (List α)} {t' : Terminal α}
    (h : PrintsLines cols lines blank ls t t') (hw : InWindow cols lines t)
    (hlen : ls.length < lines) :
    ls.length ≤ t'.row - t'.top ∧ ∀ k (hk : k < ls.length),
      t'.window (t'.row - t'.top - ls.length + k) = lineRow blank ls[k] := by
  have hrow := h.row
  have htop := hw.top_le
  have hle : t'.top ≤ t.row := by
    rcases h.top with heq | hlast <;> omega
  refine ⟨by omega, fun k hk => ?_⟩
  rw [← h.shown k hk]
  funext c
  rw [Terminal.window, show t'.top + (t'.row - t'.top - ls.length + k) = t.row + k by omega]

section Print

variable [DecidableEq α] {newline : α}

/-- Characters behind those that are in the row of the cursor. -/
theorem print_chars {as : List α} (hnl : newline ∉ as) (bs : List α) (hcol : t.col = bs.length)
    (hrow : t.page t.row = lineRow blank bs) (hlen : bs.length + as.length < cols) :
    t.print cols lines newline as =
      { page := Function.update t.page t.row (lineRow blank (bs ++ as))
        top := t.top
        row := t.row
        col := bs.length + as.length } := by
  induction as generalizing t bs with
  | nil =>
    obtain ⟨page, top, row, col⟩ := t
    dsimp only at hcol hrow
    rw [List.append_nil, ← hrow, Function.update_eq_self, List.length_nil, Nat.add_zero, ← hcol]
    rfl
  | cons a as ih =>
    rw [List.mem_cons, not_or] at hnl
    rw [List.length_cons] at hlen
    have htype : t.type cols lines newline a = { t.write a with col := t.col + 1 } := by
      unfold Terminal.type Terminal.put
      rw [if_neg (Ne.symm hnl.1), if_pos (by omega)]
    have hpage : (t.write a).page = Function.update t.page t.row (lineRow blank (bs ++ [a])) := by
      rw [lineRow_concat, ← hrow, ← hcol]
      rfl
    show (t.type cols lines newline a).print cols lines newline as = _
    rw [htype, ih hnl.2 (bs ++ [a])]
    · show Terminal.mk (Function.update (t.write a).page t.row _) _ _ _ = _
      rw [hpage, Function.update_idem, List.append_assoc, List.length_append]
      simp [write, Nat.add_assoc, Nat.add_comm 1]
    · simp [hcol]
    · show (t.write a).page t.row = _
      rw [hpage, Function.update_self]
    · simp
      omega

/-- Lines that are shorter than a row are shown one below the other. -/
theorem print_lines {ls : List (List α)} (hls : ∀ l ∈ ls, newline ∉ l ∧ l.length < cols)
    (hw : InWindow cols lines t) (hcol : t.col = 0) (hblank : BlankFrom blank t.row t) :
    PrintsLines cols lines blank ls t
      (t.print cols lines newline (ls.flatMap fun l => l ++ [newline])) := by
  induction ls generalizing t with
  | nil =>
    constructor
    · exact hw
    · rfl
    · exact hcol
    · exact Or.inl rfl
    · intro k hk
      exact absurd hk (Nat.not_lt_zero k)
    · intro r hr
      rfl
  | cons l ls ih =>
    rw [List.forall_mem_cons] at hls
    obtain ⟨⟨hnl, hlen⟩, hls⟩ := hls
    -- The cursor behind the line, and below it.
    let t₀ : Terminal α :=
      { page := Function.update t.page t.row (lineRow blank l)
        top := t.top
        row := t.row
        col := l.length }
    have hw₀ : InWindow cols lines t₀ := ⟨hlen, hw.top_le, hw.row_lt⟩
    have hchars : t.print cols lines newline l = t₀ := by
      rw [print_chars hnl [] hcol (hblank _ (Nat.le_refl _)) (by simpa using hlen)]
      simp [t₀]
    have hline : t.print cols lines newline (l ++ [newline]) = t₀.nextLine lines := by
      rw [← hchars]
      unfold Terminal.print
      rw [List.foldl_append]
      simp [Terminal.type]
    have hprint : t.print cols lines newline ((l :: ls).flatMap fun l => l ++ [newline]) =
        (t₀.nextLine lines).print cols lines newline (ls.flatMap fun l => l ++ [newline]) := by
      rw [← hline]
      unfold Terminal.print
      rw [List.flatMap_cons, List.foldl_append]
    have hblank₁ : BlankFrom blank (t₀.nextLine lines).row (t₀.nextLine lines) := by
      intro r hr
      have hr : t.row + 1 ≤ r := hr
      show Function.update t.page t.row _ r = _
      rw [Function.update_of_ne (by omega)]
      exact hblank r (by omega)
    have h := ih hls hw₀.nextLine rfl hblank₁
    have hrow : (t₀.nextLine lines).row = t.row + 1 := rfl
    have htop : t₀.top = t.top := rfl
    rw [hprint]
    constructor
    · exact h.inWindow
    · rw [h.row, hrow, List.length_cons, Nat.add_assoc, Nat.add_comm 1]
    · exact h.col
    · -- If the window has shifted for this line, the cursor stays in its last row.
      have hlt := h.inWindow.row_lt
      have hend := h.row
      rcases h.top with heq | hlast
      · rcases hw₀.top_nextLine with heq' | hlast
        · exact Or.inl (heq.trans (heq'.trans htop))
        · right
          omega
      · exact Or.inr hlast
    · intro k hk
      cases k with
      | zero =>
        rw [Nat.add_zero, h.above t.row (Nat.lt_succ_self _)]
        exact Function.update_self _ _ _
      | succ k =>
        have hshown := h.shown k (Nat.lt_of_succ_lt_succ hk)
        rw [hrow, Nat.add_assoc, Nat.add_comm 1] at hshown
        exact hshown
    · intro r hr
      rw [h.above r (Nat.lt_succ_of_lt hr)]
      exact Function.update_of_ne (Nat.ne_of_lt hr) _ _

end Print

/-! ## Starting with a screen -/

/-- A terminal that shows `screen`, with the cursor at `row` and `col`. -/
def ofScreen (lines : Nat) (blank : α) (screen : Nat → Nat → α) (row col : Nat) :
    Terminal α where
  page := fun r c => if r < lines then screen r c else blank
  top := 0
  row := row
  col := col

theorem ofScreen_inWindow {screen : Nat → Nat → α} {row col : Nat} (hrow : row < lines)
    (hcol : col < cols) : InWindow cols lines (ofScreen lines blank screen row col) :=
  ⟨hcol, Nat.zero_le _, by rwa [← Nat.zero_add lines] at hrow⟩

theorem ofScreen_blankBelow (screen : Nat → Nat → α) (row col : Nat) :
    BlankBelow lines blank (ofScreen lines blank screen row col) := by
  intro r c hr
  exact if_neg (Nat.not_lt.mpr (Nat.zero_add lines ▸ hr))

theorem window_ofScreen {screen : Nat → Nat → α} {row col r : Nat} (hr : r < lines) (c : Nat) :
    (ofScreen lines blank screen row col).window r c = screen r c := by
  rw [window, ofScreen]
  dsimp only
  rw [Nat.zero_add, if_pos hr]

end Terminal
