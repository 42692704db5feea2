import Tvmm.Report

/-!
# The report can be read back

`readText` reads the numbers of a `%x` format back from what was printed for it, if
behind every number the format ends or goes on with a character that is no digit:
`vsnprintf_readBack`.  The lines of the report of `handle_vmexit` are of this kind, and
shorter than a row.  `handleVmexit_readable`: on a screen that is blank from the cursor
on, the rows above the cursor afterwards give back every field that was printed.
-/

namespace Tvmm

open Exec CInt

/-! ## Numerals -/

def isHexDigit (c : UInt8) : Bool := DIGITS.contains c

/-- The number that the digits stand for. -/
def hexValue (cs : List UInt8) : UInt64 :=
  cs.foldl (fun n c => 16 * n + UInt64.ofNat (DIGITS.idxOf c)) 0

theorem toNat_and_fifteen (n : UInt64) : (n &&& 0xf).toNat = n.toNat % 16 := by
  rw [UInt64.toNat_and, show (0xf : UInt64).toNat = 2 ^ 4 - 1 from rfl,
    Nat.and_two_pow_sub_one_eq_mod]

/-- One more digit at the end. -/
theorem hexValue_concat (cs : List UInt8) {d : Nat} (hd : d < 16) :
    hexValue (cs ++ [DIGITS.getD d 0]) = 16 * hexValue cs + UInt64.ofNat d := by
  have hidx : ∀ d, d < 16 → DIGITS.idxOf (DIGITS.getD d 0) = d := by decide
  unfold hexValue
  rw [List.foldl_append, List.foldl_cons, List.foldl_nil, hidx d hd]

theorem hexValue_hexNumeral (n : UInt64) : hexValue (hexNumeral n) = n := by
  induction hn : n.toNat using Nat.strong_induction_on generalizing n with
  | _ m ih =>
    have hd := toNat_and_fifteen n
    have hlt : (n &&& 0xf).toNat < 16 := by omega
    have hshift := toNat_shiftRight_four n
    have hn' := n.toNat_lt
    by_cases hz : n >>> 4 = 0
    · rw [hz] at hshift
      rw [hexNumeral_of_eq_zero hz, ← List.nil_append [DIGITS.getD _ _], hexValue_concat _ hlt]
      rw [show hexValue [] = 0 from rfl, show (16 : UInt64) * 0 = 0 from rfl, UInt64.zero_add]
      apply UInt64.toNat_inj.mp
      rw [show (0 : UInt64).toNat = 0 from rfl] at hshift
      rw [UInt64.toNat_ofNat', hd]
      omega
    · have hpos : (n >>> 4).toNat ≠ 0 := fun h => hz (UInt64.toNat_inj.mp h)
      rw [hexNumeral_of_ne_zero hz, hexValue_concat _ hlt, ih _ (by omega) _ rfl]
      apply UInt64.toNat_inj.mp
      rw [UInt64.toNat_add, UInt64.toNat_mul, hshift, UInt64.toNat_ofNat', hd]
      simp
      omega

theorem isHexDigit_of_mem_hexNumeral {n : UInt64} : ∀ c ∈ hexNumeral n, isHexDigit c := by
  have hdigit : ∀ d, d < 16 → isHexDigit (DIGITS.getD d 0) := by decide
  induction hn : n.toNat using Nat.strong_induction_on generalizing n with
  | _ m ih =>
    have hd := toNat_and_fifteen n
    have hlast := hdigit (n &&& 0xf).toNat (by omega)
    by_cases hz : n >>> 4 = 0
    · rw [hexNumeral_of_eq_zero hz]
      simpa using hlast
    · have hpos : (n >>> 4).toNat ≠ 0 := fun h => hz (UInt64.toNat_inj.mp h)
      have hshift := toNat_shiftRight_four n
      rw [hexNumeral_of_ne_zero hz]
      intro c hc
      rcases List.mem_append.mp hc with hc | hc
      · exact ih _ (by omega) rfl c hc
      · rw [List.mem_singleton.mp hc]
        exact hlast

/-! ## Texts -/

namespace Directive

/-- An ordinary character, a `%x` or a `%%`. -/
def isNumeric : Directive → Bool
  | ordinary _ _ => true
  | hex => true
  | percent => true
  | _ => false

/-- It prints a character that is no digit. -/
def isDelimiter : Directive → Bool
  | ordinary ch _ => !isHexDigit ch
  | percent => true
  | _ => false

end Directive

/-- Behind every `%x` the format ends, or goes on with a character that is no digit. -/
def delimited : List Directive → Bool
  | [] => true
  | .hex :: ds => (ds.head?.map Directive.isDelimiter).getD true && delimited ds
  | _ :: ds => delimited ds

/-- Read the numbers of the format from a text that starts with what was printed. -/
def readText : List Directive → List UInt8 → Option (List UInt64)
  | [], _ => some []
  | .ordinary ch _ :: ds, c :: cs => if c = ch then readText ds cs else none
  | .percent :: ds, c :: cs => if c = '%'.toUInt8 then readText ds cs else none
  | .hex :: ds, z :: x :: cs =>
    if z = '0'.toUInt8 ∧ x = 'x'.toUInt8 then do
      let ws ← readText ds (cs.dropWhile isHexDigit)
      return hexValue (cs.takeWhile isHexDigit) :: ws
    else none
  | _, _ => none

/-- The arguments that are printed with `%x`. -/
def hexArgs : List Directive → VaList → List UInt64
  | [], _ => []
  | .hex :: ds, args => (args 0).word :: hexArgs ds (vaNext args)
  | d :: ds, args => hexArgs ds (d.rest args)

/-- The text does not start with a digit. -/
def NoDigit (cs : List UInt8) : Prop := ∀ c ∈ cs.head?, isHexDigit c = false

theorem NoDigit.takeWhile {cs : List UInt8} (h : NoDigit cs) (n : UInt64) :
    (hexNumeral n ++ cs).takeWhile isHexDigit = hexNumeral n ∧
      (hexNumeral n ++ cs).dropWhile isHexDigit = cs := by
  rw [List.takeWhile_append_of_pos isHexDigit_of_mem_hexNumeral,
    List.dropWhile_append_of_pos isHexDigit_of_mem_hexNumeral]
  cases cs with
  | nil => simp
  | cons c cs =>
    have hc := h c rfl
    simp [hc]

/-- What is printed behind a `%x` does not start with a digit. -/
theorem noDigit_expand {ds : List Directive} (hd : delimited (.hex :: ds)) (args : VaList)
    {rest : List UInt8} (hrest : NoDigit rest) : NoDigit (expand ds args ++ rest) := by
  cases ds with
  | nil => exact hrest
  | cons d ds =>
    simp [delimited] at hd
    intro c hc
    cases d with
    | ordinary ch hch =>
      simp [expand, Directive.expand] at hc
      simp [Directive.isDelimiter] at hd
      rw [← hc]
      exact hd.1
    | percent =>
      simp [expand, Directive.expand] at hc
      rw [← hc]
      decide
    | char => simp [Directive.isDelimiter] at hd
    | str => simp [Directive.isDelimiter] at hd
    | hex => simp [Directive.isDelimiter] at hd

/-- Reading what was printed gives back the arguments. -/
theorem readText_expand {ds : List Directive} (hnum : ds.all Directive.isNumeric)
    (hd : delimited ds) (args : VaList) {rest : List UInt8} (hrest : NoDigit rest) :
    readText ds (expand ds args ++ rest) = some (hexArgs ds args) := by
  induction ds generalizing args with
  | nil => rfl
  | cons d ds ih =>
    rw [List.all_cons, Bool.and_eq_true] at hnum
    have htail : delimited ds := by
      cases d with
      | hex =>
        rw [delimited, Bool.and_eq_true] at hd
        exact hd.2
      | _ => exact hd
    have ih := ih hnum.2 htail
    rw [expand, List.append_assoc]
    cases d with
    | ordinary ch hch =>
      simp only [Directive.expand, List.cons_append, List.nil_append]
      rw [readText, if_pos rfl, hexArgs]
      · exact ih _
      · simp
    | percent =>
      simp only [Directive.expand, List.cons_append, List.nil_append]
      rw [readText, if_pos rfl, hexArgs]
      · exact ih _
      · simp
    | hex =>
      obtain ⟨htake, hdrop⟩ := (noDigit_expand hd (vaNext args) hrest).takeWhile (args 0).word
      simp only [Directive.expand, List.cons_append, Directive.rest]
      rw [readText, if_pos ⟨rfl, rfl⟩, htake, hdrop, ih, hexValue_hexNumeral, hexArgs]
      rfl
    | char => cases hnum.1
    | str => cases hnum.1

/-- What `vsnprintf` leaves in a buffer that is large enough, up to the first NUL, gives
back the numbers that were printed. -/
theorem vsnprintf_readBack {fmt : CString} {ds : List Directive} {args : VaList}
    {size : UInt64} (hfmt : IsFormat fmt ds) (hnum : ds.all Directive.isNumeric)
    (hd : delimited ds) (hlen : (expand ds args).length < 2 ^ 31)
    (hsize : (expand ds args).length < size.toNat) (b : CharBuf) :
    ∃ j b' n, vsnprintf size fmt args b = .ok (j, b') ∧ (∀ k, k < n → b'.bytes k ≠ 0) ∧
      b'.bytes n = 0 ∧ readText ds (textOf b'.bytes n) = some (hexArgs ds args) := by
  have hpos : 0 < size := UInt64.lt_iff_toNat_lt.mpr (Nat.zero_lt_of_lt hsize)
  obtain ⟨b', hrun, hprints⟩ := vsnprintf_prints hfmt hpos hlen b
  have hbytes : ∀ k (hk : k < (expand ds args).length), b'.bytes k = (expand ds args)[k] :=
    fun k hk => hprints.bytes_of_lt hk (hk.trans hsize)
  have hchar : Directive.char ∉ ds := fun hmem =>
    absurd (List.all_eq_true.mp hnum _ hmem) (by decide)
  have htext : textOf b'.bytes (expand ds args).length = expand ds args := by
    refine List.ext_getElem (by simp [textOf]) fun k h₁ h₂ => ?_
    rw [← hbytes k h₂]
    simp [textOf]
  refine ⟨_, b', _, hrun, fun k hk hz => ?_, hprints.bytes_length hsize, ?_⟩
  · refine nul_notMem_expand hchar args ?_
    rw [← hz, hbytes k hk]
    exact List.getElem_mem hk
  · have hnil : NoDigit [] := by simp [NoDigit]
    have hread := readText_expand hnum hd args hnil
    rwa [List.append_nil, ← htext] at hread

/-- The format `n=%x` in a buffer of 7 characters. -/
theorem sample_vsnprintf_readBack : ∃ j b' n,
    vsnprintf 7 sampleFormat (wordArgs 0xab) { bytes := fun _ => 1, stores := [] } =
      .ok (j, b') ∧ (∀ k, k < n → b'.bytes k ≠ 0) ∧ b'.bytes n = 0 ∧
      readText sampleDirectives (textOf b'.bytes n) = some [0xab] := by
  have hfmt : IsFormat sampleFormat sampleDirectives := rfl
  have hsize : (expand sampleDirectives (wordArgs 0xab)).length < (7 : UInt64).toNat := by decide
  exact vsnprintf_readBack hfmt (by decide) (by decide) (by decide) hsize _

/-! ## Lines -/

/-- The text in front of a number, or behind the last one. -/
abbrev Label := { cs : List UInt8 // 0 ∉ cs ∧ '%'.toUInt8 ∉ cs ∧ '\n'.toUInt8 ∉ cs }

def Label.directives (l : Label) : List Directive :=
  Directive.ordinaries l.1 l.2.1 l.2.2.1

/-- The format of a line: a `%x` behind each of the labels `ls`, and `tail` at the end. -/
def lineFormat : List Label → Label → List Directive
  | [], tail => tail.directives
  | l :: ls, tail => l.directives ++ .hex :: lineFormat ls tail

/-- The numbers of the line can be read back, and it is shorter than a row. -/
def IsLine (ls : List Label) (tail : Label) : Prop :=
  delimited (lineFormat ls tail) ∧ (ls.map fun l => l.1.length + 18).sum + tail.1.length < 80

instance (ls : List Label) (tail : Label) : Decidable (IsLine ls tail) :=
  inferInstanceAs (Decidable (_ ∧ _))

/-- A line with its numbers. -/
structure Line where
  labels : List Label
  tail : Label
  words : List UInt64
  isLine : IsLine labels tail
  length_eq : words.length = labels.length

/-- What is printed for the line, up to the newline. -/
def lineText : List Label → List UInt64 → Label → List UInt8
  | l :: ls, w :: ws, tail => l.1 ++ (hex w ++ lineText ls ws tail)
  | _, _, tail => tail.1

section LineText

variable {ls : List Label} {ws : List UInt64} {tail : Label}

theorem expand_ordinaries (cs : List UInt8) (h : 0 ∉ cs) (h' : '%'.toUInt8 ∉ cs)
    (ds : List Directive) (args : VaList) :
    expand (Directive.ordinaries cs h h' ++ ds) args = cs ++ expand ds args := by
  induction cs with
  | nil => rfl
  | cons c cs ih =>
    have hcs := ih (fun hmem => h (List.mem_cons_of_mem _ hmem))
      (fun hmem => h' (List.mem_cons_of_mem _ hmem))
    exact congrArg (c :: ·) hcs

theorem hexArgs_ordinaries (cs : List UInt8) (h : 0 ∉ cs) (h' : '%'.toUInt8 ∉ cs)
    (ds : List Directive) (args : VaList) :
    hexArgs (Directive.ordinaries cs h h' ++ ds) args = hexArgs ds args := by
  induction cs with
  | nil => rfl
  | cons c cs ih =>
    exact ih (fun hmem => h (List.mem_cons_of_mem _ hmem))
      (fun hmem => h' (List.mem_cons_of_mem _ hmem))

theorem isNumeric_ordinaries (cs : List UInt8) (h : 0 ∉ cs) (h' : '%'.toUInt8 ∉ cs) :
    (Directive.ordinaries cs h h').all Directive.isNumeric := by
  rw [List.all_eq_true]
  intro d hd
  obtain ⟨c, _, rfl⟩ := List.mem_pmap.mp hd
  rfl

/-- The format prints the line. -/
theorem expand_lineFormat (hlen : ws.length = ls.length) :
    expand (lineFormat ls tail) (Format.args ws) = lineText ls ws tail ∧
      hexArgs (lineFormat ls tail) (Format.args ws) = ws := by
  induction ls generalizing ws with
  | nil =>
    obtain rfl := List.eq_nil_of_length_eq_zero hlen
    have hexpand := expand_ordinaries tail.1 tail.2.1 tail.2.2.1 [] (Format.args [])
    have hargs := hexArgs_ordinaries tail.1 tail.2.1 tail.2.2.1 [] (Format.args [])
    rw [List.append_nil] at hexpand hargs
    exact ⟨hexpand.trans (List.append_nil _), hargs⟩
  | cons l ls ih =>
    obtain ⟨w, ws, rfl⟩ := List.exists_cons_of_length_eq_add_one hlen
    have ih := ih (Nat.succ.inj hlen)
    unfold lineFormat lineText Label.directives
    constructor
    · rw [expand_ordinaries, ← ih.1]
      rfl
    · rw [hexArgs_ordinaries]
      exact congrArg (w :: ·) ih.2

theorem isNumeric_lineFormat (ls : List Label) (tail : Label) :
    (lineFormat ls tail).all Directive.isNumeric := by
  induction ls with
  | nil => exact isNumeric_ordinaries tail.1 tail.2.1 tail.2.2.1
  | cons l ls ih =>
    rw [lineFormat, List.all_append, Bool.and_eq_true, List.all_cons, ih]
    exact ⟨isNumeric_ordinaries l.1 l.2.1 l.2.2.1, rfl⟩

theorem length_hex_le (w : UInt64) : (hex w).length ≤ 18 := by
  have := length_hexNumeral_le w
  have hlen : (chars "0x").length = 2 := by decide
  rw [hex, List.length_append]
  omega

theorem newline_notMem_hex (w : UInt64) : '\n'.toUInt8 ∉ hex w := by
  rw [hex, List.mem_append, not_or]
  refine ⟨by decide, fun hmem => ?_⟩
  exact absurd (isHexDigit_of_mem_hexNumeral _ hmem) (by decide)

theorem length_lineText_le (ls : List Label) (ws : List UInt64) (tail : Label) :
    (lineText ls ws tail).length ≤
      (ls.map fun l => l.1.length + 18).sum + tail.1.length := by
  induction ls generalizing ws with
  | nil => exact Nat.le_add_left _ _
  | cons l ls ih =>
    cases ws with
    | nil => exact Nat.le_add_left _ _
    | cons w ws =>
      have := ih ws
      have := length_hex_le w
      rw [lineText, List.length_append, List.length_append, List.map_cons, List.sum_cons]
      omega

theorem newline_notMem_lineText (ls : List Label) (ws : List UInt64) (tail : Label) :
    '\n'.toUInt8 ∉ lineText ls ws tail := by
  induction ls generalizing ws with
  | nil => exact tail.2.2.2
  | cons l ls ih =>
    cases ws with
    | nil => exact tail.2.2.2
    | cons w ws =>
      rw [lineText, List.mem_append, List.mem_append, not_or, not_or]
      exact ⟨l.2.2.2, newline_notMem_hex w, ih ws⟩

end LineText

namespace Line

def text (l : Line) : List UInt8 := lineText l.labels l.words l.tail

theorem length_lt (l : Line) : l.text.length < 80 :=
  (length_lineText_le _ _ _).trans_lt l.isLine.2

theorem newline_notMem (l : Line) : '\n'.toUInt8 ∉ l.text := newline_notMem_lineText _ _ _

/-- The row of the screen with the line. -/
def row (l : Line) : List UInt8 := (List.range 80).map (Terminal.lineRow ' '.toUInt8 l.text)

theorem row_eq (l : Line) :
    l.row = l.text ++ List.replicate (80 - l.text.length) ' '.toUInt8 := by
  have hlen := l.length_lt
  refine List.ext_getElem (by simp [row]; omega) fun k h₁ h₂ => ?_
  simp only [row, Terminal.lineRow, List.getElem_map, List.getElem_range,
    List.getElem_append, List.getElem_replicate]
  split_ifs with hlt
  · simp [hlt]
  · simp [Nat.le_of_not_lt hlt]

theorem noDigit_blanks (n : Nat) : NoDigit (List.replicate n ' '.toUInt8) := by
  intro c hc
  rw [List.eq_of_mem_replicate (List.mem_of_mem_head? hc)]
  decide

/-- Its numbers can be read off the row. -/
theorem readText_row (l : Line) : readText (lineFormat l.labels l.tail) l.row = some l.words := by
  have hformat : expand (lineFormat l.labels l.tail) (Format.args l.words) = l.text ∧
      hexArgs (lineFormat l.labels l.tail) (Format.args l.words) = l.words :=
    expand_lineFormat l.length_eq
  rw [row_eq, ← hformat.1, readText_expand (isNumeric_lineFormat _ _) l.isLine.1 _
    (noDigit_blanks _), hformat.2]

end Line

/-- Read the numbers of one line after the other, each off a row of its own. -/
def readLines : List (List Label × Label) → List (List UInt8) → Option (List UInt64)
  | [], _ => some []
  | _ :: _, [] => none
  | f :: fs, row :: rows => do
    let ws ← readText (lineFormat f.1 f.2) row
    let ws' ← readLines fs rows
    return ws ++ ws'

theorem readLines_rows (ls : List Line) (rows : List (List UInt8)) :
    readLines (ls.map fun l => (l.labels, l.tail)) (ls.map Line.row ++ rows) =
      some (ls.flatMap Line.words) := by
  induction ls with
  | nil => rfl
  | cons l ls ih =>
    rw [List.map_cons, List.map_cons, List.cons_append, readLines, l.readText_row, ih]
    rfl

/-! ## The lines of the report -/

namespace Label

def ofString (s : String)
    (h : 0 ∉ chars s ∧ '%'.toUInt8 ∉ chars s ∧ '\n'.toUInt8 ∉ chars s) : Label := ⟨chars s, h⟩

def append (l l' : Label) : Label :=
  ⟨l.1 ++ l'.1, by
    simp only [List.mem_append, not_or]
    exact ⟨⟨l.2.1, l'.2.1⟩, ⟨l.2.2.1, l'.2.2.1⟩, ⟨l.2.2.2, l'.2.2.2⟩⟩⟩

/-- Nothing. -/
def empty : Label := ⟨[], by decide⟩

end Label

/-- A line without numbers. -/
def Line.ofLabel (l : Label) (h : IsLine [] l) : Line := ⟨[], l, [], h, rfl⟩

/-- A line of the report that ends in a newline, without it. -/
def Line.ofString (s : String) (h : 0 ∉ (chars s).dropLast ∧
    '%'.toUInt8 ∉ (chars s).dropLast ∧ '\n'.toUInt8 ∉ (chars s).dropLast)
    (hl : IsLine [] ⟨(chars s).dropLast, h⟩) : Line := .ofLabel _ hl

def vmexitLabel : Label := .ofString "#VMEXIT: " (by decide)

/-- The line with the exit code. -/
def exitcodeLine (x : Int32) : Line :=
  if x = VMEXIT_EXCEPTION_PF then
    .ofLabel (vmexitLabel.append (.ofString "EXCP (page fault)" (by decide))) (by decide)
  else if x = VMEXIT_NPF then
    .ofLabel (vmexitLabel.append
      (.ofString "NPF (nested-paging: host-level page fault)" (by decide))) (by decide)
  else if x = VMEXIT_INVALID then
    .ofLabel (vmexitLabel.append (.ofString "INVALID" (by decide))) (by decide)
  else ⟨[vmexitLabel], .empty, [toULong x], by decide, rfl⟩

/-- The lines with fields, which `word` gives. -/
def fieldLines (word : VmcbField → UInt64) : List Line := [
  ⟨[.ofString "VMCB: rip=" (by decide)], .empty, [word Vmcb.rip], by decide, rfl⟩,
  ⟨[.ofString "cpl=" (by decide)], .empty, [word Vmcb.cpl], by decide, rfl⟩,
  ⟨[.ofString "cr0=" (by decide), .ofString ", cr3=" (by decide), .ofString ", cr4=" (by decide)],
    .empty, [word Vmcb.cr0, word Vmcb.cr3, word Vmcb.cr4], by decide, rfl⟩,
  ⟨[.ofString "rflags=" (by decide), .ofString ", efer=" (by decide)],
    .empty, [word Vmcb.rflags, word Vmcb.efer], by decide, rfl⟩,
  ⟨[.ofString "cs.attrs=" (by decide), .ofString ", ds.attrs=" (by decide)],
    .empty, [word SegReg.cs.attrs, word SegReg.ds.attrs], by decide, rfl⟩,
  ⟨[.ofString "error_code=" (by decide), .ofString ", fault address=" (by decide)],
    .empty, [word Vmcb.exitinfo1, word Vmcb.exitinfo2], by decide, rfl⟩]

/-- The lines about the kind of a page fault. -/
def faultLines (info : UInt64) : List Line := [
  if info &&& 1 ≠ 0 then
    .ofString "page fault was caused by a page-protection violation\n" (by decide) (by decide)
  else .ofString "page fault was caused by a not-present page\n" (by decide) (by decide),
  if info &&& 2 ≠ 0 then .ofString "memory access was write\n" (by decide) (by decide)
  else .ofString "memory access was read\n" (by decide) (by decide),
  if info &&& 4 ≠ 0 then
    .ofString "an access in user mode caused the page fault\n" (by decide) (by decide)
  else
    .ofString "an access in supervisor mode caused the page fault\n" (by decide) (by decide)]

/-- The lines of the report. -/
def reportLines (word : VmcbField → UInt64) : List Line :=
  .ofString "********************\n" (by decide) (by decide) ::
    exitcodeLine (ofULong (word Vmcb.exitcode)) ::
      (fieldLines word ++ faultLines (word Vmcb.exitinfo1))

theorem text_exitcodeLine (x : Int32) :
    (exitcodeLine x).text = chars "#VMEXIT: " ++ exitcodeName x := by
  unfold exitcodeLine exitcodeName
  split_ifs
  · rfl
  · rfl
  · rfl
  · exact congrArg (chars "#VMEXIT: " ++ ·) (List.append_nil (hex (toULong x)))

theorem text_faultLines (info : UInt64) :
    ((faultLines info).map Line.text).flatMap (fun l => l ++ ['\n'.toUInt8]) = List.flatten [
    if info &&& 1 ≠ 0 then chars "page fault was caused by a page-protection violation\n"
    else chars "page fault was caused by a not-present page\n",
    if info &&& 2 ≠ 0 then chars "memory access was write\n"
    else chars "memory access was read\n",
    if info &&& 4 ≠ 0 then chars "an access in user mode caused the page fault\n"
    else chars "an access in supervisor mode caused the page fault\n"] := by
  have hite : ∀ {p : Prop} [Decidable p] {l l' : Line} {cs cs' : List UInt8},
      l.text ++ ['\n'.toUInt8] = cs → l'.text ++ ['\n'.toUInt8] = cs' →
      (if p then l else l').text ++ ['\n'.toUInt8] = if p then cs else cs' := by
    intro p _ l l' cs cs' h h'
    split_ifs
    · exact h
    · exact h'
  have hline : ∀ {s : String} {h : 0 ∉ (chars s).dropLast ∧ '%'.toUInt8 ∉ (chars s).dropLast ∧
      '\n'.toUInt8 ∉ (chars s).dropLast} {hl : IsLine [] ⟨(chars s).dropLast, h⟩},
      (chars s).getLast? = some '\n'.toUInt8 →
      (Line.ofString s h hl).text ++ ['\n'.toUInt8] = chars s := fun hlast =>
    List.dropLast_append_getLast? _ hlast
  simp only [faultLines, List.map_cons, List.map_nil, List.flatMap_cons, List.flatMap_nil,
    List.flatten_cons, List.flatten_nil]
  rw [hite (hline (by decide)) (hline (by decide)), hite (hline (by decide)) (hline (by decide)),
    hite (hline (by decide)) (hline (by decide))]

/-- The report is the text of its lines. -/
theorem exitReport_eq_lines (n : Nat) (s : State) : exitReport n s =
    ((reportLines (fieldWord n s)).map Line.text).flatMap fun l => l ++ ['\n'.toUInt8] := by
  have hnl : chars "\n" = ['\n'.toUInt8] := by decide
  have hstars : (Line.ofString "********************\n" (by decide) (by decide)).text ++
      ['\n'.toUInt8] = chars "********************\n" := by decide
  unfold reportLines
  rw [List.map_cons, List.map_cons, List.map_append, List.flatMap_cons, List.flatMap_cons,
    List.flatMap_append, text_exitcodeLine, text_faultLines, hstars]
  simp only [exitReport, fieldLines, Line.text, lineText, Label.ofString, Label.empty,
    List.map_cons, List.map_nil, List.flatMap_cons, List.flatMap_nil, List.flatten_cons,
    List.flatten_nil, List.append_assoc, List.append_nil, hnl]

/-! ## Reading the screen -/

/-- The exit code in the row. -/
def readExitcode (row : List UInt8) : Option Int32 :=
  if chars "#VMEXIT: " ++ chars "EXCP (page fault)" <+: row then some VMEXIT_EXCEPTION_PF
  else if chars "#VMEXIT: " ++ chars "NPF (nested-paging: host-level page fault)" <+: row then
    some VMEXIT_NPF
  else if chars "#VMEXIT: " ++ chars "INVALID" <+: row then some VMEXIT_INVALID
  else
    (readText (lineFormat [vmexitLabel] .empty) row).bind fun ws => ws.head?.map ofULong

/-- The exit code and the fields in the rows of a report. -/
def readReport : List (List UInt8) → Option (Int32 × List UInt64)
  | _ :: row :: rows => do
    let x ← readExitcode row
    let ws ← readLines ((fieldLines fun _ => 0).map fun l => (l.labels, l.tail)) rows
    return (x, ws)
  | _ => none

/-- The names of exit codes start with different characters, and a number with another one. -/
theorem head_exitcodeName (x : Int32) : (exitcodeName x).head? =
    some (if x = VMEXIT_EXCEPTION_PF then 'E'.toUInt8 else if x = VMEXIT_NPF then 'N'.toUInt8
      else if x = VMEXIT_INVALID then 'I'.toUInt8 else '0'.toUInt8) := by
  unfold exitcodeName
  split_ifs
  · decide
  · decide
  · decide
  · rw [hex, List.head?_append, show (chars "0x").head? = some '0'.toUInt8 by decide]
    rfl

theorem not_prefix_of_head {cs ds : List UInt8} {c d : UInt8} (hc : cs.head? = some c)
    (hd : ds.head? = some d) (hne : c ≠ d) : ¬cs <+: ds := by
  intro hpre
  obtain ⟨cs, rfl⟩ := List.head?_eq_some_iff.mp hc
  obtain ⟨ds, rfl⟩ := List.head?_eq_some_iff.mp hd
  rw [List.cons_prefix_cons] at hpre
  exact hne hpre.1

/-- The row starts with the name of its exit code only. -/
theorem prefix_row_iff {k : Int32} {c : UInt8} (hc : (exitcodeName k).head? = some c)
    (hne : ∀ x, x ≠ k → (exitcodeName x).head? ≠ some c) (x : Int32) :
    chars "#VMEXIT: " ++ exitcodeName k <+: (exitcodeLine x).row ↔ x = k := by
  rw [Line.row_eq, text_exitcodeLine, List.append_assoc, List.prefix_append_right_inj]
  constructor
  · intro hpre
    by_contra hx
    have hhead : ∀ ds, (exitcodeName x ++ ds).head? = (exitcodeName x).head? := by
      intro ds
      rw [List.head?_append, head_exitcodeName]
      rfl
    have hd := head_exitcodeName x
    refine not_prefix_of_head hc ((hhead _).trans hd) ?_ hpre
    have := hne x hx
    rw [hd] at this
    exact fun heq => this (congrArg some heq.symm)
  · rintro rfl
    exact List.prefix_append _ _

theorem readExitcode_row (x : Int32) : readExitcode (exitcodeLine x).row = some x := by
  have hread := (exitcodeLine x).readText_row
  have hne : ∀ {k : Int32} {c : UInt8}, (∀ x, x ≠ k →
      (if x = VMEXIT_EXCEPTION_PF then 'E'.toUInt8 else if x = VMEXIT_NPF then 'N'.toUInt8
        else if x = VMEXIT_INVALID then 'I'.toUInt8 else '0'.toUInt8) ≠ c) →
      ∀ x, x ≠ k → (exitcodeName x).head? ≠ some c := by
    intro k c h x hx
    rw [head_exitcodeName]
    exact fun heq => h x hx (Option.some.inj heq)
  have hexcp := prefix_row_iff (show (exitcodeName VMEXIT_EXCEPTION_PF).head? = some 'E'.toUInt8
    from head_exitcodeName _) (hne fun x hx => by rw [if_neg hx]; split_ifs <;> decide) x
  have hnpf := prefix_row_iff (show (exitcodeName VMEXIT_NPF).head? = some 'N'.toUInt8
    from head_exitcodeName _) (hne fun x hx => by rw [if_neg hx]; split_ifs <;> decide) x
  have hinvalid := prefix_row_iff (show (exitcodeName VMEXIT_INVALID).head? = some 'I'.toUInt8
    from head_exitcodeName _) (hne fun x hx => by rw [if_neg hx]; split_ifs <;> decide) x
  unfold readExitcode
  have hnames : exitcodeName VMEXIT_EXCEPTION_PF = chars "EXCP (page fault)" ∧
      exitcodeName VMEXIT_NPF = chars "NPF (nested-paging: host-level page fault)" ∧
      exitcodeName VMEXIT_INVALID = chars "INVALID" := ⟨rfl, rfl, rfl⟩
  rw [hnames.1] at hexcp
  rw [hnames.2.1] at hnpf
  rw [hnames.2.2] at hinvalid
  simp only [hexcp, hnpf, hinvalid]
  split_ifs with h h' h''
  · rw [h]
  · rw [h']
  · rw [h'']
  · have hline : exitcodeLine x = ⟨[vmexitLabel], .empty, [toULong x], by decide, rfl⟩ := by
      unfold exitcodeLine
      rw [if_neg h, if_neg h', if_neg h'']
    rw [hline] at hread ⊢
    rw [hread, Option.bind_some, List.head?_cons, Option.map_some, ofULong_toULong]

/-- The fields in the report, in its order. -/
def reportFields : List VmcbField := [Vmcb.rip, Vmcb.cpl, Vmcb.cr0, Vmcb.cr3, Vmcb.cr4,
  Vmcb.rflags, Vmcb.efer, SegReg.cs.attrs, SegReg.ds.attrs, Vmcb.exitinfo1, Vmcb.exitinfo2]

theorem readReport_rows (word : VmcbField → UInt64) :
    readReport ((reportLines word).map Line.row) =
      some (ofULong (word Vmcb.exitcode), reportFields.map word) := by
  unfold reportLines
  rw [List.map_cons, List.map_cons, List.map_append, readReport, readExitcode_row]
  have hread := readLines_rows (fieldLines word) ((faultLines (word Vmcb.exitinfo1)).map Line.row)
  have hformat : (fieldLines word).map (fun l => (l.labels, l.tail)) =
      (fieldLines fun _ => 0).map fun l => (l.labels, l.tail) := rfl
  rw [hformat] at hread
  rw [hread]
  rfl

/-- Row `r` of the screen. -/
def screenRow (con : Console) (r : Nat) : List UInt8 :=
  (List.range 80).map fun c => con.machine.mem (0xb8000 + cellAt r c)

/-- The `k` rows above the cursor. -/
def rowsAbove (con : Console) (k : Nat) : List (List UInt8) :=
  (List.range k).map fun i => screenRow con (con.scrInfo.origY.toNatClampNeg - k + i)

/-- The screen is blank from the row of the cursor on. -/
def BlankFromCursor (con : Console) : Prop :=
  ∀ r c, con.scrInfo.origY.toNatClampNeg ≤ r → r < 25 → c < 80 →
    con.machine.mem (0xb8000 + cellAt r c) = ' '.toUInt8

section Screen

variable {con con' : Console} {t t' : Terminal UInt8}

/-- A terminal for such a screen, with a page that is blank from the cursor on. -/
theorem BlankFromCursor.exists_terminal (hblank : BlankFromCursor con)
    (hcur : OnScreen con.scrInfo.origX con.scrInfo.origY) (hcol : con.scrInfo.origX = 0) :
    ∃ sc t, con.HasScreen sc ∧ sc.Shows t ∧ t.col = 0 ∧ t.BlankFrom ' '.toUInt8 t.row := by
  obtain ⟨sc, hsc, hshows⟩ := Console.exists_screen hcur
  have hx : sc.x = 0 := by
    rw [hshows.x, Console.terminal, Terminal.ofScreen, hcol]
    rfl
  let page : Nat → Nat → UInt8 := fun r c =>
    if sc.y ≤ r then ' '.toUInt8 else con.machine.mem (0xb8000 + cellAt r c)
  have hy : sc.y = con.scrInfo.origY.toNatClampNeg := hshows.y
  refine ⟨sc, Terminal.ofScreen 25 ' '.toUInt8 page sc.y sc.x, hsc, ?_, hx, ?_⟩
  · refine ⟨Terminal.ofScreen_inWindow sc.y_lt sc.x_lt, Terminal.ofScreen_blankBelow _ _ _, rfl,
      rfl, fun r c hr hc => ?_⟩
    rw [Terminal.window_ofScreen hr, ← hsc.mem]
    show _ = if sc.y ≤ r then _ else _
    split_ifs with hle
    · exact hblank r c (hy ▸ hle) hr hc
    · rfl
  · intro r hr
    have hr : sc.y ≤ r := hr
    funext c
    show (if r < 25 then if sc.y ≤ r then _ else _ else _) = _
    rw [if_pos hr]
    split_ifs <;> rfl

/-- Lines that were printed are in the rows above the cursor. -/
theorem rowsAbove_of_prints {ls : List Line} (hshows : con'.Shows t') (hw : t.InWindow 80 25)
    (h : t.PrintsLines 80 25 ' '.toUInt8 (ls.map Line.text) t') (hlen : ls.length < 25) :
    rowsAbove con' ls.length = ls.map Line.row := by
  have hlen' : (ls.map Line.text).length = ls.length := List.length_map _
  obtain ⟨hle, hwindow⟩ := h.window hw (by omega)
  have hrow := h.inWindow.row_lt
  have hy : con'.scrInfo.origY.toNatClampNeg = t'.row - t'.top := by
    rw [hshows.y]
    exact Int32.toNatClampNeg_ofNat_of_lt (by omega)
  refine List.ext_getElem (by simp [rowsAbove]) fun k h₁ h₂ => ?_
  rw [List.length_map] at h₂
  have hk := hwindow k (by omega)
  simp only [rowsAbove, screenRow, List.getElem_map, List.getElem_range, Line.row, hy]
  refine List.map_congr_left fun c hc => ?_
  rw [List.getElem_map] at hk
  rw [hshows.cells _ c (by omega) (List.mem_range.mp hc), ← hk, hlen']

end Screen

/-- On a screen that is blank from the cursor on, `handle_vmexit` leaves a report in the
eleven rows above the cursor, and every field that it prints can be read back from them. -/
theorem handleVmexit_readable {n : Nat} (hn : Addressable n) (hvideo : n ≠ 0xb8)
    (hCr3 mbi : UInt64) {st : PrintfState}
    (hcur : OnScreen st.console.scrInfo.origX st.console.scrInfo.origY)
    (hcol : st.console.scrInfo.origX = 0) (hblank : BlankFromCursor st.console) :
    ∃ st', handleVmexit ⟨frameVaddr n, hCr3, mbi⟩ st = .ok ((), st') ∧
      Set.EqOn st'.console.machine.mem st.console.machine.mem videoBytesᶜ ∧
      readReport (rowsAbove st'.console 11) =
        some (ofULong (fieldWord n st.console.machine Vmcb.exitcode),
          reportFields.map (fieldWord n st.console.machine)) := by
  obtain ⟨sc, t, hsc, hshows, htcol, hpage⟩ := hblank.exists_terminal hcur hcol
  have hsays := (says_handleVmexit hn hvideo hCr3 mbi).run (fun _ => False) sc st hsc
  obtain ⟨_, st', hrun, hputs⟩ := exists_ok_of_wp hsays
  let ls := reportLines (fieldWord n st.console.machine)
  have hlines : ∀ l ∈ ls.map Line.text, '\n'.toUInt8 ∉ l ∧ l.length < 80 := by
    intro l hl
    obtain ⟨l, -, rfl⟩ := List.mem_map.mp hl
    exact ⟨l.newline_notMem, l.length_lt⟩
  have hprints := Terminal.print_lines hlines hshows.inWindow htcol hpage
  rw [← exitReport_eq_lines] at hprints
  have hrows := rowsAbove_of_prints (hputs.screen.shows (hshows.print _)) hshows.inWindow
    hprints (show ls.length < 25 from show 11 < 25 by decide)
  refine ⟨st', hrun, ?_, ?_⟩
  · rw [hputs.screen.mem, hsc.mem]
    exact Screen.print_eqOn sc _
  · rw [show 11 = ls.length from rfl, hrows]
    exact readReport_rows _

/-- A blank screen, and a VMCB in the third page of blanks. -/
def blankState : PrintfState where
  console :=
    { machine :=
        { mem := fun _ => ' '.toUInt8
          nalloc := { allocBitmap := 0, maxPage := 0 }
          handedOut := [] }
      scrInfo := { origX := 0, origY := 0 }
      stores := []
      reads := [] }
  buf := { bytes := fun _ => 0, stores := [] }

theorem sample_handleVmexit_readable :
    ∃ st', handleVmexit ⟨frameVaddr 2, 0, 0⟩ blankState = .ok ((), st') ∧
      Set.EqOn st'.console.machine.mem blankState.console.machine.mem videoBytesᶜ ∧
      readReport (rowsAbove st'.console 11) =
        some (ofULong (fieldWord 2 blankState.console.machine Vmcb.exitcode),
          reportFields.map (fieldWord 2 blankState.console.machine)) := by
  have hn : Addressable 2 := by
    unfold Addressable
    omega
  exact handleVmexit_readable hn (by decide) 0 0 (by decide) rfl fun _ _ _ _ _ => rfl

end Tvmm
