import Tvmm.PrintfBuffer
import Tvmm.VmCreate

/-!
# The report about a `#VMEXIT`

`handle_vmexit` prints fields of the VMCB with a dozen calls of `printf`.  A `Format`
is a format string that fits into the buffer of `printf` whatever is printed for its
`%x`, and `Says` is what all of these calls have in common: the text depends on the
VMCB only, it goes to the screen, and nothing else is written.
-/

set_option linter.style.nameCheck false

namespace Tvmm

open Exec CInt

/-! ## Formats of numbers -/

/-- The directives of a format string, as `vsnprintf` comes to them. -/
def directives : List UInt8 → List Directive
  | [] => []
  | [c] => if h : c ≠ 0 ∧ c ≠ '%'.toUInt8 then [.ordinary c h] else []
  | c :: k :: cs =>
    if h : c ≠ 0 ∧ c ≠ '%'.toUInt8 then .ordinary c h :: directives (k :: cs)
    else if k = 'x'.toUInt8 then .hex :: directives cs
    else directives cs

/-- What is printed for the directive has at most 18 characters, and no NUL. -/
def Directive.isPlain : Directive → Bool
  | ordinary _ _ => true
  | hex => true
  | _ => false

/-- The string is a format of ordinary characters and `%x`, and what is printed for it
is shorter than the buffer of `printf`. -/
def IsPlainFormat (cs : List UInt8) : Prop :=
  (0 ∉ cs ∧ cs.length < 1024) ∧ cs = (directives cs).flatMap Directive.text ∧
    (directives cs).all Directive.isPlain ∧ 18 * (directives cs).length < 1024

instance (cs : List UInt8) : Decidable (IsPlainFormat cs) := inferInstanceAs (Decidable (_ ∧ _))

/-- A format string of this kind. -/
abbrev Format := { cs : List UInt8 // IsPlainFormat cs }

namespace Format

def ofString (s : String) (h : IsPlainFormat (s.toList.map Char.toUInt8)) : Format := ⟨_, h⟩

def cString (f : Format) : CString where
  chars := f.1
  nul := f.2.1.1
  length_lt := f.2.1.2.trans (by decide)

/-- The arguments `ws`, all of them numbers. -/
def args (ws : List UInt64) : VaList := fun k => wordArgs (ws.getD k 0) k

/-- What is printed. -/
def text (f : Format) (ws : List UInt64) : List UInt8 := expand (directives f.1) (args ws)

/-- `printf ( f, ws )` -/
def print (f : Format) (ws : List UInt64) : Exec PrintfState Stop Unit :=
  PrintfState.printf f.cString (args ws)

end Format

theorem length_hexNumeral_le (n : UInt64) : (hexNumeral n).length ≤ 16 := by
  rw [hexNumeral, List.length_map]
  exact (Nat.length_toDigits_le_iff (by decide) (by decide)).mpr n.toNat_lt

theorem Directive.length_expand_le {d : Directive} (h : d.isPlain) (arg : VaArg) :
    (d.expand arg).length ≤ 18 := by
  cases d with
  | ordinary ch hch => exact (show 1 ≤ 18 by decide)
  | hex =>
    have := length_hexNumeral_le arg.word
    simp only [Directive.expand, List.length_cons]
    omega
  | char => cases h
  | str => cases h
  | percent => cases h

theorem length_expand_le {ds : List Directive} (h : ds.all Directive.isPlain) (args : VaList) :
    (expand ds args).length ≤ 18 * ds.length := by
  induction ds generalizing args with
  | nil => exact Nat.zero_le _
  | cons d ds ih =>
    rw [List.all_cons, Bool.and_eq_true] at h
    have hd := Directive.length_expand_le h.1 (args 0)
    have hds := ih h.2 (d.rest args)
    rw [expand, List.length_append, List.length_cons]
    omega

theorem Format.length_text_lt (f : Format) (ws : List UInt64) : (f.text ws).length < 1024 :=
  (length_expand_le f.2.2.2.1 _).trans_lt f.2.2.2.2

theorem Format.char_notMem (f : Format) : Directive.char ∉ directives f.1 := fun hmem =>
  absurd (List.all_eq_true.mp f.2.2.2.1 _ hmem) (by decide)

/-- A text that leaves room for its NUL is printed as it is. -/
theorem wp_printf {fmt : CString} {ds : List Directive} {args : VaList} {sc : Screen}
    {st : PrintfState} {E : Stop → Prop} (hfmt : IsFormat fmt ds)
    (hlen : (expand ds args).length < 1024) (hchar : Directive.char ∉ ds)
    (h : st.console.HasScreen sc) :
    wp (PrintfState.printf fmt args) (fun _ st' =>
      Puts (sc.print (expand ds args)) st.console st'.console) E st := by
  obtain ⟨b', inside, hprints, heq⟩ := printf_eq hfmt (hlen.trans (by decide)) st
  have hbytes : ∀ k (hk : k < (expand ds args).length), b'.bytes k = (expand ds args)[k] :=
    fun k hk => hprints.bytes_of_lt hk (by omega)
  have hne : ∀ k, k < (expand ds args).length → b'.bytes k ≠ 0 := by
    intro k hk hz
    refine nul_notMem_expand hchar args ?_
    rw [← hz, hbytes k hk]
    exact List.getElem_mem hk
  have htext : textOf b'.bytes (expand ds args).length = expand ds args := by
    refine List.ext_getElem (by rw [textOf, List.length_map, List.length_range]) fun k h₁ h₂ => ?_
    rw [← hbytes k h₂]
    simp [textOf]
  have hrun : wp (zoom PrintfState.console (fun st con => { st with console := con })
      (putstr b'.bytes)) (fun _ st' => Puts (sc.print (expand ds args)) st.console st'.console) E
      { st with buf := b' } := by
    refine wp_zoom.mpr ?_
    apply wp_imp (wp_putstr hne (hprints.bytes_length (by omega)) (by omega) h)
    intro _ con' hputs
    rw [htext] at hputs
    exact hputs.1
  unfold wp at hrun ⊢
  rwa [heq]

/-! ## What a program says -/

theorem scrolled_eqOn (m : ByteMem) : Set.EqOn (scrolled m) m videoBytesᶜ := by
  intro a ha
  rw [Set.mem_compl_iff, Set.mem_Ico] at ha
  unfold scrolled blankCells
  rw [if_neg (by omega), ByteMem.copy_of_notMem (by rw [Set.mem_Ico]; omega)]

/-- Printing writes the video memory only. -/
theorem Screen.print_eqOn (sc : Screen) (cs : List UInt8) :
    Set.EqOn (sc.print cs).mem sc.mem videoBytesᶜ := by
  have hnext : ∀ sc : Screen, Set.EqOn sc.nextRow.mem sc.mem videoBytesᶜ := by
    intro sc a ha
    show (if sc.y + 1 < 25 then sc.mem else scrolled sc.mem) a = sc.mem a
    split_ifs
    · rfl
    · exact scrolled_eqOn _ ha
  have hwrite : ∀ (sc : Screen) c, Set.EqOn (sc.write c).mem sc.mem videoBytesᶜ := by
    intro sc c a ha
    have hx := sc.x_lt
    have hy := sc.y_lt
    rw [Set.mem_compl_iff, Set.mem_Ico] at ha
    exact ByteMem.fill_of_notMem (by rw [Set.mem_Ico, cellAt]; omega)
  have hdraw : ∀ (sc : Screen) c, Set.EqOn (sc.draw c).mem sc.mem videoBytesᶜ := by
    intro sc c
    unfold Screen.draw
    split_ifs
    · exact hnext sc
    · exact hwrite sc c
    · exact (hnext _).trans (hwrite sc c)
  induction cs generalizing sc with
  | nil => exact fun _ _ => rfl
  | cons c cs ih => exact (ih (sc.draw c)).trans (hdraw sc c)

/-- From every screen `c` prints a text that depends on frame `n` only, which does not lie
in the video memory. -/
structure Says (n : Nat) (text : State → List UInt8) (c : Exec PrintfState Stop Unit) :
    Prop where
  apart : n ≠ 0xb8
  congr : ∀ s s', Set.EqOn s'.mem s.mem (frameBytes n) → text s' = text s
  run : ∀ (E : Stop → Prop) (sc : Screen) (st : PrintfState), st.console.HasScreen sc →
    wp c (fun _ st' => Puts (sc.print (text st.console.machine)) st.console st'.console) E st

/-- Run a function of the machine. -/
def onVmm {α : Type} (c : M α) : Exec PrintfState Stop α :=
  zoom PrintfState.console (fun st con => { st with console := con }) (onMachine c)

section Says

variable {n : Nat} {t t' : State → List UInt8} {c c' : Exec PrintfState Stop Unit}

theorem says_print (hn : n ≠ 0xb8) (f : Format) (ws : List UInt64) :
    Says n (fun _ => f.text ws) (f.print ws) where
  apart := hn
  congr _ _ _ := rfl
  run _ _ _ h := wp_printf f.2.2.1 (f.length_text_lt ws) f.char_notMem h

/-- One text after the other. -/
theorem Says.bind (h : Says n t c) (h' : Says n t' c') :
    Says n (fun s => t s ++ t' s) (do c; c') := by
  constructor
  · exact h.apart
  · intro s s' heq
    rw [h.congr s s' heq, h'.congr s s' heq]
  · intro E sc st hsc
    rw [wp_bind]
    refine wp_imp (h.run E sc st hsc) fun _ st₁ h₁ => ?_
    refine wp_imp (h'.run E _ st₁ h₁.screen) fun _ st₂ h₂ => ?_
    -- The VMCB does not lie in the video memory.
    have heq : Set.EqOn st₁.console.machine.mem st.console.machine.mem (frameBytes n) := by
      rw [h₁.screen.mem, hsc.mem]
      refine (Screen.print_eqOn sc _).mono fun a ha => ?_
      have hn := h.apart
      rw [mem_frameBytes] at ha
      rw [Set.mem_compl_iff, Set.mem_Ico]
      omega
    have hprint : ∀ xs ys, sc.print (xs ++ ys) = (sc.print xs).print ys := fun xs ys =>
      List.foldl_append
    rw [h'.congr _ _ heq] at h₂
    rw [hprint]
    exact h₁.trans h₂

/-- A field of the VMCB is read first. -/
theorem Says.load {t : UInt64 → State → List UInt8} {c : UInt64 → Exec PrintfState Stop Unit}
    (f : VmcbField) (hn : Addressable n) (h : ∀ w, Says n (t w) (c w)) :
    Says n (fun s => t (UInt64.ofNat (f.value n s)) s)
      (do let w ← onVmm (f.load (frameVaddr n)); c w) := by
  constructor
  · exact (h 0).apart
  · intro s s' heq
    rw [VmcbField.value_congr (heq.mono (f.bytes_subset n)), (h _).congr s s' heq]
  · intro E sc st hsc
    have hload : onVmm (f.load (frameVaddr n)) st =
        .ok (UInt64.ofNat (f.value n st.console.machine), st) :=
      zoom_of_ok (zoom_of_ok (f.load_of_addressable hn st.console.machine))
    exact wp_bind_of_ok hload ((h _).run E sc st hsc)

theorem Says.ite {p : Prop} [Decidable p] (h : Says n t c) (h' : Says n t' c') :
    Says n (fun s => if p then t s else t' s) (if p then c else c') := by
  split_ifs
  · exact h
  · exact h'

end Says

/-! ## The code -/

/-! `enum vmexit_exitcode`, which is an `int`. -/

def VMEXIT_EXCEPTION_PF : Int32 := 78
def VMEXIT_NPF : Int32 := 1024
def VMEXIT_INVALID : Int32 := -1

/-- `print_vmexit_exitcode` -/
def printVmexitExitcode (x : Int32) : Exec PrintfState Stop Unit := do
  (Format.ofString "#VMEXIT: " (by decide)).print []
  (if x = VMEXIT_EXCEPTION_PF then
    (Format.ofString "EXCP (page fault)" (by decide)).print []
  else if x = VMEXIT_NPF then
    (Format.ofString "NPF (nested-paging: host-level page fault)" (by decide)).print []
  else if x = VMEXIT_INVALID then
    (Format.ofString "INVALID" (by decide)).print []
  else
    (Format.ofString "%x" (by decide)).print [toULong x])
  (Format.ofString "\n" (by decide)).print []

namespace Vmcb

def exitcode : VmcbField := ⟨0x70, 8, by decide⟩
def exitinfo1 : VmcbField := ⟨0x78, 8, by decide⟩
def exitinfo2 : VmcbField := ⟨0x80, 8, by decide⟩

end Vmcb

/-- `handle_vmexit`.  The fields that are narrower than a word are passed as an `int`
that is not negative. -/
def handleVmexit (vm : Vm) : Exec PrintfState Stop Unit := do
  (Format.ofString "********************\n" (by decide)).print []
  let exitcode ← onVmm (Vmcb.exitcode.load vm.vmcb)
  printVmexitExitcode (ofULong exitcode)
  let rip ← onVmm (Vmcb.rip.load vm.vmcb)
  (Format.ofString "VMCB: rip=%x\n" (by decide)).print [rip]
  let cpl ← onVmm (Vmcb.cpl.load vm.vmcb)
  (Format.ofString "cpl=%x\n" (by decide)).print [cpl]
  let cr0 ← onVmm (Vmcb.cr0.load vm.vmcb)
  let cr3 ← onVmm (Vmcb.cr3.load vm.vmcb)
  let cr4 ← onVmm (Vmcb.cr4.load vm.vmcb)
  (Format.ofString "cr0=%x, cr3=%x, cr4=%x\n" (by decide)).print [cr0, cr3, cr4]
  let rflags ← onVmm (Vmcb.rflags.load vm.vmcb)
  let efer ← onVmm (Vmcb.efer.load vm.vmcb)
  (Format.ofString "rflags=%x, efer=%x\n" (by decide)).print [rflags, efer]
  let cs ← onVmm (SegReg.cs.attrs.load vm.vmcb)
  let ds ← onVmm (SegReg.ds.attrs.load vm.vmcb)
  (Format.ofString "cs.attrs=%x, ds.attrs=%x\n" (by decide)).print [cs, ds]
  let info1 ← onVmm (Vmcb.exitinfo1.load vm.vmcb)
  let info2 ← onVmm (Vmcb.exitinfo2.load vm.vmcb)
  (Format.ofString "error_code=%x, fault address=%x\n" (by decide)).print [info1, info2]
  let info ← onVmm (Vmcb.exitinfo1.load vm.vmcb)
  (if info &&& 1 ≠ 0 then
    (Format.ofString "page fault was caused by a page-protection violation\n" (by decide)).print []
  else
    (Format.ofString "page fault was caused by a not-present page\n" (by decide)).print [])
  let info ← onVmm (Vmcb.exitinfo1.load vm.vmcb)
  (if info &&& 2 ≠ 0 then
    (Format.ofString "memory access was write\n" (by decide)).print []
  else
    (Format.ofString "memory access was read\n" (by decide)).print [])
  let info ← onVmm (Vmcb.exitinfo1.load vm.vmcb)
  (if info &&& 4 ≠ 0 then
    (Format.ofString "an access in user mode caused the page fault\n" (by decide)).print []
  else
    (Format.ofString "an access in supervisor mode caused the page fault\n" (by decide)).print [])

/-! ## The report -/

/-- The characters of a string. -/
def chars (s : String) : List UInt8 := s.toList.map Char.toUInt8

/-- What is printed for `%x`. -/
def hex (w : UInt64) : List UInt8 := chars "0x" ++ hexNumeral w

/-- How an exit code is shown.  Only its low half counts, with its sign. -/
def exitcodeName (x : Int32) : List UInt8 :=
  if x = VMEXIT_EXCEPTION_PF then chars "EXCP (page fault)"
  else if x = VMEXIT_NPF then chars "NPF (nested-paging: host-level page fault)"
  else if x = VMEXIT_INVALID then chars "INVALID"
  else hex (toULong x)

/-- The fields of the VMCB in frame `n` as words. -/
def fieldWord (n : Nat) (s : State) (f : VmcbField) : UInt64 := UInt64.ofNat (f.value n s)

/-- What `handle_vmexit` prints. -/
def exitReport (n : Nat) (s : State) : List UInt8 :=
  let word := fieldWord n s
  let info := word Vmcb.exitinfo1
  List.flatten [
    chars "********************\n",
    chars "#VMEXIT: ", exitcodeName (ofULong (word Vmcb.exitcode)), chars "\n",
    chars "VMCB: rip=", hex (word Vmcb.rip), chars "\n",
    chars "cpl=", hex (word Vmcb.cpl), chars "\n",
    chars "cr0=", hex (word Vmcb.cr0), chars ", cr3=", hex (word Vmcb.cr3),
    chars ", cr4=", hex (word Vmcb.cr4), chars "\n",
    chars "rflags=", hex (word Vmcb.rflags), chars ", efer=", hex (word Vmcb.efer), chars "\n",
    chars "cs.attrs=", hex (word SegReg.cs.attrs), chars ", ds.attrs=",
    hex (word SegReg.ds.attrs), chars "\n",
    chars "error_code=", hex info, chars ", fault address=", hex (word Vmcb.exitinfo2),
    chars "\n",
    if info &&& 1 ≠ 0 then chars "page fault was caused by a page-protection violation\n"
    else chars "page fault was caused by a not-present page\n",
    if info &&& 2 ≠ 0 then chars "memory access was write\n"
    else chars "memory access was read\n",
    if info &&& 4 ≠ 0 then chars "an access in user mode caused the page fault\n"
    else chars "an access in supervisor mode caused the page fault\n"]

section Report

variable {n : Nat}

theorem Says.of_eq {t t' : State → List UInt8} {c : Exec PrintfState Stop Unit}
    (h : Says n t c) (heq : ∀ s, t' s = t s) : Says n t' c := by
  obtain rfl : t' = t := funext heq
  exact h

/-- A line of the report. -/
theorem says_line (hn : n ≠ 0xb8) (cs : List UInt8) {f : Format} {ws : List UInt64}
    (h : f.text ws = cs) : Says n (fun _ => cs) (f.print ws) :=
  h ▸ says_print hn f ws

theorem says_printVmexitExitcode (hn : n ≠ 0xb8) (x : Int32) :
    Says n (fun _ => chars "#VMEXIT: " ++ (exitcodeName x ++ chars "\n"))
      (printVmexitExitcode x) := by
  unfold printVmexitExitcode exitcodeName
  refine Says.bind (says_line hn _ rfl) (Says.bind ?_ (says_line hn _ rfl))
  refine Says.ite (says_line hn _ rfl) (Says.ite (says_line hn _ rfl)
    (Says.ite (says_line hn _ rfl) ?_))
  exact says_line hn _ (List.append_nil (hex (toULong x)))

/-- `handle_vmexit` prints the report, line by line. -/
theorem says_handleVmexit (hn : Addressable n) (hvideo : n ≠ 0xb8) (hCr3 mbi : UInt64) :
    Says n (exitReport n) (handleVmexit ⟨frameVaddr n, hCr3, mbi⟩) := by
  refine Says.of_eq (Says.bind (says_line hvideo (chars "********************\n") rfl) <|
    Says.load _ hn fun exitcode =>
    Says.bind (says_printVmexitExitcode hvideo _) <|
    Says.load _ hn fun rip =>
    Says.bind (says_line hvideo (chars "VMCB: rip=" ++ (hex rip ++ chars "\n")) rfl) <|
    Says.load _ hn fun cpl =>
    Says.bind (says_line hvideo (chars "cpl=" ++ (hex cpl ++ chars "\n")) rfl) <|
    Says.load _ hn fun cr0 => Says.load _ hn fun cr3 => Says.load _ hn fun cr4 =>
    Says.bind (says_line hvideo (chars "cr0=" ++ (hex cr0 ++ (chars ", cr3=" ++ (hex cr3 ++
      (chars ", cr4=" ++ (hex cr4 ++ chars "\n")))))) rfl) <|
    Says.load _ hn fun rflags => Says.load _ hn fun efer =>
    Says.bind (says_line hvideo (chars "rflags=" ++ (hex rflags ++ (chars ", efer=" ++
      (hex efer ++ chars "\n")))) rfl) <|
    Says.load _ hn fun cs => Says.load _ hn fun ds =>
    Says.bind (says_line hvideo (chars "cs.attrs=" ++ (hex cs ++ (chars ", ds.attrs=" ++
      (hex ds ++ chars "\n")))) rfl) <|
    Says.load _ hn fun info1 => Says.load _ hn fun info2 =>
    Says.bind (says_line hvideo (chars "error_code=" ++ (hex info1 ++ (chars ", fault address=" ++
      (hex info2 ++ chars "\n")))) rfl) <|
    Says.load _ hn fun _ =>
    Says.bind (Says.ite
      (says_line hvideo (chars "page fault was caused by a page-protection violation\n") rfl)
      (says_line hvideo (chars "page fault was caused by a not-present page\n") rfl)) <|
    Says.load _ hn fun _ =>
    Says.bind (Says.ite (says_line hvideo (chars "memory access was write\n") rfl)
      (says_line hvideo (chars "memory access was read\n") rfl)) <|
    Says.load _ hn fun _ =>
    Says.ite (says_line hvideo (chars "an access in user mode caused the page fault\n") rfl)
      (says_line hvideo (chars "an access in supervisor mode caused the page fault\n") rfl))
    fun s => ?_
  simp only [exitReport, fieldWord, List.flatten_cons, List.flatten_nil, List.append_assoc,
    List.append_nil]
  rfl

end Report

end Tvmm
