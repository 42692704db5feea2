import Tvmm.Console

/-!
# `printf.c`: the buffer of `printf`

`printf` formats into a static buffer and prints what it finds there, up to a NUL.
`vsnprintf` leaves the NUL out where the text is as long as the buffer or longer, and
then `putstr` reads behind the buffer.

* `EndsInside`: the text is shorter than the buffer, or has a NUL of its own in time;
* `printf_terminated`: this is exactly when there is a NUL in the buffer, and when
  `printf` reads its buffer only and prints no more than the text;
* `endsInside_iff`: without a `%c`, only the length counts.
-/

set_option linter.style.nameCheck false

namespace Tvmm

open Exec CInt

/-! ## The code -/

def BUF_SIZE : UInt64 := 1024

/-- The console, and `static char buf [ BUF_SIZE ]` with what lies behind it. -/
structure PrintfState where
  console : Console
  buf : CharBuf

namespace PrintfState

/-- `printf` -/
def printf (fmt : CString) (args : VaList) : Exec PrintfState Stop Unit := do
  let _ ← zoom buf (fun st b => { st with buf := b }) (vsnprintf BUF_SIZE fmt args)
  let st ← get
  zoom console (fun st con => { st with console := con }) (putstr st.buf.bytes)

/-- A call returns, has read below `size` only, and has printed what `cs` starts with. -/
def PrintsInside (size : Nat) (cs : List UInt8) (c : Exec PrintfState Stop Unit)
    (st : PrintfState) : Prop :=
  ∃ st', c st = .ok ((), st') ∧
    (∃ ks, st'.console.reads = ks ++ st.console.reads ∧ ∀ k ∈ ks, k < size) ∧
    ∃ text, text <+: cs ∧
      st'.console.Shows (st.console.terminal.print 80 25 '\n'.toUInt8 text)

end PrintfState

/-! ## The NUL -/

/-- The text leaves room for the NUL behind it, or has one among its first `size`
characters. -/
def EndsInside (size : Nat) (cs : List UInt8) : Prop := cs.length < size ∨ 0 ∈ cs.take size

instance (size : Nat) (cs : List UInt8) : Decidable (EndsInside size cs) :=
  inferInstanceAs (Decidable (_ ∨ _))

/-- Without a `%c` only the length counts. -/
theorem endsInside_iff {ds : List Directive} (h : Directive.char ∉ ds) (args : VaList)
    (size : Nat) : EndsInside size (expand ds args) ↔ (expand ds args).length < size :=
  or_iff_left fun hmem => nul_notMem_expand h args (List.mem_of_mem_take hmem)

section Buffer

variable {size : Nat} {cs : List UInt8} {inside : Prop} {b b' : CharBuf}

theorem Prints.bytes_of_lt (h : Prints size 0 (cs ++ [0]) inside b b') {k : Nat}
    (hk : k < cs.length) (hlt : k < size) : b'.bytes k = cs[k] := by
  have hget : (cs ++ [0])[k]? = some cs[k] := by
    rw [List.getElem?_append_left hk, List.getElem?_eq_getElem hk]
  have hshown := h.shown k cs[k] hget (by omega)
  rwa [Nat.zero_add] at hshown

theorem Prints.bytes_length (h : Prints size 0 (cs ++ [0]) inside b b')
    (hlt : cs.length < size) : b'.bytes cs.length = 0 := by
  have hshown := h.shown cs.length 0 (List.getElem?_concat_length ..) (by omega)
  rwa [Nat.zero_add] at hshown

/-- A NUL is in the buffer exactly if the text ends there. -/
theorem Prints.nul_iff (h : Prints size 0 (cs ++ [0]) inside b b') :
    (∃ k, k < size ∧ b'.bytes k = 0) ↔ EndsInside size cs := by
  constructor
  · rintro ⟨k, hk, hnul⟩
    by_cases hlen : cs.length < size
    · exact Or.inl hlen
    · have hcs : k < cs.length := by omega
      rw [h.bytes_of_lt hcs hk] at hnul
      exact Or.inr (List.mem_take_iff_getElem.mpr ⟨k, by omega, hnul⟩)
  · rintro (hlen | hmem)
    · exact ⟨cs.length, hlen, h.bytes_length hlen⟩
    · obtain ⟨k, hk, hnul⟩ := List.mem_take_iff_getElem.mp hmem
      exact ⟨k, by omega, by rw [h.bytes_of_lt (by omega) (by omega), hnul]⟩

/-- What is before the first NUL in the buffer is a part of the text. -/
theorem Prints.textOf_prefix (h : Prints size 0 (cs ++ [0]) inside b b') {n : Nat}
    (hn : n < size) (hne : ∀ k, k < n → b'.bytes k ≠ 0) : textOf b'.bytes n <+: cs := by
  have hle : n ≤ cs.length := by
    by_contra hlt
    exact hne cs.length (by omega) (h.bytes_length (by omega))
  have htake : textOf b'.bytes n = cs.take n := by
    refine List.ext_getElem (by simp [textOf, hle]) fun k h₁ h₂ => ?_
    have hk : k < n := by
      rwa [textOf, List.length_map, List.length_range] at h₁
    rw [List.getElem_take, ← h.bytes_of_lt (by omega) (by omega)]
    simp [textOf]
  rw [htake]
  exact List.take_prefix n cs

end Buffer

/-! ## `printf` -/

section Printf

variable {fmt : CString} {ds : List Directive} {args : VaList}

theorem vsnprintf_nul_iff (hfmt : IsFormat fmt ds) (hlen : (expand ds args).length < 2 ^ 31)
    {size : UInt64} (hsize : 0 < size) (b : CharBuf) :
    (∃ j b', vsnprintf size fmt args b = .ok (j, b') ∧ ∃ k, k < size.toNat ∧ b'.bytes k = 0) ↔
      EndsInside size.toNat (expand ds args) := by
  obtain ⟨b', hrun, hprints⟩ := vsnprintf_prints hfmt hsize hlen b
  rw [← hprints.nul_iff]
  constructor
  · rintro ⟨j, b'', hrun', hnul⟩
    rw [hrun] at hrun'
    cases hrun'
    exact hnul
  · exact fun hnul => ⟨_, b', hrun, hnul⟩

/-- `printf` prints what is in its buffer then. -/
theorem printf_eq (hfmt : IsFormat fmt ds) (hlen : (expand ds args).length < 2 ^ 31)
    (st : PrintfState) : ∃ b' inside, Prints 1024 0 (expand ds args ++ [0]) inside st.buf b' ∧
      PrintfState.printf fmt args st =
        zoom PrintfState.console (fun st con => { st with console := con }) (putstr b'.bytes)
          { st with buf := b' } := by
  obtain ⟨b', hrun, hprints⟩ :=
    vsnprintf_prints hfmt (show 0 < BUF_SIZE by decide) hlen st.buf
  refine ⟨b', _, hprints, ?_⟩
  rw [PrintfState.printf, bind_of_ok (zoom_of_ok hrun)]
  rfl

theorem printf_inside_iff (hfmt : IsFormat fmt ds) (hlen : (expand ds args).length < 2 ^ 31)
    {st : PrintfState} (hcur : OnScreen st.console.scrInfo.origX st.console.scrInfo.origY) :
    st.PrintsInside 1024 (expand ds args) (PrintfState.printf fmt args) ↔
      EndsInside 1024 (expand ds args) := by
  obtain ⟨sc, hsc, hshows⟩ := Console.exists_screen hcur
  obtain ⟨b', inside, hprints, heq⟩ := printf_eq hfmt hlen st
  rw [← hprints.nul_iff, PrintfState.PrintsInside, heq]
  constructor
  · rintro ⟨st', hrun, ⟨ks, hks, hlt⟩, -⟩
    obtain ⟨con', hput, rfl⟩ := zoom_eq_ok.mp hrun
    obtain ⟨n, hnul, hreads⟩ := putstr_reads hsc hput
    obtain rfl := List.append_cancel_right (hks.symm.trans hreads)
    exact ⟨n, hlt n (List.mem_reverse.mpr (List.mem_range.mpr (Nat.lt_succ_self n))), hnul⟩
  · intro hnul
    obtain ⟨hn, hz⟩ := Nat.find_spec hnul
    have hne : ∀ k, k < Nat.find hnul → b'.bytes k ≠ 0 := fun k hk hk0 =>
      Nat.find_min hnul hk ⟨by omega, hk0⟩
    obtain ⟨_, con', hput, hputs, hreads⟩ :=
      exists_ok_of_wp (wp_putstr (E := fun _ => False) hne hz (by omega) hsc)
    refine ⟨_, zoom_of_ok hput, ⟨_, hreads, fun k hk => ?_⟩, _, hprints.textOf_prefix hn hne,
      hputs.screen.shows (hshows.print _)⟩
    rw [List.mem_reverse, List.mem_range] at hk
    omega

/-- A NUL is in the buffer exactly if the text ends inside of it, whatever the buffer held
before, and exactly then `printf` reads its buffer only and prints no more than the text. -/
theorem printf_terminated (hfmt : IsFormat fmt ds) (hlen : (expand ds args).length < 2 ^ 31) :
    (∀ (size : UInt64) (b : CharBuf), 0 < size →
      ((∃ j b', vsnprintf size fmt args b = .ok (j, b') ∧
          ∃ k, k < size.toNat ∧ b'.bytes k = 0) ↔
        EndsInside size.toNat (expand ds args))) ∧
    ∀ st : PrintfState, OnScreen st.console.scrInfo.origX st.console.scrInfo.origY →
      (st.PrintsInside 1024 (expand ds args) (PrintfState.printf fmt args) ↔
        EndsInside 1024 (expand ds args)) :=
  ⟨fun _ b hsize => vsnprintf_nul_iff hfmt hlen hsize b,
    fun _ hcur => printf_inside_iff hfmt hlen hcur⟩

/-- The format of `parse_cmdline` -/
def cmdlineFormat : CString where
  chars := "Command line: %s\n".toList.map Char.toUInt8
  nul := by decide
  length_lt := by decide

def cmdlineDirectives : List Directive :=
  Directive.ordinaries ("Command line: ".toList.map Char.toUInt8) (by decide) (by decide) ++
    [.str, .ordinary '\n'.toUInt8 (by decide)]

/-- A command line of `n` characters -/
def cmdlineArgs (n : UInt16) : VaList := fun _ =>
  { word := 0
    str := ⟨List.replicate n.toNat 'a'.toUInt8,
      fun h => absurd (List.eq_of_mem_replicate h) (by decide), by
        rw [List.length_replicate]
        exact Nat.lt_trans n.toNat_lt (by decide)⟩ }

theorem length_expand_cmdline (n : UInt16) :
    (expand cmdlineDirectives (cmdlineArgs n)).length = n.toNat + 15 := by
  have hstr : (cmdlineArgs n 0).str.chars.length = n.toNat := List.length_replicate
  have htail : (expand [.str, .ordinary '\n'.toUInt8 (by decide)] (cmdlineArgs n)).length =
      n.toNat + 1 := by
    rw [expand, List.length_append, Directive.expand, hstr]
    rfl
  exact congrArg (· + 14) htail

/-- The console with the cursor in the first cell, and a buffer of zeros. -/
def samplePrintf : PrintfState where
  console := filledConsole
  buf := { bytes := fun _ => 0, stores := [] }

/-- A command line of 1008 characters fits into the buffer. -/
theorem sample_printf_terminated : samplePrintf.PrintsInside 1024
    (expand cmdlineDirectives (cmdlineArgs 1008))
    (PrintfState.printf cmdlineFormat (cmdlineArgs 1008)) := by
  have hfmt : IsFormat cmdlineFormat cmdlineDirectives := rfl
  have hlen := length_expand_cmdline 1008
  have hends : EndsInside 1024 (expand cmdlineDirectives (cmdlineArgs 1008)) :=
    Or.inl (by rw [hlen]; decide)
  exact ((printf_terminated hfmt (by rw [hlen]; decide)).2 samplePrintf (by decide)).mpr hends

/-- With a command line of 1009 characters, no NUL is in the buffer, and `printf` does not
only read there. -/
theorem printf_not_terminated : (∃ j b',
      vsnprintf 1024 cmdlineFormat (cmdlineArgs 1009) samplePrintf.buf = .ok (j, b') ∧
      ¬∃ k, k < 1024 ∧ b'.bytes k = 0) ∧
    ¬samplePrintf.PrintsInside 1024 (expand cmdlineDirectives (cmdlineArgs 1009))
      (PrintfState.printf cmdlineFormat (cmdlineArgs 1009)) := by
  have hfmt : IsFormat cmdlineFormat cmdlineDirectives := rfl
  have hlen := length_expand_cmdline 1009
  have hlt : (expand cmdlineDirectives (cmdlineArgs 1009)).length < 2 ^ 31 := by
    rw [hlen]
    decide
  have hends : ¬EndsInside 1024 (expand cmdlineDirectives (cmdlineArgs 1009)) := by
    rw [endsInside_iff (by simp [cmdlineDirectives, Directive.ordinaries]), hlen]
    decide
  refine ⟨?_, fun h => hends ((printf_inside_iff hfmt hlt (by decide)).mp h)⟩
  obtain ⟨b', hrun, hprints⟩ :=
    vsnprintf_prints hfmt (show (0 : UInt64) < 1024 by decide) hlt samplePrintf.buf
  exact ⟨_, b', hrun, fun hnul => hends (hprints.nul_iff.mp hnul)⟩

end Printf

end Tvmm
