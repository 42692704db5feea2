import Tvmm.ElfOverlap
import Tvmm.Report

/-!
# `elf.c`: the loader and its message

Before it returns, `load_elf_image` prints a line.  Here the call of `printf` stores what
it prints in the video memory; its `buf` and `scr_info` lie beside the memory.  Apart from
the video memory a load with the message does what a load without it does
(`loadElfImagePrinting_of_run`).

* `loadElfImagePrinting_contained`: when nothing outside the memory of the VM changes;
* `loadElfImagePrinting_lastCovering`: of the segments that cover a byte the last one in
  the header table decides it, and nothing else changes.
-/

namespace Tvmm

open Exec CInt

/-- The physical memory. -/
def PrintfState.mem (st : PrintfState) : ByteMem := st.console.machine.mem

/-- The same console with the machine `s`. -/
def PrintfState.setMachine (st : PrintfState) (s : State) : PrintfState :=
  { st with console := { st.console with machine := s } }

theorem exists_onScreen :
    ∃ st : PrintfState, OnScreen st.console.scrInfo.origX st.console.scrInfo.origY :=
  ⟨samplePrintf, by decide⟩

/-- What `load_elf_image` prints. -/
def elfLoaded : Format := Format.ofString "ELF image loaded.\n" (by decide)

/-- `load_elf_image` -/
def loadElfImagePrinting (guestImageStart guestImageSize vmPmemStart : UInt64) :
    Exec PrintfState Stop UInt64 :=
  loadElfImageWith onVmm (elfLoaded.print []) guestImageStart guestImageSize vmPmemStart

/-! ## With the message and without it -/

theorem onVmm_eq_ok {α : Type} {c : M α} {st st' : PrintfState} {a : α} :
    onVmm c st = .ok (a, st') ↔
      ∃ s, c st.console.machine = .ok (a, s) ∧ st' = st.setMachine s := by
  rw [onVmm, onMachine, zoom_eq_ok]
  constructor
  · rintro ⟨con, hcon, rfl⟩
    obtain ⟨s, hs, rfl⟩ := zoom_eq_ok.mp hcon
    exact ⟨s, hs, rfl⟩
  · rintro ⟨s, hs, rfl⟩
    exact ⟨_, zoom_of_ok hs, rfl⟩

theorem onVmm_of_ok {α : Type} {c : M α} {st : PrintfState} {s : State} {a : α}
    (h : c st.console.machine = .ok (a, s)) : onVmm c st = .ok (a, st.setMachine s) :=
  onVmm_eq_ok.mpr ⟨s, h, rfl⟩

theorem Format.exists_print {st : PrintfState} {sc : Screen} (f : Format) (ws : List UInt64)
    (h : st.console.HasScreen sc) : ∃ st', f.print ws st = .ok ((), st') ∧
      Puts (sc.print (f.text ws)) st.console st'.console := by
  have hfmt : IsFormat f.cString (directives f.1) := f.2.2.1
  obtain ⟨_, st', hrun, hputs⟩ := exists_ok_of_wp
    (wp_printf (E := fun _ => False) hfmt (f.length_text_lt ws) f.char_notMem h)
  exact ⟨st', hrun, hputs⟩

section Message

variable {img imgSize start entry : UInt64} {st st' : PrintfState} {s' : State}

/-- A load that returns without the message returns with it, and has printed it. -/
theorem loadElfImagePrinting_screen (st : PrintfState) {sc : Screen}
    (hsc : (st.setMachine s').console.HasScreen sc)
    (hrun : loadElfImage img imgSize start st.console.machine = .ok (entry, s')) :
    ∃ entry' st', loadElfImagePrinting img imgSize start st = .ok (entry', st') ∧
      st'.mem = (sc.print (elfLoaded.text [])).mem ∧
      (Disjoint (physBytes (img + 24) 4) videoBytes → entry' = entry) := by
  rw [loadElfImage, loadElfImageWith] at hrun
  obtain ⟨_, s₁, hload, hrun⟩ := bind_eq_ok.mp hrun
  rw [printf_bind] at hrun
  obtain ⟨e, s₂, hentry, hpure⟩ := bind_eq_ok.mp hrun
  obtain ⟨rfl, a, ha, rfl⟩ := load32_eq_ok.mp hentry
  cases hpure
  obtain ⟨st₂, hprint, hputs⟩ := elfLoaded.exists_print [] hsc
  have hmem : st₂.mem = (sc.print (elfLoaded.text [])).mem := hputs.screen.mem
  have hentry' : eEntry img st₂.console.machine =
      .ok (UInt32.ofNat (st₂.mem.readLE a 4), st₂.console.machine) :=
    load32_eq_ok.mpr ⟨rfl, a, ha, rfl⟩
  refine ⟨(UInt32.ofNat (st₂.mem.readLE a 4)).toUInt64, st₂, ?_, hmem, fun hapart => ?_⟩
  · rw [loadElfImagePrinting, loadElfImageWith, bind_of_ok (onVmm_of_ok hload),
      bind_of_ok hprint, bind_of_ok (onVmm_of_ok hentry')]
    rfl
  · have hsub : Set.Ico a (a + 4) ⊆ physBytes (img + 24) 4 := Mapped.subset_physBytes fun _ => ha
    have hsc' : s'.mem = sc.mem := hsc.mem
    rw [hmem, hsc', ByteMem.readLE_congr fun x hx =>
      Screen.print_eqOn sc _ (Set.disjoint_left.mp hapart (hsub hx))]

/-- Then the message is all that is different. -/
theorem loadElfImagePrinting_of_run (st : PrintfState)
    (hcur : OnScreen st.console.scrInfo.origX st.console.scrInfo.origY)
    (hrun : loadElfImage img imgSize start st.console.machine = .ok (entry, s')) :
    ∃ entry' st', loadElfImagePrinting img imgSize start st = .ok (entry', st') ∧
      Set.EqOn st'.mem s'.mem videoBytesᶜ ∧
      (Disjoint (physBytes (img + 24) 4) videoBytes → entry' = entry) := by
  have hcur' : OnScreen (st.setMachine s').console.scrInfo.origX
      (st.setMachine s').console.scrInfo.origY := hcur
  obtain ⟨sc, hsc, -⟩ := Console.exists_screen hcur'
  obtain ⟨entry', st', hprinting, hmem, hentry⟩ := loadElfImagePrinting_screen st hsc hrun
  have hsc' : s'.mem = sc.mem := hsc.mem
  refine ⟨entry', st', hprinting, ?_, hentry⟩
  rw [hmem, hsc']
  exact Screen.print_eqOn sc _

/-- And the other way round. -/
theorem run_of_loadElfImagePrinting
    (hcur : OnScreen st.console.scrInfo.origX st.console.scrInfo.origY) {entry' : UInt64}
    (hrun : loadElfImagePrinting img imgSize start st = .ok (entry', st')) :
    ∃ entry s', loadElfImage img imgSize start st.console.machine = .ok (entry, s') ∧
      Set.EqOn st'.mem s'.mem videoBytesᶜ := by
  have hprinting := hrun
  rw [loadElfImagePrinting, loadElfImageWith] at hrun
  obtain ⟨_, st₁, hload, hrun⟩ := bind_eq_ok.mp hrun
  obtain ⟨s₁, hload, -⟩ := onVmm_eq_ok.mp hload
  obtain ⟨_, st₂, -, hrun⟩ := bind_eq_ok.mp hrun
  obtain ⟨e, st₃, hentry, -⟩ := bind_eq_ok.mp hrun
  obtain ⟨s₂, hentry, -⟩ := onVmm_eq_ok.mp hentry
  obtain ⟨-, a, ha, -⟩ := load32_eq_ok.mp hentry
  have hentry₁ : eEntry img s₁ = .ok (UInt32.ofNat (s₁.mem.readLE a 4), s₁) :=
    load32_eq_ok.mpr ⟨rfl, a, ha, rfl⟩
  have hquiet : loadElfImage img imgSize start st.console.machine =
      .ok ((UInt32.ofNat (s₁.mem.readLE a 4)).toUInt64, s₁) := by
    rw [loadElfImage, loadElfImageWith, bind_of_ok hload, printf_bind, bind_of_ok hentry₁]
    rfl
  obtain ⟨_, _, hrun', hmem, -⟩ := loadElfImagePrinting_of_run st hcur hquiet
  rw [hprinting] at hrun'
  cases hrun'
  exact ⟨_, s₁, hquiet, hmem⟩

end Message

/-! ## Containment -/

/-- A load that returns leaves everything alone but the `size` bytes of the VM and the
video memory. -/
def Contained (img imgSize start : UInt64) (size : Nat) (st : PrintfState) : Prop :=
  ∀ entry st', loadElfImagePrinting img imgSize start st = .ok (entry, st') →
    Set.EqOn st'.mem st.mem (physBytes start size ∪ videoBytes)ᶜ

/-- Every loadable segment of the image at `a` lies in a VM with `size` bytes. -/
def SegmentsFit (m : ByteMem) (a size : Nat) : Prop :=
  ∀ i, i < imagePhnum m a → (segment m a i).Loadable → (segment m a i).memsz.toNat ≠ 0 →
    (segment m a i).stop ≤ size

/-- The headers and the file bytes of an image lie in the `n` bytes at `a`, and its
segments in the first `reach` bytes from the start of the VM, which are mapped at `b` and
neither in the image nor on the screen. -/
structure ImageReach (m : ByteMem) (a n b reach : Nat) (img start : UInt64) : Prop where
  loadable : LoadableImage m a n reach
  image : bootTranslate img n = some a
  vm : Mapped start reach b
  apart : Disjoint (Set.Ico a (a + n)) (Set.Ico b (b + reach))
  video : Disjoint videoBytes (Set.Ico b (b + reach))

section Contained

variable {img imgSize start : UInt64} {m : ByteMem} {a n b reach size : Nat}
  {st : PrintfState}

theorem Contained.of_headersFit
    (hcur : OnScreen st.console.scrInfo.origX st.console.scrInfo.origY)
    (h : HeadersFit img start size st.console.machine) : Contained img imgSize start size st := by
  intro entry st' hrun x hx
  obtain ⟨_, s', hquiet, hmem⟩ := run_of_loadElfImagePrinting hcur hrun
  have hw : OnlyWrites (physBytes start size) st.console.machine s' :=
    wp_ok (wp_loadElfImage_headersFit (E := fun _ => True) (fun _ => trivial) h) hquiet
  rw [hmem fun hv => hx (Or.inr hv)]
  exact hw.mem fun hp => hx (Or.inl hp)

namespace ImageReach

/-- The image in a machine that has it. -/
theorem loadLayout (h : ImageReach m a n b reach img start) {s : State}
    (heq : Set.EqOn s.mem m (Set.Ico a (a + n))) : LoadLayout img start a n b reach s :=
  ⟨(h.loadable.copied (.of_eqOn heq)).2.2, h.image, h.vm.mapsTo, h.apart⟩

/-- A byte of the VM that a loadable segment covers depends on the image only. -/
theorem loadedByte_eq (h : ImageReach m a n b reach img start) {m' : ByteMem}
    (heq : Set.EqOn m' m (Set.Ico a (a + n))) {i x : Nat} (hi : i < imagePhnum m a)
    (hl : (segment m a i).Loadable) (hx : (segment m a i).Covers x) :
    loadedByte m' a b (imagePhnum m' a) x = loadedByte m a b (imagePhnum m a) x := by
  obtain ⟨hnum, hseg, -⟩ := h.loadable.copied (.of_eqOn heq)
  obtain ⟨p, hp⟩ := exists_lastCovering hi hl hx
  obtain ⟨j, hj, rfl, hjl, hjx⟩ := lastCovering_eq_some hp
  rw [loadedByte, loadedByte, hnum, lastCovering_congr hseg, hp]
  dsimp only
  unfold segmentByte
  split_ifs with hk
  · have hfile := h.loadable.file j hj hjl (by omega)
    exact heq (Set.mem_Ico.mpr (by omega))
  · rfl

/-- A load into a memory with this image leaves in every byte of the VM that a loadable
segment covers what the image has for it. -/
theorem load_mem (h : ImageReach m a n b reach img start) (st : PrintfState)
    (hcur : OnScreen st.console.scrInfo.origX st.console.scrInfo.origY)
    (heq : Set.EqOn st.mem m (Set.Ico a (a + n))) {i x : Nat} (hi : i < imagePhnum m a)
    (hl : (segment m a i).Loadable) (hx : (segment m a i).Covers x) :
    ∃ entry st', loadElfImagePrinting img imgSize start st = .ok (entry, st') ∧
      st'.mem (b + x) = loadedByte m a b (imagePhnum m a) x := by
  have hroom : x < reach := by
    rw [ElfPhdr.Covers] at hx
    have := h.loadable.room i hi hl (by rw [ElfPhdr.stop] at hx; omega)
    omega
  have hvideo : b + x ∉ videoBytes := fun hin =>
    Set.disjoint_left.mp h.video hin (Set.mem_Ico.mpr (by omega))
  obtain ⟨s', hquiet, -, hbytes⟩ := loadElfImage_lastCovering imgSize
    (h.loadLayout heq).loadable h.image h.vm h.apart
  obtain ⟨entry, st', hrun, hmem, -⟩ := loadElfImagePrinting_of_run st hcur hquiet
  refine ⟨entry, st', hrun, ?_⟩
  rw [hmem hvideo, hbytes x hroom]
  exact h.loadedByte_eq heq hi hl hx

/-- If the load is contained in every memory with this image, its segments fit. -/
theorem segmentsFit (h : ImageReach m a n b reach img start)
    (hall : ∀ st : PrintfState, OnScreen st.console.scrInfo.origX st.console.scrInfo.origY →
      Set.EqOn st.mem m (Set.Ico a (a + n)) → Contained img imgSize start size st) :
    SegmentsFit m a size := by
  intro i hi hl hpos
  by_contra hstop
  have hroom := h.loadable.room i hi hl hpos
  -- The last byte of the segment lies behind the VM, and is another one before the load.
  have hcovers : (segment m a i).Covers ((segment m a i).stop - 1) := by
    rw [ElfPhdr.Covers, ElfPhdr.stop]
    omega
  generalize hx : (segment m a i).stop - 1 = x at hcovers
  generalize hv : loadedByte m a b (imagePhnum m a) x = v
  obtain ⟨m', heq, hother⟩ : ∃ m' : ByteMem, Set.EqOn m' m (Set.Ico a (a + n)) ∧
      m' (b + x) = v + 1 := by
    refine ⟨Function.update m (b + x) (v + 1), fun y hy => ?_, Function.update_self _ _ _⟩
    apply Function.update_of_ne
    rintro rfl
    exact Set.disjoint_left.mp h.apart hy (Set.mem_Ico.mpr (by omega))
  obtain ⟨st, hcur⟩ := exists_onScreen
  let s : State := { st.console.machine with mem := m' }
  obtain ⟨_, st', hrun, hnew⟩ :=
    h.load_mem (st.setMachine s) hcur heq hi hl hcovers
  have hkept : st'.mem (b + x) = m' (b + x) := by
    apply hall (st.setMachine s) hcur heq _ st' hrun
    rintro (⟨k, hk, hk'⟩ | hin)
    · have := h.vm.mapsTo k 1 _ (by decide) (by omega) hk'
      omega
    · exact Set.disjoint_left.mp h.video hin (Set.mem_Ico.mpr (by omega))
  rw [hnew, hv, hother] at hkept
  simp at hkept

/-- If the segments of the image fit, the load is contained in every memory with it. -/
theorem contained (h : ImageReach m a n b reach img start) (hsize : size ≤ reach)
    (hfits : SegmentsFit m a size)
    (hcur : OnScreen st.console.scrInfo.origX st.console.scrInfo.origY)
    (heq : Set.EqOn st.mem m (Set.Ico a (a + n))) : Contained img imgSize start size st := by
  have heq : Set.EqOn st.console.machine.mem m (Set.Ico a (a + n)) := heq
  refine Contained.of_headersFit hcur (LoadLayout.headersFit (a := a) (n := n) (b := b) ?_)
  obtain ⟨hnum, hseg, hl⟩ := h.loadable.copied (.of_eqOn heq)
  refine ⟨{ hl with room := fun i hi => ?_ }, h.image, fun k j c hj hk => ?_, ?_⟩
  · rw [hseg i (hnum ▸ hi)]
    exact hfits i (hnum ▸ hi)
  · exact h.vm.mapsTo k j c hj (by omega)
  · exact h.apart.mono_right (Set.Ico_subset_Ico_right (by omega))

end ImageReach

/-- Nothing outside the memory of the VM changes, the console apart, when the headers fit
before the load.  For an image that has its headers and file bytes in one piece this is
needed: if a segment does not fit, the load is not contained in some memory with this
image. -/
theorem loadElfImagePrinting_contained (img imgSize start : UInt64) (size : Nat) :
    (∀ st : PrintfState, OnScreen st.console.scrInfo.origX st.console.scrInfo.origY →
      HeadersFit img start size st.console.machine → Contained img imgSize start size st) ∧
    ∀ m a n b reach, ImageReach m a n b reach img start → size ≤ reach →
      ((∀ st : PrintfState, OnScreen st.console.scrInfo.origX st.console.scrInfo.origY →
        Set.EqOn st.mem m (Set.Ico a (a + n)) → Contained img imgSize start size st) ↔
      SegmentsFit m a size) :=
  ⟨fun _ hcur h => .of_headersFit hcur h, fun _ _ _ _ _ h hsize =>
    ⟨h.segmentsFit, fun hfits _ hcur heq => h.contained hsize hfits hcur heq⟩⟩

end Contained

theorem sampleElf_segmentsFit_iff (p : ElfPhdr) (size : Nat) :
    SegmentsFit (sampleElf p) 0x800000 size ↔
      (p.Loadable → p.memsz.toNat ≠ 0 → p.stop ≤ size) := by
  unfold SegmentsFit
  rw [(sampleElf_header p).1]
  constructor
  · intro h
    have := h 0 Nat.one_pos
    rwa [sampleElf_segment] at this
  · intro h i hi
    obtain rfl : i = 0 := Nat.lt_one_iff.mp hi
    rwa [sampleElf_segment]

/-- The sample image at 8 MB, and a VM of at most 4 MB at 16 MB. -/
theorem sampleElf_imageReach : ImageReach (sampleElf samplePhdr) 0x800000 0x100000 0x1000000
    0x400000 (VIRT 0x800000) (VIRT 0x1000000) := by
  have himage : ImageLayout 0x800000 0x100000 0x1000000 0x400000 (sampleLoad samplePhdr) :=
    (sampleLoad_hasSampleElf samplePhdr).imageLayout (by decide) (by decide) (by decide)
      (by decide) (by decide) (by decide)
  have hlayout := himage.loadLayout
  have hvm : bootTranslate (VIRT 0x1000000) 0x400000 = some 0x1000000 := by decide
  constructor
  · exact hlayout.loadable
  · exact hlayout.image
  · exact fun _ => hvm
  · exact hlayout.apart
  · exact Set.Ico_disjoint_Ico.mpr (by decide)

/-- It is loaded into a VM of 4 MB, and not contained in a VM of one page. -/
theorem sample_loadElfImagePrinting_contained :
    (∃ entry st', loadElfImagePrinting (VIRT 0x800000) 0x100000 (VIRT 0x1000000)
        (samplePrintf.setMachine (sampleLoad samplePhdr)) = .ok (entry, st') ∧
      Set.EqOn st'.mem (sampleElf samplePhdr)
        (physBytes (VIRT 0x1000000) 0x400000 ∪ videoBytes)ᶜ) ∧
    ∃ st : PrintfState, Set.EqOn st.mem (sampleElf samplePhdr) (Set.Ico 0x800000 0x900000) ∧
      ¬Contained (VIRT 0x800000) 0x100000 (VIRT 0x1000000) 0x1000 st := by
  have hcur : OnScreen samplePrintf.console.scrInfo.origX
      samplePrintf.console.scrInfo.origY := by decide
  constructor
  · have h := sampleLoad_hasSampleElf samplePhdr
    obtain ⟨_, s', hquiet, -⟩ := h.loadElfImage (n := 0x100000) 0x400000
      (by decide) (by decide) (by decide) (by decide) (by decide) (by decide) (by decide)
      0x100000
    have hfits : HeadersFit (VIRT 0x800000) (VIRT 0x1000000) 0x400000
        (sampleLoad samplePhdr) :=
      (h.imageLayout (n := 0x100000) (by decide) (by decide) (by decide) (by decide)
        (by decide) (by decide)).loadLayout.headersFit
    obtain ⟨entry, st', hrun, -⟩ := loadElfImagePrinting_of_run
      (samplePrintf.setMachine (sampleLoad samplePhdr)) hcur hquiet
    exact ⟨entry, st', hrun,
      (loadElfImagePrinting_contained _ _ _ _).1
        (samplePrintf.setMachine (sampleLoad samplePhdr)) hcur hfits entry st' hrun⟩
  · have hiff := (loadElfImagePrinting_contained _ 0x100000 _ 0x1000).2 (sampleElf samplePhdr)
      0x800000 0x100000 0x1000000 0x400000 sampleElf_imageReach (by decide)
    rw [sampleElf_segmentsFit_iff] at hiff
    have hnot := mt hiff.mp (by decide)
    push Not at hnot
    obtain ⟨st, -, heq, h⟩ := hnot
    exact ⟨st, heq, h⟩

/-- A segment of one byte, behind the memory of a VM of one page.  The loader
writes there. -/
theorem loadElfImagePrinting_not_contained : ∃ st entry st',
    loadElfImagePrinting (VIRT 0x800000) 0x100000 (VIRT 0x1000000) st = .ok (entry, st') ∧
    ¬Set.EqOn st'.mem st.mem (physBytes (VIRT 0x1000000) 0x1000 ∪ videoBytes)ᶜ := by
  let p : ElfPhdr := ⟨PT_LOAD, 28, 0x1000, 1, 1, PF_X⟩
  have hcur : OnScreen samplePrintf.console.scrInfo.origX
      samplePrintf.console.scrInfo.origY := by decide
  obtain ⟨_, s', hquiet, hplace⟩ := (sampleLoad_hasSampleElf p).loadElfImage
    (n := 0x100000) 0x2000 (by decide) (by decide) (by decide) (by decide)
    (by decide) (by decide) (by decide) 0x100000
  obtain ⟨entry, st', hrun, hmem, -⟩ := loadElfImagePrinting_of_run
    (samplePrintf.setMachine (sampleLoad p)) hcur hquiet
  refine ⟨_, entry, st', hrun, fun heq => ?_⟩
  have hvideo : 0x1001000 ∉ videoBytes := by
    rw [Set.mem_Ico]
    decide
  have hnew : st'.mem 0x1001000 = 52 := by
    rw [hmem hvideo, show s'.mem 0x1001000 = _ from hplace 0 (by decide)]
    decide +kernel
  have hout : 0x1001000 ∈ (physBytes (VIRT 0x1000000) 0x1000 ∪ videoBytes)ᶜ := by
    rintro (hin | hin)
    · have := physBytes_VIRT (by decide) hin
      rw [Set.mem_Ico] at this
      exact absurd this (by decide)
    · exact hvideo hin
  have hold : (sampleLoad p).mem 0x1001000 = 0 := by decide +kernel
  rw [heq hout] at hnew
  exact absurd (hold.symm.trans hnew) (by decide)

/-! ## The postcondition -/

/-- After the load every byte of the memory of the VM is decided by the last accepted
header that covers it; nothing else has changed but the video memory; and the result is
`e_entry`, unless this field lies on the screen. -/
theorem loadElfImagePrinting_lastCovering (imgSize : UInt64) {img start : UInt64}
    {a b n size : Nat} (st : PrintfState)
    (hcur : OnScreen st.console.scrInfo.origX st.console.scrInfo.origY)
    (hloadable : LoadableImage st.mem a n size) (himage : bootTranslate img n = some a)
    (hvm : Mapped start size b)
    (hapart : Disjoint (Set.Ico a (a + n)) (Set.Ico b (b + size))) :
    ∃ entry st', loadElfImagePrinting img imgSize start st = .ok (entry, st') ∧
      (Disjoint (Set.Ico (a + 24) (a + 28)) videoBytes →
        entry = (imageEntry st.mem a).toUInt64) ∧
      Set.EqOn st'.mem st.mem (Set.Ico b (b + size) ∪ videoBytes)ᶜ ∧
      ∀ x, x < size → b + x ∉ videoBytes →
        st'.mem (b + x) = loadedByte st.mem a b (imagePhnum st.mem a) x := by
  obtain ⟨s', hquiet, hw, hbytes⟩ := loadElfImage_lastCovering
    (s := st.console.machine) imgSize hloadable himage hvm hapart
  obtain ⟨entry, st', hrun, hmem, hentry⟩ := loadElfImagePrinting_of_run st hcur hquiet
  refine ⟨entry, st', hrun, fun hfield => hentry (hfield.mono_left ?_), fun x hx => ?_,
    fun x hx hv => (hmem hv).trans (hbytes x hx)⟩
  · have hn := hloadable.ehdr
    rw [EHDR_SIZE] at hn
    have hpart : bootTranslate (img + UInt64.ofNat 24) 4 = some (a + 24) :=
      bootTranslate_add himage (by omega)
    exact Mapped.physBytes_subset fun _ => hpart
  · rw [hmem fun hv => hx (Or.inr hv)]
    exact hw.mem fun hb => hx (Or.inl hb)

/-- Of the bytes that both segments cover the second one decides. -/
theorem overlap_loadElfImagePrinting_lastCovering : ∃ st',
    loadElfImagePrinting (VIRT 0x800000) 0x100000 (VIRT 0x1000000)
      (samplePrintf.setMachine overlapLoad) = .ok (0x200000, st') ∧
    Set.EqOn st'.mem overlapElf (Set.Ico 0x1000000 0x1400000 ∪ videoBytes)ᶜ ∧
    st'.mem 0x1200900 = overlapElf 0x800100 := by
  obtain ⟨hnum, -, -, hentry⟩ := overlapElf_header
  obtain ⟨-, hs1⟩ := overlapElf_segment
  have himage : bootTranslate (VIRT 0x800000) 0x100000 = some 0x800000 := by decide
  have hvm : bootTranslate (VIRT 0x1000000) 0x400000 = some 0x1000000 := by decide
  have hcur : OnScreen samplePrintf.console.scrInfo.origX
      samplePrintf.console.scrInfo.origY := by decide
  obtain ⟨entry, st', hrun, hresult, heq, hbytes⟩ := loadElfImagePrinting_lastCovering
    0x100000 (samplePrintf.setMachine overlapLoad) hcur overlapElf_loadable himage
    (fun _ => hvm) (Set.Ico_disjoint_Ico.mpr (by decide))
  have hfield : Disjoint (Set.Ico (0x800000 + 24) (0x800000 + 28)) videoBytes :=
    Set.Ico_disjoint_Ico.mpr (by decide)
  have hmem : (samplePrintf.setMachine overlapLoad).mem = overlapElf := rfl
  rw [hmem] at hresult heq hbytes
  rw [hresult hfield, hentry] at hrun
  refine ⟨st', hrun, heq, ?_⟩
  have hvideo : 0x1000000 + 0x200900 ∉ videoBytes := by
    rw [Set.mem_Ico]
    decide
  have hbyte := hbytes 0x200900 (by decide) hvideo
  rwa [hnum, loadedByte_succ_of_covers (by rw [hs1]; decide) (by rw [hs1]; decide),
    hs1, segmentByte, if_pos (by decide)] at hbyte

/-- The first letter of the message, printed in the first cell. -/
theorem print_elfLoaded_first (m : ByteMem) :
    ((⟨m, 0, 0, by decide, by decide⟩ : Screen).print (elfLoaded.text [])).mem 0xB8000 = 69 := by
  have htext : elfLoaded.text [] = [69, 76, 70, 32, 105, 109, 97, 103, 101, 32, 108, 111, 97,
      100, 101, 100, 46, 10] := by decide +kernel
  have hnl : '\n'.toUInt8 = 10 := rfl
  rw [htext]
  simp [Screen.print, Screen.draw, Screen.write, Screen.nextRow, ByteMem.fill, cellAt, hnl]

/-- It appears on the screen. -/
theorem loadElfImagePrinting_not_lastCovering : ∃ st entry st',
    LoadableImage st.mem 0x800000 0x100000 0x400000 ∧
    loadElfImagePrinting (VIRT 0x800000) 0x100000 (VIRT 0x1000000) st = .ok (entry, st') ∧
    0xB8000 ∉ Set.Ico 0x1000000 0x1400000 ∧ st'.mem 0xB8000 ≠ st.mem 0xB8000 := by
  have h := sampleLoad_hasSampleElf samplePhdr
  obtain ⟨_, s', hquiet, -⟩ := h.loadElfImage (n := 0x100000) 0x400000
    (by decide) (by decide) (by decide) (by decide) (by decide) (by decide) (by decide)
    0x100000
  have hsc : ((samplePrintf.setMachine (sampleLoad samplePhdr)).setMachine s').console.HasScreen
      ⟨s'.mem, 0, 0, by decide, by decide⟩ := ⟨rfl, rfl⟩
  obtain ⟨entry, st', hrun, hmem, -⟩ := loadElfImagePrinting_screen _ hsc hquiet
  have hE : st'.mem 0xB8000 = 69 := by
    rw [hmem, print_elfLoaded_first]
  have hold : (sampleLoad samplePhdr).mem 0xB8000 = 0 := by decide +kernel
  refine ⟨samplePrintf.setMachine (sampleLoad samplePhdr), entry, st',
    sampleElf_imageReach.loadable, hrun, ?_, fun heq => ?_⟩
  · rw [Set.mem_Ico]
    decide
  · rw [hE] at heq
    exact absurd (heq.trans hold) (by decide)

end Tvmm
