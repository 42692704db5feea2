import Tvmm.Lib.GuestRun
import Tvmm.Lib.X86
import Tvmm.PageTree

/-!
# `svm_asm.S`: one turn of the guest

`svm_launch` saves the registers of its caller, enters the guest with `VMRUN` and
restores them when the guest exits.  `VmExit` is what the processor does in
between for a guest on nested tables: it saves the host in the host save area, the
guest runs, and the state of the guest goes back to the VMCB.  Nothing is assumed
of the guest itself, and nothing of what is left in the registers that the
processor does not restore.
-/

set_option linter.style.nameCheck false

namespace Tvmm

open Exec LongMode X86

/-- Bit 0 of the nested-paging control of the VMCB at `v`. -/
def npEnabled (m : ByteMem) (v : Nat) : Prop := (m.read64 (v + 0x90)).toNat.testBit 0

/-- The nested `CR3` of the VMCB at `v`. -/
def nestedCr3 (m : ByteMem) (v : Nat) : Nat := (m.read64 (v + 0xB0)).toNat

/-- `VMRUN` with the address of a VMCB in `rax`, up to the next exit of the guest.
The frame `h` is the host save area. -/
structure VmExit (h : Nat) (c c' : Cpu) : Prop where
  rax : c'.reg .rax = c.reg .rax
  rsp : c'.reg .rsp = c.reg .rsp
  gif : c'.gif = false
  mem : ∃ m₁ m₂, Set.EqOn m₁ c.mem (frameBytes h)ᶜ ∧
    (npEnabled m₁ (c.reg .rax).toNat → GuestRun (nestedCr3 m₁ (c.reg .rax).toNat) m₁ m₂) ∧
    Set.EqOn c'.mem m₂ (frameBytes ((c.reg .rax).toNat / 4096))ᶜ

/-- The guest of the VMCB in frame `n` is enclosed, and its tables lie neither in the
VMCB nor in the host save area `h`. -/
structure GuestApart (h n : Nat) (R T : Set Nat) (m : ByteMem) : Prop where
  np : npEnabled m (n * 4096)
  enclosed : Enclosed m (nestedCr3 m (n * 4096)) R T
  ne : h ≠ n
  hostSave : h ∉ T
  vmcb : n ∉ T

/-- What a turn of the guest may change. -/
def turnBytes (h n : Nat) (R T : Set Nat) : Set Nat :=
  R ∪ framesBytes T ∪ frameBytes h ∪ frameBytes n

/-- A turn of the guest kept its bounds. -/
structure TurnKept (h n : Nat) (R T : Set Nat) (m m' : ByteMem) : Prop where
  mem : Set.EqOn m' m (turnBytes h n R T)ᶜ
  words : ∀ f ∈ T, ∀ i, ignoreAD (words m' f i) = ignoreAD (words m f i)

section Turn

variable {h n : Nat} {R T : Set Nat} {m m' : ByteMem} {c c' : Cpu}

theorem npEnabled_congr (heq : Set.EqOn m' m (frameBytes n)) :
    npEnabled m' (n * 4096) ↔ npEnabled m (n * 4096) := by
  have h64 : m'.read64 (n * 4096 + 0x90) = m.read64 (n * 4096 + 0x90) :=
    ByteMem.read64_congr (heq.mono (Set.Ico_subset_Ico (by omega) (by omega)))
  unfold npEnabled
  rw [h64]

theorem nestedCr3_congr (heq : Set.EqOn m' m (frameBytes n)) :
    nestedCr3 m' (n * 4096) = nestedCr3 m (n * 4096) :=
  congrArg UInt64.toNat
    (ByteMem.read64_congr (heq.mono (Set.Ico_subset_Ico (by omega) (by omega))))

/-- Only the VMCB and the tables matter. -/
theorem GuestApart.congr (hg : GuestApart h n R T m) (hn : Set.EqOn m' m (frameBytes n))
    (hT : Set.EqOn m' m (framesBytes T)) : GuestApart h n R T m' := by
  constructor
  · rw [npEnabled_congr hn]
    exact hg.np
  · rw [nestedCr3_congr hn]
    refine hg.enclosed.congr fun f hf i => ?_
    rw [words_congr (hT.mono fun a ha => ?_) i]
    rw [mem_frameBytes] at ha
    exact show a / 4096 ∈ T from ha ▸ hf
  · exact hg.ne
  · exact hg.hostSave
  · exact hg.vmcb

/-- Whatever the guest does. -/
theorem VmExit.kept (hx : VmExit h c c') (hrax : (c.reg .rax).toNat = n * 4096)
    (hg : GuestApart h n R T c.mem) : TurnKept h n R T c.mem c'.mem := by
  obtain ⟨m₁, m₂, hsave, hguest, hexit⟩ := hx.mem
  rw [hrax] at hguest hexit
  rw [Nat.mul_div_cancel n (by decide)] at hexit
  have hsaveT : Set.EqOn m₁ c.mem (framesBytes T) := by
    refine hsave.mono fun a ha => ?_
    intro hah
    rw [mem_frameBytes] at hah
    exact hg.hostSave (hah ▸ ha)
  have hsaveN : Set.EqOn m₁ c.mem (frameBytes n) := by
    refine hsave.mono fun a ha => ?_
    intro hah
    rw [mem_frameBytes] at ha hah
    exact hg.ne (hah.symm.trans ha)
  have hg₁ := hg.congr hsaveN hsaveT
  have hrun := (hguest hg₁.np).keeps hg₁.enclosed
  constructor
  · intro a ha
    simp only [turnBytes, Set.mem_compl_iff, Set.mem_union, not_or] at ha
    obtain ⟨⟨⟨hR, hT⟩, hh⟩, hn⟩ := ha
    rw [hexit hn, hrun.mem (fun hor => hor.elim hR hT), hsave hh]
  · intro f hf i
    have hne : f ≠ n := fun heq => hg.vmcb (heq ▸ hf)
    have hexitF : Set.EqOn c'.mem m₂ (frameBytes f) := by
      refine hexit.mono fun a ha => ?_
      intro han
      rw [mem_frameBytes] at ha han
      exact hne (ha.symm.trans han)
    have hsaveF : Set.EqOn m₁ c.mem (frameBytes f) := by
      refine hsaveT.mono fun a ha => ?_
      rw [mem_frameBytes] at ha
      exact show a / 4096 ∈ T from ha ▸ hf
    rw [words_congr hexitF, hrun.words f hf i, words_congr hsaveF]

end Turn

/-! ## The code -/

section Launch

variable {ε : Type} {p : Platform ε} {E : ε → Prop} {h n a : Nat} {R T : Set Nat} {c : Cpu}

end Launch

end Tvmm
