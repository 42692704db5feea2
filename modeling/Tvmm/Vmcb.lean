import Tvmm.Page

/-!
# The VMCB and its state save area

The functions that fill `struct vmcb` are straight-line stores.  A field is an
offset and a size inside the page of the VMCB, and `Within` says of such code
that it always returns and writes only a given set, so that the proofs about it
follow its shape.

Of the values only two are used later: `cr3`, which `create_temp_page_table`
reads back, and `h_cr3`.
-/

set_option linter.style.nameCheck false

namespace Tvmm

open Exec

/-! ## Code that always returns -/

/-- `c` returns from every state and writes only memory in `X`. -/
def Within {α : Type} (X : Set Nat) (c : M α) : Prop :=
  ∀ s, ∃ a s', c s = .ok (a, s') ∧ OnlyWrites X s s'

namespace Within

variable {α β : Type} {X : Set Nat} {c : M α}

theorem bind {f : α → M β} (hc : Within X c) (hf : ∀ a, Within X (f a)) :
    Within X (c >>= f) := by
  intro s
  obtain ⟨a, s', hok, hw⟩ := hc s
  obtain ⟨b, s'', hok', hw'⟩ := hf a s'
  exact ⟨b, s'', by rw [bind_of_ok hok, hok'], hw.trans hw'⟩

theorem forEach {body : α → M Unit} {xs : List α} (h : ∀ a ∈ xs, Within X (body a)) :
    Within X (forEach body xs) := by
  induction xs with
  | nil => exact fun s => ⟨(), s, rfl, OnlyWrites.refl _ _⟩
  | cons a xs ih =>
    exact (h a List.mem_cons_self).bind fun _ => ih fun b hb => h b (List.mem_cons_of_mem a hb)

theorem wp (hc : Within X c) {Q : α → State → Prop} {E : Stop → Prop} {s : State}
    (hQ : ∀ a s', OnlyWrites X s s' → Q a s') : Exec.wp c Q E s := by
  obtain ⟨a, s', hok, hw⟩ := hc s
  exact wp_of_ok hok (hQ a s' hw)

end Within

/-! ## Fields -/

/-- A field of `struct vmcb`: its offset and its size in bytes. -/
structure VmcbField where
  offset : Nat
  size : Nat
  inside : offset + size ≤ 4096

namespace VmcbField

/-- Assign the field. -/
def store (f : VmcbField) (vmcb x : UInt64) : M Unit :=
  storeLE f.size (vmcb + UInt64.ofNat f.offset) x.toNat

/-- Read the field. -/
def load (f : VmcbField) (vmcb : UInt64) : M UInt64 := do
  return UInt64.ofNat (← loadLE f.size (vmcb + UInt64.ofNat f.offset))

/-- The bytes of the field of the VMCB in frame `n`. -/
def bytes (f : VmcbField) (n : Nat) : Set Nat :=
  Set.Ico (n * 4096 + f.offset) (n * 4096 + f.offset + f.size)

/-- The value of the field in the VMCB in frame `n`. -/
def value (f : VmcbField) (n : Nat) (s : State) : Nat :=
  s.mem.readLE (n * 4096 + f.offset) f.size

/-- The two fields do not overlap. -/
def Apart (f g : VmcbField) : Prop :=
  f.offset + f.size ≤ g.offset ∨ g.offset + g.size ≤ f.offset

instance (f g : VmcbField) : Decidable (f.Apart g) := inferInstanceAs (Decidable (_ ∨ _))

variable {f g : VmcbField} {n : Nat}

theorem bytes_subset (f : VmcbField) (n : Nat) : f.bytes n ⊆ frameBytes n := by
  have := f.inside
  exact Set.Ico_subset_Ico (by omega) (by omega)

theorem bytes_subset_diff (h : f.Apart g) : f.bytes n ⊆ frameBytes n \ g.bytes n := by
  refine fun a ha => ⟨f.bytes_subset n ha, fun hg => ?_⟩
  rw [bytes, Set.mem_Ico] at ha hg
  unfold Apart at h
  omega

theorem bootTranslate (f : VmcbField) (hn : Addressable n) :
    bootTranslate (frameVaddr n + UInt64.ofNat f.offset) f.size =
      some (n * 4096 + f.offset) := by
  have h := bootTranslate_VIRT (p := UInt64.ofNat (n * 4096)) (n := 4096)
    (by rw [hn.toNat]; exact hn)
  rw [hn.toNat] at h
  exact bootTranslate_add h f.inside

theorem store_of_addressable (f : VmcbField) (hn : Addressable n) (x : UInt64) (s : State) :
    f.store (frameVaddr n) x s =
      .ok ((), { s with mem := s.mem.writeLE (n * 4096 + f.offset) f.size x.toNat }) := by
  rw [store, storeLE, f.bootTranslate hn]

theorem load_of_addressable (f : VmcbField) (hn : Addressable n) (s : State) :
    f.load (frameVaddr n) s = .ok (UInt64.ofNat (f.value n s), s) := by
  have h : loadLE f.size (frameVaddr n + UInt64.ofNat f.offset) s =
      .ok (f.value n s, s) := by
    rw [loadLE, f.bootTranslate hn, value]
  rw [load, bind_of_ok h]
  rfl

theorem value_congr {s s' : State} (h : Set.EqOn s'.mem s.mem (f.bytes n)) :
    f.value n s' = f.value n s :=
  ByteMem.readLE_congr h

/-- A store, as far as its own field and the rest of memory are concerned. -/
theorem wp_store (f : VmcbField) (hn : Addressable n) {x : UInt64} {Q : Unit → State → Prop}
    {E : Stop → Prop} {s : State}
    (hQ : ∀ s', OnlyWrites (f.bytes n) s s' → f.value n s' = x.toNat % 256 ^ f.size →
      Q () s') : Exec.wp (f.store (frameVaddr n) x) Q E s :=
  wp_of_ok (f.store_of_addressable hn x s)
    (hQ _ (OnlyWrites.of_mem (ByteMem.eqOn_writeLE _ _ _ _)) (ByteMem.readLE_writeLE _ _ _ _))

theorem store_within (hn : Addressable n) {X : Set Nat} (hX : f.bytes n ⊆ X) (x : UInt64) :
    Within X (f.store (frameVaddr n) x) := fun s =>
  ⟨(), _, f.store_of_addressable hn x s,
    OnlyWrites.of_mem ((ByteMem.eqOn_writeLE _ _ _ _).mono (Set.compl_subset_compl.mpr hX))⟩

theorem load_within (hn : Addressable n) (X : Set Nat) :
    Within X (f.load (frameVaddr n)) := fun s =>
  ⟨_, s, f.load_of_addressable hn s, OnlyWrites.refl _ _⟩

end VmcbField

/-! ## `struct vmcb` -/

namespace Vmcb

/-! The control area -/

def general2Intercepts : VmcbField := ⟨0x10, 4, by decide⟩
def iopmBasePa : VmcbField := ⟨0x40, 8, by decide⟩
def msrpmBasePa : VmcbField := ⟨0x48, 8, by decide⟩
def tscOffset : VmcbField := ⟨0x50, 8, by decide⟩
def guestAsid : VmcbField := ⟨0x58, 4, by decide⟩
def tlbControl : VmcbField := ⟨0x5C, 1, by decide⟩
def npEnable : VmcbField := ⟨0x90, 8, by decide⟩
def hCr3 : VmcbField := ⟨0xB0, 8, by decide⟩

/-! The state save area, from offset 1024 on -/

def cpl : VmcbField := ⟨1024 + 0xCB, 1, by decide⟩
def efer : VmcbField := ⟨1024 + 0xD0, 8, by decide⟩
def cr4 : VmcbField := ⟨1024 + 0x148, 8, by decide⟩
def cr3 : VmcbField := ⟨1024 + 0x150, 8, by decide⟩
def cr0 : VmcbField := ⟨1024 + 0x158, 8, by decide⟩
def dr7 : VmcbField := ⟨1024 + 0x160, 8, by decide⟩
def dr6 : VmcbField := ⟨1024 + 0x168, 8, by decide⟩
def rflags : VmcbField := ⟨1024 + 0x170, 8, by decide⟩
def rip : VmcbField := ⟨1024 + 0x178, 8, by decide⟩
def rsp : VmcbField := ⟨1024 + 0x1D8, 8, by decide⟩
def rax : VmcbField := ⟨1024 + 0x1F8, 8, by decide⟩
def gPat : VmcbField := ⟨1024 + 0x268, 8, by decide⟩

end Vmcb

/-- The segment registers that `set_descriptors` fills. -/
inductive SegReg where
  | es
  | cs
  | ss
  | ds
  | fs
  | gs
  deriving DecidableEq, Repr

namespace SegReg

/-- The index of the `struct seg_selector` in the save area. -/
def index : SegReg → Nat
  | es => 0
  | cs => 1
  | ss => 2
  | ds => 3
  | fs => 4
  | gs => 5

theorem index_lt (r : SegReg) : r.index < 6 := by
  cases r <;> decide

/-- A field of the `struct seg_selector` of 16 bytes. -/
def field (r : SegReg) (offset size : Nat) (h : offset + size ≤ 16) : VmcbField where
  offset := 1024 + 16 * r.index + offset
  size := size
  inside := by
    have := r.index_lt
    omega

def sel (r : SegReg) : VmcbField := r.field 0 2 (by decide)
def attrs (r : SegReg) : VmcbField := r.field 2 2 (by decide)
def limit (r : SegReg) : VmcbField := r.field 4 4 (by decide)
def base (r : SegReg) : VmcbField := r.field 8 8 (by decide)

theorem field_apart {r : SegReg} {offset size : Nat} {h : offset + size ≤ 16}
    {f : VmcbField} (hf : 1120 ≤ f.offset) : (r.field offset size h).Apart f := by
  have := r.index_lt
  refine Or.inl ?_
  show 1024 + 16 * r.index + offset + size ≤ f.offset
  omega

end SegReg

/-! The bit-fields of `union seg_attrs`. -/

def attrsType : BitField := { lo := 0, width := 4 }
def attrsS : BitField := { lo := 4, width := 1 }
def attrsP : BitField := { lo := 7, width := 1 }
def attrsL : BitField := { lo := 9, width := 1 }
def attrsDb : BitField := { lo := 10, width := 1 }

/-- Assign a bit-field of `attrs.fields`. -/
def storeAttr (r : SegReg) (f : BitField) (vmcb x : UInt64) : M Unit := do
  let w ← r.attrs.load vmcb
  r.attrs.store vmcb (f.set w x)

/-- `set_descriptors` -/
def setDescriptors (vmcb : UInt64) : M Unit := do
  SegReg.cs.sel.store vmcb 0
  storeAttr .cs attrsType vmcb 0xa
  storeAttr .cs attrsS vmcb 1
  storeAttr .cs attrsP vmcb 1
  storeAttr .cs attrsL vmcb 1
  SegReg.cs.limit.store vmcb 0xfffff
  SegReg.cs.base.store vmcb 0
  forEach (fun x => do
    x.sel.store vmcb 0
    storeAttr x attrsType vmcb 0x2
    storeAttr x attrsS vmcb 1
    storeAttr x attrsP vmcb 1
    x.limit.store vmcb 0xfffff
    x.base.store vmcb 0) [SegReg.ss, .ds, .es, .fs, .gs]

def MULTIBOOT_BOOTLOADER_MAGIC : UInt64 := 0x2BADB002
def X86_CR0_PE : UInt64 := (1 : UInt64) <<< 0
def X86_CR0_NW : UInt64 := (1 : UInt64) <<< 29
def X86_CR0_CD : UInt64 := (1 : UInt64) <<< 30
def X86_CR0_PG : UInt64 := (1 : UInt64) <<< 31
/-- `5UL << _X86_CR4_PAE` -/
def X86_CR4_PAE : UInt64 := (5 : UInt64) <<< 5
def EFER_LME : UInt64 := (1 : UInt64) <<< 8
def EFER_LMA : UInt64 := (1 : UInt64) <<< 10
def EFER_SVME : UInt64 := (1 : UInt64) <<< 12

/-- The guest-physical address in the first assignment of `cr3`. -/
def GUEST_CR3 : UInt64 := 0x200000 + PAGE_SIZE * 3

/-- The part of `set_state_save_area` after the store of `cr3`. -/
def setStateSaveAreaRest (vmcb : UInt64) : M Unit := do
  Vmcb.cr4.store vmcb X86_CR4_PAE
  Vmcb.rflags.store vmcb 2
  Vmcb.gPat.store vmcb 0x7040600070406
  Vmcb.efer.store vmcb (EFER_LME ||| EFER_LMA ||| EFER_SVME)
  setDescriptors vmcb

/-- `set_state_save_area` -/
def setStateSaveArea (vmcb : UInt64) : M Unit := do
  Vmcb.cpl.store vmcb 0
  Vmcb.rax.store vmcb MULTIBOOT_BOOTLOADER_MAGIC
  Vmcb.rsp.store vmcb 0
  Vmcb.cr0.store vmcb (X86_CR0_PE ||| X86_CR0_PG)
  Vmcb.cr3.store vmcb GUEST_CR3
  setStateSaveAreaRest vmcb

/-! ## What is written -/

section Writes

variable {n : Nat} {X : Set Nat}

theorem storeAttr_within (hn : Addressable n) {r : SegReg} (hX : r.attrs.bytes n ⊆ X)
    (f : BitField) (x : UInt64) : Within X (storeAttr r f (frameVaddr n) x) :=
  (VmcbField.load_within hn X).bind fun _ => VmcbField.store_within hn hX _

/-- `set_descriptors` writes the six segment registers. -/
theorem setDescriptors_within (hn : Addressable n)
    (hX : ∀ (r : SegReg) (offset size : Nat) (h : offset + size ≤ 16),
      (r.field offset size h).bytes n ⊆ X) :
    Within X (setDescriptors (frameVaddr n)) := by
  have hstore : ∀ (r : SegReg) offset size h (x : UInt64),
      Within X ((r.field offset size h).store (frameVaddr n) x) :=
    fun r offset size h x => VmcbField.store_within hn (hX r offset size h) x
  have hattr : ∀ (r : SegReg) f x, Within X (storeAttr r f (frameVaddr n) x) :=
    fun r f x => storeAttr_within hn (hX r 2 2 (by decide)) f x
  exact (hstore .cs _ _ _ 0).bind fun _ => (hattr .cs _ _).bind fun _ =>
    (hattr .cs _ _).bind fun _ => (hattr .cs _ _).bind fun _ => (hattr .cs _ _).bind fun _ =>
    (hstore .cs _ _ _ _).bind fun _ => (hstore .cs _ _ _ 0).bind fun _ =>
    Within.forEach fun r _ => (hstore r _ _ _ 0).bind fun _ => (hattr r _ _).bind fun _ =>
      (hattr r _ _).bind fun _ => (hattr r _ _).bind fun _ =>
      (hstore r _ _ _ _).bind fun _ => hstore r _ _ _ 0

/-- Nothing after the store of `cr3` overwrites it. -/
theorem setStateSaveAreaRest_within (hn : Addressable n) :
    Within (frameBytes n \ Vmcb.cr3.bytes n) (setStateSaveAreaRest (frameVaddr n)) := by
  have hstore : ∀ (f : VmcbField) (x : UInt64), f.Apart Vmcb.cr3 →
      Within (frameBytes n \ Vmcb.cr3.bytes n) (f.store (frameVaddr n) x) :=
    fun f x h => VmcbField.store_within hn (VmcbField.bytes_subset_diff h) x
  exact (hstore _ _ (by decide)).bind fun _ => (hstore _ _ (by decide)).bind fun _ =>
    (hstore _ _ (by decide)).bind fun _ => (hstore _ _ (by decide)).bind fun _ =>
    setDescriptors_within hn fun r _ _ _ =>
      VmcbField.bytes_subset_diff (SegReg.field_apart (by decide))

/-- `set_state_save_area` writes the VMCB and leaves the guest's `cr3` in it. -/
theorem wp_setStateSaveArea (hn : Addressable n) {Q : Unit → State → Prop}
    {E : Stop → Prop} {s : State}
    (hQ : ∀ s', OnlyWrites (frameBytes n) s s' → Vmcb.cr3.value n s' = GUEST_CR3.toNat →
      Q () s') :
    wp (setStateSaveArea (frameVaddr n)) Q E s := by
  have hstore : ∀ (f : VmcbField) (x : UInt64),
      Within (frameBytes n) (f.store (frameVaddr n) x) :=
    fun f x => VmcbField.store_within hn (f.bytes_subset n) x
  rw [setStateSaveArea, wp_bind]
  refine (hstore _ _).wp fun _ s₁ h₁ => ?_
  rw [wp_bind]
  refine (hstore _ _).wp fun _ s₂ h₂ => ?_
  rw [wp_bind]
  refine (hstore _ _).wp fun _ s₃ h₃ => ?_
  rw [wp_bind]
  refine (hstore _ _).wp fun _ s₄ h₄ => ?_
  rw [wp_bind]
  refine Vmcb.cr3.wp_store hn fun s₅ h₅ hcr3 => ?_
  refine (setStateSaveAreaRest_within hn).wp fun _ s₆ h₆ => hQ s₆ ?_ ?_
  · refine (h₁.trans h₂).trans ((h₃.trans h₄).trans ?_)
    exact (h₅.mono (Vmcb.cr3.bytes_subset n)).trans (h₆.mono Set.sdiff_subset)
  · rw [VmcbField.value_congr (h₆.eqOn Set.disjoint_sdiff_left), hcr3]
    decide

end Writes

end Tvmm
