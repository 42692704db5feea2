import Tvmm.GuestReach
import Tvmm.VmcbCheck

/-!
# The VMCB that `vm_create` fills

`vmcbTable` lists the fields that `vm_create` stores, in the order of the first
stores, with the values that they have in the end.  The page of the VMCB is zeroed
before, and no two of the fields overlap, so the page is the table and zero
elsewhere: `VmcbHolds` says so of a prefix of the table, and each store extends the
prefix.
-/

set_option linter.style.nameCheck false

namespace Tvmm

open Exec

/-- The fields of a segment register, for a segment with these attributes. -/
def segTable (r : SegReg) (attrs : UInt64) : List (VmcbField × UInt64) :=
  [(r.sel, 0), (r.attrs, attrs), (r.limit, 0xfffff), (r.base, 0)]

/-- A long-mode code segment that is present and readable. -/
def CODE_ATTRS : UInt64 := 0x29a
/-- A data segment that is present and writable. -/
def DATA_ATTRS : UInt64 := 0x92

def controlTable (iopm msrpm : UInt64) : List (VmcbField × UInt64) := [
  (Vmcb.npEnable, 1),
  (Vmcb.tlbControl, 1),
  (Vmcb.tscOffset, 0),
  (Vmcb.guestAsid, 1),
  (Vmcb.general2Intercepts, INTRCPT_VMRUN),
  (Vmcb.iopmBasePa, iopm),
  (Vmcb.msrpmBasePa, msrpm)]

def saveTable : List (VmcbField × UInt64) := [
  (Vmcb.cpl, 0),
  (Vmcb.rax, MULTIBOOT_BOOTLOADER_MAGIC),
  (Vmcb.rsp, 0),
  (Vmcb.cr0, X86_CR0_PE ||| X86_CR0_PG),
  (Vmcb.cr3, GUEST_CR3),
  (Vmcb.cr4, X86_CR4_PAE),
  (Vmcb.rflags, 2),
  (Vmcb.gPat, 0x7040600070406),
  (Vmcb.efer, EFER_LME ||| EFER_LMA ||| EFER_SVME)]

def segsTable : List (VmcbField × UInt64) :=
  segTable .cs CODE_ATTRS ++ segTable .ss DATA_ATTRS ++ segTable .ds DATA_ATTRS ++
    segTable .es DATA_ATTRS ++ segTable .fs DATA_ATTRS ++ segTable .gs DATA_ATTRS

/-- The fields and their values in the end. -/
def vmcbTable (iopm msrpm hCr3 rip : UInt64) : List (VmcbField × UInt64) :=
  controlTable iopm msrpm ++ saveTable ++ segsTable ++ [(Vmcb.hCr3, hCr3), (Vmcb.rip, rip)]

/-- The fields of the table. -/
def vmcbFields : List VmcbField := (vmcbTable 0 0 0 0).map Prod.fst

/-- No two of them overlap. -/
theorem vmcbFields_apart : vmcbFields.Pairwise VmcbField.Apart := by
  decide

/-- The page of the VMCB in frame `n` is the table `t`, and zero elsewhere. -/
structure VmcbHolds (n : Nat) (t : List (VmcbField × UInt64)) (s : State) : Prop where
  value : ∀ p ∈ t, p.1.value n s = p.2.toNat
  zero : ∀ a ∈ frameBytes n, (∀ p ∈ t, a ∉ p.1.bytes n) → s.mem a = 0

/-- The table `t` was stored in the VMCB in frame `n` since `s₀`. -/
structure VmcbStored (n : Nat) (t : List (VmcbField × UInt64)) (s₀ s : State) : Prop where
  holds : VmcbHolds n t s
  writes : OnlyWrites (frameBytes n) s₀ s

section Store

variable {n : Nat} {t : List (VmcbField × UInt64)} {f : VmcbField} {x : UInt64}
  {s₀ s s' : State} {E : Stop → Prop} {Q : Unit → State → Prop}

theorem VmcbHolds.congr (h : VmcbHolds n t s) (heq : Set.EqOn s'.mem s.mem (frameBytes n)) :
    VmcbHolds n t s' := by
  refine ⟨fun p hp => ?_, fun a ha hout => ?_⟩
  · rw [VmcbField.value_congr (heq.mono (p.1.bytes_subset n)), h.value p hp]
  · rw [heq ha, h.zero a ha hout]

theorem VmcbHolds.stored (h : VmcbHolds n t s) : VmcbStored n t s s :=
  ⟨h, OnlyWrites.refl _ _⟩

/-- The next field of the table does not overlap the fields before it. -/
theorem apart_of_next (hnext : t.map Prod.fst ++ [f] <+: vmcbFields) :
    ∀ p ∈ t, p.1.Apart f := by
  obtain ⟨rest, hrest⟩ := hnext
  have hpair := vmcbFields_apart
  rw [← hrest] at hpair
  have hlast := (List.pairwise_append.mp (List.pairwise_append.mp hpair).1).2.2
  exact fun p hp => hlast p.1 (List.mem_map_of_mem hp) f (List.mem_singleton_self f)

theorem VmcbField.Apart.disjoint {g : VmcbField} (h : g.Apart f) :
    Disjoint (f.bytes n) (g.bytes n) := by
  rw [Set.disjoint_left]
  intro a hf hg
  rw [VmcbField.bytes, Set.mem_Ico] at hf hg
  unfold VmcbField.Apart at h
  omega

/-- A field that is not in the table yet is zero. -/
theorem VmcbHolds.zero_field (h : VmcbHolds n t s)
    (hnext : t.map Prod.fst ++ [f] <+: vmcbFields) : VmcbHolds n (t ++ [(f, 0)]) s := by
  refine ⟨fun p hp => ?_, fun a ha hout => ?_⟩
  · rw [List.mem_append, List.mem_singleton] at hp
    rcases hp with hp | rfl
    · exact h.value p hp
    · refine ByteMem.readLE_of_zero fun a ha => h.zero a (f.bytes_subset n ha) fun p hp => ?_
      exact Set.disjoint_left.mp (apart_of_next hnext p hp).disjoint ha
  · exact h.zero a ha fun p hp => hout p (List.mem_append_left _ hp)

/-- A write to the field that the table ends with. -/
theorem VmcbHolds.restore {w : UInt64} (h : VmcbHolds n (t ++ [(f, w)]) s)
    (hnext : t.map Prod.fst ++ [f] <+: vmcbFields) (hw : OnlyWrites (f.bytes n) s s')
    (hval : f.value n s' = x.toNat) : VmcbHolds n (t ++ [(f, x)]) s' := by
  refine ⟨fun p hp => ?_, fun a ha hout => ?_⟩
  · rw [List.mem_append, List.mem_singleton] at hp
    rcases hp with hp | rfl
    · rw [VmcbField.value_congr (hw.eqOn (apart_of_next hnext p hp).disjoint),
        h.value p (List.mem_append_left _ hp)]
    · exact hval
  · have hout' : ∀ y, ∀ p ∈ t ++ [(f, y)], a ∉ p.1.bytes n := by
      intro y p hp
      rw [List.mem_append, List.mem_singleton] at hp
      rcases hp with hp | rfl
      · exact hout p (List.mem_append_left _ hp)
      · exact hout (f, x) (List.mem_append_right t (List.mem_singleton_self _))
    rw [hw.mem (hout' x (f, x) (List.mem_append_right t (List.mem_singleton_self _)))]
    exact h.zero a ha (hout' w)

/-- Storing the field that the table ends with. -/
theorem VmcbStored.wp_restore {w : UInt64} (h : VmcbStored n (t ++ [(f, w)]) s₀ s)
    (hn : Addressable n) (hnext : t.map Prod.fst ++ [f] <+: vmcbFields)
    (hx : x.toNat < 256 ^ f.size)
    (hQ : ∀ s', VmcbStored n (t ++ [(f, x)]) s₀ s' → Q () s') :
    wp (f.store (frameVaddr n) x) Q E s := by
  refine f.wp_store hn fun s' hw hval => hQ s' ⟨h.holds.restore hnext hw ?_, ?_⟩
  · rw [hval, Nat.mod_eq_of_lt hx]
  · exact h.writes.trans (hw.mono (f.bytes_subset n))

/-- Storing a field extends the table. -/
theorem VmcbStored.wp_store (h : VmcbStored n t s₀ s) (hn : Addressable n)
    (hnext : t.map Prod.fst ++ [f] <+: vmcbFields) (hx : x.toNat < 256 ^ f.size)
    (hQ : ∀ s', VmcbStored n (t ++ [(f, x)]) s₀ s' → Q () s') :
    wp (f.store (frameVaddr n) x) Q E s :=
  VmcbStored.wp_restore ⟨h.holds.zero_field hnext, h.writes⟩ hn hnext hx hQ

/-- Storing a bit-field of the attributes that the table ends with. -/
theorem VmcbStored.wp_storeAttr {r : SegReg} {b : BitField} {w : UInt64}
    (h : VmcbStored n (t ++ [(r.attrs, w)]) s₀ s) (hn : Addressable n)
    (hnext : t.map Prod.fst ++ [r.attrs] <+: vmcbFields) (hx : (b.set w x).toNat < 65536)
    (hQ : ∀ s', VmcbStored n (t ++ [(r.attrs, b.set w x)]) s₀ s' → Q () s') :
    wp (storeAttr r b (frameVaddr n) x) Q E s := by
  have hw : UInt64.ofNat (r.attrs.value n s) = w := by
    rw [h.holds.value (r.attrs, w) (List.mem_append_right t (List.mem_singleton_self _)),
      UInt64.ofNat_toNat]
  rw [storeAttr, wp_bind]
  refine wp_of_ok (r.attrs.load_of_addressable hn s) ?_
  rw [hw]
  exact h.wp_restore hn hnext hx hQ

end Store

/-! ## `set_state_save_area` -/

section SaveArea

variable {n : Nat} {t : List (VmcbField × UInt64)} {s₀ s : State} {E : Stop → Prop}
  {Q : Unit → State → Prop}

theorem prefix_left {u : List (VmcbField × UInt64)}
    (h : (t ++ u).map Prod.fst <+: vmcbFields) : t.map Prod.fst <+: vmcbFields := by
  rw [List.map_append] at h
  exact (List.prefix_append _ _).trans h

/-- A segment register, for any way `c` to store the attributes `a`. -/
theorem VmcbStored.wp_segment (h : VmcbStored n t s₀ s) (hn : Addressable n) {x : SegReg}
    {a : UInt64} {c : M Unit} (hnext : (t ++ segTable x a).map Prod.fst <+: vmcbFields)
    (hattrs : (t ++ [(x.sel, 0)]).map Prod.fst ++ [x.attrs] <+: vmcbFields → ∀ s,
      VmcbStored n (t ++ [(x.sel, 0)] ++ [(x.attrs, 0)]) s₀ s →
      wp c (fun _ => VmcbStored n (t ++ [(x.sel, 0)] ++ [(x.attrs, a)]) s₀) E s)
    (hQ : ∀ s', VmcbStored n (t ++ segTable x a) s₀ s' → Q () s') :
    wp (do
      x.sel.store (frameVaddr n) 0
      c
      x.limit.store (frameVaddr n) 0xfffff
      x.base.store (frameVaddr n) 0) Q E s := by
  obtain ⟨rest, hrest⟩ := hnext
  have hsel : t.map Prod.fst ++ [x.sel] <+: vmcbFields :=
    ⟨[x.attrs, x.limit, x.base] ++ rest, by simpa [segTable] using hrest⟩
  have hattr : (t ++ [(x.sel, 0)]).map Prod.fst ++ [x.attrs] <+: vmcbFields :=
    ⟨[x.limit, x.base] ++ rest, by simpa [segTable] using hrest⟩
  have hlimit : (t ++ [(x.sel, 0)] ++ [(x.attrs, a)]).map Prod.fst ++ [x.limit] <+:
      vmcbFields := ⟨x.base :: rest, by simpa [segTable] using hrest⟩
  have hbase : (t ++ [(x.sel, 0)] ++ [(x.attrs, a)] ++
      [(x.limit, 0xfffff)]).map Prod.fst ++ [x.base] <+: vmcbFields :=
    ⟨rest, by simpa [segTable] using hrest⟩
  rw [wp_bind]
  refine h.wp_store hn hsel (show (0 : UInt64).toNat < 256 ^ 2 by decide) fun s₁ h₁ => ?_
  rw [wp_bind]
  refine wp_imp (hattrs hattr s₁ ⟨h₁.holds.zero_field hattr, h₁.writes⟩) fun _ s₂ h₂ => ?_
  rw [wp_bind]
  refine h₂.wp_store hn hlimit (show (0xfffff : UInt64).toNat < 256 ^ 4 by decide)
    fun s₃ h₃ => ?_
  refine h₃.wp_store hn hbase (show (0 : UInt64).toNat < 256 ^ 8 by decide)
    fun s₄ h₄ => hQ s₄ ?_
  simpa [segTable] using h₄

/-- A turn of the loop of `set_descriptors`. -/
theorem VmcbStored.wp_dataSegment (h : VmcbStored n t s₀ s) (hn : Addressable n) {x : SegReg}
    (hnext : (t ++ segTable x DATA_ATTRS).map Prod.fst <+: vmcbFields)
    (hQ : ∀ s', VmcbStored n (t ++ segTable x DATA_ATTRS) s₀ s' → Q () s') :
    wp (do
      x.sel.store (frameVaddr n) 0
      storeAttr x attrsType (frameVaddr n) 0x2
      storeAttr x attrsS (frameVaddr n) 1
      storeAttr x attrsP (frameVaddr n) 1
      x.limit.store (frameVaddr n) 0xfffff
      x.base.store (frameVaddr n) 0) Q E s := by
  have hseg := h.wp_segment hn (E := E) hnext (c := do
    storeAttr x attrsType (frameVaddr n) 0x2
    storeAttr x attrsS (frameVaddr n) 1
    storeAttr x attrsP (frameVaddr n) 1) (fun hattr s₁ h₁ => ?_) hQ
  · simpa only [bind_assoc] using hseg
  rw [wp_bind]
  refine h₁.wp_storeAttr hn hattr (by decide) fun s₂ h₂ => ?_
  rw [wp_bind]
  refine h₂.wp_storeAttr hn hattr (by decide) fun s₃ h₃ => ?_
  exact h₃.wp_storeAttr hn hattr (by decide) fun s₄ h₄ => h₄

/-- The part of `set_descriptors` before its loop `k`. -/
theorem VmcbStored.wp_codeSegment (h : VmcbStored n t s₀ s) (hn : Addressable n) {k : M Unit}
    (hnext : (t ++ segTable .cs CODE_ATTRS).map Prod.fst <+: vmcbFields)
    (hk : ∀ s', VmcbStored n (t ++ segTable .cs CODE_ATTRS) s₀ s' → wp k Q E s') :
    wp (do
      SegReg.cs.sel.store (frameVaddr n) 0
      storeAttr .cs attrsType (frameVaddr n) 0xa
      storeAttr .cs attrsS (frameVaddr n) 1
      storeAttr .cs attrsP (frameVaddr n) 1
      storeAttr .cs attrsL (frameVaddr n) 1
      SegReg.cs.limit.store (frameVaddr n) 0xfffff
      SegReg.cs.base.store (frameVaddr n) 0
      k) Q E s := by
  have hseg := h.wp_segment hn (E := E) (Q := fun _ => wp k Q E) hnext (c := do
    storeAttr .cs attrsType (frameVaddr n) 0xa
    storeAttr .cs attrsS (frameVaddr n) 1
    storeAttr .cs attrsP (frameVaddr n) 1
    storeAttr .cs attrsL (frameVaddr n) 1) (fun hattr s₁ h₁ => ?_) hk
  · rw [← wp_bind (f := fun _ => k)] at hseg
    simpa only [bind_assoc] using hseg
  rw [wp_bind]
  refine h₁.wp_storeAttr hn hattr (by decide) fun s₂ h₂ => ?_
  rw [wp_bind]
  refine h₂.wp_storeAttr hn hattr (by decide) fun s₃ h₃ => ?_
  rw [wp_bind]
  refine h₃.wp_storeAttr hn hattr (by decide) fun s₄ h₄ => ?_
  exact h₄.wp_storeAttr hn hattr (by decide) fun s₅ h₅ => h₅

theorem VmcbStored.wp_setDescriptors (h : VmcbStored n t s₀ s) (hn : Addressable n)
    (hnext : (t ++ segsTable).map Prod.fst <+: vmcbFields)
    (hQ : ∀ s', VmcbStored n (t ++ segsTable) s₀ s' → Q () s') :
    wp (setDescriptors (frameVaddr n)) Q E s := by
  have hassoc : t ++ segsTable = t ++ segTable .cs CODE_ATTRS ++ segTable .ss DATA_ATTRS ++
      segTable .ds DATA_ATTRS ++ segTable .es DATA_ATTRS ++ segTable .fs DATA_ATTRS ++
      segTable .gs DATA_ATTRS := by
    simp only [segsTable, List.append_assoc]
  rw [hassoc] at hnext hQ
  have hfs := prefix_left hnext
  have hes := prefix_left hfs
  have hds := prefix_left hes
  have hss := prefix_left hds
  rw [setDescriptors]
  refine h.wp_codeSegment hn (prefix_left hss) fun s₁ h₁ => ?_
  rw [forEach, wp_bind]
  refine h₁.wp_dataSegment hn hss fun s₂ h₂ => ?_
  rw [forEach, wp_bind]
  refine h₂.wp_dataSegment hn hds fun s₃ h₃ => ?_
  rw [forEach, wp_bind]
  refine h₃.wp_dataSegment hn hes fun s₄ h₄ => ?_
  rw [forEach, wp_bind]
  refine h₄.wp_dataSegment hn hfs fun s₅ h₅ => ?_
  rw [forEach, wp_bind]
  refine h₅.wp_dataSegment hn hnext fun s₆ h₆ => ?_
  rw [forEach, wp_pure]
  exact hQ s₆ h₆

theorem VmcbStored.wp_setStateSaveArea (h : VmcbStored n t s₀ s) (hn : Addressable n)
    (hnext : (t ++ saveTable ++ segsTable).map Prod.fst <+: vmcbFields)
    (hQ : ∀ s', VmcbStored n (t ++ saveTable ++ segsTable) s₀ s' → Q () s') :
    wp (setStateSaveArea (frameVaddr n)) Q E s := by
  have hassoc : t ++ saveTable = t ++ [(Vmcb.cpl, 0)] ++
      [(Vmcb.rax, MULTIBOOT_BOOTLOADER_MAGIC)] ++ [(Vmcb.rsp, 0)] ++
      [(Vmcb.cr0, X86_CR0_PE ||| X86_CR0_PG)] ++ [(Vmcb.cr3, GUEST_CR3)] ++
      [(Vmcb.cr4, X86_CR4_PAE)] ++ [(Vmcb.rflags, 2)] ++ [(Vmcb.gPat, 0x7040600070406)] ++
      [(Vmcb.efer, EFER_LME ||| EFER_LMA ||| EFER_SVME)] := by
    simp only [saveTable, List.append_assoc, List.cons_append, List.nil_append]
  rw [hassoc] at hnext hQ
  have hefer := prefix_left hnext
  have hgPat := prefix_left hefer
  have hrflags := prefix_left hgPat
  have hcr4 := prefix_left hrflags
  have hcr3 := prefix_left hcr4
  have hcr0 := prefix_left hcr3
  have hrsp := prefix_left hcr0
  have hrax := prefix_left hrsp
  have hcpl := prefix_left hrax
  rw [List.map_append] at hefer hgPat hrflags hcr4 hcr3 hcr0 hrsp hrax hcpl
  rw [setStateSaveArea, wp_bind]
  refine h.wp_store hn hcpl (by decide) fun s₁ h₁ => ?_
  rw [wp_bind]
  refine h₁.wp_store hn hrax (by decide) fun s₂ h₂ => ?_
  rw [wp_bind]
  refine h₂.wp_store hn hrsp (by decide) fun s₃ h₃ => ?_
  rw [wp_bind]
  refine h₃.wp_store hn hcr0 (by decide) fun s₄ h₄ => ?_
  rw [wp_bind]
  refine h₄.wp_store hn hcr3 (by decide) fun s₅ h₅ => ?_
  rw [setStateSaveAreaRest, wp_bind]
  refine h₅.wp_store hn hcr4 (by decide) fun s₆ h₆ => ?_
  rw [wp_bind]
  refine h₆.wp_store hn hrflags (by decide) fun s₇ h₇ => ?_
  rw [wp_bind]
  refine h₇.wp_store hn hgPat (by decide) fun s₈ h₈ => ?_
  rw [wp_bind]
  refine h₈.wp_store hn hefer (by decide) fun s₉ h₉ => ?_
  exact h₉.wp_setDescriptors hn hnext hQ

end SaveArea

/-! ## `set_control_area` -/

/-- The `nr` frames from `r` on are handed out, and every bit in them is set. -/
structure OnesRange (priv : Set Nat) (n : Nat) (nr r : UInt64) (s : State) : Prop where
  handedOut : (r, nr) ∈ s.handedOut
  le : r.toNat + nr.toNat ≤ 2 ^ 33
  priv : Disjoint (rangeBytes [(r, nr)]) priv
  vmcb : n ∉ rangeFrames (r, nr)
  ones : ∀ a ∈ rangeBytes [(r, nr)], s.mem a = 0xff

/-- The VMCB in frame `n` is the table `t`, and its permission maps are the ranges from
`ri` and `rm` on. -/
structure VmcbBuilt (priv : Set Nat) (n : Nat) (ri rm : UInt64)
    (t : List (VmcbField × UInt64)) (s : State) : Prop where
  vmcb : Addressable n
  vmcb_priv : Disjoint (frameBytes n) priv
  handedOut : (UInt64.ofNat n, 1) ∈ s.handedOut
  holds : VmcbHolds n t s
  iopm : OnesRange priv n 3 ri s
  msrpm : OnesRange priv n 2 rm s

section Control

variable {alloc : UInt64 → UInt64 → M UInt64} {E : Stop → Prop} {priv : Set Nat}
  {Inv : Nat → State → Prop} {n : Nat} {nr r ri rm : UInt64}
  {t : List (VmcbField × UInt64)} {ext : List (UInt64 × UInt64)} {s s' : State}

theorem OnesRange.evolves (h : OnesRange priv n nr r s) (he : Evolves priv ext s s') :
    OnesRange priv n nr r s' := by
  refine ⟨?_, h.le, h.priv, h.vmcb, fun a ha => ?_⟩
  · rw [he.handedOut]
    exact List.mem_append_right _ h.handedOut
  · rw [← h.ones a ha]
    refine he.eqOn h.priv.symm (Set.disjoint_left.mpr ?_) ha
    rintro x ⟨q, hq, hx⟩ ⟨q', hq', hx'⟩
    rw [List.mem_singleton] at hq'
    subst hq'
    exact he.notMem h.handedOut hx' q hq hx

theorem OnesRange.writes (h : OnesRange priv n nr r s) (hw : OnlyWrites (frameBytes n) s s') :
    OnesRange priv n nr r s' := by
  refine ⟨?_, h.le, h.priv, h.vmcb, fun a ha => ?_⟩
  · rw [hw.handedOut]
    exact h.handedOut
  · rw [← h.ones a ha]
    refine hw.eqOn (Set.disjoint_left.mpr ?_) ha
    rintro x hx ⟨q, hq, hxq⟩
    rw [List.mem_singleton] at hq
    rw [mem_frameBytes] at hx
    rw [hq, hx] at hxq
    exact h.vmcb hxq

/-- What is handed out later leaves the VMCB alone. -/
theorem Evolves.vmcb_eqOn (he : Evolves priv ext s s') (hn : Addressable n)
    (hpriv : Disjoint (frameBytes n) priv) (hout : (UInt64.ofNat n, 1) ∈ s.handedOut) :
    Set.EqOn s'.mem s.mem (frameBytes n) := by
  unfold Addressable at hn
  exact he.frame_eqOn hpriv.symm (he.notMem hout ((rangeFrames_one (by omega)).mpr rfl))

/-- A permission map is created. -/
theorem wp_createInterceptTable_ones (hA : AllocContract alloc E priv Inv) {k : Nat}
    {size : UInt64} (hsize : size.toNat % 4096 = 0)
    (hinv : Inv (k + (size >>> PAGE_SHIFT).toNat + 1) s) (hn : Addressable n)
    (hout : (UInt64.ofNat n, 1) ∈ s.handedOut)
    {Q : UInt64 → State → Prop}
    (hQ : ∀ r s', OnesRange priv n (size >>> PAGE_SHIFT) r s' →
      Evolves priv [(r, size >>> PAGE_SHIFT)] s s' → Inv k s' → Q (r <<< PAGE_SHIFT) s') :
    wp (createInterceptTable alloc size) Q E s := by
  refine wp_createInterceptTable hA hsize hinv fun r s' hfill hinv' =>
    hQ r s' ⟨?_, hfill.le, rangeBytes_disjoint hfill.disjoint, ?_, ?_⟩ hfill.evolves hinv'
  · rw [hfill.evolves.handedOut]
    exact List.mem_cons_self
  · have hn' := hn
    unfold Addressable at hn'
    exact hfill.evolves.notMem hout ((rangeFrames_one (by omega)).mpr rfl) _
      (List.mem_singleton_self _)
  · rintro a ⟨q, hq, ha⟩
    rw [List.mem_singleton] at hq
    subst hq
    exact hfill.fill a ha

/-- `set_control_area`, with the values that it stores. -/
theorem wp_setControlArea_table (hA : AllocContract alloc E priv Inv) {k : Nat}
    (hn : Addressable n) (hpriv : Disjoint (frameBytes n) priv)
    (hout : (UInt64.ofNat n, 1) ∈ s.handedOut) (hzero : VmcbHolds n [] s)
    (hinv : Inv (k + 7) s) {Q : Unit → State → Prop}
    (hQ : ∀ ri rm s', VmcbBuilt priv n ri rm
      (controlTable (ri <<< PAGE_SHIFT) (rm <<< PAGE_SHIFT)) s' → Inv k s' → Q () s') :
    wp (setControlArea alloc (frameVaddr n)) Q E s := by
  rw [setControlArea, wp_bind]
  refine hzero.stored.wp_store hn ⟨_, rfl⟩ (by decide) fun s₁ h₁ => ?_
  rw [printf_bind, wp_bind]
  refine h₁.wp_store hn ⟨_, rfl⟩ (by decide) fun s₂ h₂ => ?_
  rw [wp_bind]
  refine h₂.wp_store hn ⟨_, rfl⟩ (by decide) fun s₃ h₃ => ?_
  rw [wp_bind]
  refine h₃.wp_store hn ⟨_, rfl⟩ (by decide) fun s₄ h₄ => ?_
  rw [wp_bind]
  refine h₄.wp_store hn ⟨_, rfl⟩ (by decide) fun s₅ h₅ => ?_
  have inv₅ := hA.of_onlyWrites hinv h₅.writes hpriv
  have hout₅ : (UInt64.ofNat n, 1) ∈ s₅.handedOut := by
    rw [h₅.writes.handedOut]
    exact hout
  rw [wp_bind]
  refine wp_createInterceptTable_ones hA (k := k + 3) (by decide)
    (show Inv (k + 3 + (((12 : UInt64) <<< 10) >>> PAGE_SHIFT).toNat + 1) s₅ from inv₅) hn
    hout₅ fun ri s₆ hri he₆ inv₆ => ?_
  have h₆ := (h₅.holds.congr (he₆.vmcb_eqOn hn hpriv hout₅)).stored
  have hout₆ : (UInt64.ofNat n, 1) ∈ s₆.handedOut := by
    rw [he₆.handedOut]
    exact List.mem_append_right _ hout₅
  rw [wp_bind]
  refine h₆.wp_store hn ⟨_, rfl⟩ (UInt64.toNat_lt _) fun s₇ h₇ => ?_
  have inv₇ := hA.of_onlyWrites inv₆ h₇.writes hpriv
  have hout₇ : (UInt64.ofNat n, 1) ∈ s₇.handedOut := by
    rw [h₇.writes.handedOut]
    exact hout₆
  rw [wp_bind]
  refine wp_createInterceptTable_ones hA (k := k) (by decide)
    (show Inv (k + (((8 : UInt64) <<< 10) >>> PAGE_SHIFT).toNat + 1) s₇ from inv₇) hn
    hout₇ fun rm s₈ hrm he₈ inv₈ => ?_
  have h₈ := (h₇.holds.congr (he₈.vmcb_eqOn hn hpriv hout₇)).stored
  refine h₈.wp_store hn ⟨_, rfl⟩ (UInt64.toNat_lt _) fun s₉ h₉ => ?_
  refine hQ ri rm s₉ ⟨hn, hpriv, ?_, h₉.holds, ?_, hrm.writes h₉.writes⟩
    (hA.of_onlyWrites inv₈ h₉.writes hpriv)
  · rw [h₉.writes.handedOut, he₈.handedOut]
    exact List.mem_append_right _ hout₇
  · exact ((hri.writes h₇.writes).evolves he₈).writes h₉.writes

namespace VmcbBuilt

theorem evolves (h : VmcbBuilt priv n ri rm t s) (he : Evolves priv ext s s') :
    VmcbBuilt priv n ri rm t s' := by
  refine ⟨h.vmcb, h.vmcb_priv, ?_, h.holds.congr ?_, h.iopm.evolves he, h.msrpm.evolves he⟩
  · rw [he.handedOut]
    exact List.mem_append_right _ h.handedOut
  · exact he.vmcb_eqOn h.vmcb h.vmcb_priv h.handedOut

/-- More of the table was stored. -/
theorem stored {u : List (VmcbField × UInt64)} (h : VmcbBuilt priv n ri rm t s)
    (hs : VmcbStored n u s s') : VmcbBuilt priv n ri rm u s' := by
  refine ⟨h.vmcb, h.vmcb_priv, ?_, hs.holds, h.iopm.writes hs.writes, h.msrpm.writes hs.writes⟩
  rw [hs.writes.handedOut]
  exact h.handedOut

/-- Writes outside the VMCB and the permission maps. -/
theorem keeps {X : Set Nat} (h : VmcbBuilt priv n ri rm t s) (hw : OnlyWrites X s s')
    (hX : Disjoint X (frameBytes n ∪ rangeBytes [(ri, 3)] ∪ rangeBytes [(rm, 2)])) :
    VmcbBuilt priv n ri rm t s' := by
  rw [Set.disjoint_union_right, Set.disjoint_union_right] at hX
  have hones : ∀ {nr r : UInt64}, OnesRange priv n nr r s → Disjoint X (rangeBytes [(r, nr)]) →
      OnesRange priv n nr r s' := by
    intro nr r ho hd
    refine ⟨?_, ho.le, ho.priv, ho.vmcb, fun a ha => ?_⟩
    · rw [hw.handedOut]
      exact ho.handedOut
    · rw [hw.eqOn hd ha, ho.ones a ha]
  refine ⟨h.vmcb, h.vmcb_priv, ?_, h.holds.congr (hw.eqOn hX.1.1), hones h.iopm hX.1.2,
    hones h.msrpm hX.2⟩
  rw [hw.handedOut]
  exact h.handedOut

/-- What is handed out later does not meet the VMCB and the permission maps. -/
theorem disjoint (h : VmcbBuilt priv n ri rm t s) (he : Evolves priv ext s s') :
    Disjoint (rangeBytes ext) (frameBytes n ∪ rangeBytes [(ri, 3)] ∪ rangeBytes [(rm, 2)]) := by
  have hn := h.vmcb
  unfold Addressable at hn
  have hrange : ∀ q' ∈ s.handedOut, Disjoint (rangeBytes ext) (rangeBytes [q']) := by
    intro q' hq'
    rw [Set.disjoint_left]
    rintro a ⟨q, hq, ha⟩ ⟨p, hp, hap⟩
    rw [List.mem_singleton] at hp
    subst hp
    exact he.notMem hq' hap q hq ha
  rw [Set.disjoint_union_right, Set.disjoint_union_right]
  refine ⟨⟨?_, hrange _ h.iopm.handedOut⟩, hrange _ h.msrpm.handedOut⟩
  refine (hrange _ h.handedOut).mono_right fun a ha => ?_
  rw [mem_frameBytes] at ha
  exact ⟨_, List.mem_singleton_self _, (rangeFrames_one (by omega)).mpr ha⟩

end VmcbBuilt

/-- `alloc_vmcb` returns a page of zeros. -/
theorem wp_allocVmcb_zero (hA : AllocContract alloc E priv Inv) {k : Nat}
    (hinv : Inv (k + 2) s) {Q : UInt64 → State → Prop}
    (hQ : ∀ n s', Addressable n → Disjoint (frameBytes n) priv →
      (UInt64.ofNat n, 1) ∈ s'.handedOut → VmcbHolds n [] s' → Inv k s' →
      Q (frameVaddr n) s') :
    wp (allocVmcb alloc) Q E s := by
  rw [allocVmcb]
  refine wp_alloc_memset hA (show AllocArgs 1 1 by decide) (by decide) hinv
    fun r s' hinv' hfill => ?_
  have hmapped := hfill.mapped (by decide)
  have h1 : (1 : UInt64).toNat = 1 := rfl
  rw [h1] at hmapped
  have hmem : ∀ g, g ∈ rangeFrames (r, 1) ↔ g = r.toNat := by
    intro g
    rw [mem_rangeFrames]
    omega
  have hpaddr : r <<< PAGE_SHIFT = UInt64.ofNat (r.toNat * 4096) := by
    rw [← toNat_shiftLeft_PAGE_SHIFT (by omega), UInt64.ofNat_toNat]
  rw [wp_pure, hpaddr]
  refine hQ r.toNat s' hmapped (hfill.disjoint _ ((hmem _).mpr rfl)) ?_ ⟨by simp, ?_⟩ hinv'
  · rw [hfill.evolves.handedOut, UInt64.ofNat_toNat]
    exact List.mem_cons_self
  · intro a ha _
    rw [mem_frameBytes] at ha
    exact hfill.fill a ((hmem _).mpr ha)

/-- The table after the first part of `vm_create`. -/
def memoryTable (ri rm hCr3 : UInt64) : List (VmcbField × UInt64) :=
  controlTable (ri <<< PAGE_SHIFT) (rm <<< PAGE_SHIFT) ++ saveTable ++ segsTable ++
    [(Vmcb.hCr3, hCr3)]

/-- The first part of `vm_create`, with the values that it stores. -/
theorem wp_vmCreateMemory_table (hA : AllocContract alloc E priv Inv) {k : Nat}
    {vmPmemSize : UInt64} (hinv : Inv (k + vmCost vmPmemSize) s) {Q : VmVars → State → Prop}
    (hQ : ∀ n ri rm r hCr3 s', VmcbBuilt priv n ri rm (memoryTable ri rm hCr3) s' →
      r.toNat + (nrVmFrames vmPmemSize).toNat ≤ 2 ^ 33 →
      Disjoint (vmPmemBytes r vmPmemSize)
        (frameBytes n ∪ rangeBytes [(ri, 3)] ∪ rangeBytes [(rm, 2)]) →
      Q ⟨frameVaddr n, VIRT (r <<< PAGE_SHIFT), hCr3⟩ s') :
    wp (vmCreateMemory alloc vmPmemSize) Q E s := by
  rw [vmCost] at hinv
  rw [vmCreateMemory, wp_bind]
  refine wp_allocVmcb_zero hA (k := k + 4 * nrVmPages vmPmemSize + 2 +
    (nrVmFrames vmPmemSize).toNat + 512 + 7) (hA.mono (by omega) hinv)
    fun n s₁ hn hpriv hout hzero inv₁ => ?_
  rw [wp_bind]
  refine wp_setControlArea_table hA hn hpriv hout hzero inv₁ fun ri rm s₂ h₂ inv₂ => ?_
  rw [wp_bind]
  refine h₂.holds.stored.wp_setStateSaveArea hn ⟨_, rfl⟩ fun s₃ hs₃ => ?_
  have h₃ := h₂.stored hs₃
  have inv₃ := hA.of_onlyWrites inv₂ hs₃.writes hpriv
  rw [wp_bind]
  refine wp_allocVmPmem hA (k := k + 4 * nrVmPages vmPmemSize + 2) inv₃
    fun r s₄ hpmem inv₄ => ?_
  have hnr := toNat_shiftRight_PAGE_SHIFT vmPmemSize
  have hle := hpmem.le
  rw [wp_bind]
  refine wp_createVmPmemMappingTable hA (by omega) inv₄ fun f S ext s₅ htable inv₅ => ?_
  have h₅ := (h₃.evolves hpmem.evolves).evolves htable.evolves
  rw [wp_bind]
  refine h₅.holds.stored.wp_store hn ⟨_, rfl⟩ (UInt64.toNat_lt _) fun s₆ hs₆ => ?_
  rw [wp_pure]
  exact hQ n ri rm r _ s₆ (h₅.stored hs₆) hpmem.le (h₃.disjoint hpmem.evolves)

end Control

/-! ## `vm_create` -/

section Create

variable {alloc : UInt64 → UInt64 → M UInt64} {priv : Set Nat} {I : State → Prop}
  {vmPmemSize : UInt64} {n n' f : Nat} {ri rm r r' : UInt64} {S : Set Nat}
  {own : List (UInt64 × UInt64)} {s s₁ s' : State}

theorem VmMemory.temp_le (hm : VmMemory (fun _ => True) priv vmPmemSize n r f S own s s₁) :
    tempFrame r * 4096 + 3 * 4096 ≤ 2 ^ 46 := by
  have hle := hm.pmem_le
  rw [tempFrame]
  omega

/-- The second part of `vm_create`, for a loader that stays in the pages of the VM and
leaves `P entry s₂`. -/
theorem VmMemory.wp_vmCreateGuest_table
    (hm : VmMemory (fun _ => True) priv vmPmemSize n r f S own s s₁)
    (hb : VmcbBuilt priv n ri rm (memoryTable ri rm (UInt64.ofNat (f * 4096))) s₁)
    (hdisj : Disjoint (vmPmemBytes r vmPmemSize)
      (frameBytes n ∪ rangeBytes [(ri, 3)] ∪ rangeBytes [(rm, 2)]))
    (hsize : 0x206000 ≤ vmPmemSize.toNat) {img imgSize : UInt64} {P : UInt64 → State → Prop}
    (hload : wp (loadElfImage img imgSize (VIRT (r <<< PAGE_SHIFT))) (fun entry s₂ =>
      OnlyWrites (vmPmemBytes r vmPmemSize) s₁ s₂ ∧ P entry s₂) (fun _ => True) s₁)
    {Q : Vm → State → Prop}
    (hQ : ∀ entry s₂ s₃ s', P entry s₂ → GuestCreated n r vmPmemSize s₁ s₂ s₃ s' →
      VmcbBuilt priv n ri rm (vmcbTable (ri <<< PAGE_SHIFT) (rm <<< PAGE_SHIFT)
        (UInt64.ofNat (f * 4096)) entry) s' →
      Q ⟨frameVaddr n, UInt64.ofNat (f * 4096), vmMbi (VIRT (r <<< PAGE_SHIFT))⟩ s') :
    wp (vmCreateGuest img imgSize
      ⟨frameVaddr n, VIRT (r <<< PAGE_SHIFT), UInt64.ofNat (f * 4096)⟩) Q
      (fun _ => True) s₁ := by
  obtain ⟨hstart, hfirst⟩ := hm.temp_start
  rw [vmCreateGuest, wp_bind]
  apply wp_imp hload
  intro entry s₂ hloaded
  obtain ⟨hw₂, hP⟩ := hloaded
  have h₂ := hb.keeps hw₂ hdisj
  rw [wp_bind]
  have hnext : (memoryTable ri rm (UInt64.ofNat (f * 4096))).map Prod.fst ++ [Vmcb.rip] <+:
      vmcbFields := ⟨_, rfl⟩
  refine Vmcb.rip.wp_store h₂.vmcb fun s₃ hw₃ hval => ?_
  have hentry : Vmcb.rip.value n s₃ = entry.toNat :=
    hval.trans (Nat.mod_eq_of_lt entry.toNat_lt)
  have h₃ := h₂.stored ⟨(h₂.holds.zero_field hnext).restore hnext hw₃ hentry,
    hw₃.mono (Vmcb.rip.bytes_subset n)⟩
  have hcr3 : Vmcb.cr3.value n s₃ = GUEST_CR3.toNat :=
    h₃.holds.value (Vmcb.cr3, GUEST_CR3) (by simp [memoryTable, saveTable])
  rw [initVmMbi, printf_bind, pure_bind]
  refine wp_bind_of_ok (Vmcb.cr3.load_of_addressable h₃.vmcb s₃) ?_
  rw [hcr3, UInt64.ofNat_toNat, wp_bind]
  refine wp_createTempPageTable hstart hfirst hm.temp_le (Or.inr fun _ => trivial)
    fun s' htable => ?_
  rw [printf_bind, wp_pure]
  refine hQ entry s₂ s₃ s' hP ⟨hw₂, hw₃, htable⟩ (h₃.keeps htable.only (hdisj.mono_left ?_))
  exact tempBytes_subset_iff.mpr hsize

/-- What a run of `vm_create` that returns has built, for a loader that leaves
`P r s₁ entry s₂`. -/
theorem vmCreate_built_of_load (hA : AllocContract alloc (fun _ => True) priv fun _ => I)
    {img imgSize : UInt64} {vm : Vm} {P : UInt64 → State → UInt64 → State → Prop} (hs : I s)
    (hsize : 0x206000 ≤ vmPmemSize.toNat)
    (hload : ∀ n r f S own s₁, VmMemory (fun _ => True) priv vmPmemSize n r f S own s s₁ → I s₁ →
      vmCreateMemory alloc vmPmemSize s =
        .ok (⟨frameVaddr n, VIRT (r <<< PAGE_SHIFT), UInt64.ofNat (f * 4096)⟩, s₁) →
      wp (loadElfImage img imgSize (VIRT (r <<< PAGE_SHIFT))) (fun entry s₂ =>
        OnlyWrites (vmPmemBytes r vmPmemSize) s₁ s₂ ∧ P r s₁ entry s₂) (fun _ => True) s₁)
    (hrun : vmCreate alloc img imgSize vmPmemSize s = .ok (vm, s')) :
    ∃ n r f S own ri rm entry s₁ s₂ s₃,
      vm = ⟨frameVaddr n, UInt64.ofNat (f * 4096), vmMbi (VIRT (r <<< PAGE_SHIFT))⟩ ∧
      VmMemory (fun _ => True) priv vmPmemSize n r f S own s s₁ ∧ I s₁ ∧ P r s₁ entry s₂ ∧
      GuestCreated n r vmPmemSize s₁ s₂ s₃ s' ∧
      VmcbBuilt priv n ri rm
        (vmcbTable (ri <<< PAGE_SHIFT) (rm <<< PAGE_SHIFT) vm.hCr3 entry) s' := by
  obtain ⟨v, s₁, hmem, hguest⟩ := bind_eq_ok.mp hrun
  obtain ⟨n', r', f, S, own, rfl, hm, hinv⟩ := vmMemory_of_run hA hs hmem
  obtain ⟨n, ri, rm, r, hCr3, hv, hb, hle, hdisj⟩ := wp_ok (wp_vmCreateMemory_table hA (k := 0) hs
    (Q := fun v s₁ => ∃ n ri rm r hCr3, v = ⟨frameVaddr n, VIRT (r <<< PAGE_SHIFT), hCr3⟩ ∧
      VmcbBuilt priv n ri rm (memoryTable ri rm hCr3) s₁ ∧
      r.toNat + (nrVmFrames vmPmemSize).toNat ≤ 2 ^ 33 ∧
      Disjoint (vmPmemBytes r vmPmemSize)
        (frameBytes n ∪ rangeBytes [(ri, 3)] ∪ rangeBytes [(rm, 2)]))
    fun n ri rm r hCr3 s' hb hle hdisj => ⟨n, ri, rm, r, hCr3, rfl, hb, hle, hdisj⟩) hmem
  rw [VmVars.mk.injEq] at hv
  obtain ⟨hvmcb, hstart, rfl⟩ := hv
  obtain rfl := frameVaddr_inj hm.vmcb hb.vmcb hvmcb
  -- Both start addresses are the same one.
  have hr : r' = r := by
    have hphys := congrArg (fun x => (PHYS x).toNat) hstart
    have hshift := toNat_shiftLeft_PAGE_SHIFT (x := r) (by omega)
    simp only [PHYS_VIRT, hm.toNat_start, hshift] at hphys
    exact UInt64.toNat_inj.mp (Nat.eq_of_mul_eq_mul_right (by decide) hphys)
  subst hr
  obtain ⟨entry, s₂, s₃, rfl, hP, hg, hbuilt⟩ := wp_ok (hm.wp_vmCreateGuest_table hb hdisj hsize
    (hload _ _ _ _ _ _ hm hinv hmem) (Q := fun vm s' => ∃ entry s₂ s₃,
      vm = ⟨frameVaddr n', UInt64.ofNat (f * 4096), vmMbi (VIRT (r' <<< PAGE_SHIFT))⟩ ∧
      P r' s₁ entry s₂ ∧ GuestCreated n' r' vmPmemSize s₁ s₂ s₃ s' ∧
      VmcbBuilt priv n' ri rm
        (vmcbTable (ri <<< PAGE_SHIFT) (rm <<< PAGE_SHIFT) vm.hCr3 entry) s')
    fun entry s₂ s₃ s' hP hg hb => ⟨entry, s₂, s₃, rfl, hP, hg, hb⟩) hguest
  exact ⟨n', r', f, S, own, ri, rm, entry, s₁, s₂, s₃, rfl, hm, hinv, hP, hg, hbuilt⟩

/-- The VMCB that a run of `vm_create` leaves. -/
theorem vmCreate_built (hA : AllocContract alloc (fun _ => True) priv fun _ => I)
    {img imgSize : UInt64} {vm : Vm} (hs : I s) (hsize : 0x206000 ≤ vmPmemSize.toNat)
    (hfits : ImageFits alloc img vmPmemSize s)
    (hrun : vmCreate alloc img imgSize vmPmemSize s = .ok (vm, s')) :
    ∃ n ri rm rip, vm.vmcb = frameVaddr n ∧ VmcbBuilt priv n ri rm
      (vmcbTable (ri <<< PAGE_SHIFT) (rm <<< PAGE_SHIFT) vm.hCr3 rip) s' := by
  obtain ⟨n, r, f, S, own, ri, rm, rip, s₁, s₂, s₃, rfl, -, -, -, -, hbuilt⟩ :=
    vmCreate_built_of_load hA hs hsize (P := fun _ _ _ _ => True)
      (fun n r f S own s₁ hm _ hmem => by
        have hfits' := hfits _ _ hmem
        dsimp only at hfits'
        exact wp_imp (hm.wp_loadElfImage (fun _ => trivial) hfits') fun _ _ hw => ⟨hw, trivial⟩)
      hrun
  exact ⟨n, ri, rm, rip, rfl, hbuilt⟩

end Create

/-! ## The checks -/

/-- What `VMRUN` checks of the VMCB in frame `n`.  Other than the predicates of
`vmcb_check_consistency`, every condition is on the whole field. -/
structure VmrunAccepts (n : Nat) (s : State) : Prop where
  svme : Vmcb.efer.bit 12 n s
  cdnw : Vmcb.cr0.bit 29 n s → Vmcb.cr0.bit 30 n s
  reserved : ∀ r ∈ reservedRanges, ¬r.field.AnyBit r.lo 64 n s
  pae : Vmcb.efer.bit 8 n s → Vmcb.cr0.bit 31 n s → Vmcb.cr4.bit 5 n s
  pe : Vmcb.efer.bit 8 n s → Vmcb.cr0.bit 31 n s → Vmcb.cr0.bit 0 n s
  csld : Vmcb.efer.bit 8 n s → Vmcb.cr0.bit 31 n s → Vmcb.cr4.bit 5 n s →
    SegReg.cs.attrs.bit 9 n s → ¬SegReg.cs.attrs.bit 10 n s
  vmrun : Vmcb.general2Intercepts.bit 0 n s
  asid : Vmcb.guestAsid.value n s ≠ 0
  iopm : Vmcb.iopmBasePa.value n s % 4096 = 0
  msrpm : Vmcb.msrpmBasePa.value n s % 4096 = 0

section Checks

variable {n : Nat} {s : State}

/-- What the processor accepts, the program accepts, too. -/
theorem VmrunAccepts.passes (h : VmrunAccepts n s) : Passes n s := by
  have hreserved : ∀ f lo check hi, ⟨f, lo, check⟩ ∈ reservedRanges → hi ≤ 64 →
      ¬f.AnyBit lo hi n s := by
    intro f lo check hi hmem hle hbit
    exact h.reserved _ hmem (hbit.mono hle)
  constructor
  · exact h.svme
  · exact h.cdnw
  · exact hreserved _ _ checkCr0_32_63 64 (by simp [reservedRanges]) (by decide)
  · exact hreserved _ _ checkCr4_11_63 43 (by simp [reservedRanges]) (by decide)
  · exact hreserved _ _ checkDr6_32_63 64 (by simp [reservedRanges]) (by decide)
  · exact hreserved _ _ checkDr7_32_63 64 (by simp [reservedRanges]) (by decide)
  · exact hreserved _ _ checkEfer_15_63 47 (by simp [reservedRanges]) (by decide)
  · exact fun hlme hpg => Or.inl (h.pae hlme hpg)
  · exact h.pe
  · exact fun hlme hpg _ => h.csld hlme hpg (h.pae hlme hpg)
  · exact h.vmrun

/-- A field that is in no row of the table. -/
theorem VmcbHolds.value_eq_zero {t : List (VmcbField × UInt64)} {f : VmcbField}
    (h : VmcbHolds n t s) (hf : ∀ p ∈ t, p.1.Apart f) : f.value n s = 0 :=
  ByteMem.readLE_of_zero fun a ha => h.zero a (f.bytes_subset n ha) fun p hp =>
    Set.disjoint_left.mp (hf p hp).disjoint ha

/-- The VMCB that `vm_create` leaves is accepted. -/
theorem VmcbHolds.accepted {ri rm hCr3 rip : UInt64} (hri : ri.toNat < 2 ^ 52)
    (hrm : rm.toNat < 2 ^ 52)
    (h : VmcbHolds n (vmcbTable (ri <<< PAGE_SHIFT) (rm <<< PAGE_SHIFT) hCr3 rip) s) :
    VmrunAccepts n s := by
  have hefer : Vmcb.efer.value n s = 0x1500 :=
    h.value (Vmcb.efer, EFER_LME ||| EFER_LMA ||| EFER_SVME) (by simp [vmcbTable, saveTable])
  have hcr0 : Vmcb.cr0.value n s = 0x80000001 :=
    h.value (Vmcb.cr0, X86_CR0_PE ||| X86_CR0_PG) (by simp [vmcbTable, saveTable])
  have hcr4 : Vmcb.cr4.value n s = 0xa0 :=
    h.value (Vmcb.cr4, X86_CR4_PAE) (by simp [vmcbTable, saveTable])
  have hcs : SegReg.cs.attrs.value n s = 0x29a :=
    h.value (SegReg.cs.attrs, CODE_ATTRS) (by simp [vmcbTable, segsTable, segTable])
  have hvmrun : Vmcb.general2Intercepts.value n s = 1 :=
    h.value (Vmcb.general2Intercepts, INTRCPT_VMRUN) (by simp [vmcbTable, controlTable])
  have hasid : Vmcb.guestAsid.value n s = 1 :=
    h.value (Vmcb.guestAsid, 1) (by simp [vmcbTable, controlTable])
  have hiopm : Vmcb.iopmBasePa.value n s = ri.toNat * 4096 := by
    rw [← toNat_shiftLeft_PAGE_SHIFT hri]
    exact h.value (Vmcb.iopmBasePa, ri <<< PAGE_SHIFT) (by simp [vmcbTable, controlTable])
  have hmsrpm : Vmcb.msrpmBasePa.value n s = rm.toNat * 4096 := by
    rw [← toNat_shiftLeft_PAGE_SHIFT hrm]
    exact h.value (Vmcb.msrpmBasePa, rm <<< PAGE_SHIFT) (by simp [vmcbTable, controlTable])
  -- The debug registers are not stored.
  have hmap : (vmcbTable (ri <<< PAGE_SHIFT) (rm <<< PAGE_SHIFT) hCr3 rip).map Prod.fst =
      vmcbFields := rfl
  have hfields : ∀ f : VmcbField, (∀ g ∈ vmcbFields, g.Apart f) → f.value n s = 0 := fun f hf =>
    h.value_eq_zero fun p hp => hf p.1 (hmap ▸ List.mem_map_of_mem hp)
  have hdr6 := hfields Vmcb.dr6 (by decide)
  have hdr7 := hfields Vmcb.dr7 (by decide)
  constructor
  · rw [VmcbField.bit, hefer]
    decide
  · rw [VmcbField.bit, VmcbField.bit, hcr0]
    decide
  · simp only [reservedRanges, List.forall_mem_cons, List.not_mem_nil, false_implies,
      implies_true, and_true, VmcbField.AnyBit, VmcbField.bit, hcr0, hcr4, hdr6, hdr7, hefer]
    decide
  · rw [VmcbField.bit, VmcbField.bit, VmcbField.bit, hefer, hcr0, hcr4]
    decide
  · rw [VmcbField.bit, VmcbField.bit, VmcbField.bit, hefer, hcr0]
    decide
  · rw [VmcbField.bit, VmcbField.bit, VmcbField.bit, VmcbField.bit, VmcbField.bit, hcs]
    intro _ _ _ _
    decide
  · rw [VmcbField.bit, hvmrun]
    decide
  · rw [hasid]
    decide
  · rw [hiopm, Nat.mul_mod_left]
  · rw [hmsrpm, Nat.mul_mod_left]

theorem VmcbBuilt.accepted {priv : Set Nat} {ri rm hCr3 rip : UInt64}
    (h : VmcbBuilt priv n ri rm
      (vmcbTable (ri <<< PAGE_SHIFT) (rm <<< PAGE_SHIFT) hCr3 rip) s) : VmrunAccepts n s := by
  have hle : ∀ {nr r : UInt64}, OnesRange priv n nr r s → r.toNat < 2 ^ 52 := fun ho => by
    have := ho.le
    omega
  exact h.holds.accepted (hle h.iopm) (hle h.msrpm)

end Checks

/-- Every run of `vm_create` that returns leaves a VMCB that is the table, all of whose
permission bits are set, and that both the program and the processor accept. -/
theorem vmCreate_vmcb_accepted {alloc : UInt64 → UInt64 → M UInt64} {priv : Set Nat}
    {I : State → Prop} (hA : AllocContract alloc (fun _ => True) priv fun _ => I)
    {img imgSize vmPmemSize : UInt64} {vm : Vm} {s s' : State} (hs : I s)
    (hsize : 0x206000 ≤ vmPmemSize.toNat) (hfits : ImageFits alloc img vmPmemSize s)
    (hrun : vmCreate alloc img imgSize vmPmemSize s = .ok (vm, s')) :
    ∃ n ri rm rip, vm.vmcb = frameVaddr n ∧
      VmcbBuilt priv n ri rm
        (vmcbTable (ri <<< PAGE_SHIFT) (rm <<< PAGE_SHIFT) vm.hCr3 rip) s' ∧
      VmrunAccepts n s' ∧ vmcbCheckConsistency vm.vmcb s' = .ok ((), s') := by
  obtain ⟨n, ri, rm, rip, hvmcb, hb⟩ := vmCreate_built hA hs hsize hfits hrun
  refine ⟨n, ri, rm, rip, hvmcb, hb, hb.accepted, ?_⟩
  rw [hvmcb]
  exact (vmcbCheckConsistency_eq_ok_iff hb.vmcb).mpr hb.accepted.passes

/-- The VMCB of the sample machine. -/
theorem sample_vmCreate_vmcb_accepted : ∃ s₁ vm s₃ n,
    vmCreate allocPages (VIRT 0x800000) 0x100000 0x400000 s₁ = .ok (vm, s₃) ∧
    vm.vmcb = frameVaddr n ∧ VmrunAccepts n s₃ := by
  obtain ⟨L, s₁, _, _, vm, s₃, hinit, hready, himage, -, hvm⟩ := sample_vmCreate_fits
  have hfits := imageFits_of_wellFormed 0x400000 hready hready.inv
    sample_image.1 sample_image.2
    (himage.wellFormed (by decide) (by decide) (by decide) (by decide))
  obtain ⟨n, -, -, -, hvmcb, -, haccepts, -⟩ := vmCreate_vmcb_accepted
    (allocPages_contract_returns L) hready.inv (by decide) hfits hvm
  exact ⟨s₁, vm, s₃, n, hvm, hvmcb, haccepts⟩

end Tvmm
