import Tvmm.Cpu

/-!
# What `identify_cpu` makes sure of

The verdict comes from four functions and from `x86_capability`, whose words are
filled under one number and read under another.  `PassesChecks` says in terms of
CPUID alone what has to hold for `identify_cpu` to go on.

Nested paging is bit 0 of EDX of leaf 0x8000000A.  `__init_amd` looks at bit 0 of
EBX of leaf 0x80000000 instead, so `identifyCpu_sound` needs that bit as a condition.
-/

set_option linter.style.nameCheck false

namespace Tvmm

open Exec

/-! ## The vendor -/

theorem strncmp_eq_zero_iff : ∀ {cs ct : List UInt8}, cs.length = ct.length →
    (∀ t ∈ ct, t ≠ 0) → (strncmp cs ct ct.length = 0 ↔ cs = ct) := by
  intro cs
  induction cs with
  | nil =>
    intro ct hlen _
    rw [List.length_nil] at hlen
    rw [List.eq_nil_of_length_eq_zero hlen.symm]
    exact iff_of_true rfl rfl
  | cons c cs ih =>
    intro ct hlen hne
    cases ct with
    | nil => cases hlen
    | cons t ct =>
      have ht : t ≠ 0 := hne t List.mem_cons_self
      have hres : (c - t).toInt8 = 0 ↔ c = t := by
        rw [← Int8.toBitVec_inj, show (c - t).toInt8.toBitVec = (c - t).toBitVec from rfl,
          show (0 : Int8).toBitVec = (0 : UInt8).toBitVec from rfl, UInt8.toBitVec_inj,
          UInt8.sub_eq_iff_eq_add, UInt8.zero_add]
      rw [List.length_cons, strncmp]
      by_cases hct : c = t
      · subst hct
        rw [if_neg (not_or.mpr ⟨not_not.mpr (hres.mpr rfl), ht⟩), List.cons.injEq]
        rw [ih (Nat.succ.inj hlen) fun t' ht' => hne t' (List.mem_cons_of_mem _ ht')]
        exact (and_iff_right rfl).symm
      · have hres' : (c - t).toInt8 ≠ 0 := fun h => hct (hres.mp h)
        rw [if_pos (Or.inl hres')]
        exact iff_of_false hres' fun h => hct (List.cons.inj h).1

/-- The vendor string that leaf 0 gives. -/
def vendorId (cpuid : Cpuid) : List UInt8 :=
  ByteMem.bytesLE 4 (cpuid 0).ebx.toNat ++
    (ByteMem.bytesLE 4 (cpuid 0).edx.toNat ++ ByteMem.bytesLE 4 (cpuid 0).ecx.toNat)

theorem length_vendorId (cpuid : Cpuid) : (vendorId cpuid).length = 12 := by
  rw [vendorId, List.length_append, List.length_append, ByteMem.length_bytesLE,
    ByteMem.length_bytesLE, ByteMem.length_bytesLE]

theorem strncmp_vendorId (cpuid : Cpuid) :
    strncmp (vendorId cpuid) authenticAMD 12 = 0 ↔ vendorId cpuid = authenticAMD :=
  strncmp_eq_zero_iff (length_vendorId cpuid) fun _ ht =>
    ne_of_mem_of_not_mem ht (show 0 ∉ authenticAMD by decide)

/-! ## The fields that are checked -/

/-- The processor family, from leaf 1. -/
def cpuFamily (cpuid : Cpuid) : UInt8 :=
  if (cpuid 0).eax.toInt32 ≥ 1 then
    let x86 := (((cpuid 1).eax >>> 8) &&& 0xf).toUInt8
    if x86 = 0xf then x86 + (((cpuid 1).eax >>> 20) &&& 0xff).toUInt8 else x86
  else 4

/-- Leaf 0x80000001 is there. -/
def HasExtendedLeaf (cpuid : Cpuid) : Prop :=
  (cpuid 0x80000000).eax &&& 0xffff0000 = 0x80000000 ∧ (cpuid 0x80000000).eax ≥ 0x80000001

instance (cpuid : Cpuid) : Decidable (HasExtendedLeaf cpuid) :=
  inferInstanceAs (Decidable (_ ∧ _))

/-- Word 6 of `x86_capability` after `early_identify_cpu`. -/
def svmWord (cpuid : Cpuid) : UInt32 :=
  if HasExtendedLeaf cpuid then (cpuid 0x80000001).ecx else 0

section Early

variable (cpuid : Cpuid)

/-- Nothing after `get_cpu_vendor` changes the vendor. -/
theorem identified_vendor :
    (identified cpuid).x86Vendor = X86_VENDOR_AMD ↔ vendorId cpuid = authenticAMD := by
  have h : (identified cpuid).x86Vendor =
      if strncmp (vendorId cpuid) authenticAMD 12 = 0 then X86_VENDOR_AMD
      else X86_VENDOR_UNKNOWN := by
    simp only [identified, identifyFlags, CpuinfoX86.setVendor, apply_ite CpuinfoX86.x86Vendor, ite_self]
    rfl
  rw [h, ← strncmp_vendorId]
  split_ifs with hv
  · exact iff_of_true rfl hv
  · exact iff_of_false (by decide) hv

theorem identified_x86 : (identified cpuid).x86 = cpuFamily cpuid := by
  simp only [identified, identifyFlags, CpuinfoX86.setVendor, apply_ite CpuinfoX86.x86,
    apply_ite CpuinfoX86.cpuidLevel, ite_self]
  rfl

/-- The other leaves fill other words. -/
theorem identified_svmWord :
    (identified cpuid).x86Capability.get 6 = svmWord cpuid := by
  have hzero : (vendorCpuinfo cpuid).setVendor.x86Capability = Vector.replicate 7 0 := by
    rw [CpuinfoX86.setVendor]
    split_ifs <;> rfl
  unfold svmWord
  show (identified cpuid).x86Capability[6] = _
  by_cases hleaf : HasExtendedLeaf cpuid
  · have hleaf' := hleaf
    rw [HasExtendedLeaf] at hleaf'
    rw [if_pos hleaf]
    simp only [identified, identifyFlags, if_pos hleaf']
    split_ifs <;> simp
  · have hleaf' := hleaf
    rw [HasExtendedLeaf] at hleaf'
    rw [if_neg hleaf]
    simp only [identified, identifyFlags, if_neg hleaf']
    split_ifs <;> simp [hzero]

end Early

/-! ## The verdict -/

/-- What has to hold for `identify_cpu` to go on. -/
structure PassesChecks (cpuid : Cpuid) : Prop where
  vendor : vendorId cpuid = authenticAMD
  family : cpuFamily cpuid = 0xf
  /-- what `__init_amd` takes for nested paging -/
  np : (cpuid 0x80000000).ebx &&& 1 ≠ 0
  leaf : HasExtendedLeaf cpuid
  svm : (cpuid 0x80000001).ecx &&& 4 ≠ 0

theorem testBit_SVME (addr : X86Capability) :
    testBit X86_FEATURE_SVME addr = (addr.get 6 &&& 4 != 0) := by
  have h : ((1 : UInt64) <<< UInt64.ofNat (X86_FEATURE_SVME.val % 32) &&&
      (addr.get 6).toUInt64) = 0 ↔ addr.get 6 &&& 4 = 0 := by
    rw [← UInt64.toNat_inj, ← UInt32.toNat_inj, UInt64.toNat_and, UInt32.toNat_and,
      UInt32.toNat_toUInt64, Nat.and_comm]
    rfl
  show (_ != _) = (_ != _)
  rw [Bool.eq_iff_iff, bne_iff_ne, bne_iff_ne]
  exact not_congr h

theorem getElem_setBit {nr : X86Feature} (addr : X86Capability) {i : Nat} (hi : i < 7)
    (h : nr.val / 32 ≠ i) : (setBit nr addr)[i] = addr[i] :=
  Vector.getElem_set_ne nr.word_lt hi h

theorem getElem_clearBit {nr : X86Feature} (addr : X86Capability) {i : Nat} (hi : i < 7)
    (h : nr.val / 32 ≠ i) : (clearBit nr addr)[i] = addr[i] :=
  Vector.getElem_set_ne nr.word_lt hi h

/-- `init_amd` and `enable_svm` change other words than the one that is tested. -/
theorem testBit_initAmd (level : Prop) [Decidable level] (addr : X86Capability) (x : UInt32)
    (h : 5 < 7) :
    testBit X86_FEATURE_SVME ((setBit X86_FEATURE_FXSAVE_LEAK (if level then
      setBit X86_FEATURE_REP_GOOD (clearBit (0 * 32 + 31) addr)
      else clearBit (0 * 32 + 31) addr)).set 5 x h) = (addr.get 6 &&& 4 != 0) := by
  rw [testBit_SVME]
  show ((Vector.set _ 5 x h)[6] &&& 4 != 0) = (addr[6] &&& 4 != 0)
  rw [Vector.getElem_set_ne (by decide) (by decide) (by decide),
    getElem_setBit _ (by decide) (by decide)]
  split_ifs
  · rw [getElem_setBit _ (by decide) (by decide), getElem_clearBit _ (by decide) (by decide)]
  · rw [getElem_clearBit _ (by decide) (by decide)]

theorem svmWord_and_ne_zero (cpuid : Cpuid) : svmWord cpuid &&& 4 ≠ 0 ↔
    HasExtendedLeaf cpuid ∧ (cpuid 0x80000001).ecx &&& 4 ≠ 0 := by
  unfold svmWord
  split_ifs with h
  · exact (and_iff_right h).symm
  · exact iff_of_false (by simp) fun h' => h h'.1

/-- A run that returns passed the checks. -/
theorem passesChecks_of_identifyCpu {alloc : UInt64 → UInt64 → M UInt64} {cpuid : Cpuid}
    {s s' : State} {r : UInt64} (h : identifyCpu alloc cpuid s = .ok (r, s')) :
    PassesChecks cpuid := by
  rw [identifyCpu, earlyIdentifyCpu_eq, pure_bind] at h
  split_ifs at h with hvendor
  on_goal 2 => cases h
  rw [initAmd] at h
  split_ifs at h with hx86
  · cases h
  obtain ⟨_, _, hnp, h⟩ := bind_eq_ok.mp h
  rw [__initAmd, when] at hnp
  split_ifs at hnp with hnp'
  · cases hnp
  rw [enableSvm] at h
  dsimp only at h
  rw [testBit_initAmd, identified_svmWord] at h
  split_ifs at h with hsvm
  · cases h
  rw [Bool.not_eq_true', bne_eq_false_iff_eq] at hsvm
  obtain ⟨hleaf, hecx⟩ := (svmWord_and_ne_zero cpuid).mp hsvm
  rw [not_not, identified_x86] at hx86
  exact ⟨(identified_vendor cpuid).mp hvendor, hx86, hnp', hleaf, hecx⟩

/-- When the checks are passed, the host save area is all that is left. -/
theorem identifyCpu_eq {cpuid : Cpuid} (h : PassesChecks cpuid)
    (alloc : UInt64 → UInt64 → M UInt64) :
    identifyCpu alloc cpuid = (do return PHYS (← allocHostSaveArea alloc)) := by
  have hsvm := (svmWord_and_ne_zero cpuid).mpr ⟨h.leaf, h.svm⟩
  rw [identifyCpu, earlyIdentifyCpu_eq, pure_bind,
    if_pos ((identified_vendor cpuid).mpr h.vendor), initAmd, if_neg (by rw [identified_x86, h.family]; exact not_not_intro rfl)]
  dsimp only
  unfold __initAmd enableSvm
  dsimp only
  rw [testBit_initAmd, identified_svmWord, when, if_neg h.np,
    if_neg (by rw [bne_iff_ne.mpr hsvm]; decide)]
  rfl

/-- What the VMM needs of the processor. -/
structure CpuAccepted (cpuid : Cpuid) : Prop where
  vendor : vendorId cpuid = authenticAMD
  leaf : (cpuid 0x80000000).eax ≥ 0x80000001
  svm : (cpuid 0x80000001).ecx &&& 4 ≠ 0
  nestedPaging : (cpuid 0x8000000A).edx &&& 1 ≠ 0

/-- On the sample machine the host save area is there to be allocated. -/
theorem sample_allocHostSaveArea : ∃ s r s',
    allocHostSaveArea allocPages s = .ok (r, s') := by
  obtain ⟨L, s₁, -, hready, hroom⟩ := sample_init sampleState
  obtain ⟨r, s', hrun, -⟩ := exists_ok_of_wp (wp_allocHostSaveArea
    (allocPages_contract (fun _ => False) L) (sample_budget (k := 2) hready hroom (by decide))
    (Q := fun _ _ => True) fun _ _ _ _ => trivial)
  exact ⟨s₁, r, s', hrun⟩

/-- A processor that is accepted has SVM.  It has nested paging in every case if and
only if CPUID says so when all the checks are passed. -/
theorem identifyCpu_sound (cpuid : Cpuid) :
    (∀ s r s', identifyCpu allocPages cpuid s = .ok (r, s') → CpuAccepted cpuid) ↔
      (PassesChecks cpuid → (cpuid 0x8000000A).edx &&& 1 ≠ 0) := by
  constructor
  · intro h hpass
    obtain ⟨s, r, s', hrun⟩ := sample_allocHostSaveArea
    refine (h s (PHYS r) s' ?_).nestedPaging
    rw [identifyCpu_eq hpass, bind_of_ok hrun]
    rfl
  · intro h s r s' hrun
    have hpass := passesChecks_of_identifyCpu hrun
    exact ⟨hpass.vendor, hpass.leaf.2, hpass.svm, h hpass⟩

/-- The sample processor is accepted.  It has no leaf 0x8000000A. -/
theorem identifyCpu_not_sound : ∃ s r s',
    identifyCpu allocPages sampleCpuid s = .ok (r, s') ∧ ¬CpuAccepted sampleCpuid := by
  obtain ⟨s, r, s', hrun⟩ := sample_allocHostSaveArea
  refine ⟨s, PHYS r, s', ?_, fun h => ?_⟩
  · rw [sample_identifyCpu, bind_of_ok hrun]
    rfl
  · exact absurd rfl h.nestedPaging

end Tvmm
