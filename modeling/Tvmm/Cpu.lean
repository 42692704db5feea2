import Tvmm.AllocContract

/-!
# `cpu.c` and `svm.c`: the processor

`identify_cpu` decides from CPUID whether the VMM can run, and enables SVM.  What
CPUID returns is a parameter.  Of `struct cpuinfo_x86` the model has the fields
that are read, and of the stores to model-specific registers only the address of
the host save area, which `enable_svm` returns here.

To memory the whole is one page: `wp_identifyCpu` says that a run that returns
allocated the host save area and wrote nothing else.
-/

set_option linter.style.nameCheck false

namespace Tvmm

open Exec

/-- What CPUID leaves in the registers. -/
structure CpuidRegs where
  eax : UInt32
  ebx : UInt32
  ecx : UInt32
  edx : UInt32

/-- The function that CPUID computes from `eax`. -/
abbrev Cpuid := UInt32 → CpuidRegs

/-! ## `bitops.h`, on `x86_capability` -/

abbrev X86Capability := Vector UInt32 7

/-- The number of a bit in `x86_capability`. -/
abbrev X86Feature := Fin (7 * 32)

theorem X86Feature.word_lt (nr : X86Feature) : nr.val / 32 < 7 := by
  omega

/-- `set_bit` -/
def setBit (nr : X86Feature) (addr : X86Capability) : X86Capability :=
  let w := addr.get ⟨nr.val / 32, nr.word_lt⟩
  addr.set (nr.val / 32) (w ||| (1 : UInt32) <<< UInt32.ofNat (nr.val % 32)) nr.word_lt

/-- `clear_bit` -/
def clearBit (nr : X86Feature) (addr : X86Capability) : X86Capability :=
  let w := addr.get ⟨nr.val / 32, nr.word_lt⟩
  addr.set (nr.val / 32) (w &&& ~~~((1 : UInt32) <<< UInt32.ofNat (nr.val % 32))) nr.word_lt

/-- `constant_test_bit` -/
def testBit (nr : X86Feature) (addr : X86Capability) : Bool :=
  let w := addr.get ⟨nr.val / 32, nr.word_lt⟩
  (1 : UInt64) <<< UInt64.ofNat (nr.val % 32) &&& w.toUInt64 != 0

def X86_FEATURE_REP_GOOD : X86Feature := 3 * 32 + 4
def X86_FEATURE_FXSAVE_LEAK : X86Feature := 3 * 32 + 7
def X86_FEATURE_SVME : X86Feature := 6 * 32 + 2

/-! ## `cpu.c` -/

def X86_VENDOR_AMD : UInt8 := 2
def X86_VENDOR_UNKNOWN : UInt8 := 0xff

/-- The fields of `struct cpuinfo_x86` that are read. -/
structure CpuinfoX86 where
  /-- CPU family -/
  x86 : UInt8
  x86Vendor : UInt8
  /-- maximum supported CPUID level -/
  cpuidLevel : Int32
  x86Capability : X86Capability
  /-- the twelve characters that CPUID fills -/
  x86VendorId : List UInt8

/-- `"AuthenticAMD"` -/
def authenticAMD : List UInt8 :=
  [0x41, 0x75, 0x74, 0x68, 0x65, 0x6E, 0x74, 0x69, 0x63, 0x41, 0x4D, 0x44]

/-- The vendor that `get_cpu_vendor` stores. -/
def CpuinfoX86.setVendor (c : CpuinfoX86) : CpuinfoX86 :=
  if strncmp c.x86VendorId authenticAMD 12 = 0 then { c with x86Vendor := X86_VENDOR_AMD }
  else { c with x86Vendor := X86_VENDOR_UNKNOWN }

/-- `get_cpu_vendor` -/
def getCpuVendor (c : CpuinfoX86) : M CpuinfoX86 := do
  printf "Vendor ID: %s\n"
  return c.setVendor

/-- `early_identify_cpu` up to the call of `get_cpu_vendor`. -/
def vendorCpuinfo (cpuid : Cpuid) : CpuinfoX86 :=
  -- Get vendor name
  let vendor := cpuid 0x00000000
  { x86 := 0
    x86Vendor := X86_VENDOR_UNKNOWN
    cpuidLevel := vendor.eax.toInt32
    x86Capability := Vector.replicate 7 0
    x86VendorId := ByteMem.bytesLE 4 vendor.ebx.toNat ++
      (ByteMem.bytesLE 4 vendor.edx.toNat ++ ByteMem.bytesLE 4 vendor.ecx.toNat) }

/-- `early_identify_cpu` after the call of `get_cpu_vendor`. -/
def identifyFlags (cpuid : Cpuid) (c : CpuinfoX86) : CpuinfoX86 :=
  -- Intel-defined flags: level 0x00000001
  let c :=
    if c.cpuidLevel ≥ 0x00000001 then
      let flags := cpuid 0x00000001
      let tfms := flags.eax
      let x86 := ((tfms >>> 8) &&& 0xf).toUInt8
      { c with
        x86Capability := (c.x86Capability.set 4 flags.ecx).set 0 flags.edx
        x86 := if x86 = 0xf then x86 + ((tfms >>> 20) &&& 0xff).toUInt8 else x86 }
    else { c with x86 := 4 }
  -- AMD-defined flags: level 0x80000001
  let xlvl := (cpuid 0x80000000).eax
  let c :=
    if xlvl &&& 0xffff0000 = 0x80000000 ∧ xlvl ≥ 0x80000001 then
      { c with
        x86Capability := (c.x86Capability.set 1 (cpuid 0x80000001).edx).set 6
          (cpuid 0x80000001).ecx }
    else c
  -- Transmeta-defined flags: level 0x80860001
  let xlvl := (cpuid 0x80860000).eax
  if xlvl &&& 0xffff0000 = 0x80860000 ∧ xlvl ≥ 0x80860001 then
    { c with x86Capability := c.x86Capability.set 2 (cpuid 0x80860001).edx }
  else c

/-- `early_identify_cpu` -/
def earlyIdentifyCpu (cpuid : Cpuid) : M CpuinfoX86 := do
  let c ← getCpuVendor (vendorCpuinfo cpuid)
  return identifyFlags cpuid c

/-- What `early_identify_cpu` finds out. -/
def identified (cpuid : Cpuid) : CpuinfoX86 := identifyFlags cpuid (vendorCpuinfo cpuid).setVendor

theorem earlyIdentifyCpu_eq (cpuid : Cpuid) : earlyIdentifyCpu cpuid = pure (identified cpuid) :=
  rfl

section Source

variable (allocPages : UInt64 → UInt64 → M UInt64)

/-- `alloc_host_save_area` -/
def allocHostSaveArea : M UInt64 := do
  let n ← allocPages 1 1
  let hsa := VIRT (n <<< PAGE_SHIFT)
  when (hsa ≠ 0) (memset hsa 0 PAGE_SIZE)
  return hsa

/-- `enable_svm`.  The result is what is stored in `MSR_K8_VM_HSAVE_PA`. -/
def enableSvm (cpuid : Cpuid) (c : CpuinfoX86) : M UInt64 := do
  let c := { c with x86Capability := c.x86Capability.set 5 (cpuid 0x80000001).ecx }
  if !testBit X86_FEATURE_SVME c.x86Capability then
    fatalFailure "No svm featurel\n"
  else
    printf "AMD SVM Extension is enabled.\n"
    let hostSaveArea ← allocHostSaveArea allocPages
    return PHYS hostSaveArea

/-- `__init_amd` -/
def __initAmd (cpuid : Cpuid) : M Unit :=
  let np := (cpuid 0x80000000).ebx &&& 1
  when (np = 0) (fatalFailure "Nested paging is not supported.\n")

/-- `init_amd` -/
def initAmd (cpuid : Cpuid) (c : CpuinfoX86) : M UInt64 := do
  if c.x86 ≠ 0xf then
    fatalFailure "init_amd\n"
  else
    let cap := clearBit (0 * 32 + 31) c.x86Capability
    let level := (cpuid 1).eax
    let cap :=
      if (level ≥ 0x0f48 ∧ level < 0x0f50) ∨ level ≥ 0x0f58 then
        setBit X86_FEATURE_REP_GOOD cap
      else cap
    let cap := setBit X86_FEATURE_FXSAVE_LEAK cap
    __initAmd cpuid
    enableSvm allocPages cpuid { c with x86Capability := cap }

/-- `identify_cpu` -/
def identifyCpu (cpuid : Cpuid) : M UInt64 := do
  let c ← earlyIdentifyCpu cpuid
  if c.x86Vendor = X86_VENDOR_AMD then initAmd allocPages cpuid c
  else fatalFailure "Unknown CPU vendor\n"

end Source

/-! ## The host save area -/

section Alloc

variable {alloc : UInt64 → UInt64 → M UInt64} {E : Stop → Prop} {priv : Set Nat}
  {Inv : Nat → State → Prop} {k : Nat} {s : State} {cpuid : Cpuid}

/-- The host save area is a page that was handed out. -/
theorem wp_allocHostSaveArea (hA : AllocContract alloc E priv Inv) (hinv : Inv (k + 2) s)
    {Q : UInt64 → State → Prop}
    (hQ : ∀ r s', Evolves priv [(r, 1)] s s' → Inv k s' → Q (VIRT (r <<< PAGE_SHIFT)) s') :
    wp (allocHostSaveArea alloc) Q E s := by
  rw [allocHostSaveArea, wp_bind]
  refine wp_imp (hA.alloc (show AllocArgs 1 1 by decide) hinv) ?_
  rintro r s₁ ⟨hinv₁, hres⟩
  have hle := hres.le
  rw [show (1 : UInt64).toNat = 1 from rfl] at hle
  -- The page does not lie where `VIRT` wraps around to 0.
  have hne : VIRT (r <<< PAGE_SHIFT) ≠ 0 := by
    intro heq
    have h := toNat_VIRT (r <<< PAGE_SHIFT)
    rw [heq, toNat_shiftLeft_PAGE_SHIFT (by omega), UInt64.toNat_zero] at h
    omega
  rw [wp_bind]
  refine wp_when (fun _ => ?_) fun h => absurd hne h
  refine hres.wp_memset hA rfl hinv₁ fun s' hinv' hfill => ?_
  rw [wp_pure]
  exact hQ r s' hfill.evolves hinv'

theorem wp_fatalFailure {α : Type} {msg : String} {Q : α → State → Prop}
    (h : E (.fatalFailure msg)) : wp (fatalFailure msg) Q E s := by
  rw [fatalFailure, wp_stop]
  exact h

theorem wp_enableSvm (cpuid : Cpuid) (hA : AllocContract alloc E priv Inv)
    (hinv : Inv (k + 2) s) (hE : ∀ msg, E (.fatalFailure msg)) (c : CpuinfoX86)
    {Q : UInt64 → State → Prop}
    (hQ : ∀ r s', Evolves priv [(r, 1)] s s' → Inv k s' → Q (r <<< PAGE_SHIFT) s') :
    wp (enableSvm alloc cpuid c) Q E s := by
  rw [enableSvm]
  split_ifs
  · exact wp_fatalFailure (hE _)
  · rw [printf_bind, wp_bind]
    refine wp_allocHostSaveArea hA hinv fun r s' hev hinv' => ?_
    rw [wp_pure, PHYS_VIRT]
    exact hQ r s' hev hinv'

/-- `identify_cpu`, when it may stop for a processor that does not do. -/
theorem wp_identifyCpu (hA : AllocContract alloc E priv Inv) (hinv : Inv (k + 2) s)
    (hE : ∀ msg, E (.fatalFailure msg)) {Q : UInt64 → State → Prop}
    (hQ : ∀ r s', Evolves priv [(r, 1)] s s' → Inv k s' → Q (r <<< PAGE_SHIFT) s') :
    wp (identifyCpu alloc cpuid) Q E s := by
  have henable := fun c => wp_enableSvm cpuid hA hinv hE c hQ
  rw [identifyCpu, earlyIdentifyCpu_eq, pure_bind]
  split_ifs
  · rw [initAmd]
    split_ifs
    · exact wp_fatalFailure (hE _)
    · dsimp only
      rw [wp_bind, __initAmd]
      exact wp_when (fun _ => wp_fatalFailure (hE _)) fun _ => henable _
  · exact wp_fatalFailure (hE _)

end Alloc

/-! ## A sample processor -/

/-- An AMD processor of family 0xf with SVM. -/
def sampleCpuid : Cpuid
  | 0x00000000 => { eax := 1, ebx := 0x68747541, ecx := 0x444D4163, edx := 0x69746E65 }
  | 0x00000001 => { eax := 0x00000f12, ebx := 0, ecx := 0, edx := 0 }
  | 0x80000000 => { eax := 0x80000008, ebx := 0x68747541, ecx := 0, edx := 0 }
  | 0x80000001 => { eax := 0, ebx := 0, ecx := 4, edx := 0 }
  | _ => { eax := 0, ebx := 0, ecx := 0, edx := 0 }

theorem sample_identifyCpu (alloc : UInt64 → UInt64 → M UInt64) :
    identifyCpu alloc sampleCpuid = (do return PHYS (← allocHostSaveArea alloc)) := by
  have hvendor : (identified sampleCpuid).x86Vendor = X86_VENDOR_AMD := by decide
  have hx86 : (identified sampleCpuid).x86 = 0xf := by decide
  rw [identifyCpu, earlyIdentifyCpu_eq, pure_bind, if_pos hvendor, initAmd, if_neg (not_not_intro hx86)]
  rfl

end Tvmm
