import Tvmm.Vm

/-!
# The consistency checks of a VMCB

`vmcb_check_consistency` runs a table of predicates over the VMCB and stops at
the first one that is not zero.  Each predicate is computed here from single
bits of the registers, and `vmcbCheckConsistency_eq_ok_iff` reads the outcome
off the table.

Two kinds of predicates do not compute what their names say.  The 53 bits of CR4
and the 49 bits of EFER are returned as an `int`, which loses the high ones, and
the mask `X86_CR4_PAE` has two bits.
-/

set_option linter.style.nameCheck false

namespace Tvmm

open Exec

/-! ## `vmcb.c` -/

/-- `~ ( ~0UL << n )` -/
def BIT_MASK (n : UInt64) : UInt64 := ~~~(~~~0 <<< n)

def SUB_BIT (x start len : UInt64) : UInt64 := (x >>> start) &&& BIT_MASK len

/-- `vmcb->f & mask`, as a condition. -/
def hasAny (f : VmcbField) (mask vmcb : UInt64) : M Bool := do
  return (← f.load vmcb) &&& mask != 0

/-- `vmcb->cs.attrs.fields.f`, as a condition. -/
def hasCsAttr (f : BitField) (vmcb : UInt64) : M Bool := do
  return f.get (← SegReg.cs.attrs.load vmcb) != 0

/-- The body of the checks of a range of bits: a 64-bit value is returned as an `int`. -/
def checkRange (f : VmcbField) (start len vmcb : UInt64) : M Int32 := do
  return CInt.ofULong (SUB_BIT (← f.load vmcb) start len)

/-- `check_efer_svme` -/
def checkEferSvme (vmcb : UInt64) : M Int32 := do
  return CInt.ofBool (!(← hasAny Vmcb.efer EFER_SVME vmcb))

/-- `check_cr0cd_cr0nw` -/
def checkCr0cdCr0nw (vmcb : UInt64) : M Int32 := do
  let cd ← hasAny Vmcb.cr0 X86_CR0_CD vmcb
  let nw ← hasAny Vmcb.cr0 X86_CR0_NW vmcb
  return CInt.ofBool (!cd && nw)

/-- `check_cr0_32_63` -/
def checkCr0_32_63 : UInt64 → M Int32 := checkRange Vmcb.cr0 32 32

/-- `check_cr4_11_63` -/
def checkCr4_11_63 : UInt64 → M Int32 := checkRange Vmcb.cr4 11 53

/-- `check_dr6_32_63` -/
def checkDr6_32_63 : UInt64 → M Int32 := checkRange Vmcb.dr6 32 32

/-- `check_dr7_32_63` -/
def checkDr7_32_63 : UInt64 → M Int32 := checkRange Vmcb.dr7 32 32

/-- `check_efer_15_63` -/
def checkEfer_15_63 : UInt64 → M Int32 := checkRange Vmcb.efer 15 49

/-- `check_eferlme_cr0pg_cr4pae` -/
def checkEferlmeCr0pgCr4pae (vmcb : UInt64) : M Int32 := do
  let lme ← hasAny Vmcb.efer EFER_LME vmcb
  let pg ← hasAny Vmcb.cr0 X86_CR0_PG vmcb
  let pae ← hasAny Vmcb.cr4 X86_CR4_PAE vmcb
  return CInt.ofBool (lme && pg && !pae)

/-- `check_eferlme_cr0pg_cr0pe` -/
def checkEferlmeCr0pgCr0pe (vmcb : UInt64) : M Int32 := do
  let lme ← hasAny Vmcb.efer EFER_LME vmcb
  let pg ← hasAny Vmcb.cr0 X86_CR0_PG vmcb
  let pe ← hasAny Vmcb.cr0 X86_CR0_PE vmcb
  return CInt.ofBool (lme && pg && !pe)

/-- `check_eferlme_cr0pg_cr4pae_csl_csd` -/
def checkEferlmeCr0pgCr4paeCslCsd (vmcb : UInt64) : M Int32 := do
  let lme ← hasAny Vmcb.efer EFER_LME vmcb
  let pg ← hasAny Vmcb.cr0 X86_CR0_PG vmcb
  let pae ← hasAny Vmcb.cr4 X86_CR4_PAE vmcb
  let l ← hasCsAttr attrsL vmcb
  let db ← hasCsAttr attrsDb vmcb
  return CInt.ofBool (lme && pg && pae && l && db)

/-- `check_vmrun_intercept` -/
def checkVmrunIntercept (vmcb : UInt64) : M Int32 := do
  return CInt.ofBool (!(← hasAny Vmcb.general2Intercepts INTRCPT_VMRUN vmcb))

/-- `check_msr_ioio_intercept_tables`, whose condition is commented out. -/
def checkMsrIoioInterceptTables (_vmcb : UInt64) : M Int32 :=
  return 0

/-- `struct consistencty_check` -/
structure ConsistencyCheck where
  func : UInt64 → M Int32
  errorMsg : String

/-- `tbl` in `vmcb_check_consistency` -/
def consistencyChecks : List ConsistencyCheck := [
  ⟨checkEferSvme, "EFER.SVME is not set.\n"⟩,
  ⟨checkCr0cdCr0nw, "CR0.CD is not set, and CR0.NW is set.\n"⟩,
  ⟨checkCr0_32_63, "CR0[32:63] are not zero.\n"⟩,
  ⟨checkCr4_11_63, "CR4[11:63] are not zero.\n"⟩,
  ⟨checkDr6_32_63, "DR6[32:63] are not zero.\n"⟩,
  ⟨checkDr7_32_63, "DR7[32:63] are not zero.\n"⟩,
  ⟨checkEfer_15_63, "EFER[15:63] are not zero.\n"⟩,
  ⟨checkEferlmeCr0pgCr4pae, "EFER.LME is set, CR0.PG is set, and CR4.PAE is not set.\n"⟩,
  ⟨checkEferlmeCr0pgCr0pe, "EFER.LME is set, CR0.PG is set, and CR4.PE is not set.\n"⟩,
  ⟨checkEferlmeCr0pgCr4paeCslCsd, "EFER.LME, CR0.PG, CR4.PAE, CS.L, and CS.D are set.\n"⟩,
  ⟨checkVmrunIntercept, "The VMRUN intercept bit is clear.\n"⟩,
  ⟨checkMsrIoioInterceptTables, "Wrong The MSR or IOIO intercept tables address.\n"⟩]

/-- The body of the loop in `vmcb_check_consistency`. -/
def runCheck (vmcb : UInt64) (check : ConsistencyCheck) : M Unit := do
  when ((← check.func vmcb) ≠ 0) do
    printf check.errorMsg
    fatalFailure "Consistency check failed.\n"

/-- `vmcb_check_consistency` -/
def vmcbCheckConsistency (vmcb : UInt64) : M Unit :=
  forEach (runCheck vmcb) consistencyChecks

/-! ## Bits of a field -/

namespace VmcbField

/-- Bit `i` of the field in the VMCB in frame `n`. -/
def bit (f : VmcbField) (i n : Nat) (s : State) : Bool := (f.value n s).testBit i

/-- One of the bits `lo` up to `hi - 1` of the field is set. -/
def AnyBit (f : VmcbField) (lo hi n : Nat) (s : State) : Prop :=
  ∃ i < hi, lo ≤ i ∧ f.bit i n s

variable {f : VmcbField} {n : Nat} {s : State}

instance {lo hi : Nat} : Decidable (f.AnyBit lo hi n s) :=
  inferInstanceAs (Decidable (∃ i < hi, lo ≤ i ∧ f.bit i n s = true))

theorem toNat_ofNat_value (hf : f.size ≤ 8) :
    (UInt64.ofNat (f.value n s)).toNat = f.value n s := by
  rw [UInt64.toNat_ofNat', Nat.mod_eq_of_lt]
  calc f.value n s < 256 ^ f.size := ByteMem.readLE_lt _ _ _
    _ ≤ 256 ^ 8 := Nat.pow_le_pow_right (by decide) hf
    _ = 2 ^ 64 := by decide

theorem testBit_ofNat_value (hf : f.size ≤ 8) (i : Nat) :
    (UInt64.ofNat (f.value n s)).toNat.testBit i = f.bit i n s := by
  rw [toNat_ofNat_value hf, bit]

end VmcbField

/-! ## The predicates -/

theorem toNat_BIT_MASK {n : UInt64} (h : n.toNat < 64) :
    (BIT_MASK n).toNat = 2 ^ n.toNat - 1 := by
  have hpow : 2 ^ n.toNat < 2 ^ 64 := Nat.pow_lt_pow_right (by decide) h
  have hpos := Nat.two_pow_pos n.toNat
  have hsplit : (2 ^ 64 - 1) * 2 ^ n.toNat =
      2 ^ 64 * (2 ^ n.toNat - 1) + (2 ^ 64 - 2 ^ n.toNat) := by
    generalize 2 ^ n.toNat = k at *
    omega
  have hshift : (~~~(0 : UInt64) <<< n).toNat = 2 ^ 64 - 2 ^ n.toNat := by
    rw [UInt64.toNat_shiftLeft, Nat.shiftLeft_eq, Nat.mod_eq_of_lt h,
      show (~~~(0 : UInt64)).toNat = 2 ^ 64 - 1 from rfl, hsplit, Nat.mul_add_mod,
      Nat.mod_eq_of_lt (by omega)]
  rw [BIT_MASK, UInt64.toNat_not, hshift, UInt64.size]
  omega

theorem toNat_SUB_BIT {x start len : UInt64} (hstart : start.toNat < 64)
    (hlen : len.toNat < 64) :
    (SUB_BIT x start len).toNat = x.toNat / 2 ^ start.toNat % 2 ^ len.toNat := by
  rw [SUB_BIT, UInt64.toNat_and, UInt64.toNat_shiftRight, Nat.shiftRight_eq_div_pow,
    Nat.mod_eq_of_lt hstart, toNat_BIT_MASK hlen, Nat.and_two_pow_sub_one_eq_mod]

/-- The check `func` of the VMCB in frame `n` is not zero exactly if `P`. -/
def Tests (func : UInt64 → M Int32) (n : Nat) (s : State) (P : Prop) : Prop :=
  ∃ r, func (frameVaddr n) s = .ok (r, s) ∧ (r ≠ 0 ↔ P)

theorem Tests.congr {func : UInt64 → M Int32} {n : Nat} {s : State} {P Q : Prop}
    (h : Tests func n s P) : Tests func n s Q ↔ (P ↔ Q) := by
  obtain ⟨r, hr, hP⟩ := h
  constructor
  · rintro ⟨r', hr', hQ⟩
    rw [hr] at hr'
    cases hr'
    exact hP.symm.trans hQ
  · exact fun hPQ => ⟨r, hr, hP.trans hPQ⟩

section Predicates

variable {f : VmcbField} {n : Nat} {s : State}

theorem hasAny_eq (hn : Addressable n) {m : UInt64} :
    hasAny f m (frameVaddr n) s = .ok (UInt64.ofNat (f.value n s) &&& m != 0, s) := by
  rw [hasAny, bind_of_ok (f.load_of_addressable hn s)]
  rfl

/-- A mask of one bit. -/
theorem hasAny_bit (hn : Addressable n) (hf : f.size ≤ 8) {m : UInt64} {i : Nat}
    (hm : m.toNat = 2 ^ i) :
    hasAny f m (frameVaddr n) s = .ok (f.bit i n s, s) := by
  rw [hasAny_eq hn]
  congr 2
  rw [Bool.eq_iff_iff, bne_iff_ne, BitField.and_bit_ne_zero_iff hm,
    VmcbField.testBit_ofNat_value hf]

/-- The mask of `CR4.PAE` has the bit of `CR4.PGE`, too. -/
theorem hasAny_X86_CR4_PAE (hn : Addressable n) :
    hasAny Vmcb.cr4 X86_CR4_PAE (frameVaddr n) s =
      .ok (Vmcb.cr4.bit 5 n s || Vmcb.cr4.bit 7 n s, s) := by
  rw [hasAny_eq hn]
  congr 2
  have hmask : ∀ i, X86_CR4_PAE.toNat.testBit i = true ↔ i = 5 ∨ i = 7 := by
    intro i
    rw [show X86_CR4_PAE.toNat = 2 ^ 5 ||| 2 ^ 7 from rfl, Nat.testBit_or,
      Nat.testBit_two_pow, Nat.testBit_two_pow, Bool.or_eq_true, decide_eq_true_eq,
      decide_eq_true_eq, eq_comm, eq_comm (a := 7)]
  have hcr4 := VmcbField.testBit_ofNat_value (f := Vmcb.cr4) (n := n) (s := s) (by decide)
  rw [Bool.eq_iff_iff, bne_iff_ne, BitField.and_ne_zero_iff, Bool.or_eq_true]
  simp only [hcr4]
  constructor
  · rintro ⟨i, hi, hbit⟩
    obtain rfl | rfl := (hmask i).mp hbit
    · exact Or.inl hi
    · exact Or.inr hi
  · rintro (h | h)
    · exact ⟨5, h, (hmask 5).mpr (Or.inl rfl)⟩
    · exact ⟨7, h, (hmask 7).mpr (Or.inr rfl)⟩

theorem hasCsAttr_bit (hn : Addressable n) {i : Nat} :
    hasCsAttr { lo := i, width := 1 } (frameVaddr n) s =
      .ok (SegReg.cs.attrs.bit i n s, s) := by
  rw [hasCsAttr, bind_of_ok (SegReg.cs.attrs.load_of_addressable hn s)]
  show Except.ok (_, s) = _
  have hattrs := VmcbField.testBit_ofNat_value (f := SegReg.cs.attrs) (n := n) (s := s)
    (by decide)
  congr 2
  rw [Bool.eq_iff_iff, bne_iff_ne, BitField.get_ne_zero_iff]
  simp only [hattrs]
  constructor
  · rintro ⟨j, hlt, hle, hj⟩
    rwa [show i = j by omega]
  · exact fun h => ⟨i, Nat.lt_succ_self i, Nat.le_refl i, h⟩

/-- Of a wider range the check sees the low 32 bits. -/
theorem checkRange_tests (hn : Addressable n) (hf : f.size ≤ 8) {start len : UInt64}
    (hstart : start.toNat < 64) (hle : 32 ≤ len.toNat) (hlen : len.toNat < 64) :
    Tests (checkRange f start len) n s (f.AnyBit start.toNat (start.toNat + 32) n s) := by
  refine ⟨_, by rw [checkRange, bind_of_ok (f.load_of_addressable hn s)]; rfl, ?_⟩
  have hget := BitField.get_ne_zero_iff (f := { lo := start.toNat, width := 32 })
    (w := UInt64.ofNat (f.value n s))
  rw [Ne, ← UInt64.toNat_inj, BitField.toNat_get, VmcbField.toNat_ofNat_value hf] at hget
  rw [CInt.ofULong_ne_zero_iff, toNat_SUB_BIT hstart hlen, VmcbField.toNat_ofNat_value hf,
    Nat.mod_mod_of_dvd _ (Nat.pow_dvd_pow 2 hle)]
  exact hget

theorem Tests.ofBool {func : UInt64 → M Int32} {b : Bool}
    (h : func (frameVaddr n) s = .ok (CInt.ofBool b, s)) : Tests func n s (b = true) :=
  ⟨_, h, CInt.ofBool_ne_zero_iff⟩

theorem checkEferSvme_tests (hn : Addressable n) :
    Tests checkEferSvme n s ((!Vmcb.efer.bit 12 n s) = true) := by
  refine .ofBool ?_
  rw [checkEferSvme, bind_of_ok (hasAny_bit (i := 12) hn (by decide) (by decide))]
  rfl

theorem checkCr0cdCr0nw_tests (hn : Addressable n) :
    Tests checkCr0cdCr0nw n s ((!Vmcb.cr0.bit 30 n s && Vmcb.cr0.bit 29 n s) = true) := by
  refine .ofBool ?_
  rw [checkCr0cdCr0nw, bind_of_ok (hasAny_bit (i := 30) hn (by decide) (by decide)),
    bind_of_ok (hasAny_bit (i := 29) hn (by decide) (by decide))]
  rfl

theorem checkCr0_32_63_tests (hn : Addressable n) :
    Tests checkCr0_32_63 n s (Vmcb.cr0.AnyBit 32 64 n s) :=
  checkRange_tests hn (by decide) (by decide) (by decide) (by decide)

theorem checkCr4_11_63_tests (hn : Addressable n) :
    Tests checkCr4_11_63 n s (Vmcb.cr4.AnyBit 11 43 n s) :=
  checkRange_tests hn (by decide) (by decide) (by decide) (by decide)

theorem checkDr6_32_63_tests (hn : Addressable n) :
    Tests checkDr6_32_63 n s (Vmcb.dr6.AnyBit 32 64 n s) :=
  checkRange_tests hn (by decide) (by decide) (by decide) (by decide)

theorem checkDr7_32_63_tests (hn : Addressable n) :
    Tests checkDr7_32_63 n s (Vmcb.dr7.AnyBit 32 64 n s) :=
  checkRange_tests hn (by decide) (by decide) (by decide) (by decide)

theorem checkEfer_15_63_tests (hn : Addressable n) :
    Tests checkEfer_15_63 n s (Vmcb.efer.AnyBit 15 47 n s) :=
  checkRange_tests hn (by decide) (by decide) (by decide) (by decide)

/-- What the checks of the mode read of `EFER.LME` and `CR0.PG`. -/
theorem hasAny_lme_pg (hn : Addressable n) :
    hasAny Vmcb.efer EFER_LME (frameVaddr n) s = .ok (Vmcb.efer.bit 8 n s, s) ∧
    hasAny Vmcb.cr0 X86_CR0_PG (frameVaddr n) s = .ok (Vmcb.cr0.bit 31 n s, s) :=
  ⟨hasAny_bit hn (by decide) (by decide), hasAny_bit hn (by decide) (by decide)⟩

theorem checkEferlmeCr0pgCr4pae_tests (hn : Addressable n) :
    Tests checkEferlmeCr0pgCr4pae n s ((Vmcb.efer.bit 8 n s && Vmcb.cr0.bit 31 n s &&
      !(Vmcb.cr4.bit 5 n s || Vmcb.cr4.bit 7 n s)) = true) := by
  refine .ofBool ?_
  obtain ⟨hlme, hpg⟩ := hasAny_lme_pg (s := s) hn
  rw [checkEferlmeCr0pgCr4pae, bind_of_ok hlme, bind_of_ok hpg,
    bind_of_ok (hasAny_X86_CR4_PAE hn)]
  rfl

theorem checkEferlmeCr0pgCr0pe_tests (hn : Addressable n) :
    Tests checkEferlmeCr0pgCr0pe n s ((Vmcb.efer.bit 8 n s && Vmcb.cr0.bit 31 n s &&
      !Vmcb.cr0.bit 0 n s) = true) := by
  refine .ofBool ?_
  obtain ⟨hlme, hpg⟩ := hasAny_lme_pg (s := s) hn
  rw [checkEferlmeCr0pgCr0pe, bind_of_ok hlme, bind_of_ok hpg,
    bind_of_ok (hasAny_bit (i := 0) hn (by decide) (by decide))]
  rfl

theorem checkEferlmeCr0pgCr4paeCslCsd_tests (hn : Addressable n) :
    Tests checkEferlmeCr0pgCr4paeCslCsd n s ((Vmcb.efer.bit 8 n s && Vmcb.cr0.bit 31 n s &&
      (Vmcb.cr4.bit 5 n s || Vmcb.cr4.bit 7 n s) &&
      SegReg.cs.attrs.bit 9 n s && SegReg.cs.attrs.bit 10 n s) = true) := by
  refine .ofBool ?_
  obtain ⟨hlme, hpg⟩ := hasAny_lme_pg (s := s) hn
  rw [checkEferlmeCr0pgCr4paeCslCsd, bind_of_ok hlme, bind_of_ok hpg,
    bind_of_ok (hasAny_X86_CR4_PAE hn), attrsL, bind_of_ok (hasCsAttr_bit hn), attrsDb,
    bind_of_ok (hasCsAttr_bit hn)]
  rfl

theorem checkVmrunIntercept_tests (hn : Addressable n) :
    Tests checkVmrunIntercept n s ((!Vmcb.general2Intercepts.bit 0 n s) = true) := by
  refine .ofBool ?_
  rw [checkVmrunIntercept, bind_of_ok (hasAny_bit (i := 0) hn (by decide) (by decide))]
  rfl

end Predicates

/-! ## The table -/

section Table

variable {n : Nat} {s : State}

/-- What the entries of the table test, in its order. -/
def tested (n : Nat) (s : State) : List Prop := [
  (!Vmcb.efer.bit 12 n s) = true,
  (!Vmcb.cr0.bit 30 n s && Vmcb.cr0.bit 29 n s) = true,
  Vmcb.cr0.AnyBit 32 64 n s,
  Vmcb.cr4.AnyBit 11 43 n s,
  Vmcb.dr6.AnyBit 32 64 n s,
  Vmcb.dr7.AnyBit 32 64 n s,
  Vmcb.efer.AnyBit 15 47 n s,
  (Vmcb.efer.bit 8 n s && Vmcb.cr0.bit 31 n s &&
    !(Vmcb.cr4.bit 5 n s || Vmcb.cr4.bit 7 n s)) = true,
  (Vmcb.efer.bit 8 n s && Vmcb.cr0.bit 31 n s && !Vmcb.cr0.bit 0 n s) = true,
  (Vmcb.efer.bit 8 n s && Vmcb.cr0.bit 31 n s &&
    (Vmcb.cr4.bit 5 n s || Vmcb.cr4.bit 7 n s) &&
    SegReg.cs.attrs.bit 9 n s && SegReg.cs.attrs.bit 10 n s) = true,
  (!Vmcb.general2Intercepts.bit 0 n s) = true,
  False]

theorem consistencyChecks_test (hn : Addressable n) :
    List.Forall₂ (fun c P => Tests c.func n s P) consistencyChecks (tested n s) :=
  .cons (checkEferSvme_tests hn) <|
  .cons (checkCr0cdCr0nw_tests hn) <|
  .cons (checkCr0_32_63_tests hn) <|
  .cons (checkCr4_11_63_tests hn) <|
  .cons (checkDr6_32_63_tests hn) <|
  .cons (checkDr7_32_63_tests hn) <|
  .cons (checkEfer_15_63_tests hn) <|
  .cons (checkEferlmeCr0pgCr4pae_tests hn) <|
  .cons (checkEferlmeCr0pgCr0pe_tests hn) <|
  .cons (checkEferlmeCr0pgCr4paeCslCsd_tests hn) <|
  .cons (checkVmrunIntercept_tests hn) <|
  .cons ⟨0, rfl, by decide⟩ .nil

/-- The outcome of running a table of checks that test `ps`. -/
theorem forEach_runCheck {cs : List ConsistencyCheck} {ps : List Prop}
    (h : List.Forall₂ (fun c P => Tests c.func n s P) cs ps) :
    wp (forEach (runCheck (frameVaddr n)) cs) (fun _ s' => s' = s ∧ ∀ P ∈ ps, ¬P)
      (fun e => e = .fatalFailure "Consistency check failed.\n" ∧ ∃ P ∈ ps, P) s := by
  induction h with
  | nil =>
    rw [forEach, wp_pure]
    exact ⟨rfl, fun _ hP => absurd hP List.not_mem_nil⟩
  | @cons c P cs ps hc _ ih =>
    obtain ⟨r, hr, hP⟩ := hc
    rw [forEach, wp_bind, runCheck, wp_bind]
    refine wp_of_ok hr ?_
    refine wp_when (fun hne => ?_) fun heq => ?_
    · rw [wp_bind, printf, wp_pure, fatalFailure, wp_stop]
      exact ⟨rfl, P, List.mem_cons_self, hP.mp hne⟩
    · refine wp_mono ih ?_ ?_
      · rintro _ s' ⟨rfl, hall⟩
        exact ⟨rfl, List.forall_mem_cons.mpr ⟨fun h => heq (hP.mpr h), hall⟩⟩
      · rintro e ⟨rfl, P', hmem, hP'⟩
        exact ⟨rfl, P', List.mem_cons_of_mem P hmem, hP'⟩

/-- No entry of the table applies. -/
structure Passes (n : Nat) (s : State) : Prop where
  svme : Vmcb.efer.bit 12 n s
  cdnw : Vmcb.cr0.bit 29 n s → Vmcb.cr0.bit 30 n s
  cr0 : ¬Vmcb.cr0.AnyBit 32 64 n s
  cr4 : ¬Vmcb.cr4.AnyBit 11 43 n s
  dr6 : ¬Vmcb.dr6.AnyBit 32 64 n s
  dr7 : ¬Vmcb.dr7.AnyBit 32 64 n s
  efer : ¬Vmcb.efer.AnyBit 15 47 n s
  pae : Vmcb.efer.bit 8 n s → Vmcb.cr0.bit 31 n s →
    Vmcb.cr4.bit 5 n s ∨ Vmcb.cr4.bit 7 n s
  pe : Vmcb.efer.bit 8 n s → Vmcb.cr0.bit 31 n s → Vmcb.cr0.bit 0 n s
  csld : Vmcb.efer.bit 8 n s → Vmcb.cr0.bit 31 n s →
    Vmcb.cr4.bit 5 n s ∨ Vmcb.cr4.bit 7 n s →
    SegReg.cs.attrs.bit 9 n s → ¬SegReg.cs.attrs.bit 10 n s
  vmrun : Vmcb.general2Intercepts.bit 0 n s

theorem passes_iff : (∀ P ∈ tested n s, ¬P) ↔ Passes n s := by
  simp only [tested, List.forall_mem_cons, List.not_mem_nil, Bool.not_eq_true',
    Bool.and_eq_true, Bool.or_eq_false_iff, Bool.not_eq_false]
  constructor
  · rintro ⟨hsvme, hcdnw, hcr0, hcr4, hdr6, hdr7, hefer, hpae, hpe, hcsld, hvmrun, -⟩
    exact ⟨hsvme, by grind, hcr0, hcr4, hdr6, hdr7, hefer, by grind, by grind, by grind,
      hvmrun⟩
  · rintro ⟨hsvme, hcdnw, hcr0, hcr4, hdr6, hdr7, hefer, hpae, hpe, hcsld, hvmrun⟩
    exact ⟨hsvme, by grind, hcr0, hcr4, hdr6, hdr7, hefer, by grind, by grind, by grind,
      hvmrun, by simp⟩

/-- `vmcb_check_consistency` returns, without a trace in the state, when no entry
of the table applies. -/
theorem vmcbCheckConsistency_eq_ok_iff (hn : Addressable n) :
    vmcbCheckConsistency (frameVaddr n) s = .ok ((), s) ↔ Passes n s := by
  have hwp := forEach_runCheck (consistencyChecks_test (s := s) hn)
  rw [← passes_iff]
  constructor
  · exact fun h => (wp_ok hwp h).2
  · intro hall
    cases hrun : vmcbCheckConsistency (frameVaddr n) s with
    | ok p =>
      obtain ⟨_, s'⟩ := p
      rw [(wp_ok hwp hrun).1]
    | error e =>
      obtain ⟨-, P, hmem, hP⟩ := wp_error hwp hrun
      exact absurd hP (hall P hmem)

/-- When an entry applies, it stops. -/
theorem vmcbCheckConsistency_eq_error (hn : Addressable n) (h : ¬Passes n s) :
    vmcbCheckConsistency (frameVaddr n) s =
      .error (.fatalFailure "Consistency check failed.\n") := by
  have hwp := forEach_runCheck (consistencyChecks_test (s := s) hn)
  rw [← passes_iff] at h
  cases hrun : vmcbCheckConsistency (frameVaddr n) s with
  | ok p => exact absurd (wp_ok hwp hrun).2 h
  | error e => rw [(wp_error hwp hrun).1]

end Table

/-! ## The reserved bits -/

/-- A register whose bits from `lo` on must be zero, and the check of that. -/
structure ReservedRange where
  field : VmcbField
  lo : Nat
  check : UInt64 → M Int32

def reservedRanges : List ReservedRange := [
  ⟨Vmcb.cr0, 32, checkCr0_32_63⟩,
  ⟨Vmcb.cr4, 11, checkCr4_11_63⟩,
  ⟨Vmcb.dr6, 32, checkDr6_32_63⟩,
  ⟨Vmcb.dr7, 32, checkDr7_32_63⟩,
  ⟨Vmcb.efer, 15, checkEfer_15_63⟩]

/-- No reserved bit is missed: the check of each range is exact, and any bit in
one of them stops `vmcb_check_consistency`. -/
structure ChecksReserved (n : Nat) (s : State) : Prop where
  exact : ∀ r ∈ reservedRanges, Tests r.check n s (r.field.AnyBit r.lo 64 n s)
  stops : (∃ r ∈ reservedRanges, r.field.AnyBit r.lo 64 n s) →
    vmcbCheckConsistency (frameVaddr n) s =
      .error (.fatalFailure "Consistency check failed.\n")

section Reserved

variable {n : Nat} {s : State}

theorem VmcbField.AnyBit.mono {f : VmcbField} {lo hi hi' : Nat} (h : f.AnyBit lo hi n s)
    (hle : hi ≤ hi') : f.AnyBit lo hi' n s := by
  obtain ⟨i, hlt, hlo, hbit⟩ := h
  exact ⟨i, Nat.lt_of_lt_of_le hlt hle, hlo, hbit⟩

/-- Where the ranges that are looked at do for the whole ones, a reserved bit is found. -/
theorem not_passes_of_reserved
    (hcr4 : Vmcb.cr4.AnyBit 11 64 n s → Vmcb.cr4.AnyBit 11 43 n s)
    (hefer : Vmcb.efer.AnyBit 15 64 n s → Vmcb.efer.AnyBit 15 47 n s)
    (h : ∃ r ∈ reservedRanges, r.field.AnyBit r.lo 64 n s) : ¬Passes n s := by
  intro hpass
  simp only [reservedRanges, List.mem_cons, List.not_mem_nil, or_false] at h
  obtain ⟨r, rfl | rfl | rfl | rfl | rfl, hr⟩ := h
  · exact hpass.cr0 hr
  · exact hpass.cr4 (hcr4 hr)
  · exact hpass.dr6 hr
  · exact hpass.dr7 hr
  · exact hpass.efer (hefer hr)

/-- The reserved bits are checked as the messages say, except when the only ones
that are set in CR4 are bits 43 and up, or in EFER bits 47 and up. -/
theorem vmcbCheckConsistency_checksReserved (hn : Addressable n) :
    ChecksReserved n s ↔
      (Vmcb.cr4.AnyBit 11 64 n s → Vmcb.cr4.AnyBit 11 43 n s) ∧
      (Vmcb.efer.AnyBit 15 64 n s → Vmcb.efer.AnyBit 15 47 n s) := by
  constructor
  · rintro ⟨hexact, -⟩
    have hcr4 := (checkCr4_11_63_tests hn).congr.mp
      (hexact ⟨Vmcb.cr4, 11, checkCr4_11_63⟩ (by simp [reservedRanges]))
    have hefer := (checkEfer_15_63_tests hn).congr.mp
      (hexact ⟨Vmcb.efer, 15, checkEfer_15_63⟩ (by simp [reservedRanges]))
    exact ⟨hcr4.mpr, hefer.mpr⟩
  · rintro ⟨hcr4, hefer⟩
    refine ⟨?_, fun h =>
      vmcbCheckConsistency_eq_error hn (not_passes_of_reserved hcr4 hefer h)⟩
    refine List.forall_mem_cons.mpr ⟨checkCr0_32_63_tests hn, ?_⟩
    refine List.forall_mem_cons.mpr ⟨?_, ?_⟩
    · exact (checkCr4_11_63_tests hn).congr.mpr ⟨fun h => h.mono (by decide), hcr4⟩
    refine List.forall_mem_cons.mpr ⟨checkDr6_32_63_tests hn, ?_⟩
    refine List.forall_mem_cons.mpr ⟨checkDr7_32_63_tests hn, ?_⟩
    refine List.forall_mem_singleton.mpr ?_
    exact (checkEfer_15_63_tests hn).congr.mpr ⟨fun h => h.mono (by decide), hefer⟩

end Reserved

/-- A machine whose VMCB in frame 2 has these values, and zero elsewhere. -/
def vmcbState (general2Intercepts efer cr4 cr0 : Nat) : State where
  mem :=
    let m := ByteMem.writeLE (fun _ => 0) (0x2000 + Vmcb.general2Intercepts.offset) 4
      general2Intercepts
    let m := m.writeLE (0x2000 + Vmcb.efer.offset) 8 efer
    let m := m.writeLE (0x2000 + Vmcb.cr4.offset) 8 cr4
    m.writeLE (0x2000 + Vmcb.cr0.offset) 8 cr0
  nalloc := { allocBitmap := 0, maxPage := 0 }
  handedOut := []

theorem addressable_two : Addressable 2 := by
  unfold Addressable
  omega

theorem sample_vmcbCheckConsistency_checksReserved :
    ChecksReserved 2 (vmcbState 1 (EFER_SVME.toNat + 2 ^ 46) (2 ^ 42) 0) :=
  (vmcbCheckConsistency_checksReserved addressable_two).mpr (by decide)

/-- With bit 43 of CR4 as the only reserved bit, the check returns. -/
theorem vmcbCheckConsistency_not_checksReserved :
    ¬∀ (n : Nat) (s : State), Addressable n → ChecksReserved n s := by
  intro h
  have hstops := (h 2 (vmcbState 1 EFER_SVME.toNat (2 ^ 43) 0) addressable_two).stops
    ⟨⟨Vmcb.cr4, 11, checkCr4_11_63⟩, by simp [reservedRanges], by decide⟩
  have hok := (vmcbCheckConsistency_eq_ok_iff (s := vmcbState 1 EFER_SVME.toNat (2 ^ 43) 0)
    addressable_two).mpr ⟨by decide, by decide, by decide, by decide, by decide, by decide,
      by decide, by decide, by decide, by decide, by decide⟩
  rw [hok] at hstops
  cases hstops

/-! ## The mode -/

section Mode

variable {n : Nat} {s : State}

/-- The illegal states that `vmcb_check_consistency` lists, with the bits of the
architecture. -/
inductive IllegalMode (n : Nat) (s : State) : Prop where
  | eferSvme (svme : ¬Vmcb.efer.bit 12 n s)
  | cr0cdCr0nw (cd : ¬Vmcb.cr0.bit 30 n s) (nw : Vmcb.cr0.bit 29 n s)
  | eferlmeCr0pgCr4pae (lme : Vmcb.efer.bit 8 n s) (pg : Vmcb.cr0.bit 31 n s)
      (pae : ¬Vmcb.cr4.bit 5 n s)
  | eferlmeCr0pgCr0pe (lme : Vmcb.efer.bit 8 n s) (pg : Vmcb.cr0.bit 31 n s)
      (pe : ¬Vmcb.cr0.bit 0 n s)
  | eferlmeCr0pgCr4paeCslCsd (lme : Vmcb.efer.bit 8 n s) (pg : Vmcb.cr0.bit 31 n s)
      (pae : Vmcb.cr4.bit 5 n s) (l : SegReg.cs.attrs.bit 9 n s)
      (d : SegReg.cs.attrs.bit 10 n s)
  | vmrunIntercept (vmrun : ¬Vmcb.general2Intercepts.bit 0 n s)

/-- The reserved ranges are zero. -/
def ReservedZero (n : Nat) (s : State) : Prop :=
  ∀ r ∈ reservedRanges, ¬r.field.AnyBit r.lo 64 n s

theorem ReservedZero.ranges (h : ReservedZero n s) :
    ¬Vmcb.cr0.AnyBit 32 64 n s ∧ ¬Vmcb.cr4.AnyBit 11 43 n s ∧ ¬Vmcb.dr6.AnyBit 32 64 n s ∧
      ¬Vmcb.dr7.AnyBit 32 64 n s ∧ ¬Vmcb.efer.AnyBit 15 47 n s := by
  simp only [ReservedZero, reservedRanges, List.forall_mem_cons] at h
  obtain ⟨hcr0, hcr4, hdr6, hdr7, hefer, -⟩ := h
  exact ⟨hcr0, fun h => hcr4 (h.mono (by decide)), hdr6, hdr7,
    fun h => hefer (h.mono (by decide))⟩

/-- Long mode with paging and without PAE, in a state that is legal but for that,
passes for one with PAE when `CR4.PGE` is set. -/
structure PgeTakenForPae (n : Nat) (s : State) : Prop where
  lme : Vmcb.efer.bit 8 n s
  pg : Vmcb.cr0.bit 31 n s
  pae : ¬Vmcb.cr4.bit 5 n s
  pge : Vmcb.cr4.bit 7 n s
  svme : Vmcb.efer.bit 12 n s
  cdnw : Vmcb.cr0.bit 29 n s → Vmcb.cr0.bit 30 n s
  pe : Vmcb.cr0.bit 0 n s
  csld : SegReg.cs.attrs.bit 9 n s → ¬SegReg.cs.attrs.bit 10 n s
  vmrun : Vmcb.general2Intercepts.bit 0 n s

/-- Whatever stops the checks is illegal. -/
theorem passes_of_not_illegalMode (hzero : ReservedZero n s) (h : ¬IllegalMode n s) :
    Passes n s where
  svme := by_contra fun hsvme => h (.eferSvme hsvme)
  cdnw hnw := by_contra fun hcd => h (.cr0cdCr0nw hcd hnw)
  cr0 := hzero.ranges.1
  cr4 := hzero.ranges.2.1
  dr6 := hzero.ranges.2.2.1
  dr7 := hzero.ranges.2.2.2.1
  efer := hzero.ranges.2.2.2.2
  pae hlme hpg := Or.inl (by_contra fun hpae => h (.eferlmeCr0pgCr4pae hlme hpg hpae))
  pe hlme hpg := by_contra fun hpe => h (.eferlmeCr0pgCr0pe hlme hpg hpe)
  csld hlme hpg _ hl hd := by
    by_cases hpae : Vmcb.cr4.bit 5 n s
    · exact h (.eferlmeCr0pgCr4paeCslCsd hlme hpg hpae hl hd)
    · exact h (.eferlmeCr0pgCr4pae hlme hpg hpae)
  vmrun := by_contra fun hvmrun => h (.vmrunIntercept hvmrun)

/-- An illegal state passes in one way only. -/
theorem Passes.pgeTakenForPae (hpass : Passes n s) (h : IllegalMode n s) :
    PgeTakenForPae n s := by
  cases h with
  | eferSvme hsvme => exact absurd hpass.svme hsvme
  | cr0cdCr0nw hcd hnw => exact absurd (hpass.cdnw hnw) hcd
  | eferlmeCr0pgCr4pae hlme hpg hpae =>
    have hpge := (hpass.pae hlme hpg).resolve_left hpae
    exact ⟨hlme, hpg, hpae, hpge, hpass.svme, hpass.cdnw, hpass.pe hlme hpg,
      hpass.csld hlme hpg (Or.inr hpge), hpass.vmrun⟩
  | eferlmeCr0pgCr0pe hlme hpg hpe => exact absurd (hpass.pe hlme hpg) hpe
  | eferlmeCr0pgCr4paeCslCsd hlme hpg hpae hl hd =>
    exact absurd hd (hpass.csld hlme hpg (Or.inl hpae) hl)
  | vmrunIntercept hvmrun => exact absurd hpass.vmrun hvmrun

theorem PgeTakenForPae.illegalMode (h : PgeTakenForPae n s) : IllegalMode n s :=
  .eferlmeCr0pgCr4pae h.lme h.pg h.pae

theorem PgeTakenForPae.passes (h : PgeTakenForPae n s) (hzero : ReservedZero n s) :
    Passes n s where
  svme := h.svme
  cdnw := h.cdnw
  cr0 := hzero.ranges.1
  cr4 := hzero.ranges.2.1
  dr6 := hzero.ranges.2.2.1
  dr7 := hzero.ranges.2.2.2.1
  efer := hzero.ranges.2.2.2.2
  pae _ _ := Or.inr h.pge
  pe _ _ := h.pe
  csld _ _ _ := h.csld
  vmrun := h.vmrun

/-- Apart from the reserved bits the checks decide whether the mode is legal,
except when `CR4.PGE` is taken for `CR4.PAE`. -/
theorem vmcbCheckConsistency_decidesMode (hn : Addressable n) (hzero : ReservedZero n s) :
    (vmcbCheckConsistency (frameVaddr n) s = .ok ((), s) ↔ ¬IllegalMode n s) ↔
      ¬PgeTakenForPae n s := by
  rw [vmcbCheckConsistency_eq_ok_iff hn]
  constructor
  · exact fun h hpge => h.mp (hpge.passes hzero) hpge.illegalMode
  · intro hpge
    exact ⟨fun hpass hill => hpge (hpass.pgeTakenForPae hill),
      passes_of_not_illegalMode hzero⟩

end Mode

/-- Long mode with paging, `CR0.PE`, SVME and the VMRUN intercept. -/
def longModeState (cr4 : Nat) : State :=
  vmcbState 1 (EFER_SVME ||| EFER_LME).toNat cr4 (X86_CR0_PG ||| X86_CR0_PE).toNat

theorem longModeState_reservedZero {cr4 : Nat} (h : cr4 = 2 ^ 5 ∨ cr4 = 2 ^ 7) :
    ReservedZero 2 (longModeState cr4) := by
  simp only [ReservedZero, reservedRanges, List.forall_mem_cons]
  obtain rfl | rfl := h
  · exact ⟨by decide, by decide, by decide, by decide, by decide, by simp⟩
  · exact ⟨by decide, by decide, by decide, by decide, by decide, by simp⟩

theorem sample_vmcbCheckConsistency_decidesMode :
    vmcbCheckConsistency (frameVaddr 2) (longModeState (2 ^ 5)) =
        .ok ((), longModeState (2 ^ 5)) ↔
      ¬IllegalMode 2 (longModeState (2 ^ 5)) :=
  (vmcbCheckConsistency_decidesMode addressable_two (longModeState_reservedZero (Or.inl rfl))).mpr
    fun h => absurd h.pge (by decide)

/-- With `CR4.PGE` in the place of `CR4.PAE` the check returns. -/
theorem vmcbCheckConsistency_not_decidesMode :
    ¬∀ (n : Nat) (s : State), Addressable n → ReservedZero n s →
      (vmcbCheckConsistency (frameVaddr n) s = .ok ((), s) ↔ ¬IllegalMode n s) := by
  intro h
  have hzero := longModeState_reservedZero (Or.inr rfl)
  have hpge : PgeTakenForPae 2 (longModeState (2 ^ 7)) :=
    ⟨by decide, by decide, by decide, by decide, by decide, by decide, by decide, by decide,
      by decide⟩
  have hok := (vmcbCheckConsistency_eq_ok_iff addressable_two).mpr (hpge.passes hzero)
  exact (h 2 _ addressable_two hzero).mp hok hpge.illegalMode

end Tvmm
