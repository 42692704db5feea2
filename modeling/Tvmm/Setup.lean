import Tvmm.Cpu
import Tvmm.MemoryMap
import Tvmm.VmImage

/-!
# `setup.c`: the start of the VMM

`start_vmm` reads the memory map, saves the guest image, starts the allocator and
creates the VM.  The local variables of C are values here; the stack lies in the
image of the VMM, below `_end`.

The page allocator may destroy a guest image that stays where the boot loader put
it.  `startVmm_image_survives`: the saved copy is there when it is loaded.
-/

set_option linter.style.nameCheck false

namespace Tvmm

open Exec

def DEFAULT_VMM_HEAP_SIZE : UInt64 := (1 : UInt64) <<< 22
def DEFAULT_VM_PMEM_SIZE : UInt64 := (1 : UInt64) <<< 22

/-- `struct cmdline_option` -/
structure CmdlineOption where
  vmmHeapSize : UInt64
  vmPmemSize : UInt64

def mbiCmdline (mbi : UInt64) : M UInt32 := load32 (mbi + 16)

/-- `parse_cmdline` -/
def parseCmdline (mbi : UInt64) : M CmdlineOption := do
  let opt : CmdlineOption :=
    { vmmHeapSize := DEFAULT_VMM_HEAP_SIZE
      vmPmemSize := DEFAULT_VM_PMEM_SIZE }
  let flags ← mbiFlags mbi
  when (flags &&& MBI_CMDLINE ≠ 0) do
    let cmdline ← mbiCmdline mbi
    when (cmdline ≠ 0) (printf "Command line: %s\n")
  return opt

/-- `has_guest_image` -/
def hasGuestImage (mbi : UInt64) : M Bool := do
  let flags ← mbiFlags mbi
  if flags &&& MBI_MODULES = 0 then
    return false
  else
    return (← mbiModsCount mbi) > 0

/-- The loop of `find_memory_region_for_saving_guest_image`. -/
def findMemoryRegionIn (pml : PmemLayout) (len : UInt64) : List E820Entry → M Int32
  | [] => fatalFailure "Not enough memory to stash the guest kernel image.\n"
  | p :: rest =>
    if p.type ≠ E820_RAM ∨ p.size < len then
      findMemoryRegionIn pml len rest
    else if p.addr < pml.vmmHeapEnd ∧ pml.vmmHeapEnd + len < p.addr + p.size then
      return CInt.ofULong pml.vmmHeapEnd
    else if p.addr ≥ pml.vmmHeapEnd then
      return CInt.ofULong p.addr
    else
      findMemoryRegionIn pml len rest

/-- `find_memory_region_for_saving_guest_image`, which returns an `int`. -/
def findMemoryRegionForSavingGuestImage (e820 : E820Map) (pml : PmemLayout) (len : UInt64) :
    M Int32 :=
  findMemoryRegionIn pml len e820.map

/-! `struct module` -/

def modStart (mod : UInt64) : M UInt32 := load32 mod
def modEnd (mod : UInt64) : M UInt32 := load32 (mod + 4)

/-- `copy_guest_image`.  The result is the updated `*pml`. -/
def copyGuestImage (mbi : UInt64) (e820 : E820Map) (pml : PmemLayout) : M PmemLayout := do
  if !(← hasGuestImage mbi) then
    fatalFailure
      "No guest operating system is specified. Check bootloader configuration.\n"
  else
    let mod := VIRT (← mbiModsAddr mbi).toUInt64
    let pml := { pml with guestImageSize := ((← modEnd mod) - (← modStart mod)).toUInt64 }
    let start ← findMemoryRegionForSavingGuestImage e820 pml pml.guestImageSize
    let pml := { pml with guestImageStart := CInt.toULong start }
    memmove (VIRT pml.guestImageStart) (VIRT (← modStart mod).toUInt64) pml.guestImageSize
    return pml

/-- `setup_arch`.  `endSym` is the address of `_end`, and the result is the value that
`enable_svm` stores in `MSR_K8_VM_HSAVE_PA`, with what is in `*pml` in the end. -/
def setupArch (endSym : UInt64) (cpuid : Cpuid) (mbi : UInt64) (opt : CmdlineOption)
    (pml : PmemLayout) : M (UInt64 × PmemLayout) := do
  let e820 ← setupMemoryRegion mbi
  let pml := { pml with
    totalPages := getNrPages e820
    maxPage := getMaxPfn e820
    vmmHeapEnd := opt.vmmHeapSize }
  let pml ← copyGuestImage mbi e820 pml
  let pml ← naiveAllocatorInit endSym e820 pml
  let hsa ← identifyCpu allocPages cpuid
  return (hsa, pml)

/-- `start_vmm` up to the call of `vm_boot`, with the value in `MSR_K8_VM_HSAVE_PA`.
`pml` is what its variable holds before the first assignment. -/
def startVmmMsr (endSym : UInt64) (cpuid : Cpuid) (mbi : UInt64) (pml : PmemLayout) :
    M (UInt64 × Vm) := do
  printf "\n\n\n\n\n\n\n\n"
  let opt ← parseCmdline mbi
  let (hsa, pml) ← setupArch endSym cpuid mbi opt pml
  let vm ← vmCreate allocPages (VIRT pml.guestImageStart) pml.guestImageSize opt.vmPmemSize
  return (hsa, vm)

/-- `start_vmm` up to the call of `vm_boot` -/
def startVmm (endSym : UInt64) (cpuid : Cpuid) (mbi : UInt64) (pml : PmemLayout) : M Vm := do
  let (_, vm) ← startVmmMsr endSym cpuid mbi pml
  return vm

/-- `start_vmm` up to the call of `load_elf_image` in `vm_create`. -/
def startVmmMemory (endSym : UInt64) (cpuid : Cpuid) (mbi : UInt64) (pml : PmemLayout) :
    M (PmemLayout × VmVars) := do
  printf "\n\n\n\n\n\n\n\n"
  let opt ← parseCmdline mbi
  let (_, pml) ← setupArch endSym cpuid mbi opt pml
  let v ← vmCreateMemory allocPages opt.vmPmemSize
  return (pml, v)

theorem startVmm_eq (endSym : UInt64) (cpuid : Cpuid) (mbi : UInt64) (pml : PmemLayout) :
    startVmm endSym cpuid mbi pml = (do
      let (pml, v) ← startVmmMemory endSym cpuid mbi pml
      vmCreateGuest (VIRT pml.guestImageStart) pml.guestImageSize v) := by
  simp only [startVmm, startVmmMsr, startVmmMemory, vmCreate, bind_assoc, pure_bind, bind_pure]

/-! ## What only reads -/

theorem load32_readOnly (v : UInt64) : ReadOnly (load32 v) := fun _ _ _ h =>
  (load32_eq_ok.mp h).1

theorem fatalFailure_readOnly {α : Type} (msg : String) :
    ReadOnly (fatalFailure msg : M α) :=
  .stop _

theorem parseCmdline_ok {mbi : UInt64} {opt : CmdlineOption} {s s' : State}
    (h : parseCmdline mbi s = .ok (opt, s')) :
    s' = s ∧ opt = ⟨DEFAULT_VMM_HEAP_SIZE, DEFAULT_VM_PMEM_SIZE⟩ := by
  obtain ⟨flags, s₁, hflags, h⟩ := bind_eq_ok.mp h
  obtain ⟨_, s₂, hwhen, h⟩ := bind_eq_ok.mp h
  cases h
  have hro : ReadOnly (do
      let cmdline ← mbiCmdline mbi
      when (cmdline ≠ 0) (printf "Command line: %s\n") : M Unit) :=
    (load32_readOnly _).bind fun _ => .when (.pure _)
  exact ⟨(hro.when _ _ _ hwhen).trans (load32_readOnly _ _ _ _ hflags), rfl⟩

theorem setupMemoryRegion_readOnly (mbi : UInt64) : ReadOnly (setupMemoryRegion mbi) := by
  refine (load32_readOnly _).bind fun flags => ?_
  split_ifs
  · exact fatalFailure_readOnly _
  refine .loop (fun i => (load32_readOnly _).bind fun len => ?_) _ _
  dsimp only
  split_ifs
  · simp only [readEntryVia, bind_assoc, pure_bind]
    refine (load32_readOnly _).bind fun _ => (load32_readOnly _).bind fun _ =>
      (load32_readOnly _).bind fun _ => (load32_readOnly _).bind fun _ =>
      (load32_readOnly _).bind fun _ => (load32_readOnly _).bind fun _ => .bind ?_ fun _ =>
      (load32_readOnly _).bind fun _ => .pure _
    rw [addMemoryRegion]
    split_ifs
    · exact fatalFailure_readOnly _
    · exact .pure _
  · exact .pure _

theorem hasGuestImage_readOnly (mbi : UInt64) : ReadOnly (hasGuestImage mbi) := by
  refine (load32_readOnly _).bind fun flags => ?_
  split_ifs
  · exact .pure _
  · exact (load32_readOnly _).bind fun _ => .pure _

/-! ## Where the image is saved -/

/-- The entry `p` has room for `len` bytes from `start` on: behind the heap that
ends in it, or from its first byte on. -/
structure SavePlace (pml : PmemLayout) (len : UInt64) (p : E820Entry) (start : UInt64) :
    Prop where
  ram : p.IsRam
  size : len ≤ p.size
  start : start = pml.vmmHeapEnd ∧ p.addr < pml.vmmHeapEnd ∧
      pml.vmmHeapEnd + len < p.addr + p.size ∨
    start = p.addr ∧ pml.vmmHeapEnd ≤ p.addr

/-- The search returns a place in some entry, as an `int`. -/
theorem findMemoryRegion_ok {e820 : E820Map} {pml : PmemLayout} {len : UInt64} {r : Int32}
    {s s' : State} (h : findMemoryRegionForSavingGuestImage e820 pml len s = .ok (r, s')) :
    s' = s ∧ ∃ p ∈ e820.map, ∃ start, r = CInt.ofULong start ∧ SavePlace pml len p start := by
  suffices key : ∀ l : List E820Entry, findMemoryRegionIn pml len l s = .ok (r, s') →
      s' = s ∧ ∃ p ∈ l, ∃ start, r = CInt.ofULong start ∧ SavePlace pml len p start from
    key e820.map h
  intro l
  induction l with
  | nil =>
    intro h
    cases h
  | cons p l ih =>
    have hlater : findMemoryRegionIn pml len l s = .ok (r, s') →
        s' = s ∧ ∃ q ∈ p :: l, ∃ start, r = CInt.ofULong start ∧ SavePlace pml len q start := by
      intro h
      obtain ⟨hs, q, hq, hplace⟩ := ih h
      exact ⟨hs, q, List.mem_cons_of_mem p hq, hplace⟩
    intro h
    rw [findMemoryRegionIn] at h
    split_ifs at h with hskip hbelow habove
    · exact hlater h
    · cases h
      rw [not_or, not_not, UInt64.not_lt] at hskip
      exact ⟨rfl, p, List.mem_cons_self, _, rfl, hskip.1, hskip.2, Or.inl ⟨rfl, hbelow⟩⟩
    · cases h
      rw [not_or, not_not, UInt64.not_lt] at hskip
      exact ⟨rfl, p, List.mem_cons_self, _, rfl, hskip.1, hskip.2, Or.inr ⟨rfl, habove⟩⟩
    · exact hlater h

/-- In an entry below 2 GB the place survives the conversion to `int`. -/
theorem SavePlace.bounds {pml : PmemLayout} {len start : UInt64} {p : E820Entry}
    (h : SavePlace pml len p start) (hstop : p.stop ≤ 2 ^ 31)
    (hheap : pml.vmmHeapEnd.toNat ≤ 2 ^ 31) (hlen : len ≠ 0) :
    CInt.toULong (CInt.ofULong start) = start ∧ pml.vmmHeapEnd.toNat ≤ start.toNat ∧
      start.toNat + len.toNat ≤ 2 ^ 31 := by
  have hsize := UInt64.le_iff_toNat_le.mp h.size
  have hpos : len.toNat ≠ 0 := fun h0 => hlen (UInt64.toNat_inj.mp h0)
  rw [E820Entry.stop] at hstop
  have hbounds : pml.vmmHeapEnd.toNat ≤ start.toNat ∧ start.toNat + len.toNat ≤ 2 ^ 31 := by
    rcases h.start with ⟨rfl, -, hroom⟩ | ⟨rfl, hle⟩
    · rw [UInt64.lt_iff_toNat_lt, UInt64.toNat_add, UInt64.toNat_add] at hroom
      omega
    · rw [UInt64.le_iff_toNat_le] at hle
      omega
  exact ⟨CInt.toULong_ofULong (by omega), hbounds⟩

/-- What `copy_guest_image` did with the module from `modStart` to `modEnd`. -/
structure ImageSaved (modStart modEnd : UInt32) (pml pml' : PmemLayout) (s s' : State) :
    Prop where
  size : pml'.guestImageSize = (modEnd - modStart).toUInt64
  maxPage : pml'.maxPage = pml.maxPage
  heapEnd : pml'.vmmHeapEnd = pml.vmmHeapEnd
  place : pml'.guestImageSize ≠ 0 →
    pml.vmmHeapEnd.toNat ≤ pml'.guestImageStart.toNat ∧ pml'.imageStop ≤ 1073741824
  bytes : ∀ k < pml'.guestImageSize.toNat,
    s'.mem (pml'.guestImageStart.toNat + k) = s.mem (modStart.toNat + k)

/-- The module that the boot loader passes. -/
def guestModule (mbi : UInt64) : M (UInt32 × UInt32) := do
  let mod := VIRT (← mbiModsAddr mbi).toUInt64
  let e ← modEnd mod
  let start ← modStart mod
  return (start, e)

/-- A move between `VIRT` of two addresses. -/
theorem memmove_VIRT_ok {dest src count : UInt64} {s s' : State} (hdest : dest.toNat < 2 ^ 32)
    (hsrc : src.toNat < 2 ^ 32) (hcount : count ≠ 0)
    (h : memmove (VIRT dest) (VIRT src) count s = .ok ((), s')) :
    dest.toNat + count.toNat ≤ 1073741824 ∧
      s' = { s with mem := s.mem.copy dest.toNat src.toNat count.toNat } := by
  have hpos : count.toNat ≠ 0 := fun h0 => hcount (UInt64.toNat_inj.mp h0)
  have hlt : VIRT dest < VIRT src ↔ dest.toNat < src.toNat := by
    rw [UInt64.lt_iff_toNat_lt, toNat_VIRT, toNat_VIRT]
    omega
  refine wp_ok (wp_memmove (E := fun _ => True) (Q := fun _ s' =>
      dest.toNat + count.toNat ≤ 1073741824 ∧
        s' = { s with mem := s.mem.copy dest.toNat src.toNat count.toNat })
    (Or.inr fun _ => trivial) (Or.inr fun _ => trivial) fun pd ps s' hpd hps hcopied => ?_) h
  have hd := eq_of_bootTranslate_VIRT (by omega) (hpd hpos)
  have hs := eq_of_bootTranslate_VIRT (by omega) (hps hpos)
  subst hd hs
  exact ⟨bootTranslate_le (hpd hpos), hcopied.copy (Or.inl hlt)⟩

/-- `copy_guest_image` saves the module above the heap, whatever it overlaps. -/
theorem copyGuestImage_ok {mbi : UInt64} {e820 : E820Map} {pml pml' : PmemLayout}
    {s s' : State} (hends : ∀ p ∈ e820.map, p.stop ≤ 2 ^ 31)
    (hheap : pml.vmmHeapEnd.toNat ≤ 2 ^ 31)
    (h : copyGuestImage mbi e820 pml s = .ok (pml', s')) :
    ∃ start e, guestModule mbi s = .ok ((start, e), s) ∧
      ImageSaved start e pml pml' s s' := by
  obtain ⟨has, s₁, hhas, h₁⟩ := bind_eq_ok.mp h
  obtain rfl := hasGuestImage_readOnly _ _ _ _ hhas
  split_ifs at h₁
  · cases h₁
  obtain ⟨mods, s₂, hmods, h₂⟩ := bind_eq_ok.mp h₁
  obtain rfl := load32_readOnly _ _ _ _ hmods
  obtain ⟨e, s₃, hend, h₃⟩ := bind_eq_ok.mp h₂
  obtain rfl := load32_readOnly _ _ _ _ hend
  obtain ⟨start, s₄, hstart, h₄⟩ := bind_eq_ok.mp h₃
  obtain rfl := load32_readOnly _ _ _ _ hstart
  obtain ⟨r, s₅, hfind, h₅⟩ := bind_eq_ok.mp h₄
  obtain ⟨rfl, p, hp, place, rfl, hplace⟩ := findMemoryRegion_ok hfind
  obtain ⟨start', s₆, hstart', h₆⟩ := bind_eq_ok.mp h₅
  obtain rfl := load32_readOnly _ _ _ _ hstart'
  obtain rfl : start' = start := eq_of_ok hstart' hstart
  obtain ⟨_, s₇, hmove, h₇⟩ := bind_eq_ok.mp h₆
  cases h₇
  refine ⟨start', e, ?_, ?_⟩
  · rw [guestModule, bind_of_ok hmods, bind_of_ok hend, bind_of_ok hstart]
    rfl
  -- An empty module has no bytes to speak of.
  by_cases hzero : (e - start').toUInt64 = 0
  · refine ⟨rfl, rfl, rfl, fun h => absurd hzero h, fun k hk => ?_⟩
    dsimp only at hk
    rw [hzero] at hk
    exact absurd hk (Nat.not_lt_zero k)
  · obtain ⟨hint, hle, hstop⟩ := hplace.bounds (hends p hp) hheap hzero
    rw [hint] at hmove ⊢
    dsimp only at hle hstop hmove
    have hlt := start'.toNat_lt
    obtain ⟨hmapped, rfl⟩ := memmove_VIRT_ok (by omega)
      (by rw [UInt32.toNat_toUInt64]; omega) hzero hmove
    refine ⟨rfl, rfl, rfl, fun _ => ⟨hle, hmapped⟩, fun k hk => ?_⟩
    dsimp only at hk ⊢
    rw [ByteMem.copy_add hk, UInt32.toNat_toUInt64]

/-! ## What comes after the image is saved -/

/-- `start_vmm` from the call of `naive_allocator_init` to that of `load_elf_image`
writes the bitmap and pages that it allocates. -/
theorem afterImage_evolves {endSym : UInt64} {cpuid : Cpuid} {e820 : E820Map}
    {pml : PmemLayout} {L : AllocLayout} {vmPmemSize : UInt64} {hsa : UInt64} {v : VmVars}
    {s s₁ s₂ s₃ : State} (hready : AllocatorReady endSym e820 pml L s s₁)
    (hcpu : identifyCpu allocPages cpuid s₁ = .ok (hsa, s₂))
    (hvm : vmCreateMemory allocPages vmPmemSize s₂ = .ok (v, s₃)) :
    ∃ own, Evolves L.bytes own s₁ s₃ ∧ AllocInv L s₃ := by
  have hA := allocPages_contract_returns L
  obtain ⟨r, hev, hinv⟩ := wp_ok (wp_identifyCpu hA (k := 0) hready.inv (fun _ => trivial)
    (Q := fun _ s₂ => ∃ r, Evolves L.bytes [(r, 1)] s₁ s₂ ∧ AllocInv L s₂)
    fun r s₂ hev hinv => ⟨r, hev, hinv⟩) hcpu
  obtain ⟨_, _, _, _, own, -, hm, hinv'⟩ := vmMemory_of_run hA hinv hvm
  exact ⟨own ++ [(r, 1)], (hev.trans hm.evolves).mono (by simp), hinv'⟩

/-- The allocator and its callers keep clear of an image above the heap end. -/
theorem AllocatorReady.image_eqOn {endSym : UInt64} {e820 : E820Map} {pml : PmemLayout}
    {L : AllocLayout} {own : List (UInt64 × UInt64)} {s s₁ s₂ : State}
    (hready : AllocatorReady endSym e820 pml L s s₁)
    (hplace : pml.vmmHeapEnd.toNat ≤ pml.guestImageStart.toNat)
    (hev : Evolves L.bytes own s₁ s₂) (hinv : AllocInv L s₂) :
    Set.EqOn s₂.mem s.mem (imageBytes pml) := by
  have hheap := hready.heap
  have hbitmap : Disjoint L.bytes (imageBytes pml) := by
    rw [AllocLayout.bytes, Set.Ico_disjoint_Ico]
    omega
  have hown : Disjoint (rangeBytes own) (imageBytes pml) := by
    refine hinv.rangeBytes_disjoint hev.handedOut fun f hf => ?_
    rw [hready.safe] at hf
    exact hf.image
  exact (hev.eqOn hbitmap hown).trans
    (hready.mem.mono fun a ha hb => Set.disjoint_left.mp hbitmap hb ha)

/-- In every run that comes to `load_elf_image`, the saved image is the module that
the boot loader passed. -/
theorem startVmm_image_survives {endSym : UInt64} {cpuid : Cpuid} {mbi : UInt64}
    {pml₀ pml : PmemLayout} {v : VmVars} {s s' : State}
    (hends : ∀ e820 s₁, setupMemoryRegion mbi s = .ok (e820, s₁) →
      ∀ p ∈ e820.map, p.stop ≤ 2 ^ 31)
    (hrun : startVmmMemory endSym cpuid mbi pml₀ s = .ok ((pml, v), s')) :
    ∃ start e, guestModule mbi s = .ok ((start, e), s) ∧
      pml.guestImageSize = (e - start).toUInt64 ∧
      ∀ k < pml.guestImageSize.toNat,
        s'.mem (pml.guestImageStart.toNat + k) = s.mem (start.toNat + k) := by
  obtain ⟨_, s₀, hprint, h₀⟩ := bind_eq_ok.mp hrun
  cases hprint
  obtain ⟨opt, s₁, hparse, h₁⟩ := bind_eq_ok.mp h₀
  obtain ⟨rfl, rfl⟩ := parseCmdline_ok hparse
  obtain ⟨pml₃, s₂, harch, h₂⟩ := bind_eq_ok.mp h₁
  obtain ⟨v', s₃, hvm, h₃⟩ := bind_eq_ok.mp h₂
  cases h₃
  obtain ⟨e820, s₄, hmap, h₄⟩ := bind_eq_ok.mp harch
  obtain rfl := setupMemoryRegion_readOnly _ _ _ _ hmap
  obtain ⟨pml₁, s₅, hcopy, h₅⟩ := bind_eq_ok.mp h₄
  obtain ⟨pml₂, s₆, hinit, h₆⟩ := bind_eq_ok.mp h₅
  obtain ⟨hsa, s₇, hcpu, h₇⟩ := bind_eq_ok.mp h₆
  cases h₇
  have hend := hends e820 _ hmap
  obtain ⟨start, e, hmod, hsaved⟩ := copyGuestImage_ok hend
    (show DEFAULT_VMM_HEAP_SIZE.toNat ≤ 2 ^ 31 by decide) hcopy
  rw [naiveAllocatorInit_layout hinit]
  refine ⟨start, e, hmod, hsaved.size, fun k hk => ?_⟩
  obtain ⟨hplace, hstop⟩ := hsaved.place fun hzero => by
    rw [show (initLayout endSym pml₁).guestImageSize = 0 from hzero] at hk
    exact absurd hk (Nat.not_lt_zero k)
  have hboot : BootLayout e820 pml₁ := by
    refine ⟨fun p hp => ?_, hsaved.maxPage, ?_, ?_⟩
    · have := hend p hp
      rw [E820Entry.stop] at this
      unfold E820Entry.NoWrap
      omega
    · rw [hsaved.heapEnd]
      exact (show DEFAULT_VMM_HEAP_SIZE.toNat ≤ 2 ^ 64 - 4096 by decide)
    · omega
  obtain ⟨L, hready⟩ := allocatorReady_of_init hboot hinit
  obtain ⟨own, hev, hinv⟩ := afterImage_evolves hready hcpu hvm
  refine Eq.trans ?_ (hsaved.bytes k hk)
  refine hready.image_eqOn (by rwa [hsaved.heapEnd]) hev hinv (Set.mem_Ico.mpr ?_)
  exact ⟨Nat.le_add_right _ _, Nat.add_lt_add_left hk _⟩

/-! ## A sample boot -/

/-- RAM of 512 MB, and a reserved range with padding that ends at 2 GB. -/
def bootRecords : List MemoryRecord :=
  [.plain 0 0x20000000 1, .padded 0x7FFF0000 0x10000 2]

open ByteMem in
/-- What the boot loader leaves: the Multiboot information, one module, and the
memory map. -/
def bootPieces : List (Nat × List UInt8) := [
  (0x1000, bytesLE 4 (MBI_MODULES ||| MBI_MEMMAP).toNat),
  (0x1014, bytesLE 4 (1 : UInt32).toNat), -- mods_count
  (0x1018, bytesLE 4 (0x3000 : UInt32).toNat), -- mods_addr
  (0x102C, bytesLE 4 (encodeRecords bootRecords).length), -- mmap_length
  (0x1030, bytesLE 4 (0x10000 : UInt32).toNat), -- mmap_addr
  (0x3000, bytesLE 4 (0x3FFF00 : UInt32).toNat), -- mod_start
  (0x3004, bytesLE 4 (0x400100 : UInt32).toNat), -- mod_end
  (0x10000, encodeRecords bootRecords)]

/-- A machine with these pieces.  The module of 512 bytes overlaps the place where
it is saved. -/
def bootState : State where
  mem := ByteMem.layAll (fun a => UInt8.ofNat a) bootPieces
  nalloc := { allocBitmap := 0, maxPage := 0 }
  handedOut := []

theorem bootState_holds (i : Nat) (h : i < bootPieces.length) :
    bootState.mem.Holds bootPieces[i].1 bootPieces[i].2 :=
  ByteMem.holds_layAll (by decide) _ _ (List.getElem_mem h)

theorem bootState_memoryMap :
    HoldsMemoryMap 0x1000 bootRecords (MBI_MODULES ||| MBI_MEMMAP)
      (UInt32.ofNat (encodeRecords bootRecords).length) 0x10000 0x10000 bootState :=
  holdsMemoryMap_of_holds (bootState_holds 0 (by decide)) (by decide)
    (bootState_holds 3 (by decide)) (bootState_holds 4 (by decide))
    (bootState_holds 7 (by decide)) (by decide)

/-- What the Multiboot information says about the module. -/
theorem bootState_loads :
    mbiModsCount 0x1000 bootState = .ok (1, bootState) ∧
    mbiModsAddr 0x1000 bootState = .ok (0x3000, bootState) ∧
    modStart (VIRT (0x3000 : UInt32).toUInt64) bootState = .ok (0x3FFF00, bootState) ∧
    modEnd (VIRT (0x3000 : UInt32).toUInt64) bootState = .ok (0x400100, bootState) :=
  ⟨load32_of_holds (a := 0x1014) (by decide) (bootState_holds 1 (by decide)),
    load32_of_holds (a := 0x1018) (by decide) (bootState_holds 2 (by decide)),
    load32_of_holds (a := 0x3000) (by decide) (bootState_holds 5 (by decide)),
    load32_of_holds (a := 0x3004) (by decide) (bootState_holds 6 (by decide))⟩

theorem sample_parseCmdline : parseCmdline 0x1000 bootState =
    .ok (⟨DEFAULT_VMM_HEAP_SIZE, DEFAULT_VM_PMEM_SIZE⟩, bootState) := by
  rw [parseCmdline, bind_of_ok bootState_memoryMap.mbiFlags, when, if_neg (by decide)]
  rfl

def bootMap : E820Map where
  map := bootRecords.map MemoryRecord.entry
  length_le := by decide

theorem sample_setupMemoryRegion :
    setupMemoryRegion 0x1000 bootState = .ok (bootMap, bootState) := by
  obtain ⟨⟨map, hle⟩, hok, rfl⟩ := setupMemoryRegion_ok bootState_memoryMap (by decide)
  exact hok

/-- What is in `pml` when the allocator starts. -/
def bootLayout : PmemLayout where
  maxPage := 0x20000
  totalPages := 0x20000
  vmmHeapStart := 0
  vmmHeapEnd := 0x400000
  guestImageStart := 0x400000
  guestImageSize := 0x200

theorem sample_copyGuestImage : ∃ s₁, copyGuestImage 0x1000 bootMap
    { bootLayout with guestImageStart := 0, guestImageSize := 0 } bootState =
      .ok (bootLayout, s₁) := by
  obtain ⟨hcount, haddr, hstart, hend⟩ := bootState_loads
  have hhas : hasGuestImage 0x1000 bootState = .ok (true, bootState) := by
    rw [hasGuestImage, bind_of_ok bootState_memoryMap.mbiFlags, if_neg (by decide),
      bind_of_ok hcount]
    rfl
  have hfind : findMemoryRegionForSavingGuestImage bootMap
      { bootLayout with guestImageStart := 0 } 0x200 bootState = .ok (0x400000, bootState) := by
    show findMemoryRegionIn _ _ (⟨0, 0x20000000, 1⟩ :: _) _ = _
    rw [findMemoryRegionIn, if_neg (by decide), if_pos (by decide)]
    rfl
  have hmapped : ∀ v a, bootTranslate v 0x200 = some a →
      Accessible (fun _ => False) v (0x200 : UInt64).toNat := fun v a h => Or.inl ⟨a, fun _ => h⟩
  obtain ⟨_, s₁, hmove, -⟩ := exists_ok_of_wp (wp_memmove (s := bootState)
    (hmapped (VIRT 0x400000) 0x400000 (by decide))
    (hmapped (VIRT (0x3FFF00 : UInt32).toUInt64) 0x3FFF00 (by decide))
    (Q := fun _ _ => True) fun _ _ _ _ _ _ => trivial)
  refine ⟨s₁, ?_⟩
  rw [copyGuestImage, bind_of_ok hhas, if_neg (by decide), bind_of_ok haddr, bind_of_ok hend,
    bind_of_ok hstart]
  exact (bind_of_ok hfind _).trans ((bind_of_ok hstart _).trans (bind_of_ok hmove _))

theorem boot_bootLayout : BootLayout bootMap bootLayout where
  noWrap := List.forall_mem_cons.mpr ⟨by decide, List.forall_mem_singleton.mpr (by decide)⟩
  maxPage := by decide
  heapEnd := by decide
  image := by decide

/-- The frames between the image and the end of the RAM are free. -/
theorem boot_budget {L : AllocLayout} {s s₁ : State}
    (hready : AllocatorReady sampleEnd bootMap bootLayout L s s₁) {k : Nat} (hk : k ≤ 100000) :
    Budget (fun _ => False) L k s₁ := by
  have hmax : s₁.nalloc.maxPage.toNat = 131072 := by
    rw [hready.maxPage]
    rfl
  refine ⟨hready.inv, Or.inl ⟨1025, 131071, Or.inl ⟨by omega, fun f hf hf' => ?_⟩, by omega,
    by decide⟩⟩
  refine (hready.free_iff f (show f < 131072 by omega)).mpr
    ⟨⟨0, 0x20000000, 1⟩, List.mem_cons_self, rfl, ?_, ?_⟩
  · rw [show entryStart bootLayout ⟨0, 0x20000000, 1⟩ = 0x400200 by decide]
    omega
  · show f * 4096 + 4096 ≤ 0x20000000
    omega

/-- The sample boot comes to the load of the image. -/
theorem sample_startVmmMemory : ∃ v s', startVmmMemory sampleEnd sampleCpuid 0x1000
    ⟨0, 0, 0, 0, 0, 0⟩ bootState = .ok ((initLayout sampleEnd bootLayout, v), s') := by
  obtain ⟨s₁, hcopy⟩ := sample_copyGuestImage
  have htail : wp (do
      let pml ← naiveAllocatorInit sampleEnd bootMap bootLayout
      let _ ← identifyCpu allocPages sampleCpuid
      let v ← vmCreateMemory allocPages DEFAULT_VM_PMEM_SIZE
      return (pml, v)) (fun r _ => r.1 = initLayout sampleEnd bootLayout)
      (fun _ => False) s₁ := by
    rw [wp_bind]
    refine wp_naiveAllocatorInit boot_bootLayout (Or.inl (by decide))
      (Or.inl ⟨0x200000, fun _ => by decide⟩) fun L s₂ hready => ?_
    have hA := allocPages_contract (fun _ => False) L
    have hcost : vmCost DEFAULT_VM_PMEM_SIZE = 1555 := by decide
    rw [wp_bind, sample_identifyCpu, wp_bind]
    refine wp_allocHostSaveArea hA (boot_budget hready (k := 0 + 1555 + 2) (by omega))
      fun r s₃ _ hbudget => ?_
    rw [wp_pure, wp_bind]
    refine wp_vmCreateMemory hA (k := 0) (by rwa [hcost]) fun _ _ _ _ _ _ _ _ => ?_
    rw [wp_pure]
  obtain ⟨⟨pml, v⟩, s', hok, rfl⟩ := exists_ok_of_wp htail
  refine ⟨v, s', ?_⟩
  have hlayout : ({ (⟨0, 0, 0, 0, 0, 0⟩ : PmemLayout) with
      totalPages := getNrPages bootMap
      maxPage := getMaxPfn bootMap
      vmmHeapEnd := DEFAULT_VMM_HEAP_SIZE } : PmemLayout) =
      { bootLayout with guestImageStart := 0, guestImageSize := 0 } := by decide
  simp only [startVmmMemory, setupArch, printf, pure_bind, bind_assoc]
  rw [bind_of_ok sample_parseCmdline, bind_of_ok sample_setupMemoryRegion, hlayout,
    bind_of_ok hcopy]
  exact hok

theorem sample_guestModule :
    guestModule 0x1000 bootState = .ok ((0x3FFF00, 0x400100), bootState) := by
  obtain ⟨-, haddr, hstart, hend⟩ := bootState_loads
  rw [guestModule, bind_of_ok haddr, bind_of_ok hend, bind_of_ok hstart]
  rfl

theorem sample_startVmm_image_survives : ∃ pml v s',
    startVmmMemory sampleEnd sampleCpuid 0x1000 ⟨0, 0, 0, 0, 0, 0⟩ bootState =
      .ok ((pml, v), s') ∧
    ∀ k < 0x200, s'.mem (pml.guestImageStart.toNat + k) = bootState.mem (0x3FFF00 + k) := by
  obtain ⟨v, s', hrun⟩ := sample_startVmmMemory
  refine ⟨_, v, s', hrun, ?_⟩
  obtain ⟨start, e, hmod, -, hbytes⟩ := startVmm_image_survives (fun e820 s₁ hmap => by
    rw [sample_setupMemoryRegion] at hmap
    cases hmap
    exact List.forall_mem_cons.mpr ⟨by decide, List.forall_mem_singleton.mpr (by decide)⟩) hrun
  rw [sample_guestModule] at hmod
  cases hmod
  exact hbytes

end Tvmm
