import Mathlib.Data.Set.Lattice
import Mathlib.Order.CompletePartialOrder
import Tvmm.Lib.ByteMem
import Tvmm.Lib.Exec

/-!
# The machine that the VMM runs on

The state is the physical memory, the static `naive_allocator` of `alloc.c`,
and a history of the frame ranges that `alloc_pages` returned.  The history is
read by no function of the model: it is there so that a statement can say
"handed out before".

The C code runs on the page tables of `boot.S`.  `vmm_pml4_table` has two
present entries, number 0 and number 262 (the index of `VMM_OFFSET`), and both
lead to the one `vmm_pdir_table`, which maps the first 1 GB of physical memory
in 2 MB pages.  So a virtual address is mapped when it lies in the first 1 GB,
or in the 1 GB from `VMM_OFFSET` on.  An access to any other address is a page
fault, and without an IDT the machine stops there.

`fatal_failure` prints its message and executes `ud2a`, so a call of it does
not return.
-/

namespace Tvmm

/-- Why the machine stopped. -/
inductive Stop where
  /-- `fatal_failure` was called with this message. -/
  | fatalFailure (msg : String)
  /-- A load or store at an unmapped virtual address. -/
  | pageFault (vaddr : UInt64)
  /-- A loop that does not end. -/
  | hang
  deriving DecidableEq, Repr

/-- `struct naive_allocator`: the virtual address of the bitmap and the number
of frames that it covers. -/
structure NaiveAllocator where
  allocBitmap : UInt64
  maxPage : UInt64
  deriving DecidableEq, Repr

/-- The state of the machine. -/
structure State where
  /-- Physical memory. -/
  mem : ByteMem
  /-- `static struct naive_allocator naive_allocator` -/
  nalloc : NaiveAllocator
  /-- The first frame and the number of frames of each range that
  `alloc_pages` returned, the last one first. -/
  handedOut : List (UInt64 × UInt64)

/-- The C functions of the VMM. -/
abbrev M : Type → Type := Exec State Stop

/-- `fatal_failure` of `failure.c`. -/
def fatalFailure {σ α : Type} (msg : String) : Exec σ Stop α :=
  Exec.stop (.fatalFailure msg)

/-- The video memory, where the console of `printf.c` writes. -/
abbrev videoBytes : Set Nat := Set.Ico 0xb8000 (0xb8000 + 4000)

/-- `printf`.  What it stores is not followed here: the characters in the video memory,
and its own `buf` and `scr_info`, which lie beside `mem`.  A statement about these bytes
is made with the `printf` of `Tvmm.PrintfBuffer`, which does store them. -/
def printf (_format : String) : M Unit := pure ()

@[simp] theorem printf_bind {α : Type} (format : String) (f : Unit → M α) :
    printf format >>= f = f () := rfl

/-- The number of values of an `int`, and one more: no loop that only counts
an `int` up runs longer without repeating itself. -/
def INT_FUEL : Nat := 2 ^ 32 + 1

/-- The number of values of an `unsigned long`, and one more. -/
def LONG_FUEL : Nat := 2 ^ 64 + 1

/-! ## `page.h` -/

def PAGE_SHIFT : UInt64 := 12
def PAGE_SIZE : UInt64 := 4096
/-- `~ ( PAGE_SIZE - 1 )`, an `int` that is sign-extended in the expressions
that use it. -/
def PAGE_MASK : UInt64 := ~~~(PAGE_SIZE - 1)

def PAGE_SHIFT_2MB : UInt64 := 21
def PAGE_SIZE_2MB : UInt64 := 2097152

def PFN_UP (x : UInt64) : UInt64 := (x + PAGE_SIZE - 1) >>> PAGE_SHIFT
def PFN_DOWN (x : UInt64) : UInt64 := x >>> PAGE_SHIFT

def PFN_UP_2MB (x : UInt64) : UInt64 := (x + PAGE_SIZE_2MB - 1) >>> PAGE_SHIFT_2MB
def PFN_DOWN_2MB (x : UInt64) : UInt64 := x >>> PAGE_SHIFT_2MB

def PAGE_UP (p : UInt64) : UInt64 := (p + (PAGE_SIZE - 1)) &&& PAGE_MASK
def PAGE_DOWN (p : UInt64) : UInt64 := p &&& PAGE_MASK

def VMM_OFFSET : UInt64 := 0xFFFF830000000000
def PHYS (va : UInt64) : UInt64 := va - VMM_OFFSET
def VIRT (pa : UInt64) : UInt64 := pa + VMM_OFFSET

/-- Clearing the low 12 bits. -/
theorem toNat_and_PAGE_MASK (x : UInt64) :
    (x &&& PAGE_MASK).toNat = x.toNat / 4096 * 4096 := by
  have hx := x.toNat_lt
  have hmask : PAGE_MASK.toNat = 2 ^ 64 - 2 ^ 12 := rfl
  rw [UInt64.toNat_and, hmask]
  apply Nat.eq_of_testBit_eq
  intro i
  rw [Nat.testBit_and, show x.toNat / 4096 * 4096 = (x.toNat >>> 12) <<< 12 by
    rw [Nat.shiftRight_eq_div_pow, Nat.shiftLeft_eq], Nat.testBit_shiftLeft,
    Nat.testBit_shiftRight]
  have hbit : (2 ^ 64 - 2 ^ 12 : Nat).testBit i = (decide (12 ≤ i) && decide (i < 64)) := by
    rw [show (2 ^ 64 - 2 ^ 12 : Nat) = (2 ^ 52 - 1) <<< 12 by decide,
      Nat.testBit_shiftLeft, Nat.testBit_two_pow_sub_one]
    by_cases h12 : 12 ≤ i <;> by_cases h64 : i < 64 <;> simp [h12, h64] <;> omega
  rw [hbit]
  by_cases h12 : 12 ≤ i
  · by_cases h64 : i < 64
    · simp [h12, h64, Nat.add_sub_cancel' h12]
    · have hz : x.toNat.testBit i = false := by
        apply Nat.testBit_lt_two_pow
        exact Nat.lt_of_lt_of_le hx (Nat.pow_le_pow_right (by decide) (by omega))
      simp [h12, h64, Nat.add_sub_cancel' h12, hz]
  · simp [h12]

theorem toNat_PAGE_DOWN (p : UInt64) :
    (PAGE_DOWN p).toNat = p.toNat / 4096 * 4096 :=
  toNat_and_PAGE_MASK p

/-- `PAGE_UP` rounds up when the sum does not wrap. -/
theorem toNat_PAGE_UP {p : UInt64} (h : p.toNat + 4095 < 2 ^ 64) :
    (PAGE_UP p).toNat = (p.toNat + 4095) / 4096 * 4096 := by
  rw [PAGE_UP, toNat_and_PAGE_MASK, UInt64.toNat_add,
    show (PAGE_SIZE - 1).toNat = 4095 from rfl, Nat.mod_eq_of_lt h]

theorem toNat_PFN_DOWN (x : UInt64) : (PFN_DOWN x).toNat = x.toNat / 4096 := by
  rw [PFN_DOWN, UInt64.toNat_shiftRight, Nat.shiftRight_eq_div_pow]
  rfl

theorem toNat_shiftRight_PAGE_SHIFT (x : UInt64) :
    (x >>> PAGE_SHIFT).toNat = x.toNat / 4096 :=
  toNat_PFN_DOWN x

/-- A frame number below `2 ^ 52` becomes a byte address without overflow. -/
theorem toNat_shiftLeft_PAGE_SHIFT {x : UInt64} (h : x.toNat < 2 ^ 52) :
    (x <<< PAGE_SHIFT).toNat = x.toNat * 4096 := by
  rw [UInt64.toNat_shiftLeft, Nat.shiftLeft_eq,
    show 2 ^ (PAGE_SHIFT.toNat % 64) = 4096 from rfl]
  omega

theorem toNat_VMM_OFFSET : VMM_OFFSET.toNat = 18446606634756079616 := rfl

theorem toNat_PHYS (v : UInt64) :
    (PHYS v).toNat = (v.toNat + 137438953472000) % 2 ^ 64 := by
  rw [PHYS, UInt64.toNat_sub, toNat_VMM_OFFSET]
  omega

theorem toNat_VIRT (p : UInt64) :
    (VIRT p).toNat = (p.toNat + 18446606634756079616) % 2 ^ 64 := by
  rw [VIRT, UInt64.toNat_add, toNat_VMM_OFFSET]

@[simp] theorem PHYS_VIRT (p : UInt64) : PHYS (VIRT p) = p := by
  rw [PHYS, VIRT, UInt64.add_sub_cancel]

/-! ## The mapping of `boot.S` -/

/-- The physical memory that `vmm_pdir_table` maps: 512 pages of 2 MB. -/
def BOOT_MAP_SIZE : Nat := 512 * 0x200000

/-- The physical address of `n` bytes at `v`.  The first case is entry 0 of
`vmm_pml4_table`, the second is entry 262. -/
def bootTranslate (v : UInt64) (n : Nat) : Option Nat :=
  if v.toNat + n ≤ BOOT_MAP_SIZE then some v.toNat
  else if (PHYS v).toNat + n ≤ BOOT_MAP_SIZE then some (PHYS v).toNat
  else none

theorem BOOT_MAP_SIZE_eq : BOOT_MAP_SIZE = 1073741824 := rfl

/-- The two ways in which an address is mapped. -/
theorem bootTranslate_eq_some {v : UInt64} {n a : Nat} :
    bootTranslate v n = some a ↔
      a + n ≤ 1073741824 ∧
        (v.toNat = a ∨ v.toNat = a + 18446606634756079616) := by
  have hv := v.toNat_lt
  rw [bootTranslate, toNat_PHYS, BOOT_MAP_SIZE_eq]
  split_ifs with h1 h2 <;> simp only [Option.some.injEq, false_iff] <;> omega

theorem bootTranslate_le {v : UInt64} {n a : Nat}
    (h : bootTranslate v n = some a) : a + n ≤ 1073741824 :=
  (bootTranslate_eq_some.mp h).1

/-- A part of a mapped range is mapped. -/
theorem bootTranslate_add {v : UInt64} {n a k j : Nat}
    (h : bootTranslate v n = some a) (hk : k + j ≤ n) :
    bootTranslate (v + UInt64.ofNat k) j = some (a + k) := by
  rw [bootTranslate_eq_some] at h ⊢
  rw [UInt64.toNat_add, UInt64.toNat_ofNat']
  omega

/-- Two adjacent mapped ranges form one mapped range. -/
theorem bootTranslate_append {v : UInt64} {k j a b : Nat} (hk : 0 < k)
    (hj : 0 < j) (hv : bootTranslate v k = some a)
    (hw : bootTranslate (v + UInt64.ofNat k) j = some b) :
    b = a + k ∧ bootTranslate v (k + j) = some a := by
  rw [bootTranslate_eq_some] at hv hw ⊢
  rw [UInt64.toNat_add, UInt64.toNat_ofNat'] at hw
  omega

/-- Physical memory below 1 GB is mapped at `VIRT` of its address. -/
theorem bootTranslate_VIRT {p : UInt64} {n : Nat}
    (h : p.toNat + n ≤ 1073741824) : bootTranslate (VIRT p) n = some p.toNat := by
  rw [bootTranslate_eq_some, toNat_VIRT]
  omega

/-- `VIRT` of a physical address that the address space has room for is mapped
to that address only. -/
theorem eq_of_bootTranslate_VIRT {p : UInt64} {n a : Nat}
    (hp : p.toNat < 137438953472000)
    (h : bootTranslate (VIRT p) n = some a) : a = p.toNat := by
  rw [bootTranslate_eq_some, toNat_VIRT] at h
  omega

/-! ## Loads and stores -/

/-- Load `n` bytes at `v` as a little-endian number. -/
def loadLE (n : Nat) (v : UInt64) : M Nat := fun s =>
  match bootTranslate v n with
  | some a => .ok (s.mem.readLE a n, s)
  | none => .error (.pageFault v)

/-- Store the low `n` bytes of `x` at `v`. -/
def storeLE (n : Nat) (v : UInt64) (x : Nat) : M Unit := fun s =>
  match bootTranslate v n with
  | some a => .ok ((), { s with mem := s.mem.writeLE a n x })
  | none => .error (.pageFault v)

def load64 (v : UInt64) : M UInt64 := do return UInt64.ofNat (← loadLE 8 v)
def load32 (v : UInt64) : M UInt32 := do return UInt32.ofNat (← loadLE 4 v)
def load16 (v : UInt64) : M UInt16 := do return UInt16.ofNat (← loadLE 2 v)

def store64 (v x : UInt64) : M Unit := storeLE 8 v x.toNat
def store8 (v : UInt64) (x : UInt8) : M Unit := storeLE 1 v x.toNat

theorem load64_of_mapped {v : UInt64} {a : Nat} (h : bootTranslate v 8 = some a)
    (s : State) : load64 v s = .ok (s.mem.read64 a, s) := by
  rw [load64, Exec.bind_of_ok (show loadLE 8 v s = .ok (s.mem.readLE a 8, s) by rw [loadLE, h])]
  rfl

theorem store64_of_mapped {v : UInt64} {a : Nat} (h : bootTranslate v 8 = some a)
    (w : UInt64) (s : State) :
    store64 v w s = .ok ((), { s with mem := s.mem.write64 a w }) := by
  rw [store64, storeLE, h]
  rfl

/-- The bytes `[v, v + n)` are mapped to `[a, a + n)`; `n = 0` asks for
nothing. -/
def Mapped (v : UInt64) (n a : Nat) : Prop :=
  n ≠ 0 → bootTranslate v n = some a

/-- The range is mapped, unless a page fault is an acceptable stop.  With
`E := fun _ => False` a rule that asks for this asks for a mapped range, with
`E := fun _ => True` it asks for nothing. -/
def Accessible (E : Stop → Prop) (v : UInt64) (n : Nat) : Prop :=
  (∃ a, Mapped v n a) ∨ ∀ u, E (.pageFault u)

/-- The next piece of a range that is accessed upwards. -/
theorem Mapped.append {v : UInt64} {k j a b : Nat} (hv : Mapped v k a)
    (hj : 0 < j) (hw : bootTranslate (v + UInt64.ofNat k) j = some b) :
    ∃ a', Mapped v (k + j) a' ∧ b = a' + k ∧ (k ≠ 0 → a' = a) := by
  by_cases hk : k = 0
  · subst hk
    refine ⟨b, fun _ => ?_, rfl, fun h => absurd rfl h⟩
    simpa using hw
  · have := bootTranslate_append (Nat.pos_of_ne_zero hk) hj (hv hk) hw
    exact ⟨a, fun _ => this.2, this.1, fun _ => rfl⟩

/-- The next byte of a range that is accessed downwards. -/
theorem Mapped.prepend {v : UInt64} {k a b : Nat} (hv : Mapped (v + 1) k a)
    (hw : bootTranslate v 1 = some b) :
    Mapped v (k + 1) b ∧ (k ≠ 0 → a = b + 1) := by
  by_cases hk : k = 0
  · subst hk
    exact ⟨fun _ => hw, fun h => absurd rfl h⟩
  · have := bootTranslate_append Nat.one_pos (Nat.pos_of_ne_zero hk) hw (hv hk)
    exact ⟨fun _ => by rw [Nat.add_comm]; exact this.2, fun _ => this.1⟩

/-- A part of an accessible range. -/
theorem Accessible.part {E : Stop → Prop} {v : UInt64} {n k j : Nat}
    (h : Accessible E v n) (hk : k + j ≤ n) :
    Accessible E (v + UInt64.ofNat k) j := by
  rcases h with ⟨a, ha⟩ | hE
  · exact Or.inl ⟨a + k, fun hj => bootTranslate_add (ha (by omega)) hk⟩
  · exact Or.inr hE

section Rules

open Exec

variable {v : UInt64} {n x : Nat} {s : State} {E : Stop → Prop}

/-- A load reads a mapped range, or is a page fault. -/
theorem wp_loadLE {Q : Nat → State → Prop} (hn : n ≠ 0) (hE : Accessible E v n)
    (hQ : ∀ a, bootTranslate v n = some a → Q (s.mem.readLE a n) s) :
    wp (loadLE n v) Q E s := by
  cases h : bootTranslate v n with
  | some a => simpa only [wp, loadLE, h] using hQ a h
  | none =>
    rcases hE with ⟨a, ha⟩ | hE
    · rw [ha hn] at h
      cases h
    · simpa only [wp, loadLE, h] using hE v

/-- A store writes a mapped range, or is a page fault. -/
theorem wp_storeLE {Q : Unit → State → Prop} (hn : n ≠ 0) (hE : Accessible E v n)
    (hQ : ∀ a, bootTranslate v n = some a →
      Q () { s with mem := s.mem.writeLE a n x }) :
    wp (storeLE n v x) Q E s := by
  cases h : bootTranslate v n with
  | some a => simpa only [wp, storeLE, h] using hQ a h
  | none =>
    rcases hE with ⟨a, ha⟩ | hE
    · rw [ha hn] at h
      cases h
    · simpa only [wp, storeLE, h] using hE v

/-- A load of a C value returns what is there. -/
theorem loadLE_eq_ok {α : Type} {g : Nat → α} {x : α} {s' : State} :
    (loadLE n v >>= fun y => pure (g y)) s = .ok (x, s') ↔ s' = s ∧
      ∃ a, bootTranslate v n = some a ∧ x = g (s.mem.readLE a n) := by
  rw [bind_eq_ok, loadLE]
  cases h : bootTranslate v n with
  | none => simp
  | some a =>
    constructor
    · rintro ⟨_, _, hok, hx⟩
      cases hok
      cases hx
      exact ⟨rfl, a, rfl, rfl⟩
    · rintro ⟨rfl, _, ha, rfl⟩
      cases ha
      exact ⟨_, _, rfl, rfl⟩

theorem load32_eq_ok {x : UInt32} {s' : State} :
    load32 v s = .ok (x, s') ↔ s' = s ∧
      ∃ a, bootTranslate v 4 = some a ∧ x = UInt32.ofNat (s.mem.readLE a 4) :=
  loadLE_eq_ok

theorem load16_eq_ok {x : UInt16} {s' : State} :
    load16 v s = .ok (x, s') ↔ s' = s ∧
      ∃ a, bootTranslate v 2 = some a ∧ x = UInt16.ofNat (s.mem.readLE a 2) :=
  loadLE_eq_ok

/-- A rule for the loads of C values: `x` is what the load returned. -/
theorem wp_load32 {Q : UInt32 → State → Prop} (hE : Accessible E v 4)
    (hQ : ∀ x, load32 v s = .ok (x, s) → Q x s) : wp (load32 v) Q E s := by
  rw [load32, wp_bind]
  refine wp_loadLE (by decide) hE fun a ha => ?_
  exact wp_pure.mpr (hQ _ (load32_eq_ok.mpr ⟨rfl, a, ha, rfl⟩))

theorem wp_load16 {Q : UInt16 → State → Prop} (hE : Accessible E v 2)
    (hQ : ∀ x, load16 v s = .ok (x, s) → Q x s) : wp (load16 v) Q E s := by
  rw [load16, wp_bind]
  refine wp_loadLE (by decide) hE fun a ha => ?_
  exact wp_pure.mpr (hQ _ (load16_eq_ok.mpr ⟨rfl, a, ha, rfl⟩))

end Rules

/-! ## The physical bytes of a virtual range -/

/-- Where the mapped bytes of `[v, v + n)` lie in physical memory. -/
def physBytes (v : UInt64) (n : Nat) : Set Nat :=
  {a | ∃ k < n, bootTranslate (v + UInt64.ofNat k) 1 = some a}

/-- A range that is mapped as a whole. -/
theorem Mapped.subset_physBytes {v : UInt64} {n a : Nat} (h : Mapped v n a) :
    Set.Ico a (a + n) ⊆ physBytes v n := by
  intro x hx
  rw [Set.mem_Ico] at hx
  refine ⟨x - a, by omega, ?_⟩
  rw [bootTranslate_add (h (by omega)) (by omega), Nat.add_sub_cancel' hx.1]

theorem physBytes_part {v : UInt64} {n k j : Nat} (h : k + j ≤ n) :
    physBytes (v + UInt64.ofNat k) j ⊆ physBytes v n := by
  rintro a ⟨i, hi, ha⟩
  refine ⟨k + i, by omega, ?_⟩
  rwa [UInt64.ofNat_add, ← UInt64.add_assoc]

/-- The bytes at `VIRT p` lie at `p`. -/
theorem physBytes_VIRT {p : UInt64} {n : Nat} (h : p.toNat + n ≤ 2 ^ 46) :
    physBytes (VIRT p) n ⊆ Set.Ico p.toNat (p.toNat + n) := by
  rintro a ⟨k, hk, ha⟩
  rw [bootTranslate_eq_some, UInt64.toNat_add, toNat_VIRT, UInt64.toNat_ofNat'] at ha
  rw [Set.mem_Ico]
  omega

/-! ## What a step leaves alone -/

/-- Between the two states only memory inside `X` changed. -/
structure OnlyWrites (X : Set Nat) (s s' : State) : Prop where
  mem : Set.EqOn s'.mem s.mem Xᶜ
  nalloc : s'.nalloc = s.nalloc
  handedOut : s'.handedOut = s.handedOut

namespace OnlyWrites

variable {X Y : Set Nat} {s s' s'' : State}

theorem refl (X : Set Nat) (s : State) : OnlyWrites X s s :=
  ⟨fun _ _ => rfl, rfl, rfl⟩

theorem trans (h : OnlyWrites X s s') (h' : OnlyWrites X s' s'') :
    OnlyWrites X s s'' :=
  ⟨fun _ ha => (h'.mem ha).trans (h.mem ha), h'.nalloc.trans h.nalloc,
    h'.handedOut.trans h.handedOut⟩

theorem mono (h : OnlyWrites X s s') (hXY : X ⊆ Y) : OnlyWrites Y s s' :=
  ⟨fun _ ha => h.mem fun hX => ha (hXY hX), h.nalloc, h.handedOut⟩

theorem eq_of_empty (h : OnlyWrites ∅ s s') : s' = s := by
  have hm := h.mem
  rw [Set.compl_empty, Set.eqOn_univ] at hm
  cases s
  cases s'
  simp only [State.mk.injEq]
  exact ⟨hm, h.nalloc, h.handedOut⟩

/-- Memory that is not written keeps its content. -/
theorem eqOn (h : OnlyWrites X s s') (hd : Disjoint X Y) : Set.EqOn s'.mem s.mem Y :=
  fun _ ha => h.mem fun hX => Set.disjoint_left.mp hd hX ha

theorem of_mem {m : ByteMem} (h : Set.EqOn m s.mem Xᶜ) :
    OnlyWrites X s { s with mem := m } :=
  ⟨h, rfl, rfl⟩

end OnlyWrites

/-- The bytes of page frame `f`. -/
def frameBytes (f : Nat) : Set Nat := Set.Ico (f * 4096) (f * 4096 + 4096)

theorem mem_frameBytes {f a : Nat} : a ∈ frameBytes f ↔ a / 4096 = f := by
  rw [frameBytes, Set.mem_Ico]
  omega

/-- The page frames of a range that `alloc_pages` returned. -/
def rangeFrames (r : UInt64 × UInt64) : Set Nat :=
  Set.Ico r.1.toNat (r.1.toNat + r.2.toNat)

theorem mem_rangeFrames {r nr : UInt64} {f : Nat} :
    f ∈ rangeFrames (r, nr) ↔ r.toNat ≤ f ∧ f < r.toNat + nr.toNat := Iff.rfl

end Tvmm
