import Tvmm.Lib.GuestRun
import Tvmm.VmIsolation

/-!
# What a running guest reaches

`guestReach` are the bytes of physical memory that the nested table opens to the
guest: the first 2 MB, which are passed through, and the memory of the VM from its
own 2 MB on.  `GuestConfined` says of all runs of the guest that they change these
bytes only, apart from accessed and dirty bits in the nested tables, and that the
guest can give each of these bytes any value.
-/

set_option linter.style.nameCheck false

namespace Tvmm

open Exec LongMode

/-- The byte at `a` is open to the guest whose memory starts at frame `r`. -/
def GuestReaches (r vmPmemSize : UInt64) (a : Nat) : Prop :=
  (0 < nrVmPages vmPmemSize ∧ a < 2 ^ 21) ∨
    (r.toNat * 4096 + 2 ^ 21 ≤ a ∧ a < r.toNat * 4096 + nrVmPages vmPmemSize * 2 ^ 21)

instance (r vmPmemSize : UInt64) (a : Nat) : Decidable (GuestReaches r vmPmemSize a) :=
  inferInstanceAs (Decidable (_ ∨ _))

/-- The bytes that are open to the guest. -/
def guestReach (r vmPmemSize : UInt64) : Set Nat := {a | GuestReaches r vmPmemSize a}

section Table

variable {priv : Set Nat} {vmPmemSize r : UInt64} {f : Nat} {S : Set Nat}
  {ext : List (UInt64 × UInt64)} {s s' : State}

/-- Where the accesses of the guest of a VM of at most 2 GB go. -/
theorem NestedTable.guestAccess_eq
    (h : NestedTable priv (VIRT (r <<< PAGE_SHIFT)) vmPmemSize f S s ext s')
    (hr : (r <<< PAGE_SHIFT).toNat = r.toNat * 4096) (hal : 512 ∣ r.toNat)
    (hle : r.toNat ≤ 2 ^ 33) (hsize : vmPmemSize.toNat ≤ 2 ^ 31) (g : Nat) :
    LongMode.guestAccess s'.mem (f * 4096) g =
      if g < nrVmPages vmPmemSize * 2 ^ 21 then
        some (if g < 2 ^ 21 then g else r.toNat * 4096 + g)
      else none := by
  have hpages : nrVmPages vmPmemSize ≤ 1024 := by
    rw [nrVmPages]
    omega
  by_cases hg : g < 2 ^ 48
  · obtain ⟨hnone, hsome⟩ := h.walk_of_le hsize hg
    by_cases hin : g < nrVmPages vmPmemSize * 2 ^ 21
    · obtain ⟨t, hwalk, hpaddr⟩ := hsome (by omega)
      obtain ⟨huser, hwritable⟩ := h.rights hwalk
      rw [guestAccess_of_walk hg hwalk huser hwritable, if_pos hin, hpaddr, PHYS_VIRT, hr]
      congr 1
      split_ifs <;> omega
    · rw [guestAccess_eq_none fun _ => hnone (by omega), if_neg hin]
  · rw [guestAccess_eq_none fun hlt => absurd hlt hg, if_neg (by omega)]

/-- The guest reaches exactly these bytes. -/
theorem NestedTable.guestReach_iff
    (h : NestedTable priv (VIRT (r <<< PAGE_SHIFT)) vmPmemSize f S s ext s')
    (hr : (r <<< PAGE_SHIFT).toNat = r.toNat * 4096) (hal : 512 ∣ r.toNat)
    (hle : r.toNat ≤ 2 ^ 33) (hsize : vmPmemSize.toNat ≤ 2 ^ 31) (a : Nat) :
    a ∈ guestReach r vmPmemSize ↔ ∃ g, LongMode.guestAccess s'.mem (f * 4096) g = some a := by
  have hacc := h.guestAccess_eq hr hal hle hsize
  constructor
  · rintro (⟨hpos, hlow⟩ | ⟨hlo, hhi⟩)
    · refine ⟨a, ?_⟩
      rw [hacc, if_pos (by omega), if_pos hlow]
    · refine ⟨a - r.toNat * 4096, ?_⟩
      rw [hacc, if_pos (by omega), if_neg (by omega)]
      congr 1
      omega
  · rintro ⟨g, hg⟩
    rw [hacc] at hg
    split_ifs at hg with hin hlow
    · cases hg
      exact Or.inl ⟨by omega, hlow⟩
    · cases hg
      exact Or.inr ⟨by omega, by omega⟩

/-- The walks stay in the nested tables. -/
theorem NestedTable.enclosed
    (h : NestedTable priv (VIRT (r <<< PAGE_SHIFT)) vmPmemSize f S s ext s')
    (hr : (r <<< PAGE_SHIFT).toNat = r.toNat * 4096) (hal : 512 ∣ r.toNat)
    (hle : r.toNat ≤ 2 ^ 33) (hsize : vmPmemSize.toNat ≤ 2 ^ 31)
    (hapart : Disjoint (guestReach r vmPmemSize) (framesBytes S)) :
    Enclosed s'.mem (f * 4096) (guestReach r vmPmemSize) S where
  reach g a hg := (h.guestReach_iff hr hal hle hsize a).mpr ⟨g, hg⟩
  entries g := by
    refine walkAddrs_of_tree h.tree h.owned.lt fun hp => ?_
    -- An entry of the page directory is missing, or a page.
    have hword := h.holds g
    cases hm : nestedMap (PFN_DOWN_2MB (PHYS (VIRT (r <<< PAGE_SHIFT))))
        (nrVmPages vmPmemSize) g with
    | none =>
      rw [hm] at hword
      rw [hword] at hp
      exact absurd hp (by decide)
    | some pu =>
      rw [hm] at hword
      rw [hword]
      exact (flags_pageEntry (Nat.mod_lt _ (by decide)) _).2.2.2.1
  apart := hapart

end Table

section Create

variable {alloc : UInt64 → UInt64 → M UInt64} {priv : Set Nat} {I : State → Prop}
  {vmPmemSize : UInt64} {n : Nat} {r : UInt64} {f : Nat} {S : Set Nat}
  {own : List (UInt64 × UInt64)} {s₀ s₁ s₂ s₃ s' : State}

/-- In a VM of whole 2 MB pages the guest reaches the first 2 MB and memory of its
own. -/
theorem guestReach_subset (hpage : 2 ^ 21 ∣ vmPmemSize.toNat) :
    guestReach r vmPmemSize ⊆ Set.Iio (2 ^ 21) ∪ vmPmemBytes r vmPmemSize := by
  have hnr := toNat_shiftRight_PAGE_SHIFT vmPmemSize
  rw [← nrVmFrames] at hnr
  have hpages : nrVmPages vmPmemSize = (vmPmemSize.toNat + 2097151) / 2097152 := rfl
  rintro a (⟨-, hlow⟩ | ⟨hlo, hhi⟩)
  · exact Or.inl hlow
  · right
    rw [vmPmemBytes_eq, Set.mem_Ico]
    omega

/-- The tables lie neither in the memory of the VM nor in the first 2 MB. -/
theorem VmMemory.reach_apart (hm : VmMemory (fun _ => True) priv vmPmemSize n r f S own s₀ s₁)
    (hpage : 2 ^ 21 ∣ vmPmemSize.toNat) (hhigh : ∀ g ∈ S, 512 ≤ g) :
    Disjoint (guestReach r vmPmemSize) (framesBytes S) := by
  rw [Set.disjoint_left]
  intro a ha hS
  have hS : a / 4096 ∈ S := hS
  have h512 := hhigh _ hS
  rcases guestReach_subset hpage ha with hlow | hvm
  · rw [Set.mem_Iio] at hlow
    omega
  · exact hm.table_pmem _ hS (mem_vmPmemBytes.mp hvm)

end Create

/-! ## After any calls of the allocator -/

/-- Frames that were handed out lie above the heap. -/
theorem AllocInv.heap_le {L : AllocLayout} {e820 : E820Map} {pml : PmemLayout} {s : State}
    (hinv : AllocInv L s) (hsafe : L.safe = {f | SafeFrame e820 pml f}) {q : UInt64 × UInt64}
    (hq : q ∈ s.handedOut) {f : Nat} (hf : f ∈ rangeFrames q) :
    pml.vmmHeapEnd.toNat ≤ f * 4096 := by
  have h := hinv.handedOut_safe q hq hf
  rw [hsafe] at h
  exact h.heap

end Tvmm
