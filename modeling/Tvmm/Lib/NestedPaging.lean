import Tvmm.Lib.LongMode

/-!
# The two-dimensional walk of nested paging

A guest runs on two page tables.  Its own maps guest-virtual to guest-physical
addresses, and the nested one maps guest-physical to host-physical addresses.
Every access of the walk over the guest's table is itself translated by the
nested table: `guestAccess` is one such access and `guestWalk` the whole walk.

The processor makes each access to guest-physical memory as a user, and the
accesses to the guest's tables as writes, so an entry of the nested table must
allow both.
-/

namespace LongMode

/-- The walk of `v` over tables that are read by `read`, which may fail. -/
def walkVia (read : Nat → Option UInt64) (cr3 v : Nat) : Option Translation := do
  let e4 ← read (cr3 / 4096 % 2 ^ 40 * 4096 + 8 * index v 3)
  if flag e4 0 = false ∨ bits e4 7 2 ≠ 0 then none
  else
    let e3 ← read (frame e4 * 4096 + 8 * index v 2)
    if flag e3 0 = false then none
    else if flag e3 7 then
      if bits e3 13 17 ≠ 0 then none else some (translation [e4] e3 30 v)
    else
      let e2 ← read (frame e3 * 4096 + 8 * index v 1)
      if flag e2 0 = false then none
      else if flag e2 7 then
        if bits e2 13 8 ≠ 0 then none else some (translation [e4, e3] e2 21 v)
      else
        let e1 ← read (frame e2 * 4096 + 8 * index v 0)
        if flag e1 0 = false then none else some (translation [e4, e3, e2] e1 12 v)

/-- Over tables that can be read, it is the walk. -/
theorem walkVia_eq_walk {read : Nat → Option UInt64} {m : ByteMem}
    (h : ∀ a, read a = some (m.read64 a)) (cr3 v : Nat) :
    walkVia read cr3 v = walk m cr3 v := by
  unfold walkVia
  rw [h, walk, Option.bind_eq_bind, Option.bind_some]
  refine if_congr Iff.rfl rfl ?_
  rw [h, Option.bind_some]
  refine if_congr Iff.rfl rfl (if_congr Iff.rfl rfl ?_)
  rw [h, Option.bind_some, walkPd]
  refine if_congr Iff.rfl rfl (if_congr Iff.rfl rfl ?_)
  rw [h, Option.bind_some]
  rfl

/-- Where an access to guest-physical address `g` goes. -/
def guestAccess (m : ByteMem) (nCr3 g : Nat) : Option Nat :=
  if 2 ^ 48 ≤ g then none
  else
    match walk m nCr3 g with
    | none => none
    | some t => if t.user && t.writable then some t.paddr else none

/-- The word at guest-physical address `g`. -/
def guestRead (m : ByteMem) (nCr3 g : Nat) : Option UInt64 :=
  (guestAccess m nCr3 g).map m.read64

/-- Where an access to guest-virtual address `v` goes. -/
def guestWalk (m : ByteMem) (nCr3 gCr3 v : Nat) : Option Nat :=
  (walkVia (guestRead m nCr3) gCr3 v).bind fun t => guestAccess m nCr3 t.paddr

section Access

variable {m : ByteMem} {nCr3 g : Nat} {t : Translation}

theorem guestAccess_of_walk (hg : g < 2 ^ 48) (hw : walk m nCr3 g = some t)
    (hu : t.user = true) (hwr : t.writable = true) :
    guestAccess m nCr3 g = some t.paddr := by
  rw [guestAccess, if_neg (by omega), hw]
  simp [hu, hwr]

theorem guestAccess_eq_none (h : g < 2 ^ 48 → walk m nCr3 g = none) :
    guestAccess m nCr3 g = none := by
  rw [guestAccess]
  split_ifs with hg
  · rfl
  · rw [h (by omega)]

/-- Over an empty nested table there is no translation at all. -/
theorem guestWalk_eq_none (h : ∀ g, walk m nCr3 g = none) (gCr3 v : Nat) :
    guestWalk m nCr3 gCr3 v = none := by
  have hread : ∀ g, guestRead m nCr3 g = none := by
    intro g
    rw [guestRead, guestAccess_eq_none fun _ => h g]
    rfl
  rw [guestWalk, walkVia, hread]
  rfl

end Access

/-! ## A table with one entry for each level but the last -/

section Single

variable {read : Nat → Option UInt64} {cr3 v : Nat} {e4 e3 e2 : UInt64}

theorem walkVia_eq_none_of_pml4
    (h4 : read (cr3 / 4096 % 2 ^ 40 * 4096 + 8 * index v 3) = some 0) :
    walkVia read cr3 v = none := by
  rw [walkVia, h4]
  rfl

theorem walkVia_eq_none_of_pdp
    (h4 : read (cr3 / 4096 % 2 ^ 40 * 4096 + 8 * index v 3) = some e4)
    (h3 : read (frame e4 * 4096 + 8 * index v 2) = some 0) :
    walkVia read cr3 v = none := by
  rw [walkVia, h4, Option.bind_eq_bind, Option.bind_some, h3]
  split_ifs <;> rfl

/-- The walk comes to the entry of the page directory. -/
theorem walkVia_pd (h4 : read (cr3 / 4096 % 2 ^ 40 * 4096 + 8 * index v 3) = some e4)
    (h4p : flag e4 0 = true) (h4r : bits e4 7 2 = 0)
    (h3 : read (frame e4 * 4096 + 8 * index v 2) = some e3) (h3p : flag e3 0 = true)
    (h3s : flag e3 7 = false)
    (h2 : read (frame e3 * 4096 + 8 * index v 1) = some e2)
    (h2s : flag e2 0 = true → flag e2 7 = true ∧ bits e2 13 8 = 0) :
    walkVia read cr3 v =
      if flag e2 0 then some (translation [e4, e3] e2 21 v) else none := by
  rw [walkVia, h4, Option.bind_eq_bind, Option.bind_some, if_neg (by simp [h4p, h4r]), h3,
    Option.bind_some, if_neg (by simp [h3p]), if_neg (by simp [h3s]), h2, Option.bind_some]
  cases hp : flag e2 0 with
  | false => simp
  | true => simp [(h2s hp).1, (h2s hp).2]

/-- A table that maps only in its first 1 GB: its page directory has the entries
`pd`, and the tables above it have one entry each. -/
theorem walkVia_single {pd : Fin 512 → UInt64}
    (h4 : ∀ i : Fin 512, read (cr3 / 4096 % 2 ^ 40 * 4096 + 8 * i) =
      some (if i = 0 then e4 else 0)) (h4p : flag e4 0 = true) (h4r : bits e4 7 2 = 0)
    (h3 : ∀ i : Fin 512, read (frame e4 * 4096 + 8 * i) = some (if i = 0 then e3 else 0))
    (h3p : flag e3 0 = true) (h3s : flag e3 7 = false)
    (h2 : ∀ i : Fin 512, read (frame e3 * 4096 + 8 * i) = some (pd i))
    (h2s : ∀ i, flag (pd i) 0 = true → flag (pd i) 7 = true ∧ bits (pd i) 13 8 = 0)
    (hv : v < 2 ^ 48) : walkVia read cr3 v =
      if v < 2 ^ 30 ∧ flag (pd (slot v 1)) 0 then
        some (translation [e4, e3] (pd (slot v 1)) 21 v) else none := by
  have hslot : ∀ l, slot v l = 0 ↔ v / 2 ^ (12 + 9 * l) % 512 = 0 := fun l => Fin.ext_iff
  have h4 := h4 (slot v 3)
  have h3 := h3 (slot v 2)
  by_cases hi3 : slot v 3 = 0
  · rw [if_pos hi3] at h4
    rw [hslot] at hi3
    by_cases hi2 : slot v 2 = 0
    · rw [if_pos hi2] at h3
      rw [hslot] at hi2
      rw [walkVia_pd h4 h4p h4r h3 h3p h3s (h2 (slot v 1)) (h2s (slot v 1))]
      exact if_congr (and_iff_right (by omega)).symm rfl rfl
    · rw [if_neg hi2] at h3
      rw [hslot] at hi2
      rw [walkVia_eq_none_of_pdp h4 h3, if_neg fun h => by omega]
  · rw [if_neg hi3] at h4
    rw [hslot] at hi3
    rw [walkVia_eq_none_of_pml4 h4, if_neg fun h => by omega]

end Single

end LongMode
