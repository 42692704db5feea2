import Tvmm.Lib.NestedPaging

/-!
# Accessed and dirty bits

While it walks, the processor sets bit 5 of the entries that it reads, and bit 6
of the last one for a write.  No walk depends on these bits: `ignoreAD` drops
them, and two memories that agree up to them in the entries that a walk reads
(`walkAddrs`) give the same translation.
-/

namespace LongMode

/-- The entry without its accessed and dirty bits. -/
def ignoreAD (e : UInt64) : UInt64 := e &&& ~~~0x60

theorem testBit_ignoreAD (e : UInt64) (k : Nat) :
    (ignoreAD e).toNat.testBit k = (e.toNat.testBit k && !decide (k = 5 ∨ k = 6)) := by
  have hmask : (~~~0x60 : UInt64).toNat = 2 ^ 64 - (0x60 + 1) := rfl
  have hbits : (0x60 : Nat).testBit k = decide (k = 5 ∨ k = 6) := by
    rw [show (0x60 : Nat) = 2 ^ 5 ||| 2 ^ 6 from rfl, Nat.testBit_or, Nat.testBit_two_pow,
      Nat.testBit_two_pow, ← Bool.decide_or]
    exact decide_eq_decide.mpr (or_congr eq_comm eq_comm)
  rw [ignoreAD, UInt64.toNat_and, Nat.testBit_and, hmask,
    Nat.testBit_two_pow_sub_succ (by decide), hbits]
  by_cases hk : k < 64
  · simp [hk]
  · have hzero : e.toNat.testBit k = false := by
      apply Nat.testBit_lt_two_pow
      exact Nat.lt_of_lt_of_le e.toNat_lt (Nat.pow_le_pow_right (by decide) (by omega))
    simp [hzero]

theorem flag_ignoreAD (e : UInt64) {k : Nat} (h5 : k ≠ 5) (h6 : k ≠ 6) :
    flag (ignoreAD e) k = flag e k := by
  rw [flag, flag, testBit_ignoreAD]
  simp [h5, h6]

theorem bits_ignoreAD (e : UInt64) {lo : Nat} (h : 7 ≤ lo) (n : Nat) :
    bits (ignoreAD e) lo n = bits e lo n := by
  apply Nat.eq_of_testBit_eq
  intro i
  rw [bits, bits, Nat.testBit_mod_two_pow, Nat.testBit_mod_two_pow, Nat.testBit_div_two_pow,
    Nat.testBit_div_two_pow, testBit_ignoreAD]
  have hne : ¬(i + lo = 5 ∨ i + lo = 6) := by omega
  simp [hne]

theorem frame_ignoreAD (e : UInt64) : frame (ignoreAD e) = frame e :=
  bits_ignoreAD e (by decide) 40

/-- Dropping the bits twice. -/
@[simp] theorem ignoreAD_ignoreAD (e : UInt64) : ignoreAD (ignoreAD e) = ignoreAD e := by
  rw [ignoreAD, ignoreAD, UInt64.and_assoc, UInt64.and_self]

/-- An entry that has neither bit set. -/
theorem ignoreAD_eq_self {e : UInt64} (h5 : flag e 5 = false) (h6 : flag e 6 = false) :
    ignoreAD e = e := by
  apply UInt64.toNat_inj.mp
  apply Nat.eq_of_testBit_eq
  intro k
  rw [testBit_ignoreAD]
  unfold flag at h5 h6
  by_cases hk : k = 5 ∨ k = 6
  · rcases hk with rfl | rfl
    · simp [h5]
    · simp [h6]
  · simp [hk]

/-! ## The translation -/

/-- The translation with the entries without these bits. -/
def Translation.ignoreAD (t : Translation) : Translation :=
  { t with entries := t.entries.map LongMode.ignoreAD }

theorem translation_ignoreAD (tables : List UInt64) (leaf : UInt64) {shift : Nat}
    (h : 7 ≤ shift) (v : Nat) :
    translation (tables.map ignoreAD) (ignoreAD leaf) shift v =
      (translation tables leaf shift v).ignoreAD := by
  have hmap : tables.map ignoreAD ++ [ignoreAD leaf] = (tables ++ [leaf]).map ignoreAD := by
    rw [List.map_append, List.map_singleton]
  have hflag : ∀ k, k ≠ 5 → k ≠ 6 → (fun e => flag e k) ∘ ignoreAD = fun e => flag e k :=
    fun k h5 h6 => funext fun e => flag_ignoreAD e h5 h6
  unfold translation Translation.ignoreAD
  rw [hmap, bits_ignoreAD leaf h]
  simp only [List.all_map, List.any_map, Translation.mk.injEq, true_and]
  refine ⟨?_, ?_, ?_, trivial⟩
  · rw [hflag 1 (by decide) (by decide)]
  · rw [hflag 2 (by decide) (by decide)]
  · rw [hflag 63 (by decide) (by decide)]

theorem ignoreAD_paddr (t : Translation) : t.ignoreAD.paddr = t.paddr := rfl
theorem ignoreAD_user (t : Translation) : t.ignoreAD.user = t.user := rfl
theorem ignoreAD_writable (t : Translation) : t.ignoreAD.writable = t.writable := rfl

/-- The walk over entries without these bits. -/
theorem walkVia_ignoreAD (read : Nat → Option UInt64) (cr3 v : Nat) :
    walkVia (fun a => (read a).map ignoreAD) cr3 v =
      (walkVia read cr3 v).map Translation.ignoreAD := by
  have hp : ∀ e, flag (ignoreAD e) 0 = flag e 0 := fun e => flag_ignoreAD e (by decide) (by decide)
  have hs : ∀ e, flag (ignoreAD e) 7 = flag e 7 := fun e => flag_ignoreAD e (by decide) (by decide)
  unfold walkVia
  simp only [Option.bind_eq_bind]
  cases read (cr3 / 4096 % 2 ^ 40 * 4096 + 8 * index v 3) with
  | none => rfl
  | some e4 =>
    simp only [Option.map_some, Option.bind_some, hp, bits_ignoreAD e4 (show 7 ≤ 7 by decide),
      frame_ignoreAD]
    split_ifs
    · rfl
    cases read (frame e4 * 4096 + 8 * index v 2) with
    | none => rfl
    | some e3 =>
      simp only [Option.map_some, Option.bind_some, hp, hs,
        bits_ignoreAD e3 (show 7 ≤ 13 by decide), frame_ignoreAD]
      split_ifs
      · rfl
      · rfl
      · exact congrArg some (translation_ignoreAD [e4] e3 (by decide) v)
      cases read (frame e3 * 4096 + 8 * index v 1) with
      | none => rfl
      | some e2 =>
        simp only [Option.map_some, Option.bind_some, hp, hs,
          bits_ignoreAD e2 (show 7 ≤ 13 by decide), frame_ignoreAD]
        split_ifs
        · rfl
        · rfl
        · exact congrArg some (translation_ignoreAD [e4, e3] e2 (by decide) v)
        cases read (frame e2 * 4096 + 8 * index v 0) with
        | none => rfl
        | some e1 =>
          simp only [Option.map_some, Option.bind_some, hp]
          split_ifs
          · rfl
          · exact congrArg some (translation_ignoreAD [e4, e3, e2] e1 (by decide) v)

/-! ## The entries that a walk reads -/

/-- The addresses of the entries that `walkVia` reads, the one in the PML4 first. -/
def walkAddrs (read : Nat → Option UInt64) (cr3 v : Nat) : List Nat :=
  let a4 := cr3 / 4096 % 2 ^ 40 * 4096 + 8 * index v 3
  a4 :: match read a4 with
    | none => []
    | some e4 =>
      if flag e4 0 = false ∨ bits e4 7 2 ≠ 0 then []
      else
        let a3 := frame e4 * 4096 + 8 * index v 2
        a3 :: match read a3 with
          | none => []
          | some e3 =>
            if flag e3 0 = false ∨ flag e3 7 = true then []
            else
              let a2 := frame e3 * 4096 + 8 * index v 1
              a2 :: match read a2 with
                | none => []
                | some e2 =>
                  if flag e2 0 = false ∨ flag e2 7 = true then []
                  else [frame e2 * 4096 + 8 * index v 0]

/-- They do not depend on these bits. -/
theorem walkAddrs_ignoreAD (read : Nat → Option UInt64) (cr3 v : Nat) :
    walkAddrs (fun a => (read a).map ignoreAD) cr3 v = walkAddrs read cr3 v := by
  have hp : ∀ e, flag (ignoreAD e) 0 = flag e 0 := fun e => flag_ignoreAD e (by decide) (by decide)
  have hs : ∀ e, flag (ignoreAD e) 7 = flag e 7 := fun e => flag_ignoreAD e (by decide) (by decide)
  unfold walkAddrs
  dsimp only
  cases read (cr3 / 4096 % 2 ^ 40 * 4096 + 8 * index v 3) with
  | none => rfl
  | some e4 =>
    simp only [Option.map_some, hp, bits_ignoreAD e4 (show 7 ≤ 7 by decide), frame_ignoreAD]
    cases read (frame e4 * 4096 + 8 * index v 2) with
    | none => rfl
    | some e3 =>
      simp only [Option.map_some, hp, hs, frame_ignoreAD]
      cases read (frame e3 * 4096 + 8 * index v 1) with
      | none => rfl
      | some e2 => simp only [Option.map_some, hp, hs, frame_ignoreAD]

/-- The walk depends on the entries that it reads only. -/
theorem walkVia_congr {read read' : Nat → Option UInt64} {cr3 v : Nat}
    (h : ∀ a ∈ walkAddrs read cr3 v, read' a = read a) :
    walkVia read' cr3 v = walkVia read cr3 v ∧
      walkAddrs read' cr3 v = walkAddrs read cr3 v := by
  unfold walkAddrs at h ⊢
  unfold walkVia
  simp only [Option.bind_eq_bind, List.forall_mem_cons] at h ⊢
  obtain ⟨h4, h⟩ := h
  rw [h4]
  cases he4 : read (cr3 / 4096 % 2 ^ 40 * 4096 + 8 * index v 3) with
  | none => exact ⟨rfl, rfl⟩
  | some e4 =>
    simp only [he4, Option.bind_some] at h ⊢
    split_ifs at h ⊢ with hp4
    · exact ⟨rfl, rfl⟩
    rw [List.forall_mem_cons] at h
    obtain ⟨h3, h⟩ := h
    rw [h3]
    cases he3 : read (frame e4 * 4096 + 8 * index v 2) with
    | none => exact ⟨rfl, rfl⟩
    | some e3 =>
      simp only [he3, Option.bind_some] at h ⊢
      cases hp3 : flag e3 0 with
      | false => simp
      | true =>
      cases hs3 : flag e3 7 with
      | true => simp
      | false =>
      simp only [hp3, hs3, Bool.true_eq_false, Bool.false_eq_true, or_self, if_false,
        List.forall_mem_cons] at h ⊢
      obtain ⟨h2, h⟩ := h
      rw [h2]
      cases he2 : read (frame e3 * 4096 + 8 * index v 1) with
      | none => exact ⟨rfl, rfl⟩
      | some e2 =>
        simp only [he2, Option.bind_some] at h ⊢
        cases hp2 : flag e2 0 with
        | false => simp
        | true =>
        cases hs2 : flag e2 7 with
        | true => simp
        | false =>
        simp only [hp2, hs2, Bool.true_eq_false, Bool.false_eq_true, or_self, if_false,
          List.forall_mem_singleton] at h ⊢
        rw [h]
        exact ⟨rfl, trivial⟩

/-! ## Walks in memory -/

/-- Reading an entry in physical memory. -/
def memRead (m : ByteMem) (a : Nat) : Option UInt64 := some (m.read64 a)

theorem walkVia_memRead (m : ByteMem) (cr3 v : Nat) :
    walkVia (memRead m) cr3 v = walk m cr3 v :=
  walkVia_eq_walk (fun _ => rfl) cr3 v

section Same

variable {m m' : ByteMem} {cr3 v : Nat}

/-- Two memories that agree up to these bits in the entries that a walk reads. -/
theorem walk_same (h : ∀ a ∈ walkAddrs (memRead m) cr3 v,
      ignoreAD (m'.read64 a) = ignoreAD (m.read64 a)) :
    (walk m' cr3 v).map Translation.ignoreAD = (walk m cr3 v).map Translation.ignoreAD ∧
      walkAddrs (memRead m') cr3 v = walkAddrs (memRead m) cr3 v := by
  rw [← walkVia_memRead, ← walkVia_memRead, ← walkVia_ignoreAD, ← walkVia_ignoreAD,
    ← walkAddrs_ignoreAD (memRead m'), ← walkAddrs_ignoreAD (memRead m)]
  refine walkVia_congr fun a ha => ?_
  rw [walkAddrs_ignoreAD] at ha
  exact congrArg some (h a ha)

/-- What an access needs to know of the translation. -/
theorem guestAccess_eq_bind (m : ByteMem) (nCr3 g : Nat) : guestAccess m nCr3 g =
    if 2 ^ 48 ≤ g then none
    else ((walk m nCr3 g).map Translation.ignoreAD).bind fun t =>
      if t.user && t.writable then some t.paddr else none := by
  unfold guestAccess
  cases walk m nCr3 g with
  | none => rfl
  | some t => rfl

/-- An access goes to the same place. -/
theorem guestAccess_same {nCr3 g : Nat} (h : ∀ a ∈ walkAddrs (memRead m) nCr3 g,
    ignoreAD (m'.read64 a) = ignoreAD (m.read64 a)) :
    guestAccess m' nCr3 g = guestAccess m nCr3 g := by
  rw [guestAccess_eq_bind, guestAccess_eq_bind, (walk_same h).1]

end Same

end LongMode
