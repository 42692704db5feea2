import Tvmm.String

/-!
# `memmove` is a simultaneous copy

The machine of `Tvmm.Machine` maps its memory twice, so there two virtual
addresses may be one byte.  `memmoveVia flatMovs` is `memmove` on a flat memory,
which has one byte for each address.

* `wp_inlineMemcpyVia_flat`: the forward path, for a destination below the source;
* `wp_copyDownVia_flat`: the backward loop, for the others;
* `memmove_simultaneous`: both are simultaneous copies, and on the machine so is
  `memmove` on ranges that the page tables keep in order.
-/

namespace Tvmm

open Exec

/-- One string move of `w` bytes in a flat memory: a load and a store. -/
def flatMovs (w : Nat) (dest src : UInt64) : Exec ByteMem Stop Unit :=
  modify fun m => m.writeLE dest.toNat w (m.readLE src.toNat w)

/-- `m'` has at `dest` the bytes that `m` has at `src`, and is `m` elsewhere. -/
structure SimultaneousCopy (m m' : ByteMem) (dest src n : Nat) : Prop where
  copied : ∀ k, k < n → m' (dest + k) = m (src + k)
  unchanged : Set.EqOn m' m (Set.Ico dest (dest + n))ᶜ

theorem simultaneousCopy_copy (m : ByteMem) (dest src n : Nat) :
    SimultaneousCopy m (m.copy dest src n) dest src n :=
  ⟨fun _ hk => ByteMem.copy_add hk, ByteMem.eqOn_copy m dest src n⟩

/-! ## A flat memory -/

section Flat

variable {dest src count : UInt64} {m m' : ByteMem} {E : Stop → Prop}

theorem toNat_add_ofNat {v : UInt64} {k : Nat} (h : v.toNat + k < 2 ^ 64) :
    (v + UInt64.ofNat k).toNat = v.toNat + k := by
  rw [UInt64.toNat_add, UInt64.toNat_ofNat']
  omega

theorem wp_flatMovs {w k : Nat} {Q : Unit → ByteMem → Prop} (hw : 0 < w)
    (hd : dest.toNat + (k + w) ≤ 2 ^ 64) (hs : src.toNat + (k + w) ≤ 2 ^ 64)
    (hQ : Q () (m.copy (dest.toNat + k) (src.toNat + k) w)) :
    wp (flatMovs w (dest + UInt64.ofNat k) (src + UInt64.ofNat k)) Q E m := by
  rw [flatMovs, wp_modify, toNat_add_ofNat (by omega), toNat_add_ofNat (by omega),
    ByteMem.writeLE_readLE]
  exact hQ

/-- One more piece of a copy that goes upwards. -/
theorem wp_flatMovs_upwards {w k : Nat} (hw : 0 < w) (hlt : dest < src)
    (hs : src.toNat + (k + w) ≤ 2 ^ 64) :
    wp (flatMovs w (dest + UInt64.ofNat k) (src + UInt64.ofNat k))
      (fun _ m' => m' = m.copy dest.toNat src.toNat (k + w)) E
      (m.copy dest.toNat src.toNat k) := by
  rw [UInt64.lt_iff_toNat_lt] at hlt
  exact wp_flatMovs hw (by omega) (by omega) (ByteMem.copy_append (Or.inl (by omega)))

/-- The forward path.  The source lies above the destination, so that a move reads
what no earlier one has written. -/
theorem wp_inlineMemcpyVia_flat (hlt : dest < src)
    (hs : src.toNat + count.toNat ≤ 2 ^ 64) :
    wp (__inlineMemcpyVia flatMovs dest src count)
      (fun _ m' => m' = m.copy dest.toNat src.toNat count.toNat) E m := by
  rw [__inlineMemcpyVia]
  simp only [wp_bind]
  refine wp_imp (wp_forRange (fun k m' => m' = m.copy dest.toNat src.toNat (k * 4))
    (by simp) ?_) ?_
  · rintro k _ hk rfl
    rw [Nat.succ_mul]
    exact wp_flatMovs_upwards (by decide) hlt (by omega)
  rintro _ _ rfl
  refine wp_imp (Q := fun _ m' => m' = m.copy dest.toNat src.toNat
    (count.toNat / 4 * 4 + count.toNat / 2 % 2 * 2)) (wp_when ?_ ?_) ?_
  · intro h2
    rw [h2]
    exact wp_flatMovs_upwards (by decide) hlt (by omega)
  · intro h2
    rw [show count.toNat / 2 % 2 = 0 by omega, Nat.zero_mul, Nat.add_zero]
  rintro _ _ rfl
  refine wp_when ?_ ?_
  · intro h1
    have h := wp_flatMovs_upwards (m := m) (E := E) (w := 1)
      (k := count.toNat / 4 * 4 + count.toNat / 2 % 2 * 2) (by decide) hlt (by omega)
    rwa [show count.toNat / 4 * 4 + count.toNat / 2 % 2 * 2 + 1 = count.toNat by
      omega] at h
  · intro h1
    rw [show count.toNat / 4 * 4 + count.toNat / 2 % 2 * 2 = count.toNat by omega]

/-- The backward loop.  The source does not lie above the destination. -/
theorem wp_copyDownVia_flat (hle : ¬dest < src) (hd : dest.toNat + count.toNat ≤ 2 ^ 64) :
    wp (copyDownVia flatMovs dest src count)
      (fun _ m' => m' = m.copy dest.toNat src.toNat count.toNat) E m := by
  rw [UInt64.lt_iff_toNat_lt] at hle
  refine wp_imp (wp_forRange (fun k m' => m' = m.copy (dest.toNat + (count.toNat - k))
    (src.toNat + (count.toNat - k)) k) (by simp) ?_) ?_
  · rintro k _ hk rfl
    refine wp_flatMovs Nat.one_pos (by omega) (by omega) ?_
    -- The byte goes below the `k` bytes that are in place.
    have hprev : count.toNat - k = count.toNat - 1 - k + 1 := by omega
    rw [hprev, ← Nat.add_assoc, ← Nat.add_assoc, ByteMem.copy_prepend (Or.inl (by omega)),
      show count.toNat - (k + 1) = count.toNat - 1 - k by omega]
  · rintro _ _ rfl
    rw [Nat.sub_self, Nat.add_zero, Nat.add_zero]

end Flat

/-! ## The machine -/

theorem wp_memmove_simultaneous {dest src count : UInt64} {s : State} :
    wp (memmove dest src count) (fun _ s' =>
      ∃ pd ps, Mapped dest count.toNat pd ∧ Mapped src count.toNat ps ∧
        ((dest < src ↔ pd < ps) ∨ ps + count.toNat ≤ pd ∨ pd + count.toNat ≤ ps →
          SimultaneousCopy s.mem s'.mem pd ps count.toNat)) (fun _ => True) s := by
  refine wp_memmove (Or.inr fun _ => trivial) (Or.inr fun _ => trivial)
    fun pd ps s' hpd hps hc => ⟨pd, ps, hpd, hps, fun hok => ?_⟩
  rw [hc.copy hok]
  exact simultaneousCopy_copy _ _ _ _

/-- On every memory and for every overlap, `memmove` is a simultaneous copy, and so
is each of its two paths on the ranges that are left to it.  On the machine it is
one when the physical ranges are disjoint or in the order of the virtual ones. -/
theorem memmove_simultaneous {dest src count : UInt64}
    (hd : dest.toNat + count.toNat ≤ 2 ^ 64) (hs : src.toNat + count.toNat ≤ 2 ^ 64) :
    (∀ m, (∃ m', memmoveVia flatMovs dest src count m = .ok ((), m') ∧
        SimultaneousCopy m m' dest.toNat src.toNat count.toNat) ∧
      (dest < src → ∃ m', __inlineMemcpyVia flatMovs dest src count m = .ok ((), m') ∧
        SimultaneousCopy m m' dest.toNat src.toNat count.toNat) ∧
      (¬dest < src → ∃ m', copyDownVia flatMovs dest src count m = .ok ((), m') ∧
        SimultaneousCopy m m' dest.toNat src.toNat count.toNat)) ∧
    ∀ s s', memmove dest src count s = .ok ((), s') →
      ∃ pd ps, Mapped dest count.toNat pd ∧ Mapped src count.toNat ps ∧
        ((dest < src ↔ pd < ps) ∨ ps + count.toNat ≤ pd ∨ pd + count.toNat ≤ ps →
          SimultaneousCopy s.mem s'.mem pd ps count.toNat) := by
  constructor
  · intro m
    have hup : dest < src → ∃ m', __inlineMemcpyVia flatMovs dest src count m = .ok ((), m') ∧
        SimultaneousCopy m m' dest.toNat src.toNat count.toNat := by
      intro hlt
      obtain ⟨_, _, hrun, rfl⟩ := exists_ok_of_wp
        (wp_inlineMemcpyVia_flat (m := m) hlt hs)
      exact ⟨_, hrun, simultaneousCopy_copy _ _ _ _⟩
    have hdown : ¬dest < src → ∃ m', copyDownVia flatMovs dest src count m = .ok ((), m') ∧
        SimultaneousCopy m m' dest.toNat src.toNat count.toNat := by
      intro hle
      obtain ⟨_, _, hrun, rfl⟩ := exists_ok_of_wp (wp_copyDownVia_flat (m := m) hle hd)
      exact ⟨_, hrun, simultaneousCopy_copy _ _ _ _⟩
    refine ⟨?_, hup, hdown⟩
    rw [memmoveVia]
    split_ifs with hlt
    · exact hup hlt
    · exact hdown hlt
  · intro s s' hrun
    exact wp_ok wp_memmove_simultaneous hrun

/-- Seven bytes, moved up by one. -/
theorem sample_memmove_simultaneous : ∃ m',
    memmoveVia flatMovs 0x1001 0x1000 7 (fun x => UInt8.ofNat x) = .ok ((), m') ∧
    SimultaneousCopy (fun x => UInt8.ofNat x) m' 0x1001 0x1000 7 :=
  ((memmove_simultaneous (by decide) (by decide)).1 _).1

end Tvmm
