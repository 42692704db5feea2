import Tvmm.Machine

/-!
# `string.c`: `strncmp`, `memset` and `memmove`

`memset` and the backward path of `memmove` store one byte at a time.  The
forward path is `__inline_memcpy`: `rep movsl` moves `n / 4` four-byte units,
then `movsw` moves two bytes if bit 1 of `n` is set, and `movsb` one byte if
bit 0 is set, all upwards since the direction flag is clear.

`wp_memset` and `wp_memmove` say what a call does that is not cut short by a
page fault: the range was mapped as a whole, and it is filled or copied as one
block.  `memmove` chooses its direction by comparing virtual addresses, so the
copy is the simultaneous one when that comparison agrees with the one of the
physical addresses.
-/

set_option linter.style.nameCheck false

namespace Tvmm

open Exec

/-- `strncmp`, on arrays of at least `count` characters. -/
def strncmp : List UInt8 → List UInt8 → Nat → Int8
  | c :: cs, t :: ct, count + 1 =>
    let res := (c - t).toInt8
    if res ≠ 0 ∨ c = 0 then res else strncmp cs ct count
  | _, _, _ => 0

/-- `memset`: `while (count--) *xs++ = c;` -/
def memset (s : UInt64) (c : UInt8) (count : UInt64) : M Unit :=
  forRange count.toNat fun k => store8 (s + UInt64.ofNat k) c

section Source

variable {σ : Type} (movs : Nat → UInt64 → UInt64 → Exec σ Stop Unit)

/-- `__inline_memcpy`, where `movs w` moves `w` bytes. -/
def __inlineMemcpyVia (dest src n : UInt64) : Exec σ Stop Unit := do
  -- rep ; movsl
  forRange (n.toNat / 4) fun k =>
    movs 4 (dest + UInt64.ofNat (k * 4)) (src + UInt64.ofNat (k * 4))
  let done := n.toNat / 4 * 4
  -- testb $2 ; movsw
  when (n.toNat / 2 % 2 = 1) do
    movs 2 (dest + UInt64.ofNat done) (src + UInt64.ofNat done)
  let done := done + n.toNat / 2 % 2 * 2
  -- testb $1 ; movsb
  when (n.toNat % 2 = 1) do
    movs 1 (dest + UInt64.ofNat done) (src + UInt64.ofNat done)

/-- `while ( count-- ) *--p = *--s;` -/
def copyDownVia (dest src count : UInt64) : Exec σ Stop Unit :=
  forRange count.toNat fun k =>
    movs 1 (dest + UInt64.ofNat (count.toNat - 1 - k))
      (src + UInt64.ofNat (count.toNat - 1 - k))

/-- `memmove`, where `movs w` moves `w` bytes. -/
def memmoveVia (dest src count : UInt64) : Exec σ Stop Unit :=
  if dest < src then __inlineMemcpyVia movs dest src count
  else copyDownVia movs dest src count

end Source

/-- One string move of `w` bytes. -/
def movs (w : Nat) (dest src : UInt64) : M Unit := do
  let x ← loadLE w src
  storeLE w dest x

/-- `memmove` -/
def memmove (dest src count : UInt64) : M Unit := memmoveVia movs dest src count

/-! ## `memset` -/

theorem writeLE_one (m : ByteMem) (a : Nat) (c : UInt8) :
    m.writeLE a 1 c.toNat = m.fill a 1 c := by
  funext x
  simp only [ByteMem.writeLE, ByteMem.fill]
  split_ifs with h
  · rw [show x - a = 0 by omega, Nat.pow_zero, Nat.div_one, UInt8.ofNat_toNat]
  · rfl

/-- `memset` fills a mapped range, or is cut short by a page fault. -/
theorem wp_memset {v count : UInt64} {c : UInt8} {s : State} {E : Stop → Prop}
    {Q : Unit → State → Prop} (hE : Accessible E v count.toNat)
    (hQ : ∀ a, Mapped v count.toNat a →
      Q () { s with mem := s.mem.fill a count.toNat c }) :
    wp (memset v c count) Q E s := by
  refine wp_imp (wp_forRange (fun k s' => ∃ a, Mapped v k a ∧
    s' = { s with mem := s.mem.fill a k c }) ⟨0, fun h => absurd rfl h, by simp⟩ ?_) ?_
  · rintro k _ hk ⟨a, ha, rfl⟩
    refine wp_storeLE Nat.one_ne_zero (hE.part hk) fun b hb => ?_
    obtain ⟨a', ha', rfl, heq⟩ := ha.append Nat.one_pos hb
    refine ⟨a', ha', ?_⟩
    by_cases hk : k = 0
    · subst hk
      simp [writeLE_one]
    · rw [heq hk, writeLE_one, ByteMem.fill_append]
  · rintro _ _ ⟨a, ha, rfl⟩
    exact hQ a ha

/-! ## `memmove` -/

section Memmove

variable {dest src count : UInt64} {s : State} {E : Stop → Prop}
  {Q : Unit → State → Prop}

theorem wp_movs {w : Nat} (hw : w ≠ 0) (hd : Accessible E dest w)
    (hs : Accessible E src w)
    (hQ : ∀ pd ps, bootTranslate dest w = some pd →
      bootTranslate src w = some ps →
      Q () { s with mem := s.mem.copy pd ps w }) :
    wp (movs w dest src) Q E s := by
  rw [movs, wp_bind]
  refine wp_loadLE hw hs fun ps hps => wp_storeLE hw hd fun pd hpd => ?_
  rw [ByteMem.writeLE_readLE]
  exact hQ pd ps hpd hps

/-- What is left of a copy of `n` bytes from `ps` to `pd` when the pieces may
have been moved in an order that `ok` does not allow: a write of the
destination. -/
structure Copied (ok : Prop) (pd ps n : Nat) (s s' : State) : Prop where
  only : OnlyWrites (Set.Ico pd (pd + n)) s s'
  copy : ok → s' = { s with mem := s.mem.copy pd ps n }

/-- The state of a copy that goes upwards, `k` bytes of `n` done. -/
private def Upwards (dest src : UInt64) (n : Nat) (s : State) (k : Nat)
    (s' : State) : Prop :=
  ∃ pd ps, Mapped dest k pd ∧ Mapped src k ps ∧
    Copied (pd ≤ ps ∨ ps + n ≤ pd) pd ps k s s'

private theorem Upwards.zero (dest src : UInt64) (n : Nat) (s : State) :
    Upwards dest src n s 0 s :=
  ⟨0, 0, fun h => absurd rfl h, fun h => absurd rfl h, OnlyWrites.refl _ s,
    fun _ => by simp⟩

/-- One more piece of a copy that goes upwards. -/
private theorem wp_movs_upwards {n k w : Nat} {s' : State} (hw : 0 < w)
    (hn : k + w ≤ n) (hd : Accessible E dest n) (hs : Accessible E src n)
    (h : Upwards dest src n s k s') :
    wp (movs w (dest + UInt64.ofNat k) (src + UInt64.ofNat k))
      (fun _ s'' => Upwards dest src n s (k + w) s'') E s' := by
  obtain ⟨pd, ps, hpd, hps, hc⟩ := h
  refine wp_movs hw.ne' (hd.part hn) (hs.part hn) fun qd qs hqd hqs => ?_
  obtain ⟨pd', hpd', rfl, hdeq⟩ := hpd.append hw hqd
  obtain ⟨ps', hps', rfl, hseq⟩ := hps.append hw hqs
  have hc' : Copied (pd' ≤ ps' ∨ ps' + n ≤ pd') pd' ps' k s s' := by
    by_cases hk : k = 0
    · subst hk
      refine ⟨?_, fun _ => ?_⟩
      · simpa using hc.only
      · simp [(hc.only.mono (by simp)).eq_of_empty]
    · rw [hdeq hk, hseq hk]
      exact hc
  refine ⟨pd', ps', hpd', hps', ?_, fun hok => ?_⟩
  · refine (hc'.only.mono (Set.Ico_subset_Ico_right (by omega))).trans ?_
    refine OnlyWrites.of_mem ((ByteMem.eqOn_copy _ _ _ _).mono ?_)
    exact Set.compl_subset_compl.mpr (Set.Ico_subset_Ico (by omega) (by omega))
  · rw [hc'.copy hok]
    simp only [State.mk.injEq, and_true]
    exact ByteMem.copy_append (by omega)

private theorem wp_inlineMemcpy (hd : Accessible E dest count.toNat)
    (hs : Accessible E src count.toNat) :
    wp (__inlineMemcpyVia movs dest src count)
      (fun _ s' => Upwards dest src count.toNat s count.toNat s') E s := by
  rw [__inlineMemcpyVia]
  simp only [wp_bind]
  refine wp_imp (wp_forRange (fun k s' => Upwards dest src count.toNat s (k * 4) s')
    (by simpa using Upwards.zero dest src count.toNat s) ?_) ?_
  · intro k s' hk h
    have := wp_movs_upwards (n := count.toNat) (k := k * 4) (w := 4) (by decide)
      (by omega) hd hs h
    rwa [show (k + 1) * 4 = k * 4 + 4 by omega]
  intro _ s₁ h₁
  refine wp_imp (Q := fun _ s' => Upwards dest src count.toNat s
    (count.toNat / 4 * 4 + count.toNat / 2 % 2 * 2) s') (wp_when ?_ ?_) ?_
  · intro h2
    rw [h2]
    exact wp_movs_upwards (by decide) (by omega) hd hs h₁
  · intro h2
    rwa [show count.toNat / 2 % 2 = 0 by omega]
  intro _ s₂ h₂
  refine wp_when ?_ ?_
  · intro h1
    have := wp_movs_upwards (w := 1) (by decide) (by omega) hd hs h₂
    rwa [show count.toNat / 4 * 4 + count.toNat / 2 % 2 * 2 + 1 = count.toNat by
      omega] at this
  · intro h1
    rwa [show count.toNat / 4 * 4 + count.toNat / 2 % 2 * 2 = count.toNat by
      omega] at h₂

/-- The state of a copy that goes downwards, the last `k` bytes of `n` done. -/
private def Downwards (dest src : UInt64) (n : Nat) (s : State) (k : Nat)
    (s' : State) : Prop :=
  ∃ pd ps, Mapped (dest + UInt64.ofNat (n - k)) k pd ∧
    Mapped (src + UInt64.ofNat (n - k)) k ps ∧
    Copied (ps ≤ pd ∨ pd + n ≤ ps) pd ps k s s'

private theorem ofNat_pred_add_one (v : UInt64) {n k : Nat} (hk : k < n) :
    v + UInt64.ofNat (n - (k + 1)) + 1 = v + UInt64.ofNat (n - k) := by
  rw [show n - k = n - (k + 1) + 1 by omega, UInt64.ofNat_add, ← UInt64.add_assoc]
  rfl

/-- One more byte of a copy that goes downwards. -/
private theorem wp_movs_downwards {n k : Nat} {s' : State} (hk : k < n)
    (hd : Accessible E dest n) (hs : Accessible E src n)
    (h : Downwards dest src n s k s') :
    wp (movs 1 (dest + UInt64.ofNat (n - (k + 1)))
        (src + UInt64.ofNat (n - (k + 1))))
      (fun _ s'' => Downwards dest src n s (k + 1) s'') E s' := by
  obtain ⟨pd, ps, hpd, hps, hc⟩ := h
  refine wp_movs Nat.one_ne_zero (hd.part (by omega)) (hs.part (by omega))
    fun qd qs hqd hqs => ?_
  rw [← ofNat_pred_add_one _ hk] at hpd hps
  obtain ⟨hpd', hdeq⟩ := hpd.prepend hqd
  obtain ⟨hps', hseq⟩ := hps.prepend hqs
  have hc' : Copied (qs ≤ qd ∨ qd + n ≤ qs) (qd + 1) (qs + 1) k s s' := by
    by_cases hk0 : k = 0
    · subst hk0
      refine ⟨?_, fun _ => ?_⟩
      · simpa using hc.only
      · simp [(hc.only.mono (by simp)).eq_of_empty]
    · refine ⟨by rw [← hdeq hk0]; exact hc.only, fun hok => ?_⟩
      rw [← hdeq hk0, ← hseq hk0]
      exact hc.copy (by rw [hdeq hk0, hseq hk0]; omega)
  refine ⟨qd, qs, hpd', hps', ?_, fun hok => ?_⟩
  · refine (hc'.only.mono (Set.Ico_subset_Ico (by omega) (by omega))).trans ?_
    refine OnlyWrites.of_mem ((ByteMem.eqOn_copy _ _ _ _).mono ?_)
    exact Set.compl_subset_compl.mpr (Set.Ico_subset_Ico_right (by omega))
  · rw [hc'.copy hok]
    simp only [State.mk.injEq, and_true]
    exact ByteMem.copy_prepend (by omega)

/-- `memmove` copies a mapped range to a mapped range, or is cut short by a
page fault.  The copy is simultaneous when the two ranges are disjoint in
physical memory, or ordered there as their virtual addresses are. -/
theorem wp_memmove (hd : Accessible E dest count.toNat)
    (hs : Accessible E src count.toNat)
    (hQ : ∀ pd ps s', Mapped dest count.toNat pd → Mapped src count.toNat ps →
      Copied ((dest < src ↔ pd < ps) ∨ ps + count.toNat ≤ pd ∨
        pd + count.toNat ≤ ps) pd ps count.toNat s s' → Q () s') :
    wp (memmove dest src count) Q E s := by
  rw [memmove, memmoveVia]
  split_ifs with hlt
  · refine wp_imp (wp_inlineMemcpy hd hs) ?_
    rintro _ s' ⟨pd, ps, hpd, hps, hc⟩
    refine hQ pd ps s' hpd hps ⟨hc.only, fun hok => hc.copy ?_⟩
    simp only [hlt, true_iff] at hok
    omega
  · refine wp_imp (wp_forRange (Downwards dest src count.toNat s)
      ⟨0, 0, fun h => absurd rfl h, fun h => absurd rfl h, OnlyWrites.refl _ s,
        fun _ => by simp⟩ ?_) ?_
    · intro k s' hk h
      have := wp_movs_downwards hk hd hs h
      rwa [Nat.sub_sub, Nat.add_comm 1 k]
    · rintro _ s' ⟨pd, ps, hpd, hps, hc⟩
      rw [Nat.sub_self, show UInt64.ofNat 0 = 0 from rfl, UInt64.add_zero] at hpd hps
      refine hQ pd ps s' hpd hps ⟨hc.only, fun hok => hc.copy ?_⟩
      simp only [hlt, false_iff] at hok
      omega

end Memmove

end Tvmm
