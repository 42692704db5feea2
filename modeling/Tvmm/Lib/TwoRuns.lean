import Tvmm.Lib.Exec

/-!
# Two runs of one computation

`wp₂ c Q s t` says that when `c` returns from both `s` and `t`, it returns the
same value and the two states satisfy `Q`.  It is what a statement of the form
"the result depends on nothing else" is made of.  The rules follow the shape of
the computation as the ones of `wp` do, and `wp₂_loop` also says which states
the first run reaches.
-/

namespace Exec

variable {σ ε α β ι : Type}

/-- Two runs of `c` that both return, return the same value and end in `Q`. -/
def wp₂ (c : Exec σ ε α) (Q : α → σ → σ → Prop) (s t : σ) : Prop :=
  ∀ a s' b t', c s = .ok (a, s') → c t = .ok (b, t') → a = b ∧ Q a s' t'

variable {c : Exec σ ε α} {f : α → Exec σ ε β} {Q Q' : α → σ → σ → Prop} {s t : σ}

theorem wp₂_imp (h : wp₂ c Q s t) (hQ : ∀ a s' t', Q a s' t' → Q' a s' t') :
    wp₂ c Q' s t := by
  intro a s' b t' hs ht
  obtain ⟨hab, hq⟩ := h a s' b t' hs ht
  exact ⟨hab, hQ a s' t' hq⟩

/-- The first run is the run of `c` from `s`. -/
theorem wp₂_self (h : wp₂ c Q s t) :
    wp₂ c (fun a s' t' => Q a s' t' ∧ c s = .ok (a, s')) s t := by
  intro a s' b t' hs ht
  obtain ⟨hab, hq⟩ := h a s' b t' hs ht
  exact ⟨hab, hq, hs⟩

theorem wp₂_pure {a : α} (h : Q a s t) : wp₂ (pure a : Exec σ ε α) Q s t := by
  rintro a' s' b t' hs ht
  cases hs
  cases ht
  exact ⟨rfl, h⟩

theorem wp₂_bind {Q : β → σ → σ → Prop}
    (h : wp₂ c (fun a s' t' => wp₂ (f a) Q s' t') s t) : wp₂ (c >>= f) Q s t := by
  intro b s'' b' t'' hs ht
  obtain ⟨a, s', hcs, hfs⟩ := bind_eq_ok.mp hs
  obtain ⟨a', t', hct, hft⟩ := bind_eq_ok.mp ht
  obtain ⟨rfl, hq⟩ := h a s' a' t' hcs hct
  exact hq b s'' b' t'' hfs hft

theorem wp₂_when {p : Prop} [Decidable p] {x : Exec σ ε Unit}
    {Q : Unit → σ → σ → Prop} (h : p → wp₂ x Q s t) (h' : ¬p → Q () s t) :
    wp₂ (when p x) Q s t := by
  rw [when]
  split_ifs with hp
  · exact h hp
  · exact wp₂_pure (h' hp)

/-- A relation that every run of the body keeps is kept by `forRange`. -/
theorem wp₂_forRange {n : Nat} {body : Nat → Exec σ ε Unit} {R : σ → σ → Prop}
    (h0 : R s t)
    (step : ∀ k s t, k < n → R s t → wp₂ (body k) (fun _ s' t' => R s' t') s t) :
    wp₂ (forRange n body) (fun _ s' t' => R s' t') s t := by
  suffices key : ∀ (m i : Nat) (s t : σ), i + m = n → R s t →
      wp₂ (forFrom body m i) (fun _ s' t' => R s' t') s t by
    exact key n 0 s t (Nat.zero_add n) h0
  intro m
  induction m with
  | zero =>
    intro i s t _ hR
    exact wp₂_pure hR
  | succ m ih =>
    intro i s t hi hR
    refine wp₂_bind (wp₂_imp (step i s t (by omega) hR) ?_)
    intro _ s' t' hR'
    exact ih (i + 1) s' t' (by omega) hR'

/-- Two runs of a loop make the same iterations. -/
theorem wp₂_loop {hang : ε} {body : ι → Exec σ ε (ι ⊕ β)} {Q : β → σ → σ → Prop}
    {R : σ → σ → Prop} {i₀ : ι} {s₀ : σ}
    (step : ∀ i s t, Reaches body i₀ s₀ i s → R s t → wp₂ (body i) (fun r s' t' =>
      match r with
      | .inl _ => R s' t'
      | .inr b => Q b s' t') s t) :
    ∀ (fuel : Nat) (t : σ), R s₀ t → wp₂ (loop hang body fuel i₀) Q s₀ t := by
  suffices key : ∀ (fuel : Nat) (i : ι) (s t : σ), Reaches body i₀ s₀ i s → R s t →
      wp₂ (loop hang body fuel i) Q s t by
    exact fun fuel t hR => key fuel i₀ s₀ t .start hR
  intro fuel
  induction fuel with
  | zero =>
    intro i s t _ _ a s' b t' hs _
    cases hs
  | succ fuel ih =>
    intro i s t hreach hR
    refine wp₂_bind (wp₂_imp (wp₂_self (step i s t hreach hR)) ?_)
    rintro (j | b) s' t' ⟨hq, hok⟩
    · exact ih j s' t' (hreach.next hok) hq
    · exact wp₂_pure hq

end Exec
