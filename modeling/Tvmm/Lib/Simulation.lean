import Tvmm.Lib.Exec

/-!
# Two computations that end alike

`EndsAlike c d Q s t` says that `c` from `s` and `d` from `t` both return, with values
and states that satisfy `Q`, or both stop with the same error.  It connects two
models of one program that keep their data in different ways: the rules follow the
shape of the two programs, and `EndsAlike.wp` carries what holds of the second one over
to the first.
-/

namespace Exec

variable {σ τ ε α β γ δ ι κ : Type}

/-- `c` from `s` and `d` from `t` both return into `Q`, or both stop with one error. -/
inductive EndsAlike (c : Exec σ ε α) (d : Exec τ ε β) (Q : α → σ → β → τ → Prop) (s : σ)
    (t : τ) : Prop
  | ok {a : α} {s' : σ} {b : β} {t' : τ} (hc : c s = .ok (a, s')) (hd : d t = .ok (b, t'))
      (hQ : Q a s' b t')
  | error {e : ε} (hc : c s = .error e) (hd : d t = .error e)

namespace EndsAlike

variable {c : Exec σ ε α} {d : Exec τ ε β} {Q : α → σ → β → τ → Prop} {s : σ} {t : τ}

/-- One computation in one state. -/
theorem self (c : Exec σ ε α) (s : σ) :
    EndsAlike c c (fun a s' b t' => a = b ∧ s' = t') s s := by
  cases hc : c s with
  | error e => exact .error hc hc
  | ok r => exact .ok hc hc ⟨rfl, rfl⟩

theorem pure {a : α} {b : β} (h : Q a s b t) :
    EndsAlike (pure a : Exec σ ε α) (pure b : Exec τ ε β) Q s t :=
  .ok rfl rfl h

theorem stop (e : ε) : EndsAlike (stop e : Exec σ ε α) (stop e : Exec τ ε β) Q s t :=
  .error rfl rfl

/-- From a weakest precondition of `c` that names the run of `d`. -/
theorem of_wp (h : Exec.wp c (fun a s' => ∃ b t', d t = .ok (b, t') ∧ Q a s' b t')
    (fun e => d t = .error e) s) : EndsAlike c d Q s t := by
  cases hc : c s with
  | error e => exact .error hc (wp_error h hc)
  | ok r =>
    obtain ⟨b, t', hd, hQ⟩ := wp_ok h hc
    exact .ok hc hd hQ

theorem imp {Q' : α → σ → β → τ → Prop} (h : EndsAlike c d Q s t)
    (hQ : ∀ a s' b t', Q a s' b t' → Q' a s' b t') : EndsAlike c d Q' s t := by
  cases h with
  | error hc hd => exact .error hc hd
  | ok hc hd h => exact .ok hc hd (hQ _ _ _ _ h)

/-- The first one takes a step of its own. -/
theorem step_left {a : α} {s' : σ} {f : α → Exec σ ε γ} {R : γ → σ → β → τ → Prop}
    (hc : c s = .ok (a, s')) (h : EndsAlike (f a) d R s' t) : EndsAlike (c >>= f) d R s t := by
  cases h with
  | error hf hd => exact .error ((bind_of_ok hc f).trans hf) hd
  | ok hf hd hR => exact .ok ((bind_of_ok hc f).trans hf) hd hR

theorem bind {f : α → Exec σ ε γ} {g : β → Exec τ ε δ} {R : γ → σ → δ → τ → Prop}
    (h : EndsAlike c d Q s t)
    (hf : ∀ a s' b t', Q a s' b t' → EndsAlike (f a) (g b) R s' t') :
    EndsAlike (c >>= f) (d >>= g) R s t := by
  cases h with
  | error hc hd => exact .error (bind_of_error hc f) (bind_of_error hd g)
  | ok hc hd hQ =>
    cases hf _ _ _ _ hQ with
    | error hfc hgd => exact .error ((bind_of_ok hc f).trans hfc) ((bind_of_ok hd g).trans hgd)
    | ok hfc hgd hR => exact .ok ((bind_of_ok hc f).trans hfc) ((bind_of_ok hd g).trans hgd) hR

/-- Both begin with the same computation. -/
theorem bind_self {c : Exec σ ε α} {f : α → Exec σ ε γ} {g : α → Exec σ ε δ}
    {R : γ → σ → δ → σ → Prop} (hf : ∀ a s', EndsAlike (f a) (g a) R s' s') :
    EndsAlike (c >>= f) (c >>= g) R s s := by
  refine (self c s).bind ?_
  rintro a s' b t' ⟨rfl, rfl⟩
  exact hf a s'

/-- Two loops make their turns together. -/
theorem loop {hang : ε} {body : ι → Exec σ ε (ι ⊕ α)} {body' : κ → Exec τ ε (κ ⊕ β)}
    (I : ι → σ → κ → τ → Prop)
    (step : ∀ i s j t, I i s j t → EndsAlike (body i) (body' j)
      (fun r s' r' t' => Sum.LiftRel (I · s' · t') (Q · s' · t') r r') s t) :
    ∀ (fuel : Nat) (i : ι) (s : σ) (j : κ) (t : τ), I i s j t →
      EndsAlike (loop hang body fuel i) (loop hang body' fuel j) Q s t := by
  intro fuel
  induction fuel with
  | zero => exact fun _ _ _ _ _ => .stop hang
  | succ fuel ih =>
    intro i s j t hI
    refine (step i s j t hI).bind ?_
    intro r s' r' t' hr
    cases hr with
    | inl hI' => exact ih _ s' _ t' hI'
    | inr hQ => exact .pure hQ

/-- What holds of the runs of `d` holds of the runs of `c`. -/
theorem wp {P : β → τ → Prop} {E : ε → Prop} (h : EndsAlike c d Q s t)
    (hd : wp d P E t) : wp c (fun a s' => ∃ b t', Q a s' b t' ∧ P b t') E s := by
  cases h with
  | error hc hd' =>
    unfold Exec.wp
    rw [hc]
    exact wp_error hd hd'
  | ok hc hd' hQ => exact wp_of_ok hc ⟨_, _, hQ, wp_ok hd hd'⟩

end EndsAlike

end Exec
