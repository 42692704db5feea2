import Mathlib.Tactic.Common

/-!
# Computations over a state that may stop

`Exec σ ε α` is a deterministic computation over states `σ` that either
returns a value of `α` with the next state, or stops with an `ε`.  `wp c Q E s`
is its weakest precondition with two postconditions: `Q` for a return and `E`
for a stop.  With `E := fun _ => True` it is partial correctness, with
`E := fun _ => False` it says that the computation returns.

The loops are `forRange`, which runs a body a given number of times, and
`loop`, which runs a body until it yields a result.  `loop` carries fuel and
stops with the given error when the fuel is spent; `wp_loop` takes a measure
below the fuel, so a proof that uses it never sees that error.
-/

/-- A computation that returns a value and a state, or stops. -/
def Exec (σ ε α : Type) : Type := σ → Except ε (α × σ)

namespace Exec

variable {σ ε α β ι : Type}

/-- Return `a`. -/
protected def pure (a : α) : Exec σ ε α := fun s => .ok (a, s)

/-- Run `c`, then `f` on what it returns. -/
protected def bind (c : Exec σ ε α) (f : α → Exec σ ε β) : Exec σ ε β := fun s =>
  match c s with
  | .ok (a, s') => f a s'
  | .error e => .error e

instance : Monad (Exec σ ε) where
  pure := Exec.pure
  bind := Exec.bind

/-- Stop with `e`. -/
def stop (e : ε) : Exec σ ε α := fun _ => .error e

/-- The current state. -/
def get : Exec σ ε σ := fun s => .ok (s, s)

/-- Replace the state by `f` of it. -/
def modify (f : σ → σ) : Exec σ ε Unit := fun s => .ok ((), f s)

/-- An `if` without an `else`. -/
def when (c : Prop) [Decidable c] (x : Exec σ ε Unit) : Exec σ ε Unit :=
  if c then x else pure ()

@[simp] theorem pure_apply (a : α) (s : σ) :
    (pure a : Exec σ ε α) s = .ok (a, s) := rfl

@[simp] theorem stop_apply (e : ε) (s : σ) :
    (stop e : Exec σ ε α) s = .error e := rfl

@[simp] theorem get_apply (s : σ) : (get : Exec σ ε σ) s = .ok (s, s) := rfl

@[simp] theorem modify_apply (f : σ → σ) (s : σ) :
    (modify f : Exec σ ε Unit) s = .ok ((), f s) := rfl

theorem bind_of_ok {c : Exec σ ε α} {s s' : σ} {a : α} (h : c s = .ok (a, s'))
    (f : α → Exec σ ε β) : (c >>= f) s = f a s' := by
  show (match c s with
    | .ok (a, s') => f a s'
    | .error e => .error e) = f a s'
  rw [h]

theorem bind_of_error {c : Exec σ ε α} {s : σ} {e : ε} (h : c s = .error e)
    (f : α → Exec σ ε β) : (c >>= f) s = .error e := by
  show (match c s with
    | .ok (a, s') => f a s'
    | .error e => .error e) = .error e
  rw [h]

/-- A run returns one value. -/
theorem eq_of_ok {c : Exec σ ε α} {s s' s'' : σ} {a b : α} (ha : c s = .ok (a, s'))
    (hb : c s = .ok (b, s'')) : a = b := by
  rw [ha] at hb
  cases hb
  rfl

/-- A sequence returns exactly when its first part returns and its second part
returns from there. -/
theorem bind_eq_ok {c : Exec σ ε α} {f : α → Exec σ ε β} {s s'' : σ} {b : β} :
    (c >>= f) s = .ok (b, s'') ↔
      ∃ a s', c s = .ok (a, s') ∧ f a s' = .ok (b, s'') := by
  constructor
  · intro h
    cases hc : c s with
    | error e =>
      rw [bind_of_error hc] at h
      cases h
    | ok p => exact ⟨p.1, p.2, rfl, by rwa [bind_of_ok hc] at h⟩
  · rintro ⟨a, s', hc, hf⟩
    rw [bind_of_ok hc, hf]

instance : LawfulMonad (Exec σ ε) := LawfulMonad.mk' (Exec σ ε)
  (by
    intro α c
    funext s
    show (match c s with
      | .ok (a, s') => (.ok (a, s') : Except ε (α × σ))
      | .error e => .error e) = c s
    cases c s <;> rfl)
  (fun _ _ => rfl)
  (by
    intro α β γ c f g
    funext s
    cases hc : c s with
    | error e =>
      rw [bind_of_error (bind_of_error hc f), bind_of_error hc]
    | ok p =>
      rw [bind_of_ok hc]
      show (match (c >>= f) s with
        | .ok (a, s') => g a s'
        | .error e => .error e) = (f p.1 >>= g) p.2
      rw [bind_of_ok hc]
      rfl)

/-! ## The weakest precondition -/

/-- `c` run from `s` either returns into `Q` or stops into `E`. -/
def wp (c : Exec σ ε α) (Q : α → σ → Prop) (E : ε → Prop) (s : σ) : Prop :=
  match c s with
  | .ok (a, s') => Q a s'
  | .error e => E e

variable {Q Q' : α → σ → Prop} {E E' : ε → Prop} {s : σ}

theorem wp_of_ok {c : Exec σ ε α} {a : α} {s' : σ} (h : c s = .ok (a, s'))
    (hQ : Q a s') : wp c Q E s := by
  rw [wp, h]
  exact hQ

/-- What a weakest precondition says about a run that returned. -/
theorem wp_ok {c : Exec σ ε α} (hw : wp c Q E s) {a : α} {s' : σ}
    (h : c s = .ok (a, s')) : Q a s' := by
  rw [wp, h] at hw
  exact hw

/-- What a weakest precondition says about a run that stopped. -/
theorem wp_error {c : Exec σ ε α} (hw : wp c Q E s) {e : ε}
    (h : c s = .error e) : E e := by
  rw [wp, h] at hw
  exact hw

/-- Partial correctness, from what every returning run satisfies. -/
theorem wp_of_forall {c : Exec σ ε α}
    (h : ∀ a s', c s = .ok (a, s') → Q a s') :
    wp c Q (fun _ => True) s := by
  rw [wp]
  split
  · rename_i a s' hc
    exact h a s' hc
  · trivial

/-- A computation that cannot stop returns. -/
theorem exists_ok_of_wp {c : Exec σ ε α} (hw : wp c Q (fun _ => False) s) :
    ∃ a s', c s = .ok (a, s') ∧ Q a s' := by
  rw [wp] at hw
  split at hw
  · rename_i a s' hc
    exact ⟨a, s', hc, hw⟩
  · exact hw.elim

theorem wp_mono {c : Exec σ ε α} (hw : wp c Q E s)
    (hQ : ∀ a s', Q a s' → Q' a s') (hE : ∀ e, E e → E' e) :
    wp c Q' E' s := by
  rw [wp] at hw ⊢
  split at hw
  · exact hQ _ _ hw
  · exact hE _ hw

theorem wp_imp {c : Exec σ ε α} (hw : wp c Q E s)
    (hQ : ∀ a s', Q a s' → Q' a s') : wp c Q' E s :=
  wp_mono hw hQ fun _ h => h

@[simp] theorem wp_pure {a : α} : wp (pure a) Q E s ↔ Q a s := Iff.rfl

@[simp] theorem wp_stop {e : ε} : wp (stop e) Q E s ↔ E e := Iff.rfl

@[simp] theorem wp_get {Q : σ → σ → Prop} : wp get Q E s ↔ Q s s := Iff.rfl

@[simp] theorem wp_modify {f : σ → σ} {Q : Unit → σ → Prop} :
    wp (modify f) Q E s ↔ Q () (f s) := Iff.rfl

theorem wp_bind {c : Exec σ ε α} {f : α → Exec σ ε β} {Q : β → σ → Prop} :
    wp (c >>= f) Q E s ↔ wp c (fun a s' => wp (f a) Q E s') E s := by
  cases hc : c s with
  | error e => rw [wp, wp, bind_of_error hc, hc]
  | ok p => rw [wp, wp, bind_of_ok hc, hc]; rfl

/-- `c` returns `a`, and the program goes on with it. -/
theorem wp_bind_of_ok {c : Exec σ ε α} {f : α → Exec σ ε β} {Q : β → σ → Prop} {a : α}
    {s' : σ} (h : c s = .ok (a, s')) (hf : wp (f a) Q E s') : wp (c >>= f) Q E s :=
  wp_bind.mpr (wp_of_ok h hf)

theorem wp_when {c : Prop} [Decidable c] {x : Exec σ ε Unit}
    {Q : Unit → σ → Prop} (h : c → wp x Q E s) (h' : ¬c → Q () s) :
    wp (when c x) Q E s := by
  rw [when]
  split_ifs with hc
  · exact h hc
  · exact h' hc

/-- Two weakest preconditions of one run hold together. -/
theorem wp_and {c : Exec σ ε α} (h : wp c Q E s) (h' : wp c Q' E' s) :
    wp c (fun a s' => Q a s' ∧ Q' a s') (fun e => E e ∧ E' e) s := by
  rw [wp] at h h' ⊢
  split at h <;> rename_i hc <;> rw [hc] at h' <;> exact ⟨h, h'⟩

/-- The run of which a weakest precondition speaks. -/
theorem wp_self {c : Exec σ ε α} (h : wp c Q E s) :
    wp c (fun a s' => Q a s' ∧ c s = .ok (a, s')) E s := by
  have hrun : wp c (fun a s' => c s = .ok (a, s')) (fun _ => True) s :=
    wp_of_forall fun _ _ h => h
  exact wp_mono (wp_and h hrun) (fun _ _ h => h) fun _ h => h.1

/-! ## Loops -/

/-- Run `body i`, `body (i + 1)`, and so on, `n` times. -/
def forFrom (body : Nat → Exec σ ε Unit) : Nat → Nat → Exec σ ε Unit
  | 0, _ => pure ()
  | n + 1, i => do
      body i
      forFrom body n (i + 1)

/-- Run `body 0` up to `body (n - 1)`. -/
def forRange (n : Nat) (body : Nat → Exec σ ε Unit) : Exec σ ε Unit :=
  forFrom body n 0

private theorem wp_forFrom {body : Nat → Exec σ ε Unit} {I : Nat → σ → Prop}
    {top : Nat} (step : ∀ k s, k < top → I k s →
      wp (body k) (fun _ s' => I (k + 1) s') E s) :
    ∀ (n i : Nat) (s : σ), i + n = top → I i s →
      wp (forFrom body n i) (fun _ s' => I top s') E s := by
  intro n
  induction n with
  | zero =>
    intro i s hn hI
    rw [Nat.add_zero] at hn
    subst hn
    exact hI
  | succ n ih =>
    intro i s hn hI
    rw [forFrom, wp_bind]
    refine wp_imp (step i s (by omega) hI) ?_
    intro _ s' hI'
    exact ih (i + 1) s' (by omega) hI'

/-- The invariant rule of `forRange`. -/
theorem wp_forRange {n : Nat} {body : Nat → Exec σ ε Unit}
    (I : Nat → σ → Prop) (h0 : I 0 s)
    (step : ∀ k s, k < n → I k s → wp (body k) (fun _ s' => I (k + 1) s') E s) :
    wp (forRange n body) (fun _ s' => I n s') E s :=
  wp_forFrom step n 0 s (Nat.zero_add n) h0

/-- Run `body` on every element of a list. -/
def forEach (body : α → Exec σ ε Unit) : List α → Exec σ ε Unit
  | [] => pure ()
  | a :: as => do
      body a
      forEach body as

/-- The invariant rule of `forEach`.  The invariant speaks of the part of the
list that is done. -/
theorem wp_forEach {xs : List α} {body : α → Exec σ ε Unit}
    (I : List α → σ → Prop) (h0 : I [] s)
    (step : ∀ pre a s, pre ++ [a] <+: xs → I pre s →
      wp (body a) (fun _ s' => I (pre ++ [a]) s') E s) :
    wp (forEach body xs) (fun _ s' => I xs s') E s := by
  suffices key : ∀ (post pre : List α) (s : σ), pre ++ post = xs → I pre s →
      wp (forEach body post) (fun _ s' => I xs s') E s by
    exact key xs [] s rfl h0
  intro post
  induction post with
  | nil =>
    intro pre s hpre hI
    rw [List.append_nil] at hpre
    rw [forEach, wp_pure, ← hpre]
    exact hI
  | cons a post ih =>
    intro pre s hpre hI
    have hpre' : pre ++ [a] ++ post = xs := by
      rw [← hpre, List.append_assoc]
      rfl
    rw [forEach, wp_bind]
    refine wp_imp (step pre a s ⟨post, hpre'⟩ hI) ?_
    intro _ s' hI'
    exact ih (pre ++ [a]) s' hpre' hI'

/-- Run `body` from `i` until it yields a result, at most `fuel` times. -/
def loop (hang : ε) (body : ι → Exec σ ε (ι ⊕ β)) : Nat → ι → Exec σ ε β
  | 0, _ => stop hang
  | fuel + 1, i => do
      match ← body i with
      | .inl j => loop hang body fuel j
      | .inr b => pure b

/-- The invariant and measure rule of `loop`.  The measure stays below the
fuel, so the loop is never cut short. -/
theorem wp_loop {hang : ε} {body : ι → Exec σ ε (ι ⊕ β)} {Q : β → σ → Prop}
    (I : ι → σ → Prop) (μ : ι → Nat)
    (step : ∀ i s, I i s → wp (body i) (fun r s' =>
      match r with
      | .inl j => I j s' ∧ μ j < μ i
      | .inr b => Q b s') E s) :
    ∀ (fuel : Nat) (i : ι) (s : σ), I i s → μ i < fuel →
      wp (loop hang body fuel i) Q E s := by
  intro fuel
  induction fuel with
  | zero =>
    intro i s _ hμ
    exact absurd hμ (Nat.not_lt_zero _)
  | succ fuel ih =>
    intro i s hI hμ
    rw [loop, wp_bind]
    refine wp_imp (step i s hI) ?_
    intro r s' hr
    cases r with
    | inl j => exact ih j s' hr.1 (by omega)
    | inr b => exact hr

/-- The invariant rule of `loop` for partial correctness, where the loop may
also spend its fuel. -/
theorem wp_loop_partial {hang : ε} {body : ι → Exec σ ε (ι ⊕ β)}
    {Q : β → σ → Prop} (I : ι → σ → Prop) (hhang : E hang)
    (step : ∀ i s, I i s → wp (body i) (fun r s' =>
      match r with
      | .inl j => I j s'
      | .inr b => Q b s') E s) :
    ∀ (fuel : Nat) (i : ι) (s : σ), I i s →
      wp (loop hang body fuel i) Q E s := by
  intro fuel
  induction fuel with
  | zero =>
    intro i s _
    exact hhang
  | succ fuel ih =>
    intro i s hI
    rw [loop, wp_bind]
    refine wp_imp (step i s hI) ?_
    intro r s' hr
    cases r with
    | inl j => exact ih j s' hr
    | inr b => exact hr

/-- The loop at `i` in the state `s` comes to `j` in the state `s'`. -/
inductive Reaches (body : ι → Exec σ ε (ι ⊕ β)) (i : ι) (s : σ) : ι → σ → Prop
  | start : Reaches body i s i s
  | next {j k : ι} {s' s'' : σ} (h : Reaches body i s j s')
      (hstep : body j s' = .ok (.inl k, s'')) : Reaches body i s k s''

/-- `wp_loop` for an invariant that the loop keeps in the states that it
reaches. -/
theorem wp_loop_reaches {hang : ε} {body : ι → Exec σ ε (ι ⊕ β)} {Q : β → σ → Prop}
    (I : ι → σ → Prop) (μ : ι → Nat) {fuel : Nat} {i₀ : ι} {s₀ : σ}
    (step : ∀ i s, Reaches body i₀ s₀ i s → I i s → wp (body i) (fun r s' =>
      match r with
      | .inl j => I j s' ∧ μ j < μ i
      | .inr b => Q b s') E s)
    (h0 : I i₀ s₀) (hfuel : μ i₀ < fuel) : wp (loop hang body fuel i₀) Q E s₀ := by
  refine wp_loop (fun i s => Reaches body i₀ s₀ i s ∧ I i s) μ ?_ fuel i₀ s₀
    ⟨.start, h0⟩ hfuel
  rintro i s ⟨hreach, hI⟩
  refine wp_imp (wp_self (step i s hreach hI)) ?_
  rintro (j | b) s' ⟨hstep, hok⟩
  · exact ⟨⟨hreach.next hok, hstep.1⟩, hstep.2⟩
  · exact hstep

/-! ## A part of the state -/

/-- Run `c` on a part of the state. -/
def zoom {τ : Type} (get : τ → σ) (set : τ → σ → τ) (c : Exec σ ε α) : Exec τ ε α := fun t =>
  match c (get t) with
  | .ok (a, s) => .ok (a, set t s)
  | .error e => .error e

theorem wp_zoom {τ : Type} {get : τ → σ} {set : τ → σ → τ} {c : Exec σ ε α}
    {Q : α → τ → Prop} {t : τ} :
    wp (zoom get set c) Q E t ↔ wp c (fun a s => Q a (set t s)) E (get t) := by
  rw [wp, wp, zoom]
  cases c (get t) <;> rfl

theorem zoom_eq_ok {τ : Type} {get : τ → σ} {set : τ → σ → τ} {c : Exec σ ε α} {t t' : τ}
    {a : α} : zoom get set c t = .ok (a, t') ↔ ∃ s, c (get t) = .ok (a, s) ∧ t' = set t s := by
  rw [zoom]
  cases c (get t) with
  | error e =>
    refine iff_of_false (fun h => ?_) ?_
    · cases h
    · rintro ⟨s, h, -⟩
      cases h
  | ok p =>
    constructor
    · intro h
      cases h
      exact ⟨p.2, rfl, rfl⟩
    · rintro ⟨s, h, rfl⟩
      cases h
      rfl

theorem zoom_of_ok {τ : Type} {get : τ → σ} {set : τ → σ → τ} {c : Exec σ ε α} {t : τ} {a : α}
    {s : σ} (h : c (get t) = .ok (a, s)) : zoom get set c t = .ok (a, set t s) :=
  zoom_eq_ok.mpr ⟨s, h, rfl⟩

/-! ## Programs that only read -/

/-- A run of `c` that returns leaves the state as it was. -/
def ReadOnly (c : Exec σ ε α) : Prop :=
  ∀ s a s', c s = .ok (a, s') → s' = s

namespace ReadOnly

theorem pure (a : α) : ReadOnly (pure a : Exec σ ε α) := by
  intro s b s' h
  cases h
  rfl

theorem stop (e : ε) : ReadOnly (Exec.stop e : Exec σ ε α) := by
  intro s b s' h
  cases h

theorem bind {c : Exec σ ε α} {f : α → Exec σ ε β} (hc : ReadOnly c)
    (hf : ∀ a, ReadOnly (f a)) : ReadOnly (c >>= f) := by
  intro s b s'' h
  obtain ⟨a, s', hca, hfa⟩ := bind_eq_ok.mp h
  rw [hf a s' b s'' hfa, hc s a s' hca]

theorem when {p : Prop} [Decidable p] {c : Exec σ ε Unit} (hc : ReadOnly c) :
    ReadOnly (Exec.when p c) := by
  rw [Exec.when]
  split_ifs
  · exact hc
  · exact .pure ()

theorem loop {hang : ε} {body : ι → Exec σ ε (ι ⊕ β)} (h : ∀ i, ReadOnly (body i))
    (fuel : Nat) (i : ι) : ReadOnly (loop hang body fuel i) := by
  intro s b s'
  refine wp_ok ( wp_loop_partial (E := fun _ => True) (Q := fun _ s' => s' = s)
    (fun _ s' => s' = s) trivial ?_ fuel i s rfl)
  rintro j s' rfl
  refine wp_of_forall fun r s'' hr => ?_
  rw [h j s' r s'' hr]
  cases r <;> rfl

end ReadOnly

/-! ## Equal programs -/

theorem forRange_congr {n : Nat} {body body' : Nat → Exec σ ε Unit}
    (h : ∀ k, k < n → body k = body' k) : forRange n body = forRange n body' := by
  suffices key : ∀ m i, i + m = n → forFrom body m i = forFrom body' m i by
    exact key n 0 (Nat.zero_add n)
  intro m
  induction m with
  | zero => exact fun _ _ => rfl
  | succ m ih =>
    intro i hi
    rw [forFrom, forFrom, h i (by omega), ih (i + 1) (by omega)]

theorem forEach_congr {body body' : α → Exec σ ε Unit} {xs : List α}
    (h : ∀ a ∈ xs, body a = body' a) : forEach body xs = forEach body' xs := by
  induction xs with
  | nil => rfl
  | cons a as ih =>
    rw [forEach, forEach, h a List.mem_cons_self,
      ih fun b hb => h b (List.mem_cons_of_mem _ hb)]

/-- Two loops do the same if their bodies do wherever the first one comes to. -/
theorem loop_congr_of_reached {hang : ε} {body body' : ι → Exec σ ε (ι ⊕ β)}
    (P : ι → σ → Prop) (h : ∀ i s, P i s → body i s = body' i s)
    (step : ∀ i s j s', P i s → body i s = .ok (.inl j, s') → P j s') :
    ∀ (fuel : Nat) (i : ι) (s : σ), P i s →
      loop hang body fuel i s = loop hang body' fuel i s := by
  intro fuel
  induction fuel with
  | zero => exact fun _ _ _ => rfl
  | succ fuel ih =>
    intro i s hi
    rw [loop, loop]
    cases hb : body i s with
    | error e => rw [bind_of_error hb, bind_of_error (by rw [← h i s hi, hb])]
    | ok p =>
      obtain ⟨r, s'⟩ := p
      rw [bind_of_ok hb, bind_of_ok (show body' i s = .ok (r, s') by rw [← h i s hi, hb])]
      cases r with
      | inl j => exact ih j s' (step i s j s' hi hb)
      | inr b => rfl

/-- Two loops are equal if their bodies are. -/
theorem loop_congr {hang : ε} {body body' : ι → Exec σ ε (ι ⊕ β)} (P : ι → Prop)
    (h : ∀ i, P i → body i = body' i)
    (step : ∀ i s, P i → wp (body i) (fun r _ => ∀ j, r = .inl j → P j) (fun _ => True) s)
    (fuel : Nat) (i : ι) (hi : P i) : loop hang body fuel i = loop hang body' fuel i := by
  funext s
  refine loop_congr_of_reached (fun i _ => P i) (fun i s hi => congrFun (h i hi) s) ?_ fuel i s hi
  exact fun i s j s' hi hb => wp_ok (step i s hi) hb j rfl

/-- One turn of a loop that goes on. -/
theorem loop_succ_of_ok {hang : ε} {body : ι → Exec σ ε (ι ⊕ β)} {fuel : Nat} {i j : ι}
    {s s' : σ} (h : body i s = .ok (.inl j, s')) :
    loop hang body (fuel + 1) i s = loop hang body fuel j s' := by
  rw [loop, bind_of_ok h]

/-- A turn in which the body stops. -/
theorem loop_succ_of_error {hang : ε} {body : ι → Exec σ ε (ι ⊕ β)} {fuel : Nat} {i : ι}
    {s : σ} {e : ε} (h : body i s = .error e) :
    loop hang body (fuel + 1) i s = .error e := by
  rw [loop, bind_of_error h]

/-! ## Turns of a loop -/

section Turns

variable {hang : ε} {body : ι → Exec σ ε (ι ⊕ β)} {N : Nat}

/-- The loop at `i` in the state `s` comes to `j` in the state `s'` after `n` turns. -/
inductive ReachesIn (body : ι → Exec σ ε (ι ⊕ β)) (i : ι) (s : σ) : Nat → ι → σ → Prop
  | start : ReachesIn body i s 0 i s
  | next {n : Nat} {j k : ι} {s' s'' : σ} (h : ReachesIn body i s n j s')
      (hstep : body j s' = .ok (.inl k, s'')) : ReachesIn body i s (n + 1) k s''

/-- What the loop still has to do after `n` turns. -/
theorem ReachesIn.loop_eq {n : Nat} {i j : ι} {s s' : σ} (h : ReachesIn body i s n j s')
    (fuel : Nat) : loop hang body (fuel + n) i s = loop hang body fuel j s' := by
  induction h generalizing fuel with
  | start => rfl
  | @next n j k s' s'' _ hstep ih =>
    rw [Nat.add_comm n 1, ← Nat.add_assoc, ih (fuel + 1), loop_succ_of_ok hstep]

/-- The rule of `loop` for a loop that makes at most `N` turns: there is only the last
turn to look at. -/
theorem wp_loop_of_turns {Q : β → σ → Prop} {i : ι} {s : σ}
    (hturns : ∀ n j s', ReachesIn body i s n j s' → n ≤ N)
    (hlast : ∀ n j s', ReachesIn body i s n j s' →
      wp (body j) (fun r s'' => ∀ b, r = .inr b → Q b s'') E s')
    {fuel : Nat} (hfuel : N < fuel) : wp (loop hang body fuel i) Q E s := by
  suffices key : ∀ (fuel n : Nat) (j : ι) (s' : σ), ReachesIn body i s n j s' →
      N < fuel + n → wp (loop hang body fuel j) Q E s' by
    exact key fuel 0 i s .start hfuel
  intro fuel
  induction fuel with
  | zero =>
    intro n j s' hreach hlt
    have := hturns n j s' hreach
    omega
  | succ fuel ih =>
    intro n j s' hreach hlt
    rw [loop, wp_bind]
    refine wp_imp (wp_self (hlast n j s' hreach)) ?_
    intro r s'' hr
    cases r with
    | inl k => exact ih (n + 1) k s'' (hreach.next hr.2) (by omega)
    | inr b => exact hr.1 b rfl

/-- More fuel than there are turns makes no difference. -/
theorem loop_eq_of_turns {i : ι} {s : σ}
    (hturns : ∀ n j s', ReachesIn body i s n j s' → n ≤ N) {fuel : Nat} (hfuel : N < fuel) :
    loop hang body fuel i s = loop hang body (N + 1) i s := by
  have hrun : wp (loop hang body fuel i)
      (fun b s' => loop hang body (N + 1) i s = .ok (b, s'))
      (fun e => loop hang body (N + 1) i s = .error e) s := by
    refine wp_loop_of_turns hturns ?_ hfuel
    intro n j s' hreach
    have hn := hturns n j s' hreach
    have heq : loop hang body (N + 1) i s = loop hang body (N - n + 1) j s' := by
      rw [← hreach.loop_eq, show N - n + 1 + n = N + 1 by omega]
    cases hb : body j s' with
    | error e =>
      rw [wp, hb]
      exact heq.trans (loop_succ_of_error hb)
    | ok r =>
      refine wp_of_ok hb ?_
      intro b hr
      rw [heq, loop, bind_of_ok hb, hr]
      rfl
  cases hloop : loop hang body fuel i s with
  | error e => exact (wp_error hrun hloop).symm
  | ok r => exact (wp_ok hrun hloop).symm

end Turns

-- A goal `wp c Q E s` at concrete inputs must not be evaluated by accident.
attribute [irreducible] wp

end Exec
