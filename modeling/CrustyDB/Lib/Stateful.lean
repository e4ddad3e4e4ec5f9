import Mathlib

/-! # Postconditions of programs with a state

A program of `EStateM ε σ` changes a state and returns a value or fails; what it did to the
state before it failed stays done.  `Sat x s Q E` says what holds after `x` is run from `s`: `Q`
of the value and the state when it returns, `E` of the error and the state when it fails.

The rules follow the program text: `Sat.bind` for a sequence, `Sat.forM` for a loop with an
invariant, and one rule for each primitive.  A function gets one theorem of this form, and the
proofs of its callers use the theorem in place of its body.

`Within R x` says that every run of `x` stays within a preorder of the states, whether it returns
or fails.  `Alike` compares two runs from related states, with rules of the same form. -/

namespace Stateful

variable {ε σ α β : Type}

/-- What holds after a run of `x` from `s`. -/
def Sat (x : EStateM ε σ α) (s : σ) (Q : α → σ → Prop) (E : ε → σ → Prop) : Prop :=
  match x s with
  | .ok a s' => Q a s'
  | .error e s' => E e s'

variable {x : EStateM ε σ α} {f : α → EStateM ε σ β} {s s' : σ}

theorem bind_of_ok {a : α} (h : x s = .ok a s') : (x >>= f) s = f a s' := by
  have hbind : (x >>= f) s = match x s with
      | .ok a t => f a t
      | .error e t => .error e t := rfl
  rw [hbind, h]

theorem bind_of_error {e : ε} (h : x s = .error e s') : (x >>= f) s = .error e s' := by
  have hbind : (x >>= f) s = match x s with
      | .ok a t => f a t
      | .error e t => .error e t := rfl
  rw [hbind, h]

theorem of_bind_ok {b : β} (h : (x >>= f) s = .ok b s') :
    ∃ a s₁, x s = .ok a s₁ ∧ f a s₁ = .ok b s' := by
  cases hx : x s with
  | error e t =>
    rw [bind_of_error hx] at h
    cases h
  | ok a t =>
    rw [bind_of_ok hx] at h
    exact ⟨a, t, rfl, h⟩

namespace Sat

variable {x : EStateM ε σ α} {f : α → EStateM ε σ β} {s s' : σ} {Q Q' : α → σ → Prop}
  {R : β → σ → Prop} {E E' : ε → σ → Prop} {a : α} {e : ε}

theorem of_ok (h : x s = .ok a s') (hQ : Q a s') : Sat x s Q E := by
  unfold Sat
  rw [h]
  exact hQ

theorem of_error (h : x s = .error e s') (hE : E e s') : Sat x s Q E := by
  unfold Sat
  rw [h]
  exact hE

theorem ok (h : Sat x s Q E) (hx : x s = .ok a s') : Q a s' := by
  unfold Sat at h
  rw [hx] at h
  exact h

theorem error (h : Sat x s Q E) (hx : x s = .error e s') : E e s' := by
  unfold Sat at h
  rw [hx] at h
  exact h

theorem mono (h : Sat x s Q E) (hQ : ∀ a t, Q a t → Q' a t) (hE : ∀ e t, E e t → E' e t) :
    Sat x s Q' E' := by
  unfold Sat at h ⊢
  cases hx : x s with
  | ok a t =>
    rw [hx] at h
    exact hQ a t h
  | error e t =>
    rw [hx] at h
    exact hE e t h

theorem pure (h : Q a s) : Sat (Pure.pure a) s Q E := h

theorem throw (h : E e s) : Sat (MonadExcept.throw e : EStateM ε σ α) s Q E := h

theorem get {Q : σ → σ → Prop} (h : Q s s) : Sat (MonadState.get : EStateM ε σ σ) s Q E := h

theorem modify {g : σ → σ} {Q : Unit → σ → Prop} (h : Q () (g s)) :
    Sat (modify g : EStateM ε σ Unit) s Q E := h

/-- A sequence: what holds after the first program has to suffice for the second. -/
theorem bind (h : Sat x s (fun a t => Sat (f a) t R E) E) : Sat (x >>= f) s R E := by
  unfold Sat at h ⊢
  cases hx : x s with
  | ok a t =>
    rw [hx] at h
    rw [bind_of_ok hx]
    exact h
  | error e t =>
    rw [hx] at h
    rw [bind_of_error hx]
    exact h

/-- A loop over a list: the invariant may speak of the elements the loop is done with. -/
theorem forM_done {ι : Type} {g : ι → EStateM ε σ PUnit} {I : List ι → σ → Prop} (l : List ι)
    (hs : I [] s)
    (h : ∀ done i rest, l = done ++ i :: rest → ∀ t, I done t →
      Sat (g i) t (fun _ t' => I (done ++ [i]) t') E) :
    Sat (l.forM g) s (fun _ t => I l t) E := by
  induction l generalizing s I with
  | nil => exact hs
  | cons i l ih =>
    refine bind (x := g i) (f := fun _ => l.forM g) ?_
    refine (h [] i l rfl s hs).mono (fun _ t ht => ?_) (fun _ _ ht => ht)
    refine ih (I := fun done => I (i :: done)) ht (fun done j rest hl t' ht' => ?_)
    exact h (i :: done) j rest (by rw [hl]; rfl) t' ht'

/-- A loop over a list keeps what each of its rounds keeps. -/
theorem forM {ι : Type} {g : ι → EStateM ε σ PUnit} {I : σ → Prop} (l : List ι) (hs : I s)
    (h : ∀ i ∈ l, ∀ t, I t → Sat (g i) t (fun _ t' => I t') E) :
    Sat (l.forM g) s (fun _ t => I t) E := by
  refine forM_done (I := fun _ => I) l hs (fun done i rest hl t ht => h i ?_ t ht)
  rw [hl]
  exact List.mem_append_right done List.mem_cons_self

/-- Two postconditions of one run. -/
theorem and (h : Sat x s Q E) (h' : Sat x s Q' E') :
    Sat x s (fun a t => Q a t ∧ Q' a t) (fun e t => E e t ∧ E' e t) := by
  unfold Sat at h h' ⊢
  cases hx : x s with
  | ok a t =>
    rw [hx] at h h'
    exact ⟨h, h'⟩
  | error e t =>
    rw [hx] at h h'
    exact ⟨h, h'⟩

end Sat

/-! ### Runs within a preorder -/

/-- The state after any run of `x` is related to the state before. -/
def Within (R : σ → σ → Prop) (x : EStateM ε σ α) : Prop :=
  ∀ s, Sat x s (fun _ t => R s t) (fun _ t => R s t)

namespace Within

variable {R : σ → σ → Prop} {x : EStateM ε σ α} {f : α → EStateM ε σ β}

theorem modify {g : σ → σ} (h : ∀ s, R s (g s)) : Within R (modify g : EStateM ε σ Unit) := h

/-- The program that follows may depend on the state. -/
theorem get_bind {f : σ → EStateM ε σ β}
    (hf : ∀ s, Sat (f s) s (fun _ t => R s t) (fun _ t => R s t)) :
    Within R (MonadState.get >>= f) := fun s => Sat.bind (Sat.get (hf s))

variable [IsPreorder σ R]

theorem pure (a : α) : Within R (Pure.pure a : EStateM ε σ α) := fun s => refl_of R s

theorem bind (hx : Within R x) (hf : ∀ a, Within R (f a)) : Within R (x >>= f) := by
  refine fun s => Sat.bind ((hx s).mono (fun a t hst => ?_) (fun _ _ h => h))
  exact (hf a t).mono (fun _ _ htu => trans_of R hst htu) (fun _ _ htu => trans_of R hst htu)

theorem forM {ι : Type} {g : ι → EStateM ε σ PUnit} (hg : ∀ i, Within R (g i)) (l : List ι) :
    Within R (l.forM g) := by
  induction l with
  | nil => exact pure _
  | cons i l ih => exact bind (f := fun _ => l.forM g) (hg i) (fun _ => ih)

end Within

/-! ### Two runs -/

variable {τ : Type}

/-- Two runs from related states: both return related values or both fail with the same error, and
the states they leave are related. -/
def Alike (A : α → β → Prop) (S : σ → τ → Prop) (x : EStateM ε σ α) (y : EStateM ε τ β) (s : σ)
    (t : τ) : Prop :=
  match x s, y t with
  | .ok a s', .ok b t' => A a b ∧ S s' t'
  | .error e s', .error e' t' => e = e' ∧ S s' t'
  | _, _ => False

namespace Alike

variable {γ δ : Type} {A : α → β → Prop} {B : γ → δ → Prop} {S : σ → τ → Prop}
  {x : EStateM ε σ α} {y : EStateM ε τ β} {f : α → EStateM ε σ γ} {g : β → EStateM ε τ δ} {s : σ}
  {t : τ}

/-- Both runs return, or both fail. -/
theorem outcomes (h : Alike A S x y s t) :
    (∃ a b s' t', x s = .ok a s' ∧ y t = .ok b t' ∧ A a b ∧ S s' t') ∨
      ∃ e s' t', x s = .error e s' ∧ y t = .error e t' ∧ S s' t' := by
  unfold Alike at h
  split at h
  case h_1 a s' b t' hx hy => exact .inl ⟨a, b, s', t', hx, hy, h⟩
  case h_2 e s' e' t' hx hy =>
    obtain ⟨rfl, hS⟩ := h
    exact .inr ⟨e, s', t', hx, hy, hS⟩
  case h_3 => exact h.elim

theorem pure {a : α} {b : β} (hA : A a b) (hS : S s t) :
    Alike A S (Pure.pure a : EStateM ε σ α) (Pure.pure b) s t := ⟨hA, hS⟩

theorem throw {e : ε} (hS : S s t) :
    Alike A S (MonadExcept.throw e : EStateM ε σ α) (MonadExcept.throw e) s t := ⟨rfl, hS⟩

theorem get (hS : S s t) : Alike S S (MonadState.get : EStateM ε σ σ) MonadState.get s t := ⟨hS, hS⟩

theorem modify {u : σ → σ} {v : τ → τ} (hS : S (u s) (v t)) :
    Alike Eq S (modify u : EStateM ε σ Unit) (modify v) s t := ⟨rfl, hS⟩

theorem set {s' : σ} {t' : τ} (hS : S s' t') :
    Alike Eq S (MonadState.set s' : EStateM ε σ PUnit) (MonadState.set t') s t := ⟨rfl, hS⟩

theorem bind (h : Alike A S x y s t)
    (hf : ∀ a b s' t', A a b → S s' t' → Alike B S (f a) (g b) s' t') :
    Alike B S (x >>= f) (y >>= g) s t := by
  rcases h.outcomes with ⟨a, b, s', t', hx, hy, hA, hS⟩ | ⟨e, s', t', hx, hy, hS⟩
  · have hab := hf a b s' t' hA hS
    unfold Alike at hab ⊢
    rw [bind_of_ok hx, bind_of_ok hy]
    exact hab
  · unfold Alike
    rw [bind_of_error hx, bind_of_error hy]
    exact ⟨rfl, hS⟩

end Alike

end Stateful
