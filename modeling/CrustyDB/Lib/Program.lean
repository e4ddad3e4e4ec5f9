import CrustyDB.Lib.Simulation

/-! # Programs over an interface

A program calls the operations of an interface, may fail, and returns a value.  It is run by a
handler, which says what each operation does to a state; the state reached when the program
fails is part of the outcome.

The handlers of one interface may keep different states.  `run_agree` is the reason to write
programs this way: when two handlers agree on every operation, every program agrees on them.  In
`run_follows` the handlers need to agree only on the operations the program uses (`Uses`), which may
depend on the answers it gets.

`Ends` says what holds after a run, as a postcondition for each of its two outcomes; the rules
follow the program text. -/

namespace Program

open Simulation

/-- The operations of an interface and the types of their answers. -/
structure Interface where
  Op : Type
  Ans : Op → Type

/-- Programs that call the operations of `I`, fail with `ε` and return `α`. -/
inductive Prog (I : Interface) (ε α : Type) where
  | ret (a : α)
  | fail (e : ε)
  | call (o : I.Op) (k : I.Ans o → Prog I ε α)

variable {I : Interface} {ε α β σ τ : Type}

namespace Prog

/-- Run `x`, then `f` on what it returns. -/
def andThen : Prog I ε α → (α → Prog I ε β) → Prog I ε β
  | ret a, f => f a
  | fail e, _ => fail e
  | call o k, f => call o (fun a => andThen (k a) f)

instance : Monad (Prog I ε) where
  pure := ret
  bind := andThen

/-- A single call. -/
def op (o : I.Op) : Prog I ε (I.Ans o) := call o ret

/-- A result that is already there, as a program. -/
def ofExcept : Except ε α → Prog I ε α
  | .ok a => ret a
  | .error e => fail e

end Prog

/-- What each operation does to the state. -/
abbrev Handler (I : Interface) (ε σ : Type) := (o : I.Op) → σ → Except ε (I.Ans o) × σ

open Prog

/-- Run a program from a state. -/
def run (h : Handler I ε σ) : Prog I ε α → σ → Except ε α × σ
  | .ret a, s => (.ok a, s)
  | .fail e, s => (.error e, s)
  | .call o k, s =>
    match h o s with
    | (.ok a, s') => run h (k a) s'
    | (.error e, s') => (.error e, s')

section Run

variable (h : Handler I ε σ)

theorem run_pure (a : α) (s : σ) : run h (pure a : Prog I ε α) s = (.ok a, s) := rfl

theorem run_op (o : I.Op) (s : σ) : run h (op o) s = h o s := by
  unfold op
  rw [run]
  rcases h o s with ⟨⟨e⟩ | ⟨a⟩, s'⟩ <;> rfl

/-- Sequencing runs the second program from the state the first one leaves. -/
theorem run_bind (x : Prog I ε α) (f : α → Prog I ε β) (s : σ) :
    run h (x >>= f) s =
      match run h x s with
      | (.ok a, s') => run h (f a) s'
      | (.error e, s') => (.error e, s') := by
  show run h (x.andThen f) s = _
  induction x generalizing s with
  | ret a => rfl
  | fail e => rfl
  | call o k ih =>
    rw [andThen, run, run]
    rcases h o s with ⟨⟨e⟩ | ⟨a⟩, s'⟩
    · rfl
    · exact ih a s'

variable {x : Prog I ε α} {f : α → Prog I ε β} {s s' : σ}

theorem run_bind_ok {a : α} (hx : run h x s = (.ok a, s')) :
    run h (x >>= f) s = run h (f a) s' := by
  rw [run_bind, hx]

theorem run_bind_error {e : ε} (hx : run h x s = (.error e, s')) :
    run h (x >>= f) s = (.error e, s') := by
  rw [run_bind, hx]

variable {h}

/-- A sequence that succeeds is two programs that succeed. -/
theorem of_run_bind {b : β} (hb : run h (x >>= f) s = (.ok b, s')) :
    ∃ a s₁, run h x s = (.ok a, s₁) ∧ run h (f a) s₁ = (.ok b, s') := by
  rw [run_bind] at hb
  rcases hx : run h x s with ⟨⟨e⟩ | ⟨a⟩, s₁⟩
  · rw [hx] at hb
    cases hb
  · rw [hx] at hb
    exact ⟨a, s₁, rfl, hb⟩

end Run

variable {h : Handler I ε σ} {s : σ}

/-- What every operation keeps, every program keeps. -/
theorem run_invariant {J : σ → Prop} (hop : ∀ o s, J s → J (h o s).2) (x : Prog I ε α) (hs : J s) :
    J (run h x s).2 := by
  induction x generalizing s with
  | ret a => exact hs
  | fail e => exact hs
  | call o k ih =>
    have hs' := hop o s hs
    rw [run]
    rcases ho : h o s with ⟨⟨e⟩ | ⟨a⟩, s'⟩
    all_goals rw [ho] at hs'
    · exact hs'
    · exact ih a hs'

/-! ### Two handlers -/

/-- The same outcome, in related states. -/
def Follows (S : σ → τ → Prop) (r : Except ε α × σ) (r' : Except ε α × τ) : Prop :=
  r.1 = r'.1 ∧ S r.2 r'.2

variable {S : σ → τ → Prop}

/-- Every call of the program is of an operation of `p`, as long as the answers it gets are among
those of `A`. -/
def Uses (A : (o : I.Op) → I.Ans o → Prop) (p : I.Op → Prop) : Prog I ε α → Prop
  | .ret _ => True
  | .fail _ => True
  | .call o k => p o ∧ ∀ a, A o a → Uses A p (k a)

section Uses

variable {A : (o : I.Op) → I.Ans o → Prop} {p : I.Op → Prop}

theorem Uses.op {o : I.Op} (h : p o) : Uses A p (op o : Prog I ε (I.Ans o)) :=
  ⟨h, fun _ _ => trivial⟩

theorem Uses.bind {x : Prog I ε α} {f : α → Prog I ε β} (hx : Uses A p x)
    (hf : ∀ a, Uses A p (f a)) : Uses A p (x >>= f) := by
  show Uses A p (x.andThen f)
  induction x with
  | ret a => exact hf a
  | fail e => exact trivial
  | call o k ih => exact ⟨hx.1, fun a ha => ih a (hx.2 a ha)⟩

theorem uses_all (x : Prog I ε α) : Uses (fun _ _ => True) (fun _ => True) x := by
  induction x with
  | ret a => exact trivial
  | fail e => exact trivial
  | call o k ih => exact ⟨trivial, fun a _ => ih a⟩

end Uses

/-- When the operations of a program follow each other on two handlers, so does the program. -/
theorem run_follows {h' : Handler I ε τ} {A : (o : I.Op) → I.Ans o → Prop} {p : I.Op → Prop}
    (hop : ∀ o s t, p o → S s t → Follows S (h o s) (h' o t))
    (hans : ∀ o s t, S s t → ∀ a, (h o s).1 = .ok a → A o a) {x : Prog I ε α} (hx : Uses A p x)
    {t : τ} (hst : S s t) : Follows S (run h x s) (run h' x t) := by
  induction x generalizing s t with
  | ret a => exact ⟨rfl, hst⟩
  | fail e => exact ⟨rfl, hst⟩
  | call o k ih =>
    obtain ⟨hres, hst'⟩ := hop o s t hx.1 hst
    have hA := hans o s t hst
    rw [run, run]
    rcases hs : h o s with ⟨⟨e⟩ | ⟨a⟩, s'⟩
    all_goals
      rw [hs] at hres hst' hA
      rcases ht : h' o t with ⟨⟨e'⟩ | ⟨a'⟩, t'⟩
    all_goals rw [ht] at hres hst'
    · exact ⟨by rw [Except.error.inj hres], hst'⟩
    · cases hres
    · cases hres
    · cases hres
      exact ih a (hx.2 a (hA a rfl)) hst'

/-- Two handlers that agree on every operation agree on every program. -/
theorem run_agree {h' : Handler I ε τ} (hop : ∀ o s t, S s t → Follows S (h o s) (h' o t))
    (x : Prog I ε α) {t : τ} (hst : S s t) : Follows S (run h x s) (run h' x t) :=
  run_follows (fun o s t _ => hop o s t) (fun _ _ _ _ _ _ => trivial) (uses_all x) hst

/-! ### Postconditions -/

/-- What holds after a run: `Q` of the value and the state when the program returns, `E` of the
error and the state when it fails. -/
def Ends (h : Handler I ε σ) (x : Prog I ε α) (s : σ) (Q : α → σ → Prop) (E : ε → σ → Prop) : Prop :=
  match run h x s with
  | (.ok a, s') => Q a s'
  | (.error e, s') => E e s'

namespace Ends

variable {h : Handler I ε σ} {x : Prog I ε α} {f : α → Prog I ε β} {s s' : σ} {Q Q' : α → σ → Prop}
  {R : β → σ → Prop} {E E' : ε → σ → Prop} {a : α} {e : ε}

theorem of_ok (hx : run h x s = (.ok a, s')) (hQ : Q a s') : Ends h x s Q E := by
  unfold Ends
  rw [hx]
  exact hQ

theorem of_error (hx : run h x s = (.error e, s')) (hE : E e s') : Ends h x s Q E := by
  unfold Ends
  rw [hx]
  exact hE

theorem ok (hend : Ends h x s Q E) (hx : run h x s = (.ok a, s')) : Q a s' := by
  unfold Ends at hend
  rw [hx] at hend
  exact hend

theorem error (hend : Ends h x s Q E) (hx : run h x s = (.error e, s')) : E e s' := by
  unfold Ends at hend
  rw [hx] at hend
  exact hend

theorem mono (hend : Ends h x s Q E) (hQ : ∀ a t, Q a t → Q' a t) (hE : ∀ e t, E e t → E' e t) :
    Ends h x s Q' E' := by
  unfold Ends at hend ⊢
  rcases hx : run h x s with ⟨⟨e⟩ | ⟨a⟩, t⟩
  · rw [hx] at hend
    exact hE e t hend
  · rw [hx] at hend
    exact hQ a t hend

theorem pure (hQ : Q a s) : Ends h (Pure.pure a : Prog I ε α) s Q E := hQ

theorem fail (hE : E e s) : Ends h (Prog.fail e : Prog I ε α) s Q E := hE

/-- A sequence: what holds after the first program has to suffice for the second. -/
theorem bind (hx : Ends h x s (fun a t => Ends h (f a) t R E) E) : Ends h (x >>= f) s R E := by
  unfold Ends at hx ⊢
  rw [run_bind]
  rcases hr : run h x s with ⟨⟨e⟩ | ⟨a⟩, t⟩
  · rw [hr] at hx
    exact hx
  · rw [hr] at hx
    exact hx

theorem step (hx : run h x s = (.ok a, s')) (hf : Ends h (f a) s' R E) : Ends h (x >>= f) s R E :=
  bind (.of_ok hx hf)

end Ends

end Program
