import Mathlib

/-! # Simulation of programs that can fail

Two programs over different representations of their data agree when they fail alike or return
related results.  `Agree R x y` is this relation for results in `Except`; it is closed under
sequencing (`Agree.bind`), so that a program written once over an interface agrees with itself
over any two related implementations of the interface. -/

namespace Simulation

variable {ε α β γ δ : Type}

/-- Both fail with the same error, or both return and the results are related by `R`. -/
inductive Agree (R : α → β → Prop) : Except ε α → Except ε β → Prop
  | ok {a : α} {b : β} (h : R a b) : Agree R (.ok a) (.ok b)
  | error (e : ε) : Agree R (.error e) (.error e)

namespace Agree

variable {R : α → β → Prop} {x : Except ε α} {y : Except ε β}

theorem pure {a : α} {b : β} (h : R a b) : Agree R (Pure.pure a : Except ε α) (Pure.pure b) := .ok h

theorem bind {S : γ → δ → Prop} {f : α → Except ε γ} {g : β → Except ε δ} (h : Agree R x y)
    (hf : ∀ a b, R a b → Agree S (f a) (g b)) : Agree S (x >>= f) (y >>= g) := by
  cases h with
  | ok h => exact hf _ _ h
  | error e => exact .error e

theorem mono {S : α → β → Prop} (h : Agree R x y) (hRS : ∀ a b, R a b → S a b) : Agree S x y := by
  cases h with
  | ok h => exact .ok (hRS _ _ h)
  | error e => exact .error e

theorem ok_left {a : α} (h : Agree R (.ok a) y) : ∃ b, y = .ok b ∧ R a b := by
  cases h with
  | ok h => exact ⟨_, rfl, h⟩

theorem ok_right {b : β} (h : Agree R x (.ok b)) : ∃ a, x = .ok a ∧ R a b := by
  cases h with
  | ok h => exact ⟨_, rfl, h⟩

/-- Two programs that agree with a third agree. -/
theorem join {R : α → γ → Prop} {S : β → γ → Prop} {z : Except ε γ} (hx : Agree R x z)
    (hy : Agree S y z) : Agree (fun a b => ∃ c, R a c ∧ S b c) x y := by
  cases hx with
  | ok hac =>
    cases hy with
    | ok hbc => exact .ok ⟨_, hac, hbc⟩
  | error e =>
    cases hy with
    | error _ => exact .error e

end Agree

end Simulation
