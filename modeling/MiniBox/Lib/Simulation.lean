import Mathlib.Data.List.Basic

/-!
# Machines that cannot be told apart

A machine takes an input and answers, or dies and says why.  Two machines related by a
relation that every input keeps, and under which what can be seen of them is the same, show
the same to whoever watches them, whatever the inputs.
-/

namespace MiniBox.Lib

section Simulation

variable {ε α β ι σ τ : Type*}

/-- The same end, or the same answer from states that are related. -/
inductive Agrees (R : σ → τ → Prop) : Except ε (α × σ) → Except ε (α × τ) → Prop where
  | error (e : ε) : Agrees R (.error e) (.error e)
  | ok (a : α) {s : σ} {t : τ} : R s t → Agrees R (.ok (a, s)) (.ok (a, t))

/-- What is seen of a machine along its inputs: each answer, with the sight after it. -/
def watch (step : σ → ι → Except ε (α × σ)) (sight : σ → β) : σ → List ι → List (Except ε (α × β))
  | _, [] => []
  | s, i :: rest =>
    match step s i with
    | .error e => [.error e]
    | .ok (a, s) => .ok (a, sight s) :: watch step sight s rest

theorem watch_eq {R : σ → τ → Prop} {step : σ → ι → Except ε (α × σ)}
    {step' : τ → ι → Except ε (α × τ)} {sight : σ → β} {sight' : τ → β}
    (keeps : ∀ {s t}, R s t → ∀ i, Agrees R (step s i) (step' t i))
    (looks : ∀ {s t}, R s t → sight s = sight' t) :
    ∀ (inputs : List ι) {s : σ} {t : τ}, R s t →
      watch step sight s inputs = watch step' sight' t inputs
  | [], _, _, _ => rfl
  | i :: rest, s, t, related => by
    have both := keeps related i
    rw [watch, watch]
    cases left : step s i with
    | error e =>
      rw [left] at both
      generalize step' t i = right at both
      cases both
      rfl
    | ok answer =>
      obtain ⟨a, s'⟩ := answer
      rw [left] at both
      generalize step' t i = right at both
      cases both with
      | ok a next => simp only [looks next, watch_eq keeps looks rest next]

end Simulation

end MiniBox.Lib
