import Mathlib.Data.Nat.Init
import Mathlib.Tactic.ByCases

/-!
# Loops that end

A loop is given by its guard and its body. That it ends is a statement about the
turns it takes, and no bound on their number is part of it.
-/

namespace WhileLoop

variable {σ : Type*} (guard : σ → Prop) (body : σ → σ)

/-- The loop that begins in the first state ends in the second. -/
inductive Ends : σ → σ → Prop
  | done {s : σ} (h : ¬ guard s) : Ends s s
  | turn {s t : σ} (h : guard s) (rest : Ends (body s) t) : Ends s t

variable {guard body}

/-- A solution of the equations of a loop whose turns decrease a measure is what the
loop ends in. -/
theorem ends_of_measure (measure : σ → ℕ) (result : σ → σ)
    (hbody : ∀ s, guard s → measure (body s) < measure s)
    (hdone : ∀ s, ¬ guard s → result s = s) (hturn : ∀ s, guard s → result s = result (body s))
    (s : σ) : Ends guard body s (result s) := by
  induction hmeasure : measure s using Nat.strong_induction_on generalizing s with
  | _ n ih =>
    subst hmeasure
    by_cases hguard : guard s
    · rw [hturn s hguard]
      exact .turn hguard (ih _ (hbody s hguard) _ rfl)
    · rw [hdone s hguard]
      exact .done hguard

end WhileLoop
