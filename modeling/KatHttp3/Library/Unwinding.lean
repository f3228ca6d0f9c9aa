import Mathlib.Tactic.Basic

/-!
# Exceptions and destructors

Programs that change a state and may throw. A program is run for what holds
when it returns and what holds when it throws; a destructor runs in both cases,
and what was done before an exception stays done.
-/

namespace Unwinding

variable {ε σ α β : Type}

/-- What holds after the program, when it returns and when it throws. -/
def Ensures (p : EStateM ε σ α) (returned : α → σ → Prop) (thrown : ε → σ → Prop) (s : σ) : Prop :=
  match p s with
  | .ok a s' => returned a s'
  | .error e s' => thrown e s'

/-- The destructor runs when the scope of the program is left. -/
def withDestructor (destructor : σ → σ) (p : EStateM ε σ α) : EStateM ε σ α := fun s =>
  match p s with
  | .ok a s' => .ok a (destructor s')
  | .error e s' => .error e (destructor s')

/-- A catch clause for every exception. -/
def catching (p : EStateM ε σ α) (handler : ε → EStateM ε σ α) : EStateM ε σ α := fun s =>
  match p s with
  | .ok a s' => .ok a s'
  | .error e s' => handler e s'

/-! ### The rules -/

variable {Q : α → σ → Prop} {E : ε → σ → Prop} {s : σ}

@[simp] theorem ensures_pure (a : α) : Ensures (pure a) Q E s ↔ Q a s := Iff.rfl

@[simp] theorem ensures_throw (e : ε) : Ensures (throw e : EStateM ε σ α) Q E s ↔ E e s := Iff.rfl

@[simp] theorem ensures_get {Q : σ → σ → Prop} :
    Ensures (get : EStateM ε σ σ) Q E s ↔ Q s s := Iff.rfl

@[simp] theorem ensures_modify {Q : Unit → σ → Prop} (f : σ → σ) :
    Ensures (modify f : EStateM ε σ Unit) Q E s ↔ Q () (f s) := Iff.rfl

@[simp] theorem ensures_bind {Q : β → σ → Prop} (p : EStateM ε σ α) (f : α → EStateM ε σ β) :
    Ensures (p >>= f) Q E s ↔ Ensures p (fun a s' => Ensures (f a) Q E s') E s := by
  change (match EStateM.bind p f s with
    | .ok a s' => Q a s'
    | .error e s' => E e s') ↔ _
  unfold Ensures EStateM.bind
  cases p s with
  | ok a s' => exact Iff.rfl
  | error e s' => exact Iff.rfl

@[simp] theorem ensures_withDestructor (destructor : σ → σ) (p : EStateM ε σ α) :
    Ensures (withDestructor destructor p) Q E s ↔
      Ensures p (fun a s' => Q a (destructor s')) (fun e s' => E e (destructor s')) s := by
  unfold Ensures withDestructor
  cases p s with
  | ok a s' => exact Iff.rfl
  | error e s' => exact Iff.rfl

@[simp] theorem ensures_catching (p : EStateM ε σ α) (handler : ε → EStateM ε σ α) :
    Ensures (catching p handler) Q E s ↔ Ensures p Q (fun e s' => Ensures (handler e) Q E s') s := by
  unfold Ensures catching
  cases p s with
  | ok a s' => exact Iff.rfl
  | error e s' => exact Iff.rfl

/-- The rule of consequence. -/
theorem Ensures.mono {p : EStateM ε σ α} {Q' : α → σ → Prop} {E' : ε → σ → Prop}
    (h : Ensures p Q E s) (hreturned : ∀ a s', Q a s' → Q' a s')
    (hthrown : ∀ e s', E e s' → E' e s') : Ensures p Q' E' s := by
  unfold Ensures at h ⊢
  cases hp : p s with
  | ok a s' =>
    rw [hp] at h
    exact hreturned a s' h
  | error e s' =>
    rw [hp] at h
    exact hthrown e s' h

/-- The state that a program ends in. -/
def finalState (p : EStateM ε σ α) (s : σ) : σ :=
  match p s with
  | .ok _ s' => s'
  | .error _ s' => s'

theorem Ensures.finalState {p : EStateM ε σ α} {R : σ → Prop}
    (h : Ensures p (fun _ => R) (fun _ => R) s) : R (finalState p s) := by
  unfold Unwinding.finalState
  unfold Ensures at h
  cases hp : p s with
  | ok a s' =>
    rw [hp] at h
    exact h
  | error e s' =>
    rw [hp] at h
    exact h

end Unwinding
