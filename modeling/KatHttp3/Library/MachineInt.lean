import Mathlib.Data.Int.Notation
import Mathlib.Data.Nat.Notation
import Mathlib.Order.Basic
import Mathlib.Tactic.Linarith

/-!
# Machine integers

Arithmetic of a fixed width on natural numbers and integers: unsigned subtraction
that wraps around, and the value of a signed register.
-/

namespace MachineInt

/-- Unsigned subtraction of numbers below `2 ^ w`. -/
def usub (w a b : ℕ) : ℕ := if b ≤ a then a - b else a + 2 ^ w - b

theorem usub_of_le {w a b : ℕ} (h : b ≤ a) : usub w a b = a - b := if_pos h

/-- The value of a signed register of 64 bits into which an integer is put. -/
def toInt64 (x : ℤ) : ℤ := Int.bmod x (2 ^ 64)

/-- The integers that fit. -/
def Fits64 (x : ℤ) : Prop := -2 ^ 63 ≤ x ∧ x < 2 ^ 63

instance (x : ℤ) : Decidable (Fits64 x) := inferInstanceAs (Decidable (_ ∧ _))

theorem toInt64_of_fits {x : ℤ} (h : Fits64 x) : toInt64 x = x := by
  obtain ⟨hlow, hhigh⟩ := h
  apply Int.bmod_eq_of_le
  · norm_num at hlow ⊢
    exact hlow
  · norm_num at hhigh ⊢
    exact hhigh

/-- A sum that is too large becomes negative. -/
theorem toInt64_of_overflow {x : ℤ} (hlow : 2 ^ 63 ≤ x) (hhigh : x < 2 ^ 63 + 2 ^ 64) :
    toInt64 x = x - 2 ^ 64 := by
  have hfits : Fits64 (x - 2 ^ 64) := by
    constructor <;> omega
  rw [← toInt64_of_fits hfits]
  unfold toInt64
  exact (Int.sub_mul_bmod_self_right x 1 (2 ^ 64)).symm

end MachineInt
