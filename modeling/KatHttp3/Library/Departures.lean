import Mathlib.Data.List.Basic
import Mathlib.Data.List.Perm.Basic

/-!
# Departures

A waiting line in which elements are served from the front and may be withdrawn
from anywhere. Every element that has been admitted is served, withdrawn or still
waiting, and those that are served or wait are in the order of their admission.
-/

namespace Departures

variable {α : Type*} {admitted served waiting withdrawn : List α}

structure Booked (admitted served waiting withdrawn : List α) : Prop where
  order : (served ++ waiting).Sublist admitted
  once : admitted.Perm (served ++ waiting ++ withdrawn)

theorem Booked.nil : Booked ([] : List α) [] [] [] := ⟨List.Sublist.refl _, List.Perm.refl _⟩

theorem Booked.admit (h : Booked admitted served waiting withdrawn) (a : α) :
    Booked (admitted ++ [a]) served (waiting ++ [a]) withdrawn := by
  constructor
  · rw [← List.append_assoc]
    exact h.order.append (List.Sublist.refl [a])
  · have hend : (served ++ (waiting ++ [a]) ++ withdrawn).Perm
        (served ++ waiting ++ withdrawn ++ [a]) := by
      rw [← List.append_assoc, List.append_assoc (served ++ waiting), List.append_assoc (served ++ waiting)]
      exact List.perm_append_comm.append_left _
    exact (h.once.append_right [a]).trans hend.symm

theorem Booked.serve {a : α} (h : Booked admitted served (a :: waiting) withdrawn) :
    Booked admitted (served ++ [a]) waiting withdrawn := by
  have hsame : served ++ [a] ++ waiting = served ++ a :: waiting := by
    rw [List.append_assoc, List.singleton_append]
  constructor
  · rw [hsame]
    exact h.order
  · rw [hsame]
    exact h.once

/-- Some of those who wait leave; the others keep their order. -/
theorem Booked.withdraw {rest left : List α} (h : Booked admitted served waiting withdrawn)
    (hrest : rest.Sublist waiting) (hleft : waiting.Perm (rest ++ left)) :
    Booked admitted served rest (withdrawn ++ left) := by
  constructor
  · exact ((List.Sublist.refl served).append hrest).trans h.order
  · have hmove : (served ++ waiting ++ withdrawn).Perm (served ++ rest ++ (withdrawn ++ left)) := by
      rw [List.append_assoc, List.append_assoc]
      apply List.Perm.append_left
      have hlater : (waiting ++ withdrawn).Perm (rest ++ (left ++ withdrawn)) := by
        rw [← List.append_assoc]
        exact hleft.append_right withdrawn
      exact hlater.trans (List.perm_append_comm.append_left rest)
    exact h.once.trans hmove

theorem perm_eraseP {p : α → Bool} {l : List α} {a : α} (h : l.find? p = some a) :
    l.Perm (l.eraseP p ++ [a]) := by
  induction l with
  | nil => cases h
  | cons b l ih =>
    cases hb : p b with
    | true =>
      rw [List.find?_cons_of_pos hb] at h
      cases h
      rw [List.eraseP_cons_of_pos hb]
      exact (List.perm_append_singleton a l).symm
    | false =>
      rw [List.find?_cons_of_neg (by simp [hb])] at h
      rw [List.eraseP_cons_of_neg (by simp [hb])]
      exact (ih h).cons b

end Departures
