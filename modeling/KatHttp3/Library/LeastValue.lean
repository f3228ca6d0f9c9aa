import Mathlib.Order.Lattice
import Mathlib.Order.Basic

/-!
# The least of optional values

A value that may be missing does not count for a minimum. A minimum of groups whose
minima are known is the minimum of all their elements.
-/

namespace LeastValue

variable {α β : Type*} [LinearOrder α]

theorem merge_min_assoc (a b c : Option α) :
    Option.merge min (Option.merge min a b) c = Option.merge min a (Option.merge min b c) :=
  (inferInstance : Std.Associative (Option.merge (min : α → α → α))).assoc a b c

theorem min?_cons_eq (a : α) (l : List α) : (a :: l).min? = Option.merge min (some a) l.min? := by
  rw [List.min?_cons]
  cases l.min? <;> rfl

theorem min?_append (l m : List α) : (l ++ m).min? = Option.merge min l.min? m.min? := by
  induction l with
  | nil => simp
  | cons a l ih =>
    rw [List.cons_append, min?_cons_eq, min?_cons_eq, ih, merge_min_assoc]

theorem min?_flatMap_cons (f : β → List α) (b : β) (bs : List β) :
    ((b :: bs).flatMap f).min? = Option.merge min (f b).min? (bs.flatMap f).min? := by
  rw [List.flatMap_cons, min?_append]

/-- Taking the minimum group by group. -/
theorem foldl_merge (f : β → List α) (current : Option α) (bs : List β) :
    bs.foldl (fun least b => Option.merge min least (f b).min?) current =
      Option.merge min current (bs.flatMap f).min? := by
  induction bs generalizing current with
  | nil => simp
  | cons b bs ih =>
    rw [List.foldl_cons, ih, min?_flatMap_cons, merge_min_assoc]

end LeastValue
