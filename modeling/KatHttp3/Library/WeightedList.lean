import Mathlib.Algebra.BigOperators.Group.List.Basic
import Mathlib.Algebra.GroupWithZero.Nat
import Mathlib.Algebra.Order.BigOperators.Group.List
import Mathlib.Algebra.Order.Group.Nat

/-!
# Lists within two limits

The elements of a list carry weights, and a list is within its limits when it is
short enough and its weights sum up to no more than a bound. Dropping elements
from the end until the rest is within the limits leaves the longest such prefix.
-/

namespace WeightedList

variable {α : Type*} (weight : α → ℕ) (count limit : ℕ)

def total (l : List α) : ℕ := (l.map weight).sum

/-- The list is within both limits. -/
def Fits (l : List α) : Prop := l.length ≤ count ∧ total weight l ≤ limit

/-- A prefix such that every longer one exceeds a limit. -/
structure Trimmed (l kept : List α) : Prop where
  isPrefix : kept <+: l
  exceeds : ∀ longer, longer <+: l → kept.length < longer.length →
    ¬ Fits weight count limit longer

/-- The longest prefix that is within both limits. -/
structure LongestFit (l kept : List α) : Prop extends Trimmed weight count limit l kept where
  fits : Fits weight count limit kept

variable {weight count limit}

@[simp] theorem total_nil : total weight [] = 0 := rfl

@[simp] theorem total_cons (a : α) (l : List α) : total weight (a :: l) = weight a + total weight l := by
  simp [total]

@[simp] theorem total_append (l m : List α) :
    total weight (l ++ m) = total weight l + total weight m := by
  simp [total]

theorem weight_le_total {l : List α} {a : α} (h : a ∈ l) : weight a ≤ total weight l :=
  List.le_sum_of_mem (List.mem_map_of_mem h)

theorem total_perm {l m : List α} (h : l.Perm m) : total weight l = total weight m :=
  (h.map weight).sum_eq

theorem total_le_of_sublist {l m : List α} (h : l.Sublist m) : total weight l ≤ total weight m :=
  (h.map weight).sum_le_sum fun _ _ => Nat.zero_le _

/-- What a test drops and what it keeps weigh as much as the whole list. -/
theorem total_filter_add (p : α → Bool) (l : List α) :
    total weight (l.filter p) + total weight (l.filter fun a => !p a) = total weight l := by
  rw [← total_append]
  exact total_perm (List.filter_append_perm p l)

/-- Weights taken off one at a time. -/
theorem foldl_sub (l : List α) {bytes rest : ℕ} (h : bytes = total weight l + rest) :
    l.foldl (fun bytes a => bytes - min bytes (weight a)) bytes = rest := by
  induction l generalizing bytes with
  | nil => simpa using h
  | cons a l ih =>
    rw [total_cons] at h
    have hnext : bytes - min bytes (weight a) = total weight l + rest := by omega
    exact ih hnext

/-- The same for a count that may be too low. -/
theorem foldl_sub_le (l : List α) {bytes rest : ℕ} (h : bytes ≤ total weight l + rest) :
    l.foldl (fun bytes a => bytes - min bytes (weight a)) bytes ≤ rest := by
  induction l generalizing bytes with
  | nil => simpa using h
  | cons a l ih =>
    rw [total_cons] at h
    have hnext : bytes - min bytes (weight a) ≤ total weight l + rest := by omega
    exact ih hnext

/-! ### One element -/

/-- Changes the first element that passes the test. -/
def updateFirst (p : α → Bool) (f : α → α) : List α → List α
  | [] => []
  | a :: rest => if p a then f a :: rest else a :: updateFirst p f rest

theorem total_updateFirst {p : α → Bool} (f : α → α) {l : List α} {a : α} (h : l.find? p = some a) :
    total weight (updateFirst p f l) + weight a = total weight l + weight (f a) := by
  induction l with
  | nil => cases h
  | cons head rest ih =>
    unfold updateFirst
    cases hhead : p head with
    | true =>
      rw [List.find?_cons_of_pos hhead] at h
      cases h
      rw [if_pos rfl, total_cons, total_cons]
      omega
    | false =>
      rw [List.find?_cons_of_neg (by simp [hhead])] at h
      have hrest := ih h
      rw [if_neg (by simp), total_cons, total_cons]
      omega

/-- A change that no weight sees. -/
theorem total_updateFirst_of_eq (p : α → Bool) {f : α → α} (h : ∀ a, weight (f a) = weight a)
    (l : List α) : total weight (updateFirst p f l) = total weight l := by
  induction l with
  | nil => rfl
  | cons head rest ih =>
    unfold updateFirst
    split_ifs
    · rw [total_cons, total_cons, h]
    · rw [total_cons, total_cons, ih]

theorem mem_updateFirst {p : α → Bool} {f : α → α} {l : List α} {b : α}
    (h : b ∈ updateFirst p f l) : b ∈ l ∨ ∃ a ∈ l, b = f a := by
  induction l with
  | nil => cases h
  | cons head rest ih =>
    unfold updateFirst at h
    split_ifs at h
    · rcases List.mem_cons.mp h with rfl | hrest
      · exact Or.inr ⟨head, List.mem_cons_self, rfl⟩
      · exact Or.inl (List.mem_cons_of_mem head hrest)
    · rcases List.mem_cons.mp h with rfl | hrest
      · exact Or.inl List.mem_cons_self
      · rcases ih hrest with hold | ⟨a, ha, rfl⟩
        · exact Or.inl (List.mem_cons_of_mem head hold)
        · exact Or.inr ⟨a, List.mem_cons_of_mem head ha, rfl⟩

/-- One element takes the place of another. -/
theorem total_set {l : List α} {i : ℕ} {a : α} (h : l[i]? = some a) (b : α) :
    total weight (l.set i b) + weight a = total weight l + weight b := by
  induction l generalizing i with
  | nil => cases h
  | cons head rest ih =>
    cases i with
    | zero =>
      rw [List.getElem?_cons_zero] at h
      obtain rfl := Option.some.inj h
      rw [List.set_cons_zero, total_cons, total_cons]
      omega
    | succ i =>
      rw [List.getElem?_cons_succ] at h
      rw [List.set_cons_succ, total_cons, total_cons]
      have hrest := ih h
      omega

theorem total_eraseIdx {l : List α} {i : ℕ} {a : α} (h : l[i]? = some a) :
    total weight (l.eraseIdx i) + weight a = total weight l := by
  obtain ⟨hi, rfl⟩ := List.getElem?_eq_some_iff.mp h
  rw [← total_perm (List.getElem_cons_eraseIdx_perm hi), total_cons, Nat.add_comm]

theorem total_eraseP {p : α → Bool} {l : List α} {a : α} (h : l.find? p = some a) :
    total weight (l.eraseP p) + weight a = total weight l := by
  induction l with
  | nil => cases h
  | cons head rest ih =>
    cases hhead : p head with
    | true =>
      rw [List.find?_cons_of_pos hhead] at h
      cases h
      rw [List.eraseP_cons_of_pos hhead, total_cons]
      omega
    | false =>
      rw [List.find?_cons_of_neg (by simp [hhead])] at h
      have hrest := ih h
      rw [List.eraseP_cons_of_neg (by simp [hhead]), total_cons, total_cons]
      omega

theorem total_eq_zero {l : List α} (h : ∀ a ∈ l, weight a = 0) : total weight l = 0 := by
  induction l with
  | nil => rfl
  | cons head rest ih =>
    rw [total_cons, h head List.mem_cons_self, ih fun a ha => h a (List.mem_cons_of_mem head ha)]

theorem Fits.of_sublist {l m : List α} (h : Fits weight count limit m) (hsub : l.Sublist m) :
    Fits weight count limit l :=
  ⟨hsub.length_le.trans h.1, (total_le_of_sublist hsub).trans h.2⟩

theorem Fits.of_perm {l m : List α} (h : Fits weight count limit m) (hperm : l.Perm m) :
    Fits weight count limit l :=
  ⟨hperm.length_eq.le.trans h.1, (total_perm hperm).le.trans h.2⟩

theorem Fits.nil : Fits weight count limit [] := ⟨Nat.zero_le _, Nat.zero_le _⟩

theorem Trimmed.refl (l : List α) : Trimmed weight count limit l l :=
  ⟨List.prefix_refl l, fun _ hlonger hlt => absurd hlonger.length_le (by omega)⟩

/-- Dropping the last element of a list that exceeds a limit. -/
theorem Trimmed.of_exceeds {l kept : List α} {a : α} (hexceeds : ¬ Fits weight count limit (l ++ [a]))
    (h : Trimmed weight count limit l kept) : Trimmed weight count limit (l ++ [a]) kept where
  isPrefix := h.isPrefix.trans (List.prefix_append l [a])
  exceeds longer hlonger hlt := by
    rcases List.prefix_concat_iff.mp hlonger with rfl | hlonger
    · exact hexceeds
    · exact h.exceeds longer hlonger hlt

/-- Trimming the rest first makes no difference. -/
theorem Trimmed.cons {l kept final : List α} (a : α) (h : Trimmed weight count limit l kept)
    (hfinal : Trimmed weight count limit (a :: kept) final) :
    Trimmed weight count limit (a :: l) final where
  isPrefix := hfinal.isPrefix.trans (List.cons_prefix_cons.mpr ⟨rfl, h.isPrefix⟩)
  exceeds longer hlonger hlt hfits := by
    rcases List.prefix_cons_iff.mp hlonger with rfl | ⟨rest, rfl, hrest⟩
    · simp at hlt
    have hle : rest.length ≤ kept.length := by
      by_contra hgt
      exact h.exceeds rest hrest (by omega) (hfits.of_sublist (List.sublist_cons_self a rest))
    have hstarts : rest <+: kept := List.prefix_of_prefix_length_le hrest h.isPrefix hle
    exact hfinal.exceeds _ (List.cons_prefix_cons.mpr ⟨rfl, hstarts⟩) hlt hfits

end WeightedList
