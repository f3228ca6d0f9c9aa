import Mathlib.Data.List.DropRight

/-!
# Tokens

The nonempty pieces of a list between delimiters, and how they change with the
text and with the set of delimiters.
-/

namespace Tokens

variable {α : Type*} {p q : α → Bool}

/-- The nonempty pieces between the elements that `p` holds of. -/
def tokens (p : α → Bool) (s : List α) : List (List α) := (s.splitOnP p).filter (! ·.isEmpty)

@[simp] theorem tokens_nil : tokens p [] = [] := by simp [tokens]

/-- A delimiter separates the tokens before it from those behind it. -/
theorem tokens_append_cons {c : α} (hc : p c = true) (s t : List α) :
    tokens p (s ++ c :: t) = tokens p s ++ tokens p t := by
  rw [tokens, List.splitOnP_append_cons s t hc, List.filter_append]
  rfl

theorem tokens_cons {c : α} (hc : p c = true) (s : List α) : tokens p (c :: s) = tokens p s := by
  have := tokens_append_cons hc [] s
  rwa [List.nil_append, tokens_nil, List.nil_append] at this

theorem tokens_of_forall_not {s : List α} (hne : s ≠ []) (h : ∀ c ∈ s, p c = false) :
    tokens p s = [s] := by
  rw [tokens, List.splitOnP_eq_singleton h, List.filter_cons_of_pos (by simpa using hne)]
  rfl

/-- A token in front of a delimiter. -/
theorem tokens_token {s : List α} {c : α} (hne : s ≠ []) (h : ∀ d ∈ s, p d = false)
    (hc : p c = true) (t : List α) : tokens p (s ++ c :: t) = s :: tokens p t := by
  rw [tokens_append_cons hc, tokens_of_forall_not hne h]
  rfl

theorem tokens_of_forall {s : List α} (h : ∀ c ∈ s, p c = true) : tokens p s = [] := by
  induction s with
  | nil => exact tokens_nil
  | cons c s ih =>
    rw [tokens_cons (h c List.mem_cons_self)]
    exact ih fun d hd => h d (List.mem_cons_of_mem _ hd)

theorem tokens_append_left {s : List α} (h : ∀ c ∈ s, p c = true) (t : List α) :
    tokens p (s ++ t) = tokens p t := by
  induction s with
  | nil => rfl
  | cons c s ih =>
    rw [List.cons_append, tokens_cons (h c List.mem_cons_self)]
    exact ih fun d hd => h d (List.mem_cons_of_mem _ hd)

theorem tokens_append_right {t : List α} (h : ∀ c ∈ t, p c = true) (s : List α) :
    tokens p (s ++ t) = tokens p s := by
  cases t with
  | nil => rw [List.append_nil]
  | cons c t =>
    rw [tokens_append_cons (h c List.mem_cons_self),
      tokens_of_forall fun d hd => h d (List.mem_cons_of_mem _ hd), List.append_nil]

/-- Delimiters at the ends may be cut off. -/
theorem tokens_trim (h : ∀ c, q c = true → p c = true) (s : List α) :
    tokens p ((s.dropWhile q).rdropWhile q) = tokens p s := by
  have hleft : ∀ c ∈ s.takeWhile q, p c = true := fun c hc =>
    h c (List.mem_takeWhile_imp hc)
  have hright : ∀ c ∈ (s.dropWhile q).rtakeWhile q, p c = true := fun c hc =>
    h c (List.mem_rtakeWhile_imp hc)
  have hends : (s.dropWhile q).rdropWhile q ++ (s.dropWhile q).rtakeWhile q = s.dropWhile q :=
    List.rdropWhile_append_rtakeWhile
  calc
    tokens p ((s.dropWhile q).rdropWhile q) = tokens p (s.dropWhile q) := by
      rw [← tokens_append_right hright, hends]
    _ = tokens p s := by
      rw [← tokens_append_left hleft, List.takeWhile_append_dropWhile]

/-- With more delimiters the tokens are cut further. -/
theorem tokens_flatMap (h : ∀ c, p c = true → q c = true) (s : List α) :
    tokens q s = (tokens p s).flatMap (tokens q) := by
  induction hlength : s.length using Nat.strong_induction_on generalizing s with
  | _ n ih =>
    by_cases hcut : ∃ c ∈ s, p c = true
    · obtain ⟨c, hc, hp⟩ := hcut
      obtain ⟨a, b, rfl⟩ := List.append_of_mem hc
      rw [List.length_append, List.length_cons] at hlength
      rw [tokens_append_cons hp, tokens_append_cons (h c hp), List.flatMap_append,
        ih a.length (by omega) a rfl, ih b.length (by omega) b rfl]
    · by_cases hne : s = []
      · rw [hne, tokens_nil, tokens_nil]
        rfl
      · have hnone : ∀ c ∈ s, p c = false := by
          intro c hc
          by_contra hp
          exact hcut ⟨c, hc, by simpa using hp⟩
        rw [tokens_of_forall_not hne hnone, List.flatMap_singleton]

end Tokens
