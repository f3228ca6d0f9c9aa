import KatHttp3.Text.Str

/-!
# Trimming

What is left of a text between blanks once the blanks are cut off.
-/

namespace KatHttp3.Str

section trim

variable {α : Type*} (p : α → Bool)

/-- The part of a list between the elements to cut off at its ends. -/
def trim (s : List α) : List α := (s.dropWhile p).rdropWhile p

/-- Neither end of the list is to be cut off. -/
def Tight (s : List α) : Prop := (∀ c ∈ s.head?, p c = false) ∧ ∀ c ∈ s.getLast?, p c = false

variable {p}

theorem tight_of_forall_not {s : List α} (h : ∀ c ∈ s, p c = false) : Tight p s :=
  ⟨fun c hc => h c (List.mem_of_mem_head? hc), fun c hc => h c (List.mem_of_mem_getLast? hc)⟩

/-- Only the ends count. -/
theorem Tight.between {s t : List α} (hs : Tight p s) (ht : Tight p t) (hsne : s ≠ [])
    (htne : t ≠ []) (middle : List α) : Tight p (s ++ (middle ++ t)) := by
  constructor
  · rw [List.head?_append_of_ne_nil _ hsne]
    exact hs.1
  · rw [← List.append_assoc, List.getLast?_append_of_ne_nil _ htne]
    exact ht.2

theorem rdropWhile_append_of_pos {s t : List α} (h : ∀ c ∈ t, p c = true) :
    (s ++ t).rdropWhile p = s.rdropWhile p := by
  induction t using List.reverseRecOn with
  | nil => rw [List.append_nil]
  | append_singleton t c ih =>
    rw [← List.append_assoc, List.rdropWhile_concat_pos _ _ _ (h c (by simp))]
    exact ih fun c hc => h c (List.mem_append_left _ hc)

theorem Tight.trim {s : List α} (h : Tight p s) : trim p s = s := by
  have hleft : s.dropWhile p = s := by
    cases s with
    | nil => rfl
    | cons c s => exact List.dropWhile_cons_of_neg (by simp [h.1 c rfl])
  rw [Str.trim, hleft, List.rdropWhile_eq_self_iff]
  intro hne
  rw [h.2 _ (List.getLast?_eq_some_getLast hne)]
  exact Bool.false_ne_true

/-- Padding on both sides is cut off. -/
theorem trim_pad {l s r : List α} (hl : ∀ c ∈ l, p c = true) (hr : ∀ c ∈ r, p c = true)
    (hs : Tight p s) : trim p (l ++ s ++ r) = s := by
  rw [trim, List.append_assoc, List.dropWhile_append_of_pos hl]
  cases s with
  | nil =>
    rw [List.nil_append, ← List.append_nil r, List.dropWhile_append_of_pos hr]
    rfl
  | cons c s =>
    have hc : ¬ p c = true := by simp [hs.1 c rfl]
    rw [List.cons_append, List.dropWhile_cons_of_neg hc, ← List.cons_append,
      rdropWhile_append_of_pos hr]
    have := hs.trim
    rwa [Str.trim, List.dropWhile_cons_of_neg hc] at this

/-- What is cut off is padding. -/
theorem exists_pad (p : α → Bool) (s : List α) :
    ∃ l r, s = l ++ trim p s ++ r ∧ (∀ c ∈ l, p c = true) ∧ ∀ c ∈ r, p c = true := by
  refine ⟨s.takeWhile p, (s.dropWhile p).rtakeWhile p, ?_,
    fun c hc => List.mem_takeWhile_imp hc, fun c hc => List.mem_rtakeWhile_imp hc⟩
  have hright : trim p s ++ (s.dropWhile p).rtakeWhile p = s.dropWhile p := by
    rw [trim, List.rdropWhile, List.rtakeWhile, ← List.reverse_append,
      List.takeWhile_append_dropWhile, List.reverse_reverse]
  rw [List.append_assoc, hright, List.takeWhile_append_dropWhile]

theorem trim_blank {s : List α} (h : ∀ c ∈ s, p c = true) : trim p s = [] := by
  have := trim_pad (s := []) h (r := []) (by simp) ⟨by simp, by simp⟩
  simpa using this

theorem trim_congr {q : α → Bool} {s : List α} (h : ∀ c ∈ s, p c = q c) :
    trim p s = trim q s := by
  have hdrop : s.dropWhile p = s.dropWhile q := by
    induction s with
    | nil => rfl
    | cons c s ih =>
      rw [List.dropWhile_cons, List.dropWhile_cons, h c List.mem_cons_self,
        ih fun d hd => h d (List.mem_cons_of_mem _ hd)]
  rw [trim, trim, hdrop]
  have hmem : ∀ c ∈ s.dropWhile q, p c = q c :=
    fun c hc => h c ((List.dropWhile_sublist q).mem hc)
  generalize s.dropWhile q = t at hmem
  induction t using List.reverseRecOn with
  | nil => rfl
  | append_singleton t c ih =>
    rw [List.rdropWhile_concat, List.rdropWhile_concat, hmem c (by simp),
      ih fun d hd => hmem d (List.mem_append_left _ hd)]

end trim

end KatHttp3.Str
