import Mathlib.Data.List.Forall2
import Mathlib.Data.List.TakeWhile
import Mathlib.Data.List.Pairwise
import Mathlib.Data.Nat.Notation
import Mathlib.Tactic.SplitIfs

/-!
# Queues by urgency

A queue for each urgency. The next element is the first one that passes a test,
where a queue of a smaller urgency comes first; those in front of it that do not
pass are dropped. If the elements of every queue came in the order of their
stamps, the next one is the earliest of the smallest urgency.
-/

namespace UrgencyQueues

variable {α : Type*} (p : α → Bool)

/-- The first element that passes the test, and the queues behind it. -/
def pop : List (List α) → Option α × List (List α)
  | [] => (none, [])
  | queue :: queues =>
    match queue.dropWhile fun a => !p a with
    | next :: rest => (some next, rest :: queues)
    | [] => ((pop queues).1, [] :: (pop queues).2)

/-- The element goes to the end of the queue of its urgency. -/
def push (urgency : ℕ) (a : α) (queues : List (List α)) : List (List α) :=
  queues.modify urgency (· ++ [a])

variable {p}

theorem dropWhile_flatten_of_nil {queue : List α} {queues : List (List α)}
    (h : queue.dropWhile (fun a => !p a) = []) :
    (queue :: queues).flatten.dropWhile (fun a => !p a) =
      queues.flatten.dropWhile fun a => !p a := by
  rw [List.flatten_cons, List.dropWhile_append, h]
  rfl

theorem dropWhile_flatten_of_cons {queue rest : List α} {queues : List (List α)} {next : α}
    (h : queue.dropWhile (fun a => !p a) = next :: rest) :
    (queue :: queues).flatten.dropWhile (fun a => !p a) = next :: (rest ++ queues.flatten) := by
  rw [List.flatten_cons, List.dropWhile_append, h]
  rfl

/-- What `pop` does to the elements in a row. -/
theorem pop_spec (p : α → Bool) (queues : List (List α)) :
    (pop p queues).1 = (queues.flatten.dropWhile fun a => !p a).head? ∧
      (pop p queues).2.flatten = (queues.flatten.dropWhile fun a => !p a).tail := by
  induction queues with
  | nil => exact ⟨rfl, rfl⟩
  | cons queue queues ih =>
    unfold pop
    cases hdrop : queue.dropWhile fun a => !p a with
    | nil =>
      rw [dropWhile_flatten_of_nil hdrop]
      exact ih
    | cons next rest =>
      rw [dropWhile_flatten_of_cons hdrop]
      exact ⟨rfl, rfl⟩

/-- Without a next element nobody passes, and all are dropped. -/
theorem pop_eq_none {queues : List (List α)} (h : (pop p queues).1 = none) :
    (∀ a ∈ queues.flatten, p a = false) ∧ (pop p queues).2.flatten = [] := by
  obtain ⟨hnext, hrest⟩ := pop_spec p queues
  rw [h] at hnext
  have hall : (queues.flatten.dropWhile fun a => !p a) = [] := List.head?_eq_none_iff.mp hnext.symm
  rw [hall] at hrest
  refine ⟨fun a ha => ?_, hrest⟩
  simpa using List.dropWhile_eq_nil_iff.mp hall a ha

/-- The next element passes, and nobody in front of it does. -/
theorem pop_eq_some {queues : List (List α)} {next : α} (h : (pop p queues).1 = some next) :
    p next = true ∧ ∃ dropped, queues.flatten = dropped ++ next :: (pop p queues).2.flatten ∧
      ∀ a ∈ dropped, p a = false := by
  obtain ⟨hnext, hrest⟩ := pop_spec p queues
  rw [h] at hnext
  obtain ⟨rest, hdrop⟩ := List.head?_eq_some_iff.mp hnext.symm
  rw [hdrop, List.tail_cons] at hrest
  have hsplit := @List.takeWhile_append_dropWhile _ (fun a => !p a) queues.flatten
  rw [hdrop] at hsplit
  refine ⟨?_, _, (hrest ▸ hsplit).symm, fun a ha => ?_⟩
  · have hhead := List.head?_dropWhile_not (fun a => !p a) queues.flatten
    rw [hdrop] at hhead
    simpa using hhead
  · simpa using List.mem_takeWhile_imp ha

theorem push_perm {n : ℕ} {queues : List (List α)} (h : n < queues.length) (a : α) :
    (push n a queues).flatten.Perm (a :: queues.flatten) := by
  induction queues generalizing n with
  | nil => exact absurd h (Nat.not_lt_zero n)
  | cons queue queues ih =>
    unfold push
    cases n with
    | zero =>
      rw [List.modify_zero_cons, List.flatten_cons, List.append_assoc, List.flatten_cons]
      exact List.perm_middle
    | succ n =>
      rw [List.modify_succ_cons, List.flatten_cons, List.flatten_cons]
      refine List.Perm.trans (List.Perm.append_left _ (ih ?_)) List.perm_middle
      exact Nat.lt_of_succ_lt_succ h

theorem push_length (n : ℕ) (a : α) (queues : List (List α)) :
    (push n a queues).length = queues.length :=
  List.length_modify _ _ _

/-! ### Order -/

/-- The elements of the queue number `k` have urgency `k` and came in the order of
their stamps, counted from the first queue on. -/
def Ordered (urgency stamp : α → ℕ) : ℕ → List (List α) → Prop
  | _, [] => True
  | k, queue :: queues =>
    (∀ a ∈ queue, urgency a = k) ∧ queue.Pairwise (fun a b => stamp a < stamp b) ∧
      Ordered urgency stamp (k + 1) queues

variable {urgency stamp : α → ℕ} {k : ℕ} {queues queues' : List (List α)}

theorem ordered_replicate (urgency stamp : α → ℕ) (n : ℕ) :
    Ordered urgency stamp k (List.replicate n []) := by
  induction n generalizing k with
  | zero => trivial
  | succ n ih => exact ⟨by simp, List.Pairwise.nil, ih⟩

/-- Queues from which elements are left out. -/
theorem Ordered.of_sublists (h : Ordered urgency stamp k queues)
    (hsub : List.Forall₂ List.Sublist queues' queues) : Ordered urgency stamp k queues' := by
  induction hsub generalizing k with
  | nil => trivial
  | cons hqueue _ ih =>
    exact ⟨fun a ha => h.1 a (hqueue.subset ha), h.2.1.sublist hqueue, ih h.2.2⟩

theorem sublist_flatten (h : List.Forall₂ List.Sublist queues' queues) :
    queues'.flatten.Sublist queues.flatten := by
  induction h with
  | nil => exact List.Sublist.refl _
  | cons hqueue _ ih => exact hqueue.append ih

theorem sublists_pop (p : α → Bool) (queues : List (List α)) :
    List.Forall₂ List.Sublist (pop p queues).2 queues := by
  induction queues with
  | nil => exact List.Forall₂.nil
  | cons queue queues ih =>
    unfold pop
    cases hdrop : queue.dropWhile fun a => !p a with
    | nil => exact List.Forall₂.cons (List.nil_sublist _) ih
    | cons next rest =>
      refine List.Forall₂.cons ?_ (List.forall₂_same.mpr fun q _ => List.Sublist.refl q)
      exact (List.sublist_cons_self next rest).trans (hdrop ▸ List.dropWhile_sublist _)

theorem sublists_filter (p : α → Bool) (queues : List (List α)) :
    List.Forall₂ List.Sublist (queues.map (List.filter p)) queues := by
  induction queues with
  | nil => exact List.Forall₂.nil
  | cons queue queues ih => exact List.Forall₂.cons List.filter_sublist ih

theorem Ordered.push (h : Ordered urgency stamp k queues) {n : ℕ} {a : α}
    (hurgency : urgency a = k + n) (hlast : ∀ b ∈ queues.flatten, stamp b < stamp a) :
    Ordered urgency stamp k (push n a queues) := by
  induction queues generalizing k n with
  | nil =>
    unfold UrgencyQueues.push
    rw [List.modify_nil]
    trivial
  | cons queue queues ih =>
    obtain ⟨hfirst, hpairwise, hrest⟩ := h
    unfold UrgencyQueues.push
    cases n with
    | zero =>
      rw [List.modify_zero_cons]
      refine ⟨fun b hb => ?_, ?_, hrest⟩
      · rcases List.mem_append.mp hb with hold | hnew
        · exact hfirst b hold
        · rw [List.mem_singleton.mp hnew]
          exact hurgency
      · refine List.pairwise_append.mpr ⟨hpairwise, List.pairwise_singleton _ _, ?_⟩
        intro b hb c hc
        rw [List.mem_singleton.mp hc]
        exact hlast b (List.mem_append_left _ hb)
    | succ n =>
      rw [List.modify_succ_cons]
      refine ⟨hfirst, hpairwise, ih hrest ?_ fun b hb => ?_⟩
      · rw [hurgency]
        omega
      · exact hlast b (List.mem_append_right _ hb)

/-- Smaller urgency, or the same and an earlier stamp. -/
def Before (urgency stamp : α → ℕ) (a b : α) : Prop :=
  urgency a < urgency b ∨ urgency a = urgency b ∧ stamp a < stamp b

theorem Ordered.le_urgency (h : Ordered urgency stamp k queues) :
    ∀ a ∈ queues.flatten, k ≤ urgency a := by
  induction queues generalizing k with
  | nil => simp
  | cons queue queues ih =>
    intro a ha
    rcases List.mem_append.mp ha with hhere | hlater
    · exact Nat.le_of_eq (h.1 a hhere).symm
    · exact Nat.le_of_succ_le (ih h.2.2 a hlater)

theorem Ordered.pairwise (h : Ordered urgency stamp k queues) :
    queues.flatten.Pairwise (Before urgency stamp) := by
  induction queues generalizing k with
  | nil => exact List.Pairwise.nil
  | cons queue queues ih =>
    obtain ⟨hfirst, hpairwise, hrest⟩ := h
    rw [List.flatten_cons, List.pairwise_append]
    refine ⟨?_, ih hrest, fun a ha b hb => ?_⟩
    · refine List.Pairwise.imp_of_mem (fun ha hb hlt => ?_) hpairwise
      exact Or.inr ⟨(hfirst _ ha).trans (hfirst _ hb).symm, hlt⟩
    · have hb' := hrest.le_urgency b hb
      rw [← hfirst a ha] at hb'
      exact Or.inl hb'

/-- The next element is before all the others that pass. -/
theorem Ordered.pop_least (h : Ordered urgency stamp k queues) {next : α}
    (hnext : (pop p queues).1 = some next) :
    ∀ a ∈ queues.flatten, p a = true → a = next ∨ Before urgency stamp next a := by
  obtain ⟨-, dropped, hsplit, hdropped⟩ := pop_eq_some hnext
  intro a ha hpass
  have hpairwise := h.pairwise
  rw [hsplit] at ha hpairwise
  rcases List.mem_append.mp ha with hfront | hback
  · rw [hdropped a hfront] at hpass
    cases hpass
  · rcases List.mem_cons.mp hback with heq | hbehind
    · exact Or.inl heq
    · exact Or.inr ((List.pairwise_cons.mp (List.pairwise_append.mp hpairwise).2.1).1 a hbehind)

end UrgencyQueues
