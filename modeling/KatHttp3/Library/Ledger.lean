import KatHttp3.Library.WeightedList

/-!
# Ledgers

Amounts that are booked under keys, and what has been booked under the keys that
pass a test. Collecting the bookings under one key each keeps every such sum,
and so does taking an amount out of the oldest bookings.
-/

namespace Ledger

open WeightedList

variable {κ : Type*} (p : κ → Bool) (log : List (κ × ℕ))

/-- The sum of the amounts under the keys that pass the test. -/
def amount : ℕ := total (fun entry => if p entry.1 then entry.2 else 0) log

@[simp] theorem amount_nil : amount p [] = 0 := rfl

@[simp] theorem amount_cons (key : κ) (n : ℕ) :
    amount p ((key, n) :: log) = (if p key then n else 0) + amount p log := total_cons _ _

@[simp] theorem amount_append (more : List (κ × ℕ)) :
    amount p (log ++ more) = amount p log + amount p more := total_append _ _

/-- Takes `n` out of the bookings under the keys that pass the test, oldest first:
what is taken and what is left. -/
def withdraw : ℕ → List (κ × ℕ) → List (κ × ℕ) × List (κ × ℕ)
  | _, [] => ([], [])
  | n, (key, m) :: rest =>
    if p key then
      let (taken, left) := withdraw (n - m) rest
      ((key, min n m) :: taken, (key, m - n) :: left)
    else
      let (taken, left) := withdraw n rest
      (taken, (key, m) :: left)

theorem amount_withdraw (q : κ → Bool) (n : ℕ) :
    amount q (withdraw p n log).1 + amount q (withdraw p n log).2 = amount q log := by
  induction log generalizing n with
  | nil => rfl
  | cons head rest ih =>
    obtain ⟨key, m⟩ := head
    unfold withdraw
    by_cases hkey : p key = true
    · have hrest := ih (n - m)
      simp only [if_pos hkey, amount_cons]
      by_cases hq : q key = true
      · simp only [if_pos hq]
        omega
      · simp only [if_neg hq]
        omega
    · have hrest := ih n
      simp only [if_neg hkey, amount_cons]
      omega

/-- As much is taken as there is. -/
theorem amount_withdrawn (n : ℕ) : amount p (withdraw p n log).1 = min n (amount p log) := by
  induction log generalizing n with
  | nil => simp [withdraw]
  | cons head rest ih =>
    obtain ⟨key, m⟩ := head
    unfold withdraw
    by_cases hkey : p key = true
    · have hrest := ih (n - m)
      simp only [if_pos hkey, amount_cons]
      omega
    · simp only [if_neg hkey, amount_cons, Nat.zero_add]
      exact ih n

/-- Nothing is taken under another key. -/
theorem amount_withdrawn_true (n : ℕ) :
    amount (fun _ => true) (withdraw p n log).1 = amount p (withdraw p n log).1 := by
  induction log generalizing n with
  | nil => rfl
  | cons head rest ih =>
    obtain ⟨key, m⟩ := head
    unfold withdraw
    by_cases hkey : p key = true
    · simp only [if_pos hkey, amount_cons, if_true]
      rw [ih]
    · simp only [if_neg hkey]
      exact ih n

theorem amount_le_true : amount p log ≤ amount (fun _ => true) log := by
  induction log with
  | nil => exact Nat.le_refl _
  | cons head rest ih =>
    obtain ⟨key, m⟩ := head
    simp only [amount_cons, if_true]
    split_ifs
    · omega
    · omega

/-- What is all booked under one key. -/
theorem amount_of_sole [BEq κ] [LawfulBEq κ] {key : κ}
    (h : amount (· == key) log = amount (fun _ => true) log) :
    amount p log = if p key then amount (· == key) log else 0 := by
  induction log with
  | nil => simp
  | cons head rest ih =>
    obtain ⟨other, m⟩ := head
    have hle := amount_le_true (· == key) rest
    simp only [amount_cons, if_true] at h ⊢
    by_cases hother : other = key
    · subst hother
      simp only [beq_self_eq_true, if_true] at h ⊢
      rw [ih (by omega)]
      split_ifs
      · rfl
      · rfl
    · have hbeq : (other == key) = false := by simpa using hother
      simp only [hbeq, Bool.false_eq_true, if_false, Nat.zero_add] at h ⊢
      have hzero : m = 0 := by omega
      rw [hzero, ite_self, Nat.zero_add, ih (by omega)]

/-- A map of sums by key after one more booking. -/
def add [DecidableEq κ] (key : κ) (n : ℕ) : List (κ × ℕ) → List (κ × ℕ)
  | [] => [(key, n)]
  | (other, sum) :: rest =>
    if other = key then (other, sum + n) :: rest else (other, sum) :: add key n rest

/-- The sums by key of all bookings. -/
def collect [DecidableEq κ] : List (κ × ℕ) :=
  log.foldl (fun sums entry => add entry.1 entry.2 sums) []

variable [DecidableEq κ]

theorem amount_add (key : κ) (n : ℕ) (sums : List (κ × ℕ)) :
    amount p (add key n sums) = amount p sums + if p key then n else 0 := by
  induction sums with
  | nil => simp [add]
  | cons head rest ih =>
    obtain ⟨other, sum⟩ := head
    unfold add
    by_cases hother : other = key
    · subst hother
      rw [if_pos rfl, amount_cons, amount_cons]
      by_cases hkey : p other = true
      · simp only [if_pos hkey]
        omega
      · simp only [if_neg hkey]
        omega
    · rw [if_neg hother, amount_cons, amount_cons, ih]
      omega

theorem amount_collect : amount p (collect log) = amount p log := by
  suffices hfrom : ∀ sums : List (κ × ℕ),
      amount p (log.foldl (fun sums entry => add entry.1 entry.2 sums) sums) =
        amount p sums + amount p log by
    simpa [collect] using hfrom []
  induction log with
  | nil =>
    intro sums
    rfl
  | cons head log ih =>
    intro sums
    obtain ⟨key, n⟩ := head
    rw [List.foldl_cons, ih, amount_add, amount_cons]
    dsimp only
    omega

omit [DecidableEq κ] in
theorem amount_true (log : List (κ × ℕ)) : amount (fun _ => true) log = (log.map Prod.snd).sum := by
  simp [amount, total]

theorem sum_collect : ((collect log).map Prod.snd).sum = (log.map Prod.snd).sum := by
  rw [← amount_true, ← amount_true]
  exact amount_collect _ log

end Ledger
