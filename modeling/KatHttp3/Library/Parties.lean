import KatHttp3.Library.WeightedList
import Mathlib.Tactic.SplitIfs

/-!
# Systems of parties

Parties that share a state. A move is one of a single party, which changes that
party and what all of them share; further parties may join at any time. What a
move keeps of the party and what it books in the shared state is a matter of
that party alone.
-/

namespace Parties

open WeightedList

variable {σ π : Type*}

structure System (σ π : Type*) where
  shared : σ
  parties : List π

namespace System

variable (s : System σ π)

/-- A party joins. -/
def join (party : π) : System σ π := { s with parties := s.parties ++ [party] }

/-- The party at a position makes a move, if that is possible. -/
def move (i : ℕ) (f : σ → π → Option (σ × π)) : Option (System σ π) :=
  match s.parties[i]? with
  | none => none
  | some party => (f s.shared party).map fun next => ⟨next.1, s.parties.set i next.2⟩

variable {s} {s' : System σ π} {i : ℕ} {f : σ → π → Option (σ × π)}

theorem move_eq_some :
    s.move i f = some s' ↔ ∃ party shared' party', s.parties[i]? = some party ∧
      f s.shared party = some (shared', party') ∧ s' = ⟨shared', s.parties.set i party'⟩ := by
  unfold move
  cases hparty : s.parties[i]? with
  | none => simp
  | some party =>
    simp only [Option.map_eq_some_iff, Option.some.injEq, Prod.exists, exists_and_left,
      exists_eq_left']
    constructor
    · rintro ⟨shared', party', hf, rfl⟩
      exact ⟨shared', party', hf, rfl⟩
    · rintro ⟨shared', party', hf, rfl⟩
      exact ⟨shared', party', hf, rfl⟩

/-! ### What holds of every party -/

variable {P : σ → π → Prop}

theorem forall_join (h : ∀ party ∈ s.parties, P s.shared party) {party : π}
    (hparty : P s.shared party) : ∀ p ∈ (s.join party).parties, P (s.join party).shared p := by
  intro p hp
  rcases List.mem_append.mp hp with hold | hnew
  · exact h p hold
  · rw [List.mem_singleton.mp hnew]
    exact hparty

/-- A property of all parties is kept if the move keeps it of the one that
moves, and the change of the shared state keeps it of the others. -/
theorem forall_move (h : ∀ party ∈ s.parties, P s.shared party) (hmove : s.move i f = some s')
    (hstep : ∀ party shared' party', party ∈ s.parties → f s.shared party = some (shared', party') →
      P shared' party' ∧ ∀ other ∈ s.parties, P s.shared other → P shared' other) :
    ∀ party ∈ s'.parties, P s'.shared party := by
  obtain ⟨party, shared', party', hparty, hf, rfl⟩ := move_eq_some.mp hmove
  obtain ⟨hmoved, hothers⟩ := hstep party shared' party' (List.mem_of_getElem? hparty) hf
  intro p hp
  rcases List.mem_or_eq_of_mem_set hp with hold | rfl
  · exact hothers p hold (h p hold)
  · exact hmoved

/-! ### What holds of the party at each position -/

variable {Q : σ → ℕ → π → Prop}

theorem forall_getElem_join (h : ∀ j party, s.parties[j]? = some party → Q s.shared j party)
    {party : π} (hparty : Q s.shared s.parties.length party) :
    ∀ j p, (s.join party).parties[j]? = some p → Q (s.join party).shared j p := by
  intro j p hp
  rcases Nat.lt_trichotomy j s.parties.length with hlt | rfl | hgt
  · rw [join, List.getElem?_append_left hlt] at hp
    exact h j p hp
  · rw [join, List.getElem?_concat_length] at hp
    exact Option.some.inj hp ▸ hparty
  · rw [join, List.getElem?_eq_none (by simpa using Nat.succ_le_of_lt hgt)] at hp
    cases hp

theorem forall_getElem_move (h : ∀ j party, s.parties[j]? = some party → Q s.shared j party)
    (hmove : s.move i f = some s')
    (hstep : ∀ party shared' party', s.parties[i]? = some party →
      f s.shared party = some (shared', party') →
      Q shared' i party' ∧ ∀ j other, j ≠ i → Q s.shared j other → Q shared' j other) :
    ∀ j party, s'.parties[j]? = some party → Q s'.shared j party := by
  obtain ⟨party, shared', party', hparty, hf, rfl⟩ := move_eq_some.mp hmove
  obtain ⟨hmoved, hothers⟩ := hstep party shared' party' hparty hf
  intro j other hother
  dsimp only at hother
  rw [List.getElem?_set] at hother
  split_ifs at hother with hsame
  · exact hsame ▸ Option.some.inj hother ▸ hmoved
  · exact hothers j other (fun heq => hsame heq.symm) (h j other hother)

/-! ### Accounts -/

variable {account : σ → ℕ} {weight : π → ℕ}

/-- The account of the shared state is the sum over the parties. -/
def Balanced (account : σ → ℕ) (weight : π → ℕ) (s : System σ π) : Prop :=
  account s.shared = total weight s.parties

theorem Balanced.join (h : Balanced account weight s) {party : π} (hparty : weight party = 0) :
    Balanced account weight (s.join party) := by
  rw [Balanced, System.join, total_append, total_cons, total_nil, hparty]
  exact h

/-- A move keeps the balance if it books in the account what it changes of the party. -/
theorem Balanced.move (h : Balanced account weight s) (hmove : s.move i f = some s')
    (hstep : ∀ party shared' party', s.parties[i]? = some party →
      f s.shared party = some (shared', party') →
      account shared' + weight party = account s.shared + weight party') :
    Balanced account weight s' := by
  obtain ⟨party, shared', party', hparty, hf, rfl⟩ := move_eq_some.mp hmove
  have hbooked := hstep party shared' party' hparty hf
  have hsum : total weight (s.parties.set i party') + weight party =
      total weight s.parties + weight party' :=
    total_set hparty party'
  rw [Balanced] at h ⊢
  dsimp only
  omega

theorem Balanced.weight_le (h : Balanced account weight s) {party : π}
    (hparty : party ∈ s.parties) : weight party ≤ account s.shared :=
  h ▸ weight_le_total hparty

end System

end Parties
