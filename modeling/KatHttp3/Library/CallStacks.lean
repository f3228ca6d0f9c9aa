import KatHttp3.Library.WeightedList
import Mathlib.Data.List.Perm.Basic
import Mathlib.Tactic.Basic

/-!
# Threads and locks

The threads of a program are their call stacks, innermost frame first, and a
step of a thread replaces its innermost frame. A quantity that every frame
carries is then known for the whole program once it is known what the step does
to the frame it replaces.
-/

namespace CallStacks

open WeightedList

variable {φ : Type*} {threads : List (List φ)} {t : ℕ} {frame : φ} {rest : List φ}

/-- The frames of all threads but one, which a step leaves alone. They are deeper in
the same call stack or belong to another thread. -/
theorem exists_others (h : threads[t]? = some (frame :: rest)) :
    ∃ others, threads.flatten.Perm (frame :: others) ∧
      (∀ frames, (threads.set t (frames ++ rest)).flatten.Perm (frames ++ others)) ∧
      ∀ other ∈ others,
        other ∈ rest ∨ ∃ (u : ℕ) (stack : List φ), u ≠ t ∧ threads[u]? = some stack ∧ other ∈ stack := by
  induction threads generalizing t with
  | nil => cases h
  | cons stack threads ih =>
    cases t with
    | zero =>
      cases h
      refine ⟨rest ++ threads.flatten, by simp, ?_, ?_⟩
      · intro frames
        rw [List.set_cons_zero, List.flatten_cons, List.append_assoc]
      · intro other hother
        rcases List.mem_append.mp hother with hrest | hmore
        · exact Or.inl hrest
        · obtain ⟨stack, hstack, hin⟩ := List.mem_flatten.mp hmore
          obtain ⟨u, hu⟩ := List.mem_iff_getElem?.mp hstack
          exact Or.inr ⟨u + 1, stack, Nat.succ_ne_zero u, hu, hin⟩
    | succ t =>
      obtain ⟨others, hperm, hset, hmem⟩ := ih h
      refine ⟨stack ++ others, ?_, ?_, ?_⟩
      · rw [List.flatten_cons]
        exact (hperm.append_left stack).trans List.perm_middle
      · intro frames
        rw [List.set_cons_succ, List.flatten_cons]
        exact ((hset frames).append_left stack).trans (List.perm_append_comm_assoc ..)
      · intro other hother
        rcases List.mem_append.mp hother with hstack | hmore
        · exact Or.inr ⟨0, stack, (Nat.succ_ne_zero t).symm, rfl, hstack⟩
        · rcases hmem other hmore with hrest | ⟨u, found, hut, hu, hin⟩
          · exact Or.inl hrest
          · exact Or.inr ⟨u + 1, found, fun heq => hut (Nat.succ.inj heq), hu, hin⟩

/-- A call adds one frame to the stack of its thread. -/
theorem flatten_call {stack : List φ} (h : threads[t]? = some stack) (frame : φ) :
    (threads.set t (frame :: stack)).flatten.Perm (frame :: threads.flatten) := by
  induction threads generalizing t with
  | nil => cases h
  | cons head threads ih =>
    cases t with
    | zero =>
      cases h
      rw [List.set_cons_zero, List.flatten_cons, List.flatten_cons, List.cons_append]
    | succ t =>
      rw [List.set_cons_succ, List.flatten_cons, List.flatten_cons]
      exact ((ih h).append_left head).trans List.perm_middle

/-- The others stay when one element is replaced. -/
theorem getElem?_set_cases {α : Type*} {xs : List α} {y x : α} {u : ℕ}
    (h : (xs.set t y)[u]? = some x) : u = t ∧ x = y ∨ u ≠ t ∧ xs[u]? = some x := by
  by_cases hut : u = t
  · subst hut
    have hlt : u < xs.length := by
      have := (List.getElem?_eq_some_iff.mp h).1
      rwa [List.length_set] at this
    rw [List.getElem?_set_self hlt] at h
    exact Or.inl ⟨rfl, (Option.some.inj h).symm⟩
  · rw [List.getElem?_set_ne (Ne.symm hut)] at h
    exact Or.inr ⟨hut, h⟩

/-! ### Recursive locks -/

/-- The thread that holds the lock and how often it has locked it again. -/
abbrev RecursiveLock := Option (ℕ × ℕ)

namespace RecursiveLock

/-- How often a thread holds the lock. -/
def depth (lock : RecursiveLock) (t : ℕ) : ℕ :=
  match lock with
  | none => 0
  | some (owner, again) => if owner = t then again + 1 else 0

/-- The lock after a thread has taken it, if it can. -/
def acquire (lock : RecursiveLock) (t : ℕ) : Option RecursiveLock :=
  match lock with
  | none => some (some (t, 0))
  | some (owner, again) => if owner = t then some (some (t, again + 1)) else none

/-- The lock after its owner has given it back once. -/
def release : RecursiveLock → RecursiveLock
  | none => none
  | some (_, 0) => none
  | some (owner, again + 1) => some (owner, again)

variable {lock lock' : RecursiveLock} {u : ℕ}

@[simp] theorem depth_none : depth none t = 0 := rfl

theorem eq_of_depth_pos (ht : 0 < lock.depth t) (hu : 0 < lock.depth u) : t = u := by
  match lock with
  | none => cases ht
  | some (owner, again) =>
    unfold depth at ht hu
    dsimp only at ht hu
    split_ifs at ht with hownert
    · split_ifs at hu with howneru
      · exact hownert.symm.trans howneru
      · omega
    · omega

theorem depth_acquire (h : lock.acquire t = some lock') :
    lock'.depth u = lock.depth u + if u = t then 1 else 0 := by
  match lock with
  | none =>
    cases h
    by_cases hut : t = u
    · simp [depth, hut]
    · simp [depth, hut, Ne.symm hut]
  | some (owner, again) =>
    unfold acquire at h
    dsimp only at h
    split_ifs at h with howner
    cases h
    subst howner
    by_cases hut : owner = u
    · simp [depth, hut]
    · simp [depth, hut, Ne.symm hut]

theorem depth_release (h : 0 < lock.depth t) :
    lock.release.depth u = lock.depth u - if u = t then 1 else 0 := by
  match lock with
  | none => cases h
  | some (owner, again) =>
    unfold depth at h
    dsimp only at h
    split_ifs at h with howner
    · subst howner
      cases again with
      | zero =>
        by_cases hut : owner = u
        · simp [depth, release, hut]
        · simp [depth, release, hut]
      | succ again =>
        by_cases hut : owner = u
        · simp [depth, release, hut]
        · simp [depth, release, hut]
    · omega

theorem depth_eq_release_add (h : 0 < lock.depth t) (u : ℕ) :
    lock.depth u = lock.release.depth u + if u = t then 1 else 0 := by
  have hdepth := depth_release (u := u) h
  by_cases hut : u = t
  · subst hut
    rw [if_pos rfl] at hdepth ⊢
    omega
  · rw [if_neg hut] at hdepth ⊢
    omega

end RecursiveLock

end CallStacks
