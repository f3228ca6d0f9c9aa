import Mathlib.Tactic.Basic

/-!
# Transition systems

A system is given by a step function: the label says which of the possible
steps is taken, and the step is undefined where it is not possible.
-/

namespace Transition

variable {σ ι : Type*} (step : σ → ι → Option σ) (ok : σ → ι → Prop)

/-- The state after a list of steps, if each of them is possible. -/
def run : σ → List ι → Option σ
  | s, [] => some s
  | s, i :: is =>
    match step s i with
    | none => none
    | some s' => run s' is

/-- Every step of a run meets the condition in the state in which it is taken. -/
def Meets : σ → List ι → Prop
  | _, [] => True
  | s, i :: is =>
    ok s i ∧
      match step s i with
      | none => True
      | some s' => Meets s' is

instance decidableMeets [∀ s i, Decidable (ok s i)] : ∀ s is, Decidable (Meets step ok s is)
  | _, [] => inferInstanceAs (Decidable True)
  | s, i :: is =>
    match h : step s i with
    | none => decidable_of_iff (ok s i) (by simp [Meets, h])
    | some s' =>
      have := decidableMeets s' is
      decidable_of_iff (ok s i ∧ Meets step ok s' is) (by simp [Meets, h])

variable {step ok}

@[simp] theorem run_nil (s : σ) : run step s [] = some s := rfl

theorem run_cons {s s' : σ} {i : ι} {is : List ι} :
    run step s (i :: is) = some s' ↔ ∃ t, step s i = some t ∧ run step t is = some s' := by
  cases h : step s i with
  | none => simp only [run, h, reduceCtorEq, false_and, exists_false]
  | some u => simp only [run, h, Option.some.injEq, exists_eq_left']

theorem meets_cons {s t : σ} {i : ι} {is : List ι} (h : step s i = some t) :
    Meets step ok s (i :: is) ↔ ok s i ∧ Meets step ok t is := by
  simp only [Meets, h]

/-- An invariant of the single step is one of every run whose steps meet the condition. -/
theorem run_invariant {Inv : σ → Prop}
    (hstep : ∀ s i s', Inv s → ok s i → step s i = some s' → Inv s') {s s' : σ} {is : List ι}
    (hrun : run step s is = some s') (hok : Meets step ok s is) (h : Inv s) : Inv s' := by
  induction is generalizing s with
  | nil =>
    obtain rfl : s = s' := Option.some.inj hrun
    exact h
  | cons i is ih =>
    obtain ⟨t, ht, hrest⟩ := run_cons.mp hrun
    simp only [Meets, ht] at hok
    exact ih hrest hok.2 (hstep s i t h hok.1 ht)

/-- The same for an invariant that every step keeps. -/
theorem run_invariant_of_step {Inv : σ → Prop}
    (hstep : ∀ s i s', Inv s → step s i = some s' → Inv s') {s s' : σ} {is : List ι}
    (hrun : run step s is = some s') (h : Inv s) : Inv s' := by
  induction is generalizing s with
  | nil =>
    obtain rfl : s = s' := Option.some.inj hrun
    exact h
  | cons i is ih =>
    obtain ⟨t, ht, hrest⟩ := run_cons.mp hrun
    exact ih hrest (hstep s i t h ht)

theorem run_append {s s' : σ} {is js : List ι} :
    run step s (is ++ js) = some s' ↔ ∃ t, run step s is = some t ∧ run step t js = some s' := by
  induction is generalizing s with
  | nil => simp
  | cons i is ih =>
    rw [List.cons_append, run_cons]
    constructor
    · rintro ⟨t, ht, hrest⟩
      obtain ⟨u, hu, hjs⟩ := ih.mp hrest
      exact ⟨u, run_cons.mpr ⟨t, ht, hu⟩, hjs⟩
    · rintro ⟨u, hu, hjs⟩
      obtain ⟨t, ht, hrest⟩ := run_cons.mp hu
      exact ⟨t, ht, ih.mpr ⟨u, hrest, hjs⟩⟩

/-- A condition that follows from another one where the invariant holds. -/
theorem Meets.mono_of_invariant {ok' : σ → ι → Prop} {Inv : σ → Prop} {s : σ} {is : List ι}
    (hmeets : Meets step ok s is)
    (hstep : ∀ s i s', Inv s → ok s i → step s i = some s' → Inv s')
    (himp : ∀ s i, Inv s → ok s i → ok' s i) (h : Inv s) : Meets step ok' s is := by
  induction is generalizing s with
  | nil => trivial
  | cons i is ih =>
    refine ⟨himp s i h hmeets.1, ?_⟩
    have hrest := hmeets.2
    split
    · trivial
    · rename_i u hu
      rw [hu] at hrest
      exact ih hrest (hstep s i u h hmeets.1 hu)

theorem Meets.mono {ok' : σ → ι → Prop} {s : σ} {is : List ι} (himp : ∀ s i, ok s i → ok' s i)
    (h : Meets step ok s is) : Meets step ok' s is := by
  have htrivial : (fun _ : σ => True) s := trivial
  exact h.mono_of_invariant (fun _ _ _ _ _ _ => trivial) (fun s i _ => himp s i) htrivial

theorem meets_append {s t : σ} {is js : List ι} (hrun : run step s is = some t) :
    Meets step ok s (is ++ js) ↔ Meets step ok s is ∧ Meets step ok t js := by
  induction is generalizing s with
  | nil =>
    obtain rfl : s = t := Option.some.inj hrun
    exact ⟨fun h => ⟨trivial, h⟩, fun h => h.2⟩
  | cons i is ih =>
    obtain ⟨u, hu, hrest⟩ := run_cons.mp hrun
    rw [List.cons_append, meets_cons hu, meets_cons hu, ih hrest, and_assoc]

/-- An invariant may speak of the steps that have been taken. -/
theorem run_invariant_history {s : σ} {Inv : List ι → σ → Prop}
    (hstep : ∀ is t i t', run step s is = some t → Inv is t → ok t i → step t i = some t' →
      Inv (is ++ [i]) t')
    {is : List ι} {s' : σ} (hrun : run step s is = some s') (hok : Meets step ok s is)
    (h : Inv [] s) : Inv is s' := by
  suffices hfrom : ∀ js before t, run step s before = some t → Inv before t →
      run step t js = some s' → Meets step ok t js → Inv (before ++ js) s' from
    hfrom is [] s rfl h hrun hok
  intro js
  induction js with
  | nil =>
    intro before t _ hinv hrun _
    obtain rfl : t = s' := Option.some.inj hrun
    rwa [List.append_nil]
  | cons i js ih =>
    intro before t hbefore hinv hrun hok
    obtain ⟨u, hu, hrest⟩ := run_cons.mp hrun
    simp only [Meets, hu] at hok
    have hmore : run step s (before ++ [i]) = some u :=
      run_append.mpr ⟨t, hbefore, run_cons.mpr ⟨u, hu, rfl⟩⟩
    have hnext := ih (before ++ [i]) u hmore (hstep before t i u hbefore hinv hok.1 hu) hrest hok.2
    rwa [List.append_assoc] at hnext

/-- A condition is exact for a property of the states when a step that misses it leads to a
state without the property. Then a run meets the condition if and only if every state
that it reaches has the property. -/
theorem meets_iff {Inv good : σ → Prop} (hgood : ∀ s, Inv s → good s)
    (hstep : ∀ s i s', Inv s → ok s i → step s i = some s' → Inv s')
    (hexact : ∀ s i s', Inv s → step s i = some s' → good s' → ok s i)
    {s s' : σ} {is : List ι} (hrun : run step s is = some s') (h : Inv s) :
    Meets step ok s is ↔
      ∀ before after t, is = before ++ after → run step s before = some t → good t := by
  induction is generalizing s with
  | nil =>
    refine ⟨?_, fun _ => trivial⟩
    intro _ before after t hsplit ht
    obtain ⟨rfl, rfl⟩ := List.append_eq_nil_iff.mp hsplit.symm
    obtain rfl : s = t := Option.some.inj ht
    exact hgood s h
  | cons i is ih =>
    obtain ⟨u, hu, hrest⟩ := run_cons.mp hrun
    simp only [Meets, hu]
    constructor
    · rintro ⟨hok, hmeets⟩ before after t hsplit ht
      rcases List.cons_eq_append_iff.mp hsplit with ⟨rfl, -⟩ | ⟨later, rfl, rfl⟩
      · obtain rfl : s = t := Option.some.inj ht
        exact hgood s h
      · obtain ⟨v, hv, hlater⟩ := run_cons.mp ht
        cases hu.symm.trans hv
        exact (ih hrest (hstep s i u h hok hu)).mp hmeets later after t rfl hlater
    · intro hreached
      have hok : ok s i :=
        hexact s i u h hu (hreached [i] is u rfl (run_cons.mpr ⟨u, hu, rfl⟩))
      refine ⟨hok, (ih hrest (hstep s i u h hok hu)).mpr ?_⟩
      intro before after t hsplit ht
      subst hsplit
      exact hreached (i :: before) after t rfl (run_cons.mpr ⟨u, hu, ht⟩)

variable (step) in
/-- The run takes the step `i` in the state `t`. -/
def Taken (s : σ) (is : List ι) (t : σ) (i : ι) : Prop :=
  ∃ before after, is = before ++ i :: after ∧ run step s before = some t

theorem Taken.append {s t : σ} {is : List ι} {i : ι} (h : Taken step s is t i) (js : List ι) :
    Taken step s (is ++ js) t i := by
  obtain ⟨before, after, rfl, hrun⟩ := h
  exact ⟨before, after ++ js, by simp, hrun⟩

theorem Meets.of_taken {s t : σ} {is : List ι} {i : ι} (h : Meets step ok s is)
    (htaken : Taken step s is t i) : ok t i := by
  obtain ⟨before, after, rfl, hrun⟩ := htaken
  induction before generalizing s with
  | nil =>
    obtain rfl : s = t := Option.some.inj hrun
    exact h.1
  | cons j before ih =>
    obtain ⟨u, hu, hrest⟩ := run_cons.mp hrun
    simp only [List.cons_append, Meets, hu] at h
    exact ih hrest h.2

theorem taken_last {s t : σ} {is : List ι} (h : run step s is = some t) (i : ι) :
    Taken step s (is ++ [i]) t i :=
  ⟨is, [], rfl, h⟩

end Transition
