import KatHttp3.Library.WeightedList
import Mathlib.Data.List.AList

/-!
# Finite maps and their writes

A map to which a value is only ever written under a key has for every key the value
written last. A weight of the values, summed up over the map, changes with a write by
the difference of the new value to the one that it replaces.
-/

namespace LastWrite

open WeightedList

variable {ι κ β : Type*} [DecidableEq ι] [DecidableEq κ]

/-- The value last written under a name, where the newest write comes first. -/
def last (writes : List (ι × β)) (name : ι) : Option β :=
  (writes.find? fun write => decide (write.1 = name)).map Prod.snd

/-- Under the key of every name the map has what was last written. -/
def Holds (key : ι → κ) (map : AList fun _ : κ => β) (writes : List (ι × β)) : Prop :=
  ∀ name, map.lookup (key name) = last writes name

variable {key : ι → κ} {map : AList fun _ : κ => β} {writes : List (ι × β)}

theorem holds_empty (key : ι → κ) : Holds key (∅ : AList fun _ : κ => β) [] :=
  fun name => AList.lookup_empty (key name)

theorem last_cons_self (name : ι) (value : β) : last ((name, value) :: writes) name = some value := by
  rw [last, List.find?_cons_of_pos (by simp)]
  rfl

theorem last_cons_of_ne {name other : ι} (hne : name ≠ other) (value : β) :
    last ((name, value) :: writes) other = last writes other := by
  rw [last, List.find?_cons_of_neg (by simpa using hne), last]

theorem Holds.insert (h : Holds key map writes) (hkey : Function.Injective key) (name : ι)
    (value : β) : Holds key (map.insert (key name) value) ((name, value) :: writes) := by
  intro other
  rcases eq_or_ne name other with rfl | hne
  · rw [AList.lookup_insert, last_cons_self]
  · rw [AList.lookup_insert_ne (fun heq => hne (hkey heq).symm), last_cons_of_ne hne]
    exact h other

/-! ### Weights -/

variable (weight : β → ℕ)

/-- What the values of a map weigh together. -/
def weigh (map : AList fun _ : κ => β) : ℕ := total (fun entry => weight entry.2) map.entries

/-- What the value under a key weighs, if there is one. -/
def weightAt (map : AList fun _ : κ => β) (k : κ) : ℕ := (map.lookup k).elim 0 weight

theorem total_kerase (k : κ) (entries : List (Sigma fun _ : κ => β)) :
    total (fun entry => weight entry.2) (entries.kerase k) + (entries.dlookup k).elim 0 weight =
      total (fun entry => weight entry.2) entries := by
  induction entries with
  | nil => rfl
  | cons entry entries ih =>
    rcases eq_or_ne k entry.1 with rfl | hne
    · rw [List.kerase_cons_eq rfl, List.dlookup_cons_eq, total_cons, Nat.add_comm]
      rfl
    · rw [List.kerase_cons_ne hne, List.dlookup_cons_ne _ _ hne, total_cons, total_cons,
        Nat.add_assoc, ih]

theorem weightAt_le (map : AList fun _ : κ => β) (k : κ) : weightAt weight map k ≤ weigh weight map := by
  rw [weigh, ← total_kerase weight k map.entries]
  exact Nat.le_add_left _ _

theorem weigh_insert (map : AList fun _ : κ => β) (k : κ) (value : β) :
    weigh weight (map.insert k value) + weightAt weight map k = weigh weight map + weight value := by
  have hsum := total_kerase weight k map.entries
  rw [weigh, AList.entries_insert, total_cons, weigh, weightAt, AList.lookup]
  dsimp only
  omega

end LastWrite
