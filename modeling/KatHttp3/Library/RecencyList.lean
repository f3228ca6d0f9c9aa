import Mathlib.Data.Finset.Card
import Mathlib.Data.List.Basic
import Mathlib.Data.List.Nodup

/-!
# Lists in order of use

A list with the most recently used element first. What stands in front of an element
has been used since that element was; an element that is dropped from the end of the
list has a full list of such elements in front of it.
-/

namespace RecencyList

variable {α κ : Type*}

/-- The element is in the list, and all that stands in front of it satisfies the predicate. -/
def Behind (used : α → Prop) (a : α) (l : List α) : Prop :=
  ∃ front back, l = front ++ a :: back ∧ ∀ b ∈ front, used b

variable {used : α → Prop} {a : α} {l : List α}

theorem behind_cons (used : α → Prop) (a : α) (l : List α) : Behind used a (a :: l) :=
  ⟨[], l, rfl, nofun⟩

theorem Behind.mem (h : Behind used a l) : a ∈ l := by
  obtain ⟨front, back, rfl, -⟩ := h
  exact List.mem_append_right front List.mem_cons_self

theorem Behind.mono {used' : α → Prop} (h : Behind used a l) (himp : ∀ b, used b → used' b) :
    Behind used' a l := by
  obtain ⟨front, back, hl, hfront⟩ := h
  exact ⟨front, back, hl, fun b hb => himp b (hfront b hb)⟩

theorem Behind.cons {b : α} (h : Behind used a l) (hb : used b) : Behind used a (b :: l) := by
  obtain ⟨front, back, rfl, hfront⟩ := h
  refine ⟨b :: front, back, rfl, ?_⟩
  intro c hc
  rcases List.mem_cons.mp hc with rfl | hc
  · exact hb
  · exact hfront c hc

theorem Behind.filter {p : α → Bool} (h : Behind used a l) (ha : p a = true) :
    Behind used a (l.filter p) := by
  obtain ⟨front, back, rfl, hfront⟩ := h
  refine ⟨front.filter p, back.filter p, ?_, ?_⟩
  · rw [List.filter_append, List.filter_cons_of_pos ha]
  · exact fun b hb => hfront b (List.mem_of_mem_filter hb)

theorem Behind.erase [DecidableEq α] {b : α} (h : Behind used a l) (hne : b ≠ a) :
    Behind used a (l.erase b) := by
  obtain ⟨front, back, rfl, hfront⟩ := h
  by_cases hb : b ∈ front
  · rw [List.erase_append_left _ hb]
    exact ⟨front.erase b, back, rfl, fun c hc => hfront c (List.mem_of_mem_erase hc)⟩
  · rw [List.erase_append_right _ hb, List.erase_cons_tail (by simpa using hne.symm)]
    exact ⟨front, back.erase b, rfl, hfront⟩

/-- A truncated list keeps the element if it is longer than the front. -/
theorem Behind.take {n : ℕ} (h : Behind used a l)
    (hfront : ∀ front back, l = front ++ a :: back → (∀ b ∈ front, used b) → front.length < n) :
    Behind used a (l.take n) := by
  obtain ⟨front, back, rfl, hused⟩ := h
  have hlt := hfront front back rfl hused
  refine ⟨front, back.take (n - front.length - 1), ?_, hused⟩
  rw [List.take_append, List.take_of_length_le hlt.le]
  obtain ⟨m, hm⟩ : ∃ m, n - front.length = m + 1 := ⟨n - front.length - 1, by omega⟩
  rw [hm, List.take_succ_cons]
  rfl

variable {key : α → κ}

/-- Distinct keys from a finite set are no more than that set has. -/
theorem length_le_card [DecidableEq κ] {keys : Finset κ} {front : List α}
    (hnodup : (front.map key).Nodup) (hmem : ∀ b ∈ front, key b ∈ keys) :
    front.length ≤ keys.card := by
  have hsub : (front.map key).toFinset ⊆ keys := by
    intro k hk
    obtain ⟨b, hb, rfl⟩ := List.mem_map.mp (List.mem_toFinset.mp hk)
    exact hmem b hb
  rw [← List.length_map key, ← List.toFinset_card_of_nodup hnodup]
  exact Finset.card_le_card hsub

/-- In a list with distinct keys, an element is not truncated while fewer keys than there are
places have been used since it was. -/
theorem Behind.take_of_card [DecidableEq κ] {keys : Finset κ} {n : ℕ}
    (h : Behind (fun b => key b ∈ keys) a l) (hnodup : (l.map key).Nodup) (hcard : keys.card < n) :
    Behind (fun b => key b ∈ keys) a (l.take n) := by
  apply h.take
  rintro front back rfl hfront
  rw [List.map_append] at hnodup
  exact (length_le_card hnodup.of_append_left hfront).trans_lt hcard

end RecencyList
