import Mathlib.Order.Lattice
import Mathlib.Tactic.ByContra

/-!
# The latest element of every key

Elements have a key and a date. A collection that keeps for every key an element
at least as late as all elements with that key answers every question about the
latest element, as long as the question looks at keys only.
-/

namespace LatestPerKey

variable {α κ δ : Type*} [LinearOrder δ] (key : α → κ) (date : α → δ)

/-- For every element there is a kept one with its key that is not earlier. -/
structure Covers (all kept : List α) : Prop where
  subset : ∀ a ∈ kept, a ∈ all
  latest : ∀ a ∈ all, ∃ b ∈ kept, key b = key a ∧ date a ≤ date b

/-- A latest element with a property. -/
structure Latest (p : α → Prop) (l : List α) (a : α) : Prop where
  mem : a ∈ l
  holds : p a
  le : ∀ b ∈ l, p b → date b ≤ date a

variable {key date} {all kept kept' : List α} {a : α}

theorem Covers.nil : Covers key date [] [] := ⟨by simp, by simp⟩

/-- Leaving out an element that is not later than a kept one. -/
theorem Covers.skip (h : Covers key date all kept) {b : α} (hb : b ∈ kept) (hkey : key b = key a)
    (hdate : date a ≤ date b) : Covers key date (all ++ [a]) kept where
  subset c hc := List.mem_append_left _ (h.subset c hc)
  latest c hc := by
    rcases List.mem_append.mp hc with hold | hnew
    · exact h.latest c hold
    · obtain rfl := List.mem_singleton.mp hnew
      exact ⟨b, hb, hkey, hdate⟩

/-- Adding an element and dropping others that are not later than it. -/
theorem Covers.insert (h : Covers key date all kept) (ha : a ∈ kept')
    (hsubset : ∀ b ∈ kept', b = a ∨ b ∈ kept)
    (hdropped : ∀ b ∈ kept, b ∈ kept' ∨ key b = key a ∧ date b ≤ date a) :
    Covers key date (all ++ [a]) kept' where
  subset b hb := by
    rcases hsubset b hb with rfl | hold
    · exact List.mem_append_right _ List.mem_cons_self
    · exact List.mem_append_left _ (h.subset b hold)
  latest c hc := by
    rcases List.mem_append.mp hc with hold | hnew
    · obtain ⟨b, hb, hkey, hdate⟩ := h.latest c hold
      rcases hdropped b hb with hstays | ⟨hsame, hearlier⟩
      · exact ⟨b, hstays, hkey, hdate⟩
      · exact ⟨a, ha, hsame.symm.trans hkey, le_trans hdate hearlier⟩
    · obtain rfl := List.mem_singleton.mp hnew
      exact ⟨c, ha, rfl, le_rfl⟩

theorem Covers.congr (h : Covers key date all kept) (hmem : ∀ a, a ∈ kept' ↔ a ∈ kept) :
    Covers key date all kept' where
  subset b hb := h.subset b ((hmem b).mp hb)
  latest c hc := by
    obtain ⟨b, hb, hrest⟩ := h.latest c hc
    exact ⟨b, (hmem b).mpr hb, hrest⟩

theorem Latest.congr {p : α → Prop} {l l' : List α} (h : Latest date p l a)
    (hmem : ∀ a, a ∈ l' ↔ a ∈ l) : Latest date p l' a :=
  ⟨(hmem a).mpr h.mem, h.holds, fun b hb => h.le b ((hmem b).mp hb)⟩

/-- Among elements of different dates there is one latest at most. -/
theorem Latest.unique {p : α → Prop} (hdates : ∀ a ∈ all, ∀ b ∈ all, date a = date b → a = b)
    {b : α} (ha : Latest date p all a) (hb : Latest date p all b) : a = b :=
  hdates a ha.mem b hb.mem (le_antisymm (hb.le a ha.mem ha.holds) (ha.le b hb.mem hb.holds))

/-- The latest kept element with a property of its key is the latest of all. -/
theorem Covers.latest_of_kept (h : Covers key date all kept) {p : α → Prop}
    (hp : ∀ a b, key a = key b → p a → p b) (ha : Latest date p kept a) : Latest date p all a where
  mem := h.subset a ha.mem
  holds := ha.holds
  le b hb hpb := by
    obtain ⟨c, hc, hkey, hdate⟩ := h.latest b hb
    exact le_trans hdate (ha.le c hc (hp b c hkey.symm hpb))

/-- A property of keys that some element has is had by a kept element. -/
theorem Covers.exists_kept (h : Covers key date all kept) {p : α → Prop}
    (hp : ∀ a b, key a = key b → p a → p b) (ha : a ∈ all) (hpa : p a) : ∃ b ∈ kept, p b := by
  obtain ⟨b, hb, hkey, -⟩ := h.latest a ha
  exact ⟨b, hb, hp a b hkey.symm hpa⟩

end LatestPerKey
