import KatHttp3.Text.Str

/-!
# Spellings

What two texts have in common that are equal up to letter case.
-/

namespace KatHttp3.Str

theorem isLower_eq (c : Char) :
    c.isLower = (decide (c.val ≥ 'a'.val) && decide (c.val ≤ 'z'.val)) := rfl

theorem isUpper_eq (c : Char) : c.isUpper = decide (c.val ≥ 'A'.val ∧ c.val ≤ 'Z'.val) := rfl

theorem isAlpha_eq (c : Char) : c.isAlpha = (c.isUpper || c.isLower) := rfl

/-- Only letters change with their case. -/
theorem eq_of_toLower_eq {c d : Char} (h : c.toLower = d) (hd : d.isLower = false) : c = d := by
  by_cases hupper : c.val ≥ 'A'.val ∧ c.val ≤ 'Z'.val
  · have hlower := toLower_of_upper hupper
    have : d.isLower = true := by
      rw [← h, isLower_eq, hlower]
      simp only [ge_iff_le, UInt32.le_iff_toNat_le, UInt32.toNat_add, UInt32.toNat_sub,
        UInt32.reduceToNat, Char.reduceVal, Bool.and_eq_true, decide_eq_true_eq] at hupper ⊢
      omega
    rw [hd] at this
    cases this
  · rwa [toLower_of_not_upper hupper] at h

theorem length_eq_of_asciiIequals {s t : Str} (h : asciiIequals s t = true) :
    s.length = t.length := by
  have := congrArg List.length (asciiIequals_iff.mp h)
  simpa [asciiLower] using this

/-- A character that is no letter stands in both spellings or in none. -/
theorem mem_of_asciiIequals {s t : Str} (h : asciiIequals s t = true) {c : Char}
    (hself : c.toLower = c) (hletter : c.isLower = false) (hc : c ∈ s) : c ∈ t := by
  have hlower : s.map Char.toLower = t.map Char.toLower := asciiIequals_iff.mp h
  have hmem : c ∈ t.map Char.toLower := by
    rw [← hlower, ← hself]
    exact List.mem_map_of_mem hc
  obtain ⟨d, hd, hdc⟩ := List.mem_map.mp hmem
  rw [eq_of_toLower_eq hdc hletter] at hd
  exact hd

end KatHttp3.Str
