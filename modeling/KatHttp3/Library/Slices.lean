import Mathlib.Data.List.Basic

/-!
# Slices

A list cut into slices of one length, the last of which may be shorter.
-/

namespace Slices

variable {α : Type*} {size : ℕ}

/-- The first slices, so many at most. -/
def cutUpTo (size : ℕ) : ℕ → List α → List (List α)
  | 0, _ => []
  | _ + 1, [] => []
  | count + 1, a :: l => (a :: l).take size :: cutUpTo size count ((a :: l).drop size)

def cut (size : ℕ) (l : List α) : List (List α) := cutUpTo size l.length l

theorem cutUpTo_append {piece : List α} (hpiece : piece.length = size) (hsize : 0 < size)
    (count : ℕ) (l : List α) :
    cutUpTo size (count + 1) (piece ++ l) = piece :: cutUpTo size count l := by
  cases piece with
  | nil => exact absurd hpiece (Nat.ne_of_lt hsize)
  | cons a piece =>
    rw [List.cons_append, cutUpTo, ← List.cons_append, ← hpiece, List.take_left, List.drop_left]

theorem cutUpTo_flatten {pieces : List (List α)} (hpieces : ∀ piece ∈ pieces, piece.length = size)
    (hsize : 0 < size) {count : ℕ} (hcount : pieces.length ≤ count) :
    cutUpTo size count pieces.flatten = pieces := by
  induction pieces generalizing count with
  | nil => cases count <;> rfl
  | cons piece pieces ih =>
    obtain ⟨count, rfl⟩ : ∃ n, count = n + 1 := ⟨count - 1, by simp at hcount; omega⟩
    rw [List.flatten_cons, cutUpTo_append (hpieces piece List.mem_cons_self) hsize]
    have hrest := ih (fun p hp => hpieces p (List.mem_cons_of_mem _ hp)) (by simpa using hcount)
    rw [hrest]

theorem length_le_length_flatten {pieces : List (List α)}
    (hpieces : ∀ piece ∈ pieces, piece.length = size) (hsize : 0 < size) :
    pieces.length ≤ pieces.flatten.length := by
  induction pieces with
  | nil => apply Nat.zero_le
  | cons piece pieces ih =>
    have hrest := ih fun p hp => hpieces p (List.mem_cons_of_mem _ hp)
    have hpiece := hpieces piece List.mem_cons_self
    rw [List.flatten_cons, List.length_append, List.length_cons]
    omega

/-- Slices of the same length are what their concatenation is cut into. -/
theorem cut_flatten {pieces : List (List α)} (hpieces : ∀ piece ∈ pieces, piece.length = size)
    (hsize : 0 < size) : cut size pieces.flatten = pieces :=
  cutUpTo_flatten hpieces hsize (length_le_length_flatten hpieces hsize)

/-! ### Any list -/

theorem cutUpTo_nil (size count : ℕ) : cutUpTo size count ([] : List α) = [] := by
  cases count <;> rfl

/-- More slices than there are elements are not needed. -/
theorem cutUpTo_of_le (hsize : 0 < size) {count other : ℕ} {l : List α} (h : l.length ≤ count)
    (hother : l.length ≤ other) : cutUpTo size count l = cutUpTo size other l := by
  induction count generalizing other l with
  | zero =>
    obtain rfl := List.length_eq_zero_iff.mp (Nat.le_zero.mp h)
    rw [cutUpTo_nil, cutUpTo_nil]
  | succ count ih =>
    cases l with
    | nil => rw [cutUpTo_nil, cutUpTo_nil]
    | cons a l =>
      cases other with
      | zero => cases hother
      | succ other =>
        have hdrop : ((a :: l).drop size).length ≤ l.length := by
          rw [List.length_drop, List.length_cons]
          omega
        rw [List.length_cons, Nat.add_le_add_iff_right] at h hother
        rw [cutUpTo, cutUpTo, ih (Nat.le_trans hdrop h) (Nat.le_trans hdrop hother)]

theorem cut_of_ne_nil (hsize : 0 < size) {l : List α} (h : l ≠ []) :
    cut size l = l.take size :: cut size (l.drop size) := by
  cases l with
  | nil => exact absurd rfl h
  | cons a l =>
    rw [cut, List.length_cons, cutUpTo, cut]
    have hdrop : ((a :: l).drop size).length ≤ l.length := by
      rw [List.length_drop, List.length_cons]
      omega
    rw [cutUpTo_of_le hsize hdrop (Nat.le_refl _)]

theorem length_cut_le (hsize : 0 < size) {count : ℕ} {l : List α} (h : l.length ≤ count * size) :
    (cut size l).length ≤ count := by
  induction count generalizing l with
  | zero =>
    obtain rfl := List.length_eq_zero_iff.mp (by omega : l.length = 0)
    exact Nat.le_refl _
  | succ count ih =>
    rcases eq_or_ne l [] with rfl | hne
    · exact Nat.zero_le _
    · rw [Nat.succ_mul] at h
      rw [cut_of_ne_nil hsize hne, List.length_cons, Nat.add_le_add_iff_right]
      apply ih
      rw [List.length_drop]
      omega

theorem length_le_of_mem_cut {piece l : List α} (h : piece ∈ cut size l) : piece.length ≤ size := by
  unfold cut at h
  generalize l.length = count at h
  induction count generalizing l with
  | zero => cases h
  | succ count ih =>
    cases l with
    | nil => cases h
    | cons a l =>
      rcases List.mem_cons.mp h with rfl | hrest
      · exact List.length_take_le _ _
      · exact ih hrest

end Slices
