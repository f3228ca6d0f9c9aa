import Mathlib.Data.List.Infix
import Mathlib.Tactic.SplitIfs

/-!
# Delimited and quoted text

A text ends at the first occurrence of a delimiter. A delimiter whose first symbol does
not occur again in it cannot begin in a text and end behind it. In a quoted text an
escape symbol stands before each quote and each escape symbol.
-/

namespace Delimited

variable {α : Type*} [DecidableEq α]

/-! ### Delimiters -/

/-- What stands before and after the first occurrence of a pattern. -/
def breakOn (pattern : List α) : List α → Option (List α × List α)
  | [] => if pattern = [] then some ([], []) else none
  | a :: l =>
    if pattern <+: a :: l then some ([], (a :: l).drop pattern.length)
    else (breakOn pattern l).map fun (before, after) => (a :: before, after)

theorem breakOn_of_prefix (pattern rest : List α) :
    breakOn pattern (pattern ++ rest) = some ([], rest) := by
  cases h : pattern ++ rest with
  | nil =>
    obtain ⟨rfl, rfl⟩ := List.append_eq_nil_iff.mp h
    rfl
  | cons a l =>
    have hprefix : pattern <+: a :: l := h ▸ List.prefix_append pattern rest
    rw [breakOn, if_pos hprefix, ← h, List.drop_left]

omit [DecidableEq α] in
/-- A delimiter that reaches behind a text would have its first symbol twice. -/
theorem not_prefix {a : α} {tail text rest : List α} (ha : a ∉ tail) (hne : text ≠ [])
    (hnot : ¬a :: tail <+: text) : ¬a :: tail <+: text ++ a :: rest := by
  intro hprefix
  rcases List.prefix_or_prefix_of_prefix hprefix (List.prefix_append text _) with hinside | hshort
  · exact hnot hinside
  · obtain ⟨more, hmore⟩ := hshort
    rw [← hmore, List.prefix_append_right_inj] at hprefix
    obtain ⟨b, text', rfl⟩ := List.exists_cons_of_ne_nil hne
    obtain ⟨rfl, rfl⟩ := List.cons.inj hmore
    cases more with
    | nil => exact hnot (by simp)
    | cons c more =>
      obtain rfl := (List.cons_prefix_cons.mp hprefix).1
      exact ha (List.mem_append_right _ List.mem_cons_self)

/-- A text without the delimiter is what stands before it. -/
theorem breakOn_append {a : α} {tail text : List α} (ha : a ∉ tail) (hnot : ¬a :: tail <:+: text)
    (rest : List α) : breakOn (a :: tail) (text ++ (a :: tail ++ rest)) = some (text, rest) := by
  induction text with
  | nil => exact breakOn_of_prefix (a :: tail) rest
  | cons b text ih =>
    have hrest : ¬a :: tail <:+: text := fun h => hnot (h.trans (List.infix_cons (List.infix_refl text)))
    have hhere : ¬a :: tail <+: b :: (text ++ (a :: tail ++ rest)) :=
      not_prefix ha (List.cons_ne_nil b text) fun h => hnot h.isInfix
    rw [List.cons_append, breakOn, if_neg hhere, ih hrest, Option.map_some]

/-- What stands behind something that a text must begin with. -/
def expect (pattern text : List α) : Option (List α) :=
  if pattern <+: text then some (text.drop pattern.length) else none

theorem expect_append (pattern text : List α) : expect pattern (pattern ++ text) = some text := by
  rw [expect, if_pos (List.prefix_append pattern text), List.drop_left]

/-! ### Quotes -/

variable (quote escape : α)

/-- A text with its quotes and escape symbols escaped. -/
def quoted (text : List α) : List α :=
  text.flatMap fun a => if a = quote ∨ a = escape then [escape, a] else [a]

/-- A text up to its closing quote, and what follows. -/
def readQuoted : List α → Option (List α × List α)
  | [] => none
  | a :: l =>
    if a = quote then some ([], l)
    else if a = escape then
      match l with
      | [] => none
      | b :: l => (readQuoted l).map fun (text, rest) => (b :: text, rest)
    else (readQuoted l).map fun (text, rest) => (a :: text, rest)

variable {quote escape}

theorem quoted_append (s t : List α) :
    quoted quote escape (s ++ t) = quoted quote escape s ++ quoted quote escape t :=
  List.flatMap_append

theorem quoted_of_plain {text : List α} (h : ∀ a ∈ text, a ≠ quote ∧ a ≠ escape) :
    quoted quote escape text = text := by
  induction text with
  | nil => rfl
  | cons a text ih =>
    obtain ⟨⟨hquote, hescape⟩, hrest⟩ := List.forall_mem_cons.mp h
    unfold quoted at ih ⊢
    rw [List.flatMap_cons, ih hrest, if_neg (not_or.mpr ⟨hquote, hescape⟩), List.singleton_append]

theorem readQuoted_quote (rest : List α) :
    readQuoted quote escape (quote :: rest) = some ([], rest) := by
  cases rest <;> simp [readQuoted]

theorem readQuoted_escape (hne : quote ≠ escape) (a : α) (l : List α) :
    readQuoted quote escape (escape :: a :: l) =
      (readQuoted quote escape l).map fun (text, rest) => (a :: text, rest) := by
  simp [readQuoted, hne.symm]

theorem readQuoted_plain {a : α} (hquote : a ≠ quote) (hescape : a ≠ escape) (l : List α) :
    readQuoted quote escape (a :: l) =
      (readQuoted quote escape l).map fun (text, rest) => (a :: text, rest) := by
  cases l <;> simp [readQuoted, hquote, hescape]

theorem readQuoted_quoted (hne : quote ≠ escape) (text rest : List α) :
    readQuoted quote escape (quoted quote escape text ++ quote :: rest) = some (text, rest) := by
  induction text with
  | nil => exact readQuoted_quote rest
  | cons a text ih =>
    unfold quoted at ih ⊢
    rw [List.flatMap_cons, List.append_assoc]
    split_ifs with hspecial
    · rw [List.cons_append, List.singleton_append, readQuoted_escape hne, ih, Option.map_some]
    · obtain ⟨hquote, hescape⟩ := not_or.mp hspecial
      rw [List.singleton_append, readQuoted_plain hquote hescape, ih, Option.map_some]

end Delimited
