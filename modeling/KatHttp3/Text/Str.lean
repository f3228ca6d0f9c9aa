import Mathlib.Data.List.DropRight
import Mathlib.Tactic

/-!
# Byte strings and the scans the sources make over them

A `std::string` or `std::string_view` is the list of its bytes, each byte
written as the character with that code. Positions are natural numbers and
`npos` is `none`, so `substr` is a `drop` followed by a `take`. The lemmas
say where a scan stops on a string given as a concatenation, which is the
form in which the printers build their output.
-/

namespace KatHttp3

abbrev Str := List Char

namespace Str

instance instLawfulBEqStr : LawfulBEq Str := inferInstance

/-- `s.find(c)`. -/
def find (s : Str) (c : Char) : Option ℕ := s.findIdx? (· == c)

/-- `s.find_first_of(set)`. -/
def findFirstOf (s set : Str) : Option ℕ := s.findIdx? (set.contains ·)

/-- `s.rfind(c)`, which on one character is also `s.find_last_of(c)`. -/
def rfind (s : Str) (c : Char) : Option ℕ := (find s.reverse c).map fun i => s.length - 1 - i

/-- `s.substr(0, pos)`, the whole string at `npos`. -/
def upTo (s : Str) : Option ℕ → Str
  | none => s
  | some pos => s.take pos

/-- `s.substr(pos)`, empty at `npos`. -/
def startingAt (s : Str) : Option ℕ → Str
  | none => []
  | some pos => s.drop pos

def startsWith (s t : Str) : Bool := t.isPrefixOf s

/-- Optional white space of a header field: a space or a tab. -/
def isOws (c : Char) : Bool := c == ' ' || c == '\t'

/-- `trim_ows` of the cache sources and `trim` of the cookie jar. -/
def trimOws (s : Str) : Str := (s.dropWhile isOws).rdropWhile isOws

def asciiLower (s : Str) : Str := s.map Char.toLower

/-- Equality of two strings up to ASCII letter case (`ascii_iequals`, `ieq`, `case_eq`). -/
def asciiIequals (s t : Str) : Bool := asciiLower s == asciiLower t

/-- The value of a string of decimal digits. -/
def decimal (s : Str) : ℕ := Nat.ofDigitChars 10 s 0

/-- `std::from_chars` into an unsigned integer with largest value `limit`,
together with the callers' test that it consumed the whole string. -/
def fromChars (limit : ℕ) (s : Str) : Option ℕ :=
  if s ≠ [] ∧ s.all Char.isDigit ∧ decimal s ≤ limit then some (decimal s) else none

/-- `std::to_string` of an unsigned integer. -/
def ofNat (n : ℕ) : Str := Nat.toDigits 10 n

theorem upTo_isPrefix (s : Str) (pos : Option ℕ) : upTo s pos <+: s := by
  cases pos with
  | none => exact List.prefix_rfl
  | some pos => exact List.take_prefix pos s

@[simp] theorem find_nil (c : Char) : find [] c = none := rfl

theorem find_eq_none {s : Str} {c : Char} : find s c = none ↔ c ∉ s := by
  simp [find, List.findIdx?_eq_none_iff]
  constructor
  · intro h hc
    exact h c hc rfl
  · rintro h x hx rfl
    exact h hx

theorem find_append_cons {s t : Str} {c : Char} (h : c ∉ s) :
    find (s ++ c :: t) c = some s.length := by
  have hs : s.findIdx? (· == c) = none := find_eq_none.mpr h
  simp [find, List.findIdx?_append, hs, List.findIdx?_cons]

/-- What a successful `find` says: the string splits at the first occurrence. -/
theorem find_eq_some {s : Str} {c : Char} {i : ℕ} (h : find s c = some i) :
    s = s.take i ++ c :: s.drop (i + 1) ∧ c ∉ s.take i := by
  obtain ⟨hi, hc, hbefore⟩ := List.findIdx?_eq_some_iff_getElem.mp h
  have hget : s[i] = c := by simpa using hc
  constructor
  · conv_lhs => rw [← List.take_append_drop i s]
    rw [List.drop_eq_getElem_cons hi, hget]
  · intro hmem
    obtain ⟨j, hj, hjc⟩ := List.getElem_of_mem hmem
    have hji : j < i := by
      have := List.length_take_le i s
      omega
    have hne := hbefore j hji
    rw [List.getElem_take] at hjc
    simp [hjc] at hne

theorem findFirstOf_eq_none {s set : Str} : findFirstOf s set = none ↔ ∀ c ∈ s, c ∉ set := by
  simp [findFirstOf, List.findIdx?_eq_none_iff]

theorem findFirstOf_append_cons {s t set : Str} {c : Char} (h : ∀ x ∈ s, x ∉ set)
    (hc : c ∈ set) : findFirstOf (s ++ c :: t) set = some s.length := by
  have hs : s.findIdx? (set.contains ·) = none := findFirstOf_eq_none.mpr h
  have hc' : set.contains c = true := by simpa using hc
  simp only [findFirstOf, List.findIdx?_append, hs, List.findIdx?_cons, hc', if_true,
    Option.none_or, Option.map_some, Nat.zero_add]

theorem findFirstOf_before {s set : Str} {i j : ℕ} (h : findFirstOf s set = some i)
    (hij : i < j) : ∃ c ∈ s.take j, c ∈ set := by
  obtain ⟨hi, hc, -⟩ := List.findIdx?_eq_some_iff_getElem.mp h
  refine ⟨s[i], ?_, by simpa using hc⟩
  rw [List.mem_take_iff_getElem]
  exact ⟨i, by omega, rfl⟩

theorem startingAt_findFirstOf (s set : Str) :
    startingAt s (findFirstOf s set) = [] ∨
      ∃ c ∈ set, ∃ t, startingAt s (findFirstOf s set) = c :: t := by
  cases h : findFirstOf s set with
  | none => exact Or.inl rfl
  | some i =>
    obtain ⟨hi, hc, -⟩ := List.findIdx?_eq_some_iff_getElem.mp h
    exact Or.inr ⟨s[i], by simpa using hc, s.drop (i + 1), List.drop_eq_getElem_cons hi⟩

theorem rfind_eq_none {s : Str} {c : Char} : rfind s c = none ↔ c ∉ s := by
  simp [rfind, find_eq_none]

theorem rfind_append_cons {s t : Str} {c : Char} (h : c ∉ t) :
    rfind (s ++ c :: t) c = some s.length := by
  have hr : (s ++ c :: t).reverse = t.reverse ++ c :: s.reverse := by simp
  have hf : find (s ++ c :: t).reverse c = some t.reverse.length := by
    rw [hr]
    exact find_append_cons (by simpa using h)
  simp only [rfind, hf, Option.map_some, List.length_append, List.length_cons, List.length_reverse]
  congr 1
  omega

/-- A successful `rfind` splits the string at the last occurrence. -/
theorem rfind_eq_some {s : Str} {c : Char} {i : ℕ} (h : rfind s c = some i) :
    s = s.take i ++ c :: s.drop (i + 1) ∧ c ∉ s.drop (i + 1) := by
  have hmem : c ∈ s := by
    by_contra hc
    rw [rfind_eq_none.mpr hc] at h
    cases h
  obtain ⟨a, b, hs, hb⟩ : ∃ a b, s = a ++ c :: b ∧ c ∉ b := by
    obtain ⟨b, a, hr, hb⟩ := List.eq_append_cons_of_mem (List.mem_reverse.mpr hmem)
    refine ⟨a.reverse, b.reverse, ?_, by simpa using hb⟩
    have := congrArg List.reverse hr
    simpa using this
  have hi : i = a.length := by
    rw [hs, rfind_append_cons hb] at h
    exact (Option.some.inj h).symm
  subst hi
  constructor
  · simp [hs]
  · simpa [hs] using hb

@[simp] theorem fromChars_ofNat {limit n : ℕ} (h : n ≤ limit) :
    fromChars limit (ofNat n) = some n := by
  have hd : (ofNat n).all Char.isDigit = true := by
    rw [List.all_eq_true]
    intro c hc
    exact Nat.isDigit_of_mem_toDigits (by omega) (by omega) hc
  have hv : decimal (ofNat n) = n := Nat.ofDigitChars_ten_toDigits
  have hne : ofNat n ≠ [] := Nat.toDigits_ne_nil
  simp [fromChars, hd, hv, hne, h]

theorem toLower_of_upper {c : Char} (h : c.val ≥ 'A'.val ∧ c.val ≤ 'Z'.val) :
    c.toLower.val = c.val + ('a'.val - 'A'.val) :=
  congrArg Char.val (dif_pos h)

theorem toLower_of_not_upper {c : Char} (h : ¬(c.val ≥ 'A'.val ∧ c.val ≤ 'Z'.val)) :
    c.toLower = c :=
  dif_neg h

theorem toLower_toLower (c : Char) : c.toLower.toLower = c.toLower := by
  by_cases h : c.val ≥ 'A'.val ∧ c.val ≤ 'Z'.val
  · have hlower := toLower_of_upper h
    have hnot : ¬(c.toLower.val ≥ 'A'.val ∧ c.toLower.val ≤ 'Z'.val) := by
      rw [hlower]
      simp only [ge_iff_le, UInt32.le_iff_toNat_le, UInt32.toNat_add, UInt32.toNat_sub,
        UInt32.reduceToNat, Char.reduceVal] at h ⊢
      omega
    exact toLower_of_not_upper hnot
  · have hself := toLower_of_not_upper h
    rw [hself, hself]

@[simp] theorem asciiLower_asciiLower (s : Str) : asciiLower (asciiLower s) = asciiLower s := by
  unfold asciiLower
  rw [List.map_map]
  exact List.map_congr_left fun c _ => toLower_toLower c

theorem asciiIequals_iff {s t : Str} : asciiIequals s t = true ↔ asciiLower s = asciiLower t := by
  simp [asciiIequals]

theorem asciiIequals_congr {s t u : Str} (h : asciiIequals s t = true) :
    asciiIequals s u = asciiIequals t u := by
  unfold asciiIequals
  rw [asciiIequals_iff.mp h]

theorem digit_le_nine {c : Char} (h : c.isDigit = true) : c.toNat - '0'.toNat ≤ 9 := by
  simp only [Char.isDigit, ge_iff_le, Bool.and_eq_true, decide_eq_true_eq] at h
  have h9 : c.toNat ≤ '9'.toNat := h.2
  have h0 : '9'.toNat = '0'.toNat + 9 := rfl
  omega

theorem isDigit_of_mem_ofNat {n : ℕ} {c : Char} (h : c ∈ ofNat n) : c.isDigit = true :=
  Nat.isDigit_of_mem_toDigits (by omega) (by omega) h

end Str

end KatHttp3
