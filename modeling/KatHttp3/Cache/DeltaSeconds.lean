import KatHttp3.Cache.DirectiveSyntax

/-!
# Delta seconds in 64 bits

`parse_delta_seconds` with the arithmetic of `uint64_t`, which wraps around. It does
what the parser on natural numbers does, since no operation of its loop wraps.
-/

namespace KatHttp3

open Str

/-- The variables of the loop of `parse_delta_seconds`. -/
structure DeltaLoop where
  result : UInt64 := 0
  saturated : Bool := false

namespace DeltaLoop

/-- `std::numeric_limits<uint64_t>::max()`. -/
def kMax : UInt64 := UInt64.ofNat maxUint64

def digit (raw : Char) : UInt64 := UInt64.ofNat (raw.toNat - '0'.toNat)

/-- The largest result that the digit can be appended to. -/
def bound (raw : Char) : UInt64 := (kMax - digit raw) / 10

def step (s : DeltaLoop) (raw : Char) : Option DeltaLoop :=
  if raw.isDigit = false then none
  else if s.saturated then some s
  else if s.result > bound raw then some { result := kMax, saturated := true }
  else some { s with result := s.result * 10 + digit raw }

/-- `parse_delta_seconds`. -/
def parse (value : Str) : Option UInt64 :=
  let value := trimOws value
  if value = [] then none else (value.foldlM step {}).map result

/-! ### No operation wraps -/

theorem toNat_kMax : kMax.toNat = maxUint64 := by decide

theorem toNat_digit {raw : Char} (h : raw.isDigit = true) :
    (digit raw).toNat = raw.toNat - '0'.toNat := by
  apply UInt64.toNat_ofNat_of_lt'
  exact (digit_le_nine h).trans_lt (by decide)

theorem toNat_sub_digit (raw : Char) :
    (kMax - digit raw).toNat = maxUint64 - (digit raw).toNat := by
  have hle : digit raw ≤ kMax := by
    rw [UInt64.le_iff_toNat_le, toNat_kMax]
    exact Nat.le_pred_of_lt (digit raw).toNat_lt
  rw [UInt64.toNat_sub_of_le _ _ hle, toNat_kMax]

theorem toNat_bound (raw : Char) : (bound raw).toNat = (maxUint64 - (digit raw).toNat) / 10 := by
  rw [bound, UInt64.toNat_div, toNat_sub_digit]
  rfl

/-- The operations of a turn give the natural numbers that they stand for. -/
structure Exact (s : DeltaLoop) (raw : Char) : Prop where
  sub : (kMax - digit raw).toNat + (digit raw).toNat = maxUint64
  mul : s.result ≤ bound raw → (s.result * 10).toNat = s.result.toNat * 10
  add : s.result ≤ bound raw →
    (s.result * 10 + digit raw).toNat = s.result.toNat * 10 + (digit raw).toNat

theorem append_le {s : DeltaLoop} {raw : Char} (h : s.result ≤ bound raw) :
    s.result.toNat * 10 + (digit raw).toNat ≤ maxUint64 := by
  have hdigit : (digit raw).toNat ≤ maxUint64 := Nat.le_pred_of_lt (digit raw).toNat_lt
  rw [UInt64.le_iff_toNat_le, toNat_bound] at h
  omega

theorem turn_exact (s : DeltaLoop) (raw : Char) : s.Exact raw := by
  have hpow : maxUint64 < 2 ^ 64 := by decide
  have hmul : s.result ≤ bound raw → (s.result * 10).toNat = s.result.toNat * 10 := by
    intro h
    have hle := append_le h
    have hten : (10 : UInt64).toNat = 10 := rfl
    rw [UInt64.toNat_mul, hten]
    exact Nat.mod_eq_of_lt (by omega)
  constructor
  · rw [toNat_sub_digit]
    exact Nat.sub_add_cancel (Nat.le_pred_of_lt (digit raw).toNat_lt)
  · exact hmul
  · intro h
    have hle := append_le h
    rw [UInt64.toNat_add, hmul h]
    exact Nat.mod_eq_of_lt (by omega)

/-! ### The machine and the numbers -/

theorem foldlM_toNat (s : DeltaLoop) (value : Str) :
    (value.foldlM step s).map (fun t => t.result.toNat) =
      deltaDigits s.result.toNat s.saturated value := by
  induction value generalizing s with
  | nil => rfl
  | cons raw rest ih =>
    rw [List.foldlM_cons, deltaDigits, step]
    by_cases hdigit : raw.isDigit = false
    · rw [if_pos hdigit, if_pos hdigit]
      rfl
    · rw [if_neg hdigit, if_neg hdigit]
      have hvalue := toNat_digit (Bool.eq_true_of_not_eq_false hdigit)
      by_cases hsaturated : s.saturated = true
      · rw [if_pos hsaturated, if_pos hsaturated, ← hsaturated]
        exact ih s
      · rw [if_neg hsaturated, if_neg hsaturated]
        dsimp only
        have hbound := toNat_bound raw
        rw [hvalue] at hbound
        rw [← hbound]
        by_cases hlarge : s.result > bound raw
        · rw [if_pos hlarge, if_pos (UInt64.lt_iff_toNat_lt.mp hlarge), ← toNat_kMax]
          exact ih _
        · have hadd := (turn_exact s raw).add (UInt64.not_lt.mp hlarge)
          have hfalse : s.saturated = false := Bool.eq_false_of_not_eq_true hsaturated
          rw [if_neg hlarge, if_neg (fun h => hlarge (UInt64.lt_iff_toNat_lt.mpr h)), ← hvalue,
            ← hadd, ← hfalse]
          exact ih _

/-- The machine gives the number that the parser on natural numbers gives. -/
theorem parse_toNat (value : Str) : (parse value).map UInt64.toNat = parseDeltaSeconds value := by
  unfold parse parseDeltaSeconds
  dsimp only
  split_ifs
  · rfl
  · rw [Option.map_map]
    exact foldlM_toNat {} (trimOws value)

end DeltaLoop

theorem parseDeltaSeconds_eq_some_iff {value : Str} {n : ℕ} :
    parseDeltaSeconds value = some n ↔ trimOws value ≠ [] ∧
      (∀ c ∈ trimOws value, c.isDigit = true) ∧ n = min (decimal (trimOws value)) maxUint64 := by
  unfold parseDeltaSeconds
  dsimp only
  by_cases hempty : trimOws value = []
  · simp [hempty]
  rw [if_neg hempty]
  by_cases hdigits : ∀ c ∈ trimOws value, c.isDigit = true
  · rw [deltaDigits_eq hdigits (Nat.zero_le _), Option.some.injEq]
    exact ⟨fun h => ⟨hempty, hdigits, h.symm⟩, fun h => h.2.2.symm⟩
  · have hbad : ∃ c ∈ trimOws value, c.isDigit = false := by simpa using hdigits
    rw [deltaDigits_eq_none hbad]
    exact ⟨nofun, fun h => absurd h.2.1 hdigits⟩

theorem isDigit_iff {c : Char} : c.isDigit = true ↔ '0' ≤ c ∧ c ≤ '9' := by
  simp [Char.isDigit, Char.le_def]

theorem isOws_iff {c : Char} : isOws c = true ↔ c = ' ' ∨ c = '\t' := by
  simp [isOws]

/-- A number is read exactly from its digits between blanks, cut off at the largest 64-bit
number, and no operation of any turn of the loop wraps around. -/
theorem deltaSeconds_saturated_iff :
    (∀ (value : Str) (n : ℕ), (DeltaLoop.parse value).map UInt64.toNat = some n ↔
      ∃ lead digits trail, value = lead ++ digits ++ trail ∧
        (∀ c ∈ lead ++ trail, c = ' ' ∨ c = '\t') ∧ digits ≠ [] ∧
        (∀ c ∈ digits, '0' ≤ c ∧ c ≤ '9') ∧ n = min (decimal digits) (2 ^ 64 - 1)) ∧
    ∀ (s : DeltaLoop) (raw : Char), s.Exact raw := by
  refine ⟨?_, DeltaLoop.turn_exact⟩
  intro value n
  rw [DeltaLoop.parse_toNat, parseDeltaSeconds_eq_some_iff]
  constructor
  · rintro ⟨hne, hdigits, hn⟩
    obtain ⟨lead, trail, hvalue, hlead, htrail⟩ := exists_pad isOws value
    refine ⟨lead, trimOws value, trail, hvalue, ?_, hne, fun c hc => isDigit_iff.mp (hdigits c hc), hn⟩
    intro c hc
    rcases List.mem_append.mp hc with hc | hc
    · exact isOws_iff.mp (hlead c hc)
    · exact isOws_iff.mp (htrail c hc)
  · rintro ⟨lead, digits, trail, rfl, hblank, hne, hdigits, hn⟩
    have htight : Tight isOws digits := by
      apply tight_of_forall_not
      intro c hc
      rw [Bool.eq_false_iff, Ne, isOws_iff]
      rintro (rfl | rfl)
      · exact absurd (hdigits _ hc) (by decide)
      · exact absurd (hdigits _ hc) (by decide)
    have htrim : trimOws (lead ++ digits ++ trail) = digits := by
      apply trim_pad _ _ htight
      · exact fun c hc => isOws_iff.mpr (hblank c (List.mem_append_left _ hc))
      · exact fun c hc => isOws_iff.mpr (hblank c (List.mem_append_right _ hc))
    rw [htrim]
    exact ⟨hne, fun c hc => isDigit_iff.mpr (hdigits c hc), hn⟩

example : DeltaLoop.parse "184467440737095516160".toList = some DeltaLoop.kMax := by decide

end KatHttp3
