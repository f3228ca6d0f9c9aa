import Mathlib.Tactic

/-!
# The Gregorian calendar

Dates of all years, counted in days from 1 January 1970 and in seconds from its
beginning. The count follows the calendar day by day, reaches every day and
keeps the order of the dates.
-/

namespace Calendar

/-- Every fourth year, of the centuries every fourth. -/
def IsLeap (year : ℤ) : Prop := year % 4 = 0 ∧ (year % 100 ≠ 0 ∨ year % 400 = 0)

instance : DecidablePred IsLeap := fun _ => inferInstanceAs (Decidable (_ ∧ _))

def monthLength (year : ℤ) (month : ℕ) : ℕ :=
  if month = 2 then if IsLeap year then 29 else 28
  else if month = 4 ∨ month = 6 ∨ month = 9 ∨ month = 11 then 30
  else 31

structure Date where
  year : ℤ
  month : ℕ
  day : ℕ
  month_pos : 1 ≤ month
  month_le : month ≤ 12
  day_pos : 1 ≤ day
  day_le : day ≤ monthLength year month
  deriving DecidableEq

/-- The days of the first months of a year. -/
def monthDays (year : ℤ) : ℕ → ℕ
  | 0 => 0
  | months + 1 => monthDays year months + monthLength year (months + 1)

/-- The days from 1 January 1970 to 1 January of a year. -/
def yearStart (year : ℤ) : ℤ :=
  365 * (year - 1) + (year - 1) / 4 - (year - 1) / 100 + (year - 1) / 400 - 719162

/-- The number of a day, counted from 1 January 1970. -/
def dayNumber (year : ℤ) (month day : ℕ) : ℤ :=
  yearStart year + monthDays year (month - 1) + day - 1

def Date.number (d : Date) : ℤ := dayNumber d.year d.month d.day

theorem monthLength_pos (year : ℤ) (month : ℕ) : 28 ≤ monthLength year month := by
  unfold monthLength
  split_ifs <;> omega

/-- The days before each month; from March on the leap day counts. -/
theorem monthDays_eq (year : ℤ) {months : ℕ} (h : months ≤ 12) :
    monthDays year months =
      [0, 31, 59, 90, 120, 151, 181, 212, 243, 273, 304, 334, 365].getD months 0 +
        if 2 ≤ months ∧ IsLeap year then 1 else 0 := by
  by_cases hleap : IsLeap year
  · interval_cases months <;> simp [monthDays, monthLength, hleap]
  · interval_cases months <;> simp [monthDays, monthLength, hleap]

theorem monthDays_year (year : ℤ) :
    monthDays year 12 = 365 + if IsLeap year then 1 else 0 := by
  rw [monthDays_eq year le_rfl]
  simp

/-- The next year begins when the days of this one are over. -/
theorem yearStart_succ (year : ℤ) : yearStart (year + 1) = yearStart year + monthDays year 12 := by
  rw [monthDays_year]
  unfold yearStart
  by_cases hleap : IsLeap year
  · rw [if_pos hleap]
    unfold IsLeap at hleap
    push_cast
    omega
  · rw [if_neg hleap]
    unfold IsLeap at hleap
    push_cast
    omega

/-! ### The day after -/

def Date.next (d : Date) : Date :=
  if hday : d.day < monthLength d.year d.month then
    { d with
      day := d.day + 1
      day_pos := Nat.succ_pos _
      day_le := hday }
  else if hmonth : d.month < 12 then
    { year := d.year
      month := d.month + 1
      day := 1
      month_pos := Nat.succ_pos _
      month_le := hmonth
      day_pos := le_rfl
      day_le := (by decide : 1 ≤ 28).trans (monthLength_pos _ _) }
  else
    { year := d.year + 1
      month := 1
      day := 1
      month_pos := le_rfl
      month_le := by decide
      day_pos := le_rfl
      day_le := (by decide : 1 ≤ 28).trans (monthLength_pos _ _) }

theorem Date.number_next (d : Date) : d.next.number = d.number + 1 := by
  have hsucc : d.month - 1 + 1 = d.month := Nat.sub_add_cancel d.month_pos
  have hlast := d.day_le
  have hpos := d.day_pos
  have hdays : monthDays d.year d.month =
      monthDays d.year (d.month - 1) + monthLength d.year d.month := by
    conv_lhs => rw [← hsucc, monthDays, hsucc]
  unfold Date.next
  split_ifs with hday hmonth
  · change dayNumber d.year d.month (d.day + 1) = dayNumber d.year d.month d.day + 1
    unfold dayNumber
    omega
  · change dayNumber d.year (d.month + 1) 1 = dayNumber d.year d.month d.day + 1
    unfold dayNumber
    rw [Nat.add_sub_cancel, hdays]
    omega
  · change dayNumber (d.year + 1) 1 1 = dayNumber d.year d.month d.day + 1
    have htwelve : d.month = 12 := by
      have := d.month_le
      omega
    unfold dayNumber
    rw [yearStart_succ, ← htwelve, hdays, Nat.sub_self, monthDays]
    push_cast
    omega

/-- 1 January of a year. -/
def newYear (year : ℤ) : Date where
  year := year
  month := 1
  day := 1
  month_pos := le_rfl
  month_le := by decide
  day_pos := le_rfl
  day_le := (by decide : 1 ≤ 28).trans (monthLength_pos _ _)

theorem number_newYear (year : ℤ) : (newYear year).number = yearStart year := by
  change dayNumber year 1 1 = yearStart year
  unfold dayNumber
  rw [Nat.sub_self, monthDays]
  omega

example : (newYear 1970).number = 0 := by decide

theorem exists_number_add (d : Date) (k : ℕ) : ∃ e : Date, e.number = d.number + k := by
  induction k with
  | zero => exact ⟨d, by simp⟩
  | succ k ih =>
    obtain ⟨e, he⟩ := ih
    refine ⟨e.next, ?_⟩
    rw [e.number_next, he]
    push_cast
    ring

/-- Every day has a date. -/
theorem exists_number (n : ℤ) : ∃ d : Date, d.number = n := by
  obtain ⟨d, hd⟩ : ∃ d : Date, d.number ≤ n := by
    refine ⟨newYear (min n 0), ?_⟩
    rw [number_newYear]
    unfold yearStart
    omega
  obtain ⟨e, he⟩ := exists_number_add d (n - d.number).toNat
  exact ⟨e, by omega⟩

/-- The day of the week, 0 for a Sunday; 1 January 1970 was a Thursday. -/
def weekday (n : ℤ) : ℕ := ((n + 4) % 7).toNat

theorem weekday_lt (n : ℤ) : weekday n < 7 := by
  unfold weekday
  omega

/-! ### The order of the dates -/

def Date.Before (a b : Date) : Prop :=
  a.year < b.year ∨ a.year = b.year ∧ (a.month < b.month ∨ a.month = b.month ∧ a.day < b.day)

theorem monthDays_mono (year : ℤ) : Monotone (monthDays year) :=
  monotone_nat_of_le_succ fun _ => Nat.le_add_right _ _

/-- A date lies within its month. -/
theorem Date.number_bounds (d : Date) :
    yearStart d.year + monthDays d.year (d.month - 1) ≤ d.number ∧
      d.number < yearStart d.year + monthDays d.year d.month := by
  have hdays : monthDays d.year d.month =
      monthDays d.year (d.month - 1) + monthLength d.year d.month := by
    conv_lhs => rw [← Nat.sub_add_cancel d.month_pos, monthDays, Nat.sub_add_cancel d.month_pos]
  have hfirst := d.day_pos
  have hlast := d.day_le
  unfold Date.number dayNumber
  omega

theorem yearStart_add_le {y y' : ℤ} (h : y < y') : yearStart y + monthDays y 12 ≤ yearStart y' := by
  rw [← yearStart_succ]
  unfold yearStart
  omega

/-- A date lies within its year. -/
theorem Date.year_bounds (d : Date) :
    yearStart d.year ≤ d.number ∧ d.number < yearStart (d.year + 1) := by
  have hmonth := d.number_bounds
  have hlast := monthDays_mono d.year d.month_le
  rw [yearStart_succ]
  omega

/-- The days of a range of years. -/
theorem Date.year_mem_iff (d : Date) {first last : ℤ} :
    first ≤ d.year ∧ d.year ≤ last ↔ yearStart first ≤ d.number ∧ d.number < yearStart (last + 1) := by
  have hyear := d.year_bounds
  have hmono : ∀ {y y' : ℤ}, y ≤ y' → yearStart y ≤ yearStart y' := by
    intro y y' hle
    unfold yearStart
    omega
  constructor
  · rintro ⟨hfirst, hlast⟩
    have hlow := hmono hfirst
    have hhigh := hmono (Int.add_le_add_right hlast 1)
    omega
  · rintro ⟨hfirst, hlast⟩
    constructor
    · by_contra hearly
      have := hmono (show d.year + 1 ≤ first by omega)
      omega
    · by_contra hlate
      have := hmono (show last + 1 ≤ d.year by omega)
      omega

theorem Date.Before.number_lt {a b : Date} (h : a.Before b) : a.number < b.number := by
  have ha := a.number_bounds
  have hb := b.number_bounds
  rcases h with hyear | ⟨hyear, hmonth | ⟨hmonth, hday⟩⟩
  · have hlast := monthDays_mono a.year a.month_le
    have hnext := yearStart_add_le hyear
    omega
  · have hlater := monthDays_mono a.year (Nat.le_sub_one_of_lt hmonth)
    rw [← hyear] at hb
    omega
  · unfold Date.number dayNumber
    rw [hyear, hmonth]
    omega

theorem Date.before_or_eq (a b : Date) : a.Before b ∨ a = b ∨ b.Before a := by
  have hsame : a.year = b.year → a.month = b.month → a.day = b.day → a = b := by
    cases a
    cases b
    rintro rfl rfl rfl
    rfl
  unfold Date.Before
  by_cases hyear : a.year = b.year
  · by_cases hmonth : a.month = b.month
    · by_cases hday : a.day = b.day
      · exact Or.inr (Or.inl (hsame hyear hmonth hday))
      · omega
    · omega
  · omega

/-! ### Times of day -/

/-- What a date and a time of day are written with. -/
structure Fields where
  year : ℤ
  month : ℕ
  day : ℕ
  hour : ℕ
  minute : ℕ
  second : ℕ
  deriving DecidableEq

namespace Fields

/-- The date is in the calendar and the time on the clock, leap seconds included. -/
structure Exists (f : Fields) : Prop where
  month_pos : 1 ≤ f.month
  month_le : f.month ≤ 12
  day_pos : 1 ≤ f.day
  day_le : f.day ≤ monthLength f.year f.month
  hour_le : f.hour ≤ 23
  minute_le : f.minute ≤ 59
  second_le : f.second ≤ 60

def Exists.date {f : Fields} (h : f.Exists) : Date :=
  ⟨f.year, f.month, f.day, h.month_pos, h.month_le, h.day_pos, h.day_le⟩

def secondOfDay (f : Fields) : ℕ := f.hour * 3600 + f.minute * 60 + f.second

/-- Seconds from the beginning of 1970. -/
def timestamp (f : Fields) : ℤ := dayNumber f.year f.month f.day * 86400 + f.secondOfDay

/-- The lexicographic order. -/
def Before (a b : Fields) : Prop :=
  a.year < b.year ∨ a.year = b.year ∧ (a.month < b.month ∨ a.month = b.month ∧
    (a.day < b.day ∨ a.day = b.day ∧ (a.hour < b.hour ∨ a.hour = b.hour ∧
      (a.minute < b.minute ∨ a.minute = b.minute ∧ a.second < b.second))))

theorem before_or_eq (a b : Fields) : a.Before b ∨ a = b ∨ b.Before a := by
  by_cases heq : a = b
  · exact Or.inr (Or.inl heq)
  · have hdiffer : ¬ (a.year = b.year ∧ a.month = b.month ∧ a.day = b.day ∧ a.hour = b.hour ∧
        a.minute = b.minute ∧ a.second = b.second) := by
      cases a
      cases b
      rintro ⟨rfl, rfl, rfl, rfl, rfl, rfl⟩
      exact heq rfl
    unfold Before
    omega

/-- Without leap seconds, a later time of a later or the same date has a larger timestamp. -/
theorem Before.timestamp_lt {a b : Fields} (ha : a.Exists) (hb : b.Exists) (hsecond : a.second ≤ 59)
    (h : a.Before b) : a.timestamp < b.timestamp := by
  have hhour := ha.hour_le
  have hminute := ha.minute_le
  by_cases hdate : ha.date.Before hb.date
  · have hnumber : dayNumber a.year a.month a.day < dayNumber b.year b.month b.day :=
      hdate.number_lt
    unfold timestamp secondOfDay
    omega
  · obtain ⟨hyear, hmonth, hday, htime⟩ : a.year = b.year ∧ a.month = b.month ∧ a.day = b.day ∧
        (a.hour < b.hour ∨ a.hour = b.hour ∧
          (a.minute < b.minute ∨ a.minute = b.minute ∧ a.second < b.second)) := by
      unfold Date.Before at hdate
      unfold Before at h
      change ¬ (a.year < b.year ∨ a.year = b.year ∧
        (a.month < b.month ∨ a.month = b.month ∧ a.day < b.day)) at hdate
      tauto
    unfold timestamp secondOfDay
    rw [hyear, hmonth, hday]
    omega

theorem timestamp_lt_iff {a b : Fields} (ha : a.Exists) (hb : b.Exists) (hsecond : a.second ≤ 59)
    (hsecond' : b.second ≤ 59) : a.timestamp < b.timestamp ↔ a.Before b := by
  constructor
  · intro hlt
    rcases a.before_or_eq b with hbefore | rfl | hbefore
    · exact hbefore
    · exact absurd hlt (lt_irrefl _)
    · exact absurd hlt (hbefore.timestamp_lt hb ha hsecond').le.not_gt
  · exact fun hbefore => hbefore.timestamp_lt ha hb hsecond

end Fields

end Calendar
