import KatHttp3.Cache.HttpDate
import KatHttp3.Library.Calendar

/-!
# The day arithmetic of HTTP dates

`days_from_civil` and `civil_from_days` count in years that begin in March and
in eras of 400 years. They agree with the calendar on every date.
-/

namespace KatHttp3

open Calendar

/-- The division that C++ truncates, after the correction for negative numbers. -/
theorem tdiv_corrected (a : ℤ) {n c : ℤ} (hn : 0 < n) (hc : c = n - 1) :
    (if 0 ≤ a then a else a - c).tdiv n = a / n := by
  split_ifs with ha
  · exact Int.tdiv_eq_ediv_of_nonneg ha
  · have hmod := Int.emod_nonneg a hn.ne'
    have hlt := Int.emod_lt_of_pos a hn
    have hdiv := Int.mul_ediv_add_emod a n
    have hsplit : c - a = (n - 1 - a % n) + n * -(a / n) := by
      rw [hc]
      linarith
    have hneg : a - c = -(c - a) := by ring
    rw [hneg, Int.neg_tdiv, Int.tdiv_eq_ediv_of_nonneg (by omega), hsplit,
      Int.add_mul_ediv_left _ _ hn.ne', Int.ediv_eq_zero_of_lt (by omega) (by omega)]
    ring

theorem leapYear_iff (year : ℤ) : leapYear year = true ↔ IsLeap year := by
  have hdvd : ∀ n : ℤ, year.tmod n = 0 ↔ year % n = 0 := fun n => by
    rw [← Int.dvd_iff_tmod_eq_zero, ← Int.dvd_iff_emod_eq_zero]
  unfold leapYear IsLeap
  rw [decide_eq_true_iff, hdvd, hdvd, ne_eq, hdvd]

theorem daysInMonth_eq (year : ℤ) {month : ℕ} (hpos : 1 ≤ month) (hle : month ≤ 12) :
    daysInMonth year month = monthLength year month := by
  unfold daysInMonth monthLength
  simp only [leapYear_iff]
  by_cases hleap : IsLeap year
  · interval_cases month <;> simp [hleap]
  · interval_cases month <;> simp [hleap]

/-- The years that begin in March. -/
def marchYear (year : ℤ) (month : ℕ) : ℤ := if month ≤ 2 then year - 1 else year

/-- The months counted from March. -/
def marchMonth (month : ℕ) : ℕ := if 2 < month then month - 3 else month + 9

/-- The days of a year before a month, counted from March. -/
def marchDays (months : ℕ) : ℕ := (153 * months + 2) / 5

/-- The formula of `days_from_civil` without its eras. -/
theorem daysFromCivil_march (year : ℤ) (month : ℕ) {day : ℕ} (hday : 1 ≤ day) :
    daysFromCivil year month day =
      365 * marchYear year month + marchYear year month / 4 - marchYear year month / 100 +
        marchYear year month / 400 + marchDays (marchMonth month) + day - 719469 := by
  unfold daysFromCivil
  dsimp only
  change _ + ((_ + (marchDays (marchMonth month) + day - 1) : ℕ) : ℤ) - _ = _
  rw [show (if month ≤ 2 then year - 1 else year) = marchYear year month from rfl]
  rw [tdiv_corrected (marchYear year month) (by decide) (by decide)]
  generalize marchYear year month = y
  omega

/-- The days before a month, counted from March of the year before or of this one. -/
theorem marchDays_eq {month : ℕ} (hpos : 1 ≤ month) (hle : month ≤ 12) :
    marchDays (marchMonth month) + (if month ≤ 2 then 0 else 365) =
      [0, 31, 59, 90, 120, 151, 181, 212, 243, 273, 304, 334, 365].getD (month - 1) 0 + 306 := by
  interval_cases month <;> rfl

theorem daysFromCivil_eq (year : ℤ) {month day : ℕ} (hpos : 1 ≤ month) (hle : month ≤ 12)
    (hday : 1 ≤ day) : daysFromCivil year month day = dayNumber year month day := by
  have hmonths := marchDays_eq hpos hle
  rw [daysFromCivil_march year month hday, dayNumber, monthDays_eq year (by omega)]
  unfold yearStart marchYear
  by_cases hearly : month ≤ 2
  · rw [if_pos hearly] at hmonths ⊢
    rw [if_neg (fun h => absurd h.1 (by omega))]
    omega
  · rw [if_neg hearly] at hmonths ⊢
    have hlate : 2 ≤ month - 1 := by omega
    by_cases hleap : IsLeap year
    · rw [if_pos ⟨hlate, hleap⟩]
      unfold IsLeap at hleap
      omega
    · rw [if_neg (fun h => hleap h.2)]
      unfold IsLeap at hleap
      omega

/-! ### Back to year, month and day -/

/-- The day of the year that begins in March: a leap day is the last one. -/
theorem marchDay_le {year : ℤ} {month day : ℕ} (hpos : 1 ≤ month) (hle : month ≤ 12)
    (hlast : day ≤ monthLength year month) :
    marchDays (marchMonth month) + day ≤
      365 + if IsLeap (marchYear year month + 1) then 1 else 0 := by
  unfold marchDays marchMonth marchYear
  unfold monthLength at hlast
  by_cases hleap : IsLeap year
  · interval_cases month <;> simp [hleap] at hlast ⊢ <;> omega
  · interval_cases month <;> simp [hleap] at hlast ⊢ <;> omega

/-- The month is found again from the day of the year. -/
theorem marchMonth_eq {year : ℤ} {month day : ℕ} (hpos : 1 ≤ month) (hle : month ≤ 12)
    (hday : 1 ≤ day) (hlast : day ≤ monthLength year month) :
    (5 * (marchDays (marchMonth month) + (day - 1)) + 2) / 153 = marchMonth month := by
  have hlength : day ≤ [31, 31, 29, 31, 30, 31, 30, 31, 31, 30, 31, 30].getD (month % 12) 0 := by
    unfold monthLength at hlast
    by_cases hleap : IsLeap year
    · interval_cases month <;> simp [hleap] at hlast ⊢ <;> omega
    · interval_cases month <;> simp [hleap] at hlast ⊢ <;> omega
  unfold marchDays marchMonth
  interval_cases month <;> simp at hlength ⊢ <;> omega

/-- The year within an era is found again from the day of the era. -/
theorem yearOfEra_eq {yearOfEra dayOfYear : ℕ} (hyear : yearOfEra < 400)
    (hday : dayOfYear < 365 + if IsLeap (yearOfEra + 1) then 1 else 0) {dayOfEra : ℕ}
    (hera : dayOfEra = 365 * yearOfEra + yearOfEra / 4 - yearOfEra / 100 + dayOfYear) :
    (dayOfEra - dayOfEra / 1460 + dayOfEra / 36524 - dayOfEra / 146096) / 365 = yearOfEra := by
  obtain ⟨c, k, j, hc, hk, hj, rfl⟩ : ∃ c k j, c < 4 ∧ k < 25 ∧ j < 4 ∧
      yearOfEra = 100 * c + 4 * k + j :=
    ⟨yearOfEra / 100, yearOfEra % 100 / 4, yearOfEra % 4, by omega, by omega, by omega, by omega⟩
  have hleap : IsLeap ((100 * c + 4 * k + j : ℕ) + 1) ↔ j = 3 ∧ (k ≠ 24 ∨ c = 3) := by
    unfold IsLeap
    omega
  have hera' : dayOfEra = 36524 * c + 1461 * k + 365 * j + dayOfYear := by omega
  rw [if_congr hleap rfl rfl] at hday
  clear hera hleap hyear
  have hcentury : dayOfEra / 36524 - dayOfEra / 146096 = c := by
    split_ifs at hday <;> omega
  -- one day of every four years and the last days of the centuries are counted twice here
  obtain ⟨e, hquads, he, hlate⟩ : ∃ e, dayOfEra / 1460 = 25 * c + k + e ∧ e ≤ dayOfYear ∧
      dayOfYear < 365 + e := by
    refine ⟨dayOfEra / 1460 - (25 * c + k), ?_, ?_, ?_⟩
    · omega
    · split_ifs at hday <;> omega
    · split_ifs at hday <;> omega
  have hsplit : dayOfEra - dayOfEra / 1460 + dayOfEra / 36524 - dayOfEra / 146096 =
      365 * (100 * c + 4 * k + j) + (dayOfYear - e) := by
    omega
  rw [hsplit]
  omega

theorem isLeap_emod (y : ℤ) : IsLeap ((y % 400).toNat + 1) ↔ IsLeap (y + 1) := by
  unfold IsLeap
  omega

/-- The day of the era of a day of a year that begins in March. -/
def dayOfEra (y : ℤ) (dayOfYear : ℕ) : ℕ :=
  365 * (y % 400).toNat + (y % 400).toNat / 4 - (y % 400).toNat / 100 + dayOfYear

/-- The steps of `civil_from_days` for a day of an era. -/
theorem civilFromDays_era (y : ℤ) {dayOfYear : ℕ}
    (hday : dayOfYear < 365 + if IsLeap (y + 1) then 1 else 0) :
    civilFromDays (y / 400 * 146097 + dayOfEra y dayOfYear - 719468) =
      let months := (5 * dayOfYear + 2) / 153
      let month := if months < 10 then months + 3 else months - 9
      (if month ≤ 2 then y + 1 else y, month, dayOfYear - marchDays months + 1) := by
  have hyear : (y % 400).toNat < 400 := by omega
  have hwhole : ((y % 400).toNat : ℤ) + y / 400 * 400 = y := by omega
  have hday' : dayOfYear < 365 + if IsLeap ((y % 400).toNat + 1) then 1 else 0 := by
    rwa [if_congr (isLeap_emod y) rfl rfl]
  have hfound := yearOfEra_eq hyear hday' (show dayOfEra y dayOfYear = _ from rfl)
  have hdays : dayOfYear ≤ 365 := by
    split_ifs at hday <;> omega
  have hlt : dayOfEra y dayOfYear < 146097 := by
    unfold dayOfEra
    generalize (y % 400).toNat = yearOfEra at hyear
    omega
  have hera : (y / 400 * 146097 + dayOfEra y dayOfYear - 719468 + 719468) / 146097 = y / 400 := by
    omega
  have hrest : (y / 400 * 146097 + dayOfEra y dayOfYear - 719468 + 719468 -
      y / 400 * 146097).toNat = dayOfEra y dayOfYear := by
    omega
  have hyearDay : dayOfEra y dayOfYear - (365 * (y % 400).toNat + (y % 400).toNat / 4 -
      (y % 400).toNat / 100) = dayOfYear := by
    unfold dayOfEra
    omega
  unfold civilFromDays
  dsimp only
  rw [tdiv_corrected _ (by decide) (by decide), hera, hrest, hfound, hyearDay, hwhole]
  rfl

theorem civilFromDays_number (d : Date) : civilFromDays d.number = (d.year, d.month, d.day) := by
  obtain ⟨year, month, day, hpos, hle, hday, hlast⟩ := d
  have hlate := marchDay_le hpos hle hlast
  have hnumber : Date.number ⟨year, month, day, hpos, hle, hday, hlast⟩ =
      marchYear year month / 400 * 146097 +
        dayOfEra (marchYear year month) (marchDays (marchMonth month) + (day - 1)) - 719468 := by
    change dayNumber year month day = _
    rw [← daysFromCivil_eq year hpos hle hday, daysFromCivil_march year month hday]
    unfold dayOfEra
    omega
  rw [hnumber, civilFromDays_era _ (by omega), marchMonth_eq hpos hle hday hlast]
  have hmonth : (if marchMonth month < 10 then marchMonth month + 3 else marchMonth month - 9) =
      month := by
    unfold marchMonth
    split_ifs <;> omega
  dsimp only
  rw [hmonth, Nat.add_sub_cancel_left, Nat.sub_add_cancel hday]
  unfold marchYear
  split_ifs
  · rw [Int.sub_add_cancel]
  · rfl

/-- On every date the two conversions undo each other. -/
theorem civilFromDays_daysFromCivil (d : Date) :
    civilFromDays (daysFromCivil d.year d.month d.day) = (d.year, d.month, d.day) := by
  rw [daysFromCivil_eq d.year d.month_pos d.month_le d.day_pos]
  exact civilFromDays_number d

/-- Every day number is converted to the date of that day. -/
theorem civilFromDays_eq (n : ℤ) :
    ∃ d : Date, d.number = n ∧ civilFromDays n = (d.year, d.month, d.day) := by
  obtain ⟨d, rfl⟩ := exists_number n
  exact ⟨d, rfl, civilFromDays_number d⟩

/-! ### Timestamps -/

theorem dayNumber_bounds {f : Fields} (h : f.Exists) (hearly : 1601 ≤ f.year)
    (hlate : f.year ≤ 20000) :
    -134774 ≤ dayNumber f.year f.month f.day ∧ dayNumber f.year f.month f.day ≤ 6600000 := by
  have hmonths := monthDays_mono f.year (show f.month - 1 ≤ 12 by have := h.month_le; omega)
  have hfirst := h.day_pos
  have hlast : f.day ≤ 31 := by
    have := h.day_le
    unfold monthLength at this
    split_ifs at this <;> omega
  rw [monthDays_year] at hmonths
  unfold dayNumber yearStart
  split_ifs at hmonths <;> omega

/-- A date that exists gets its timestamp. -/
theorem makeTimestamp_eq {f : Fields} (h : f.Exists) (hearly : 1601 ≤ f.year)
    (hlate : f.year ≤ 20000) :
    makeTimestamp f.year f.month f.day f.hour f.minute f.second = some f.timestamp := by
  obtain ⟨hlow, hhigh⟩ := dayNumber_bounds h hearly hlate
  have hlength := daysInMonth_eq f.year h.month_pos h.month_le
  obtain ⟨hmonth, hmonth', hday, hday', hhour, hminute, hsecond⟩ := h
  have hmax : (2 ^ 63 - 1 : ℤ).tdiv 86400 = 106751991167300 := by decide
  have hmin : (-2 ^ 63 : ℤ).tdiv 86400 = -106751991167300 := by decide
  unfold makeTimestamp
  rw [hlength, if_neg (by omega), Int.toNat_natCast]
  dsimp only
  rw [daysFromCivil_eq f.year hmonth hmonth' hday, hmax, hmin, if_neg (by omega),
    if_neg (by omega)]
  unfold Fields.timestamp Fields.secondOfDay
  push_cast
  rfl

/-- Any other is refused. -/
theorem makeTimestamp_eq_some {year day hour minute second t : ℤ} {month : ℕ}
    (h : makeTimestamp year month day hour minute second = some t) :
    ∃ f : Fields, f.Exists ∧ 1601 ≤ f.year ∧ f.year = year ∧ f.month = month ∧
      (f.day : ℤ) = day ∧ (f.hour : ℤ) = hour ∧ (f.minute : ℤ) = minute ∧
      (f.second : ℤ) = second ∧ t = f.timestamp := by
  unfold makeTimestamp at h
  dsimp only at h
  split_ifs at h with hbad hwide hwide'
  have hmonth : 1 ≤ month ∧ month ≤ 12 := by omega
  have hlength := daysInMonth_eq year hmonth.1 hmonth.2
  have hday : (day.toNat : ℤ) = day := by omega
  have hhour : (hour.toNat : ℤ) = hour := by omega
  have hminute : (minute.toNat : ℤ) = minute := by omega
  have hsecond : (second.toNat : ℤ) = second := by omega
  refine ⟨⟨year, month, day.toNat, hour.toNat, minute.toNat, second.toNat⟩,
    ⟨hmonth.1, hmonth.2, ?_, ?_, ?_, ?_, ?_⟩, ?_, rfl, rfl, hday, hhour, hminute, hsecond, ?_⟩
  · dsimp only
    omega
  · dsimp only
    omega
  · dsimp only
    omega
  · dsimp only
    omega
  · dsimp only
    omega
  · dsimp only
    omega
  · rw [daysFromCivil_eq year hmonth.1 hmonth.2 (by omega)] at h
    unfold Fields.timestamp Fields.secondOfDay
    have := Option.some.inj h
    dsimp only
    push_cast
    omega

theorem makeTimestamp_fields {f : Fields} {t : ℤ}
    (h : makeTimestamp f.year f.month f.day f.hour f.minute f.second = some t) :
    f.Exists ∧ t = f.timestamp := by
  obtain ⟨g, hexist, -, hyear, hmonth, hday, hhour, hminute, hsecond, ht⟩ :=
    makeTimestamp_eq_some h
  have hsame : g = f := by
    cases g
    cases f
    simp only [Fields.mk.injEq]
    dsimp only at hyear hmonth hday hhour hminute hsecond
    omega
  rw [← hsame]
  exact ⟨hexist, ht⟩

end KatHttp3
