import KatHttp3.Cache.DateTexts

/-!
# The year of an RFC 850 date

Two digits stand for the year in the hundred years that end 50 years after the
reference time.
-/

namespace KatHttp3

open Str Calendar

/-- The date lies in the hundred years that end 50 years after the reference. -/
def InWindow (reference f : Fields) : Prop :=
  { reference with year := reference.year + 50 - 100 }.Before f ∧
    ¬ { reference with year := reference.year + 50 }.Before f

/-- The year the two digits of the date stand for. -/
structure StandsFor (reference f : Fields) (year : ℤ) : Prop where
  congruent : year % 100 = f.year
  window : InWindow reference { f with year := year }

theorem StandsFor.unique {reference f : Fields} {y y' : ℤ} (h : StandsFor reference f y)
    (h' : StandsFor reference f y') : y = y' := by
  obtain ⟨hc, hlow, hhigh⟩ := h
  obtain ⟨hc', hlow', hhigh'⟩ := h'
  unfold Fields.Before at hlow hhigh hlow' hhigh'
  dsimp only at hlow hhigh hlow' hhigh'
  omega

theorem StandsFor.year_bounds {reference f : Fields} {year : ℤ}
    (h : StandsFor reference f year) :
    reference.year - 50 ≤ year ∧ year ≤ reference.year + 50 := by
  obtain ⟨hlow, hhigh⟩ := h.window
  unfold Fields.Before at hlow hhigh
  dsimp only at hlow hhigh
  omega

/-- The comparison of the code is that of the calendar. -/
theorem laterThan_iff (f g : Fields) :
    laterThan [f.year, (f.month : ℤ), (f.day : ℤ), (f.hour : ℤ), (f.minute : ℤ), (f.second : ℤ)]
      [g.year, (g.month : ℤ), (g.day : ℤ), (g.hour : ℤ), (g.minute : ℤ), (g.second : ℤ)] = true ↔
      g.Before f := by
  unfold Fields.Before
  simp only [laterThan, Bool.or_eq_true, Bool.and_eq_true, decide_eq_true_eq, beq_iff_eq,
    Bool.and_false, Bool.or_false]
  omega

section rolling

variable {R : Fields} (hR : R.Exists) (hsecond : R.second ≤ 59) {reference : ℕ}
  (hreference : R.timestamp = reference)

include hR hsecond hreference

/-- The reference time is taken apart into the fields it has. -/
theorem referenceFields :
    civilFromDays (reference / 86400 : ℕ) = (R.year, R.month, R.day) ∧
      reference % 86400 / 3600 = R.hour ∧ reference % 86400 / 60 % 60 = R.minute ∧
      reference % 86400 % 60 = R.second ∧ 1970 ≤ R.year := by
  have hhour := hR.hour_le
  have hminute := hR.minute_le
  unfold Fields.timestamp Fields.secondOfDay at hreference
  have hnumber : hR.date.number = (reference / 86400 : ℕ) := by
    change dayNumber R.year R.month R.day = _
    omega
  refine ⟨?_, by omega, by omega, by omega, ?_⟩
  · rw [← hnumber]
    exact civilFromDays_number hR.date
  · by_contra hearly
    have := hR.date.year_bounds.2
    have hlate : yearStart (R.year + 1) ≤ yearStart 1970 := by
      unfold yearStart
      omega
    have hepoch : yearStart 1970 = 0 := by decide
    change hR.date.number < yearStart (R.year + 1) at this
    omega

/-- The century is guessed by rounding and corrected once. -/
theorem standsFor_rollingYear {f : Fields} (hlow : 0 ≤ f.year) (hhigh : f.year ≤ 99) :
    StandsFor R f (rollingYear reference f.year f.month f.day f.hour f.minute f.second) := by
  obtain ⟨hcivil, hhour, hminute, hsecond', hyear⟩ := referenceFields hR hsecond hreference
  have hcentury : (R.year + 50).tdiv 100 = (R.year + 50) / 100 :=
    Int.tdiv_eq_ediv_of_nonneg (by omega)
  have hlater := laterThan_iff { f with year := f.year + (R.year + 50) / 100 * 100 }
    { R with year := R.year + 50 }
  dsimp only at hlater
  unfold rollingYear
  rw [hcivil]
  dsimp only
  rw [hhour, hminute, hsecond', hcentury]
  by_cases hbefore : Fields.Before { R with year := R.year + 50 }
      { f with year := f.year + (R.year + 50) / 100 * 100 }
  · rw [if_pos (hlater.mpr hbefore)]
    refine ⟨by omega, ?_, ?_⟩
    · unfold Fields.Before at hbefore ⊢
      dsimp only at hbefore ⊢
      omega
    · unfold Fields.Before
      dsimp only
      omega
  · rw [if_neg (fun h => hbefore (hlater.mp h))]
    refine ⟨by omega, ?_, hbefore⟩
    unfold Fields.Before
    dsimp only
    omega

end rolling

theorem year_le_of_reference {R : Fields} (hR : R.Exists) {reference : ℕ}
    (hreference : R.timestamp = reference) (hmax : reference ≤ 253402300799) : R.year ≤ 9999 := by
  unfold Fields.timestamp at hreference
  have hbounds := hR.date.year_bounds.1
  change yearStart R.year ≤ dayNumber R.year R.month R.day at hbounds
  unfold yearStart at hbounds
  omega

/-! ### The text -/

theorem dash_notMem_digits {width n : ℕ} {s : Str} (h : IsDigits width s n) : '-' ∉ s := by
  intro hc
  exact absurd (h.digits _ hc) (by decide)

theorem dash_notMem_month {s : Str} {month : ℕ} (h : SpellsMonth s month) : '-' ∉ s := by
  intro hc
  have hmem := mem_of_asciiIequals h.spelled (by decide) (by decide) hc
  have hnone : ∀ i < 12, '-' ∉ months.getD i [] := by decide
  exact hnone (month - 1) (by have := h.le; have := h.pos; omega) hmem

/-- The texts of an RFC 850 date behind its weekday. -/
structure Rfc850Fields (f0 f1 f2 : Str) (f : Fields) : Prop where
  date : ∃ day month year n, f0 = day ++ '-' :: (month ++ '-' :: year) ∧ IsDigits 2 day f.day ∧
    SpellsMonth month f.month ∧ IsDigits 2 year n ∧ f.year = n
  time : SpellsTime f1 f.hour f.minute f.second
  zone : asciiIequals f2 "GMT".toList = true

theorem parseRfc850_eq {weekday f0 f1 f2 : Str} {f : Fields}
    (hweekday : validWeekday weekday true = true) (h : Rfc850Fields f0 f1 f2 f) {reference : ℕ}
    (hmax : reference ≤ maxReferenceSeconds) :
    parseRfc850 weekday f0 f1 f2 (some reference) =
      makeTimestamp (rollingYear reference f.year f.month f.day f.hour f.minute f.second) f.month
        f.day f.hour f.minute f.second := by
  obtain ⟨⟨day, month, year, n, rfl, hday, hmonth, hyear, hn⟩, htime, hzone⟩ := h
  have hfirst : find (day ++ '-' :: (month ++ '-' :: year)) '-' = some day.length :=
    find_append_cons (dash_notMem_digits hday)
  have hrest : (day ++ '-' :: (month ++ '-' :: year)).drop (day.length + 1) =
      month ++ '-' :: year := by simp
  have hsecond : find (month ++ '-' :: year) '-' = some month.length :=
    find_append_cons (dash_notMem_month hmonth)
  have hlast : (day ++ '-' :: (month ++ '-' :: year)).drop (day.length + 1 + month.length + 1) =
      year := by
    rw [Nat.add_assoc, ← List.drop_drop, hrest]
    simp
  have hthird : find year '-' = none := find_eq_none.mpr (dash_notMem_digits hyear)
  have hpos := hmonth.pos
  unfold parseRfc850
  rw [hweekday, if_neg (by decide), hfirst]
  dsimp only
  rw [hrest, hsecond]
  dsimp only
  rw [hlast, hthird, List.take_left, List.take_left, hzone, if_neg (by simp),
    hday.parseNumber (by decide) le_rfl le_rfl (by decide),
    hyear.parseNumber (by decide) le_rfl le_rfl (by decide), parseTime_eq htime,
    monthNumber_eq hmonth]
  dsimp only
  rw [if_neg (by omega), hn]

theorem parseRfc850_eq_some {weekday f0 f1 f2 : Str} {reference : Option ℕ} {t : ℤ}
    (h : parseRfc850 weekday f0 f1 f2 reference = some t) :
    validWeekday weekday true = true ∧ ∃ f, Rfc850Fields f0 f1 f2 f := by
  unfold parseRfc850 at h
  by_cases hweekday : validWeekday weekday true = false
  · rw [if_pos hweekday] at h
    cases h
  rw [if_neg hweekday] at h
  cases hfirst : find f0 '-' with
  | none =>
    rw [hfirst] at h
    cases h
  | some firstDash =>
    rw [hfirst] at h
    dsimp only at h
    cases hgap : find (f0.drop (firstDash + 1)) '-' with
    | none =>
      rw [hgap] at h
      cases h
    | some gap =>
      rw [hgap] at h
      dsimp only at h
      by_cases hbad : find (f0.drop (firstDash + 1 + gap + 1)) '-' ≠ none ∨
          asciiIequals f2 "GMT".toList = false
      · rw [if_pos hbad] at h
        cases h
      rw [if_neg hbad] at h
      have hzone : asciiIequals f2 "GMT".toList = true := by simpa using (not_or.mp hbad).2
      have hdate : f0 = f0.take firstDash ++ '-' :: ((f0.drop (firstDash + 1)).take gap ++
          '-' :: f0.drop (firstDash + 1 + gap + 1)) := by
        have hrest := (find_eq_some hgap).1
        rw [List.drop_drop] at hrest
        conv_lhs => rw [(find_eq_some hfirst).1, hrest]
        rw [Nat.add_assoc (firstDash + 1)]
      split at h
      case h_1 day year hour minute second reference hday hyear htime =>
        have hmonth : monthNumber ((f0.drop (firstDash + 1)).take gap) ≠ 0 := by
          intro hzero
          rw [if_pos (Or.inl hzero)] at h
          cases h
        obtain ⟨d, rfl, hd⟩ := parseNumber_exact hday
        obtain ⟨n, rfl, hn⟩ := parseNumber_exact hyear
        obtain ⟨a, b, c, rfl, rfl, rfl, hspelled⟩ := parseTime_eq_some htime
        exact ⟨by simpa using hweekday, ⟨n, _, d, a, b, c⟩,
          ⟨_, _, _, n, hdate, hd, spellsMonth_monthNumber hmonth, hn, rfl⟩, hspelled, hzone⟩
      case h_2 => cases h

theorem rfc850Date_iff {value : Str} {f : Fields} :
    Rfc850Date value f ↔ ∃ weekday rest f0 f1 f2, trimOws value = weekday ++ ',' :: rest ∧
      ',' ∉ weekday ∧ validWeekday (trimOws weekday) true = true ∧
      splitSpaces rest = [f0, f1, f2] ∧ Rfc850Fields f0 f1 f2 f := by
  constructor
  · rintro ⟨weekday, rest, day, month, year, time, zone, n, hvalue, hcomma, hweekday, hsplit, hday,
      hmonth, hyear, hn, htime, hzone⟩
    exact ⟨weekday, rest, _, time, zone, hvalue, hcomma, hweekday, hsplit,
      ⟨day, month, year, n, rfl, hday, hmonth, hyear, hn⟩, htime, hzone⟩
  · rintro ⟨weekday, rest, _, time, zone, hvalue, hcomma, hweekday, hsplit,
      ⟨day, month, year, n, rfl, hday, hmonth, hyear, hn⟩, htime, hzone⟩
    exact ⟨weekday, rest, day, month, year, time, zone, n, hvalue, hcomma, hweekday, hsplit, hday,
      hmonth, hyear, hn, htime, hzone⟩

/-- A well-formed date stands for one date of the calendar, whose timestamp is the
result if that date exists; what is accepted is well formed. -/
theorem parseHttpDate_rfc850 {R : Fields} (hR : R.Exists) (hsecond : R.second ≤ 59)
    {reference : ℕ} (hreference : R.timestamp = reference) (hmax : reference ≤ 253402300799)
    (value : Str) :
    (∀ f, Rfc850Date value f → ∃ year, StandsFor R f year ∧
      (∀ year', StandsFor R f year' → year' = year) ∧
      (Fields.Exists { f with year := year } →
        parseHttpDate value (some reference) =
          some (Fields.timestamp { f with year := year })) ∧
      (¬ Fields.Exists { f with year := year } →
        parseHttpDate value (some reference) = none)) ∧
    ∀ t, parseHttpDate value (some reference) = some t →
      (∃ f, ImfFixdate value f) ∨ (∃ f, AsctimeDate value f) ∨ ∃ f, Rfc850Date value f := by
  constructor
  · intro f hform
    obtain ⟨weekday, rest, f0, f1, f2, hvalue, hcomma, hweekday, hsplit, hfields⟩ :=
      rfc850Date_iff.mp hform
    obtain ⟨⟨_, _, _, n, _, _, _, hdigits, hn⟩, _, _⟩ := id hfields
    have htwo := hdigits.lt
    have hstands := standsFor_rollingYear hR hsecond hreference (f := f) (by omega) (by omega)
    have hfirst := (referenceFields hR hsecond hreference).2.2.2.2
    have hlast := year_le_of_reference hR hreference hmax
    have hparse : parseHttpDate value (some reference) = makeTimestamp
        (rollingYear reference f.year f.month f.day f.hour f.minute f.second) f.month f.day f.hour
        f.minute f.second := by
      rw [parseHttpDate_comma _ hvalue hcomma, hsplit]
      exact parseRfc850_eq hweekday hfields hmax
    refine ⟨_, hstands, fun year' h' => h'.unique hstands, ?_, ?_⟩
    · intro hexist
      obtain ⟨hlow, hhigh⟩ := hstands.year_bounds
      rw [hparse]
      exact makeTimestamp_eq hexist (by dsimp only; omega) (by dsimp only; omega)
    · intro hnone
      rw [hparse]
      by_contra hsome
      obtain ⟨t, ht⟩ := Option.ne_none_iff_exists'.mp hsome
      exact hnone (makeTimestamp_fields (f := { f with year := _ }) ht).1
  · intro t ht
    rcases parseHttpDate_cases ht with ⟨f, hform, -⟩ | ⟨f, hform, -⟩ |
      ⟨weekday, rest, f0, f1, f2, hvalue, hcomma, hsplit, hparse⟩
    · exact Or.inl ⟨f, hform⟩
    · exact Or.inr (Or.inl ⟨f, hform⟩)
    · obtain ⟨hweekday, f, hfields⟩ := parseRfc850_eq_some hparse
      exact Or.inr (Or.inr ⟨f, rfc850Date_iff.mpr
        ⟨weekday, rest, f0, f1, f2, hvalue, hcomma, hweekday, hsplit, hfields⟩⟩)

/-- `06-Nov-94 08:49:37`. -/
def november94 : Fields := ⟨94, 11, 6, 8, 49, 37⟩

/-- Read at that very second of 1994. -/
theorem parseHttpDate_rfc850_november94 :
    ∃ year, StandsFor { november94 with year := 1994 } november94 year ∧
      parseHttpDate "Sunday, 06-Nov-94 08:49:37 GMT".toList (some 784111777) =
        some (Fields.timestamp { november94 with year := year }) := by
  have hR : Fields.Exists { november94 with year := 1994 } :=
    ⟨by decide, by decide, by decide, by decide, by decide, by decide, by decide⟩
  have hday : IsDigits 2 "06".toList 6 := ⟨rfl, List.all_eq_true.mp (by decide), by decide⟩
  have hmonth : SpellsMonth "Nov".toList 11 := ⟨by decide, by decide, by decide⟩
  have hyear : IsDigits 2 "94".toList 94 := ⟨rfl, List.all_eq_true.mp (by decide), by decide⟩
  have htime : SpellsTime "08:49:37".toList 8 49 37 :=
    ⟨"08".toList, "49".toList, "37".toList, rfl, ⟨rfl, List.all_eq_true.mp (by decide), by decide⟩,
      ⟨rfl, List.all_eq_true.mp (by decide), by decide⟩,
      ⟨rfl, List.all_eq_true.mp (by decide), by decide⟩⟩
  have hform : Rfc850Date "Sunday, 06-Nov-94 08:49:37 GMT".toList november94 :=
    ⟨"Sunday".toList, " 06-Nov-94 08:49:37 GMT".toList, _, _, _, _, "GMT".toList, 94, by decide,
      by decide, by decide, by decide, hday, hmonth, hyear, rfl, htime, by decide⟩
  obtain ⟨year, hstands, hunique, hexist, -⟩ :=
    (parseHttpDate_rfc850 hR (by decide) (show _ = ((784111777 : ℕ) : ℤ) by decide) (by decide)
      _).1 _ hform
  have hthis : 1994 = year := by
    apply hunique
    refine ⟨by decide, ?_, ?_⟩
    · unfold Fields.Before november94
      decide
    · unfold Fields.Before november94
      decide
  rw [← hthis] at hstands hexist
  exact ⟨1994, hstands, hexist hR⟩

end KatHttp3
