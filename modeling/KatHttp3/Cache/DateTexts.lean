import KatHttp3.Cache.CivilDays
import KatHttp3.Text.LetterCase

/-!
# The texts of HTTP dates

What the three date forms look like, piece by piece, and that the parser reads
the pieces as their values and accepts nothing else.
-/

namespace KatHttp3

open Str Calendar

/-- A number in a given number of digits. -/
structure IsDigits (width : ℕ) (s : Str) (n : ℕ) : Prop where
  length : s.length = width
  digits : ∀ c ∈ s, c.isDigit = true
  value : decimal s = n

/-- The three letters of a month, in any case. -/
structure SpellsMonth (s : Str) (month : ℕ) : Prop where
  pos : 1 ≤ month
  le : month ≤ 12
  spelled : asciiIequals s (months.getD (month - 1) []) = true

def SpellsTime (s : Str) (hour minute second : ℕ) : Prop :=
  ∃ h m sec, s = h ++ ':' :: (m ++ ':' :: sec) ∧
    IsDigits 2 h hour ∧ IsDigits 2 m minute ∧ IsDigits 2 sec second

/-- `Sun, 06 Nov 1994 08:49:37 GMT`. -/
def ImfFixdate (value : Str) (f : Fields) : Prop :=
  ∃ weekday rest day month year time zone n,
    trimOws value = weekday ++ ',' :: rest ∧ ',' ∉ weekday ∧
    validWeekday (trimOws weekday) false = true ∧
    splitSpaces rest = [day, month, year, time, zone] ∧
    IsDigits 2 day f.day ∧ SpellsMonth month f.month ∧ IsDigits 4 year n ∧ f.year = n ∧
    SpellsTime time f.hour f.minute f.second ∧ asciiIequals zone "GMT".toList = true

/-- `Sunday, 06-Nov-94 08:49:37 GMT`; the year is the one that is written. -/
def Rfc850Date (value : Str) (f : Fields) : Prop :=
  ∃ weekday rest day month year time zone n,
    trimOws value = weekday ++ ',' :: rest ∧ ',' ∉ weekday ∧
    validWeekday (trimOws weekday) true = true ∧
    splitSpaces rest = [day ++ '-' :: (month ++ '-' :: year), time, zone] ∧
    IsDigits 2 day f.day ∧ SpellsMonth month f.month ∧ IsDigits 2 year n ∧ f.year = n ∧
    SpellsTime time f.hour f.minute f.second ∧ asciiIequals zone "GMT".toList = true

/-- `Sun Nov  6 08:49:37 1994`. -/
def AsctimeDate (value : Str) (f : Fields) : Prop :=
  ∃ weekday month day time year n,
    ',' ∉ trimOws value ∧ splitSpaces (trimOws value) = [weekday, month, day, time, year] ∧
    validWeekday weekday false = true ∧ SpellsMonth month f.month ∧
    (IsDigits 1 day f.day ∨ IsDigits 2 day f.day) ∧ SpellsTime time f.hour f.minute f.second ∧
    IsDigits 4 year n ∧ f.year = n

/-! ### Numbers -/

theorem ofDigitChars_lt {s : Str} (h : ∀ c ∈ s, c.isDigit = true) (start : ℕ) :
    Nat.ofDigitChars 10 s start < (start + 1) * 10 ^ s.length := by
  induction s generalizing start with
  | nil => simp
  | cons c rest ih =>
    have hnine := digit_le_nine (h c List.mem_cons_self)
    have hrest := ih (fun d hd => h d (List.mem_cons_of_mem _ hd))
      (10 * start + (c.toNat - '0'.toNat))
    rw [Nat.ofDigitChars_cons, List.length_cons, pow_succ]
    calc
      _ < (10 * start + (c.toNat - '0'.toNat) + 1) * 10 ^ rest.length := hrest
      _ ≤ (10 * (start + 1)) * 10 ^ rest.length := Nat.mul_le_mul_right _ (by omega)
      _ = (start + 1) * (10 ^ rest.length * 10) := by ring

theorem IsDigits.lt {width n : ℕ} {s : Str} (h : IsDigits width s n) : n < 10 ^ width := by
  have := ofDigitChars_lt h.digits 0
  rwa [zero_add, one_mul, h.length, show Nat.ofDigitChars 10 s 0 = n from h.value] at this

theorem parseNumber_eq_some {lo hi : ℕ} {s : Str} {v : ℤ} (h : parseNumber s lo hi = some v) :
    ∃ n : ℕ, v = n ∧ IsDigits s.length s n ∧ lo ≤ s.length ∧ s.length ≤ hi := by
  unfold parseNumber at h
  split_ifs at h with hlength
  obtain ⟨n, hn, rfl⟩ := Option.map_eq_some_iff.mp h
  unfold fromChars at hn
  split_ifs at hn with hdigits
  exact ⟨n, rfl, ⟨rfl, List.all_eq_true.mp hdigits.2.1, Option.some.inj hn⟩, by omega, by omega⟩

theorem IsDigits.parseNumber {width lo hi n : ℕ} {s : Str} (h : IsDigits width s n)
    (hlo : 1 ≤ lo) (hwidth : lo ≤ width) (hhi : width ≤ hi) (hsmall : width ≤ 9) :
    parseNumber s lo hi = some (n : ℤ) := by
  have hne : s ≠ [] := by
    rintro rfl
    have := h.length
    simp at this
    omega
  have hlt : n < 10 ^ 9 := h.lt.trans_le (Nat.pow_le_pow_right (by decide) hsmall)
  unfold KatHttp3.parseNumber fromChars
  rw [h.length, if_neg (by omega), h.value,
    if_pos ⟨hne, List.all_eq_true.mpr h.digits, by omega⟩]
  rfl

/-! ### Months and times -/

theorem monthNumber_eq {s : Str} {month : ℕ} (h : SpellsMonth s month) :
    monthNumber s = month := by
  have hindex : ∀ i < 12, (months.getD i []).length = 3 ∧
      months.findIdx? (asciiIequals (months.getD i [])) = some i := by
    decide
  obtain ⟨hlength, hfound⟩ := hindex (month - 1) (by have := h.le; have := h.pos; omega)
  have hsame : asciiIequals s = asciiIequals (months.getD (month - 1) []) :=
    funext fun t => asciiIequals_congr h.spelled
  unfold monthNumber
  rw [length_eq_of_asciiIequals h.spelled, hlength, if_neg (by decide), hsame, hfound]
  exact Nat.sub_add_cancel h.pos

theorem spellsMonth_monthNumber {s : Str} (h : monthNumber s ≠ 0) :
    SpellsMonth s (monthNumber s) := by
  unfold monthNumber at h ⊢
  split_ifs at h ⊢ with hlength
  · exact absurd rfl h
  · cases hfound : months.findIdx? (asciiIequals s) with
    | none =>
      rw [hfound] at h
      exact absurd rfl h
    | some i =>
      obtain ⟨hi, hspelled, -⟩ := List.findIdx?_eq_some_iff_getElem.mp hfound
      refine ⟨Nat.succ_pos i, hi, ?_⟩
      dsimp only
      rw [Nat.add_sub_cancel, List.getD_eq_getElem?_getD, List.getElem?_eq_getElem hi]
      exact hspelled

theorem parseTime_of_numbers {s : Str} {hour minute second : ℤ}
    (hform : ¬(s.length ≠ 8 ∨ s[2]? ≠ some ':' ∨ s[5]? ≠ some ':'))
    (hhour : parseNumber (s.take 2) 2 2 = some hour)
    (hminute : parseNumber ((s.drop 3).take 2) 2 2 = some minute)
    (hsecond : parseNumber ((s.drop 6).take 2) 2 2 = some second) :
    parseTime s = some (hour, minute, second) := by
  unfold parseTime
  rw [if_neg hform, hhour, hminute, hsecond]

theorem parseTime_eq {s : Str} {hour minute second : ℕ} (h : SpellsTime s hour minute second) :
    parseTime s = some ((hour : ℤ), (minute : ℤ), (second : ℤ)) := by
  obtain ⟨a, b, c, rfl, ha, hb, hc⟩ := h
  have hhour := ha.parseNumber (by decide) le_rfl le_rfl (by decide)
  have hminute := hb.parseNumber (by decide) le_rfl le_rfl (by decide)
  have hsecond := hc.parseNumber (by decide) le_rfl le_rfl (by decide)
  obtain ⟨a1, a2, rfl⟩ := List.length_eq_two.mp ha.length
  obtain ⟨b1, b2, rfl⟩ := List.length_eq_two.mp hb.length
  obtain ⟨c1, c2, rfl⟩ := List.length_eq_two.mp hc.length
  exact parseTime_of_numbers (by simp) hhour hminute hsecond

theorem parseTime_eq_some {s : Str} {hour minute second : ℤ}
    (h : parseTime s = some (hour, minute, second)) :
    ∃ a b c : ℕ, hour = a ∧ minute = b ∧ second = c ∧ SpellsTime s a b c := by
  unfold parseTime at h
  split_ifs at h with hform
  simp only [not_or, not_not] at hform
  obtain ⟨hlength, htwo, hfive⟩ := hform
  have hsplit : s = s.take 2 ++ ':' :: ((s.drop 3).take 2 ++ ':' :: (s.drop 6).take 2) := by
    match s, hlength, htwo, hfive with
    | [_, _, _, _, _, _, _, _], _, htwo, hfive =>
      cases htwo
      cases hfive
      rfl
  split at h
  case h_1 a b c ha hb hc =>
    cases h
    obtain ⟨a, rfl, hda, hla⟩ := parseNumber_eq_some ha
    obtain ⟨b, rfl, hdb, hlb⟩ := parseNumber_eq_some hb
    obtain ⟨c, rfl, hdc, hlc⟩ := parseNumber_eq_some hc
    rw [show (s.take 2).length = 2 by omega] at hda
    rw [show ((s.drop 3).take 2).length = 2 by omega] at hdb
    rw [show ((s.drop 6).take 2).length = 2 by omega] at hdc
    exact ⟨a, b, c, rfl, rfl, rfl, _, _, _, hsplit, hda, hdb, hdc⟩
  case h_2 => cases h

/-- A number of exactly so many digits. -/
theorem parseNumber_exact {width : ℕ} {s : Str} {v : ℤ}
    (h : parseNumber s width width = some v) : ∃ n : ℕ, v = n ∧ IsDigits width s n := by
  obtain ⟨n, hv, hdigits, hlo, hhi⟩ := parseNumber_eq_some h
  rw [le_antisymm hhi hlo] at hdigits
  exact ⟨n, hv, hdigits⟩

/-! ### The three forms -/

/-- A date with a comma, taken apart. -/
theorem parseHttpDate_comma {value weekday rest : Str} (reference : Option ℕ)
    (h : trimOws value = weekday ++ ',' :: rest) (hcomma : ',' ∉ weekday) :
    parseHttpDate value reference =
      match splitSpaces rest with
      | [f0, f1, f2, f3, f4] => parseImfFixdate (trimOws weekday) f0 f1 f2 f3 f4
      | [f0, f1, f2] => parseRfc850 (trimOws weekday) f0 f1 f2 reference
      | _ => none := by
  have hdrop : (weekday ++ ',' :: rest).drop (weekday.length + 1) = rest := by simp
  have htake : (weekday ++ ',' :: rest).take weekday.length = weekday := List.take_left
  unfold parseHttpDate
  dsimp only
  rw [h, if_neg (by simp), find_append_cons hcomma]
  dsimp only
  rw [hdrop]
  exact congrArg (fun name => match splitSpaces rest with
    | [f0, f1, f2, f3, f4] => parseImfFixdate (trimOws name) f0 f1 f2 f3 f4
    | [f0, f1, f2] => parseRfc850 (trimOws name) f0 f1 f2 reference
    | _ => none) htake

theorem parseHttpDate_imf {value : Str} {f : Fields} (reference : Option ℕ)
    (h : ImfFixdate value f) :
    parseHttpDate value reference =
      makeTimestamp f.year f.month f.day f.hour f.minute f.second := by
  obtain ⟨weekday, rest, day, month, year, time, zone, n, hvalue, hcomma, hweekday, hsplit, hday,
    hmonth, hyear, hn, htime, hzone⟩ := h
  have hpos := hmonth.pos
  rw [parseHttpDate_comma reference hvalue hcomma, hsplit]
  dsimp only
  unfold parseImfFixdate
  rw [hweekday, if_neg (by decide), hday.parseNumber (by decide) le_rfl le_rfl (by decide),
    hyear.parseNumber (by decide) le_rfl le_rfl (by decide), parseTime_eq htime]
  dsimp only
  rw [monthNumber_eq hmonth, hzone, if_neg (by simp; omega), hn]

theorem parseHttpDate_asctime {value : Str} {f : Fields} (reference : Option ℕ)
    (h : AsctimeDate value f) :
    parseHttpDate value reference =
      makeTimestamp f.year f.month f.day f.hour f.minute f.second := by
  obtain ⟨weekday, month, day, time, year, n, hcomma, hsplit, hweekday, hmonth, hday, htime,
    hyear, hn⟩ := h
  have hpos := hmonth.pos
  have hne : trimOws value ≠ [] := by
    intro hempty
    rw [hempty] at hsplit
    cases hsplit
  have hday' : parseNumber day 1 2 = some (f.day : ℤ) := by
    rcases hday with hone | htwo
    · exact hone.parseNumber le_rfl le_rfl (by decide) (by decide)
    · exact htwo.parseNumber le_rfl (by decide) le_rfl (by decide)
  unfold parseHttpDate
  dsimp only
  rw [if_neg hne, find_eq_none.mpr hcomma, hsplit]
  dsimp only
  unfold parseAsctime
  dsimp only
  rw [hweekday, monthNumber_eq hmonth, if_neg (by simp; omega), hday', parseTime_eq htime,
    hyear.parseNumber (by decide) le_rfl le_rfl (by decide)]
  dsimp only
  rw [hn]

theorem parseImfFixdate_eq_some {weekday f0 f1 f2 f3 f4 : Str} {t : ℤ}
    (h : parseImfFixdate weekday f0 f1 f2 f3 f4 = some t) :
    validWeekday weekday false = true ∧ asciiIequals f4 "GMT".toList = true ∧
      ∃ (f : Fields) (n : ℕ), IsDigits 2 f0 f.day ∧ SpellsMonth f1 f.month ∧ IsDigits 4 f2 n ∧
        f.year = n ∧ SpellsTime f3 f.hour f.minute f.second ∧
        makeTimestamp f.year f.month f.day f.hour f.minute f.second = some t := by
  unfold parseImfFixdate at h
  by_cases hweekday : validWeekday weekday false = false
  · rw [if_pos hweekday] at h
    cases h
  rw [if_neg hweekday] at h
  split at h
  case h_1 day year hour minute second hday hyear htime =>
    split_ifs at h with hbad
    obtain ⟨hmonth, hzone⟩ := not_or.mp hbad
    obtain ⟨d, rfl, hd⟩ := parseNumber_exact hday
    obtain ⟨n, rfl, hn⟩ := parseNumber_exact hyear
    obtain ⟨a, b, c, rfl, rfl, rfl, hspelled⟩ := parseTime_eq_some htime
    exact ⟨by simpa using hweekday, by simpa using hzone, ⟨n, monthNumber f1, d, a, b, c⟩, n, hd,
      spellsMonth_monthNumber hmonth, hn, rfl, hspelled, h⟩
  case h_2 => cases h

theorem parseAsctime_eq_some {f0 f1 f2 f3 f4 : Str} {t : ℤ}
    (h : parseAsctime f0 f1 f2 f3 f4 = some t) :
    validWeekday f0 false = true ∧
      ∃ (f : Fields) (n : ℕ), SpellsMonth f1 f.month ∧
        (IsDigits 1 f2 f.day ∨ IsDigits 2 f2 f.day) ∧ SpellsTime f3 f.hour f.minute f.second ∧
        IsDigits 4 f4 n ∧ f.year = n ∧
        makeTimestamp f.year f.month f.day f.hour f.minute f.second = some t := by
  unfold parseAsctime at h
  dsimp only at h
  split_ifs at h with hbad
  obtain ⟨hweekday, hmonth⟩ := not_or.mp hbad
  split at h
  case h_1 day hour minute second year hday htime hyear =>
    obtain ⟨d, rfl, hd, hlo, hhi⟩ := parseNumber_eq_some hday
    obtain ⟨n, rfl, hn⟩ := parseNumber_exact hyear
    obtain ⟨a, b, c, rfl, rfl, rfl, hspelled⟩ := parseTime_eq_some htime
    have hwidth : IsDigits 1 f2 d ∨ IsDigits 2 f2 d := by
      have : f2.length = 1 ∨ f2.length = 2 := by omega
      rcases this with hone | htwo
      · exact Or.inl (hone ▸ hd)
      · exact Or.inr (htwo ▸ hd)
    exact ⟨by simpa using hweekday, ⟨n, monthNumber f1, d, a, b, c⟩, n,
      spellsMonth_monthNumber hmonth, hwidth, hspelled, hn, rfl, h⟩
  case h_2 => cases h

/-- An accepted date has one of the three forms, or three fields behind its comma. -/
theorem parseHttpDate_cases {value : Str} {reference : Option ℕ} {t : ℤ}
    (h : parseHttpDate value reference = some t) :
    (∃ f, ImfFixdate value f ∧
        makeTimestamp f.year f.month f.day f.hour f.minute f.second = some t) ∨
      (∃ f, AsctimeDate value f ∧
        makeTimestamp f.year f.month f.day f.hour f.minute f.second = some t) ∨
      ∃ weekday rest f0 f1 f2, trimOws value = weekday ++ ',' :: rest ∧ ',' ∉ weekday ∧
        splitSpaces rest = [f0, f1, f2] ∧
        parseRfc850 (trimOws weekday) f0 f1 f2 reference = some t := by
  cases hcomma : find (trimOws value) ',' with
  | none =>
    right
    left
    unfold parseHttpDate at h
    dsimp only at h
    split_ifs at h with hempty
    rw [hcomma] at h
    dsimp only at h
    rcases hsplit : splitSpaces (trimOws value) with
      _ | ⟨f0, _ | ⟨f1, _ | ⟨f2, _ | ⟨f3, _ | ⟨f4, _ | ⟨f5, more⟩⟩⟩⟩⟩⟩ <;> rw [hsplit] at h
    case cons.cons.cons.cons.cons.nil =>
      obtain ⟨hweekday, f, n, hmonth, hday, htime, hyear, hn, ht⟩ := parseAsctime_eq_some h
      exact ⟨f, ⟨f0, f1, f2, f3, f4, n, find_eq_none.mp hcomma, hsplit, hweekday, hmonth, hday,
        htime, hyear, hn⟩, ht⟩
    all_goals cases h
  | some comma =>
    obtain ⟨hvalue, hnot⟩ := find_eq_some hcomma
    rw [parseHttpDate_comma reference hvalue hnot] at h
    rcases hsplit : splitSpaces ((trimOws value).drop (comma + 1)) with
      _ | ⟨f0, _ | ⟨f1, _ | ⟨f2, _ | ⟨f3, _ | ⟨f4, _ | ⟨f5, more⟩⟩⟩⟩⟩⟩ <;> rw [hsplit] at h
    case cons.cons.cons.nil =>
      exact Or.inr (Or.inr ⟨_, _, f0, f1, f2, hvalue, hnot, hsplit, h⟩)
    case cons.cons.cons.cons.cons.nil =>
      obtain ⟨hweekday, hzone, f, n, hday, hmonth, hyear, hn, htime, ht⟩ :=
        parseImfFixdate_eq_some h
      exact Or.inl ⟨f, ⟨_, _, f0, f1, f2, f3, f4, n, hvalue, hnot, hweekday, hsplit, hday, hmonth,
        hyear, hn, htime, hzone⟩, ht⟩
    all_goals cases h

end KatHttp3
