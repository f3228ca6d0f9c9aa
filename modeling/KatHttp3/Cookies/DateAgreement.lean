import KatHttp3.Cache.DateRoundTrip
import KatHttp3.Cookies.CookieDate

/-!
# Cookie dates and HTTP dates

The lenient parser of the cookie jar gives every IMF-fixdate and asctime-date the
timestamp it has as an HTTP date, and no date an expiry beyond 63 bits.
-/

namespace KatHttp3

open Str Calendar Tokens

theorem dateTokens_eq (value : Str) : dateTokens value = tokens cookieDateDelimiter value := by
  unfold dateTokens tokens
  apply List.filter_congr
  intro piece _
  cases piece <;> rfl

theorem delimiter_of_isSpace {c : Char} (h : isSpace c = true) : cookieDateDelimiter c = true := by
  rw [isSpace, Bool.or_eq_true, beq_iff_eq, beq_iff_eq] at h
  rcases h with rfl | rfl <;> rfl

/-! ### Tokens of a date -/

/-- A text that the cookie jar does not cut. -/
structure IsDateToken (s : Str) : Prop where
  nonempty : s ≠ []
  uncut : ∀ c ∈ s, cookieDateDelimiter c = false

theorem cookieDateDelimiter_of_isAlphanum {c : Char} (h : c.isAlphanum = true) :
    cookieDateDelimiter c = false := by
  simp only [Char.isAlphanum, isAlpha_eq, isUpper_eq, isLower_eq, Char.isDigit, ge_iff_le,
    UInt32.le_iff_toNat_le, UInt32.reduceToNat, Char.reduceVal, Bool.or_eq_true,
    Bool.and_eq_true, decide_eq_true_eq] at h
  rw [← Bool.not_eq_true]
  simp only [cookieDateDelimiter, Char.toNat, Bool.or_eq_true, Bool.and_eq_true,
    decide_eq_true_eq, beq_iff_eq]
  omega

theorem isDateToken_of_isAlphanum {s : Str} (hne : s ≠ []) (h : ∀ c ∈ s, c.isAlphanum = true) :
    IsDateToken s :=
  ⟨hne, fun c hc => cookieDateDelimiter_of_isAlphanum (h c hc)⟩

theorem IsDigits.isDateToken {width n : ℕ} {s : Str} (h : IsDigits width s n) (hpos : 0 < width) :
    IsDateToken s := by
  apply isDateToken_of_isAlphanum
  · rintro rfl
    rw [← h.length] at hpos
    exact absurd hpos (lt_irrefl 0)
  · intro c hc
    rw [Char.isAlphanum, h.digits c hc, Bool.or_true]

theorem SpellsTime.isDateToken {s : Str} {hour minute second : ℕ}
    (h : SpellsTime s hour minute second) : IsDateToken s := by
  obtain ⟨a, b, c, rfl, ha, hb, hc⟩ := h
  refine ⟨by simp, fun d hd => ?_⟩
  simp only [List.mem_append, List.mem_cons] at hd
  rcases hd with hd | rfl | hd | rfl | hd
  · exact (ha.isDateToken (by decide)).uncut d hd
  · rfl
  · exact (hb.isDateToken (by decide)).uncut d hd
  · rfl
  · exact (hc.isDateToken (by decide)).uncut d hd

/-- A text of letters. -/
structure IsName (s : Str) : Prop where
  nonempty : s ≠ []
  letters : ∀ c ∈ s, c.isAlpha = true

theorem IsName.isDateToken {s : Str} (h : IsName s) : IsDateToken s := by
  apply isDateToken_of_isAlphanum h.nonempty
  intro c hc
  rw [Char.isAlphanum, h.letters c hc, Bool.true_or]

/-- Letter case makes no letter of another character. -/
theorem isName_of_spelled {s t : Str} (h : asciiIequals s t = true) (ht : IsName t) :
    IsName s := by
  constructor
  · rintro rfl
    exact ht.nonempty (List.length_eq_zero_iff.mp (length_eq_of_asciiIequals h).symm)
  · intro c hc
    by_contra hother
    rw [Bool.not_eq_true, isAlpha_eq, Bool.or_eq_false_iff] at hother
    obtain ⟨hupper, hlower⟩ := hother
    have hself : c.toLower = c := by
      rw [isUpper_eq, decide_eq_false_iff_not] at hupper
      exact toLower_of_not_upper hupper
    have := ht.letters c (mem_of_asciiIequals h hself hlower hc)
    rw [isAlpha_eq, hupper, hlower] at this
    cases this

theorem SpellsMonth.isName {s : Str} {month : ℕ} (h : SpellsMonth s month) : IsName s := by
  have hall : ∀ i < 12, months.getD i [] ≠ [] ∧
      ((months.getD i []).all Char.isAlpha) = true := by decide
  obtain ⟨hne, hletters⟩ := hall (month - 1) (by have := h.le; have := h.pos; omega)
  exact isName_of_spelled h.spelled ⟨hne, List.all_eq_true.mp hletters⟩

theorem cookieMonth_congr {s t : Str} (h : asciiIequals s t = true) :
    cookieMonth s = cookieMonth t := by
  have hlower : asciiLower (s.take 3) = asciiLower (t.take 3) := by
    unfold asciiLower
    rw [List.map_take, List.map_take]
    exact congrArg (List.take 3) (asciiIequals_iff.mp h)
  unfold cookieMonth
  rw [length_eq_of_asciiIequals h, hlower]

theorem SpellsMonth.cookieMonth {s : Str} {month : ℕ} (h : SpellsMonth s month) :
    cookieMonth s = month := by
  have hall : ∀ i < 12, KatHttp3.cookieMonth (months.getD i []) = i + 1 := by decide
  have hpos := h.pos
  have hle := h.le
  rw [cookieMonth_congr h.spelled, hall (month - 1) (by omega)]
  omega

/-- The names of the days are no names of months. -/
theorem isName_weekday {s : Str} (h : validWeekday s false = true) :
    IsName s ∧ cookieMonth s = 0 := by
  have hall : ∀ t ∈ shortWeekdays, t ≠ [] ∧ t.all Char.isAlpha = true ∧ cookieMonth t = 0 := by
    decide
  obtain ⟨t, ht, hspelled⟩ := List.any_eq_true.mp h
  obtain ⟨hne, hletters, hmonth⟩ := hall t ht
  refine ⟨isName_of_spelled hspelled ⟨hne, List.all_eq_true.mp hletters⟩, ?_⟩
  rw [cookieMonth_congr hspelled, hmonth]

theorem tokens_isDateToken {s : Str} (h : IsDateToken s) : tokens cookieDateDelimiter s = [s] :=
  tokens_of_forall_not h.nonempty h.uncut

/-- The words between the spaces are not cut further. -/
theorem dateTokens_words {s : Str} (h : ∀ w ∈ splitSpaces s, IsDateToken w) :
    tokens cookieDateDelimiter s = splitSpaces s := by
  have hwords : ∀ ws : List Str, (∀ w ∈ ws, IsDateToken w) →
      ws.flatMap (tokens cookieDateDelimiter) = ws := by
    intro ws hws
    induction ws with
    | nil => rfl
    | cons w ws ih =>
      rw [List.flatMap_cons, tokens_isDateToken (hws w List.mem_cons_self),
        ih fun x hx => hws x (List.mem_cons_of_mem _ hx)]
      rfl
  rw [tokens_flatMap (p := isSpace) (fun c => delimiter_of_isSpace), ← splitSpaces_eq, hwords _ h]

/-! ### What the tokens are read as -/

theorem parseCookieTime_of_notMem {s : Str} (h : ':' ∉ s) : parseCookieTime s = none := by
  unfold parseCookieTime
  rw [find_eq_none.mpr h]

theorem IsName.parseCookieTime {s : Str} (h : IsName s) : parseCookieTime s = none := by
  apply parseCookieTime_of_notMem
  intro hc
  exact absurd (h.letters _ hc) (by decide)

theorem IsDigits.parseCookieTime {width n : ℕ} {s : Str} (h : IsDigits width s n) :
    parseCookieTime s = none := by
  apply parseCookieTime_of_notMem
  intro hc
  exact absurd (h.digits _ hc) (by decide)

theorem IsName.parseDecimal {s : Str} (h : IsName s) (lo hi : ℕ) : parseDecimal s lo hi = none := by
  cases hs : KatHttp3.parseDecimal s lo hi with
  | none => rfl
  | some v =>
    obtain ⟨n, -, hdigits, -, -⟩ := parseNumber_eq_some hs
    obtain ⟨c, hc⟩ := List.exists_mem_of_ne_nil s h.nonempty
    have hletter := h.letters c hc
    have hdigit := hdigits.digits c hc
    simp only [isAlpha_eq, isUpper_eq, isLower_eq, Char.isDigit, ge_iff_le,
      UInt32.le_iff_toNat_le, UInt32.reduceToNat, Char.reduceVal, Bool.or_eq_true,
      Bool.and_eq_true, decide_eq_true_eq] at hletter hdigit
    omega

theorem parseCookieTime_eq {s : Str} {hour minute second : ℕ}
    (h : SpellsTime s hour minute second) :
    parseCookieTime s = some ((hour : ℤ), (minute : ℤ), (second : ℤ)) := by
  obtain ⟨a, b, c, rfl, ha, hb, hc⟩ := h
  have hcolon : ∀ {n : ℕ} {t : Str}, IsDigits 2 t n → ':' ∉ t := fun ht hmem =>
    absurd (ht.digits _ hmem) (by decide)
  have hrest : (a ++ ':' :: (b ++ ':' :: c)).drop (a.length + 1) = b ++ ':' :: c := by simp
  have hlast : (a ++ ':' :: (b ++ ':' :: c)).drop (a.length + 1 + b.length + 1) = c := by
    rw [Nat.add_assoc (a.length + 1), ← List.drop_drop, hrest]
    simp
  unfold parseCookieTime
  rw [find_append_cons (hcolon ha)]
  dsimp only
  rw [hrest, find_append_cons (hcolon hb)]
  dsimp only
  rw [hlast, find_eq_none.mpr (hcolon hc), if_neg (by simp), List.take_left, List.take_left]
  unfold parseDecimal
  rw [ha.parseNumber (by decide) (by decide) le_rfl (by decide),
    hb.parseNumber (by decide) (by decide) le_rfl (by decide),
    hc.parseNumber (by decide) (by decide) le_rfl (by decide)]

namespace CookieDate

variable {date : CookieDate} {s : Str}

theorem read_time {hour minute second : ℕ} (h : SpellsTime s hour minute second)
    (htime : date.time = none) :
    date.read s = { date with time := some ((hour : ℤ), (minute : ℤ), (second : ℤ)) } := by
  unfold read
  rw [htime, parseCookieTime_eq h]
  rfl

theorem read_day {width n : ℕ} (h : IsDigits width s n) (hlow : 1 ≤ width) (hhigh : width ≤ 2)
    (hday : date.day = none) : date.read s = { date with day := some (n : ℤ) } := by
  unfold read
  rw [h.parseCookieTime, ite_self, hday, parseDecimal,
    h.parseNumber le_rfl hlow hhigh (by omega)]
  rfl

/-- A name is read as a month if it is one. -/
theorem read_name (h : IsName s) :
    date.read s =
      if date.month = none ∧ cookieMonth s ≠ 0 then { date with month := some (cookieMonth s) }
      else date := by
  unfold read
  rw [h.parseCookieTime, ite_self, h.parseDecimal, ite_self, h.parseDecimal]
  simp only [Option.isNone_iff_eq_none]
  apply if_congr Iff.rfl rfl
  split_ifs with hyear
  · rw [← hyear]
  · rfl

theorem read_year {n : ℕ} (h : IsDigits 4 s n) (hmonth : date.month ≠ none)
    (hyear : date.year = none) : date.read s = { date with year := some (n : ℤ) } := by
  have hlong : parseDecimal s 1 2 = none := by
    unfold parseDecimal parseNumber
    rw [if_pos (Or.inr (by rw [h.length]; decide))]
  unfold read
  rw [h.parseCookieTime, ite_self, hlong, ite_self]
  dsimp only
  rw [if_neg (fun hboth => hmonth (Option.isNone_iff_eq_none.mp hboth.1)), hyear, parseDecimal,
    h.parseNumber (by decide) (by decide) le_rfl (by decide)]
  rfl

/-- Nothing is read once all parts are found. -/
theorem read_complete (htime : date.time ≠ none) (hday : date.day ≠ none)
    (hmonth : date.month ≠ none) (hyear : date.year ≠ none) : date.read s = date := by
  unfold read
  rw [if_pos (Option.isSome_iff_ne_none.mpr htime)]
  dsimp only
  rw [if_pos (Option.isSome_iff_ne_none.mpr hday)]
  dsimp only
  rw [if_neg (fun h => hmonth (Option.isNone_iff_eq_none.mp h.1)),
    if_neg (fun h => hyear (Option.isNone_iff_eq_none.mp h))]

/-- What has been found of a date once all of it is read. -/
def ofFields (f : Fields) : CookieDate where
  time := some ((f.hour : ℤ), (f.minute : ℤ), (f.second : ℤ))
  day := some (f.day : ℤ)
  month := some f.month
  year := some f.year

end CookieDate

/-- A weekday is passed over, and the other parts are found in the order of an IMF-fixdate. -/
theorem ImfFixdate.read {value : Str} {f : Fields} (h : ImfFixdate value f) :
    (dateTokens value).foldl CookieDate.read {} = CookieDate.ofFields f := by
  obtain ⟨weekday, rest, day, month, year, time, zone, n, hvalue, hcomma, hweekday, hsplit, hday,
    hmonth, hyear, hn, htime, hzone⟩ := h
  obtain ⟨hname, hother⟩ := isName_weekday hweekday
  have hzone' : IsName zone :=
    isName_of_spelled hzone ⟨by decide, List.all_eq_true.mp (by decide)⟩
  have hrest : tokens cookieDateDelimiter rest = [day, month, year, time, zone] := by
    rw [← hsplit]
    apply dateTokens_words
    rw [hsplit]
    intro w hw
    simp only [List.mem_cons, List.not_mem_nil, or_false] at hw
    rcases hw with rfl | rfl | rfl | rfl | rfl
    · exact hday.isDateToken (by decide)
    · exact hmonth.isName.isDateToken
    · exact hyear.isDateToken (by decide)
    · exact htime.isDateToken
    · exact hzone'.isDateToken
  have htokens : dateTokens value = [trimOws weekday, day, month, year, time, zone] := by
    calc
      dateTokens value = tokens cookieDateDelimiter (trimOws value) := by
        rw [dateTokens_eq]
        exact (tokens_trim (fun c => delimiter_of_isSpace) value).symm
      _ = tokens cookieDateDelimiter (trimOws weekday) ++ tokens cookieDateDelimiter rest := by
        rw [hvalue, tokens_append_cons rfl]
        exact congrArg (· ++ _) (tokens_trim (fun c => delimiter_of_isSpace) weekday).symm
      _ = _ := by
        rw [tokens_isDateToken hname.isDateToken, hrest]
        rfl
  have hpos : f.month ≠ 0 := by
    have := hmonth.pos
    omega
  rw [htokens]
  simp only [List.foldl_cons, List.foldl_nil]
  rw [CookieDate.read_name hname, hother, if_neg (by simp),
    CookieDate.read_day hday (by decide) (by decide) rfl, CookieDate.read_name hmonth.isName,
    hmonth.cookieMonth, if_pos ⟨rfl, hpos⟩, CookieDate.read_year hyear (by simp) rfl,
    CookieDate.read_time htime rfl,
    CookieDate.read_complete (by simp) (by simp) (by simp) (by simp), ← hn]
  rfl

/-- The same in the order of an asctime-date. -/
theorem AsctimeDate.read {value : Str} {f : Fields} (h : AsctimeDate value f) :
    (dateTokens value).foldl CookieDate.read {} = CookieDate.ofFields f := by
  obtain ⟨weekday, month, day, time, year, n, hcomma, hsplit, hweekday, hmonth, hday, htime,
    hyear, hn⟩ := h
  obtain ⟨hname, hother⟩ := isName_weekday hweekday
  obtain ⟨width, hlow, hhigh, hdigits⟩ : ∃ width, 1 ≤ width ∧ width ≤ 2 ∧
      IsDigits width day f.day := by
    rcases hday with hone | htwo
    · exact ⟨1, le_rfl, by decide, hone⟩
    · exact ⟨2, by decide, le_rfl, htwo⟩
  have htokens : dateTokens value = [weekday, month, day, time, year] := by
    calc
      dateTokens value = tokens cookieDateDelimiter (trimOws value) := by
        rw [dateTokens_eq]
        exact (tokens_trim (fun c => delimiter_of_isSpace) value).symm
      _ = splitSpaces (trimOws value) := by
        apply dateTokens_words
        rw [hsplit]
        intro w hw
        simp only [List.mem_cons, List.not_mem_nil, or_false] at hw
        rcases hw with rfl | rfl | rfl | rfl | rfl
        · exact hname.isDateToken
        · exact hmonth.isName.isDateToken
        · exact hdigits.isDateToken hlow
        · exact htime.isDateToken
        · exact hyear.isDateToken (by decide)
      _ = _ := hsplit
  have hpos : f.month ≠ 0 := by
    have := hmonth.pos
    omega
  rw [htokens]
  simp only [List.foldl_cons, List.foldl_nil]
  rw [CookieDate.read_name hname, hother, if_neg (by simp), CookieDate.read_name hmonth.isName,
    hmonth.cookieMonth, if_pos ⟨rfl, hpos⟩, CookieDate.read_day hdigits hlow hhigh rfl,
    CookieDate.read_time htime rfl, CookieDate.read_year hyear (by simp) rfl, ← hn]
  rfl

/-! ### The timestamps -/

theorem fullYear_eq {year : ℤ} (h : 1601 ≤ year) : fullYear year = year := by
  unfold fullYear
  rw [if_neg (by omega), if_neg (by omega)]

/-- The expiry of a date that exists. -/
theorem parseCookieExpiry_eq {value : Str} {f : Fields}
    (hread : (dateTokens value).foldl CookieDate.read {} = CookieDate.ofFields f) (h : f.Exists)
    (hyear : 1601 ≤ f.year) (hsecond : f.second ≤ 59) (now : ℕ) :
    parseCookieExpiry value (some now) =
      some (if f.timestamp ≤ (now : ℤ) then 1 else f.timestamp.toNat) := by
  have hlength := daysInMonth_eq f.year h.month_pos h.month_le
  have hday := h.day_pos
  have hday' := h.day_le
  have hhour := h.hour_le
  have hminute := h.minute_le
  have htimestamp : daysFromCivil f.year f.month f.day * 86400 + f.hour * 3600 + f.minute * 60 +
      f.second = f.timestamp := by
    rw [daysFromCivil_eq f.year h.month_pos h.month_le h.day_pos]
    unfold Fields.timestamp Fields.secondOfDay
    push_cast
    ring
  unfold parseCookieExpiry
  rw [hread]
  unfold CookieDate.ofFields
  dsimp only
  rw [fullYear_eq hyear, Int.toNat_natCast, htimestamp, if_neg (by omega)]
  rfl

/-- An HTTP date is the cookie date of the same moment. -/
theorem parseCookieExpiry_httpDate {value : Str} {f : Fields} {reference : Option ℕ} {t : ℤ}
    (h : ImfFixdate value f ∨ AsctimeDate value f) (hsecond : f.second ≤ 59)
    (hparse : parseHttpDate value reference = some t) (now : ℕ) :
    parseCookieExpiry value (some now) = some (if t ≤ (now : ℤ) then 1 else t.toNat) := by
  have hmake : makeTimestamp f.year f.month f.day f.hour f.minute f.second = some t := by
    rcases h with h | h
    · rw [← parseHttpDate_imf reference h, hparse]
    · rw [← parseHttpDate_asctime reference h, hparse]
  have hread : (dateTokens value).foldl CookieDate.read {} = CookieDate.ofFields f := by
    rcases h with h | h
    · exact h.read
    · exact h.read
  obtain ⟨hexist, rfl⟩ := makeTimestamp_fields hmake
  obtain ⟨g, -, hyear, hsame, -⟩ := makeTimestamp_eq_some hmake
  rw [hsame] at hyear
  exact parseCookieExpiry_eq hread hexist hyear hsecond now

/-- `Sun Nov  6 08:49:37 1994`, read a second earlier. -/
theorem parseCookieExpiry_httpDate_november94 :
    parseCookieExpiry "Sun Nov  6 08:49:37 1994".toList (some 784111776) = some 784111777 := by
  have hmonth : SpellsMonth "Nov".toList 11 := ⟨by decide, by decide, by decide⟩
  have hday : IsDigits 1 "6".toList 6 := ⟨rfl, List.all_eq_true.mp (by decide), by decide⟩
  have hyear : IsDigits 4 "1994".toList 1994 := ⟨rfl, List.all_eq_true.mp (by decide), by decide⟩
  have htime : SpellsTime "08:49:37".toList 8 49 37 :=
    ⟨"08".toList, "49".toList, "37".toList, rfl, ⟨rfl, List.all_eq_true.mp (by decide), by decide⟩,
      ⟨rfl, List.all_eq_true.mp (by decide), by decide⟩,
      ⟨rfl, List.all_eq_true.mp (by decide), by decide⟩⟩
  have hform : AsctimeDate "Sun Nov  6 08:49:37 1994".toList ⟨1994, 11, 6, 8, 49, 37⟩ :=
    ⟨"Sun".toList, "Nov".toList, _, _, _, 1994, by decide, by decide, by decide, hmonth,
      Or.inl hday, htime, hyear, rfl⟩
  have hparse : parseHttpDate "Sun Nov  6 08:49:37 1994".toList none = some 784111777 := by
    decide
  exact parseCookieExpiry_httpDate (Or.inr hform) (by decide) hparse 784111776

/-! ### The range of expiries -/

theorem parseDecimal_lt {s : Str} {lo hi : ℕ} {v : ℤ} (h : parseDecimal s lo hi = some v) :
    v < (10 ^ hi : ℕ) := by
  obtain ⟨n, rfl, hdigits, -, hhi⟩ := parseNumber_eq_some h
  exact_mod_cast hdigits.lt.trans_le (Nat.pow_le_pow_right (by decide) hhi)

theorem cookieMonth_le (s : Str) : cookieMonth s ≤ 12 := by
  unfold cookieMonth
  split_ifs
  · exact Nat.zero_le _
  · cases hfound : months.findIdx? (· == asciiLower (s.take 3)) with
    | none => exact Nat.zero_le _
    | some i => exact (List.findIdx?_eq_some_iff_getElem.mp hfound).1

/-- The parts of a date that have been found are those of an early year. -/
structure CookieDate.Small (date : CookieDate) : Prop where
  day : ∀ d ∈ date.day, d < 100
  month : ∀ m ∈ date.month, m ≤ 12
  year : ∀ y ∈ date.year, y < 10000

theorem CookieDate.Small.read {date : CookieDate} (h : date.Small) (token : Str) :
    (date.read token).Small := by
  obtain ⟨hday, hmonth, hyear⟩ := h
  unfold CookieDate.read
  split
  · exact ⟨hday, hmonth, hyear⟩
  · split
    · rename_i day hread
      refine ⟨?_, hmonth, hyear⟩
      intro d hd
      cases hd
      split_ifs at hread
      exact parseDecimal_lt hread
    · split_ifs
      · refine ⟨hday, ?_, hyear⟩
        intro m hm
        cases hm
        exact cookieMonth_le token
      · refine ⟨hday, hmonth, ?_⟩
        intro y hy
        exact parseDecimal_lt hy
      · exact ⟨hday, hmonth, hyear⟩

theorem cookieDate_small (tokens : List Str) {date : CookieDate} (h : date.Small) :
    (tokens.foldl CookieDate.read date).Small := by
  induction tokens generalizing date with
  | nil => exact h
  | cons token tokens ih => exact ih (h.read token)

theorem parseCookieExpiry_lt {value : Str} {now : Option ℕ} {expiry : ℕ}
    (h : parseCookieExpiry value now = some expiry) : expiry < 2 ^ 63 := by
  have hsmall : ((dateTokens value).foldl CookieDate.read {}).Small :=
    cookieDate_small _ ⟨by simp, by simp, by simp⟩
  unfold parseCookieExpiry at h
  split at h
  case h_2 => cases h
  case h_1 hour minute second day month year hread =>
    rw [hread] at hsmall
    obtain ⟨hday, hmonth, hyear⟩ := hsmall
    have hday := hday day rfl
    have hmonth := hmonth month rfl
    have hyear := hyear year rfl
    dsimp only at h
    split_ifs at h with hbad
    obtain ⟨seconds, -, hexpiry⟩ := Option.map_eq_some_iff.mp h
    have hfull : fullYear year < 10000 := by
      unfold fullYear
      split_ifs <;> omega
    have hfirst : 1 ≤ day.toNat := by omega
    have hdays := daysFromCivil_march (fullYear year) month hfirst
    have hmarch : marchYear (fullYear year) month < 10000 := by
      unfold marchYear
      split_ifs <;> omega
    have hmonths : marchDays (marchMonth month) ≤ 400 := by
      unfold marchDays marchMonth
      split_ifs <;> omega
    split_ifs at hexpiry
    · omega
    · omega

end KatHttp3
