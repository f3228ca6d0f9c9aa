import KatHttp3.Text.Str

/-!
# HTTP dates

The three date forms of `http_date.cc`. Years and days are integers, and the
divisions that C++ truncates are written with `tdiv`.
-/

namespace KatHttp3

open Str

def isSpace (c : Char) : Bool := c == ' ' || c == '\t'

/-- The nonempty pieces between spaces and tabs. -/
def splitSpaces (value : Str) : List Str := (value.splitOnP isSpace).filter (· ≠ [])

def longWeekdays : List Str :=
  ["Sunday".toList, "Monday".toList, "Tuesday".toList, "Wednesday".toList, "Thursday".toList,
    "Friday".toList, "Saturday".toList]

def shortWeekdays : List Str :=
  ["Sun".toList, "Mon".toList, "Tue".toList, "Wed".toList, "Thu".toList, "Fri".toList,
    "Sat".toList]

def validWeekday (value : Str) (longForm : Bool) : Bool :=
  (if longForm then longWeekdays else shortWeekdays).any (asciiIequals value)

def parseNumber (value : Str) (minDigits maxDigits : ℕ) : Option ℤ :=
  if value.length < minDigits ∨ maxDigits < value.length then none
  else (fromChars (2 ^ 31 - 1) value).map Int.ofNat

def months : List Str :=
  ["jan".toList, "feb".toList, "mar".toList, "apr".toList, "may".toList, "jun".toList,
    "jul".toList, "aug".toList, "sep".toList, "oct".toList, "nov".toList, "dec".toList]

/-- The number of a month, 0 for anything else. -/
def monthNumber (value : Str) : ℕ :=
  if value.length ≠ 3 then 0
  else
    match months.findIdx? (asciiIequals value) with
    | none => 0
    | some i => i + 1

def parseTime (value : Str) : Option (ℤ × ℤ × ℤ) :=
  if value.length ≠ 8 ∨ value[2]? ≠ some ':' ∨ value[5]? ≠ some ':' then none
  else
    match parseNumber (value.take 2) 2 2, parseNumber ((value.drop 3).take 2) 2 2,
      parseNumber ((value.drop 6).take 2) 2 2 with
    | some hour, some minute, some second => some (hour, minute, second)
    | _, _, _ => none

def leapYear (year : ℤ) : Bool :=
  year.tmod 4 = 0 ∧ (year.tmod 100 ≠ 0 ∨ year.tmod 400 = 0)

def daysInMonth (year : ℤ) (month : ℕ) : ℤ :=
  if month = 2 ∧ leapYear year then 29
  else ([31, 28, 31, 30, 31, 30, 31, 31, 30, 31, 30, 31] : List ℤ).getD (month - 1) 0

def daysFromCivil (year : ℤ) (month day : ℕ) : ℤ :=
  let year := if month ≤ 2 then year - 1 else year
  let era := (if 0 ≤ year then year else year - 399).tdiv 400
  let yearOfEra := (year - era * 400).toNat
  let adjustedMonth := if 2 < month then month - 3 else month + 9
  let dayOfYear := (153 * adjustedMonth + 2) / 5 + day - 1
  let dayOfEra := yearOfEra * 365 + yearOfEra / 4 - yearOfEra / 100 + dayOfYear
  era * 146097 + dayOfEra - 719468

/-- Year, month and day of a day number. -/
def civilFromDays (days : ℤ) : ℤ × ℕ × ℕ :=
  let days := days + 719468
  let era := (if 0 ≤ days then days else days - 146096).tdiv 146097
  let dayOfEra := (days - era * 146097).toNat
  let yearOfEra := (dayOfEra - dayOfEra / 1460 + dayOfEra / 36524 - dayOfEra / 146096) / 365
  let year : ℤ := yearOfEra + era * 400
  let dayOfYear := dayOfEra - (365 * yearOfEra + yearOfEra / 4 - yearOfEra / 100)
  let adjustedMonth := (5 * dayOfYear + 2) / 153
  let day := dayOfYear - (153 * adjustedMonth + 2) / 5 + 1
  let month := if adjustedMonth < 10 then adjustedMonth + 3 else adjustedMonth - 9
  (if month ≤ 2 then year + 1 else year, month, day)

/-- `std::to_chars` padded with zeros on the left. -/
def fixedDecimal (value width : ℕ) : Str :=
  List.replicate (width - (ofNat value).length) '0' ++ ofNat value

def makeTimestamp (year : ℤ) (month : ℕ) (day hour minute second : ℤ) : Option ℤ :=
  if year < 1601 ∨ month < 1 ∨ 12 < month ∨ day < 1 ∨ daysInMonth year month < day ∨
      hour < 0 ∨ 23 < hour ∨ minute < 0 ∨ 59 < minute ∨ second < 0 ∨ 60 < second then
    none
  else
    let days := daysFromCivil year month day.toNat
    if (2 ^ 63 - 1 : ℤ).tdiv 86400 < days ∨ days < (-2 ^ 63 : ℤ).tdiv 86400 then none
    else
      let daySeconds := days * 86400
      let secondsOfDay := hour * 3600 + minute * 60 + second
      if (2 ^ 63 - 1 : ℤ) - secondsOfDay < daySeconds ∨
          daySeconds < (-2 ^ 63 : ℤ) + secondsOfDay then
        none
      else some (daySeconds + secondsOfDay)

/-- Lexicographic comparison of the date-times of the RFC 850 rule. -/
def laterThan : List ℤ → List ℤ → Bool
  | a :: as, b :: bs => b < a || (a == b && laterThan as bs)
  | _, _ => false

def maxReferenceSeconds : ℕ := 253402300799

/-- `Sun, 06 Nov 1994 08:49:37 GMT`. -/
def parseImfFixdate (weekday : Str) (f0 f1 f2 f3 f4 : Str) : Option ℤ :=
  if validWeekday weekday false = false then none
  else
    match parseNumber f0 2 2, parseNumber f2 4 4, parseTime f3 with
    | some day, some year, some (hour, minute, second) =>
      if monthNumber f1 = 0 ∨ asciiIequals f4 "GMT".toList = false then none
      else makeTimestamp year (monthNumber f1) day hour minute second
    | _, _, _ => none

/-- The two-digit year of an RFC 850 date, moved into the window that ends 50
years after the reference time. -/
def rollingYear (reference : ℕ) (year : ℤ) (month : ℕ) (day hour minute second : ℤ) : ℤ :=
  let (referenceYear, referenceMonth, referenceDay) := civilFromDays (reference / 86400 : ℕ)
  let referenceTime := reference % 86400
  let year := year + ((referenceYear + 50).tdiv 100) * 100
  let candidate := [year, (month : ℤ), day, hour, minute, second]
  let futureLimit := [referenceYear + 50, (referenceMonth : ℤ), (referenceDay : ℤ),
    (referenceTime / 3600 : ℕ), (referenceTime / 60 % 60 : ℕ), (referenceTime % 60 : ℕ)]
  if laterThan candidate futureLimit then year - 100 else year

/-- `Sunday, 06-Nov-94 08:49:37 GMT`. -/
def parseRfc850 (weekday : Str) (f0 f1 f2 : Str) (reference : Option ℕ) : Option ℤ :=
  if validWeekday weekday true = false then none
  else
    match find f0 '-' with
    | none => none
    | some firstDash =>
      match find (f0.drop (firstDash + 1)) '-' with
      | none => none
      | some gap =>
        let secondDash := firstDash + 1 + gap
        let month := monthNumber ((f0.drop (firstDash + 1)).take gap)
        if find (f0.drop (secondDash + 1)) '-' ≠ none ∨ asciiIequals f2 "GMT".toList = false then
          none
        else
          match parseNumber (f0.take firstDash) 2 2, parseNumber (f0.drop (secondDash + 1)) 2 2,
            parseTime f1, reference with
          | some day, some year, some (hour, minute, second), some reference =>
            if month = 0 ∨ maxReferenceSeconds < reference then none
            else
              makeTimestamp (rollingYear reference year month day hour minute second) month day
                hour minute second
          | _, _, _, _ => none

/-- `Sun Nov  6 08:49:37 1994`. -/
def parseAsctime (f0 f1 f2 f3 f4 : Str) : Option ℤ :=
  let month := monthNumber f1
  if validWeekday f0 false = false ∨ month = 0 then none
  else
    match parseNumber f2 1 2, parseTime f3, parseNumber f4 4 4 with
    | some day, some (hour, minute, second), some year =>
      makeTimestamp year month day hour minute second
    | _, _, _ => none

def parseHttpDate (value : Str) (reference : Option ℕ) : Option ℤ :=
  let value := trimOws value
  if value = [] then none
  else
    match find value ',' with
    | some comma =>
      let weekday := trimOws (value.take comma)
      match splitSpaces (value.drop (comma + 1)) with
      | [f0, f1, f2, f3, f4] => parseImfFixdate weekday f0 f1 f2 f3 f4
      | [f0, f1, f2] => parseRfc850 weekday f0 f1 f2 reference
      | _ => none
    | none =>
      match splitSpaces value with
      | [f0, f1, f2, f3, f4] => parseAsctime f0 f1 f2 f3 f4
      | _ => none

def weekdayNames : List Str := shortWeekdays

def monthNames : List Str :=
  ["Jan".toList, "Feb".toList, "Mar".toList, "Apr".toList, "May".toList, "Jun".toList,
    "Jul".toList, "Aug".toList, "Sep".toList, "Oct".toList, "Nov".toList, "Dec".toList]

def formatHttpDate (seconds : ℕ) : Str :=
  let maxDateSeconds := (daysFromCivil 9999 12 31 * 86400 + 86399).toNat
  let seconds := min seconds maxDateSeconds
  let days := seconds / 86400
  let secondsOfDay := seconds % 86400
  let (year, month, day) := civilFromDays days
  weekdayNames.getD ((days + 4) % 7) [] ++ ", ".toList ++ fixedDecimal day 2 ++ " ".toList ++
    monthNames.getD (month - 1) [] ++ " ".toList ++ fixedDecimal year.toNat 4 ++ " ".toList ++
    fixedDecimal (secondsOfDay / 3600) 2 ++ ":".toList ++
    fixedDecimal (secondsOfDay / 60 % 60) 2 ++ ":".toList ++ fixedDecimal (secondsOfDay % 60) 2 ++
    " GMT".toList

/-! ### Timestamps fit 64 bits -/

theorem makeTimestamp_bounds {year day hour minute second t : ℤ} {month : ℕ}
    (h : makeTimestamp year month day hour minute second = some t) :
    -2 ^ 63 ≤ t ∧ t ≤ 2 ^ 63 - 1 := by
  unfold makeTimestamp at h
  simp only at h
  split_ifs at h with h1 h2 h3
  cases h
  omega

theorem parseImfFixdate_bounds {weekday f0 f1 f2 f3 f4 : Str} {t : ℤ}
    (h : parseImfFixdate weekday f0 f1 f2 f3 f4 = some t) : -2 ^ 63 ≤ t ∧ t ≤ 2 ^ 63 - 1 := by
  unfold parseImfFixdate at h
  split at h
  · cases h
  · split at h
    · split at h
      · cases h
      · exact makeTimestamp_bounds h
    · cases h

theorem parseAsctime_bounds {f0 f1 f2 f3 f4 : Str} {t : ℤ}
    (h : parseAsctime f0 f1 f2 f3 f4 = some t) : -2 ^ 63 ≤ t ∧ t ≤ 2 ^ 63 - 1 := by
  unfold parseAsctime at h
  simp only at h
  split at h
  · cases h
  · split at h
    · exact makeTimestamp_bounds h
    · cases h

theorem parseRfc850_bounds {weekday f0 f1 f2 : Str} {reference : Option ℕ} {t : ℤ}
    (h : parseRfc850 weekday f0 f1 f2 reference = some t) : -2 ^ 63 ≤ t ∧ t ≤ 2 ^ 63 - 1 := by
  unfold parseRfc850 at h
  split at h
  · cases h
  · split at h
    · cases h
    · split at h
      · cases h
      · simp only at h
        split at h
        · cases h
        · split at h
          · split at h
            · cases h
            · exact makeTimestamp_bounds h
          · cases h

theorem parseHttpDate_bounds {value : Str} {reference : Option ℕ} {t : ℤ}
    (h : parseHttpDate value reference = some t) : -2 ^ 63 ≤ t ∧ t ≤ 2 ^ 63 - 1 := by
  unfold parseHttpDate at h
  simp only at h
  split at h
  · cases h
  · split at h
    · split at h
      · exact parseImfFixdate_bounds h
      · exact parseRfc850_bounds h
      · cases h
    · split at h
      · exact parseAsctime_bounds h
      · cases h

end KatHttp3
