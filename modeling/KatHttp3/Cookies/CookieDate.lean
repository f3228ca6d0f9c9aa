import KatHttp3.Cache.HttpDate

/-!
# Cookie dates

The lenient date parser of `cookie_jar.cc`. It cuts a date at any delimiter and
takes the first token that reads as a time, a day, a month or a year. The
calendar functions are those of `http_date.cc`, of which the file has a copy.
-/

namespace KatHttp3

open Str

def cookieDateDelimiter (c : Char) : Bool :=
  c.toNat == 0x09 || (0x20 ≤ c.toNat && c.toNat ≤ 0x2f) || (0x3b ≤ c.toNat && c.toNat ≤ 0x40) ||
    (0x5b ≤ c.toNat && c.toNat ≤ 0x60) || (0x7b ≤ c.toNat && c.toNat ≤ 0x7e)

def dateTokens (value : Str) : List Str := (value.splitOnP cookieDateDelimiter).filter (· ≠ [])

/-- `parse_decimal`, which is `parse_number` of the HTTP dates. -/
def parseDecimal (token : Str) (minDigits maxDigits : ℕ) : Option ℤ :=
  parseNumber token minDigits maxDigits

def parseCookieTime (token : Str) : Option (ℤ × ℤ × ℤ) :=
  match find token ':' with
  | none => none
  | some first =>
    match find (token.drop (first + 1)) ':' with
    | none => none
    | some gap =>
      let secondColon := first + 1 + gap
      if find (token.drop (secondColon + 1)) ':' ≠ none then none
      else
        match parseDecimal (token.take first) 1 2, parseDecimal ((token.drop (first + 1)).take gap) 1 2,
          parseDecimal (token.drop (secondColon + 1)) 1 2 with
        | some hour, some minute, some second => some (hour, minute, second)
        | _, _, _ => none

/-- The number of a month by its first three letters, 0 for anything else. -/
def cookieMonth (token : Str) : ℕ :=
  if token.length < 3 then 0
  else
    match months.findIdx? (· == asciiLower (token.take 3)) with
    | none => 0
    | some i => i + 1

/-- What has been found of a date. -/
structure CookieDate where
  time : Option (ℤ × ℤ × ℤ) := none
  day : Option ℤ := none
  month : Option ℕ := none
  year : Option ℤ := none

namespace CookieDate

def read (date : CookieDate) (token : Str) : CookieDate :=
  match if date.time.isSome then none else parseCookieTime token with
  | some time => { date with time := some time }
  | none =>
    match if date.day.isSome then none else parseDecimal token 1 2 with
    | some day => { date with day := some day }
    | none =>
      if date.month.isNone ∧ cookieMonth token ≠ 0 then
        { date with month := some (cookieMonth token) }
      else if date.year.isNone then { date with year := parseDecimal token 2 4 }
      else date

end CookieDate

/-- A year of two digits stands for one between 1970 and 2069. -/
def fullYear (year : ℤ) : ℤ :=
  if 70 ≤ year ∧ year ≤ 99 then year + 1900 else if year ≤ 69 then year + 2000 else year

/-- The expiry of an Expires attribute, 1 if it has passed at the time `now`. -/
def parseCookieExpiry (value : Str) (now : Option ℕ) : Option ℕ :=
  match (dateTokens value).foldl CookieDate.read {} with
  | ⟨some (hour, minute, second), some day, some month, some year⟩ =>
    let year := fullYear year
    if year < 1601 ∨ day < 1 ∨ daysInMonth year month < day ∨ 23 < hour ∨ 59 < minute ∨
        59 < second then
      none
    else
      let timestamp :=
        daysFromCivil year month day.toNat * 86400 + hour * 3600 + minute * 60 + second
      now.map fun (seconds : ℕ) => if timestamp ≤ (seconds : ℤ) then 1 else timestamp.toNat
  | _ => none

/-- An accepted date has not passed, or its expiry is 1. -/
theorem parseCookieExpiry_cases {value : Str} {now : Option ℕ} {expiry : ℕ}
    (h : parseCookieExpiry value now = some expiry) :
    ∃ seconds, now = some seconds ∧ (expiry = 1 ∨ seconds < expiry) := by
  unfold parseCookieExpiry at h
  split at h
  · dsimp only at h
    split_ifs at h
    obtain ⟨seconds, hnow, hexpiry⟩ := Option.map_eq_some_iff.mp h
    refine ⟨seconds, hnow, ?_⟩
    split_ifs at hexpiry with hpassed
    · exact Or.inl hexpiry.symm
    · right
      omega
  · cases h

/-- An expiry is never 0, which stands for a session cookie. -/
theorem parseCookieExpiry_pos {value : Str} {now : Option ℕ} {expiry : ℕ}
    (h : parseCookieExpiry value now = some expiry) : 0 < expiry := by
  obtain ⟨seconds, -, hexpiry⟩ := parseCookieExpiry_cases h
  omega

end KatHttp3
