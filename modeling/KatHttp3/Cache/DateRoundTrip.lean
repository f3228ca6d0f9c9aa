import KatHttp3.Cache.DateTexts
import KatHttp3.Library.Tokens
import KatHttp3.Text.Trim

/-!
# Printing HTTP dates

What `format_http_date` prints is read back by `parse_http_date`, in every year
up to 9999.
-/

namespace KatHttp3

open Str Calendar Tokens

theorem splitSpaces_eq (value : Str) : splitSpaces value = tokens isSpace value := by
  unfold splitSpaces tokens
  apply List.filter_congr
  intro piece _
  cases piece <;> rfl

/-! ### Numbers in a fixed width -/

theorem isDigits_fixedDecimal {n width : ℕ} (hpos : 0 < width) (h : n < 10 ^ width) :
    IsDigits width (fixedDecimal n width) n where
  length := by
    have hle : (ofNat n).length ≤ width := (Nat.length_toDigits_le_iff (by decide) hpos).mpr h
    rw [fixedDecimal, List.length_append, List.length_replicate, Nat.sub_add_cancel hle]
  digits c hc := by
    rcases List.mem_append.mp hc with hzero | hdigit
    · rw [List.eq_of_mem_replicate hzero]
      rfl
    · exact isDigit_of_mem_ofNat hdigit
  value := by
    unfold decimal fixedDecimal
    rw [Nat.ofDigitChars_append, Nat.ofDigitChars_replicate_zero, Nat.mul_zero]
    exact Nat.ofDigitChars_ten_toDigits

/-! ### The day that is printed -/

/-- The last second that is printed. -/
def maxDateSeconds : ℕ := 253402300799

/-- The date and time of the printed text. -/
structure Prints (seconds : ℕ) (f : Fields) : Prop where
  exist : f.Exists
  second_le : f.second ≤ 59
  year_pos : 1970 ≤ f.year
  year_le : f.year ≤ 9999
  timestamp : f.timestamp = (min seconds maxDateSeconds : ℕ)

/-- The text for a day of the week, a date and a time. -/
def imfText (f : Fields) : Str :=
  weekdayNames.getD (weekday (dayNumber f.year f.month f.day)) [] ++ ',' :: ' ' ::
    (fixedDecimal f.day 2 ++ ' ' :: (monthNames.getD (f.month - 1) [] ++ ' ' ::
      (fixedDecimal f.year.toNat 4 ++ ' ' ::
        ((fixedDecimal f.hour 2 ++ ':' :: (fixedDecimal f.minute 2 ++ ':' ::
          fixedDecimal f.second 2)) ++ ' ' :: "GMT".toList))))

theorem formatHttpDate_eq (seconds : ℕ) :
    ∃ f, Prints seconds f ∧ formatHttpDate seconds = imfText f := by
  have hmax : (daysFromCivil 9999 12 31 * 86400 + 86399).toNat = maxDateSeconds := by decide
  have hle : min seconds maxDateSeconds ≤ 253402300799 := min_le_right _ _
  unfold formatHttpDate
  dsimp only
  rw [hmax]
  generalize hcap : min seconds maxDateSeconds = cap at hle
  obtain ⟨d, hd, hcivil⟩ := civilFromDays_eq ((cap / 86400 : ℕ) : ℤ)
  have hyear : 1970 ≤ d.year ∧ d.year ≤ 9999 := by
    rw [d.year_mem_iff, hd]
    unfold yearStart
    omega
  have hweekday : (cap / 86400 + 4) % 7 = weekday d.number := by
    rw [hd]
    unfold weekday
    omega
  refine ⟨⟨d.year, d.month, d.day, cap % 86400 / 3600, cap % 86400 / 60 % 60, cap % 86400 % 60⟩,
    ⟨⟨d.month_pos, d.month_le, d.day_pos, d.day_le, ?_, ?_, ?_⟩, ?_, hyear.1, hyear.2, ?_⟩, ?_⟩
  · dsimp only
    omega
  · dsimp only
    omega
  · dsimp only
    omega
  · dsimp only
    omega
  · have hnumber : dayNumber d.year d.month d.day = (cap / 86400 : ℕ) := hd
    unfold Fields.timestamp Fields.secondOfDay
    dsimp only
    rw [hnumber, hcap]
    push_cast
    omega
  · rw [hcivil, hweekday]
    unfold imfText
    simp [Date.number]

/-- A text that is a token between spaces. -/
structure IsWord (s : Str) : Prop where
  nonempty : s ≠ []
  unspaced : ∀ c ∈ s, isSpace c = false

theorem isSpace_of_isAlphanum {c : Char} (h : c.isAlphanum = true) : isSpace c = false := by
  rw [← Bool.not_eq_true, isSpace, Bool.or_eq_true, beq_iff_eq, beq_iff_eq]
  rintro (rfl | rfl)
  · exact absurd h (by decide)
  · exact absurd h (by decide)

theorem isWord_of_isAlphanum {s : Str} (hne : s ≠ []) (h : ∀ c ∈ s, c.isAlphanum = true) :
    IsWord s :=
  ⟨hne, fun c hc => isSpace_of_isAlphanum (h c hc)⟩

theorem IsDigits.isWord {width n : ℕ} {s : Str} (h : IsDigits width s n) (hpos : 0 < width) :
    IsWord s := by
  apply isWord_of_isAlphanum
  · rintro rfl
    rw [← h.length] at hpos
    exact absurd hpos (lt_irrefl 0)
  · intro c hc
    rw [Char.isAlphanum, h.digits c hc, Bool.or_true]

theorem SpellsTime.isWord {s : Str} {hour minute second : ℕ}
    (h : SpellsTime s hour minute second) : IsWord s := by
  obtain ⟨a, b, c, rfl, ha, hb, hc⟩ := h
  refine ⟨by simp, fun d hd => ?_⟩
  simp only [List.mem_append, List.mem_cons] at hd
  rcases hd with hd | rfl | hd | rfl | hd
  · exact (ha.isWord (by decide)).unspaced d hd
  · rfl
  · exact (hb.isWord (by decide)).unspaced d hd
  · rfl
  · exact (hc.isWord (by decide)).unspaced d hd

theorem SpellsTime.length {s : Str} {hour minute second : ℕ}
    (h : SpellsTime s hour minute second) : s.length = 8 := by
  obtain ⟨a, b, c, rfl, ha, hb, hc⟩ := h
  rw [List.length_append, List.length_cons, List.length_append, List.length_cons, ha.length,
    hb.length, hc.length]

/-- Words joined by single spaces are a date if each of them reads as its part of it. -/
theorem imfFixdate_words {name day month year time : Str} {f : Fields} {n : ℕ}
    (hname : IsWord name) (hcomma : ',' ∉ name) (hweekday : validWeekday name false = true)
    (hday : IsDigits 2 day f.day) (hmonth : SpellsMonth month f.month) (hmonth' : IsWord month)
    (hyear : IsDigits 4 year n) (hn : f.year = n)
    (htime : SpellsTime time f.hour f.minute f.second) :
    ImfFixdate (name ++ ',' :: ' ' :: (day ++ ' ' :: (month ++ ' ' :: (year ++ ' ' ::
      (time ++ ' ' :: "GMT".toList))))) f := by
  have hzone : IsWord "GMT".toList :=
    isWord_of_isAlphanum (by decide) (List.all_eq_true.mp (by decide))
  have htight : Tight isOws name := tight_of_forall_not hname.unspaced
  refine ⟨name, ' ' :: (day ++ ' ' :: (month ++ ' ' :: (year ++ ' ' ::
    (time ++ ' ' :: "GMT".toList)))), day, month, year, time, "GMT".toList, n, ?_, hcomma, ?_, ?_,
    hday, hmonth, hyear, hn, htime, by decide⟩
  · have hends := htight.between (tight_of_forall_not hzone.unspaced) hname.nonempty
      hzone.nonempty (',' :: ' ' :: (day ++ ' ' :: (month ++ ' ' :: (year ++ ' ' ::
        (time ++ [' '])))))
    have htrim := hends.trim
    simp only [List.cons_append, List.append_assoc, List.nil_append] at htrim
    exact htrim
  · have htrim : trimOws name = name := htight.trim
    rw [htrim, hweekday]
  · have hspace : isSpace ' ' = true := rfl
    have hdigits := hday.isWord (by decide)
    have hdigits' := hyear.isWord (by decide)
    have hclock := htime.isWord
    rw [splitSpaces_eq, tokens_cons hspace, tokens_token hdigits.nonempty hdigits.unspaced hspace,
      tokens_token hmonth'.nonempty hmonth'.unspaced hspace,
      tokens_token hdigits'.nonempty hdigits'.unspaced hspace,
      tokens_token hclock.nonempty hclock.unspaced hspace,
      tokens_of_forall_not hzone.nonempty hzone.unspaced]

/-- The names of the days have three letters. -/
theorem weekdayNames_getD {i : ℕ} (h : i < 7) :
    (weekdayNames.getD i []).length = 3 ∧ validWeekday (weekdayNames.getD i []) false = true ∧
      ((weekdayNames.getD i []).all Char.isAlphanum) = true := by
  have hall : ∀ i < 7, (weekdayNames.getD i []).length = 3 ∧
      validWeekday (weekdayNames.getD i []) false = true ∧
      ((weekdayNames.getD i []).all Char.isAlphanum) = true := by decide
  exact hall i h

theorem monthNames_getD {month : ℕ} (hpos : 1 ≤ month) (hle : month ≤ 12) :
    (monthNames.getD (month - 1) []).length = 3 ∧
      SpellsMonth (monthNames.getD (month - 1) []) month ∧
      ((monthNames.getD (month - 1) []).all Char.isAlphanum) = true := by
  have hall : ∀ i < 12, (monthNames.getD i []).length = 3 ∧
      asciiIequals (monthNames.getD i []) (months.getD i []) = true ∧
      ((monthNames.getD i []).all Char.isAlphanum) = true := by decide
  obtain ⟨hlength, hspelled, hletters⟩ := hall (month - 1) (by omega)
  exact ⟨hlength, ⟨hpos, hle, hspelled⟩, hletters⟩

/-- The text begins with the day of the week. -/
theorem take_imfText (f : Fields) : (imfText f).take 3 =
    weekdayNames.getD (weekday (dayNumber f.year f.month f.day)) [] := by
  obtain ⟨hlength, -, -⟩ := weekdayNames_getD (weekday_lt (dayNumber f.year f.month f.day))
  exact List.take_left' hlength

section printed

variable {seconds : ℕ} {f : Fields} (h : Prints seconds f)

include h

theorem Prints.day_digits : IsDigits 2 (fixedDecimal f.day 2) f.day := by
  apply isDigits_fixedDecimal (by decide)
  have := h.exist.day_le
  unfold monthLength at this
  split_ifs at this <;> omega

theorem Prints.year_digits : IsDigits 4 (fixedDecimal f.year.toNat 4) f.year.toNat := by
  apply isDigits_fixedDecimal (by decide)
  have := h.year_le
  omega

theorem Prints.time :
    SpellsTime (fixedDecimal f.hour 2 ++ ':' :: (fixedDecimal f.minute 2 ++ ':' ::
      fixedDecimal f.second 2)) f.hour f.minute f.second := by
  have hhour := h.exist.hour_le
  have hminute := h.exist.minute_le
  have hsecond := h.second_le
  exact ⟨_, _, _, rfl, isDigits_fixedDecimal (by decide) (by omega),
    isDigits_fixedDecimal (by decide) (by omega), isDigits_fixedDecimal (by decide) (by omega)⟩

theorem Prints.length : (imfText f).length = 29 := by
  obtain ⟨hweekday, -, -⟩ := weekdayNames_getD (weekday_lt (dayNumber f.year f.month f.day))
  obtain ⟨hmonth, -, -⟩ := monthNames_getD h.exist.month_pos h.exist.month_le
  unfold imfText
  rw [List.length_append, List.length_cons, List.length_cons, List.length_append, List.length_cons,
    List.length_append, List.length_cons, List.length_append, List.length_cons, List.length_append,
    h.time.length, hweekday, hmonth, h.day_digits.length, h.year_digits.length]
  rfl

theorem Prints.imfFixdate : ImfFixdate (imfText f) f := by
  obtain ⟨hlength, hweekday, hletters⟩ :=
    weekdayNames_getD (weekday_lt (dayNumber f.year f.month f.day))
  obtain ⟨hlength', hmonth, hletters'⟩ := monthNames_getD h.exist.month_pos h.exist.month_le
  have hyear : f.year = (f.year.toNat : ℤ) := by
    have := h.year_pos
    omega
  have hword : ∀ {s : Str}, s.length = 3 → s.all Char.isAlphanum = true → IsWord s := by
    intro s hthree hall
    apply isWord_of_isAlphanum _ (List.all_eq_true.mp hall)
    rintro rfl
    cases hthree
  have hcomma : ',' ∉ weekdayNames.getD (weekday (dayNumber f.year f.month f.day)) [] := by
    intro hc
    exact absurd (List.all_eq_true.mp hletters ',' hc) (by decide)
  exact imfFixdate_words (hword hlength hletters) hcomma hweekday h.day_digits hmonth
    (hword hlength' hletters') h.year_digits hyear h.time

theorem Prints.parse (reference : Option ℕ) :
    parseHttpDate (imfText f) reference = some ((min seconds maxDateSeconds : ℕ) : ℤ) := by
  have hfirst := h.year_pos
  have hlast := h.year_le
  rw [parseHttpDate_imf reference h.imfFixdate, makeTimestamp_eq h.exist (by omega) (by omega),
    h.timestamp]

end printed

/-- A date that is accepted as an IMF-fixdate, without a leap second. -/
structure AcceptedImf (value : Str) (f : Fields) (t : ℤ) : Prop where
  text : ImfFixdate value f
  accepted : ∃ reference, parseHttpDate value reference = some t
  second_le : f.second ≤ 59

theorem AcceptedImf.timestamp {value : Str} {f : Fields} {t : ℤ} (h : AcceptedImf value f t) :
    f.Exists ∧ t = f.timestamp := by
  obtain ⟨reference, hparse⟩ := h.accepted
  rw [parseHttpDate_imf reference h.text] at hparse
  exact makeTimestamp_fields hparse

/-- What is printed is read back, has 29 characters and names its day of the week;
the conversions of days undo each other; timestamps are ordered like dates. -/
theorem httpDate_laws :
    (∀ (seconds : ℕ) (reference : Option ℕ),
      parseHttpDate (formatHttpDate seconds) reference = some (min seconds 253402300799 : ℕ)) ∧
    (∀ seconds : ℕ, (formatHttpDate seconds).length = 29 ∧
      ∃ f, f.Exists ∧ ImfFixdate (formatHttpDate seconds) f ∧
        (formatHttpDate seconds).take 3 =
          weekdayNames.getD (weekday (dayNumber f.year f.month f.day)) []) ∧
    (∀ d : Date, civilFromDays (daysFromCivil d.year d.month d.day) = (d.year, d.month, d.day)) ∧
    (∀ n : ℤ, ∃ d : Date, civilFromDays n = (d.year, d.month, d.day) ∧
      daysFromCivil d.year d.month d.day = n) ∧
    (∀ (value value' : Str) (f f' : Fields) (t t' : ℤ), AcceptedImf value f t →
      AcceptedImf value' f' t' → (t < t' ↔ f.Before f')) := by
  refine ⟨fun seconds reference => ?_, fun seconds => ?_, civilFromDays_daysFromCivil,
    fun n => ?_, fun value value' f f' t t' h h' => ?_⟩
  · obtain ⟨f, hprints, htext⟩ := formatHttpDate_eq seconds
    rw [htext, hprints.parse reference]
    rfl
  · obtain ⟨f, hprints, htext⟩ := formatHttpDate_eq seconds
    rw [htext]
    exact ⟨hprints.length, f, hprints.exist, hprints.imfFixdate, take_imfText f⟩
  · obtain ⟨d, hd, hcivil⟩ := civilFromDays_eq n
    exact ⟨d, hcivil, (daysFromCivil_eq d.year d.month_pos d.month_le d.day_pos).trans hd⟩
  · obtain ⟨hexist, rfl⟩ := h.timestamp
    obtain ⟨hexist', rfl⟩ := h'.timestamp
    exact Fields.timestamp_lt_iff hexist hexist' h.second_le h'.second_le

theorem httpDate_laws_epoch :
    ∃ f f', AcceptedImf (formatHttpDate 0) f 0 ∧ AcceptedImf (formatHttpDate 1) f' 1 ∧
      f.Before f' := by
  obtain ⟨f, hprints, htext⟩ := formatHttpDate_eq 0
  obtain ⟨f', hprints', htext'⟩ := formatHttpDate_eq 1
  have haccepted : AcceptedImf (formatHttpDate 0) f 0 := by
    rw [htext]
    exact ⟨hprints.imfFixdate, ⟨none, hprints.parse none⟩, hprints.second_le⟩
  have haccepted' : AcceptedImf (formatHttpDate 1) f' 1 := by
    rw [htext']
    exact ⟨hprints'.imfFixdate, ⟨none, hprints'.parse none⟩, hprints'.second_le⟩
  exact ⟨f, f', haccepted, haccepted',
    (httpDate_laws.2.2.2.2 _ _ _ _ _ _ haccepted haccepted').mp one_pos⟩

end KatHttp3
