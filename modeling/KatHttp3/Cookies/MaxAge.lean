import KatHttp3.Cookies.Confinement
import KatHttp3.Cookies.DateAgreement

/-!
# How long a cookie lives

What the Max-Age and Expires attributes of a field make of the expiry, and in
which fields the last Max-Age decides it.
-/

namespace KatHttp3

open Str

/-! ### Numbers of seconds -/

/-- The value of decimal digits. -/
def unsignedDecimal (s : Str) : Option ℕ :=
  if s ≠ [] ∧ s.all Char.isDigit then some (decimal s) else none

/-- A minus sign, if there is one, and decimal digits. -/
def signedDecimal : Str → Option ℤ
  | '-' :: digits => (unsignedDecimal digits).map fun n => -Int.ofNat n
  | digits => (unsignedDecimal digits).map Int.ofNat

def inInt64 (n : ℤ) : Bool := -2 ^ 63 ≤ n && n ≤ 2 ^ 63 - 1

theorem fromChars_eq (limit : ℕ) (s : Str) :
    fromChars limit s = (unsignedDecimal s).filter (· ≤ limit) := by
  unfold fromChars unsignedDecimal
  by_cases hdigits : s ≠ [] ∧ s.all Char.isDigit = true
  · rw [if_pos hdigits, Option.filter_some]
    apply if_congr _ rfl rfl
    rw [decide_eq_true_iff]
    exact ⟨fun h => h.2.2, fun h => ⟨hdigits.1, hdigits.2, h⟩⟩
  · rw [if_neg hdigits, if_neg (fun h => hdigits ⟨h.1, h.2.1⟩)]
    rfl

/-- A number is read if it fits 64 bits. -/
theorem fromCharsInt64_eq (s : Str) : fromCharsInt64 s = (signedDecimal s).filter inInt64 := by
  have hminus : ∀ n : ℕ, inInt64 (-Int.ofNat n) = decide (n ≤ 2 ^ 63) := by
    intro n
    rw [Bool.eq_iff_iff]
    simp only [inInt64, Int.ofNat_eq_natCast, Bool.and_eq_true, decide_eq_true_eq]
    omega
  have hplus : ∀ n : ℕ, inInt64 (Int.ofNat n) = decide (n ≤ 2 ^ 63 - 1) := by
    intro n
    rw [Bool.eq_iff_iff]
    simp only [inInt64, Int.ofNat_eq_natCast, Bool.and_eq_true, decide_eq_true_eq]
    omega
  unfold fromCharsInt64
  split
  · rename_i digits
    have hsigned : signedDecimal ('-' :: digits) =
        (unsignedDecimal digits).map fun n => -Int.ofNat n := rfl
    rw [fromChars_eq, hsigned]
    cases unsignedDecimal digits with
    | none => rfl
    | some n =>
      rw [Option.map_some, Option.filter_some, Option.filter_some, hminus]
      cases decide (n ≤ 2 ^ 63) <;> rfl
  · rename_i hsign
    have hsigned : signedDecimal s = (unsignedDecimal s).map Int.ofNat := by
      unfold signedDecimal
      split
      · rename_i digits
        exact absurd rfl (hsign digits)
      · rfl
    rw [fromChars_eq, hsigned]
    cases unsignedDecimal s with
    | none => rfl
    | some n =>
      rw [Option.map_some, Option.filter_some, Option.filter_some, hplus]
      cases decide (n ≤ 2 ^ 63 - 1) <;> rfl

/-! ### The attributes of a field -/

/-- The number of a Max-Age attribute that has one. -/
def ageOf (text : Str) : Option ℤ :=
  if attributeName text = "max-age".toList then signedDecimal (attributeValue text) else none

/-- The expiry of an Expires attribute that has one. -/
def dateOf (now : ℕ) (text : Str) : Option ℕ :=
  if attributeName text = "expires".toList then parseCookieExpiry (attributeValue text) (some now)
  else none

def ageExpiry (now : ℕ) (n : ℤ) : ℕ := if n ≤ 0 then 1 else maxAgeExpiry now n.toNat

/-- The expiry of a cookie, none for a session cookie. -/
def Cookie.deadline (c : Cookie) : Option ℕ := if c.persistent then some c.expiry else none

def lifetime (c : Cookie × Bool) : Option ℕ × Bool := (c.1.deadline, c.2)

def readLifetime (now : ℕ) (l : Option ℕ × Bool) (text : Str) : Option ℕ × Bool :=
  match (ageOf text).filter inInt64 with
  | some n => (some (ageExpiry now n), true)
  | none => if l.2 then l else ((dateOf now text).or l.1, l.2)

variable {net : InetPton} {url : Url} {now : ℕ}

theorem readLifetime_date {text : Str} (l : Option ℕ × Bool)
    (hage : (ageOf text).filter inInt64 = none) :
    readLifetime now l text = if l.2 then l else ((dateOf now text).or l.1, l.2) := by
  unfold readLifetime
  rw [hage]

/-- An attribute without a number or a date for the expiry. -/
theorem readLifetime_other {text : Str} (l : Option ℕ × Bool)
    (hage : (ageOf text).filter inInt64 = none) (hdate : dateOf now text = none) :
    readLifetime now l text = l := by
  rw [readLifetime_date l hage, hdate, Option.none_or]
  exact ite_self l

theorem readAttribute_lifetime {c c' : Cookie × Bool} {text : Str}
    (h : readAttribute net url (some now) c text = some c') :
    lifetime c' = readLifetime now (lifetime c) text := by
  have hother : attributeName text ≠ "max-age".toList → attributeName text ≠ "expires".toList →
      readLifetime now (lifetime c) text = lifetime c := by
    intro hage hdate
    apply readLifetime_other
    · rw [ageOf, if_neg hage]
      rfl
    · rw [dateOf, if_neg hdate]
  have hvalue : trimOws (startingAt (trimOws text) ((find (trimOws text) '=').map (· + 1))) =
      attributeValue text := rfl
  unfold readAttribute at h
  dsimp only at h
  split at h
  · rename_i hname
    have hname : attributeName text = "domain".toList := hname
    have hsame := hother (by rw [hname]; decide) (by rw [hname]; decide)
    split_ifs at h <;> cases h <;> exact hsame.symm
  split at h
  · rename_i hname
    have hname : attributeName text = "path".toList := hname
    cases h
    exact (hother (by rw [hname]; decide) (by rw [hname]; decide)).symm
  split at h
  · rename_i hname
    have hname : attributeName text = "secure".toList := hname
    cases h
    exact (hother (by rw [hname]; decide) (by rw [hname]; decide)).symm
  split at h
  · rename_i hname
    have hname : attributeName text = "httponly".toList := hname
    cases h
    exact (hother (by rw [hname]; decide) (by rw [hname]; decide)).symm
  split at h
  · rename_i hname
    have hname : attributeName text = "max-age".toList := hname
    have hage : (ageOf text).filter inInt64 = fromCharsInt64 (attributeValue text) := by
      rw [ageOf, if_pos hname, fromCharsInt64_eq]
    have hdate : dateOf now text = none := by
      rw [dateOf, if_neg (by rw [hname]; decide)]
    rw [hvalue] at h
    cases hread : fromCharsInt64 (attributeValue text) with
    | none =>
      rw [hread] at h hage
      cases h
      exact (readLifetime_other _ hage hdate).symm
    | some seconds =>
      rw [hread] at h hage
      unfold readLifetime ageExpiry
      rw [hage]
      dsimp only at h ⊢
      split_ifs at h ⊢ with hpast
      · cases h
        rfl
      · cases h
        rfl
  split at h
  · rename_i hage hname
    have hage : attributeName text ≠ "max-age".toList := hage
    have hname : attributeName text = "expires".toList := hname
    have hdate : dateOf now text = parseCookieExpiry (attributeValue text) (some now) := by
      rw [dateOf, if_pos hname]
    rw [hvalue] at h
    have hnone : (ageOf text).filter inInt64 = none := by
      rw [ageOf, if_neg hage]
      rfl
    by_cases hseen : c.2 = true
    · rw [if_pos hseen] at h
      cases h
      rw [readLifetime_date _ hnone]
      exact (if_pos hseen).symm
    · rw [if_neg hseen] at h
      have hunseen : (lifetime c).2 ≠ true := hseen
      rw [readLifetime_date _ hnone, if_neg hunseen, hdate]
      cases hread : parseCookieExpiry (attributeValue text) (some now) with
      | none =>
        rw [hread] at h
        cases h
        rw [Option.none_or]
      | some expiry =>
        rw [hread] at h
        cases h
        rfl
  · rename_i hage hdate
    cases h
    exact (hother hage hdate).symm

theorem readAttributes_lifetime {texts : List Str} {c c' : Cookie × Bool}
    (h : texts.foldlM (readAttribute net url (some now)) c = some c') :
    lifetime c' = texts.foldl (readLifetime now) (lifetime c) := by
  induction texts generalizing c with
  | nil =>
    cases h
    rfl
  | cons text texts ih =>
    rw [List.foldlM_cons] at h
    obtain ⟨c₁, hfirst, hrest⟩ := Option.bind_eq_some_iff.mp h
    rw [ih hrest, List.foldl_cons, readAttribute_lifetime hfirst]

/-- The numbers of the Max-Age attributes, in their order. -/
def maxAges (texts : List Str) : List ℤ := texts.filterMap ageOf

def expiryDates (now : ℕ) (texts : List Str) : List ℕ := texts.filterMap (dateOf now)

/-- The last Max-Age that fits 64 bits decides, and without any the last date. -/
theorem foldl_readLifetime (now : ℕ) (texts : List Str) :
    texts.foldl (readLifetime now) (none, false) =
      match ((maxAges texts).filter inInt64).getLast? with
      | some n => (some (ageExpiry now n), true)
      | none => ((expiryDates now texts).getLast?, false) := by
  induction texts using List.reverseRecOn with
  | nil => rfl
  | append_singleton texts text ih =>
    rw [List.foldl_append, ih, List.foldl_cons, List.foldl_nil]
    have hage : ((maxAges [text]).filter inInt64).getLast? = (ageOf text).filter inInt64 := by
      unfold maxAges
      cases h : ageOf text with
      | none => simp [h]
      | some n =>
        rw [Option.filter_some]
        cases hfits : inInt64 n <;> simp [h, hfits]
    have hdate : (expiryDates now [text]).getLast? = dateOf now text := by
      unfold expiryDates
      cases h : dateOf now text <;> simp [h]
    have happend : maxAges (texts ++ [text]) = maxAges texts ++ maxAges [text] :=
      List.filterMap_append
    have happend' : expiryDates now (texts ++ [text]) =
        expiryDates now texts ++ expiryDates now [text] := List.filterMap_append
    rw [happend, happend', List.filter_append, List.getLast?_append, List.getLast?_append, hage,
      hdate]
    unfold readLifetime
    cases (ageOf text).filter inInt64 with
    | some n => rfl
    | none =>
      cases ((maxAges texts).filter inInt64).getLast? with
      | some n => rfl
      | none => rfl

/-- What the attributes make of the deadline. -/
def decidedDeadline (now : ℕ) (texts : List Str) : Option ℕ :=
  match ((maxAges texts).filter inInt64).getLast? with
  | some n => some (ageExpiry now n)
  | none => (expiryDates now texts).getLast?

theorem readSetCookie_deadline {field : Str} {c : Cookie}
    (h : readSetCookie net url (some now) field = some c) :
    c.deadline = decidedDeadline now (attributeTexts field) := by
  obtain ⟨first, parsed, seen, hfirst, hparsed, rfl, -⟩ := readSetCookie_eq_some h
  have hparsed : (attributeTexts field).foldlM (readAttribute net url (some now)) (first, false) =
    some (parsed, seen) := hparsed
  have hstart : lifetime (first, false) = (none, false) := by
    unfold lifetime Cookie.deadline
    rw [(readPair_eq hfirst).2.2.2]
    rfl
  have hlifetime := readAttributes_lifetime hparsed
  rw [hstart, foldl_readLifetime] at hlifetime
  have hdeadline : parsed.deadline = decidedDeadline now (attributeTexts field) := by
    unfold decidedDeadline
    cases hlast : ((maxAges (attributeTexts field)).filter inInt64).getLast? with
    | none =>
      rw [hlast] at hlifetime
      exact congrArg Prod.fst hlifetime
    | some n =>
      rw [hlast] at hlifetime
      exact congrArg Prod.fst hlifetime
  rw [← hdeadline]
  split_ifs
  · rfl
  · rfl

/-! ### The law -/

/-- What a Max-Age of `n` seconds is to make of a cookie. -/
structure MaxAgeLaw (now : ℕ) (n : ℤ) (c : Cookie) : Prop where
  persistent : c.persistent = true ∧ c.expiry ≠ 0
  expired : n ≤ 0 → c.expired (some now) = true
  expiry : 0 < n → c.expiry = min (now + n.toNat) (2 ^ 64 - 1)

/-- Without the numbers beyond 64 bits, the attributes say that the cookie is gone. -/
def PassedWithout (now : ℕ) (texts : List Str) : Prop :=
  match ((maxAges texts).filter inInt64).getLast? with
  | some n => n ≤ 0
  | none => (expiryDates now texts).getLast? = some 1

/-- A positive number fits 64 bits, and another one does or is not needed. At the very
first second of the clock no cookie is expired. -/
structure Decides (now : ℕ) (n : ℤ) (texts : List Str) : Prop where
  positive : 0 < n → n ≤ 2 ^ 63 - 1
  past : n ≤ 0 → now ≠ 0 ∧ (-2 ^ 63 ≤ n ∨ PassedWithout now texts)

theorem Cookie.expired_iff {c : Cookie} :
    c.expired (some now) = true ↔ ∃ e, c.deadline = some e ∧ e ≠ 0 ∧ e ≤ now := by
  unfold Cookie.expired Cookie.deadline
  cases c.persistent <;> simp

theorem maxAgeExpiry_eq (hclock : now < 2 ^ 63) (seconds : ℕ) :
    maxAgeExpiry now seconds = min (now + seconds) (2 ^ 64 - 1) := by
  unfold maxAgeExpiry
  split_ifs <;> omega

theorem ageExpiry_le_iff (hclock : now < 2 ^ 63) (n : ℤ) :
    ageExpiry now n ≤ now ↔ n ≤ 0 ∧ now ≠ 0 := by
  unfold ageExpiry
  split_ifs with hpast
  · omega
  · rw [maxAgeExpiry_eq hclock]
    omega

theorem ageExpiry_pos (now : ℕ) (n : ℤ) : ageExpiry now n ≠ 0 := by
  unfold ageExpiry
  split_ifs with hpast
  · exact one_ne_zero
  · exact maxAgeExpiry_ne_zero (by omega)

/-- A date is early, and 1 if it has passed. -/
theorem expiryDates_getLast? {texts : List Str} {e : ℕ}
    (h : (expiryDates now texts).getLast? = some e) :
    e < 2 ^ 63 ∧ e ≠ 0 ∧ (e ≤ now ↔ e = 1 ∧ now ≠ 0) := by
  obtain ⟨text, -, hdate⟩ := List.mem_filterMap.mp (List.mem_of_getLast? h)
  unfold dateOf at hdate
  split_ifs at hdate
  obtain ⟨seconds, hnow, hcases⟩ := parseCookieExpiry_cases hdate
  cases hnow
  have hpos := parseCookieExpiry_pos hdate
  refine ⟨parseCookieExpiry_lt hdate, hpos.ne', ?_⟩
  omega

/-- The deadline has come exactly if the attributes say so. -/
theorem decidedDeadline_passed (hclock : now < 2 ^ 63) (texts : List Str) :
    (∃ e, decidedDeadline now texts = some e ∧ e ≠ 0 ∧ e ≤ now) ↔
      now ≠ 0 ∧ PassedWithout now texts := by
  unfold decidedDeadline PassedWithout
  cases ((maxAges texts).filter inInt64).getLast? with
  | some n =>
    have hle := ageExpiry_le_iff hclock n
    have hpos := ageExpiry_pos now n
    simp only [Option.some.injEq]
    constructor
    · rintro ⟨_, rfl, -, hnow⟩
      exact (hle.mp hnow).symm
    · intro h
      exact ⟨_, rfl, hpos, hle.mpr h.symm⟩
  | none =>
    constructor
    · rintro ⟨e, hlast, -, hnow⟩
      have hlast : (expiryDates now texts).getLast? = some e := hlast
      obtain ⟨rfl, hzero⟩ := (expiryDates_getLast? hlast).2.2.mp hnow
      exact ⟨hzero, hlast⟩
    · rintro ⟨hzero, hlast⟩
      exact ⟨1, hlast, one_ne_zero, Nat.one_le_iff_ne_zero.mpr hzero⟩

/-- No deadline is as late as one of a number beyond 64 bits. -/
theorem decidedDeadline_lt (hclock : now < 2 ^ 63) {texts : List Str} {e : ℕ}
    (h : decidedDeadline now texts = some e) : e < min (now + 2 ^ 63) (2 ^ 64 - 1) := by
  unfold decidedDeadline at h
  cases hlast : ((maxAges texts).filter inInt64).getLast? with
  | some n =>
    rw [hlast] at h
    have hfits := (List.mem_filter.mp (List.mem_of_getLast? hlast)).2
    simp only [inInt64, Bool.and_eq_true, decide_eq_true_eq] at hfits
    cases h
    unfold ageExpiry
    split_ifs with hpast
    · omega
    · rw [maxAgeExpiry_eq hclock]
      omega
  | none =>
    rw [hlast] at h
    have := (expiryDates_getLast? h).1
    omega

/-- A last Max-Age that fits 64 bits is the last of those that do. -/
theorem getLast?_filter_inInt64 {texts : List Str} {n : ℤ}
    (hlast : (maxAges texts).getLast? = some n) (hfits : inInt64 n = true) :
    ((maxAges texts).filter inInt64).getLast? = some n := by
  obtain ⟨before, hages⟩ := List.getLast?_eq_some_iff.mp hlast
  rw [hages, List.filter_append, List.filter_cons_of_pos hfits, List.getLast?_append]
  rfl

/-- The last Max-Age decides exactly if it fits 64 bits or nothing depends on it. -/
theorem maxAgeLaw_iff (hclock : now < 2 ^ 63) {field : Str} {c : Cookie} {n : ℤ}
    (hread : readSetCookie net url (some now) field = some c)
    (hlast : (maxAges (attributeTexts field)).getLast? = some n) :
    MaxAgeLaw now n c ↔ Decides now n (attributeTexts field) := by
  have hdeadline := readSetCookie_deadline hread
  have hexpired : c.expired (some now) = true ↔
      now ≠ 0 ∧ PassedWithout now (attributeTexts field) := by
    rw [Cookie.expired_iff, hdeadline, decidedDeadline_passed hclock]
  have hpersistent : ∀ {e : ℕ}, c.deadline = some e → c.persistent = true ∧ c.expiry = e := by
    intro e he
    unfold Cookie.deadline at he
    split_ifs at he with hpersistent
    exact ⟨hpersistent, Option.some.inj he⟩
  by_cases hpast : n ≤ 0
  · have hlaw : MaxAgeLaw now n c ↔ c.expired (some now) = true := by
      constructor
      · exact fun h => h.expired hpast
      · intro h
        obtain ⟨e, he, hne, -⟩ := Cookie.expired_iff.mp h
        obtain ⟨hlong, rfl⟩ := hpersistent he
        exact ⟨⟨hlong, hne⟩, fun _ => h, fun hpos => absurd hpast (not_le.mpr hpos)⟩
    rw [hlaw, hexpired]
    constructor
    · rintro ⟨hzero, hpassed⟩
      exact ⟨fun hpos => absurd hpast (not_le.mpr hpos), fun _ => ⟨hzero, Or.inr hpassed⟩⟩
    · intro h
      obtain ⟨hzero, hfits | hpassed⟩ := h.past hpast
      · refine ⟨hzero, ?_⟩
        have hfits : inInt64 n = true := by
          simp only [inInt64, Bool.and_eq_true, decide_eq_true_eq]
          omega
        unfold PassedWithout
        rw [getLast?_filter_inInt64 hlast hfits]
        exact hpast
      · exact ⟨hzero, hpassed⟩
  · rw [not_le] at hpast
    constructor
    · intro h
      refine ⟨fun _ => ?_, fun hle => absurd hpast (not_lt.mpr hle)⟩
      by_contra hlarge
      have hdecided : decidedDeadline now (attributeTexts field) = some c.expiry := by
        rw [← hdeadline, Cookie.deadline, if_pos h.persistent.1]
      have := decidedDeadline_lt hclock hdecided
      have := h.expiry hpast
      omega
    · intro h
      have hfits : inInt64 n = true := by
        have := h.positive hpast
        simp only [inInt64, Bool.and_eq_true, decide_eq_true_eq]
        omega
      have hdecided : decidedDeadline now (attributeTexts field) = some (ageExpiry now n) := by
        unfold decidedDeadline
        rw [getLast?_filter_inInt64 hlast hfits]
      obtain ⟨hlong, hexpiry⟩ := hpersistent (hdeadline.trans hdecided)
      refine ⟨⟨hlong, ?_⟩, fun hle => absurd hpast (not_lt.mpr hle), fun _ => ?_⟩
      · rw [hexpiry]
        exact ageExpiry_pos now n
      · rw [hexpiry, ageExpiry, if_neg (not_le.mpr hpast), maxAgeExpiry_eq hclock]

theorem maxAgeLaw_iff_overruled :
    ∃ c, readSetCookie noLiterals (urlOf "a.test".toList "/".toList) (some 5)
        "x=1; Max-Age=0; Expires=Sun Nov  6 08:49:37 1994; max-age=60".toList = some c ∧
      MaxAgeLaw 5 60 c := by
  obtain ⟨c, hread⟩ : ∃ c, readSetCookie noLiterals (urlOf "a.test".toList "/".toList) (some 5)
      "x=1; Max-Age=0; Expires=Sun Nov  6 08:49:37 1994; max-age=60".toList = some c := ⟨_, rfl⟩
  have hlast : (maxAges (attributeTexts
      "x=1; Max-Age=0; Expires=Sun Nov  6 08:49:37 1994; max-age=60".toList)).getLast? =
      some 60 := by decide +kernel
  exact ⟨c, hread, (maxAgeLaw_iff (by decide) hread hlast).mpr
    ⟨fun _ => by decide, fun hpast => absurd hpast (by decide)⟩⟩

/-- Twenty digits leave a session cookie. -/
theorem not_maxAgeLaw_twentyDigits :
    (maxAges (attributeTexts "x=1; Max-Age=99999999999999999999".toList)).getLast? =
        some 99999999999999999999 ∧
      ∃ c, readSetCookie noLiterals (urlOf "a.test".toList "/".toList) (some 5)
        "x=1; Max-Age=99999999999999999999".toList = some c ∧
        ¬ MaxAgeLaw 5 99999999999999999999 c := by
  obtain ⟨c, hread, hsession⟩ : ∃ c, readSetCookie noLiterals
      (urlOf "a.test".toList "/".toList) (some 5)
      "x=1; Max-Age=99999999999999999999".toList = some c ∧ c.persistent = false := by
    refine ⟨_, rfl, ?_⟩
    decide +kernel
  refine ⟨by decide +kernel, c, hread, fun h => ?_⟩
  exact absurd (hsession.symm.trans h.persistent.1) Bool.false_ne_true

end KatHttp3
