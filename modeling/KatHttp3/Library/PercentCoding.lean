import Mathlib.Data.List.Infix
import Mathlib.Tactic.SplitIfs

/-!
# Percent encoding

Some bytes of a text are written as a percent sign and two hexadecimal digits. Reading
them back gives the text again if the percent sign is written so itself. Otherwise
reading back does to the encoded text what it does to the text, which it leaves as
it is only if the text does not look encoded already.
-/

namespace PercentCoding

def percent : UInt8 := 37

/-- The upper case digit of a number below sixteen. -/
def hexDigit (n : ℕ) : UInt8 := if n < 10 then UInt8.ofNat (48 + n) else UInt8.ofNat (55 + n)

/-- The number of an upper case digit. -/
def upperHexValue (b : UInt8) : Option ℕ :=
  if 48 ≤ b.toNat ∧ b.toNat ≤ 57 then some (b.toNat - 48)
  else if 65 ≤ b.toNat ∧ b.toNat ≤ 70 then some (b.toNat - 55)
  else none

/-- The number of a digit of either case. -/
def hexValue (b : UInt8) : Option ℕ :=
  if 97 ≤ b.toNat ∧ b.toNat ≤ 102 then some (b.toNat - 87) else upperHexValue b

theorem upperHexValue_hexDigit : ∀ n < 16, upperHexValue (hexDigit n) = some n := by
  decide

theorem hexValue_hexDigit : ∀ n < 16, hexValue (hexDigit n) = some n := by
  decide

theorem ascii_of_upperHexValue {b : UInt8} {n : ℕ} (h : upperHexValue b = some n) :
    b.toNat < 128 ∧ b ≠ percent := by
  unfold upperHexValue at h
  have hne : b.toNat ≠ 37 → b ≠ percent := by
    rintro hne rfl
    exact hne rfl
  split_ifs at h with hdigit hletter
  · exact ⟨by omega, hne (by omega)⟩
  · exact ⟨by omega, hne (by omega)⟩

/-- Which bytes are escaped, and what two symbols behind a percent sign stand for. -/
structure Scheme where
  escaped : UInt8 → Bool
  octet : UInt8 → UInt8 → Option UInt8
  octet_hexDigit : ∀ b, escaped b = true →
    octet (hexDigit (b.toNat / 16)) (hexDigit (b.toNat % 16)) = some b

namespace Scheme

/-- The byte of two digits, if it may be escaped. -/
def octetOf (value : UInt8 → Option ℕ) (accepts : UInt8 → Bool) (b c : UInt8) : Option UInt8 :=
  match value b, value c with
  | some m, some n => (some (UInt8.ofNat (m * 16 + n))).filter accepts
  | _, _ => none

/-- A scheme that reads digits with a function and undoes at least its own escapes. -/
def ofDigits (value : UInt8 → Option ℕ) (hvalue : ∀ n < 16, value (hexDigit n) = some n)
    (escaped accepts : UInt8 → Bool) (haccepts : ∀ b, escaped b = true → accepts b = true) :
    Scheme where
  escaped := escaped
  octet := octetOf value accepts
  octet_hexDigit := by
    intro b hb
    have hlt := b.toNat_lt
    have hbyte : UInt8.ofNat (b.toNat / 16 * 16 + b.toNat % 16) = b := by
      rw [Nat.div_add_mod']
      exact UInt8.ofNat_toNat
    rw [octetOf, hvalue _ (by omega), hvalue _ (by omega)]
    dsimp only
    rw [hbyte, Option.filter_some, if_pos (haccepts b hb)]

theorem value_of_octetOf {value : UInt8 → Option ℕ} {accepts : UInt8 → Bool} {b c o : UInt8}
    (h : octetOf value accepts b c = some o) : ∃ m n, value b = some m ∧ value c = some n := by
  unfold octetOf at h
  split at h
  · rename_i m n hm hn
    exact ⟨m, n, hm, hn⟩
  · cases h

variable (scheme : Scheme)

def encodeByte (b : UInt8) : List UInt8 :=
  if scheme.escaped b then [percent, hexDigit (b.toNat / 16), hexDigit (b.toNat % 16)] else [b]

def encode (bytes : List UInt8) : List UInt8 := bytes.flatMap scheme.encodeByte

/-- Escapes are read back, and other percent signs stand for themselves. -/
def decode : List UInt8 → List UInt8
  | [] => []
  | [a] => [a]
  | [a, b] => [a, b]
  | a :: b :: c :: l =>
    if a = percent then
      match scheme.octet b c with
      | some o => o :: decode l
      | none => a :: decode (b :: c :: l)
    else a :: decode (b :: c :: l)

/-- There is an escape somewhere in the text. -/
def HasEscape (text : List UInt8) : Prop :=
  ∃ b c rest o, percent :: b :: c :: rest <:+ text ∧ scheme.octet b c = some o

variable {scheme}

theorem decode_escape {b c o : UInt8} (h : scheme.octet b c = some o) (l : List UInt8) :
    scheme.decode (percent :: b :: c :: l) = o :: scheme.decode l := by
  rw [decode, if_pos rfl, h]

theorem decode_plain {a : UInt8} (h : a ≠ percent) (l : List UInt8) :
    scheme.decode (a :: l) = a :: scheme.decode l := by
  rcases l with _ | ⟨b, _ | ⟨c, l⟩⟩
  · rfl
  · rfl
  · rw [decode, if_neg h]

theorem decode_percent {l : List UInt8}
    (h : ∀ b c rest, l = b :: c :: rest → scheme.octet b c = none) :
    scheme.decode (percent :: l) = percent :: scheme.decode l := by
  rcases l with _ | ⟨b, _ | ⟨c, l⟩⟩
  · rfl
  · rfl
  · rw [decode, if_pos rfl, h b c l rfl]

theorem encode_cons (b : UInt8) (bytes : List UInt8) :
    scheme.encode (b :: bytes) = scheme.encodeByte b ++ scheme.encode bytes :=
  List.flatMap_cons

theorem encodeByte_of_escaped {b : UInt8} (h : scheme.escaped b = true) :
    scheme.encodeByte b = [percent, hexDigit (b.toNat / 16), hexDigit (b.toNat % 16)] :=
  if_pos h

theorem encodeByte_of_not_escaped {b : UInt8} (h : scheme.escaped b = false) :
    scheme.encodeByte b = [b] :=
  if_neg (Bool.eq_false_iff.mp h)

theorem decode_encode_of_escaped {b : UInt8} (h : scheme.escaped b = true) (bytes : List UInt8) :
    scheme.decode (scheme.encode (b :: bytes)) = b :: scheme.decode (scheme.encode bytes) := by
  rw [encode_cons, encodeByte_of_escaped h]
  exact decode_escape (scheme.octet_hexDigit b h) _

theorem decode_encode_of_plain {b : UInt8} (h : scheme.escaped b = false) (hb : b ≠ percent)
    (bytes : List UInt8) :
    scheme.decode (scheme.encode (b :: bytes)) = b :: scheme.decode (scheme.encode bytes) := by
  rw [encode_cons, encodeByte_of_not_escaped h]
  exact decode_plain hb _

/-- If the percent sign is escaped, reading back gives the text. -/
theorem decode_encode (h : scheme.escaped percent = true) (bytes : List UInt8) :
    scheme.decode (scheme.encode bytes) = bytes := by
  induction bytes with
  | nil => rfl
  | cons b bytes ih =>
    cases hb : scheme.escaped b with
    | true => rw [decode_encode_of_escaped hb, ih]
    | false =>
      have hne : b ≠ percent := by
        rintro rfl
        rw [h] at hb
        cases hb
      rw [decode_encode_of_plain hb hne, ih]

/-- Neither a percent sign nor an escaped byte is a digit of an escape. -/
def PlainDigits (scheme : Scheme) : Prop :=
  ∀ b c o, scheme.octet b c = some o →
    (scheme.escaped b = false ∧ b ≠ percent) ∧ scheme.escaped c = false ∧ c ≠ percent

/-- What begins like an escape in the encoded text begins like one in the text. -/
theorem cons_cons_of_encode (hdigits : scheme.PlainDigits) {bytes rest : List UInt8} {b c o : UInt8}
    (ho : scheme.octet b c = some o) (h : scheme.encode bytes = b :: c :: rest) :
    ∃ l, bytes = b :: c :: l := by
  obtain ⟨⟨-, hb⟩, -, hc⟩ := hdigits b c o ho
  have hhead : ∀ {x y : UInt8} {l m : List UInt8}, y ≠ percent →
      scheme.encode (x :: l) = y :: m → x = y ∧ scheme.encode l = m := by
    intro x y l m hy heq
    rw [encode_cons] at heq
    cases hx : scheme.escaped x with
    | true =>
      rw [encodeByte_of_escaped hx] at heq
      exact absurd (List.cons.inj heq).1.symm hy
    | false =>
      rw [encodeByte_of_not_escaped hx] at heq
      exact List.cons.inj heq
  cases bytes with
  | nil => cases h
  | cons x bytes =>
    obtain ⟨rfl, hrest⟩ := hhead hb h
    cases bytes with
    | nil => cases hrest
    | cons y bytes =>
      obtain ⟨rfl, -⟩ := hhead hc hrest
      exact ⟨bytes, rfl⟩

theorem decode_encode_cons (hdigits : scheme.PlainDigits) {a : UInt8} {bytes : List UInt8}
    (h : a = percent → ∀ b c rest, bytes = b :: c :: rest → scheme.octet b c = none) :
    scheme.decode (scheme.encode (a :: bytes)) = a :: scheme.decode (scheme.encode bytes) := by
  cases ha : scheme.escaped a with
  | true => exact decode_encode_of_escaped ha bytes
  | false =>
    by_cases hpct : a = percent
    · subst hpct
      rw [encode_cons, encodeByte_of_not_escaped ha, List.singleton_append]
      apply decode_percent
      intro b c rest hsplit
      by_contra hsome
      obtain ⟨o, ho⟩ := Option.ne_none_iff_exists'.mp hsome
      obtain ⟨l, rfl⟩ := cons_cons_of_encode hdigits ho hsplit
      exact hsome (h rfl b c l rfl)
    · exact decode_encode_of_plain ha hpct bytes

/-- If the percent sign is not escaped, reading back does to the encoded text what it
does to the text. -/
theorem decode_encode_eq_decode (hdigits : scheme.PlainDigits)
    (hpercent : scheme.escaped percent = false) (bytes : List UInt8) :
    scheme.decode (scheme.encode bytes) = scheme.decode bytes := by
  fun_induction decode scheme bytes with
  | case1 => rfl
  | case2 a =>
    apply decode_encode_cons hdigits
    intro _ b c rest hsplit
    cases hsplit
  | case3 a b =>
    rw [decode_encode_cons hdigits, decode_encode_cons hdigits]
    · rfl
    · intro _ b c rest hsplit
      cases hsplit
    · intro _ b c rest hsplit
      cases hsplit
  | case4 b c l o ho ih =>
    obtain ⟨⟨hb, -⟩, hc, -⟩ := hdigits b c o ho
    rw [encode_cons, encode_cons, encode_cons, encodeByte_of_not_escaped hpercent,
      encodeByte_of_not_escaped hb, encodeByte_of_not_escaped hc]
    exact (decode_escape ho _).trans (congrArg (o :: ·) ih)
  | case5 b c l ho ih =>
    rw [decode_encode_cons hdigits, ih]
    intro _ b' c' rest hsplit
    obtain ⟨rfl, htail⟩ := List.cons.inj hsplit
    obtain ⟨rfl, -⟩ := List.cons.inj htail
    exact ho
  | case6 a b c l ha ih =>
    rw [decode_encode_cons hdigits, ih]
    exact fun h => absurd h ha

theorem length_decode_le (text : List UInt8) : (scheme.decode text).length ≤ text.length := by
  fun_induction decode scheme text with
  | case1 => exact Nat.le_refl _
  | case2 a => exact Nat.le_refl _
  | case3 a b => exact Nat.le_refl _
  | case4 b c l o ho ih =>
    simp only [List.length_cons]
    omega
  | case5 b c l ho ih => exact Nat.succ_le_succ ih
  | case6 a b c l ha ih => exact Nat.succ_le_succ ih

theorem HasEscape.of_cons {a : UInt8} {text : List UInt8} (h : scheme.HasEscape (a :: text))
    (hnot : ∀ b c rest o, a :: text = percent :: b :: c :: rest → scheme.octet b c ≠ some o) :
    scheme.HasEscape text := by
  obtain ⟨b, c, rest, o, hsuffix, ho⟩ := h
  rcases List.suffix_cons_iff.mp hsuffix with hwhole | htail
  · exact absurd ho (hnot b c rest o hwhole.symm)
  · exact ⟨b, c, rest, o, htail, ho⟩

theorem length_decode_lt {text : List UInt8} (h : scheme.HasEscape text) :
    (scheme.decode text).length < text.length := by
  fun_induction decode scheme text with
  | case1 =>
    obtain ⟨b, c, rest, o, hsuffix, -⟩ := h
    cases List.suffix_nil.mp hsuffix
  | case2 a =>
    obtain ⟨b, c, rest, o, hsuffix, -⟩ := h
    have hlength := hsuffix.length_le
    simp at hlength
  | case3 a b =>
    obtain ⟨b, c, rest, o, hsuffix, -⟩ := h
    have hlength := hsuffix.length_le
    simp at hlength
  | case4 b c l o ho ih =>
    have hle : (scheme.decode l).length ≤ l.length := length_decode_le l
    simp only [List.length_cons]
    omega
  | case5 b c l ho ih =>
    apply Nat.succ_lt_succ
    apply ih
    apply h.of_cons
    intro b' c' rest o hsplit
    obtain ⟨-, hfirst⟩ := List.cons.inj hsplit
    obtain ⟨rfl, hsecond⟩ := List.cons.inj hfirst
    obtain ⟨rfl, -⟩ := List.cons.inj hsecond
    rw [ho]
    exact nofun
  | case6 a b c l ha ih =>
    apply Nat.succ_lt_succ
    apply ih
    apply h.of_cons
    intro b' c' rest o hsplit
    exact absurd (List.cons.inj hsplit).1 ha

/-- Reading back leaves a text as it is exactly if there is no escape in it. -/
theorem decode_eq_self_iff (text : List UInt8) :
    scheme.decode text = text ↔ ¬scheme.HasEscape text := by
  constructor
  · intro hself hescape
    have hlt := length_decode_lt hescape
    rw [hself] at hlt
    exact Nat.lt_irrefl _ hlt
  · intro hnone
    fun_induction decode scheme text with
    | case1 => rfl
    | case2 a => rfl
    | case3 a b => rfl
    | case4 b c l o ho ih =>
      exact absurd ⟨b, c, l, o, List.suffix_refl _, ho⟩ hnone
    | case5 b c l ho ih =>
      rw [ih]
      rintro ⟨b', c', rest, o, hsuffix, ho'⟩
      exact hnone ⟨b', c', rest, o, hsuffix.trans (List.suffix_cons _ _), ho'⟩
    | case6 a b c l ha ih =>
      rw [ih]
      rintro ⟨b', c', rest, o, hsuffix, ho'⟩
      exact hnone ⟨b', c', rest, o, hsuffix.trans (List.suffix_cons _ _), ho'⟩

end Scheme

end PercentCoding
