import KatHttp3.Kotlin.Multipart

/-!
# Form bodies

The builder of `application/x-www-form-urlencoded` bodies, and a parser of such
bodies. The charset of a body is any pair of functions. The builder applies it to
every string, and once more to the text that it has put together.
-/

namespace KatHttp3

open PercentCoding MultipartBuilder

/-- A `java.nio.charset.Charset`. -/
structure Charset where
  encode : Str → List UInt8
  decode : List UInt8 → Str

namespace Charset

/-- The string survives being encoded. -/
def CanEncode (charset : Charset) (s : Str) : Prop := charset.decode (charset.encode s) = s

instance (charset : Charset) (s : Str) : Decidable (charset.CanEncode s) :=
  inferInstanceAs (Decidable (_ = _))

/-- Strings of ASCII characters are encoded as their ASCII bytes. -/
def EncodesAscii (charset : Charset) : Prop :=
  ∀ s : Str, (∀ c ∈ s, c.toNat < 128) → charset.encode s = usAscii s

def utf8 : Charset where
  encode := Utf8.encode
  decode bytes := (Utf8.decode bytes).getD []

/-- The code units of a character. -/
def codeUnits (c : Char) : List ℕ :=
  if c.toNat < 0x10000 then [c.toNat]
  else [0xd800 + (c.toNat - 0x10000) / 0x400, 0xdc00 + (c.toNat - 0x10000) % 0x400]

/-- The characters of bytes in pairs. -/
def decodeUnits : List UInt8 → Str
  | a :: b :: c :: d :: rest =>
    let first := a.toNat * 256 + b.toNat
    let second := c.toNat * 256 + d.toNat
    if 0xd800 ≤ first ∧ first < 0xdc00 ∧ 0xdc00 ≤ second ∧ second < 0xe000 then
      Char.ofNat (0x10000 + (first - 0xd800) * 0x400 + (second - 0xdc00)) :: decodeUnits rest
    else Char.ofNat first :: decodeUnits (c :: d :: rest)
  | [a, b] => [Char.ofNat (a.toNat * 256 + b.toNat)]
  | [a, b, _] => [Char.ofNat (a.toNat * 256 + b.toNat), Char.ofNat 0xfffd]
  | [_] => [Char.ofNat 0xfffd]
  | [] => []

/-- `UTF-16BE`. -/
def utf16be : Charset where
  encode s := (s.flatMap codeUnits).flatMap fun u => [UInt8.ofNat (u / 256), UInt8.ofNat (u % 256)]
  decode := decodeUnits

end Charset

namespace FormBody

variable (charset : Charset)

def unreserved (v : ℕ) : Bool :=
  ('a'.toNat ≤ v && v ≤ 'z'.toNat) || ('A'.toNat ≤ v && v ≤ 'Z'.toNat) ||
    ('0'.toNat ≤ v && v ≤ '9'.toNat) || v == '-'.toNat || v == '_'.toNat || v == '.'.toNat ||
      v == '~'.toNat

/-- `String.format("%%%02X", v)`. -/
def formatPercent (v : ℕ) : Str :=
  ['%', Char.ofNat (hexDigit (v / 16)).toNat, Char.ofNat (hexDigit (v % 16)).toNat]

def encodeOctet (v : ℕ) : Str := if unreserved v then [Char.ofNat v] else formatPercent v

def encode (s : Str) : Str := (charset.encode s).flatMap fun c => encodeOctet c.toNat

/-- The text of a form. -/
def text (fields : List (Str × Str)) : Str :=
  ['&'].intercalate (fields.map fun (k, v) => encode charset k ++ '=' :: encode charset v)

def build (fields : List (Str × Str)) : List UInt8 := charset.encode (text charset fields)

/-! ### A parser -/

def ampersand : UInt8 := 38

def equalsSign : UInt8 := 61

def scheme : Scheme :=
  .ofDigits hexValue hexValue_hexDigit (fun b => !unreserved b.toNat) (fun _ => true) fun _ _ => rfl

/-- What stands before and behind the first equals sign. -/
def parsePair (piece : List UInt8) : List UInt8 × List UInt8 :=
  (piece.takeWhile (· != equalsSign), (piece.dropWhile (· != equalsSign)).tail)

def parse (body : List UInt8) : List (Str × Str) :=
  ((body.splitOn ampersand).filter (· ≠ [])).map fun piece =>
    (charset.decode (scheme.decode (parsePair piece).1),
      charset.decode (scheme.decode (parsePair piece).2))

/-- A byte that a body may contain. -/
def bodyByte (b : UInt8) : Bool :=
  unreserved b.toNat || b == percent || b == equalsSign || b == ampersand

/-! ### What a form is made of -/

/-- The bytes of a field in the text. -/
def piece (field : Str × Str) : List UInt8 :=
  scheme.encode (charset.encode field.1) ++
    equalsSign :: scheme.encode (charset.encode field.2)

/-- The table of all octets. -/
theorem usAscii_encodeOctet : ∀ n < 256,
    usAscii (encodeOctet n) = scheme.encodeByte (UInt8.ofNat n) := by
  decide +kernel

theorem usAscii_flatMap (bytes : List UInt8) :
    usAscii (bytes.flatMap fun c => encodeOctet c.toNat) = scheme.encode bytes := by
  induction bytes with
  | nil => rfl
  | cons b bytes ih =>
    have hbyte := usAscii_encodeOctet b.toNat b.toNat_lt
    rw [UInt8.ofNat_toNat] at hbyte
    rw [List.flatMap_cons, MultipartParser.usAscii_append, hbyte, ih, Scheme.encode_cons]

theorem usAscii_pair (field : Str × Str) :
    usAscii (encode charset field.1 ++ '=' :: encode charset field.2) = piece charset field := by
  rw [MultipartParser.usAscii_append, encode, usAscii_flatMap]
  exact congrArg (fun value => _ ++ equalsSign :: value) (usAscii_flatMap _)

theorem usAscii_text (fields : List (Str × Str)) :
    usAscii (text charset fields) = [ampersand].intercalate (fields.map (piece charset)) := by
  unfold text
  induction fields with
  | nil => rfl
  | cons field fields ih =>
    cases fields with
    | nil =>
      rw [List.map_singleton, List.map_singleton, List.intercalate_singleton,
        List.intercalate_singleton]
      exact usAscii_pair charset field
    | cons next fields =>
      rw [List.map_cons, List.map_cons] at ih ⊢
      rw [List.map_cons, List.map_cons, List.intercalate_cons_cons, List.intercalate_cons_cons,
        MultipartParser.usAscii_append, MultipartParser.usAscii_append, ih]
      exact congrArg (· ++ _ ++ _) (usAscii_pair charset field)

/-- What the scheme writes is made of unreserved bytes and percent signs. -/
theorem all_encodeByte : ∀ n < 256, ((scheme.encodeByte (UInt8.ofNat n)).all fun b =>
    unreserved b.toNat || b == percent) = true := by
  decide +kernel

theorem mem_encode {bytes : List UInt8} {b : UInt8} (h : b ∈ scheme.encode bytes) :
    unreserved b.toNat = true ∨ b = percent := by
  obtain ⟨source, -, hb⟩ := List.mem_flatMap.mp h
  have hall := all_encodeByte source.toNat source.toNat_lt
  rw [UInt8.ofNat_toNat, List.all_eq_true] at hall
  simpa using hall b hb

theorem ne_of_mem_encode {bytes : List UInt8} {b : UInt8} (h : b ∈ scheme.encode bytes) :
    b ≠ equalsSign ∧ b ≠ ampersand := by
  rcases mem_encode h with hplain | rfl
  · constructor
    · rintro rfl
      exact absurd hplain (by decide)
    · rintro rfl
      exact absurd hplain (by decide)
  · decide

variable {charset}

theorem bodyByte_of_mem_piece {field : Str × Str} {b : UInt8} (h : b ∈ piece charset field) :
    bodyByte b = true ∧ b ≠ ampersand := by
  have hencoded : ∀ {bytes : List UInt8}, b ∈ scheme.encode bytes →
      bodyByte b = true ∧ b ≠ ampersand := by
    intro bytes hb
    refine ⟨?_, (ne_of_mem_encode hb).2⟩
    rcases mem_encode hb with hplain | rfl
    · simp [bodyByte, hplain]
    · decide
  rcases List.mem_append.mp h with hkey | hrest
  · exact hencoded hkey
  · rcases List.mem_cons.mp hrest with rfl | hvalue
    · decide
    · exact hencoded hvalue

theorem parsePair_piece (field : Str × Str) : parsePair (piece charset field) =
    (scheme.encode (charset.encode field.1), scheme.encode (charset.encode field.2)) := by
  have hkey : ∀ b ∈ scheme.encode (charset.encode field.1), (b != equalsSign) = true := by
    intro b hb
    exact bne_iff_ne.mpr (ne_of_mem_encode hb).1
  unfold parsePair piece
  rw [List.takeWhile_append_of_pos hkey, List.dropWhile_append_of_pos hkey,
    List.takeWhile_cons_of_neg (by decide), List.dropWhile_cons_of_neg (by decide), List.append_nil,
    List.tail_cons]

theorem decode_piece (bytes : List UInt8) : scheme.decode (scheme.encode bytes) = bytes :=
  Scheme.decode_encode (by decide) bytes

theorem splitOn_text (fields : List (Str × Str)) :
    ((usAscii (text charset fields)).splitOn ampersand).filter (· ≠ []) =
      fields.map (piece charset) := by
  have hne : ∀ l ∈ fields.map (piece charset), l ≠ [] := by
    intro l hl
    obtain ⟨field, -, rfl⟩ := List.mem_map.mp hl
    exact List.append_ne_nil_of_right_ne_nil _ (List.cons_ne_nil _ _)
  have hplain : ∀ l ∈ fields.map (piece charset), ampersand ∉ l := by
    intro l hl hmem
    obtain ⟨field, -, rfl⟩ := List.mem_map.mp hl
    exact (bodyByte_of_mem_piece hmem).2 rfl
  rw [usAscii_text]
  cases hfields : fields.map (piece charset) with
  | nil => rfl
  | cons l ls =>
    rw [hfields] at hne hplain
    rw [List.splitOn_intercalate ampersand hplain (List.cons_ne_nil l ls), List.filter_eq_self.mpr]
    simpa using hne

theorem forall_mem_intercalate {α : Type*} {p : α → Prop} {separator : α} (hseparator : p separator)
    {ls : List (List α)} (h : ∀ l ∈ ls, ∀ a ∈ l, p a) : ∀ a ∈ [separator].intercalate ls, p a := by
  induction ls with
  | nil => nofun
  | cons l ls ih =>
    obtain ⟨hl, hls⟩ := List.forall_mem_cons.mp h
    cases ls with
    | nil =>
      rw [List.intercalate_singleton]
      exact hl
    | cons next ls =>
      rw [List.intercalate_cons_cons]
      intro a ha
      rcases List.mem_append.mp ha with hfirst | hrest
      · rcases List.mem_append.mp hfirst with hmem | hmem
        · exact hl a hmem
        · obtain rfl := List.mem_singleton.mp hmem
          exact hseparator
      · exact ih hls a hrest

theorem bodyByte_of_mem_text {fields : List (Str × Str)} {b : UInt8}
    (h : b ∈ usAscii (text charset fields)) : bodyByte b = true := by
  rw [usAscii_text] at h
  refine forall_mem_intercalate (p := fun b => bodyByte b = true) (by decide) ?_ b h
  intro l hl a ha
  obtain ⟨field, -, rfl⟩ := List.mem_map.mp hl
  exact (bodyByte_of_mem_piece ha).1

/-- The form is read back, and its body has no other bytes than those of a form. -/
def RoundTrips (charset : Charset) (fields : List (Str × Str)) : Prop :=
  parse charset (build charset fields) = fields ∧ ∀ b ∈ build charset fields, bodyByte b = true

theorem roundTrips_of_text {fields : List (Str × Str)}
    (hencodes : ∀ field ∈ fields, charset.CanEncode field.1 ∧ charset.CanEncode field.2)
    (hascii : charset.encode (text charset fields) = usAscii (text charset fields)) :
    RoundTrips charset fields := by
  unfold RoundTrips build
  rw [hascii]
  refine ⟨?_, fun b hb => bodyByte_of_mem_text hb⟩
  unfold parse
  rw [splitOn_text, List.map_map]
  conv_rhs => rw [← List.map_id fields]
  apply List.map_congr_left
  intro field hfield
  obtain ⟨hkey, hvalue⟩ := hencodes field hfield
  dsimp only [Function.comp_apply]
  rw [parsePair_piece, decode_piece, decode_piece, hkey, hvalue]
  rfl

theorem encodeOctet_ascii : ∀ n < 256, ((encodeOctet n).all fun c => c.toNat < 128) = true := by
  decide +kernel

theorem encode_ascii (s : Str) : ∀ c ∈ encode charset s, c.toNat < 128 := by
  intro c hc
  obtain ⟨b, -, hb⟩ := List.mem_flatMap.mp hc
  have hall := encodeOctet_ascii b.toNat b.toNat_lt
  exact of_decide_eq_true (List.all_eq_true.mp hall c hb)

theorem text_ascii (fields : List (Str × Str)) : ∀ c ∈ text charset fields, c.toNat < 128 := by
  refine forall_mem_intercalate (p := fun c : Char => c.toNat < 128) (by decide) ?_
  intro l hl
  obtain ⟨⟨k, v⟩, -, rfl⟩ := List.mem_map.mp hl
  intro c hc
  rcases List.mem_append.mp hc with hkey | hrest
  · exact encode_ascii k c hkey
  · rcases List.mem_cons.mp hrest with rfl | hvalue
    · decide
    · exact encode_ascii v c hvalue

theorem encodesAscii_utf8 : Charset.utf8.EncodesAscii := fun _ hs =>
  (MultipartParser.usAscii_eq_encode hs).symm

theorem canEncode_utf8 (s : Str) : Charset.utf8.CanEncode s := by
  change (Utf8.decode (Utf8.encode s)).getD [] = s
  rw [Utf8.decode_encode, Option.getD_some]

/-- With the default charset there is no condition. -/
theorem roundTrips_utf8 (fields : List (Str × Str)) : RoundTrips .utf8 fields :=
  roundTrips_of_text (fun field _ => ⟨canEncode_utf8 field.1, canEncode_utf8 field.2⟩)
    (encodesAscii_utf8 _ (text_ascii fields))

/-- A form is read back, and consists of the bytes of a form, for each charset that encodes ASCII
characters as their ASCII bytes, and for every other one that does so for the text that is put
together. -/
theorem formBody_roundTrip (charset : Charset) :
    (charset.EncodesAscii → ∀ fields : List (Str × Str),
      (∀ field ∈ fields, charset.CanEncode field.1 ∧ charset.CanEncode field.2) →
        RoundTrips charset fields) ∧
    ∀ fields : List (Str × Str),
      (∀ field ∈ fields, charset.CanEncode field.1 ∧ charset.CanEncode field.2) →
        charset.encode (text charset fields) = usAscii (text charset fields) →
          RoundTrips charset fields := by
  refine ⟨fun hascii fields hencodes => ?_, fun fields hencodes htext => ?_⟩
  · exact roundTrips_of_text hencodes (hascii _ (text_ascii fields))
  · exact roundTrips_of_text hencodes htext

/-- Two fields of one name in UTF-8. -/
theorem formBody_roundTrip_fields :
    RoundTrips .utf8 [("a=".toList, "é&".toList), ("a=".toList, [])] :=
  (formBody_roundTrip .utf8).1 encodesAscii_utf8 _ (by decide +kernel)

/-- UTF-16 puts a zero byte before each byte of the text. -/
theorem formBody_utf16 :
    Charset.utf16be.CanEncode "a".toList ∧ Charset.utf16be.CanEncode "b".toList ∧
      build .utf16be [("a".toList, "b".toList)] =
        [0, 37, 0, 48, 0, 48, 0, 97, 0, 61, 0, 37, 0, 48, 0, 48, 0, 98] ∧
      parse .utf16be (build .utf16be [("a".toList, "b".toList)]) ≠ [("a".toList, "b".toList)] :=
  ⟨by decide, by decide, by decide, by decide⟩

end FormBody

end KatHttp3
