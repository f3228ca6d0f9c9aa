import KatHttp3.Library.Delimited
import KatHttp3.Library.PercentCoding
import KatHttp3.Library.Utf8
import KatHttp3.Text.Str

/-!
# Multipart bodies

The builder of `multipart/form-data` bodies, and a parser that takes the framing apart
and undoes the escapes that the builder writes. Texts are lists of characters here,
and bodies are lists of bytes.
-/

namespace KatHttp3

open Delimited PercentCoding

/-! ### The builder -/

/-- The text of a `java.util.UUID`. -/
structure Uuid where
  text : Str
  digits : ∀ c ∈ text, c.isDigit = true ∨ ('a' ≤ c ∧ c ≤ 'f') ∨ c = '-'

structure MultipartPart where
  name : Str
  filename : Option Str
  contentType : Str
  data : List UInt8
  deriving DecidableEq

def invalidHeaderCharacter (character : Char) : Bool :=
  character == '\r' || character == '\n' || character == Char.ofNat 0 ||
    character.toNat < 0x20 || character.toNat == 0x7f

/-- `toByteArray(Charsets.US_ASCII)`. -/
def usAscii (s : Str) : List UInt8 :=
  s.map fun c => if c.toNat < 128 then UInt8.ofNat c.toNat else UInt8.ofNat '?'.toNat

namespace MultipartBuilder

def boundary (uuid : Uuid) : Str := "kathttp3-".toList ++ uuid.text

def validateParameter (value : Str) : Bool := value ≠ [] && !value.any invalidHeaderCharacter

def addFormField (parts : List MultipartPart) (name value : Str) : Option (List MultipartPart) :=
  if validateParameter name then
    some (parts ++ [⟨name, none, "text/plain; charset=utf-8".toList, Utf8.encode value⟩])
  else none

/-- Of the white space, only a space is no invalid character. -/
def addFile (parts : List MultipartPart) (name filename contentType : Str) (data : List UInt8) :
    Option (List MultipartPart) :=
  if validateParameter name && validateParameter filename then
    if (contentType.any fun c => c != ' ') &&
        !contentType.any fun c => invalidHeaderCharacter c || 0x7e < c.toNat then
      some (parts ++ [⟨name, some filename, contentType, data⟩])
    else none
  else none

/-- An octet of a filename. -/
def quotedOctet (octet : ℕ) : Str :=
  if octet = '"'.toNat ∨ octet = '\\'.toNat then ['\\', Char.ofNat octet]
  else if 0x7f < octet then
    '%' :: ("0123456789ABCDEF".toList.getD (octet / 16) '0') ::
      ("0123456789ABCDEF".toList.getD (octet % 16) '0') :: []
  else [Char.ofNat octet]

def quotedParameter (value : Str) (percentEncodeNonAscii : Bool) : Str :=
  if percentEncodeNonAscii then (Utf8.encode value).flatMap fun byte => quotedOctet byte.toNat
  else
    value.flatMap fun character =>
      if character = '"' ∨ character = '\\' then ['\\', character] else [character]

def contentDisposition (part : MultipartPart) : Str :=
  "Content-Disposition: form-data; name=\"".toList ++ quotedParameter part.name false ++ ['"'] ++
    match part.filename with
    | none => []
    | some filename => "; filename=\"".toList ++ quotedParameter filename true ++ ['"']

def crlf : List UInt8 := usAscii "\r\n".toList

def dash : List UInt8 := usAscii "--".toList

def writePart (uuid : Uuid) (part : MultipartPart) : List UInt8 :=
  dash ++ usAscii (boundary uuid) ++ crlf ++
    Utf8.encode (contentDisposition part) ++ crlf ++
      usAscii ("Content-Type: ".toList ++ part.contentType) ++ crlf ++
        crlf ++ part.data ++ crlf

def build (uuid : Uuid) (parts : List MultipartPart) : List UInt8 :=
  parts.flatMap (writePart uuid) ++ dash ++ usAscii (boundary uuid) ++ dash ++ crlf

/-- A call that adds a part. -/
inductive AddCall
  | formField (name value : Str)
  | file (name filename contentType : Str) (data : List UInt8)

def add (parts : List MultipartPart) : AddCall → Option (List MultipartPart)
  | .formField name value => addFormField parts name value
  | .file name filename contentType data => addFile parts name filename contentType data

/-- The parts after some calls, if none of them throws. -/
def addAll (calls : List AddCall) : Option (List MultipartPart) := calls.foldlM add []

end MultipartBuilder

/-! ### A parser -/

namespace MultipartParser

open MultipartBuilder

def quoteByte : UInt8 := 34

def backslashByte : UInt8 := 92

/-- The escapes that the builder writes: of octets that are not ASCII, in upper case. -/
def nonAscii : Scheme :=
  .ofDigits upperHexValue upperHexValue_hexDigit (fun b => 0x7f < b.toNat) (fun b => 0x7f < b.toNat)
    fun _ h => h

/-- What stands between two parts. -/
def delimiter (uuid : Uuid) : List UInt8 := crlf ++ dash ++ usAscii (boundary uuid)

def dispositionHead : List UInt8 := usAscii "Content-Disposition: form-data; name=\"".toList

def filenameHead : List UInt8 := usAscii "; filename=\"".toList

def contentTypeHead : List UInt8 := usAscii "Content-Type: ".toList

def parseFilename (text : List UInt8) : Option (Option Str × List UInt8) :=
  match expect filenameHead text with
  | none => some (none, text)
  | some text => do
    let (filename, text) ← readQuoted quoteByte backslashByte text
    let filename ← Utf8.decode (nonAscii.decode filename)
    some (some filename, text)

/-- A part, and the text behind its closing delimiter. -/
def parsePart (uuid : Uuid) (text : List UInt8) : Option (MultipartPart × List UInt8) := do
  let text ← expect crlf text
  let text ← expect dispositionHead text
  let (name, text) ← readQuoted quoteByte backslashByte text
  let name ← Utf8.decode name
  let (filename, text) ← parseFilename text
  let text ← expect crlf text
  let text ← expect contentTypeHead text
  let (contentType, text) ← breakOn crlf text
  let contentType ← Utf8.decode contentType
  let text ← expect crlf text
  let (data, text) ← breakOn (delimiter uuid) text
  some (⟨name, filename, contentType, data⟩, text)

/-- The parts up to the last delimiter. -/
def parseParts (uuid : Uuid) : ℕ → List UInt8 → Option (List MultipartPart)
  | 0, _ => none
  | fuel + 1, text =>
    if dash <+: text then some []
    else do
      let (part, text) ← parsePart uuid text
      let parts ← parseParts uuid fuel text
      some (part :: parts)

def parse (uuid : Uuid) (body : List UInt8) : Option (List MultipartPart) :=
  (expect (dash ++ usAscii (boundary uuid)) body).bind (parseParts uuid body.length)

end MultipartParser

/-! ### Quoted parameters -/

namespace MultipartParser

open MultipartBuilder

theorem plainDigits_nonAscii : nonAscii.PlainDigits := by
  intro b c o h
  obtain ⟨m, n, hm, hn⟩ := Scheme.value_of_octetOf h
  obtain ⟨hb, hbne⟩ := ascii_of_upperHexValue hm
  obtain ⟨hc, hcne⟩ := ascii_of_upperHexValue hn
  have hplain : ∀ a : UInt8, a.toNat < 128 → nonAscii.escaped a = false := by
    intro a ha
    exact decide_eq_false (by omega)
  exact ⟨⟨hplain b hb, hbne⟩, hplain c hc, hcne⟩

theorem mem_utf8EncodeChar {c : Char} {b : UInt8} (hb : b ∈ String.utf8EncodeChar c) :
    b.toNat = c.toNat ∨ 128 ≤ b.toNat := by
  by_cases hascii : c.toNat < 128
  · rw [Utf8.utf8EncodeChar_ascii hascii, List.mem_singleton] at hb
    left
    rw [hb, UInt8.toNat_ofNat', Nat.mod_eq_of_lt (by omega)]
  · exact .inr (Utf8.le_of_mem_utf8EncodeChar hascii hb)

theorem quoted_utf8EncodeChar (c : Char) :
    quoted quoteByte backslashByte (String.utf8EncodeChar c) =
      Utf8.encode (if c = '"' ∨ c = '\\' then ['\\', c] else [c]) := by
  split_ifs with hspecial
  · rcases hspecial with rfl | rfl <;> rfl
  · obtain ⟨hquote, hbackslash⟩ := not_or.mp hspecial
    rw [quoted_of_plain]
    · exact (List.append_nil _).symm
    · intro b hb
      constructor
      · rintro rfl
        rcases mem_utf8EncodeChar hb with heq | hlarge
        · exact hquote (Char.toNat_inj.mp heq.symm)
        · exact absurd hlarge (by decide)
      · rintro rfl
        rcases mem_utf8EncodeChar hb with heq | hlarge
        · exact hbackslash (Char.toNat_inj.mp heq.symm)
        · exact absurd hlarge (by decide)

theorem encode_quotedParameter_false (value : Str) :
    Utf8.encode (quotedParameter value false) =
      quoted quoteByte backslashByte (Utf8.encode value) := by
  induction value with
  | nil => rfl
  | cons c value ih =>
    rw [Utf8.encode_cons, quoted_append, ← ih, quoted_utf8EncodeChar]
    exact Utf8.encode_append ..

/-- The table of all octets. -/
theorem encode_quotedOctet : ∀ n < 256, Utf8.encode (quotedOctet n) =
    quoted quoteByte backslashByte (nonAscii.encodeByte (UInt8.ofNat n)) := by
  decide +kernel

theorem encode_quotedParameter_true (value : Str) :
    Utf8.encode (quotedParameter value true) =
      quoted quoteByte backslashByte (nonAscii.encode (Utf8.encode value)) := by
  unfold quotedParameter
  rw [if_pos rfl]
  induction Utf8.encode value with
  | nil => rfl
  | cons b bytes ih =>
    have hbyte := encode_quotedOctet b.toNat b.toNat_lt
    rw [UInt8.ofNat_toNat] at hbyte
    rw [List.flatMap_cons, Utf8.encode_append, ih, hbyte, Scheme.encode_cons, quoted_append]

/-! ### One part -/

/-- What the builder checks of a part, and what is asked of its data. -/
structure Framed (uuid : Uuid) (part : MultipartPart) : Prop where
  contentType : ∀ c ∈ part.contentType, c.toNat < 128 ∧ c ≠ '\r'
  data : ¬delimiter uuid <:+: part.data

/-- The filename that is read back. -/
def readFilename : Option Str → Option (Option Str)
  | none => some none
  | some filename => (Utf8.decode (nonAscii.decode (Utf8.encode filename))).map some

/-- The part that is read back. -/
def readPart (part : MultipartPart) : Option MultipartPart :=
  (readFilename part.filename).map fun filename => { part with filename := filename }

def filenameText : Option Str → List UInt8
  | none => []
  | some filename => filenameHead ++
      (quoted quoteByte backslashByte (nonAscii.encode (Utf8.encode filename)) ++ [quoteByte])

/-- The text of a part up to its data. -/
def headText (part : MultipartPart) : List UInt8 :=
  crlf ++ (dispositionHead ++ (quoted quoteByte backslashByte (Utf8.encode part.name) ++
    quoteByte :: (filenameText part.filename ++ (crlf ++ (contentTypeHead ++
      (Utf8.encode part.contentType ++ (crlf ++ crlf)))))))

theorem usAscii_eq_encode {s : Str} (h : ∀ c ∈ s, c.toNat < 128) : usAscii s = Utf8.encode s := by
  induction s with
  | nil => rfl
  | cons c s ih =>
    obtain ⟨hc, hs⟩ := List.forall_mem_cons.mp h
    rw [Utf8.encode_cons, Utf8.utf8EncodeChar_ascii hc, ← ih hs]
    simp [usAscii, hc]

theorem usAscii_append (s t : Str) : usAscii (s ++ t) = usAscii s ++ usAscii t :=
  List.map_append

theorem encode_contentDisposition (part : MultipartPart) :
    Utf8.encode (contentDisposition part) =
      dispositionHead ++ (quoted quoteByte backslashByte (Utf8.encode part.name) ++
        quoteByte :: filenameText part.filename) := by
  have hhead : Utf8.encode "Content-Disposition: form-data; name=\"".toList = dispositionHead := by
    decide +kernel
  have hfilename : Utf8.encode "; filename=\"".toList = filenameHead := by
    decide +kernel
  have hquote : Utf8.encode ['"'] = [quoteByte] := rfl
  unfold contentDisposition
  rw [Utf8.encode_append, Utf8.encode_append, Utf8.encode_append, hhead,
    encode_quotedParameter_false, hquote, List.append_assoc, List.append_assoc,
    List.singleton_append]
  cases part.filename with
  | none => rfl
  | some filename =>
    dsimp only [filenameText]
    rw [Utf8.encode_append, Utf8.encode_append, hfilename, encode_quotedParameter_true, hquote,
      List.append_assoc]

theorem writePart_eq {uuid : Uuid} {part : MultipartPart} (h : Framed uuid part) :
    writePart uuid part = dash ++ (usAscii (boundary uuid) ++ (headText part ++ (part.data ++ crlf))) := by
  have htype : usAscii part.contentType = Utf8.encode part.contentType :=
    usAscii_eq_encode fun c hc => (h.contentType c hc).1
  unfold writePart headText
  rw [encode_contentDisposition, usAscii_append, htype]
  simp only [contentTypeHead, List.append_assoc, List.cons_append]

theorem carriage_not_mem_encode {s : Str} (h : ∀ c ∈ s, c.toNat < 128 ∧ c ≠ '\r') :
    ¬crlf <:+: Utf8.encode s := by
  intro hinfix
  have hmem : (13 : UInt8) ∈ Utf8.encode s := hinfix.subset List.mem_cons_self
  obtain ⟨c, hc, hbyte⟩ := List.mem_flatMap.mp hmem
  rcases mem_utf8EncodeChar hbyte with heq | hlarge
  · exact (h c hc).2 (Char.toNat_inj.mp heq.symm)
  · exact absurd hlarge (by decide)

theorem quote_ne_backslash : quoteByte ≠ backslashByte := by
  decide

theorem parseFilename_eq (filename : Option Str) (rest : List UInt8) :
    parseFilename (filenameText filename ++ (crlf ++ rest)) =
      (readFilename filename).map fun filename => (filename, crlf ++ rest) := by
  cases filename with
  | none =>
    have hother : expect filenameHead (crlf ++ rest) = none := by
      apply if_neg
      intro hprefix
      cases (List.cons_prefix_cons.mp hprefix).1
    rw [parseFilename, filenameText, List.nil_append, hother]
    rfl
  | some filename =>
    have hpercent : nonAscii.escaped percent = false := by decide
    have hquoted := readQuoted_quoted quote_ne_backslash (nonAscii.encode (Utf8.encode filename))
      (crlf ++ rest)
    have hback := Scheme.decode_encode_eq_decode plainDigits_nonAscii hpercent (Utf8.encode filename)
    unfold parseFilename filenameText
    rw [List.append_assoc, List.append_assoc, List.singleton_append, expect_append]
    simp only [hquoted, Option.bind_eq_bind, Option.bind_some, hback, readFilename]
    cases Utf8.decode (nonAscii.decode (Utf8.encode filename)) <;> rfl

theorem toNat_boundary {uuid : Uuid} {c : Char} (h : c ∈ boundary uuid) :
    32 < c.toNat ∧ c.toNat < 128 := by
  rcases List.mem_append.mp h with hhead | huuid
  · have hall : ("kathttp3-".toList.all fun c => decide (32 < c.toNat ∧ c.toNat < 128)) = true := by
      decide
    simpa using List.all_eq_true.mp hall c hhead
  · rcases uuid.digits c huuid with hdigit | ⟨hlow, hhigh⟩ | rfl
    · have hrange := Char.isDigit_iff_toNat.mp hdigit
      have hzero : '0'.toNat = 48 := rfl
      have hnine : '9'.toNat = 57 := rfl
      omega
    · have hlow' : 97 ≤ c.toNat := hlow
      have hhigh' : c.toNat ≤ 102 := hhigh
      omega
    · decide

/-- A delimiter begins with its only carriage return. -/
theorem carriage_not_mem (uuid : Uuid) : (13 : UInt8) ∉ 10 :: (dash ++ usAscii (boundary uuid)) := by
  intro hmem
  rcases List.mem_cons.mp hmem with heq | hmem
  · cases heq
  · rcases List.mem_append.mp hmem with hdash | hboundary
    · revert hdash
      decide
    · obtain ⟨c, hc, heq⟩ := List.mem_map.mp hboundary
      obtain ⟨hlow, hhigh⟩ := toNat_boundary hc
      rw [if_pos hhigh] at heq
      have hbyte := congrArg UInt8.toNat heq
      rw [UInt8.toNat_ofNat', Nat.mod_eq_of_lt (by omega)] at hbyte
      rw [hbyte] at hlow
      exact absurd hlow (by decide)

theorem parsePart_eq {uuid : Uuid} {part : MultipartPart} (h : Framed uuid part)
    (rest : List UInt8) :
    parsePart uuid (headText part ++ (part.data ++ (delimiter uuid ++ rest))) =
      (readPart part).map fun part => (part, rest) := by
  have hname := readQuoted_quoted quote_ne_backslash (Utf8.encode part.name)
  have htype : ∀ after, breakOn crlf (Utf8.encode part.contentType ++ (crlf ++ after)) =
      some (Utf8.encode part.contentType, after) := by
    intro after
    exact breakOn_append (by decide) (carriage_not_mem_encode h.contentType) after
  have hdata : breakOn (delimiter uuid) (part.data ++ (delimiter uuid ++ rest)) =
      some (part.data, rest) :=
    breakOn_append (carriage_not_mem uuid) h.data rest
  unfold parsePart headText readPart
  simp only [List.append_assoc, List.cons_append, expect_append, hname, Utf8.decode_encode,
    parseFilename_eq, Option.bind_eq_bind, Option.bind_some]
  cases readFilename part.filename with
  | none => rfl
  | some filename =>
    simp only [Option.map_some, Option.bind_some, expect_append, htype, Utf8.decode_encode, hdata]

/-! ### All parts -/

/-- The text behind the first delimiter. -/
def tailText (uuid : Uuid) : List MultipartPart → List UInt8
  | [] => dash ++ crlf
  | part :: parts => headText part ++ (part.data ++ (delimiter uuid ++ tailText uuid parts))

theorem build_eq {uuid : Uuid} {parts : List MultipartPart} (h : ∀ part ∈ parts, Framed uuid part) :
    build uuid parts = dash ++ usAscii (boundary uuid) ++ tailText uuid parts := by
  induction parts with
  | nil => rw [build, List.flatMap_nil, tailText, List.nil_append, List.append_assoc]
  | cons part parts ih =>
    obtain ⟨hpart, hparts⟩ := List.forall_mem_cons.mp h
    have hrest := ih hparts
    unfold build at hrest ⊢
    rw [List.flatMap_cons, writePart_eq hpart, tailText, delimiter]
    simp only [List.append_assoc] at hrest ⊢
    rw [hrest]

theorem parseParts_eq {uuid : Uuid} {parts : List MultipartPart}
    (h : ∀ part ∈ parts, Framed uuid part) {fuel : ℕ} (hfuel : parts.length < fuel) :
    parseParts uuid fuel (tailText uuid parts) = parts.mapM readPart := by
  induction parts generalizing fuel with
  | nil =>
    obtain ⟨fuel, rfl⟩ := Nat.exists_eq_add_of_lt hfuel
    rw [parseParts, tailText, if_pos (List.prefix_append dash crlf)]
    rfl
  | cons part parts ih =>
    obtain ⟨fuel, rfl⟩ := Nat.exists_eq_succ_of_ne_zero (Nat.ne_zero_of_lt hfuel)
    obtain ⟨hpart, hparts⟩ := List.forall_mem_cons.mp h
    have hfirst : ¬dash <+: tailText uuid (part :: parts) := by
      intro hprefix
      cases (List.cons_prefix_cons.mp hprefix).1
    have hrest := ih hparts (Nat.lt_of_succ_lt_succ hfuel)
    rw [parseParts, if_neg hfirst, tailText, parsePart_eq hpart, List.mapM_cons]
    cases readPart part with
    | none => rfl
    | some read => simp only [Option.map_some, Option.bind_eq_bind, Option.bind_some, hrest]; rfl

theorem length_build (uuid : Uuid) (parts : List MultipartPart) :
    parts.length < (build uuid parts).length := by
  induction parts with
  | nil => exact Nat.succ_pos _
  | cons part parts ih =>
    unfold build at ih ⊢
    rw [List.flatMap_cons]
    simp only [List.length_append, List.length_cons] at ih ⊢
    have hpos : 0 < (writePart uuid part).length := Nat.succ_pos _
    omega

theorem parse_build {uuid : Uuid} {parts : List MultipartPart}
    (h : ∀ part ∈ parts, Framed uuid part) :
    parse uuid (build uuid parts) = parts.mapM readPart := by
  have hlength := length_build uuid parts
  unfold parse
  rw [build_eq h] at hlength ⊢
  rw [expect_append, Option.bind_some, parseParts_eq h hlength]

/-! ### Parts that the builder accepts -/

/-- What the builder makes sure of. -/
def PlainType (part : MultipartPart) : Prop := ∀ c ∈ part.contentType, c.toNat < 128 ∧ c ≠ '\r'

theorem plainType_of_add {parts parts' : List MultipartPart} {call : AddCall}
    (h : ∀ part ∈ parts, PlainType part) (hadd : add parts call = some parts') :
    ∀ part ∈ parts', PlainType part := by
  cases call with
  | formField name value =>
    dsimp only [add, addFormField] at hadd
    split_ifs at hadd with hname
    obtain rfl := Option.some.inj hadd
    have htext : ("text/plain; charset=utf-8".toList.all fun c => c.toNat < 128 ∧ c ≠ '\r') = true := by
      decide
    refine List.forall_mem_append.mpr ⟨h, List.forall_mem_singleton.mpr ?_⟩
    intro c hc
    simpa using List.all_eq_true.mp htext c hc
  | file name filename contentType data =>
    dsimp only [add, addFile] at hadd
    split_ifs at hadd with hnames htype
    obtain rfl := Option.some.inj hadd
    refine List.forall_mem_append.mpr ⟨h, List.forall_mem_singleton.mpr ?_⟩
    intro c hc
    simp only [Bool.and_eq_true, Bool.not_eq_true', List.any_eq_false, Bool.or_eq_true,
      decide_eq_true_eq, not_or] at htype
    obtain ⟨hvalid, hlarge⟩ := htype.2 c hc
    refine ⟨by omega, ?_⟩
    rintro rfl
    exact hvalid (by decide)

theorem plainType_of_addAll {calls : List AddCall} {parts : List MultipartPart}
    (h : addAll calls = some parts) : ∀ part ∈ parts, PlainType part := by
  unfold addAll at h
  suffices hfrom : ∀ before, (∀ part ∈ before, PlainType part) →
      calls.foldlM add before = some parts → ∀ part ∈ parts, PlainType part from
    hfrom [] nofun h
  clear h
  induction calls with
  | nil =>
    intro before hbefore h
    obtain rfl := Option.some.inj h
    exact hbefore
  | cons call calls ih =>
    intro before hbefore h
    rw [List.foldlM_cons] at h
    obtain ⟨next, hnext, hrest⟩ := Option.bind_eq_some_iff.mp h
    exact ih next (plainType_of_add hbefore hnext) hrest

theorem mapM_readPart {parts : List MultipartPart} :
    parts.mapM readPart = some parts ↔ ∀ part ∈ parts, readPart part = some part := by
  induction parts with
  | nil => simp
  | cons part parts ih =>
    rw [List.mapM_cons, List.forall_mem_cons, ← ih]
    cases readPart part with
    | none => simp
    | some read =>
      cases hrest : parts.mapM readPart <;> simp

/-- A filename that looks as if it were escaped already is not read back. -/
def LooksEscaped (part : MultipartPart) : Prop :=
  ∃ filename, part.filename = some filename ∧ nonAscii.HasEscape (Utf8.encode filename)

theorem readPart_iff (part : MultipartPart) :
    readPart part = some part ↔ ¬LooksEscaped part := by
  obtain ⟨name, filename, contentType, data⟩ := part
  cases filename with
  | none => simp [readPart, readFilename, LooksEscaped]
  | some filename =>
    have hback : Utf8.decode (nonAscii.decode (Utf8.encode filename)) = some filename ↔
        ¬nonAscii.HasEscape (Utf8.encode filename) := by
      rw [← Scheme.decode_eq_self_iff]
      constructor
      · intro h
        exact (Utf8.encode_of_decode h).symm
      · intro h
        rw [h, Utf8.decode_encode]
    unfold readPart readFilename LooksEscaped
    simp only [Option.map_map, Option.some.injEq, exists_eq_left', ← hback]
    cases Utf8.decode (nonAscii.decode (Utf8.encode filename)) <;> simp

variable {uuid : Uuid} {calls calls' : List AddCall} {parts parts' : List MultipartPart}

theorem parse_build_iff (hparts : addAll calls = some parts)
    (hdata : ∀ part ∈ parts, ¬delimiter uuid <:+: part.data) :
    parse uuid (build uuid parts) = some parts ↔ ∀ part ∈ parts, ¬LooksEscaped part := by
  have hframed : ∀ part ∈ parts, Framed uuid part := by
    intro part hpart
    exact ⟨plainType_of_addAll hparts part hpart, hdata part hpart⟩
  rw [parse_build hframed, mapM_readPart]
  apply forall₂_congr
  intro part _
  exact readPart_iff part

/-- Parts that the builder accepts and whose data does not contain the delimiter are read back
if and only if no filename looks as if it were escaped already; and the bodies of different
lists of such parts are different. -/
theorem multipart_roundTrip_iff (uuid : Uuid) (calls : List AddCall) (parts : List MultipartPart)
    (hparts : addAll calls = some parts)
    (hdata : ∀ part ∈ parts, ¬delimiter uuid <:+: part.data) :
    (parse uuid (build uuid parts) = some parts ↔ ∀ part ∈ parts, ¬LooksEscaped part) ∧
      ∀ calls' parts', addAll calls' = some parts' →
        (∀ part ∈ parts', ¬delimiter uuid <:+: part.data) →
        (∀ part ∈ parts, ¬LooksEscaped part) → (∀ part ∈ parts', ¬LooksEscaped part) →
        build uuid parts = build uuid parts' → parts = parts' := by
  have hread := parse_build_iff hparts hdata
  refine ⟨hread, ?_⟩
  intro calls' parts' hparts' hdata' hplain hplain' hsame
  have hback := hread.mpr hplain
  rw [hsame, (parse_build_iff hparts' hdata').mpr hplain'] at hback
  exact (Option.some.inj hback).symm

def someUuid : Uuid := ⟨"0".toList, by simp⟩

/-- A field and a file whose name is not ASCII. -/
def formCalls : List AddCall :=
  [.formField "title".toList "x y".toList,
    .file "f".toList "é".toList "text/plain".toList [1, 13]]

def formParts : List MultipartPart :=
  [⟨"title".toList, none, "text/plain; charset=utf-8".toList, Utf8.encode "x y".toList⟩,
    ⟨"f".toList, some "é".toList, "text/plain".toList, [1, 13]⟩]

/-- They are read back, and the other order of them has another body. -/
theorem multipart_roundTrip_iff_form :
    parse someUuid (build someUuid formParts) = some formParts ∧
      build someUuid formParts ≠ build someUuid formParts.reverse := by
  have hplain : ∀ part ∈ formParts, ¬LooksEscaped part := by
    have hread : ∀ part ∈ formParts, readPart part = some part := by decide +kernel
    exact fun part hpart => (readPart_iff part).mp (hread part hpart)
  have hform := multipart_roundTrip_iff someUuid formCalls formParts (by decide +kernel)
    (by decide +kernel)
  refine ⟨hform.1.mpr hplain, fun hsame => ?_⟩
  have hequal := hform.2 formCalls.reverse formParts.reverse (by decide +kernel)
    (by decide +kernel) hplain (fun part hpart => hplain part (List.mem_reverse.mp hpart)) hsame
  exact absurd hequal (by decide +kernel)

/-- A filename and its escaped form give the same body. -/
theorem multipart_collision :
    addAll [.file "f".toList "é".toList "text/plain".toList []] =
        some [⟨"f".toList, some "é".toList, "text/plain".toList, []⟩] ∧
      addAll [.file "f".toList "%C3%A9".toList "text/plain".toList []] =
        some [⟨"f".toList, some "%C3%A9".toList, "text/plain".toList, []⟩] ∧
      build someUuid [⟨"f".toList, some "é".toList, "text/plain".toList, []⟩] =
        build someUuid [⟨"f".toList, some "%C3%A9".toList, "text/plain".toList, []⟩] ∧
      "é".toList ≠ "%C3%A9".toList :=
  ⟨by decide, by decide, by decide +kernel, by decide⟩

end MultipartParser

end KatHttp3
