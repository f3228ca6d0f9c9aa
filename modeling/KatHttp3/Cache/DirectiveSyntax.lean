import KatHttp3.Cache.DirectiveMeaning
import KatHttp3.Text.LetterCase
import KatHttp3.Text.Trim

/-!
# The grammar of Cache-Control

Directives as the grammar of the field has them, the texts that write a list of
them down, and that the parser reads such texts as their meaning.
-/

namespace KatHttp3

open Str

/-- A space, a visible character or a byte beyond ASCII. -/
def isTextChar (c : Char) : Bool :=
  (0x20 ≤ c.toNat && c.toNat ≤ 0x7e) || (0x80 ≤ c.toNat && c.toNat ≤ 0xff)

def IsToken (s : Str) : Prop := s ≠ [] ∧ ∀ c ∈ s, isTokenChar c = true

structure Directive where
  name : Str
  argument : Option Str
  name_token : IsToken name
  argument_text : ∀ text ∈ argument, ∀ c ∈ text, isTextChar c = true

/-! ### Texts of directives -/

/-- The inside of a quoted string: any character may follow a backslash, a quote
and a backslash must. -/
inductive Quotes : Str → Str → Prop
  | nil : Quotes [] []
  | plain {text body : Str} (c : Char) :
      c ≠ '"' → c ≠ '\\' → Quotes text body → Quotes (c :: text) (c :: body)
  | escaped {text body : Str} (c : Char) :
      Quotes text body → Quotes (c :: text) ('\\' :: c :: body)

inductive WritesArgument : Str → Str → Prop
  | token {text : Str} : IsToken text → WritesArgument text text
  | quoted {text body : Str} : Quotes text body → WritesArgument text ('"' :: body ++ ['"'])

/-- Optional white space. -/
def Blank (s : Str) : Prop := ∀ c ∈ s, isOws c = true

inductive WritesDirective (d : Directive) : Str → Prop
  | bare {name : Str} : d.argument = none → asciiIequals name d.name = true →
      WritesDirective d name
  | argument {name text left right body : Str} : d.argument = some text →
      asciiIequals name d.name = true → Blank left → Blank right → WritesArgument text body →
      WritesDirective d (name ++ left ++ '=' :: (right ++ body))

/-- An element of the list is a directive or empty. -/
inductive WritesElement : List Directive → Str → Prop
  | empty {blank : Str} : Blank blank → WritesElement [] blank
  | directive {d : Directive} {left text right : Str} : Blank left → Blank right →
      WritesDirective d text → WritesElement [d] (left ++ text ++ right)

inductive WritesField : List Directive → Str → Prop
  | element {ds : List Directive} {text : Str} : WritesElement ds text → WritesField ds text
  | comma {ds rest : List Directive} {text field : Str} : WritesElement ds text →
      WritesField rest field → WritesField (ds ++ rest) (text ++ ',' :: field)

/-- The Cache-Control fields write the directives down, some in each field. -/
def Writes (ds : List Directive) (headers : HeaderList) : Prop :=
  ∃ parts : List (List Directive), parts.flatten = ds ∧
    List.Forall₂ WritesField parts (headers.getAll "cache-control".toList)

/-! ### What directives mean -/

def Directive.IsNamed (d : Directive) (name : Str) : Prop := asciiIequals d.name name = true

instance (d : Directive) (name : Str) : Decidable (d.IsNamed name) :=
  inferInstanceAs (Decidable (asciiIequals d.name name = true))

/-- The value of decimal digits between spaces, at most the largest 64-bit number. -/
def numeral (text : Str) : Option ℕ :=
  let digits := trim (· == ' ') text
  if digits ≠ [] ∧ digits.all Char.isDigit then some (min (decimal digits) maxUint64) else none

def Directive.number (d : Directive) : Option ℕ := d.argument.bind numeral

/-- The first well-formed directive of a name decides. -/
def firstNumber (name : Str) (ds : List Directive) : Option ℕ :=
  ((ds.filter (·.IsNamed name)).filterMap Directive.number).head?

/-- What the parser should say of a list of directives. -/
structure Means (ds : List Directive) (out : CacheControl) : Prop where
  noStore : out.noStore = true ↔ ∃ d ∈ ds, d.IsNamed "no-store".toList
  noCache : out.noCache = true ↔ ∃ d ∈ ds, d.IsNamed "no-cache".toList
  mustRevalidate : out.mustRevalidate = true ↔ ∃ d ∈ ds, d.IsNamed "must-revalidate".toList
  isPrivate : out.isPrivate = true ↔ ∃ d ∈ ds, d.IsNamed "private".toList
  maxAge : out.maxAge = firstNumber "max-age".toList ds
  staleIfError : out.staleIfError = firstNumber "stale-if-error".toList ds
  invalid : out.invalid = true ↔ ∃ d ∈ ds,
    (d.IsNamed "max-age".toList ∨ d.IsNamed "stale-if-error".toList) ∧ d.number = none
  conflictingMaxAge : out.conflictingMaxAge = true ↔ ∃ d ∈ ds, ∃ e ∈ ds,
    d.IsNamed "max-age".toList ∧ e.IsNamed "max-age".toList ∧
      ∃ m ∈ d.number, ∃ n ∈ e.number, m ≠ n

/-! ### Characters -/

/-- The characters that the parser stops at. -/
def delimiters : List Char := [',', '"', '=', ' ', '\t']

theorem not_mem_delimiters {c : Char} (h : isTokenChar c = true) : c ∉ delimiters := by
  intro hc
  have hnone : (delimiters.all fun c => !isTokenChar c) = true := by decide
  have := List.all_eq_true.mp hnone c hc
  rw [h] at this
  cases this

/-- The letters of a token in another case are none of them. -/
theorem spelled_not_mem_delimiters {s name : Str} (hs : IsToken s)
    (h : asciiIequals name s = true) : name ≠ [] ∧ ∀ c ∈ name, c ∉ delimiters := by
  refine ⟨?_, fun c hc hdelim => ?_⟩
  · rintro rfl
    exact hs.1 (List.length_eq_zero_iff.mp (length_eq_of_asciiIequals h).symm)
  · have hfixed : (delimiters.all fun c => c.toLower == c && !c.isLower) = true := by decide
    obtain ⟨hself, hletter⟩ : c.toLower = c ∧ c.isLower = false := by
      simpa using List.all_eq_true.mp hfixed c hdelim
    exact not_mem_delimiters (hs.2 c (mem_of_asciiIequals h hself hletter hc)) hdelim

theorem isOws_of_not_mem_delimiters {c : Char} (h : c ∉ delimiters) : isOws c = false := by
  rw [← Bool.not_eq_true, isOws, Bool.or_eq_true, beq_iff_eq, beq_iff_eq]
  rintro (rfl | rfl)
  · exact h (by decide)
  · exact h (by decide)

/-! ### Where directives end -/

/-- A text that the scan for commas passes over as a whole. -/
def PassedOver (text : Str) : Prop :=
  ∀ current rest, splitQuoted false false current (text ++ rest) =
    splitQuoted false false (current ++ text) rest

theorem PassedOver.append {s t : Str} (hs : PassedOver s) (ht : PassedOver t) :
    PassedOver (s ++ t) := by
  intro current rest
  rw [List.append_assoc, hs, ht, List.append_assoc]

theorem passedOver_of_forall {s : Str} (h : ∀ c ∈ s, c ≠ ',' ∧ c ≠ '"') : PassedOver s := by
  induction s with
  | nil =>
    intro current rest
    rw [List.append_nil]
    rfl
  | cons c s ih =>
    intro current rest
    obtain ⟨hcomma, hquote⟩ := h c List.mem_cons_self
    rw [List.cons_append, splitQuoted, if_neg hquote, if_neg hcomma,
      ih fun c hc => h c (List.mem_cons_of_mem _ hc)]
    simp

theorem splitQuoted_quotes {text body : Str} (h : Quotes text body) (current rest : Str) :
    splitQuoted true false current (body ++ '"' :: rest) =
      splitQuoted false false (current ++ (body ++ ['"'])) rest := by
  induction h generalizing current with
  | nil => rfl
  | plain c hquote hslash _ ih =>
    have hopen : (c != '"') = true := bne_iff_ne.mpr hquote
    have hplain : (c == '\\') = false := beq_eq_false_iff_ne.mpr hslash
    rw [List.cons_append, splitQuoted, hopen, hplain, ih]
    simp
  | escaped c _ ih =>
    change splitQuoted true true (current ++ ['\\']) (c :: (_ ++ '"' :: rest)) = _
    rw [splitQuoted, ih]
    simp

theorem passedOver_quoted {text body : Str} (h : Quotes text body) :
    PassedOver ('"' :: body ++ ['"']) := by
  intro current rest
  rw [List.append_assoc, List.cons_append, splitQuoted, if_pos rfl,
    List.singleton_append, splitQuoted_quotes h]
  simp

theorem passedOver_of_not_mem_delimiters {s : Str} (h : ∀ c ∈ s, c ∉ delimiters) :
    PassedOver s := by
  apply passedOver_of_forall
  intro c hc
  constructor
  · rintro rfl
    exact h _ hc (by decide)
  · rintro rfl
    exact h _ hc (by decide)

theorem Blank.passedOver {s : Str} (h : Blank s) : PassedOver s := by
  apply passedOver_of_forall
  intro c hc
  constructor
  · rintro rfl
    exact absurd (h _ hc) (by decide)
  · rintro rfl
    exact absurd (h _ hc) (by decide)

theorem WritesArgument.passedOver {text body : Str} (h : WritesArgument text body) :
    PassedOver body := by
  cases h with
  | token htoken =>
    exact passedOver_of_not_mem_delimiters fun c hc => not_mem_delimiters (htoken.2 c hc)
  | quoted hquotes => exact passedOver_quoted hquotes

theorem WritesDirective.passedOver {d : Directive} {text : Str} (h : WritesDirective d text) :
    PassedOver text := by
  cases h with
  | bare _ hname =>
    exact passedOver_of_not_mem_delimiters (spelled_not_mem_delimiters d.name_token hname).2
  | argument _ hname hleft hright hbody =>
    have hspelled :=
      passedOver_of_not_mem_delimiters (spelled_not_mem_delimiters d.name_token hname).2
    have hequals : PassedOver ['='] := passedOver_of_forall (by simp)
    have := ((hspelled.append hleft.passedOver).append hequals).append
      (hright.passedOver.append hbody.passedOver)
    rwa [List.append_assoc, List.singleton_append] at this

theorem WritesElement.passedOver {ds : List Directive} {text : Str} (h : WritesElement ds text) :
    PassedOver text := by
  cases h with
  | empty hblank => exact hblank.passedOver
  | directive hleft hright htext =>
    exact (hleft.passedOver.append htext.passedOver).append hright.passedOver

/-- The scan finds the elements of the list. -/
theorem WritesField.pieces {ds : List Directive} {field : Str} (h : WritesField ds field) :
    ∃ parts : List (List Directive), parts.flatten = ds ∧
      List.Forall₂ WritesElement parts (splitDirectives field) := by
  unfold splitDirectives
  induction h with
  | @element ds text helement =>
    have hsplit := helement.passedOver [] []
    rw [List.append_nil, List.nil_append, splitQuoted] at hsplit
    rw [hsplit]
    exact ⟨[ds], by simp, .cons helement .nil⟩
  | @comma ds rest text field helement _ ih =>
    obtain ⟨parts, hflat, hparts⟩ := ih
    have hsplit := helement.passedOver [] (',' :: field)
    rw [List.nil_append, splitQuoted, if_neg (by decide), if_pos rfl] at hsplit
    rw [hsplit]
    exact ⟨ds :: parts, by simp [hflat], .cons helement hparts⟩

/-! ### What a directive is read as -/

/-- The parsed directive is the written one up to the letter case of its name. -/
structure ReadAs (d : Directive) (p : ParsedDirective) : Prop where
  name : asciiIequals p.name d.name = true
  nonempty : p.name ≠ []
  argument : d.argument = if p.hasValue then some p.value else none
  valid : p.valueValid = true

theorem unquote_quotes {text body : Str} (h : Quotes text body)
    (htext : ∀ c ∈ text, isTextChar c = true) (value : Str) :
    unquote false value body = (value ++ text, true) := by
  induction h generalizing value with
  | nil => simp [unquote]
  | @plain text body c hquote hslash _ ih =>
    have hc := htext c List.mem_cons_self
    have hvisible : ¬ (c.toNat < 0x20 ∨ c.toNat = 0x7f) := by
      simp only [isTextChar, Bool.or_eq_true, Bool.and_eq_true, decide_eq_true_eq] at hc
      omega
    rw [unquote, if_neg hslash, if_neg hvisible,
      ih (fun c hc => htext c (List.mem_cons_of_mem _ hc)), List.append_assoc]
    rfl
  | @escaped text body c _ ih =>
    rw [unquote, if_pos rfl, unquote, ih (fun c hc => htext c (List.mem_cons_of_mem _ hc)),
      List.append_assoc]
    rfl

theorem tight_of_not_mem_delimiters {s : Str} (h : ∀ c ∈ s, c ∉ delimiters) : Tight isOws s :=
  tight_of_forall_not fun c hc => isOws_of_not_mem_delimiters (h c hc)

theorem WritesArgument.tight {text body : Str} (h : WritesArgument text body) :
    body ≠ [] ∧ Tight isOws body := by
  cases h with
  | token htoken =>
    exact ⟨htoken.1, tight_of_not_mem_delimiters fun c hc => not_mem_delimiters (htoken.2 c hc)⟩
  | quoted =>
    have hquote : Tight isOws ['"'] := tight_of_forall_not (by simp [isOws])
    exact ⟨by simp, hquote.between hquote (by simp) (by simp) _⟩

/-- What `parse_directive` makes of the text behind the equals sign. -/
theorem WritesArgument.parse {text body : Str} (h : WritesArgument text body)
    (htext : ∀ c ∈ text, isTextChar c = true) {raw name rest : Str}
    (hraw : trimOws raw = name ++ '=' :: rest) (hname : '=' ∉ name) (hrest : trimOws rest = body) :
    parseDirective raw = ⟨trimOws name, text, true, true⟩ := by
  have htake : (name ++ '=' :: rest).take name.length = name := by simp
  have hdrop : (name ++ '=' :: rest).drop (name.length + 1) = rest := by simp
  unfold parseDirective
  dsimp only
  rw [hraw, find_append_cons hname]
  dsimp only
  rw [htake, hdrop, hrest, if_neg h.tight.1]
  cases h with
  | token htoken =>
    have hquote : text.head? ≠ some '"' := by
      intro hhead
      exact not_mem_delimiters (htoken.2 _ (List.mem_of_mem_head? hhead)) (by decide)
    rw [if_pos hquote]
  | @quoted inside hquotes =>
    have hinside : ((('"' :: inside ++ ['"']).drop 1).dropLast) = inside := by simp
    have hclosed : ¬ (('"' :: inside ++ ['"']).length < 2 ∨
        ('"' :: inside ++ ['"']).getLast? ≠ some '"') := by
      rw [List.getLast?_concat]
      simp
    rw [if_neg (by simp), if_neg hclosed, hinside, unquote_quotes hquotes htext]
    rfl

theorem WritesDirective.readAs {d : Directive} {left text right : Str} (hleft : Blank left)
    (hright : Blank right) (h : WritesDirective d text) :
    ReadAs d (parseDirective (left ++ text ++ right)) := by
  cases h with
  | bare hnone hname =>
    obtain ⟨hne, hspelled⟩ := spelled_not_mem_delimiters d.name_token hname
    have htight := tight_of_not_mem_delimiters hspelled
    have htrim : trimOws (left ++ text ++ right) = text := trim_pad hleft hright htight
    have hfind : find text '=' = none := find_eq_none.mpr fun hc => hspelled _ hc (by decide)
    have hparse : parseDirective (left ++ text ++ right) = { name := text } := by
      unfold parseDirective
      dsimp only
      rw [htrim, hfind]
      exact congrArg (fun name => ({ name := name } : ParsedDirective)) htight.trim
    rw [hparse]
    exact ⟨hname, hne, hnone, rfl⟩
  | @argument name value left' right' body hsome hname hleft' hright' hbody =>
    obtain ⟨hne, hspelled⟩ := spelled_not_mem_delimiters d.name_token hname
    have htight := tight_of_not_mem_delimiters hspelled
    have htrim : trimOws (left ++ (name ++ left' ++ '=' :: (right' ++ body)) ++ right) =
        name ++ left' ++ '=' :: (right' ++ body) := by
      apply trim_pad hleft hright
      have := htight.between hbody.tight.2 hne hbody.tight.1 (left' ++ '=' :: right')
      simpa using this
    have hequals : '=' ∉ name ++ left' := by
      rw [List.mem_append, not_or]
      exact ⟨fun hc => hspelled _ hc (by decide), fun hc => absurd (hleft' _ hc) (by decide)⟩
    have hname' : trimOws (name ++ left') = name :=
      trim_pad (l := []) (by simp) hleft' htight
    have hbody' : trimOws (right' ++ body) = body := by
      have := trim_pad (r := []) hright' (by simp) hbody.tight.2
      rwa [List.append_nil] at this
    rw [hbody.parse (d.argument_text value hsome) htrim hequals hbody', hname']
    exact ⟨hname, hne, hsome, rfl⟩

/-- An empty element is read as a directive without a name. -/
theorem parseDirective_blank {blank : Str} (h : Blank blank) :
    parseDirective blank = {} := by
  have htrim : trimOws blank = [] := trim_blank h
  unfold parseDirective
  dsimp only
  rw [htrim]
  rfl

/-- The directives with a name are read as the written ones, in order. -/
def ReadsAs (ds : List Directive) (ps : List ParsedDirective) : Prop :=
  List.Forall₂ ReadAs ds (ps.filter fun p => p.name ≠ [])

theorem ReadsAs.append {ds es : List Directive} {ps qs : List ParsedDirective}
    (h : ReadsAs ds ps) (h' : ReadsAs es qs) : ReadsAs (ds ++ es) (ps ++ qs) := by
  unfold ReadsAs
  rw [List.filter_append]
  exact List.rel_append h h'

theorem WritesElement.readsAs {ds : List Directive} {text : Str} (h : WritesElement ds text) :
    ReadsAs ds [parseDirective text] := by
  cases h with
  | empty hblank =>
    rw [parseDirective_blank hblank]
    exact .nil
  | directive hleft hright htext =>
    have hread := htext.readAs hleft hright
    unfold ReadsAs
    rw [List.filter_cons_of_pos (by simpa using hread.nonempty)]
    exact .cons hread .nil

theorem readsAs_flatten {α : Type*} {R : List Directive → α → Prop} {f : α → List ParsedDirective}
    (hf : ∀ ds a, R ds a → ReadsAs ds (f a)) {parts : List (List Directive)} {texts : List α}
    (h : List.Forall₂ R parts texts) : ReadsAs parts.flatten (texts.flatMap f) := by
  induction h with
  | nil => exact .nil
  | cons hd _ ih => exact (hf _ _ hd).append ih

theorem WritesField.readsAs {ds : List Directive} {field : Str} (h : WritesField ds field) :
    ReadsAs ds ((splitDirectives field).map parseDirective) := by
  obtain ⟨parts, rfl, hparts⟩ := h.pieces
  rw [List.map_eq_flatMap]
  exact readsAs_flatten (fun _ _ h => WritesElement.readsAs h) hparts

theorem Writes.readsAs {ds : List Directive} {headers : HeaderList} (h : Writes ds headers) :
    ReadsAs ds (cacheDirectives headers) := by
  obtain ⟨parts, rfl, hparts⟩ := h
  unfold cacheDirectives
  rw [List.map_flatMap]
  exact readsAs_flatten (fun _ _ h => WritesField.readsAs h) hparts

/-! ### Numbers -/

theorem deltaDigits_eq_none {s : Str} (h : ∃ c ∈ s, c.isDigit = false) (result : ℕ)
    (saturated : Bool) : deltaDigits result saturated s = none := by
  induction s generalizing result saturated with
  | nil =>
    obtain ⟨c, hc, -⟩ := h
    cases hc
  | cons c rest ih =>
    rw [deltaDigits]
    by_cases hdigit : c.isDigit = false
    · rw [if_pos hdigit]
    · have hrest : ∃ d ∈ rest, d.isDigit = false := by
        obtain ⟨d, hd, hbad⟩ := h
        rcases List.mem_cons.mp hd with rfl | hd
        · exact absurd hbad hdigit
        · exact ⟨d, hd, hbad⟩
      rw [if_neg hdigit]
      dsimp only
      split_ifs
      · exact ih hrest _ _
      · exact ih hrest _ _
      · exact ih hrest _ _

/-- Without tabs the blanks around a number are spaces. -/
theorem parseDeltaSeconds_eq_numeral {text : Str} (h : ∀ c ∈ text, isTextChar c = true) :
    parseDeltaSeconds text = numeral text := by
  have hblank : ∀ c ∈ text, isOws c = (c == ' ') := by
    intro c hc
    have htab : c ≠ '\t' := by
      rintro rfl
      exact absurd (h _ hc) (by decide)
    rw [isOws, beq_eq_false_iff_ne.mpr htab, Bool.or_false]
  have htrim : trimOws text = trim (· == ' ') text := trim_congr hblank
  unfold parseDeltaSeconds numeral
  dsimp only
  rw [htrim]
  by_cases hempty : trim (· == ' ') text = []
  · rw [if_pos hempty, if_neg (fun hboth => hboth.1 hempty)]
  rw [if_neg hempty]
  by_cases hdigits : (trim (· == ' ') text).all Char.isDigit = true
  · rw [if_pos ⟨hempty, hdigits⟩, deltaDigits_eq (List.all_eq_true.mp hdigits) (Nat.zero_le _)]
    rfl
  · rw [if_neg (fun hboth => hdigits hboth.2)]
    apply deltaDigits_eq_none
    simpa using hdigits

theorem ReadAs.seconds {d : Directive} {p : ParsedDirective} (h : ReadAs d p) :
    p.seconds = d.number := by
  unfold ParsedDirective.seconds Directive.number
  rw [h.argument]
  by_cases hvalue : p.hasValue = true
  · rw [if_pos ⟨hvalue, h.valid⟩, if_pos hvalue]
    apply parseDeltaSeconds_eq_numeral
    apply d.argument_text
    rw [h.argument, if_pos hvalue]
    rfl
  · rw [if_neg (fun hboth => hvalue hboth.1), if_neg hvalue]
    rfl

theorem ReadAs.isNamed {d : Directive} {p : ParsedDirective} (h : ReadAs d p) (name : Str) :
    asciiIequals p.name name = true ↔ d.IsNamed name := by
  rw [asciiIequals_congr h.name]
  rfl

/-! ### The meaning of what was written -/

section readsAs

variable {ds : List Directive} {ps : List ParsedDirective} {name : Str}

/-- A directive without a name has none of the names the parser knows. -/
theorem withName_filter (hname : name ∈ knownNames) :
    withName name ps = withName name (ps.filter fun p => p.name ≠ []) := by
  unfold withName
  rw [List.filter_filter]
  apply List.filter_congr
  intro p _
  by_cases hempty : p.name = []
  · rw [hempty, asciiIequals_empty hname]
    rfl
  · simp [hempty]

/-- The directives of a name are read one by one. -/
theorem ReadsAs.withName (h : ReadsAs ds ps) (hname : name ∈ knownNames) :
    List.Forall₂ ReadAs (ds.filter (·.IsNamed name)) (withName name ps) := by
  rw [withName_filter hname]
  unfold KatHttp3.withName
  apply List.rel_filter _ h
  intro d p hread
  simpa using (hread.isNamed name).symm

theorem ReadsAs.numbers (h : ReadsAs ds ps) (hname : name ∈ knownNames) :
    numbers name ps = (ds.filter (·.IsNamed name)).filterMap Directive.number := by
  have hsame := h.withName hname
  unfold KatHttp3.numbers
  generalize ds.filter (·.IsNamed name) = named, KatHttp3.withName name ps = found at hsame ⊢
  induction hsame with
  | nil => rfl
  | cons hread _ ih => rw [List.filterMap_cons, List.filterMap_cons, hread.seconds, ih]

theorem ReadsAs.exists_iff (h : ReadsAs ds ps) (hname : name ∈ knownNames)
    {P : Directive → Prop} {Q : ParsedDirective → Prop}
    (hPQ : ∀ d p, ReadAs d p → (Q p ↔ P d)) :
    (∃ p ∈ KatHttp3.withName name ps, Q p) ↔ ∃ d ∈ ds, d.IsNamed name ∧ P d := by
  have hsame := h.withName hname
  have hfilter : (∃ d ∈ ds, d.IsNamed name ∧ P d) ↔ ∃ d ∈ ds.filter (·.IsNamed name), P d := by
    simp [and_assoc]
  rw [hfilter]
  generalize ds.filter (·.IsNamed name) = named, KatHttp3.withName name ps = found at hsame ⊢
  induction hsame with
  | nil => simp
  | cons hread _ ih => simp [hPQ _ _ hread, ih]

theorem ReadsAs.occurs_iff (h : ReadsAs ds ps) (hname : name ∈ knownNames) :
    occurs name ps = true ↔ ∃ d ∈ ds, d.IsNamed name := by
  have := h.exists_iff hname (P := fun _ => True) (Q := fun _ => True) (by simp)
  simpa [occurs, KatHttp3.withName] using this

theorem ReadsAs.malformed_iff (h : ReadsAs ds ps) (hname : name ∈ knownNames) :
    malformed name ps = true ↔ ∃ d ∈ ds, d.IsNamed name ∧ d.number = none := by
  rw [malformed, List.any_eq_true]
  apply h.exists_iff hname
  intro d p hread
  rw [hread.seconds, Option.isNone_iff_eq_none]

end readsAs

/-- Every way of writing directives down is read as their meaning. -/
theorem parseCacheControl_means {ds : List Directive} {headers : HeaderList}
    (h : Writes ds headers) : Means ds (parseCacheControl headers) := by
  have hreads := h.readsAs
  rw [parseCacheControl_eq_meaning]
  exact {
    noStore := hreads.occurs_iff (by decide)
    noCache := hreads.occurs_iff (by decide)
    mustRevalidate := hreads.occurs_iff (by decide)
    isPrivate := hreads.occurs_iff (by decide)
    maxAge := congrArg List.head? (hreads.numbers (by decide))
    staleIfError := congrArg List.head? (hreads.numbers (by decide))
    invalid := by
      change (malformed _ _ || malformed _ _) = true ↔ _
      rw [Bool.or_eq_true, hreads.malformed_iff (by decide), hreads.malformed_iff (by decide)]
      simp only [or_and_right, and_or_left, exists_or]
    conflictingMaxAge := by
      change disagree (numbers _ _) = true ↔ _
      rw [hreads.numbers (by decide), disagree_eq_true_iff]
      simp only [List.mem_filterMap, List.mem_filter, decide_eq_true_eq]
      constructor
      · rintro ⟨m, ⟨d, ⟨hd, hdn⟩, hm⟩, n, ⟨e, ⟨he, hen⟩, hn⟩, hne⟩
        exact ⟨d, hd, e, he, hdn, hen, m, hm, n, hn, hne⟩
      · rintro ⟨d, hd, e, he, hdn, hen, m, hm, n, hn, hne⟩
        exact ⟨m, ⟨d, ⟨hd, hdn⟩, hm⟩, n, ⟨e, ⟨he, hen⟩, hn⟩, hne⟩ }

/-- A directive whose argument looks like two others. -/
def quotedPrivate : Directive where
  name := "private".toList
  argument := some "a, no-store".toList
  name_token := ⟨by decide, List.all_eq_true.mp (by decide)⟩
  argument_text text htext := by cases htext; exact List.all_eq_true.mp (by decide)

def sixtySeconds : Directive where
  name := "max-age".toList
  argument := some "60".toList
  name_token := ⟨by decide, List.all_eq_true.mp (by decide)⟩
  argument_text text htext := by cases htext; exact List.all_eq_true.mp (by decide)

def quotedHeaders : HeaderList :=
  [⟨"cache-control".toList, "Private=\"a, n\\o-store\" , ".toList⟩,
    ⟨"Cache-Control".toList, "MAX-AGE = 60".toList⟩]

theorem parseCacheControl_quotedHeaders :
    Writes [quotedPrivate, sixtySeconds] quotedHeaders ∧
      Means [quotedPrivate, sixtySeconds] (parseCacheControl quotedHeaders) := by
  have hnothing : Blank [] := by
    intro c hc
    cases hc
  have hspace : Blank [' '] := List.all_eq_true.mp (by decide)
  have hquotes : Quotes "a, no-store".toList "a, n\\o-store".toList := by
    apply Quotes.plain 'a' (by decide) (by decide)
    apply Quotes.plain ',' (by decide) (by decide)
    apply Quotes.plain ' ' (by decide) (by decide)
    apply Quotes.plain 'n' (by decide) (by decide)
    apply Quotes.escaped 'o'
    apply Quotes.plain '-' (by decide) (by decide)
    apply Quotes.plain 's' (by decide) (by decide)
    apply Quotes.plain 't' (by decide) (by decide)
    apply Quotes.plain 'o' (by decide) (by decide)
    apply Quotes.plain 'r' (by decide) (by decide)
    exact Quotes.plain 'e' (by decide) (by decide) .nil
  have hprivate : WritesDirective quotedPrivate "Private=\"a, n\\o-store\"".toList :=
    @WritesDirective.argument quotedPrivate "Private".toList _ [] [] _ rfl (by decide) hnothing
      hnothing (.quoted hquotes)
  have hage : WritesDirective sixtySeconds "MAX-AGE = 60".toList :=
    @WritesDirective.argument sixtySeconds "MAX-AGE".toList _ [' '] [' '] _ rfl (by decide) hspace
      hspace (.token ⟨by decide, List.all_eq_true.mp (by decide)⟩)
  have hfirst : WritesField [quotedPrivate] "Private=\"a, n\\o-store\" , ".toList :=
    .comma (@WritesElement.directive _ [] _ [' '] hnothing hspace hprivate)
      (.element (.empty hspace))
  have hsecond : WritesField [sixtySeconds] "MAX-AGE = 60".toList :=
    .element (@WritesElement.directive _ [] _ [] hnothing hnothing hage)
  have hwrites : Writes [quotedPrivate, sixtySeconds] quotedHeaders :=
    ⟨[[quotedPrivate], [sixtySeconds]], rfl, .cons hfirst (.cons hsecond .nil)⟩
  exact ⟨hwrites, parseCacheControl_means hwrites⟩

end KatHttp3
