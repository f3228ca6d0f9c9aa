import KatHttp3.Cache.ResponseCache
import KatHttp3.Cookies.CookieDate
import KatHttp3.Url.Parse
import Mathlib.Data.List.Sort

/-!
# The cookie jar

`cookie_jar.cc`: how a Set-Cookie field becomes a cookie, where the jar puts it
and which cookies it gives for a URL. An operation reads the clock once.
-/

namespace KatHttp3

open Str

structure Cookie where
  name : Str
  value : Str
  domain : Str := []
  path : Str := "/".toList
  secure : Bool := false
  httpOnly : Bool := false
  hostOnly : Bool := true
  persistent : Bool := false
  expiry : ℕ := 0
  deriving DecidableEq

/-- The content of a jar, in the order of creation. -/
abbrev Cookies := List Cookie

def validCookieToken (value : Str) : Bool :=
  value != [] && value.all fun c =>
    !(c.toNat ≤ 0x20 || c.toNat == 0x7f || c == ';' || c == ',' || c == '=')

def ipLiteral (net : InetPton) (host : Str) : Bool := net.afInet host || net.afInet6 host

def defaultPath (url : Url) : Str :=
  if url.path.head? ≠ some '/' then "/".toList
  else
    match rfind url.path '/' with
    | some 0 => "/".toList
    | none => "/".toList
    | some slash => url.path.take slash

def domainMatches (cookieDomain : Str) (hostOnly : Bool) (host : Str) : Bool :=
  let h := asciiLower host
  let cd := asciiLower cookieDomain
  if cd = [] then false
  else if hostOnly then h == cd
  else
    let cd := if cd.head? = some '.' then cd.drop 1 else cd
    h == cd ||
      (decide (cd.length < h.length) && h[h.length - cd.length - 1]? == some '.' &&
        h.drop (h.length - cd.length) == cd)

def pathMatches (cookiePath reqPath : Str) : Bool :=
  cookiePath == [] ||
    (startsWith reqPath cookiePath &&
      (cookiePath.getLast? == some '/' || reqPath.length == cookiePath.length ||
        reqPath[cookiePath.length]? == some '/'))

/-! ### Set-Cookie -/

/-- `std::from_chars` into an `int64_t`, with the test that it consumed the whole string. -/
def fromCharsInt64 : Str → Option ℤ
  | '-' :: digits => (fromChars (2 ^ 63) digits).map fun n => -(n : ℤ)
  | digits => (fromChars (2 ^ 63 - 1) digits).map fun n => (n : ℤ)

/-- The expiry after `seconds` more seconds. -/
def maxAgeExpiry (now seconds : ℕ) : ℕ :=
  if 2 ^ 64 - 1 - now < seconds then 2 ^ 64 - 1 else now + seconds

section

variable (net : InetPton) (url : Url) (now : Option ℕ)

/-- One attribute of a Set-Cookie field, with a mark once a Max-Age has been
seen. Some attributes have the whole field ignored. -/
def readAttribute (c : Cookie × Bool) (text : Str) : Option (Cookie × Bool) :=
  let attr := trimOws text
  let aeq := find attr '='
  let an := asciiLower (trimOws (upTo attr aeq))
  let av := trimOws (startingAt attr (aeq.map (· + 1)))
  if an = "domain".toList then
    let domain := if av.head? = some '.' then av.drop 1 else av
    if domain = [] ∨ ipLiteral net url.host then none
    else some ({ c.1 with domain := domain, hostOnly := false }, c.2)
  else if an = "path".toList then
    some ({ c.1 with path := if av.head? = some '/' then av else defaultPath url }, c.2)
  else if an = "secure".toList then some ({ c.1 with secure := true }, c.2)
  else if an = "httponly".toList then some ({ c.1 with httpOnly := true }, c.2)
  else if an = "max-age".toList then
    match fromCharsInt64 av with
    | none => some c
    | some seconds =>
      if seconds ≤ 0 then some ({ c.1 with persistent := true, expiry := 1 }, true)
      else
        now.map fun now =>
          ({ c.1 with persistent := true, expiry := maxAgeExpiry now seconds.toNat }, true)
  else if an = "expires".toList then
    if c.2 then some c
    else
      match parseCookieExpiry av now with
      | none => some c
      | some expiry => some ({ c.1 with persistent := true, expiry := expiry }, c.2)
  else some c

/-- The name and the value of a Set-Cookie field. -/
def readPair (first : Str) : Option Cookie :=
  match find first '=' with
  | none => none
  | some eq =>
    let name := trimOws (first.take eq)
    let value := trimOws (first.drop (eq + 1))
    if validCookieToken name = false ∨ findFirstOf value "\r\n;".toList ≠ none then none
    else some { name := name, value := value, path := defaultPath url }

/-- The cookie of a Set-Cookie field that the URL may set. -/
def readSetCookie (setCookie : Str) : Option Cookie :=
  let semi := find setCookie ';'
  match readPair url (trimOws (upTo setCookie semi)) with
  | none => none
  | some c =>
    let attributes := (startingAt setCookie (semi.map (· + 1))).splitOn ';'
    match attributes.foldlM (readAttribute net url now) (c, false) with
    | none => none
    | some (c, _) =>
      let c := if c.domain = [] then { c with domain := url.host, hostOnly := true } else c
      if domainMatches c.domain c.hostOnly url.host then some c else none

end

/-! ### The jar -/

namespace Cookie

/-- The cookie that a new one replaces. -/
def sameIdentity (c existing : Cookie) : Bool :=
  existing.name == c.name && existing.domain == c.domain && existing.path == c.path

def expired (now : Option ℕ) (c : Cookie) : Bool :=
  c.persistent && c.expiry != 0 && now.any (c.expiry ≤ ·)

/-- Whether a cookie that has not been erased goes with a request for the URL. -/
def selectedFor (url : Url) (now : Option ℕ) (c : Cookie) : Bool :=
  !(c.persistent && now.isNone) && !(c.secure && url.scheme != "https".toList) &&
    domainMatches c.domain c.hostOnly url.host &&
    pathMatches c.path (if url.path = [] then "/".toList else url.path)

def pair (c : Cookie) : Str := c.name ++ '=' :: c.value

end Cookie

namespace Cookies

def insert (cookies : Cookies) (c : Cookie) : Cookies :=
  match cookies.findIdx? c.sameIdentity with
  | some i => cookies.set i c
  | none =>
    if 50 ≤ cookies.countP (·.domain == c.domain) then cookies
    else if 300 ≤ cookies.length then cookies.drop 1 ++ [c]
    else cookies ++ [c]

/-- One Set-Cookie field. -/
def storeField (net : InetPton) (url : Url) (now : Option ℕ) (cookies : Cookies)
    (setCookie : Str) : Cookies :=
  match readSetCookie net url now setCookie with
  | none => cookies
  | some c => cookies.insert c

def store (net : InetPton) (cookies : Cookies) (url : Url) (headers : HeaderList)
    (now : ClockReading) : Cookies :=
  (headers.getAll "set-cookie".toList).foldl (storeField net url now.wall) cookies

/-- The cookies for a URL: the longer paths first, else in the order of creation. -/
def selection (cookies : Cookies) (url : Url) (now : Option ℕ) : Cookies :=
  (cookies.filter (·.selectedFor url now)).insertionSort fun lhs rhs =>
    rhs.path.length ≤ lhs.path.length

/-- The value of the Cookie field for a URL. Expired cookies are erased. -/
def cookieHeader (cookies : Cookies) (url : Url) (now : ClockReading) : Cookies × Str :=
  let cookies : Cookies := cookies.filter (!·.expired now.wall)
  (cookies, List.intercalate "; ".toList ((cookies.selection url now.wall).map Cookie.pair))

end Cookies

/-! ### What goes into a jar and what comes out -/

/-- A name that is a token and a value without line breaks and semicolons. -/
structure Cookie.WellFormed (c : Cookie) : Prop where
  name : validCookieToken c.name = true
  value : ∀ ch ∈ c.value, ch ∉ "\r\n;".toList

theorem Cookie.WellFormed.congr {c c' : Cookie} (h : c.WellFormed) (hname : c'.name = c.name)
    (hvalue : c'.value = c.value) : c'.WellFormed := by
  refine ⟨?_, ?_⟩
  · rw [hname]
    exact h.name
  · rw [hvalue]
    exact h.value

theorem Cookie.WellFormed.pair_noBreak {c : Cookie} (h : c.WellFormed) :
    ∀ ch ∈ c.pair, ch ≠ '\r' ∧ ch ≠ '\n' := by
  intro ch hch
  rcases List.mem_append.mp hch with hname | hvalue
  · have htoken := h.name
    simp only [validCookieToken, Bool.and_eq_true, List.all_eq_true] at htoken
    have hvalid := htoken.2 ch hname
    constructor
    · rintro rfl
      exact absurd hvalid (by decide)
    · rintro rfl
      exact absurd hvalid (by decide)
  · rcases List.mem_cons.mp hvalue with rfl | hvalue
    · decide
    · have hne := h.value ch hvalue
      simp only [String.reduceToList, List.mem_cons, List.not_mem_nil, or_false, not_or] at hne
      exact ⟨hne.1, hne.2.1⟩

variable {net : InetPton} {url : Url}

theorem readPair_wellFormed {first : Str} {c : Cookie} (h : readPair url first = some c) :
    c.WellFormed := by
  unfold readPair at h
  split at h
  · cases h
  · dsimp only at h
    split_ifs at h with hbad
    push Not at hbad
    cases h
    exact ⟨by simpa using hbad.1, findFirstOf_eq_none.mp hbad.2⟩

/-- An attribute changes neither the name nor the value. -/
theorem readAttribute_pair {now : Option ℕ} {c c' : Cookie × Bool} {text : Str}
    (h : readAttribute net url now c text = some c') :
    c'.1.name = c.1.name ∧ c'.1.value = c.1.value := by
  unfold readAttribute at h
  dsimp only at h
  split at h
  · split_ifs at h
    · cases h
      exact ⟨rfl, rfl⟩
    · cases h
      exact ⟨rfl, rfl⟩
  split at h
  · cases h
    exact ⟨rfl, rfl⟩
  split at h
  · cases h
    exact ⟨rfl, rfl⟩
  split at h
  · cases h
    exact ⟨rfl, rfl⟩
  split at h
  · split at h
    · cases h
      exact ⟨rfl, rfl⟩
    · split_ifs at h
      · cases h
        exact ⟨rfl, rfl⟩
      · obtain ⟨seconds, -, rfl⟩ := Option.map_eq_some_iff.mp h
        exact ⟨rfl, rfl⟩
  split at h
  · split_ifs at h
    · cases h
      exact ⟨rfl, rfl⟩
    · split at h
      · cases h
        exact ⟨rfl, rfl⟩
      · cases h
        exact ⟨rfl, rfl⟩
  · cases h
    exact ⟨rfl, rfl⟩

/-- What every attribute preserves, all of them preserve. -/
theorem readAttributes_induction {now : Option ℕ} {c c' : Cookie × Bool} {texts : List Str}
    {P : Cookie × Bool → Prop} (h : texts.foldlM (readAttribute net url now) c = some c')
    (hread : ∀ {c₁ c₂ text}, readAttribute net url now c₁ text = some c₂ → P c₁ → P c₂)
    (hc : P c) : P c' := by
  induction texts generalizing c with
  | nil =>
    cases h
    exact hc
  | cons text texts ih =>
    rw [List.foldlM_cons] at h
    obtain ⟨c₁, hfirst, hrest⟩ := Option.bind_eq_some_iff.mp h
    exact ih hrest (hread hfirst hc)

theorem readAttributes_pair {now : Option ℕ} {c c' : Cookie × Bool} {texts : List Str}
    (h : texts.foldlM (readAttribute net url now) c = some c') :
    c'.1.name = c.1.name ∧ c'.1.value = c.1.value := by
  apply readAttributes_induction (P := fun x => x.1.name = c.1.name ∧ x.1.value = c.1.value) h
  · rintro c₁ c₂ text hread ⟨hname, hvalue⟩
    obtain ⟨hname', hvalue'⟩ := readAttribute_pair hread
    exact ⟨hname'.trans hname, hvalue'.trans hvalue⟩
  · exact ⟨rfl, rfl⟩

/-- The steps of reading a field that becomes a cookie. -/
theorem readSetCookie_eq_some {now : Option ℕ} {setCookie : Str} {c : Cookie}
    (h : readSetCookie net url now setCookie = some c) :
    ∃ first parsed seen,
      readPair url (trimOws (upTo setCookie (find setCookie ';'))) = some first ∧
      ((startingAt setCookie ((find setCookie ';').map (· + 1))).splitOn ';').foldlM
        (readAttribute net url now) (first, false) = some (parsed, seen) ∧
      c = (if parsed.domain = [] then { parsed with domain := url.host, hostOnly := true }
        else parsed) ∧
      domainMatches c.domain c.hostOnly url.host = true := by
  unfold readSetCookie at h
  dsimp only at h
  split at h
  · cases h
  · rename_i first hfirst
    split at h
    · cases h
    · rename_i parsed seen hparsed
      rw [Option.ite_none_right_eq_some] at h
      obtain ⟨hmatched, hc⟩ := h
      cases hc
      exact ⟨first, parsed, seen, hfirst, hparsed, rfl, hmatched⟩

theorem readSetCookie_wellFormed {now : Option ℕ} {setCookie : Str} {c : Cookie}
    (h : readSetCookie net url now setCookie = some c) : c.WellFormed := by
  obtain ⟨first, parsed, seen, hfirst, hparsed, rfl, -⟩ := readSetCookie_eq_some h
  obtain ⟨hname, hvalue⟩ := readAttributes_pair hparsed
  have hgood : parsed.WellFormed := (readPair_wellFormed hfirst).congr hname hvalue
  split_ifs
  · exact hgood.congr rfl rfl
  · exact hgood

namespace Cookies

variable {cookies : Cookies}

/-- A jar of well-formed cookies. -/
def WellFormed (cookies : Cookies) : Prop := ∀ c ∈ cookies, c.WellFormed

theorem mem_insert {c x : Cookie} (h : x ∈ cookies.insert c) : x = c ∨ x ∈ cookies := by
  unfold insert at h
  split at h
  · exact (List.mem_or_eq_of_mem_set h).symm
  · split_ifs at h
    · exact Or.inr h
    · rcases List.mem_append.mp h with h | h
      · exact Or.inr (List.mem_of_mem_drop h)
      · exact Or.inl (List.mem_singleton.mp h)
    · rcases List.mem_append.mp h with h | h
      · exact Or.inr h
      · exact Or.inl (List.mem_singleton.mp h)

theorem WellFormed.storeField {now : Option ℕ} (h : cookies.WellFormed) (setCookie : Str) :
    (cookies.storeField net url now setCookie).WellFormed := by
  unfold Cookies.storeField
  split
  · exact h
  · rename_i c hread
    intro x hx
    rcases mem_insert hx with rfl | hx
    · exact readSetCookie_wellFormed hread
    · exact h x hx

theorem WellFormed.store {headers : HeaderList} {now : ClockReading} (h : cookies.WellFormed) :
    (cookies.store net url headers now).WellFormed := by
  unfold Cookies.store
  generalize headers.getAll "set-cookie".toList = fields
  induction fields generalizing cookies with
  | nil => exact h
  | cons field fields ih => exact ih (h.storeField field)

theorem WellFormed.cookieHeader {now : ClockReading} (h : cookies.WellFormed) :
    (cookies.cookieHeader url now).1.WellFormed :=
  fun c hc => h c (List.mem_filter.mp hc).1

theorem mem_selection {now : Option ℕ} {c : Cookie} :
    c ∈ cookies.selection url now ↔ c ∈ cookies ∧ c.selectedFor url now = true := by
  rw [selection, List.mem_insertionSort, List.mem_filter]

theorem join_eq_nil_iff {cs : Cookies} :
    List.intercalate "; ".toList (cs.map Cookie.pair) = [] ↔ cs = [] := by
  match cs with
  | [] => simp
  | [c] => simp [Cookie.pair]
  | c :: c' :: cs => simp [List.intercalate_cons_cons]

theorem mem_join {cs : Cookies} {ch : Char}
    (h : ch ∈ List.intercalate "; ".toList (cs.map Cookie.pair)) :
    ch = ';' ∨ ch = ' ' ∨ ∃ c ∈ cs, ch ∈ c.pair := by
  induction cs with
  | nil => simp at h
  | cons c cs ih =>
    cases cs with
    | nil =>
      rw [List.map_singleton, List.intercalate_singleton] at h
      exact Or.inr (Or.inr ⟨c, List.mem_singleton.mpr rfl, h⟩)
    | cons c' cs =>
      rw [List.map_cons, List.map_cons, List.intercalate_cons_cons, ← List.map_cons] at h
      rcases List.mem_append.mp h with h | h
      · rcases List.mem_append.mp h with h | h
        · exact Or.inr (Or.inr ⟨c, List.mem_cons_self, h⟩)
        · have hsep : ch = ';' ∨ ch = ' ' := by simpa using h
          exact hsep.imp_right Or.inl
      · rcases ih h with h | h | ⟨x, hx, hch⟩
        · exact Or.inl h
        · exact Or.inr (Or.inl h)
        · exact Or.inr (Or.inr ⟨x, List.mem_cons_of_mem _ hx, hch⟩)

/-- The field is absent only if the jar has no cookie for the URL. -/
theorem cookieHeader_eq_nil_iff {now : ClockReading} :
    (cookies.cookieHeader url now).2 = [] ↔
      ∀ c ∈ cookies, c.expired now.wall = true ∨ c.selectedFor url now.wall = false := by
  unfold cookieHeader
  dsimp only
  rw [join_eq_nil_iff, List.eq_nil_iff_forall_not_mem]
  simp only [mem_selection, List.mem_filter, not_and, Bool.not_eq_true]
  refine forall_congr' fun c => ?_
  cases c.expired now.wall <;> simp

/-- The field of a jar that was filled by `store` has no line break. -/
theorem cookieHeader_noBreak {now : ClockReading} (h : cookies.WellFormed) :
    ∀ ch ∈ (cookies.cookieHeader url now).2, ch ≠ '\r' ∧ ch ≠ '\n' := by
  intro ch hch
  rcases mem_join hch with rfl | rfl | ⟨c, hc, hch⟩
  · decide
  · decide
  · have hkept := (mem_selection.mp hc).1
    exact (h c (List.mem_filter.mp hkept).1).pair_noBreak ch hch

end Cookies

end KatHttp3
