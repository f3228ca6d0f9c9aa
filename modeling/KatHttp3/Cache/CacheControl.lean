import KatHttp3.Text.HeaderList

/-!
# Cache-Control

The directive parser of `cache_control.cc`. Commas inside quoted strings do
not separate directives, and numbers saturate at the largest 64-bit value.
-/

namespace KatHttp3

open Str

def maxUint64 : ℕ := 2 ^ 64 - 1

/-- The scan of `split_directives` and `split_comma_list`: the flags say whether
it is inside a quoted string and just behind a backslash there, `current` is
the piece read so far. -/
def splitQuoted : Bool → Bool → Str → Str → List Str
  | _, _, current, [] => [current]
  | true, true, current, ch :: rest => splitQuoted true false (current ++ [ch]) rest
  | true, false, current, ch :: rest =>
    splitQuoted (ch != '"') (ch == '\\') (current ++ [ch]) rest
  | false, escaped, current, ch :: rest =>
    if ch = '"' then splitQuoted true escaped (current ++ [ch]) rest
    else if ch = ',' then current :: splitQuoted false escaped [] rest
    else splitQuoted false escaped (current ++ [ch]) rest

def splitDirectives (field : Str) : List Str := splitQuoted false false [] field

structure ParsedDirective where
  name : Str := []
  value : Str := []
  hasValue : Bool := false
  valueValid : Bool := true
  deriving DecidableEq

/-- The contents of a quoted string without its quotes, backslashes removed, and
whether it was well formed. -/
def unquote : Bool → Str → Str → Str × Bool
  | escaped, value, [] => (value, !escaped)
  | true, value, ch :: rest => unquote false (value ++ [ch]) rest
  | false, value, ch :: rest =>
    if ch = '\\' then unquote true value rest
    else if ch.toNat < 0x20 ∨ ch.toNat = 0x7f then (value, false)
    else unquote false (value ++ [ch]) rest

def parseDirective (raw : Str) : ParsedDirective :=
  let raw := trimOws raw
  match find raw '=' with
  | none => { name := trimOws raw }
  | some equals =>
    let name := trimOws (raw.take equals)
    let value := trimOws (raw.drop (equals + 1))
    if value = [] then { name := name, hasValue := true, valueValid := false }
    else if value.head? ≠ some '"' then { name := name, value := value, hasValue := true }
    else if value.length < 2 ∨ value.getLast? ≠ some '"' then
      { name := name, hasValue := true, valueValid := false }
    else
      let (text, valid) := unquote false [] ((value.drop 1).dropLast)
      { name := name, value := text, hasValue := true, valueValid := valid }

/-- The digit loop of `parse_delta_seconds`. -/
def deltaDigits : ℕ → Bool → Str → Option ℕ
  | result, _, [] => some result
  | result, saturated, raw :: rest =>
    if raw.isDigit = false then none
    else if saturated then deltaDigits result true rest
    else
      let digit := raw.toNat - '0'.toNat
      if result > (maxUint64 - digit) / 10 then deltaDigits maxUint64 true rest
      else deltaDigits (result * 10 + digit) false rest

def parseDeltaSeconds (value : Str) : Option ℕ :=
  let value := trimOws value
  if value = [] then none else deltaDigits 0 false value

structure CacheControl where
  noStore : Bool := false
  noCache : Bool := false
  mustRevalidate : Bool := false
  isPrivate : Bool := false
  maxAge : Option ℕ := none
  staleIfError : Option ℕ := none
  invalid : Bool := false
  conflictingMaxAge : Bool := false
  deriving DecidableEq

/-- One numeric directive: destination, seen, conflict, invalid. -/
structure NumericDirective where
  destination : Option ℕ
  seen : Bool
  conflict : Bool
  invalid : Bool

def parseNumericDirective (state : NumericDirective) (directive : ParsedDirective) :
    NumericDirective :=
  if directive.hasValue = false ∨ directive.valueValid = false then { state with invalid := true }
  else
    match parseDeltaSeconds directive.value with
    | none => { state with invalid := true }
    | some parsed =>
      if state.seen then
        if state.destination ≠ some parsed then { state with conflict := true } else state
      else { state with destination := some parsed, seen := true }

structure CacheControlState where
  out : CacheControl := {}
  maxAgeSeen : Bool := false
  staleIfErrorSeen : Bool := false

def applyDirective (state : CacheControlState) (raw : Str) : CacheControlState :=
  let directive := parseDirective raw
  let out := state.out
  if directive.name = [] then state
  else if asciiIequals directive.name "no-store".toList then
    { state with out := { out with noStore := true } }
  else if asciiIequals directive.name "no-cache".toList then
    { state with out := { out with noCache := true } }
  else if asciiIequals directive.name "must-revalidate".toList then
    { state with out := { out with mustRevalidate := true } }
  else if asciiIequals directive.name "private".toList then
    { state with out := { out with isPrivate := true } }
  else if asciiIequals directive.name "max-age".toList then
    let d := parseNumericDirective
      ⟨out.maxAge, state.maxAgeSeen, out.conflictingMaxAge, out.invalid⟩ directive
    { state with
      out := { out with
        maxAge := d.destination, conflictingMaxAge := d.conflict, invalid := d.invalid }
      maxAgeSeen := d.seen }
  else if asciiIequals directive.name "stale-if-error".toList then
    let d := parseNumericDirective
      ⟨out.staleIfError, state.staleIfErrorSeen, false, out.invalid⟩ directive
    { state with
      out := { out with staleIfError := d.destination, invalid := d.invalid }
      staleIfErrorSeen := d.seen }
  else state

def parseCacheControl (headers : HeaderList) : CacheControl :=
  (((headers.getAll "cache-control".toList).flatMap splitDirectives).foldl applyDirective {}).out

/-! ### Numbers stay within 64 bits -/

theorem deltaDigits_le {result value : ℕ} {saturated : Bool} {s : Str} (hr : result ≤ maxUint64)
    (h : deltaDigits result saturated s = some value) : value ≤ maxUint64 := by
  induction s generalizing result saturated with
  | nil =>
    rw [deltaDigits] at h
    cases h
    exact hr
  | cons raw rest ih =>
    rw [deltaDigits] at h
    simp only at h
    split_ifs at h with hdigit hsat hbig
    · exact ih hr h
    · exact ih le_rfl h
    · refine ih ?_ h
      have hnine := digit_le_nine (Bool.eq_true_of_not_eq_false hdigit)
      unfold maxUint64 at hbig ⊢
      omega

theorem parseDeltaSeconds_le {value : Str} {n : ℕ} (h : parseDeltaSeconds value = some n) :
    n ≤ maxUint64 := by
  unfold parseDeltaSeconds at h
  simp only at h
  split_ifs at h
  exact deltaDigits_le (Nat.zero_le _) h

theorem parseNumericDirective_le {state : NumericDirective} {directive : ParsedDirective}
    (hs : ∀ n, state.destination = some n → n ≤ maxUint64) {n : ℕ}
    (h : (parseNumericDirective state directive).destination = some n) : n ≤ maxUint64 := by
  unfold parseNumericDirective at h
  split at h
  · exact hs n h
  · cases hp : parseDeltaSeconds directive.value with
    | none =>
      simp only [hp] at h
      exact hs n h
    | some parsed =>
      simp only [hp] at h
      split_ifs at h
      · exact hs n h
      · exact hs n h
      · obtain rfl := Option.some.inj h
        exact parseDeltaSeconds_le hp

theorem applyDirective_maxAge_le {state : CacheControlState} {raw : Str}
    (hs : ∀ n, state.out.maxAge = some n → n ≤ maxUint64) {n : ℕ}
    (h : (applyDirective state raw).out.maxAge = some n) : n ≤ maxUint64 := by
  unfold applyDirective at h
  simp only at h
  split_ifs at h
  · exact hs n h
  · exact hs n h
  · exact hs n h
  · exact hs n h
  · exact hs n h
  · exact parseNumericDirective_le hs h
  · exact hs n h
  · exact hs n h

theorem parseCacheControl_maxAge_le {headers : HeaderList} {n : ℕ}
    (h : (parseCacheControl headers).maxAge = some n) : n ≤ maxUint64 := by
  have key : ∀ (raws : List Str) (state : CacheControlState),
      (∀ n, state.out.maxAge = some n → n ≤ maxUint64) →
      ∀ n, (raws.foldl applyDirective state).out.maxAge = some n → n ≤ maxUint64 := by
    intro raws
    induction raws with
    | nil => exact fun _ hs => hs
    | cons raw raws ih => exact fun state hs => ih _ fun n hn => applyDirective_maxAge_le hs hn
  exact key _ {} (by simp) n h

end KatHttp3
