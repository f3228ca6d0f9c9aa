import KatHttp3.Cache.RequestDirectives

/-!
# What the parsed directives amount to

The left-to-right pass of `parse_cache_control` in closed form: flags of the
names that occur, the first number of each numeric directive, and what is
malformed or disagrees. From it follows how far the order of the directives
matters.
-/

namespace KatHttp3

open Str

/-- The number of seconds a directive gives, none when it is malformed as a
numeric one. -/
def ParsedDirective.seconds (directive : ParsedDirective) : Option ℕ :=
  if directive.hasValue = true ∧ directive.valueValid = true then
    parseDeltaSeconds directive.value
  else none

/-- The directives with a name, in order. -/
def withName (name : Str) (directives : List ParsedDirective) : List ParsedDirective :=
  directives.filter fun d => asciiIequals d.name name

def occurs (name : Str) (directives : List ParsedDirective) : Bool :=
  directives.any fun d => asciiIequals d.name name

/-- The numbers that the well-formed directives of a name give, in order. -/
def numbers (name : Str) (directives : List ParsedDirective) : List ℕ :=
  (withName name directives).filterMap ParsedDirective.seconds

def malformed (name : Str) (directives : List ParsedDirective) : Bool :=
  (withName name directives).any fun d => d.seconds.isNone

/-- Some number differs from the first one. -/
def disagree (values : List ℕ) : Bool :=
  values.any fun n => values.head?.any (· != n)

/-- What a list of directives means. -/
def meaning (directives : List ParsedDirective) : CacheControl where
  noStore := occurs "no-store".toList directives
  noCache := occurs "no-cache".toList directives
  mustRevalidate := occurs "must-revalidate".toList directives
  isPrivate := occurs "private".toList directives
  maxAge := (numbers "max-age".toList directives).head?
  staleIfError := (numbers "stale-if-error".toList directives).head?
  invalid := malformed "max-age".toList directives || malformed "stale-if-error".toList directives
  conflictingMaxAge := disagree (numbers "max-age".toList directives)

/-! ### One more directive -/

section snoc

variable (name : Str) (directives : List ParsedDirective) (d : ParsedDirective)

theorem occurs_snoc :
    occurs name (directives ++ [d]) = (occurs name directives || asciiIequals d.name name) := by
  simp [occurs]

variable {name d}

theorem withName_snoc_of_eq (h : asciiIequals d.name name = true) :
    withName name (directives ++ [d]) = withName name directives ++ [d] := by
  simp [withName, h]

theorem withName_snoc_of_ne (h : asciiIequals d.name name = false) :
    withName name (directives ++ [d]) = withName name directives := by
  simp [withName, h]

theorem numbers_snoc_of_ne (h : asciiIequals d.name name = false) :
    numbers name (directives ++ [d]) = numbers name directives := by
  rw [numbers, withName_snoc_of_ne directives h]
  rfl

theorem malformed_snoc_of_ne (h : asciiIequals d.name name = false) :
    malformed name (directives ++ [d]) = malformed name directives := by
  rw [malformed, withName_snoc_of_ne directives h]
  rfl

theorem numbers_snoc_of_eq (h : asciiIequals d.name name = true) :
    numbers name (directives ++ [d]) = numbers name directives ++ d.seconds.toList := by
  rw [numbers, withName_snoc_of_eq directives h, List.filterMap_append]
  cases hd : d.seconds <;> simp [numbers, hd]

theorem malformed_snoc_of_eq (h : asciiIequals d.name name = true) :
    malformed name (directives ++ [d]) = (malformed name directives || d.seconds.isNone) := by
  rw [malformed, withName_snoc_of_eq directives h, List.any_append]
  simp [malformed]

end snoc

theorem disagree_snoc (values : List ℕ) (n : ℕ) :
    disagree (values ++ [n]) = (disagree values || values.head?.any (· != n)) := by
  cases values with
  | nil => simp [disagree]
  | cons first rest => simp [disagree]

theorem disagree_eq_true_iff {values : List ℕ} :
    disagree values = true ↔ ∃ a ∈ values, ∃ b ∈ values, a ≠ b := by
  constructor
  · intro h
    obtain ⟨n, hn, hne⟩ := List.any_eq_true.mp h
    cases values with
    | nil => cases hn
    | cons first rest => exact ⟨first, List.mem_cons_self, n, hn, by simpa using hne⟩
  · rintro ⟨a, ha, b, hb, hne⟩
    cases values with
    | nil => cases ha
    | cons first rest =>
      rw [disagree, List.any_eq_true]
      by_cases hfirst : first = a
      · exact ⟨b, hb, by simpa [hfirst] using hne⟩
      · exact ⟨a, ha, by simpa using hfirst⟩

/-- The state of one numeric directive after a list of them. -/
def numericState (name : Str) (directives : List ParsedDirective) (invalid : Bool) :
    NumericDirective where
  destination := (numbers name directives).head?
  seen := (numbers name directives).head?.isSome
  conflict := disagree (numbers name directives)
  invalid := invalid

theorem parseNumericDirective_eq (state : NumericDirective) (d : ParsedDirective) :
    parseNumericDirective state d = match d.seconds with
      | none => { state with invalid := true }
      | some n =>
        if state.seen then
          if state.destination ≠ some n then { state with conflict := true } else state
        else { state with destination := some n, seen := true } := by
  unfold parseNumericDirective
  by_cases hvalid : d.hasValue = true ∧ d.valueValid = true
  · have hbad : ¬ (d.hasValue = false ∨ d.valueValid = false) := by simp [hvalid.1, hvalid.2]
    have hseconds : d.seconds = parseDeltaSeconds d.value := if_pos hvalid
    rw [hseconds]
    apply (if_neg hbad).trans
    cases parseDeltaSeconds d.value <;> rfl
  · have hbad : d.hasValue = false ∨ d.valueValid = false := by
      simpa only [not_and_or, Bool.not_eq_true] using hvalid
    have hseconds : d.seconds = none := if_neg hvalid
    rw [hseconds]
    exact if_pos hbad

theorem parseNumericDirective_numericState {name : Str} (directives : List ParsedDirective)
    {d : ParsedDirective} (h : asciiIequals d.name name = true) (invalid : Bool) :
    parseNumericDirective (numericState name directives invalid) d =
      numericState name (directives ++ [d]) (invalid || d.seconds.isNone) := by
  rw [parseNumericDirective_eq]
  unfold numericState
  rw [numbers_snoc_of_eq directives h]
  cases d.seconds with
  | none => simp
  | some n =>
    cases hnumbers : numbers name directives with
    | nil => simp [disagree]
    | cons first rest =>
      have hsnoc := disagree_snoc (first :: rest) n
      rw [List.cons_append] at hsnoc
      by_cases hfirst : first = n
      · simp [hfirst, hfirst ▸ hsnoc]
      · simp [hfirst, hsnoc]

/-- The stale-if-error directives keep no record of a conflict. -/
theorem parseNumericDirective_conflict (state : NumericDirective) (conflict : Bool)
    (d : ParsedDirective) :
    (parseNumericDirective { state with conflict := conflict } d).destination =
        (parseNumericDirective state d).destination ∧
      (parseNumericDirective { state with conflict := conflict } d).seen =
        (parseNumericDirective state d).seen ∧
      (parseNumericDirective { state with conflict := conflict } d).invalid =
        (parseNumericDirective state d).invalid := by
  rw [parseNumericDirective_eq, parseNumericDirective_eq]
  cases d.seconds with
  | none => exact ⟨rfl, rfl, rfl⟩
  | some n => dsimp only; split_ifs <;> exact ⟨rfl, rfl, rfl⟩

/-! ### The whole pass -/

/-- The state of the parser after a list of directives. -/
def meaningState (directives : List ParsedDirective) : CacheControlState where
  out := meaning directives
  maxAgeSeen := (numbers "max-age".toList directives).head?.isSome
  staleIfErrorSeen := (numbers "stale-if-error".toList directives).head?.isSome

/-- The names that the parser looks for. -/
def knownNames : List Str :=
  ["no-store".toList, "no-cache".toList, "must-revalidate".toList, "private".toList,
    "max-age".toList, "stale-if-error".toList]

/-- No name is spelled like two of them. -/
theorem asciiIequals_known {name s : Str} (h : asciiIequals name s = true)
    (hs : s ∈ knownNames) {t : Str} (ht : t ∈ knownNames) (hne : t ≠ s) :
    asciiIequals name t = false := by
  have hdiffer : ∀ s ∈ knownNames, ∀ t ∈ knownNames, t ≠ s → asciiIequals s t = false := by
    decide
  exact asciiIequals_of_ne h (hdiffer s hs t ht hne)

/-- The empty name is none of them. -/
theorem asciiIequals_empty {t : Str} (ht : t ∈ knownNames) : asciiIequals [] t = false := by
  have hempty : ∀ t ∈ knownNames, asciiIequals [] t = false := by decide
  exact hempty t ht

theorem meaningState_snoc_of_unnumbered (directives : List ParsedDirective) {d : ParsedDirective}
    (hmax : asciiIequals d.name "max-age".toList = false)
    (hstale : asciiIequals d.name "stale-if-error".toList = false) :
    meaningState (directives ++ [d]) =
      { meaningState directives with
        out := { meaning directives with
          noStore := (meaning directives).noStore || asciiIequals d.name "no-store".toList
          noCache := (meaning directives).noCache || asciiIequals d.name "no-cache".toList
          mustRevalidate := (meaning directives).mustRevalidate ||
            asciiIequals d.name "must-revalidate".toList
          isPrivate := (meaning directives).isPrivate ||
            asciiIequals d.name "private".toList } } := by
  unfold meaningState meaning
  simp only [occurs_snoc, numbers_snoc_of_ne directives hmax, numbers_snoc_of_ne directives hstale,
    malformed_snoc_of_ne directives hmax, malformed_snoc_of_ne directives hstale]

theorem meaningState_snoc_of_maxAge (directives : List ParsedDirective) {d : ParsedDirective}
    (h : asciiIequals d.name "max-age".toList = true) :
    meaningState (directives ++ [d]) =
      { meaningState directives with
        out := { meaning directives with
          maxAge := (numbers "max-age".toList (directives ++ [d])).head?
          invalid := (meaning directives).invalid || d.seconds.isNone
          conflictingMaxAge := disagree (numbers "max-age".toList (directives ++ [d])) }
        maxAgeSeen := (numbers "max-age".toList (directives ++ [d])).head?.isSome } := by
  have hne : ∀ t ∈ knownNames, t ≠ "max-age".toList → asciiIequals d.name t = false :=
    fun t ht hne => asciiIequals_known h (by decide) ht hne
  have hstale := hne "stale-if-error".toList (by decide) (by decide)
  unfold meaningState meaning
  simp only [occurs_snoc, hne _ (show "no-store".toList ∈ knownNames by decide) (by decide),
    hne _ (show "no-cache".toList ∈ knownNames by decide) (by decide),
    hne _ (show "must-revalidate".toList ∈ knownNames by decide) (by decide),
    hne _ (show "private".toList ∈ knownNames by decide) (by decide), Bool.or_false,
    numbers_snoc_of_ne directives hstale, malformed_snoc_of_ne directives hstale,
    malformed_snoc_of_eq directives h]
  congr 2
  rw [Bool.or_right_comm]

theorem meaningState_snoc_of_staleIfError (directives : List ParsedDirective)
    {d : ParsedDirective} (h : asciiIequals d.name "stale-if-error".toList = true) :
    meaningState (directives ++ [d]) =
      { meaningState directives with
        out := { meaning directives with
          staleIfError := (numbers "stale-if-error".toList (directives ++ [d])).head?
          invalid := (meaning directives).invalid || d.seconds.isNone }
        staleIfErrorSeen :=
          (numbers "stale-if-error".toList (directives ++ [d])).head?.isSome } := by
  have hne : ∀ t ∈ knownNames, t ≠ "stale-if-error".toList → asciiIequals d.name t = false :=
    fun t ht hne => asciiIequals_known h (by decide) ht hne
  have hmax := hne "max-age".toList (by decide) (by decide)
  unfold meaningState meaning
  simp only [occurs_snoc, hne _ (show "no-store".toList ∈ knownNames by decide) (by decide),
    hne _ (show "no-cache".toList ∈ knownNames by decide) (by decide),
    hne _ (show "must-revalidate".toList ∈ knownNames by decide) (by decide),
    hne _ (show "private".toList ∈ knownNames by decide) (by decide), Bool.or_false,
    numbers_snoc_of_ne directives hmax, malformed_snoc_of_ne directives hmax,
    malformed_snoc_of_eq directives h, Bool.or_assoc]

/-- A directive without a number sets the flag of its name. -/
theorem meaningState_snoc_of_flag (directives : List ParsedDirective) {d : ParsedDirective}
    {s : Str} (h : asciiIequals d.name s = true) (hs : s ∈ knownNames)
    (hmax : s ≠ "max-age".toList) (hstale : s ≠ "stale-if-error".toList) :
    meaningState (directives ++ [d]) =
      { meaningState directives with
        out := { meaning directives with
          noStore := (meaning directives).noStore || s == "no-store".toList
          noCache := (meaning directives).noCache || s == "no-cache".toList
          mustRevalidate := (meaning directives).mustRevalidate || s == "must-revalidate".toList
          isPrivate := (meaning directives).isPrivate || s == "private".toList } } := by
  have hflag : ∀ t ∈ knownNames, asciiIequals d.name t = (s == t) := by
    intro t ht
    by_cases hst : t = s
    · rw [hst, h, beq_self_eq_true]
    · rw [asciiIequals_known h hs ht hst]
      exact (beq_eq_false_iff_ne.mpr (Ne.symm hst)).symm
  rw [meaningState_snoc_of_unnumbered directives
      (asciiIequals_known h hs (by decide) hmax.symm)
      (asciiIequals_known h hs (by decide) hstale.symm),
    hflag _ (by decide), hflag _ (by decide), hflag _ (by decide), hflag _ (by decide)]

theorem applyDirective_meaningState (directives : List ParsedDirective) (raw : Str) :
    applyDirective (meaningState directives) raw =
      meaningState (directives ++ [parseDirective raw]) := by
  unfold applyDirective
  generalize parseDirective raw = d
  dsimp only
  split_ifs with hempty hstore hcache hrevalidate hprivate hmax hstale
  · have hnone : ∀ t ∈ knownNames, asciiIequals d.name t = false := by
      rw [hempty]
      exact fun t ht => asciiIequals_empty ht
    rw [meaningState_snoc_of_unnumbered directives (hnone _ (by decide)) (hnone _ (by decide)),
      hnone _ (by decide), hnone _ (by decide), hnone _ (by decide), hnone _ (by decide)]
    simp only [Bool.or_false]
    rfl
  · rw [meaningState_snoc_of_flag directives hstore (by decide) (by decide) (by decide)]
    simp [meaningState]
  · rw [meaningState_snoc_of_flag directives hcache (by decide) (by decide) (by decide)]
    simp [meaningState]
  · rw [meaningState_snoc_of_flag directives hrevalidate (by decide) (by decide) (by decide)]
    simp [meaningState]
  · rw [meaningState_snoc_of_flag directives hprivate (by decide) (by decide) (by decide)]
    simp [meaningState]
  · have hstate : NumericDirective.mk (meaningState directives).out.maxAge
        (meaningState directives).maxAgeSeen (meaningState directives).out.conflictingMaxAge
        (meaningState directives).out.invalid =
      numericState "max-age".toList directives (meaning directives).invalid := rfl
    rw [meaningState_snoc_of_maxAge directives hmax, hstate,
      parseNumericDirective_numericState directives hmax]
    rfl
  · have hstate : NumericDirective.mk (meaningState directives).out.staleIfError
        (meaningState directives).staleIfErrorSeen false (meaningState directives).out.invalid =
      { numericState "stale-if-error".toList directives (meaning directives).invalid with
        conflict := false } := rfl
    obtain ⟨hdest, hseen, hinvalid⟩ := parseNumericDirective_conflict
      (numericState "stale-if-error".toList directives (meaning directives).invalid) false d
    rw [meaningState_snoc_of_staleIfError directives hstale, hstate, hdest, hseen, hinvalid,
      parseNumericDirective_numericState directives hstale]
    rfl
  · rw [Bool.not_eq_true] at hstore hcache hrevalidate hprivate hmax hstale
    rw [meaningState_snoc_of_unnumbered directives hmax hstale, hstore, hcache, hrevalidate,
      hprivate]
    simp [meaningState]

theorem foldl_applyDirective (raws : List Str) :
    raws.foldl applyDirective {} = meaningState (raws.map parseDirective) := by
  induction raws using List.reverseRecOn with
  | nil => rfl
  | append_singleton raws raw ih =>
    rw [List.foldl_append, ih, List.map_append]
    exact applyDirective_meaningState _ raw

theorem parseCacheControl_eq_meaning (headers : HeaderList) :
    parseCacheControl headers = meaning (cacheDirectives headers) :=
  congrArg CacheControlState.out (foldl_applyDirective _)

end KatHttp3
