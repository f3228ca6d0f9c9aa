import KatHttp3.Cache.Admission

/-!
# The directives of a request

What the Cache-Control fields of a request ask for, directive by directive, and
what of it the cache honours when it calls a response fresh.
-/

namespace KatHttp3

open Str ResponseCache

/-- The directives of all Cache-Control fields, in order. -/
def cacheDirectives (headers : HeaderList) : List ParsedDirective :=
  ((headers.getAll "cache-control".toList).flatMap splitDirectives).map parseDirective

/-- Some directive has the name. -/
def Carries (headers : HeaderList) (name : Str) : Prop :=
  ∃ directive ∈ cacheDirectives headers, asciiIequals directive.name name = true

/-- The value of the directive is the decimal numeral of `n`. -/
structure ParsedDirective.IsNumber (directive : ParsedDirective) (n : ℕ) : Prop where
  valid : directive.hasValue = true ∧ directive.valueValid = true
  nonempty : trimOws directive.value ≠ []
  digits : ∀ ch ∈ trimOws directive.value, ch.isDigit = true
  value : decimal (trimOws directive.value) = n

/-- Some well-formed max-age asks for an age of at most `n` seconds. -/
def MaxAge (headers : HeaderList) (n : ℕ) : Prop :=
  ∃ directive ∈ cacheDirectives headers,
    asciiIequals directive.name "max-age".toList = true ∧ directive.IsNumber n

/-! ### Numerals -/

theorem deltaDigits_saturated {s : Str} (h : ∀ ch ∈ s, ch.isDigit = true) (result : ℕ) :
    deltaDigits result true s = some result := by
  induction s with
  | nil => rfl
  | cons ch rest ih =>
    rw [deltaDigits, if_neg (by simp [h ch List.mem_cons_self]), if_pos rfl]
    exact ih fun c hc => h c (List.mem_cons_of_mem _ hc)

theorem le_ofDigitChars (s : Str) (start : ℕ) : start ≤ Nat.ofDigitChars 10 s start := by
  induction s generalizing start with
  | nil => simp
  | cons ch rest ih =>
    rw [Nat.ofDigitChars_cons]
    have := ih (10 * start + (ch.toNat - '0'.toNat))
    omega

/-- A numeral is read as its value, cut off at the largest 64-bit number. -/
theorem deltaDigits_eq {s : Str} (h : ∀ ch ∈ s, ch.isDigit = true) {start : ℕ}
    (hstart : start ≤ maxUint64) :
    deltaDigits start false s = some (min (Nat.ofDigitChars 10 s start) maxUint64) := by
  induction s generalizing start with
  | nil =>
    rw [deltaDigits, Nat.ofDigitChars_nil, Nat.min_eq_left hstart]
  | cons ch rest ih =>
    have hdigit := h ch List.mem_cons_self
    have hrest : ∀ c ∈ rest, c.isDigit = true := fun c hc => h c (List.mem_cons_of_mem _ hc)
    have hnine := digit_le_nine hdigit
    rw [deltaDigits, if_neg (by simp [hdigit]), if_neg (by decide), Nat.ofDigitChars_cons]
    generalize ch.toNat - '0'.toNat = digit at hnine
    dsimp only
    split_ifs with hbig
    · have hle := le_ofDigitChars rest (10 * start + digit)
      rw [deltaDigits_saturated hrest, Nat.min_eq_right]
      unfold maxUint64 at hbig ⊢
      omega
    · rw [Nat.mul_comm start 10]
      apply ih hrest
      unfold maxUint64 at hbig ⊢
      omega

theorem ParsedDirective.IsNumber.parse {directive : ParsedDirective} {n : ℕ}
    (h : directive.IsNumber n) : parseDeltaSeconds directive.value = some (min n maxUint64) := by
  unfold parseDeltaSeconds
  dsimp only
  rw [if_neg h.nonempty, deltaDigits_eq h.digits (Nat.zero_le _), ← h.value]
  rfl

/-! ### What the parser keeps of the directives -/

theorem asciiIequals_of_ne {name s t : Str} (h : asciiIequals name s = true)
    (hne : asciiIequals s t = false) : asciiIequals name t = false := by
  rw [asciiIequals_congr h, hne]

theorem applyDirective_noStore (state : CacheControlState) (raw : Str) :
    (applyDirective state raw).out.noStore =
      (state.out.noStore || asciiIequals (parseDirective raw).name "no-store".toList) := by
  unfold applyDirective
  dsimp only
  split_ifs with h1 h2 h3 h4 h5 h6 h7
  · rw [h1, show asciiIequals [] "no-store".toList = false by decide, Bool.or_false]
  · rw [h2, Bool.or_true]
  all_goals rw [Bool.not_eq_true] at h2; rw [h2, Bool.or_false]

theorem applyDirective_noCache (state : CacheControlState) (raw : Str) :
    (applyDirective state raw).out.noCache =
      (state.out.noCache || asciiIequals (parseDirective raw).name "no-cache".toList) := by
  unfold applyDirective
  dsimp only
  split_ifs with h1 h2 h3 h4 h5 h6 h7
  · rw [h1, show asciiIequals [] "no-cache".toList = false by decide, Bool.or_false]
  · rw [asciiIequals_of_ne h2 (by decide), Bool.or_false]
  · rw [h3, Bool.or_true]
  all_goals rw [Bool.not_eq_true] at h3; rw [h3, Bool.or_false]

/-- A number is recorded exactly when it is marked as seen. -/
def SeenIffRecorded (state : NumericDirective) : Prop := state.seen = state.destination.isSome

/-- A directive leaves the recorded number alone, which a well-formed one does
only when there is one, or it is recorded itself. -/
theorem parseNumericDirective_cases (state : NumericDirective) (directive : ParsedDirective) :
    ((parseNumericDirective state directive).destination = state.destination ∧
        (parseNumericDirective state directive).seen = state.seen ∧
        ((∃ n, directive.IsNumber n) → state.seen = true)) ∨
      ((parseNumericDirective state directive).destination.isSome = true ∧
        (parseNumericDirective state directive).seen = true) := by
  unfold parseNumericDirective
  by_cases hbad : directive.hasValue = false ∨ directive.valueValid = false
  · rw [if_pos hbad]
    refine Or.inl ⟨rfl, rfl, fun ⟨n, hn⟩ => ?_⟩
    rw [hn.valid.1, hn.valid.2] at hbad
    simp at hbad
  rw [if_neg hbad]
  cases hparse : parseDeltaSeconds directive.value with
  | none =>
    refine Or.inl ⟨rfl, rfl, fun ⟨n, hn⟩ => ?_⟩
    rw [hn.parse] at hparse
    cases hparse
  | some parsed =>
    dsimp only
    by_cases hseen : state.seen = true
    · left
      rw [if_pos hseen]
      split_ifs <;> exact ⟨rfl, rfl, fun _ => hseen⟩
    · rw [if_neg hseen]
      exact Or.inr ⟨rfl, rfl⟩

theorem parseNumericDirective_seen {state : NumericDirective} (h : SeenIffRecorded state)
    (directive : ParsedDirective) : SeenIffRecorded (parseNumericDirective state directive) := by
  unfold SeenIffRecorded
  rcases parseNumericDirective_cases state directive with ⟨hdest, hseen, -⟩ | ⟨hdest, hseen⟩
  · rw [hdest, hseen]
    exact h
  · rw [hdest, hseen]

/-- A recorded number stays, and a well-formed one is recorded. -/
theorem parseNumericDirective_recorded {state : NumericDirective} (h : SeenIffRecorded state)
    {directive : ParsedDirective}
    (hrecorded : state.destination.isSome = true ∨ ∃ n, directive.IsNumber n) :
    (parseNumericDirective state directive).destination.isSome = true := by
  rcases parseNumericDirective_cases state directive with ⟨hdest, -, hseen⟩ | ⟨hdest, -⟩
  · rw [hdest]
    rcases hrecorded with hold | hnew
    · exact hold
    · rw [← h]
      exact hseen hnew
  · exact hdest

/-- The max-age part of the parser's state. -/
def CacheControlState.maxAge (state : CacheControlState) : NumericDirective :=
  ⟨state.out.maxAge, state.maxAgeSeen, state.out.conflictingMaxAge, state.out.invalid⟩

theorem applyDirective_maxAge (state : CacheControlState) (raw : Str) :
    asciiIequals (parseDirective raw).name "max-age".toList = true ∧
        (applyDirective state raw).maxAge =
          parseNumericDirective state.maxAge (parseDirective raw) ∨
      asciiIequals (parseDirective raw).name "max-age".toList = false ∧
        (applyDirective state raw).out.maxAge = state.out.maxAge ∧
        (applyDirective state raw).maxAgeSeen = state.maxAgeSeen := by
  unfold applyDirective
  dsimp only
  split_ifs with h1 h2 h3 h4 h5 h6 h7
  · exact Or.inr ⟨by rw [h1]; decide, rfl, rfl⟩
  · exact Or.inr ⟨asciiIequals_of_ne h2 (by decide), rfl, rfl⟩
  · exact Or.inr ⟨asciiIequals_of_ne h3 (by decide), rfl, rfl⟩
  · exact Or.inr ⟨asciiIequals_of_ne h4 (by decide), rfl, rfl⟩
  · exact Or.inr ⟨asciiIequals_of_ne h5 (by decide), rfl, rfl⟩
  · exact Or.inl ⟨h6, rfl⟩
  · exact Or.inr ⟨Bool.eq_false_iff.mpr h6, rfl, rfl⟩
  · exact Or.inr ⟨Bool.eq_false_iff.mpr h6, rfl, rfl⟩

/-- What the parser remembers of the directives it has seen. -/
structure Remembers (directives : List ParsedDirective) (state : CacheControlState) : Prop where
  noStore : ∀ d ∈ directives, asciiIequals d.name "no-store".toList = true →
    state.out.noStore = true
  noCache : ∀ d ∈ directives, asciiIequals d.name "no-cache".toList = true →
    state.out.noCache = true
  maxAge : ∀ d ∈ directives, asciiIequals d.name "max-age".toList = true → ∀ n, d.IsNumber n →
    state.out.maxAge.isSome = true
  seen : SeenIffRecorded state.maxAge

theorem Remembers.snoc {directives : List ParsedDirective} {state : CacheControlState}
    (h : Remembers directives state) (raw : Str) :
    Remembers (directives ++ [parseDirective raw]) (applyDirective state raw) where
  noStore d hd hname := by
    rw [applyDirective_noStore, Bool.or_eq_true]
    rcases List.mem_append.mp hd with hold | hnew
    · exact Or.inl (h.noStore d hold hname)
    · obtain rfl := List.mem_singleton.mp hnew
      exact Or.inr hname
  noCache d hd hname := by
    rw [applyDirective_noCache, Bool.or_eq_true]
    rcases List.mem_append.mp hd with hold | hnew
    · exact Or.inl (h.noCache d hold hname)
    · obtain rfl := List.mem_singleton.mp hnew
      exact Or.inr hname
  maxAge d hd hname n hn := by
    have hrecorded : state.maxAge.destination.isSome = true ∨
        d = parseDirective raw ∧
          asciiIequals (parseDirective raw).name "max-age".toList = true := by
      rcases List.mem_append.mp hd with hold | hnew
      · exact Or.inl (h.maxAge d hold hname n hn)
      · obtain rfl := List.mem_singleton.mp hnew
        exact Or.inr ⟨rfl, hname⟩
    rcases applyDirective_maxAge state raw with ⟨-, hstep⟩ | ⟨hother, hstep, -⟩
    · change (applyDirective state raw).maxAge.destination.isSome = true
      rw [hstep]
      apply parseNumericDirective_recorded h.seen
      exact hrecorded.imp_right fun ⟨heq, _⟩ => ⟨n, heq ▸ hn⟩
    · rcases hrecorded with hold | ⟨-, hthis⟩
      · rw [hstep]
        exact hold
      · rw [hother] at hthis
        cases hthis
  seen := by
    rcases applyDirective_maxAge state raw with ⟨-, hstep⟩ | ⟨-, hmax, hseen⟩
    · rw [hstep]
      exact parseNumericDirective_seen h.seen _
    · unfold SeenIffRecorded CacheControlState.maxAge
      rw [hmax, hseen]
      exact h.seen

theorem remembers_foldl (raws : List Str) :
    Remembers (raws.map parseDirective) (raws.foldl applyDirective {}) := by
  induction raws using List.reverseRecOn with
  | nil => exact ⟨by simp, by simp, by simp, rfl⟩
  | append_singleton raws raw ih =>
    rw [List.map_append, List.foldl_append]
    exact ih.snoc raw

theorem noStore_of_carries {headers : HeaderList} (h : Carries headers "no-store".toList) :
    (parseCacheControl headers).noStore = true := by
  obtain ⟨d, hd, hname⟩ := h
  exact (remembers_foldl _).noStore d hd hname

theorem noCache_of_carries {headers : HeaderList} (h : Carries headers "no-cache".toList) :
    (parseCacheControl headers).noCache = true := by
  obtain ⟨d, hd, hname⟩ := h
  exact (remembers_foldl _).noCache d hd hname

theorem exists_maxAge {headers : HeaderList} {n : ℕ} (h : MaxAge headers n) :
    ∃ first, (parseCacheControl headers).maxAge = some first := by
  obtain ⟨d, hd, hname, hnumber⟩ := h
  exact Option.isSome_iff_exists.mp ((remembers_foldl _).maxAge d hd hname n hnumber)

/-! ### Fresh responses -/

/-- The age that a looked-up response is delivered with. -/
def ReturnsAge (result : CacheLookup) (age : ℕ) : Prop :=
  ∃ response, result.response = some response ∧ response.headers.getAll "age".toList = [ofNat age]

/-- What a fresh response owes the directives of the request. -/
structure RespectsDirectives (request : CacheRequest) (result : CacheLookup) : Prop where
  noCache : ¬ Carries request.headers "no-cache".toList
  noStore : ¬ Carries request.headers "no-store".toList
  maxAge : ∃ age, ReturnsAge result age ∧ ∀ n, MaxAge request.headers n → age ≤ n

/-- A max-age of the request is smaller than the one that is recorded, which is
the first. No fresh response is as old as the largest 64-bit number. -/
def LaterSmaller (request : CacheRequest) : Prop :=
  ∃ n first, MaxAge request.headers n ∧
    (parseCacheControl request.headers).maxAge = some first ∧ n < first ∧ n + 1 < maxUint64

theorem getAll_headersWithAge (headers : HeaderList) (age : ℕ) :
    HeaderList.getAll (headersWithAge headers age) "age".toList = [ofNat age] := by
  unfold headersWithAge HeaderList.add
  rw [HeaderList.getAll_append, HeaderList.getAll_filter_of_forall_not]
  · rfl
  · intro header _ hname
    rw [hname]
    rfl

theorem ofNat_injective {a b : ℕ} (h : ofNat a = ofNat b) : a = b := by
  have ha : fromChars (max a b) (ofNat a) = some a := fromChars_ofNat (le_max_left a b)
  rw [h, fromChars_ofNat (le_max_right a b)] at ha
  exact (Option.some.inj ha).symm

theorem lifetime_le_after (config : ResponseCacheConfig) (ops : List CacheOp) :
    ∀ e ∈ (CacheRun.after config ops).cache.entries, e.freshnessLifetimeSeconds ≤ maxUint64 := by
  apply CacheRun.forall_mem_after
  intro request statusCode headers body sent now cached entryId hmade
  obtain ⟨rfl, -⟩ := makeCachedResponse_eq_some hmade
  change (freshnessLifetime headers now.wall).getD 0 ≤ maxUint64
  cases hlifetime : freshnessLifetime headers now.wall with
  | none => exact Nat.zero_le _
  | some lifetime => exact freshnessLifetime_le hlifetime

/-- What a lookup with a fresh result tells about the request and the entry. -/
theorem fresh_cases {cache : ResponseCache} {request : CacheRequest} {now : ClockReading}
    (h : (cache.lookup request now).2.state = .fresh) :
    (parseCacheControl request.headers).noStore = false ∧
      ∃ best ∈ cache.entries, CountsAsFresh request now best ∧
        ReturnsAge (cache.lookup request now).2 (currentAge best now.monotonic) := by
  rcases lookup_cases cache request now with hmiss | ⟨i, best, hfound⟩
  · rw [hmiss] at h
    cases h
  refine ⟨?_, best, List.mem_of_getElem? hfound.position, hfound.fresh h, _, hfound.response,
    getAll_headersWithAge _ _⟩
  by_contra hstore
  rw [Bool.not_eq_false] at hstore
  have hbypass : requestCacheBypassed request (parseCacheControl request.headers) = true := by
    simp [requestCacheBypassed, hstore]
  rw [lookup, hbypass] at h
  cases h

/-! ### A response of any age -/

/-- The fields of a response that is fresh as long as possible. -/
def longLived : HeaderList := [⟨"cache-control".toList, "max-age=18446744073709551615".toList⟩]

theorem parseCacheControl_longLived :
    parseCacheControl longLived = { maxAge := some maxUint64 } := by
  decide +kernel

theorem parseVary_longLived : parseVary longLived = {} := by
  decide +kernel

theorem dateField_longLived (wall : Option ℕ) : dateField longLived "date".toList wall = none :=
  if_pos (by decide)

theorem freshnessLifetime_longLived (wall : Option ℕ) :
    freshnessLifetime longLived wall = some maxUint64 := by
  unfold freshnessLifetime
  rw [parseCacheControl_longLived]

theorem cacheable_longLived {now : ClockReading} (hwall : now.wall.isSome = true)
    (hmonotonic : now.monotonic ≠ 0) : cacheable longLived now = true := by
  unfold cacheable
  simp only [parseCacheControl_longLived, parseVary_longLived, freshnessLifetime_longLived, hwall]
  simpa using hmonotonic

/-- The delay of the response becomes its age. -/
theorem correctedInitialAge_longLived {age : ℕ} (hage : age ≤ maxUint64) :
    correctedInitialAge longLived (some 0) (some age) = age := by
  have hparse : parseAge longLived = some 0 := by decide
  unfold correctedInitialAge
  rw [dateField_longLived, hparse]
  change max 0 (saturatingAdd maxUint64 0 (age - 0)) = age
  rw [saturatingAdd_eq (by omega)]
  omega

/-- A response that was sent for at second 0 and arrives `age` seconds later. -/
def agedStore (request : CacheRequest) (age : ℕ) : CacheOp :=
  .store request ⟨200, longLived, []⟩ (some 0) ⟨some age, 1⟩

/-- Looked up at once, it is fresh for every request that allows its age. -/
theorem lookup_agedStore {request : CacheRequest} {age : ℕ}
    (hbypass : requestCacheBypassed request (parseCacheControl request.headers) = false)
    (hvalid : (parseCacheControl request.headers).invalid = false)
    (hno : (parseCacheControl request.headers).noCache = false)
    (hmax : ∀ first, (parseCacheControl request.headers).maxAge = some first → age ≤ first)
    (hage : age < maxUint64) :
    ((CacheRun.after roomyConfig [agedStore request age]).cache.lookup request
        ⟨some age, 1⟩).2.state = .fresh ∧
      ReturnsAge ((CacheRun.after roomyConfig [agedStore request age]).cache.lookup request
        ⟨some age, 1⟩).2 age := by
  have hentries : (CacheRun.after roomyConfig [agedStore request age]).cache.entries =
      [(buildCachedResponse roomyConfig request 200 longLived [] (some 0) ⟨some age, 1⟩).withId 1] :=
    (store_roomy hbypass hvalid (cacheable_longLived rfl Nat.one_ne_zero)).2
  generalize (CacheRun.after roomyConfig [agedStore request age]).cache = cache at hentries ⊢
  generalize hentry : (buildCachedResponse roomyConfig request 200 longLived [] (some 0)
    ⟨some age, 1⟩).withId 1 = entry at hentries
  have hurl : entry.url = request.url := by rw [← hentry]; rfl
  have hvary : varyMatches entry request.headers = true := by
    have hkeys : entry.vary = [] := by
      rw [← hentry]
      change (parseVary longLived).names.map
        (fun name => VaryKey.mk name (request.headers.getAll name)) = []
      rw [parseVary_longLived]
      rfl
    rw [varyMatches, hkeys]
    rfl
  have hinitial : entry.correctedInitialAgeSeconds = age := by
    rw [← hentry]
    exact correctedInitialAge_longLived hage.le
  have hlifetime : entry.freshnessLifetimeSeconds = maxUint64 := by
    rw [← hentry]
    change (freshnessLifetime longLived (some age)).getD 0 = maxUint64
    rw [freshnessLifetime_longLived]
    rfl
  have hrequires : entry.requiresRevalidation = false := by
    rw [← hentry]
    change (parseCacheControl longLived).noCache = false
    rw [parseCacheControl_longLived]
  have hcurrent : currentAge entry 1 = age := by
    have hstored : entry.storedAtMonotonicNs = 1 := by rw [← hentry]; rfl
    rw [currentAge, if_neg (by omega), hinitial, hstored, saturatingAdd_eq (by omega)]
    omega
  have hexceeded : (parseCacheControl request.headers).maxAge.any (· < age) = false := by
    cases hrecorded : (parseCacheControl request.headers).maxAge with
    | none => rfl
    | some first => simpa using hmax first hrecorded
  have hbest : cache.selectBest request = some 0 := by
    simp [selectBest, hentries, hurl, hvary]
  have hlookup : cache.lookup request ⟨some age, 1⟩ =
      ({ cache with entries := [entry] },
        ⟨.fresh, some { entry with headers := headersWithAge entry.headers age }, []⟩) := by
    simp [lookup, lookupLocked, hbypass, hvalid, hbest, hentries, hcurrent, hrequires, hno,
      hexceeded, hlifetime, hage]
  rw [hlookup]
  exact ⟨rfl, _, rfl, getAll_headersWithAge _ _⟩

/-- Fresh responses respect all directives of a request in every run exactly when
the cache is not asked, may not answer, or the request's first max-age is its
smallest. -/
theorem fresh_respects_iff (request : CacheRequest) :
    (∀ (config : ResponseCacheConfig) (ops : List CacheOp) (now : ClockReading),
      ((CacheRun.after config ops).cache.lookup request now).2.state = .fresh →
        RespectsDirectives request ((CacheRun.after config ops).cache.lookup request now).2) ↔
      requestCacheBypassed request (parseCacheControl request.headers) = true ∨
        (parseCacheControl request.headers).invalid = true ∨
        (parseCacheControl request.headers).noCache = true ∨ ¬ LaterSmaller request := by
  constructor
  · intro hrespects
    by_contra hcond
    simp only [not_or, Bool.not_eq_true, not_not] at hcond
    obtain ⟨hbypass, hvalid, hno, n, first, hn, hfirst, hlt, hbound⟩ := hcond
    have hallowed : ∀ first', (parseCacheControl request.headers).maxAge = some first' →
        n + 1 ≤ first' := by
      intro first' hfirst'
      obtain rfl := Option.some.inj (hfirst.symm.trans hfirst')
      exact hlt
    obtain ⟨hfresh, response, hresponse, hage⟩ :=
      lookup_agedStore hbypass hvalid hno hallowed hbound
    obtain ⟨age, ⟨response', hresponse', hage'⟩, hle⟩ := (hrespects _ _ _ hfresh).maxAge
    obtain rfl := Option.some.inj (hresponse.symm.trans hresponse')
    rw [hage] at hage'
    have hsame := ofNat_injective (List.singleton_inj.mp hage')
    have := hle n hn
    omega
  · intro hcond config ops now hfresh
    obtain ⟨hstore, best, hbest, hcounts, hage⟩ := fresh_cases hfresh
    have hlookedUp : ¬ (requestCacheBypassed request (parseCacheControl request.headers) ||
        (parseCacheControl request.headers).invalid) = true := by
      intro hskip
      rw [lookup, if_pos hskip] at hfresh
      cases hfresh
    rw [Bool.or_eq_true, not_or] at hlookedUp
    have hno := hcounts.2.2.2.1
    refine ⟨fun h => ?_, fun h => ?_, _, hage, fun n hn => ?_⟩
    · rw [noCache_of_carries h] at hno
      cases hno
    · rw [noStore_of_carries h] at hstore
      cases hstore
    · rcases hcond with hbypass | hinvalid | hnoCache | hordered
      · exact absurd hbypass hlookedUp.1
      · exact absurd hinvalid hlookedUp.2
      · rw [hno] at hnoCache
        cases hnoCache
      obtain ⟨first, hfirst⟩ := exists_maxAge hn
      have hle := hcounts.2.2.2.2.1 first hfirst
      have hlifetime := lifetime_le_after config ops best hbest
      have hyoung := hcounts.2.2.2.2.2
      by_contra hold
      exact hordered ⟨n, first, hn, hfirst, by omega, by omega⟩

/-- A request that allows an age of 60 seconds first and none after that. -/
def conflictingRequest : CacheRequest :=
  { requestFor "a".toList with
    headers := [⟨"cache-control".toList, "max-age=60, max-age=0".toList⟩] }

/-- It gets a response that is 30 seconds old as a fresh one. -/
theorem fresh_conflictingRequest :
    ((CacheRun.after roomyConfig [agedStore conflictingRequest 30]).cache.lookup conflictingRequest
        ⟨some 30, 1⟩).2.state = .fresh ∧
      ¬ RespectsDirectives conflictingRequest
        ((CacheRun.after roomyConfig [agedStore conflictingRequest 30]).cache.lookup
          conflictingRequest ⟨some 30, 1⟩).2 := by
  have hmaxAge : (parseCacheControl conflictingRequest.headers).maxAge = some 60 := by decide
  obtain ⟨hfresh, response, hresponse, hage⟩ := @lookup_agedStore conflictingRequest 30
    (by decide) (by decide) (by decide)
    (fun first hfirst => by rw [hmaxAge] at hfirst; cases hfirst; decide) (by decide)
  refine ⟨hfresh, fun hrespects => ?_⟩
  obtain ⟨age, ⟨response', hresponse', hage'⟩, hle⟩ := hrespects.maxAge
  obtain rfl := Option.some.inj (hresponse.symm.trans hresponse')
  rw [hage] at hage'
  have hsame := ofNat_injective (List.singleton_inj.mp hage')
  have hzero : MaxAge conflictingRequest.headers 0 :=
    ⟨⟨"max-age".toList, "0".toList, true, true⟩, by decide, by decide,
      ⟨⟨rfl, rfl⟩, by decide, List.all_eq_true.mp (by decide), by decide⟩⟩
  have := hle 0 hzero
  omega

end KatHttp3
