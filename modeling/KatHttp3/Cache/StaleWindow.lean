import KatHttp3.Cache.ResponseCache

/-!
# The stale-if-error window

When a stored response may stand in for an error: while both clocks can be read
and its age is within the window behind its freshness lifetime. The resident
time of a response is dropped when a monotonic reading is missing, and an age
beyond 64 bits is cut off.
-/

namespace KatHttp3

open ResponseCache

/-- Whole seconds since the response was stored. -/
def residentSeconds (response : CachedResponse) (now : ClockReading) : ℕ :=
  (now.monotonic - response.storedAtMonotonicNs) / 1000000000

/-- The age of a response as an integer of any size. -/
def exactAge (response : CachedResponse) (now : ClockReading) : ℕ :=
  response.correctedInitialAgeSeconds + residentSeconds response now

/-- What standing in for an error takes. -/
structure WithinStaleWindow (response : CachedResponse) (now : ClockReading) : Prop where
  wall : now.wall.isSome = true
  monotonic : now.monotonic ≠ 0
  stored : response.storedAtMonotonicNs ≠ 0
  optional : response.mustRevalidate = false ∧ response.requiresRevalidation = false
  stale : response.freshnessLifetimeSeconds ≤ exactAge response now
  window : ∃ window, response.staleIfErrorSeconds = some window ∧
    exactAge response now ≤ response.freshnessLifetimeSeconds + window

/-- A reading of the monotonic clock is missing, now or from when the response was stored. -/
def TimeUnknown (response : CachedResponse) (now : ClockReading) : Prop :=
  now.monotonic = 0 ∨ response.storedAtMonotonicNs = 0

/-- An age beyond 64 bits that is past a window which reaches the largest 64-bit number. -/
structure AgeCutOff (response : CachedResponse) (now : ClockReading) (window : ℕ) : Prop where
  age : maxUint64 - response.correctedInitialAgeSeconds < residentSeconds response now
  lifetime : response.freshnessLifetimeSeconds ≤ maxUint64
  reaches : maxUint64 ≤ response.freshnessLifetimeSeconds + window
  past : response.freshnessLifetimeSeconds + window < exactAge response now

/-- The inputs on which the age that is compared is not the age of the response. -/
structure AgeMisjudged (response : CachedResponse) (now : ClockReading) (window : ℕ) : Prop where
  wall : now.wall.isSome = true
  optional : response.mustRevalidate = false ∧ response.requiresRevalidation = false
  cases :
    TimeUnknown response now ∧
        response.freshnessLifetimeSeconds ≤ response.correctedInitialAgeSeconds ∧
        response.correctedInitialAgeSeconds ≤ response.freshnessLifetimeSeconds + window ∨
      ¬ TimeUnknown response now ∧ AgeCutOff response now window

/-! ### The age that is compared -/

theorem currentAge_of_timeUnknown {response : CachedResponse} {now : ClockReading}
    (h : TimeUnknown response now) :
    currentAge response now.monotonic = response.correctedInitialAgeSeconds := by
  unfold TimeUnknown at h
  rw [currentAge, if_pos h]

theorem currentAge_of_cutOff {response : CachedResponse} {now : ClockReading}
    (h : ¬ TimeUnknown response now)
    (hage : maxUint64 - response.correctedInitialAgeSeconds < residentSeconds response now) :
    currentAge response now.monotonic = maxUint64 := by
  unfold TimeUnknown at h
  rw [currentAge, if_neg h, saturatingAdd]
  exact if_pos hage

theorem currentAge_of_known {response : CachedResponse} {now : ClockReading}
    (h : ¬ TimeUnknown response now)
    (hage : ¬ maxUint64 - response.correctedInitialAgeSeconds < residentSeconds response now) :
    currentAge response now.monotonic = exactAge response now := by
  unfold TimeUnknown at h
  rw [currentAge, if_neg h, saturatingAdd]
  exact if_neg hage

theorem canServeStaleIfError_iff (response : CachedResponse) (now : ClockReading) :
    canServeStaleIfError response now = true ↔
      now.wall.isSome = true ∧
        (response.mustRevalidate = false ∧ response.requiresRevalidation = false) ∧
        ∃ window, response.staleIfErrorSeconds = some window ∧
          response.freshnessLifetimeSeconds ≤ currentAge response now.monotonic ∧
          currentAge response now.monotonic ≤ response.freshnessLifetimeSeconds + window := by
  unfold canServeStaleIfError
  cases hwindow : response.staleIfErrorSeconds with
  | none => simp
  | some window =>
    cases hwall : now.wall <;> cases hmust : response.mustRevalidate <;>
      cases hrequires : response.requiresRevalidation <;> simp
    omega

/-! ### The window -/

theorem WithinStaleWindow.of_known {response : CachedResponse} {now : ClockReading}
    (hserve : canServeStaleIfError response now = true) (hknown : ¬ TimeUnknown response now)
    (hage : currentAge response now.monotonic = exactAge response now) :
    WithinStaleWindow response now := by
  obtain ⟨hwall, hoptional, window, hwindow, hstale, hle⟩ :=
    (canServeStaleIfError_iff response now).mp hserve
  rw [hage] at hstale hle
  exact ⟨hwall, fun h => hknown (Or.inl h), fun h => hknown (Or.inr h), hoptional, hstale,
    window, hwindow, hle⟩

/-- A response that is served stale is within its window, but where its age is misjudged. -/
theorem canServeStaleIfError_within_iff (response : CachedResponse) (now : ClockReading) :
    (canServeStaleIfError response now = true → WithinStaleWindow response now) ↔
      ∀ window, response.staleIfErrorSeconds = some window →
        ¬ AgeMisjudged response now window := by
  constructor
  · intro hwithin window hwindow hmis
    rcases hmis.cases with ⟨hunknown, hstale, hle⟩ | ⟨hknown, hcut⟩
    · have hserve : canServeStaleIfError response now = true := by
        rw [canServeStaleIfError_iff, currentAge_of_timeUnknown hunknown]
        exact ⟨hmis.wall, hmis.optional, window, hwindow, hstale, hle⟩
      have hin := hwithin hserve
      exact hunknown.elim hin.monotonic hin.stored
    · have hserve : canServeStaleIfError response now = true := by
        rw [canServeStaleIfError_iff, currentAge_of_cutOff hknown hcut.age]
        exact ⟨hmis.wall, hmis.optional, window, hwindow, hcut.lifetime, hcut.reaches⟩
      obtain ⟨window', hwindow', hle⟩ := (hwithin hserve).window
      obtain rfl := Option.some.inj (hwindow.symm.trans hwindow')
      exact absurd hcut.past (Nat.not_lt.mpr hle)
  · intro hjudged hserve
    obtain ⟨hwall, hoptional, window, hwindow, hstale, hle⟩ :=
      (canServeStaleIfError_iff response now).mp hserve
    by_cases hunknown : TimeUnknown response now
    · rw [currentAge_of_timeUnknown hunknown] at hstale hle
      exact absurd ⟨hwall, hoptional, Or.inl ⟨hunknown, hstale, hle⟩⟩ (hjudged window hwindow)
    by_cases hage : maxUint64 - response.correctedInitialAgeSeconds < residentSeconds response now
    · rw [currentAge_of_cutOff hunknown hage] at hstale hle
      by_cases hpast : response.freshnessLifetimeSeconds + window < exactAge response now
      · exact absurd ⟨hwall, hoptional, Or.inr ⟨hunknown, hage, hstale, hle, hpast⟩⟩
          (hjudged window hwindow)
      · refine ⟨hwall, fun h => hunknown (Or.inl h), fun h => hunknown (Or.inr h), hoptional, ?_,
          window, hwindow, Nat.not_lt.mp hpast⟩
        unfold exactAge
        omega
    · exact .of_known hserve hunknown (currentAge_of_known hunknown hage)

/-- A response stored at one second of the monotonic clock and fresh for one second. -/
def staleEntry : CachedResponse where
  statusCode := 200
  storedAtMonotonicNs := 1000000000
  correctedInitialAgeSeconds := 2
  freshnessLifetimeSeconds := 1
  staleIfErrorSeconds := some 5

/-- Without a reading of the monotonic clock it is served however old it is. -/
theorem canServeStaleIfError_without_monotonic :
    canServeStaleIfError staleEntry ⟨some 1000, 0⟩ = true ∧
      ¬ WithinStaleWindow staleEntry ⟨some 1000, 0⟩ :=
  ⟨by decide, fun h => h.monotonic rfl⟩

end KatHttp3
