import KatHttp3.Engine.Callbacks

/-!
# What the callbacks can answer

One lemma for each callback, with all that it can do to the job and all it can
have the engine say.
-/

namespace KatHttp3

open Str

variable {J : Type} (engine : EngineConfig J)

/-- The part of a job that no callback changes. -/
structure Job.SameRequest (job job' : Job) : Prop where
  id : job'.id = job.id
  request : job'.request = job.request
  url : job'.url = job.url
  redirectCount : job'.redirectCount = job.redirectCount
  cacheRequestHeaders : job'.cacheRequestHeaders = job.cacheRequestHeaders
  cachedResponse : job'.cachedResponse = job.cachedResponse

theorem Job.SameRequest.refl (job : Job) : job.SameRequest job := ⟨rfl, rfl, rfl, rfl, rfl, rfl⟩

/-- The part that only the headers callback changes. -/
structure Job.SameHop (job job' : Job) : Prop extends job.SameRequest job' where
  redirected : job'.redirected = job.redirected
  response : job'.response = job.response
  cacheValidation : job'.cacheValidation = job.cacheValidation

theorem Job.SameHop.refl (job : Job) : job.SameHop job := ⟨.refl job, rfl, rfl, rfl⟩

theorem Job.sameHop_withCapture (job : Job) (capture : Option CacheCapture) :
    job.SameHop { job with cacheCapture := capture } := ⟨⟨rfl, rfl, rfl, rfl, rfl, rfl⟩, rfl, rfl, rfl⟩

/-- Whether the answer of the job is withheld because a stored response takes its place. -/
def Job.withheld (job : Job) : Bool :=
  job.cacheValidation.any fun validation =>
    validation.serveStaleOnError || job.response.statusCode == 304

theorem onJobError_cases (cached : Option ResponseCache) (job : Job) (code : ErrorCode)
    (now : ClockReading) :
    ∃ job' reply, onJobError cached job code now = (job', reply) ∧ job.SameHop job' ∧
      (job.redirected = true ∧ reply = none ∨
        job.redirected = false ∧ (∃ r, reply = some (.stored r)) ∧ code ≠ .body ∧
          job.cacheValidation.isSome = true ∨
        job.redirected = false ∧ ∃ e, reply = some (.error e)) := by
  unfold onJobError
  by_cases hr : job.redirected = true
  · rw [if_pos hr]
    exact ⟨job, none, rfl, .refl job, Or.inl ⟨hr, rfl⟩⟩
  · rw [if_neg hr]
    rw [Bool.not_eq_true] at hr
    split
    · rename_i validation hv
      split_ifs with h
      · refine ⟨job, _, rfl, .refl job, Or.inr (Or.inl ⟨hr, ⟨_, rfl⟩, ?_, by rw [hv]; rfl⟩)⟩
        rintro rfl
        simp [isStaleIfErrorTransportError] at h
      · exact ⟨_, _, rfl, job.sameHop_withCapture _, Or.inr (Or.inr ⟨hr, code, rfl⟩)⟩
    · exact ⟨_, _, rfl, job.sameHop_withCapture _, Or.inr (Or.inr ⟨hr, code, rfl⟩)⟩

theorem onJobBody_cases (job : Job) (chunk : Chunk) :
    ∃ job' reply, onJobBody job chunk = (job', reply) ∧ job.SameHop job' ∧
      (job.withheld = true ∧ reply = none ∨ job.withheld = false ∧ reply = some (.chunk chunk)) := by
  unfold onJobBody Job.withheld
  dsimp only
  have hsame (count : ℕ) (capture : Option CacheCapture) :
      job.SameHop { job with receivedBodyBytes := count, cacheCapture := capture } :=
    ⟨⟨rfl, rfl, rfl, rfl, rfl, rfl⟩, rfl, rfl, rfl⟩
  split_ifs with h
  · exact ⟨_, _, rfl, hsame _ job.cacheCapture, Or.inl ⟨h, rfl⟩⟩
  · exact ⟨_, _, rfl, hsame _ _, Or.inr ⟨by simpa using h, rfl⟩⟩

theorem Job.withheld_iff (job : Job) :
    job.withheld = true ↔ ∃ validation, job.cacheValidation = some validation ∧
      (validation.serveStaleOnError = true ∨ job.response.statusCode = 304) := by
  simp [Job.withheld, Option.any_eq_true]

theorem completeValidation_cases (cache : ResponseCache) (job : Job) (validation : CacheValidation)
    (now : ClockReading) :
    (∃ r, (engine.completeValidation cache job validation now).2 = .stored r) ∨
      ∃ e, (engine.completeValidation cache job validation now).2 = .error e := by
  unfold EngineConfig.completeValidation
  dsimp only
  split
  · exact Or.inl ⟨_, rfl⟩
  · exact Or.inr ⟨_, rfl⟩

theorem storeJobResponse_cases (config : ResponseCacheConfig) (cached : Option ResponseCache)
    (job : Job) (now : ClockReading) :
    ∃ cached' job', storeJobResponse config cached job now = (cached', job') ∧
      job.SameHop job' ∧ cached'.isSome = cached.isSome := by
  unfold storeJobResponse
  split
  · split_ifs
    · exact ⟨_, job, rfl, .refl job, rfl⟩
    · exact ⟨_, _, rfl, job.sameHop_withCapture _, rfl⟩
  · exact ⟨_, job, rfl, .refl job, rfl⟩

theorem onJobComplete_cases (shared : Shared J) (job : Job) (now : ClockReading)
    (hcache : job.cacheValidation.isSome = true → shared.cache.isSome = true) :
    ∃ shared' job' reply, engine.onJobComplete shared job now = (shared', job', reply) ∧
      job.SameHop job' ∧ shared'.cache.isSome = shared.cache.isSome ∧
      (job.redirected = true ∧ reply = none ∨
        job.redirected = false ∧ job.withheld = true ∧
          ((∃ r, reply = some (.stored r)) ∨ ∃ e, reply = some (.error e)) ∨
        job.redirected = false ∧ job.withheld = false ∧
          (reply = some .complete ∨ ∃ e, reply = some (.error e))) := by
  have hwithheld := job.withheld_iff
  unfold EngineConfig.onJobComplete
  by_cases hr : job.redirected = true
  · rw [if_pos hr]
    exact ⟨_, job, none, rfl, .refl job, rfl, Or.inl ⟨hr, rfl⟩⟩
  · rw [if_neg hr]
    rw [Bool.not_eq_true] at hr
    split
    · rename_i validation hstale
      obtain ⟨hv, hs⟩ := Option.filter_eq_some_iff.mp hstale
      exact ⟨_, job, _, rfl, .refl job, rfl,
        Or.inr (Or.inl ⟨hr, hwithheld.mpr ⟨validation, hv, Or.inl hs⟩, Or.inl ⟨_, rfl⟩⟩)⟩
    · rename_i hstale
      split_ifs
      · refine ⟨_, _, _, rfl, job.sameHop_withCapture _, rfl, ?_⟩
        cases hw : job.withheld with
        | true => exact Or.inr (Or.inl ⟨hr, rfl, Or.inr ⟨_, rfl⟩⟩)
        | false => exact Or.inr (Or.inr ⟨hr, rfl, Or.inr ⟨_, rfl⟩⟩)
      · split
        · rename_i validation cache hmatch hcached
          obtain ⟨hv, hs⟩ := Option.filter_eq_some_iff.mp hmatch
          refine ⟨_, job, _, rfl, .refl job, by rw [hcached]; rfl, Or.inr (Or.inl
            ⟨hr, hwithheld.mpr ⟨validation, hv, Or.inr (by simpa using hs)⟩, ?_⟩)⟩
          rcases completeValidation_cases engine cache job validation now with ⟨r, h⟩ | ⟨e, h⟩
          · exact Or.inl ⟨r, congrArg some h⟩
          · exact Or.inr ⟨e, congrArg some h⟩
        · rename_i hnone
          obtain ⟨cached', job', hstore, hsame, hsome⟩ :=
            storeJobResponse_cases engine.cacheConfig shared.cache job now
          rw [hstore]
          refine ⟨_, job', _, rfl, hsame, hsome, Or.inr (Or.inr ⟨hr, ?_, Or.inl rfl⟩)⟩
          rw [← Bool.not_eq_true, hwithheld]
          rintro ⟨validation, hv, hs | hs⟩
          · exact absurd (Option.filter_eq_some_iff.mpr ⟨hv, hs⟩) (by rw [hstale]; simp)
          · obtain ⟨cache, hcached⟩ := Option.isSome_iff_exists.mp (hcache (by rw [hv]; rfl))
            exact hnone validation cache
              (Option.filter_eq_some_iff.mpr ⟨hv, by simpa using hs⟩) hcached

/-- A nonempty Cookie value that the jar gave at some time. -/
def EngineConfig.JarCookie (cookie : Str) : Prop :=
  cookie ≠ [] ∧ ∃ cookies url now, (engine.jar.cookieHeader cookies url now).2 = cookie

theorem withCookies_cases (shared : Shared J) (request : Request) (url : Url) (now : ClockReading) :
    ∃ shared' cookie, engine.withCookies shared request url now =
        (shared', addCookieHeader request cookie) ∧ shared'.cache = shared.cache ∧
      (cookie = [] ∨ engine.JarCookie cookie) := by
  unfold EngineConfig.withCookies
  split_ifs
  · exact ⟨_, _, rfl, rfl, or_iff_not_imp_left.mpr fun hne => ⟨hne, _, _, _, rfl⟩⟩
  · exact ⟨shared, [], rfl, rfl, Or.inl rfl⟩

@[simp] theorem storeCookies_cache (shared : Shared J) (url : Url) (headers : HeaderList)
    (now : ClockReading) : (engine.storeCookies shared url headers now).cache = shared.cache := by
  unfold EngineConfig.storeCookies
  split_ifs <;> rfl

theorem dropValidation_cases (shared : Shared J) (job : Job) (status : ℕ) :
    ∃ shared' validation, dropValidation shared job status =
        (shared', { job with cacheValidation := validation }) ∧
      shared'.cache.isSome = shared.cache.isSome ∧
      (validation = job.cacheValidation ∨ validation = none) := by
  unfold dropValidation
  split
  · split_ifs
    · exact ⟨_, none, rfl, Option.isSome_map, Or.inr rfl⟩
    · exact ⟨_, job.cacheValidation, rfl, rfl, Or.inl rfl⟩
  · exact ⟨_, job.cacheValidation, rfl, rfl, Or.inl rfl⟩

/-- What the headers callback can answer when it does not follow a redirect. -/
theorem onResponseHeaders_cases (shared : Shared J) (job : Job) (status : ℕ)
    (headers : HeaderList) (now : ClockReading) (hstatus : job.response.statusCode = status)
    (hr : job.redirected = false) :
    ∃ shared' job' reply, engine.onResponseHeaders shared job status headers now =
        (shared', job', reply) ∧
      shared'.cache.isSome = shared.cache.isSome ∧ job.SameRequest job' ∧
      job'.redirected = false ∧
      (job'.cacheValidation.isSome = true → job.cacheValidation.isSome = true) ∧
      (reply = some (.expose status headers) ∧ job'.cacheValidation = none ∨
        reply = none ∧ job'.withheld = true ∨ ∃ e, reply = some (.error e)) := by
  unfold EngineConfig.onResponseHeaders
  split
  · obtain ⟨job', reply, herror, hsame, hreply⟩ := onJobError_cases shared.cache job .body now
    rw [herror]
    refine ⟨_, _, _, rfl, rfl, hsame.toSameRequest, hsame.redirected.trans hr,
      fun h => by rwa [hsame.cacheValidation] at h, Or.inr (Or.inr ?_)⟩
    rcases hreply with ⟨h, -⟩ | ⟨-, -, h, -⟩ | ⟨-, h⟩
    · exact absurd h (by rw [hr]; simp)
    · exact absurd rfl h
    · exact h
  · rename_i length _
    have hexpose : ∃ shared' job' reply,
        EngineConfig.onResponseHeaders.expose engine status headers
          (engine.storeCookies shared job.url headers now)
          { job with declaredContentLength :=
              (length.map fun n => (n : ℤ)).getD job.declaredContentLength } =
          (shared', job', reply) ∧
        shared'.cache.isSome = shared.cache.isSome ∧ job.SameRequest job' ∧
        job'.redirected = false ∧
        (job'.cacheValidation.isSome = true → job.cacheValidation.isSome = true) ∧
        (reply = some (.expose status headers) ∧ job'.cacheValidation = none) := by
      refine ⟨_, _, _, rfl, ?_, ⟨rfl, rfl, rfl, rfl, rfl, rfl⟩, hr, ?_, rfl, rfl⟩
      · simp
      · intro h
        simp at h
    dsimp only
    split
    · rename_i validation hv
      split_ifs with h304 hstale
      · refine ⟨_, _, _, rfl, by simp, ⟨rfl, rfl, rfl, rfl, rfl, rfl⟩, hr, fun _ => ?_, Or.inr
          (Or.inl ⟨rfl, ?_⟩)⟩
        · rw [show job.cacheValidation = some validation from hv]
          rfl
        · exact (Job.withheld_iff _).mpr ⟨_, rfl, Or.inr (hstatus.trans h304)⟩
      · refine ⟨_, _, _, rfl, by simp, ⟨rfl, rfl, rfl, rfl, rfl, rfl⟩, hr, fun _ => ?_, Or.inr
          (Or.inl ⟨rfl, ?_⟩)⟩
        · rw [show job.cacheValidation = some validation from hv]
          rfl
        · exact (Job.withheld_iff _).mpr ⟨_, rfl, Or.inl rfl⟩
      · obtain ⟨shared', job', reply, h, h1, h2, h3, h4, h5⟩ := hexpose
        exact ⟨shared', job', reply, h, h1, h2, h3, h4, Or.inl h5⟩
    · obtain ⟨shared', job', reply, h, h1, h2, h3, h4, h5⟩ := hexpose
      exact ⟨shared', job', reply, h, h1, h2, h3, h4, Or.inl h5⟩

/-- What the headers callback can do: follow a redirect, answer, withhold the
answer or fail. -/
theorem onJobHeaders_cases (shared : Shared J) (job : Job) (status : ℕ) (headers : HeaderList)
    (now : ClockReading) (hr : job.redirected = false) :
    ∃ shared' job' reply, engine.onJobHeaders shared job status headers now =
        (shared', job', reply) ∧
      shared'.cache.isSome = shared.cache.isSome ∧ job.SameRequest job' ∧
      (job'.cacheValidation.isSome = true → job.cacheValidation.isSome = true) ∧
      ((∃ dec url cookie, redirectTarget engine.net job status headers = some (dec, url) ∧
          (cookie = [] ∨ engine.JarCookie cookie) ∧ job'.redirected = true ∧
          reply = some (.follow dec (addCookieHeader (redirectRequest job dec url) cookie) url)) ∨
        job'.redirected = false ∧
          (reply = some (.expose status headers) ∧ job'.cacheValidation = none ∨
            reply = none ∧ job'.withheld = true ∨ ∃ e, reply = some (.error e))) := by
  unfold EngineConfig.onJobHeaders
  obtain ⟨shared₁, validation, hdrop, hcache, hvalidation⟩ := dropValidation_cases shared
    { job with response := { statusCode := status, headers := headers } } status
  dsimp only
  rw [hdrop]
  have hkept : validation.isSome = true → job.cacheValidation.isSome = true := by
    rcases hvalidation with h | h
    · rw [h]
      exact id
    · rw [h]
      simp
  dsimp only
  split
  · rename_i dec url htarget
    obtain ⟨shared₂, cookie, hcookie, hcache₂, hjar⟩ := withCookies_cases engine
      { engine.storeCookies shared₁ job.url headers now with
        cache := (engine.storeCookies shared₁ job.url headers now).cache.map
          (invalidateAfterUnsafeRequest engine.net ·
            { job with
              response := { statusCode := status, headers := headers }
              cacheValidation := validation } headers) }
      (redirectRequest job dec url) url now
    refine ⟨shared₂, { job with
        response := { statusCode := status, headers := headers }
        cacheValidation := validation
        redirected := true }, _, ?_, ?_, ⟨rfl, rfl, rfl, rfl, rfl, rfl⟩, hkept, Or.inl
      ⟨dec, url, cookie, htarget, hjar, rfl, rfl⟩⟩
    · exact congrArg (fun p : Shared J × Request => (p.1, _, some (Reply.follow dec p.2 url))) hcookie
    · rw [hcache₂]
      simpa using hcache
  · obtain ⟨shared', job', reply, h, h1, h2, h3, h4, h5⟩ := onResponseHeaders_cases engine
      shared₁ { job with
        response := { statusCode := status, headers := headers }
        cacheValidation := validation } status headers now rfl hr
    exact ⟨shared', job', reply, h, h1.trans hcache, ⟨h2.id, h2.request, h2.url, h2.redirectCount,
      h2.cacheRequestHeaders, h2.cachedResponse⟩, fun hs => hkept (h4 hs), Or.inr ⟨h3, h5⟩⟩

/-! ### Preparing a job -/

theorem addCacheValidator_cases (request : Request) (response : CachedResponse) :
    ∃ added, (addCacheValidator request response).1 =
        { request with headers := request.headers ++ added } ∧
      ∀ header ∈ added,
        header.name = "if-none-match".toList ∨ header.name = "if-modified-since".toList := by
  unfold addCacheValidator
  dsimp only
  split
  · exact ⟨_, rfl, by simp⟩
  · exact ⟨_, rfl, by simp⟩
  · exact ⟨[], by simp, by simp⟩

/-- A prepared job has its request, up to a validator of the cache. -/
theorem startJob_cases (shared : Shared J) (id : ℤ) (request : Request) (url : Url)
    (redirectCount : ℕ) (now : ClockReading) :
    ∃ shared' job', startJob shared id request url redirectCount now = (shared', job') ∧
      shared'.cache.isSome = shared.cache.isSome ∧ job'.url = url ∧ job'.redirected = false ∧
      (job'.cacheValidation.isSome = true → shared.cache.isSome = true) ∧
      job'.originalCacheRequestHeaders = request.headers ∧
      ∃ added, job'.request.headers = request.headers ++ added ∧
        ∀ header ∈ added,
          header.name = "if-none-match".toList ∨ header.name = "if-modified-since".toList := by
  unfold startJob prepareCache
  split
  · exact ⟨_, _, rfl, rfl, rfl, rfl, by simp, rfl, [], by simp, by simp⟩
  · rename_i cache hcache
    dsimp only
    split
    · exact ⟨_, _, rfl, by simp [hcache], rfl, rfl, by simp, rfl, [], by simp, by simp⟩
    · rename_i response _ _
      obtain ⟨added, hadded, hnames⟩ := addCacheValidator_cases request response
      exact ⟨_, _, rfl, by simp [hcache], rfl, rfl, by simp [hcache], rfl, added,
        congrArg Request.headers hadded, hnames⟩
    · exact ⟨_, _, rfl, by simp [hcache], rfl, rfl, by simp, rfl, [], by simp, by simp⟩

end KatHttp3
