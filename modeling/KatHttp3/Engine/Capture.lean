import KatHttp3.Engine.Credentials
import KatHttp3.Cache.Runs

/-!
# What a request stores

The body of a cacheable response is captured beside its delivery. The cache gets
it at the end of the stream, and only if every byte was captured.
-/

namespace KatHttp3

open Str

variable {J : Type} {engine : EngineConfig J} {shared shared' : Shared J}

/-- No entry of the cache is new. -/
def AddsNone (before after : Option ResponseCache) : Prop :=
  ∀ cache', after = some cache' → ∃ cache, before = some cache ∧ cache'.entries ⊆ cache.entries

namespace AddsNone

variable {before between after : Option ResponseCache}

theorem refl (cached : Option ResponseCache) : AddsNone cached cached :=
  fun cache h => ⟨cache, h, List.Subset.refl _⟩

theorem trans (h : AddsNone before between) (h' : AddsNone between after) :
    AddsNone before after := by
  intro cache'' hafter
  obtain ⟨cache', hbetween, hsub'⟩ := h' cache'' hafter
  obtain ⟨cache, hbefore, hsub⟩ := h cache' hbetween
  exact ⟨cache, hbefore, List.Subset.trans hsub' hsub⟩

theorem map {f : ResponseCache → ResponseCache} (hf : ∀ cache, (f cache).entries ⊆ cache.entries)
    (cached : Option ResponseCache) : AddsNone cached (cached.map f) := by
  intro cache' h
  obtain ⟨cache, hcache, rfl⟩ := Option.map_eq_some_iff.mp h
  exact ⟨cache, hcache, hf cache⟩

end AddsNone

theorem invalidate_subset (cache : ResponseCache) (url : Str) :
    (cache.invalidate url).entries ⊆ cache.entries :=
  fun _ h => (ResponseCache.mem_invalidate.mp h).1

theorem invalidateCacheValidation_subset (cache : ResponseCache) (validation : CacheValidation) :
    (invalidateCacheValidation cache validation).entries ⊆ cache.entries := by
  unfold invalidateCacheValidation
  split_ifs
  · exact (ResponseCache.invalidateEntry_sublist cache _).1.subset
  · induction validation.candidateEntryIds generalizing cache with
    | nil => exact List.Subset.refl _
    | cons id ids ih =>
      exact List.Subset.trans (ih (cache.invalidateEntry id).1)
        (ResponseCache.invalidateEntry_sublist cache id).1.subset

theorem invalidateAfterUnsafeRequest_subset (net : InetPton) (cache : ResponseCache) (job : Job)
    (headers : HeaderList) :
    (invalidateAfterUnsafeRequest net cache job headers).entries ⊆ cache.entries := by
  unfold invalidateAfterUnsafeRequest
  dsimp only
  split_ifs
  · exact List.Subset.refl _
  · generalize headers.getAll "location".toList ++ headers.getAll "content-location".toList = values
    apply List.Subset.trans _ (invalidate_subset cache job.url.toString)
    generalize cache.invalidate job.url.toString = start
    induction values generalizing start with
    | nil => exact List.Subset.refl _
    | cons value values ih =>
      rw [List.foldl_cons]
      apply List.Subset.trans (ih _)
      split
      · split_ifs
        · exact invalidate_subset start _
        · exact List.Subset.refl _
      · exact List.Subset.refl _

theorem dropValidation_addsNone (shared : Shared J) (job : Job) (status : ℕ) :
    AddsNone shared.cache (dropValidation shared job status).1.cache := by
  unfold dropValidation
  split
  · split_ifs
    · exact .map (fun cache => invalidateCacheValidation_subset cache _) shared.cache
    · exact .refl _
  · exact .refl _

theorem onResponseHeaders_addsNone (shared : Shared J) (job : Job) (status : ℕ)
    (headers : HeaderList) (now : ClockReading) :
    AddsNone shared.cache (engine.onResponseHeaders shared job status headers now).1.cache := by
  have hexpose (job : Job) : AddsNone shared.cache
      (EngineConfig.onResponseHeaders.expose engine status headers
        (engine.storeCookies shared job.url headers now) job).1.cache := by
    unfold EngineConfig.onResponseHeaders.expose
    dsimp only
    rw [storeCookies_cache]
    exact .map (fun cache => invalidateAfterUnsafeRequest_subset _ cache _ _) shared.cache
  have hkept : AddsNone shared.cache (engine.storeCookies shared job.url headers now).cache := by
    rw [storeCookies_cache]
    exact .refl _
  unfold EngineConfig.onResponseHeaders
  split
  · exact .refl _
  · dsimp only
    split
    · split_ifs
      · exact hkept
      · exact hkept
      · exact hexpose _
    · exact hexpose _

theorem onJobHeaders_addsNone (shared : Shared J) (job : Job) (status : ℕ) (headers : HeaderList)
    (now : ClockReading) :
    AddsNone shared.cache (engine.onJobHeaders shared job status headers now).1.cache := by
  have hdrop := dropValidation_addsNone shared
    { job with response := { statusCode := status, headers := headers } } status
  unfold EngineConfig.onJobHeaders
  dsimp only
  apply hdrop.trans
  generalize dropValidation shared
    { job with response := { statusCode := status, headers := headers } } status = dropped
  split
  · rename_i dec url _
    obtain ⟨shared', cookie, hcookies, hcache, -⟩ := withCookies_cases engine
      { engine.storeCookies dropped.1 dropped.2.url headers now with
        cache := (engine.storeCookies dropped.1 dropped.2.url headers now).cache.map
          (invalidateAfterUnsafeRequest engine.net · dropped.2 headers) }
      (redirectRequest dropped.2 dec url) url now
    dsimp only
    rw [hcookies]
    dsimp only
    rw [hcache, storeCookies_cache]
    exact .map (fun cache => invalidateAfterUnsafeRequest_subset _ cache _ _) dropped.1.cache
  · exact onResponseHeaders_addsNone dropped.1 dropped.2 status headers now

theorem startJob_addsNone (shared : Shared J) (id : ℤ) (request : Request) (url : Url)
    (redirectCount : ℕ) (now : ClockReading) :
    AddsNone shared.cache (startJob shared id request url redirectCount now).1.cache := by
  unfold startJob prepareCache
  split
  · exact .refl _
  · rename_i cache hcache
    have hlookup (r : CacheRequest) : AddsNone shared.cache (some (cache.lookup r now).1) := by
      intro cache' heq
      cases heq
      exact ⟨cache, hcache, (ResponseCache.lookup_perm cache r now).1.subset⟩
    dsimp only
    split
    · exact hlookup _
    · exact hlookup _
    · exact hlookup _

/-! ### The capture of a response -/

theorem shouldCapture_plain {request : CacheRequest} {status : ℕ} {headers : HeaderList}
    (h : shouldCapture request status headers = true) :
    request.method = "GET".toList ∧ status = 200 := by
  unfold shouldCapture at h
  dsimp only at h
  split_ifs at h with hbypassed
  all_goals
    simp only [requestCacheBypassed, Bool.or_eq_true, bne_iff_ne, ne_eq, not_or, not_not] at hbypassed
    exact ⟨hbypassed.1.1.1.1.1.1.1.1, hbypassed.2⟩

/-- A job for which no response has arrived. -/
structure Job.Unanswered (job : Job) : Prop where
  capture : job.cacheCapture = none
  length : job.declaredContentLength = -1
  count : job.receivedBodyBytes = 0

/-- A capture starts empty, when a response with status 200 to a GET is exposed. -/
structure StartsCapture (engine : EngineConfig J) (job : Job) (status : ℕ) (headers : HeaderList)
    (capture : CacheCapture) : Prop where
  method : job.request.method = "GET".toList
  status_eq : status = 200 ∧ job.response.statusCode = 200
  validation : job.cacheValidation = none
  body : capture.body = []
  maxBytes : capture.maxBytes = engine.cacheMaxEntryBytes
  count : job.receivedBodyBytes = 0
  length : ∃ length, contentLength headers = some length ∧
    job.declaredContentLength = (length.map fun n => (n : ℤ)).getD (-1)

/-- A failed job has its capture disabled, unless its response is not its own. -/
theorem onJobError_capture {cached : Option ResponseCache} {job job' : Job} {code : ErrorCode}
    {now : ClockReading} {reply : Option Reply} (h : onJobError cached job code now = (job', reply)) :
    job' = job ∧ (job.redirected = true ∨ job.cacheValidation.isSome = true) ∨
      job' = onJobError.disableCapture job := by
  unfold onJobError at h
  split_ifs at h with hredirected
  · cases h
    exact Or.inl ⟨rfl, Or.inl hredirected⟩
  · split at h
    · rename_i validation hvalidation
      split_ifs at h
      · cases h
        exact Or.inl ⟨rfl, Or.inr (by rw [hvalidation]; rfl)⟩
      · cases h
        exact Or.inr rfl
    · cases h
      exact Or.inr rfl

theorem disableCapture_eq_none {job : Job} (h : job.cacheCapture = none) :
    (onJobError.disableCapture job).cacheCapture = none := by
  simp [onJobError.disableCapture, h]

theorem onResponseHeaders_capture {job job' : Job} {status : ℕ} {headers : HeaderList}
    {now : ClockReading} {reply : Option Reply} {capture : CacheCapture}
    (h : engine.onResponseHeaders shared job status headers now = (shared', job', reply))
    (hresponse : job.response.statusCode = status) (hnew : job.Unanswered)
    (hcapture : job'.cacheCapture = some capture) :
    reply = some (.expose status headers) ∧ StartsCapture engine job' status headers capture := by
  unfold EngineConfig.onResponseHeaders at h
  split at h
  · rcases herror : onJobError shared.cache job .body now with ⟨job₁, reply₁⟩
    rw [herror] at h
    cases h
    rcases onJobError_capture herror with ⟨rfl, -⟩ | rfl
    · rw [hnew.capture] at hcapture
      cases hcapture
    · rw [disableCapture_eq_none hnew.capture] at hcapture
      cases hcapture
  · rename_i length hlen
    have hexpose {shared₁ : Shared J} {job₁ : Job}
        (h : EngineConfig.onResponseHeaders.expose engine status headers shared₁ job₁ =
          (shared', job', reply))
        (hresponse₁ : job₁.response.statusCode = status) (hnone₁ : job₁.cacheCapture = none)
        (hcount₁ : job₁.receivedBodyBytes = 0)
        (hlength₁ : job₁.declaredContentLength = (length.map fun n => (n : ℤ)).getD (-1)) :
        reply = some (.expose status headers) ∧
          StartsCapture engine job' status headers capture := by
      unfold EngineConfig.onResponseHeaders.expose at h
      cases h
      dsimp only at hcapture
      unfold EngineConfig.startCapture at hcapture
      split_ifs at hcapture with hstarts
      · cases hcapture
        simp only [Bool.and_eq_true] at hstarts
        obtain ⟨hmethod, hstatus⟩ := shouldCapture_plain hstarts.2
        exact ⟨rfl, hmethod, ⟨hstatus, hresponse₁.trans hstatus⟩, rfl, rfl, rfl, hcount₁, length, hlen,
          hlength₁⟩
      · rw [hnone₁] at hcapture
        cases hcapture
    dsimp only at h
    rw [hnew.length] at h
    split at h
    · split_ifs at h
      · cases h
        rw [hnew.capture] at hcapture
        cases hcapture
      · cases h
        rw [hnew.capture] at hcapture
        cases hcapture
      · exact hexpose h hresponse hnew.capture hnew.count rfl
    · exact hexpose h hresponse hnew.capture hnew.count rfl

theorem onJobHeaders_capture {job job' : Job} {status : ℕ} {headers : HeaderList}
    {now : ClockReading} {reply : Option Reply} {capture : CacheCapture}
    (h : engine.onJobHeaders shared job status headers now = (shared', job', reply))
    (hnew : job.Unanswered) (hcapture : job'.cacheCapture = some capture) :
    reply = some (.expose status headers) ∧ StartsCapture engine job' status headers capture := by
  obtain ⟨shared₁, validation, hdrop, -⟩ := dropValidation_cases shared
    { job with response := { statusCode := status, headers := headers } } status
  unfold EngineConfig.onJobHeaders at h
  dsimp only at h
  rw [hdrop] at h
  dsimp only at h
  split at h
  · cases h
    rw [hnew.capture] at hcapture
    cases hcapture
  · exact onResponseHeaders_capture h rfl ⟨hnew.capture, hnew.length, hnew.count⟩ hcapture

/-- A chunk keeps the capture only if it has bytes and there is room for them. -/
theorem capture_cases (chunk : Chunk) (capture : CacheCapture) :
    (onJobBody.capture chunk capture).maxBytes = capture.maxBytes ∧
      ((onJobBody.capture chunk capture).enabled = false ∧
          ((onJobBody.capture chunk capture).body = [] ∨
            (onJobBody.capture chunk capture).body = capture.body) ∨
        ∃ data, chunk = .bytes data ∧ capture.enabled = true ∧
          data.length ≤ capture.maxBytes - capture.body.length ∧
          (onJobBody.capture chunk capture).body = capture.body ++ data) := by
  unfold onJobBody.capture
  split_ifs with hdisabled
  · exact ⟨rfl, Or.inl ⟨hdisabled, Or.inr rfl⟩⟩
  · split
    · exact ⟨rfl, Or.inl ⟨rfl, Or.inl rfl⟩⟩
    · rename_i data
      split_ifs with hfull
      · exact ⟨rfl, Or.inl ⟨rfl, Or.inl rfl⟩⟩
      · exact ⟨rfl, Or.inr ⟨data, rfl, by simpa using hdisabled, Nat.not_lt.mp hfull, rfl⟩⟩

theorem storeJobResponse_eq (config : ResponseCacheConfig) (cached : Option ResponseCache) (job : Job)
    (now : ClockReading) :
    storeJobResponse config cached job now = (cached, job) ∨
      ∃ cache capture, cached = some cache ∧ job.cacheCapture = some capture ∧
        capture.enabled = true ∧
        storeJobResponse config cached job now =
          (some (cache.store config (job.cacheRequest job.originalCacheRequestHeaders)
              { job.response with body := capture.body } job.cacheRequestWallSeconds now).1,
            { job with cacheCapture := some { capture with body := [] } }) := by
  unfold storeJobResponse
  split
  · rename_i cache capture hcapture
    split_ifs with hskipped
    · exact Or.inl rfl
    · simp only [not_or, Bool.not_eq_false] at hskipped
      exact Or.inr ⟨cache, capture, rfl, hcapture, hskipped.1, rfl⟩
  · exact Or.inl rfl

/-- The end of a stream changes the cache in two ways: by the merge of a 304 and by a store. -/
theorem onJobComplete_cache (shared : Shared J) (job : Job) (now : ClockReading) :
    (engine.onJobComplete shared job now).1.cache = shared.cache ∨
      (∃ cache validation, shared.cache = some cache ∧ job.cacheValidation = some validation ∧
        job.response.statusCode = 304 ∧
        (engine.onJobComplete shared job now).1.cache =
          some (engine.completeValidation cache job validation now).1) ∨
      ∃ cache capture, shared.cache = some cache ∧ job.cacheCapture = some capture ∧
        capture.enabled = true ∧ lengthMismatch job = false ∧
        (engine.onJobComplete shared job now).1.cache =
          some (cache.store engine.cacheConfig (job.cacheRequest job.originalCacheRequestHeaders)
            { job.response with body := capture.body } job.cacheRequestWallSeconds now).1 := by
  unfold EngineConfig.onJobComplete
  split
  · exact Or.inl rfl
  split
  · exact Or.inl rfl
  split
  · exact Or.inl rfl
  rename_i hlength
  split
  · rename_i validation cache hvalidation hcache
    obtain ⟨hsome, h304⟩ := Option.filter_eq_some_iff.mp hvalidation
    exact Or.inr (Or.inl ⟨cache, validation, hcache, hsome, by simpa using h304, rfl⟩)
  · rcases storeJobResponse_eq engine.cacheConfig shared.cache job now with
      hkept | ⟨cache, capture, hcache, hcapture, henabled, hstored⟩
    · rw [hkept]
      exact Or.inl rfl
    · rw [hstored]
      exact Or.inr (Or.inr ⟨cache, capture, hcache, hcapture, henabled,
        Bool.eq_false_iff.mpr hlength, rfl⟩)

theorem onJobComplete_capture {job job' : Job} {now : ClockReading} {reply : Option Reply}
    (h : engine.onJobComplete shared job now = (shared', job', reply)) {capture : CacheCapture}
    (hcapture : job'.cacheCapture = some capture) :
    ∃ capture₀, job.cacheCapture = some capture₀ ∧ capture.maxBytes = capture₀.maxBytes ∧
      (capture.body = capture₀.body ∨ capture.body = []) := by
  have hsame (heq : job = job') : ∃ capture₀, job.cacheCapture = some capture₀ ∧
      capture.maxBytes = capture₀.maxBytes ∧ (capture.body = capture₀.body ∨ capture.body = []) := by
    rw [heq]
    exact ⟨capture, hcapture, rfl, Or.inl rfl⟩
  unfold EngineConfig.onJobComplete at h
  split at h
  · cases h
    exact hsame rfl
  split at h
  · cases h
    exact hsame rfl
  split at h
  · cases h
    obtain ⟨capture₀, hcapture₀, rfl⟩ := Option.map_eq_some_iff.mp hcapture
    exact ⟨capture₀, hcapture₀, rfl, Or.inr rfl⟩
  split at h
  · cases h
    exact hsame rfl
  rcases storeJobResponse_eq engine.cacheConfig shared.cache job now with
    hkept | ⟨cache, capture₀, -, hcapture₀, -, hstored⟩
  · rw [hkept] at h
    cases h
    exact hsame rfl
  · rw [hstored] at h
    cases h
    cases hcapture
    exact ⟨capture₀, hcapture₀, rfl, Or.inr rfl⟩

theorem startJob_unanswered (shared : Shared J) (id : ℤ) (request : Request) (url : Url)
    (redirectCount : ℕ) (now : ClockReading) :
    (startJob shared id request url redirectCount now).2.Unanswered := by
  unfold startJob prepareCache
  dsimp only
  split
  · exact ⟨rfl, rfl, rfl⟩
  · split
    · exact ⟨rfl, rfl, rfl⟩
    · exact ⟨rfl, rfl, rfl⟩
    · exact ⟨rfl, rfl, rfl⟩

/-! ### What a hop has captured -/

namespace Hop

/-- The capture has every byte of the one response that was exposed. -/
structure Capturing (engine : EngineConfig J) (hop : Hop) (capture : CacheCapture) : Prop where
  answered : ∃ (chunks : List Str) (headers : HeaderList) (length : Option ℕ),
    hop.said = .expose 200 headers :: chunks.map (fun data => .chunk (.bytes data)) ∧
      hop.received = chunks.flatten ∧ contentLength headers = some length ∧
      hop.job.declaredContentLength = (length.map fun n => (n : ℤ)).getD (-1)
  body : capture.body = hop.received
  count : hop.job.receivedBodyBytes = hop.received.length
  maxBytes : capture.maxBytes = engine.cacheMaxEntryBytes
  method : hop.job.request.method = "GET".toList
  status : hop.job.response.statusCode = 200
  redirected : hop.job.redirected = false
  validation : hop.job.cacheValidation = none

structure Captured (engine : EngineConfig J) (hop : Hop) : Prop where
  unstarted : hop.stage ≠ .receiving → hop.stage ≠ .ended →
    hop.job.Unanswered ∧ hop.received = []
  room : ∀ capture, hop.job.cacheCapture = some capture → capture.body.length ≤ capture.maxBytes
  capturing : ∀ capture, hop.job.cacheCapture = some capture → capture.enabled = true →
    hop.stage = .receiving → hop.Capturing engine capture

variable {hop hop' : Hop}

theorem Captured.route (h : hop.Captured engine) {admitted : Bool}
    (hroute : hop.route admitted = some hop') : hop'.Captured engine := by
  unfold Hop.route at hroute
  split_ifs at hroute with hstage hadmitted
  · have hnew := h.unstarted (by simp [not_not.mp hstage]) (by simp [not_not.mp hstage])
    cases hroute
    refine ⟨fun _ _ => hnew, h.room, fun capture hcapture => ?_⟩
    rw [show hop.job.cacheCapture = none from hnew.1.capture] at hcapture
    cases hcapture
  · cases hroute
    exact ⟨fun _ hended => absurd rfl hended, h.room, fun _ _ _ hended => by cases hended⟩

theorem Captured.dispatch (h : hop.Captured engine) {now : ClockReading}
    (hdispatch : hop.dispatch shared now = some hop') : hop'.Captured engine := by
  unfold Hop.dispatch at hdispatch
  split at hdispatch
  · cases hdispatch
    exact ⟨fun _ hended => absurd rfl hended, h.room, fun _ _ _ hended => by cases hended⟩
  · cases hdispatch

theorem Captured.headers (h : hop.Captured engine) (hsaid : hop.said = [])
    (hredirected : hop.job.redirected = false) {status : ℕ} {headers : HeaderList}
    {now : ClockReading}
    (hheaders : Hop.headers engine hop shared status headers now = some (shared', hop')) :
    hop'.Captured engine := by
  unfold Hop.headers at hheaders
  split_ifs at hheaders with hstage
  obtain ⟨hnew, hreceived⟩ := h.unstarted (by simp [hstage]) (by simp [hstage])
  obtain ⟨shared₁, job, reply, hcall, -, hsame, -, hreplies⟩ :=
    onJobHeaders_cases engine shared hop.job status headers now hredirected
  rw [hcall] at hheaders
  cases hheaders
  constructor
  case unstarted => exact fun hreceiving => absurd rfl hreceiving
  case room =>
    intro capture hcapture
    have hstarts := (onJobHeaders_capture hcall hnew hcapture).2
    rw [hstarts.body]
    exact Nat.zero_le _
  case capturing =>
    intro capture hcapture _ _
    obtain ⟨rfl, hstarts⟩ := onJobHeaders_capture hcall hnew hcapture
    obtain ⟨length, hlen, hdeclared⟩ := hstarts.length
    have hopen : job.redirected = false := by
      rcases hreplies with ⟨_, _, _, _, _, _, hfollow⟩ | ⟨hopen, -⟩
      · cases hfollow
      · exact hopen
    constructor
    case answered =>
      refine ⟨[], headers, length, ?_, hreceived, hlen, hdeclared⟩
      simp [Hop.saying, hsaid, hstarts.status_eq.1]
    case body => exact hstarts.body.trans hreceived.symm
    case count => exact hstarts.count.trans (congrArg List.length hreceived).symm
    case maxBytes => exact hstarts.maxBytes
    case method => exact hstarts.method
    case status => exact hstarts.status_eq.2
    case redirected => exact hopen
    case validation => exact hstarts.validation

theorem Captured.chunk (hsize : engine.cacheMaxEntryBytes < 2 ^ 64) (h : hop.Captured engine)
    {chunk : Chunk} (hchunk : hop.chunk chunk = some hop') : hop'.Captured engine := by
  unfold Hop.chunk at hchunk
  split_ifs at hchunk with hstage
  rcases hcall : onJobBody hop.job chunk with ⟨job, reply⟩
  rw [hcall] at hchunk
  cases hchunk
  unfold onJobBody at hcall
  dsimp only at hcall
  split_ifs at hcall with hwithheld
  · cases hcall
    refine ⟨fun hreceiving => absurd hstage hreceiving, h.room, fun capture hcapture henabled _ => ?_⟩
    -- a withheld answer is not captured
    have hvalidation := (h.capturing capture hcapture henabled hstage).validation
    simp [hvalidation] at hwithheld
  · cases hcall
    refine ⟨fun hreceiving => absurd hstage hreceiving, fun capture hcapture => ?_,
      fun capture hcapture henabled _ => ?_⟩
    · obtain ⟨capture₀, hcapture₀, rfl⟩ := Option.map_eq_some_iff.mp hcapture
      have hroom := h.room capture₀ hcapture₀
      obtain ⟨hmax, ⟨-, hbody | hbody⟩ | ⟨data, -, -, hfits, hbody⟩⟩ := capture_cases chunk capture₀
      · rw [hbody]
        exact Nat.zero_le _
      · rw [hbody, hmax]
        exact hroom
      · rw [hbody, hmax, List.length_append]
        omega
    · obtain ⟨capture₀, hcapture₀, rfl⟩ := Option.map_eq_some_iff.mp hcapture
      have hroom := h.room capture₀ hcapture₀
      obtain ⟨hmax, ⟨hdisabled, -⟩ | ⟨data, rfl, henabled₀, hfits, hbody⟩⟩ :=
        capture_cases chunk capture₀
      · rw [hdisabled] at henabled
        cases henabled
      · have hold := h.capturing capture₀ hcapture₀ henabled₀ hstage
        obtain ⟨chunks, headers, length, hsaid, hreceived, hlen, hdeclared⟩ := hold.answered
        constructor
        case answered =>
          refine ⟨chunks ++ [data], headers, length, ?_, ?_, hlen, hdeclared⟩
          · simp [Hop.saying, hsaid]
          · simp [hreceived, Chunk.data]
        case body =>
          rw [hbody, hold.body]
          rfl
        case count =>
          have hlimit : hop.received.length + data.length < 2 ^ 64 := by
            rw [← hold.body]
            rw [hold.maxBytes] at hfits hroom
            omega
          change (hop.job.receivedBodyBytes + data.length) % 2 ^ 64 = (hop.received ++ data).length
          rw [hold.count, List.length_append, Nat.mod_eq_of_lt hlimit]
        case maxBytes => exact hmax.trans hold.maxBytes
        case method => exact hold.method
        case status => exact hold.status
        case redirected => exact hold.redirected
        case validation => exact hold.validation

theorem Captured.finish (h : hop.Captured engine) {now : ClockReading}
    (hfinish : Hop.finish engine hop shared now = some (shared', hop')) : hop'.Captured engine := by
  unfold Hop.finish at hfinish
  split_ifs at hfinish
  rcases hcall : engine.onJobComplete shared hop.job now with ⟨shared₁, job, reply⟩
  rw [hcall] at hfinish
  cases hfinish
  refine ⟨fun _ hended => absurd rfl hended, fun capture hcapture => ?_,
    fun _ _ _ hreceiving => by cases hreceiving⟩
  obtain ⟨capture₀, hcapture₀, hmax, hbody | hbody⟩ := onJobComplete_capture hcall hcapture
  · rw [hbody, hmax]
    exact h.room capture₀ hcapture₀
  · rw [hbody]
    exact Nat.zero_le _

theorem Captured.fail (h : hop.Captured engine) {code : ErrorCode} {now : ClockReading}
    (hfail : hop.fail shared code now = some hop') : hop'.Captured engine := by
  unfold Hop.fail at hfail
  split_ifs at hfail
  rcases hcall : onJobError shared.cache hop.job code now with ⟨job, reply⟩
  rw [hcall] at hfail
  cases hfail
  rcases onJobError_capture hcall with ⟨rfl, hforeign⟩ | rfl
  · refine ⟨h.unstarted, h.room, fun capture hcapture henabled hstage => ?_⟩
    have hold := h.capturing capture hcapture henabled hstage
    rw [hold.redirected, hold.validation] at hforeign
    simp at hforeign
  · refine ⟨fun hreceiving hended => ?_, fun capture hcapture => ?_,
      fun capture hcapture henabled _ => ?_⟩
    · obtain ⟨hnew, hreceived⟩ := h.unstarted hreceiving hended
      exact ⟨⟨disableCapture_eq_none hnew.capture, hnew.length, hnew.count⟩, hreceived⟩
    · obtain ⟨capture₀, -, rfl⟩ := Option.map_eq_some_iff.mp hcapture
      exact Nat.zero_le _
    · obtain ⟨capture₀, -, rfl⟩ := Option.map_eq_some_iff.mp hcapture
      cases henabled

/-- A hop that has just been made. -/
theorem captured_new {job : Job} (h : job.Unanswered) (application : HeaderList) :
    Hop.Captured engine { job := job, application := application } where
  unstarted _ _ := ⟨h, rfl⟩
  room capture hcapture := by
    rw [show job.cacheCapture = none from h.capture] at hcapture
    cases hcapture
  capturing _ _ _ hreceiving := by cases hreceiving

theorem captured_next {next : Hop} {now : ClockReading}
    (h : hop.next shared now = some (shared', next)) : next.Captured engine := by
  unfold Hop.next at h
  obtain ⟨⟨dec, request, url⟩, -, heq⟩ := Option.map_eq_some_iff.mp h
  cases heq
  exact captured_new
    (startJob_unanswered shared hop.job.id request url (hop.job.redirectCount + 1) now) _

/-- Nothing is captured between the callbacks. -/
theorem Captured.between (h : hop.Captured engine) (pending : List AppEvent)
    (following : Option (RedirectDecision × Request × Url)) :
    Hop.Captured engine { hop with pending := pending, following := following } where
  unstarted := h.unstarted
  room := h.room
  capturing capture hcapture henabled hstage := by
    obtain ⟨answered, body, count, maxBytes, method, status, redirected, validation⟩ :=
      h.capturing capture hcapture henabled hstage
    exact ⟨answered, body, count, maxBytes, method, status, redirected, validation⟩

/-- A response that may be stored: it was exposed once and received whole. -/
structure Complete (engine : EngineConfig J) (hop : Hop) : Prop where
  answered : ∃ (chunks : List Str) (headers : HeaderList),
    hop.said = .expose 200 headers :: chunks.map (fun data => .chunk (.bytes data)) ∧
      hop.received = chunks.flatten ∧
      ∀ n, contentLength headers = some (some n) → hop.received.length = n
  limit : hop.received.length ≤ engine.cacheMaxEntryBytes
  redirected : hop.job.redirected = false
  validation : hop.job.cacheValidation = none

theorem Capturing.complete {capture : CacheCapture} (h : hop.Capturing engine capture)
    (hroom : capture.body.length ≤ capture.maxBytes) (hlength : lengthMismatch hop.job = false) :
    hop.Complete engine := by
  obtain ⟨chunks, headers, length, hsaid, hreceived, hlen, hdeclared⟩ := h.answered
  constructor
  case answered =>
    refine ⟨chunks, headers, hsaid, hreceived, fun n hn => ?_⟩
    rw [hlen] at hn
    cases hn
    simpa [lengthMismatch, h.method, h.status, hdeclared, h.count] using hlength
  case limit =>
    rw [h.body, h.maxBytes] at hroom
    exact hroom
  case redirected => exact h.redirected
  case validation => exact h.validation

end Hop

namespace Call

variable {c c' : Call J}

/-- Headers do not arrive for a job that has failed. -/
def headersFirst (c : Call J) : CallStep J → Bool
  | .headers k _ _ _ => c.hops[k]?.all fun hop => hop.said == []
  | _ => true

def AllCaptured (engine : EngineConfig J) (c : Call J) : Prop :=
  ∀ hop ∈ c.hops, hop.Captured engine

theorem AllCaptured.set (h : c.AllCaptured engine) {k : ℕ} {hop' : Hop} {shared : Shared J}
    {live : Bool} {log : List AppEvent} (hnew : hop'.Captured engine) :
    AllCaptured engine
      { c with shared := shared, hops := c.hops.set k hop', live := live, log := log } := by
  intro hop hmem
  rcases List.mem_or_eq_of_mem_set hmem with hmem | rfl
  · exact h hop hmem
  · exact hnew

theorem AllCaptured.callback (h : c.AllCaptured engine) {k : ℕ} {f : Hop → Option (Shared J × Hop)}
    (hf : ∀ hop shared hop', c.hops[k]? = some hop → hop.Captured engine →
      f hop = some (shared, hop') → hop'.Captured engine)
    (hstep : c.callback k f = some c') : c'.AllCaptured engine := by
  obtain ⟨hop, shared, hop', hk, -, heq, rfl⟩ := callback_cases hstep
  exact h.set (hf hop shared hop' hk (h hop (List.mem_iff_getElem?.mpr ⟨k, hk⟩)) heq)

/-- Every step keeps the captures whole. -/
theorem AllCaptured.step (hsize : engine.cacheMaxEntryBytes < 2 ^ 64) (hshape : c.Shape)
    (h : c.AllCaptured engine) {i : CallStep J} (hok : c.headersFirst i = true)
    (hstep : c.step engine i = some c') : c'.AllCaptured engine := by
  cases i with
  | interfere shared =>
    simp only [Call.step] at hstep
    split_ifs at hstep
    cases hstep
    exact h
  | route k admitted =>
    apply h.callback _ hstep
    intro hop shared hop' _ hcaptured heq
    obtain ⟨_, hroute, heq⟩ := Option.map_eq_some_iff.mp heq
    cases heq
    exact hcaptured.route hroute
  | dispatch k now =>
    apply h.callback _ hstep
    intro hop shared hop' _ hcaptured heq
    obtain ⟨_, hdispatch, heq⟩ := Option.map_eq_some_iff.mp heq
    cases heq
    exact hcaptured.dispatch hdispatch
  | headers k status headers now =>
    apply h.callback _ hstep
    intro hop shared hop' hk hcaptured heq
    have hsaid : hop.said = [] := by simpa [headersFirst, hk] using hok
    have hmarked := (hshape.sound hop (List.mem_iff_getElem?.mpr ⟨k, hk⟩)).marked
    have hredirected : hop.job.redirected = false := by
      by_contra hredirected
      have hpassed := hmarked (Bool.eq_true_of_not_eq_false hredirected)
      unfold Hop.headers at heq
      split_ifs at heq with hstage
      exact Hop.not_passed (by simp [hstage]) (by simp [hstage]) hpassed
    exact hcaptured.headers hsaid hredirected heq
  | chunk k chunk =>
    apply h.callback _ hstep
    intro hop shared hop' _ hcaptured heq
    obtain ⟨_, hchunk, heq⟩ := Option.map_eq_some_iff.mp heq
    cases heq
    exact hcaptured.chunk hsize hchunk
  | finish k now =>
    apply h.callback _ hstep
    intro hop shared hop' _ hcaptured heq
    exact hcaptured.finish heq
  | fail k code now =>
    apply h.callback _ hstep
    intro hop shared hop' _ hcaptured heq
    obtain ⟨_, hfail, heq⟩ := Option.map_eq_some_iff.mp heq
    cases heq
    exact hcaptured.fail hfail
  | hop k now =>
    obtain ⟨hop, shared, next, hk, hnext, rfl⟩ := hop_cases hstep
    have hcaptured := h hop (List.mem_iff_getElem?.mpr ⟨k, hk⟩)
    intro x hx
    rcases List.mem_append.mp hx with hx | hx
    · rcases List.mem_or_eq_of_mem_set hx with hx | rfl
      · exact h x hx
      · exact hcaptured.between hop.pending none
    · rw [List.mem_singleton.mp hx]
      exact Hop.captured_next hnext
  | deliver k =>
    obtain ⟨hop, event, rest, hk, -, rfl⟩ := deliver_cases hstep
    have hcaptured := h hop (List.mem_iff_getElem?.mpr ⟨k, hk⟩)
    exact h.set (hcaptured.between rest hop.following)
  | abort code =>
    simp only [Call.step] at hstep
    split_ifs at hstep
    cases hstep
    exact h

theorem allCaptured_execute {shared : Shared J} {id : ℤ} {request : Request} {now : ClockReading}
    (h : execute engine shared id request now = some c) : c.AllCaptured engine := by
  unfold execute at h
  split at h
  · cases h
  · rename_i url _
    cases h
    intro hop hmem
    rw [List.mem_singleton.mp hmem]
    exact Hop.captured_new (startJob_unanswered _ id _ url 0 now) _

/-- What the next step of a request can do to the cache. The end of a stream stores the
response if it is complete and merges it if it is a 304; no other step adds an entry. -/
structure StoresWhole (engine : EngineConfig J) (c : Call J) : Prop where
  room : ∀ hop ∈ c.hops, ∀ capture, hop.job.cacheCapture = some capture →
    capture.body.length ≤ capture.maxBytes
  finished : ∀ k now t, c.step engine (.finish k now) = some t →
    ∃ hop : Hop, c.hops[k]? = some hop ∧
      (t.shared.cache = c.shared.cache ∨
        (∃ cache validation, c.shared.cache = some cache ∧
          hop.job.cacheValidation = some validation ∧ hop.job.response.statusCode = 304 ∧
          t.shared.cache = some (engine.completeValidation cache hop.job validation now).1) ∨
        hop.Complete engine ∧ ∃ cache, c.shared.cache = some cache ∧
          t.shared.cache = some (cache.store engine.cacheConfig
            (hop.job.cacheRequest hop.job.originalCacheRequestHeaders)
            { hop.job.response with body := hop.received } hop.job.cacheRequestWallSeconds now).1)
  unchanged : ∀ i t, c.step engine i = some t → (∀ shared, i ≠ .interfere shared) →
    (∀ k now, i ≠ .finish k now) → AddsNone c.shared.cache t.shared.cache

theorem step_addsNone {i : CallStep J} (hstep : c.step engine i = some c')
    (hinterfere : ∀ shared, i ≠ .interfere shared) (hfinish : ∀ k now, i ≠ .finish k now) :
    AddsNone c.shared.cache c'.shared.cache := by
  cases i with
  | interfere shared => exact absurd rfl (hinterfere shared)
  | finish k now => exact absurd rfl (hfinish k now)
  | route k admitted =>
    obtain ⟨hop, shared, hop', -, -, heq, rfl⟩ := callback_cases hstep
    obtain ⟨_, -, heq⟩ := Option.map_eq_some_iff.mp heq
    cases heq
    exact .refl _
  | dispatch k now =>
    obtain ⟨hop, shared, hop', -, -, heq, rfl⟩ := callback_cases hstep
    obtain ⟨_, -, heq⟩ := Option.map_eq_some_iff.mp heq
    cases heq
    exact .refl _
  | headers k status headers now =>
    obtain ⟨hop, shared, hop', -, -, heq, rfl⟩ := callback_cases hstep
    unfold Hop.headers at heq
    split_ifs at heq
    cases heq
    exact onJobHeaders_addsNone c.shared hop.job status headers now
  | chunk k chunk =>
    obtain ⟨hop, shared, hop', -, -, heq, rfl⟩ := callback_cases hstep
    obtain ⟨_, -, heq⟩ := Option.map_eq_some_iff.mp heq
    cases heq
    exact .refl _
  | fail k code now =>
    obtain ⟨hop, shared, hop', -, -, heq, rfl⟩ := callback_cases hstep
    obtain ⟨_, -, heq⟩ := Option.map_eq_some_iff.mp heq
    cases heq
    exact .refl _
  | hop k now =>
    obtain ⟨hop, shared, next, -, hnext, rfl⟩ := hop_cases hstep
    unfold Hop.next at hnext
    obtain ⟨⟨dec, request, url⟩, -, heq⟩ := Option.map_eq_some_iff.mp hnext
    cases heq
    exact startJob_addsNone c.shared hop.job.id request url (hop.job.redirectCount + 1) now
  | deliver k =>
    obtain ⟨hop, event, rest, -, -, rfl⟩ := deliver_cases hstep
    exact .refl _
  | abort code =>
    simp only [Call.step] at hstep
    split_ifs at hstep
    cases hstep
    exact .refl _

theorem AllCaptured.storesWhole (h : c.AllCaptured engine) : c.StoresWhole engine := by
  constructor
  case room => exact fun hop hmem => (h hop hmem).room
  case finished =>
    intro k now t hstep
    obtain ⟨hop, shared, hop', hk, -, heq, rfl⟩ := callback_cases hstep
    have hcaptured := h hop (List.mem_iff_getElem?.mpr ⟨k, hk⟩)
    unfold Hop.finish at heq
    split_ifs at heq with hstage
    cases heq
    refine ⟨hop, hk, ?_⟩
    rcases @onJobComplete_cache _ engine c.shared hop.job now with
      hkept | hmerged | ⟨cache, capture, hcache, hcapture, henabled, hlength, hstored⟩
    · exact Or.inl hkept
    · exact Or.inr (Or.inl hmerged)
    · have hcapturing := hcaptured.capturing capture hcapture henabled hstage
      have hroom := hcaptured.room capture hcapture
      refine Or.inr (Or.inr ⟨hcapturing.complete hroom hlength, cache, hcache, ?_⟩)
      rw [← hcapturing.body]
      exact hstored
  case unchanged => exact fun i t => step_addsNone

/-- In every run in which no headers arrive for a job that has failed, only complete
responses of the request are stored. -/
theorem run_storesWhole (hsize : engine.cacheMaxEntryBytes < 2 ^ 64) {shared : Shared J} {id : ℤ}
    {request : Request} {now : ClockReading} {steps : List (CallStep J)}
    (hexecute : execute engine shared id request now = some c)
    (hrun : Transition.run (step engine) c steps = some c')
    (hok : Transition.Meets (step engine) (fun c i => c.headersFirst i = true) c steps) :
    c'.StoresWhole engine := by
  have hinv : c'.Shape ∧ c'.AllCaptured engine := by
    apply Transition.run_invariant _ hrun hok
    · exact ⟨(inv_execute hexecute).toShape, allCaptured_execute hexecute⟩
    · intro s i s' h hfirst hstep
      exact ⟨h.1.step (step_cases h.1 hstep), h.2.step hsize h.1 hfirst hstep⟩
  exact hinv.2.storesWhole

/-- A response of two chunks that may be stored, up to its end. -/
def storedSteps : List (CallStep Unit) :=
  [.route 0 true,
    .headers 0 200 [⟨"cache-control".toList, "max-age=60".toList⟩,
      ⟨"content-length".toList, "4".toList⟩] plainNow,
    .deliver 0, .chunk 0 (.bytes "ka".toList), .deliver 0, .chunk 0 (.bytes "ta".toList), .deliver 0]

def cachedStart : Call Unit :=
  { shared := ⟨some {}, ()⟩
    hops := [{
      job := {
        id := 7
        request := plainGet
        url := urlAt "/x".toList
        cacheRequestHeaders := some []
        cacheRequestWallSeconds := some 0 }
      application := [] }] }

theorem run_storesWhole_two_chunks :
    ∃ c t, Transition.run (step plainEngine) cachedStart storedSteps = some c ∧
      c.step plainEngine (.finish 0 plainNow) = some t ∧
      (t.shared.cache.map fun cache => cache.entries.map CachedResponse.body) =
        some ["kata".toList] ∧
      c.StoresWhole plainEngine := by
  obtain ⟨c, hrun, ht⟩ := Option.map_eq_some_iff.mp
    (show (Transition.run (step plainEngine) cachedStart storedSteps).map (fun c =>
        (c.step plainEngine (.finish 0 plainNow)).map fun t =>
          t.shared.cache.map fun cache => cache.entries.map CachedResponse.body) =
      some (some (some ["kata".toList])) by decide +kernel)
  obtain ⟨t, hstep, hbodies⟩ := Option.map_eq_some_iff.mp ht
  have hexecute : execute plainEngine ⟨some {}, ()⟩ 7 plainGet plainNow = some cachedStart := by
    decide +kernel
  exact ⟨c, t, hrun, hstep, hbodies,
    run_storesWhole (by decide) hexecute hrun (by decide +kernel)⟩

end Call

end KatHttp3
