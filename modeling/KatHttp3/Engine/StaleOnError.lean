import KatHttp3.Engine.Events
import KatHttp3.Cache.Provenance

/-!
# Stale responses in place of errors

The headers callback decides that a stored response is served in place of an
error response. The decision is carried out when the stream ends: at once if it
completes, after another look at the error code and at the clock if it fails.
-/

namespace KatHttp3

open Str ResponseCache

variable {J : Type}

/-- How the stream of a response ends. -/
inductive StreamEnd
  | completed
  | failed (code : ErrorCode)
  deriving DecidableEq

/-- The body callback for a sequence of chunks. -/
def receiveBody : Job → List Chunk → Job × List AppEvent
  | job, [] => (job, [])
  | job, chunk :: chunks =>
    let (job, reply) := onJobBody job chunk
    let (job, events) := receiveBody job chunks
    (job, reply.toList.flatMap Reply.events ++ events)

/-- What the application gets when the stream ends. -/
def endStream (engine : EngineConfig J) (shared : Shared J) (job : Job) (later : ClockReading) :
    StreamEnd → List AppEvent
  | .completed => (engine.onJobComplete shared job later).2.2.toList.flatMap Reply.events
  | .failed code => (onJobError shared.cache job code later).2.toList.flatMap Reply.events

/-- What the application gets after the headers callback. -/
def afterDecision (engine : EngineConfig J) (shared : Shared J) (job : Job) (chunks : List Chunk)
    (ending : StreamEnd) (later : ClockReading) : List AppEvent :=
  let (job, events) := receiveBody job chunks
  events ++ endStream engine shared job later ending

/-- The stored 200 response as the application gets it. -/
def storedEvents (stored : CachedResponse) (later : ClockReading) : List AppEvent :=
  .headers 200 (deliveredHeaders (responseWithCurrentAge stored later.monotonic)) ::
    ((if stored.body = [] then [] else [.body (.bytes stored.body)]) ++ [.complete])

/-- The stream ends in a way for which the second look comes out as the first. -/
def StaleConfirmed (stored : CachedResponse) (later : ClockReading) : StreamEnd → Prop
  | .completed => True
  | .failed code =>
    isStaleIfErrorTransportError code = true ∧ canServeStaleIfError stored later = true

/-! ### What the job keeps for the error case -/

theorem ofMade_status (config : ResponseCacheConfig) :
    OfMade config fun e => e.statusCode = 200 := by
  intro request statusCode headers body sent now cached entryId hmade
  obtain ⟨rfl, -, hstatus, -⟩ := makeCachedResponse_eq_some hmade
  exact hstatus

/-- What a new job is to validate is an entry of the cache, up to its header fields. -/
theorem startJob_stored {cache : ResponseCache} {cookies : J} {id : ℤ} {request : Request}
    {url : Url} {redirectCount : ℕ} {now : ClockReading} {validation : CacheValidation}
    (h : (startJob ⟨some cache, cookies⟩ id request url redirectCount now).2.cacheValidation =
      some validation) :
    validation.serveStaleOnError = false ∧
      ∃ e ∈ cache.entries, validation.stored.statusCode = e.statusCode := by
  unfold startJob prepareCache at h
  dsimp only at h
  generalize Job.cacheRequest _ _ = asked at h
  split at h
  · cases h
  · rename_i response _ hresponse
    obtain rfl := Option.some.inj h
    refine ⟨rfl, ?_⟩
    rcases lookup_cases cache asked now with hmiss | ⟨i, best, hfound⟩
    · rw [hmiss] at hresponse
      cases hresponse
    · have heq := Option.some.inj (hfound.response.symm.trans hresponse)
      exact ⟨best, List.mem_of_getElem? hfound.position, by rw [← heq]⟩
  · cases h

/-- The job waits for the end of the stream to serve the stored response. -/
structure Decided (job : Job) (v : CacheValidation) : Prop where
  redirected : job.redirected = false
  validation : job.cacheValidation = some v
  serve : v.serveStaleOnError = true

theorem decided_onResponseHeaders (engine : EngineConfig J) {shared : Shared J} {job : Job}
    {status : ℕ} {headers : HeaderList} {now : ClockReading} {v : CacheValidation}
    (hundecided : ∀ v, job.cacheValidation = some v → v.serveStaleOnError = false)
    (hredirected : job.redirected = false)
    (hvalidation : (engine.onResponseHeaders shared job status headers now).2.1.cacheValidation =
      some v)
    (hserve : v.serveStaleOnError = true) :
    Decided (engine.onResponseHeaders shared job status headers now).2.1 v ∧
      ∃ before, job.cacheValidation = some before ∧ v.stored = before.stored := by
  have hother : ∀ before, job.cacheValidation = some before → before ≠ v := by
    rintro before hbefore rfl
    rw [hundecided before hbefore] at hserve
    cases hserve
  revert hvalidation
  unfold EngineConfig.onResponseHeaders
  split
  · obtain ⟨job', reply, herror, hsame, -⟩ := onJobError_cases shared.cache job .body now
    rw [herror]
    intro hvalidation
    exact absurd rfl (hother v (hsame.cacheValidation.symm.trans hvalidation))
  dsimp only
  split
  · rename_i before hbefore
    change job.cacheValidation = some before at hbefore
    split_ifs
    · intro hvalidation
      rw [← Option.some.inj hvalidation] at hserve
      exact absurd hserve (Bool.eq_false_iff.mp (hundecided before hbefore))
    · intro hvalidation
      obtain rfl := Option.some.inj hvalidation
      exact ⟨⟨hredirected, rfl, rfl⟩, before, hbefore, rfl⟩
    · intro hvalidation
      cases hvalidation
  · intro hvalidation
    cases hvalidation

/-- The headers callback decides so only for the response that the job has. -/
theorem decided_onJobHeaders (engine : EngineConfig J) {shared : Shared J} {job : Job}
    {status : ℕ} {headers : HeaderList} {now : ClockReading} {v : CacheValidation}
    (hundecided : ∀ v, job.cacheValidation = some v → v.serveStaleOnError = false)
    (hredirected : job.redirected = false)
    (hvalidation : (engine.onJobHeaders shared job status headers now).2.1.cacheValidation =
      some v)
    (hserve : v.serveStaleOnError = true) :
    Decided (engine.onJobHeaders shared job status headers now).2.1 v ∧
      ∃ before, job.cacheValidation = some before ∧ v.stored = before.stored := by
  obtain ⟨shared₁, kept, hdrop, -, hkept⟩ := dropValidation_cases shared
    { job with response := { statusCode := status, headers := headers } } status
  have hsome : ∀ before, kept = some before → job.cacheValidation = some before := by
    intro before hbefore
    rcases hkept with h | h
    · exact h.symm.trans hbefore
    · rw [h] at hbefore
      cases hbefore
  revert hvalidation
  unfold EngineConfig.onJobHeaders
  dsimp only
  rw [hdrop]
  dsimp only
  split
  · intro hvalidation
    rw [hundecided v (hsome v hvalidation)] at hserve
    cases hserve
  · intro hvalidation
    obtain ⟨hdecided, before, hbefore, hstored⟩ := @decided_onResponseHeaders J engine shared₁
      { job with
        response := { statusCode := status, headers := headers }
        cacheValidation := kept } status headers now v
      (fun v hv => hundecided v (hsome v hv)) hredirected hvalidation hserve
    exact ⟨hdecided, before, hsome before hbefore, hstored⟩

/-! ### The rest of the stream -/

@[simp] theorem responseWithCurrentAge_statusCode (stored : CachedResponse) (monotonic : ℕ) :
    (responseWithCurrentAge stored monotonic).statusCode = stored.statusCode := by
  unfold responseWithCurrentAge
  split_ifs <;> rfl

@[simp] theorem responseWithCurrentAge_body (stored : CachedResponse) (monotonic : ℕ) :
    (responseWithCurrentAge stored monotonic).body = stored.body := by
  unfold responseWithCurrentAge
  split_ifs <;> rfl

variable {job : Job} {v : CacheValidation}

/-- The body of the error response is kept back. -/
theorem Decided.receiveBody (h : Decided job v) (chunks : List Chunk) :
    Decided (receiveBody job chunks).1 v ∧ (KatHttp3.receiveBody job chunks).2 = [] := by
  induction chunks generalizing job with
  | nil => exact ⟨h, rfl⟩
  | cons chunk chunks ih =>
    obtain ⟨job', reply, hbody, hsame, hreply⟩ := onJobBody_cases job chunk
    have hwithheld : job.withheld = true := job.withheld_iff.mpr ⟨v, h.validation, Or.inl h.serve⟩
    have hnext : Decided job' v :=
      ⟨hsame.redirected.trans h.redirected, hsame.cacheValidation.trans h.validation, h.serve⟩
    obtain ⟨-, rfl⟩ := hreply.resolve_right fun hshown => by
      rw [hwithheld] at hshown
      cases hshown.1
    rw [KatHttp3.receiveBody, hbody]
    exact ih hnext

/-- The stored response is delivered at the end unless the second look fails;
then the application gets the error. -/
theorem Decided.endStream (h : Decided job v) (hstatus : v.stored.statusCode = 200)
    (engine : EngineConfig J) (cache : ResponseCache) (cookies : J) (ending : StreamEnd)
    (later : ClockReading) :
    endStream engine ⟨some cache, cookies⟩ job later ending = storedEvents v.stored later ↔
      StaleConfirmed v.stored later ending := by
  have hdelivered : (Reply.stored (responseWithCurrentAge v.stored later.monotonic)).events =
      storedEvents v.stored later := by
    rw [Reply.events, storedEvents, responseWithCurrentAge_statusCode, responseWithCurrentAge_body,
      hstatus]
  cases ending with
  | completed =>
    refine iff_of_true ?_ trivial
    rw [← hdelivered]
    unfold KatHttp3.endStream EngineConfig.onJobComplete
    rw [if_neg (by simp [h.redirected]), h.validation, Option.filter_some_pos h.serve]
    exact List.append_nil _
  | failed code =>
    unfold KatHttp3.endStream onJobError StaleConfirmed
    dsimp only
    rw [if_neg (by simp [h.redirected]), h.validation]
    dsimp only
    by_cases hconfirmed : (isStaleIfErrorTransportError code &&
        canServeStaleIfError v.stored later) = true
    · rw [if_pos (by simpa using hconfirmed)]
      refine iff_of_true ?_ (by simpa using hconfirmed)
      rw [← hdelivered]
      exact List.append_nil _
    · rw [if_neg (by simpa using hconfirmed)]
      refine iff_of_false ?_ (by simpa using hconfirmed)
      intro hevents
      cases hevents

/-- Once the headers callback has decided to serve the stored response, the
application gets exactly that response in every continuation that completes,
and in one that fails exactly if the error is listed and the window still open. -/
theorem afterDecision_iff (engine : EngineConfig J) (ops : List CacheOp) (cookies : J) (id : ℤ)
    (request : Request) (url : Url) (redirectCount : ℕ) (start : ClockReading)
    (shared : Shared J) (status : ℕ) (headers : HeaderList) (now : ClockReading)
    (hvalidation : (engine.onJobHeaders shared
      (startJob ⟨some (CacheRun.after engine.cacheConfig ops).cache, cookies⟩ id request url
        redirectCount start).2 status headers now).2.1.cacheValidation = some v)
    (hserve : v.serveStaleOnError = true) (cache : ResponseCache) (cookies' : J)
    (chunks : List Chunk) (ending : StreamEnd) (later : ClockReading) :
    afterDecision engine ⟨some cache, cookies'⟩ (engine.onJobHeaders shared
        (startJob ⟨some (CacheRun.after engine.cacheConfig ops).cache, cookies⟩ id request url
          redirectCount start).2 status headers now).2.1 chunks ending later =
        storedEvents v.stored later ↔
      StaleConfirmed v.stored later ending := by
  have hstart := @startJob_stored J (CacheRun.after engine.cacheConfig ops).cache cookies id
    request url redirectCount start
  have hredirected : (startJob ⟨some (CacheRun.after engine.cacheConfig ops).cache, cookies⟩ id
      request url redirectCount start).2.redirected = false := by
    obtain ⟨_, job', hjob, -, -, hredirected, -⟩ := startJob_cases
      ⟨some (CacheRun.after engine.cacheConfig ops).cache, cookies⟩ id request url redirectCount
      start
    rw [hjob]
    exact hredirected
  obtain ⟨hdecided, before, hbefore, hstored⟩ := decided_onJobHeaders engine
    (fun v hv => (hstart hv).1) hredirected hvalidation hserve
  have hstatus : v.stored.statusCode = 200 := by
    obtain ⟨-, e, he, heq⟩ := hstart hbefore
    rw [hstored, heq]
    exact CacheRun.forall_mem_after (ofMade_status engine.cacheConfig) ops e he
  obtain ⟨hkept, hnone⟩ := hdecided.receiveBody chunks
  rw [afterDecision]
  dsimp only
  rw [hnone, List.nil_append]
  exact hkept.endStream hstatus engine cache cookies' ending later

/-- A response that may be served for a minute after its second of freshness. -/
def staleOps : List CacheOp :=
  [.store { method := "GET".toList, url := "https://a.test/x".toList }
    { statusCode := 200
      headers := [⟨"cache-control".toList, "max-age=1, stale-if-error=60".toList⟩,
        ⟨"etag".toList, "\"x\"".toList⟩]
      body := "kata".toList } none plainNow]

def staleStart : Shared Unit :=
  ⟨some (CacheRun.after plainEngine.cacheConfig staleOps).cache, ()⟩

def tenSeconds : ClockReading := ⟨some 10, 10000000001⟩

/-- The job after a 503 ten seconds later. -/
def staleJob : Job :=
  (plainEngine.onJobHeaders staleStart
    (startJob staleStart 7 plainGet (urlAt "/x".toList) 0 tenSeconds).2 503 [] tenSeconds).2.1

theorem afterDecision_timeout :
    ∃ v, staleJob.cacheValidation = some v ∧ v.stored.body = "kata".toList ∧
      (afterDecision plainEngine staleStart staleJob [.bytes "oops".toList] (.failed .readTimeout)
          tenSeconds = storedEvents v.stored tenSeconds ↔
        StaleConfirmed v.stored tenSeconds (.failed .readTimeout)) := by
  have hsome : (staleJob.cacheValidation.map fun v =>
      v.serveStaleOnError && v.stored.body == "kata".toList) = some true := by
    decide +kernel
  obtain ⟨v, hv, hstale⟩ := Option.map_eq_some_iff.mp hsome
  rw [Bool.and_eq_true, beq_iff_eq] at hstale
  refine ⟨v, hv, hstale.2, ?_⟩
  exact afterDecision_iff plainEngine staleOps () 7 plainGet (urlAt "/x".toList) 0 tenSeconds
    staleStart 503 [] tenSeconds hv hstale.1 _ () [.bytes "oops".toList] (.failed .readTimeout)
    tenSeconds

/-- The stream is reset behind the 503: the application gets the error instead. -/
theorem afterDecision_reset :
    ∃ v, staleJob.cacheValidation = some v ∧ v.serveStaleOnError = true ∧
      afterDecision plainEngine staleStart staleJob [.bytes "oops".toList] (.failed .http3)
        tenSeconds = [.error .http3] ∧
      afterDecision plainEngine staleStart staleJob [.bytes "oops".toList] (.failed .http3)
        tenSeconds ≠ storedEvents v.stored tenSeconds := by
  have hsome : (staleJob.cacheValidation.map fun v => v.serveStaleOnError) = some true := by
    decide +kernel
  obtain ⟨v, hv, hserve⟩ := Option.map_eq_some_iff.mp hsome
  have hevents : afterDecision plainEngine staleStart staleJob [.bytes "oops".toList]
      (.failed .http3) tenSeconds = [.error .http3] := by
    decide +kernel
  refine ⟨v, hv, hserve, hevents, ?_⟩
  rw [hevents]
  intro heq
  cases heq

end KatHttp3
