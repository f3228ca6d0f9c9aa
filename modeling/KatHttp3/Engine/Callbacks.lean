import KatHttp3.Engine.Job

/-!
# The callbacks of a job

What `engine.cc` does when the headers, a body chunk, the end or the failure of
a response arrive, and how it prepares the job of a new hop. A callback returns
the shared state, the job and at most one reply. The shared state, cache and
cookie jar, is locked for each access only: other requests may change it between
a redirect's bookkeeping and the preparation of the next hop, which are two
functions here.
-/

namespace KatHttp3

open Str

/-- The two operations of the cookie jar that the engine uses. -/
structure CookieJar (J : Type) where
  store : J → Url → HeaderList → ClockReading → J
  cookieHeader : J → Url → ClockReading → J × Str

/-- What is fixed when an engine is made. -/
structure EngineConfig (J : Type) where
  net : InetPton
  jar : CookieJar J
  enableCookies : Bool := false
  cacheConfig : ResponseCacheConfig
  cacheMaxEntryBytes : ℕ := 4 * 1024 * 1024

/-- What the requests of an engine share; the cache is absent when it is disabled. -/
structure Shared (J : Type) where
  cache : Option ResponseCache
  cookies : J
  deriving DecidableEq

/-- What a callback has the engine say, or the redirect it has the engine follow. -/
inductive Reply
  | expose (status : ℕ) (headers : HeaderList)
  | chunk (chunk : Chunk)
  | stored (response : CachedResponse)
  | complete
  | error (code : ErrorCode)
  | follow (dec : RedirectDecision) (request : Request) (url : Url)
  deriving DecidableEq

def kDefaultMaxRedirects : ℕ := 10

def isStaleIfErrorStatus (status : ℕ) : Bool :=
  status = 500 ∨ status = 502 ∨ status = 503 ∨ status = 504

def isStaleIfErrorTransportError : ErrorCode → Bool
  | .dns | .timeout | .dnsTimeout | .connectTimeout | .handshakeTimeout
  | .responseHeadersTimeout | .readTimeout | .writeTimeout | .callTimeout | .networkLost => true
  | _ => false

/-! ### What is delivered -/

/-- The fields of a stored response that the application sees. -/
def deliveredHeaders (response : CachedResponse) : HeaderList :=
  response.headers.filter fun header => !asciiIequals header.name "set-cookie".toList

/-- The events of a reply, in the order of their dispatch. -/
def Reply.events : Reply → List AppEvent
  | .expose status headers => [.headers status headers]
  | .chunk data => [.body data]
  | .stored response =>
    .headers response.statusCode (deliveredHeaders response) ::
      ((if response.body = [] then [] else [.body (.bytes response.body)]) ++ [.complete])
  | .complete => [.complete]
  | .error code => [.error code]
  | .follow .. => []

def deliverCached (cache : Option ResponseCache) (response : CachedResponse) (now : ClockReading) :
    Reply :=
  .stored (if cache.isSome then ResponseCache.responseWithCurrentAge response now.monotonic
    else response)

/-! ### Preparing a request -/

def addCookieHeader (request : Request) (cookie : Str) : Request :=
  if cookie = [] then request
  else if request.headers.any fun header => asciiIequals header.name "cookie".toList then request
  else { request with headers := request.headers.add "cookie".toList cookie }

/-- The request with a validator of the stored response, and whether that is an
If-Modified-Since condition. -/
def addCacheValidator (request : Request) (response : CachedResponse) : Request × Bool :=
  let etag := if request.headers.hasHeader "if-none-match".toList then none else response.etag
  let lastModified :=
    if request.headers.hasHeader "if-modified-since".toList then none else response.lastModified
  match etag, lastModified with
  | some etag, _ =>
    ({ request with headers := request.headers.add "if-none-match".toList etag }, false)
  | none, some lastModified =>
    ({ request with headers := request.headers.add "if-modified-since".toList lastModified }, true)
  | none, none => (request, false)

variable {J : Type}

def prepareCache (shared : Shared J) (job : Job) (now : ClockReading) : Shared J × Job :=
  match shared.cache with
  | none => (shared, job)
  | some cache =>
    let job := { job with cacheRequestHeaders := some job.request.headers }
    let (cache, lookup) := cache.lookup (job.cacheRequest job.request.headers) now
    let shared := { shared with cache := some cache }
    match lookup.state, lookup.response with
    | .fresh, some response => (shared, { job with cachedResponse := some response })
    | .needsValidation, some response =>
      let (request, sentIfModifiedSince) := addCacheValidator job.request response
      (shared, { job with
        request := request
        cacheValidation := some
          { stored := response
            candidateEntryIds := lookup.validationCandidateIds
            sentIfModifiedSince := sentIfModifiedSince } })
    | _, _ => (shared, job)

/-- The job of a hop, first or redirected, up to the choice between the cache
dispatcher and a connection. -/
def startJob (shared : Shared J) (id : ℤ) (request : Request) (url : Url) (redirectCount : ℕ)
    (now : ClockReading) : Shared J × Job :=
  prepareCache shared
    { id := id
      request := request
      url := url
      redirectCount := redirectCount
      streaming := request.streaming
      cacheRequestWallSeconds := now.wall }
    now

/-! ### Effects on the cache -/

def invalidateCacheValidation (cache : ResponseCache) (validation : CacheValidation) :
    ResponseCache :=
  if validation.candidateEntryIds = [] then (cache.invalidateEntry validation.stored.entryId).1
  else validation.candidateEntryIds.foldl (fun cache id => (cache.invalidateEntry id).1) cache

def sameOrigin (url candidate : Url) : Bool :=
  asciiIequals candidate.scheme url.scheme && asciiIequals candidate.host url.host &&
    candidate.effectivePort == url.effectivePort

/-- The URL a Location or Content-Location value names, absolute or resolved as a redirect. -/
def relatedUrl (net : InetPton) (url : Url) (value : Str) : Option Url :=
  match parseUrl net value with
  | some related => some related
  | none =>
    let reference : Response := { statusCode := 302, headers := [⟨"location".toList, value⟩] }
    let resolved := evaluate net "GET".toList url reference true 1
    if resolved.follow then parseUrl net resolved.newUrl else none

def invalidateAfterUnsafeRequest (net : InetPton) (cache : ResponseCache) (job : Job)
    (headers : HeaderList) : ResponseCache :=
  let safe := job.request.method ∈ ["GET".toList, "HEAD".toList, "OPTIONS".toList, "TRACE".toList]
  if safe ∨ job.response.statusCode < 200 ∨ 400 ≤ job.response.statusCode then cache
  else
    let values := headers.getAll "location".toList ++ headers.getAll "content-location".toList
    values.foldl
      (fun cache value =>
        match relatedUrl net job.url value with
        | some related => if sameOrigin job.url related then cache.invalidate related.toString else cache
        | none => cache)
      (cache.invalidate job.url.toString)

/-- The response of a completed job goes to the cache if it was captured. -/
def storeJobResponse (config : ResponseCacheConfig) (cached : Option ResponseCache) (job : Job)
    (now : ClockReading) : Option ResponseCache × Job :=
  match cached, job.cacheCapture with
  | some cache, some capture =>
    if capture.enabled = false ∨ job.redirected ∨ job.response.statusCode ≠ 200 then (cached, job)
    else
      (some (cache.store config (job.cacheRequest job.originalCacheRequestHeaders)
          { job.response with body := capture.body } job.cacheRequestWallSeconds now).1,
        { job with cacheCapture := some { capture with body := [] } })
  | _, _ => (cached, job)

/-! ### Redirects -/

/-- Fields that are not sent on to another origin. -/
def sensitive (name : Str) : Bool :=
  asciiIequals name "authorization".toList || asciiIequals name "proxy-authorization".toList ||
    asciiIequals name "cookie".toList || asciiIequals name "host".toList

/-- Fields that describe the body, dropped with it. -/
def bodyHeader (name : Str) : Bool :=
  asciiIequals name "content-length".toList || asciiIequals name "content-type".toList ||
    asciiIequals name "content-encoding".toList

/-- Whether a field of the request goes along to the next hop. -/
def carriedOver (dec : RedirectDecision) (header : Header) : Bool :=
  !((dec.crossOrigin && sensitive header.name) || (dec.dropBody && bodyHeader header.name))

/-- The decision to follow a redirect and the URL it is sent to, if it is followed. -/
def redirectTarget (net : InetPton) (job : Job) (status : ℕ) (headers : HeaderList) :
    Option (RedirectDecision × Url) :=
  if status / 100 = 3 ∧ status ≠ 304 ∧ job.request.followRedirects then
    let dec := evaluate net job.request.method job.url { statusCode := status, headers := headers }
      true (kDefaultMaxRedirects - job.redirectCount)
    let canReplayBody := !job.request.streamingBody || dec.dropBody
    if dec.follow && canReplayBody && dec.newUrl != [] then
      match parseUrl net dec.newUrl with
      | some url => if url.valid then some (dec, url) else none
      | none => none
    else none
  else none

def redirectRequest (job : Job) (dec : RedirectDecision) (url : Url) : Request where
  method := dec.newMethod
  url := url.toString
  headers := job.originalCacheRequestHeaders.filter (carriedOver dec)
  body := if dec.dropBody then [] else job.request.body
  bodyPresent := if dec.dropBody then false else requestHasBody job.request
  streamingBody := if dec.dropBody then false else job.request.streamingBody
  streamingBodyLength := if dec.dropBody then -1 else job.request.streamingBodyLength
  followRedirects := true
  streaming := job.request.streaming

/-! ### The callbacks -/

/-- The error callback. -/
def onJobError (cached : Option ResponseCache) (job : Job) (code : ErrorCode) (now : ClockReading) :
    Job × Option Reply :=
  if job.redirected then (job, none)
  else
    match job.cacheValidation with
    | some validation =>
      if cached.isSome && isStaleIfErrorTransportError code &&
          ResponseCache.canServeStaleIfError validation.stored now then
        (job, some (deliverCached cached validation.stored now))
      else (disableCapture job, some (.error code))
    | none => (disableCapture job, some (.error code))
where
  disableCapture (job : Job) : Job :=
    { job with cacheCapture := job.cacheCapture.map fun capture =>
        { capture with enabled := false, body := [] } }

/-- The Content-Length of the fields, `some none` without one: `none` if they
are malformed or differ. -/
def contentLength (headers : HeaderList) : Option (Option ℕ) :=
  (headers.filter fun header => asciiIequals header.name "content-length".toList).foldl
    (fun seen header =>
      match seen, fromChars (2 ^ 64 - 1) header.value with
      | some seen, some value =>
        if seen.any (· ≠ value) ∨ 2 ^ 63 ≤ value then none else some (some value)
      | _, _ => none)
    (some none)

/-- A complete answer discards the stored response that was to be validated. -/
def dropValidation (shared : Shared J) (job : Job) (status : ℕ) : Shared J × Job :=
  match job.cacheValidation with
  | some validation =>
    if 200 ≤ status ∧ status < 500 ∧ status ≠ 304 then
      ({ shared with cache := shared.cache.map (invalidateCacheValidation · validation) },
        { job with cacheValidation := none })
    else (shared, job)
  | none => (shared, job)

def onJobBody (job : Job) (chunk : Chunk) : Job × Option Reply :=
  let job := { job with receivedBodyBytes := (job.receivedBodyBytes + chunk.len) % 2 ^ 64 }
  if job.cacheValidation.any fun validation =>
      validation.serveStaleOnError || job.response.statusCode == 304 then
    (job, none)
  else ({ job with cacheCapture := job.cacheCapture.map capture }, some (.chunk chunk))
where
  capture (capture : CacheCapture) : CacheCapture :=
    if capture.enabled = false then capture
    else
      match chunk with
      | .null _ => { capture with enabled := false, body := [] }
      | .bytes data =>
        if capture.maxBytes - capture.body.length < data.length then
          { capture with enabled := false, body := [] }
        else { capture with body := capture.body ++ data }

/-- Whether the body has another length than its Content-Length promised. -/
def lengthMismatch (job : Job) : Bool :=
  let status := job.response.statusCode
  let exempt := job.request.method == "HEAD".toList || status == 204 || status == 304 ||
    status / 100 == 1
  0 ≤ job.declaredContentLength && !exempt &&
    (job.receivedBodyBytes : ℤ) != job.declaredContentLength

namespace EngineConfig

variable (engine : EngineConfig J)

def storeCookies (shared : Shared J) (url : Url) (headers : HeaderList) (now : ClockReading) :
    Shared J :=
  if engine.enableCookies then
    { shared with cookies := engine.jar.store shared.cookies url headers now }
  else shared

def withCookies (shared : Shared J) (request : Request) (url : Url) (now : ClockReading) :
    Shared J × Request :=
  if engine.enableCookies then
    let (cookies, cookie) := engine.jar.cookieHeader shared.cookies url now
    ({ shared with cookies := cookies }, addCookieHeader request cookie)
  else (shared, request)

/-- The capture a response gets that may be stored. -/
def startCapture (shared : Shared J) (job : Job) (status : ℕ) (headers : HeaderList) :
    Option CacheCapture :=
  if shared.cache.isSome && !job.streaming && !job.request.streamingBody &&
      shouldCapture (job.cacheRequest job.originalCacheRequestHeaders) status headers then
    some
      { enabled := !(0 ≤ job.declaredContentLength &&
          decide ((engine.cacheMaxEntryBytes : ℤ) < job.declaredContentLength))
        maxBytes := engine.cacheMaxEntryBytes }
  else job.cacheCapture

/-- The part of the headers callback that hands a response on. -/
def onResponseHeaders (shared : Shared J) (job : Job) (status : ℕ) (headers : HeaderList)
    (now : ClockReading) : Shared J × Job × Option Reply :=
  match contentLength headers with
  | none =>
    let (job, reply) := onJobError shared.cache job .body now
    (shared, job, reply)
  | some length =>
    let job := { job with
      declaredContentLength := (length.map fun n => (n : ℤ)).getD job.declaredContentLength }
    let shared := engine.storeCookies shared job.url headers now
    match job.cacheValidation with
    | some validation =>
      if status = 304 then
        (shared, { job with
          cacheValidation := some { validation with responseHeaders := headers } }, none)
      else if shared.cache.isSome && isStaleIfErrorStatus status &&
          ResponseCache.canServeStaleIfError validation.stored now then
        (shared, { job with
          cacheValidation := some { validation with serveStaleOnError := true } }, none)
      else expose shared job
    | none => expose shared job
where
  expose (shared : Shared J) (job : Job) : Shared J × Job × Option Reply :=
    let shared := { shared with
      cache := shared.cache.map (invalidateAfterUnsafeRequest engine.net · job headers) }
    let job := { job with cacheValidation := none }
    (shared, { job with cacheCapture := engine.startCapture shared job status headers },
      some (.expose status headers))

def onJobHeaders (shared : Shared J) (job : Job) (status : ℕ) (headers : HeaderList)
    (now : ClockReading) : Shared J × Job × Option Reply :=
  let job := { job with response := { statusCode := status, headers := headers } }
  let (shared, job) := dropValidation shared job status
  match redirectTarget engine.net job status headers with
  | some (dec, url) =>
    let shared := engine.storeCookies shared job.url headers now
    let shared := { shared with
      cache := shared.cache.map (invalidateAfterUnsafeRequest engine.net · job headers) }
    let (shared, request) := engine.withCookies shared (redirectRequest job dec url) url now
    (shared, { job with redirected := true }, some (.follow dec request url))
  | none => engine.onResponseHeaders shared job status headers now

/-- The stored response a validation ends with, unless the 304 does not fit it. -/
def completeValidation (cache : ResponseCache) (job : Job) (validation : CacheValidation)
    (now : ClockReading) : ResponseCache × Reply :=
  let (cache, merged) := cache.merge304 engine.cacheConfig validation.stored
    (job.cacheRequest job.originalCacheRequestHeaders)
    { responseHeaders := validation.responseHeaders
      requestWallSeconds := job.cacheRequestWallSeconds
      sentIfModifiedSince := validation.sentIfModifiedSince
      now := now }
    validation.candidateEntryIds
  match merged with
  | some merged => (cache, deliverCached (some cache) merged.delivery now)
  | none => (invalidateCacheValidation cache validation, .error .http3)

def onJobComplete (shared : Shared J) (job : Job) (now : ClockReading) :
    Shared J × Job × Option Reply :=
  if job.redirected then (shared, job, none)
  else
    match job.cacheValidation.filter CacheValidation.serveStaleOnError with
    | some validation => (shared, job, some (deliverCached shared.cache validation.stored now))
    | none =>
      if lengthMismatch job then (shared, onJobError.disableCapture job, some (.error .body))
      else
        match job.cacheValidation.filter fun _ => job.response.statusCode = 304, shared.cache with
        | some validation, some cache =>
          let (cache, reply) := engine.completeValidation cache job validation now
          ({ shared with cache := some cache }, job, some reply)
        | _, _ =>
          let (cached, job) := storeJobResponse engine.cacheConfig shared.cache job now
          ({ shared with cache := cached }, job, some .complete)

end EngineConfig

end KatHttp3
