import KatHttp3.Cache.ResponseCache

/-!
# Requests, jobs and events

The data that the engine's callbacks work on. A chunk of a body is the string
of its bytes, or a null pointer with a length.
-/

namespace KatHttp3

/-- `kathttp3_error` without its success value. -/
inductive ErrorCode
  | dns | quic | tls | certificateVerify | hostnameMismatch | noTrustProvider | http3 | timeout
  | cancelled | invalidArg | nomem | closed | body | dnsTimeout | connectTimeout
  | handshakeTimeout | responseHeadersTimeout | readTimeout | writeTimeout | callTimeout
  | consumerStall | networkLost | connectionLimit
  deriving DecidableEq, Repr

inductive Chunk
  | bytes (data : Str)
  | null (len : ℕ)
  deriving DecidableEq, Repr

namespace Chunk

def len : Chunk → ℕ
  | bytes data => data.length
  | null len => len

/-- The bytes a receiver of the chunk can read. -/
def data : Chunk → Str
  | bytes data => data
  | null _ => []

end Chunk

/-- What the application's callback is called with for one request. -/
inductive AppEvent
  | headers (status : ℕ) (headers : HeaderList)
  | body (chunk : Chunk)
  | complete
  | error (code : ErrorCode)
  deriving DecidableEq

namespace AppEvent

def isTerminal : AppEvent → Bool
  | complete => true
  | error _ => true
  | _ => false

end AppEvent

structure Request where
  method : Str := []
  url : Str := []
  headers : HeaderList := []
  body : Str := []
  bodyPresent : Bool := false
  streamingBody : Bool := false
  streamingBodyLength : ℤ := -1
  followRedirects : Bool := true
  streaming : Bool := false
  deriving DecidableEq

def requestHasBody (request : Request) : Bool :=
  request.bodyPresent || request.body != [] || request.streamingBody

structure CacheCapture where
  enabled : Bool := false
  maxBytes : ℕ := 0
  body : Str := []
  deriving DecidableEq

structure CacheValidation where
  stored : CachedResponse
  candidateEntryIds : List ℕ := []
  responseHeaders : HeaderList := []
  serveStaleOnError : Bool := false
  sentIfModifiedSince : Bool := false
  deriving DecidableEq

/-- One request and response exchange: the fields the engine's callbacks use. -/
structure Job where
  id : ℤ := 0
  request : Request := {}
  url : Url := {}
  redirected : Bool := false
  response : Response := {}
  redirectCount : ℕ := 0
  declaredContentLength : ℤ := -1
  receivedBodyBytes : ℕ := 0
  streaming : Bool := false
  cacheCapture : Option CacheCapture := none
  cacheValidation : Option CacheValidation := none
  cachedResponse : Option CachedResponse := none
  cacheRequestHeaders : Option HeaderList := none
  cacheRequestWallSeconds : Option ℕ := none
  deriving DecidableEq

namespace Job

/-- The request headers before the engine added its validators. -/
def originalCacheRequestHeaders (job : Job) : HeaderList :=
  job.cacheRequestHeaders.getD job.request.headers

/-- The request as the cache sees it. -/
def cacheRequest (job : Job) (headers : HeaderList) : CacheRequest where
  method := job.request.method
  url := job.url.toString
  headers := headers
  streaming := job.streaming || job.request.streamingBody
  hasBody := requestHasBody job.request

end Job

end KatHttp3
