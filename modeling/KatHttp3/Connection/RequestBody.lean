import KatHttp3.Engine.Job
import KatHttp3.Library.Transition

/-!
# Request bodies

How a request is built and its Content-Length checked, what `submit_request`
announces, and how a body gets from the application to nghttp3: appended chunks
wait in a queue from which `data_read_cb` hands out slices. A chunk is named by
the number of its buffer, so that a slice says which memory it points into.
-/

namespace KatHttp3

open Str

/-! ### Building a request -/

def validHeader (name value : Str) : Bool :=
  isFieldName name && value.all fun ch => ch = '\t' || (0x20 ≤ ch.toNat && ch.toNat != 0x7f)

def forbiddenHttp3Header (name : Str) : Bool :=
  ["connection", "proxy-connection", "transfer-encoding", "keep-alive", "upgrade", "host"].any
    fun forbidden => name == forbidden.toList

def validTeValue (value : Str) : Bool := asciiIequals (trimOws value) "trailers".toList

namespace Request

def addHeader (request : Request) (name value : Str) : Option Request :=
  let normalized := asciiLower name
  if validHeader name value = false then none
  else if forbiddenHttp3Header normalized then none
  else if normalized = "te".toList ∧ validTeValue value = false then none
  else some { request with headers := request.headers.add normalized value }

def setBody (request : Request) (data : Str) : Request :=
  { request with body := data, bodyPresent := true, streamingBody := false, streamingBodyLength := -1 }

def setStreamingBody (request : Request) (contentLength : ℤ) : Option Request :=
  if contentLength < -1 then none
  else
    some { request with
      body := []
      bodyPresent := true
      streamingBody := true
      streamingBodyLength := contentLength }

/-- The requests that the C functions can build. -/
inductive Built : Request → Prop
  | create (method url : Str) : Built { method := method, url := url }
  | addHeader {request request' : Request} {name value : Str} (built : Built request)
      (added : request.addHeader name value = some request') : Built request'
  | setBody {request : Request} (built : Built request) (data : Str) : Built (request.setBody data)
  | setStreamingBody {request request' : Request} {contentLength : ℤ} (built : Built request)
      (set : request.setStreamingBody contentLength = some request') : Built request'
  | setFollowRedirects {request : Request} (built : Built request) (enable : Bool) :
      Built { request with followRedirects := enable }
  | setStreaming {request : Request} (built : Built request) (enable : Bool) :
      Built { request with streaming := enable }

/-- What every built request satisfies. -/
structure WellFormed (request : Request) : Prop where
  names : ∀ header ∈ request.headers, asciiLower header.name = header.name
  length : -1 ≤ request.streamingBodyLength
  buffered : request.streamingBody = true → request.body = []

end Request

/-! ### Content-Length -/

/-- The length stated so far, after one more Content-Length field. -/
def framingField (seen : Option ℕ) (header : Header) : Option (Option ℕ) :=
  match fromChars (2 ^ 64 - 1) header.value with
  | none => none
  | some value => if 2 ^ 63 ≤ value ∨ seen.any (· ≠ value) then none else some (some value)

/-- The length that the Content-Length fields agree on, if there are any. -/
def framingLength (headers : HeaderList) : Option (Option ℕ) :=
  (headers.filter fun header => header.name == "content-length".toList).foldlM framingField none

/-- The request as accepted, which takes an explicit Content-Length over as the
length of a streaming body. -/
def validateRequestBodyFraming (request : Request) : Option Request :=
  match framingLength request.headers with
  | none => none
  | some length =>
    if request.streamingBody then
      match length with
      | none => some request
      | some length =>
        if 0 ≤ request.streamingBodyLength ∧ request.streamingBodyLength ≠ length then none
        else some { request with streamingBodyLength := length }
    else if length.any (· ≠ request.body.length) then none
    else some request

/-- The length of the body, as far as the request states it. -/
def Request.bodyLength (request : Request) : ℕ :=
  if request.streamingBody then request.streamingBodyLength.toNat else request.body.length

/-- The values of the Content-Length fields that `submit_request` sends. -/
def sentContentLengths (request : Request) : List Str :=
  let given := request.headers.getAll "content-length".toList
  if (request.body ≠ [] ∨ request.streamingBody) ∧ given = [] ∧
      (request.streamingBody = false ∨ 0 ≤ request.streamingBodyLength) then
    -- a vector has fewer than 2^63 elements, so that the cast to int64_t is exact
    [ofNat request.bodyLength]
  else given

/-! ### The queue of a job -/

def kMaxHttp3DataReaderBytes : ℕ := 64 * 1024

def kMaxBufferedRequestBodyBytes : ℕ := 4 * 1024 * 1024

def requestBodyRemaining (total offset : ℕ) : Option ℕ :=
  if total < offset then none else some (total - offset)

def requestBodyCanAdvance (offset amount limit : ℕ) : Bool := offset ≤ limit && amount ≤ limit - offset

def requestBodyNextChunkSize (remaining : ℕ) : ℕ := min remaining kMaxHttp3DataReaderBytes

structure BodyChunk where
  buffer : ℕ
  bytes : Str
  deriving DecidableEq

/-- The fields of `Job` that a request body uses. Nothing reads `buffers`, the
number of buffers made so far, but to name the next one. -/
structure Upload where
  request : Request
  cancelled : Bool := false
  completed : Bool := false
  bodySent : ℕ := 0
  requestBodyChunks : List BodyChunk := []
  requestBodyChunkOffset : ℕ := 0
  requestBodyBufferedBytes : ℕ := 0
  requestBodyFinished : Bool := false
  buffers : ℕ := 0
  deriving DecidableEq

/-- What nghttp3 is given: a range of a buffer, or of the request's own body,
with the bytes that are there and their place in the body. -/
structure BodySlice where
  buffer : Option ℕ
  offset : ℕ
  start : ℕ
  bytes : Str
  deriving DecidableEq

inductive ReadFailure
  | offsetOverflow
  | nothingRemaining
  | sizeOverflow
  | declaredLength
  | accountingUnderflow
  | lengthMismatch
  deriving DecidableEq

inductive ReadResult
  | failure (why : ReadFailure)
  | wouldBlock
  | eof
  | data (slice : BodySlice) (last : Bool)
  deriving DecidableEq

def ReadResult.signalsEof : ReadResult → Bool
  | .eof => true
  | .data _ last => last
  | _ => false

inductive AppendResult
  | ok
  | closed
  | nomem
  | invalidArg
  deriving DecidableEq

namespace Upload

variable (sizeMax : ℕ) (job : Upload)

/-- Chunks that have been offered whole are released; false when the offset is
beyond the first chunk. -/
def releaseChunks : List BodyChunk → ℕ → List BodyChunk × ℕ × Bool
  | [], offset => ([], offset, true)
  | chunk :: rest, offset =>
    if chunk.bytes.length < offset then (chunk :: rest, offset, false)
    else if offset ≠ chunk.bytes.length then (chunk :: rest, offset, true)
    else releaseChunks rest 0

/-- Whether a declared length of the streaming body forbids so many more bytes. -/
def exceedsDeclared (offered : ℕ) : Bool :=
  0 ≤ job.request.streamingBodyLength &&
    (sizeMax < job.request.streamingBodyLength.toNat ||
      !requestBodyCanAdvance job.bodySent offered job.request.streamingBodyLength.toNat)

/-- The job once a slice of the first chunk is offered. -/
def advance (offered : ℕ) : Upload :=
  { job with
    bodySent := job.bodySent + offered
    requestBodyBufferedBytes := job.requestBodyBufferedBytes - offered
    requestBodyChunkOffset := job.requestBodyChunkOffset + offered }

/-- The rest of the streaming branch, once read chunks are released. -/
def readChunk : Upload × ReadResult :=
  match job.requestBodyChunks with
  | [] =>
    if job.requestBodyFinished then
      if 0 ≤ job.request.streamingBodyLength ∧
          job.bodySent ≠ job.request.streamingBodyLength.toNat % (sizeMax + 1) then
        (job, .failure .lengthMismatch)
      else (job, .eof)
    else (job, .wouldBlock)
  | chunk :: rest =>
    match requestBodyRemaining chunk.bytes.length job.requestBodyChunkOffset with
    | none | some 0 => (job, .failure .nothingRemaining)
    | some remaining =>
      let offered := requestBodyNextChunkSize remaining
      if requestBodyCanAdvance job.bodySent offered sizeMax = false then
        (job, .failure .sizeOverflow)
      else if job.exceedsDeclared sizeMax offered then (job, .failure .declaredLength)
      else if job.requestBodyBufferedBytes < offered then (job, .failure .accountingUnderflow)
      else
        (job.advance offered,
          .data
            { buffer := some chunk.buffer
              offset := job.requestBodyChunkOffset
              start := job.bodySent
              bytes := (chunk.bytes.drop job.requestBodyChunkOffset).take offered }
            (job.requestBodyFinished && rest == [] &&
              job.requestBodyChunkOffset + offered == chunk.bytes.length))

/-- The branch of a buffered body. -/
def readBody : Upload × ReadResult :=
  match requestBodyRemaining job.request.body.length job.bodySent with
  | none => (job, .failure .offsetOverflow)
  | some 0 => (job, .eof)
  | some remaining =>
    let offered := requestBodyNextChunkSize remaining
    ({ job with bodySent := job.bodySent + offered },
      .data
        { buffer := none
          offset := job.bodySent
          start := job.bodySent
          bytes := (job.request.body.drop job.bodySent).take offered }
        (job.bodySent + offered == job.request.body.length))

/-- `data_read_cb`. -/
def dataRead : Upload × ReadResult :=
  if job.request.streamingBody then
    let (chunks, offset, ok) := releaseChunks job.requestBodyChunks job.requestBodyChunkOffset
    let job := { job with requestBodyChunks := chunks, requestBodyChunkOffset := offset }
    if ok then job.readChunk sizeMax else (job, .failure .offsetOverflow)
  else job.readBody

/-- `append_request_body` on the job that it finds for the request. -/
def appendRequestBody (data : Str) (finished : Bool) : Upload × AppendResult :=
  if job.cancelled ∨ job.completed then (job, .closed)
  -- the buffered bytes never exceed the limit, so that this does not wrap
  else if kMaxBufferedRequestBodyBytes - job.requestBodyBufferedBytes < data.length then
    (job, .nomem)
  else if job.requestBodyFinished then (job, .invalidArg)
  else
    let job :=
      if data = [] then job
      else
        { job with
          requestBodyChunks := job.requestBodyChunks ++ [⟨job.buffers, data⟩]
          requestBodyBufferedBytes := job.requestBodyBufferedBytes + data.length
          buffers := job.buffers + 1 }
    ({ job with requestBodyFinished := finished }, .ok)

end Upload

/-! ### Runs -/

/-- A job with the slices offered, the appends accepted, the bytes acknowledged
and whether the end was signalled. -/
structure UploadRun where
  job : Upload
  offered : List BodySlice := []
  accepted : List Str := []
  acked : ℕ := 0
  ended : Bool := false
  deriving DecidableEq

inductive UploadStep
  | append (data : Str) (finished : Bool)
  | read
  /-- So many more of the offered bytes are acknowledged. -/
  | acknowledge (n : ℕ)
  | cancel
  | complete
  deriving DecidableEq

namespace UploadRun

variable (sizeMax : ℕ) (s : UploadRun)

/-- The bytes offered so far. -/
def offeredBytes : Str := s.offered.flatMap BodySlice.bytes

def step (s : UploadRun) : UploadStep → Option UploadRun
  | .append data finished =>
    let (job, result) := s.job.appendRequestBody data finished
    some { s with
      job := job
      accepted := if result = .ok then s.accepted ++ [data] else s.accepted }
  | .read =>
    let (job, result) := s.job.dataRead sizeMax
    some { s with
      job := job
      offered := match result with
        | .data slice _ => s.offered ++ [slice]
        | _ => s.offered
      ended := s.ended || result.signalsEof }
  | .acknowledge n =>
    if s.acked + n ≤ s.offeredBytes.length then some { s with acked := s.acked + n } else none
  | .cancel => some { s with job := { s.job with cancelled := true } }
  | .complete => some { s with job := { s.job with completed := true } }

end UploadRun

end KatHttp3
