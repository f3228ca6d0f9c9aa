import KatHttp3.Library.Ledger
import KatHttp3.Library.Transition

/-!
# Receive credit

What a connection gives back to ngtcp2 for the bytes that it receives. A byte
that nghttp3 has processed is credited at once, or with the application's
`consume`, which only queues the credit for the next wakeup of the worker. A
step is one callback of nghttp3 or one call; nghttp3 processes no more than it
was given, and hands on payload only of streams that are open. The application
consumes the payload of a request in the order in which it was delivered, also
where two streams have delivered it.
-/

namespace KatHttp3

open Ledger WeightedList

/-- The fields of an active `Job` that decide on receive credit. Its stream is open. -/
structure CreditJob where
  id : ℤ
  streamId : ℕ
  streaming : Bool
  completed : Bool := false
  cancelled : Bool := false
  deliveredUnconsumedBytes : ℕ := 0
  pendingCreditBytes : ℕ := 0
  deriving DecidableEq

namespace CreditJob

def deliver (n : ℕ) (job : CreditJob) : CreditJob :=
  { job with deliveredUnconsumedBytes := job.deliveredUnconsumedBytes + n }

/-- The job after an accepted `consume`, which queues all of its pending credit. -/
def settle (bytes : ℕ) (job : CreditJob) : CreditJob :=
  { job with
    deliveredUnconsumedBytes := job.deliveredUnconsumedBytes - bytes
    pendingCreditBytes := 0 }

def unconsumed (p : ℕ → Bool) (job : CreditJob) : ℕ :=
  if p job.streamId then job.deliveredUnconsumedBytes else 0

def unsettled (p : ℤ × ℕ → Bool) (job : CreditJob) : ℕ :=
  if p (job.id, job.streamId) then job.deliveredUnconsumedBytes else 0

end CreditJob

/-- `streams_` of the session maps the streams of the active jobs. Nothing reads the
fields from `streamOffsets` on. -/
structure CreditState where
  activeJobs : List CreditJob := []
  pendingConsumes : List (ℕ × ℕ) := []
  /-- The calls of `ngtcp2_conn_extend_max_stream_offset`. -/
  streamOffsets : List (ℕ × ℕ) := []
  /-- The sum of the calls of `ngtcp2_conn_extend_max_offset`. -/
  maxOffset : ℕ := 0
  received : List (ℕ × ℕ) := []
  /-- What nghttp3 has processed: payload, bytes that it returned and deferred ones. -/
  processed : List (ℕ × ℕ) := []
  /-- The payload of streaming jobs, by request and stream. -/
  delivered : List ((ℤ × ℕ) × ℕ) := []
  /-- What of it is not consumed, in the order of its delivery. -/
  awaiting : List ((ℤ × ℕ) × ℕ) := []
  /-- What `consume` has accepted, by request and by the stream that it credits. -/
  consumed : List ((ℤ × ℕ) × ℕ) := []
  /-- The same bytes, by request and by the stream that delivered them. -/
  owed : List ((ℤ × ℕ) × ℕ) := []
  /-- The calls of `consume` that were refused although so much was not consumed. -/
  refused : List (ℤ × ℕ) := []
  deriving DecidableEq

inductive ConsumeResult
  | ok
  | invalidArg
  | closed
  deriving DecidableEq

inductive CreditStep
  /-- `try_submit_pending` opens a stream for a job. -/
  | submit (id : ℤ) (streamId : ℕ) (streaming : Bool)
  /-- `nghttp3_conn_read_stream` is given bytes of a stream. -/
  | receive (streamId n : ℕ)
  /-- `recv_data_cb`. -/
  | recvData (streamId n : ℕ)
  /-- `nghttp3_conn_read_stream` returns. -/
  | readStream (streamId n : ℕ)
  /-- `deferred_consume_cb`. -/
  | deferredConsume (streamId n : ℕ)
  /-- `end_stream_cb`. -/
  | endStream (streamId : ℕ)
  /-- `on_stream_close`. -/
  | streamClose (streamId : ℕ)
  | cancelJob (id : ℤ)
  /-- A job times out or is rejected by a GOAWAY. -/
  | cancelStream (streamId : ℕ)
  | consume (id : ℤ) (n : ℕ)
  | processWakeup
  deriving DecidableEq

namespace CreditState

variable (s : CreditState)

def findJob (streamId : ℕ) : Option CreditJob :=
  s.activeJobs.find? fun job => job.streamId == streamId

def updateStream (streamId : ℕ) (f : CreditJob → CreditJob) : CreditState :=
  { s with activeJobs := updateFirst (fun job => job.streamId == streamId) f s.activeJobs }

def updateRequest (id : ℤ) (f : CreditJob → CreditJob) : CreditState :=
  { s with activeJobs := updateFirst (fun job => job.id == id) f s.activeJobs }

/-- Credit for the stream and for the connection. -/
def extend (streamId n : ℕ) : CreditState :=
  { s with streamOffsets := s.streamOffsets ++ [(streamId, n)], maxOffset := s.maxOffset + n }

/-- The bytes of a stream that nghttp3 still holds back. -/
def deferred (streamId : ℕ) : ℕ :=
  amount (· == streamId) s.received - amount (· == streamId) s.processed

/-- The bytes of a request that the application got and has not consumed. -/
def outstanding (id : ℤ) : ℕ := amount (fun key => key.1 == id) s.awaiting

/-- The oldest bytes of those, and what is left without them. -/
def oldest (id : ℤ) (bytes : ℕ) : List ((ℤ × ℕ) × ℕ) × List ((ℤ × ℕ) × ℕ) :=
  withdraw (fun key => key.1 == id) bytes s.awaiting

/-- nghttp3 processes bytes that it holds. -/
def process (streamId n : ℕ) : Option CreditState :=
  if n ≤ s.deferred streamId then some { s with processed := s.processed ++ [(streamId, n)] }
  else none

/-- `recv_data_cb` for a job. -/
def recvData (job : CreditJob) (n : ℕ) : CreditState :=
  if job.streaming then
    { s with
      activeJobs := updateFirst (fun other => other.streamId == job.streamId) (·.deliver n) s.activeJobs
      delivered := s.delivered ++ [((job.id, job.streamId), n)]
      awaiting := s.awaiting ++ [((job.id, job.streamId), n)] }
  else s.extend job.streamId n

/-- The end of `Http3Session::recv_stream_data`. -/
def recvStreamData (streamId n : ℕ) : CreditState :=
  match s.findJob streamId with
  | none => s.extend streamId n
  | some job => if job.streaming then s else s.extend streamId n

/-- `QuicClient::consume`. -/
def consume (id : ℤ) (bytes : ℕ) : CreditState × ConsumeResult :=
  if bytes = 0 then (s, .ok)
  else
    match s.activeJobs.find? fun job => job.id == id with
    | none => (s, .closed)
    | some job =>
      if job.cancelled || job.completed || decide (job.deliveredUnconsumedBytes < bytes) then
        (s, .invalidArg)
      else
        ({ s with
            activeJobs := updateFirst (fun job => job.id == id) (·.settle bytes) s.activeJobs
            pendingConsumes := s.pendingConsumes ++ [(job.streamId, job.pendingCreditBytes + bytes)]
            consumed := s.consumed ++ [((id, job.streamId), bytes)]
            awaiting := (s.oldest id bytes).2
            owed := s.owed ++ (s.oldest id bytes).1 }, .ok)

/-- The credit of `process_wakeup`: one call for each stream, and one for the connection. -/
def processWakeup : CreditState :=
  { s with
    pendingConsumes := []
    streamOffsets := s.streamOffsets ++ collect s.pendingConsumes
    maxOffset := s.maxOffset + (s.pendingConsumes.map Prod.snd).sum }

def step (s : CreditState) : CreditStep → Option CreditState
  | .submit id streamId streaming =>
    some { s with activeJobs := s.activeJobs ++ [{ id, streamId, streaming }] }
  | .receive streamId n => some { s with received := s.received ++ [(streamId, n)] }
  | .recvData streamId n =>
    match s.findJob streamId with
    | none => none
    | some job => (s.process streamId n).map fun s => s.recvData job n
  | .readStream streamId n => (s.process streamId n).map fun s => s.recvStreamData streamId n
  | .deferredConsume streamId n => (s.process streamId n).map fun s => s.extend streamId n
  | .endStream streamId => some (s.updateStream streamId fun job => { job with completed := true })
  | .streamClose streamId =>
    some { s with activeJobs := s.activeJobs.eraseP fun job => job.streamId == streamId }
  -- where no pending job has the id
  | .cancelJob id => some (s.updateRequest id fun job => { job with cancelled := true })
  | .cancelStream streamId =>
    some (s.updateStream streamId fun job => { job with cancelled := true })
  | .consume id n =>
    match s.consume id n with
    | (s', .ok) => some s'
    | (s', _) =>
      some (if n ≤ s.outstanding id then { s' with refused := s.refused ++ [(id, n)] } else s')
  | .processWakeup => some s.processWakeup

/-- The bytes of streams that wait for `consume`. -/
def unconsumed (p : ℕ → Bool) : ℕ := total (CreditJob.unconsumed p) s.activeJobs

/-- The same by request and stream. -/
def unsettled (p : ℤ × ℕ → Bool) : ℕ := total (CreditJob.unsettled p) s.activeJobs

end CreditState

end KatHttp3
