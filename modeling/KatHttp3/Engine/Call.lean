import KatHttp3.Engine.Replies
import KatHttp3.Library.Transition

/-!
# The hops of one request

A request as a chain of hops, each a job of its own whose callbacks run on the
worker that has it. The events of a callback are dispatched one at a time, so
that the events of two hops may interleave. What nghttp3 promises is the order
of the callbacks of one stream: the headers once, then the chunks, then the end,
with a failure possible at any time.
-/

namespace KatHttp3

open Str

inductive Stage
  /-- Not yet handed to the cache dispatcher or to a connection. -/
  | routing
  | queued
  | waiting
  | receiving
  | ended
  deriving DecidableEq, Repr

/-- A job, the events its callback still has to dispatch and the redirect it
still has to follow. Nothing reads the last three fields: the request fields
that stem from the application, the body received and the replies so far. -/
structure Hop where
  job : Job
  stage : Stage := .routing
  pending : List AppEvent := []
  following : Option (RedirectDecision × Request × Url) := none
  application : HeaderList
  received : Str := []
  said : List Reply := []
  deriving DecidableEq

namespace Hop

/-- Whether the hop's worker is in none of its callbacks. -/
def idle (hop : Hop) : Bool := hop.pending == [] && hop.following.isNone

/-- The hop after a callback. -/
def saying (hop : Hop) (job : Job) (reply : Option Reply) : Hop :=
  { hop with
    job := job
    pending := (reply.map Reply.events).getD []
    following :=
      match reply with
      | some (.follow dec request url) => some (dec, request, url)
      | _ => none
    said := hop.said ++ reply.toList }

end Hop

/-- The state of one request: `live` while its registry entry is there and not terminal. -/
structure Call (J : Type) where
  shared : Shared J
  hops : List Hop
  live : Bool := true
  log : List AppEvent := []
  deriving DecidableEq

inductive CallStep (J : Type)
  /-- Other requests change what is shared. -/
  | interfere (shared : Shared J)
  /-- The cache dispatcher or a connection takes a job, or there is no room for it. -/
  | route (k : ℕ) (admitted : Bool)
  | dispatch (k : ℕ) (now : ClockReading)
  | headers (k : ℕ) (status : ℕ) (headers : HeaderList) (now : ClockReading)
  | chunk (k : ℕ) (chunk : Chunk)
  | finish (k : ℕ) (now : ClockReading)
  | fail (k : ℕ) (code : ErrorCode) (now : ClockReading)
  /-- The job of the redirect that a hop follows is made. -/
  | hop (k : ℕ) (now : ClockReading)
  | deliver (k : ℕ)
  /-- `cancel` or `destroy` ends the request. -/
  | abort (code : ErrorCode)

variable {J : Type} (engine : EngineConfig J)

namespace Hop

variable (hop : Hop) (shared : Shared J)

/-- Where the job goes: to the cache dispatcher or to a connection. -/
def routed : Stage := if hop.job.cachedResponse.isSome then .queued else .waiting

/-- The error when there is no room for it there. -/
def refusal : ErrorCode := if hop.job.cachedResponse.isSome then .nomem else .connectionLimit

def route (admitted : Bool) : Option Hop :=
  if hop.stage ≠ .routing then none
  else if admitted then some { hop with stage := hop.routed }
  else some { hop.saying hop.job (some (.error hop.refusal)) with stage := .ended }

def dispatch (now : ClockReading) : Option Hop :=
  match hop.stage, hop.job.cachedResponse with
  | .queued, some response =>
    some { hop.saying hop.job (some (deliverCached shared.cache response now)) with
      stage := .ended }
  | _, _ => none

def headers (status : ℕ) (headers : HeaderList) (now : ClockReading) : Option (Shared J × Hop) :=
  if hop.stage = .waiting then
    let (shared, job, reply) := engine.onJobHeaders shared hop.job status headers now
    some (shared, { hop.saying job reply with stage := .receiving })
  else none

def chunk (chunk : Chunk) : Option Hop :=
  if hop.stage = .receiving then
    let (job, reply) := onJobBody hop.job chunk
    some { hop.saying job reply with received := hop.received ++ chunk.data }
  else none

def finish (now : ClockReading) : Option (Shared J × Hop) :=
  if hop.stage = .receiving then
    let (shared, job, reply) := engine.onJobComplete shared hop.job now
    some (shared, { hop.saying job reply with stage := .ended })
  else none

def fail (code : ErrorCode) (now : ClockReading) : Option Hop :=
  if hop.stage = .routing then none
  else
    let (job, reply) := onJobError shared.cache hop.job code now
    some (hop.saying job reply)

/-- The next hop, once the redirect of this one is followed. -/
def next (now : ClockReading) : Option (Shared J × Hop) :=
  hop.following.map fun (dec, request, url) =>
    let (shared, job) := startJob shared hop.job.id request url (hop.job.redirectCount + 1) now
    (shared, { job := job, application := hop.application.filter (carriedOver dec) })

end Hop

namespace Call

/-- A callback of a hop whose worker is free for it. -/
def callback (c : Call J) (k : ℕ) (f : Hop → Option (Shared J × Hop)) : Option (Call J) :=
  match c.hops[k]? with
  | none => none
  | some hop =>
    if hop.idle then
      match f hop with
      | none => none
      | some (shared, hop) => some { c with shared := shared, hops := c.hops.set k hop }
    else none

/-- `Engine::deliver` of the next event of a hop. -/
def deliver (c : Call J) (k : ℕ) : Option (Call J) :=
  match c.hops[k]? with
  | none => none
  | some hop =>
    match hop.pending with
    | [] => none
    | event :: rest =>
      let c := { c with hops := c.hops.set k { hop with pending := rest } }
      if c.live then some { c with live := !event.isTerminal, log := c.log ++ [event] } else some c

def step (c : Call J) : CallStep J → Option (Call J)
  | .interfere shared =>
    if shared.cache.isSome = c.shared.cache.isSome then some { c with shared := shared } else none
  | .route k admitted => c.callback k fun hop => (hop.route admitted).map (c.shared, ·)
  | .dispatch k now => c.callback k fun hop => (hop.dispatch c.shared now).map (c.shared, ·)
  | .headers k status headers now => c.callback k (Hop.headers engine · c.shared status headers now)
  | .chunk k chunk => c.callback k fun hop => (hop.chunk chunk).map (c.shared, ·)
  | .finish k now => c.callback k (Hop.finish engine · c.shared now)
  | .fail k code now => c.callback k fun hop => (hop.fail c.shared code now).map (c.shared, ·)
  | .hop k now =>
    match c.hops[k]? with
    | none => none
    | some hop =>
      match hop.next c.shared now with
      | none => none
      | some (shared, next) =>
        some { c with
          shared := shared
          hops := c.hops.set k { hop with following := none } ++ [next] }
  | .deliver k => c.deliver k
  | .abort code => if c.live then some { c with live := false, log := c.log ++ [.error code] } else none

/-- The state after `execute` has made the first job and the registry entry. -/
def execute (shared : Shared J) (id : ℤ) (request : Request) (now : ClockReading) :
    Option (Call J) :=
  match parseUrl engine.net request.url with
  | none => none
  | some url =>
    let (shared, withCookie) := engine.withCookies shared request url now
    let (shared, job) := startJob shared id withCookie url 0 now
    some { shared := shared, hops := [{ job := job, application := request.headers }] }

end Call

end KatHttp3
