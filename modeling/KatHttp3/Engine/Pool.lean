import KatHttp3.Connection.Client
import KatHttp3.Engine.Execute
import KatHttp3.Engine.Threads
import KatHttp3.Library.Parties
import KatHttp3.Library.Transition
import Mathlib.Logic.Function.Basic

/-!
# The pool and the registry

Which connection a request is on: `registry_`, `pool_` and the job lists of the
clients, with the threads that look a client up and hand a job to it. A thread
takes one step between two locks or calls. What comes from the network, when a
connection drains or closes, and whether a check before the lookup fails is left
open. `consume` and `append_request_body` change nothing here, and
`network_changed` only asks the workers to change state; `destroy` and
exceptions are left out.
-/

namespace KatHttp3

open CallStacks Parties

/-! ### Clients -/

/-- `connection_state_accepts_new_jobs`. -/
def connectionStateAcceptsNewJobs (state : ConnectionState) (closed : Bool) : Bool :=
  !closed && state != .draining && state != .closing && state != .closed

/-- A job by the number of its object. Nothing reads `settled`: the application has been
told the end of the request, or the registry has the next hop. -/
structure PoolJob where
  number : ℕ
  id : ℤ
  cancelled : Bool := false
  redirected : Bool := false
  settled : Bool := false
  deriving DecidableEq

/-- The fields of a `QuicClient` that the engine's threads meet in. -/
structure PoolClient where
  state : ConnectionState := .connecting
  closed : Bool := false
  workerStart : Bool := false
  pending : List PoolJob := []
  active : List PoolJob := []
  /-- The jobs that `try_submit_pending` has taken out and has yet to report. -/
  failed : List PoolJob := []
  deriving DecidableEq

namespace PoolClient

variable (client : PoolClient)

def acceptsNewJobs : Bool := connectionStateAcceptsNewJobs client.state client.closed

def jobs : List PoolJob := client.pending ++ client.active ++ client.failed

def map (f : PoolJob → PoolJob) : PoolClient :=
  { client with
    pending := client.pending.map f
    active := client.active.map f
    failed := client.failed.map f }

/-- Cancels the first job with an id. -/
def cancelFirst (id : ℤ) : List PoolJob → List PoolJob
  | [] => []
  | job :: rest =>
    if job.id = id then { job with cancelled := true } :: rest else job :: cancelFirst id rest

def cancelJob (id : ℤ) : PoolClient :=
  if client.pending.any (·.id == id) then { client with pending := cancelFirst id client.pending }
  else { client with active := cancelFirst id client.active }

def submitJob (number : ℕ) (id : ℤ) : PoolClient :=
  { client with pending := client.pending ++ [{ number := number, id := id }] }

end PoolClient

/-- What a worker does to its connection and its jobs on its own. -/
inductive ConnectionChange
  /-- `try_submit_pending` opens a stream for a job, or fails to. -/
  | submitted (number : ℕ)
  | refused (number : ℕ)
  /-- `on_early_data_rejected`. -/
  | withdrawn
  /-- `expire_requests` and `on_goaway` mark the jobs that they are going to report. -/
  | marked (numbers : List ℕ)
  /-- A job leaves the lists. -/
  | dropped (number : ℕ)
  | entered (state : ConnectionState)
  | closed
  deriving DecidableEq

namespace PoolClient

variable (client : PoolClient)

def change : ConnectionChange → PoolClient
  | .submitted number =>
    { client with
      pending := client.pending.filter (·.number != number)
      active := client.active ++ client.pending.filter (·.number == number) }
  | .refused number =>
    { client with
      pending := client.pending.filter (·.number != number)
      failed := client.failed ++ client.pending.filter (·.number == number) }
  | .withdrawn => { client with pending := client.pending ++ client.active, active := [] }
  | .marked numbers =>
    let mark := fun job : PoolJob =>
      if job.number ∈ numbers then { job with cancelled := true } else job
    { client with pending := client.pending.map mark, active := client.active.map mark }
  | .dropped number =>
    { client with
      pending := client.pending.filter (·.number != number)
      active := client.active.filter (·.number != number)
      failed := client.failed.filter (·.number != number) }
  | .entered state => { client with state := state }
  | .closed => { client with closed := true, state := .closed }

end PoolClient

/-! ### What the threads share -/

structure PoolEntry extends ReqEntry where
  client : Option ℕ := none
  deriving DecidableEq

/-- Clients are numbered in the order of their creation; those to come are as the
constructor leaves them. Nothing reads `ended`, the requests that were told an ERROR
since they were registered last. -/
structure PoolCore where
  lifecycle : Option ℕ := none
  callback : RecursiveLock := none
  registry : ℤ → Option PoolEntry := fun _ => none
  pool : List (Str × ℕ) := []
  clients : ℕ → PoolClient := fun _ => {}
  created : ℕ := 0
  jobs : ℕ := 0
  ended : List ℤ := []

namespace PoolCore

variable (core : PoolCore)

def lockLifecycle (t : ℕ) : Option PoolCore :=
  match core.lifecycle with
  | none => some { core with lifecycle := some t }
  | some _ => none

def unlockLifecycle : PoolCore := { core with lifecycle := none }

def lockCallback (t : ℕ) : Option PoolCore :=
  (core.callback.acquire t).map fun lock => { core with callback := lock }

def unlockCallback : PoolCore := { core with callback := core.callback.release }

def updateClient (k : ℕ) (f : PoolClient → PoolClient) : PoolCore :=
  { core with clients := Function.update core.clients k (f (core.clients k)) }

def register (id : ℤ) (client : Option ℕ) : PoolCore :=
  { core with
    registry := Function.update core.registry id (some { client := client })
    ended := core.ended.filter (· != id) }

def erase (id : ℤ) : PoolCore := { core with registry := Function.update core.registry id none }

/-- The request gets its ERROR. -/
def fail (id : ℤ) : PoolCore := { core with ended := id :: core.ended }

/-- The request has had its terminal event. -/
def settle (id : ℤ) : PoolCore :=
  { core with
    clients := fun k =>
      (core.clients k).map fun job => if job.id = id then { job with settled := true } else job }

/-- What `cancel` does under `mtx_` with the entry of a request. -/
def cancel (id : ℤ) (entry : PoolEntry) : PoolCore :=
  let core := (core.erase id).fail id
  (entry.client.elim core fun k => core.updateClient k (·.cancelJob id)).settle id

/-- `deliver` marks the entry before a terminal event. -/
def terminate (id : ℤ) (event : AppEvent) (entry : PoolEntry) : PoolCore :=
  { (if event = .complete then core else core.fail id) with
    registry := Function.update core.registry id (some { entry with terminal := true }) }

/-- A delivery has come to its end. -/
def hear (id : ℤ) (event : AppEvent) : PoolCore :=
  if event.isTerminal then core.settle id else core

def submitJob (k : ℕ) (id : ℤ) : PoolCore :=
  { core.updateClient k (·.submitJob core.jobs id) with jobs := core.jobs + 1 }

/-- The registry gets the client of the next hop, and the job of this one counts no more. -/
def record (k number : ℕ) (id : ℤ) (client : Option ℕ) : PoolCore :=
  { core.updateClient k (·.map fun job =>
      if job.number = number ∧ job.id = id then { job with settled := true } else job) with
    registry := Function.update core.registry id
      ((core.registry id).map fun entry => { entry with client := client }) }

/-- The client of a key is there and takes the job. -/
def reuses (key : Str) : Option ℕ :=
  (core.pool.lookup key).filter fun k => (core.clients k).acceptsNewJobs

/-- The clients that a lookup removes: a useless one of its key, and those that are closed. -/
def discards (key : Str) : List ℕ :=
  if (core.reuses key).isSome then []
  else (core.pool.filter fun entry => entry.1 == key || (core.clients entry.2).closed).map Prod.snd

/-- `Engine::get_or_create_client`. -/
def getOrCreateClient (admission : AdmissionConfig) (origin : Url) : PoolCore × Option ℕ :=
  let key := Execution.poolKey admission origin
  match core.reuses key with
  | some k => (core, some k)
  | none =>
    let pool := core.pool.filter fun entry => entry.1 != key
    let pool := pool.filter fun entry => !(core.clients entry.2).closed
    if admission.maxConnectionWorkers ≤ pool.length then ({ core with pool := pool }, none)
    else
      ({ core with
          pool := pool ++ [(key, core.created)]
          created := core.created + 1 },
        some core.created)

end PoolCore

/-! ### Threads -/

inductive HandoverPhase
  | entering
  | choosing
  /-- Registered, and a stored response waits for a place at the cache dispatcher. -/
  | queueing
  | registering (client : ℕ)
  | submitting (client : ℕ)
  /-- The application's callback is told why not. -/
  | telling
  deriving DecidableEq

/-- A call of the application that has not returned. -/
inductive PoolCall
  | execute (id : ℤ) (origin : Url) (phase : HandoverPhase)
  | cancel (id : ℤ) (phase : CancelPhase)
  deriving DecidableEq

inductive HopPhase
  | choosing (target : Url)
  | recording (client : Option ℕ)
  | queueing
  | submitting (client : ℕ)
  deriving DecidableEq

/-- What a worker or the cache dispatcher is in: the delivery of some events, or the
redirect of a job. -/
inductive PoolTask
  | deliver (id : ℤ) (event : AppEvent) (rest : List AppEvent) (phase : DeliverPhase)
  | hop (number : ℕ) (id : ℤ) (phase : HopPhase)
  deriving DecidableEq

inductive ThreadRole
  | application
  | worker (client : ℕ)
  | dispatcher
  deriving DecidableEq

/-- A thread, with the calls that the application made on it, innermost first. -/
structure PoolThread where
  role : ThreadRole := .application
  task : Option PoolTask := none
  calls : List PoolCall := []
  deriving DecidableEq

namespace PoolCall

def runsUserCode : PoolCall → Bool
  | execute _ _ phase => phase == .telling
  | cancel _ phase => phase == .calling

variable (admission : AdmissionConfig) (t : ℕ) (core : PoolCore)

/-- `Engine::execute`. The outcome says whether a check fails and whether the cache
has a fresh response. -/
def advanceExecute (id : ℤ) (origin : Url) (outcome : Outcome) :
    HandoverPhase → Option (PoolCore × Option PoolCall)
  | .entering => (core.lockLifecycle t).map (·, some (execute id origin .choosing))
  | .choosing =>
    match outcome with
    | .refused => some (core, some (execute id origin .telling))
    | .cached => some (core.register id none, some (execute id origin .queueing))
    | _ =>
      match core.getOrCreateClient admission origin with
      | (core, none) => some (core, some (execute id origin .telling))
      | (core, some k) => some (core, some (execute id origin (.registering k)))
  | .queueing =>
    if outcome = .refused then some (core.erase id, some (execute id origin .telling))
    else some (core.unlockLifecycle, none)
  | .registering k => some (core.register id (some k), some (execute id origin (.submitting k)))
  | .submitting k => some ((core.submitJob k id).unlockLifecycle, none)
  | .telling => some (core.unlockLifecycle, none)

/-- `Engine::cancel`. -/
def advanceCancel (id : ℤ) : CancelPhase → Option (PoolCore × Option PoolCall)
  | .entering => (core.lockLifecycle t).map (·, some (cancel id .locking))
  | .locking => (core.lockCallback t).map (·, some (cancel id .checking))
  | .checking =>
    match core.registry id with
    | none => some (core.unlockCallback.unlockLifecycle, none)
    | some entry =>
      if entry.terminal then some (core.unlockCallback.unlockLifecycle, none)
      else some (core.cancel id entry, some (cancel id .releasing))
  | .releasing => some (core.unlockLifecycle, some (cancel id .invoking))
  | .invoking => some (core, some (cancel id .calling))
  | .calling => some (core.unlockCallback, none)

def advance (outcome : Outcome) : PoolCall → Option (PoolCore × Option PoolCall)
  | execute id origin phase => advanceExecute admission t core id origin outcome phase
  | cancel id phase => advanceCancel t core id phase

end PoolCall

namespace PoolTask

/-- The delivery of the events that are left. -/
def next (id : ℤ) : List AppEvent → Option PoolTask
  | [] => none
  | event :: rest => some (deliver id event rest .entering)

variable (admission : AdmissionConfig) (t : ℕ) (core : PoolCore)

/-- `Engine::deliver`. -/
def advanceDeliver (id : ℤ) (event : AppEvent) (rest : List AppEvent) :
    DeliverPhase → Option (PoolCore × Option PoolTask)
  | .entering => (core.lockCallback t).map (·, some (deliver id event rest .checking))
  | .checking =>
    match core.registry id with
    | none => some ((core.hear id event).unlockCallback, next id rest)
    | some entry =>
      if entry.terminal then some ((core.hear id event).unlockCallback, next id rest)
      else if entry.cancelled then
        some (((core.erase id).hear id event).unlockCallback, next id rest)
      else if event.isTerminal then
        some (core.terminate id event entry, some (deliver id event rest .invoking))
      else some (core, some (deliver id event rest .invoking))
  | .invoking => some (core, some (deliver id event rest .calling))
  | .calling =>
    if event.isTerminal then some (core, some (deliver id event rest .erasing))
    else some (core.unlockCallback, next id rest)
  | .erasing => some (((core.erase id).hear id event).unlockCallback, next id rest)

/-- The part of `Engine::on_job_headers` that follows a redirect, on the worker of `k`. -/
def advanceHop (k number : ℕ) (id : ℤ) (outcome : Outcome) :
    HopPhase → Option (PoolCore × Option PoolTask)
  | .choosing target =>
    if outcome = .cached then some (core, some (hop number id (.recording none)))
    else
      match core.getOrCreateClient admission target with
      | (core, none) => some (core, next id [.error .connectionLimit])
      | (core, some c) => some (core, some (hop number id (.recording (some c))))
  | .recording client =>
    some
      (core.record k number id client,
        some (hop number id (client.elim .queueing .submitting)))
  | .queueing => some (core, if outcome = .refused then next id [.error .nomem] else none)
  | .submitting c => some (core.submitJob c id, none)

def advance (role : ThreadRole) (outcome : Outcome) :
    PoolTask → Option (PoolCore × Option PoolTask)
  | deliver id event rest phase => advanceDeliver t core id event rest phase
  | hop number id phase =>
    match role with
    | .worker k => advanceHop admission core k number id outcome phase
    | _ => none

end PoolTask

namespace PoolThread

variable (thread : PoolThread)

/-- The thread runs code of the application. -/
def runsUserCode : Bool :=
  match thread.calls with
  | call :: _ => call.runsUserCode
  | [] =>
    match thread.task with
    | none => thread.role == .application
    | some (.deliver _ _ _ phase) => phase == .calling
    | some (.hop _ _ _) => false

def idle : Bool := thread.task == none && thread.calls == []

def call (call : PoolCall) : Option PoolThread :=
  if thread.runsUserCode then some { thread with calls := call :: thread.calls } else none

def advance (admission : AdmissionConfig) (t : ℕ) (outcome : Outcome) (core : PoolCore) :
    Option (PoolCore × PoolThread) :=
  match thread.calls with
  | call :: rest =>
    (call.advance admission t core outcome).map fun (core, call) =>
      (core, { thread with calls := call.toList ++ rest })
  | [] =>
    match thread.task with
    | none => none
    | some task =>
      (task.advance admission t core thread.role outcome).map fun (core, task) =>
        (core, { thread with task := task })

/-- A callback of nghttp3 or of the event loop for a job of the worker's client. The
completion and the errors of a job that was redirected are ignored. -/
def callback (core : PoolCore) (number : ℕ) (events : List AppEvent) : Option PoolThread :=
  match thread.role with
  | .worker k =>
    match (core.clients k).jobs.find? (·.number == number) with
    | some job =>
      if thread.idle ∧ (job.redirected → events.all fun event => !event.isTerminal) then
        some { thread with task := PoolTask.next job.id events }
      else none
    | none => none
  | _ => none

/-- A response that `on_job_headers` follows. -/
def redirect (core : PoolCore) (number : ℕ) (target : Url) : Option (PoolCore × PoolThread) :=
  match thread.role with
  | .worker k =>
    match (core.clients k).active.find? (·.number == number) with
    | some job =>
      if thread.idle ∧ job.redirected = false then
        some
          (core.updateClient k (·.map fun job =>
              if job.number = number then { job with redirected := true } else job),
            { thread with task := some (.hop number job.id (.choosing target)) })
      else none
    | none => none
  | _ => none

/-- The cache dispatcher takes a job. -/
def dispatch (id : ℤ) (events : List AppEvent) : Option PoolThread :=
  if thread.role = .dispatcher ∧ thread.idle then
    some { thread with task := PoolTask.next id events }
  else none

end PoolThread

/-! ### The system -/

abbrev PoolState := System PoolCore PoolThread

inductive PoolStep
  | execute (t : ℕ) (id : ℤ) (origin : Url)
  | cancel (t : ℕ) (id : ℤ)
  | advance (t : ℕ) (outcome : Outcome)
  | callback (t number : ℕ) (events : List AppEvent)
  | redirect (t number : ℕ) (target : Url)
  | dispatch (t : ℕ) (id : ℤ) (events : List AppEvent)
  /-- The worker of a client begins. -/
  | start (k : ℕ)
  | connection (k : ℕ) (change : ConnectionChange)
  deriving DecidableEq

namespace PoolState

/-- The cache dispatcher, and any number of threads of the application. -/
def initial (threads : ℕ) : PoolState :=
  ⟨{}, { role := .dispatcher } :: List.replicate threads {}⟩

def step (admission : AdmissionConfig) (s : PoolState) : PoolStep → Option PoolState
  | .execute t id origin =>
    s.move t fun core thread => (thread.call (.execute id origin .entering)).map (core, ·)
  | .cancel t id => s.move t fun core thread => (thread.call (.cancel id .entering)).map (core, ·)
  | .advance t outcome => s.move t fun core thread => thread.advance admission t outcome core
  | .callback t number events =>
    s.move t fun core thread => (thread.callback core number events).map (core, ·)
  | .redirect t number target => s.move t fun core thread => thread.redirect core number target
  | .dispatch t id events =>
    s.move t fun core thread => (thread.dispatch id events).map (core, ·)
  | .start k =>
    if k < s.shared.created ∧ (s.shared.clients k).workerStart = false then
      some
        (System.join
          { s with
            shared := s.shared.updateClient k fun client => { client with workerStart := true } }
          { role := .worker k })
    else none
  | .connection k change =>
    if k < s.shared.created then
      some { s with shared := s.shared.updateClient k (·.change change) }
    else none

end PoolState

end KatHttp3
