import KatHttp3.Connection.Deadlines
import KatHttp3.Library.Parties
import KatHttp3.Library.Transition

/-!
# The wait for name resolution

`prepare_endpoints`, which a worker calls before it connects. It waits on a condition variable
for the resolver. The resolver changes what it waits for under the mutex of the wait. A change
of the network, a cancellation and the destructor set a flag of the client instead, without
that mutex, and then call `notify_dns_waiter`; the worker looks at their flags one after the
other before it sleeps. The critical section of the resolver's callback is one step.
-/

namespace KatHttp3

open Parties

/-- Where the worker is. From `locked` to `waiting`, and while it takes the result, it has the
mutex. -/
inductive WaitPhase
  | begun
  /-- It has not read when it started. -/
  | timing
  | checkingNetwork
  | publishing
  | resolving
  | locking
  /-- It has not computed the deadline. -/
  | locked
  /-- At the condition of the loop. -/
  | testing
  | inNetwork
  | inStop
  | inJobs
  | inTime
  | waiting
  | asleep (notified : Bool)
  | relocking (timedOut : Bool)
  | taking
  | finishing
  | returned (ready : Bool)
  deriving DecidableEq

def WaitPhase.holds : WaitPhase → Bool
  | locked | testing | inNetwork | inStop | inJobs | inTime | waiting | taking => true
  | _ => false

structure EndpointWait where
  client : Client := {}
  /-- The addresses of the request of each job. -/
  addresses : List (List (Str × ℕ)) := []
  dnsMs : ℕ
  requestedNetworkGeneration : ℕ
  appliedNetworkGeneration : ℕ
  /-- The monotonic clock. -/
  now : ℕ
  suppliedAddresses : List (Str × ℕ) := []
  started : ℕ := 0
  deadline : ℕ := 0
  /-- `dns_wait_state_` is set. -/
  published : Bool := false
  /-- The resolver has the callback. -/
  registered : Bool := false
  complete : Bool := false
  result : List ResolvedEndpoint := []
  cancelled : Bool := false
  phase : WaitPhase := .begun
  deriving DecidableEq

/-- The end of time of the steady clock, in nanoseconds. -/
def maxSteadyNs : ℕ := 2 ^ 63 - 1

def steadyDeadlineAfterMs (now milliseconds : ℕ) : ℕ :=
  let remainingMs := (maxSteadyNs - now) / 1000000
  if remainingMs = 0 then maxSteadyNs
  else if remainingMs ≤ milliseconds then maxSteadyNs
  else now + milliseconds * 1000000

def suppliedEndpoint (address : Str × ℕ) : ResolvedEndpoint :=
  ⟨address.1, address.2, if ':' ∈ address.1 then .inet6 else .inet⟩

namespace EndpointWait

variable (wait : EndpointWait)

def networkChanged : Bool := wait.appliedNetworkGeneration < wait.requestedNetworkGeneration

def timeElapsed : Bool :=
  deadlineElapsedNs wait.now wait.started (millisecondsToNsSaturated wait.dnsMs)

def fail (error : ErrorCode) : EndpointWait :=
  { wait with client := { wait.client with terminalError := error }, phase := .returned false }

/-- The wait ends with `cancel_resolve`. -/
def abandon : EndpointWait := { wait with cancelled := true, phase := .returned false }

def giveUp (error : ErrorCode) : EndpointWait := { wait.fail error with cancelled := true }

/-- The next action of the worker, where it does not depend on others. -/
def advance : Option EndpointWait :=
  match wait.phase with
  | .begun =>
    match wait.client.pending with
    | [] => some { wait with phase := .returned false }
    | job :: _ =>
      some { wait with
        suppliedAddresses := wait.addresses.getD job.handle []
        phase := .timing }
  | .timing => some { wait with started := wait.now, phase := .checkingNetwork }
  | .checkingNetwork =>
    some
      (if wait.networkChanged then wait.fail .networkLost
      else if wait.suppliedAddresses = [] then { wait with phase := .publishing }
      else { wait with
        client := { wait.client with
          endpoints := wait.client.endpoints ++ wait.suppliedAddresses.map suppliedEndpoint }
        phase := .finishing })
  | .publishing => some { wait with published := true, phase := .resolving }
  | .locking => some { wait with phase := .locked }
  | .locked =>
    some { wait with deadline := steadyDeadlineAfterMs wait.now wait.dnsMs, phase := .testing }
  | .testing => some { wait with phase := if wait.complete then .taking else .inNetwork }
  | .inNetwork =>
    some (if wait.networkChanged then wait.giveUp .networkLost else { wait with phase := .inStop })
  | .inStop => some (if wait.client.stop then wait.abandon else { wait with phase := .inJobs })
  | .inJobs =>
    some (if wait.client.hasLivePendingJob then { wait with phase := .inTime } else wait.abandon)
  | .inTime =>
    some (if wait.timeElapsed then wait.giveUp .dnsTimeout else { wait with phase := .waiting })
  | .waiting => some { wait with phase := .asleep false }
  | .relocking timedOut =>
    some (if timedOut && !wait.complete then wait.giveUp .dnsTimeout
      else { wait with phase := .testing })
  | .taking =>
    some { wait with
      client := { wait.client with endpoints := wait.result }
      published := false
      phase := .finishing }
  | .finishing =>
    some
      (if wait.timeElapsed then
        { wait with
          client := { wait.client with endpoints := [], terminalError := .dnsTimeout }
          phase := .returned false }
      else { wait with phase := .returned (wait.client.endpoints != []) })
  | .resolving | .asleep _ | .returned _ => none

/-- `notify_all`. -/
def notify : EndpointWait :=
  match wait.phase with
  | .asleep _ => { wait with phase := .asleep true }
  | _ => wait

end EndpointWait

/-- `resolve_async` returns. -/
def EndpointWait.resolveAsync (accepted : Bool) (wait : EndpointWait) : Option EndpointWait :=
  if wait.phase = .resolving then
    some (if accepted then { wait with registered := true, phase := .locking }
      else { wait.fail .dns with published := false })
  else none

/-- `wait_until` returns; it may do so without a reason. -/
def EndpointWait.wake (timedOut : Bool) (wait : EndpointWait) : Option EndpointWait :=
  match wait.phase with
  | .asleep _ =>
    if timedOut = true ∧ wait.now < wait.deadline then none
    else some { wait with phase := .relocking timedOut }
  | _ => none

/-- The callback of the resolver. -/
def EndpointWait.resolved (endpoints : List ResolvedEndpoint) (wait : EndpointWait) :
    Option EndpointWait :=
  if wait.registered = true ∧ wait.phase.holds = false then
    some { wait with result := endpoints, complete := true, registered := false }.notify
  else none

/-! ### The other threads -/

inductive WaitCause
  | network | stop | jobs
  deriving DecidableEq

inductive NotifyPhase
  /-- The flag is set, `dns_wait_state_` is not read. -/
  | raised
  | notifying
  | done
  deriving DecidableEq

/-- A call of `notify_dns_waiter`. -/
structure DnsNotifier where
  cause : WaitCause
  phase : NotifyPhase := .raised
  deriving DecidableEq

def DnsNotifier.advance (wait : EndpointWait) (notifier : DnsNotifier) :
    Option (EndpointWait × DnsNotifier) :=
  match notifier.phase with
  | .raised =>
    some (wait, { notifier with phase := if wait.published then .notifying else .done })
  | .notifying => some (wait.notify, { notifier with phase := .done })
  | .done => none

abbrev WaitSystem := System EndpointWait DnsNotifier

inductive WaitStep
  | worker
  | resolveAsync (accepted : Bool)
  | wake (timedOut : Bool)
  | resolved (endpoints : List ResolvedEndpoint)
  | notifier (i : ℕ)
  | tick (ns : ℕ)
  | submit (id : ℤ) (request : Request) (addresses : List (Str × ℕ))
  /-- `request_network_change`. -/
  | changeNetwork (generation : ℕ)
  | cancel (id : ℤ)
  /-- The destructor of the client. -/
  | stop
  deriving DecidableEq

namespace WaitSystem

def initial (dnsMs generation now : ℕ) : WaitSystem :=
  ⟨{ dnsMs := dnsMs
     requestedNetworkGeneration := generation
     appliedNetworkGeneration := generation
     now := now }, []⟩

variable (s : WaitSystem)

/-- The worker, or what it waits for, does something. -/
def update (f : EndpointWait → Option EndpointWait) : Option WaitSystem :=
  (f s.shared).map fun wait => { s with shared := wait }

/-- A thread has set a flag and is to call `notify_dns_waiter`. -/
def raise (cause : WaitCause) (wait : EndpointWait) : WaitSystem :=
  System.join { s with shared := wait } { cause := cause }

def step : WaitStep → Option WaitSystem
  | .worker => s.update EndpointWait.advance
  | .resolveAsync accepted => s.update (EndpointWait.resolveAsync accepted)
  | .wake timedOut => s.update (EndpointWait.wake timedOut)
  | .resolved endpoints => s.update (EndpointWait.resolved endpoints)
  | .notifier i => s.move i DnsNotifier.advance
  | .tick ns => some { s with shared := { s.shared with now := s.shared.now + ns } }
  | .submit id request addresses =>
    some { s with shared := { s.shared with
      client := s.shared.client.submitJob id request
      addresses := s.shared.addresses ++ [addresses] } }
  | .changeNetwork generation =>
    if s.shared.requestedNetworkGeneration < generation then
      some (s.raise .network { s.shared with requestedNetworkGeneration := generation })
    else none
  | .cancel id =>
    if s.shared.client.pending.any (·.id == id) ∨ s.shared.client.active.any (·.id == id) then
      some (s.raise .jobs { s.shared with client := s.shared.client.cancelJob id })
    else some s
  | .stop =>
    if s.shared.client.stop then none
    else some (s.raise .stop { s.shared with client := { s.shared.client with stop := true } })

end WaitSystem

end KatHttp3
