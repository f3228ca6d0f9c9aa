import KatHttp3.Connection.Client
import KatHttp3.Dns.WorkerPool
import KatHttp3.Library.Transition

/-!
# Single-flight name resolution

`resolve_async`, `cancel_resolve` and the worker threads of `dns.cc` as one
transition system. A step is what a thread does up to its next access to
something that it shares without a mutex, or under one critical section. The
last handler of a task, for exceptions that come from neither the resolver nor
a callback, has none to catch here.
-/

namespace KatHttp3

open Str

/-- A callback is known by the number of the call of `resolve_async` that brought it. -/
structure DnsWaiter where
  call : ℕ
  cancelled : ℕ
  deriving DecidableEq

structure DnsFlight where
  cancelled : Bool := false
  waiters : List DnsWaiter := []
  deriving DecidableEq

def kMaxDnsFlightWaiters : ℕ := 1024

abbrev kWorkerCount : ℕ := 2

/-- Where a thread is that calls `resolve_async` or `cancel_resolve`. -/
inductive DnsCaller where
  | idle
  | joining (resolver : ℕ) (host : Str) (port : ℕ) (key : Str) (token : ℕ)
  | submitting (task : DnsTask) (token : ℕ)
  | accepted (token flight : ℕ)
  | returned (ok : Bool)
  | cancelling (token : ℕ)
  | removing (token : ℕ) (rest : List (Str × ℕ))
  | pruning (token : ℕ)
  | cancelled
  deriving DecidableEq

/-- Where a worker thread is. -/
inductive DnsWorker where
  | idle
  | taken (task : DnsTask)
  | starting (task : DnsTask)
  | resolving (task : DnsTask)
  | resolved (task : DnsTask) (endpoints : List ResolvedEndpoint)
  | delivering (task : DnsTask) (endpoints : List ResolvedEndpoint) (waiters : List DnsWaiter)
  | calling (task : DnsTask) (endpoints : List ResolvedEndpoint) (waiter : DnsWaiter)
      (waiters : List DnsWaiter)
  | exited

/-- The flights are known by number, as are the tokens. The last three fields
record what has happened: the calls of resolvers, what came of them for each
flight, and the calls of callbacks. -/
structure DnsState where
  tokens : ℕ → Bool := fun _ => false
  flights : ℕ → DnsFlight := fun _ => {}
  allocated : ℕ := 0
  dnsFlights : List (Str × ℕ) := []
  dnsFlightsMutex : Option ℕ := none
  pool : DnsWorkerPool := {}
  caller : ℕ → DnsCaller := fun _ => .idle
  worker : Fin kWorkerCount → DnsWorker := fun _ => .idle
  resolves : List DnsTask := []
  outcomes : List (ℕ × List ResolvedEndpoint) := []
  called : List (ℕ × List ResolvedEndpoint) := []

/-- A thread with its next step. Where a step prunes the queues, `seen` are the
flights whose flags it finds set; a flag that is set meanwhile may be missed. -/
inductive DnsLabel where
  | resolveAsync (i : ℕ) (resolver : Option ℕ) (host : Str) (port generation : ℕ)
      (cancelled : Option ℕ) (callback : Bool)
  | join (i : ℕ)
  | submit (i : ℕ) (seen : List ℕ)
  | cancelResolve (i : ℕ) (cancelled : Option ℕ)
  | lockFlights (i : ℕ)
  | remove (i : ℕ) (entry : Str × ℕ)
  | unlockFlights (i : ℕ)
  | pruneCancelled (i : ℕ) (seen : List ℕ)
  | take (w : Fin kWorkerCount) (seen : List ℕ)
  | check (w : Fin kWorkerCount)
  | start (w : Fin kWorkerCount)
  | resolved (w : Fin kWorkerCount) (outcome : Option (List ResolvedEndpoint))
  | collect (w : Fin kWorkerCount)
  | test (w : Fin kWorkerCount)
  | call (w : Fin kWorkerCount)
  | finish (w : Fin kWorkerCount)
  | stop
  | exit (w : Fin kWorkerCount)

def eraseKey (dnsFlights : List (Str × ℕ)) (key : Str) : List (Str × ℕ) :=
  dnsFlights.filter fun entry => entry.1 ≠ key

namespace DnsState

def setCaller (s : DnsState) (i : ℕ) (c : DnsCaller) : DnsState :=
  { s with caller := Function.update s.caller i c }

def setWorker (s : DnsState) (w : Fin kWorkerCount) (v : DnsWorker) : DnsState :=
  { s with worker := Function.update s.worker w v }

def setFlight (s : DnsState) (f : ℕ) (flight : DnsFlight) : DnsState :=
  { s with flights := Function.update s.flights f flight }

section

variable {s : DnsState} {i j : ℕ} {w w' : Fin kWorkerCount} {f g : ℕ}

@[simp] theorem setCaller_caller_self (c : DnsCaller) : (s.setCaller i c).caller i = c :=
  Function.update_self ..

theorem setCaller_caller_of_ne (c : DnsCaller) (h : j ≠ i) :
    (s.setCaller i c).caller j = s.caller j :=
  Function.update_of_ne h ..

@[simp] theorem setWorker_worker_self (v : DnsWorker) : (s.setWorker w v).worker w = v :=
  Function.update_self ..

theorem setWorker_worker_of_ne (v : DnsWorker) (h : w' ≠ w) :
    (s.setWorker w v).worker w' = s.worker w' :=
  Function.update_of_ne h ..

@[simp] theorem setFlight_flights_self (flight : DnsFlight) :
    (s.setFlight f flight).flights f = flight :=
  Function.update_self ..

end

/-- Flags are never reset, so a flag that was found set is set. -/
def Sees (s : DnsState) (seen : List ℕ) : Prop := ∀ f ∈ seen, (s.flights f).cancelled = true

instance (s : DnsState) (seen : List ℕ) : Decidable (s.Sees seen) :=
  inferInstanceAs (Decidable (∀ f ∈ seen, _))

/-- The critical section of `resolve_async`. A new flight keeps the mutex until
its task has been submitted. -/
def join (s : DnsState) (i resolver : ℕ) (host : Str) (port : ℕ) (key : Str) (token : ℕ) :
    DnsState :=
  match s.dnsFlights.lookup key with
  | some f =>
    let flight := s.flights f
    if kMaxDnsFlightWaiters ≤ flight.waiters.length then s.setCaller i (.returned false)
    else
      (s.setFlight f { flight with waiters := flight.waiters ++ [⟨i, token⟩] }).setCaller i
        (.accepted token f)
  | none =>
    let f := s.allocated
    { s.setFlight f { waiters := [⟨i, token⟩] } with
      allocated := f + 1
      dnsFlights := (key, f) :: s.dnsFlights
      dnsFlightsMutex := some i
      caller := Function.update s.caller i (.submitting ⟨resolver, host, port, key, f⟩ token) }

/-- A flight whose task is refused is freed. -/
def submit (s : DnsState) (i : ℕ) (task : DnsTask) (token : ℕ) (seen : List ℕ) : DnsState :=
  let submitted := s.pool.submit (seen.contains ·) task
  if submitted.2 then
    { s.setCaller i (.accepted token task.flight) with
      pool := submitted.1
      dnsFlightsMutex := none }
  else
    { (s.setFlight task.flight {}).setCaller i (.returned false) with
      pool := submitted.1
      dnsFlights := eraseKey s.dnsFlights task.key
      dnsFlightsMutex := none }

/-- One turn of the loop of `cancel_resolve`. -/
def remove (s : DnsState) (i token : ℕ) (rest : List (Str × ℕ)) (entry : Str × ℕ) : DnsState :=
  let flight := s.flights entry.2
  let waiters := flight.waiters.filter fun waiter => waiter.cancelled ≠ token
  let s := s.setCaller i (.removing token (rest.erase entry))
  if waiters = [] then
    { s.setFlight entry.2 ⟨true, []⟩ with dnsFlights := eraseKey s.dnsFlights entry.1 }
  else s.setFlight entry.2 { flight with waiters := waiters }

/-- The waiters are taken over, unless the flight is no longer the one of its key. -/
def collect (s : DnsState) (w : Fin kWorkerCount) (task : DnsTask)
    (endpoints : List ResolvedEndpoint) : DnsState :=
  if s.dnsFlights.lookup task.key = some task.flight then
    let flight := s.flights task.flight
    { (s.setFlight task.flight { flight with waiters := [] }).setWorker w
        (.delivering task endpoints flight.waiters) with
      dnsFlights := eraseKey s.dnsFlights task.key }
  else s.setWorker w (.delivering task endpoints [])

def step (s : DnsState) : DnsLabel → Option DnsState
  | .resolveAsync i resolver host port generation cancelled callback =>
    match s.caller i, resolver, cancelled, callback with
    | .idle, some resolver, some token, true =>
      if s.tokens token then some (s.setCaller i (.returned true))
      else
        some (s.setCaller i
          (.joining resolver host port (dnsFlightKey resolver host port generation) token))
    | .idle, _, _, _ => some (s.setCaller i (.returned false))
    | _, _, _, _ => none
  | .join i =>
    match s.dnsFlightsMutex, s.caller i with
    | none, .joining resolver host port key token => some (s.join i resolver host port key token)
    | _, _ => none
  | .submit i seen =>
    match s.caller i with
    | .submitting task token => if s.Sees seen then some (s.submit i task token seen) else none
    | _ => none
  | .cancelResolve i cancelled =>
    match s.caller i, cancelled with
    | .idle, none => some (s.setCaller i .cancelled)
    | .idle, some token =>
      some { s.setCaller i (.cancelling token) with tokens := Function.update s.tokens token true }
    | _, _ => none
  | .lockFlights i =>
    match s.dnsFlightsMutex, s.caller i with
    | none, .cancelling token =>
      some { s.setCaller i (.removing token s.dnsFlights) with dnsFlightsMutex := some i }
    | _, _ => none
  | .remove i entry =>
    match s.caller i with
    | .removing token rest => if entry ∈ rest then some (s.remove i token rest entry) else none
    | _ => none
  | .unlockFlights i =>
    match s.caller i with
    | .removing token [] => some { s.setCaller i (.pruning token) with dnsFlightsMutex := none }
    | _ => none
  | .pruneCancelled i seen =>
    match s.caller i with
    | .pruning _ =>
      if s.Sees seen then
        some { s.setCaller i .cancelled with pool := s.pool.pruneCancelled (seen.contains ·) }
      else none
    | _ => none
  | .take w seen =>
    match s.worker w with
    | .idle =>
      if s.Sees seen then
        (s.pool.take (seen.contains ·)).map fun (task, pool) =>
          { s.setWorker w (.taken task) with pool := pool }
      else none
    | _ => none
  | .check w =>
    match s.worker w with
    | .taken task =>
      some (s.setWorker w (if (s.flights task.flight).cancelled then .idle else .starting task))
    | _ => none
  | .start w =>
    match s.worker w with
    | .starting task =>
      if (s.flights task.flight).cancelled then some (s.setWorker w .idle)
      else some { s.setWorker w (.resolving task) with resolves := s.resolves ++ [task] }
    | _ => none
  | .resolved w outcome =>
    match s.worker w with
    | .resolving task =>
      let endpoints := outcome.getD []
      some { s.setWorker w (.resolved task endpoints) with
        outcomes := s.outcomes ++ [(task.flight, endpoints)] }
    | _ => none
  | .collect w =>
    match s.dnsFlightsMutex, s.worker w with
    | none, .resolved task endpoints => some (s.collect w task endpoints)
    | _, _ => none
  | .test w =>
    match s.worker w with
    | .delivering task endpoints (waiter :: waiters) =>
      some (s.setWorker w
        (if s.tokens waiter.cancelled then .delivering task endpoints waiters
        else .calling task endpoints waiter waiters))
    | _ => none
  | .call w =>
    match s.worker w with
    | .calling task endpoints waiter waiters =>
      some { s.setWorker w (.delivering task endpoints waiters) with
        called := s.called ++ [(waiter.call, endpoints)] }
    | _ => none
  | .finish w =>
    match s.worker w with
    | .delivering _ _ [] => some (s.setWorker w .idle)
    | _ => none
  | .stop => some { s with pool := { s.pool with stopping := true } }
  | .exit w =>
    match s.worker w with
    | .idle => if s.pool.stopping ∧ s.pool.tasks = [] then some (s.setWorker w .exited) else none
    | _ => none

/-- What a step can do: the place of its thread before it and the state after it. -/
inductive StepTo (s : DnsState) : DnsLabel → DnsState → Prop where
  | resolveAsync {i : ℕ} {resolver : Option ℕ} {host : Str} {port generation : ℕ}
      {cancelled : Option ℕ} {callback : Bool} {c : DnsCaller} (hcaller : s.caller i = .idle)
      (hc : (∃ ok, c = .returned ok) ∨ ∃ resolver key token,
        c = .joining resolver host port key token) :
      StepTo s (.resolveAsync i resolver host port generation cancelled callback) (s.setCaller i c)
  | join {i resolver port token : ℕ} {host key : Str} (hlock : s.dnsFlightsMutex = none)
      (hcaller : s.caller i = .joining resolver host port key token) :
      StepTo s (.join i) (s.join i resolver host port key token)
  | submit {i token : ℕ} {task : DnsTask} {seen : List ℕ}
      (hcaller : s.caller i = .submitting task token) (hsees : s.Sees seen) :
      StepTo s (.submit i seen) (s.submit i task token seen)
  | cancelNone {i : ℕ} (hcaller : s.caller i = .idle) :
      StepTo s (.cancelResolve i none) (s.setCaller i .cancelled)
  | cancelResolve {i token : ℕ} (hcaller : s.caller i = .idle) :
      StepTo s (.cancelResolve i (some token))
        { s.setCaller i (.cancelling token) with tokens := Function.update s.tokens token true }
  | lockFlights {i token : ℕ} (hlock : s.dnsFlightsMutex = none)
      (hcaller : s.caller i = .cancelling token) :
      StepTo s (.lockFlights i)
        { s.setCaller i (.removing token s.dnsFlights) with dnsFlightsMutex := some i }
  | remove {i token : ℕ} {rest : List (Str × ℕ)} {entry : Str × ℕ}
      (hcaller : s.caller i = .removing token rest) (hentry : entry ∈ rest) :
      StepTo s (.remove i entry) (s.remove i token rest entry)
  | unlockFlights {i token : ℕ} (hcaller : s.caller i = .removing token []) :
      StepTo s (.unlockFlights i)
        { s.setCaller i (.pruning token) with dnsFlightsMutex := none }
  | pruneCancelled {i token : ℕ} {seen : List ℕ} (hcaller : s.caller i = .pruning token)
      (hsees : s.Sees seen) :
      StepTo s (.pruneCancelled i seen)
        { s.setCaller i .cancelled with pool := s.pool.pruneCancelled (seen.contains ·) }
  | take {w : Fin kWorkerCount} {seen : List ℕ} {task : DnsTask} {pool : DnsWorkerPool}
      (hworker : s.worker w = .idle) (hsees : s.Sees seen)
      (htake : s.pool.take (seen.contains ·) = some (task, pool)) :
      StepTo s (.take w seen) { s.setWorker w (.taken task) with pool := pool }
  | check {w : Fin kWorkerCount} {task : DnsTask} (hworker : s.worker w = .taken task) :
      StepTo s (.check w)
        (s.setWorker w (if (s.flights task.flight).cancelled then .idle else .starting task))
  | drop {w : Fin kWorkerCount} {task : DnsTask} (hworker : s.worker w = .starting task)
      (hflag : (s.flights task.flight).cancelled = true) :
      StepTo s (.start w) (s.setWorker w .idle)
  | start {w : Fin kWorkerCount} {task : DnsTask} (hworker : s.worker w = .starting task) :
      StepTo s (.start w)
        { s.setWorker w (.resolving task) with resolves := s.resolves ++ [task] }
  | resolved {w : Fin kWorkerCount} {task : DnsTask} {outcome : Option (List ResolvedEndpoint)}
      (hworker : s.worker w = .resolving task) :
      StepTo s (.resolved w outcome)
        { s.setWorker w (.resolved task (outcome.getD [])) with
          outcomes := s.outcomes ++ [(task.flight, outcome.getD [])] }
  | collect {w : Fin kWorkerCount} {task : DnsTask} {endpoints : List ResolvedEndpoint}
      (hlock : s.dnsFlightsMutex = none) (hworker : s.worker w = .resolved task endpoints) :
      StepTo s (.collect w) (s.collect w task endpoints)
  | skip {w : Fin kWorkerCount} {task : DnsTask} {endpoints : List ResolvedEndpoint}
      {waiter : DnsWaiter} {waiters : List DnsWaiter}
      (hworker : s.worker w = .delivering task endpoints (waiter :: waiters))
      (htoken : s.tokens waiter.cancelled = true) :
      StepTo s (.test w) (s.setWorker w (.delivering task endpoints waiters))
  | test {w : Fin kWorkerCount} {task : DnsTask} {endpoints : List ResolvedEndpoint}
      {waiter : DnsWaiter} {waiters : List DnsWaiter}
      (hworker : s.worker w = .delivering task endpoints (waiter :: waiters))
      (htoken : s.tokens waiter.cancelled = false) :
      StepTo s (.test w) (s.setWorker w (.calling task endpoints waiter waiters))
  | call {w : Fin kWorkerCount} {task : DnsTask} {endpoints : List ResolvedEndpoint}
      {waiter : DnsWaiter} {waiters : List DnsWaiter}
      (hworker : s.worker w = .calling task endpoints waiter waiters) :
      StepTo s (.call w) { s.setWorker w (.delivering task endpoints waiters) with
        called := s.called ++ [(waiter.call, endpoints)] }
  | finish {w : Fin kWorkerCount} {task : DnsTask} {endpoints : List ResolvedEndpoint}
      (hworker : s.worker w = .delivering task endpoints []) :
      StepTo s (.finish w) (s.setWorker w .idle)
  | stop : StepTo s .stop { s with pool := { s.pool with stopping := true } }
  | exit {w : Fin kWorkerCount} (hworker : s.worker w = .idle) :
      StepTo s (.exit w) (s.setWorker w .exited)

theorem step_cases {s s' : DnsState} {label : DnsLabel} (h : s.step label = some s') :
    s.StepTo label s' := by
  cases label with
  | resolveAsync i resolver host port generation cancelled callback =>
    dsimp only [step] at h
    split at h
    · rename_i hcaller
      split_ifs at h
      · cases h
        exact .resolveAsync hcaller (Or.inl ⟨true, rfl⟩)
      · cases h
        exact .resolveAsync hcaller (Or.inr ⟨_, _, _, rfl⟩)
    · rename_i hcaller _
      cases h
      exact .resolveAsync hcaller (Or.inl ⟨false, rfl⟩)
    · cases h
  | join i =>
    dsimp only [step] at h
    split at h
    · rename_i hlock hcaller
      cases h
      exact .join hlock hcaller
    · cases h
  | submit i seen =>
    dsimp only [step] at h
    split at h
    · rename_i hcaller
      split_ifs at h with hsees
      cases h
      exact .submit hcaller hsees
    · cases h
  | cancelResolve i cancelled =>
    dsimp only [step] at h
    split at h
    · rename_i hcaller
      cases h
      exact .cancelNone hcaller
    · rename_i hcaller
      cases h
      exact .cancelResolve hcaller
    · cases h
  | lockFlights i =>
    dsimp only [step] at h
    split at h
    · rename_i hlock hcaller
      cases h
      exact .lockFlights hlock hcaller
    · cases h
  | remove i entry =>
    dsimp only [step] at h
    split at h
    · rename_i hcaller
      split_ifs at h with hentry
      cases h
      exact .remove hcaller hentry
    · cases h
  | unlockFlights i =>
    dsimp only [step] at h
    split at h
    · rename_i hcaller
      cases h
      exact .unlockFlights hcaller
    · cases h
  | pruneCancelled i seen =>
    dsimp only [step] at h
    split at h
    · rename_i hcaller
      split_ifs at h with hsees
      cases h
      exact .pruneCancelled hcaller hsees
    · cases h
  | take w seen =>
    dsimp only [step] at h
    split at h
    · rename_i hworker
      split_ifs at h with hsees
      obtain ⟨⟨task, pool⟩, htake, rfl⟩ := Option.map_eq_some_iff.mp h
      exact .take hworker hsees htake
    · cases h
  | check w =>
    dsimp only [step] at h
    split at h
    · rename_i hworker
      cases h
      exact .check hworker
    · cases h
  | start w =>
    dsimp only [step] at h
    split at h
    · rename_i hworker
      split_ifs at h with hflag
      · cases h
        exact .drop hworker hflag
      · cases h
        exact .start hworker
    · cases h
  | resolved w outcome =>
    dsimp only [step] at h
    split at h
    · rename_i hworker
      cases h
      exact .resolved hworker
    · cases h
  | collect w =>
    dsimp only [step] at h
    split at h
    · rename_i hlock hworker
      cases h
      exact .collect hlock hworker
    · cases h
  | test w =>
    dsimp only [step] at h
    split at h
    · rename_i hworker
      cases h
      split_ifs with htoken
      · exact .skip hworker htoken
      · exact .test hworker (Bool.not_eq_true _ ▸ htoken)
    · cases h
  | call w =>
    dsimp only [step] at h
    split at h
    · rename_i hworker
      cases h
      exact .call hworker
    · cases h
  | finish w =>
    dsimp only [step] at h
    split at h
    · rename_i hworker
      cases h
      exact .finish hworker
    · cases h
  | stop =>
    cases h
    exact .stop
  | exit w =>
    dsimp only [step] at h
    split at h
    · rename_i hworker
      split_ifs at h
      cases h
      exact .exit hworker
    · cases h

end DnsState

end KatHttp3
