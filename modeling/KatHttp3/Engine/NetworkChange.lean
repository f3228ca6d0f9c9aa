import KatHttp3.Library.Parties
import KatHttp3.Library.Transition

/-!
# Network changes

From the callbacks of Android to the workers: `NetworkIdentityTracker`, the
check of `KatHttp3Client`, `Engine::network_changed`, `request_network_change` and
`process_network_change`. The reporting thread stores the handle and the
generation of a client one after the other and writes its eventfd last; the worker
loads the generation first and the handle second. What a change does to the resolver is
left to `ResolverState`. A worker that is connecting looks for changes before its
own waits, which are not followed here.
-/

namespace KatHttp3

open Parties

/-! ### The report -/

structure NetworkChangeRequest where
  generation : ℕ
  network : ℕ
  deriving DecidableEq

inductive NetworkChangeAction
  | none
  | reconnect
  | migrate
  deriving DecidableEq

def networkChangeAction (requested : NetworkChangeRequest) (appliedGeneration : ℕ)
    (handshakeConfirmed attemptMigration : Bool) : NetworkChangeAction :=
  if requested.generation ≤ appliedGeneration then .none
  else if !attemptMigration || requested.network == 0 || !handshakeConfirmed then .reconnect
  else .migrate

structure NetworkIdentityTracker where
  generation : ℕ := 0
  currentHandle : ℕ := 0
  closed : Bool := false
  deriving DecidableEq

namespace NetworkIdentityTracker

variable (tracker : NetworkIdentityTracker)

/-- The call of `changed`. -/
def request : NetworkChangeRequest := ⟨tracker.generation, tracker.currentHandle⟩

def change (networkHandle : ℕ) : NetworkIdentityTracker :=
  { tracker with generation := tracker.generation + 1, currentHandle := networkHandle }

/-- The tracker afterwards, if the call is not suppressed. -/
def available (networkHandle : ℕ) : Option NetworkIdentityTracker :=
  if tracker.closed || networkHandle == 0 || networkHandle == tracker.currentHandle then none
  else some (tracker.change networkHandle)

def lost (networkHandle : ℕ) : Option NetworkIdentityTracker :=
  if tracker.closed || networkHandle == 0 || networkHandle != tracker.currentHandle then none
  else some (tracker.change 0)

def close : NetworkIdentityTracker := { tracker with closed := true }

end NetworkIdentityTracker

/-! ### The workers -/

/-- Where a worker is. The top of the event loop looks for a change before it polls, and a
wakeup has the worker look again. -/
inductive NetworkPhase
  | connecting
  | looking (beforePoll : Bool)
  /-- The generation is loaded, the handle is not. -/
  | loaded (beforePoll : Bool) (generation : ℕ)
  | polling
  /-- `poll` has reported the eventfd. -/
  | woken
  | iterating
  | ended (networkLost : Bool)
  deriving DecidableEq

/-- A client, as far as it is about networks. -/
structure NetworkClient where
  inPool : Bool := true
  requestedNetworkHandle : ℕ := 0
  requestedNetworkGeneration : ℕ := 0
  appliedNetworkGeneration : ℕ := 0
  currentNetworkHandle : ℕ
  attemptMigration : Bool
  handshakeConfirmed : Bool := false
  /-- `conn_` and the family of `peer_endpoint_` are set. -/
  connected : Bool := false
  migrationInProgress : Bool := false
  socketFailed : Bool := false
  /-- The eventfd of `wakeup`. -/
  readable : Bool := false
  phase : NetworkPhase := .connecting
  deriving DecidableEq

/-- What becomes of the replacement socket. -/
inductive MigrationResult
  | failed
  | migrated (localChanged : Bool)
  deriving DecidableEq

/-- A step of the worker. -/
inductive NetworkWork
  /-- It looks for a change while it is connecting. -/
  | notice
  | connect (confirmed connected : Bool)
  | load
  | process (result : MigrationResult)
  | poll
  /-- `poll` returns for another reason. -/
  | pass
  | drain
  | confirm
  | iterate
  /-- The connection fails and another endpoint is tried. -/
  | restart
  | stop
  deriving DecidableEq

namespace NetworkClient

variable (client : NetworkClient)

/-- `process_network_change` once the generation is loaded, and what follows it. -/
def processNetworkChange (beforePoll : Bool) (generation : ℕ) (result : MigrationResult) :
    NetworkClient :=
  let request : NetworkChangeRequest := ⟨generation, client.requestedNetworkHandle⟩
  let next := if beforePoll then .polling else .iterating
  match networkChangeAction request client.appliedNetworkGeneration client.handshakeConfirmed
      client.attemptMigration with
  | .none => { client with phase := next }
  | .reconnect => { client with appliedNetworkGeneration := generation, phase := .ended true }
  | .migrate =>
    match client.connected, result with
    | true, .migrated localChanged =>
      { client with
        appliedNetworkGeneration := generation
        migrationInProgress := localChanged || client.migrationInProgress
        currentNetworkHandle := request.network
        socketFailed := false
        phase := next }
    | _, _ => { client with appliedNetworkGeneration := generation, phase := .ended true }

def work : NetworkWork → Option NetworkClient
  | .notice =>
    match client.phase with
    | .connecting =>
      if client.appliedNetworkGeneration < client.requestedNetworkGeneration then
        some { client with phase := .ended true }
      else some client
    | _ => none
  | .connect confirmed connected =>
    match client.phase with
    | .connecting =>
      some { client with
        handshakeConfirmed := confirmed, connected := connected, phase := .looking true }
    | _ => none
  | .load =>
    match client.phase with
    | .looking beforePoll =>
      some { client with phase := .loaded beforePoll client.requestedNetworkGeneration }
    | _ => none
  | .process result =>
    match client.phase with
    | .loaded beforePoll generation =>
      some (client.processNetworkChange beforePoll generation result)
    | _ => none
  | .poll =>
    match client.phase with
    | .polling => if client.readable then some { client with phase := .woken } else none
    | _ => none
  | .pass =>
    match client.phase with
    | .polling => some { client with phase := .iterating }
    | _ => none
  | .drain =>
    match client.phase with
    | .woken => some { client with readable := false, phase := .looking false }
    | _ => none
  | .confirm =>
    match client.phase with
    | .iterating => some { client with handshakeConfirmed := true }
    | _ => none
  | .iterate =>
    match client.phase with
    | .iterating => some { client with phase := .looking true }
    | _ => none
  | .restart =>
    match client.phase with
    | .iterating =>
      some { client with handshakeConfirmed := false, connected := false, phase := .connecting }
    | _ => none
  | .stop =>
    match client.phase with
    | .ended _ => none
    | _ => some { client with phase := .ended false }

end NetworkClient

/-! ### The system -/

/-- How far a report has come. The tracker is locked while there is one, and the mutex of the
pool from `network_generation_` on. -/
inductive NetworkReport
  | none
  /-- `changed` is called. -/
  | reported (request : NetworkChangeRequest)
  /-- `network_generation_` is set. -/
  | entered (request : NetworkChangeRequest)
  /-- The clients that the loop over the pool has not reached. -/
  | clients (request : NetworkChangeRequest) (remaining : List ℕ)
  /-- The handle of a client is stored. -/
  | handle (request : NetworkChangeRequest) (remaining : List ℕ) (i : ℕ)
  /-- Its generation is stored as well, and its eventfd has not been written. -/
  | generation (request : NetworkChangeRequest) (remaining : List ℕ) (i : ℕ)
  deriving DecidableEq

structure NetworkShared where
  tracker : NetworkIdentityTracker := {}
  report : NetworkReport := .none
  networkGeneration : ℕ := 0
  androidNetworkHandle : ℕ := 0
  attemptMigration : Bool
  /-- `KatHttp3Client.close` was called. -/
  closed : Bool := false
  destroyed : Bool := false
  deriving DecidableEq

inductive NetworkLabel
  | available (networkHandle : ℕ)
  | lost (networkHandle : ℕ)
  | closeTracker
  | closeClient
  | destroy
  /-- The checks of the report, up to the store of the generation. -/
  | enter
  | storeNetwork
  | storeHandle (i : ℕ)
  | storeGeneration
  | wakeup
  | leave
  /-- `get_or_create_client` makes a client. -/
  | create
  /-- It removes one that takes no more jobs, and joins its worker. -/
  | erase (i : ℕ)
  | worker (i : ℕ) (work : NetworkWork)
  deriving DecidableEq

abbrev NetworkState := System NetworkShared NetworkClient

namespace NetworkShared

variable (shared : NetworkShared)

/-- Nobody holds the mutex of the pool for a report. -/
def poolFree : Bool :=
  match shared.report with
  | .none => true
  | .reported _ => true
  | _ => false

def newClient : NetworkClient :=
  { currentNetworkHandle := shared.androidNetworkHandle
    attemptMigration := shared.attemptMigration }

/-- The stores of `request_network_change`, one at a time. -/
def storeHandle (i : ℕ) (client : NetworkClient) : Option (NetworkShared × NetworkClient) :=
  match shared.report with
  | .clients request remaining =>
    if i ∈ remaining then
      some ({ shared with report := .handle request (remaining.filter (· ≠ i)) i },
        { client with requestedNetworkHandle := request.network })
    else none
  | _ => none

def storeGeneration (client : NetworkClient) : Option (NetworkShared × NetworkClient) :=
  match shared.report with
  | .handle request remaining i =>
    some ({ shared with report := .generation request remaining i },
      { client with requestedNetworkGeneration := request.generation })
  | _ => none

def wakeup (client : NetworkClient) : Option (NetworkShared × NetworkClient) :=
  match shared.report with
  | .generation request remaining _ =>
    some ({ shared with report := .clients request remaining }, { client with readable := true })
  | _ => none

def erase (client : NetworkClient) : Option (NetworkShared × NetworkClient) :=
  if shared.poolFree && client.inPool then
    some (shared, { client with inPool := false, phase := .ended false })
  else none

/-- The client that the report is at. -/
def reportedClient : ℕ :=
  match shared.report with
  | .handle _ _ i => i
  | .generation _ _ i => i
  | _ => 0

end NetworkShared

namespace NetworkState

def initial (attemptMigration : Bool) : NetworkState := ⟨{ attemptMigration }, []⟩

variable (s : NetworkState)

/-- A call of the tracker, which waits while there is a report. -/
def track (next : Option NetworkIdentityTracker) : Option NetworkState :=
  match s.shared.report with
  | .none =>
    match next with
    | none => some s
    | some tracker =>
      some { s with shared := { s.shared with tracker, report := .reported tracker.request } }
  | _ => none

/-- The positions of the clients in the pool. -/
def pool : List ℕ :=
  (List.range s.parties.length).filter fun i => (s.parties[i]?).any (·.inPool)

def step : NetworkLabel → Option NetworkState
  | .available networkHandle => s.track (s.shared.tracker.available networkHandle)
  | .lost networkHandle => s.track (s.shared.tracker.lost networkHandle)
  | .closeTracker =>
    match s.shared.report with
    | .none => some { s with shared := { s.shared with tracker := s.shared.tracker.close } }
    | _ => none
  | .closeClient =>
    if s.shared.poolFree then some { s with shared := { s.shared with closed := true } } else none
  | .destroy =>
    if s.shared.poolFree then
      some
        { shared := { s.shared with destroyed := true }
          parties := s.parties.map fun client =>
            { client with inPool := false, phase := .ended false } }
    else none
  | .enter =>
    match s.shared.report with
    | .reported request =>
      if s.shared.closed || s.shared.destroyed ||
          decide (request.generation ≤ s.shared.networkGeneration) then
        some { s with shared := { s.shared with report := .none } }
      else
        some { s with
          shared := { s.shared with
            networkGeneration := request.generation, report := .entered request } }
    | _ => none
  | .storeNetwork =>
    match s.shared.report with
    | .entered request =>
      some { s with
        shared := { s.shared with
          androidNetworkHandle := request.network, report := .clients request s.pool } }
    | _ => none
  | .storeHandle i => s.move i fun shared client => shared.storeHandle i client
  | .storeGeneration => s.move s.shared.reportedClient NetworkShared.storeGeneration
  | .wakeup => s.move s.shared.reportedClient NetworkShared.wakeup
  | .leave =>
    match s.shared.report with
    | .clients _ [] => some { s with shared := { s.shared with report := .none } }
    | _ => none
  | .create => if s.shared.poolFree then some (s.join s.shared.newClient) else none
  | .erase i => s.move i NetworkShared.erase
  | .worker i work => s.move i fun shared client => (client.work work).map (shared, ·)

end NetworkState

end KatHttp3
