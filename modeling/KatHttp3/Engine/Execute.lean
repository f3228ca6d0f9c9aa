import KatHttp3.Engine.Events
import KatHttp3.Engine.Threads
import KatHttp3.Library.Unwinding
import KatHttp3.Library.WeightedList

/-!
# Exceptions in `execute`

`Engine::execute` as a program that may throw wherever memory is allocated or a
thread is made, with the destructor of its job and the catch clause of
`kathttp3_client_execute`. A request object is a pointer; the programs say when
it is freed and which job owns it.
-/

namespace KatHttp3

open Str Unwinding WeightedList

/-- Where memory or threads can run out in `execute`. -/
inductive ThrowPoint
  | parseUrl
  | cookieHeader
  | makeJob
  | copyUrl
  | copyResponseUrl
  | cacheLookup
  | cacheResult
  | registerCached
  | queueCached
  | startDispatcher
  | poolKey
  | makeClient
  | growPool
  | register
  | enqueue
  | startWorker
  deriving DecidableEq

/-- A job and the request object that its destructor frees. -/
structure OwnedJob where
  job : Job
  request : ℕ
  deriving DecidableEq

/-- A connection, as far as `execute` sees it. -/
structure PooledClient where
  key : Str
  acceptsNewJobs : Bool := true
  closed : Bool := false
  pending : List OwnedJob := []
  /-- `LazyWorkerStart::started_`. -/
  workerStart : Bool := false
  /-- The worker thread exists. -/
  thread : Bool := false
  deriving DecidableEq

namespace PooledClient

variable (client : PooledClient)

def enqueue (jobs : List OwnedJob) : PooledClient := { client with pending := client.pending ++ jobs }

/-- `LazyWorkerStart::claim_after_enqueue` on a client that has not started. -/
def claimAfterEnqueue : PooledClient := { client with workerStart := true }

def startThread : PooledClient := { client with thread := true }

end PooledClient

/-- What `execute` works on; `job` is its local `unique_ptr`. Nothing reads `freed`,
the request objects that were freed, and `thrown`, where an exception was thrown. -/
structure ExecuteState (J : Type) where
  shared : Shared J
  destroyed : Bool := false
  registry : Registry := []
  dispatchStop : Bool := false
  dispatchThread : Bool := false
  dispatchJobs : List OwnedJob := []
  dispatchBytes : ℕ := 0
  pool : List PooledClient := []
  job : Option OwnedJob := none
  log : List (ℤ × AppEvent) := []
  freed : List ℕ := []
  thrown : Option ThrowPoint := none
  deriving DecidableEq

/-- The limits that `execute` enforces. -/
structure AdmissionConfig where
  policyTag : Str := []
  maxConnectionWorkers : ℕ := 32
  cacheDispatchMaxBytes : ℕ := 32 * 1024 * 1024

def kMaxQueuedCachedJobs : ℕ := 128

abbrev Execution (J : Type) (α : Type) := EStateM Unit (ExecuteState J) α

namespace Execution

variable {J : Type} (engine : EngineConfig J) (admission : AdmissionConfig) (fault : ThrowPoint)

/-- An allocation or the start of a thread, which throws if it is the faulty one. -/
def point (p : ThrowPoint) : Execution J Unit :=
  if p = fault then do
    modify fun s => { s with thrown := some p }
    throw ()
  else pure ()

/-- `invoke_callback`, which lets no exception out. -/
def tell (id : ℤ) (event : AppEvent) : Execution J Unit :=
  modify fun s => { s with log := s.log ++ [(id, event)] }

def free (request : ℕ) : Execution J Unit :=
  modify fun s => { s with freed := request :: s.freed }

/-- The destructor of the local `unique_ptr`. -/
def destroyJob (s : ExecuteState J) : ExecuteState J :=
  match s.job with
  | none => s
  | some owned => { s with job := none, freed := owned.request :: s.freed }

/-- `Engine::queue_cached_job`, and whether the job is queued. -/
def queueCachedJob : Execution J Bool :=
  catching
    (do
      let s ← get
      match s.job with
      | none => pure false
      | some owned =>
        match owned.job.cachedResponse with
        | none => pure false
        | some response =>
          if s.dispatchStop ∨ kMaxQueuedCachedJobs ≤ s.dispatchJobs.length ∨
              admission.cacheDispatchMaxBytes - s.dispatchBytes < response.accountedBytes then
            pure false
          else do
            point fault .queueCached
            modify fun s => { s with
              job := none
              dispatchJobs := s.dispatchJobs ++ [owned]
              dispatchBytes := s.dispatchBytes + response.accountedBytes }
            if s.dispatchThread then pure true
            else
              catching
                (do
                  point fault .startDispatcher
                  modify fun s => { s with dispatchThread := true }
                  pure true)
                (fun _ => do
                  modify fun s => { s with
                    job := s.dispatchJobs.getLast?
                    dispatchJobs := s.dispatchJobs.dropLast
                    dispatchBytes := s.dispatchBytes - response.accountedBytes }
                  pure false))
    (fun _ => pure false)

/-- The requests of the jobs that go with the clients. -/
def pendingRequests (clients : List PooledClient) : List ℕ :=
  clients.flatMap fun client => client.pending.map OwnedJob.request

/-- `pool_.erase` of all the clients of a kind. -/
def eraseClients (p : PooledClient → Bool) (s : ExecuteState J) : ExecuteState J :=
  { s with
    pool := s.pool.filter fun client => !p client
    freed := pendingRequests (s.pool.filter p) ++ s.freed }

def poolKey (origin : Url) : Str :=
  admission.policyTag ++ "|".toList ++ origin.scheme ++ "://".toList ++ origin.host ++ ":".toList ++
    ofNat origin.port

/-- `Engine::get_or_create_client`. -/
def getOrCreateClient (origin : Url) : Execution J (Option Str) := do
  point fault .poolKey
  let key := poolKey admission origin
  let s ← get
  if (s.pool.find? fun client => client.key == key).any PooledClient.acceptsNewJobs then
    pure (some key)
  else do
    modify (eraseClients fun client => client.key == key)
    modify (eraseClients PooledClient.closed)
    let s ← get
    if admission.maxConnectionWorkers ≤ s.pool.length then pure none
    else do
      point fault .makeClient
      point fault .growPool
      modify fun s => { s with pool := s.pool ++ [{ key := key }] }
      pure (some key)

/-- A change of the client of a key. -/
def updateClient (key : Str) (f : PooledClient → PooledClient) (s : ExecuteState J) :
    ExecuteState J :=
  { s with pool := updateFirst (fun client => client.key == key) f s.pool }

/-- `QuicClient::submit_job` of the job that `execute` holds. -/
def submitJob (key : Str) : Execution J Unit := do
  point fault .enqueue
  let s ← get
  modify fun s => { updateClient key (PooledClient.enqueue · s.job.toList) s with job := none }
  if (s.pool.find? fun client => client.key == key).any PooledClient.workerStart then pure ()
  else do
    modify (updateClient key PooledClient.claimAfterEnqueue)
    point fault .startWorker
    modify (updateClient key PooledClient.startThread)

/-- `Engine::add_cookie_header`, if cookies are enabled. -/
def addCookies (req : Request) (url : Url) (now : ClockReading) : Execution J Request :=
  if engine.enableCookies then do
    point fault .cookieHeader
    let s ← get
    let prepared := engine.withCookies s.shared req url now
    modify fun s => { s with shared := prepared.1 }
    pure prepared.2
  else pure req

/-- The part of `Engine::execute` that runs with a job. -/
def executeJob (request : ℕ) (req : Request) (id : ℤ) (url : Url) (now : ClockReading) :
    Execution J Unit := do
  modify fun s => { s with job := some ⟨{ id := id, request := req }, request⟩ }
  point fault .copyUrl
  point fault .copyResponseUrl
  point fault .cacheLookup
  modify fun s =>
    let (shared, job) := startJob s.shared id req url 0 now
    { s with shared := shared, job := some ⟨job, request⟩ }
  point fault .cacheResult
  let s ← get
  if s.job.any fun owned => owned.job.cachedResponse.isSome then do
    point fault .registerCached
    modify fun s => { s with registry := s.registry.put id {} }
    let queued ← queueCachedJob admission fault
    if queued then pure ()
    else do
      modify fun s => { s with registry := s.registry.erase id }
      tell id (.error .nomem)
  else do
    let client ← getOrCreateClient admission fault url
    match client with
    | none => do
      tell id (.error .connectionLimit)
      free request
    | some key => do
      point fault .register
      modify fun s => { s with registry := s.registry.put id {} }
      submitJob fault key

/-- `Engine::execute` of a request object with its content. -/
def execute (request : ℕ) (req : Request) (id : ℤ) (now : ClockReading) : Execution J Unit := do
  let s ← get
  if s.destroyed then do
    tell id (.error .closed)
    free request
  else
    match validateRequestBodyFraming req with
    | none => do
      tell id (.error .invalidArg)
      free request
    | some req => do
      point fault .parseUrl
      match parseUrl engine.net req.url with
      | none => do
        tell id (.error .invalidArg)
        free request
      | some url => do
        let req ← addCookies engine fault req url now
        point fault .makeJob
        withDestructor destroyJob (executeJob admission fault request req id url now)

/-- `kathttp3_client_execute` of a client and a request. -/
def clientExecute (request : ℕ) (req : Request) (id : ℤ) (now : ClockReading) :
    Execution J Unit :=
  catching (execute engine admission fault request req id now) fun _ => do
    tell id (.error .nomem)
    free request

variable {engine admission fault}

/-! ### Who owns a request object -/

def usesOf (request : ℕ) (owned : OwnedJob) : ℕ := if owned.request = request then 1 else 0

def clientUses (request : ℕ) (client : PooledClient) : ℕ := total (usesOf request) client.pending

/-- How often the request object was freed, and how many jobs own it. -/
def uses (request : ℕ) (s : ExecuteState J) : ℕ :=
  s.freed.count request + total (usesOf request) s.job.toList +
    total (usesOf request) s.dispatchJobs + total (clientUses request) s.pool

/-- The jobs that wait at the dispatcher or at a connection. -/
def waitingJobs (s : ExecuteState J) : List OwnedJob :=
  s.dispatchJobs ++ s.pool.flatMap PooledClient.pending

theorem count_pendingRequests (request : ℕ) (clients : List PooledClient) :
    (pendingRequests clients).count request = total (clientUses request) clients := by
  have hjobs (jobs : List OwnedJob) :
      (jobs.map OwnedJob.request).count request = total (usesOf request) jobs := by
    induction jobs with
    | nil => rfl
    | cons owned jobs ih =>
      rw [List.map_cons, List.count_cons, ih, total_cons, usesOf]
      simp only [beq_iff_eq]
      omega
  induction clients with
  | nil => rfl
  | cons client clients ih =>
    rw [pendingRequests, List.flatMap_cons, List.count_append, hjobs, total_cons]
    rw [pendingRequests] at ih
    rw [ih, clientUses]

/-- A destructor frees the request of its job. -/
theorem uses_destroyJob (request : ℕ) (s : ExecuteState J) :
    uses request (destroyJob s) = uses request s := by
  unfold destroyJob
  split
  · rfl
  · rename_i owned hjob
    simp only [uses, hjob, List.count_cons, Option.toList_none, Option.toList_some, total_nil,
      total_cons, usesOf, beq_iff_eq]
    omega

theorem uses_eraseClients (request : ℕ) (p : PooledClient → Bool) (s : ExecuteState J) :
    uses request (eraseClients p s) = uses request s := by
  have htotal := @total_filter_add _ (clientUses request) p s.pool
  simp only [uses, eraseClients, List.count_append, count_pendingRequests]
  omega

theorem uses_free (request : ℕ) (s : ExecuteState J) :
    uses request { s with freed := request :: s.freed } = uses request s + 1 := by
  simp only [uses, List.count_cons_self]
  omega

/-! ### What each part of `execute` does -/

/-- The thrown exceptions after which nothing is left behind: before the job owns the
request, and while a stored response is queued. -/
def harmless : ThrowPoint → Bool
  | .parseUrl | .cookieHeader | .makeJob | .queueCached | .startDispatcher => true
  | _ => false

variable {request : ℕ} {id : ℤ} {s : ExecuteState J}

/-- Every connection that has claimed its worker has one. -/
def Startable (pool : List PooledClient) : Prop :=
  ∀ client ∈ pool, client.workerStart = true → client.thread = true

/-- The local job owns the request, and nothing else knows of it but the registry. -/
structure Holding (request : ℕ) (id : ℤ) (s : ExecuteState J) : Prop where
  held : ∃ job, s.job = some ⟨job, request⟩
  once : uses request s = 1
  unwaited : ∀ owned ∈ waitingJobs s, owned.job.id ≠ id
  startable : Startable s.pool
  untold : s.log.filter (fun event => event.1 == id) = []
  unthrown : s.thrown = none

/-- An exception has come too late for the catch clause: a job owns the request or has freed it. -/
structure Late (fault : ThrowPoint) (request : ℕ) (s : ExecuteState J) : Prop where
  thrown : s.thrown = some fault
  harmful : harmless fault = false
  once : uses request s = 1

theorem ensures_point {p : ThrowPoint} {Q : Unit → ExecuteState J → Prop}
    {E : Unit → ExecuteState J → Prop} :
    Ensures (point fault p) Q E s ↔
      (p = fault → E () { s with thrown := some p }) ∧ (p ≠ fault → Q () s) := by
  unfold point
  by_cases hp : p = fault
  · rw [if_pos hp]
    simp [hp]
  · rw [if_neg hp]
    simp [hp]

/-- A point that comes too late. -/
theorem Holding.point (h : Holding request id s) {p : ThrowPoint} (hharmful : harmless p = false)
    {Q : Unit → ExecuteState J → Prop} (hreturned : Q () s) :
    Ensures (point fault p) Q (fun _ s' => Late fault request s') s := by
  refine ensures_point.mpr ⟨?_, fun _ => hreturned⟩
  rintro rfl
  exact ⟨rfl, hharmful, h.once⟩

/-- A change of the state that the request has no part in. -/
theorem Holding.of_eq (h : Holding request id s) (s' : ExecuteState J) (hjob : s'.job = s.job)
    (huses : uses request s' = uses request s) (hwaiting : waitingJobs s' ⊆ waitingJobs s)
    (hstart : Startable s'.pool) (hlog : s'.log = s.log) (hthrown : s'.thrown = s.thrown) :
    Holding request id s' where
  held := hjob ▸ h.held
  once := huses.trans h.once
  unwaited owned hmem := h.unwaited owned (hwaiting hmem)
  startable := hstart
  untold := hlog ▸ h.untold
  unthrown := hthrown.trans h.unthrown

theorem Holding.register (h : Holding request id s) :
    Holding request id { s with registry := s.registry.put id {} } :=
  h.of_eq _ rfl rfl (List.Subset.refl _) h.startable rfl rfl

theorem Holding.eraseClients (h : Holding request id s) (p : PooledClient → Bool) :
    Holding request id (eraseClients p s) := by
  apply h.of_eq (Execution.eraseClients p s) rfl (uses_eraseClients request p s) _ _ rfl rfl
  · intro owned hmem
    rcases List.mem_append.mp hmem with hmem | hmem
    · exact List.mem_append_left _ hmem
    · obtain ⟨client, hclient, howned⟩ := List.mem_flatMap.mp hmem
      exact List.mem_append_right _
        (List.mem_flatMap.mpr ⟨client, (List.mem_filter.mp hclient).1, howned⟩)
  · exact fun client hclient => h.startable client (List.mem_filter.mp hclient).1

theorem Holding.addClient (h : Holding request id s) (key : Str) :
    Holding request id { s with pool := s.pool ++ [{ key := key }] } := by
  apply h.of_eq { s with pool := s.pool ++ [{ key := key }] } rfl _ _ _ rfl rfl
  · simp [uses, clientUses]
  · intro owned hmem
    simpa [waitingJobs] using hmem
  · intro client hclient
    rcases List.mem_append.mp hclient with hclient | hclient
    · exact h.startable client hclient
    · rw [List.mem_singleton.mp hclient]
      intro hclaimed
      cases hclaimed

theorem getOrCreateClient_spec (h : Holding request id s) (origin : Url) :
    Ensures (getOrCreateClient admission fault origin)
      (fun key s' => Holding request id s' ∧
        ∀ k, key = some k → ∃ client, s'.pool.find? (fun client => client.key == k) = some client)
      (fun _ s' => Late fault request s') s := by
  unfold getOrCreateClient
  rw [ensures_bind]
  apply h.point rfl
  rw [ensures_bind, ensures_get]
  generalize poolKey admission origin = key
  split_ifs with hreused
  · rw [ensures_pure]
    refine ⟨h, ?_⟩
    rintro k ⟨⟩
    obtain ⟨client, hclient, -⟩ := Option.any_eq_true _ _ |>.mp hreused
    exact ⟨client, hclient⟩
  · rw [ensures_bind, ensures_modify, ensures_bind, ensures_modify, ensures_bind, ensures_get]
    have hreaped := (h.eraseClients fun client => client.key == key).eraseClients PooledClient.closed
    split_ifs
    · rw [ensures_pure]
      exact ⟨hreaped, fun k hk => by cases hk⟩
    · rw [ensures_bind]
      apply hreaped.point rfl
      rw [ensures_bind]
      apply hreaped.point rfl
      rw [ensures_bind, ensures_modify, ensures_pure]
      refine ⟨hreaped.addClient key, ?_⟩
      rintro k ⟨⟩
      apply Option.isSome_iff_exists.mp
      exact List.find?_isSome.mpr ⟨{ key := key }, by simp, by simp⟩

/-- The local job goes to the end of a client's queue. -/
theorem uses_submitted (request : ℕ) (s : ExecuteState J) {key : Str} {client : PooledClient}
    (hfound : s.pool.find? (fun client => client.key == key) = some client) :
    uses request
        { updateClient key (PooledClient.enqueue · s.job.toList) s with job := none } =
      uses request s := by
  have htotal := @total_updateFirst _ (clientUses request) _
    (PooledClient.enqueue · s.job.toList) _ _ hfound
  have hclient : clientUses request (client.enqueue s.job.toList) =
      clientUses request client + total (usesOf request) s.job.toList := total_append _ _
  simp only [uses, updateClient, Option.toList_none, total_nil]
  omega

theorem uses_updateClient (request : ℕ) (s : ExecuteState J) (key : Str)
    (f : PooledClient → PooledClient) (hf : ∀ client, (f client).pending = client.pending) :
    uses request (updateClient key f s) = uses request s := by
  have htotal := @total_updateFirst_of_eq _ (clientUses request)
    (fun client : PooledClient => client.key == key) _
    (fun client => congrArg (total (usesOf request)) (hf client)) s.pool
  simp only [uses, updateClient, htotal]

theorem submitJob_spec (h : Holding request id s) {key : Str}
    (hfound : ∃ client, s.pool.find? (fun client => client.key == key) = some client) :
    Ensures (submitJob fault key) (fun _ s' => s'.thrown = none)
      (fun _ s' => Late fault request s') s := by
  obtain ⟨client, hclient⟩ := hfound
  unfold submitJob
  rw [ensures_bind]
  apply h.point rfl
  rw [ensures_bind, ensures_get, ensures_bind, ensures_modify]
  have hsubmitted := (uses_submitted request s hclient).trans h.once
  split_ifs
  · rw [ensures_pure]
    exact h.unthrown
  · rw [ensures_bind, ensures_modify, ensures_bind]
    refine ensures_point.mpr ⟨?_, fun _ => h.unthrown⟩
    rintro rfl
    refine ⟨rfl, rfl, ?_⟩
    have hclaimed := uses_updateClient request
      { updateClient key (PooledClient.enqueue · s.job.toList) s with job := none } key
      PooledClient.claimAfterEnqueue fun _ => rfl
    exact hclaimed.trans hsubmitted

/-- A stored response is queued, or everything is as it was. -/
theorem queueCachedJob_spec (h : Holding request id s) :
    Ensures (queueCachedJob admission fault)
      (fun queued s' => s'.thrown = none ∨
        queued = false ∧ harmless fault = true ∧ s' = { s with thrown := some fault })
      (fun _ s' => Late fault request s') s := by
  unfold queueCachedJob
  rw [ensures_catching, ensures_bind, ensures_get]
  split
  · exact Or.inl h.unthrown
  · rename_i owned howned
    split
    · exact Or.inl h.unthrown
    · rename_i response _
      split
      · exact Or.inl h.unthrown
      · rw [ensures_bind]
        refine ensures_point.mpr ⟨?_, fun _ => ?_⟩
        · rintro rfl
          exact Or.inr ⟨rfl, rfl, rfl⟩
        · rw [ensures_bind, ensures_modify]
          split
          · exact Or.inl h.unthrown
          · rw [ensures_catching, ensures_bind]
            refine ensures_point.mpr ⟨?_, fun _ => Or.inl h.unthrown⟩
            rintro rfl
            rw [ensures_bind, ensures_modify, ensures_pure]
            refine Or.inr ⟨rfl, rfl, ?_⟩
            simp [howned]

/-- The request object is new, and so is the id. -/
structure Ready (request : ℕ) (id : ℤ) (s : ExecuteState J) : Prop where
  idle : s.job = none
  unused : uses request s = 0
  unwaited : ∀ owned ∈ waitingJobs s, owned.job.id ≠ id
  startable : Startable s.pool
  unregistered : s.registry.lookup id = none
  untold : s.log.filter (fun event => event.1 == id) = []
  unthrown : s.thrown = none

/-- The request object was freed once or one job owns it, one terminal event was delivered,
no entry and no job is left behind, and every connection can start its worker. -/
structure Safe (request : ℕ) (id : ℤ) (s : ExecuteState J) : Prop where
  owned : uses request s = 1
  told : ∃ event, s.log.filter (fun event => event.1 == id) = [(id, event)] ∧
    event.isTerminal = true
  unregistered : s.registry.lookup id = none
  unwaited : ∀ owned ∈ waitingJobs s, owned.job.id ≠ id
  startable : Startable s.pool

theorem Safe.destroyJob (h : Safe request id s) : Safe request id (destroyJob s) := by
  have huses := uses_destroyJob request s
  unfold Execution.destroyJob at huses ⊢
  split at huses
  · exact h
  · exact ⟨huses.trans h.owned, h.told, h.unregistered, h.unwaited, h.startable⟩

theorem Late.destroyJob (h : Late fault request s) : Late fault request (destroyJob s) := by
  refine ⟨?_, h.harmful, (uses_destroyJob request s).trans h.once⟩
  unfold Execution.destroyJob
  split
  · exact h.thrown
  · exact h.thrown

@[simp] theorem thrown_destroyJob (s : ExecuteState J) : (destroyJob s).thrown = s.thrown := by
  unfold destroyJob
  split
  · rfl
  · rfl

theorem filter_tell {log : List (ℤ × AppEvent)} (h : log.filter (fun event => event.1 == id) = [])
    (event : AppEvent) :
    (log ++ [(id, event)]).filter (fun event => event.1 == id) = [(id, event)] := by
  rw [List.filter_append, h]
  simp

/-- While a job owns the request, only a full dispatcher leaves nothing behind. -/
theorem executeJob_spec (h : Ready request id s) (req : Request) (url : Url) (now : ClockReading) :
    Ensures (executeJob admission fault request req id url now)
      (fun _ s' => s'.thrown = none ∨ harmless fault = true ∧ Safe request id s')
      (fun _ s' => Late fault request s') s := by
  have hholding (shared : Shared J) (job : Job) :
      Holding request id { s with shared := shared, job := some ⟨job, request⟩ } := by
    refine ⟨⟨job, rfl⟩, ?_, h.unwaited, h.startable, h.untold, h.unthrown⟩
    have hunused := h.unused
    simp only [uses, h.idle, Option.toList_none, total_nil] at hunused
    simp only [uses, Option.toList_some, total_cons, total_nil, usesOf, if_true]
    omega
  unfold executeJob
  rw [ensures_bind, ensures_modify, ensures_bind]
  apply (hholding s.shared _).point rfl
  rw [ensures_bind]
  apply (hholding s.shared _).point rfl
  rw [ensures_bind]
  apply (hholding s.shared _).point rfl
  rw [ensures_bind, ensures_modify, ensures_bind]
  dsimp only
  generalize startJob s.shared id req url 0 now = started
  have hstarted := hholding started.1 started.2
  apply hstarted.point rfl
  rw [ensures_bind, ensures_get]
  split_ifs
  · rw [ensures_bind]
    apply hstarted.point rfl
    rw [ensures_bind, ensures_modify, ensures_bind]
    apply (queueCachedJob_spec hstarted.register).mono
    · intro queued s' hqueued
      cases queued with
      | true =>
        rw [if_pos rfl, ensures_pure]
        rcases hqueued with hnone | ⟨hfalse, -⟩
        · exact Or.inl hnone
        · cases hfalse
      | false =>
        rw [if_neg Bool.false_ne_true, ensures_bind, ensures_modify]
        rcases hqueued with hnone | ⟨-, hharmless, rfl⟩
        · exact Or.inl hnone
        · refine Or.inr ⟨hharmless, hstarted.once, ⟨_, filter_tell h.untold _, rfl⟩, ?_,
            h.unwaited, h.startable⟩
          rw [Registry.lookup_erase, if_pos rfl]
    · exact fun _ _ hlate => hlate
  · rw [ensures_bind]
    apply (getOrCreateClient_spec hstarted url).mono
    · rintro client s' ⟨hclient, hfound⟩
      cases client with
      | none => exact Or.inl hclient.unthrown
      | some key =>
        dsimp only
        rw [ensures_bind]
        apply hclient.point rfl
        rw [ensures_bind, ensures_modify]
        apply (submitJob_spec hclient.register (hfound key rfl)).mono
        · exact fun _ _ hnone => Or.inl hnone
        · exact fun _ _ hlate => hlate
    · exact fun _ _ hlate => hlate

/-- An exception that leaves `execute`. -/
structure Escaped (fault : ThrowPoint) (request : ℕ) (id : ℤ) (s : ExecuteState J) : Prop where
  thrown : s.thrown = some fault
  uses_eq : uses request s = if harmless fault then 0 else 1
  clean : harmless fault = true → s.registry.lookup id = none ∧
    (∀ owned ∈ waitingJobs s, owned.job.id ≠ id) ∧ Startable s.pool ∧
    s.log.filter (fun event => event.1 == id) = []

theorem Ready.point (h : Ready request id s) {p : ThrowPoint} (hharmless : harmless p = true)
    {Q : Unit → ExecuteState J → Prop} (hreturned : Q () s) :
    Ensures (point fault p) Q (fun _ s' => Escaped fault request id s') s := by
  refine ensures_point.mpr ⟨?_, fun _ => hreturned⟩
  rintro rfl
  refine ⟨rfl, ?_, fun _ => ⟨h.unregistered, h.unwaited, h.startable, h.untold⟩⟩
  rw [if_pos hharmless]
  exact h.unused

theorem addCookies_spec (h : Ready request id s) (req : Request) (url : Url) (now : ClockReading) :
    Ensures (addCookies engine fault req url now) (fun _ s' => Ready request id s')
      (fun _ s' => Escaped fault request id s') s := by
  unfold addCookies
  split
  · rw [ensures_bind]
    apply h.point rfl
    exact ⟨h.idle, h.unused, h.unwaited, h.startable, h.unregistered, h.untold, h.unthrown⟩
  · exact h

theorem execute_spec (h : Ready request id s) (req : Request) (now : ClockReading) :
    Ensures (execute engine admission fault request req id now)
      (fun _ s' => s'.thrown = none ∨ harmless fault = true ∧ Safe request id s')
      (fun _ s' => Escaped fault request id s') s := by
  unfold execute
  rw [ensures_bind, ensures_get]
  split
  · exact Or.inl h.unthrown
  split
  · exact Or.inl h.unthrown
  rename_i accepted _
  rw [ensures_bind]
  apply h.point rfl
  split
  · exact Or.inl h.unthrown
  rename_i url _
  rw [ensures_bind]
  apply (addCookies_spec h accepted url now).mono
  · intro req' s' hready
    rw [ensures_bind]
    apply hready.point rfl
    rw [ensures_withDestructor]
    apply (executeJob_spec hready req' url now).mono
    · rintro _ s'' (hnone | ⟨hharmless, hsafe⟩)
      · rw [thrown_destroyJob]
        exact Or.inl hnone
      · exact Or.inr ⟨hharmless, hsafe.destroyJob⟩
    · intro _ s'' hlate
      have hdestroyed := hlate.destroyJob
      refine ⟨hdestroyed.thrown, ?_, fun hharmless => ?_⟩
      · rw [hlate.harmful]
        exact hdestroyed.once
      · rw [hlate.harmful] at hharmless
        cases hharmless
  · exact fun _ _ hescaped => hescaped

/-- After an exception nothing of the request is left behind, exactly if it was thrown
before the job owns the request or while a stored response is queued. -/
theorem clientExecute_safe_iff (h : Ready request id s) (req : Request) (now : ClockReading)
    (hthrown : (finalState (clientExecute engine admission fault request req id now) s).thrown =
      some fault) :
    Safe request id (finalState (clientExecute engine admission fault request req id now) s) ↔
      harmless fault = true := by
  have hcaught : Ensures (clientExecute engine admission fault request req id now)
      (fun _ s' => s'.thrown = some fault → (Safe request id s' ↔ harmless fault = true))
      (fun _ s' => s'.thrown = some fault → (Safe request id s' ↔ harmless fault = true)) s := by
    unfold clientExecute
    rw [ensures_catching]
    apply (execute_spec h req now).mono
    · rintro _ s' (hnone | ⟨hharmless, hsafe⟩) hthrown
      · rw [hnone] at hthrown
        cases hthrown
      · exact iff_of_true hsafe hharmless
    · intro _ s' hescaped
      unfold tell free
      rw [ensures_bind, ensures_modify, ensures_modify]
      intro _
      have huses : uses request { s' with
          log := s'.log ++ [(id, .error .nomem)], freed := request :: s'.freed } =
          uses request s' + 1 := uses_free request s'
      rw [hescaped.uses_eq] at huses
      cases hharmless : harmless fault with
      | true =>
        obtain ⟨hregistry, hwaiting, hstart, hlog⟩ := hescaped.clean hharmless
        rw [hharmless] at huses
        exact iff_of_true ⟨huses, ⟨_, filter_tell hlog _, rfl⟩, hregistry, hwaiting, hstart⟩ rfl
      | false =>
        rw [hharmless] at huses
        refine iff_of_false (fun hsafe => ?_) Bool.false_ne_true
        have honce := hsafe.owned
        rw [huses] at honce
        cases honce
  exact hcaught.finalState hthrown

/-! ### The first request of a client -/

/-- A client without cache, before its first request. -/
def emptyClient : ExecuteState Unit := { shared := ⟨none, ()⟩ }

theorem ready_emptyClient : Ready 1 7 emptyClient where
  idle := rfl
  unused := rfl
  unwaited _ hmem := by cases hmem
  startable _ hmem := by cases hmem
  unregistered := rfl
  untold := rfl
  unthrown := rfl

/-- The state after `kathttp3_client_execute` of a GET, with an exception at a point. -/
def afterThrow (fault : ThrowPoint) : ExecuteState Unit :=
  finalState (clientExecute plainEngine {} fault 1 plainGet 7 plainNow) emptyClient

theorem clientExecute_safe_iff_makeJob :
    (afterThrow .makeJob).thrown = some .makeJob ∧
      (Safe 1 7 (afterThrow .makeJob) ↔ harmless .makeJob = true) :=
  have hthrown : (afterThrow .makeJob).thrown = some .makeJob := by decide +kernel
  ⟨hthrown, clientExecute_safe_iff ready_emptyClient plainGet plainNow hthrown⟩

/-- No thread for the first worker: the request is freed and still owned by a job that
waits for a worker that nobody can start, and its entry stays. -/
theorem startWorker_unsafe :
    Ready 1 7 emptyClient ∧ (afterThrow .startWorker).thrown = some .startWorker ∧
      (afterThrow .startWorker).freed = [1] ∧
      (waitingJobs (afterThrow .startWorker)).map OwnedJob.request = [1] ∧
      (afterThrow .startWorker).registry = [(7, {})] ∧
      (afterThrow .startWorker).log = [(7, .error .nomem)] ∧
      ¬ Startable (afterThrow .startWorker).pool ∧ ¬ Safe 1 7 (afterThrow .startWorker) := by
  refine ⟨ready_emptyClient, by decide +kernel, by decide +kernel, by decide +kernel,
    by decide +kernel, by decide +kernel, ?_, ?_⟩
  · intro hstart
    have hclient : ∃ client ∈ (afterThrow .startWorker).pool,
        client.workerStart = true ∧ client.thread = false := by decide +kernel
    obtain ⟨client, hmem, hclaimed, hthread⟩ := hclient
    rw [hstart client hmem hclaimed] at hthread
    cases hthread
  · intro hsafe
    have htwice : uses 1 (afterThrow .startWorker) = 2 := by decide +kernel
    rw [hsafe.owned] at htwice
    cases htwice

end Execution

end KatHttp3
