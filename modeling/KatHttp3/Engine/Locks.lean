import KatHttp3.Engine.Pool

/-!
# Locks and joins

The four locks of the engine, and the joins of a client's worker in its destructor
and of the cache dispatcher. A function is the list of its operations, one for each
path through it; the path that a call takes, the clients that a lookup throws out and
the calls that the application makes are left open. A callback of the application
calls `consume`, `append_request_body` or `cancel`, as the Kotlin client does. The
locks of a connection, of the caches and of the dispatcher's queue are left out.
-/

namespace KatHttp3

/-! ### Functions -/

/-- `lifecycle_mutex_`, `callback_mutex_`, `mtx_` and `pool_mutex_`. -/
inductive EngineMutex
  | lifecycle | callback | registry | pool
  deriving DecidableEq

inductive LockOp
  | lock (mutex : EngineMutex)
  | unlock (mutex : EngineMutex)
  /-- The application's callback runs. -/
  | callback
  /-- The clients that `get_or_create_client` erases are destroyed. -/
  | discard
  | create
  /-- `stop_cached_dispatcher`. -/
  | joinDispatcher
  /-- `destroy` takes the clients out of the pool, releases it and destroys them. -/
  | clear
  deriving DecidableEq

namespace LockOp

/-- The locks that a thread holds after the operation, one entry each time it has taken one. -/
def after (held : List EngineMutex) : LockOp → List EngineMutex
  | lock mutex => mutex :: held
  | unlock mutex => held.erase mutex
  | clear => held.erase .pool
  | callback | discard | create | joinDispatcher => held

/-- The clients whose destructors are called. -/
def destroys (pool discarded : List ℕ) : LockOp → List ℕ
  | discard => discarded
  | clear => pool
  | lock _ | unlock _ | callback | create | joinDispatcher => []

end LockOp

/-- The scope of a guard. -/
def withLock (mutex : EngineMutex) (ops : List LockOp) : List LockOp :=
  .lock mutex :: (ops ++ [.unlock mutex])

inductive LookupPath
  | reused
  /-- No further connection worker is allowed. -/
  | limited
  | created
  deriving DecidableEq

/-- `Engine::get_or_create_client`. -/
def LookupPath.ops : LookupPath → List LockOp
  | reused => withLock .pool []
  | limited => withLock .pool [.discard]
  | created => withLock .pool [.discard, .create]

inductive ExecutePath
  /-- The engine is destroyed, or a check of the request fails. -/
  | refused
  | cached
  /-- The cache dispatcher has no room. -/
  | unqueued
  | looked (lookup : LookupPath)
  /-- An exception leaves the function, perhaps behind a lookup or in the registration. -/
  | thrown (lookup : Option LookupPath) (registering : Bool)
  deriving DecidableEq

/-- `Engine::execute` in `kathttp3_client_execute`, which reports an exception. -/
def ExecutePath.ops : ExecutePath → List LockOp
  | refused => withLock .lifecycle [.callback]
  | cached => withLock .lifecycle (withLock .registry [])
  | unqueued =>
    withLock .lifecycle (withLock .registry [] ++ withLock .registry [] ++ [.callback])
  | looked .limited => withLock .lifecycle (LookupPath.limited.ops ++ [.callback])
  | looked lookup => withLock .lifecycle (lookup.ops ++ withLock .registry [])
  | thrown lookup registering =>
    withLock .lifecycle
      (lookup.elim [] LookupPath.ops ++ if registering then withLock .registry [] else []) ++
        [.callback]

/-- The requests that are left when the engine is destroyed get their ERROR. -/
def pendingOps (pending : ℕ) : List LockOp :=
  (List.replicate pending (withLock .callback [.callback])).flatten

/-- A call of the application. `destroy` has been called before, or tells the end to some
requests. -/
inductive EngineCall
  | execute (path : ExecutePath)
  | consume
  | appendRequestBody
  | cancel (live : Bool)
  | destroy (pending : Option ℕ)
  /-- The engine may have been destroyed. -/
  | networkChanged (live : Bool)
  | setOriginPolicy
  deriving DecidableEq

namespace EngineCall

def ops : EngineCall → List LockOp
  | execute path => path.ops
  | consume => withLock .lifecycle (withLock .registry [])
  | appendRequestBody => withLock .lifecycle (withLock .registry [])
  | cancel false => withLock .lifecycle (withLock .callback (withLock .registry []))
  | cancel true =>
    .lock .lifecycle :: .lock .callback :: withLock .registry [] ++
      [.unlock .lifecycle, .callback, .unlock .callback]
  | destroy none => withLock .lifecycle []
  | destroy (some pending) =>
    .lock .lifecycle :: .joinDispatcher :: .lock .pool :: .clear :: withLock .registry [] ++
      .unlock .lifecycle :: pendingOps pending
  | networkChanged live => withLock .lifecycle (if live then withLock .pool [] else [])
  | setOriginPolicy => withLock .registry []

/-- The calls that the application makes from its callback. -/
def fromCallback : EngineCall → Bool
  | consume | appendRequestBody | cancel _ => true
  | execute _ | destroy _ | networkChanged _ | setOriginPolicy => false

end EngineCall

inductive DeliverPath
  /-- The request is not registered, cancelled or has ended. -/
  | ignored
  | spoken
  | ended
  deriving DecidableEq

/-- `Engine::deliver`. -/
def DeliverPath.ops : DeliverPath → List LockOp
  | ignored => withLock .callback (withLock .registry [])
  | spoken => withLock .callback (withLock .registry [] ++ [.callback])
  | ended => withLock .callback (withLock .registry [] ++ [.callback] ++ withLock .registry [])

/-- What a worker or the cache dispatcher does next: a delivery, or a redirect in
`Engine::on_job_headers`, whose target may be in the cache. -/
inductive WorkerTask
  | deliver (path : DeliverPath)
  | hop (lookup : Option LookupPath)
  deriving DecidableEq

def WorkerTask.ops : WorkerTask → List LockOp
  | deliver path => path.ops
  | hop none => withLock .registry []
  | hop (some .limited) => LookupPath.limited.ops
  | hop (some lookup) => lookup.ops ++ withLock .registry []

def WorkerTask.isHop : WorkerTask → Bool
  | deliver _ => false
  | hop _ => true

/-! ### Threads -/

/-- The locks that a thread holds, the clients whose destructors it is in or has still to
call, and what it does then. -/
structure LockThread where
  role : ThreadRole := .application
  held : List EngineMutex := []
  joining : List ℕ := []
  ops : List LockOp := []
  finished : Bool := false
  deriving DecidableEq

/-- What a thread may have to wait for. -/
inductive LockTarget
  | mutex (mutex : EngineMutex)
  | worker (client : ℕ)
  | dispatcher
  deriving DecidableEq

namespace LockThread

variable (thread : LockThread)

def idle : Bool := thread.joining == [] && thread.ops == [] && !thread.finished

/-- The operation that comes next. -/
def next : Option LockOp := if thread.joining = [] then thread.ops.head? else none

def awaits : Option LockTarget :=
  match thread.joining with
  | client :: _ => some (.worker client)
  | [] =>
    match thread.ops with
    | .lock mutex :: _ => some (.mutex mutex)
    | .joinDispatcher :: _ => some .dispatcher
    | _ => none

/-- The thread after its next operation. -/
def proceed (pool discarded : List ℕ) : LockThread :=
  match thread.joining with
  | _ :: rest => { thread with joining := rest }
  | [] =>
    match thread.ops with
    | [] => thread
    | op :: rest =>
      { thread with
        held := op.after thread.held
        joining := op.destroys pool discarded
        ops := rest }

end LockThread

/-! ### The system -/

/-- The clients are numbered in the order of their creation. -/
structure LockState where
  threads : List LockThread
  pool : List ℕ := []
  created : ℕ := 0
  deriving DecidableEq

inductive LockStep
  | call (t : ℕ) (call : EngineCall)
  | task (t : ℕ) (task : WorkerTask)
  /-- The next operation of a thread. `get_or_create_client` discards some clients. -/
  | advance (t : ℕ) (discarded : List ℕ)
  /-- A worker or the cache dispatcher returns. -/
  | finish (t : ℕ)
  /-- The worker of a client begins. -/
  | start (client : ℕ)
  deriving DecidableEq

namespace LockState

variable (s : LockState)

/-- The cache dispatcher, and any number of threads of the application. -/
def initial (threads : ℕ) : LockState :=
  { threads := { role := .dispatcher } :: List.replicate threads {} }

def others (t : ℕ) : List LockThread := s.threads.eraseIdx t

/-- A thread can take a lock. It may take `callback_mutex_` again. -/
def free (t : ℕ) (thread : LockThread) (mutex : EngineMutex) : Bool :=
  (mutex == .callback || !thread.held.contains mutex) &&
    (s.others t).all fun other => !other.held.contains mutex

def ended (role : ThreadRole) : Bool :=
  s.threads.all fun thread => thread.role != role || thread.finished

def passes (t : ℕ) (thread : LockThread) : LockTarget → Bool
  | .mutex mutex => s.free t thread mutex
  | .worker client => s.ended (.worker client)
  | .dispatcher => s.ended .dispatcher

def poolAfter (discarded : List ℕ) : Option LockOp → List ℕ
  | some .discard => s.pool.filter fun client => !discarded.contains client
  | some .create => s.pool ++ [s.created]
  | some .clear => []
  | _ => s.pool

def advance (t : ℕ) (discarded : List ℕ) (thread : LockThread) : Option LockState :=
  if (thread.joining ≠ [] ∨ thread.ops ≠ []) ∧ thread.awaits.all (s.passes t thread) ∧
      (thread.next = some .discard → discarded.all s.pool.contains) then
    some
      { threads := s.threads.set t (thread.proceed s.pool discarded)
        pool := s.poolAfter discarded thread.next
        created := if thread.next = some .create then s.created + 1 else s.created }
  else none

def step (s : LockState) : LockStep → Option LockState
  | .call t call =>
    match s.threads[t]? with
    | none => none
    | some thread =>
      if thread.role = .application ∧ thread.idle ∨
          thread.next = some .callback ∧ call.fromCallback then
        some { s with threads := s.threads.set t { thread with ops := call.ops ++ thread.ops } }
      else none
  | .task t task =>
    match s.threads[t]? with
    | none => none
    | some thread =>
      if thread.role ≠ .application ∧ thread.idle ∧
          (thread.role = .dispatcher → task.isHop = false) then
        some { s with threads := s.threads.set t { thread with ops := task.ops } }
      else none
  | .advance t discarded =>
    match s.threads[t]? with
    | none => none
    | some thread => s.advance t discarded thread
  | .finish t =>
    match s.threads[t]? with
    | none => none
    | some thread =>
      if thread.role ≠ .application ∧ thread.idle then
        some { s with threads := s.threads.set t { thread with finished := true } }
      else none
  | .start client =>
    if client < s.created ∧ s.threads.all (fun thread => thread.role != .worker client) then
      some { s with threads := s.threads ++ [{ role := .worker client }] }
    else none

/-- A thread has come to a lock that another holds, or that it holds itself and cannot take
again, or to the join of a thread that has not ended. -/
def Waits (t u : ℕ) : Prop :=
  ∃ thread other, s.threads[t]? = some thread ∧ s.threads[u]? = some other ∧
    match thread.awaits with
    | some (.mutex mutex) =>
      mutex ∈ other.held ∧ (mutex = .callback → mutex ∉ thread.held)
    | some (.worker client) => other.role = .worker client ∧ other.finished = false
    | some .dispatcher => other.role = .dispatcher ∧ other.finished = false
    | none => False

end LockState

/-! ### What a thread does under which lock -/

/-- The locks that are not held at an operation, or that are. -/
def LockOp.Allowed (role : ThreadRole) (held : List EngineMutex) : LockOp → Prop
  | .lock .registry => .registry ∉ held
  | .lock .pool => .pool ∉ held ∧ .callback ∉ held ∧ .registry ∉ held
  | .lock .callback => .pool ∉ held ∧ .registry ∉ held
  | .lock .lifecycle =>
    .lifecycle ∉ held ∧ .pool ∉ held ∧ .registry ∉ held ∧ (role ≠ .application → .callback ∈ held)
  | .callback =>
    (.callback ∈ held ∨ .lifecycle ∈ held ∨ role = .application) ∧ .pool ∉ held ∧ .registry ∉ held
  | .discard => .pool ∈ held ∧ .callback ∉ held ∧ .registry ∉ held
  | .joinDispatcher => role = .application ∧ .callback ∉ held ∧ .pool ∉ held ∧ .registry ∉ held
  | .clear => role = .application ∧ .pool ∉ held.erase .pool ∧ .callback ∉ held ∧ .registry ∉ held
  | .unlock _ | .create => True

/-- Every operation that is left is allowed, nothing is held at the end, and
`lifecycle_mutex_` is the first that a call takes. -/
def OrderedOps (role : ThreadRole) : List EngineMutex → List LockOp → Prop
  | held, [] => held = []
  | held, op :: ops =>
    op.Allowed role held ∧ ops.head? ≠ some (.lock .lifecycle) ∧ OrderedOps role (op.after held) ops

theorem pendingOps_succ (pending : ℕ) :
    pendingOps (pending + 1) = withLock .callback [.callback] ++ pendingOps pending := by
  rw [pendingOps, List.replicate_succ, List.flatten_cons, pendingOps]

theorem pendingOps_head? (pending : ℕ) :
    (pendingOps pending).head? ≠ some (.lock .lifecycle) := by
  cases pending with
  | zero => exact nofun
  | succ pending => simp [pendingOps_succ, withLock]

theorem orderedOps_pendingOps (role : ThreadRole) (pending : ℕ) :
    OrderedOps role [] (pendingOps pending) := by
  induction pending with
  | zero => rfl
  | succ pending ih =>
    have hhead := pendingOps_head? pending
    simp [pendingOps_succ, withLock, OrderedOps, LockOp.Allowed, LockOp.after, ih, hhead]

theorem EngineCall.orderedOps (call : EngineCall) : OrderedOps .application [] call.ops := by
  cases call with
  | execute path =>
    cases path with
    | looked lookup =>
      cases lookup <;>
        simp [ops, ExecutePath.ops, LookupPath.ops, withLock, OrderedOps, LockOp.Allowed,
          LockOp.after]
    | thrown lookup registering =>
      rcases lookup with _ | lookup
      · cases registering <;>
          simp [ops, ExecutePath.ops, withLock, OrderedOps, LockOp.Allowed, LockOp.after]
      · cases lookup <;> cases registering <;>
          simp [ops, ExecutePath.ops, LookupPath.ops, withLock, OrderedOps, LockOp.Allowed,
            LockOp.after]
    | refused | cached | unqueued =>
      simp [ops, ExecutePath.ops, withLock, OrderedOps, LockOp.Allowed, LockOp.after]
  | consume | appendRequestBody | setOriginPolicy =>
    simp [ops, withLock, OrderedOps, LockOp.Allowed, LockOp.after]
  | networkChanged live =>
    cases live <;> simp [ops, withLock, OrderedOps, LockOp.Allowed, LockOp.after]
  | cancel live =>
    cases live <;> simp [ops, withLock, OrderedOps, LockOp.Allowed, LockOp.after]
  | destroy pending =>
    cases pending with
    | none => simp [ops, withLock, OrderedOps, LockOp.Allowed, LockOp.after]
    | some pending =>
      have hhead := pendingOps_head? pending
      have hpending := orderedOps_pendingOps .application pending
      simp [ops, withLock, OrderedOps, LockOp.Allowed, LockOp.after, hhead, hpending]

/-- A call from the callback comes back to the callback with the locks that were held. -/
theorem EngineCall.orderedOps_append {call : EngineCall} {role : ThreadRole}
    {held : List EngineMutex} {ops : List LockOp} (hcall : call.fromCallback = true)
    (h : OrderedOps role held (.callback :: ops)) (hlifecycle : .lifecycle ∉ held) :
    OrderedOps role held (call.ops ++ .callback :: ops) := by
  obtain ⟨⟨hcallback, hpool, hregistry⟩, hhead, hrest⟩ := h
  have hrole : role ≠ .application → .callback ∈ held := fun hworker =>
    hcallback.resolve_right fun h => h.elim hlifecycle hworker
  cases call with
  | execute | destroy | networkChanged | setOriginPolicy => cases hcall
  | consume | appendRequestBody =>
    simp_all [EngineCall.ops, withLock, OrderedOps, LockOp.Allowed, LockOp.after]
  | cancel live =>
    cases live <;> simp_all [EngineCall.ops, withLock, OrderedOps, LockOp.Allowed, LockOp.after]

theorem WorkerTask.orderedOps (task : WorkerTask) (role : ThreadRole) :
    OrderedOps role [] task.ops := by
  cases task with
  | deliver path =>
    cases path <;> simp [ops, DeliverPath.ops, withLock, OrderedOps, LockOp.Allowed, LockOp.after]
  | hop lookup =>
    cases lookup with
    | none => simp [ops, withLock, OrderedOps, LockOp.Allowed, LockOp.after]
    | some lookup =>
      cases lookup <;>
        simp [ops, LookupPath.ops, withLock, OrderedOps, LockOp.Allowed, LockOp.after]

/-- A call of the application takes `lifecycle_mutex_` first, or `mtx_`. -/
theorem EngineCall.exists_ops (call : EngineCall) :
    ∃ mutex rest, call.ops = .lock mutex :: rest ∧ mutex ≠ .callback := by
  cases call with
  | execute path =>
    cases path with
    | looked lookup => cases lookup <;> exact ⟨.lifecycle, _, rfl, by decide⟩
    | refused | cached | unqueued | thrown => exact ⟨.lifecycle, _, rfl, by decide⟩
  | consume | appendRequestBody | networkChanged => exact ⟨.lifecycle, _, rfl, by decide⟩
  | cancel live => cases live <;> exact ⟨.lifecycle, _, rfl, by decide⟩
  | destroy pending => cases pending <;> exact ⟨.lifecycle, _, rfl, by decide⟩
  | setOriginPolicy => exact ⟨.registry, _, rfl, by decide⟩

theorem EngineCall.not_mem_ops {call : EngineCall} (hcall : call.fromCallback = true) :
    .lock .pool ∉ call.ops := by
  cases call with
  | execute | destroy | networkChanged | setOriginPolicy => cases hcall
  | consume | appendRequestBody => simp [ops, withLock]
  | cancel live => cases live <;> simp [ops, withLock]

theorem WorkerTask.exists_ops (task : WorkerTask) :
    ∃ mutex rest, task.ops = .lock mutex :: rest := by
  cases task with
  | deliver path => cases path <;> exact ⟨_, _, rfl⟩
  | hop lookup =>
    cases lookup with
    | none => exact ⟨_, _, rfl⟩
    | some lookup => cases lookup <;> exact ⟨_, _, rfl⟩

end KatHttp3
