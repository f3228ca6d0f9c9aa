import KatHttp3.Connection.RequestBody
import KatHttp3.Engine.Callbacks
import KatHttp3.Library.CallStacks
import KatHttp3.Library.Transition

/-!
# The threads of an engine

How `execute`, `cancel`, `destroy` and the deliveries of the workers and of the
cache dispatcher interleave. A thread takes one step between two locks or calls;
what happens under `mtx_` is one step. The application's callback may call the
engine again on the same thread. What a worker's callback does besides its
deliveries, and when a job is due, is left open: any reply may come for a job
that was handed on. The joins of `destroy` only delay it and are left out.
-/

namespace KatHttp3

open CallStacks

/-- A request that is registered. An application passes a callback, so that is left out. -/
structure ReqEntry where
  cancelled : Bool := false
  terminal : Bool := false
  deriving DecidableEq

/-- The entries by request id, at most one for each. -/
abbrev Registry := List (ℤ × ReqEntry)

namespace Registry

def erase (registry : Registry) (id : ℤ) : Registry := registry.filter fun entry => entry.1 != id

def put (registry : Registry) (id : ℤ) (entry : ReqEntry) : Registry :=
  registry.erase id ++ [(id, entry)]

/-- The entries that have not had their terminal event. -/
def openIds (registry : Registry) : List ℤ :=
  (registry.filter fun entry => !(entry.2.terminal || entry.2.cancelled)).map Prod.fst

theorem lookup_erase (registry : Registry) (id x : ℤ) :
    (registry.erase id).lookup x = if x = id then none else registry.lookup x := by
  induction registry with
  | nil => simp [erase]
  | cons head registry ih =>
    unfold erase at ih ⊢
    rw [List.filter_cons]
    by_cases hid : head.1 = id
    · rw [if_neg (by simp [hid]), ih]
      by_cases hx : x = id
      · rw [if_pos hx, if_pos hx]
      · have hne : (x == head.1) = false := by simpa [hid] using hx
        rw [if_neg hx, if_neg hx, List.lookup_cons, hne]
    · rw [if_pos (by simp [hid]), List.lookup_cons, List.lookup_cons]
      cases hhead : x == head.1 with
      | true =>
        have hx : x ≠ id := fun hx => hid ((beq_iff_eq.mp hhead).symm.trans hx)
        rw [if_neg hx]
      | false => exact ih

theorem lookup_put (registry : Registry) (id x : ℤ) (entry : ReqEntry) :
    (registry.put id entry).lookup x = if x = id then some entry else registry.lookup x := by
  rw [put, List.lookup_append, lookup_erase, List.lookup_cons]
  by_cases hx : x = id
  · simp [hx]
  · have hne : (x == id) = false := by simpa using hx
    simp [hx, hne]

end Registry

/-! ### Where a call is -/

inductive ExecutePhase
  | entering
  | checking
  /-- Registered, and a stored response waits for a place at the cache dispatcher. -/
  | queueing
  /-- Registered, and the job is about to go to its connection. -/
  | submitting
  | failing (code : ErrorCode)
  /-- An exception has left `execute`, and `kathttp3_client_execute` reports it. -/
  | throwing
  /-- The application's callback runs, with or without the lifecycle lock. -/
  | calling (locked : Bool)
  deriving DecidableEq

inductive CancelPhase
  | entering | locking | checking | releasing | invoking | calling
  deriving DecidableEq

inductive DestroyPhase
  | entering
  | closing
  | collecting
  | releasing (pending : List ℤ)
  | telling (pending : List ℤ)
  | invoking (id : ℤ) (rest : List ℤ)
  | calling (rest : List ℤ)
  deriving DecidableEq

inductive DeliverPhase
  | entering | checking | invoking | calling | erasing
  deriving DecidableEq

/-- A call that has not returned. A `callback` frame is a callback of a worker or
of the cache dispatcher with the events it has still to deliver. -/
inductive Frame
  | execute (id : ℤ) (request : Request) (phase : ExecutePhase)
  | cancel (id : ℤ) (phase : CancelPhase)
  | destroy (phase : DestroyPhase)
  | callback (id : ℤ) (events : List AppEvent)
  | deliver (id : ℤ) (event : AppEvent) (phase : DeliverPhase)
  deriving DecidableEq

/-- What the threads share. Nothing reads `log`, the events in the order in which
the application's callback was called with them. -/
structure EngineCore where
  lifecycle : Option ℕ := none
  callback : RecursiveLock := none
  registry : Registry := []
  destroyed : Bool := false
  /-- The ids of the jobs that were handed to the dispatcher or to a connection. -/
  jobs : List ℤ := []
  log : List (ℤ × AppEvent) := []
  deriving DecidableEq

structure EngineState where
  core : EngineCore := {}
  threads : List (List Frame)
  deriving DecidableEq

/-- How a step ends that the model does not decide. -/
inductive Outcome
  | done
  /-- The cache has a fresh response. -/
  | cached
  /-- No further connection worker is allowed. -/
  | limit
  /-- The cache dispatcher has no room. -/
  | refused
  /-- Memory or threads run out. -/
  | thrown
  deriving DecidableEq

namespace EngineCore

variable (core : EngineCore)

def lockLifecycle (t : ℕ) : Option EngineCore :=
  match core.lifecycle with
  | none => some { core with lifecycle := some t }
  | some _ => none

def unlockLifecycle : EngineCore := { core with lifecycle := none }

def lockCallback (t : ℕ) : Option EngineCore :=
  (core.callback.acquire t).map fun lock => { core with callback := lock }

def unlockCallback : EngineCore := { core with callback := core.callback.release }

def register (id : ℤ) : EngineCore := { core with registry := core.registry.put id {} }

def erase (id : ℤ) : EngineCore := { core with registry := core.registry.erase id }

def publish (id : ℤ) : EngineCore := { core with jobs := id :: core.jobs }

/-- The application's callback is called. -/
def tell (id : ℤ) (event : AppEvent) : EngineCore := { core with log := core.log ++ [(id, event)] }

end EngineCore

/-! ### The steps of a call -/

namespace Frame

/-- The frame of a call of the application's callback that has not returned. -/
def runsUserCode : Frame → Bool
  | execute _ _ (.calling _) => true
  | cancel _ .calling => true
  | destroy (.calling _) => true
  | deliver _ _ .calling => true
  | _ => false

variable (net : InetPton) (t : ℕ) (core : EngineCore)

/-- `Engine::execute` and the catch clause of `kathttp3_client_execute`. -/
def advanceExecute (id : ℤ) (request : Request) (outcome : Outcome) :
    ExecutePhase → Option (EngineCore × List Frame)
  | .entering => (core.lockLifecycle t).map (·, [execute id request .checking])
  | .checking =>
    if outcome = .thrown then some (core.unlockLifecycle, [execute id request .throwing])
    else if core.destroyed then some (core, [execute id request (.failing .closed)])
    else if (validateRequestBodyFraming request).isNone ∨ (parseUrl net request.url).isNone then
      some (core, [execute id request (.failing .invalidArg)])
    else
      match outcome with
      | .cached => some (core.register id, [execute id request .queueing])
      | .limit => some (core, [execute id request (.failing .connectionLimit)])
      | _ => some (core.register id, [execute id request .submitting])
  | .queueing =>
    if outcome = .refused then some (core.erase id, [execute id request (.failing .nomem)])
    else some ((core.publish id).unlockLifecycle, [])
  | .submitting =>
    if outcome = .thrown then some (core.unlockLifecycle, [execute id request .throwing])
    else some ((core.publish id).unlockLifecycle, [])
  | .failing code => some (core.tell id (.error code), [execute id request (.calling true)])
  | .throwing => some (core.tell id (.error .nomem), [execute id request (.calling false)])
  | .calling locked => some (if locked then core.unlockLifecycle else core, [])

/-- `Engine::cancel`. -/
def advanceCancel (id : ℤ) : CancelPhase → Option (EngineCore × List Frame)
  | .entering => (core.lockLifecycle t).map (·, [cancel id .locking])
  | .locking => (core.lockCallback t).map (·, [cancel id .checking])
  | .checking =>
    match core.registry.lookup id with
    | none => some (core.unlockCallback.unlockLifecycle, [])
    | some entry =>
      if entry.terminal then some (core.unlockCallback.unlockLifecycle, [])
      else some (core.erase id, [cancel id .releasing])
  | .releasing => some (core.unlockLifecycle, [cancel id .invoking])
  | .invoking => some (core.tell id (.error .cancelled), [cancel id .calling])
  | .calling => some (core.unlockCallback, [])

/-- `Engine::destroy`. -/
def advanceDestroy : DestroyPhase → Option (EngineCore × List Frame)
  | .entering => (core.lockLifecycle t).map (·, [destroy .closing])
  | .closing =>
    if core.destroyed then some (core.unlockLifecycle, [])
    else some ({ core with destroyed := true }, [destroy .collecting])
  | .collecting =>
    some ({ core with registry := [] }, [destroy (.releasing core.registry.openIds)])
  | .releasing pending => some (core.unlockLifecycle, [destroy (.telling pending)])
  | .telling [] => some (core, [])
  | .telling (id :: rest) => (core.lockCallback t).map (·, [destroy (.invoking id rest)])
  | .invoking id rest => some (core.tell id (.error .closed), [destroy (.calling rest)])
  | .calling rest => some (core.unlockCallback, [destroy (.telling rest)])

/-- `Engine::deliver`. -/
def advanceDeliver (id : ℤ) (event : AppEvent) : DeliverPhase → Option (EngineCore × List Frame)
  | .entering => (core.lockCallback t).map (·, [deliver id event .checking])
  | .checking =>
    match core.registry.lookup id with
    | none => some (core.unlockCallback, [])
    | some entry =>
      if entry.terminal then some (core.unlockCallback, [])
      else if entry.cancelled then some ((core.erase id).unlockCallback, [])
      else if event.isTerminal then
        some ({ core with registry := core.registry.put id { entry with terminal := true } },
          [deliver id event .invoking])
      else some (core, [deliver id event .invoking])
  | .invoking => some (core.tell id event, [deliver id event .calling])
  | .calling =>
    if event.isTerminal then some (core, [deliver id event .erasing])
    else some (core.unlockCallback, [])
  | .erasing => some ((core.erase id).unlockCallback, [])

/-- The shared state and the frames in place of this one after its next step,
which may have to wait for a lock. -/
def advance (outcome : Outcome) : Frame → Option (EngineCore × List Frame)
  | execute id request phase => advanceExecute net t core id request outcome phase
  | cancel id phase => advanceCancel t core id phase
  | destroy phase => advanceDestroy t core phase
  | callback _ [] => some (core, [])
  | callback id (event :: rest) => some (core, [deliver id event .entering, callback id rest])
  | deliver id event phase => advanceDeliver t core id event phase

end Frame

inductive ApiCall
  | execute (id : ℤ) (request : Request)
  | cancel (id : ℤ)
  | destroy
  deriving DecidableEq

def ApiCall.frame : ApiCall → Frame
  | execute id request => .execute id request .entering
  | cancel id => .cancel id .entering
  | destroy => .destroy .entering

inductive ThreadStep
  /-- The application calls the engine, on a thread of its own or from its callback. -/
  | call (t : ℕ) (call : ApiCall)
  /-- A worker or the cache dispatcher runs a callback of a job. -/
  | callback (t : ℕ) (id : ℤ) (reply : Reply)
  | advance (t : ℕ) (outcome : Outcome)
  deriving DecidableEq

namespace EngineState

/-- Any number of threads, none of which is in the engine. -/
def start (threads : ℕ) : EngineState := { threads := List.replicate threads [] }

def step (net : InetPton) (s : EngineState) : ThreadStep → Option EngineState
  | .call t call =>
    match s.threads[t]? with
    | none => none
    | some stack =>
      if stack.head?.all Frame.runsUserCode then
        some { s with threads := s.threads.set t (call.frame :: stack) }
      else none
  | .callback t id reply =>
    if s.threads[t]? = some [] ∧ id ∈ s.core.jobs then
      some { s with threads := s.threads.set t [.callback id reply.events] }
    else none
  | .advance t outcome =>
    match s.threads[t]? with
    | some (frame :: rest) =>
      (frame.advance net t s.core outcome).map fun (core, frames) =>
        { core := core, threads := s.threads.set t (frames ++ rest) }
    | _ => none

end EngineState

/-! ### What a step can do -/

/-- All that the next step of a call can do. -/
inductive Frame.Advances (t : ℕ) (core : EngineCore) :
    Outcome → Frame → EngineCore → List Frame → Prop
  | executeEntered {outcome id request} (free : core.lifecycle = none) :
      Advances t core outcome (.execute id request .entering) { core with lifecycle := some t }
        [.execute id request .checking]
  | executeThrew {outcome id request} :
      Advances t core outcome (.execute id request .checking) core.unlockLifecycle
        [.execute id request .throwing]
  | executeFailed {outcome id request} (code : ErrorCode) :
      Advances t core outcome (.execute id request .checking) core
        [.execute id request (.failing code)]
  | executeRegistered {outcome id request phase} (next : phase = .queueing ∨ phase = .submitting) :
      Advances t core outcome (.execute id request .checking) (core.register id)
        [.execute id request phase]
  | executeRefused {outcome id request} :
      Advances t core outcome (.execute id request .queueing) (core.erase id)
        [.execute id request (.failing .nomem)]
  | executePublished {outcome id request phase} (before : phase = .queueing ∨ phase = .submitting) :
      Advances t core outcome (.execute id request phase) (core.publish id).unlockLifecycle []
  | executeThrewLate {id request} :
      Advances t core .thrown (.execute id request .submitting) core.unlockLifecycle
        [.execute id request .throwing]
  | executeTold {outcome id request code} :
      Advances t core outcome (.execute id request (.failing code)) (core.tell id (.error code))
        [.execute id request (.calling true)]
  | executeReported {outcome id request} :
      Advances t core outcome (.execute id request .throwing) (core.tell id (.error .nomem))
        [.execute id request (.calling false)]
  | executeReturned {outcome id request locked} :
      Advances t core outcome (.execute id request (.calling locked))
        (if locked then core.unlockLifecycle else core) []
  | cancelEntered {outcome id} (free : core.lifecycle = none) :
      Advances t core outcome (.cancel id .entering) { core with lifecycle := some t }
        [.cancel id .locking]
  | cancelLocked {outcome id lock} (acquired : core.callback.acquire t = some lock) :
      Advances t core outcome (.cancel id .locking) { core with callback := lock }
        [.cancel id .checking]
  | cancelIgnored {outcome id} :
      Advances t core outcome (.cancel id .checking) core.unlockCallback.unlockLifecycle []
  | cancelErased {outcome id entry} (found : core.registry.lookup id = some entry)
      (live : entry.terminal = false) :
      Advances t core outcome (.cancel id .checking) (core.erase id) [.cancel id .releasing]
  | cancelReleased {outcome id} :
      Advances t core outcome (.cancel id .releasing) core.unlockLifecycle [.cancel id .invoking]
  | cancelTold {outcome id} :
      Advances t core outcome (.cancel id .invoking) (core.tell id (.error .cancelled))
        [.cancel id .calling]
  | cancelReturned {outcome id} :
      Advances t core outcome (.cancel id .calling) core.unlockCallback []
  | destroyEntered {outcome} (free : core.lifecycle = none) :
      Advances t core outcome (.destroy .entering) { core with lifecycle := some t }
        [.destroy .closing]
  | destroyIgnored {outcome} :
      Advances t core outcome (.destroy .closing) core.unlockLifecycle []
  | destroyClosed {outcome} :
      Advances t core outcome (.destroy .closing) { core with destroyed := true }
        [.destroy .collecting]
  | destroyCollected {outcome} :
      Advances t core outcome (.destroy .collecting) { core with registry := [] }
        [.destroy (.releasing core.registry.openIds)]
  | destroyReleased {outcome pending} :
      Advances t core outcome (.destroy (.releasing pending)) core.unlockLifecycle
        [.destroy (.telling pending)]
  | destroyReturned {outcome} : Advances t core outcome (.destroy (.telling [])) core []
  | destroyLocked {outcome id rest lock} (acquired : core.callback.acquire t = some lock) :
      Advances t core outcome (.destroy (.telling (id :: rest))) { core with callback := lock }
        [.destroy (.invoking id rest)]
  | destroyTold {outcome id rest} :
      Advances t core outcome (.destroy (.invoking id rest)) (core.tell id (.error .closed))
        [.destroy (.calling rest)]
  | destroyUnlocked {outcome rest} :
      Advances t core outcome (.destroy (.calling rest)) core.unlockCallback
        [.destroy (.telling rest)]
  | callbackReturned {outcome id} : Advances t core outcome (.callback id []) core []
  | callbackDelivers {outcome id event rest} :
      Advances t core outcome (.callback id (event :: rest)) core
        [.deliver id event .entering, .callback id rest]
  | deliverLocked {outcome id event lock} (acquired : core.callback.acquire t = some lock) :
      Advances t core outcome (.deliver id event .entering) { core with callback := lock }
        [.deliver id event .checking]
  | deliverIgnored {outcome id event} :
      Advances t core outcome (.deliver id event .checking) core.unlockCallback []
  | deliverErased {outcome id event phase} (before : phase = .checking ∨ phase = .erasing) :
      Advances t core outcome (.deliver id event phase) (core.erase id).unlockCallback []
  | deliverEnds {outcome id event entry} (found : core.registry.lookup id = some entry)
      (live : entry.terminal = false) (terminal : event.isTerminal = true) :
      Advances t core outcome (.deliver id event .checking)
        { core with registry := core.registry.put id { entry with terminal := true } }
        [.deliver id event .invoking]
  | deliverSpeaks {outcome id event entry} (found : core.registry.lookup id = some entry)
      (live : entry.terminal = false) (unended : event.isTerminal = false) :
      Advances t core outcome (.deliver id event .checking) core [.deliver id event .invoking]
  | deliverTold {outcome id event} :
      Advances t core outcome (.deliver id event .invoking) (core.tell id event)
        [.deliver id event .calling]
  | deliverEnded {outcome id event} (terminal : event.isTerminal = true) :
      Advances t core outcome (.deliver id event .calling) core [.deliver id event .erasing]
  | deliverReturned {outcome id event} (unended : event.isTerminal = false) :
      Advances t core outcome (.deliver id event .calling) core.unlockCallback []

namespace Frame

variable {net : InetPton} {t : ℕ} {core core' : EngineCore} {outcome : Outcome} {frame : Frame}
  {frames : List Frame}

theorem lockLifecycle_cases (h : core.lockLifecycle t = some core') :
    core.lifecycle = none ∧ core' = { core with lifecycle := some t } := by
  unfold EngineCore.lockLifecycle at h
  split at h
  · rename_i hfree
    cases h
    exact ⟨hfree, rfl⟩
  · cases h

theorem lockCallback_cases (h : core.lockCallback t = some core') :
    ∃ lock, core.callback.acquire t = some lock ∧ core' = { core with callback := lock } := by
  obtain ⟨lock, hlock, heq⟩ := Option.map_eq_some_iff.mp h
  exact ⟨lock, hlock, heq.symm⟩

theorem advanceExecute_cases {id : ℤ} {request : Request} {phase : ExecutePhase}
    (h : advanceExecute net t core id request outcome phase = some (core', frames)) :
    Advances t core outcome (.execute id request phase) core' frames := by
  cases phase with
  | entering =>
    obtain ⟨locked, hlock, heq⟩ := Option.map_eq_some_iff.mp h
    obtain ⟨hfree, rfl⟩ := lockLifecycle_cases hlock
    cases heq
    exact .executeEntered hfree
  | checking =>
    unfold advanceExecute at h
    dsimp only at h
    split_ifs at h with hthrown hdestroyed hinvalid
    · cases h
      exact .executeThrew
    · cases h
      exact .executeFailed .closed
    · cases h
      exact .executeFailed .invalidArg
    · split at h
      · cases h
        exact .executeRegistered (.inl rfl)
      · cases h
        exact .executeFailed .connectionLimit
      · cases h
        exact .executeRegistered (.inr rfl)
  | queueing =>
    unfold advanceExecute at h
    dsimp only at h
    split_ifs at h
    · cases h
      exact .executeRefused
    · cases h
      exact .executePublished (.inl rfl)
  | submitting =>
    unfold advanceExecute at h
    dsimp only at h
    split_ifs at h with hthrown
    · cases h
      rw [hthrown]
      exact .executeThrewLate
    · cases h
      exact .executePublished (.inr rfl)
  | failing code =>
    cases h
    exact .executeTold
  | throwing =>
    cases h
    exact .executeReported
  | calling locked =>
    cases h
    exact .executeReturned

theorem advanceCancel_cases {id : ℤ} {phase : CancelPhase}
    (h : advanceCancel t core id phase = some (core', frames)) :
    Advances t core outcome (.cancel id phase) core' frames := by
  cases phase with
  | entering =>
    obtain ⟨locked, hlock, heq⟩ := Option.map_eq_some_iff.mp h
    obtain ⟨hfree, rfl⟩ := lockLifecycle_cases hlock
    cases heq
    exact .cancelEntered hfree
  | locking =>
    obtain ⟨locked, hlock, heq⟩ := Option.map_eq_some_iff.mp h
    obtain ⟨lock, hacquired, rfl⟩ := lockCallback_cases hlock
    cases heq
    exact .cancelLocked hacquired
  | checking =>
    unfold advanceCancel at h
    dsimp only at h
    split at h
    · cases h
      exact .cancelIgnored
    · rename_i entry hfound
      split_ifs at h with hterminal
      · cases h
        exact .cancelIgnored
      · cases h
        exact .cancelErased hfound (by simpa using hterminal)
  | releasing =>
    cases h
    exact .cancelReleased
  | invoking =>
    cases h
    exact .cancelTold
  | calling =>
    cases h
    exact .cancelReturned

theorem advanceDestroy_cases {phase : DestroyPhase}
    (h : advanceDestroy t core phase = some (core', frames)) :
    Advances t core outcome (.destroy phase) core' frames := by
  cases phase with
  | entering =>
    obtain ⟨locked, hlock, heq⟩ := Option.map_eq_some_iff.mp h
    obtain ⟨hfree, rfl⟩ := lockLifecycle_cases hlock
    cases heq
    exact .destroyEntered hfree
  | closing =>
    unfold advanceDestroy at h
    dsimp only at h
    split_ifs at h
    · cases h
      exact .destroyIgnored
    · cases h
      exact .destroyClosed
  | collecting =>
    cases h
    exact .destroyCollected
  | releasing pending =>
    cases h
    exact .destroyReleased
  | telling pending =>
    cases pending with
    | nil =>
      cases h
      exact .destroyReturned
    | cons id rest =>
      obtain ⟨locked, hlock, heq⟩ := Option.map_eq_some_iff.mp h
      obtain ⟨lock, hacquired, rfl⟩ := lockCallback_cases hlock
      cases heq
      exact .destroyLocked hacquired
  | invoking id rest =>
    cases h
    exact .destroyTold
  | calling rest =>
    cases h
    exact .destroyUnlocked

theorem advanceDeliver_cases {id : ℤ} {event : AppEvent} {phase : DeliverPhase}
    (h : advanceDeliver t core id event phase = some (core', frames)) :
    Advances t core outcome (.deliver id event phase) core' frames := by
  cases phase with
  | entering =>
    obtain ⟨locked, hlock, heq⟩ := Option.map_eq_some_iff.mp h
    obtain ⟨lock, hacquired, rfl⟩ := lockCallback_cases hlock
    cases heq
    exact .deliverLocked hacquired
  | checking =>
    unfold advanceDeliver at h
    dsimp only at h
    split at h
    · cases h
      exact .deliverIgnored
    · rename_i entry hfound
      split_ifs at h with hended hcancelled hterminal
      · cases h
        exact .deliverIgnored
      · cases h
        exact .deliverErased (.inl rfl)
      · cases h
        exact .deliverEnds hfound (by simpa using hended) hterminal
      · cases h
        exact .deliverSpeaks hfound (by simpa using hended) (by simpa using hterminal)
  | invoking =>
    cases h
    exact .deliverTold
  | calling =>
    unfold advanceDeliver at h
    dsimp only at h
    split_ifs at h with hterminal
    · cases h
      exact .deliverEnded hterminal
    · cases h
      exact .deliverReturned (by simpa using hterminal)
  | erasing =>
    cases h
    exact .deliverErased (.inr rfl)

theorem advance_cases (h : frame.advance net t core outcome = some (core', frames)) :
    Advances t core outcome frame core' frames := by
  cases frame with
  | execute id request phase => exact advanceExecute_cases h
  | cancel id phase => exact advanceCancel_cases h
  | destroy phase => exact advanceDestroy_cases h
  | callback id events =>
    cases events with
    | nil =>
      cases h
      exact .callbackReturned
    | cons event rest =>
      cases h
      exact .callbackDelivers
  | deliver id event phase => exact advanceDeliver_cases h

end Frame

end KatHttp3
