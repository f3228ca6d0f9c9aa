import KatHttp3.Library.Transition
import Mathlib.Data.Nat.Notation
import Mathlib.Tactic.ByContra
import Mathlib.Tactic.SplitIfs

/-!
# Cancelling a call

The calls of one `KatHttp3Client`: the coroutine of each and the thread that
cancels it. What happens under `nativeLock` is one step, and so is every atomic
update. A buffered call is cancelled through the handler of its continuation, a
streaming call through `KatHttp3Call.cancel`.
-/

namespace KatHttp3

/-- A request as the native library knows it: whether `NativeBridge.execute` was
called for it, whether `NativeBridge.cancel` was called after that returned, and
whether it has ended. -/
structure NativeRequest where
  executed : Bool := false
  cancelled : Bool := false
  ended : Bool := false
  deriving DecidableEq

namespace NativeRequest

variable (request : NativeRequest)

/-- `NativeBridge.cancel`, which finds nothing before `NativeBridge.execute`. -/
def cancel : NativeRequest := { request with cancelled := request.cancelled || request.executed }

/-- The request does not run on uncancelled. -/
def stopped : Bool := request.cancelled || request.ended

end NativeRequest

/-- How `NativeBridge.execute` returns. -/
inductive ExecuteResult
  | running
  /-- The request has had its error already. -/
  | failed
  /-- It returns false. -/
  | refused
  deriving DecidableEq

/-- The request after `NativeBridge.execute`. -/
def ExecuteResult.request : ExecuteResult → NativeRequest
  | running => { executed := true }
  | _ => { executed := true, ended := true }

/-! ### Buffered calls -/

inductive ContinuationState
  | active | cancelled | completed
  deriving DecidableEq

/-- Whether the handler for `invokeOnCancellation` is known, about to run or has run. -/
inductive HandlerState
  | unregistered | registered | due | done
  deriving DecidableEq

/-- Where the block of `executeReal` is. -/
inductive BufferedPhase
  | checking
  | registering
  /-- The call was cancelled before, so that the handler runs here. -/
  | handling
  | submitting
  | refused
  | suspended
  /-- `executeReal` has returned, and the scheduler's permit is released. -/
  | returned
  deriving DecidableEq

structure BufferedCall where
  phase : BufferedPhase := .checking
  continuation : ContinuationState := .active
  handler : HandlerState := .unregistered
  request : NativeRequest := {}
  deriving DecidableEq

namespace BufferedCall

variable (call : BufferedCall)

/-- The continuation is resumed, unless it was cancelled. -/
def resume : BufferedCall :=
  { call with
    continuation := if call.continuation = .active then .completed else call.continuation }

/-- The next step of the coroutine. -/
def advance (closed : Bool) (submission : ExecuteResult) : Option BufferedCall :=
  match call.phase with
  | .checking =>
    if closed then some { call.resume with phase := .suspended }
    else some { call with phase := .registering }
  | .registering =>
    if call.continuation = .cancelled then
      some { call with phase := .handling, handler := .due }
    else some { call with phase := .submitting, handler := .registered }
  | .handling => if call.handler = .done then some { call with phase := .submitting } else none
  | .submitting =>
    if closed then some { call with phase := .refused }
    else
      match submission with
      | .running => some { call with phase := .suspended, request := submission.request }
      | .failed => some { call.resume with phase := .suspended, request := submission.request }
      | .refused => some { call with phase := .refused, request := submission.request }
  | .refused => some { call.resume with phase := .suspended }
  | .suspended =>
    if call.continuation = .active then none else some { call with phase := .returned }
  | .returned => none

/-- The coroutine is cancelled. -/
def cancel : Option BufferedCall :=
  if call.continuation = .active then
    some { call with
      continuation := .cancelled
      handler := if call.handler = .registered then .due else call.handler }
  else none

/-- The cancellation handler. -/
def handle (closed : Bool) : Option BufferedCall :=
  if call.handler = .due then
    some { call with
      handler := .done
      request := if closed then call.request else call.request.cancel }
  else none

/-- The terminal event of the request. -/
def terminate : Option BufferedCall :=
  if call.request.executed && !call.request.ended then
    some { call.resume with request := { call.request with ended := true } }
  else none

/-- The response is larger than the limit: `onBody` cancels the request. -/
def overflow (closed : Bool) : Option BufferedCall :=
  if call.request.executed && !call.request.ended then
    some { call.resume with request := if closed then call.request else call.request.cancel }
  else none

end BufferedCall

/-! ### Streaming calls -/

/-- Where the start coroutine of `executeStreaming` is. -/
inductive StreamingPhase
  | acquiring | checking | submitting | done
  deriving DecidableEq

/-- Where `KatHttp3Call.cancel` is. -/
inductive CancelState
  | idle
  /-- `cancelByCaller` is next. -/
  | claiming
  /-- The permit is released, and `NativeBridge.cancel` is next. -/
  | cancelling
  | done
  deriving DecidableEq

/-- The slot for the scheduler's permit. -/
inductive PermitSlot
  | empty | held | closed
  deriving DecidableEq

structure StreamingCall where
  phase : StreamingPhase := .acquiring
  permit : PermitSlot := .empty
  terminal : Bool := false
  canceller : CancelState := .idle
  request : NativeRequest := {}
  deriving DecidableEq

namespace StreamingCall

variable (call : StreamingCall)

/-- `callback.fail` and `callback.onComplete`. -/
def fail : StreamingCall :=
  if call.terminal then call else { call with terminal := true, permit := .closed }

/-- The next step of the start coroutine. The scheduler may refuse its permit. -/
def advance (closed granted : Bool) (submission : ExecuteResult) : Option StreamingCall :=
  match call.phase with
  | .acquiring =>
    if granted = false then some { call.fail with phase := .done }
    else if call.permit = .closed then some { call with phase := .done }
    else some { call with phase := .checking, permit := .held }
  | .checking =>
    if closed || call.terminal then some { call.fail with phase := .done }
    else some { call with phase := .submitting }
  | .submitting =>
    if closed || call.terminal then some { call.fail with phase := .done }
    else
      match submission with
      | .running => some { call with phase := .done, request := submission.request }
      | _ => some { call.fail with phase := .done, request := submission.request }
  | .done => none

/-- `KatHttp3Call.cancel` or `close`. -/
def cancel : Option StreamingCall :=
  if call.canceller = .idle then some { call with canceller := .claiming } else none

/-- The next step of the canceller. -/
def handle (closed : Bool) : Option StreamingCall :=
  match call.canceller with
  | .claiming =>
    if call.terminal then some { call with canceller := .done }
    else some { call.fail with canceller := .cancelling }
  | .cancelling =>
    some { call with
      canceller := .done
      request := if closed then call.request else call.request.cancel }
  | _ => none

/-- The terminal event of the request. -/
def terminate : Option StreamingCall :=
  if call.request.executed && !call.request.ended then
    some { call.fail with request := { call.request with ended := true } }
  else none

/-- The response overflows its buffer: `onBody` cancels the request. -/
def overflow (closed : Bool) : Option StreamingCall :=
  if call.request.executed && !call.request.ended then
    some { call.fail with request := if closed then call.request else call.request.cancel }
  else none

end StreamingCall

/-! ### The client -/

inductive KotlinCall
  | buffered (call : BufferedCall)
  | streaming (call : StreamingCall)
  deriving DecidableEq

namespace KotlinCall

def request : KotlinCall → NativeRequest
  | buffered call => call.request
  | streaming call => call.request

/-- The call was cancelled. -/
def cancelled : KotlinCall → Bool
  | buffered call => call.continuation = .cancelled
  | streaming call => call.canceller ≠ .idle

/-- The thread that cancels the call has steps to take. -/
def cancelling : KotlinCall → Bool
  | buffered call => call.handler = .due
  | streaming call => call.canceller = .claiming ∨ call.canceller = .cancelling

/-- The scheduler's permit has been given back. -/
def released : KotlinCall → Bool
  | buffered call => call.phase = .returned
  | streaming call => call.permit = .closed

end KotlinCall

structure KotlinClient where
  closed : Bool := false
  calls : List KotlinCall := []
  deriving DecidableEq

inductive KotlinStep
  | executeReal
  | executeStreaming
  | close
  /-- The coroutine of a call takes a step. -/
  | advance (k : ℕ) (granted : Bool) (submission : ExecuteResult)
  | cancel (k : ℕ)
  /-- The thread that cancels a call takes a step. -/
  | handle (k : ℕ)
  | terminate (k : ℕ)
  | overflow (k : ℕ)
  deriving DecidableEq

namespace KotlinClient

/-- A step of one call. -/
def update (client : KotlinClient) (k : ℕ) (f : KotlinCall → Option KotlinCall) :
    Option KotlinClient :=
  match client.calls[k]? with
  | none => none
  | some call => (f call).map fun call' => { client with calls := client.calls.set k call' }

def step (client : KotlinClient) : KotlinStep → Option KotlinClient
  | .executeReal => some { client with calls := client.calls ++ [.buffered {}] }
  | .executeStreaming =>
    if client.closed then none else some { client with calls := client.calls ++ [.streaming {}] }
  | .close => some { client with closed := true }
  | .advance k granted submission =>
    client.update k fun
      | .buffered call => (call.advance client.closed submission).map .buffered
      | .streaming call => (call.advance client.closed granted submission).map .streaming
  | .cancel k =>
    client.update k fun
      | .buffered call => call.cancel.map .buffered
      | .streaming call => call.cancel.map .streaming
  | .handle k =>
    client.update k fun
      | .buffered call => (call.handle client.closed).map .buffered
      | .streaming call => (call.handle client.closed).map .streaming
  | .terminate k =>
    client.update k fun
      | .buffered call => call.terminate.map .buffered
      | .streaming call => call.terminate.map .streaming
  | .overflow k =>
    client.update k fun
      | .buffered call => (call.overflow client.closed).map .buffered
      | .streaming call => (call.overflow client.closed).map .streaming

end KotlinClient

/-! ### What holds of a call -/

namespace BufferedCall

variable {call call' : BufferedCall} {closed : Bool}

@[simp] theorem resume_phase (call : BufferedCall) : call.resume.phase = call.phase := rfl

@[simp] theorem resume_handler (call : BufferedCall) : call.resume.handler = call.handler := rfl

@[simp] theorem resume_request (call : BufferedCall) : call.resume.request = call.request := rfl

@[simp] theorem resume_continuation_ne (call : BufferedCall) :
    call.resume.continuation ≠ .active := by
  unfold resume
  split_ifs with hactive
  · simp
  · exact hactive

@[simp] theorem resume_cancelled (call : BufferedCall) :
    call.resume.continuation = .cancelled ↔ call.continuation = .cancelled := by
  unfold resume
  split_ifs with hactive
  · simp [hactive]
  · exact Iff.rfl

structure Inv (closed : Bool) (call : BufferedCall) : Prop where
  /-- The request is submitted once. -/
  executed : call.request.executed = true →
    call.phase = .refused ∨ call.phase = .suspended ∨ call.phase = .returned
  known : call.phase = .handling ∨ call.phase = .submitting ∨ call.request.executed = true →
    call.handler ≠ .unregistered ∧ (call.continuation = .cancelled → call.handler ≠ .registered)
  handled : call.handler = .due ∨ call.handler = .done → call.continuation = .cancelled
  stopped : call.request.executed = true → call.continuation ≠ .active →
    call.request.stopped = true ∨ closed = true ∨ call.handler = .due
  refused : call.phase = .refused → call.request.executed = true →
    call.request.stopped = true ∨ closed = true
  /-- The continuation is resumed only after the submission. -/
  unresumed : call.phase = .checking ∨ call.phase = .registering ∨ call.phase = .handling ∨
    call.phase = .submitting → call.continuation ≠ .completed
  resumed : call.phase = .returned → call.continuation ≠ .active

theorem inv_new (closed : Bool) : Inv closed {} := by
  constructor <;> simp

theorem Inv.close (h : call.Inv closed) : call.Inv true :=
  ⟨h.executed, h.known, h.handled, fun _ _ => Or.inr (Or.inl rfl), fun _ _ => Or.inr rfl,
    h.unresumed, h.resumed⟩

/-- A buffered call is submitted in time if its handler has not run. -/
theorem Inv.advance (h : call.Inv closed) {submission : ExecuteResult}
    (hok : call.phase = .submitting → closed = false → submission = .running →
      call.handler ≠ .done)
    (hstep : call.advance closed submission = some call') : call'.Inv closed := by
  obtain ⟨executed, known, handled, stopped, refused, unresumed, resumed⟩ := h
  unfold BufferedCall.advance at hstep
  split at hstep
  case h_1 hphase =>
    have hnew : call.request.executed = false := by simpa [hphase] using executed
    split_ifs at hstep with hclosed
    · cases hstep
      constructor <;> simp_all
    · cases hstep
      constructor <;> simp_all
  case h_2 hphase =>
    have hnew : call.request.executed = false := by simpa [hphase] using executed
    split_ifs at hstep with hcancelled
    · cases hstep
      constructor <;> simp_all
    · cases hstep
      constructor <;> simp_all
  case h_3 hphase =>
    have hnew : call.request.executed = false := by simpa [hphase] using executed
    split_ifs at hstep with hhandled
    cases hstep
    constructor <;> simp_all
  case h_4 hphase =>
    have hnew : call.request.executed = false := by simpa [hphase] using executed
    have hknown := known (by simp [hphase])
    split_ifs at hstep with hclosed
    · cases hstep
      constructor <;> simp_all
    · split at hstep
      · cases hstep
        have hhandler := hok hphase (by simpa using hclosed) rfl
        have hdue : call.continuation = .cancelled → call.handler = .due := by
          intro hcancelled
          have hregistered := hknown.2 hcancelled
          cases hstate : call.handler with
          | unregistered => exact absurd hstate hknown.1
          | registered => exact absurd hstate hregistered
          | due => rfl
          | done => exact absurd hstate hhandler
        have hopen := unresumed (by simp [hphase])
        constructor
        case stopped =>
          intro _ hended
          cases hstate : call.continuation with
          | active => exact absurd hstate hended
          | completed => exact absurd hstate hopen
          | cancelled => exact Or.inr (Or.inr (hdue hstate))
        all_goals simp_all
      · cases hstep
        constructor <;> simp_all [ExecuteResult.request, NativeRequest.stopped]
      · cases hstep
        constructor <;> simp_all [ExecuteResult.request, NativeRequest.stopped]
  case h_5 hphase =>
    cases hstep
    have hended := refused hphase
    constructor
    case stopped => exact fun hexecuted _ => (hended hexecuted).imp_right Or.inl
    all_goals simp_all
  case h_6 hphase =>
    split_ifs at hstep with hactive
    cases hstep
    constructor <;> simp_all
  case h_7 => cases hstep

theorem Inv.cancel (h : call.Inv closed) (hstep : call.cancel = some call') :
    call'.Inv closed := by
  obtain ⟨executed, known, handled, stopped, refused, unresumed, resumed⟩ := h
  unfold BufferedCall.cancel at hstep
  split_ifs at hstep with hactive hregistered
  · cases hstep
    constructor <;> grind
  · cases hstep
    -- the handler of a submitted call that is active is registered
    have hnew : call.request.executed = false := by
      by_contra hexecuted
      have hknown := known (Or.inr (Or.inr (by simpa using hexecuted)))
      cases hstate : call.handler with
      | unregistered => exact hknown.1 hstate
      | registered => exact hregistered hstate
      | due => simp [handled (Or.inl hstate)] at hactive
      | done => simp [handled (Or.inr hstate)] at hactive
    constructor <;> grind

theorem Inv.handle (h : call.Inv closed) (hstep : call.handle closed = some call') :
    call'.Inv closed := by
  obtain ⟨executed, known, handled, stopped, refused, unresumed, resumed⟩ := h
  unfold BufferedCall.handle at hstep
  split_ifs at hstep with hdue hclosed
  · cases hstep
    constructor <;> grind
  · cases hstep
    have hcancelled := handled (Or.inl hdue)
    constructor <;> grind [NativeRequest.cancel, NativeRequest.stopped]

theorem Inv.terminate (h : call.Inv closed) (hstep : call.terminate = some call') :
    call'.Inv closed := by
  obtain ⟨executed, known, handled, stopped, refused, unresumed, resumed⟩ := h
  unfold BufferedCall.terminate at hstep
  split_ifs at hstep with hrunning
  cases hstep
  constructor <;> grind [NativeRequest.stopped, BufferedCall.resume]

theorem Inv.overflow (h : call.Inv closed) (hstep : call.overflow closed = some call') :
    call'.Inv closed := by
  obtain ⟨executed, known, handled, stopped, refused, unresumed, resumed⟩ := h
  unfold BufferedCall.overflow at hstep
  split_ifs at hstep with hrunning hclosed
  · cases hstep
    constructor <;> grind [BufferedCall.resume]
  · cases hstep
    constructor <;> grind [NativeRequest.cancel, NativeRequest.stopped, BufferedCall.resume]

end BufferedCall

namespace StreamingCall

variable {call call' : StreamingCall} {closed : Bool}

structure Inv (closed : Bool) (call : StreamingCall) : Prop where
  /-- The request is submitted once. -/
  executed : call.request.executed = true → call.phase = .done
  stopped : call.request.executed = true → call.terminal = true →
    call.request.stopped = true ∨ closed = true ∨ call.canceller = .cancelling
  claimed : call.canceller = .cancelling ∨ call.canceller = .done → call.terminal = true
  permit : call.permit = .closed → call.terminal = true

theorem inv_new (closed : Bool) : Inv closed {} := by
  constructor <;> simp

theorem Inv.close (h : call.Inv closed) : call.Inv true :=
  ⟨h.executed, fun _ _ => Or.inr (Or.inl rfl), h.claimed, h.permit⟩

theorem Inv.advance (h : call.Inv closed) {granted : Bool} {submission : ExecuteResult}
    (hstep : call.advance closed granted submission = some call') : call'.Inv closed := by
  obtain ⟨executed, stopped, claimed, permit⟩ := h
  unfold StreamingCall.advance at hstep
  split at hstep
  case h_1 hphase =>
    have hnew : call.request.executed = false := by simpa [hphase] using executed
    split_ifs at hstep with hrefused hlate
    · cases hstep
      constructor <;> grind [StreamingCall.fail]
    · cases hstep
      constructor <;> grind
    · cases hstep
      constructor <;> grind
  case h_2 hphase =>
    have hnew : call.request.executed = false := by simpa [hphase] using executed
    split_ifs at hstep with hover
    · cases hstep
      constructor <;> grind [StreamingCall.fail]
    · cases hstep
      constructor <;> grind
  case h_3 hphase =>
    have hnew : call.request.executed = false := by simpa [hphase] using executed
    split_ifs at hstep with hover
    · cases hstep
      constructor <;> grind [StreamingCall.fail]
    · split at hstep
      · cases hstep
        constructor <;> grind
      · cases hstep
        constructor <;> grind [StreamingCall.fail, ExecuteResult.request, NativeRequest.stopped]
  case h_4 => cases hstep

theorem Inv.cancel (h : call.Inv closed) (hstep : call.cancel = some call') :
    call'.Inv closed := by
  obtain ⟨executed, stopped, claimed, permit⟩ := h
  unfold StreamingCall.cancel at hstep
  split_ifs at hstep with hidle
  cases hstep
  constructor <;> grind

theorem Inv.handle (h : call.Inv closed) (hstep : call.handle closed = some call') :
    call'.Inv closed := by
  obtain ⟨executed, stopped, claimed, permit⟩ := h
  unfold StreamingCall.handle at hstep
  split at hstep
  case h_1 hclaiming =>
    split_ifs at hstep with hterminal
    · cases hstep
      constructor <;> grind
    · cases hstep
      constructor <;> grind [StreamingCall.fail]
  case h_2 hcancelling =>
    cases hstep
    constructor <;> grind [NativeRequest.cancel, NativeRequest.stopped]
  case h_3 => cases hstep

theorem Inv.terminate (h : call.Inv closed) (hstep : call.terminate = some call') :
    call'.Inv closed := by
  obtain ⟨executed, stopped, claimed, permit⟩ := h
  unfold StreamingCall.terminate at hstep
  split_ifs at hstep with hrunning
  cases hstep
  constructor <;> grind [NativeRequest.stopped, StreamingCall.fail]

theorem Inv.overflow (h : call.Inv closed) (hstep : call.overflow closed = some call') :
    call'.Inv closed := by
  obtain ⟨executed, stopped, claimed, permit⟩ := h
  unfold StreamingCall.overflow at hstep
  split_ifs at hstep with hrunning hclosed
  · cases hstep
    constructor <;> grind [StreamingCall.fail]
  · cases hstep
    constructor <;> grind [NativeRequest.cancel, NativeRequest.stopped, StreamingCall.fail]

end StreamingCall

/-! ### Whether a cancellation arrives -/

namespace KotlinCall

/-- What holds of every call of a client. -/
def Inv (closed : Bool) : KotlinCall → Prop
  | buffered call => call.Inv closed
  | streaming call => call.Inv closed

/-- A call that was cancelled, or whose permit was given back, does not run on: its request
was cancelled after `NativeBridge.execute` or has ended, unless the client is closed or the
thread that cancels the call is still at it. -/
def Stopped (closed : Bool) (call : KotlinCall) : Prop :=
  call.cancelled = true ∨ call.released = true → call.request.executed = true →
    call.request.stopped = true ∨ closed = true ∨ call.cancelling = true

theorem Inv.stopped {closed : Bool} {call : KotlinCall} (h : call.Inv closed) :
    call.Stopped closed := by
  cases call with
  | buffered call =>
    intro hended hexecuted
    have hinactive : call.continuation ≠ .active := by
      rcases hended with hcancelled | hreleased
      · have hcancelled : call.continuation = .cancelled := by simpa [cancelled] using hcancelled
        simp [hcancelled]
      · exact BufferedCall.Inv.resumed h (by simpa [released] using hreleased)
    simpa [cancelling, request] using BufferedCall.Inv.stopped h hexecuted hinactive
  | streaming call =>
    obtain ⟨executed, stopped, claimed, permit⟩ := h
    intro hended hexecuted
    simp only [cancelled, released, cancelling, request, decide_eq_true_eq] at hended hexecuted ⊢
    cases hstate : call.canceller with
    | idle => grind
    | claiming => simp
    | cancelling => simp
    | done => grind

/-- The thread that cancels a call is never held up. -/
theorem handle_of_cancelling {closed : Bool} :
    (∀ call : BufferedCall, (buffered call).cancelling = true → (call.handle closed).isSome) ∧
      ∀ call : StreamingCall, (streaming call).cancelling = true → (call.handle closed).isSome := by
  constructor
  · intro call hcancelling
    have hdue : call.handler = .due := by simpa [cancelling] using hcancelling
    simp [BufferedCall.handle, hdue]
  · intro call hcancelling
    simp only [cancelling, decide_eq_true_eq] at hcancelling
    rcases hcancelling with hstate | hstate
    · unfold StreamingCall.handle
      rw [hstate]
      dsimp only
      split_ifs
      · rfl
      · rfl
    · simp [StreamingCall.handle, hstate]

end KotlinCall

namespace KotlinClient

variable {client client' : KotlinClient}

def Inv (client : KotlinClient) : Prop := ∀ call ∈ client.calls, call.Inv client.closed

/-- A cancellation reaches the native request of every call. -/
structure CancelReaches (client : KotlinClient) : Prop where
  stopped : ∀ call ∈ client.calls, call.Stopped client.closed
  /-- The thread that cancels a call comes to its end. -/
  progress : ∀ k call, client.calls[k]? = some call → call.cancelling = true →
    (client.step (.handle k)).isSome

theorem Inv.cancelReaches (h : client.Inv) : client.CancelReaches where
  stopped call hmem := (h call hmem).stopped
  progress k call hk hcancelling := by
    obtain ⟨hbuffered, hstreaming⟩ := @KotlinCall.handle_of_cancelling client.closed
    cases call with
    | buffered call =>
      simp only [step, update, hk, Option.isSome_map]
      exact hbuffered call hcancelling
    | streaming call =>
      simp only [step, update, hk, Option.isSome_map]
      exact hstreaming call hcancelling

theorem update_cases {k : ℕ} {f : KotlinCall → Option KotlinCall}
    (h : client.update k f = some client') :
    ∃ call call', client.calls[k]? = some call ∧ f call = some call' ∧
      client' = { client with calls := client.calls.set k call' } := by
  unfold update at h
  split at h
  · cases h
  · rename_i call hk
    obtain ⟨call', hf, rfl⟩ := Option.map_eq_some_iff.mp h
    exact ⟨call, call', hk, hf, rfl⟩

/-- No buffered call is submitted once its cancellation handler has run. -/
def inTime (client : KotlinClient) : KotlinStep → Bool
  | .advance k _ .running =>
    match client.calls[k]? with
    | some (.buffered call) =>
      call.phase != .submitting || client.closed || call.handler != .done
    | _ => true
  | _ => true

theorem Inv.set (h : client.Inv) {k : ℕ} {call' : KotlinCall} (hnew : call'.Inv client.closed) :
    Inv { client with calls := client.calls.set k call' } := by
  intro call hmem
  rcases List.mem_or_eq_of_mem_set hmem with hold | rfl
  · exact h call hold
  · exact hnew

theorem Inv.add (h : client.Inv) {call' : KotlinCall} (hnew : call'.Inv client.closed) :
    Inv { client with calls := client.calls ++ [call'] } := by
  intro call hmem
  rcases List.mem_append.mp hmem with hold | hlast
  · exact h call hold
  · rw [List.mem_singleton.mp hlast]
    exact hnew

/-- A step of one call keeps the invariant if each kind of call keeps its own. -/
theorem Inv.update (h : client.Inv) {k : ℕ} {f : KotlinCall → Option KotlinCall}
    (hf : ∀ call call', client.calls[k]? = some call → call.Inv client.closed →
      f call = some call' → call'.Inv client.closed)
    (hstep : client.update k f = some client') : client'.Inv := by
  obtain ⟨call, call', hk, heq, rfl⟩ := update_cases hstep
  exact h.set (hf call call' hk (h call (List.mem_iff_getElem?.mpr ⟨k, hk⟩)) heq)

theorem Inv.step (h : client.Inv) {i : KotlinStep} (hok : client.inTime i = true)
    (hstep : client.step i = some client') : client'.Inv := by
  cases i with
  | executeReal =>
    cases hstep
    exact h.add (BufferedCall.inv_new client.closed)
  | executeStreaming =>
    simp only [KotlinClient.step] at hstep
    split_ifs at hstep
    cases hstep
    exact h.add (StreamingCall.inv_new client.closed)
  | close =>
    cases hstep
    intro call hmem
    have hcall := h call hmem
    cases call with
    | buffered call => exact BufferedCall.Inv.close hcall
    | streaming call => exact StreamingCall.Inv.close hcall
  | advance k granted submission =>
    apply h.update _ hstep
    intro call call' hk hcall heq
    cases call with
    | buffered call =>
      obtain ⟨next, hnext, rfl⟩ := Option.map_eq_some_iff.mp heq
      apply BufferedCall.Inv.advance hcall _ hnext
      rintro hphase hopen rfl
      simpa [inTime, hk, hphase, hopen] using hok
    | streaming call =>
      obtain ⟨next, hnext, rfl⟩ := Option.map_eq_some_iff.mp heq
      exact StreamingCall.Inv.advance hcall hnext
  | cancel k =>
    apply h.update _ hstep
    intro call call' _ hcall heq
    cases call with
    | buffered call =>
      obtain ⟨next, hnext, rfl⟩ := Option.map_eq_some_iff.mp heq
      exact BufferedCall.Inv.cancel hcall hnext
    | streaming call =>
      obtain ⟨next, hnext, rfl⟩ := Option.map_eq_some_iff.mp heq
      exact StreamingCall.Inv.cancel hcall hnext
  | handle k =>
    apply h.update _ hstep
    intro call call' _ hcall heq
    cases call with
    | buffered call =>
      obtain ⟨next, hnext, rfl⟩ := Option.map_eq_some_iff.mp heq
      exact BufferedCall.Inv.handle hcall hnext
    | streaming call =>
      obtain ⟨next, hnext, rfl⟩ := Option.map_eq_some_iff.mp heq
      exact StreamingCall.Inv.handle hcall hnext
  | terminate k =>
    apply h.update _ hstep
    intro call call' _ hcall heq
    cases call with
    | buffered call =>
      obtain ⟨next, hnext, rfl⟩ := Option.map_eq_some_iff.mp heq
      exact BufferedCall.Inv.terminate hcall hnext
    | streaming call =>
      obtain ⟨next, hnext, rfl⟩ := Option.map_eq_some_iff.mp heq
      exact StreamingCall.Inv.terminate hcall hnext
  | overflow k =>
    apply h.update _ hstep
    intro call call' _ hcall heq
    cases call with
    | buffered call =>
      obtain ⟨next, hnext, rfl⟩ := Option.map_eq_some_iff.mp heq
      exact BufferedCall.Inv.overflow hcall hnext
    | streaming call =>
      obtain ⟨next, hnext, rfl⟩ := Option.map_eq_some_iff.mp heq
      exact StreamingCall.Inv.overflow hcall hnext

/-- A call that is submitted after its handler has run is never cancelled. -/
theorem Inv.inTime_of_cancelReaches (h : client.Inv) {i : KotlinStep}
    (hstep : client.step i = some client') (hreaches : client'.CancelReaches) :
    client.inTime i = true := by
  by_contra hlate
  unfold inTime at hlate
  split at hlate
  case h_2 => exact hlate rfl
  case h_1 k granted =>
    split at hlate
    case h_2 => exact hlate rfl
    case h_1 call hk =>
      simp only [Bool.or_eq_true, bne_iff_ne, ne_eq, not_or, not_not, Bool.not_eq_true] at hlate
      obtain ⟨⟨hphase, hopen⟩, hhandler⟩ := hlate
      have hcancelled := (h (.buffered call) (List.mem_iff_getElem?.mpr ⟨k, hk⟩)).handled
        (Or.inr hhandler)
      obtain ⟨_, call', hk', heq, rfl⟩ := update_cases hstep
      cases hk.symm.trans hk'
      simp only [BufferedCall.advance, hphase, hopen, ExecuteResult.request] at heq
      cases heq
      have hmem := List.mem_set (List.getElem?_eq_some_iff.mp hk).1
        (KotlinCall.buffered { call with phase := .suspended, request := { executed := true } })
      have hstopped := hreaches.stopped _ hmem (Or.inl (by simp [KotlinCall.cancelled, hcancelled]))
        rfl
      simp [KotlinCall.request, KotlinCall.cancelling, NativeRequest.stopped, hopen, hhandler]
        at hstopped

/-- Cancellations reach the native requests in every state of a run, exactly if no buffered
call is submitted in it after its cancellation handler has run. -/
theorem run_cancelReaches_iff {steps : List KotlinStep}
    (hrun : Transition.run step {} steps = some client) :
    Transition.Meets step (fun client i => client.inTime i = true) {} steps ↔
      ∀ before after t, steps = before ++ after → Transition.run step {} before = some t →
        t.CancelReaches := by
  apply Transition.meets_iff (fun client h => Inv.cancelReaches h) _ _ hrun
  · intro call hmem
    cases hmem
  · exact fun client i client' h hok hstep => Inv.step h hok hstep
  · exact fun client i client' h hstep hreaches => h.inTime_of_cancelReaches hstep hreaches

/-! ### Two runs -/

/-- `executeReal` up to the call of `NativeBridge.execute`. -/
def submissionSteps : List KotlinStep :=
  [.executeReal, .advance 0 true .running, .advance 0 true .running]

theorem run_cancelReaches_iff_after_submission :
    ∃ client, Transition.run step {}
        (submissionSteps ++ [.advance 0 true .running, .cancel 0, .handle 0]) = some client ∧
      (Transition.Meets step (fun client i => client.inTime i = true) {}
          (submissionSteps ++ [.advance 0 true .running, .cancel 0, .handle 0]) ↔
        ∀ before after t,
          submissionSteps ++ [.advance 0 true .running, .cancel 0, .handle 0] = before ++ after →
            Transition.run step {} before = some t → t.CancelReaches) :=
  ⟨_, rfl, run_cancelReaches_iff rfl⟩

/-- A call that is cancelled before its submission: the handler has run, the permit is
released, and the request runs on. -/
theorem run_cancelled_before_submission :
    ∃ client, Transition.run step {} (submissionSteps ++
        [.cancel 0, .handle 0, .advance 0 true .running, .advance 0 true .running]) = some client ∧
      client.calls.map KotlinCall.released = [true] ∧
      client.calls.map KotlinCall.request = [{ executed := true }] ∧ ¬ client.CancelReaches := by
  refine ⟨_, rfl, by decide, by decide, ?_⟩
  intro hreaches
  have hstopped := hreaches.stopped (.buffered {
    phase := .returned
    continuation := .cancelled
    handler := .done
    request := { executed := true } }) (by decide) (Or.inl (by decide)) rfl
  simp [KotlinCall.request, KotlinCall.cancelling, NativeRequest.stopped] at hstopped

end KotlinClient

end KatHttp3
