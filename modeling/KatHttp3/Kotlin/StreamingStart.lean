import KatHttp3.Kotlin.Calls
import KatHttp3.Library.Parties

/-!
# The permit of a streaming call

`executeStreaming` in the single actions of its threads: the start coroutine, which
gets a permit from the scheduler and submits the request, and whoever ends the call:
a native callback, the coroutine itself, the producer of the body or the caller. A
`CloseOnceSlot` hands the permit from the one to the other.
-/

namespace KatHttp3

open Parties

/-! ### CloseOnceSlot -/

/-- What the lock of a slot protects. -/
structure CloseOnceSlot (R : Type) where
  terminal : Bool := false
  value : Option R := none
  deriving DecidableEq

inductive PublishResult
  | published
  /-- The slot is closed, and the resource has to be closed at once. -/
  | late
  /-- The check fails that there is no resource yet. -/
  | occupied
  deriving DecidableEq

namespace CloseOnceSlot

variable {R : Type} (slot : CloseOnceSlot R)

def publish (resource : R) : CloseOnceSlot R × PublishResult :=
  if slot.terminal then (slot, .late)
  else if slot.value.isSome then (slot, .occupied)
  else ({ slot with value := some resource }, .published)

/-- The locked part of `close`, with the resource that is closed after it. -/
def close : CloseOnceSlot R × Option R :=
  if slot.terminal then (slot, none) else ({ terminal := true, value := none }, slot.value)

end CloseOnceSlot

/-! ### Who ends the call -/

inductive Ending
  | complete
  | fail
  | cancelByCaller
  deriving DecidableEq

/-- What comes next for a thread that ends the call. -/
inductive EndingPhase
  /-- A response that overflows and a failed producer cancel the request first. -/
  | cancellingFirst
  | claiming
  | removing
  | releasing
  /-- It has taken the permit out of the slot. -/
  | closing
  | finishing
  | cancellingStart
  | cancellingNative
  /-- The caller has come too late, and cancels the start coroutine only. -/
  | late
  | done
  deriving DecidableEq

structure Ender where
  ending : Ending
  phase : EndingPhase := .claiming
  deriving DecidableEq

/-- Where the start coroutine is. -/
inductive StartPhase
  | unstarted
  | acquiring
  | publishing
  /-- The permit came too late for the slot. -/
  | closingLate
  | checking
  | submitting
  /-- It has the lock of the bridge, and has seen that the call goes on. -/
  | executing
  /-- The request was not submitted. -/
  | refused
  | done
  /-- The coroutine was cancelled before it began. -/
  | forgotten
  deriving DecidableEq

/-- What the threads share. The permit is its flag `released`, and `releases` counts the
slots given back to the scheduler; `ended` lists what was called on the response queue. -/
structure StreamingShared where
  terminal : Bool := false
  slot : CloseOnceSlot Unit := {}
  active : Bool := false
  request : NativeRequest := {}
  ended : List Ending := []
  closed : Bool := false
  start : StartPhase := .unstarted
  startCancelled : Bool := false
  cancelled : Bool := false
  granted : Bool := false
  released : Bool := false
  releases : ℕ := 0
  deriving DecidableEq

namespace StreamingShared

variable (shared : StreamingShared)

/-- `Permit.close`. -/
def closePermit : StreamingShared :=
  if shared.released then shared
  else { shared with released := true, releases := shared.releases + 1 }

/-- `NativeBridge.cancel` under the lock of the bridge, which the coroutine may have. -/
def cancelNative : Option StreamingShared :=
  if shared.start = .executing then none
  else
    some { shared with request := if shared.closed then shared.request else shared.request.cancel }

/-- The next action of the start coroutine, and the failures that it reports. The scheduler
may refuse its permit. -/
def advance (granted : Bool) (submission : ExecuteResult) :
    Option (StreamingShared × List Ender) :=
  match shared.start with
  | .unstarted =>
    if shared.startCancelled then some ({ shared with start := .forgotten }, [])
    else some ({ shared with start := .acquiring }, [])
  | .acquiring =>
    if granted then some ({ shared with start := .publishing, granted := true }, [])
    else some ({ shared with start := .done }, [{ ending := .fail }])
  | .publishing =>
    match shared.slot.publish () with
    | (slot, .published) => some ({ shared with slot := slot, start := .checking }, [])
    | (slot, .late) => some ({ shared with slot := slot, start := .closingLate }, [])
    | (slot, .occupied) =>
      some ({ shared with slot := slot, start := .done }, [{ ending := .fail }])
  | .closingLate => some ({ shared.closePermit with start := .done }, [])
  | .checking =>
    if shared.closed || shared.terminal then
      some ({ shared with start := .done }, [{ ending := .fail }])
    else some ({ shared with start := .submitting }, [])
  | .submitting =>
    if shared.closed || shared.terminal then some ({ shared with start := .refused }, [])
    else some ({ shared with start := .executing, active := true }, [])
  | .executing =>
    match submission with
    | .running => some ({ shared with request := submission.request, start := .done }, [])
    -- the error callback has been called within `NativeBridge.execute`
    | .failed =>
      some ({ shared with request := submission.request, start := .done }, [{ ending := .fail }])
    | .refused => some ({ shared with request := submission.request, start := .refused }, [])
  | .refused =>
    some ({ shared with start := .done }, if shared.terminal then [] else [{ ending := .fail }])
  | .done | .forgotten => none

end StreamingShared

/-- The next action of a thread that ends the call. -/
def Ender.advance (shared : StreamingShared) (ender : Ender) : Option (StreamingShared × Ender) :=
  match ender.phase with
  | .cancellingFirst =>
    shared.cancelNative.map fun shared => (shared, { ender with phase := .claiming })
  | .claiming =>
    if shared.terminal then
      some (shared, { ender with
        phase := if ender.ending = .cancelByCaller then .late else .done })
    else some ({ shared with terminal := true }, { ender with phase := .removing })
  | .removing => some ({ shared with active := false }, { ender with phase := .releasing })
  | .releasing =>
    let (slot, permit) := shared.slot.close
    some ({ shared with slot := slot },
      { ender with phase := if permit.isSome then .closing else .finishing })
  | .closing => some (shared.closePermit, { ender with phase := .finishing })
  | .finishing =>
    some ({ shared with ended := shared.ended ++ [ender.ending] }, { ender with
      phase := if ender.ending = .cancelByCaller then .cancellingStart else .done })
  | .cancellingStart =>
    some ({ shared with startCancelled := true }, { ender with phase := .cancellingNative })
  | .cancellingNative =>
    shared.cancelNative.map fun shared => (shared, { ender with phase := .done })
  | .late => some ({ shared with startCancelled := true }, { ender with phase := .done })
  | .done => none

abbrev StreamingSystem := System StreamingShared Ender

inductive StreamingStep
  | start (granted : Bool) (submission : ExecuteResult)
  /-- The terminal event of the request. -/
  | terminate (completed : Bool)
  /-- The response does not fit its queue, or the producer of the body fails. -/
  | abandon (cancelsFirst : Bool)
  /-- `KatHttp3Call.cancel` or `close`. -/
  | cancel
  | ender (i : ℕ)
  /-- The client is closed, and then the scope of its coroutines is cancelled. -/
  | close
  | cancelScope
  deriving DecidableEq

namespace StreamingSystem

/-- The call when `executeStreaming` returns. -/
def initial : StreamingSystem := ⟨{}, []⟩

def step (s : StreamingSystem) : StreamingStep → Option StreamingSystem
  | .start granted submission =>
    (s.shared.advance granted submission).map fun next => ⟨next.1, s.parties ++ next.2⟩
  | .terminate completed =>
    if s.shared.request.executed && !s.shared.request.ended then
      some ⟨{ s.shared with request := { s.shared.request with ended := true } },
        s.parties ++ [{ ending := if completed then .complete else .fail }]⟩
    else none
  | .abandon cancelsFirst =>
    if s.shared.request.executed then
      some (s.join { ending := .fail, phase := if cancelsFirst then .cancellingFirst else .claiming })
    else none
  | .cancel =>
    if s.shared.cancelled then some s
    else
      some ⟨{ s.shared with cancelled := true }, s.parties ++ [{ ending := .cancelByCaller }]⟩
  | .ender i => s.move i Ender.advance
  | .close =>
    if s.shared.start = .executing then none
    else some { s with shared := { s.shared with closed := true } }
  | .cancelScope =>
    if s.shared.closed then some { s with shared := { s.shared with startCancelled := true } }
    else none

end StreamingSystem

end KatHttp3
