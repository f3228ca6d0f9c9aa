import KatHttp3.Kotlin.Calls
import KatHttp3.Library.Parties
import KatHttp3.Library.Transition
import KatHttp3.Library.UrgencyQueues
import Mathlib.Logic.Function.Basic

/-!
# Admission of requests

`OriginRequestScheduler` and the calls of `acquire`. What happens under its lock
is one step. A call suspends in `suspendCancellableCoroutine` within
`withTimeout`, whose coroutine is cancelled when the time is over or the caller
is cancelled; the continuation learns of that in a step of its own. A slot that
the locked part has given to a call is on its way until `resume` is called.
-/

namespace KatHttp3

namespace RequestScheduler

open WeightedList Parties UrgencyQueues

/-- The limits of the client's configuration. -/
structure SchedulerLimits where
  maxActive : ℕ
  maxQueued : ℕ
  maxActive_pos : 0 < maxActive

/-- An entry of a queue: the position of the call, its urgency, and when it came. -/
structure Waiter where
  call : ℕ
  urgency : ℕ
  arrival : ℕ
  deriving DecidableEq

structure OriginState where
  active : ℕ := 0
  waiters : List (List Waiter) := List.replicate 8 []
  deriving DecidableEq

namespace OriginState

variable (state : OriginState)

/-- All waiters, in the order of the queues. -/
def queue : List Waiter := state.waiters.flatten

def isIdle : Bool := state.active = 0 ∧ state.queue = []

end OriginState

variable {Origin Url : Type} [DecidableEq Origin]

structure Scheduler (Origin : Type) where
  origins : Origin → Option OriginState := fun _ => none
  closed : Bool := false
  /-- Slots that were given to calls whose `resume` is still to come. -/
  granted : List (ℕ × Origin) := []
  /-- How many waiters have been queued so far. -/
  arrivals : ℕ := 0

/-- Where a call of `acquire` is. -/
inductive Phase
  | entered
  | suspended
  /-- The continuation has a permit and is not dispatched yet. -/
  | resumed
  /-- The block of `withTimeout` has the permit. -/
  | delivered
  | returned
  /-- `withTimeout` has thrown although its block has returned a permit. -/
  | discarded
  | failed
  deriving DecidableEq

inductive PermitState
  | absent
  | held
  /-- `close` has won the compare-and-set and has not released the slot. -/
  | closing
  | closed
  deriving DecidableEq

structure AcquireCall (Origin : Type) where
  origin : Origin
  urgency : Fin 8
  phase : Phase := .entered
  continuation : ContinuationState := .active
  handler : HandlerState := .unregistered
  /-- The coroutine of `withTimeout` is cancelled. -/
  cancelled : Bool := false
  permit : PermitState := .absent
  deriving DecidableEq

/-! ### The locked parts -/

namespace Scheduler

variable (limits : SchedulerLimits) (scheduler : Scheduler Origin) (origin : Origin)

def replace (state : Option OriginState) : Scheduler Origin :=
  { scheduler with origins := Function.update scheduler.origins origin state }

/-- The new state of an origin, which `removeIdleState` removes if it is idle. -/
def putUnlessIdle (state : OriginState) : Scheduler Origin :=
  scheduler.replace origin (if state.isIdle then none else some state)

/-- What `acquire` does for a call, and whether it goes on. -/
def acquire (i : ℕ) (urgency : Fin 8) : Scheduler Origin × Bool :=
  if scheduler.closed then (scheduler, false)
  else
    let state := (scheduler.origins origin).getD {}
    if state.active < limits.maxActive then
      ({ scheduler.replace origin (some { state with active := state.active + 1 }) with
          granted := scheduler.granted ++ [(i, origin)] }, true)
    else if limits.maxQueued ≤ state.queue.length then
      (scheduler.replace origin (some state), false)
    else
      ({ scheduler.replace origin (some { state with
            waiters := push urgency ⟨i, urgency, scheduler.arrivals⟩ state.waiters }) with
          arrivals := scheduler.arrivals + 1 }, true)

def removeWaiter (i : ℕ) : Scheduler Origin :=
  match scheduler.origins origin with
  | none => scheduler
  | some state =>
    scheduler.putUnlessIdle origin
      { state with waiters := state.waiters.map (List.filter fun w => w.call ≠ i) }

/-- `release`: the slot goes to the next waiter whose continuation is active. -/
def release (isActive : Waiter → Bool) : Scheduler Origin :=
  match scheduler.origins origin with
  | none => scheduler
  | some state =>
    match pop isActive state.waiters with
    | (some next, waiters) =>
      { scheduler.replace origin (some { state with waiters := waiters }) with
        granted := scheduler.granted ++ [(next.call, origin)] }
    | (none, waiters) =>
      scheduler.putUnlessIdle origin { active := state.active - 1, waiters := waiters }

end Scheduler

/-! ### The steps of a call -/

inductive AcquireStep
  | acquire
  | invokeOnCancellation
  | resume
  /-- The time is over, or the caller is cancelled. -/
  | cancel
  | cancelContinuation
  | removeWaiter
  | dispatch
  | complete
  | throwCancellation
  | close
  | release
  | failClosed

namespace AcquireCall

variable (call : AcquireCall Origin)

/-- The continuation is resumed with an exception, unless it is cancelled. -/
def fail : AcquireCall Origin :=
  { call with
    phase := .failed
    continuation := if call.continuation = .active then .completed else call.continuation }

/-- `acquire` has returned or thrown. -/
def ended : Bool := call.phase = .returned ∨ call.phase = .discarded ∨ call.phase = .failed

/-- The handler of a cancelled continuation, if it is registered. -/
def handlerDue : HandlerState := if call.handler = .registered then .due else call.handler

def step (limits : SchedulerLimits) (isActive : Waiter → Bool) (i : ℕ)
    (scheduler : Scheduler Origin) :
    AcquireStep → Option (Scheduler Origin × AcquireCall Origin)
  | .acquire =>
    if call.phase = .entered then
      let next := scheduler.acquire limits call.origin i call.urgency
      some (next.1, if next.2 then { call with phase := .suspended } else call.fail)
    else none
  | .invokeOnCancellation =>
    if call.phase ≠ .entered ∧ call.handler = .unregistered then
      some (scheduler, { call with
        handler := if call.continuation = .cancelled then .due else .registered })
    else none
  | .resume =>
    if (i, call.origin) ∈ scheduler.granted then
      let scheduler := { scheduler with granted := scheduler.granted.erase (i, call.origin) }
      match call.continuation with
      | .active =>
        some (scheduler, { call with
          phase := .resumed, continuation := .completed, permit := .held })
      -- the continuation closes the permit at once
      | .cancelled => some (scheduler, { call with permit := .closing })
      | .completed => none
    else none
  | .cancel => if call.ended then none else some (scheduler, { call with cancelled := true })
  | .cancelContinuation =>
    if call.cancelled ∧ call.continuation = .active then
      some (scheduler, { call with continuation := .cancelled, handler := call.handlerDue })
    else none
  | .removeWaiter =>
    if call.handler = .due then
      some (scheduler.removeWaiter call.origin i, { call with handler := .done })
    else none
  | .dispatch =>
    if call.phase = .resumed ∧ call.handler ≠ .unregistered then
      if call.cancelled then
        some (scheduler, { call with
          phase := .failed, handler := call.handlerDue, permit := .closing })
      else some (scheduler, { call with phase := .delivered })
    else none
  | .complete =>
    if call.phase = .delivered then
      some (scheduler, { call with phase := if call.cancelled then .discarded else .returned })
    else none
  | .throwCancellation =>
    if call.phase = .suspended ∧ call.continuation = .cancelled ∧ call.handler = .done then
      some (scheduler, { call with phase := .failed })
    else none
  | .close =>
    if call.phase = .returned then
      some (scheduler, if call.permit = .held then { call with permit := .closing } else call)
    else none
  | .release =>
    if call.permit = .closing then
      some (scheduler.release call.origin isActive, { call with permit := .closed })
    else none
  | .failClosed =>
    if scheduler.closed ∧ call.phase = .suspended ∧ call.continuation = .active ∧
        (i, call.origin) ∉ scheduler.granted then
      some (scheduler, call.fail)
    else none

end AcquireCall

/-- The scheduler and the calls of `acquire`. -/
abbrev SchedulerState (Origin : Type) := System (Scheduler Origin) (AcquireCall Origin)

inductive SchedulerStep (Url : Type)
  | acquire (url : Url) (urgency : Fin 8)
  | call (i : ℕ) (step : AcquireStep)
  | close

def isActive (s : SchedulerState Origin) (w : Waiter) : Bool :=
  s.parties[w.call]?.any fun call => call.continuation = .active

/-- `originOf` fails for a URL without a host. -/
def step (limits : SchedulerLimits) (originOf : Url → Option Origin) (s : SchedulerState Origin) :
    SchedulerStep Url → Option (SchedulerState Origin)
  | .acquire url urgency =>
    match originOf url with
    | none => some s
    | some origin => some (s.join { origin := origin, urgency := urgency })
  | .call i step => s.move i fun scheduler call => call.step limits (isActive s) i scheduler step
  | .close =>
    if s.shared.closed then some s
    else some { s with shared := { s.shared with closed := true, origins := fun _ => none } }

/-! ### What the scheduler counts -/

namespace Scheduler

variable (scheduler : Scheduler Origin)

def activeOf (origin : Origin) : ℕ := (scheduler.origins origin).elim 0 OriginState.active

def queueOf (origin : Origin) : List Waiter := (scheduler.origins origin).elim [] OriginState.queue

/-- The calls that have been given a slot of the origin and not been resumed. -/
def grantedFor (origin : Origin) : List ℕ :=
  (scheduler.granted.filter fun grant => grant.2 = origin).map Prod.fst

/-- The calls that the scheduler has for an origin, queued or with a slot on its way. -/
def listing (origin : Origin) : List ℕ :=
  (scheduler.queueOf origin).map Waiter.call ++ scheduler.grantedFor origin

/-- The slots whose permits have been made. -/
def slots (origin : Origin) : ℕ :=
  scheduler.activeOf origin - (scheduler.grantedFor origin).length

end Scheduler

/-- The permit of the call has been made and its slot is not released. -/
def AcquireCall.holds (origin : Origin) (call : AcquireCall Origin) : ℕ :=
  if call.origin = origin ∧ (call.permit = .held ∨ call.permit = .closing) then 1 else 0

/-- The limits of an origin, and the order of its queues. -/
structure OriginState.WithinLimits (limits : SchedulerLimits) (arrivals : ℕ)
    (state : OriginState) : Prop where
  length : state.waiters.length = 8
  active_le : state.active ≤ limits.maxActive
  queued_le : state.queue.length ≤ limits.maxQueued
  full : state.queue ≠ [] → state.active = limits.maxActive
  early : ∀ w ∈ state.queue, w.arrival < arrivals
  ordered : Ordered Waiter.urgency Waiter.arrival 0 state.waiters

structure Scheduler.WellFormed (limits : SchedulerLimits) (scheduler : Scheduler Origin) :
    Prop where
  states : ∀ origin state, scheduler.origins origin = some state →
    state.WithinLimits limits scheduler.arrivals ∧ state.isIdle = false
  granted_le : ∀ origin,
    (scheduler.grantedFor origin).length ≤ scheduler.activeOf origin
  nodup : ∀ origin, (scheduler.listing origin).Nodup

namespace OriginState

variable {limits : SchedulerLimits} {arrivals : ℕ} {state : OriginState}

theorem withinLimits_start (limits : SchedulerLimits) (arrivals : ℕ) :
    WithinLimits limits arrivals {} := by
  refine ⟨by decide, Nat.zero_le _, Nat.zero_le _, fun hne => absurd ?_ hne, ?_,
    ordered_replicate _ _ 8⟩
  · decide
  · intro w hw
    simp [queue] at hw

theorem isIdle_eq_false : state.isIdle = false ↔ state.active ≠ 0 ∨ state.queue ≠ [] := by
  rw [isIdle, decide_eq_false_iff_not, not_and_or]

theorem WithinLimits.later (h : state.WithinLimits limits arrivals) {later : ℕ}
    (hle : arrivals ≤ later) : state.WithinLimits limits later :=
  ⟨h.length, h.active_le, h.queued_le, h.full, fun w hw => (h.early w hw).trans_le hle, h.ordered⟩

/-- Waiters leave the queues, and the number of active requests stays or nobody waits. -/
theorem WithinLimits.leave (h : state.WithinLimits limits arrivals) {active : ℕ}
    {waiters : List (List Waiter)} (hsub : List.Forall₂ List.Sublist waiters state.waiters)
    (hactive : active ≤ state.active) (hsame : active = state.active ∨ waiters.flatten = []) :
    WithinLimits limits arrivals { active := active, waiters := waiters } := by
  have hqueue : waiters.flatten.Sublist state.queue := sublist_flatten hsub
  refine ⟨hsub.length_eq.trans h.length, hactive.trans h.active_le,
    hqueue.length_le.trans h.queued_le, fun hne => ?_, fun w hw => h.early w (hqueue.subset hw),
    h.ordered.of_sublists hsub⟩
  rcases hsame with hsame | hempty
  · refine hsame.trans (h.full fun hnil => hne ?_)
    rw [hnil] at hqueue
    exact List.sublist_nil.mp hqueue
  · exact absurd hempty hne

/-- A waiter is queued at an origin whose slots are all taken. -/
theorem WithinLimits.enqueue (h : state.WithinLimits limits arrivals)
    (hfull : ¬ state.active < limits.maxActive) (hroom : ¬ limits.maxQueued ≤ state.queue.length)
    (i : ℕ) (urgency : Fin 8) :
    WithinLimits limits (arrivals + 1)
        { state with waiters := push urgency ⟨i, urgency, arrivals⟩ state.waiters } ∧
      (push urgency ⟨i, urgency, arrivals⟩ state.waiters).flatten.Perm
        (⟨i, urgency, arrivals⟩ :: state.queue) := by
  have hperm := push_perm (urgency.isLt.trans_eq h.length.symm) (⟨i, urgency, arrivals⟩ : Waiter)
  refine ⟨⟨?_, h.active_le, ?_, fun _ => ?_, fun w hw => ?_, ?_⟩, hperm⟩
  · exact (push_length _ _ _).trans h.length
  · unfold queue at hroom ⊢
    rw [hperm.length_eq, List.length_cons]
    omega
  · have hle := h.active_le
    dsimp only
    omega
  · rcases List.mem_cons.mp (hperm.subset hw) with rfl | hold
    · exact Nat.lt_succ_self _
    · exact Nat.lt_succ_of_lt (h.early w hold)
  · exact h.ordered.push (Nat.zero_add _).symm h.early

end OriginState

/-! ### The locked parts and what they keep -/

namespace Scheduler

variable {limits : SchedulerLimits} {scheduler : Scheduler Origin} {origin : Origin}

omit [DecidableEq Origin] in
theorem activeOf_eq {state : OriginState} (h : scheduler.origins origin = some state) :
    scheduler.activeOf origin = state.active := by
  rw [activeOf, h, Option.elim_some]

omit [DecidableEq Origin] in
theorem queueOf_eq {state : OriginState} (h : scheduler.origins origin = some state) :
    scheduler.queueOf origin = state.queue := by
  rw [queueOf, h, Option.elim_some]

omit [DecidableEq Origin] in
theorem activeOf_eq_getD :
    scheduler.activeOf origin = ((scheduler.origins origin).getD {}).active := by
  unfold activeOf
  cases scheduler.origins origin <;> rfl

omit [DecidableEq Origin] in
theorem queueOf_eq_getD :
    scheduler.queueOf origin = ((scheduler.origins origin).getD {}).queue := by
  unfold queueOf
  cases scheduler.origins origin <;> rfl

theorem origins_replace (state : Option OriginState) (other : Origin) :
    (scheduler.replace origin state).origins other =
      if other = origin then state else scheduler.origins other :=
  Function.update_apply _ _ _ _

/-- What the scheduler has of an origin whose state is replaced, removed if idle or not. -/
theorem elim_replace {β : Type} {none' : β} {f : OriginState → β} {state : OriginState}
    {next : Option OriginState}
    (hnext : next = some state ∨ state.isIdle = true ∧ next = none ∧ f state = none')
    (other : Origin) :
    ((scheduler.replace origin next).origins other).elim none' f =
      if other = origin then f state else (scheduler.origins other).elim none' f := by
  rw [origins_replace]
  split_ifs
  · rcases hnext with rfl | ⟨-, rfl, hidle⟩
    · rfl
    · exact hidle.symm
  · rfl

theorem activeOf_replace (state : OriginState) (other : Origin) :
    (scheduler.replace origin (some state)).activeOf other =
      if other = origin then state.active else scheduler.activeOf other :=
  elim_replace (Or.inl rfl) other

theorem queueOf_replace (state : OriginState) (other : Origin) :
    (scheduler.replace origin (some state)).queueOf other =
      if other = origin then state.queue else scheduler.queueOf other :=
  elim_replace (Or.inl rfl) other

theorem activeOf_replace_of_eq {active : ℕ} {waiters : List (List Waiter)}
    (h : active = scheduler.activeOf origin) (other : Origin) :
    (scheduler.replace origin (some ⟨active, waiters⟩)).activeOf other =
      scheduler.activeOf other := by
  rw [activeOf_replace]
  split_ifs with hsame
  · rw [hsame, h]
  · rfl

theorem queueOf_replace_of_eq {active : ℕ} {waiters : List (List Waiter)}
    (h : waiters.flatten = scheduler.queueOf origin) (other : Origin) :
    (scheduler.replace origin (some ⟨active, waiters⟩)).queueOf other =
      scheduler.queueOf other := by
  rw [queueOf_replace]
  split_ifs with hsame
  · exact h.trans (congrArg _ hsame.symm)
  · rfl

theorem activeOf_putUnlessIdle (state : OriginState) (other : Origin) :
    (scheduler.putUnlessIdle origin state).activeOf other =
      if other = origin then state.active else scheduler.activeOf other := by
  apply elim_replace
  by_cases hidle : state.isIdle = true
  · exact Or.inr ⟨hidle, if_pos hidle, (of_decide_eq_true hidle).1⟩
  · exact Or.inl (if_neg hidle)

theorem queueOf_putUnlessIdle (state : OriginState) (other : Origin) :
    (scheduler.putUnlessIdle origin state).queueOf other =
      if other = origin then state.queue else scheduler.queueOf other := by
  apply elim_replace
  by_cases hidle : state.isIdle = true
  · exact Or.inr ⟨hidle, if_pos hidle, (of_decide_eq_true hidle).2⟩
  · exact Or.inl (if_neg hidle)

/-- The state that an origin has or gets is within the limits. -/
theorem WellFormed.withinLimits (h : scheduler.WellFormed limits) (origin : Origin) :
    ((scheduler.origins origin).getD {}).WithinLimits limits scheduler.arrivals := by
  cases hstate : scheduler.origins origin with
  | none => exact OriginState.withinLimits_start limits _
  | some state => exact (h.states origin state hstate).1

/-- The states of the origins after one of them was replaced. -/
theorem states_replace (h : scheduler.WellFormed limits) {arrivals : ℕ}
    (hlater : scheduler.arrivals ≤ arrivals) {state : OriginState}
    (hwithin : state.WithinLimits limits arrivals) (hbusy : state.isIdle = false) :
    ∀ other found, (scheduler.replace origin (some state)).origins other = some found →
      found.WithinLimits limits arrivals ∧ found.isIdle = false := by
  intro other found hfound
  rw [origins_replace] at hfound
  split_ifs at hfound
  · obtain rfl := Option.some.inj hfound
    exact ⟨hwithin, hbusy⟩
  · obtain ⟨hother, hidle⟩ := h.states other found hfound
    exact ⟨hother.later hlater, hidle⟩

theorem states_putUnlessIdle (h : scheduler.WellFormed limits) {state : OriginState}
    (hwithin : state.WithinLimits limits scheduler.arrivals) :
    ∀ other found, (scheduler.putUnlessIdle origin state).origins other = some found →
      found.WithinLimits limits scheduler.arrivals ∧ found.isIdle = false := by
  unfold putUnlessIdle
  split_ifs with hidle
  · intro other found hfound
    unfold replace at hfound
    dsimp only at hfound
    rw [Function.update_apply] at hfound
    split_ifs at hfound
    exact h.states other found hfound
  · exact states_replace h le_rfl hwithin (Bool.eq_false_iff.mpr hidle)

/-- The call that joins, at the origin where it does. -/
def joined (i : ℕ) (joins : Option Origin) (origin : Origin) : List ℕ :=
  if joins = some origin then [i] else []

@[simp] theorem joined_none (i : ℕ) (origin : Origin) : joined i none origin = [] := rfl

/-- One slot of an origin. -/
def oneSlot (origin : Option Origin) (other : Origin) : ℕ := if origin = some other then 1 else 0

@[simp] theorem oneSlot_none (other : Origin) : oneSlot none other = 0 := rfl

theorem oneSlot_self (origin : Origin) : oneSlot (some origin) origin = 1 := if_pos rfl

theorem length_joined (i : ℕ) (joins : Option Origin) (origin : Origin) :
    (joined i joins origin).length = oneSlot joins origin := by
  unfold joined oneSlot
  split_ifs <;> rfl

/-- A locked part in terms of the call that joins the scheduler, and of the
origins where it takes a slot back from a permit and where a permit is made. -/
structure Books (limits : SchedulerLimits) (before after : Scheduler Origin) (i : ℕ)
    (joins taken made : Option Origin) : Prop where
  wellFormed : after.WellFormed limits
  closed : after.closed = before.closed
  slots : ∀ origin, after.slots origin + oneSlot taken origin =
    before.slots origin + oneSlot made origin
  listing : ∀ origin, ∀ j ∈ after.listing origin, j ∈ before.listing origin ++ joined i joins origin
  queue : ∀ origin, ∀ w ∈ after.queueOf origin,
    w ∈ before.queueOf origin ∨ w.call = i ∧ joins = some origin

theorem Books.refl (h : scheduler.WellFormed limits) (i : ℕ) :
    Books limits scheduler scheduler i none none none :=
  ⟨h, rfl, fun _ => rfl, fun _ _ hj => List.mem_append_left _ hj, fun _ _ hw => Or.inl hw⟩

/-- What there is to show of a locked part: who is listed comes from before, up
to the order, and the slots on their way are among the active ones. -/
theorem Books.of_listing (h : scheduler.WellFormed limits) {after : Scheduler Origin} {i : ℕ}
    {joins taken made : Option Origin}
    (hnew : ∀ origin, joins = some origin → i ∉ scheduler.listing origin)
    (hclosed : after.closed = scheduler.closed)
    (hstates : ∀ origin state, after.origins origin = some state →
      state.WithinLimits limits after.arrivals ∧ state.isIdle = false)
    (hslots : ∀ origin, (after.grantedFor origin).length ≤ after.activeOf origin ∧
      after.slots origin + oneSlot taken origin = scheduler.slots origin + oneSlot made origin)
    (hlisting : ∀ origin, ∃ listed : List ℕ, listed.Perm (after.listing origin) ∧
      listed.Sublist (scheduler.listing origin ++ joined i joins origin))
    (hqueue : ∀ origin, ∀ w ∈ after.queueOf origin,
      w ∈ scheduler.queueOf origin ∨ w.call = i ∧ joins = some origin) :
    Books limits scheduler after i joins taken made := by
  refine ⟨⟨hstates, fun origin => (hslots origin).1, fun origin => ?_⟩, hclosed,
    fun origin => (hslots origin).2, fun origin j hj => ?_, hqueue⟩
  · obtain ⟨listed, hperm, hsub⟩ := hlisting origin
    refine hperm.nodup_iff.mp (List.Nodup.sublist hsub ?_)
    refine List.nodup_append.mpr ⟨h.nodup origin, ?_, fun a ha b hb => ?_⟩
    · unfold joined
      split_ifs <;> simp
    · unfold joined at hb
      split_ifs at hb with hjoins
      · rintro rfl
        rw [List.mem_singleton.mp hb] at ha
        exact hnew origin hjoins ha
      · cases hb
  · obtain ⟨listed, hperm, hsub⟩ := hlisting origin
    exact hsub.subset (hperm.mem_iff.mpr hj)

theorem grantedFor_append (i : ℕ) (origin other : Origin) (granted : List (ℕ × Origin)) :
    ((granted ++ [(i, origin)]).filter fun grant => grant.2 = other).map Prod.fst =
      (granted.filter fun grant => grant.2 = other).map Prod.fst ++
        joined i (some origin) other := by
  rw [List.filter_append, List.map_append, joined]
  congr 1
  by_cases hsame : origin = other <;> simp [hsame]

/-- A call gets a slot at once. -/
theorem WellFormed.grant (h : scheduler.WellFormed limits) {i : ℕ}
    (hnew : i ∉ scheduler.listing origin) {state : OriginState}
    (hstate : (scheduler.origins origin).getD {} = state)
    (hfree : state.active < limits.maxActive) :
    Books limits scheduler
      { scheduler.replace origin (some { state with active := state.active + 1 }) with
        granted := scheduler.granted ++ [(i, origin)] } i (some origin) none none := by
  have hwithin : state.WithinLimits limits scheduler.arrivals := hstate ▸ h.withinLimits origin
  have hempty : state.queue = [] := by
    by_contra hne
    exact absurd (hwithin.full hne) (Nat.ne_of_lt hfree)
  generalize hafter : ({ scheduler.replace origin (some { state with active := state.active + 1 })
    with granted := scheduler.granted ++ [(i, origin)] } : Scheduler Origin) = after
  have hactive : ∀ other, after.activeOf other =
      scheduler.activeOf other + oneSlot (some origin) other := by
    intro other
    have hreplace : after.activeOf other =
        if other = origin then state.active + 1 else scheduler.activeOf other :=
      hafter ▸ activeOf_replace _ other
    rw [hreplace, oneSlot]
    by_cases hsame : other = origin
    · rw [if_pos hsame, if_pos (congrArg some hsame.symm), hsame, activeOf_eq_getD, hstate]
    · rw [if_neg hsame, if_neg fun heq => hsame (Option.some.inj heq).symm, Nat.add_zero]
  have hqueueOf : state.waiters.flatten = scheduler.queueOf origin := by
    rw [queueOf_eq_getD, hstate, OriginState.queue]
  have hqueue : ∀ other, after.queueOf other = scheduler.queueOf other :=
    fun other => hafter ▸ queueOf_replace_of_eq hqueueOf other
  have hgranted : ∀ other, after.grantedFor other =
      scheduler.grantedFor other ++ joined i (some origin) other :=
    fun other => hafter ▸ grantedFor_append i origin other scheduler.granted
  refine Books.of_listing h ?_ (hafter ▸ rfl) ?_ (fun other => ?_) (fun other => ?_) ?_
  · rintro other heq
    rwa [← Option.some.inj heq]
  · subst hafter
    refine states_replace h le_rfl ?_ ?_
    · exact ⟨hwithin.length, hfree, hwithin.queued_le, fun hne => absurd hempty hne, hwithin.early,
        hwithin.ordered⟩
    · rw [OriginState.isIdle_eq_false]
      exact Or.inl (Nat.succ_ne_zero _)
  · have hle := h.granted_le other
    unfold slots
    rw [hactive, hgranted, List.length_append, length_joined]
    omega
  · refine ⟨_, List.Perm.refl _, ?_⟩
    rw [listing, listing, hqueue, hgranted, List.append_assoc]
  · intro other w hw
    rw [hqueue] at hw
    exact Or.inl hw

/-- A call waits at an origin whose slots are taken. -/
theorem WellFormed.enqueue (h : scheduler.WellFormed limits) {i : ℕ}
    (hnew : i ∉ scheduler.listing origin) {state : OriginState}
    (hstate : (scheduler.origins origin).getD {} = state)
    (hfull : ¬ state.active < limits.maxActive) (hroom : ¬ limits.maxQueued ≤ state.queue.length)
    (urgency : Fin 8) :
    Books limits scheduler
      { scheduler.replace origin (some { state with
          waiters := push urgency ⟨i, urgency, scheduler.arrivals⟩ state.waiters }) with
        arrivals := scheduler.arrivals + 1 } i (some origin) none none := by
  have hwithin : state.WithinLimits limits scheduler.arrivals := hstate ▸ h.withinLimits origin
  obtain ⟨hnext, hperm⟩ := hwithin.enqueue hfull hroom i urgency
  generalize hwaiter : (⟨i, urgency, scheduler.arrivals⟩ : Waiter) = waiter at hnext hperm ⊢
  generalize hafter : ({ scheduler.replace origin (some { state with
      waiters := push urgency waiter state.waiters }) with
    arrivals := scheduler.arrivals + 1 } : Scheduler Origin) = after
  have hof : state.active = scheduler.activeOf origin := by rw [activeOf_eq_getD, hstate]
  have hactive : ∀ other, after.activeOf other = scheduler.activeOf other :=
    fun other => hafter ▸ activeOf_replace_of_eq hof other
  have hqueue : ∀ other, (after.queueOf other).Perm
      (if other = origin then waiter :: scheduler.queueOf other else scheduler.queueOf other) := by
    intro other
    have hreplace : after.queueOf other =
        if other = origin then (push urgency waiter state.waiters).flatten
        else scheduler.queueOf other :=
      hafter ▸ queueOf_replace _ other
    rw [hreplace]
    split_ifs with hsame
    · rw [hsame, queueOf_eq_getD, hstate]
      exact hperm
    · exact List.Perm.refl _
  have hgranted : ∀ other, after.grantedFor other = scheduler.grantedFor other :=
    fun other => hafter ▸ rfl
  refine Books.of_listing h ?_ (hafter ▸ rfl) ?_ (fun other => ?_) (fun other => ?_) ?_
  · rintro other heq
    rwa [← Option.some.inj heq]
  · subst hafter
    refine states_replace h (Nat.le_succ _) hnext ?_
    rw [OriginState.isIdle_eq_false]
    have hpos := limits.maxActive_pos
    left
    dsimp only
    omega
  · unfold slots
    rw [hactive, hgranted]
    exact ⟨h.granted_le other, rfl⟩
  · refine ⟨scheduler.listing other ++ joined i (some origin) other, ?_, List.Sublist.refl _⟩
    refine List.Perm.symm ?_
    unfold listing
    rw [hgranted, joined]
    by_cases hsame : other = origin
    · have hmap := (hqueue other).map Waiter.call
      rw [if_pos hsame, List.map_cons, ← hwaiter] at hmap
      rw [if_pos (congrArg some hsame.symm)]
      refine (hmap.append_right _).trans ?_
      exact (List.perm_append_singleton _ _).symm
    · have hmap := (hqueue other).map Waiter.call
      rw [if_neg hsame] at hmap
      rw [if_neg fun heq => hsame (Option.some.inj heq).symm, List.append_nil]
      exact hmap.append_right _
  · intro other w hw
    have hw := (hqueue other).subset hw
    split_ifs at hw with hsame
    · rcases List.mem_cons.mp hw with rfl | hold
      · exact Or.inr ⟨hwaiter ▸ rfl, congrArg some hsame.symm⟩
      · exact Or.inl hold
    · exact Or.inl hw

/-- A state that the scheduler has anyway. -/
theorem WellFormed.refuse (h : scheduler.WellFormed limits) (i : ℕ) {state : OriginState}
    (hstate : (scheduler.origins origin).getD {} = state)
    (hfull : ¬ state.active < limits.maxActive) :
    Books limits scheduler (scheduler.replace origin (some state)) i none none none := by
  have hpos := limits.maxActive_pos
  have hsome : scheduler.origins origin = some state := by
    cases horigin : scheduler.origins origin with
    | none =>
      rw [horigin] at hstate
      rw [← hstate] at hfull
      exact absurd hpos hfull
    | some found =>
      rw [horigin] at hstate
      exact congrArg some hstate
  have hsame : scheduler.replace origin (some state) = scheduler := by
    unfold replace
    rw [← hsome, Function.update_eq_self]
  rw [hsame]
  exact Books.refl h i

theorem WellFormed.acquire (h : scheduler.WellFormed limits) {i : ℕ}
    (hnew : i ∉ scheduler.listing origin) (urgency : Fin 8) :
    Books limits scheduler (scheduler.acquire limits origin i urgency).1 i
      (if (scheduler.acquire limits origin i urgency).2 = true then some origin else none)
      none none := by
  unfold Scheduler.acquire
  by_cases hclosed : scheduler.closed = true
  · rw [if_pos hclosed]
    exact Books.refl h i
  rw [if_neg hclosed]
  dsimp only
  generalize hstate : (scheduler.origins origin).getD {} = state
  by_cases hfree : state.active < limits.maxActive
  · rw [if_pos hfree]
    exact h.grant hnew hstate hfree
  rw [if_neg hfree]
  by_cases hroom : limits.maxQueued ≤ state.queue.length
  · rw [if_pos hroom]
    exact h.refuse i hstate hfree
  · rw [if_neg hroom]
    exact h.enqueue hnew hstate hfree hroom urgency

/-- Waiters leave the queues of an origin, and a slot that nobody gets is free. -/
theorem WellFormed.leave (h : scheduler.WellFormed limits) (i : ℕ) {state : OriginState}
    (hstate : scheduler.origins origin = some state) {active : ℕ} {waiters : List (List Waiter)}
    {taken : Option Origin} (htaken : ∀ other, taken = some other → other = origin)
    (hsub : List.Forall₂ List.Sublist waiters state.waiters)
    (hactive : active + oneSlot taken origin = state.active)
    (hnobody : taken = none ∨ waiters.flatten = [])
    (hslot : oneSlot taken origin ≤ scheduler.slots origin) :
    Books limits scheduler
      (scheduler.putUnlessIdle origin { active := active, waiters := waiters }) i none taken
      none := by
  have hwithin := (h.states origin state hstate).1
  have hof := activeOf_eq hstate
  have hqueueOf := queueOf_eq hstate
  have hqueue : ∀ other, ((scheduler.putUnlessIdle origin
      { active := active, waiters := waiters }).queueOf other).Sublist
        (scheduler.queueOf other) := by
    intro other
    rw [queueOf_putUnlessIdle]
    split_ifs with hsame
    · rw [hsame, hqueueOf]
      exact sublist_flatten hsub
    · exact List.Sublist.refl _
  have hgranted : ∀ other, (scheduler.putUnlessIdle origin
      { active := active, waiters := waiters }).grantedFor other = scheduler.grantedFor other :=
    fun _ => rfl
  refine Books.of_listing h (by simp) rfl ?_ (fun other => ?_) (fun other => ?_) ?_
  · refine states_putUnlessIdle h (hwithin.leave hsub (by omega) ?_)
    rcases hnobody with hnone | hempty
    · rw [hnone, oneSlot_none, Nat.add_zero] at hactive
      exact Or.inl hactive
    · exact Or.inr hempty
  · have hle := h.granted_le other
    unfold slots at hslot ⊢
    rw [activeOf_putUnlessIdle, hgranted]
    split_ifs with hsame
    · rw [hsame] at hle ⊢
      rw [hof] at hle hslot ⊢
      dsimp only
      rw [oneSlot_none]
      omega
    · have hzero : oneSlot taken other = 0 := if_neg fun heq => hsame (htaken other heq)
      rw [hzero]
      exact ⟨hle, rfl⟩
  · refine ⟨_, List.Perm.refl _, ?_⟩
    unfold listing
    rw [joined_none, List.append_nil, hgranted]
    exact ((hqueue other).map _).append_right _
  · exact fun other w hw => Or.inl ((hqueue other).subset hw)

theorem WellFormed.removeWaiter (h : scheduler.WellFormed limits) (origin : Origin) (i : ℕ) :
    Books limits scheduler (scheduler.removeWaiter origin i) i none none none := by
  unfold Scheduler.removeWaiter
  cases hstate : scheduler.origins origin with
  | none => exact Books.refl h i
  | some state =>
    exact h.leave i hstate (by simp) (sublists_filter _ _) rfl (Or.inl rfl) (Nat.zero_le _)

theorem closed_acquire (limits : SchedulerLimits) (scheduler : Scheduler Origin) (origin : Origin)
    (i : ℕ) (urgency : Fin 8) :
    (scheduler.acquire limits origin i urgency).1.closed = scheduler.closed := by
  unfold Scheduler.acquire
  dsimp only
  split_ifs <;> rfl

theorem closed_removeWaiter (scheduler : Scheduler Origin) (origin : Origin) (i : ℕ) :
    (scheduler.removeWaiter origin i).closed = scheduler.closed := by
  unfold Scheduler.removeWaiter
  split <;> rfl

theorem closed_release (scheduler : Scheduler Origin) (origin : Origin)
    (isActive : Waiter → Bool) : (scheduler.release origin isActive).closed = scheduler.closed := by
  unfold Scheduler.release
  split
  · rfl
  · split <;> rfl

/-- The call is in no queue of the origin any more. -/
theorem not_mem_queueOf_removeWaiter (origin : Origin) (i : ℕ) :
    ∀ w ∈ (scheduler.removeWaiter origin i).queueOf origin, w.call ≠ i := by
  unfold Scheduler.removeWaiter
  cases hstate : scheduler.origins origin with
  | none =>
    intro w hw
    rw [queueOf, hstate] at hw
    cases hw
  | some state =>
    intro w hw
    dsimp only at hw
    rw [queueOf_putUnlessIdle, if_pos rfl] at hw
    unfold OriginState.queue at hw
    dsimp only at hw
    obtain ⟨queue, hqueue, hmem⟩ := List.mem_flatten.mp hw
    obtain ⟨before, -, rfl⟩ := List.mem_map.mp hqueue
    simpa using (List.mem_filter.mp hmem).2

/-- The slot of a closed permit goes to a waiter. -/
theorem WellFormed.handOver (h : scheduler.WellFormed limits) (i : ℕ) {state : OriginState}
    (hstate : scheduler.origins origin = some state) {isActive : Waiter → Bool} {next : Waiter}
    {waiters : List (List Waiter)} (hpop : pop isActive state.waiters = (some next, waiters))
    (hslot : 0 < scheduler.slots origin) :
    Books limits scheduler
      { scheduler.replace origin (some { state with waiters := waiters }) with
        granted := scheduler.granted ++ [(next.call, origin)] } i none (some origin) none := by
  have hwithin := (h.states origin state hstate).1
  have hsub := sublists_pop isActive state.waiters
  obtain ⟨-, dropped, hsplit, -⟩ := pop_eq_some (congrArg Prod.fst hpop)
  rw [hpop] at hsub hsplit
  have hqueueOf : scheduler.queueOf origin = dropped ++ next :: waiters.flatten :=
    (queueOf_eq hstate).trans hsplit
  generalize hafter : ({ scheduler.replace origin (some { state with waiters := waiters }) with
    granted := scheduler.granted ++ [(next.call, origin)] } : Scheduler Origin) = after
  have hactive : ∀ other, after.activeOf other = scheduler.activeOf other :=
    fun other => hafter ▸ activeOf_replace_of_eq (activeOf_eq hstate).symm other
  have hqueue : ∀ other, after.queueOf other =
      if other = origin then waiters.flatten else scheduler.queueOf other :=
    fun other => hafter ▸ queueOf_replace _ other
  have hgranted : ∀ other, after.grantedFor other =
      scheduler.grantedFor other ++ joined next.call (some origin) other :=
    fun other => hafter ▸ grantedFor_append next.call origin other scheduler.granted
  refine Books.of_listing h (by simp) (hafter ▸ rfl) ?_ (fun other => ?_) (fun other => ?_) ?_
  · subst hafter
    refine states_replace h le_rfl (hwithin.leave hsub le_rfl (Or.inl rfl)) ?_
    rw [OriginState.isIdle_eq_false]
    left
    rw [slots, activeOf_eq hstate] at hslot
    dsimp only
    omega
  · have hle := h.granted_le other
    have hroom : oneSlot (some origin) other ≤ scheduler.slots other := by
      unfold oneSlot
      split_ifs with hsame
      · rwa [← Option.some.inj hsame]
      · exact Nat.zero_le _
    unfold slots at hroom ⊢
    rw [hactive, hgranted, List.length_append, length_joined]
    simp only [oneSlot_none]
    omega
  · unfold listing
    rw [joined_none, List.append_nil, hqueue, hgranted]
    by_cases hsame : other = origin
    · rw [if_pos hsame, hsame, hqueueOf, joined, if_pos rfl]
      refine ⟨next.call :: (waiters.flatten.map Waiter.call ++ scheduler.grantedFor origin), ?_, ?_⟩
      · rw [← List.append_assoc]
        exact (List.perm_append_singleton _ _).symm
      · rw [List.map_append, List.append_assoc]
        exact List.sublist_append_right _ _
    · rw [if_neg hsame, joined, if_neg fun heq => hsame (Option.some.inj heq).symm,
        List.append_nil]
      exact ⟨_, List.Perm.refl _, List.Sublist.refl _⟩
  · intro other w hw
    rw [hqueue] at hw
    split_ifs at hw with hsame
    · rw [hsame, hqueueOf]
      exact Or.inl (List.mem_append_right _ (List.mem_cons_of_mem _ hw))
    · exact Or.inl hw

theorem WellFormed.release (h : scheduler.WellFormed limits) (i : ℕ) (isActive : Waiter → Bool)
    (hslot : 0 < scheduler.slots origin) :
    Books limits scheduler (scheduler.release origin isActive) i none (some origin) none := by
  unfold Scheduler.release
  cases hstate : scheduler.origins origin with
  | none =>
    rw [slots, activeOf, hstate, Option.elim_none, Nat.zero_sub] at hslot
    exact absurd hslot (Nat.lt_irrefl 0)
  | some state =>
    dsimp only
    cases hpop : pop isActive state.waiters with
    | mk next waiters =>
      cases next with
      | some next => exact h.handOver i hstate hpop hslot
      | none =>
        obtain ⟨-, hempty⟩ := pop_eq_none (congrArg Prod.fst hpop)
        have hsub := sublists_pop isActive state.waiters
        rw [hpop] at hempty hsub
        have hone := oneSlot_self origin
        have hactive : 0 < state.active := by
          rw [slots, activeOf, hstate, Option.elim_some] at hslot
          omega
        apply h.leave i hstate
        · exact fun other heq => (Option.some.inj heq).symm
        · exact hsub
        · rw [hone]
          omega
        · exact Or.inr hempty
        · rw [hone]
          exact hslot

/-- A permit is made of a slot that was on its way. -/
theorem WellFormed.resume (h : scheduler.WellFormed limits) {i : ℕ}
    (hmem : (i, origin) ∈ scheduler.granted) :
    Books limits scheduler { scheduler with granted := scheduler.granted.erase (i, origin) } i none
        none (some origin) ∧
      ∀ other, i ∉ Scheduler.listing
        { scheduler with granted := scheduler.granted.erase (i, origin) } other ∨
          other ≠ origin := by
  have hperm := List.perm_cons_erase hmem
  have hgranted : ∀ other, (scheduler.grantedFor other).Perm
      (joined i (some origin) other ++
        Scheduler.grantedFor { scheduler with granted := scheduler.granted.erase (i, origin) }
          other) := by
    intro other
    have hmap := (hperm.filter fun grant => grant.2 = other).map Prod.fst
    unfold grantedFor joined
    refine hmap.trans ?_
    by_cases hsame : origin = other <;> simp [hsame]
  constructor
  · refine Books.of_listing h (by simp) rfl (fun other state hstate => h.states other state hstate)
      (fun other => ?_) (fun other => ?_) fun _ _ hw => Or.inl hw
    · have hle := h.granted_le other
      have hcount := (hgranted other).length_eq
      rw [List.length_append, length_joined] at hcount
      unfold slots
      change _ ≤ scheduler.activeOf other ∧ scheduler.activeOf other - _ + _ = _
      rw [oneSlot_none]
      omega
    · refine ⟨_, List.Perm.refl _, ?_⟩
      rw [joined_none, List.append_nil]
      unfold listing grantedFor
      exact ((List.erase_sublist.filter _).map _).append_left _
  · intro other
    by_cases hsame : other = origin
    · left
      have hnodup := h.nodup other
      have hone : joined i (some origin) other = [i] := if_pos (congrArg some hsame.symm)
      have hall := (hgranted other).append_left ((scheduler.queueOf other).map Waiter.call)
      rw [hone, List.singleton_append] at hall
      have hfirst := (hall.trans List.perm_middle).nodup_iff.mp hnodup
      exact (List.nodup_cons.mp hfirst).1
    · exact Or.inr hsame

/-- A new waiter has the urgency of its call. -/
theorem urgency_of_acquire (h : scheduler.WellFormed limits) {i : ℕ} {urgency : Fin 8}
    {other : Origin} {w : Waiter}
    (hw : w ∈ (scheduler.acquire limits origin i urgency).1.queueOf other) :
    w ∈ scheduler.queueOf other ∨ w.urgency = urgency := by
  have hwithin := h.withinLimits origin
  unfold Scheduler.acquire at hw
  split_ifs at hw with hclosed
  · exact Or.inl hw
  dsimp only at hw
  split_ifs at hw with hfree hroom
  · change w ∈ (scheduler.replace origin _).queueOf other at hw
    rw [queueOf_replace_of_eq queueOf_eq_getD.symm] at hw
    exact Or.inl hw
  · rw [queueOf_replace_of_eq queueOf_eq_getD.symm] at hw
    exact Or.inl hw
  · change w ∈ (scheduler.replace origin _).queueOf other at hw
    rw [queueOf_replace] at hw
    split_ifs at hw with hsame
    · obtain ⟨-, hperm⟩ := hwithin.enqueue hfree hroom i urgency
      rcases List.mem_cons.mp (hperm.subset hw) with rfl | hold
      · exact Or.inr rfl
      · rw [hsame, queueOf_eq_getD]
        exact Or.inl hold
    · exact Or.inl hw

end Scheduler

open Scheduler

/-! ### Calls -/

/-- A permit that is held is on its way to the caller or was returned to it. -/
structure CallInv (call : AcquireCall Origin) : Prop where
  entered : call.phase = .entered →
    call.permit = .absent ∧ call.handler = .unregistered ∧ call.continuation ≠ .completed
  held : call.permit = .held →
    call.phase = .resumed ∨ call.phase = .delivered ∨ call.phase = .returned
  resumed : call.phase = .resumed ∨ call.phase = .delivered → call.permit = .held
  returned : call.phase = .returned → call.permit ≠ .absent
  delivered : call.phase = .delivered → call.cancelled = false
  undiscarded : call.phase ≠ .discarded

/-- Where the scheduler may have a call. -/
structure Placed (scheduler : Scheduler Origin) (i : ℕ) (call : AcquireCall Origin) : Prop where
  listed : ∀ origin, i ∈ scheduler.listing origin →
    call.origin = origin ∧ call.permit = .absent ∧ call.phase ≠ .entered ∧
      call.continuation ≠ .completed
  queued : ∀ origin, ∀ w ∈ scheduler.queueOf origin, w.call = i →
    call.phase = .suspended ∧ call.handler ≠ .done ∧ w.urgency = call.urgency

variable {limits : SchedulerLimits} {scheduler scheduler' : Scheduler Origin} {i j : ℕ}
  {call call' : AcquireCall Origin}

omit [DecidableEq Origin] in
theorem CallInv.with_handler (h : CallInv call) (hphase : call.phase ≠ .entered)
    (handler : HandlerState) : CallInv { call with handler := handler } :=
  ⟨fun hentered => absurd hentered hphase, h.held, h.resumed, h.returned, h.delivered,
    h.undiscarded⟩

theorem mem_listing_of_queued {origin : Origin} {w : Waiter} (hw : w ∈ scheduler.queueOf origin) :
    w.call ∈ scheduler.listing origin :=
  List.mem_append_left _ (List.mem_map_of_mem hw)

theorem mem_listing_of_granted {origin : Origin} (hmem : (i, origin) ∈ scheduler.granted) :
    i ∈ scheduler.listing origin := by
  refine List.mem_append_right _ (List.mem_map.mpr ⟨(i, origin), ?_, rfl⟩)
  exact List.mem_filter.mpr ⟨hmem, decide_eq_true rfl⟩

/-- A locked part for one call leaves the others where they are, or takes them out. -/
theorem Placed.of_books (h : Placed scheduler j call) {joins taken made : Option Origin}
    (hbooks : Books limits scheduler scheduler' i joins taken made) (hne : j ≠ i) :
    Placed scheduler' j call := by
  refine ⟨fun origin hj => ?_, fun origin w hw hcall => ?_⟩
  · rcases List.mem_append.mp (hbooks.listing origin j hj) with hold | hnew
    · exact h.listed origin hold
    · unfold joined at hnew
      split_ifs at hnew
      · exact absurd (List.mem_singleton.mp hnew) hne
      · cases hnew
  · rcases hbooks.queue origin w hw with hold | ⟨hnew, -⟩
    · exact h.queued origin w hold hcall
    · exact absurd (hcall.symm.trans hnew) hne

/-- A call that changes in a way that the scheduler's places for it allow. -/
theorem Placed.of_same (h : Placed scheduler i call) (horigin : call'.origin = call.origin)
    (hurgency : call'.urgency = call.urgency)
    (hlisted : call.permit = .absent → call.phase ≠ .entered → call.continuation ≠ .completed →
      call'.permit = .absent ∧ call'.phase ≠ .entered ∧ call'.continuation ≠ .completed)
    (hwaits : call.phase = .suspended → call.handler ≠ .done →
      call'.phase = .suspended ∧ call'.handler ≠ .done) : Placed scheduler i call' := by
  refine ⟨fun origin hi => ?_, fun origin w hw hcall => ?_⟩
  · obtain ⟨hsame, hpermit, hphase, hcontinuation⟩ := h.listed origin hi
    exact ⟨horigin.trans hsame, hlisted hpermit hphase hcontinuation⟩
  · obtain ⟨hsuspended, hhandler, hof⟩ := h.queued origin w hw hcall
    obtain ⟨hsuspended', hhandler'⟩ := hwaits hsuspended hhandler
    exact ⟨hsuspended', hhandler', hurgency ▸ hof⟩

/-- A call that the scheduler does not have. -/
theorem Placed.of_not_listed (h : ∀ origin, i ∉ scheduler.listing origin) :
    Placed scheduler i call := by
  refine ⟨fun origin hi => absurd hi (h origin), fun origin w hw hcall => ?_⟩
  exact absurd (hcall ▸ mem_listing_of_queued hw) (h origin)

/-- The scheduler does not have a call whose permit is made. -/
theorem Placed.of_permit (h : Placed scheduler i call) (hpermit : call.permit ≠ .absent) :
    Placed scheduler i call' :=
  Placed.of_not_listed fun origin hi => hpermit (h.listed origin hi).2.1

/-- A step of a call, with what it does to the scheduler and to its permit. -/
structure Moves (limits : SchedulerLimits) (i : ℕ) (scheduler scheduler' : Scheduler Origin)
    (call call' : AcquireCall Origin) : Prop where
  books : ∃ joins taken made, Books limits scheduler scheduler' i joins taken made ∧
    ∀ origin, call'.holds origin + oneSlot taken origin = call.holds origin + oneSlot made origin
  inv : CallInv call'
  placed : Placed scheduler' i call'

/-- A step of the call alone. -/
theorem Moves.of_call (h : scheduler.WellFormed limits) (hinv : CallInv call')
    (hplaced : Placed scheduler i call')
    (hholds : ∀ origin, call'.holds origin = call.holds origin) :
    Moves limits i scheduler scheduler call call' :=
  ⟨⟨none, none, none, Books.refl h i, hholds⟩, hinv, hplaced⟩

theorem AcquireCall.holds_congr (horigin : call'.origin = call.origin)
    (hpermit : call'.permit = call.permit) (origin : Origin) :
    call'.holds origin = call.holds origin := by
  unfold AcquireCall.holds
  rw [horigin, hpermit]

/-- The permit is made, or the slot is released. -/
theorem AcquireCall.holds_eq_oneSlot
    (hpermit : call.permit = .held ∨ call.permit = .closing) (origin : Origin) :
    call.holds origin = oneSlot (some call.origin) origin := by
  unfold AcquireCall.holds oneSlot
  by_cases hsame : call.origin = origin
  · rw [if_pos ⟨hsame, hpermit⟩, if_pos (congrArg some hsame)]
  · rw [if_neg fun h => hsame h.1, if_neg fun h => hsame (Option.some.inj h)]

theorem AcquireCall.holds_eq_zero (hpermit : call.permit = .absent ∨ call.permit = .closed)
    (origin : Origin) : call.holds origin = 0 := by
  apply if_neg
  rintro ⟨-, h⟩
  rcases hpermit with h' | h' <;> simp [h'] at h

/-- The call enters the queue, is given a slot, or fails. -/
theorem moves_acquire (h : scheduler.WellFormed limits) (hcall : CallInv call)
    (hplaced : Placed scheduler i call) (hphase : call.phase = .entered) :
    Moves limits i scheduler (scheduler.acquire limits call.origin i call.urgency).1 call
      (if (scheduler.acquire limits call.origin i call.urgency).2
        then { call with phase := .suspended } else call.fail) := by
  obtain ⟨hpermit, hhandler, hcontinuation⟩ := hcall.entered hphase
  have hnew : ∀ origin, i ∉ scheduler.listing origin :=
    fun origin hi => (hplaced.listed origin hi).2.2.1 hphase
  have hbooks := h.acquire (hnew call.origin) call.urgency
  have hurgency : ∀ other,
      ∀ w ∈ (scheduler.acquire limits call.origin i call.urgency).1.queueOf other,
      w ∈ scheduler.queueOf other ∨ w.urgency = call.urgency :=
    fun other w hw => urgency_of_acquire h hw
  cases hgoes : (scheduler.acquire limits call.origin i call.urgency).2 with
  | true =>
    rw [hgoes, if_pos rfl] at hbooks
    rw [if_pos rfl]
    refine ⟨⟨_, _, _, hbooks, ?_⟩, ?_, ⟨fun origin hi => ?_, fun origin w hw hwaiter => ?_⟩⟩
    · exact AcquireCall.holds_congr rfl rfl
    · constructor <;> simp [hpermit]
    · rcases List.mem_append.mp (hbooks.listing origin i hi) with hold | hjoins
      · exact absurd hold (hnew origin)
      · unfold joined at hjoins
        split_ifs at hjoins with hsame
        · exact ⟨Option.some.inj hsame, hpermit, by simp, hcontinuation⟩
        · cases hjoins
    · have hof : w.urgency = call.urgency := by
        apply (hurgency origin w hw).resolve_left
        intro hold
        exact hnew origin (hwaiter ▸ mem_listing_of_queued hold)
      exact ⟨rfl, by simp [hhandler], hof⟩
  | false =>
    rw [hgoes, if_neg Bool.false_ne_true] at hbooks
    rw [if_neg Bool.false_ne_true]
    refine ⟨⟨_, _, _, hbooks, ?_⟩, ?_, Placed.of_not_listed fun origin hi => ?_⟩
    · exact AcquireCall.holds_congr rfl rfl
    · constructor <;> simp [AcquireCall.fail, hpermit]
    · have hold := hbooks.listing origin i hi
      rw [joined_none, List.append_nil] at hold
      exact hnew origin hold

/-- The slot that was on its way becomes a permit. -/
theorem moves_resume (h : scheduler.WellFormed limits) (hplaced : Placed scheduler i call)
    (hmem : (i, call.origin) ∈ scheduler.granted) (hcall' : CallInv call')
    (horigin : call'.origin = call.origin)
    (hpermit : call'.permit = .held ∨ call'.permit = .closing) :
    Moves limits i scheduler { scheduler with granted := scheduler.granted.erase (i, call.origin) }
      call call' := by
  obtain ⟨hbooks, hgone⟩ := h.resume hmem
  obtain ⟨-, habsent, -⟩ := hplaced.listed call.origin (mem_listing_of_granted hmem)
  refine ⟨⟨_, _, _, hbooks, fun origin => ?_⟩, hcall', Placed.of_not_listed fun origin hi => ?_⟩
  · rw [AcquireCall.holds_eq_oneSlot hpermit, AcquireCall.holds_eq_zero (Or.inl habsent), horigin,
      oneSlot_none, Nat.add_zero, Nat.zero_add]
  · rcases hgone origin with hnot | hother
    · exact hnot hi
    · have hold := hbooks.listing origin i hi
      rw [joined_none, List.append_nil] at hold
      exact hother (hplaced.listed origin hold).1.symm

/-- A cancelled call leaves the queue. -/
theorem moves_removeWaiter (h : scheduler.WellFormed limits) (hcall : CallInv call)
    (hplaced : Placed scheduler i call) (hdue : call.handler = .due) :
    Moves limits i scheduler (scheduler.removeWaiter call.origin i) call
      { call with handler := .done } := by
  have hbooks := h.removeWaiter call.origin i
  have hlisting : ∀ origin, i ∈ (scheduler.removeWaiter call.origin i).listing origin →
      i ∈ scheduler.listing origin := by
    intro origin hi
    have hold := hbooks.listing origin i hi
    rwa [joined_none, List.append_nil] at hold
  refine ⟨⟨_, _, _, hbooks, ?_⟩, ?_, ⟨fun origin hi => ?_, fun origin w hw hwaiter => ?_⟩⟩
  · exact AcquireCall.holds_congr rfl rfl
  · apply hcall.with_handler
    intro hphase
    have hhandler := (hcall.entered hphase).2.1
    rw [hdue] at hhandler
    cases hhandler
  · exact hplaced.listed origin (hlisting origin hi)
  · have hi := mem_listing_of_queued hw
    rw [hwaiter] at hi
    obtain ⟨rfl, -⟩ := hplaced.listed origin (hlisting origin hi)
    exact absurd hwaiter (not_mem_queueOf_removeWaiter call.origin i w hw)

/-- The slot of a closed permit is released. -/
theorem moves_release (h : scheduler.WellFormed limits) (hcall : CallInv call)
    (hplaced : Placed scheduler i call)
    (hslots : ∀ origin, call.holds origin ≤ scheduler.slots origin)
    (hclosing : call.permit = .closing) (isActive : Waiter → Bool) :
    Moves limits i scheduler (scheduler.release call.origin isActive) call
      { call with permit := .closed } := by
  have hholds := AcquireCall.holds_eq_oneSlot (Or.inr hclosing)
  have hslot : 0 < scheduler.slots call.origin := by
    apply lt_of_lt_of_le ?_ (hslots call.origin)
    rw [hholds, oneSlot_self]
    exact Nat.zero_lt_one
  have hbooks := h.release i isActive hslot
  refine ⟨⟨_, _, _, hbooks, fun origin => ?_⟩, ?_, Placed.of_not_listed fun origin hi => ?_⟩
  · rw [hholds, AcquireCall.holds_eq_zero (Or.inr rfl), oneSlot_none, Nat.add_zero, Nat.zero_add]
  · refine ⟨fun hphase => ?_, by simp, fun hphase => ?_, by simp, hcall.delivered,
      hcall.undiscarded⟩
    · have habsent := (hcall.entered hphase).1
      rw [hclosing] at habsent
      cases habsent
    · have hheld := hcall.resumed hphase
      rw [hclosing] at hheld
      cases hheld
  · have hold := hbooks.listing origin i hi
    rw [joined_none, List.append_nil] at hold
    have habsent := (hplaced.listed origin hold).2.1
    rw [hclosing] at habsent
    cases habsent

omit [DecidableEq Origin] in
theorem handlerDue_ne_done (h : call.handler ≠ .done) : call.handlerDue ≠ .done := by
  unfold AcquireCall.handlerDue
  split_ifs
  · simp
  · exact h

/-- Every step of a call at an open scheduler, unless its time is over when the
block of `withTimeout` already has the permit. -/
theorem moves_step (h : scheduler.WellFormed limits) (hopen : scheduler.closed = false)
    (hcall : CallInv call) (hplaced : Placed scheduler i call)
    (hslots : ∀ origin, call.holds origin ≤ scheduler.slots origin) {m : AcquireStep}
    (hm : m = .cancel → call.phase ≠ .delivered) {isActive : Waiter → Bool}
    (hstep : call.step limits isActive i scheduler m = some (scheduler', call')) :
    Moves limits i scheduler scheduler' call call' := by
  unfold AcquireCall.step at hstep
  cases m with
  | acquire =>
    dsimp only at hstep
    split_ifs at hstep with hphase hgoes <;> cases hstep
    · have hmoves := moves_acquire h hcall hplaced hphase
      rwa [if_pos hgoes] at hmoves
    · have hmoves := moves_acquire h hcall hplaced hphase
      rwa [if_neg hgoes] at hmoves
  | invokeOnCancellation =>
    dsimp only at hstep
    split_ifs at hstep with hcond hcancelled <;> cases hstep
    · apply Moves.of_call h
      · exact hcall.with_handler hcond.1 _
      · exact hplaced.of_same rfl rfl (fun hp he hc => ⟨hp, he, hc⟩) fun hs _ => ⟨hs, by simp⟩
      · exact AcquireCall.holds_congr rfl rfl
    · apply Moves.of_call h
      · exact hcall.with_handler hcond.1 _
      · exact hplaced.of_same rfl rfl (fun hp he hc => ⟨hp, he, hc⟩) fun hs _ => ⟨hs, by simp⟩
      · exact AcquireCall.holds_congr rfl rfl
  | resume =>
    dsimp only at hstep
    split_ifs at hstep with hmem
    cases hcontinuation : call.continuation with
    | active =>
      rw [hcontinuation] at hstep
      cases hstep
      exact moves_resume h hplaced hmem (by constructor <;> simp) rfl (Or.inl rfl)
    | cancelled =>
      rw [hcontinuation] at hstep
      cases hstep
      obtain ⟨-, habsent, hphase, -⟩ := hplaced.listed call.origin (mem_listing_of_granted hmem)
      refine moves_resume h hplaced hmem ⟨fun he => absurd he hphase, by simp, fun hwhere => ?_,
        by simp, hcall.delivered, hcall.undiscarded⟩ rfl (Or.inr rfl)
      have hheld := hcall.resumed hwhere
      rw [habsent] at hheld
      cases hheld
    | completed =>
      rw [hcontinuation] at hstep
      cases hstep
  | cancel =>
    dsimp only at hstep
    split_ifs at hstep with hended
    cases hstep
    apply Moves.of_call h
    · exact ⟨hcall.entered, hcall.held, hcall.resumed, hcall.returned,
        fun hphase => absurd hphase (hm rfl), hcall.undiscarded⟩
    · exact hplaced.of_same rfl rfl (fun hp he hc => ⟨hp, he, hc⟩) fun hs hd => ⟨hs, hd⟩
    · exact AcquireCall.holds_congr rfl rfl
  | cancelContinuation =>
    dsimp only at hstep
    split_ifs at hstep with hcond
    cases hstep
    apply Moves.of_call h
    · refine ⟨fun hphase => ?_, hcall.held, hcall.resumed, hcall.returned, hcall.delivered,
        hcall.undiscarded⟩
      obtain ⟨hpermit, hhandler, -⟩ := hcall.entered hphase
      exact ⟨hpermit, by simp [AcquireCall.handlerDue, hhandler], by simp⟩
    · exact hplaced.of_same rfl rfl (fun hp he _ => ⟨hp, he, by simp⟩)
        fun hs hd => ⟨hs, handlerDue_ne_done hd⟩
    · exact AcquireCall.holds_congr rfl rfl
  | removeWaiter =>
    dsimp only at hstep
    split_ifs at hstep with hdue
    cases hstep
    exact moves_removeWaiter h hcall hplaced hdue
  | dispatch =>
    dsimp only at hstep
    split_ifs at hstep with hcond hcancelled
    · cases hstep
      have hheld := hcall.resumed (Or.inl hcond.1)
      refine ⟨⟨none, none, none, Books.refl h i, fun origin => ?_⟩, by constructor <;> simp, ?_⟩
      · rw [AcquireCall.holds_eq_oneSlot (Or.inl hheld),
          AcquireCall.holds_eq_oneSlot (Or.inr rfl)]
      · exact hplaced.of_permit (by simp [hheld])
    · cases hstep
      have hheld := hcall.resumed (Or.inl hcond.1)
      apply Moves.of_call h
      · constructor <;> simp [hheld, hcancelled]
      · exact hplaced.of_permit (by simp [hheld])
      · exact AcquireCall.holds_congr rfl rfl
  | complete =>
    dsimp only at hstep
    split_ifs at hstep with hphase hcancelled
    · rw [hcall.delivered hphase] at hcancelled
      cases hcancelled
    · cases hstep
      have hheld := hcall.resumed (Or.inr hphase)
      apply Moves.of_call h
      · constructor <;> simp [hheld]
      · exact hplaced.of_permit (by simp [hheld])
      · exact AcquireCall.holds_congr rfl rfl
  | throwCancellation =>
    dsimp only at hstep
    split_ifs at hstep with hcond
    cases hstep
    obtain ⟨hphase, -, hdone⟩ := hcond
    apply Moves.of_call h
    · refine ⟨by simp, fun hheld => ?_, by simp, by simp, by simp, by simp⟩
      have hwhere := hcall.held hheld
      simp [hphase] at hwhere
    · exact hplaced.of_same rfl rfl (fun hp _ hc => ⟨hp, by simp, hc⟩)
        fun _ hd => absurd hdone hd
    · exact AcquireCall.holds_congr rfl rfl
  | close =>
    dsimp only at hstep
    split_ifs at hstep with hphase hheld
    · cases hstep
      refine ⟨⟨none, none, none, Books.refl h i, fun origin => ?_⟩, ?_, ?_⟩
      · rw [AcquireCall.holds_eq_oneSlot (Or.inl hheld),
          AcquireCall.holds_eq_oneSlot (Or.inr rfl)]
      · constructor <;> simp [hphase]
      · exact hplaced.of_permit (by simp [hheld])
    · cases hstep
      exact Moves.of_call h hcall hplaced fun _ => rfl
  | release =>
    dsimp only at hstep
    split_ifs at hstep with hclosing
    cases hstep
    exact moves_release h hcall hplaced hslots hclosing isActive
  | failClosed =>
    dsimp only at hstep
    rw [hopen] at hstep
    cases hstep

theorem closed_step {m : AcquireStep} {isActive : Waiter → Bool}
    (hstep : call.step limits isActive i scheduler m = some (scheduler', call')) :
    scheduler'.closed = scheduler.closed := by
  unfold AcquireCall.step at hstep
  cases m with
  | acquire =>
    dsimp only at hstep
    split_ifs at hstep <;> cases hstep <;> exact closed_acquire _ _ _ _ _
  | resume =>
    dsimp only at hstep
    split_ifs at hstep
    split at hstep <;> cases hstep <;> rfl
  | removeWaiter =>
    dsimp only at hstep
    split_ifs at hstep
    cases hstep
    exact closed_removeWaiter _ _ _
  | release =>
    dsimp only at hstep
    split_ifs at hstep
    cases hstep
    exact closed_release _ _ _
  | _ =>
    dsimp only at hstep
    split_ifs at hstep <;> cases hstep <;> rfl

/-! ### Runs -/

structure Inv (limits : SchedulerLimits) (s : SchedulerState Origin) : Prop where
  wellFormed : s.shared.WellFormed limits
  calls : ∀ call ∈ s.parties, CallInv call
  placed : ∀ j call, s.parties[j]? = some call → Placed s.shared j call
  bounded : ∀ origin, ∀ j ∈ s.shared.listing origin, j < s.parties.length
  balanced : ∀ origin,
    s.Balanced (fun scheduler => scheduler.slots origin) (AcquireCall.holds origin)

/-- The time of the call is not over when the block of `withTimeout` has the permit. -/
def inTime (s : SchedulerState Origin) : SchedulerStep Url → Bool
  | .call i .cancel => !s.parties[i]?.any fun call => call.phase = .delivered
  | _ => true

variable {originOf : Url → Option Origin} {s s' : SchedulerState Origin}

theorem step_call {m : AcquireStep} :
    step limits originOf s (.call i m) =
      s.move i fun scheduler call => call.step limits (isActive s) i scheduler m :=
  rfl

theorem step_call_eq_some {m : AcquireStep} :
    step limits originOf s (.call i m) = some s' ↔ ∃ call scheduler' call',
      s.parties[i]? = some call ∧
      call.step limits (isActive s) i s.shared m = some (scheduler', call') ∧
      s' = ⟨scheduler', s.parties.set i call'⟩ := by
  rw [step_call]
  exact System.move_eq_some

theorem inv_start (limits : SchedulerLimits) : Inv limits (⟨{}, []⟩ : SchedulerState Origin) := by
  refine ⟨⟨?_, ?_, ?_⟩, ?_, ?_, ?_, ?_⟩
  · rintro _ _ ⟨⟩
  · exact fun _ => le_rfl
  · exact fun _ => List.nodup_nil
  · rintro _ ⟨⟩
  · rintro _ _ ⟨⟩
  · rintro _ _ ⟨⟩
  · exact fun _ => rfl

/-- A step of a call and what it books. -/
theorem Inv.moves (h : Inv limits s) (hopen : s.shared.closed = false) {m : AcquireStep}
    (htime : inTime s (.call i m : SchedulerStep Url) = true) (hcall : s.parties[i]? = some call)
    (hstep : call.step limits (isActive s) i s.shared m = some (scheduler', call')) :
    Moves limits i s.shared scheduler' call call' := by
  have hmem := List.mem_of_getElem? hcall
  apply moves_step h.wellFormed hopen (h.calls call hmem) (h.placed i call hcall)
      (fun origin => (h.balanced origin).weight_le hmem) ?_ hstep
  rintro rfl
  simpa [inTime, hcall] using htime

theorem Inv.move (h : Inv limits s) (hopen : s.shared.closed = false) {m : AcquireStep}
    (htime : inTime s (.call i m : SchedulerStep Url) = true)
    (hstep : step limits originOf s (.call i m) = some s') : Inv limits s' := by
  rw [step_call] at hstep
  have hplaced : ∀ j call, s'.parties[j]? = some call → Placed s'.shared j call := by
    apply @System.forall_getElem_move _ _ s s' i _ Placed h.placed hstep
    intro call scheduler' call' hcall hmove
    have hmoves := h.moves hopen htime hcall hmove
    obtain ⟨_, _, _, hbooks, -⟩ := hmoves.books
    exact ⟨hmoves.placed, fun j other hne hother => hother.of_books hbooks hne⟩
  have hbalanced : ∀ origin,
      s'.Balanced (fun scheduler => scheduler.slots origin) (AcquireCall.holds origin) := by
    intro origin
    apply (h.balanced origin).move hstep
    intro call scheduler' call' hcall hmove
    obtain ⟨_, _, _, hbooks, hholds⟩ := (h.moves hopen htime hcall hmove).books
    have hslots := hbooks.slots origin
    have hpermit := hholds origin
    omega
  obtain ⟨call, scheduler', call', hcall, hmove, rfl⟩ := System.move_eq_some.mp hstep
  have hmoves := h.moves hopen htime hcall hmove
  obtain ⟨_, _, _, hbooks, -⟩ := hmoves.books
  refine ⟨hbooks.wellFormed, fun other hother => ?_, hplaced, fun origin j hj => ?_, hbalanced⟩
  · rcases List.mem_or_eq_of_mem_set hother with hold | rfl
    · exact h.calls other hold
    · exact hmoves.inv
  · dsimp only
    rw [List.length_set]
    rcases List.mem_append.mp (hbooks.listing origin j hj) with hold | hnew
    · exact h.bounded origin j hold
    · unfold joined at hnew
      split_ifs at hnew
      · rw [List.mem_singleton.mp hnew]
        exact (List.getElem?_eq_some_iff.mp hcall).1
      · cases hnew

theorem Inv.acquire (h : Inv limits s) (origin : Origin) (urgency : Fin 8) :
    Inv limits (s.join { origin := origin, urgency := urgency }) := by
  have hstart : CallInv ({ origin := origin, urgency := urgency } : AcquireCall Origin) := by
    constructor <;> simp
  refine ⟨h.wellFormed, ?_, ?_, fun origin j hj => ?_, fun other => ?_⟩
  · exact @System.forall_join _ _ s (fun _ => CallInv) h.calls _ hstart
  · apply @System.forall_getElem_join _ _ s Placed h.placed
    apply Placed.of_not_listed
    intro other hj
    exact absurd (h.bounded other _ hj) (Nat.lt_irrefl _)
  · exact (h.bounded origin j hj).trans_le (by simp [System.join])
  · exact (h.balanced other).join (AcquireCall.holds_eq_zero (Or.inl rfl) other)

/-- The invariant is kept as long as the scheduler is open. -/
theorem Inv.step (h : s.shared.closed = false → Inv limits s) {label : SchedulerStep Url}
    (htime : inTime s label = true) (hstep : step limits originOf s label = some s')
    (hopen : s'.shared.closed = false) : Inv limits s' := by
  cases label with
  | acquire url urgency =>
    unfold RequestScheduler.step at hstep
    dsimp only at hstep
    cases horigin : originOf url with
    | none =>
      rw [horigin] at hstep
      cases hstep
      exact h hopen
    | some origin =>
      rw [horigin] at hstep
      cases hstep
      exact (h hopen).acquire origin urgency
  | call i m =>
    have hbefore : s.shared.closed = false := by
      obtain ⟨call, scheduler', call', -, hmove, rfl⟩ := step_call_eq_some.mp hstep
      rw [← closed_step hmove]
      exact hopen
    exact (h hbefore).move hbefore htime hstep
  | close =>
    unfold RequestScheduler.step at hstep
    split_ifs at hstep with hclosed
    · cases hstep
      exact h hopen
    · cases hstep
      cases hopen

theorem run_inv {labels : List (SchedulerStep Url)}
    (hrun : Transition.run (step limits originOf) ⟨{}, []⟩ labels = some s)
    (htime : Transition.Meets (step limits originOf) (fun s label => inTime s label = true) ⟨{}, []⟩
      labels) : s.shared.closed = false → Inv limits s := by
  apply Transition.run_invariant ?_ hrun htime fun _ => inv_start limits
  exact fun _ _ _ h htime hstep hopen => Inv.step h htime hstep hopen

/-! ### What callers can rely on -/

/-- Who gets the slot of a closed permit. -/
inductive HandedOver (isActive : Waiter → Bool) (before after : Scheduler Origin)
    (origin : Origin) : Prop
  | waiter (next : Waiter) (mem : next ∈ before.queueOf origin) (active : isActive next = true)
      (first : ∀ w ∈ before.queueOf origin, isActive w = true →
        w = next ∨ Before Waiter.urgency Waiter.arrival next w)
      (granted : after.granted = before.granted ++ [(next.call, origin)])
      (taken : after.activeOf origin = before.activeOf origin)
  | nobody (none : ∀ w ∈ before.queueOf origin, isActive w = false)
      (granted : after.granted = before.granted)
      (free : after.activeOf origin + 1 = before.activeOf origin)

theorem Scheduler.WellFormed.handedOver {origin : Origin} (h : scheduler.WellFormed limits)
    (isActive : Waiter → Bool) (hslot : 0 < scheduler.slots origin) :
    HandedOver isActive scheduler (scheduler.release origin isActive) origin := by
  have hactive : 0 < scheduler.activeOf origin := hslot.trans_le (Nat.sub_le _ _)
  unfold Scheduler.release
  cases hstate : scheduler.origins origin with
  | none =>
    rw [activeOf, hstate] at hactive
    exact absurd hactive (Nat.lt_irrefl 0)
  | some state =>
    have hof := activeOf_eq hstate
    have hqueueOf : scheduler.queueOf origin = state.waiters.flatten := queueOf_eq hstate
    dsimp only
    cases hpop : pop isActive state.waiters with
    | mk next waiters =>
      cases next with
      | some next =>
        have hnext : (pop isActive state.waiters).1 = some next := congrArg Prod.fst hpop
        obtain ⟨hpass, dropped, hsplit, -⟩ := pop_eq_some hnext
        refine HandedOver.waiter next ?_ hpass ?_ rfl ?_
        · rw [hqueueOf, hsplit]
          exact List.mem_append_right _ List.mem_cons_self
        · rw [hqueueOf]
          exact (h.states origin state hstate).1.ordered.pop_least hnext
        · rw [hof]
          exact (activeOf_replace _ origin).trans (if_pos rfl)
      | none =>
        obtain ⟨hnobody, -⟩ := pop_eq_none (congrArg Prod.fst hpop)
        refine HandedOver.nobody ?_ rfl ?_
        · rwa [hqueueOf]
        · rw [activeOf_putUnlessIdle, if_pos rfl, hof]
          rw [hof] at hactive
          exact Nat.succ_pred_eq_of_pos hactive

/-- No call for the origin goes on by itself: what is left are timeouts and
cancellations, and the callers that close their permits. -/
def AtRest (limits : SchedulerLimits) (origin : Origin) (s : SchedulerState Origin) : Prop :=
  ∀ (i : ℕ) (call : AcquireCall Origin), s.parties[i]? = some call → call.origin = origin →
    ∀ m : AcquireStep, m ≠ .cancel → m ≠ .close →
      call.step limits (isActive s) i s.shared m = none

/-- What holds of the scheduler as long as it is open. -/
structure Admits (limits : SchedulerLimits) (originOf : Url → Option Origin)
    (s : SchedulerState Origin) : Prop where
  /-- Slots on their way to a call, and permits whose slots are not released. -/
  active : ∀ origin, s.shared.activeOf origin =
    (s.shared.grantedFor origin).length + total (AcquireCall.holds origin) s.parties
  active_le : ∀ origin, s.shared.activeOf origin ≤ limits.maxActive
  queued_le : ∀ origin, (s.shared.queueOf origin).length ≤ limits.maxQueued
  full : ∀ origin, s.shared.queueOf origin ≠ [] → s.shared.activeOf origin = limits.maxActive
  /-- A waiter is a call that is suspended, with the urgency of that call. -/
  waiter : ∀ origin, ∀ w ∈ s.shared.queueOf origin, ∃ call, s.parties[w.call]? = some call ∧
    call.origin = origin ∧ call.phase = .suspended ∧ w.urgency = call.urgency
  /-- A call waits once, or has a slot on its way. -/
  once : ∀ origin, (s.shared.listing origin).Nodup
  handedOver : ∀ i s', step limits originOf s (.call i .release) = some s' →
    ∃ call, s.parties[i]? = some call ∧ HandedOver (isActive s) s.shared s'.shared call.origin
  close_again : ∀ (i : ℕ) call, s.parties[i]? = some call → call.phase = .returned →
    call.permit ≠ .held → step limits originOf s (.call i .close) = some s
  resumes : ∀ origin, ∀ i ∈ s.shared.grantedFor origin,
    ∃ s', step limits originOf s (.call i .resume) = some s'
  kept : ∀ call ∈ s.parties, call.permit = .held →
    call.phase = .resumed ∨ call.phase = .delivered ∨ call.phase = .returned
  /-- When the returned permits are closed and nobody waits, nothing is left. -/
  gone : ∀ origin, AtRest limits origin s →
    (∀ call ∈ s.parties, call.origin = origin → call.phase = .returned → call.permit = .closed) →
    s.shared.queueOf origin = [] → s.shared.origins origin = none

theorem exists_step_resume (hmem : (i, call.origin) ∈ scheduler.granted)
    (hcontinuation : call.continuation ≠ .completed) (isActive : Waiter → Bool) :
    ∃ next, call.step limits isActive i scheduler .resume = some next := by
  unfold AcquireCall.step
  dsimp only
  rw [if_pos hmem]
  cases hstate : call.continuation with
  | active => exact ⟨_, rfl⟩
  | cancelled => exact ⟨_, rfl⟩
  | completed => exact absurd hstate hcontinuation

/-- A call with a slot on its way can be resumed. -/
theorem Inv.resumes (h : Inv limits s) {origin : Origin} (hi : i ∈ s.shared.grantedFor origin) :
    ∃ call next, s.parties[i]? = some call ∧ call.origin = origin ∧
      call.step limits (isActive s) i s.shared .resume = some next := by
  have hlisted : i ∈ s.shared.listing origin := List.mem_append_right _ hi
  have hcall := List.getElem?_eq_getElem (h.bounded origin i hlisted)
  obtain ⟨hsame, -, -, hcontinuation⟩ := (h.placed i _ hcall).listed origin hlisted
  obtain ⟨⟨j, other⟩, hgrant, rfl⟩ := List.mem_map.mp hi
  obtain ⟨hmem, hother⟩ := List.mem_filter.mp hgrant
  obtain rfl : other = origin := of_decide_eq_true hother
  obtain ⟨next, hnext⟩ :=
    @exists_step_resume _ _ limits _ _ _ (hsame ▸ hmem) hcontinuation (isActive s)
  exact ⟨_, next, hcall, hsame, hnext⟩

/-- A permit that is made is released or returned before the call is at rest. -/
theorem CallInv.settled (h : CallInv call) {isActive : Waiter → Bool}
    (hrest : ∀ m : AcquireStep, m ≠ .cancel → m ≠ .close →
      call.step limits isActive i scheduler m = none)
    (hreturned : call.phase = .returned → call.permit = .closed) (origin : Origin) :
    call.holds origin = 0 := by
  apply AcquireCall.holds_eq_zero
  cases hpermit : call.permit with
  | absent => exact Or.inl rfl
  | closed => exact Or.inr rfl
  | closing =>
    have hrelease := hrest .release (by simp) (by simp)
    simp [AcquireCall.step, hpermit] at hrelease
  | held =>
    exfalso
    rcases h.held hpermit with hphase | hphase | hphase
    · by_cases hhandler : call.handler = .unregistered
      · have hregister := hrest .invokeOnCancellation (by simp) (by simp)
        simp [AcquireCall.step, hphase, hhandler] at hregister
      · have hdispatch := hrest .dispatch (by simp) (by simp)
        unfold AcquireCall.step at hdispatch
        dsimp only at hdispatch
        rw [if_pos ⟨hphase, hhandler⟩] at hdispatch
        split_ifs at hdispatch
    · have hcomplete := hrest .complete (by simp) (by simp)
      simp [AcquireCall.step, hphase] at hcomplete
    · have hclosed := hreturned hphase
      rw [hpermit] at hclosed
      cases hclosed

theorem Inv.active (h : Inv limits s) (origin : Origin) : s.shared.activeOf origin =
    (s.shared.grantedFor origin).length + total (AcquireCall.holds origin) s.parties := by
  have hslots : s.shared.slots origin = total (AcquireCall.holds origin) s.parties :=
    h.balanced origin
  have hle := h.wellFormed.granted_le origin
  rw [← hslots, slots]
  omega

theorem Inv.gone (h : Inv limits s) {origin : Origin} (hrest : AtRest limits origin s)
    (hreturned : ∀ call ∈ s.parties, call.origin = origin → call.phase = .returned →
      call.permit = .closed)
    (hqueue : s.shared.queueOf origin = []) : s.shared.origins origin = none := by
  have hgranted : s.shared.grantedFor origin = [] := by
    apply List.eq_nil_iff_forall_not_mem.mpr
    intro i hi
    obtain ⟨call, next, hcall, hsame, hnext⟩ := h.resumes hi
    rw [hrest i call hcall hsame .resume (by simp) (by simp)] at hnext
    cases hnext
  have hholds : total (AcquireCall.holds origin) s.parties = 0 := by
    apply total_eq_zero
    intro call hcall
    by_cases hsame : call.origin = origin
    · obtain ⟨i, hi⟩ := List.mem_iff_getElem?.mp hcall
      exact (h.calls call hcall).settled (hrest i call hi hsame) (hreturned call hcall hsame) origin
    · exact if_neg fun hholds => hsame hholds.1
  have hactive := h.active origin
  rw [hgranted, hholds] at hactive
  cases hstate : s.shared.origins origin with
  | none => rfl
  | some state =>
    have hbusy := (h.wellFormed.states origin state hstate).2
    rw [OriginState.isIdle_eq_false] at hbusy
    rw [activeOf, hstate] at hactive
    rw [queueOf, hstate] at hqueue
    rcases hbusy with hne | hne
    · exact absurd hactive hne
    · exact absurd hqueue hne

theorem Inv.handedOver (h : Inv limits s)
    (hstep : RequestScheduler.step limits originOf s (.call i .release) = some s') :
    ∃ call, s.parties[i]? = some call ∧
      HandedOver (isActive s) s.shared s'.shared call.origin := by
  obtain ⟨call, scheduler', call', hcall, hmove, rfl⟩ := step_call_eq_some.mp hstep
  refine ⟨call, hcall, ?_⟩
  unfold AcquireCall.step at hmove
  dsimp only at hmove
  split_ifs at hmove with hclosing
  cases hmove
  apply h.wellFormed.handedOver
  have hle := (h.balanced call.origin).weight_le (List.mem_of_getElem? hcall)
  rw [AcquireCall.holds_eq_oneSlot (Or.inr hclosing), oneSlot_self] at hle
  exact hle

theorem Inv.admits (h : Inv limits s) (originOf : Url → Option Origin) :
    Admits limits originOf s where
  active := h.active
  active_le origin := by
    rw [activeOf_eq_getD]
    exact (h.wellFormed.withinLimits origin).active_le
  queued_le origin := by
    rw [queueOf_eq_getD]
    exact (h.wellFormed.withinLimits origin).queued_le
  full origin hne := by
    rw [queueOf_eq_getD] at hne
    rw [activeOf_eq_getD]
    exact (h.wellFormed.withinLimits origin).full hne
  waiter origin w hw := by
    have hlisted := mem_listing_of_queued hw
    have hcall := List.getElem?_eq_getElem (h.bounded origin w.call hlisted)
    obtain ⟨hsuspended, -, hurgency⟩ := (h.placed _ _ hcall).queued origin w hw rfl
    exact ⟨_, hcall, ((h.placed _ _ hcall).listed origin hlisted).1, hsuspended, hurgency⟩
  once := h.wellFormed.nodup
  handedOver i s' hstep := h.handedOver hstep
  close_again i call hcall hphase hpermit := by
    refine step_call_eq_some.mpr ⟨call, s.shared, call, hcall, ?_, ?_⟩
    · unfold AcquireCall.step
      dsimp only
      rw [if_pos hphase, if_neg hpermit]
    · obtain ⟨hlt, rfl⟩ := List.getElem?_eq_some_iff.mp hcall
      rw [List.set_getElem_self]
  resumes origin i hi := by
    obtain ⟨call, next, hcall, -, hnext⟩ := h.resumes hi
    exact ⟨_, step_call_eq_some.mpr ⟨call, next.1, next.2, hcall, hnext, rfl⟩⟩
  kept call hcall := (h.calls call hcall).held
  gone _ hrest hreturned hqueue := h.gone hrest hreturned hqueue

/-- In every run in which no call is cancelled, by its time or its caller, when
its block has the permit. -/
theorem run_admits {labels : List (SchedulerStep Url)}
    (hrun : Transition.run (step limits originOf) ⟨{}, []⟩ labels = some s)
    (htime : Transition.Meets (step limits originOf) (fun s label => inTime s label = true) ⟨{}, []⟩
      labels)
    (hopen : s.shared.closed = false) : Admits limits originOf s :=
  (run_inv hrun htime hopen).admits originOf

/-- One request at a time, and two that wait. -/
def oneActive : SchedulerLimits := ⟨1, 2, Nat.one_pos⟩

def exampleOrigin (url : String) : Option String :=
  if url = "https://example.com/" then some "https://example.com:443" else none

/-- A call gets the slot that is free, and its caller the permit. -/
def firstCall : List (SchedulerStep String) :=
  [.acquire "https://example.com/" 3, .call 0 .acquire, .call 0 .resume,
    .call 0 .invokeOnCancellation, .call 0 .dispatch]

/-- The first call closes its permit while two others wait. The second one's
time is over; the third one is more urgent and has the slot. -/
def urgentRun : List (SchedulerStep String) :=
  firstCall ++ [.call 0 .complete,
    .acquire "https://example.com/" 7, .call 1 .acquire, .call 1 .invokeOnCancellation,
    .acquire "https://example.com/" 0, .call 2 .acquire, .call 2 .invokeOnCancellation,
    .call 0 .close, .call 0 .release, .call 1 .cancel, .call 1 .cancelContinuation,
    .call 2 .resume, .call 1 .removeWaiter, .call 1 .throwCancellation,
    .call 2 .dispatch, .call 2 .complete]

theorem run_admits_urgent :
    ∃ s, Transition.run (step oneActive exampleOrigin) ⟨{}, []⟩ urgentRun = some s ∧
      s.parties.map AcquireCall.phase = [.returned, .failed, .returned] ∧
      Admits oneActive exampleOrigin s := by
  obtain ⟨s, hrun, hs⟩ := Option.map_eq_some_iff.mp
    (show (Transition.run (step oneActive exampleOrigin) ⟨{}, []⟩ urgentRun).map
        (fun s => (s.shared.closed, s.parties.map AcquireCall.phase)) =
      some (false, [.returned, .failed, .returned]) by decide +kernel)
  obtain ⟨hopen, hphases⟩ := Prod.ext_iff.mp hs
  exact ⟨s, hrun, hphases, run_admits hrun (by decide +kernel) hopen⟩

/-- The time of the only call is over when its block has the permit. The permit
is never closed, and the slot stays taken. -/
theorem run_discards_permit :
    ∃ s, Transition.run (step oneActive exampleOrigin) ⟨{}, []⟩
        (firstCall ++ [.call 0 .cancel, .call 0 .complete]) = some s ∧
      s.shared.closed = false ∧ s.shared.activeOf "https://example.com:443" = 1 ∧
      s.shared.queueOf "https://example.com:443" = [] ∧
      s.parties.map AcquireCall.phase = [.discarded] ∧ ¬ Admits oneActive exampleOrigin s := by
  obtain ⟨s, hrun, hs⟩ := Option.map_eq_some_iff.mp
    (show (Transition.run (step oneActive exampleOrigin) ⟨{}, []⟩
        (firstCall ++ [.call 0 .cancel, .call 0 .complete])).map
        (fun s => (s.shared.closed, s.shared.activeOf "https://example.com:443",
          s.shared.queueOf "https://example.com:443",
          s.parties.map fun call => (call.phase, call.permit))) =
      some (false, 1, [], [(.discarded, .held)]) by decide +kernel)
  simp only [Prod.mk.injEq] at hs
  obtain ⟨hopen, hactive, hqueue, hcalls⟩ := hs
  obtain ⟨call, hparties, hcall⟩ := List.map_eq_singleton_iff.mp hcalls
  obtain ⟨hphase, hpermit⟩ := Prod.ext_iff.mp hcall
  refine ⟨s, hrun, hopen, hactive, hqueue, ?_, fun hadmits => ?_⟩
  · rw [hparties, List.map_singleton]
    exact congrArg (fun phase => [phase]) hphase
  · have hkept := hadmits.kept call (hparties ▸ List.mem_singleton_self call) hpermit
    dsimp only at hphase
    simp [hphase] at hkept

end RequestScheduler

end KatHttp3
