import KatHttp3.Library.Transition
import Mathlib.Algebra.Group.Nat.Defs
import Mathlib.Data.List.Basic
import Mathlib.Logic.Function.Basic
import Mathlib.Tactic.SplitIfs

/-!
# Wakeups for receive credit

The protocol between the callers of `consume` and the worker of a connection. A
caller queues its credit and asks for a wakeup under `consume_mutex_`, and writes
the eventfd after it has released the mutex, if no other wakeup is on its way. The
worker polls the eventfd, drains it, and takes the queue under the mutex.
-/

namespace KatHttp3

/-! ### The parties -/

structure WakeupCoalescer where
  pending : Bool := false
  deriving DecidableEq

namespace WakeupCoalescer

def request (coalescer : WakeupCoalescer) : WakeupCoalescer × Bool :=
  ({ pending := true }, !coalescer.pending)

def reset (_ : WakeupCoalescer) : WakeupCoalescer := { pending := false }

end WakeupCoalescer

/-- Where the event loop is. -/
inductive LoopPhase
  /-- It has not seen a wakeup since the last swap. -/
  | polling
  /-- `poll` has reported the eventfd. -/
  | woken
  /-- `drain_wakeup` has read the eventfd, and the swap is still to come. -/
  | drained
  deriving DecidableEq

/-- The greatest count of an eventfd; a write beyond it fails. -/
def eventfdMax : ℕ := 2 ^ 64 - 2

/-- A connection whose `wakeup_fd_` is an eventfd. -/
structure WakeupState where
  pendingConsumes : List (ℕ × ℕ) := []
  creditWakeup : WakeupCoalescer := {}
  eventCount : ℕ := 0
  worker : LoopPhase := .polling
  /-- The calls of `consume` that have released the mutex, with their `should_wake`. -/
  callers : ℕ → Option Bool := fun _ => none
  /-- What the worker has taken over. -/
  credited : List (ℕ × ℕ) := []

inductive WakeupStep
  /-- The locked part of a call of `consume`. -/
  | consume (caller streamId bytes : ℕ)
  /-- The rest of that call. -/
  | finishConsume (caller : ℕ)
  /-- A wakeup for another reason. -/
  | wakeup
  | poll
  /-- A read of `drain_wakeup`, which may find nothing. -/
  | drainWakeup
  /-- The locked part of `process_wakeup`. -/
  | processWakeup
  deriving DecidableEq

namespace WakeupState

variable (s : WakeupState)

def readable : Prop := 0 < s.eventCount

def wakeup : WakeupState :=
  if s.eventCount < eventfdMax then { s with eventCount := s.eventCount + 1 } else s

def step (s : WakeupState) : WakeupStep → Option WakeupState
  | .consume caller streamId bytes =>
    match s.callers caller with
    | some _ => none
    | none =>
      let (creditWakeup, shouldWake) := s.creditWakeup.request
      some
        { s with
          pendingConsumes := s.pendingConsumes ++ [(streamId, bytes)]
          creditWakeup := creditWakeup
          callers := Function.update s.callers caller (some shouldWake) }
  | .finishConsume caller =>
    match s.callers caller with
    | none => none
    | some shouldWake =>
      let returned := { s with callers := Function.update s.callers caller none }
      some (if shouldWake then returned.wakeup else returned)
  | .wakeup => some s.wakeup
  | .poll =>
    if s.worker = .polling ∧ 0 < s.eventCount then some { s with worker := .woken } else none
  | .drainWakeup =>
    if s.worker = .polling then none else some { s with eventCount := 0, worker := .drained }
  | .processWakeup =>
    if s.worker = .drained then
      some
        { s with
          pendingConsumes := []
          creditWakeup := s.creditWakeup.reset
          worker := .polling
          credited := s.credited ++ s.pendingConsumes }
    else none

/-! ### No wakeup is lost -/

/-- A call of `consume` is going to write the eventfd. -/
def HasWriter : Prop := ∃ caller, s.callers caller = some true

/-- The worker is about to take the queue, or will be woken to do so. -/
def Awaited : Prop := s.readable ∨ s.worker = .drained ∨ s.HasWriter

/-- The flag of the coalescer says that there is a wakeup for what is queued. -/
structure Coalesced : Prop where
  queued : s.pendingConsumes ≠ [] → s.creditWakeup.pending = true
  awaited : s.creditWakeup.pending = true → s.Awaited
  woken : s.worker = .woken → s.readable

variable {s}

theorem wakeup_readable (s : WakeupState) : s.wakeup.readable := by
  unfold wakeup readable
  split_ifs with hmax
  · apply Nat.succ_pos
  · have hpos : 0 < eventfdMax := by decide
    omega

theorem Coalesced.wakeup (hqueued : s.pendingConsumes ≠ [] → s.creditWakeup.pending = true) :
    s.wakeup.Coalesced := by
  have hreadable := wakeup_readable s
  constructor
  · intro hpending
    unfold WakeupState.wakeup at hpending ⊢
    split_ifs at hpending ⊢
    · exact hqueued hpending
    · exact hqueued hpending
  · intro _
    exact .inl hreadable
  · intro _
    exact hreadable

/-- A caller that is not going to write is not awaited. -/
theorem Awaited.update {caller : ℕ} (h : s.Awaited) (hcaller : s.callers caller ≠ some true)
    (next : Option Bool) :
    Awaited { s with callers := Function.update s.callers caller next } := by
  rcases h with hreadable | hdrained | ⟨writer, hwriter⟩
  · exact .inl hreadable
  · exact .inr (.inl hdrained)
  · right
    right
    refine ⟨writer, ?_⟩
    have hne : writer ≠ caller := by
      rintro rfl
      exact hcaller hwriter
    simpa [Function.update_of_ne hne] using hwriter

theorem Coalesced.consume {caller : ℕ} (h : s.Coalesced) (hcaller : s.callers caller = none)
    (entry : ℕ × ℕ) :
    ({ s with
        pendingConsumes := s.pendingConsumes ++ [entry]
        creditWakeup := s.creditWakeup.request.1
        callers := Function.update s.callers caller (some s.creditWakeup.request.2) } :
      WakeupState).Coalesced := by
  constructor
  · intro _
    rfl
  · intro _
    cases hflag : s.creditWakeup.pending with
    | false =>
      -- this call has won the request
      right
      right
      refine ⟨caller, ?_⟩
      simp [WakeupCoalescer.request, hflag]
    | true =>
      have hidle : s.callers caller ≠ some true := by simp [hcaller]
      exact (h.awaited hflag).update hidle _
  · intro hwoken
    exact h.woken hwoken

/-- A call that has not won the request returns. -/
theorem Coalesced.returns {caller : ℕ} (h : s.Coalesced) (hcaller : s.callers caller = some false) :
    ({ s with callers := Function.update s.callers caller none } : WakeupState).Coalesced := by
  refine ⟨h.queued, ?_, h.woken⟩
  intro hflag
  have hloser : s.callers caller ≠ some true := by simp [hcaller]
  exact (h.awaited hflag).update hloser none

theorem Coalesced.step {s' : WakeupState} {label : WakeupStep} (h : s.Coalesced)
    (hstep : s.step label = some s') : s'.Coalesced := by
  cases label with
  | consume caller streamId bytes =>
    cases hcaller : s.callers caller with
    | some shouldWake => simp [WakeupState.step, hcaller] at hstep
    | none =>
      simp only [WakeupState.step, hcaller] at hstep
      obtain rfl := Option.some.inj hstep
      exact h.consume hcaller (streamId, bytes)
  | finishConsume caller =>
    cases hcaller : s.callers caller with
    | none => simp [WakeupState.step, hcaller] at hstep
    | some shouldWake =>
      simp only [WakeupState.step, hcaller] at hstep
      obtain rfl := Option.some.inj hstep
      cases shouldWake with
      | true => exact Coalesced.wakeup h.queued
      | false => exact h.returns hcaller
  | wakeup =>
    obtain rfl := Option.some.inj hstep
    exact Coalesced.wakeup h.queued
  | poll =>
    simp only [WakeupState.step] at hstep
    split_ifs at hstep with hpoll
    obtain rfl := Option.some.inj hstep
    refine ⟨h.queued, ?_, ?_⟩
    · intro _
      exact .inl hpoll.2
    · intro _
      exact hpoll.2
  | drainWakeup =>
    simp only [WakeupState.step] at hstep
    split_ifs at hstep with hpolling
    obtain rfl := Option.some.inj hstep
    refine ⟨h.queued, ?_, nofun⟩
    intro _
    exact .inr (.inl rfl)
  | processWakeup =>
    simp only [WakeupState.step] at hstep
    split_ifs at hstep with hdrained
    obtain rfl := Option.some.inj hstep
    exact ⟨fun h => absurd rfl h, nofun, nofun⟩

theorem coalesced_of_run {s' : WakeupState} {labels : List WakeupStep}
    (hrun : Transition.run WakeupState.step {} labels = some s') : s'.Coalesced := by
  apply Transition.run_invariant_of_step (fun _ _ _ h hstep => h.step hstep) hrun
  exact ⟨fun h => absurd rfl h, nofun, nofun⟩

/-- Credit that is queued has a wakeup: the eventfd is readable, the worker is on its way to
the queue, or a caller is about to write; while the worker polls, it is one of the
other two. -/
theorem queuedCredit_awaited {labels : List WakeupStep} {s' : WakeupState}
    (hrun : Transition.run WakeupState.step {} labels = some s') (hqueued : s'.pendingConsumes ≠ []) :
    (s'.readable ∨ s'.worker = .drained ∨ ∃ caller, s'.callers caller = some true) ∧
      (s'.worker = .polling → s'.readable ∨ ∃ caller, s'.callers caller = some true) := by
  have hcoalesced := coalesced_of_run hrun
  have hawaited := hcoalesced.awaited (hcoalesced.queued hqueued)
  refine ⟨hawaited, ?_⟩
  intro hpolling
  rcases hawaited with hreadable | hdrained | hwriter
  · exact .inl hreadable
  · rw [hpolling] at hdrained
    cases hdrained
  · exact .inr hwriter

/-- Two callers, of which the second relies on the wakeup of the first. -/
theorem queuedCredit_awaited_second :
    ∃ s', Transition.run WakeupState.step {}
        [.consume 0 4 100, .consume 1 8 50, .finishConsume 1] = some s' ∧
      s'.pendingConsumes = [(4, 100), (8, 50)] ∧
        (s'.worker = .polling → s'.readable ∨ ∃ caller, s'.callers caller = some true) := by
  have hrun : Transition.run WakeupState.step {}
      [.consume 0 4 100, .consume 1 8 50, .finishConsume 1] = some _ := rfl
  exact ⟨_, hrun, rfl, (queuedCredit_awaited hrun (List.cons_ne_nil _ _)).2⟩

end WakeupState

end KatHttp3
