import KatHttp3.Engine.Pool
import Mathlib.Logic.Function.Basic

/-!
# Steps of the pool

What each operation changes, and the steps that a call and a task can take.
-/

namespace KatHttp3

open CallStacks

/-! ### What the operations change -/

namespace PoolCore

variable {core : PoolCore} {id : ℤ}

theorem clients_updateClient (core : PoolCore) (c : ℕ) (f : PoolClient → PoolClient) (k : ℕ) :
    (core.updateClient c f).clients k = if k = c then f (core.clients c) else core.clients k :=
  Function.update_apply ..

theorem registry_erase (core : PoolCore) (id x : ℤ) :
    (core.erase id).registry x = if x = id then none else core.registry x :=
  Function.update_apply ..

theorem registry_register (core : PoolCore) (id x : ℤ) (client : Option ℕ) :
    (core.register id client).registry x =
      if x = id then some { client := client } else core.registry x :=
  Function.update_apply ..

@[simp] theorem registry_cancel (entry : PoolEntry) :
    (core.cancel id entry).registry = (core.erase id).registry := by
  unfold cancel
  cases entry.client <;> rfl

@[simp] theorem pool_cancel (entry : PoolEntry) : (core.cancel id entry).pool = core.pool := by
  unfold cancel
  cases entry.client <;> rfl

@[simp] theorem callback_cancel (entry : PoolEntry) :
    (core.cancel id entry).callback = core.callback := by
  unfold cancel
  cases entry.client <;> rfl

@[simp] theorem registry_hear (event : AppEvent) :
    (core.hear id event).registry = core.registry := by
  unfold hear
  split_ifs <;> rfl

@[simp] theorem pool_hear (event : AppEvent) : (core.hear id event).pool = core.pool := by
  unfold hear
  split_ifs <;> rfl

@[simp] theorem callback_hear (event : AppEvent) :
    (core.hear id event).callback = core.callback := by
  unfold hear
  split_ifs <;> rfl

theorem registry_terminate (event : AppEvent) (entry : PoolEntry) (x : ℤ) :
    (core.terminate id event entry).registry x =
      if x = id then some { entry with terminal := true } else core.registry x :=
  Function.update_apply ..

@[simp] theorem clients_terminate (event : AppEvent) (entry : PoolEntry) :
    (core.terminate id event entry).clients = core.clients := by
  unfold terminate
  split_ifs <;> rfl

@[simp] theorem pool_terminate (event : AppEvent) (entry : PoolEntry) :
    (core.terminate id event entry).pool = core.pool := by
  unfold terminate
  split_ifs <;> rfl

@[simp] theorem callback_terminate (event : AppEvent) (entry : PoolEntry) :
    (core.terminate id event entry).callback = core.callback := by
  unfold terminate
  split_ifs <;> rfl

@[simp] theorem ended_hear (event : AppEvent) : (core.hear id event).ended = core.ended := by
  unfold hear
  split_ifs <;> rfl

@[simp] theorem ended_cancel (entry : PoolEntry) :
    (core.cancel id entry).ended = id :: core.ended := by
  unfold cancel
  cases entry.client <;> rfl

theorem ended_terminate (event : AppEvent) (entry : PoolEntry) :
    (core.terminate id event entry).ended =
      if event = .complete then core.ended else id :: core.ended := by
  unfold terminate
  split_ifs <;> rfl

/-- A lookup changes nothing but the pool. -/
theorem getOrCreateClient_shared (core : PoolCore) (admission : AdmissionConfig) (origin : Url) :
    ∃ pool created, (core.getOrCreateClient admission origin).1 =
      { core with pool := pool, created := created } := by
  unfold getOrCreateClient
  dsimp only
  split
  · exact ⟨core.pool, core.created, rfl⟩
  · split_ifs
    · exact ⟨_, core.created, rfl⟩
    · exact ⟨_, _, rfl⟩

end PoolCore

/-! ### What a step can do -/

/-- All that the next step of a call can do. -/
inductive PoolCall.Advances (admission : AdmissionConfig) (t : ℕ) (core : PoolCore) :
    Outcome → PoolCall → PoolCore → Option PoolCall → Prop
  | executeEntered {outcome id origin} (free : core.lifecycle = none) :
      Advances admission t core outcome (.execute id origin .entering)
        { core with lifecycle := some t } (some (.execute id origin .choosing))
  | executeFailed {id origin} :
      Advances admission t core .refused (.execute id origin .choosing) core
        (some (.execute id origin .telling))
  | executeCached {id origin} :
      Advances admission t core .cached (.execute id origin .choosing) (core.register id none)
        (some (.execute id origin .queueing))
  | executeLooked {outcome id origin} (valid : outcome ≠ .refused) (missed : outcome ≠ .cached) :
      Advances admission t core outcome (.execute id origin .choosing)
        (core.getOrCreateClient admission origin).1
        (some (.execute id origin
          ((core.getOrCreateClient admission origin).2.elim .telling .registering)))
  | executeRefused {id origin} :
      Advances admission t core .refused (.execute id origin .queueing) (core.erase id)
        (some (.execute id origin .telling))
  | executeReturned {outcome id origin phase} (last : phase = .queueing ∨ phase = .telling) :
      Advances admission t core outcome (.execute id origin phase) core.unlockLifecycle none
  | executeRegistered {outcome id origin k} :
      Advances admission t core outcome (.execute id origin (.registering k))
        (core.register id (some k)) (some (.execute id origin (.submitting k)))
  | executeSubmitted {outcome id origin k} :
      Advances admission t core outcome (.execute id origin (.submitting k))
        (core.submitJob k id).unlockLifecycle none
  | cancelEntered {outcome id} (free : core.lifecycle = none) :
      Advances admission t core outcome (.cancel id .entering) { core with lifecycle := some t }
        (some (.cancel id .locking))
  | cancelLocked {outcome id lock} (acquired : core.callback.acquire t = some lock) :
      Advances admission t core outcome (.cancel id .locking) { core with callback := lock }
        (some (.cancel id .checking))
  | cancelIgnored {outcome id}
      (gone : ∀ entry, core.registry id = some entry → entry.terminal = true) :
      Advances admission t core outcome (.cancel id .checking)
        core.unlockCallback.unlockLifecycle none
  | cancelErased {outcome id entry} (found : core.registry id = some entry)
      (live : entry.terminal = false) :
      Advances admission t core outcome (.cancel id .checking) (core.cancel id entry)
        (some (.cancel id .releasing))
  | cancelReleased {outcome id} :
      Advances admission t core outcome (.cancel id .releasing) core.unlockLifecycle
        (some (.cancel id .invoking))
  | cancelInvoked {outcome id} :
      Advances admission t core outcome (.cancel id .invoking) core (some (.cancel id .calling))
  | cancelReturned {outcome id} :
      Advances admission t core outcome (.cancel id .calling) core.unlockCallback none

/-- All that the next step of a worker or of the cache dispatcher can do. -/
inductive PoolTask.Advances (admission : AdmissionConfig) (t : ℕ) (core : PoolCore)
    (role : ThreadRole) : Outcome → PoolTask → PoolCore → Option PoolTask → Prop
  | deliverLocked {outcome id event rest lock} (acquired : core.callback.acquire t = some lock) :
      Advances admission t core role outcome (.deliver id event rest .entering)
        { core with callback := lock } (some (.deliver id event rest .checking))
  | deliverIgnored {outcome id event rest}
      (gone : ∀ entry, core.registry id = some entry → entry.terminal = true) :
      Advances admission t core role outcome (.deliver id event rest .checking)
        (core.hear id event).unlockCallback (PoolTask.next id rest)
  | deliverErased {outcome id event rest phase} (before : phase = .checking ∨ phase = .erasing) :
      Advances admission t core role outcome (.deliver id event rest phase)
        ((core.erase id).hear id event).unlockCallback (PoolTask.next id rest)
  | deliverEnds {outcome id event rest entry} (found : core.registry id = some entry)
      (live : entry.terminal = false) (uncancelled : entry.cancelled = false)
      (terminal : event.isTerminal = true) :
      Advances admission t core role outcome (.deliver id event rest .checking)
        (core.terminate id event entry) (some (.deliver id event rest .invoking))
  | deliverSpeaks {outcome id event rest} (unended : event.isTerminal = false) :
      Advances admission t core role outcome (.deliver id event rest .checking) core
        (some (.deliver id event rest .invoking))
  | deliverInvoked {outcome id event rest} :
      Advances admission t core role outcome (.deliver id event rest .invoking) core
        (some (.deliver id event rest .calling))
  | deliverEnded {outcome id event rest} (terminal : event.isTerminal = true) :
      Advances admission t core role outcome (.deliver id event rest .calling) core
        (some (.deliver id event rest .erasing))
  | deliverReturned {outcome id event rest} (unended : event.isTerminal = false) :
      Advances admission t core role outcome (.deliver id event rest .calling) core.unlockCallback
        (PoolTask.next id rest)
  | hopCached {number id target} :
      Advances admission t core role .cached (.hop number id (.choosing target)) core
        (some (.hop number id (.recording none)))
  | hopLooked {outcome number id target} (missed : outcome ≠ .cached) :
      Advances admission t core role outcome (.hop number id (.choosing target))
        (core.getOrCreateClient admission target).1
        ((core.getOrCreateClient admission target).2.elim
          (PoolTask.next id [.error .connectionLimit])
          fun c => some (.hop number id (.recording (some c))))
  | hopRecorded {outcome number id k client} (worker : role = .worker k) :
      Advances admission t core role outcome (.hop number id (.recording client))
        (core.record k number id client)
        (some (.hop number id (client.elim .queueing .submitting)))
  | hopQueued {outcome number id} :
      Advances admission t core role outcome (.hop number id .queueing) core
        (if outcome = .refused then PoolTask.next id [.error .nomem] else none)
  | hopSubmitted {outcome number id c} :
      Advances admission t core role outcome (.hop number id (.submitting c)) (core.submitJob c id)
        none

section

variable {admission : AdmissionConfig} {t : ℕ} {core core' : PoolCore} {outcome : Outcome}

theorem PoolCore.lockLifecycle_cases (h : core.lockLifecycle t = some core') :
    core.lifecycle = none ∧ core' = { core with lifecycle := some t } := by
  unfold PoolCore.lockLifecycle at h
  split at h
  · rename_i hfree
    cases h
    exact ⟨hfree, rfl⟩
  · cases h

theorem PoolCore.lockCallback_cases (h : core.lockCallback t = some core') :
    ∃ lock, core.callback.acquire t = some lock ∧ core' = { core with callback := lock } := by
  obtain ⟨lock, hlock, heq⟩ := Option.map_eq_some_iff.mp h
  exact ⟨lock, hlock, heq.symm⟩

namespace PoolCall

variable {call : PoolCall} {after : Option PoolCall}

theorem advanceExecute_cases {id : ℤ} {origin : Url} {phase : HandoverPhase}
    (h : advanceExecute admission t core id origin outcome phase = some (core', after)) :
    Advances admission t core outcome (.execute id origin phase) core' after := by
  cases phase with
  | entering =>
    obtain ⟨locked, hlock, heq⟩ := Option.map_eq_some_iff.mp h
    obtain ⟨hfree, rfl⟩ := PoolCore.lockLifecycle_cases hlock
    cases heq
    exact .executeEntered hfree
  | choosing =>
    unfold advanceExecute at h
    dsimp only at h
    split at h
    · cases h
      exact .executeFailed
    · cases h
      exact .executeCached
    · rename_i hrefused hcached
      have hlooked : Advances admission t core outcome (.execute id origin .choosing) _ _ :=
        .executeLooked hrefused hcached
      cases hget : core.getOrCreateClient admission origin with
      | mk found client =>
        rw [hget] at h hlooked
        cases client with
        | none =>
          cases h
          exact hlooked
        | some k =>
          cases h
          exact hlooked
  | queueing =>
    unfold advanceExecute at h
    dsimp only at h
    split_ifs at h with hrefused
    · cases h
      rw [hrefused]
      exact .executeRefused
    · cases h
      exact .executeReturned (.inl rfl)
  | registering k =>
    cases h
    exact .executeRegistered
  | submitting k =>
    cases h
    exact .executeSubmitted
  | telling =>
    cases h
    exact .executeReturned (.inr rfl)

theorem advanceCancel_cases {id : ℤ} {phase : CancelPhase}
    (h : advanceCancel t core id phase = some (core', after)) :
    Advances admission t core outcome (.cancel id phase) core' after := by
  cases phase with
  | entering =>
    obtain ⟨locked, hlock, heq⟩ := Option.map_eq_some_iff.mp h
    obtain ⟨hfree, rfl⟩ := PoolCore.lockLifecycle_cases hlock
    cases heq
    exact .cancelEntered hfree
  | locking =>
    obtain ⟨locked, hlock, heq⟩ := Option.map_eq_some_iff.mp h
    obtain ⟨lock, hacquired, rfl⟩ := PoolCore.lockCallback_cases hlock
    cases heq
    exact .cancelLocked hacquired
  | checking =>
    unfold advanceCancel at h
    dsimp only at h
    split at h
    · rename_i hnone
      cases h
      refine .cancelIgnored fun entry hentry => ?_
      rw [hnone] at hentry
      cases hentry
    · rename_i entry hfound
      split_ifs at h with hterminal
      · cases h
        refine .cancelIgnored fun other hother => ?_
        rw [hfound] at hother
        cases hother
        exact hterminal
      · cases h
        exact .cancelErased hfound (by simpa using hterminal)
  | releasing =>
    cases h
    exact .cancelReleased
  | invoking =>
    cases h
    exact .cancelInvoked
  | calling =>
    cases h
    exact .cancelReturned

theorem advance_cases (h : call.advance admission t core outcome = some (core', after)) :
    Advances admission t core outcome call core' after := by
  cases call with
  | execute id origin phase => exact advanceExecute_cases h
  | cancel id phase => exact advanceCancel_cases h

end PoolCall

namespace PoolTask

variable {role : ThreadRole} {task : PoolTask} {after : Option PoolTask}

theorem advanceDeliver_cases {id : ℤ} {event : AppEvent} {rest : List AppEvent}
    {phase : DeliverPhase}
    (h : advanceDeliver t core id event rest phase = some (core', after)) :
    Advances admission t core role outcome (.deliver id event rest phase) core' after := by
  cases phase with
  | entering =>
    obtain ⟨locked, hlock, heq⟩ := Option.map_eq_some_iff.mp h
    obtain ⟨lock, hacquired, rfl⟩ := PoolCore.lockCallback_cases hlock
    cases heq
    exact .deliverLocked hacquired
  | checking =>
    unfold advanceDeliver at h
    dsimp only at h
    split at h
    · rename_i hnone
      cases h
      refine .deliverIgnored fun entry hentry => ?_
      rw [hnone] at hentry
      cases hentry
    · rename_i entry hfound
      split_ifs at h with hended hcancelled hterminal
      · cases h
        refine .deliverIgnored fun other hother => ?_
        rw [hfound] at hother
        cases hother
        exact hended
      · cases h
        exact .deliverErased (.inl rfl)
      · cases h
        exact .deliverEnds hfound (by simpa using hended) (by simpa using hcancelled) hterminal
      · cases h
        exact .deliverSpeaks (by simpa using hterminal)
  | invoking =>
    cases h
    exact .deliverInvoked
  | calling =>
    unfold advanceDeliver at h
    dsimp only at h
    split_ifs at h with hterminal
    · cases h
      exact .deliverEnded hterminal
    · cases h
      exact .deliverReturned (by simpa using hterminal)
  | erasing =>
    cases h
    exact .deliverErased (.inr rfl)

theorem advanceHop_cases {k number : ℕ} {id : ℤ} {phase : HopPhase} (hworker : role = .worker k)
    (h : advanceHop admission core k number id outcome phase = some (core', after)) :
    Advances admission t core role outcome (.hop number id phase) core' after := by
  cases phase with
  | choosing target =>
    unfold advanceHop at h
    dsimp only at h
    split_ifs at h with hcached
    · cases h
      rw [hcached]
      exact .hopCached
    · have hlooked :
          Advances admission t core role outcome (.hop number id (.choosing target)) _ _ :=
        .hopLooked hcached
      cases hget : core.getOrCreateClient admission target with
      | mk found client =>
        rw [hget] at h hlooked
        cases client with
        | none =>
          cases h
          exact hlooked
        | some c =>
          cases h
          exact hlooked
  | recording client =>
    cases h
    exact .hopRecorded hworker
  | queueing =>
    cases h
    exact .hopQueued
  | submitting c =>
    cases h
    exact .hopSubmitted

theorem advance_cases (h : task.advance admission t core role outcome = some (core', after)) :
    Advances admission t core role outcome task core' after := by
  cases task with
  | deliver id event rest phase => exact advanceDeliver_cases h
  | hop number id phase =>
    unfold advance at h
    dsimp only at h
    split at h
    · exact advanceHop_cases rfl h
    · cases h

end PoolTask

namespace PoolThread

variable {thread thread' : PoolThread}

theorem call_cases {call : PoolCall} (h : thread.call call = some thread') :
    thread.runsUserCode = true ∧ thread' = { thread with calls := call :: thread.calls } := by
  unfold PoolThread.call at h
  split_ifs at h with huser
  cases h
  exact ⟨huser, rfl⟩

theorem callback_cases {number : ℕ} {events : List AppEvent}
    (h : thread.callback core number events = some thread') :
    thread.idle = true ∧ ∃ id, thread' = { thread with task := PoolTask.next id events } := by
  unfold PoolThread.callback at h
  split at h
  · split at h
    · split_ifs at h with hidle
      cases h
      exact ⟨hidle.1, _, rfl⟩
    · cases h
  · cases h

theorem dispatch_cases {id : ℤ} {events : List AppEvent}
    (h : thread.dispatch id events = some thread') :
    thread.role = .dispatcher ∧ thread.idle = true ∧
      thread' = { thread with task := PoolTask.next id events } := by
  unfold PoolThread.dispatch at h
  split_ifs at h with hidle
  cases h
  exact ⟨hidle.1, hidle.2, rfl⟩

/-- A worker marks the job whose response it follows. -/
theorem redirect_cases {number : ℕ} {target : Url}
    (h : thread.redirect core number target = some (core', thread')) :
    thread.idle = true ∧ ∃ k job, thread.role = .worker k ∧
      (core.clients k).active.find? (·.number == number) = some job ∧
      core' = core.updateClient k (·.map fun job =>
        if job.number = number then { job with redirected := true } else job) ∧
      thread' = { thread with task := some (.hop number job.id (.choosing target)) } := by
  unfold PoolThread.redirect at h
  split at h
  · rename_i k hrole
    split at h
    · rename_i job hfound
      split_ifs at h with hidle
      cases h
      exact ⟨hidle.1, k, job, hrole, hfound, rfl, rfl⟩
    · cases h
  · cases h

theorem advance_cases (h : thread.advance admission t outcome core = some (core', thread')) :
    (∃ call rest after, thread.calls = call :: rest ∧
      PoolCall.Advances admission t core outcome call core' after ∧
      thread' = { thread with calls := after.toList ++ rest }) ∨
    ∃ task after, thread.calls = [] ∧ thread.task = some task ∧
      PoolTask.Advances admission t core thread.role outcome task core' after ∧
      thread' = { thread with task := after } := by
  unfold advance at h
  split at h
  · rename_i call rest hcalls
    obtain ⟨⟨_, after⟩, hadvance, heq⟩ := Option.map_eq_some_iff.mp h
    cases heq
    exact .inl ⟨call, rest, after, hcalls, PoolCall.advance_cases hadvance, rfl⟩
  · rename_i hcalls
    split at h
    · cases h
    · rename_i task htask
      obtain ⟨⟨_, after⟩, hadvance, heq⟩ := Option.map_eq_some_iff.mp h
      cases heq
      exact .inr ⟨task, after, hcalls, htask, PoolTask.advance_cases hadvance, rfl⟩

end PoolThread

end

end KatHttp3
