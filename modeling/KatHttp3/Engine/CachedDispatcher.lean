import KatHttp3.Engine.Execute
import KatHttp3.Library.Departures
import KatHttp3.Library.MachineInt

/-!
# The cache dispatcher

The queue of jobs with a stored response and the thread that delivers them. What
`queue_cached_job`, `remove_queued_cached_job`, `run_cached_dispatcher` and
`stop_cached_dispatcher` do under `cache_dispatch_mutex_` is one step; the calls of
`notify_one` and `notify_all`, the wait and the delivery are steps of their own.
-/

namespace KatHttp3

open Departures MachineInt WeightedList

/-- Where `run_cached_dispatcher` is, if there is a thread. -/
inductive DispatcherThread
  | absent
  /-- On its way to the predicate of the wait. -/
  | ready
  | waiting
  | delivering (owned : OwnedJob)
  | ended
  | joined
  deriving DecidableEq

def DispatcherThread.joinable : DispatcherThread → Bool
  | .absent | .joined => false
  | _ => true

/-- The bytes that a queued job is accounted for with. -/
def OwnedJob.accountedBytes (owned : OwnedJob) : ℕ :=
  owned.job.cachedResponse.elim 0 CachedResponse.accountedBytes

structure CachedDispatcher where
  maxBytes : ℕ
  jobs : List OwnedJob := []
  queuedBytes : ℕ := 0
  stop : Bool := false
  thread : DispatcherThread := .absent
  /-- The calls that have released the mutex and are going to notify. -/
  notifies : ℕ := 0
  /-- The jobs for which `queue_cached_job` returned true. -/
  accepted : List OwnedJob := []
  /-- The jobs handed to `on_job_cached`. -/
  delivered : List OwnedJob := []
  /-- The jobs that a cancellation or the stop took out of the queue. -/
  removed : List OwnedJob := []
  deriving DecidableEq

inductive DispatchStep
  /-- A call of `queue_cached_job`, which throws at most at one point. -/
  | queue (job : Option OwnedJob) (fault : Option ThrowPoint)
  | notify
  | remove (requestId : ℤ)
  /-- The dispatcher evaluates the predicate of its wait. -/
  | take
  | spuriousWakeup
  /-- `on_job_cached`, or `on_job_error` after it has thrown, returns. -/
  | deliver
  | stop
  | join
  deriving DecidableEq

namespace CachedDispatcher

variable (s : CachedDispatcher)

/-- `queue_cached_job`: also what the caller's pointer holds afterwards, and the result. -/
def queueCachedJob (job : Option OwnedJob) (fault : Option ThrowPoint) :
    CachedDispatcher × Option OwnedJob × Bool :=
  match job with
  | none => (s, none, false)
  | some owned =>
    match owned.job.cachedResponse with
    | none => (s, some owned, false)
    | some response =>
      if s.stop = true ∨ kMaxQueuedCachedJobs ≤ s.jobs.length ∨
          usub 64 s.maxBytes s.queuedBytes < response.accountedBytes then
        (s, some owned, false)
      else if fault = some .queueCached then (s, some owned, false)
      else
        let pushed :=
          { s with
            jobs := s.jobs ++ [owned]
            queuedBytes := s.queuedBytes + response.accountedBytes }
        let queued := { pushed with notifies := s.notifies + 1, accepted := s.accepted ++ [owned] }
        if s.thread.joinable then (queued, none, true)
        else if fault = some .startDispatcher then
          ({ pushed with
              jobs := pushed.jobs.dropLast
              queuedBytes := usub 64 pushed.queuedBytes response.accountedBytes },
            pushed.jobs.getLast?, false)
        else ({ queued with thread := .ready }, none, true)

def removeQueuedCachedJob (requestId : ℤ) : CachedDispatcher :=
  match s.jobs.find? fun owned => owned.job.id == requestId with
  | none => s
  | some owned =>
    { s with
      jobs := s.jobs.eraseP fun owned => owned.job.id == requestId
      queuedBytes := usub 64 s.queuedBytes owned.accountedBytes
      removed := s.removed ++ [owned] }

/-- The locked part of a round of `run_cached_dispatcher`. -/
def takeJob : CachedDispatcher :=
  if s.stop then { s with thread := .ended }
  else
    match s.jobs with
    | [] => { s with thread := .waiting }
    | owned :: rest =>
      { s with
        jobs := rest
        queuedBytes := usub 64 s.queuedBytes owned.accountedBytes
        thread := .delivering owned
        delivered := s.delivered ++ [owned] }

/-- The locked part of `stop_cached_dispatcher`. -/
def stopDispatcher : CachedDispatcher :=
  { s with
    stop := true
    jobs := []
    queuedBytes := 0
    notifies := s.notifies + 1
    removed := s.removed ++ s.jobs }

def step (s : CachedDispatcher) : DispatchStep → Option CachedDispatcher
  | .queue job fault => some (s.queueCachedJob job fault).1
  | .notify =>
    if s.notifies = 0 then none
    else
      some
        { s with
          notifies := s.notifies - 1
          thread := if s.thread = .waiting then .ready else s.thread }
  | .remove requestId => some (s.removeQueuedCachedJob requestId)
  | .take => if s.thread = .ready then some s.takeJob else none
  | .spuriousWakeup => if s.thread = .waiting then some { s with thread := .ready } else none
  | .deliver =>
    match s.thread with
    | .delivering _ => some { s with thread := .ready }
    | _ => none
  | .stop => some s.stopDispatcher
  | .join => if s.thread = .ended then some { s with thread := .joined } else none

/-! ### Accounts -/

/-- The total is that of the queued jobs, and every accepted job is accounted for. -/
structure Accounted (s : CachedDispatcher) : Prop where
  bytes : s.queuedBytes = total OwnedJob.accountedBytes s.jobs
  limit : s.queuedBytes ≤ s.maxBytes
  count : s.jobs.length ≤ kMaxQueuedCachedJobs
  booked : Booked s.accepted s.delivered s.jobs s.removed

/-- Jobs that wait have a dispatcher that does not sleep over them. -/
structure Attended (s : CachedDispatcher) : Prop where
  stopped : s.stop = true → s.jobs = []
  thread : s.jobs ≠ [] → s.thread.joinable = true
  ended : s.thread = .ended ∨ s.thread = .joined → s.stop = true
  awake : s.thread = .waiting → s.jobs ≠ [] ∨ s.stop = true → 0 < s.notifies

variable {s}

theorem Accounted.le_queuedBytes (h : s.Accounted) {owned : OwnedJob} (howned : owned ∈ s.jobs) :
    owned.accountedBytes ≤ s.queuedBytes := by
  rw [h.bytes]
  exact weight_le_total howned

/-- A job is queued, or the caller keeps it and the queue is as it was. -/
inductive Queued (s : CachedDispatcher) (job : Option OwnedJob) :
    CachedDispatcher × Option OwnedJob × Bool → Prop
  | refused : Queued s job (s, job, false)
  | accepted (owned : OwnedJob) (job_eq : job = some owned) (running : s.stop = false)
      (count : s.jobs.length < kMaxQueuedCachedJobs)
      (limit : s.queuedBytes + owned.accountedBytes ≤ s.maxBytes) (thread : DispatcherThread)
      (thread_eq : thread = s.thread ∧ s.thread.joinable = true ∨ thread = .ready) :
      Queued s job
        ({ s with
            jobs := s.jobs ++ [owned]
            queuedBytes := s.queuedBytes + owned.accountedBytes
            thread := thread
            notifies := s.notifies + 1
            accepted := s.accepted ++ [owned] },
          none, true)

theorem queueCachedJob_cases (h : s.Accounted) (job : Option OwnedJob) (fault : Option ThrowPoint) :
    Queued s job (s.queueCachedJob job fault) := by
  unfold queueCachedJob
  cases job with
  | none => exact .refused
  | some owned =>
    cases hresponse : owned.job.cachedResponse with
    | none =>
      simp only [hresponse]
      exact .refused
    | some response =>
      have hbytes : owned.accountedBytes = response.accountedBytes := by
        rw [OwnedJob.accountedBytes, hresponse]
        rfl
      have hlimit := h.limit
      simp only [hresponse, usub_of_le h.limit, ← hbytes]
      split_ifs with hfull hpush hjoinable hstart
      · exact .refused
      · exact .refused
      · simp only [not_or, Bool.not_eq_true, not_le, not_lt] at hfull
        exact .accepted owned rfl hfull.1 hfull.2.1 (by omega) s.thread (.inl ⟨rfl, hjoinable⟩)
      · -- the thread cannot be made, and the insertion is undone
        rw [List.dropLast_concat, List.getLast?_concat, usub_of_le (Nat.le_add_left _ _),
          Nat.add_sub_cancel]
        exact .refused
      · simp only [not_or, Bool.not_eq_true, not_le, not_lt] at hfull
        exact .accepted owned rfl hfull.1 hfull.2.1 (by omega) .ready (.inr rfl)

theorem Accounted.queue (h : s.Accounted) (job : Option OwnedJob) (fault : Option ThrowPoint) :
    (s.queueCachedJob job fault).1.Accounted := by
  have hcases := queueCachedJob_cases h job fault
  generalize s.queueCachedJob job fault = result at hcases
  cases hcases with
  | refused => exact h
  | accepted owned job_eq running count limit thread thread_eq =>
    constructor
    · have hbytes := h.bytes
      simp only [total_append, total_cons, total_nil]
      omega
    · exact limit
    · simpa using count
    · exact h.booked.admit owned

theorem Attended.queue (h : s.Attended) (haccounted : s.Accounted) (job : Option OwnedJob)
    (fault : Option ThrowPoint) : (s.queueCachedJob job fault).1.Attended := by
  have hcases := queueCachedJob_cases haccounted job fault
  generalize s.queueCachedJob job fault = result at hcases
  cases hcases with
  | refused => exact h
  | accepted owned job_eq running count limit thread thread_eq =>
    constructor
    · intro hstop
      cases running.symm.trans hstop
    · intro _
      rcases thread_eq with ⟨rfl, hjoinable⟩ | rfl
      · exact hjoinable
      · rfl
    · intro hended
      rcases thread_eq with ⟨rfl, -⟩ | rfl
      · exact h.ended hended
      · simp at hended
    · intro _ _
      apply Nat.succ_pos

/-! ### Removal, delivery and stop -/

theorem Accounted.remove (h : s.Accounted) (requestId : ℤ) :
    (s.removeQueuedCachedJob requestId).Accounted := by
  unfold removeQueuedCachedJob
  cases hfind : s.jobs.find? fun owned => owned.job.id == requestId with
  | none => exact h
  | some owned =>
    have hle := h.le_queuedBytes (List.mem_of_find?_eq_some hfind)
    have herase : total OwnedJob.accountedBytes _ + _ = _ := total_eraseP hfind
    have hbytes := h.bytes
    have hlimit := h.limit
    dsimp only
    rw [usub_of_le hle]
    constructor
    · dsimp only
      omega
    · dsimp only
      omega
    · exact List.eraseP_sublist.length_le.trans h.count
    · exact h.booked.withdraw List.eraseP_sublist (perm_eraseP hfind)

theorem Attended.remove (h : s.Attended) (requestId : ℤ) :
    (s.removeQueuedCachedJob requestId).Attended := by
  unfold removeQueuedCachedJob
  cases hfind : s.jobs.find? fun owned => owned.job.id == requestId with
  | none => exact h
  | some owned =>
    have hne := List.ne_nil_of_mem (List.mem_of_find?_eq_some hfind)
    constructor
    · intro hstop
      exact absurd (h.stopped hstop) hne
    · intro _
      exact h.thread hne
    · exact h.ended
    · intro hwaiting _
      exact h.awake hwaiting (.inl hne)

/-- What a round of the dispatcher can do. -/
inductive Took (s : CachedDispatcher) : CachedDispatcher → Prop
  | ended (stop : s.stop = true) : Took s { s with thread := .ended }
  | waiting (running : s.stop = false) (empty : s.jobs = []) : Took s { s with thread := .waiting }
  | delivering (running : s.stop = false) (owned : OwnedJob) (rest : List OwnedJob)
      (jobs : s.jobs = owned :: rest) :
      Took s
        { s with
          jobs := rest
          queuedBytes := usub 64 s.queuedBytes owned.accountedBytes
          thread := .delivering owned
          delivered := s.delivered ++ [owned] }

theorem takeJob_cases (s : CachedDispatcher) : Took s s.takeJob := by
  unfold takeJob
  split_ifs with hstop
  · exact .ended hstop
  · have hrunning : s.stop = false := by simpa using hstop
    split
    · rename_i hjobs
      exact .waiting hrunning hjobs
    · rename_i owned rest hjobs
      exact .delivering hrunning owned rest hjobs

theorem Accounted.setThread (h : s.Accounted) (thread : DispatcherThread) (notifies : ℕ) :
    Accounted { s with thread := thread, notifies := notifies } :=
  ⟨h.bytes, h.limit, h.count, h.booked⟩

theorem Accounted.take (h : s.Accounted) : s.takeJob.Accounted := by
  have hcases := takeJob_cases s
  generalize s.takeJob = next at hcases ⊢
  cases hcases with
  | ended stop => exact h.setThread .ended s.notifies
  | waiting running empty => exact h.setThread .waiting s.notifies
  | delivering running owned rest jobs =>
    have hbytes := h.bytes
    have hlimit := h.limit
    have hcount := h.count
    have hbooked := h.booked
    rw [jobs] at hcount hbooked
    rw [jobs, total_cons] at hbytes
    rw [usub_of_le (by omega)]
    constructor
    · dsimp only
      omega
    · dsimp only
      omega
    · exact (Nat.le_succ rest.length).trans hcount
    · exact hbooked.serve

theorem Attended.take (h : s.Attended) : s.takeJob.Attended := by
  have hcases := takeJob_cases s
  generalize s.takeJob = next at hcases ⊢
  cases hcases with
  | ended stop =>
    have hnil := h.stopped stop
    exact ⟨h.stopped, fun hne => absurd hnil hne, fun _ => stop, nofun⟩
  | waiting running empty =>
    refine ⟨h.stopped, fun hne => absurd empty hne, ?_, ?_⟩
    · intro hended
      simp at hended
    · intro _ hwork
      rcases hwork with hne | hstopped
      · exact absurd empty hne
      · cases running.symm.trans hstopped
  | delivering running owned rest jobs =>
    refine ⟨?_, fun _ => rfl, ?_, nofun⟩
    · intro hstopped
      cases running.symm.trans hstopped
    · intro hended
      simp at hended

theorem Accounted.stop (h : s.Accounted) : s.stopDispatcher.Accounted := by
  refine ⟨rfl, Nat.zero_le _, Nat.zero_le _, ?_⟩
  exact h.booked.withdraw (List.nil_sublist _) (List.Perm.refl _)

theorem stop_attended (s : CachedDispatcher) : s.stopDispatcher.Attended :=
  ⟨fun _ => rfl, fun hne => absurd rfl hne, fun _ => rfl, fun _ _ => Nat.succ_pos _⟩

/-! ### Runs -/

/-- What a step can do: a locked part, or the dispatcher goes from one place to another. -/
inductive Stepped (s : CachedDispatcher) : CachedDispatcher → Prop
  | queue (job : Option OwnedJob) (fault : Option ThrowPoint) :
      Stepped s (s.queueCachedJob job fault).1
  | remove (requestId : ℤ) : Stepped s (s.removeQueuedCachedJob requestId)
  | stop : Stepped s s.stopDispatcher
  | take : Stepped s s.takeJob
  | ready (notifies : ℕ) : Stepped s { s with thread := .ready, notifies := notifies }
  | unheard (awake : s.thread ≠ .waiting) :
      Stepped s { s with thread := s.thread, notifies := s.notifies - 1 }
  | joined (ended : s.thread = .ended) :
      Stepped s { s with thread := .joined, notifies := s.notifies }

theorem step_cases {s' : CachedDispatcher} {label : DispatchStep} (hstep : s.step label = some s') :
    Stepped s s' := by
  cases label with
  | queue job fault =>
    obtain rfl := Option.some.inj hstep
    exact .queue job fault
  | remove requestId =>
    obtain rfl := Option.some.inj hstep
    exact .remove requestId
  | stop =>
    obtain rfl := Option.some.inj hstep
    exact .stop
  | take =>
    simp only [step] at hstep
    split_ifs at hstep
    obtain rfl := Option.some.inj hstep
    exact .take
  | notify =>
    simp only [step] at hstep
    split_ifs at hstep with hnone hwaiting
    · obtain rfl := Option.some.inj hstep
      exact .ready _
    · obtain rfl := Option.some.inj hstep
      exact .unheard hwaiting
  | spuriousWakeup =>
    simp only [step] at hstep
    split_ifs at hstep
    obtain rfl := Option.some.inj hstep
    exact .ready s.notifies
  | deliver =>
    simp only [step] at hstep
    split at hstep
    · obtain rfl := Option.some.inj hstep
      exact .ready s.notifies
    · cases hstep
  | join =>
    simp only [step] at hstep
    split_ifs at hstep with hended
    obtain rfl := Option.some.inj hstep
    exact .joined hended

theorem step_accounted {s' : CachedDispatcher} {label : DispatchStep} (h : s.Accounted)
    (hstep : s.step label = some s') : s'.Accounted := by
  cases step_cases hstep with
  | queue job fault => exact h.queue job fault
  | remove requestId => exact h.remove requestId
  | stop => exact h.stop
  | take => exact h.take
  | ready | unheard | joined => exact h.setThread _ _

theorem step_attended {s' : CachedDispatcher} {label : DispatchStep} (h : s.Attended)
    (haccounted : s.Accounted) (hstep : s.step label = some s') : s'.Attended := by
  cases step_cases hstep with
  | queue job fault => exact h.queue haccounted job fault
  | remove requestId => exact h.remove requestId
  | stop => exact stop_attended s
  | take => exact h.take
  | ready notifies =>
    -- a dispatcher that is on its way to the predicate attends to everything
    refine ⟨h.stopped, fun _ => rfl, ?_, nofun⟩
    intro hended
    simp at hended
  | unheard awake =>
    refine ⟨h.stopped, h.thread, h.ended, ?_⟩
    intro hthread
    exact absurd hthread awake
  | joined ended =>
    have hstop := h.ended (.inl ended)
    exact ⟨h.stopped, fun hne => absurd (h.stopped hstop) hne, fun _ => hstop, nofun⟩

theorem step_maxBytes {s' : CachedDispatcher} {label : DispatchStep} (h : s.Accounted)
    (hstep : s.step label = some s') : s'.maxBytes = s.maxBytes := by
  cases step_cases hstep with
  | queue job fault =>
    have hcases := queueCachedJob_cases h job fault
    generalize s.queueCachedJob job fault = result at hcases
    cases hcases <;> rfl
  | remove requestId =>
    unfold removeQueuedCachedJob
    split <;> rfl
  | take =>
    have hcases := takeJob_cases s
    generalize s.takeJob = next at hcases ⊢
    cases hcases <;> rfl
  | stop | ready | unheard | joined => rfl

/-- In every run the total is that of the queued jobs and within its bound, so that no
subtraction wraps, every accepted job is delivered in order, removed or still queued,
jobs that wait have a dispatcher that does not sleep over them, and a call either
queues its job or leaves it to the caller. -/
theorem cachedDispatcher_accounted {maxBytes : ℕ} {labels : List DispatchStep}
    (hrun : Transition.run step { maxBytes := maxBytes } labels = some s) :
    s.queuedBytes = total OwnedJob.accountedBytes s.jobs ∧ s.queuedBytes ≤ maxBytes ∧
      (∀ owned ∈ s.jobs, owned.accountedBytes ≤ s.queuedBytes) ∧
      s.jobs.length ≤ kMaxQueuedCachedJobs ∧
      (s.delivered ++ s.jobs).Sublist s.accepted ∧
      s.accepted.Perm (s.delivered ++ s.jobs ++ s.removed) ∧
      (s.jobs ≠ [] → s.thread.joinable = true ∧ s.thread ≠ .ended ∧
        (s.thread = .waiting → 0 < s.notifies)) ∧
      ∀ job fault s' kept queued, s.queueCachedJob job fault = (s', kept, queued) →
        (queued = true → kept = none ∧ s'.jobs = s.jobs ++ job.toList) ∧
          (queued = false → kept = job ∧ s' = s) := by
  have hsound : s.Accounted ∧ s.Attended ∧ s.maxBytes = maxBytes := by
    apply Transition.run_invariant_of_step _ hrun
    · exact ⟨⟨rfl, Nat.zero_le _, Nat.zero_le _, Booked.nil⟩, ⟨nofun, nofun, nofun, nofun⟩, rfl⟩
    · intro t label t' ht hstep
      exact ⟨step_accounted ht.1 hstep, step_attended ht.2.1 ht.1 hstep,
        (step_maxBytes ht.1 hstep).trans ht.2.2⟩
  obtain ⟨haccounted, hattended, rfl⟩ := hsound
  refine ⟨haccounted.bytes, haccounted.limit, ?_, haccounted.count, haccounted.booked.order,
    haccounted.booked.once, ?_, ?_⟩
  · intro owned howned
    exact haccounted.le_queuedBytes howned
  · intro hne
    refine ⟨hattended.thread hne, ?_, fun hwaiting => hattended.awake hwaiting (.inl hne)⟩
    intro hended
    exact hne (hattended.stopped (hattended.ended (.inl hended)))
  · intro job fault s' kept queued hcall
    have hcases := queueCachedJob_cases haccounted job fault
    rw [hcall] at hcases
    cases hcases with
    | refused => exact ⟨nofun, fun _ => ⟨rfl, rfl⟩⟩
    | accepted owned job_eq running count limit thread thread_eq =>
      subst job_eq
      exact ⟨fun _ => ⟨rfl, rfl⟩, nofun⟩

/-- A job whose stored response is accounted for with so many bytes. -/
def sizedJob (id : ℤ) (bytes : ℕ) : OwnedJob where
  job := { id := id, cachedResponse := some { accountedBytes := bytes } }
  request := id.toNat

/-- A thread that cannot be made, two jobs of which one is cancelled, and a delivery. -/
theorem cachedDispatcher_accounted_delivery :
    ∃ s, Transition.run step { maxBytes := 100 }
        [.queue (some (sizedJob 1 40)) (some .startDispatcher), .queue (some (sizedJob 2 40)) none,
          .queue (some (sizedJob 3 60)) none, .take, .remove 3, .deliver] = some s ∧
      s.accepted.Perm (s.delivered ++ s.jobs ++ s.removed) ∧ s.delivered = [sizedJob 2 40] ∧
        s.removed = [sizedJob 3 60] := by
  have hrun : Transition.run step { maxBytes := 100 }
      [.queue (some (sizedJob 1 40)) (some .startDispatcher), .queue (some (sizedJob 2 40)) none,
        .queue (some (sizedJob 3 60)) none, .take, .remove 3, .deliver] =
      some
        { maxBytes := 100
          thread := .ready
          notifies := 2
          accepted := [sizedJob 2 40, sizedJob 3 60]
          delivered := [sizedJob 2 40]
          removed := [sizedJob 3 60] } := by decide
  obtain ⟨-, -, -, -, -, honce, -⟩ := cachedDispatcher_accounted hrun
  exact ⟨_, hrun, honce, rfl, rfl⟩

end CachedDispatcher

end KatHttp3
