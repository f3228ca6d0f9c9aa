import KatHttp3.Dns.SingleFlight

/-!
# What becomes of a flight and of its waiters

Every flight has one life: it is submitted, queued, taken by a worker, resolved
and delivered. The invariant relates the queues, the workers, the flights and
the callers of a state to the lives of its flights.
-/

namespace KatHttp3

open Transition

/-- How far a flight has come, with the thread that has it. -/
inductive FlightStage where
  | fresh
  | submitting (i : ℕ)
  | queued
  | taken (w : Fin kWorkerCount)
  | resolving (w : Fin kWorkerCount)
  | resolved (w : Fin kWorkerCount)
  | delivering (w : Fin kWorkerCount)

def FlightStage.rank : FlightStage → ℕ
  | fresh => 0
  | submitting _ => 1
  | queued => 2
  | taken _ => 3
  | resolving _ => 4
  | resolved _ => 5
  | delivering _ => 6

/-- The worker that has the flight. -/
def FlightStage.owner : FlightStage → Option (Fin kWorkerCount)
  | fresh => none
  | submitting _ => none
  | queued => none
  | taken w => some w
  | resolving w => some w
  | resolved w => some w
  | delivering w => some w

namespace DnsWorker

/-- The flight that a worker has, at the stage that it has reached. -/
def stage (w : Fin kWorkerCount) : DnsWorker → Option (ℕ × FlightStage)
  | idle => none
  | taken task => some (task.flight, .taken w)
  | starting task => some (task.flight, .taken w)
  | resolving task => some (task.flight, .resolving w)
  | resolved task _ => some (task.flight, .resolved w)
  | delivering task _ _ => some (task.flight, .delivering w)
  | calling task _ _ _ => some (task.flight, .delivering w)
  | exited => none

/-- The task of a worker that has not taken over the waiters yet. -/
def open? : DnsWorker → Option DnsTask
  | taken task => some task
  | starting task => some task
  | resolving task => some task
  | resolved task _ => some task
  | _ => none

/-- The waiters that a worker has still to call. -/
def inHand : DnsWorker → List DnsWaiter
  | delivering _ _ waiters => waiters
  | calling _ _ waiter waiters => waiter :: waiters
  | _ => []

/-- What the resolver returned for the flight of a worker. -/
def outcome : DnsWorker → Option (ℕ × List ResolvedEndpoint)
  | resolved task endpoints => some (task.flight, endpoints)
  | delivering task endpoints _ => some (task.flight, endpoints)
  | calling task endpoints _ _ => some (task.flight, endpoints)
  | _ => none

theorem owner_of_stage {w : Fin kWorkerCount} {v : DnsWorker} {f : ℕ} {st : FlightStage}
    (h : v.stage w = some (f, st)) : st.owner = some w ∧ 3 ≤ st.rank := by
  cases v <;> cases h <;> exact ⟨rfl, by simp [FlightStage.rank]⟩

theorem stage_of_open? {w : Fin kWorkerCount} {v : DnsWorker} {task : DnsTask}
    (h : v.open? = some task) :
    ∃ stage, v.stage w = some (task.flight, stage) ∧ 3 ≤ stage.rank ∧ stage.rank ≤ 5 := by
  cases v <;> cases h
  · exact ⟨_, rfl, by simp [FlightStage.rank]⟩
  · exact ⟨_, rfl, by simp [FlightStage.rank]⟩
  · exact ⟨_, rfl, by simp [FlightStage.rank]⟩
  · exact ⟨_, rfl, by simp [FlightStage.rank]⟩

theorem stage_of_mem_inHand {w : Fin kWorkerCount} {v : DnsWorker} {x : DnsWaiter}
    (h : x ∈ v.inHand) : ∃ f, v.stage w = some (f, .delivering w) := by
  cases v with
  | delivering task _ _ => exact ⟨task.flight, rfl⟩
  | calling task _ _ _ => exact ⟨task.flight, rfl⟩
  | _ => cases h

end DnsWorker

/-- Neither in a critical section nor the one who brought an accepted waiter. -/
def DnsCaller.Quiet : DnsCaller → Prop
  | submitting _ _ => False
  | accepted _ _ => False
  | removing _ _ => False
  | _ => True

theorem DnsCaller.Quiet.ne {c p : DnsCaller} (h : c.Quiet) (hp : ¬ p.Quiet) : c ≠ p := by
  rintro rfl
  exact hp h

/-- The token that a caller of `cancel_resolve` has set. -/
def DnsCaller.cancels : DnsCaller → Option ℕ
  | cancelling token => some token
  | removing token _ => some token
  | pruning token => some token
  | _ => none

namespace DnsState

/-- Somebody still has the task of the registered flight. -/
def HasTask (s : DnsState) (entry : Str × ℕ) : Prop :=
  ∃ task : DnsTask, task.key = entry.1 ∧ task.flight = entry.2 ∧
    ((∃ i token, s.caller i = .submitting task token) ∨ task ∈ s.pool.queue ∨
      ∃ w, (s.worker w).open? = some task)

/-- The waiter is that of its caller, which waits for the flight. -/
def Belongs (s : DnsState) (f : ℕ) (x : DnsWaiter) : Prop :=
  s.caller x.call = .accepted x.cancelled f ∨
    ∃ task, s.caller x.call = .submitting task x.cancelled ∧ task.flight = f

structure TaskInv (s : DnsState) (stage : ℕ → FlightStage) : Prop where
  fresh : ∀ f, s.allocated ≤ f → stage f = .fresh
  queued : ∀ task ∈ s.pool.queue, stage task.flight = .queued
  queue_nodup : (s.pool.queue.map DnsTask.flight).Nodup
  held : ∀ w f st, (s.worker w).stage w = some (f, st) → stage f = st
  submitting : ∀ i task token, s.caller i = .submitting task token →
    stage task.flight = .submitting i
  resolves : ∀ task ∈ s.resolves, 4 ≤ (stage task.flight).rank
  resolves_nodup : (s.resolves.map DnsTask.flight).Nodup
  outcomes : ∀ o ∈ s.outcomes, 5 ≤ (stage o.1).rank
  outcomes_nodup : (s.outcomes.map Prod.fst).Nodup
  outcome : ∀ w o, (s.worker w).outcome = some o → o ∈ s.outcomes

/-- A registered flight has waiters, the others have none. -/
structure RegistryInv (dnsFlights : List (Str × ℕ)) (flights : ℕ → DnsFlight) : Prop where
  keys_nodup : (dnsFlights.map Prod.fst).Nodup
  flights_nodup : (dnsFlights.map Prod.snd).Nodup
  waiters_ne : ∀ entry ∈ dnsFlights, (flights entry.2).waiters ≠ []
  live : ∀ entry ∈ dnsFlights, (flights entry.2).cancelled = false
  waiters_le : ∀ entry ∈ dnsFlights, (flights entry.2).waiters.length ≤ kMaxDnsFlightWaiters
  unregistered : ∀ f, f ∉ dnsFlights.map Prod.snd → (flights f).waiters = []

structure FlightInv (s : DnsState) : Prop where
  registry : RegistryInv s.dnsFlights s.flights
  submitting : ∀ i task token, s.caller i = .submitting task token →
    s.dnsFlightsMutex = some i ∧ (task.key, task.flight) ∈ s.dnsFlights ∧
      (s.flights task.flight).waiters = [⟨i, token⟩]
  removing : ∀ i token rest, s.caller i = .removing token rest →
    s.dnsFlightsMutex = some i ∧ rest.Nodup ∧ rest ⊆ s.dnsFlights
  task : ∀ entry ∈ s.dnsFlights, s.HasTask entry

structure WaiterInv (s : DnsState) (stage : ℕ → FlightStage) : Prop where
  cancels : ∀ i token, (s.caller i).cancels = some token → s.tokens token = true
  belongs : ∀ f, ∀ x ∈ (s.flights f).waiters, s.Belongs f x
  nodup : ∀ f, ((s.flights f).waiters.map DnsWaiter.call).Nodup
  inHand : ∀ w f st, (s.worker w).stage w = some (f, st) → ∀ x ∈ (s.worker w).inHand,
    s.caller x.call = .accepted x.cancelled f ∧ (s.flights f).cancelled = false
  inHand_nodup : ∀ w, ((s.worker w).inHand.map DnsWaiter.call).Nodup
  inHand_called : ∀ w, ∀ x ∈ (s.worker w).inHand, x.call ∉ s.called.map Prod.fst
  called : ∀ c ∈ s.called, ∃ token f, s.caller c.1 = .accepted token f ∧ 6 ≤ (stage f).rank ∧
    (f, c.2) ∈ s.outcomes
  called_nodup : (s.called.map Prod.fst).Nodup
  waits : ∀ i token f, s.caller i = .accepted token f → s.tokens token = false →
    i ∈ s.called.map Prod.fst ∨ ⟨i, token⟩ ∈ (s.flights f).waiters ∨
      ∃ w st, (s.worker w).stage w = some (f, st) ∧ ⟨i, token⟩ ∈ (s.worker w).inHand

structure Inv (s : DnsState) (stage : ℕ → FlightStage) : Prop where
  tasks : s.TaskInv stage
  flights : s.FlightInv
  waiters : s.WaiterInv stage

variable {s : DnsState} {stage : ℕ → FlightStage}

theorem inv_initial : ({} : DnsState).Inv fun _ => .fresh := by
  refine ⟨⟨fun _ _ => rfl, nofun, List.nodup_nil, nofun, nofun, nofun, List.nodup_nil, nofun,
    List.nodup_nil, nofun⟩, ⟨⟨List.nodup_nil, List.nodup_nil, nofun, nofun, nofun,
    fun _ _ => rfl⟩, nofun, nofun, nofun⟩, ⟨nofun, nofun, fun _ => List.nodup_nil, nofun, fun _ => List.nodup_nil, nofun,
    nofun, List.nodup_nil, nofun⟩⟩

/-! ### Tasks -/

theorem rank_update {f g n : ℕ} {st : FlightStage} (hrank : (stage f).rank ≤ st.rank)
    (h : n ≤ (stage g).rank) : n ≤ (Function.update stage f st g).rank := by
  by_cases hg : g = f
  · subst hg
    rw [Function.update_self]
    exact Nat.le_trans h hrank
  · rwa [Function.update_of_ne hg]

theorem TaskInv.worker_unique (h : s.TaskInv stage) {w w' : Fin kWorkerCount} {f : ℕ}
    {st st' : FlightStage} (hw : (s.worker w).stage w = some (f, st))
    (hw' : (s.worker w').stage w' = some (f, st')) : w = w' := by
  have heq : st = st' := (h.held w f st hw).symm.trans (h.held w' f st' hw')
  subst heq
  exact Option.some.inj ((DnsWorker.owner_of_stage hw).1.symm.trans (DnsWorker.owner_of_stage hw').1)

theorem TaskInv.three_le (h : s.TaskInv stage) {w : Fin kWorkerCount} {f : ℕ} {st : FlightStage}
    (hw : (s.worker w).stage w = some (f, st)) : 3 ≤ (stage f).rank := by
  rw [h.held w f st hw]
  exact (DnsWorker.owner_of_stage hw).2

theorem TaskInv.setWorker (h : s.TaskInv stage) {w : Fin kWorkerCount} {v : DnsWorker}
    (hstage : ∀ f st, v.stage w = some (f, st) → stage f = st)
    (houtcome : ∀ o, v.outcome = some o → o ∈ s.outcomes) : (s.setWorker w v).TaskInv stage := by
  refine { h with held := ?_, outcome := ?_ }
  · intro w' f st hw'
    by_cases hw : w' = w
    · subst hw
      rw [setWorker_worker_self] at hw'
      exact hstage f st hw'
    · rw [setWorker_worker_of_ne v hw] at hw'
      exact h.held w' f st hw'
  · intro w' o hw'
    by_cases hw : w' = w
    · subst hw
      rw [setWorker_worker_self] at hw'
      exact houtcome o hw'
    · rw [setWorker_worker_of_ne v hw] at hw'
      exact h.outcome w' o hw'

/-- A flight without a place, or whose place is about to be given, moves on. -/
theorem TaskInv.advance (h : s.TaskInv stage) {f : ℕ} {st : FlightStage} (hf : f < s.allocated)
    (hrank : (stage f).rank ≤ st.rank) (hqueue : ∀ task ∈ s.pool.queue, task.flight ≠ f)
    (hworker : ∀ w g st, (s.worker w).stage w = some (g, st) → g ≠ f)
    (hcaller : ∀ i task token, s.caller i = .submitting task token → task.flight ≠ f) :
    s.TaskInv (Function.update stage f st) := by
  refine { h with
    fresh := ?_
    queued := ?_
    held := ?_
    submitting := ?_
    resolves := ?_
    outcomes := ?_ }
  · intro g hg
    have hne : g ≠ f := fun heq => by omega
    rw [Function.update_of_ne hne]
    exact h.fresh g hg
  · intro task htask
    rw [Function.update_of_ne (hqueue task htask)]
    exact h.queued task htask
  · intro w g st' hw
    rw [Function.update_of_ne (hworker w g st' hw)]
    exact h.held w g st' hw
  · intro i task token hi
    rw [Function.update_of_ne (hcaller i task token hi)]
    exact h.submitting i task token hi
  · exact fun task htask => rank_update hrank (h.resolves task htask)
  · exact fun o ho => rank_update hrank (h.outcomes o ho)

theorem TaskInv.shrink (h : s.TaskInv stage) {pool : DnsWorkerPool}
    (hsub : pool.queue.Sublist s.pool.queue) : ({ s with pool := pool } : DnsState).TaskInv stage :=
  { h with
    queued := fun task htask => h.queued task (hsub.subset htask)
    queue_nodup := h.queue_nodup.sublist (hsub.map _) }

theorem TaskInv.callers (h : s.TaskInv stage) {caller : ℕ → DnsCaller}
    (hcaller : ∀ i task token, caller i = .submitting task token →
      s.caller i = .submitting task token) :
    ({ s with caller := caller } : DnsState).TaskInv stage :=
  { h with submitting := fun i task token hi => h.submitting i task token (hcaller i task token hi) }

theorem setWorker_setWorker (s : DnsState) (w : Fin kWorkerCount) (v v' : DnsWorker) :
    (s.setWorker w v).setWorker w v' = s.setWorker w v' := by
  rw [DnsState.setWorker, DnsState.setWorker, Function.update_idem]
  rfl

/-- A worker has brought its flight to a later stage and is about to be at it. -/
theorem TaskInv.release (h : s.TaskInv stage) {w : Fin kWorkerCount} {f : ℕ}
    {st st' : FlightStage} (hw : (s.worker w).stage w = some (f, st))
    (hrank : st.rank ≤ st'.rank) :
    (s.setWorker w .idle).TaskInv (Function.update stage f st') := by
  have hstage := h.held w f st hw
  have hthree := h.three_le hw
  apply TaskInv.advance
  · exact h.setWorker nofun nofun
  · by_contra hnot
    rw [h.fresh f (Nat.not_lt.mp hnot)] at hthree
    exact absurd hthree (by decide)
  · rwa [hstage]
  · rintro task htask rfl
    rw [h.queued task htask] at hthree
    exact absurd hthree (by decide)
  · rintro w' g st₂ hw' rfl
    by_cases hww : w' = w
    · subst hww
      rw [setWorker_worker_self] at hw'
      cases hw'
    · rw [setWorker_worker_of_ne _ hww] at hw'
      exact hww (h.worker_unique hw' hw)
  · rintro i task token hi rfl
    rw [h.submitting i task token hi] at hthree
    simp only [FlightStage.rank] at hthree
    omega

theorem TaskInv.assign {w : Fin kWorkerCount} {v : DnsWorker}
    (h : (s.setWorker w .idle).TaskInv stage)
    (hstage : ∀ f st, v.stage w = some (f, st) → stage f = st)
    (houtcome : ∀ o, v.outcome = some o → o ∈ s.outcomes) : (s.setWorker w v).TaskInv stage := by
  have hset := h.setWorker hstage houtcome
  rwa [setWorker_setWorker] at hset

/-! ### Steps outside the critical sections -/

theorem setCaller_caller_iff {i j : ℕ} {c p : DnsCaller} (hold : s.caller i ≠ p) (hnew : c ≠ p) :
    (s.setCaller i c).caller j = p ↔ s.caller j = p := by
  by_cases hj : j = i
  · subst hj
    rw [setCaller_caller_self]
    exact iff_of_false hnew hold
  · rw [setCaller_caller_of_ne c hj]

/-- Callers move while no waiter comes or goes. -/
theorem Inv.callers (h : s.Inv stage) {mutex : Option ℕ} {caller : ℕ → DnsCaller}
    (hsubmitting : ∀ i task token, caller i = .submitting task token ↔
      s.caller i = .submitting task token)
    (haccepted : ∀ i token f, caller i = .accepted token f ↔ s.caller i = .accepted token f)
    (hmutex : ∀ i task token, caller i = .submitting task token → mutex = some i)
    (hremoving : ∀ i token rest, caller i = .removing token rest →
      mutex = some i ∧ rest.Nodup ∧ rest ⊆ s.dnsFlights)
    (hcancels : ∀ i token, (caller i).cancels = some token → s.tokens token = true) :
    ({ s with caller := caller, dnsFlightsMutex := mutex } : DnsState).Inv stage := by
  refine ⟨{ h.tasks with
    submitting := fun i task token hi =>
      h.tasks.submitting i task token ((hsubmitting i task token).mp hi) }, { h.flights with
    submitting := ?_
    removing := hremoving
    task := ?_ }, { h.waiters with
    cancels := hcancels
    belongs := ?_
    inHand := ?_
    called := ?_
    waits := fun i token f hi => h.waiters.waits i token f ((haccepted i token f).mp hi) }⟩
  · intro i task token hi
    exact ⟨hmutex i task token hi,
      (h.flights.submitting i task token ((hsubmitting i task token).mp hi)).2⟩
  · intro entry hentry
    obtain ⟨task, hkey, hflight, hplace⟩ := h.flights.task entry hentry
    refine ⟨task, hkey, hflight, hplace.imp_left ?_⟩
    rintro ⟨i, token, hi⟩
    exact ⟨i, token, (hsubmitting i task token).mpr hi⟩
  · intro f x hx
    refine (h.waiters.belongs f x hx).imp (haccepted _ _ _).mpr ?_
    rintro ⟨task, hi, hflight⟩
    exact ⟨task, (hsubmitting _ _ _).mpr hi, hflight⟩
  · intro w f st hw x hx
    obtain ⟨hcaller, hflag⟩ := h.waiters.inHand w f st hw x hx
    exact ⟨(haccepted _ _ _).mpr hcaller, hflag⟩
  · intro call hcall
    obtain ⟨token, f, hcaller, hrest⟩ := h.waiters.called call hcall
    exact ⟨token, f, (haccepted _ _ _).mpr hcaller, hrest⟩

theorem Inv.setCaller (h : s.Inv stage) {i : ℕ} {c : DnsCaller} (hold : (s.caller i).Quiet)
    (hnew : c.Quiet) (hcancels : ∀ token, c.cancels = some token → s.tokens token = true) :
    (s.setCaller i c).Inv stage := by
  have hcaller : ∀ j p, ¬ p.Quiet → ((s.setCaller i c).caller j = p ↔ s.caller j = p) :=
    fun j p hp => setCaller_caller_iff (hold.ne hp) (hnew.ne hp)
  apply h.callers
  · exact fun j task token => hcaller j _ id
  · exact fun j token f => hcaller j _ id
  · exact fun j task token hj => (h.flights.submitting j task token ((hcaller j _ id).mp hj)).1
  · exact fun j token rest hj => h.flights.removing j token rest ((hcaller j _ id).mp hj)
  · intro j token hj
    by_cases hij : j = i
    · subst hij
      rw [Function.update_self] at hj
      exact hcancels token hj
    · rw [Function.update_of_ne hij] at hj
      exact h.waiters.cancels j token hj

theorem Inv.setToken (h : s.Inv stage) (token : ℕ) :
    ({ s with tokens := Function.update s.tokens token true } : DnsState).Inv stage := by
  refine ⟨{ h.tasks with }, { h.flights with }, { h.waiters with cancels := ?_, waits := ?_ }⟩
  · intro i token' hi
    dsimp only
    by_cases heq : token' = token
    · subst heq
      exact Function.update_self ..
    · rw [Function.update_of_ne heq]
      exact h.waiters.cancels i token' hi
  · intro j token' f hj htoken
    apply h.waiters.waits j token' f hj
    dsimp only at htoken
    by_cases heq : token' = token
    · subst heq
      rw [Function.update_self] at htoken
      cases htoken
    · rwa [Function.update_of_ne heq] at htoken

/-- The queues may lose the work of cancelled flights. -/
theorem Inv.setPool (h : s.Inv stage) {pool : DnsWorkerPool}
    (hsub : pool.queue.Sublist s.pool.queue)
    (hkept : ∀ task ∈ s.pool.queue, (s.flights task.flight).cancelled = false →
      task ∈ pool.queue) :
    ({ s with pool := pool } : DnsState).Inv stage := by
  refine ⟨h.tasks.shrink hsub, { h.flights with task := ?_ }, { h.waiters with }⟩
  intro entry hentry
  obtain ⟨task, hkey, hflight, hplace⟩ := h.flights.task entry hentry
  refine ⟨task, hkey, hflight, hplace.imp_right (Or.imp_left ?_)⟩
  intro htask
  have hlive := h.flights.registry.live entry hentry
  rw [← hflight] at hlive
  exact hkept task htask hlive

theorem mem_pruneQueue {seen : List ℕ} (hsees : s.Sees seen) {queue : List DnsTask}
    {task : DnsTask} (htask : task ∈ queue) (hlive : (s.flights task.flight).cancelled = false) :
    task ∈ pruneQueue (seen.contains ·) queue := by
  have hnot : task.flight ∉ seen := fun hseen =>
    Bool.false_ne_true (hlive.symm.trans (hsees _ hseen))
  apply List.mem_filter.mpr
  exact ⟨htask, by simpa using hnot⟩

theorem Inv.prune (h : s.Inv stage) {pool : DnsWorkerPool} {seen : List ℕ} (hsees : s.Sees seen)
    (hqueue : pool.queue = pruneQueue (seen.contains ·) s.pool.queue) :
    ({ s with pool := pool } : DnsState).Inv stage := by
  apply h.setPool
  · rw [hqueue]
    exact List.filter_sublist
  · intro task htask hlive
    rw [hqueue]
    exact mem_pruneQueue hsees htask hlive

/-! ### Critical sections -/

/-- Nobody else is in a critical section. -/
theorem FlightInv.sole (h : s.FlightInv) {i j : ℕ} (hlock : s.dnsFlightsMutex = some i)
    (hj : j ≠ i) : (∀ task token, s.caller j ≠ .submitting task token) ∧
      ∀ token rest, s.caller j ≠ .removing token rest := by
  constructor
  · intro task token heq
    exact hj (Option.some.inj ((h.submitting j task token heq).1.symm.trans hlock))
  · intro token rest heq
    exact hj (Option.some.inj ((h.removing j token rest heq).1.symm.trans hlock))

theorem FlightInv.free (h : s.FlightInv) (hlock : s.dnsFlightsMutex = none) (j : ℕ) :
    (∀ task token, s.caller j ≠ .submitting task token) ∧
      ∀ token rest, s.caller j ≠ .removing token rest := by
  constructor
  · intro task token heq
    exact Option.some_ne_none j ((h.submitting j task token heq).1.symm.trans hlock)
  · intro token rest heq
    exact Option.some_ne_none j ((h.removing j token rest heq).1.symm.trans hlock)

/-- A registered flight has been allocated and has not been delivered. -/
theorem Inv.registered_rank (h : s.Inv stage) {entry : Str × ℕ} (hentry : entry ∈ s.dnsFlights) :
    1 ≤ (stage entry.2).rank ∧ (stage entry.2).rank ≤ 5 := by
  obtain ⟨task, -, hflight, hplace⟩ := h.flights.task entry hentry
  rw [← hflight]
  rcases hplace with ⟨i, token, hi⟩ | hqueue | ⟨w, hw⟩
  · rw [h.tasks.submitting i task token hi]
    simp [FlightStage.rank]
  · rw [h.tasks.queued task hqueue]
    simp [FlightStage.rank]
  · obtain ⟨st, hst, hlow, hhigh⟩ := DnsWorker.stage_of_open? (w := w) hw
    rw [h.tasks.held w task.flight st hst]
    exact ⟨Nat.le_trans (by decide) hlow, hhigh⟩

theorem Inv.registered_lt (h : s.Inv stage) {entry : Str × ℕ} (hentry : entry ∈ s.dnsFlights) :
    entry.2 < s.allocated := by
  by_contra hnot
  have hrank := (h.registered_rank hentry).1
  rw [h.tasks.fresh entry.2 (Nat.not_lt.mp hnot)] at hrank
  exact absurd hrank (by decide)

section

variable {dnsFlights : List (Str × ℕ)} {flights : ℕ → DnsFlight} {key : Str} {f : ℕ}

theorem mem_eraseKey {entry : Str × ℕ} :
    entry ∈ eraseKey dnsFlights key ↔ entry ∈ dnsFlights ∧ entry.1 ≠ key := by
  rw [eraseKey, List.mem_filter, decide_eq_true_eq]

theorem RegistryInv.entry_eq (h : RegistryInv dnsFlights flights) {e e' : Str × ℕ}
    (he : e ∈ dnsFlights) (he' : e' ∈ dnsFlights) (heq : e.2 = e'.2) : e = e' :=
  List.inj_on_of_nodup_map h.flights_nodup he he' heq

theorem RegistryInv.lookup_eq_some (h : RegistryInv dnsFlights flights) :
    dnsFlights.lookup key = some f ↔ (key, f) ∈ dnsFlights := by
  have hnodup := h.keys_nodup
  clear h
  induction dnsFlights with
  | nil => simp
  | cons entry rest ih =>
    obtain ⟨key', f'⟩ := entry
    rw [List.map_cons, List.nodup_cons] at hnodup
    rw [List.lookup_cons]
    by_cases hkey : key = key'
    · subst hkey
      have hrest : (key, f) ∉ rest := fun hmem => hnodup.1 (List.mem_map.mpr ⟨_, hmem, rfl⟩)
      simp [hrest, eq_comm]
    · rw [beq_false_of_ne hkey]
      simp [hkey, ih hnodup.2]

/-- After the erasure of a key, its flight is not registered. -/
theorem RegistryInv.ne_of_mem_eraseKey (h : RegistryInv dnsFlights flights)
    (hentry : (key, f) ∈ dnsFlights) {entry : Str × ℕ} (hmem : entry ∈ eraseKey dnsFlights key) :
    entry.2 ≠ f := by
  intro heq
  obtain ⟨hold, hkey⟩ := mem_eraseKey.mp hmem
  exact hkey (congrArg Prod.fst (h.entry_eq hold hentry heq))

theorem RegistryInv.cons (h : RegistryInv dnsFlights flights)
    (hkey : dnsFlights.lookup key = none) (hf : ∀ entry ∈ dnsFlights, entry.2 ≠ f)
    (x : DnsWaiter) :
    RegistryInv ((key, f) :: dnsFlights) (Function.update flights f { waiters := [x] }) := by
  have hsame : ∀ entry ∈ dnsFlights,
      Function.update flights f { waiters := [x] } entry.2 = flights entry.2 :=
    fun entry hentry => Function.update_of_ne (hf entry hentry) _ _
  refine ⟨?_, ?_, ?_, ?_, ?_, ?_⟩
  · apply List.nodup_cons.mpr
    refine ⟨?_, h.keys_nodup⟩
    intro hmem
    obtain ⟨entry, hentry, heq⟩ := List.mem_map.mp hmem
    exact bne_iff_ne.mp (List.lookup_eq_none_iff.mp hkey entry hentry) heq.symm
  · apply List.nodup_cons.mpr
    refine ⟨?_, h.flights_nodup⟩
    intro hmem
    obtain ⟨entry, hentry, heq⟩ := List.mem_map.mp hmem
    exact hf entry hentry heq
  · intro entry hentry
    rcases List.mem_cons.mp hentry with rfl | hentry
    · rw [Function.update_self]
      exact List.cons_ne_nil x []
    · rw [hsame entry hentry]
      exact h.waiters_ne entry hentry
  · intro entry hentry
    rcases List.mem_cons.mp hentry with rfl | hentry
    · rw [Function.update_self]
    · rw [hsame entry hentry]
      exact h.live entry hentry
  · intro entry hentry
    rcases List.mem_cons.mp hentry with rfl | hentry
    · rw [Function.update_self]
      exact show 1 ≤ kMaxDnsFlightWaiters by decide
    · rw [hsame entry hentry]
      exact h.waiters_le entry hentry
  · intro g hg
    rw [List.map_cons, List.mem_cons, not_or] at hg
    rw [Function.update_of_ne hg.1]
    exact h.unregistered g hg.2

theorem RegistryInv.erase (h : RegistryInv dnsFlights flights) (hentry : (key, f) ∈ dnsFlights)
    {flight : DnsFlight} (hwaiters : flight.waiters = []) :
    RegistryInv (eraseKey dnsFlights key) (Function.update flights f flight) := by
  have hsub : (eraseKey dnsFlights key).Sublist dnsFlights := List.filter_sublist
  have hsame : ∀ entry ∈ eraseKey dnsFlights key,
      Function.update flights f flight entry.2 = flights entry.2 := fun entry hmem =>
    Function.update_of_ne (h.ne_of_mem_eraseKey hentry hmem) _ _
  refine ⟨h.keys_nodup.sublist (hsub.map _), h.flights_nodup.sublist (hsub.map _), ?_, ?_, ?_, ?_⟩
  · intro entry hmem
    rw [hsame entry hmem]
    exact h.waiters_ne entry (hsub.subset hmem)
  · intro entry hmem
    rw [hsame entry hmem]
    exact h.live entry (hsub.subset hmem)
  · intro entry hmem
    rw [hsame entry hmem]
    exact h.waiters_le entry (hsub.subset hmem)
  · intro g hg
    by_cases hgf : g = f
    · rw [hgf, Function.update_self, hwaiters]
    · rw [Function.update_of_ne hgf]
      apply h.unregistered
      intro hmem
      obtain ⟨entry, hold, rfl⟩ := List.mem_map.mp hmem
      apply hg
      refine List.mem_map_of_mem (mem_eraseKey.mpr ⟨hold, ?_⟩)
      intro hkey
      have hlookup := h.lookup_eq_some.mpr hentry
      have hlookup' := h.lookup_eq_some.mpr (show (key, entry.2) ∈ dnsFlights from hkey ▸ hold)
      exact hgf (Option.some.inj (hlookup'.symm.trans hlookup))

theorem RegistryInv.update (h : RegistryInv dnsFlights flights) (hentry : (key, f) ∈ dnsFlights)
    {waiters : List DnsWaiter} (hne : waiters ≠ []) (hle : waiters.length ≤ kMaxDnsFlightWaiters) :
    RegistryInv dnsFlights (Function.update flights f { flights f with waiters := waiters }) := by
  refine ⟨h.keys_nodup, h.flights_nodup, ?_, ?_, ?_, ?_⟩
  · intro entry hmem
    by_cases hf : entry.2 = f
    · rwa [hf, Function.update_self]
    · rw [Function.update_of_ne hf]
      exact h.waiters_ne entry hmem
  · intro entry hmem
    by_cases hf : entry.2 = f
    · rw [hf, Function.update_self]
      exact h.live (key, f) hentry
    · rw [Function.update_of_ne hf]
      exact h.live entry hmem
  · intro entry hmem
    by_cases hf : entry.2 = f
    · rwa [hf, Function.update_self]
    · rw [Function.update_of_ne hf]
      exact h.waiters_le entry hmem
  · intro g hg
    have hne : g ≠ f := by
      rintro rfl
      exact hg (List.mem_map_of_mem (f := Prod.snd) hentry)
    rw [Function.update_of_ne hne]
    exact h.unregistered g hg

end

theorem HasTask.of_place {s' : DnsState} {entry : Str × ℕ} (h : s.HasTask entry)
    (hplace : ∀ task : DnsTask, task.flight = entry.2 →
      ((∃ i token, s.caller i = .submitting task token) ∨ task ∈ s.pool.queue ∨
        ∃ w, (s.worker w).open? = some task) →
      (∃ i token, s'.caller i = .submitting task token) ∨ task ∈ s'.pool.queue ∨
        ∃ w, (s'.worker w).open? = some task) : s'.HasTask entry := by
  obtain ⟨task, hkey, hflight, hold⟩ := h
  exact ⟨task, hkey, hflight, hplace task hflight hold⟩

theorem caller_of_update {caller : ℕ → DnsCaller} {i j : ℕ} {c p : DnsCaller}
    (h : Function.update caller i c j = p) (hne : c ≠ p) : j ≠ i ∧ caller j = p := by
  by_cases hj : j = i
  · subst hj
    rw [Function.update_self] at h
    exact absurd h hne
  · rw [Function.update_of_ne hj] at h
    exact ⟨hj, h⟩

theorem WaiterInv.cancels_update (h : s.WaiterInv stage) {i : ℕ} {c : DnsCaller}
    (hc : ∀ token, c.cancels = some token → s.tokens token = true) (j token : ℕ)
    (hj : (Function.update s.caller i c j).cancels = some token) : s.tokens token = true := by
  by_cases hij : j = i
  · subst hij
    rw [Function.update_self] at hj
    exact hc token hj
  · rw [Function.update_of_ne hij] at hj
    exact h.cancels j token hj

section Update

variable {flight : DnsFlight} {f : ℕ}

theorem unflagged_update (hflag : flight.cancelled = (s.flights f).cancelled) (g : ℕ)
    (hg : (s.flights g).cancelled = false) :
    (Function.update s.flights f flight g).cancelled = false := by
  by_cases hfg : g = f
  · subst hfg
    rw [Function.update_self, hflag]
    exact hg
  · rwa [Function.update_of_ne hfg]

theorem forall_waiters_update {P : ℕ → DnsWaiter → Prop} (hself : ∀ x ∈ flight.waiters, P f x)
    (hother : ∀ g, g ≠ f → ∀ x ∈ (s.flights g).waiters, P g x) (g : ℕ) :
    ∀ x ∈ (Function.update s.flights f flight g).waiters, P g x := by
  by_cases hfg : g = f
  · subst hfg
    rwa [Function.update_self]
  · rw [Function.update_of_ne hfg]
    exact hother g hfg

theorem WaiterInv.nodup_update (h : s.WaiterInv stage)
    (hself : (flight.waiters.map DnsWaiter.call).Nodup) (g : ℕ) :
    ((Function.update s.flights f flight g).waiters.map DnsWaiter.call).Nodup := by
  by_cases hfg : g = f
  · subst hfg
    rwa [Function.update_self]
  · rw [Function.update_of_ne hfg]
    exact h.nodup g

theorem mem_waiters_update {g : ℕ} {x : DnsWaiter} (hself : g = f → x ∈ flight.waiters)
    (hmem : x ∈ (s.flights g).waiters) : x ∈ (Function.update s.flights f flight g).waiters := by
  by_cases hfg : g = f
  · have hmine := hself hfg
    subst hfg
    rwa [Function.update_self]
  · rwa [Function.update_of_ne hfg]

end Update

/-- Flights and callers change while the workers do nothing. -/
theorem WaiterInv.change (h : s.WaiterInv stage) {s' : DnsState} {stage' : ℕ → FlightStage}
    (hworker : s'.worker = s.worker) (hcalled : s'.called = s.called)
    (houtcomes : s'.outcomes = s.outcomes) (htokens : s'.tokens = s.tokens)
    (hrank : ∀ f, (stage f).rank ≤ (stage' f).rank)
    (hkept : ∀ i token f, s.caller i = .accepted token f → s'.caller i = .accepted token f)
    (hflags : ∀ f w, stage f = .delivering w →
      (s.flights f).cancelled = false → (s'.flights f).cancelled = false)
    (hheld : ∀ w f st, (s.worker w).stage w = some (f, st) → stage f = st)
    (hcancels : ∀ i token, (s'.caller i).cancels = some token → s.tokens token = true)
    (hbelongs : ∀ f, ∀ x ∈ (s'.flights f).waiters, s'.Belongs f x)
    (hnodup : ∀ f, ((s'.flights f).waiters.map DnsWaiter.call).Nodup)
    (hnew : ∀ i token f, s'.caller i = .accepted token f →
      s.caller i = .accepted token f ∨ ⟨i, token⟩ ∈ (s'.flights f).waiters)
    (hwaiters : ∀ i token f, s.caller i = .accepted token f → s.tokens token = false →
      ⟨i, token⟩ ∈ (s.flights f).waiters → ⟨i, token⟩ ∈ (s'.flights f).waiters) :
    s'.WaiterInv stage' := by
  refine ⟨?_, hbelongs, hnodup, ?_, ?_, ?_, ?_, ?_, ?_⟩
  · rw [htokens]
    exact hcancels
  · rw [hworker]
    intro w f st hw x hx
    obtain ⟨hcaller, hflag⟩ := h.inHand w f st hw x hx
    obtain ⟨g, hg⟩ := DnsWorker.stage_of_mem_inHand (w := w) hx
    cases hw.symm.trans hg
    exact ⟨hkept _ _ _ hcaller, hflags f w (hheld w f _ hw) hflag⟩
  · rw [hworker]
    exact h.inHand_nodup
  · rw [hworker, hcalled]
    exact h.inHand_called
  · rw [hcalled, houtcomes]
    intro call hcall
    obtain ⟨token, f, hcaller, hsix, houtcome⟩ := h.called call hcall
    exact ⟨token, f, hkept _ _ _ hcaller, Nat.le_trans hsix (hrank f), houtcome⟩
  · rw [hcalled]
    exact h.called_nodup
  · rw [hcalled, hworker, htokens]
    intro i token f hi htoken
    rcases hnew i token f hi with hold | hmem
    · rcases h.waits i token f hold htoken with hc | hmem | hhand
      · exact Or.inl hc
      · exact Or.inr (Or.inl (hwaiters i token f hold htoken hmem))
      · exact Or.inr (Or.inr hhand)
    · exact Or.inr (Or.inl hmem)

/-- Another waiter for a flight that is there already. -/
theorem Inv.join_existing (h : s.Inv stage) {i token f : ℕ} {key : Str}
    (hlock : s.dnsFlightsMutex = none) (hcaller : (s.caller i).Quiet)
    (hentry : (key, f) ∈ s.dnsFlights)
    (hroom : (s.flights f).waiters.length < kMaxDnsFlightWaiters) :
    ((s.setFlight f { s.flights f with
      waiters := (s.flights f).waiters ++ [⟨i, token⟩] }).setCaller i (.accepted token f)).Inv
        stage := by
  have hfree := h.flights.free hlock
  have hother : ∀ {j p}, ¬ p.Quiet → s.caller j = p → j ≠ i := by
    rintro j p hp heq rfl
    exact hcaller.ne hp heq
  have hkept : ∀ j t g, s.caller j = .accepted t g →
      Function.update s.caller i (.accepted token f) j = .accepted t g := by
    intro j t g hj
    rw [Function.update_of_ne (hother id hj)]
    exact hj
  have hbelongs : ∀ g, ∀ x ∈ (s.flights g).waiters, s.caller x.call = .accepted x.cancelled g :=
    fun g x hx => (h.waiters.belongs g x hx).resolve_right
      fun ⟨task, heq, _⟩ => (hfree _).1 _ _ heq
  refine ⟨{ h.tasks with
      submitting := fun j task t hj => ((hfree j).1 task t (caller_of_update hj nofun).2).elim },
    ⟨h.flights.registry.update hentry (by simp) ?_, ?_, ?_, ?_⟩,
    h.waiters.change rfl rfl rfl rfl (fun _ => le_rfl) hkept ?_ h.tasks.held
      (h.waiters.cancels_update (c := .accepted token f) nofun) ?_ ?_ ?_ ?_⟩
  · rw [List.length_append, List.length_singleton]
    exact hroom
  · exact fun j task t hj => ((hfree j).1 task t (caller_of_update hj nofun).2).elim
  · exact fun j t rest hj => ((hfree j).2 t rest (caller_of_update hj nofun).2).elim
  · intro entry hmem
    apply (h.flights.task entry hmem).of_place
    rintro task - (⟨j, t, hj⟩ | hplace)
    · exact ((hfree j).1 task t hj).elim
    · exact Or.inr hplace
  · intro g w _ hflag
    apply unflagged_update _ g hflag
    rfl
  · apply forall_waiters_update
    · intro x hx
      left
      rcases List.mem_append.mp hx with hx | hx
      · exact hkept _ _ _ (hbelongs f x hx)
      · obtain rfl := List.mem_singleton.mp hx
        exact Function.update_self ..
    · exact fun g _ x hx => Or.inl (hkept _ _ _ (hbelongs g x hx))
  · apply h.waiters.nodup_update
    rw [List.map_append, List.nodup_append]
    refine ⟨h.waiters.nodup f, List.nodup_singleton _, ?_⟩
    rintro a ha b hb rfl
    obtain ⟨x, hx, rfl⟩ := List.mem_map.mp ha
    exact hother id (hbelongs f x hx) (List.mem_singleton.mp hb)
  · intro j t g hj
    by_cases hij : j = i
    · subst hij
      cases (setCaller_caller_self _).symm.trans hj
      right
      show _ ∈ (Function.update s.flights f _ f).waiters
      rw [Function.update_self]
      exact List.mem_append_right _ (List.mem_singleton_self _)
    · rw [setCaller_caller_of_ne _ hij] at hj
      exact Or.inl hj
  · intro j t g _ _ hmem
    apply mem_waiters_update _ hmem
    rintro rfl
    exact List.mem_append_left _ hmem

/-- The first waiter of a new flight. -/
theorem Inv.join_new (h : s.Inv stage) {i token : ℕ} {task : DnsTask}
    (hlock : s.dnsFlightsMutex = none) (hcaller : (s.caller i).Quiet)
    (hkey : s.dnsFlights.lookup task.key = none) (hflight : task.flight = s.allocated) :
    ({ s.setFlight task.flight { waiters := [⟨i, token⟩] } with
      allocated := task.flight + 1
      dnsFlights := (task.key, task.flight) :: s.dnsFlights
      dnsFlightsMutex := some i
      caller := Function.update s.caller i (.submitting task token) } : DnsState).Inv
        (Function.update stage task.flight (.submitting i)) := by
  have hfree := h.flights.free hlock
  have hfresh : stage task.flight = .fresh := h.tasks.fresh _ (hflight ▸ le_rfl)
  have hother : ∀ {j p}, ¬ p.Quiet → s.caller j = p → j ≠ i := by
    rintro j p hp heq rfl
    exact hcaller.ne hp heq
  have hkept : ∀ j t g, s.caller j = .accepted t g →
      Function.update s.caller i (.submitting task token) j = .accepted t g := by
    intro j t g hj
    rw [Function.update_of_ne (hother id hj)]
    exact hj
  have hregistered : ∀ entry ∈ s.dnsFlights, entry.2 ≠ task.flight := by
    intro entry hentry
    have hlt := h.registered_lt hentry
    omega
  have hempty : (s.flights task.flight).waiters = [] := by
    apply h.flights.registry.unregistered
    intro hmem
    obtain ⟨entry, hentry, heq⟩ := List.mem_map.mp hmem
    exact hregistered entry hentry heq
  have hrank : ∀ f, (stage f).rank ≤ (Function.update stage task.flight (.submitting i) f).rank :=
    fun f => rank_update (by rw [hfresh]; exact Nat.zero_le _) le_rfl
  have htasks : ({ s with allocated := task.flight + 1 } : DnsState).TaskInv
      (Function.update stage task.flight (.submitting i)) := by
    apply TaskInv.advance
    · exact { h.tasks with fresh := fun g hg => h.tasks.fresh g (by dsimp only at hg; omega) }
    · exact Nat.lt_succ_self _
    · rw [hfresh]
      exact Nat.zero_le _
    · intro queued hqueued heq
      have hstage := h.tasks.queued queued hqueued
      rw [heq, hfresh] at hstage
      cases hstage
    · rintro w g st hw rfl
      have hthree := h.tasks.three_le hw
      rw [hfresh] at hthree
      exact absurd hthree (by decide)
    · exact fun j task' t hj => ((hfree j).1 task' t hj).elim
  refine ⟨{ htasks with submitting := ?_ },
    ⟨h.flights.registry.cons hkey hregistered ⟨i, token⟩, ?_, ?_, ?_⟩,
    h.waiters.change rfl rfl rfl rfl hrank hkept ?_ h.tasks.held
      (h.waiters.cancels_update (i := i) (c := .submitting task token) nofun) ?_ ?_ ?_ ?_⟩
  · intro j task' t hj
    change Function.update s.caller i (.submitting task token) j = _ at hj
    by_cases hij : j = i
    · subst hij
      cases (Function.update_self ..).symm.trans hj
      exact Function.update_self ..
    · rw [Function.update_of_ne hij] at hj
      exact ((hfree j).1 task' t hj).elim
  · intro j task' t hj
    change Function.update s.caller i (.submitting task token) j = _ at hj
    by_cases hij : j = i
    · subst hij
      cases (Function.update_self ..).symm.trans hj
      refine ⟨rfl, List.mem_cons_self, ?_⟩
      show (Function.update s.flights task.flight _ task.flight).waiters = _
      rw [Function.update_self]
    · rw [Function.update_of_ne hij] at hj
      exact ((hfree j).1 task' t hj).elim
  · exact fun j t rest hj => ((hfree j).2 t rest (caller_of_update hj nofun).2).elim
  · intro entry hmem
    rcases List.mem_cons.mp hmem with rfl | hmem
    · exact ⟨task, rfl, rfl, Or.inl ⟨i, token, Function.update_self ..⟩⟩
    · apply (h.flights.task entry hmem).of_place
      rintro task' - (⟨j, t, hj⟩ | hplace)
      · exact ((hfree j).1 task' t hj).elim
      · exact Or.inr hplace
  · intro g w hg hflag
    have hne : g ≠ task.flight := by
      rintro rfl
      cases hfresh.symm.trans hg
    show (Function.update s.flights task.flight _ g).cancelled = false
    rwa [Function.update_of_ne hne]
  · apply forall_waiters_update
    · intro x hx
      obtain rfl := List.mem_singleton.mp hx
      exact Or.inr ⟨task, Function.update_self .., rfl⟩
    · intro g _ x hx
      rcases h.waiters.belongs g x hx with heq | ⟨task', heq, -⟩
      · exact Or.inl (hkept _ _ _ heq)
      · exact ((hfree _).1 _ _ heq).elim
  · exact h.waiters.nodup_update (List.nodup_singleton _)
  · exact fun j t g hj => Or.inl (caller_of_update hj nofun).2
  · intro j t g _ _ hmem
    apply mem_waiters_update _ hmem
    rintro rfl
    rw [hempty] at hmem
    cases hmem

/-- The task of a new flight is queued and its waiter accepted. -/
theorem Inv.submit_queued (h : s.Inv stage) {i token : ℕ} {task : DnsTask} {seen : List ℕ}
    {pool : DnsWorkerPool} (hcaller : s.caller i = .submitting task token) (hsees : s.Sees seen)
    (hqueue : pool.queue = pruneQueue (seen.contains ·) s.pool.queue ++ [task]) :
    ({ s.setCaller i (.accepted token task.flight) with
      pool := pool
      dnsFlightsMutex := none } : DnsState).Inv (Function.update stage task.flight .queued) := by
  obtain ⟨hlock, hentry, hwaiters⟩ := h.flights.submitting i task token hcaller
  have hsole := fun {j} => h.flights.sole (j := j) hlock
  have hstage := h.tasks.submitting i task token hcaller
  have hrank : (stage task.flight).rank ≤ FlightStage.queued.rank := by
    rw [hstage]
    simp [FlightStage.rank]
  have hkept : ∀ j t g, s.caller j = .accepted t g →
      Function.update s.caller i (.accepted token task.flight) j = .accepted t g := by
    intro j t g hj
    have hji : j ≠ i := by
      rintro rfl
      cases hcaller.symm.trans hj
    rw [Function.update_of_ne hji]
    exact hj
  have hqueued : ∀ task' ∈ s.pool.queue, task'.flight ≠ task.flight := by
    intro task' htask' heq
    have hstage' := h.tasks.queued task' htask'
    rw [heq, hstage] at hstage'
    cases hstage'
  have htasks : ({ s with
      caller := Function.update s.caller i (.accepted token task.flight) } : DnsState).TaskInv
        (Function.update stage task.flight .queued) := by
    apply TaskInv.advance
    · exact h.tasks.callers fun j task' t hj => (caller_of_update hj nofun).2
    · exact h.registered_lt hentry
    · exact hrank
    · exact hqueued
    · rintro w g st hw rfl
      have hthree := h.tasks.three_le hw
      rw [hstage] at hthree
      exact absurd hthree (by simp [FlightStage.rank])
    · intro j task' t hj
      obtain ⟨hji, hj⟩ := caller_of_update hj nofun
      exact ((hsole hji).1 task' t hj).elim
  refine ⟨{ htasks with queued := ?_, queue_nodup := ?_ },
    ⟨h.flights.registry, ?_, ?_, ?_⟩,
    h.waiters.change rfl rfl rfl rfl (fun _ => rank_update hrank le_rfl) hkept
      (fun _ _ _ hflag => hflag) h.tasks.held
      (h.waiters.cancels_update (i := i) (c := .accepted token task.flight) nofun) ?_
      h.waiters.nodup ?_ fun _ _ _ _ _ hmem => hmem⟩
  · intro task' htask'
    change task' ∈ pool.queue at htask'
    rw [hqueue] at htask'
    rcases List.mem_append.mp htask' with htask' | htask'
    · exact htasks.queued task' (List.mem_of_mem_filter htask')
    · obtain rfl := List.mem_singleton.mp htask'
      exact Function.update_self ..
  · show (pool.queue.map DnsTask.flight).Nodup
    rw [hqueue, List.map_append, List.nodup_append]
    refine ⟨h.tasks.queue_nodup.sublist (List.filter_sublist.map _), List.nodup_singleton _, ?_⟩
    rintro a ha b hb rfl
    obtain ⟨task', htask', rfl⟩ := List.mem_map.mp ha
    exact hqueued task' (List.mem_of_mem_filter htask') (List.mem_singleton.mp hb)
  · intro j task' t hj
    obtain ⟨hji, hj⟩ := caller_of_update hj nofun
    exact ((hsole hji).1 task' t hj).elim
  · intro j t rest hj
    obtain ⟨hji, hj⟩ := caller_of_update hj nofun
    exact ((hsole hji).2 t rest hj).elim
  · intro entry hmem
    have hlive := h.flights.registry.live entry hmem
    apply (h.flights.task entry hmem).of_place
    rintro task' hflight (⟨j, t, hj⟩ | hplace | hplace)
    · right
      left
      have hji : j = i := by
        by_contra hji
        exact (hsole hji).1 task' t hj
      subst hji
      cases hcaller.symm.trans hj
      show task ∈ pool.queue
      rw [hqueue]
      exact List.mem_append_right _ (List.mem_singleton_self _)
    · right
      left
      show task' ∈ pool.queue
      rw [hqueue]
      exact List.mem_append_left _ (mem_pruneQueue hsees hplace (hflight ▸ hlive))
    · exact Or.inr (Or.inr hplace)
  · intro g x hx
    left
    rcases h.waiters.belongs g x hx with heq | ⟨task', heq, hflight⟩
    · exact hkept _ _ _ heq
    · have hji : x.call = i := by
        by_contra hji
        exact (hsole hji).1 task' _ heq
      rw [hji] at heq
      cases hcaller.symm.trans heq
      show Function.update s.caller i _ x.call = _
      rw [hji, Function.update_self, hflight]
  · intro j t g hj
    by_cases hji : j = i
    · subst hji
      cases (Function.update_self ..).symm.trans hj
      right
      show _ ∈ (s.flights task.flight).waiters
      rw [hwaiters]
      exact List.mem_singleton_self _
    · change Function.update s.caller i _ j = _ at hj
      rw [Function.update_of_ne hji] at hj
      exact Or.inl hj

/-- A flight is no longer registered, since its task is refused or its last waiter has gone. -/
theorem Inv.drop (h : s.Inv stage) {i f : ℕ} {key : Str} {c : DnsCaller} {flight : DnsFlight}
    {mutex : Option ℕ} (hlock : s.dnsFlightsMutex = some i) (hentry : (key, f) ∈ s.dnsFlights)
    (hflight : flight.waiters = [])
    (hold : ∀ token f, s.caller i ≠ .accepted token f)
    (htask : ∀ task token, s.caller i = .submitting task token → task.flight = f)
    (hnew : ∀ task token f, c ≠ .submitting task token ∧ c ≠ .accepted token f)
    (hremoving : ∀ token rest, c = .removing token rest →
      mutex = some i ∧ rest.Nodup ∧ rest ⊆ eraseKey s.dnsFlights key)
    (hcancels : ∀ token, c.cancels = some token → s.tokens token = true)
    (hgone : ∀ x ∈ (s.flights f).waiters, x.call = i ∨ s.tokens x.cancelled = true) :
    ({ (s.setFlight f flight).setCaller i c with
      dnsFlights := eraseKey s.dnsFlights key
      dnsFlightsMutex := mutex } : DnsState).Inv stage := by
  have hsole := fun {j} => h.flights.sole (j := j) hlock
  have hregistry := h.flights.registry
  have hkept : ∀ j t g, s.caller j = .accepted t g →
      Function.update s.caller i c j = .accepted t g := by
    intro j t g hj
    have hji : j ≠ i := by
      rintro rfl
      exact hold t g hj
    rw [Function.update_of_ne hji]
    exact hj
  have hsubmitting : ∀ j task token,
      Function.update s.caller i c j ≠ .submitting task token := by
    intro j task token hj
    obtain ⟨hji, hj⟩ := caller_of_update hj (hnew task token 0).1
    exact (hsole hji).1 task token hj
  refine ⟨{ h.tasks with submitting := fun j task token hj => (hsubmitting j task token hj).elim },
    ⟨hregistry.erase hentry hflight, fun j task token hj => (hsubmitting j task token hj).elim,
      ?_, ?_⟩,
    h.waiters.change rfl rfl rfl rfl (fun _ => le_rfl) hkept ?_ h.tasks.held
      (h.waiters.cancels_update hcancels) ?_ ?_ ?_ ?_⟩
  · intro j token rest hj
    change Function.update s.caller i c j = _ at hj
    by_cases hji : j = i
    · subst hji
      rw [Function.update_self] at hj
      exact hremoving token rest hj
    · rw [Function.update_of_ne hji] at hj
      exact ((hsole hji).2 token rest hj).elim
  · intro entry hmem
    have hne := hregistry.ne_of_mem_eraseKey hentry hmem
    apply (h.flights.task entry (mem_eraseKey.mp hmem).1).of_place
    rintro task hentry (⟨j, token, hj⟩ | hplace)
    · have hji : j = i := by
        by_contra hji
        exact (hsole hji).1 task token hj
      subst hji
      exact (hne (hentry.symm.trans (htask task token hj))).elim
    · exact Or.inr hplace
  · intro g w hg hflag
    have hne : g ≠ f := by
      rintro rfl
      have hrank := (h.registered_rank hentry).2
      rw [hg] at hrank
      exact absurd hrank (by simp [FlightStage.rank])
    show (Function.update s.flights f flight g).cancelled = false
    rwa [Function.update_of_ne hne]
  · apply forall_waiters_update
    · intro x hx
      rw [hflight] at hx
      cases hx
    · intro g hg x hx
      rcases h.waiters.belongs g x hx with heq | ⟨task, heq, hin⟩
      · exact Or.inl (hkept _ _ _ heq)
      · have hji : x.call = i := by
          by_contra hji
          exact (hsole hji).1 task _ heq
        rw [hji] at heq
        exact (hg (hin.symm.trans (htask task _ heq))).elim
  · apply h.waiters.nodup_update
    rw [hflight]
    exact List.nodup_nil
  · intro j token g hj
    exact Or.inl (caller_of_update hj (hnew ⟨0, [], 0, [], 0⟩ token g).2).2
  · intro j token g hj htoken hmem
    apply mem_waiters_update _ hmem
    rintro rfl
    rcases hgone _ hmem with hji | hset
    · exact absurd (hji ▸ hj) (hold token g)
    · cases htoken.symm.trans hset

/-- Some waiters leave a flight that has others. -/
theorem Inv.leave (h : s.Inv stage) {f : ℕ} {key : Str} {waiters : List DnsWaiter}
    (hfree : ∀ i task token, s.caller i ≠ .submitting task token)
    (hentry : (key, f) ∈ s.dnsFlights) (hsub : waiters.Sublist (s.flights f).waiters)
    (hne : waiters ≠ [])
    (hgone : ∀ x ∈ (s.flights f).waiters, x ∈ waiters ∨ s.tokens x.cancelled = true) :
    (s.setFlight f { s.flights f with waiters := waiters }).Inv stage := by
  have hle := Nat.le_trans hsub.length_le (h.flights.registry.waiters_le _ hentry)
  refine ⟨{ h.tasks with }, { h.flights with
      registry := h.flights.registry.update hentry hne hle
      submitting := fun i task token hi => (hfree i task token hi).elim
      task := fun entry hmem => (h.flights.task entry hmem).of_place fun _ _ hplace => hplace },
    h.waiters.change rfl rfl rfl rfl (fun _ => le_rfl) (fun _ _ _ hi => hi) ?_ h.tasks.held
      h.waiters.cancels ?_ ?_ (fun _ _ _ hi => Or.inl hi) ?_⟩
  · intro g w _ hflag
    apply unflagged_update _ g hflag
    rfl
  · apply forall_waiters_update
    · exact fun x hx => h.waiters.belongs f x (hsub.subset hx)
    · exact fun g _ => h.waiters.belongs g
  · exact h.waiters.nodup_update ((h.waiters.nodup f).sublist (hsub.map _))
  · intro j token g hj htoken hmem
    apply mem_waiters_update _ hmem
    rintro rfl
    apply (hgone _ hmem).resolve_right
    intro hset
    cases htoken.symm.trans hset

/-- A caller goes on with its loop, or enters or leaves it. -/
theorem Inv.loop (h : s.Inv stage) {i : ℕ} {c : DnsCaller} {mutex : Option ℕ}
    (hold : ∀ task token f, s.caller i ≠ .submitting task token ∧ s.caller i ≠ .accepted token f)
    (hnew : ∀ task token f, c ≠ .submitting task token ∧ c ≠ .accepted token f)
    (hfree : ∀ j task token, s.caller j ≠ .submitting task token)
    (hother : ∀ j token rest, j ≠ i → s.caller j ≠ .removing token rest)
    (hremoving : ∀ token rest, c = .removing token rest →
      mutex = some i ∧ rest.Nodup ∧ rest ⊆ s.dnsFlights)
    (hcancels : ∀ token, c.cancels = some token → s.tokens token = true) :
    ({ s.setCaller i c with dnsFlightsMutex := mutex } : DnsState).Inv stage := by
  have task : DnsTask := ⟨0, [], 0, [], 0⟩
  apply h.callers
  · exact fun j task token =>
      setCaller_caller_iff (hold task token 0).1 (hnew task token 0).1
  · exact fun j token f => setCaller_caller_iff (hold task token f).2 (hnew task token f).2
  · intro j task token hj
    exact (hfree j task token (caller_of_update hj (hnew task token 0).1).2).elim
  · intro j token rest hj
    change Function.update s.caller i c j = _ at hj
    by_cases hji : j = i
    · subst hji
      rw [Function.update_self] at hj
      exact hremoving token rest hj
    · rw [Function.update_of_ne hji] at hj
      exact (hother j token rest hji hj).elim
  · exact h.waiters.cancels_update hcancels

theorem Inv.remove (h : s.Inv stage) {i token : ℕ} {rest : List (Str × ℕ)} {entry : Str × ℕ}
    (hcaller : s.caller i = .removing token rest) (hrest : entry ∈ rest) :
    (s.remove i token rest entry).Inv stage := by
  obtain ⟨hlock, hnodup, hsub⟩ := h.flights.removing i token rest hcaller
  have hset : s.tokens token = true := h.waiters.cancels i token (by rw [hcaller]; rfl)
  have hentry := hsub hrest
  have hfree : ∀ j task t, s.caller j ≠ .submitting task t := by
    intro j task t hj
    by_cases hji : j = i
    · subst hji
      cases hcaller.symm.trans hj
    · exact (h.flights.sole hlock hji).1 task t hj
  have hcancels : ∀ t, (DnsCaller.removing token (rest.erase entry)).cancels = some t →
      s.tokens t = true := by
    rintro t ⟨⟩
    exact hset
  unfold DnsState.remove
  dsimp only
  split_ifs with hempty
  · apply h.drop hlock hentry rfl
    · intro t f hi
      cases hcaller.symm.trans hi
    · intro task t hi
      cases hcaller.symm.trans hi
    · exact fun task t f => ⟨nofun, nofun⟩
    · rintro t rest' ⟨⟩
      refine ⟨hlock, hnodup.erase entry, ?_⟩
      intro e he
      have hne : e ≠ entry := ((List.Nodup.mem_erase_iff hnodup).mp he).1
      have hmem : e ∈ s.dnsFlights := hsub (List.mem_of_mem_erase he)
      refine mem_eraseKey.mpr ⟨hmem, ?_⟩
      intro hkey
      exact hne (List.inj_on_of_nodup_map h.flights.registry.keys_nodup hmem hentry hkey)
    · exact hcancels
    · intro x hx
      right
      rw [List.filter_eq_nil_iff] at hempty
      have htoken : x.cancelled = token := by simpa using hempty x hx
      rw [htoken]
      exact hset
  · have hloop : (s.setCaller i (.removing token (rest.erase entry))).Inv stage := by
      refine h.loop (c := .removing token (rest.erase entry)) ?_
        (fun task t f => ⟨nofun, nofun⟩) hfree ?_ ?_ hcancels
      · intro task t f
        rw [hcaller]
        exact ⟨nofun, nofun⟩
      · exact fun j t rest' hji => (h.flights.sole hlock hji).2 t rest'
      · rintro t rest' ⟨⟩
        exact ⟨hlock, hnodup.erase entry, fun e he => hsub (List.mem_of_mem_erase he)⟩
    apply hloop.leave
    · intro j task t hj
      exact hfree j task t (caller_of_update hj nofun).2
    · exact hentry
    · exact List.filter_sublist
    · exact hempty
    · intro x hx
      by_cases htoken : x.cancelled = token
      · right
        rw [htoken]
        exact hset
      · left
        exact List.mem_filter.mpr ⟨hx, by simpa using htoken⟩

/-! ### Workers -/

section SetWorker

variable {w w' : Fin kWorkerCount} {v : DnsWorker}

theorem WaiterInv.inHand_nodup_setWorker (h : s.WaiterInv stage)
    (hv : (v.inHand.map DnsWaiter.call).Nodup) (w' : Fin kWorkerCount) :
    (((s.setWorker w v).worker w').inHand.map DnsWaiter.call).Nodup := by
  by_cases hww : w' = w
  · subst hww
    rwa [setWorker_worker_self]
  · rw [setWorker_worker_of_ne v hww]
    exact h.inHand_nodup w'

/-- A waiter stays in hand unless it is the worker that has changed. -/
theorem inHand_setWorker {f : ℕ} {st : FlightStage} {x : DnsWaiter}
    (hself : w' = w → v.stage w = some (f, st) ∧ x ∈ v.inHand)
    (hw' : (s.worker w').stage w' = some (f, st)) (hx : x ∈ (s.worker w').inHand) :
    ((s.setWorker w v).worker w').stage w' = some (f, st) ∧
      x ∈ ((s.setWorker w v).worker w').inHand := by
  by_cases hww : w' = w
  · have hmine := hself hww
    subst hww
    rwa [setWorker_worker_self]
  · rw [setWorker_worker_of_ne v hww]
    exact ⟨hw', hx⟩

end SetWorker

/-- A worker without waiters in hand goes on. -/
theorem WaiterInv.work (h : s.WaiterInv stage) {stage' : ℕ → FlightStage} {w : Fin kWorkerCount}
    {v : DnsWorker} {outcomes : List (ℕ × List ResolvedEndpoint)}
    (hrank : ∀ f, (stage f).rank ≤ (stage' f).rank) (hold : (s.worker w).inHand = [])
    (hnew : v.inHand = []) (houtcomes : s.outcomes ⊆ outcomes) :
    ({ s.setWorker w v with outcomes := outcomes } : DnsState).WaiterInv stage' := by
  have hhand : ∀ {w'} {x : DnsWaiter}, x ∈ ((s.setWorker w v).worker w').inHand → w' ≠ w := by
    rintro w' x hx rfl
    rw [setWorker_worker_self, hnew] at hx
    cases hx
  refine { h with inHand := ?_, inHand_nodup := ?_, inHand_called := ?_, called := ?_, waits := ?_ }
  · intro w' f st hw' x hx
    have hww := hhand hx
    change ((s.setWorker w v).worker w').stage w' = _ at hw'
    change x ∈ ((s.setWorker w v).worker w').inHand at hx
    rw [setWorker_worker_of_ne v hww] at hw' hx
    exact h.inHand w' f st hw' x hx
  · apply h.inHand_nodup_setWorker
    rw [hnew]
    exact List.nodup_nil
  · intro w' x hx
    have hww := hhand hx
    change x ∈ ((s.setWorker w v).worker w').inHand at hx
    rw [setWorker_worker_of_ne v hww] at hx
    exact h.inHand_called w' x hx
  · intro call hcall
    obtain ⟨token, f, hcaller, hsix, houtcome⟩ := h.called call hcall
    exact ⟨token, f, hcaller, Nat.le_trans hsix (hrank f), houtcomes houtcome⟩
  · intro i token f hi htoken
    refine (h.waits i token f hi htoken).imp_right (Or.imp_right ?_)
    rintro ⟨w', st, hw', hx⟩
    refine ⟨w', st, inHand_setWorker ?_ hw' hx⟩
    rintro rfl
    rw [hold] at hx
    cases hx

/-- The registered flights keep their tasks, unless a worker gives up one that is not. -/
theorem HasTask.work {w : Fin kWorkerCount} {v : DnsWorker} {entry : Str × ℕ}
    (h : s.HasTask entry)
    (hopen : ∀ task, (s.worker w).open? = some task → task.flight = entry.2 →
      v.open? = some task) : (s.setWorker w v).HasTask entry := by
  apply h.of_place
  rintro task hflight (hplace | hplace | ⟨w', hw'⟩)
  · exact Or.inl hplace
  · exact Or.inr (Or.inl hplace)
  · right
    right
    by_cases hww : w' = w
    · subst hww
      refine ⟨w', ?_⟩
      rw [setWorker_worker_self]
      exact hopen task hw' hflight
    · refine ⟨w', ?_⟩
      rwa [setWorker_worker_of_ne v hww]

theorem Inv.take (h : s.Inv stage) {w : Fin kWorkerCount} {seen : List ℕ} {task : DnsTask}
    {pool : DnsWorkerPool} (hw : s.worker w = .idle) (hsees : s.Sees seen)
    (htake : s.pool.take (seen.contains ·) = some (task, pool)) :
    ({ s.setWorker w (.taken task) with pool := pool } : DnsState).Inv
      (Function.update stage task.flight (.taken w)) := by
  obtain ⟨rest, hqueue, hrest⟩ := DnsWorkerPool.take_queue htake
  have hmem : task ∈ s.pool.queue := by
    rw [hqueue]
    exact List.mem_cons_self
  have hstage := h.tasks.queued task hmem
  have hnodup := h.tasks.queue_nodup
  rw [hqueue, List.map_cons, List.nodup_cons] at hnodup
  have hrank : (stage task.flight).rank ≤ (FlightStage.taken w).rank := by
    rw [hstage]
    simp [FlightStage.rank]
  have htasks : ({ s with pool := pool } : DnsState).TaskInv
      (Function.update stage task.flight (.taken w)) := by
    apply TaskInv.advance
    · apply h.tasks.shrink
      rw [hrest, hqueue]
      exact List.filter_sublist.cons task
    · by_contra hnot
      cases hstage.symm.trans (h.tasks.fresh task.flight (Nat.not_lt.mp hnot))
    · exact hrank
    · intro task' htask' heq
      change task' ∈ pool.queue at htask'
      rw [hrest] at htask'
      apply hnodup.1
      rw [← heq]
      exact List.mem_map_of_mem (List.mem_of_mem_filter htask')
    · rintro w' g st hw' rfl
      have hthree := h.tasks.three_le hw'
      rw [hstage] at hthree
      exact absurd hthree (by decide)
    · rintro i task' token hi heq
      have hstage' := h.tasks.submitting i task' token hi
      rw [heq, hstage] at hstage'
      cases hstage'
  refine ⟨htasks.setWorker ?_ nofun, { h.flights with task := ?_ },
    { h.waiters.work (w := w) (v := .taken task) (fun _ => rank_update hrank le_rfl)
      (by rw [hw]; rfl) rfl (List.Subset.refl s.outcomes) with }⟩
  · rintro f st ⟨⟩
    exact Function.update_self ..
  · intro entry hentry
    have hlive := h.flights.registry.live entry hentry
    apply (h.flights.task entry hentry).of_place
    rintro task' hflight (hplace | hplace | ⟨w', hw'⟩)
    · exact Or.inl hplace
    · right
      rw [hqueue] at hplace
      rcases List.mem_cons.mp hplace with rfl | hplace
      · right
        refine ⟨w, ?_⟩
        show ((s.setWorker w (.taken task')).worker w).open? = _
        rw [setWorker_worker_self]
        rfl
      · left
        show task' ∈ pool.queue
        rw [hrest]
        exact mem_pruneQueue hsees hplace (hflight ▸ hlive)
    · right
      right
      have hww : w' ≠ w := by
        rintro rfl
        rw [hw] at hw'
        cases hw'
      refine ⟨w', ?_⟩
      show ((s.setWorker w (.taken task)).worker w').open? = _
      rwa [setWorker_worker_of_ne _ hww]

/-- A worker gives up a task whose flight is not registered. -/
theorem Inv.giveUp (h : s.Inv stage) {w : Fin kWorkerCount} {v : DnsWorker}
    (hv : v.open? = none ∧ v.inHand = []) (hstage : ∀ st f, v.stage w = some (f, st) → False)
    (hold : (s.worker w).inHand = [])
    (hopen : ∀ task, (s.worker w).open? = some task →
      ∀ entry ∈ s.dnsFlights, task.flight ≠ entry.2) : (s.setWorker w v).Inv stage := by
  refine ⟨h.tasks.setWorker (fun f st hst => (hstage st f hst).elim) ?_, { h.flights with
      task := ?_ }, h.waiters.work (fun _ => le_rfl) hold hv.2 (List.Subset.refl s.outcomes)⟩
  · intro o ho
    cases v <;> cases ho <;> exact (hstage _ _ rfl).elim
  · intro entry hentry
    apply HasTask.work (h.flights.task entry hentry)
    intro task htask hflight
    exact (hopen task htask entry hentry hflight).elim

theorem Inv.not_registered (h : s.Inv stage) {f : ℕ} (hflag : (s.flights f).cancelled = true)
    {entry : Str × ℕ} (hentry : entry ∈ s.dnsFlights) : f ≠ entry.2 := by
  rintro rfl
  cases (h.flights.registry.live entry hentry).symm.trans hflag

theorem Inv.check (h : s.Inv stage) {w : Fin kWorkerCount} {task : DnsTask}
    (hw : s.worker w = .taken task) :
    (s.setWorker w (if (s.flights task.flight).cancelled then .idle else .starting task)).Inv
      stage := by
  have hold : (s.worker w).inHand = [] := by
    rw [hw]
    rfl
  split_ifs with hflag
  · refine h.giveUp (v := .idle) ⟨rfl, rfl⟩ nofun hold ?_
    intro task' htask' entry hentry
    rw [hw] at htask'
    cases htask'
    exact h.not_registered hflag hentry
  · refine ⟨h.tasks.setWorker ?_ nofun, { h.flights with task := ?_ },
      h.waiters.work (fun _ => le_rfl) hold rfl (List.Subset.refl s.outcomes)⟩
    · rintro f st ⟨⟩
      exact h.tasks.held w _ _ (by rw [hw]; rfl)
    · intro entry hentry
      apply HasTask.work (h.flights.task entry hentry)
      intro task' htask' _
      rw [hw] at htask'
      exact htask'

theorem Inv.start (h : s.Inv stage) {w : Fin kWorkerCount} {task : DnsTask}
    (hw : s.worker w = .starting task) :
    ({ s.setWorker w (.resolving task) with resolves := s.resolves ++ [task] } : DnsState).Inv
      (Function.update stage task.flight (.resolving w)) := by
  have hplace : (s.worker w).stage w = some (task.flight, .taken w) := by
    rw [hw]
    rfl
  have hstage := h.tasks.held w _ _ hplace
  have hrank : (stage task.flight).rank ≤ (FlightStage.resolving w).rank := by
    rw [hstage]
    simp [FlightStage.rank]
  have htasks : (s.setWorker w (.resolving task)).TaskInv
      (Function.update stage task.flight (.resolving w)) := by
    refine (h.tasks.release hplace (by simp [FlightStage.rank])).assign (v := .resolving task)
      ?_ nofun
    rintro f st ⟨⟩
    exact Function.update_self ..
  refine ⟨{ htasks with resolves := ?_, resolves_nodup := ?_ }, { h.flights with task := ?_ },
    { h.waiters.work (w := w) (v := .resolving task) (fun _ => rank_update hrank le_rfl)
      (by rw [hw]; rfl) rfl (List.Subset.refl s.outcomes) with }⟩
  · intro task' htask'
    rcases List.mem_append.mp htask' with htask' | htask'
    · exact htasks.resolves task' htask'
    · obtain rfl := List.mem_singleton.mp htask'
      rw [Function.update_self]
      exact le_rfl
  · show ((s.resolves ++ [task]).map DnsTask.flight).Nodup
    rw [List.map_append, List.nodup_append]
    refine ⟨h.tasks.resolves_nodup, List.nodup_singleton _, ?_⟩
    rintro a ha b hb rfl
    obtain ⟨task', htask', heq⟩ := List.mem_map.mp ha
    have hfour := h.tasks.resolves task' htask'
    rw [heq, List.mem_singleton.mp hb, hstage] at hfour
    exact absurd hfour (by simp [FlightStage.rank])
  · intro entry hentry
    apply HasTask.work (h.flights.task entry hentry)
    intro task' htask' _
    rw [hw] at htask'
    exact htask'

theorem Inv.resolved (h : s.Inv stage) {w : Fin kWorkerCount} {task : DnsTask}
    (hw : s.worker w = .resolving task) (endpoints : List ResolvedEndpoint) :
    ({ s.setWorker w (.resolved task endpoints) with
      outcomes := s.outcomes ++ [(task.flight, endpoints)] } : DnsState).Inv
        (Function.update stage task.flight (.resolved w)) := by
  have hplace : (s.worker w).stage w = some (task.flight, .resolving w) := by
    rw [hw]
    rfl
  have hstage := h.tasks.held w _ _ hplace
  have hrank : (stage task.flight).rank ≤ (FlightStage.resolved w).rank := by
    rw [hstage]
    simp [FlightStage.rank]
  have hfree : (s.setWorker w .idle).TaskInv (Function.update stage task.flight (.resolved w)) :=
    h.tasks.release hplace (by simp [FlightStage.rank])
  have hlonger : ({ s with
      outcomes := s.outcomes ++ [(task.flight, endpoints)] } : DnsState).setWorker w .idle |>.TaskInv
        (Function.update stage task.flight (.resolved w)) := by
    refine { hfree with outcomes := ?_, outcomes_nodup := ?_, outcome := ?_ }
    · intro o ho
      rcases List.mem_append.mp ho with ho | ho
      · exact hfree.outcomes o ho
      · obtain rfl := List.mem_singleton.mp ho
        rw [Function.update_self]
        exact le_rfl
    · show ((s.outcomes ++ [(task.flight, endpoints)]).map Prod.fst).Nodup
      rw [List.map_append, List.nodup_append]
      refine ⟨h.tasks.outcomes_nodup, List.nodup_singleton _, ?_⟩
      rintro a ha b hb rfl
      obtain ⟨o, ho, heq⟩ := List.mem_map.mp ha
      have hfive := h.tasks.outcomes o ho
      rw [heq, List.mem_singleton.mp hb, hstage] at hfive
      exact absurd hfive (by simp [FlightStage.rank])
    · exact fun w' o ho => List.mem_append_left _ (hfree.outcome w' o ho)
  refine ⟨hlonger.assign ?_ ?_, { h.flights with task := ?_ },
    h.waiters.work (fun _ => rank_update hrank le_rfl) (by rw [hw]; rfl) rfl
      (List.subset_append_left ..)⟩
  · rintro f st ⟨⟩
    exact Function.update_self ..
  · rintro o ⟨⟩
    exact List.mem_append_right _ (List.mem_singleton_self _)
  · intro entry hentry
    apply HasTask.work (h.flights.task entry hentry)
    intro task' htask' _
    rw [hw] at htask'
    exact htask'

/-- The task at hand before the waiters are taken over is that of its registered flight. -/
theorem Inv.key_of_registered (h : s.Inv stage) (hlock : s.dnsFlightsMutex = none)
    {w : Fin kWorkerCount} {task : DnsTask} (hw : (s.worker w).open? = some task)
    {entry : Str × ℕ} (hentry : entry ∈ s.dnsFlights) (hflight : task.flight = entry.2) :
    s.dnsFlights.lookup task.key = some task.flight := by
  obtain ⟨st, hst, hthree, -⟩ := DnsWorker.stage_of_open? (w := w) hw
  obtain ⟨task', hkey, hflight', hplace⟩ := h.flights.task entry hentry
  have hsame : task'.flight = task.flight := hflight'.trans hflight.symm
  rcases hplace with ⟨i, token, hi⟩ | hqueue | ⟨w', hw'⟩
  · exact ((h.flights.free hlock i).1 task' token hi).elim
  · have hqueued := h.tasks.queued task' hqueue
    rw [hsame, h.tasks.held w _ st hst] at hqueued
    rw [hqueued] at hthree
    exact absurd hthree (by decide)
  · obtain ⟨st', hst', -, -⟩ := DnsWorker.stage_of_open? (w := w') hw'
    rw [hsame] at hst'
    have hww := h.tasks.worker_unique hst hst'
    subst hww
    cases hw.symm.trans hw'
    rw [hkey, hflight]
    exact h.flights.registry.lookup_eq_some.mpr hentry

/-- The worker finds another flight at its key, or none. -/
theorem Inv.collect_none (h : s.Inv stage) {w : Fin kWorkerCount} {task : DnsTask}
    {endpoints : List ResolvedEndpoint} (hlock : s.dnsFlightsMutex = none)
    (hw : s.worker w = .resolved task endpoints)
    (hlookup : s.dnsFlights.lookup task.key ≠ some task.flight) :
    (s.setWorker w (.delivering task endpoints [])).Inv
      (Function.update stage task.flight (.delivering w)) := by
  have hplace : (s.worker w).stage w = some (task.flight, .resolved w) := by
    rw [hw]
    rfl
  have hopen : (s.worker w).open? = some task := by
    rw [hw]
    rfl
  have hstage := h.tasks.held w _ _ hplace
  have hrank : (stage task.flight).rank ≤ (FlightStage.delivering w).rank := by
    rw [hstage]
    simp [FlightStage.rank]
  have hout := h.tasks.outcome w (task.flight, endpoints) (by rw [hw]; rfl)
  refine ⟨(h.tasks.release hplace (by simp [FlightStage.rank])).assign ?_ ?_,
    { h.flights with task := ?_ },
    h.waiters.work (fun _ => rank_update hrank le_rfl) (by rw [hw]; rfl) rfl
      (List.Subset.refl s.outcomes)⟩
  · rintro f st ⟨⟩
    exact Function.update_self ..
  · rintro o ⟨⟩
    exact hout
  · intro entry hentry
    apply HasTask.work (h.flights.task entry hentry)
    intro task' htask' hflight
    cases hopen.symm.trans htask'
    exact (hlookup (h.key_of_registered hlock hopen hentry hflight)).elim

/-- The worker takes over the waiters of its flight. -/
theorem Inv.collect_some (h : s.Inv stage) {w : Fin kWorkerCount} {task : DnsTask}
    {endpoints : List ResolvedEndpoint} (hlock : s.dnsFlightsMutex = none)
    (hw : s.worker w = .resolved task endpoints)
    (hentry : (task.key, task.flight) ∈ s.dnsFlights) :
    ({ (s.setFlight task.flight { s.flights task.flight with waiters := [] }).setWorker w
        (.delivering task endpoints (s.flights task.flight).waiters) with
      dnsFlights := eraseKey s.dnsFlights task.key } : DnsState).Inv
        (Function.update stage task.flight (.delivering w)) := by
  have hfree := h.flights.free hlock
  have hregistry := h.flights.registry
  have hplace : (s.worker w).stage w = some (task.flight, .resolved w) := by
    rw [hw]
    rfl
  have hopen : (s.worker w).open? = some task := by
    rw [hw]
    rfl
  have hstage := h.tasks.held w _ _ hplace
  have hrank : (stage task.flight).rank ≤ (FlightStage.delivering w).rank := by
    rw [hstage]
    simp [FlightStage.rank]
  have hout := h.tasks.outcome w (task.flight, endpoints) (by rw [hw]; rfl)
  have haccepted : ∀ g, ∀ x ∈ (s.flights g).waiters, s.caller x.call = .accepted x.cancelled g :=
    fun g x hx => (h.waiters.belongs g x hx).resolve_right
      fun ⟨task, heq, _⟩ => (hfree _).1 _ _ heq
  have htasks : (s.setWorker w
      (.delivering task endpoints (s.flights task.flight).waiters)).TaskInv
        (Function.update stage task.flight (.delivering w)) := by
    apply (h.tasks.release hplace (by simp [FlightStage.rank])).assign
    · rintro f st ⟨⟩
      exact Function.update_self ..
    · rintro o ⟨⟩
      exact hout
  have hworker : ∀ w', w' ≠ w → (s.setWorker w
      (.delivering task endpoints (s.flights task.flight).waiters)).worker w' = s.worker w' :=
    fun w' hww => setWorker_worker_of_ne _ hww
  have hmine : (s.setWorker w
      (.delivering task endpoints (s.flights task.flight).waiters)).worker w =
        .delivering task endpoints (s.flights task.flight).waiters := setWorker_worker_self _
  refine ⟨{ htasks with }, ⟨hregistry.erase hentry rfl,
    fun i task' token hi => ((hfree i).1 task' token hi).elim,
    fun i token rest hi => ((hfree i).2 token rest hi).elim, ?_⟩,
    ⟨h.waiters.cancels, ?_, ?_, ?_, ?_, ?_, ?_, h.waiters.called_nodup, ?_⟩⟩
  · intro entry hmem
    have hne := hregistry.ne_of_mem_eraseKey hentry hmem
    apply HasTask.work (h.flights.task entry (mem_eraseKey.mp hmem).1)
    intro task' htask' hflight
    cases hopen.symm.trans htask'
    exact (hne hflight.symm).elim
  · apply forall_waiters_update
    · nofun
    · exact fun g _ x hx => Or.inl (haccepted g x hx)
  · exact h.waiters.nodup_update List.nodup_nil
  · intro w' f st hw' x hx
    show s.caller x.call = _ ∧ (Function.update s.flights task.flight _ f).cancelled = false
    change ((s.setWorker w _).worker w').stage w' = _ at hw'
    change x ∈ ((s.setWorker w _).worker w').inHand at hx
    by_cases hww : w' = w
    · subst hww
      rw [hmine] at hw' hx
      cases hw'
      rw [Function.update_self]
      exact ⟨haccepted _ x hx, hregistry.live _ hentry⟩
    · rw [hworker w' hww] at hw' hx
      have hne : f ≠ task.flight := by
        rintro rfl
        exact hww (h.tasks.worker_unique hw' hplace)
      rw [Function.update_of_ne hne]
      exact h.waiters.inHand w' f st hw' x hx
  · exact h.waiters.inHand_nodup_setWorker (h.waiters.nodup task.flight)
  · intro w' x hx hcalled
    change x ∈ ((s.setWorker w _).worker w').inHand at hx
    by_cases hww : w' = w
    · subst hww
      rw [hmine] at hx
      obtain ⟨call, hcall, heq⟩ := List.mem_map.mp hcalled
      obtain ⟨token, f, hcaller, hsix, -⟩ := h.waiters.called call hcall
      rw [heq, haccepted _ x hx] at hcaller
      cases hcaller
      rw [hstage] at hsix
      exact absurd hsix (by simp [FlightStage.rank])
    · rw [hworker w' hww] at hx
      exact h.waiters.inHand_called w' x hx hcalled
  · intro call hcall
    obtain ⟨token, f, hcaller, hsix, houtcome⟩ := h.waiters.called call hcall
    exact ⟨token, f, hcaller, rank_update hrank hsix, houtcome⟩
  · intro i token f hi htoken
    rcases h.waiters.waits i token f hi htoken with hc | hmem | ⟨w', st, hw', hx⟩
    · exact Or.inl hc
    · right
      by_cases hf : f = task.flight
      · right
        refine ⟨w, .delivering w, ?_⟩
        show ((s.setWorker w _).worker w).stage w = _ ∧ _ ∈ ((s.setWorker w _).worker w).inHand
        rw [hmine, hf]
        exact ⟨rfl, hf ▸ hmem⟩
      · left
        exact mem_waiters_update (fun heq => absurd heq hf) hmem
    · right
      right
      refine ⟨w', st, inHand_setWorker ?_ hw' hx⟩
      rintro rfl
      rw [hw] at hx
      cases hx

theorem Inv.test (h : s.Inv stage) {w : Fin kWorkerCount} {task : DnsTask}
    {endpoints : List ResolvedEndpoint} {waiter : DnsWaiter} {waiters : List DnsWaiter}
    (hw : s.worker w = .delivering task endpoints (waiter :: waiters)) {v : DnsWorker}
    (hv : v = .delivering task endpoints waiters ∧ s.tokens waiter.cancelled = true ∨
      v = .calling task endpoints waiter waiters) : (s.setWorker w v).Inv stage := by
  have hplace : (s.worker w).stage w = some (task.flight, .delivering w) := by
    rw [hw]
    rfl
  have hstage : v.stage w = (s.worker w).stage w := by
    rw [hplace]
    rcases hv with ⟨rfl, -⟩ | rfl <;> rfl
  have hin : (s.worker w).inHand = waiter :: waiters := by
    rw [hw]
    rfl
  have hsub : v.inHand.Sublist (s.worker w).inHand := by
    rw [hin]
    rcases hv with ⟨rfl, -⟩ | rfl
    · exact List.sublist_cons_self _ _
    · exact List.Sublist.refl _
  have hother : ∀ w', w' ≠ w → (s.setWorker w v).worker w' = s.worker w' :=
    fun w' hww => setWorker_worker_of_ne v hww
  refine ⟨h.tasks.setWorker ?_ ?_, { h.flights with task := ?_ }, { h.waiters with
    inHand := ?_
    inHand_nodup := ?_
    inHand_called := ?_
    waits := ?_ }⟩
  · intro f st hst
    exact h.tasks.held w f st (hstage ▸ hst)
  · intro o ho
    apply h.tasks.outcome w o
    rw [hw]
    rcases hv with ⟨rfl, -⟩ | rfl <;> exact ho
  · intro entry hentry
    apply HasTask.work (h.flights.task entry hentry)
    intro task' htask' _
    rw [hw] at htask'
    cases htask'
  · intro w' f st hw' x hx
    by_cases hww : w' = w
    · subst hww
      rw [setWorker_worker_self] at hw' hx
      exact h.waiters.inHand w' f st (hstage ▸ hw') x (hsub.subset hx)
    · rw [hother w' hww] at hw' hx
      exact h.waiters.inHand w' f st hw' x hx
  · exact h.waiters.inHand_nodup_setWorker ((h.waiters.inHand_nodup w).sublist (hsub.map _))
  · intro w' x hx
    by_cases hww : w' = w
    · subst hww
      rw [setWorker_worker_self] at hx
      exact h.waiters.inHand_called w' x (hsub.subset hx)
    · rw [hother w' hww] at hx
      exact h.waiters.inHand_called w' x hx
  · intro i token f hi htoken
    refine (h.waiters.waits i token f hi htoken).imp_right (Or.imp_right ?_)
    rintro ⟨w', st, hw', hx⟩
    refine ⟨w', st, inHand_setWorker ?_ hw' hx⟩
    rintro rfl
    refine ⟨hstage.trans hw', ?_⟩
    rw [hin] at hx
    rcases hv with ⟨rfl, hset⟩ | rfl
    · rcases List.mem_cons.mp hx with rfl | hx
      · cases htoken.symm.trans hset
      · exact hx
    · exact hx

theorem Inv.call (h : s.Inv stage) {w : Fin kWorkerCount} {task : DnsTask}
    {endpoints : List ResolvedEndpoint} {waiter : DnsWaiter} {waiters : List DnsWaiter}
    (hw : s.worker w = .calling task endpoints waiter waiters) :
    ({ s.setWorker w (.delivering task endpoints waiters) with
      called := s.called ++ [(waiter.call, endpoints)] } : DnsState).Inv stage := by
  have hplace : (s.worker w).stage w = some (task.flight, .delivering w) := by
    rw [hw]
    rfl
  have hin : (s.worker w).inHand = waiter :: waiters := by
    rw [hw]
    rfl
  have hout := h.tasks.outcome w (task.flight, endpoints) (by rw [hw]; rfl)
  have hmem : waiter ∈ (s.worker w).inHand := by
    rw [hin]
    exact List.mem_cons_self
  have hmine := h.waiters.inHand w _ _ hplace waiter hmem
  have hnodup := h.waiters.inHand_nodup w
  rw [hin, List.map_cons, List.nodup_cons] at hnodup
  have hother : ∀ w', w' ≠ w → (s.setWorker w (.delivering task endpoints waiters)).worker w' =
      s.worker w' := fun w' hww => setWorker_worker_of_ne _ hww
  have hself : (s.setWorker w (.delivering task endpoints waiters)).worker w =
      .delivering task endpoints waiters := setWorker_worker_self _
  have htasks : (s.setWorker w (.delivering task endpoints waiters)).TaskInv stage := by
    apply h.tasks.setWorker
    · rintro f st ⟨⟩
      exact h.tasks.held w _ _ hplace
    · rintro o ⟨⟩
      exact hout
  -- another worker has other flights, hence other waiters
  have hapart : ∀ w', w' ≠ w → ∀ x ∈ (s.worker w').inHand, x.call ≠ waiter.call := by
    intro w' hww x hx heq
    obtain ⟨f, hf⟩ := DnsWorker.stage_of_mem_inHand (w := w') hx
    have hcaller := (h.waiters.inHand w' f _ hf x hx).1
    rw [heq, hmine.1] at hcaller
    injection hcaller with _ hflight
    subst hflight
    exact hww (h.tasks.worker_unique hf hplace)
  refine ⟨{ htasks with }, { h.flights with task := ?_ }, { h.waiters with
    inHand := ?_
    inHand_nodup := ?_
    inHand_called := ?_
    called := ?_
    called_nodup := ?_
    waits := ?_ }⟩
  · intro entry hentry
    apply HasTask.work (h.flights.task entry hentry)
    intro task' htask' _
    rw [hw] at htask'
    cases htask'
  · intro w' f st hw' x hx
    change ((s.setWorker w _).worker w').stage w' = _ at hw'
    change x ∈ ((s.setWorker w _).worker w').inHand at hx
    by_cases hww : w' = w
    · subst hww
      rw [hself] at hw' hx
      refine h.waiters.inHand w' f st ?_ x ?_
      · rw [hplace, ← hw']
        rfl
      · rw [hin]
        exact List.mem_cons_of_mem _ hx
    · rw [hother w' hww] at hw' hx
      exact h.waiters.inHand w' f st hw' x hx
  · exact h.waiters.inHand_nodup_setWorker hnodup.2
  · intro w' x hx
    change x ∈ ((s.setWorker w _).worker w').inHand at hx
    show x.call ∉ (s.called ++ [(waiter.call, endpoints)]).map Prod.fst
    rw [List.map_append, List.mem_append, not_or]
    by_cases hww : w' = w
    · subst hww
      rw [hself] at hx
      refine ⟨h.waiters.inHand_called w' x ?_, ?_⟩
      · rw [hin]
        exact List.mem_cons_of_mem _ hx
      · intro heq
        have hcall : x.call = waiter.call := List.mem_singleton.mp heq
        apply hnodup.1
        rw [← hcall]
        exact List.mem_map_of_mem hx
    · rw [hother w' hww] at hx
      exact ⟨h.waiters.inHand_called w' x hx,
        fun heq => hapart w' hww x hx (List.mem_singleton.mp heq)⟩
  · intro call hcall
    rcases List.mem_append.mp hcall with hcall | hcall
    · exact h.waiters.called call hcall
    · obtain rfl := List.mem_singleton.mp hcall
      refine ⟨waiter.cancelled, task.flight, hmine.1, ?_, hout⟩
      rw [h.tasks.held w _ _ hplace]
      exact le_rfl
  · show ((s.called ++ [(waiter.call, endpoints)]).map Prod.fst).Nodup
    rw [List.map_append, List.nodup_append]
    refine ⟨h.waiters.called_nodup, List.nodup_singleton _, ?_⟩
    rintro a ha b hb rfl
    rw [List.mem_singleton.mp hb] at ha
    exact h.waiters.inHand_called w waiter hmem ha
  · intro i token f hi htoken
    show i ∈ (s.called ++ [(waiter.call, endpoints)]).map Prod.fst ∨ _
    rw [List.map_append, List.mem_append]
    rcases h.waiters.waits i token f hi htoken with hc | hwaits | ⟨w', st, hw', hx⟩
    · exact Or.inl (Or.inl hc)
    · exact Or.inr (Or.inl hwaits)
    · by_cases heq : i = waiter.call
      · left
        right
        rw [heq]
        exact List.mem_singleton_self _
      · right
        right
        refine ⟨w', st, inHand_setWorker ?_ hw' hx⟩
        rintro rfl
        rw [hin] at hx
        refine ⟨hplace.symm.trans hw', (List.mem_cons.mp hx).resolve_left ?_⟩
        rintro rfl
        exact heq rfl

/-! ### Every step -/

theorem Inv.join (h : s.Inv stage) {i resolver port token : ℕ} {host key : Str}
    (hlock : s.dnsFlightsMutex = none)
    (hcaller : s.caller i = .joining resolver host port key token) :
    ∃ stage', (s.join i resolver host port key token).Inv stage' := by
  have hquiet : (s.caller i).Quiet := by
    rw [hcaller]
    trivial
  unfold DnsState.join
  cases hlookup : s.dnsFlights.lookup key with
  | none =>
    exact ⟨_, h.join_new hlock hquiet (show s.dnsFlights.lookup
      (DnsTask.key ⟨resolver, host, port, key, s.allocated⟩) = none from hlookup) rfl⟩
  | some f =>
    dsimp only
    split_ifs with hfull
    · exact ⟨stage, h.setCaller hquiet trivial nofun⟩
    · exact ⟨stage, h.join_existing hlock hquiet (h.flights.registry.lookup_eq_some.mp hlookup)
        (Nat.not_le.mp hfull)⟩

theorem Inv.submit (h : s.Inv stage) {i token : ℕ} {task : DnsTask} {seen : List ℕ}
    (hcaller : s.caller i = .submitting task token) (hsees : s.Sees seen) :
    ∃ stage', (s.submit i task token seen).Inv stage' := by
  unfold DnsState.submit
  dsimp only
  rcases s.pool.submit_queue (seen.contains ·) task with
    ⟨htrue, hqueue⟩ | ⟨hfalse, hqueue⟩
  · rw [if_pos htrue]
    exact ⟨_, h.submit_queued hcaller hsees hqueue⟩
  · rw [if_neg (by rw [hfalse]; exact Bool.false_ne_true)]
    obtain ⟨hlock, hentry, hwaiters⟩ := h.flights.submitting i task token hcaller
    have hpool : ({ s with pool := (s.pool.submit (seen.contains ·) task).1 } : DnsState).Inv
        stage := by
      rcases hqueue with hsame | hpruned
      · apply h.setPool
        · rw [hsame]
        · intro task' htask' _
          rwa [hsame]
      · exact h.prune hsees hpruned
    refine ⟨stage, hpool.drop (c := .returned false) hlock hentry rfl ?_ ?_
      (fun _ _ _ => ⟨nofun, nofun⟩) nofun nofun ?_⟩
    · intro t f hi
      cases hcaller.symm.trans hi
    · intro task' t hi
      cases hcaller.symm.trans hi
      rfl
    · intro x hx
      change x ∈ (s.flights task.flight).waiters at hx
      rw [hwaiters] at hx
      obtain rfl := List.mem_singleton.mp hx
      exact Or.inl rfl

theorem Inv.collect (h : s.Inv stage) {w : Fin kWorkerCount} {task : DnsTask}
    {endpoints : List ResolvedEndpoint} (hlock : s.dnsFlightsMutex = none)
    (hw : s.worker w = .resolved task endpoints) :
    ∃ stage', (s.collect w task endpoints).Inv stage' := by
  unfold DnsState.collect
  split_ifs with hlookup
  · exact ⟨_, h.collect_some hlock hw (h.flights.registry.lookup_eq_some.mp hlookup)⟩
  · exact ⟨_, h.collect_none hlock hw hlookup⟩

theorem Inv.step (h : s.Inv stage) {label : DnsLabel} {s' : DnsState}
    (hstep : s.step label = some s') : ∃ stage', s'.Inv stage' := by
  cases step_cases hstep with
  | resolveAsync hcaller hc =>
    refine ⟨stage, h.setCaller (by rw [hcaller]; trivial) ?_ ?_⟩
    · rcases hc with ⟨ok, rfl⟩ | ⟨_, _, _, rfl⟩ <;> trivial
    · rcases hc with ⟨ok, rfl⟩ | ⟨_, _, _, rfl⟩ <;> nofun
  | join hlock hcaller => exact h.join hlock hcaller
  | submit hcaller hsees => exact h.submit hcaller hsees
  | cancelNone hcaller =>
    exact ⟨stage, h.setCaller (by rw [hcaller]; trivial) trivial nofun⟩
  | cancelResolve hcaller =>
    rename_i i token
    refine ⟨stage, (h.setToken token).setCaller (c := .cancelling token) ?_ trivial ?_⟩
    · rw [hcaller]
      trivial
    · rintro _ ⟨⟩
      exact Function.update_self ..
  | lockFlights hlock hcaller =>
    rename_i i token
    have hfree := h.flights.free hlock
    refine ⟨stage, h.loop (c := .removing token s.dnsFlights) ?_ (fun _ _ _ => ⟨nofun, nofun⟩)
      (fun j task t => (hfree j).1 task t) (fun j t rest _ => (hfree j).2 t rest) ?_ ?_⟩
    · intro task t f
      rw [hcaller]
      exact ⟨nofun, nofun⟩
    · rintro t rest ⟨⟩
      exact ⟨rfl, h.flights.registry.keys_nodup.of_map, List.Subset.refl _⟩
    · rintro t ⟨⟩
      exact h.waiters.cancels i token (by rw [hcaller]; rfl)
  | remove hcaller hentry => exact ⟨stage, h.remove hcaller hentry⟩
  | unlockFlights hcaller =>
    rename_i i token
    obtain ⟨hlock, -⟩ := h.flights.removing i token [] hcaller
    have hsole := fun {j} => h.flights.sole (j := j) hlock
    refine ⟨stage, h.loop (c := .pruning token) ?_ (fun _ _ _ => ⟨nofun, nofun⟩) ?_
      (fun j t rest hji => (hsole hji).2 t rest) nofun ?_⟩
    · intro task t f
      rw [hcaller]
      exact ⟨nofun, nofun⟩
    · intro j task t hj
      by_cases hji : j = i
      · subst hji
        cases hcaller.symm.trans hj
      · exact (hsole hji).1 task t hj
    · rintro t ⟨⟩
      exact h.waiters.cancels i token (by rw [hcaller]; rfl)
  | pruneCancelled hcaller hsees =>
    have hpruned := h.prune hsees DnsWorkerPool.pruneCancelled_queue
    refine ⟨stage, hpruned.setCaller (c := .cancelled) ?_ trivial nofun⟩
    rw [hcaller]
    trivial
  | take hworker hsees htake => exact ⟨_, h.take hworker hsees htake⟩
  | check hworker => exact ⟨stage, h.check hworker⟩
  | drop hworker hflag =>
    refine ⟨stage, h.giveUp (v := .idle) ⟨rfl, rfl⟩ nofun (by rw [hworker]; rfl) ?_⟩
    intro task htask entry hentry
    rw [hworker] at htask
    cases htask
    exact h.not_registered hflag hentry
  | start hworker => exact ⟨_, h.start hworker⟩
  | resolved hworker => exact ⟨_, h.resolved hworker _⟩
  | collect hlock hworker => exact h.collect hlock hworker
  | skip hworker htoken => exact ⟨stage, h.test hworker (Or.inl ⟨rfl, htoken⟩)⟩
  | test hworker htoken => exact ⟨stage, h.test hworker (Or.inr rfl)⟩
  | call hworker => exact ⟨stage, h.call hworker⟩
  | finish hworker =>
    refine ⟨stage, h.giveUp (v := .idle) ⟨rfl, rfl⟩ nofun (by rw [hworker]; rfl) ?_⟩
    intro task htask
    rw [hworker] at htask
    cases htask
  | stop => exact ⟨stage, h.setPool (List.Sublist.refl _) fun _ htask _ => htask⟩
  | exit hworker =>
    refine ⟨stage, h.giveUp (v := .exited) ⟨rfl, rfl⟩ nofun (by rw [hworker]; rfl) ?_⟩
    intro task htask
    rw [hworker] at htask
    cases htask

/-- Every state of every run is one in which the flights have a life. -/
theorem run_inv {labels : List DnsLabel} (hrun : run step {} labels = some s) :
    ∃ stage, s.Inv stage := by
  apply run_invariant_of_step _ hrun ⟨_, inv_initial⟩
  rintro t label t' ⟨stage, h⟩ hstep
  exact h.step hstep

end DnsState

end KatHttp3
