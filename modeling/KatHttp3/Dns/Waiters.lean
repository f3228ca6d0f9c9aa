import KatHttp3.Dns.FlightRuns

/-!
# What the waiters of name resolution can rely on

In every run, whatever the order in which callers and workers take their steps:
a waiter is called once at most, it is not forgotten while its token is unset,
and the cancellation of one token is not felt by the waiters of others.
-/

namespace KatHttp3

open Transition

namespace DnsState

variable {s : DnsState}

/-- The task of the flight is queued, pending or in the hands of a worker. -/
def HasWork (s : DnsState) (f : ℕ) : Prop :=
  (∃ task ∈ s.pool.tasks, task.flight = f) ∨ (∃ task ∈ s.pool.pendingHosts, task.flight = f) ∨
    ∃ w st, (s.worker w).stage w = some (f, st)

/-- The waiter is one of a registered flight, or a worker that has taken over the waiters of
the flight has still to call it. -/
def Waiting (s : DnsState) (f : ℕ) (x : DnsWaiter) : Prop :=
  (∃ key, (key, f) ∈ s.dnsFlights) ∧ x ∈ (s.flights f).waiters ∨
    ∃ w st, (s.worker w).stage w = some (f, st) ∧ x ∈ (s.worker w).inHand

/-- A worker has found the token of the waiter unset and calls it, or has called it. -/
def Checked (s : DnsState) (i : ℕ) : Prop :=
  i ∈ s.called.map Prod.fst ∨ ∃ w task endpoints waiter waiters,
    s.worker w = .calling task endpoints waiter waiters ∧ waiter.call = i

/-- The step is one of `cancel_resolve` for the token. -/
def Cancels (s : DnsState) : DnsLabel → ℕ → Prop
  | .cancelResolve _ cancelled, token => cancelled = some token
  | .lockFlights i, token => (s.caller i).cancels = some token
  | .remove i _, token => (s.caller i).cancels = some token
  | .unlockFlights i, token => (s.caller i).cancels = some token
  | .pruneCancelled i _, token => (s.caller i).cancels = some token
  | _, _ => False

/-- What holds in a state. -/
structure SingleFlight (s : DnsState) : Prop where
  called_once : (s.called.map Prod.fst).Nodup
  waiting : ∀ i token f, s.caller i = .accepted token f → s.tokens token = false →
    i ∉ s.called.map Prod.fst → s.Waiting f ⟨i, token⟩ ∧ s.HasWork f
  ended : ∀ i token f, s.caller i = .accepted token f → s.tokens token = false →
    ¬ s.HasWork f → i ∈ s.called.map Prod.fst
  received : ∀ call ∈ s.called, ∃ token f, s.caller call.1 = .accepted token f ∧
    (f, call.2) ∈ s.outcomes
  outcomes_once : (s.outcomes.map Prod.fst).Nodup
  resolves_once : (s.resolves.map DnsTask.flight).Nodup
  flag : ∀ f, (s.flights f).cancelled = true →
    (s.flights f).waiters = [] ∧ ∀ x, ¬ s.Waiting f x
  waiters_le : ∀ f, (s.flights f).waiters.length ≤ kMaxDnsFlightWaiters
  tasks_le : s.pool.tasks.length ≤ kMaxQueuedTasks
  pendingHosts_le : s.pool.pendingHosts.length ≤ kMaxPendingHosts
  full : s.pool.pendingHosts ≠ [] → s.pool.tasks.length = kMaxQueuedTasks

/-- The flights that have a waiter of another token are left as they are, but for the waiters
of the token, and so are the callers, the workers and what they have done. -/
structure KeepsOthers (token : ℕ) (s s' : DnsState) : Prop where
  flights : ∀ f, (∃ x ∈ (s.flights f).waiters, x.cancelled ≠ token) →
    (s'.flights f).cancelled = (s.flights f).cancelled ∧
    (s'.flights f).waiters.filter (fun x => x.cancelled ≠ token) =
      (s.flights f).waiters.filter (fun x => x.cancelled ≠ token) ∧
    (∀ key, (key, f) ∈ s.dnsFlights → (key, f) ∈ s'.dnsFlights) ∧
    s'.pool.queue.filter (fun task => task.flight = f) =
      s.pool.queue.filter (fun task => task.flight = f)
  accepted : ∀ i token f, s.caller i = .accepted token f → s'.caller i = .accepted token f
  tokens : ∀ t, t ≠ token → s'.tokens t = s.tokens t
  worker : s'.worker = s.worker
  resolves : s'.resolves = s.resolves
  outcomes : s'.outcomes = s.outcomes
  called : s'.called = s.called

/-! ### States -/

variable {stage : ℕ → FlightStage}

/-- An accepted waiter of a registered flight does not have to wait for the submission. -/
theorem Inv.hasWork (h : s.Inv stage) {i token f : ℕ} {key : Str}
    (hcaller : s.caller i = .accepted token f) (hentry : (key, f) ∈ s.dnsFlights)
    (hmem : ⟨i, token⟩ ∈ (s.flights f).waiters) : s.HasWork f := by
  obtain ⟨task, -, hflight, hplace⟩ := h.flights.task _ hentry
  rcases hplace with ⟨j, t, hj⟩ | hqueue | ⟨w, hw⟩
  · have hwaiters := (h.flights.submitting j task t hj).2.2
    rw [hflight] at hwaiters
    rw [hwaiters] at hmem
    cases List.mem_singleton.mp hmem
    cases hcaller.symm.trans hj
  · rcases List.mem_append.mp hqueue with hqueue | hqueue
    · exact Or.inl ⟨task, hqueue, hflight⟩
    · exact Or.inr (Or.inl ⟨task, hqueue, hflight⟩)
  · obtain ⟨st, hst, -, -⟩ := DnsWorker.stage_of_open? (w := w) hw
    rw [hflight] at hst
    exact Or.inr (Or.inr ⟨w, st, hst⟩)

theorem Inv.waiting (h : s.Inv stage) {i token f : ℕ} (hcaller : s.caller i = .accepted token f)
    (htoken : s.tokens token = false) (hcalled : i ∉ s.called.map Prod.fst) :
    s.Waiting f ⟨i, token⟩ ∧ s.HasWork f := by
  rcases h.waiters.waits i token f hcaller htoken with hin | hmem | ⟨w, st, hst, hx⟩
  · exact absurd hin hcalled
  · have hregistered : f ∈ s.dnsFlights.map Prod.snd := by
      by_contra hnot
      rw [h.flights.registry.unregistered f hnot] at hmem
      cases hmem
    obtain ⟨⟨key, g⟩, hentry, rfl⟩ := List.mem_map.mp hregistered
    exact ⟨Or.inl ⟨⟨key, hentry⟩, hmem⟩, h.hasWork hcaller hentry hmem⟩
  · exact ⟨Or.inr ⟨w, st, hst, hx⟩, Or.inr (Or.inr ⟨w, st, hst⟩)⟩

theorem Inv.waiters_eq_nil (h : s.Inv stage) {f : ℕ} (hflag : (s.flights f).cancelled = true) :
    (s.flights f).waiters = [] := by
  apply h.flights.registry.unregistered
  intro hmem
  obtain ⟨entry, hentry, rfl⟩ := List.mem_map.mp hmem
  exact h.not_registered hflag hentry rfl

theorem Inv.waiters_le (h : s.Inv stage) (f : ℕ) :
    (s.flights f).waiters.length ≤ kMaxDnsFlightWaiters := by
  by_cases hmem : f ∈ s.dnsFlights.map Prod.snd
  · obtain ⟨entry, hentry, rfl⟩ := List.mem_map.mp hmem
    exact h.flights.registry.waiters_le entry hentry
  · rw [h.flights.registry.unregistered f hmem]
    exact Nat.zero_le _

theorem Inv.singleFlight (h : s.Inv stage) : s.SingleFlight where
  called_once := h.waiters.called_nodup
  waiting := fun _ _ _ hcaller htoken hcalled => h.waiting hcaller htoken hcalled
  ended := by
    intro i token f hcaller htoken hended
    by_contra hcalled
    exact hended (h.waiting hcaller htoken hcalled).2
  received := by
    intro call hcall
    obtain ⟨token, f, hcaller, -, houtcome⟩ := h.waiters.called call hcall
    exact ⟨token, f, hcaller, houtcome⟩
  outcomes_once := h.tasks.outcomes_nodup
  resolves_once := h.tasks.resolves_nodup
  flag := by
    intro f hflag
    have hempty := h.waiters_eq_nil hflag
    refine ⟨hempty, ?_⟩
    rintro x (⟨-, hx⟩ | ⟨w, st, hst, hx⟩)
    · rw [hempty] at hx
      cases hx
    · cases (h.waiters.inHand w f st hst x hx).2.symm.trans hflag
  waiters_le := h.waiters_le
  tasks_le := s.pool.tasks_le
  pendingHosts_le := s.pool.pendingHosts_le
  full := s.pool.full

/-! ### Cancelled before the check -/

theorem join_fields (s : DnsState) (i resolver : ℕ) (host : Str) (port : ℕ) (key : Str)
    (token : ℕ) : (s.join i resolver host port key token).worker = s.worker ∧
      (s.join i resolver host port key token).called = s.called ∧
      (s.join i resolver host port key token).tokens = s.tokens ∧
      ∃ c, (s.join i resolver host port key token).caller = Function.update s.caller i c := by
  unfold join
  split
  · dsimp only
    split
    · exact ⟨rfl, rfl, rfl, _, rfl⟩
    · exact ⟨rfl, rfl, rfl, _, rfl⟩
  · exact ⟨rfl, rfl, rfl, _, rfl⟩

theorem submit_fields (s : DnsState) (i : ℕ) (task : DnsTask) (token : ℕ) (seen : List ℕ) :
    (s.submit i task token seen).worker = s.worker ∧
      (s.submit i task token seen).called = s.called ∧
      (s.submit i task token seen).tokens = s.tokens ∧
      ∃ c, (s.submit i task token seen).caller = Function.update s.caller i c := by
  unfold submit
  dsimp only
  split
  · exact ⟨rfl, rfl, rfl, _, rfl⟩
  · exact ⟨rfl, rfl, rfl, _, rfl⟩

theorem remove_fields (s : DnsState) (i token : ℕ) (rest : List (Str × ℕ)) (entry : Str × ℕ) :
    (s.remove i token rest entry).worker = s.worker ∧
      (s.remove i token rest entry).called = s.called ∧
      (s.remove i token rest entry).tokens = s.tokens ∧
      ∃ c, (s.remove i token rest entry).caller = Function.update s.caller i c := by
  unfold remove
  dsimp only
  split
  · exact ⟨rfl, rfl, rfl, _, rfl⟩
  · exact ⟨rfl, rfl, rfl, _, rfl⟩

theorem collect_fields (s : DnsState) (w : Fin kWorkerCount) (task : DnsTask)
    (endpoints : List ResolvedEndpoint) : (s.collect w task endpoints).called = s.called ∧
      (s.collect w task endpoints).tokens = s.tokens ∧
      (s.collect w task endpoints).caller = s.caller ∧
      ∃ waiters, (s.collect w task endpoints).worker =
        Function.update s.worker w (.delivering task endpoints waiters) := by
  unfold collect
  split
  · exact ⟨rfl, rfl, rfl, _, rfl⟩
  · exact ⟨rfl, rfl, rfl, _, rfl⟩

/-- What a step does to a caller whose waiter has been accepted, to a token that is set and to a
callback: nothing, but for the call of a waiter whose token a worker finds unset. -/
structure Leaves (s s' : DnsState) : Prop where
  accepted : ∀ i token f, s.caller i = .accepted token f → s'.caller i = .accepted token f
  tokens : ∀ token, s.tokens token = true → s'.tokens token = true
  checked : ∀ i, s'.Checked i → s.Checked i ∨ ∃ w task endpoints waiter waiters,
    s.worker w = .delivering task endpoints (waiter :: waiters) ∧ waiter.call = i ∧
      s.tokens waiter.cancelled = false

theorem Leaves.of_caller {s' : DnsState} {i : ℕ} {c : DnsCaller}
    (hworker : s'.worker = s.worker) (hcalled : s'.called = s.called)
    (htokens : ∀ token, s.tokens token = true → s'.tokens token = true)
    (hcaller : s'.caller = Function.update s.caller i c)
    (hold : ∀ token f, s.caller i ≠ .accepted token f) : s.Leaves s' := by
  refine ⟨?_, htokens, ?_⟩
  · intro j token f hj
    have hji : j ≠ i := by
      rintro rfl
      exact hold token f hj
    rw [hcaller, Function.update_of_ne hji]
    exact hj
  · intro j hj
    unfold Checked at hj
    rw [hworker, hcalled] at hj
    exact Or.inl hj

theorem Leaves.of_worker {s' : DnsState} {w : Fin kWorkerCount} {v : DnsWorker}
    (hworker : s'.worker = Function.update s.worker w v) (hcalled : s'.called = s.called)
    (htokens : s'.tokens = s.tokens) (hcaller : s'.caller = s.caller)
    (hnew : ∀ task endpoints waiter waiters, v = .calling task endpoints waiter waiters →
      s.worker w = .delivering task endpoints (waiter :: waiters) ∧
        s.tokens waiter.cancelled = false) : s.Leaves s' := by
  refine ⟨?_, ?_, ?_⟩
  · rw [hcaller]
    exact fun _ _ _ hi => hi
  · rw [htokens]
    exact fun _ hset => hset
  · intro i hi
    unfold Checked at hi
    rw [hcalled, hworker] at hi
    rcases hi with hi | ⟨w', task, endpoints, waiter, waiters, hw', hcall⟩
    · exact Or.inl (Or.inl hi)
    · by_cases hww : w' = w
      · subst hww
        rw [Function.update_self] at hw'
        obtain ⟨hold, htoken⟩ := hnew task endpoints waiter waiters hw'
        exact Or.inr ⟨w', task, endpoints, waiter, waiters, hold, hcall, htoken⟩
      · rw [Function.update_of_ne hww] at hw'
        exact Or.inl (Or.inr ⟨w', task, endpoints, waiter, waiters, hw', hcall⟩)

theorem step_leaves {label : DnsLabel} {s' : DnsState} (hstep : s.step label = some s') :
    s.Leaves s' := by
  cases step_cases hstep with
  | resolveAsync hcaller hc =>
    exact .of_caller rfl rfl (fun _ hset => hset) rfl (by rw [hcaller]; exact nofun)
  | join hlock hcaller =>
    obtain ⟨hworker, hcalled, htokens, c, hc⟩ := s.join_fields _ _ _ _ _ _
    exact .of_caller hworker hcalled (fun _ hset => htokens ▸ hset) hc
      (by rw [hcaller]; exact nofun)
  | submit hcaller hsees =>
    obtain ⟨hworker, hcalled, htokens, c, hc⟩ := s.submit_fields _ _ _ _
    exact .of_caller hworker hcalled (fun _ hset => htokens ▸ hset) hc
      (by rw [hcaller]; exact nofun)
  | cancelNone hcaller =>
    exact .of_caller rfl rfl (fun _ hset => hset) rfl (by rw [hcaller]; exact nofun)
  | cancelResolve hcaller =>
    rename_i i token
    refine .of_caller rfl rfl ?_ rfl (by rw [hcaller]; exact nofun)
    intro t hset
    show Function.update s.tokens token true t = true
    by_cases ht : t = token
    · rw [ht, Function.update_self]
    · rwa [Function.update_of_ne ht]
  | lockFlights hlock hcaller =>
    exact .of_caller rfl rfl (fun _ hset => hset) rfl (by rw [hcaller]; exact nofun)
  | remove hcaller hentry =>
    obtain ⟨hworker, hcalled, htokens, c, hc⟩ := s.remove_fields _ _ _ _
    exact .of_caller hworker hcalled (fun _ hset => htokens ▸ hset) hc
      (by rw [hcaller]; exact nofun)
  | unlockFlights hcaller =>
    exact .of_caller rfl rfl (fun _ hset => hset) rfl (by rw [hcaller]; exact nofun)
  | pruneCancelled hcaller hsees =>
    exact .of_caller rfl rfl (fun _ hset => hset) rfl (by rw [hcaller]; exact nofun)
  | take hworker hsees htake => exact .of_worker rfl rfl rfl rfl nofun
  | check hworker =>
    refine .of_worker rfl rfl rfl rfl ?_
    split_ifs
    · exact nofun
    · exact nofun
  | drop hworker hflag => exact .of_worker rfl rfl rfl rfl nofun
  | start hworker => exact .of_worker rfl rfl rfl rfl nofun
  | resolved hworker => exact .of_worker rfl rfl rfl rfl nofun
  | collect hlock hworker =>
    obtain ⟨hcalled, htokens, hcaller, waiters, hw⟩ := s.collect_fields _ _ _
    exact .of_worker hw hcalled htokens hcaller nofun
  | skip hworker htoken => exact .of_worker rfl rfl rfl rfl nofun
  | test hworker htoken =>
    refine .of_worker rfl rfl rfl rfl ?_
    rintro _ _ _ _ ⟨⟩
    exact ⟨hworker, htoken⟩
  | call hworker =>
    rename_i w task endpoints waiter waiters
    refine ⟨fun _ _ _ hi => hi, fun _ hset => hset, ?_⟩
    rintro i (hi | ⟨w', task', endpoints', waiter', waiters', hw', hcall⟩)
    · change i ∈ (s.called ++ [(waiter.call, endpoints)]).map Prod.fst at hi
      rw [List.map_append, List.mem_append] at hi
      rcases hi with hi | hi
      · exact Or.inl (Or.inl hi)
      · have hcall : i = waiter.call := List.mem_singleton.mp hi
        exact Or.inl (Or.inr ⟨w, task, endpoints, waiter, waiters, hworker, hcall.symm⟩)
    · change (s.setWorker w (.delivering task endpoints waiters)).worker w' = _ at hw'
      by_cases hww : w' = w
      · subst hww
        rw [setWorker_worker_self] at hw'
        cases hw'
      · rw [setWorker_worker_of_ne _ hww] at hw'
        exact Or.inl (Or.inr ⟨w', task', endpoints', waiter', waiters', hw', hcall⟩)
  | finish hworker => exact .of_worker rfl rfl rfl rfl nofun
  | stop => exact ⟨fun _ _ _ hi => hi, fun _ hset => hset, fun _ hi => Or.inl hi⟩
  | exit hworker => exact .of_worker rfl rfl rfl rfl nofun

/-- The token of the waiter has been set and no worker has checked it before. -/
structure Withdrawn (s : DnsState) (i token f : ℕ) : Prop where
  caller : s.caller i = .accepted token f
  token : s.tokens token = true
  unchecked : ¬ s.Checked i

theorem Inv.withdrawn_step (h : s.Inv stage) {i token f : ℕ} (hi : s.Withdrawn i token f)
    {label : DnsLabel} {s' : DnsState} (hstep : s.step label = some s') :
    s'.Withdrawn i token f := by
  have hleaves := step_leaves hstep
  refine ⟨hleaves.accepted i token f hi.caller, hleaves.tokens token hi.token, ?_⟩
  intro hnow
  rcases hleaves.checked i hnow with hbefore |
    ⟨w, task, endpoints, waiter, waiters, hw, hcall, hunset⟩
  · exact hi.unchecked hbefore
  · have hmine := (h.waiters.inHand w task.flight (.delivering w) (by rw [hw]; rfl) waiter
      (by rw [hw]; exact List.mem_cons_self)).1
    rw [hcall, hi.caller] at hmine
    injection hmine with htoken _
    rw [← htoken, hi.token] at hunset
    cases hunset

/-- Such a waiter is not called in any later state. -/
theorem Inv.withdrawn_run (h : s.Inv stage) {i token f : ℕ} (hi : s.Withdrawn i token f)
    {later : List DnsLabel} {s' : DnsState} (hrun : run DnsState.step s later = some s') :
    s'.Withdrawn i token f := by
  have hstep : ∀ t label t', ((∃ stage, t.Inv stage) ∧ t.Withdrawn i token f) →
      DnsState.step t label = some t' → (∃ stage, t'.Inv stage) ∧ t'.Withdrawn i token f := by
    rintro t label t' ⟨⟨st, ht⟩, hw⟩ hstep
    exact ⟨ht.step hstep, ht.withdrawn_step hw hstep⟩
  exact (run_invariant_of_step hstep hrun ⟨⟨stage, h⟩, hi⟩).2

/-! ### Cancellation -/

/-- A step that touches no flight and keeps the order of the queue. -/
theorem KeepsOthers.of_flights {s' : DnsState} {token : ℕ} (hflights : s'.flights = s.flights)
    (hregistry : s'.dnsFlights = s.dnsFlights) (hleaves : s.Leaves s')
    (htokens : ∀ t, t ≠ token → s'.tokens t = s.tokens t)
    (hqueue : ∀ f, (∃ x ∈ (s.flights f).waiters, x.cancelled ≠ token) →
      s'.pool.queue.filter (fun task => task.flight = f) =
        s.pool.queue.filter (fun task => task.flight = f))
    (hworker : s'.worker = s.worker) (hresolves : s'.resolves = s.resolves)
    (houtcomes : s'.outcomes = s.outcomes) (hcalled : s'.called = s.called) :
    KeepsOthers token s s' := by
  refine ⟨?_, hleaves.accepted, htokens, hworker, hresolves, houtcomes, hcalled⟩
  intro f hf
  rw [hflights, hregistry]
  exact ⟨rfl, rfl, fun _ hentry => hentry, hqueue f hf⟩

theorem remove_rest (s : DnsState) (i token : ℕ) (rest : List (Str × ℕ)) (entry : Str × ℕ) :
    (s.remove i token rest entry).pool = s.pool ∧
      (s.remove i token rest entry).resolves = s.resolves ∧
      (s.remove i token rest entry).outcomes = s.outcomes := by
  unfold remove
  dsimp only
  split
  · exact ⟨rfl, rfl, rfl⟩
  · exact ⟨rfl, rfl, rfl⟩

theorem Inv.remove_flights (h : s.Inv stage) (i token : ℕ) (rest : List (Str × ℕ))
    {entry : Str × ℕ} (hentry : entry ∈ s.dnsFlights) (f : ℕ)
    (hf : ∃ x ∈ (s.flights f).waiters, x.cancelled ≠ token) :
    ((s.remove i token rest entry).flights f).cancelled = (s.flights f).cancelled ∧
    ((s.remove i token rest entry).flights f).waiters.filter (fun x => x.cancelled ≠ token) =
      (s.flights f).waiters.filter (fun x => x.cancelled ≠ token) ∧
    (∀ key, (key, f) ∈ s.dnsFlights → (key, f) ∈ (s.remove i token rest entry).dnsFlights) := by
  unfold DnsState.remove
  dsimp only
  split_ifs with hempty
  · have hne : f ≠ entry.2 := by
      rintro rfl
      obtain ⟨x, hx, htoken⟩ := hf
      rw [List.filter_eq_nil_iff] at hempty
      exact hempty x hx (by simpa using htoken)
    have hsame : Function.update s.flights entry.2 ⟨true, []⟩ f = s.flights f :=
      Function.update_of_ne hne _ _
    show (Function.update s.flights entry.2 ⟨true, []⟩ f).cancelled = _ ∧
      (Function.update s.flights entry.2 ⟨true, []⟩ f).waiters.filter _ = _ ∧ _
    rw [hsame]
    refine ⟨rfl, rfl, ?_⟩
    intro key hkey
    refine mem_eraseKey.mpr ⟨hkey, ?_⟩
    intro heq
    exact hne (congrArg Prod.snd (List.inj_on_of_nodup_map h.flights.registry.keys_nodup hkey
      hentry heq))
  · show (Function.update s.flights entry.2 _ f).cancelled = _ ∧
      (Function.update s.flights entry.2 _ f).waiters.filter _ = _ ∧ _
    by_cases hne : f = entry.2
    · subst hne
      rw [Function.update_self]
      refine ⟨rfl, ?_, fun _ hkey => hkey⟩
      rw [List.filter_filter]
      simp
    · rw [Function.update_of_ne hne]
      exact ⟨rfl, rfl, fun _ hkey => hkey⟩

/-- The work of a flight with waiters stays where it is when the queue is pruned. -/
theorem Inv.pruneQueue_filter (h : s.Inv stage) {seen : List ℕ} (hsees : s.Sees seen) {f : ℕ}
    (hf : (s.flights f).waiters ≠ []) (queue : List DnsTask) :
    (pruneQueue (seen.contains ·) queue).filter (fun task => task.flight = f) =
      queue.filter fun task => task.flight = f := by
  have hnot : f ∉ seen := fun hseen => hf (h.waiters_eq_nil (hsees f hseen))
  unfold pruneQueue
  rw [List.filter_filter]
  apply List.filter_congr
  intro task _
  by_cases hflight : task.flight = f
  · simp [hflight, hnot]
  · simp [hflight]

theorem Inv.keepsOthers (h : s.Inv stage) {label : DnsLabel} {token : ℕ} {s' : DnsState}
    (hlabel : s.Cancels label token) (hstep : s.step label = some s') :
    KeepsOthers token s s' := by
  have hleaves := step_leaves hstep
  cases step_cases hstep with
  | cancelNone hcaller => cases hlabel
  | cancelResolve hcaller =>
    rename_i i t
    cases hlabel
    refine .of_flights rfl rfl hleaves ?_ (fun _ _ => rfl) rfl rfl rfl rfl
    exact fun t ht => Function.update_of_ne ht _ _
  | lockFlights hlock hcaller =>
    exact .of_flights rfl rfl hleaves (fun _ _ => rfl) (fun _ _ => rfl) rfl rfl rfl rfl
  | remove hcaller hentry =>
    rename_i i t rest entry
    have htoken : t = token := by
      change (s.caller i).cancels = some token at hlabel
      rw [hcaller] at hlabel
      exact Option.some.inj hlabel
    subst htoken
    have hmem := (h.flights.removing i t rest hcaller).2.2 hentry
    obtain ⟨hworker, hcalled, htokens, -⟩ := s.remove_fields i t rest entry
    obtain ⟨hpool, hresolves, houtcomes⟩ := s.remove_rest i t rest entry
    refine ⟨?_, hleaves.accepted, fun t _ => by rw [htokens], hworker, hresolves, houtcomes,
      hcalled⟩
    intro f hf
    obtain ⟨hflag, hwaiters, hregistry⟩ := h.remove_flights i t rest hmem f hf
    exact ⟨hflag, hwaiters, hregistry, by rw [hpool]⟩
  | unlockFlights hcaller =>
    exact .of_flights rfl rfl hleaves (fun _ _ => rfl) (fun _ _ => rfl) rfl rfl rfl rfl
  | pruneCancelled hcaller hsees =>
    refine .of_flights rfl rfl hleaves (fun _ _ => rfl) ?_ rfl rfl rfl rfl
    rintro f ⟨x, hx, -⟩
    show (s.pool.pruneCancelled _).queue.filter _ = _
    rw [DnsWorkerPool.pruneCancelled_queue]
    exact h.pruneQueue_filter hsees (List.ne_nil_of_mem hx) s.pool.queue
  | _ => cases hlabel

/-! ### Runs -/

/-- For every order of the steps of callers and workers and all outcomes of the resolvers. -/
theorem run_singleFlight {labels : List DnsLabel} {s : DnsState}
    (hrun : run DnsState.step {} labels = some s) :
    s.SingleFlight ∧
    (∀ i token f, s.Withdrawn i token f → ∀ later s',
      run DnsState.step s later = some s' → i ∉ s'.called.map Prod.fst) ∧
    (∀ label token s', s.Cancels label token → s.step label = some s' →
      KeepsOthers token s s') := by
  obtain ⟨stage, h⟩ := run_inv hrun
  refine ⟨h.singleFlight, ?_, ?_⟩
  · intro i token f hi later s' hlater hcalled
    exact (h.withdrawn_run hi hlater).unchecked (Or.inl hcalled)
  · exact fun label token s' hlabel hstep => h.keepsOthers hlabel hstep

/-- Two calls for one host, of which the first is cancelled while the task runs. -/
def twoWaiters : List DnsLabel :=
  [.resolveAsync 0 (some 7) "A.test".toList 443 1 (some 0) true, .join 0, .submit 0 [],
    .resolveAsync 1 (some 7) "a.test.".toList 443 1 (some 1) true, .join 1, .take 0 [],
    .cancelResolve 2 (some 0), .lockFlights 2, .check 0, .start 0,
    .remove 2 (dnsFlightKey 7 "a.test".toList 443 1, 0), .unlockFlights 2, .pruneCancelled 2 [],
    .resolved 0 (some []), .collect 0]

theorem run_singleFlight_twoWaiters :
    ∃ s, run DnsState.step {} twoWaiters = some s ∧ s.SingleFlight ∧
      (∀ i token f, s.Withdrawn i token f → ∀ later s',
        run DnsState.step s later = some s' → i ∉ s'.called.map Prod.fst) ∧
      (∀ label token s', s.Cancels label token → s.step label = some s' →
        KeepsOthers token s s') := by
  have hsome : (run DnsState.step {} twoWaiters).isSome = true := by decide +kernel
  obtain ⟨s, hs⟩ := Option.isSome_iff_exists.mp hsome
  exact ⟨s, hs, run_singleFlight hs⟩

/-- A worker that has taken over the waiters has erased their flight before it calls them. -/
theorem run_unregistered :
    ¬ ∀ labels s, run DnsState.step {} labels = some s → ∀ i token f,
      s.caller i = .accepted token f → s.tokens token = false → i ∉ s.called.map Prod.fst →
      (∃ key, (key, f) ∈ s.dnsFlights) ∧ ⟨i, token⟩ ∈ (s.flights f).waiters ∧ s.HasWork f := by
  intro h
  have hreached : (run DnsState.step {} twoWaiters).any (fun s => decide
      (s.caller 1 = .accepted 1 0 ∧ s.tokens 1 = false ∧ 1 ∉ s.called.map Prod.fst ∧
        s.dnsFlights = [])) = true := by decide +kernel
  obtain ⟨s, hs, hfields⟩ := (Option.any_eq_true _ _).mp hreached
  obtain ⟨hcaller, htoken, hnot, hregistry⟩ := of_decide_eq_true hfields
  obtain ⟨⟨key, hkey⟩, -⟩ := h twoWaiters s hs 1 1 0 hcaller htoken hnot
  rw [hregistry] at hkey
  cases hkey

end DnsState

end KatHttp3
