import KatHttp3.Engine.PoolIntegrity

/-!
# Connections that end at rest

When every connection that stops taking jobs has nothing left to do, drops only jobs of
requests that have ended, and has nothing arrive any more, no lookup throws out a client
that is in use.
-/

namespace KatHttp3

open CallStacks Parties Transition

/-! ### Clients -/

namespace PoolClient

variable (client client' : PoolClient)

def Settled : Prop := ∀ job ∈ client.jobs, job.settled = true

/-- The client takes jobs as before, and no job has come that counts. -/
structure Lasts : Prop where
  accepts : client'.acceptsNewJobs = client.acceptsNewJobs
  settled : client.Settled → client'.Settled

variable {client client'} {id : ℤ}

theorem Lasts.refl (client : PoolClient) : client.Lasts client := ⟨rfl, fun h => h⟩

theorem Lasts.trans {client'' : PoolClient} (h : client.Lasts client')
    (h' : client'.Lasts client'') : client.Lasts client'' :=
  ⟨h'.accepts.trans h.accepts, fun hsettled => h'.settled (h.settled hsettled)⟩

theorem lasts_map {f : PoolJob → PoolJob}
    (hf : ∀ job, job.settled = true → (f job).settled = true) :
    client.Lasts (client.map f) := by
  refine ⟨rfl, fun hsettled job hjob => ?_⟩
  obtain ⟨old, hold, rfl⟩ := mem_jobs_map.mp hjob
  exact hf old (hsettled old hold)

theorem settled_cancelFirst {jobs : List PoolJob} (h : ∀ job ∈ jobs, job.settled = true) :
    ∀ job ∈ cancelFirst id jobs, job.settled = true := by
  induction jobs with
  | nil => exact h
  | cons head rest ih =>
    rw [List.forall_mem_cons] at h
    unfold cancelFirst
    split_ifs
    · exact List.forall_mem_cons.mpr h
    · exact List.forall_mem_cons.mpr ⟨h.1, ih h.2⟩

theorem settled_iff : client.Settled ↔ (∀ job ∈ client.pending, job.settled = true) ∧
    (∀ job ∈ client.active, job.settled = true) ∧ ∀ job ∈ client.failed, job.settled = true := by
  simp only [Settled, jobs, List.forall_mem_append, and_assoc]

theorem lasts_cancelJob (client : PoolClient) (id : ℤ) : client.Lasts (client.cancelJob id) := by
  unfold cancelJob
  split_ifs
  · refine ⟨rfl, fun hsettled => ?_⟩
    obtain ⟨hpending, hothers⟩ := settled_iff.mp hsettled
    exact settled_iff.mpr ⟨settled_cancelFirst hpending, hothers⟩
  · refine ⟨rfl, fun hsettled => ?_⟩
    obtain ⟨hpending, hactive, hfailed⟩ := settled_iff.mp hsettled
    exact settled_iff.mpr ⟨hpending, settled_cancelFirst hactive, hfailed⟩

/-- A worker brings no job to its connection. -/
theorem Settled.change (h : client.Settled) (change : ConnectionChange) :
    (client.change change).Settled := by
  obtain ⟨hpending, hactive, hfailed⟩ := settled_iff.mp h
  have hfilter : ∀ {jobs : List PoolJob} (p : PoolJob → Bool),
      (∀ job ∈ jobs, job.settled = true) → ∀ job ∈ jobs.filter p, job.settled = true :=
    fun p hjobs job hjob => hjobs job (List.mem_of_mem_filter hjob)
  rw [settled_iff]
  cases change with
  | submitted number =>
    exact ⟨hfilter _ hpending, List.forall_mem_append.mpr ⟨hactive, hfilter _ hpending⟩, hfailed⟩
  | refused number =>
    exact ⟨hfilter _ hpending, hactive, List.forall_mem_append.mpr ⟨hfailed, hfilter _ hpending⟩⟩
  | withdrawn => exact ⟨List.forall_mem_append.mpr ⟨hpending, hactive⟩, nofun, hfailed⟩
  | marked numbers =>
    have hmark : ∀ {jobs : List PoolJob}, (∀ job ∈ jobs, job.settled = true) →
        ∀ job ∈ jobs.map fun job : PoolJob =>
          if job.number ∈ numbers then { job with cancelled := true } else job,
        job.settled = true := by
      intro jobs hjobs job hjob
      obtain ⟨old, hold, rfl⟩ := List.mem_map.mp hjob
      split_ifs
      · exact hjobs old hold
      · exact hjobs old hold
    exact ⟨hmark hpending, hmark hactive, hfailed⟩
  | dropped number => exact ⟨hfilter _ hpending, hfilter _ hactive, hfilter _ hfailed⟩
  | entered state => exact ⟨hpending, hactive, hfailed⟩
  | closed => exact ⟨hpending, hactive, hfailed⟩

end PoolClient

/-! ### Steps -/

namespace PoolCore

/-- What a step does to the clients: none stops or starts to take jobs, a job comes to one that
was chosen before, and only a client that takes jobs is chosen. -/
structure Lasts (core core' : PoolCore) (before after : ℕ → Prop) : Prop where
  keys : (core.pool.map Prod.fst).Nodup → (core'.pool.map Prod.fst).Nodup
  created : core.created ≤ core'.created
  accepts : ∀ k, (core'.clients k).acceptsNewJobs = (core.clients k).acceptsNewJobs
  settled : ∀ k, ¬before k → (core.clients k).Settled → (core'.clients k).Settled
  chosen : ∀ k, after k →
    before k ∨ (core.clients k).acceptsNewJobs = true ∨ core.created ≤ k

variable {core core' : PoolCore} {before after : ℕ → Prop} {id : ℤ} {k : ℕ}

theorem Lasts.mono {before' after' : ℕ → Prop} (h : core.Lasts core' before after)
    (hbefore : ∀ k, before k → before' k) (hafter : ∀ k, after' k → after k ∨ before' k) :
    core.Lasts core' before' after' := by
  refine ⟨h.keys, h.created, h.accepts, fun k hnot => ?_, fun k hk => ?_⟩
  · exact h.settled k fun hk => hnot (hbefore k hk)
  · rcases hafter k hk with hk | hk
    · exact (h.chosen k hk).imp_left (hbefore k)
    · exact .inl hk

/-- A step that leaves the pool alone. -/
theorem Lasts.of_clients (hpool : core'.pool = core.pool) (hcreated : core'.created = core.created)
    (hclients : ∀ k, (core.clients k).Lasts (core'.clients k)) (hchosen : ∀ k, after k → before k) :
    core.Lasts core' before after := by
  refine ⟨fun hkeys => hpool ▸ hkeys, hcreated.ge, fun k => (hclients k).accepts,
    fun k _ => (hclients k).settled, fun k hk => .inl (hchosen k hk)⟩

theorem Lasts.of_eq (hpool : core'.pool = core.pool) (hcreated : core'.created = core.created)
    (hclients : core'.clients = core.clients) (hchosen : ∀ k, after k → before k) :
    core.Lasts core' before after := by
  refine .of_clients hpool hcreated (fun k => ?_) hchosen
  rw [hclients]
  exact .refl _

theorem lasts_updateClient {c : ℕ} {f : PoolClient → PoolClient}
    (hf : (core.clients c).Lasts (f (core.clients c))) (k : ℕ) :
    (core.clients k).Lasts ((core.updateClient c f).clients k) := by
  rw [clients_updateClient]
  split_ifs with hk
  · exact hk ▸ hf
  · exact .refl _

theorem lasts_settle (id : ℤ) (k : ℕ) : (core.clients k).Lasts ((core.settle id).clients k) := by
  apply PoolClient.lasts_map
  intro job hsettled
  split_ifs
  · rfl
  · exact hsettled

theorem lasts_hear (id : ℤ) (event : AppEvent) (k : ℕ) :
    (core.clients k).Lasts ((core.hear id event).clients k) := by
  unfold hear
  split_ifs
  · exact lasts_settle id k
  · exact .refl _

theorem lasts_record (c number : ℕ) (id : ℤ) (client : Option ℕ) (k : ℕ) :
    (core.clients k).Lasts ((core.record c number id client).clients k) := by
  apply lasts_updateClient (f := fun client => client.map fun job =>
    if job.number = number ∧ job.id = id then { job with settled := true } else job)
  apply PoolClient.lasts_map
  intro job hsettled
  split_ifs
  · rfl
  · exact hsettled

theorem lasts_cancel (id : ℤ) (entry : PoolEntry) (k : ℕ) :
    (core.clients k).Lasts ((core.cancel id entry).clients k) := by
  unfold cancel
  refine .trans ?_ (lasts_settle id k)
  cases entry.client with
  | none => exact .refl _
  | some c =>
    have hclient : ∀ k, (((core.erase id).fail id).clients k).Lasts _ :=
      lasts_updateClient (f := fun client => client.cancelJob id)
        (PoolClient.lasts_cancelJob (core.clients c) id)
    exact hclient k

/-- A job comes to a client that was chosen for it. -/
theorem Lasts.submitJob {c : ℕ} (hbefore : before c) (hpool : core'.pool = core.pool)
    (hcreated : core'.created = core.created)
    (hclients : core'.clients = (core.submitJob c id).clients) (hafter : ∀ k, ¬after k) :
    core.Lasts core' before after := by
  have hothers : ∀ k, k ≠ c → core'.clients k = core.clients k := by
    intro k hk
    rw [hclients]
    exact Function.update_of_ne hk _ _
  refine ⟨fun hkeys => hpool ▸ hkeys, hcreated.ge, fun k => ?_, fun k hnot => ?_,
    fun k hk => absurd hk (hafter k)⟩
  · by_cases hk : k = c
    · subst hk
      simp only [hclients, PoolCore.submitJob, updateClient, Function.update_self]
      rfl
    · rw [hothers k hk]
  · rw [hothers k fun heq => hnot (heq ▸ hbefore)]
    exact fun h => h

/-- A lookup finds a client that takes jobs, or makes one. -/
theorem lasts_getOrCreateClient (admission : AdmissionConfig) (origin : Url) :
    core.Lasts (core.getOrCreateClient admission origin).1 before
      fun k => (core.getOrCreateClient admission origin).2 = some k := by
  unfold getOrCreateClient
  dsimp only
  cases hreuses : core.reuses (Execution.poolKey admission origin) with
  | some c =>
    refine ⟨fun hkeys => hkeys, le_rfl, fun _ => rfl, fun _ _ h => h, fun k hk => ?_⟩
    obtain rfl := Option.some.inj hk
    exact .inr (.inl (Option.filter_eq_some_iff.mp hreuses).2)
  | none =>
    have hkept := fun hkeys : (core.pool.map Prod.fst).Nodup => hkeys.sublist
      ((List.filter_sublist.trans List.filter_sublist).map Prod.fst :
        (((core.pool.filter fun entry => entry.1 != Execution.poolKey admission origin).filter
          fun entry => !(core.clients entry.2).closed).map Prod.fst).Sublist _)
    dsimp only
    split_ifs
    · exact ⟨hkept, le_rfl, fun _ => rfl, fun _ _ h => h, fun k hk => by cases hk⟩
    · refine ⟨fun hkeys => ?_, Nat.le_succ _, fun _ => rfl, fun _ _ h => h, fun k hk => ?_⟩
      · rw [List.map_append, List.nodup_append]
        refine ⟨hkept hkeys, List.nodup_singleton _, fun key hkey other hother => ?_⟩
        obtain ⟨entry, hentry, rfl⟩ := List.mem_map.mp hkey
        rw [List.mem_singleton.mp hother]
        have hne := (List.mem_filter.mp (List.mem_of_mem_filter hentry)).2
        simpa using hne
      · obtain rfl := Option.some.inj hk
        exact .inr (.inr le_rfl)

/-- A lookup throws out only clients that take no more jobs. -/
theorem acceptsNewJobs_of_mem_discards (hkeys : (core.pool.map Prod.fst).Nodup) {key : Str}
    (h : k ∈ core.discards key) : (core.clients k).acceptsNewJobs = false := by
  unfold discards at h
  split_ifs at h with hreuses
  · cases h
  · obtain ⟨entry, hentry, rfl⟩ := List.mem_map.mp h
    obtain ⟨hmem, hwhy⟩ := List.mem_filter.mp hentry
    rw [Bool.or_eq_true, beq_iff_eq] at hwhy
    rcases hwhy with rfl | hclosed
    · obtain ⟨first, hlookup⟩ := Option.isSome_iff_exists.mp
        (List.lookup_isSome_iff.mpr ⟨entry, hmem, beq_self_eq_true entry.1⟩)
      obtain ⟨before, after, hpool, -⟩ := List.lookup_eq_some_iff.mp hlookup
      have hfirst : (entry.1, first) ∈ core.pool := by simp [hpool]
      have hsame : (entry.1, first) = entry := List.inj_on_of_nodup_map hkeys hfirst hmem rfl
      have hkey : core.pool.lookup entry.1 = some entry.2 := by rw [hlookup, ← hsame]
      simpa [reuses, hkey, Option.filter] using hreuses
    · simp [PoolClient.acceptsNewJobs, connectionStateAcceptsNewJobs, hclosed]

end PoolCore

section

variable {admission : AdmissionConfig} {t : ℕ} {core core' : PoolCore} {outcome : Outcome}

theorem PoolCall.Advances.lasts {call : PoolCall} {after : Option PoolCall}
    (h : PoolCall.Advances admission t core outcome call core' after) :
    core.Lasts core' (fun k => call.chosen = some k)
      fun k => after.bind PoolCall.chosen = some k := by
  cases h with
  | @executeLooked _ id origin =>
    refine (PoolCore.lasts_getOrCreateClient admission origin).mono (fun _ h => h) fun k hk => ?_
    left
    cases hfound : (core.getOrCreateClient admission origin).2 with
    | none =>
      rw [hfound] at hk
      cases hk
    | some c =>
      rw [hfound] at hk
      exact hk
  | executeSubmitted => exact .submitJob rfl rfl rfl rfl fun k hk => by cases hk
  | @cancelErased _ id entry =>
    refine .of_clients (PoolCore.pool_cancel entry) ?_ (PoolCore.lasts_cancel id entry) nofun
    unfold PoolCore.cancel
    cases entry.client <;> rfl
  | executeReturned last => rcases last with rfl | rfl <;> exact .of_eq rfl rfl rfl nofun
  | executeRegistered => exact .of_eq rfl rfl rfl fun _ h => h
  | _ => exact .of_eq rfl rfl rfl nofun

theorem PoolTask.Advances.lasts {role : ThreadRole} {task : PoolTask} {after : Option PoolTask}
    (h : PoolTask.Advances admission t core role outcome task core' after) :
    core.Lasts core' (fun k => task.chosen = some k)
      fun k => after.bind PoolTask.chosen = some k := by
  cases h with
  | @deliverIgnored _ id event =>
    refine .of_clients (PoolCore.pool_hear event) ?_ (PoolCore.lasts_hear id event) ?_
    · unfold PoolCore.hear
      split_ifs <;> rfl
    · simp
  | @deliverErased _ id event =>
    have hclients : ∀ k, ((core.erase id).clients k).Lasts _ := PoolCore.lasts_hear id event
    refine .of_clients (PoolCore.pool_hear event) ?_ hclients ?_
    · unfold PoolCore.unlockCallback PoolCore.hear
      split_ifs <;> rfl
    · simp
  | deliverEnds =>
    refine .of_eq (PoolCore.pool_terminate ..) ?_ (PoolCore.clients_terminate ..) nofun
    unfold PoolCore.terminate
    split_ifs <;> rfl
  | deliverReturned => exact .of_eq rfl rfl rfl (by simp)
  | @hopLooked _ _ id target =>
    refine (PoolCore.lasts_getOrCreateClient admission target).mono (fun _ h => h) fun k hk => ?_
    left
    cases hfound : (core.getOrCreateClient admission target).2 with
    | none =>
      rw [hfound] at hk
      cases hk
    | some c =>
      rw [hfound] at hk
      exact hk
  | @hopRecorded _ number id c client =>
    refine .of_clients rfl rfl (PoolCore.lasts_record c number id client) fun k hk => ?_
    cases client with
    | none => cases hk
    | some c => exact hk
  | hopQueued =>
    refine .of_eq rfl rfl rfl fun k hk => ?_
    split_ifs at hk
    · rw [PoolTask.bind_next_chosen] at hk
      cases hk
    · cases hk
  | hopSubmitted => exact .submitJob rfl rfl rfl rfl fun k hk => by cases hk
  | _ => exact .of_eq rfl rfl rfl nofun

theorem PoolThread.lasts_advance {thread thread' : PoolThread}
    (h : thread.advance admission t outcome core = some (core', thread')) :
    core.Lasts core' (· ∈ thread.chosen) (· ∈ thread'.chosen) := by
  obtain ⟨role, task, calls⟩ := thread
  rcases advance_cases h with ⟨call, rest, after, hcalls, hadvance, rfl⟩ |
    ⟨task, after, hcalls, htask, hadvance, rfl⟩
  · subst hcalls
    apply hadvance.lasts.mono
    · intro k hk
      exact (mem_chosen (c := some call)).mpr (.inl hk)
    · intro k hk
      exact (mem_chosen.mp hk).imp_right fun hrest => (mem_chosen (c := some call)).mpr (.inr hrest)
  · subst hcalls htask
    apply hadvance.lasts.mono
    · intro k hk
      simpa [PoolThread.chosen] using hk
    · intro k hk
      left
      simpa [PoolThread.chosen] using hk

end

namespace PoolThread

variable {thread thread' : PoolThread} {outcome : Outcome}

theorem not_idle_of_runsUserCode (h : thread.runsUserCode = true) {k : ℕ}
    (hrole : thread.role = .worker k) : thread.idle = false := by
  obtain ⟨role, task, calls⟩ := thread
  subst hrole
  cases calls with
  | cons call calls => simp [idle]
  | nil =>
    cases task with
    | none => cases h
    | some task => simp [idle]

theorem not_idle_of_looksUp {origin : Url} (h : thread.looksUp outcome = some origin) :
    thread.idle = false := by
  obtain ⟨role, task, calls⟩ := thread
  cases calls with
  | cons call calls => simp [idle]
  | nil =>
    cases task with
    | none => cases h
    | some task => simp [idle]

theorem not_idle_of_advance {admission : AdmissionConfig} {t : ℕ} {core core' : PoolCore}
    (h : thread.advance admission t outcome core = some (core', thread')) :
    thread.idle = false ∧ thread'.role = thread.role := by
  rcases advance_cases h with ⟨call, rest, after, hcalls, -, rfl⟩ |
    ⟨task, after, hcalls, htask, -, rfl⟩
  · exact ⟨by simp [idle, hcalls], rfl⟩
  · exact ⟨by simp [idle, htask], rfl⟩

theorem chosen_of_idle (hidle : thread.idle = true) {task : Option PoolTask}
    (htask : task.bind PoolTask.chosen = none) :
    { thread with task := task }.chosen = [] := by
  simp only [idle, Bool.and_eq_true, beq_iff_eq] at hidle
  simp [PoolThread.chosen, hidle.2, htask]

end PoolThread

/-! ### Runs -/

namespace PoolState

/-- Nothing is left to do on a client. -/
structure AtRest (s : PoolState) (k : ℕ) : Prop where
  settled : (s.shared.clients k).Settled
  unchosen : ∀ thread ∈ s.parties, k ∉ thread.chosen
  idle : ∀ thread ∈ s.parties, thread.role = .worker k → thread.idle = true

/-- A connection stops taking jobs when nothing is left to do on it and nothing arrives on it
from then on; it drops only jobs of requests that have ended. -/
def EndsAtRest (s : PoolState) : PoolStep → Prop
  | .connection k change =>
    (((s.shared.clients k).change change).acceptsNewJobs = false → s.AtRest k) ∧
      ∀ job ∈ (s.shared.clients k).jobs, change = .dropped job.number → job.settled = true
  | .callback t _ _ | .redirect t _ _ =>
    ∀ thread k, s.parties[t]? = some thread → thread.role = .worker k →
      (s.shared.clients k).acceptsNewJobs = true
  | _ => True

structure Rested (s : PoolState) : Prop where
  keys : (s.shared.pool.map Prod.fst).Nodup
  fresh : ∀ k, s.shared.created ≤ k → (s.shared.clients k).acceptsNewJobs = true
  rests : ∀ k, (s.shared.clients k).acceptsNewJobs = false → s.AtRest k

variable {admission : AdmissionConfig} {s s' : PoolState} {i : PoolStep} {t : ℕ}

theorem Rested.move (h : s.Rested) {f : PoolCore → PoolThread → Option (PoolCore × PoolThread)}
    (hmove : s.move t f = some s')
    (hf : ∀ thread core' thread', s.parties[t]? = some thread →
      f s.shared thread = some (core', thread') →
        s.shared.Lasts core' (· ∈ thread.chosen) (· ∈ thread'.chosen) ∧
          thread'.role = thread.role ∧ ∀ k, thread.role = .worker k →
            (s.shared.clients k).acceptsNewJobs = false → thread.idle = false) : s'.Rested := by
  obtain ⟨thread, core', thread', hthread, hstep, rfl⟩ := System.move_eq_some.mp hmove
  obtain ⟨hlasts, hrole, hbusy⟩ := hf thread core' thread' hthread hstep
  have hmem : thread ∈ s.parties := List.mem_of_getElem? hthread
  refine ⟨hlasts.keys h.keys, fun k hk => ?_, fun k hends => ?_⟩
  · rw [hlasts.accepts]
    exact h.fresh k (hlasts.created.trans hk)
  · rw [hlasts.accepts] at hends
    have hrests := h.rests k hends
    refine ⟨hlasts.settled k (hrests.unchosen thread hmem) hrests.settled, ?_, ?_⟩
    · intro other hother
      rcases List.mem_or_eq_of_mem_set hother with hstays | rfl
      · exact hrests.unchosen other hstays
      · intro hk
        rcases hlasts.chosen k hk with hk | haccepts | hfresh
        · exact hrests.unchosen thread hmem hk
        · exact Bool.false_ne_true (hends.symm.trans haccepts)
        · exact Bool.false_ne_true (hends.symm.trans (h.fresh k hfresh))
    · intro other hother hworker
      rcases List.mem_or_eq_of_mem_set hother with hstays | rfl
      · exact hrests.idle other hstays hworker
      · rw [hrole] at hworker
        have hidle := hrests.idle thread hmem hworker
        rw [hbusy k hworker hends] at hidle
        cases hidle

theorem Rested.step (h : s.Rested) (hok : s.EndsAtRest i) (hstep : step admission s i = some s') :
    s'.Rested := by
  cases i with
  | execute t id origin | cancel t id =>
    dsimp only [PoolState.step] at hstep
    refine h.move hstep fun thread core' thread' _ hf => ?_
    obtain ⟨new, hcall, heq⟩ := Option.map_eq_some_iff.mp hf
    cases heq
    obtain ⟨huser, rfl⟩ := PoolThread.call_cases hcall
    refine ⟨.of_eq rfl rfl rfl fun k hk => ?_, rfl, fun k hrole _ => ?_⟩
    · simpa [PoolThread.chosen, PoolCall.chosen] using hk
    · exact PoolThread.not_idle_of_runsUserCode huser hrole
  | advance t outcome =>
    dsimp only [PoolState.step] at hstep
    refine h.move hstep fun thread core' thread' _ hf => ?_
    obtain ⟨hbusy, hrole⟩ := PoolThread.not_idle_of_advance hf
    exact ⟨PoolThread.lasts_advance hf, hrole, fun _ _ _ => hbusy⟩
  | callback t number events =>
    dsimp only [PoolState.step] at hstep
    refine h.move hstep fun thread core' thread' hthread hf => ?_
    obtain ⟨new, hcallback, heq⟩ := Option.map_eq_some_iff.mp hf
    cases heq
    obtain ⟨hidle, id, rfl⟩ := PoolThread.callback_cases hcallback
    refine ⟨.of_eq rfl rfl rfl fun k hk => ?_, rfl, fun k hrole hends => ?_⟩
    · rw [PoolThread.chosen_of_idle hidle (PoolTask.bind_next_chosen ..)] at hk
      cases hk
    · exact absurd (hok thread k hthread hrole) (Bool.eq_false_iff.mp hends)
  | redirect t number target =>
    dsimp only [PoolState.step] at hstep
    refine h.move hstep fun thread core' thread' hthread hf => ?_
    obtain ⟨hidle, c, job, -, -, rfl, rfl⟩ := PoolThread.redirect_cases hf
    refine ⟨.of_clients rfl rfl ?_ fun k hk => ?_, rfl, fun k hrole hends => ?_⟩
    · apply PoolCore.lasts_updateClient
      apply PoolClient.lasts_map
      intro job hsettled
      split_ifs
      · exact hsettled
      · exact hsettled
    · rw [PoolThread.chosen_of_idle hidle rfl] at hk
      cases hk
    · exact absurd (hok thread k hthread hrole) (Bool.eq_false_iff.mp hends)
  | dispatch t id events =>
    dsimp only [PoolState.step] at hstep
    refine h.move hstep fun thread core' thread' _ hf => ?_
    obtain ⟨new, hdispatch, heq⟩ := Option.map_eq_some_iff.mp hf
    cases heq
    obtain ⟨hdispatcher, hidle, rfl⟩ := PoolThread.dispatch_cases hdispatch
    refine ⟨.of_eq rfl rfl rfl fun k hk => ?_, rfl, fun k hrole _ => ?_⟩
    · rw [PoolThread.chosen_of_idle hidle (PoolTask.bind_next_chosen ..)] at hk
      cases hk
    · rw [hdispatcher] at hrole
      cases hrole
  | start k =>
    dsimp only [PoolState.step] at hstep
    split_ifs at hstep
    cases hstep
    have hclients : ∀ x, (s.shared.clients x).Lasts _ :=
      PoolCore.lasts_updateClient (c := k)
        (f := fun client => { client with workerStart := true }) ⟨rfl, fun h => h⟩
    refine ⟨h.keys, fun x hx => (hclients x).accepts.trans (h.fresh x hx), fun x hends => ?_⟩
    have hrests := h.rests x ((hclients x).accepts.symm.trans hends)
    refine ⟨(hclients x).settled hrests.settled, fun thread hthread => ?_,
      fun thread hthread hworker => ?_⟩
    · rcases List.mem_append.mp hthread with hold | hnew
      · exact hrests.unchosen thread hold
      · rw [List.mem_singleton.mp hnew]
        exact List.not_mem_nil
    · rcases List.mem_append.mp hthread with hold | hnew
      · exact hrests.idle thread hold hworker
      · rw [List.mem_singleton.mp hnew]
        rfl
  | connection k change =>
    dsimp only [PoolState.step] at hstep
    split_ifs at hstep with hk
    cases hstep
    refine ⟨h.keys, fun x hx => ?_, fun x hends => ?_⟩
    · have hne : x ≠ k := fun heq => absurd hk (not_lt.mpr (heq ▸ hx))
      dsimp only
      rw [PoolCore.clients_updateClient, if_neg hne]
      exact h.fresh x hx
    · dsimp only at hends
      rw [PoolCore.clients_updateClient] at hends
      split_ifs at hends with hx
      · subst hx
        have hrests := hok.1 hends
        refine ⟨?_, hrests.unchosen, hrests.idle⟩
        dsimp only
        rw [PoolCore.clients_updateClient, if_pos rfl]
        exact hrests.settled.change change
      · have hrests := h.rests x hends
        refine ⟨?_, hrests.unchosen, hrests.idle⟩
        dsimp only
        rw [PoolCore.clients_updateClient, if_neg hx]
        exact hrests.settled

theorem Rested.spares (h : s.Rested) (hok : s.EndsAtRest i) : s.Spares admission i := by
  cases i with
  | advance t outcome =>
    dsimp only [Spares]
    cases hthread : s.parties[t]? with
    | none => trivial
    | some thread =>
      dsimp only
      cases hlooks : thread.looksUp outcome with
      | none => trivial
      | some origin =>
        intro k hk
        have hrests := h.rests k (PoolCore.acceptsNewJobs_of_mem_discards h.keys hk)
        refine ⟨hrests.settled, hrests.unchosen, fun hrole => ?_⟩
        have hidle := hrests.idle thread (List.mem_of_getElem? hthread) hrole
        rw [PoolThread.not_idle_of_looksUp hlooks] at hidle
        cases hidle
  | connection k change =>
    cases change with
    | dropped number =>
      intro job hjob hnumber
      exact hok.2 job hjob (by rw [hnumber])
    | _ => trivial
  | _ => trivial

theorem rested_initial (threads : ℕ) : (initial threads).Rested :=
  ⟨List.nodup_nil, fun _ _ => rfl, fun _ hends => by cases hends⟩

/-- What the connections do is enough for no lookup to throw out a client that is in use. -/
theorem meets_spares {threads : ℕ} {steps : List PoolStep}
    (hok : Meets (step admission) EndsAtRest (initial threads) steps) :
    Meets (step admission) (Spares admission) (initial threads) steps :=
  hok.mono_of_invariant (fun _ _ _ h hok hstep => h.step hok hstep) (fun _ _ h hok => h.spares hok)
    (rested_initial threads)

end PoolState

end KatHttp3
