import KatHttp3.Engine.PoolSteps

/-!
# What a request leaves behind

Once a request has had its ERROR, every job of it that a connection still has is
marked cancelled, and no redirect of it is under way, provided two things. When
the ERROR comes, nobody is handing over a job of the request, and all its jobs on
connections are marked, or all but one, which the `cancel` finds. And no redirect
arrives for a request that has ended.
-/

namespace KatHttp3

open CallStacks Parties Transition

/-! ### Jobs on connections -/

/-- The job is one of a request and not marked. -/
def PoolJob.runsFor (id : ℤ) (job : PoolJob) : Bool := job.id == id && !job.cancelled

theorem PoolJob.runsFor_iff {id : ℤ} {job : PoolJob} :
    job.runsFor id = true ↔ job.id = id ∧ job.cancelled = false := by
  simp [PoolJob.runsFor]

namespace PoolClient

variable (client client' : PoolClient)

/-- The jobs of a request that are pending or active and not marked. -/
def unmarked (id : ℤ) : List PoolJob :=
  (client.pending ++ client.active).filter (PoolJob.runsFor id)

/-- The job that `cancel_job` comes to first. -/
def cancelFinds (id : ℤ) : Option PoolJob :=
  (if client.pending.any (·.id == id) then client.pending else client.active).find? (·.id == id)

/-- No job has come, and none has lost its mark. -/
def Continues : Prop :=
  ∀ job' ∈ client'.pending ++ client'.active, ∃ job ∈ client.pending ++ client.active,
    job.id = job'.id ∧ (job.cancelled = true → job'.cancelled = true)

variable {client client'} {id : ℤ} {job : PoolJob}

theorem unmarked_eq_nil_iff :
    client.unmarked id = [] ↔
      ∀ job ∈ client.pending ++ client.active, job.id = id → job.cancelled = true := by
  rw [unmarked, List.filter_eq_nil_iff]
  simp only [PoolJob.runsFor_iff, not_and, Bool.not_eq_false]

theorem Continues.unmarked (h : client.Continues client') (hnil : client.unmarked id = []) :
    client'.unmarked id = [] := by
  rw [unmarked_eq_nil_iff] at hnil ⊢
  intro job' hjob' hid
  obtain ⟨job, hjob, hsame, hmark⟩ := h job' hjob'
  exact hmark (hnil job hjob (hsame.trans hid))

theorem Continues.refl (client : PoolClient) : client.Continues client :=
  fun job hjob => ⟨job, hjob, rfl, fun h => h⟩

theorem Continues.trans {client'' : PoolClient} (h : client.Continues client')
    (h' : client'.Continues client'') : client.Continues client'' := by
  intro job'' hjob''
  obtain ⟨job', hjob', hsame', hmark'⟩ := h' job'' hjob''
  obtain ⟨job, hjob, hsame, hmark⟩ := h job' hjob'
  exact ⟨job, hjob, hsame.trans hsame', fun hcancelled => hmark' (hmark hcancelled)⟩

theorem Continues.map {f : PoolJob → PoolJob}
    (hf : ∀ job, (f job).id = job.id ∧ (f job).cancelled = job.cancelled) :
    client.Continues (client.map f) := by
  intro job' hjob'
  simp only [PoolClient.map, ← List.map_append] at hjob'
  obtain ⟨job, hjob, rfl⟩ := List.mem_map.mp hjob'
  exact ⟨job, hjob, (hf job).1.symm, fun h => (hf job).2.trans h⟩

theorem mem_cancelFirst {jobs : List PoolJob} (h : job ∈ cancelFirst id jobs) :
    ∃ old ∈ jobs, old.id = job.id ∧ (old.cancelled = true → job.cancelled = true) := by
  induction jobs with
  | nil => cases h
  | cons head rest ih =>
    unfold cancelFirst at h
    split_ifs at h
    · rcases List.mem_cons.mp h with rfl | hrest
      · exact ⟨head, List.mem_cons_self, rfl, fun _ => rfl⟩
      · exact ⟨job, List.mem_cons_of_mem _ hrest, rfl, fun h => h⟩
    · rcases List.mem_cons.mp h with rfl | hrest
      · exact ⟨job, List.mem_cons_self, rfl, fun h => h⟩
      · obtain ⟨old, hold, hsame⟩ := ih hrest
        exact ⟨old, List.mem_cons_of_mem _ hold, hsame⟩

theorem continues_cancelJob (client : PoolClient) (id : ℤ) :
    client.Continues (client.cancelJob id) := by
  intro job' hjob'
  unfold cancelJob at hjob'
  split_ifs at hjob'
  · rcases List.mem_append.mp hjob' with hpending | hactive
    · obtain ⟨old, hold, hsame⟩ := mem_cancelFirst hpending
      exact ⟨old, List.mem_append_left _ hold, hsame⟩
    · exact ⟨job', List.mem_append_right _ hactive, rfl, fun h => h⟩
  · rcases List.mem_append.mp hjob' with hpending | hactive
    · exact ⟨job', List.mem_append_left _ hpending, rfl, fun h => h⟩
    · obtain ⟨old, hold, hsame⟩ := mem_cancelFirst hactive
      exact ⟨old, List.mem_append_right _ hold, hsame⟩

theorem continues_change (client : PoolClient) (change : ConnectionChange) :
    client.Continues (client.change change) := by
  intro job' hjob'
  cases change with
  | marked numbers =>
    simp only [PoolClient.change, ← List.map_append] at hjob'
    obtain ⟨job, hjob, rfl⟩ := List.mem_map.mp hjob'
    refine ⟨job, hjob, ?_⟩
    split_ifs
    · exact ⟨rfl, fun _ => rfl⟩
    · exact ⟨rfl, fun h => h⟩
  | submitted | refused | withdrawn | dropped | entered | closed =>
    refine ⟨job', ?_, rfl, fun h => h⟩
    simp only [PoolClient.change, List.mem_append, List.mem_filter] at hjob' ⊢
    tauto

/-- The only unmarked job of a request gets its mark if it is the one that is found. -/
theorem filter_cancelFirst {jobs : List PoolJob}
    (honly : jobs.filter (PoolJob.runsFor id) = [job])
    (hfinds : jobs.find? (·.id == id) = some job) :
    (cancelFirst id jobs).filter (PoolJob.runsFor id) = [] := by
  induction jobs with
  | nil => cases hfinds
  | cons head rest ih =>
    unfold cancelFirst
    by_cases hid : head.id = id
    · rw [List.find?_cons_of_pos (by simpa using hid)] at hfinds
      obtain rfl : head = job := Option.some.inj hfinds
      have hmem : head ∈ (head :: rest).filter (PoolJob.runsFor id) := by
        rw [honly]
        exact List.mem_singleton_self head
      rw [List.filter_cons_of_pos (List.mem_filter.mp hmem).2] at honly
      rw [if_pos hid, List.filter_cons_of_neg (by simp [PoolJob.runsFor])]
      exact (List.cons.inj honly).2
    · have hneg : ¬head.runsFor id = true := fun hruns => hid (PoolJob.runsFor_iff.mp hruns).1
      rw [List.find?_cons_of_neg (by simpa using hid)] at hfinds
      rw [List.filter_cons_of_neg hneg] at honly
      rw [if_neg hid, List.filter_cons_of_neg hneg]
      exact ih honly hfinds

theorem unmarked_cancelJob (honly : client.unmarked id = [job])
    (hfinds : client.cancelFinds id = some job) : (client.cancelJob id).unmarked id = [] := by
  have hmem : job ∈ client.unmarked id := by
    rw [honly]
    exact List.mem_singleton_self job
  have hruns := (List.mem_filter.mp hmem).2
  unfold cancelFinds at hfinds
  unfold unmarked at honly ⊢
  unfold cancelJob
  rw [List.filter_append] at honly ⊢
  split_ifs at hfinds ⊢ with hpending
  · rcases List.append_eq_singleton_iff.mp honly with ⟨hnone, -⟩ | ⟨hone, hrest⟩
    · have hfound := List.mem_filter.mpr ⟨List.mem_of_find?_eq_some hfinds, hruns⟩
      rw [hnone] at hfound
      cases hfound
    · dsimp only
      rw [filter_cancelFirst hone hfinds, hrest, List.append_nil]
  · have hnone : client.pending.filter (PoolJob.runsFor id) = [] := by
      rw [List.filter_eq_nil_iff]
      intro other hother hruns
      apply hpending
      rw [List.any_eq_true]
      exact ⟨other, hother, beq_iff_eq.mpr (PoolJob.runsFor_iff.mp hruns).1⟩
    rw [hnone, List.nil_append] at honly
    dsimp only
    rw [hnone, filter_cancelFirst honly hfinds, List.append_nil]

end PoolClient

/-! ### The end of a request -/

namespace PoolCall

/-- The call has registered a request and is going to submit its job. -/
def handsOver (id : ℤ) : PoolCall → Bool
  | execute x _ (.submitting _) => x == id
  | _ => false

/-- The request that the next step gives its ERROR, and the client that `cancel_job` is
called for. -/
def fails (core : PoolCore) : PoolCall → Option (ℤ × Option ℕ)
  | cancel id .checking =>
    match core.registry id with
    | some entry => if entry.terminal then none else some (id, entry.client)
    | none => none
  | _ => none

end PoolCall

namespace PoolTask

/-- The task follows a redirect of a request. -/
def handsOver (id : ℤ) : PoolTask → Bool
  | hop _ x _ => x == id
  | _ => false

def fails (core : PoolCore) : PoolTask → Option (ℤ × Option ℕ)
  | deliver id event _ .checking =>
    match core.registry id with
    | some entry =>
      if !entry.terminal && !entry.cancelled && event.isTerminal && event != .complete then
        some (id, none)
      else none
    | none => none
  | _ => none

theorem any_next_handsOver (id x : ℤ) (rest : List AppEvent) :
    (next id rest).any (handsOver x) = false := by
  cases rest <;> rfl

end PoolTask

namespace PoolThread

variable (thread : PoolThread)

def handsOver (id : ℤ) : Bool :=
  thread.calls.any (PoolCall.handsOver id) || thread.task.any (PoolTask.handsOver id)

def fails (core : PoolCore) : Option (ℤ × Option ℕ) :=
  match thread.calls with
  | call :: _ => call.fails core
  | [] => thread.task.bind (PoolTask.fails core)

end PoolThread

namespace PoolState

/-- Nobody is handing over a job of a request, and its jobs on connections are marked, or
all but one that `cancel_job` comes to first on a client. -/
def Clears (s : PoolState) (id : ℤ) (client : Option ℕ) : Prop :=
  (∀ thread ∈ s.parties, thread.handsOver id = false) ∧
    ∀ k, (s.shared.clients k).unmarked id = [] ∨ client = some k ∧
      ∃ job, (s.shared.clients k).unmarked id = [job] ∧
        (s.shared.clients k).cancelFinds id = some job

/-- An ERROR comes when the request is clear, and no redirect comes after it. -/
def EndsClear (s : PoolState) : PoolStep → Prop
  | .advance t _ =>
    ∀ thread, s.parties[t]? = some thread →
      ∀ id client, thread.fails s.shared = some (id, client) → s.Clears id client
  | .redirect t number _ =>
    ∀ thread k job, s.parties[t]? = some thread → thread.role = .worker k →
      (s.shared.clients k).active.find? (·.number == number) = some job →
      job.id ∉ s.shared.ended
  | _ => True

/-- Every job of a request that has had its ERROR is marked, and no thread is going to
submit another one. -/
structure Silenced (s : PoolState) : Prop where
  marked : ∀ id ∈ s.shared.ended, ∀ k, (s.shared.clients k).unmarked id = []
  quiet : ∀ id ∈ s.shared.ended, ∀ thread ∈ s.parties, thread.handsOver id = false

end PoolState

/-! ### Steps -/

namespace PoolCore

/-- What a step does to the requests that have ended: one more ends if it fails, the jobs
of the others stay marked, and what hands over a job is a call of a request that lives. -/
structure Ends (core core' : PoolCore) (fails : Option (ℤ × Option ℕ))
    (before after : ℤ → Bool) : Prop where
  ended : ∀ id ∈ core'.ended, id ∈ core.ended ∨ ∃ client, fails = some (id, client)
  marked : ∀ id k, (core.clients k).unmarked id = [] → before id = false →
    (core'.clients k).unmarked id = []
  cancelled : ∀ id k job, fails = some (id, some k) → (core.clients k).unmarked id = [job] →
    (core.clients k).cancelFinds id = some job → (core'.clients k).unmarked id = []
  handed : ∀ id ∈ core'.ended, after id = true → before id = true

end PoolCore

section

variable {admission : AdmissionConfig} {t : ℕ} {core core' : PoolCore} {outcome : Outcome}
  {id : ℤ} {k : ℕ}

namespace PoolCore

/-- A step after which nothing has ended and no job has come. -/
theorem Ends.of_continues {fails : Option (ℤ × Option ℕ)} {before after : ℤ → Bool}
    (hfails : ∀ id k, fails ≠ some (id, some k)) (hended : ∀ id ∈ core'.ended, id ∈ core.ended)
    (hclients : ∀ k, (core.clients k).Continues (core'.clients k))
    (hhanded : ∀ id ∈ core'.ended, after id = true → before id = true) :
    core.Ends core' fails before after :=
  ⟨fun id hid => .inl (hended id hid), fun _ k hnil _ => (hclients k).unmarked hnil,
    fun id k _ heq => absurd heq (hfails id k), hhanded⟩

/-- A step that changes neither. -/
theorem Ends.of_eq {fails : Option (ℤ × Option ℕ)} {before after : ℤ → Bool}
    (hfails : ∀ id k, fails ≠ some (id, some k)) (hended : core'.ended = core.ended)
    (hclients : core'.clients = core.clients)
    (hhanded : ∀ id, after id = true → before id = true) :
    core.Ends core' fails before after := by
  refine .of_continues hfails (fun id hid => hended ▸ hid) (fun k => ?_) fun id _ => hhanded id
  rw [hclients]
  exact .refl _

theorem continues_settle (id : ℤ) (k : ℕ) :
    (core.clients k).Continues ((core.settle id).clients k) := by
  apply PoolClient.Continues.map
  intro job
  split_ifs <;> exact ⟨rfl, rfl⟩

theorem continues_hear (id : ℤ) (event : AppEvent) (k : ℕ) :
    (core.clients k).Continues ((core.hear id event).clients k) := by
  unfold hear
  split_ifs
  · exact continues_settle id k
  · exact .refl _

theorem continues_updateClient {c : ℕ} {f : PoolClient → PoolClient}
    (hf : (core.clients c).Continues (f (core.clients c))) (k : ℕ) :
    (core.clients k).Continues ((core.updateClient c f).clients k) := by
  rw [clients_updateClient]
  split_ifs with hk
  · exact hk ▸ hf
  · exact .refl _

theorem continues_record (c number : ℕ) (id : ℤ) (client : Option ℕ) (k : ℕ) :
    (core.clients k).Continues ((core.record c number id client).clients k) := by
  apply continues_updateClient (f := fun client => client.map fun job =>
    if job.number = number ∧ job.id = id then { job with settled := true } else job)
  apply PoolClient.Continues.map
  intro job
  split_ifs <;> exact ⟨rfl, rfl⟩

theorem continues_cancel (id : ℤ) (entry : PoolEntry) (k : ℕ) :
    (core.clients k).Continues ((core.cancel id entry).clients k) := by
  unfold cancel
  refine .trans ?_ (continues_settle id k)
  cases entry.client with
  | none => exact .refl _
  | some c =>
    have hclient : ∀ k, (((core.erase id).fail id).clients k).Continues _ :=
      continues_updateClient (f := fun client => client.cancelJob id)
        (PoolClient.continues_cancelJob (core.clients c) id)
    exact hclient k

theorem unmarked_cancel {entry : PoolEntry} {job : PoolJob} (hclient : entry.client = some k)
    (honly : (core.clients k).unmarked id = [job])
    (hfinds : (core.clients k).cancelFinds id = some job) :
    ((core.cancel id entry).clients k).unmarked id = [] := by
  unfold cancel
  apply (continues_settle id k).unmarked
  rw [hclient, Option.elim_some, clients_updateClient, if_pos rfl]
  exact PoolClient.unmarked_cancelJob honly hfinds

/-- A job of another request is no concern. -/
theorem Ends.submitJob {fails : Option (ℤ × Option ℕ)} {before : ℤ → Bool} {c : ℕ}
    (hfails : ∀ id k, fails ≠ some (id, some k)) (hbefore : before id = true)
    (hended : core'.ended = core.ended) (hclients : core'.clients = (core.submitJob c id).clients) :
    core.Ends core' fails before fun _ => false := by
  refine ⟨fun x hx => .inl (hended ▸ hx), ?_, fun id k _ heq => absurd heq (hfails id k),
    fun _ _ h => absurd h Bool.false_ne_true⟩
  intro x k hnil hnot
  have hx : id ≠ x := by
    rintro rfl
    rw [hbefore] at hnot
    cases hnot
  rw [hclients]
  by_cases hk : k = c
  · subst hk
    rw [PoolClient.unmarked_eq_nil_iff] at hnil ⊢
    intro job hjob hid
    simp only [PoolCore.submitJob, updateClient, Function.update_self, PoolClient.submitJob,
      List.mem_append, List.mem_singleton] at hjob
    rcases hjob with (hpending | rfl) | hactive
    · exact hnil job (List.mem_append_left _ hpending) hid
    · exact absurd hid hx
    · exact hnil job (List.mem_append_right _ hactive) hid
  · simpa [PoolCore.submitJob, updateClient, Function.update_of_ne hk] using hnil

end PoolCore

theorem PoolCall.Advances.ends {call : PoolCall} {after : Option PoolCall}
    (h : PoolCall.Advances admission t core outcome call core' after) :
    core.Ends core' (call.fails core) (fun id => call.handsOver id)
      fun id => after.any (PoolCall.handsOver id) := by
  cases h with
  | executeCached =>
    exact .of_continues (fun _ _ => nofun) (fun x hx => (List.mem_filter.mp hx).1)
      (fun _ => .refl _) fun _ _ h => h
  | @executeLooked _ id origin =>
    obtain ⟨pool, created, hshared⟩ := core.getOrCreateClient_shared admission origin
    rw [hshared]
    refine .of_eq (fun _ _ => nofun) rfl rfl fun x hafter => ?_
    cases hfound : (core.getOrCreateClient admission origin).2 with
    | none =>
      rw [hfound] at hafter
      exact hafter
    | some k =>
      rw [hfound] at hafter
      exact hafter
  | @executeRegistered _ id _ k =>
    refine .of_continues (fun _ _ => nofun) (fun x hx => (List.mem_filter.mp hx).1)
      (fun _ => .refl _) fun x hx hafter => ?_
    have hsame : id = x := by simpa [PoolCall.handsOver] using hafter
    have hother := (List.mem_filter.mp hx).2
    simp [hsame] at hother
  | executeSubmitted =>
    exact .submitJob (fun _ _ => nofun) (beq_self_eq_true _) rfl rfl
  | @cancelIgnored _ id gone =>
    refine .of_eq (fun x k heq => ?_) rfl rfl fun _ h => h
    unfold PoolCall.fails at heq
    dsimp only at heq
    split at heq
    · rename_i entry hentry
      rw [if_pos (gone entry hentry)] at heq
      cases heq
    · cases heq
  | @cancelErased _ id entry found live =>
    have hfails : PoolCall.fails core (.cancel id .checking) = some (id, entry.client) := by
      simp [PoolCall.fails, found, live]
    rw [hfails]
    refine ⟨fun x hx => ?_, fun x k hnil _ => ?_, fun x k job heq honly hfinds => ?_,
      fun _ _ h => h⟩
    · rw [PoolCore.ended_cancel] at hx
      rcases List.mem_cons.mp hx with rfl | hold
      · exact .inr ⟨entry.client, rfl⟩
      · exact .inl hold
    · exact (PoolCore.continues_cancel id entry k).unmarked hnil
    · obtain ⟨rfl, hclient⟩ := Prod.mk.inj (Option.some.inj heq)
      exact PoolCore.unmarked_cancel hclient honly hfinds
  | executeReturned last =>
    rcases last with rfl | rfl <;> exact .of_eq (fun _ _ => nofun) rfl rfl fun _ h => h
  | _ => exact .of_eq (fun _ _ => nofun) rfl rfl fun _ h => h

theorem PoolTask.Advances.ends {role : ThreadRole} {task : PoolTask} {after : Option PoolTask}
    (h : PoolTask.Advances admission t core role outcome task core' after) :
    core.Ends core' (task.fails core) (fun id => task.handsOver id)
      fun id => after.any (PoolTask.handsOver id) := by
  have hfails : ∀ id k, task.fails core ≠ some (id, some k) := by
    intro id k heq
    unfold PoolTask.fails at heq
    split at heq
    · split at heq
      · split_ifs at heq
        cases heq
      · cases heq
    · cases heq
  cases h with
  | deliverIgnored =>
    refine .of_continues hfails (fun x hx => ?_) (PoolCore.continues_hear _ _) fun x _ hafter => ?_
    · rwa [PoolCore.unlockCallback, PoolCore.ended_hear] at hx
    · rw [PoolTask.any_next_handsOver] at hafter
      cases hafter
  | @deliverErased _ id event =>
    refine .of_continues hfails (fun x hx => ?_) ?_ fun x _ hafter => ?_
    · rwa [PoolCore.unlockCallback, PoolCore.ended_hear] at hx
    · have hhear : ∀ k, ((core.erase id).clients k).Continues _ := PoolCore.continues_hear id event
      exact hhear
    · rw [PoolTask.any_next_handsOver] at hafter
      cases hafter
  | @deliverEnds _ id event rest entry found live uncancelled terminal =>
    refine ⟨fun x hx => ?_, fun x k hnil _ => ?_, fun x k _ heq => absurd heq (hfails x k),
      fun _ _ hafter => hafter⟩
    · rw [PoolCore.ended_terminate] at hx
      split_ifs at hx with hcomplete
      · exact .inl hx
      · rcases List.mem_cons.mp hx with rfl | hold
        · exact .inr ⟨none, by simp [PoolTask.fails, found, live, uncancelled, terminal, hcomplete]⟩
        · exact .inl hold
    · rwa [PoolCore.clients_terminate]
  | deliverReturned =>
    refine .of_eq hfails rfl rfl fun x hafter => ?_
    rw [PoolTask.any_next_handsOver] at hafter
    cases hafter
  | @hopLooked _ _ id target =>
    obtain ⟨pool, created, hshared⟩ := core.getOrCreateClient_shared admission target
    rw [hshared]
    refine .of_eq hfails rfl rfl fun x hafter => ?_
    cases hfound : (core.getOrCreateClient admission target).2 with
    | none =>
      rw [hfound] at hafter
      cases hafter
    | some c =>
      rw [hfound] at hafter
      exact hafter
  | hopRecorded =>
    exact .of_continues hfails (fun x hx => hx) (PoolCore.continues_record _ _ _ _)
      fun x _ hafter => hafter
  | hopQueued =>
    refine .of_eq hfails rfl rfl fun x hafter => ?_
    split_ifs at hafter
    · cases hafter
    · cases hafter
  | hopSubmitted => exact .submitJob hfails (beq_self_eq_true _) rfl rfl
  | _ => exact .of_eq hfails rfl rfl fun _ hafter => hafter

end

/-! ### Runs -/

section

variable {admission : AdmissionConfig} {t : ℕ} {core core' : PoolCore} {outcome : Outcome}
  {thread thread' : PoolThread}

/-- What else a thread is in the middle of stays as it is. -/
theorem PoolCore.Ends.or {fails : Option (ℤ × Option ℕ)} {before after : ℤ → Bool}
    (h : core.Ends core' fails before after) (others : ℤ → Bool) :
    core.Ends core' fails (fun id => before id || others id) fun id => after id || others id := by
  refine ⟨h.ended, fun id k hnil hnot => ?_, h.cancelled, fun id hid hafter => ?_⟩
  · exact h.marked id k hnil (Bool.or_eq_false_iff.mp hnot).1
  · rw [Bool.or_eq_true] at hafter ⊢
    exact hafter.imp_left (h.handed id hid)

namespace PoolThread

theorem ends_advance (h : thread.advance admission t outcome core = some (core', thread')) :
    core.Ends core' (thread.fails core) thread.handsOver thread'.handsOver := by
  obtain ⟨role, task, calls⟩ := thread
  rcases advance_cases h with ⟨call, rest, after, hcalls, hadvance, rfl⟩ |
    ⟨task, after, hcalls, htask, hadvance, rfl⟩
  · subst hcalls
    have hends := hadvance.ends.or fun id =>
      rest.any (PoolCall.handsOver id) || task.any (PoolTask.handsOver id)
    have hbefore : handsOver ⟨role, task, call :: rest⟩ = fun id => call.handsOver id ||
        (rest.any (PoolCall.handsOver id) || task.any (PoolTask.handsOver id)) := by
      funext id
      simp [handsOver, Bool.or_assoc]
    have hafter : handsOver ⟨role, task, after.toList ++ rest⟩ = fun id =>
        after.any (PoolCall.handsOver id) ||
          (rest.any (PoolCall.handsOver id) || task.any (PoolTask.handsOver id)) := by
      funext id
      cases after <;> simp [handsOver, Bool.or_assoc]
    rw [hbefore, hafter]
    exact hends
  · subst hcalls htask
    have hidle : ∀ task id,
        handsOver ⟨role, task, []⟩ id = task.any (PoolTask.handsOver id) := by
      simp [handsOver]
    refine ⟨hadvance.ends.ended, fun id k hnil hnot => ?_, hadvance.ends.cancelled,
      fun id hid hafter => ?_⟩
    · rw [hidle] at hnot
      exact hadvance.ends.marked id k hnil hnot
    · rw [hidle] at hafter ⊢
      exact hadvance.ends.handed id hid hafter

theorem handsOver_of_idle (hidle : thread.idle = true) (task : Option PoolTask) (id : ℤ) :
    { thread with task := task }.handsOver id = task.any (PoolTask.handsOver id) := by
  simp only [idle, Bool.and_eq_true, beq_iff_eq] at hidle
  simp [handsOver, hidle.2]

end PoolThread

namespace PoolState

variable {s s' : PoolState} {i : PoolStep}

theorem Silenced.move (h : s.Silenced)
    {f : PoolCore → PoolThread → Option (PoolCore × PoolThread)} (hmove : s.move t f = some s')
    (hf : ∀ thread core' thread', s.parties[t]? = some thread →
      f s.shared thread = some (core', thread') → ∃ fails,
        s.shared.Ends core' fails thread.handsOver thread'.handsOver ∧
          ∀ id client, fails = some (id, client) → s.Clears id client) : s'.Silenced := by
  obtain ⟨thread, core', thread', hthread, hstep, rfl⟩ := System.move_eq_some.mp hmove
  obtain ⟨fails, hends, hclears⟩ := hf thread core' thread' hthread hstep
  have hquiet : ∀ id ∈ core'.ended, ∀ thread ∈ s.parties, thread.handsOver id = false := by
    intro id hid
    rcases hends.ended id hid with hold | ⟨client, hfails⟩
    · exact h.quiet id hold
    · exact (hclears id client hfails).1
  have hmem : thread ∈ s.parties := List.mem_of_getElem? hthread
  constructor
  · intro id hid k
    have hnot := hquiet id hid thread hmem
    rcases hends.ended id hid with hold | ⟨client, hfails⟩
    · exact hends.marked id k (h.marked id hold k) hnot
    · rcases (hclears id client hfails).2 k with hnil | ⟨rfl, job, honly, hfinds⟩
      · exact hends.marked id k hnil hnot
      · exact hends.cancelled id k job hfails honly hfinds
  · intro id hid other hother
    rcases List.mem_or_eq_of_mem_set hother with hstays | rfl
    · exact hquiet id hid other hstays
    · rw [← Bool.not_eq_true]
      intro hafter
      have hbefore := hends.handed id hid hafter
      rw [hquiet id hid thread hmem] at hbefore
      cases hbefore

theorem Silenced.step (h : s.Silenced) (hclear : s.EndsClear i)
    (hstep : step admission s i = some s') : s'.Silenced := by
  cases i with
  | execute t id origin | cancel t id =>
    dsimp only [PoolState.step] at hstep
    refine h.move hstep fun thread core' thread' _ hf => ⟨none, ?_, fun _ _ => nofun⟩
    obtain ⟨new, hcall, heq⟩ := Option.map_eq_some_iff.mp hf
    cases heq
    obtain ⟨-, rfl⟩ := PoolThread.call_cases hcall
    refine .of_eq (fun _ _ => nofun) rfl rfl fun x hafter => ?_
    simpa [PoolThread.handsOver, PoolCall.handsOver] using hafter
  | advance t outcome =>
    dsimp only [PoolState.step] at hstep
    refine h.move hstep fun thread core' thread' hthread hf => ?_
    exact ⟨_, PoolThread.ends_advance hf, hclear thread hthread⟩
  | callback t number events =>
    dsimp only [PoolState.step] at hstep
    refine h.move hstep fun thread core' thread' _ hf => ⟨none, ?_, fun _ _ => nofun⟩
    obtain ⟨new, hcallback, heq⟩ := Option.map_eq_some_iff.mp hf
    cases heq
    obtain ⟨hidle, id, rfl⟩ := PoolThread.callback_cases hcallback
    refine .of_eq (fun _ _ => nofun) rfl rfl fun x hafter => ?_
    rw [PoolThread.handsOver_of_idle hidle, PoolTask.any_next_handsOver] at hafter
    cases hafter
  | redirect t number target =>
    dsimp only [PoolState.step] at hstep
    refine h.move hstep fun thread core' thread' hthread hf => ⟨none, ?_, fun _ _ => nofun⟩
    obtain ⟨hidle, k, job, hrole, hfound, rfl, rfl⟩ := PoolThread.redirect_cases hf
    have hlive := hclear thread k job hthread hrole hfound
    refine .of_continues (fun _ _ => nofun) (fun x hx => hx) ?_ fun x hx hafter => ?_
    · apply PoolCore.continues_updateClient
      apply PoolClient.Continues.map
      intro job
      split_ifs <;> exact ⟨rfl, rfl⟩
    · rw [PoolThread.handsOver_of_idle hidle] at hafter
      obtain rfl : job.id = x := by simpa [PoolTask.handsOver] using hafter
      exact absurd hx hlive
  | dispatch t id events =>
    dsimp only [PoolState.step] at hstep
    refine h.move hstep fun thread core' thread' _ hf => ⟨none, ?_, fun _ _ => nofun⟩
    obtain ⟨new, hdispatch, heq⟩ := Option.map_eq_some_iff.mp hf
    cases heq
    obtain ⟨-, hidle, rfl⟩ := PoolThread.dispatch_cases hdispatch
    refine .of_eq (fun _ _ => nofun) rfl rfl fun x hafter => ?_
    rw [PoolThread.handsOver_of_idle hidle, PoolTask.any_next_handsOver] at hafter
    cases hafter
  | start k =>
    dsimp only [PoolState.step] at hstep
    split_ifs at hstep
    cases hstep
    refine ⟨fun id hid x => ?_, fun id hid thread hthread => ?_⟩
    · refine PoolClient.Continues.unmarked ?_ (h.marked id hid x)
      apply PoolCore.continues_updateClient (f := fun client => { client with workerStart := true })
      exact .refl _
    · rcases List.mem_append.mp hthread with hold | hnew
      · exact h.quiet id hid thread hold
      · rw [List.mem_singleton.mp hnew]
        rfl
  | connection k change =>
    dsimp only [PoolState.step] at hstep
    split_ifs at hstep
    cases hstep
    refine ⟨fun id hid x => ?_, h.quiet⟩
    refine PoolClient.Continues.unmarked ?_ (h.marked id hid x)
    apply PoolCore.continues_updateClient (f := fun client => client.change change)
    exact PoolClient.continues_change _ change

theorem silenced_initial (threads : ℕ) : (initial threads).Silenced :=
  ⟨fun _ hid => absurd hid List.not_mem_nil, fun _ hid => absurd hid List.not_mem_nil⟩

/-- In a run in which every ERROR comes when its request is clear and no redirect comes
after it, every job of a request that has had its ERROR is marked on every connection,
and no thread follows a redirect of it or hands over another job. -/
theorem run_silenced {threads : ℕ} {steps : List PoolStep}
    (hrun : run (step admission) (initial threads) steps = some s)
    (hok : Meets (step admission) EndsClear (initial threads) steps) :
    ∀ id ∈ s.shared.ended,
      (∀ k, ∀ job ∈ (s.shared.clients k).pending ++ (s.shared.clients k).active,
        job.id = id → job.cancelled = true) ∧
      ∀ thread ∈ s.parties, thread.handsOver id = false := by
  have hsilenced : s.Silenced := run_invariant (fun _ _ _ h hclear hstep => h.step hclear hstep)
    hrun hok (silenced_initial threads)
  intro id hid
  refine ⟨fun k => ?_, hsilenced.quiet id hid⟩
  exact PoolClient.unmarked_eq_nil_iff.mp (hsilenced.marked id hid k)

/-! ### A cancelled request -/

/-- No ERROR and no redirect comes. -/
def Quiet (s : PoolState) : PoolStep → Prop
  | .advance t _ => (s.parties[t]?.bind fun thread => thread.fails s.shared) = none
  | .redirect _ _ _ => False
  | _ => True

instance (s : PoolState) : ∀ i, Decidable (s.Quiet i)
  | .advance _ _ => inferInstanceAs (Decidable (_ = none))
  | .redirect _ _ _ => inferInstanceAs (Decidable False)
  | .execute _ _ _ | .cancel _ _ | .callback _ _ _ | .dispatch _ _ _ | .start _
  | .connection _ _ => inferInstanceAs (Decidable True)

theorem Quiet.endsClear (h : s.Quiet i) : s.EndsClear i := by
  cases i with
  | advance t outcome =>
    intro thread hthread id client hfails
    dsimp only [Quiet] at h
    rw [hthread, Option.bind_some, hfails] at h
    cases h
  | redirect => exact h.elim
  | _ => trivial

def cancelledOrigin : Url :=
  { scheme := "https".toList, host := "a.test".toList, port := 443, path := "/".toList }

/-- A request is on a stream, and `cancel` is about to take its entry. -/
def cancellingSteps : List PoolStep :=
  .execute 1 7 cancelledOrigin :: List.replicate 4 (.advance 1 .done) ++
    [.start 0, .connection 0 (.submitted 0), .cancel 1 7, .advance 1 .done, .advance 1 .done]

theorem run_silenced_cancelled :
    ∃ s, run (step {}) (initial 1) (cancellingSteps ++ [.advance 1 .done]) = some s ∧
      s.shared.ended = [7] ∧
      ∀ k, ∀ job ∈ (s.shared.clients k).pending ++ (s.shared.clients k).active,
        job.id = 7 → job.cancelled = true := by
  obtain ⟨s, hrun, hended⟩ := Option.map_eq_some_iff.mp
    (show (run (step {}) (initial 1) (cancellingSteps ++ [.advance 1 .done])).map
        (fun s => s.shared.ended) = some [7] by decide +kernel)
  obtain ⟨u, hbefore, hseen⟩ := Option.map_eq_some_iff.mp
    (show (run (step {}) (initial 1) cancellingSteps).map
        (fun s => (s.parties, s.shared.registry 7, s.shared.clients 0)) =
      some ([{ role := .dispatcher }, { calls := [.cancel 7 .checking] }, { role := .worker 0 }],
        some { client := some 0 }, { workerStart := true, active := [{ number := 0, id := 7 }] })
      by decide +kernel)
  obtain ⟨hparties, hregistry, hclient⟩ :
      u.parties = _ ∧ u.shared.registry 7 = _ ∧ u.shared.clients 0 = _ := by
    simpa only [Prod.mk.injEq] using hseen
  have hothers : ∀ k, u.shared.clients (k + 1) = {} := by
    intro k
    have hmap : (run (step {}) (initial 1) cancellingSteps).map
      (fun s => s.shared.clients (k + 1)) = some {} := rfl
    rw [hbefore] at hmap
    exact Option.some.inj hmap
  have hclears : u.Clears 7 (some 0) := by
    refine ⟨by rw [hparties]; decide, fun k => ?_⟩
    cases k with
    | zero =>
      rw [hclient]
      exact .inr ⟨rfl, _, rfl, rfl⟩
    | succ k =>
      rw [hothers]
      exact .inl rfl
  have hlast : u.EndsClear (.advance 1 .done) := by
    intro thread hthread id client hfails
    rw [hparties] at hthread
    cases hthread
    simp only [PoolThread.fails, PoolCall.fails, hregistry] at hfails
    cases hfails
    exact hclears
  have hok : Meets (step {}) EndsClear (initial 1) cancellingSteps :=
    .mono (fun _ _ => Quiet.endsClear) (by decide +kernel)
  have hmeets : Meets (step {}) EndsClear u [.advance 1 .done] := by
    refine ⟨hlast, ?_⟩
    split <;> trivial
  have hends := run_silenced hrun ((meets_append hbefore).mpr ⟨hok, hmeets⟩) 7 (by rw [hended]; decide)
  exact ⟨s, hrun, hended, hends.1⟩

/-- A response with a redirect comes in after the `cancel`, and its job is on the
connection again. -/
def revivingSteps : List PoolStep :=
  cancellingSteps ++ List.replicate 4 (.advance 1 .done) ++
    .redirect 2 0 cancelledOrigin :: List.replicate 3 (.advance 2 .done)

theorem run_revived :
    ∃ s, run (step {}) (initial 1) revivingSteps = some s ∧ 7 ∈ s.shared.ended ∧
      ∃ job ∈ (s.shared.clients 0).pending, job.id = 7 ∧ job.cancelled = false := by
  obtain ⟨s, hrun, hseen⟩ := Option.map_eq_some_iff.mp
    (show (run (step {}) (initial 1) revivingSteps).map
        (fun s => (s.shared.ended, (s.shared.clients 0).pending)) =
      some ([7], [{ number := 1, id := 7 }]) by decide +kernel)
  obtain ⟨hended, hpending⟩ := Prod.mk.inj hseen
  refine ⟨s, hrun, by rw [hended]; decide, { number := 1, id := 7 }, ?_, rfl, rfl⟩
  rw [hpending]
  exact List.mem_singleton_self _

end PoolState

end

end KatHttp3
