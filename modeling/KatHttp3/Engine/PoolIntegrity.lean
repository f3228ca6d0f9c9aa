import KatHttp3.Engine.PoolSteps
import KatHttp3.Library.WeightedList

/-!
# The registry refers to the pool

A client that a lookup throws out of the pool must not be needed any more: no job
of it is unfinished, no thread is about to hand it a job, and the lookup does not
run on its own worker. As long as that is so, and no job leaves its client before
the end of its request, every client in the registry is in the pool. The entry of
a request has a job on its client, or a thread that is about to submit one.
-/

namespace KatHttp3

open CallStacks Parties Transition WeightedList

/-! ### What a thread is in the middle of -/

namespace PoolCall

/-- How often the call has locked the callback lock. -/
def holdsCallback : PoolCall → ℕ
  | execute _ _ _ => 0
  | cancel _ phase =>
    match phase with
    | .checking | .releasing | .invoking | .calling => 1
    | _ => 0

/-- The client that the call has looked up and has yet to hand a job to. -/
def chosen : PoolCall → Option ℕ
  | execute _ _ (.registering k) => some k
  | execute _ _ (.submitting k) => some k
  | _ => none

/-- The registered request whose job the call is going to hand to a client. -/
def brings : PoolCall → Option (ℤ × ℕ)
  | execute id _ (.submitting k) => some (id, k)
  | _ => none

/-- The origin of the lookup that the next step makes. -/
def looksUp (outcome : Outcome) : PoolCall → Option Url
  | execute _ origin .choosing =>
    if outcome = .refused ∨ outcome = .cached then none else some origin
  | _ => none

end PoolCall

namespace PoolTask

def holdsCallback : PoolTask → ℕ
  | deliver _ _ _ phase => if phase = .entering then 0 else 1
  | hop _ _ _ => 0

def chosen : PoolTask → Option ℕ
  | hop _ _ (.recording client) => client
  | hop _ _ (.submitting c) => some c
  | _ => none

def brings : PoolTask → Option (ℤ × ℕ)
  | hop _ id (.submitting c) => some (id, c)
  | _ => none

def looksUp (outcome : Outcome) : PoolTask → Option Url
  | hop _ _ (.choosing target) => if outcome = .cached then none else some target
  | _ => none

/-- The task has marked the entry of the request and is going to erase it. -/
def ends (id : ℤ) : PoolTask → Bool
  | deliver x event _ phase =>
    x == id && event.isTerminal && (phase == .invoking || phase == .calling || phase == .erasing)
  | hop _ _ _ => false

end PoolTask

namespace PoolThread

variable (thread : PoolThread)

def holdsCallback : ℕ :=
  total PoolCall.holdsCallback thread.calls + thread.task.elim 0 PoolTask.holdsCallback

def chosen : List ℕ :=
  thread.calls.filterMap PoolCall.chosen ++ (thread.task.bind PoolTask.chosen).toList

def brings : List (ℤ × ℕ) :=
  thread.calls.filterMap PoolCall.brings ++ (thread.task.bind PoolTask.brings).toList

def ends (id : ℤ) : Bool := thread.task.any (PoolTask.ends id)

def looksUp (outcome : Outcome) : Option Url :=
  match thread.calls with
  | call :: _ => call.looksUp outcome
  | [] => thread.task.bind (PoolTask.looksUp outcome)

end PoolThread

namespace PoolCore

variable (core core' : PoolCore)

def Owns (k : ℕ) : Prop := k ∈ core.pool.map Prod.snd

/-- The entry of a request refers to a client. -/
def Records (id : ℤ) (k : ℕ) : Prop :=
  ∃ entry, core.registry id = some entry ∧ entry.client = some k

/-- A client has an unfinished job of a request. -/
def Awaits (id : ℤ) (k : ℕ) : Prop :=
  ∃ job ∈ (core.clients k).jobs, job.id = id ∧ job.settled = false

/-- Every entry that a step leaves has a job, or somebody who brings one, if that was so
before the step. -/
def Keeps (before after : Option (ℤ × ℕ)) : Prop :=
  ∀ id k, core'.Records id k → after = some (id, k) ∨ core'.Awaits id k ∨
    core.Records id k ∧ (core.Awaits id k → core'.Awaits id k) ∧ before ≠ some (id, k)

end PoolCore

namespace PoolState

/-- A client that may go when a thread looks up another one. -/
def Unused (s : PoolState) (thread : PoolThread) (k : ℕ) : Prop :=
  (∀ job ∈ (s.shared.clients k).jobs, job.settled = true) ∧
    (∀ other ∈ s.parties, k ∉ other.chosen) ∧ thread.role ≠ .worker k

/-- The lookup of a step throws out no client that is in use, and no job is dropped
before its request has ended. -/
def Spares (admission : AdmissionConfig) (s : PoolState) : PoolStep → Prop
  | .advance t outcome =>
    match s.parties[t]? with
    | none => True
    | some thread =>
      match thread.looksUp outcome with
      | none => True
      | some origin =>
        ∀ k ∈ s.shared.discards (Execution.poolKey admission origin), s.Unused thread k
  | .connection k (.dropped number) =>
    ∀ job ∈ (s.shared.clients k).jobs, job.number = number → job.settled = true
  | _ => True

/-- Every client in the registry is in the pool. -/
def Integral (s : PoolState) : Prop := ∀ id k, s.shared.Records id k → s.shared.Owns k

/-- A client that the registry refers to or that a thread has chosen. -/
def Uses (s : PoolState) (k : ℕ) : Prop :=
  (∃ id, s.shared.Records id k) ∨ ∃ thread ∈ s.parties, k ∈ thread.chosen

structure Intact (s : PoolState) : Prop where
  locked : ∀ t, s.parties[t]?.elim 0 PoolThread.holdsCallback = s.shared.callback.depth t
  marked : ∀ id entry, s.shared.registry id = some entry → entry.terminal = true →
    ∃ thread ∈ s.parties, thread.ends id = true
  owed : ∀ id k, s.shared.Records id k →
    s.shared.Awaits id k ∨ ∃ thread ∈ s.parties, (id, k) ∈ thread.brings
  owned : ∀ k, s.Uses k → s.shared.Owns k

end PoolState

instance (core : PoolCore) (k : ℕ) : Decidable (core.Owns k) :=
  inferInstanceAs (Decidable (k ∈ core.pool.map Prod.snd))

instance (s : PoolState) (thread : PoolThread) (k : ℕ) : Decidable (s.Unused thread k) :=
  inferInstanceAs (Decidable (_ ∧ _))

instance (admission : AdmissionConfig) (s : PoolState) :
    ∀ i, Decidable (s.Spares admission i)
  | .advance t outcome => by
    unfold PoolState.Spares
    dsimp only
    split
    · infer_instance
    · split <;> infer_instance
  | .connection _ (.dropped _) => by unfold PoolState.Spares; infer_instance
  | .connection _ (.submitted _) | .connection _ (.refused _) | .connection _ .withdrawn
  | .connection _ (.marked _) | .connection _ (.entered _) | .connection _ .closed
  | .execute _ _ _ | .cancel _ _ | .callback _ _ _ | .redirect _ _ _ | .dispatch _ _ _
  | .start _ => inferInstanceAs (Decidable True)

/-! ### The shared state -/

namespace PoolClient

variable {client : PoolClient} {job : PoolJob}

theorem mem_jobs_map {f : PoolJob → PoolJob} :
    job ∈ (client.map f).jobs ↔ ∃ old ∈ client.jobs, f old = job := by
  simp only [jobs, map, List.mem_append, List.mem_map, or_and_right, exists_or]

theorem exists_mem_cancelFirst (id : ℤ) {jobs : List PoolJob} (h : job ∈ jobs) :
    ∃ new ∈ cancelFirst id jobs, new.id = job.id ∧ new.settled = job.settled := by
  induction jobs with
  | nil => cases h
  | cons head rest ih =>
    unfold cancelFirst
    split_ifs with hid
    · rcases List.mem_cons.mp h with rfl | hrest
      · exact ⟨_, List.mem_cons_self, rfl, rfl⟩
      · exact ⟨job, List.mem_cons_of_mem _ hrest, rfl, rfl⟩
    · rcases List.mem_cons.mp h with rfl | hrest
      · exact ⟨job, List.mem_cons_self, rfl, rfl⟩
      · obtain ⟨new, hnew, hsame⟩ := ih hrest
        exact ⟨new, List.mem_cons_of_mem _ hnew, hsame⟩

theorem exists_mem_cancelJob {id : ℤ} (h : job ∈ client.jobs) :
    ∃ new ∈ (client.cancelJob id).jobs, new.id = job.id ∧ new.settled = job.settled := by
  simp only [jobs, List.mem_append] at h
  unfold cancelJob
  split_ifs
  · rcases h with (hpending | hactive) | hfailed
    · obtain ⟨new, hnew, hsame⟩ := exists_mem_cancelFirst id hpending
      exact ⟨new, by simp [jobs, hnew], hsame⟩
    · exact ⟨job, by simp [jobs, hactive], rfl, rfl⟩
    · exact ⟨job, by simp [jobs, hfailed], rfl, rfl⟩
  · rcases h with (hpending | hactive) | hfailed
    · exact ⟨job, by simp [jobs, hpending], rfl, rfl⟩
    · obtain ⟨new, hnew, hsame⟩ := exists_mem_cancelFirst id hactive
      exact ⟨new, by simp [jobs, hnew], hsame⟩
    · exact ⟨job, by simp [jobs, hfailed], rfl, rfl⟩

/-- What a worker does to its jobs keeps the unfinished ones, apart from a drop. -/
theorem exists_mem_change {change : ConnectionChange} (h : job ∈ client.jobs)
    (hdrop : ∀ number, change = .dropped number → job.number ≠ number) :
    ∃ new ∈ (client.change change).jobs, new.id = job.id ∧ new.settled = job.settled := by
  simp only [jobs, List.mem_append] at h
  cases change with
  | submitted number =>
    refine ⟨job, ?_, rfl, rfl⟩
    by_cases hnumber : job.number = number <;> simp [jobs, change, hnumber] <;> tauto
  | refused number =>
    refine ⟨job, ?_, rfl, rfl⟩
    by_cases hnumber : job.number = number <;> simp [jobs, change, hnumber] <;> tauto
  | withdrawn => exact ⟨job, by simp [jobs, change]; tauto, rfl, rfl⟩
  | marked numbers =>
    rcases h with (hpending | hactive) | hfailed
    · refine ⟨if job.number ∈ numbers then { job with cancelled := true } else job, ?_, ?_⟩
      · simp only [jobs, change, List.mem_append, List.mem_map]
        exact .inl (.inl ⟨job, hpending, rfl⟩)
      · split_ifs <;> exact ⟨rfl, rfl⟩
    · refine ⟨if job.number ∈ numbers then { job with cancelled := true } else job, ?_, ?_⟩
      · simp only [jobs, change, List.mem_append, List.mem_map]
        exact .inl (.inr ⟨job, hactive, rfl⟩)
      · split_ifs <;> exact ⟨rfl, rfl⟩
    · exact ⟨job, by simp [jobs, change, hfailed], rfl, rfl⟩
  | dropped number =>
    have hother := hdrop number rfl
    exact ⟨job, by simp [jobs, change, hother]; tauto, rfl, rfl⟩
  | entered state => exact ⟨job, by simp [jobs, change]; tauto, rfl, rfl⟩
  | closed => exact ⟨job, by simp [jobs, change]; tauto, rfl, rfl⟩

end PoolClient

namespace PoolCore

variable {core core' : PoolCore} {id x : ℤ} {k c : ℕ}

theorem records_erase : (core.erase id).Records x k ↔ x ≠ id ∧ core.Records x k := by
  unfold Records
  rw [registry_erase]
  by_cases hx : x = id
  · simp [hx]
  · simp [hx]

theorem records_register {client : Option ℕ} :
    (core.register id client).Records x k ↔
      if x = id then client = some k else core.Records x k := by
  unfold Records
  rw [registry_register]
  by_cases hx : x = id
  · simp [hx]
  · simp [hx]

theorem records_record {client : Option ℕ} {number : ℕ}
    (h : (core.record c number id client).Records x k) :
    if x = id then client = some k else core.Records x k := by
  unfold Records record at h
  by_cases hx : x = id
  · subst hx
    obtain ⟨entry, hentry, hclient⟩ := h
    rw [if_pos rfl]
    simp only [Function.update_self, Option.map_eq_some_iff] at hentry
    obtain ⟨old, -, rfl⟩ := hentry
    exact hclient
  · rw [if_neg hx]
    simpa [Records, hx] using h

theorem registry_record {client : Option ℕ} {number : ℕ} {entry : PoolEntry}
    (h : (core.record c number id client).registry x = some entry) :
    ∃ old, core.registry x = some old ∧ entry.terminal = old.terminal := by
  unfold record at h
  by_cases hx : x = id
  · subst hx
    simp only [Function.update_self, Option.map_eq_some_iff] at h
    obtain ⟨old, hold, rfl⟩ := h
    exact ⟨old, hold, rfl⟩
  · simp only [Function.update_of_ne hx] at h
    exact ⟨entry, h, rfl⟩

theorem records_terminate {event : AppEvent} {entry : PoolEntry}
    (found : core.registry id = some entry) (h : (core.terminate id event entry).Records x k) :
    core.Records x k := by
  unfold Records terminate at h
  by_cases hx : x = id
  · subst hx
    obtain ⟨other, hother, hclient⟩ := h
    simp only [Function.update_self, Option.some.injEq] at hother
    subst hother
    exact ⟨entry, found, hclient⟩
  · obtain ⟨other, hother, hclient⟩ := h
    simp only [Function.update_of_ne hx] at hother
    exact ⟨other, hother, hclient⟩

theorem records_cancel {entry : PoolEntry} :
    (core.cancel id entry).Records x k ↔ x ≠ id ∧ core.Records x k := by
  rw [← records_erase, Records, Records, registry_cancel]

/-- The jobs of a client are not lost, apart from those that a condition excepts. -/
theorem Awaits.mono (h : core.Awaits x k)
    (hkeep : ∀ job ∈ (core.clients k).jobs, job.id = x → job.settled = false →
      ∃ new ∈ (core'.clients k).jobs, new.id = job.id ∧ new.settled = job.settled) :
    core'.Awaits x k := by
  obtain ⟨job, hjob, hid, hsettled⟩ := h
  obtain ⟨new, hnew, hsame, hleft⟩ := hkeep job hjob hid hsettled
  exact ⟨new, hnew, hsame.trans hid, hleft.trans hsettled⟩

theorem Awaits.updateClient (h : core.Awaits x k) {f : PoolClient → PoolClient}
    (hf : ∀ job ∈ (core.clients c).jobs, job.id = x → job.settled = false →
      ∃ new ∈ (f (core.clients c)).jobs, new.id = job.id ∧ new.settled = job.settled) :
    (core.updateClient c f).Awaits x k := by
  apply h.mono
  intro job hjob hid hsettled
  rw [clients_updateClient]
  split_ifs with hk
  · subst hk
    exact hf job hjob hid hsettled
  · exact ⟨job, hjob, rfl, rfl⟩

theorem Awaits.settle (h : core.Awaits x k) (hx : x ≠ id) : (core.settle id).Awaits x k := by
  apply h.mono
  intro job hjob hid _
  refine ⟨job, PoolClient.mem_jobs_map.mpr ⟨job, hjob, ?_⟩, rfl, rfl⟩
  rw [if_neg fun heq => hx (hid.symm.trans heq)]

theorem Awaits.hear (h : core.Awaits x k) (hx : x ≠ id) {event : AppEvent} :
    (core.hear id event).Awaits x k := by
  unfold PoolCore.hear
  split_ifs
  · exact h.settle hx
  · exact h

theorem Awaits.record (h : core.Awaits x k) (hx : x ≠ id) {number : ℕ} {client : Option ℕ} :
    (core.record c number id client).Awaits x k := by
  apply Awaits.updateClient (f := fun client => client.map fun job =>
    if job.number = number ∧ job.id = id then { job with settled := true } else job) h
  intro job hjob hid _
  refine ⟨job, PoolClient.mem_jobs_map.mpr ⟨job, hjob, ?_⟩, rfl, rfl⟩
  rw [if_neg fun heq => hx (hid.symm.trans heq.2)]

theorem Awaits.cancel (h : core.Awaits x k) (hx : x ≠ id) {entry : PoolEntry} :
    (core.cancel id entry).Awaits x k := by
  apply Awaits.settle _ hx
  cases entry.client with
  | none => exact h
  | some c =>
    refine Awaits.updateClient (c := c) (f := fun client => client.cancelJob id) h ?_
    exact fun job hjob _ _ => PoolClient.exists_mem_cancelJob hjob

theorem Awaits.submitJob (h : core.Awaits x k) : (core.submitJob c id).Awaits x k := by
  apply Awaits.updateClient (f := fun client => client.submitJob core.jobs id) h
  intro job hjob _ _
  simp only [PoolClient.jobs, List.mem_append] at hjob
  exact ⟨job, by simp [PoolClient.jobs, PoolClient.submitJob]; tauto, rfl, rfl⟩

theorem awaits_submitJob : (core.submitJob c id).Awaits id c :=
  ⟨{ number := core.jobs, id := id }, by
    simp [submitJob, updateClient, PoolClient.jobs, PoolClient.submitJob], rfl, rfl⟩

end PoolCore

namespace PoolCore

variable {core : PoolCore} {admission : AdmissionConfig} {origin : Url} {id : ℤ} {k : ℕ}

theorem registry_of_erase {x : ℤ} {entry : PoolEntry}
    (h : (core.erase id).registry x = some entry) : core.registry x = some entry := by
  rw [registry_erase] at h
  split_ifs at h
  exact h

/-- A client stays in the pool unless the lookup throws it out. -/
theorem Owns.getOrCreateClient (h : core.Owns k)
    (hkept : k ∉ core.discards (Execution.poolKey admission origin)) :
    (core.getOrCreateClient admission origin).1.Owns k := by
  obtain ⟨entry, hentry, rfl⟩ := List.mem_map.mp h
  unfold PoolCore.getOrCreateClient
  unfold discards at hkept
  dsimp only
  cases hreuses : core.reuses (Execution.poolKey admission origin) with
  | some c => exact h
  | none =>
    simp only [hreuses, Option.isSome_none, Bool.false_eq_true, if_false] at hkept
    have hstays : entry.1 ≠ Execution.poolKey admission origin ∧
        (core.clients entry.2).closed = false := by
      by_contra hgone
      apply hkept
      refine List.mem_map_of_mem (List.mem_filter.mpr ⟨hentry, ?_⟩)
      rw [not_and_or] at hgone
      simpa using hgone
    have hmem : entry ∈ (core.pool.filter fun entry =>
        entry.1 != Execution.poolKey admission origin).filter fun entry =>
          !(core.clients entry.2).closed := by
      simp [hentry, hstays]
    dsimp only
    split_ifs
    · exact List.mem_map_of_mem hmem
    · exact List.mem_map_of_mem (List.mem_append_left _ hmem)

/-- The client that a lookup finds or makes is in the pool. -/
theorem owns_of_getOrCreateClient (h : (core.getOrCreateClient admission origin).2 = some k) :
    (core.getOrCreateClient admission origin).1.Owns k := by
  unfold getOrCreateClient at h ⊢
  dsimp only at h ⊢
  cases hreuses : core.reuses (Execution.poolKey admission origin) with
  | some c =>
    rw [hreuses] at h
    cases h
    obtain ⟨hlookup, -⟩ := Option.filter_eq_some_iff.mp hreuses
    obtain ⟨before, after, hpool, -⟩ := List.lookup_eq_some_iff.mp hlookup
    simp [Owns, hpool]
  | none =>
    rw [hreuses] at h
    dsimp only at h ⊢
    split_ifs at h ⊢
    cases h
    simp [Owns]

end PoolCore

/-! ### Steps -/

section

variable {admission : AdmissionConfig} {t : ℕ} {core core' : PoolCore} {outcome : Outcome}
  {id x : ℤ} {k : ℕ}

theorem PoolCore.Keeps.of_eq {before after : Option (ℤ × ℕ)} (hbefore : before = none)
    (hregistry : core'.registry = core.registry) (hclients : core'.clients = core.clients) :
    core.Keeps core' before after := by
  intro id k hrecords
  refine .inr (.inr ⟨?_, ?_, ?_⟩)
  · rwa [PoolCore.Records, hregistry] at hrecords
  · intro hawaits
    rwa [PoolCore.Awaits, hclients]
  · rw [hbefore]
    exact Option.some_ne_none _ ∘ Eq.symm

namespace PoolCall.Advances

variable {call : PoolCall} {after : Option PoolCall}

theorem keeps (h : Advances admission t core outcome call core' after) :
    core.Keeps core' call.brings (after.bind PoolCall.brings) := by
  cases h with
  | executeCached =>
    intro x k hrecords
    rw [PoolCore.records_register] at hrecords
    split_ifs at hrecords with hx
    exact .inr (.inr ⟨hrecords, id, Option.some_ne_none _ ∘ Eq.symm⟩)
  | executeLooked =>
    obtain ⟨pool, created, hshared⟩ := core.getOrCreateClient_shared admission _
    rw [hshared]
    exact .of_eq rfl rfl rfl
  | executeRefused =>
    intro x k hrecords
    exact .inr (.inr ⟨(PoolCore.records_erase.mp hrecords).2, id,
      Option.some_ne_none _ ∘ Eq.symm⟩)
  | @executeRegistered _ id _ c =>
    intro x k hrecords
    rw [PoolCore.records_register] at hrecords
    split_ifs at hrecords with hx
    · cases hrecords
      exact .inl (by rw [hx]; rfl)
    · exact .inr (.inr ⟨hrecords, fun hawaits => hawaits, Option.some_ne_none _ ∘ Eq.symm⟩)
  | @executeSubmitted _ id _ c =>
    intro x k hrecords
    by_cases hsame : (id, c) = (x, k)
    · cases hsame
      exact .inr (.inl PoolCore.awaits_submitJob)
    · refine .inr (.inr ⟨hrecords, PoolCore.Awaits.submitJob, fun heq => ?_⟩)
      exact hsame (Option.some.inj heq)
  | cancelErased =>
    intro x k hrecords
    obtain ⟨hx, hrecords⟩ := PoolCore.records_cancel.mp hrecords
    exact .inr (.inr
      ⟨hrecords, fun hawaits => hawaits.cancel hx, (Option.some_ne_none _).symm⟩)
  | executeReturned last => rcases last with rfl | rfl <;> exact .of_eq rfl rfl rfl
  | _ => exact .of_eq rfl rfl rfl

theorem chosen (h : Advances admission t core outcome call core' after) {k : ℕ}
    (hchosen : after.bind PoolCall.chosen = some k) : call.chosen = some k ∨ core'.Owns k := by
  cases h with
  | @executeLooked _ id origin =>
    right
    cases hfound : (core.getOrCreateClient admission origin).2 with
    | none =>
      rw [hfound] at hchosen
      cases hchosen
    | some c =>
      rw [hfound] at hchosen
      cases hchosen
      exact PoolCore.owns_of_getOrCreateClient hfound
  | executeRegistered => exact .inl hchosen
  | _ => cases hchosen

theorem records (h : Advances admission t core outcome call core' after) {k : ℕ}
    (hrecords : core'.Records x k) : core.Records x k ∨ call.chosen = some k := by
  cases h with
  | executeCached =>
    rw [PoolCore.records_register] at hrecords
    split_ifs at hrecords
    exact .inl hrecords
  | executeLooked =>
    obtain ⟨pool, created, hshared⟩ := core.getOrCreateClient_shared admission _
    rw [hshared] at hrecords
    exact .inl hrecords
  | executeRefused => exact .inl (PoolCore.records_erase.mp hrecords).2
  | executeRegistered =>
    rw [PoolCore.records_register] at hrecords
    split_ifs at hrecords
    · exact .inr hrecords
    · exact .inl hrecords
  | cancelErased => exact .inl (PoolCore.records_cancel.mp hrecords).2
  | _ => exact .inl hrecords

/-- Only a lookup takes clients out of the pool. -/
theorem owns (h : Advances admission t core outcome call core' after) {k : ℕ}
    (hkept : ∀ origin, call.looksUp outcome = some origin →
      k ∉ core.discards (Execution.poolKey admission origin)) (howns : core.Owns k) :
    core'.Owns k := by
  cases h with
  | @executeLooked _ id origin valid missed =>
    apply howns.getOrCreateClient
    apply hkept
    simp [PoolCall.looksUp, valid, missed]
  | cancelErased =>
    rwa [PoolCore.Owns, PoolCore.pool_cancel]
  | _ => exact howns

/-- A call of the application marks no entry. -/
theorem marked (h : Advances admission t core outcome call core' after) {entry : PoolEntry}
    (hentry : core'.registry x = some entry) (hterminal : entry.terminal = true) :
    core.registry x = some entry := by
  cases h with
  | @executeCached id | @executeRegistered _ id =>
    rw [PoolCore.registry_register] at hentry
    split_ifs at hentry
    · cases hentry
      cases hterminal
    · exact hentry
  | executeLooked =>
    obtain ⟨pool, created, hshared⟩ := core.getOrCreateClient_shared admission _
    rwa [hshared] at hentry
  | executeRefused => exact PoolCore.registry_of_erase hentry
  | cancelErased =>
    rw [PoolCore.registry_cancel] at hentry
    exact PoolCore.registry_of_erase hentry
  | _ => exact hentry

theorem callback (h : Advances admission t core outcome call core' after)
    (hheld : call.holdsCallback ≤ core.callback.depth t) (u : ℕ) :
    (if u = t then after.elim 0 PoolCall.holdsCallback else 0) + core.callback.depth u =
      (if u = t then call.holdsCallback else 0) + core'.callback.depth u := by
  cases h with
  | executeLooked =>
    obtain ⟨pool, created, hshared⟩ := core.getOrCreateClient_shared admission _
    rw [hshared]
    rfl
  | cancelLocked acquired =>
    simp only [RecursiveLock.depth_acquire acquired]
    simp [PoolCall.holdsCallback, Nat.add_comm]
  | cancelIgnored | cancelReturned =>
    have hback := RecursiveLock.depth_eq_release_add hheld u
    simp [PoolCall.holdsCallback, PoolCore.unlockCallback, PoolCore.unlockLifecycle]
    omega
  | cancelErased => rw [PoolCore.callback_cancel]; rfl
  | executeReturned last => rcases last with rfl | rfl <;> rfl
  | _ => rfl

end PoolCall.Advances

namespace PoolTask

@[simp] theorem bind_next_brings (id : ℤ) (rest : List AppEvent) :
    (next id rest).bind PoolTask.brings = none := by
  cases rest <;> rfl

@[simp] theorem bind_next_chosen (id : ℤ) (rest : List AppEvent) :
    (next id rest).bind PoolTask.chosen = none := by
  cases rest <;> rfl

@[simp] theorem any_next_ends (id x : ℤ) (rest : List AppEvent) :
    (next id rest).any (PoolTask.ends x) = false := by
  cases rest with
  | nil => rfl
  | cons event rest => simp [next, ends]

@[simp] theorem elim_next_holdsCallback (id : ℤ) (rest : List AppEvent) :
    (next id rest).elim 0 PoolTask.holdsCallback = 0 := by
  cases rest <;> rfl

end PoolTask

namespace PoolTask.Advances

variable {role : ThreadRole} {task : PoolTask} {after : Option PoolTask}

/-- A delivery that finds the entry marked would lose its job without erasing the entry. -/
theorem keeps (h : Advances admission t core role outcome task core' after)
    (hopen : ∀ id event rest entry, task = .deliver id event rest .checking →
      core.registry id = some entry → entry.terminal = false) :
    core.Keeps core' task.brings (after.bind PoolTask.brings) := by
  cases h with
  | @deliverIgnored _ id event rest gone =>
    intro x k hrecords
    rw [PoolCore.unlockCallback, PoolCore.Records, PoolCore.registry_hear] at hrecords
    have hx : x ≠ id := by
      rintro rfl
      obtain ⟨entry, hentry, -⟩ := hrecords
      have hlive := hopen x event rest entry rfl hentry
      rw [gone entry hentry] at hlive
      cases hlive
    exact .inr (.inr
      ⟨hrecords, fun hawaits => hawaits.hear hx, (Option.some_ne_none _).symm⟩)
  | @deliverErased _ id =>
    intro x k hrecords
    rw [PoolCore.unlockCallback, PoolCore.Records, PoolCore.registry_hear] at hrecords
    obtain ⟨hx, hrecords⟩ := PoolCore.records_erase.mp hrecords
    refine .inr (.inr ⟨hrecords, fun hawaits => ?_, Option.some_ne_none _ ∘ Eq.symm⟩)
    have herased : (core.erase id).Awaits x k := hawaits
    exact herased.hear hx
  | deliverEnds found =>
    intro x k hrecords
    refine .inr (.inr ⟨PoolCore.records_terminate found hrecords, fun hawaits => ?_,
      Option.some_ne_none _ ∘ Eq.symm⟩)
    rwa [PoolCore.Awaits, PoolCore.clients_terminate]
  | hopLooked =>
    obtain ⟨pool, created, hshared⟩ := core.getOrCreateClient_shared admission _
    rw [hshared]
    exact .of_eq rfl rfl rfl
  | @hopRecorded _ _ id _ client =>
    intro x k hrecords
    have hmoved := PoolCore.records_record hrecords
    split_ifs at hmoved with hx
    · subst hmoved
      exact .inl (by rw [hx]; rfl)
    · exact .inr (.inr
        ⟨hmoved, fun hawaits => hawaits.record hx, (Option.some_ne_none _).symm⟩)
  | @hopSubmitted _ _ id c =>
    intro x k hrecords
    by_cases hsame : (id, c) = (x, k)
    · cases hsame
      exact .inr (.inl PoolCore.awaits_submitJob)
    · refine .inr (.inr ⟨hrecords, PoolCore.Awaits.submitJob, fun heq => ?_⟩)
      exact hsame (Option.some.inj heq)
  | _ => exact .of_eq rfl rfl rfl

theorem chosen (h : Advances admission t core role outcome task core' after) {k : ℕ}
    (hchosen : after.bind PoolTask.chosen = some k) : task.chosen = some k ∨ core'.Owns k := by
  cases h with
  | hopLooked =>
    right
    cases hfound : (core.getOrCreateClient admission _).2 with
    | none =>
      rw [hfound] at hchosen
      cases hchosen
    | some c =>
      rw [hfound] at hchosen
      cases hchosen
      exact PoolCore.owns_of_getOrCreateClient hfound
  | @hopRecorded _ _ _ _ client =>
    cases client with
    | none => cases hchosen
    | some c => exact .inl hchosen
  | hopQueued =>
    split_ifs at hchosen
    · rw [PoolTask.bind_next_chosen] at hchosen
      cases hchosen
    · cases hchosen
  | deliverIgnored | deliverErased | deliverReturned =>
    rw [PoolTask.bind_next_chosen] at hchosen
    cases hchosen
  | _ => cases hchosen

theorem records (h : Advances admission t core role outcome task core' after) {k : ℕ}
    (hrecords : core'.Records x k) : core.Records x k ∨ task.chosen = some k := by
  cases h with
  | deliverIgnored =>
    left
    rwa [PoolCore.unlockCallback, PoolCore.Records, PoolCore.registry_hear] at hrecords
  | deliverErased =>
    left
    rw [PoolCore.unlockCallback, PoolCore.Records, PoolCore.registry_hear] at hrecords
    exact (PoolCore.records_erase.mp hrecords).2
  | deliverEnds found => exact .inl (PoolCore.records_terminate found hrecords)
  | hopLooked =>
    obtain ⟨pool, created, hshared⟩ := core.getOrCreateClient_shared admission _
    rw [hshared] at hrecords
    exact .inl hrecords
  | hopRecorded =>
    have hmoved := PoolCore.records_record hrecords
    split_ifs at hmoved
    · exact .inr hmoved
    · exact .inl hmoved
  | _ => exact .inl hrecords

theorem owns (h : Advances admission t core role outcome task core' after) {k : ℕ}
    (hkept : ∀ origin, task.looksUp outcome = some origin →
      k ∉ core.discards (Execution.poolKey admission origin)) (howns : core.Owns k) :
    core'.Owns k := by
  cases h with
  | deliverIgnored | deliverErased =>
    rwa [PoolCore.unlockCallback, PoolCore.Owns, PoolCore.pool_hear]
  | deliverEnds => rwa [PoolCore.Owns, PoolCore.pool_terminate]
  | @hopLooked _ _ _ target missed =>
    apply howns.getOrCreateClient
    apply hkept
    simp [PoolTask.looksUp, missed]
  | _ => exact howns

/-- An entry is marked by the delivery that is going to erase it. -/
theorem marked (h : Advances admission t core role outcome task core' after) {entry : PoolEntry}
    (hentry : core'.registry x = some entry) (hterminal : entry.terminal = true) :
    after.any (PoolTask.ends x) = true ∨
      (∃ old, core.registry x = some old ∧ old.terminal = true) ∧ task.ends x = false := by
  cases h with
  | deliverIgnored =>
    rw [PoolCore.unlockCallback, PoolCore.registry_hear] at hentry
    exact .inr ⟨⟨entry, hentry, hterminal⟩, by simp [PoolTask.ends]⟩
  | @deliverErased _ id event rest phase before =>
    rw [PoolCore.unlockCallback, PoolCore.registry_hear, PoolCore.registry_erase] at hentry
    split_ifs at hentry with hx
    exact .inr ⟨⟨entry, hentry, hterminal⟩, by simp [PoolTask.ends, Ne.symm hx]⟩
  | @deliverEnds _ id event rest old found live uncancelled terminal =>
    by_cases hx : x = id
    · left
      simp [PoolTask.ends, hx, terminal]
    · rw [PoolCore.registry_terminate, if_neg hx] at hentry
      exact .inr ⟨⟨entry, hentry, hterminal⟩, by simp [PoolTask.ends]⟩
  | @deliverInvoked _ id event =>
    by_cases hends : id = x ∧ event.isTerminal = true
    · left
      simp [PoolTask.ends, hends]
    · refine .inr ⟨⟨entry, hentry, hterminal⟩, ?_⟩
      simpa [PoolTask.ends] using hends
  | @deliverEnded _ id event =>
    by_cases hends : id = x ∧ event.isTerminal = true
    · left
      simp [PoolTask.ends, hends]
    · refine .inr ⟨⟨entry, hentry, hterminal⟩, ?_⟩
      simpa [PoolTask.ends] using hends
  | deliverReturned unended =>
    exact .inr ⟨⟨entry, hentry, hterminal⟩, by simp [PoolTask.ends, unended]⟩
  | hopLooked =>
    obtain ⟨pool, created, hshared⟩ := core.getOrCreateClient_shared admission _
    rw [hshared] at hentry
    exact .inr ⟨⟨entry, hentry, hterminal⟩, rfl⟩
  | hopRecorded =>
    refine .inr ⟨?_, rfl⟩
    obtain ⟨old, hold, hsame⟩ := PoolCore.registry_record hentry
    exact ⟨old, hold, hsame.symm.trans hterminal⟩
  | _ => exact .inr ⟨⟨entry, hentry, hterminal⟩, by simp [PoolTask.ends]⟩

theorem callback (h : Advances admission t core role outcome task core' after)
    (hheld : task.holdsCallback ≤ core.callback.depth t) (u : ℕ) :
    (if u = t then after.elim 0 PoolTask.holdsCallback else 0) + core.callback.depth u =
      (if u = t then task.holdsCallback else 0) + core'.callback.depth u := by
  cases h with
  | deliverLocked acquired =>
    simp only [RecursiveLock.depth_acquire acquired]
    simp [PoolTask.holdsCallback, Nat.add_comm]
  | deliverIgnored | deliverReturned =>
    have hback := RecursiveLock.depth_eq_release_add hheld u
    simp [PoolTask.holdsCallback, PoolCore.unlockCallback]
    omega
  | deliverErased before =>
    rcases before with rfl | rfl
    · have hback := RecursiveLock.depth_eq_release_add hheld u
      simp [PoolTask.holdsCallback, PoolCore.unlockCallback, PoolCore.erase]
      omega
    · have hback := RecursiveLock.depth_eq_release_add hheld u
      simp [PoolTask.holdsCallback, PoolCore.unlockCallback, PoolCore.erase]
      omega
  | deliverEnds => rw [PoolCore.callback_terminate]; rfl
  | hopLooked =>
    obtain ⟨pool, created, hshared⟩ := core.getOrCreateClient_shared admission _
    rw [hshared]
    cases (core.getOrCreateClient admission _).2 <;> rfl
  | hopQueued => split_ifs <;> rfl
  | _ => rfl

end PoolTask.Advances

namespace PoolThread

/-- What the step of a thread has to do for the others, as far as they use a client. -/
structure Moves (uses : ℕ → Prop) (t : ℕ) (core core' : PoolCore)
    (thread thread' : PoolThread) :
    Prop where
  callback : ∀ u, (if u = t then thread'.holdsCallback else 0) + core.callback.depth u =
    (if u = t then thread.holdsCallback else 0) + core'.callback.depth u
  marked : ∀ id entry, core'.registry id = some entry → entry.terminal = true →
    thread'.ends id = true ∨
      (∃ old, core.registry id = some old ∧ old.terminal = true) ∧ thread.ends id = false
  owed : ∀ id k, core'.Records id k → (id, k) ∈ thread'.brings ∨ core'.Awaits id k ∨
    core.Records id k ∧ (core.Awaits id k → core'.Awaits id k) ∧
      ((id, k) ∈ thread.brings → (id, k) ∈ thread'.brings)
  records : ∀ id k, core'.Records id k → core.Records id k ∨ k ∈ thread.chosen
  chosen : ∀ k ∈ thread'.chosen, k ∈ thread.chosen ∨ core'.Owns k
  owns : ∀ k, uses k → core.Owns k → core'.Owns k

variable {thread thread' : PoolThread} {uses : ℕ → Prop}

theorem mem_filterMap_calls {β : Type*} {f : PoolCall → Option β} {c : Option PoolCall}
    {rest : List PoolCall} {b : β} :
    b ∈ (c.toList ++ rest).filterMap f ↔ c.bind f = some b ∨ b ∈ rest.filterMap f := by
  cases c <;> simp

theorem mem_brings {role : ThreadRole} {task : Option PoolTask} {c : Option PoolCall}
    {rest : List PoolCall} {p : ℤ × ℕ} :
    p ∈ brings ⟨role, task, c.toList ++ rest⟩ ↔
      c.bind PoolCall.brings = some p ∨ p ∈ brings ⟨role, task, rest⟩ := by
  simp only [brings, List.mem_append, mem_filterMap_calls, or_assoc]

theorem mem_chosen {role : ThreadRole} {task : Option PoolTask} {c : Option PoolCall}
    {rest : List PoolCall} {k : ℕ} :
    k ∈ chosen ⟨role, task, c.toList ++ rest⟩ ↔
      c.bind PoolCall.chosen = some k ∨ k ∈ chosen ⟨role, task, rest⟩ := by
  simp only [chosen, List.mem_append, mem_filterMap_calls, or_assoc]

/-- A call of the application moves on. -/
theorem Moves.of_call {call : PoolCall} {rest : List PoolCall} {after : Option PoolCall}
    (hcalls : thread.calls = call :: rest)
    (h : PoolCall.Advances admission t core outcome call core' after)
    (hheld : thread.holdsCallback = core.callback.depth t)
    (hkept : ∀ k, uses k → ∀ origin, thread.looksUp outcome = some origin →
      k ∉ core.discards (Execution.poolKey admission origin)) :
    Moves uses t core core' thread { thread with calls := after.toList ++ rest } := by
  have hholds : thread.holdsCallback = call.holdsCallback +
      (total PoolCall.holdsCallback rest + thread.task.elim 0 PoolTask.holdsCallback) := by
    rw [holdsCallback, hcalls, total_cons, Nat.add_assoc]
  constructor
  · intro u
    have hstep := h.callback (by omega) u
    rw [hholds, holdsCallback, total_append, Nat.add_assoc]
    cases after with
    | none =>
      simp only [Option.toList_none, total_nil, Option.elim_none] at hstep ⊢
      split_ifs at hstep ⊢ <;> omega
    | some new =>
      simp only [Option.toList_some, total_cons, total_nil, Option.elim_some] at hstep ⊢
      split_ifs at hstep ⊢ <;> omega
  · intro id entry hentry hterminal
    by_cases hends : thread.ends id = true
    · exact .inl hends
    · exact .inr ⟨⟨entry, h.marked hentry hterminal, hterminal⟩, Bool.not_eq_true _ ▸ hends⟩
  · intro id k hrecords
    obtain ⟨role, task, calls⟩ := thread
    subst hcalls
    rcases h.keeps id k hrecords with hafter | hawaits | ⟨hold, hmono, hnot⟩
    · exact .inl (mem_brings.mpr (.inl hafter))
    · exact .inr (.inl hawaits)
    · refine .inr (.inr ⟨hold, hmono, fun hbrings => mem_brings.mpr (.inr ?_)⟩)
      exact ((mem_brings (c := some call)).mp hbrings).resolve_left hnot
  · intro id k hrecords
    obtain ⟨role, task, calls⟩ := thread
    subst hcalls
    exact (h.records hrecords).imp_right fun hchosen =>
      (mem_chosen (c := some call)).mpr (.inl hchosen)
  · intro k hk
    obtain ⟨role, task, calls⟩ := thread
    subst hcalls
    rcases mem_chosen.mp hk with hafter | hrest
    · exact (h.chosen hafter).imp_left fun hchosen =>
        (mem_chosen (c := some call)).mpr (.inl hchosen)
    · exact .inl ((mem_chosen (c := some call)).mpr (.inr hrest))
  · intro k huses howns
    apply h.owns _ howns
    intro origin horigin
    apply hkept k huses
    rw [looksUp, hcalls]
    exact horigin

/-- A worker or the cache dispatcher moves on. -/
theorem Moves.of_task {task : PoolTask} {after : Option PoolTask} (hcalls : thread.calls = [])
    (htask : thread.task = some task)
    (h : PoolTask.Advances admission t core thread.role outcome task core' after)
    (hheld : thread.holdsCallback = core.callback.depth t)
    (hopen : ∀ id event rest entry, task = .deliver id event rest .checking →
      core.registry id = some entry → entry.terminal = false)
    (hkept : ∀ k, uses k → ∀ origin, thread.looksUp outcome = some origin →
      k ∉ core.discards (Execution.poolKey admission origin)) :
    Moves uses t core core' thread { thread with task := after } := by
  obtain ⟨role, task, calls⟩ := thread
  subst hcalls htask
  constructor
  · intro u
    have hheld : task.holdsCallback = core.callback.depth t := by
      simpa [holdsCallback] using hheld
    simpa [holdsCallback] using h.callback hheld.le u
  · intro id entry hentry hterminal
    exact h.marked hentry hterminal
  · intro id k hrecords
    rcases h.keeps hopen id k hrecords with hafter | hawaits | ⟨hold, hmono, hnot⟩
    · exact .inl (by simp [brings, hafter])
    · exact .inr (.inl hawaits)
    · refine .inr (.inr ⟨hold, hmono, fun hbrings => absurd ?_ hnot⟩)
      simpa [brings] using hbrings
  · intro id k hrecords
    refine (h.records hrecords).imp_right fun hchosen => ?_
    simp [PoolThread.chosen, hchosen]
  · intro k hk
    have hafter : after.bind PoolTask.chosen = some k := by
      simpa [PoolThread.chosen] using hk
    refine (h.chosen hafter).imp_left fun hchosen => ?_
    simp [PoolThread.chosen, hchosen]
  · intro k huses howns
    exact h.owns (hkept k huses) howns

/-- A step that leaves the registry and the pool alone, and every unfinished job. -/
theorem Moves.quiet (hregistry : core'.registry = core.registry) (hpool : core'.pool = core.pool)
    (hcallback : core'.callback = core.callback)
    (hawaits : ∀ id k, core.Awaits id k → core'.Awaits id k)
    (hholds : thread'.holdsCallback = thread.holdsCallback)
    (hends : ∀ id, thread'.ends id = thread.ends id) (hbrings : thread'.brings = thread.brings)
    (hchosen : thread'.chosen = thread.chosen) : Moves uses t core core' thread thread' := by
  constructor
  · intro u
    rw [hholds, hcallback]
  · intro id entry hentry hterminal
    rw [hregistry] at hentry
    rw [hends]
    cases thread.ends id with
    | true => exact .inl rfl
    | false => exact .inr ⟨⟨entry, hentry, hterminal⟩, rfl⟩
  · intro id k hrecords
    rw [PoolCore.Records, hregistry] at hrecords
    exact .inr (.inr ⟨hrecords, hawaits id k, fun hmem => hbrings ▸ hmem⟩)
  · intro id k hrecords
    rw [PoolCore.Records, hregistry] at hrecords
    exact .inl hrecords
  · intro k hk
    exact .inl (hchosen ▸ hk)
  · intro k _ howns
    rwa [PoolCore.Owns, hpool]

/-- The application calls the engine. -/
theorem Moves.of_entered {call : PoolCall} (h : thread.call call = some thread')
    (hholds : call.holdsCallback = 0) (hbrings : call.brings = none)
    (hchosen : call.chosen = none) : Moves uses t core core thread thread' := by
  obtain ⟨-, rfl⟩ := call_cases h
  apply Moves.quiet rfl rfl rfl fun _ _ => id
  · simp [holdsCallback, hholds]
  · exact fun _ => rfl
  · simp [brings, hbrings]
  · simp [PoolThread.chosen, hchosen]

/-- A thread that is in no call begins with a task. -/
theorem Moves.of_idle (hidle : thread.idle = true) {task : Option PoolTask}
    (hregistry : core'.registry = core.registry) (hpool : core'.pool = core.pool)
    (hcallback : core'.callback = core.callback)
    (hawaits : ∀ id k, core.Awaits id k → core'.Awaits id k)
    (hholds : task.elim 0 PoolTask.holdsCallback = 0)
    (hends : ∀ id, task.any (PoolTask.ends id) = false)
    (hbrings : task.bind PoolTask.brings = none) (hchosen : task.bind PoolTask.chosen = none) :
    Moves uses t core core' thread { thread with task := task } := by
  simp only [idle, Bool.and_eq_true, beq_iff_eq] at hidle
  obtain ⟨role, old, calls⟩ := thread
  obtain ⟨htask, hcalls⟩ := hidle
  subst htask hcalls
  apply Moves.quiet hregistry hpool hcallback hawaits
  · simpa [holdsCallback] using hholds
  · exact hends
  · simp [brings, hbrings]
  · simp [PoolThread.chosen, hchosen]

theorem chosen_of_brings {id : ℤ} {k : ℕ} (h : (id, k) ∈ thread.brings) :
    k ∈ thread.chosen := by
  simp only [brings, List.mem_append, List.mem_filterMap, Option.mem_toList,
    Option.bind_eq_some_iff] at h
  simp only [PoolThread.chosen, List.mem_append, List.mem_filterMap, Option.mem_toList,
    Option.bind_eq_some_iff]
  rcases h with ⟨call, hcall, hbrings⟩ | ⟨task, htask, hbrings⟩
  · refine .inl ⟨call, hcall, ?_⟩
    unfold PoolCall.brings at hbrings
    split at hbrings
    · cases hbrings
      rfl
    · cases hbrings
  · refine .inr ⟨task, htask, ?_⟩
    unfold PoolTask.brings at hbrings
    split at hbrings
    · cases hbrings
      rfl
    · cases hbrings

/-- A thread that has marked an entry holds the callback lock. -/
theorem holdsCallback_of_ends {id : ℤ} (h : thread.ends id = true) :
    1 ≤ thread.task.elim 0 PoolTask.holdsCallback := by
  obtain ⟨role, task, calls⟩ := thread
  cases task with
  | none => cases h
  | some task =>
    cases task with
    | hop number id phase => cases h
    | deliver x event rest phase =>
      cases phase with
      | entering => simp [ends, PoolTask.ends] at h
      | _ => exact le_rfl

end PoolThread

/-! ### Runs -/

namespace PoolState

variable {s s' : PoolState} {i : PoolStep}

theorem mem_set_cases {threads : List PoolThread} {thread x : PoolThread} (thread' : PoolThread)
    (hthread : threads[t]? = some thread) (hx : x ∈ threads) :
    x = thread ∨ x ∈ threads.set t thread' := by
  obtain ⟨u, hu⟩ := List.mem_iff_getElem?.mp hx
  by_cases hut : u = t
  · subst hut
    exact .inl (Option.some.inj (hu.symm.trans hthread))
  · refine .inr (List.mem_iff_getElem?.mpr ⟨u, ?_⟩)
    rwa [List.getElem?_set_ne (Ne.symm hut)]

theorem Intact.move (h : s.Intact) {f : PoolCore → PoolThread → Option (PoolCore × PoolThread)}
    (hmove : s.move t f = some s')
    (hf : ∀ thread core' thread', s.parties[t]? = some thread →
      f s.shared thread = some (core', thread') →
      PoolThread.Moves s.Uses t s.shared core' thread thread') : s'.Intact := by
  obtain ⟨thread, core', thread', hthread, hstep, rfl⟩ := System.move_eq_some.mp hmove
  have hmoves := hf thread core' thread' hthread hstep
  have hlt : t < s.parties.length := (List.getElem?_eq_some_iff.mp hthread).1
  have hself : thread' ∈ s.parties.set t thread' := List.mem_set hlt _
  constructor
  · intro u
    have hback := hmoves.callback u
    have hlocked := h.locked u
    dsimp only
    by_cases hut : u = t
    · subst hut
      rw [hthread] at hlocked
      rw [List.getElem?_set_self hlt]
      simp only [if_true, Option.elim_some] at hback hlocked ⊢
      omega
    · rw [List.getElem?_set_ne (Ne.symm hut)]
      simp only [if_neg hut] at hback
      omega
  · intro id entry hentry hterminal
    rcases hmoves.marked id entry hentry hterminal with hends | ⟨⟨old, hold, holdterminal⟩, hnot⟩
    · exact ⟨thread', hself, hends⟩
    · obtain ⟨other, hother, hends⟩ := h.marked id old hold holdterminal
      rcases mem_set_cases thread' hthread hother with rfl | hstays
      · rw [hnot] at hends
        cases hends
      · exact ⟨other, hstays, hends⟩
  · intro id k hrecords
    rcases hmoves.owed id k hrecords with hbrings | hawaits | ⟨hold, hmono, hstill⟩
    · exact .inr ⟨thread', hself, hbrings⟩
    · exact .inl hawaits
    · rcases h.owed id k hold with hawaits | ⟨other, hother, hbrings⟩
      · exact .inl (hmono hawaits)
      · rcases mem_set_cases thread' hthread hother with rfl | hstays
        · exact .inr ⟨thread', hself, hstill hbrings⟩
        · exact .inr ⟨other, hstays, hbrings⟩
  · have hold : ∀ k, s.Uses k → core'.Owns k :=
      fun k huses => hmoves.owns k huses (h.owned k huses)
    rintro k (⟨id, hrecords⟩ | ⟨other, hother, hchosen⟩)
    · rcases hmoves.records id k hrecords with hrecords | hchosen
      · exact hold k (.inl ⟨id, hrecords⟩)
      · exact hold k (.inr ⟨thread, List.mem_of_getElem? hthread, hchosen⟩)
    · rcases List.mem_or_eq_of_mem_set hother with hstays | rfl
      · exact hold k (.inr ⟨other, hstays, hchosen⟩)
      · rcases hmoves.chosen k hchosen with hchosen | howns
        · exact hold k (.inr ⟨thread, List.mem_of_getElem? hthread, hchosen⟩)
        · exact howns

/-- The threads are as they were, perhaps with one more that is not in a call, and no
unfinished job is lost. -/
theorem Intact.shared (h : s.Intact) {core : PoolCore} (started : List PoolThread)
    (hstarted : ∀ thread ∈ started, thread.task = none ∧ thread.calls = [])
    (hregistry : core.registry = s.shared.registry) (hpool : core.pool = s.shared.pool)
    (hcallback : core.callback = s.shared.callback)
    (hawaits : ∀ id k, s.shared.Awaits id k → core.Awaits id k) :
    Intact ⟨core, s.parties ++ started⟩ := by
  have hrecords : ∀ id k, core.Records id k → s.shared.Records id k := by
    intro id k hrecords
    rwa [PoolCore.Records, hregistry] at hrecords
  constructor
  · intro u
    dsimp only
    rw [hcallback, ← h.locked u]
    by_cases hu : u < s.parties.length
    · rw [List.getElem?_append_left hu]
    · rw [List.getElem?_append_right (not_lt.mp hu), List.getElem?_eq_none (not_lt.mp hu)]
      cases hnew : started[u - s.parties.length]? with
      | none => rfl
      | some thread =>
        obtain ⟨htask, hcalls⟩ := hstarted thread (List.mem_of_getElem? hnew)
        simp [PoolThread.holdsCallback, htask, hcalls]
  · intro id entry hentry hterminal
    rw [hregistry] at hentry
    obtain ⟨thread, hthread, hends⟩ := h.marked id entry hentry hterminal
    exact ⟨thread, List.mem_append_left _ hthread, hends⟩
  · intro id k hk
    rcases h.owed id k (hrecords id k hk) with howed | ⟨thread, hthread, hbrings⟩
    · exact .inl (hawaits id k howed)
    · exact .inr ⟨thread, List.mem_append_left _ hthread, hbrings⟩
  · intro k huses
    rw [PoolCore.Owns, hpool]
    apply h.owned k
    rcases huses with ⟨id, hk⟩ | ⟨thread, hthread, hchosen⟩
    · exact .inl ⟨id, hrecords id k hk⟩
    · rcases List.mem_append.mp hthread with hold | hnew
      · exact .inr ⟨thread, hold, hchosen⟩
      · obtain ⟨htask, hcalls⟩ := hstarted thread hnew
        simp [PoolThread.chosen, htask, hcalls] at hchosen

theorem intact_initial (threads : ℕ) : (initial threads).Intact := by
  have hquiet : ∀ thread ∈ (initial threads).parties, thread.task = none ∧ thread.calls = [] := by
    intro thread hthread
    rcases List.mem_cons.mp hthread with rfl | hthread
    · exact ⟨rfl, rfl⟩
    · rw [List.eq_of_mem_replicate hthread]
      exact ⟨rfl, rfl⟩
  have hnone : ∀ id k, ¬(initial threads).shared.Records id k := by
    rintro id k ⟨entry, hentry, -⟩
    cases hentry
  constructor
  · intro t
    cases hthread : (initial threads).parties[t]? with
    | none => rfl
    | some thread =>
      obtain ⟨htask, hcalls⟩ := hquiet thread (List.mem_of_getElem? hthread)
      simp [PoolThread.holdsCallback, htask, hcalls, initial]
  · intro id entry hentry
    cases hentry
  · exact fun id k hrecords => absurd hrecords (hnone id k)
  · rintro k (⟨id, hrecords⟩ | ⟨thread, hthread, hchosen⟩)
    · exact absurd hrecords (hnone id k)
    · obtain ⟨htask, hcalls⟩ := hquiet thread hthread
      simp [PoolThread.chosen, htask, hcalls] at hchosen

/-- The entry of a request whose delivery is about to be decided is not marked: whoever
marked it would hold the callback lock. -/
theorem Intact.live_of_checking (h : s.Intact) {thread : PoolThread} {id : ℤ} {event : AppEvent}
    {rest : List AppEvent} {entry : PoolEntry} (hthread : s.parties[t]? = some thread)
    (htask : thread.task = some (.deliver id event rest .checking))
    (hentry : s.shared.registry id = some entry) : entry.terminal = false := by
  rw [← Bool.not_eq_true]
  intro hterminal
  obtain ⟨other, hother, hends⟩ := h.marked id entry hentry hterminal
  obtain ⟨u, hu⟩ := List.mem_iff_getElem?.mp hother
  have hheld : ∀ v thread, s.parties[v]? = some thread →
      1 ≤ thread.task.elim 0 PoolTask.holdsCallback → 0 < s.shared.callback.depth v := by
    intro v thread hv hone
    have hlocked := h.locked v
    rw [hv, Option.elim_some, PoolThread.holdsCallback] at hlocked
    omega
  have hsame : t = u := by
    apply RecursiveLock.eq_of_depth_pos
    · exact hheld t thread hthread (by rw [htask]; exact le_rfl)
    · exact hheld u other hu (PoolThread.holdsCallback_of_ends hends)
  subst hsame
  obtain rfl : thread = other := Option.some.inj (hthread.symm.trans hu)
  simp [PoolThread.ends, htask, PoolTask.ends] at hends

/-- A client that is in use is not thrown out by a lookup that spares the clients in use. -/
theorem Intact.not_mem_discards (h : s.Intact) {outcome : Outcome} {thread : PoolThread}
    (hspares : s.Spares admission (.advance t outcome)) (hthread : s.parties[t]? = some thread)
    {origin : Url} (hlooks : thread.looksUp outcome = some origin) {k : ℕ} (huses : s.Uses k) :
    k ∉ s.shared.discards (Execution.poolKey admission origin) := by
  intro hdiscards
  unfold Spares at hspares
  dsimp only at hspares
  rw [hthread] at hspares
  dsimp only at hspares
  rw [hlooks] at hspares
  obtain ⟨hover, hfree, -⟩ := hspares k hdiscards
  rcases huses with ⟨id, hrecords⟩ | ⟨other, hother, hchosen⟩
  · rcases h.owed id k hrecords with ⟨job, hjob, -, hopen⟩ | ⟨other, hother, hbrings⟩
    · rw [hover job hjob] at hopen
      cases hopen
    · exact hfree other hother (PoolThread.chosen_of_brings hbrings)
  · exact hfree other hother hchosen

theorem Intact.step (h : s.Intact) (hspares : s.Spares admission i)
    (hstep : step admission s i = some s') : s'.Intact := by
  cases i with
  | execute t id origin | cancel t id =>
    dsimp only [PoolState.step] at hstep
    refine h.move hstep fun thread core' thread' _ hf => ?_
    obtain ⟨new, hcall, heq⟩ := Option.map_eq_some_iff.mp hf
    cases heq
    exact .of_entered hcall rfl rfl rfl
  | advance t outcome =>
    dsimp only [PoolState.step] at hstep
    refine h.move hstep fun thread core' thread' hthread hf => ?_
    have hheld : thread.holdsCallback = s.shared.callback.depth t := by
      have hlocked := h.locked t
      rwa [hthread] at hlocked
    have hkept : ∀ k, s.Uses k → ∀ origin, thread.looksUp outcome = some origin →
        k ∉ s.shared.discards (Execution.poolKey admission origin) := by
      intro k huses origin hlooks
      exact h.not_mem_discards hspares hthread hlooks huses
    rcases PoolThread.advance_cases hf with ⟨call, rest, after, hcalls, hadvance, rfl⟩ |
      ⟨task, after, hcalls, htask, hadvance, rfl⟩
    · exact .of_call hcalls hadvance hheld hkept
    · refine .of_task hcalls htask hadvance hheld ?_ hkept
      rintro id event rest entry rfl hentry
      exact h.live_of_checking hthread htask hentry
  | callback t number events =>
    dsimp only [PoolState.step] at hstep
    refine h.move hstep fun thread core' thread' _ hf => ?_
    obtain ⟨new, hcallback, heq⟩ := Option.map_eq_some_iff.mp hf
    cases heq
    obtain ⟨hidle, id, rfl⟩ := PoolThread.callback_cases hcallback
    exact .of_idle hidle rfl rfl rfl (fun _ _ hawaits => hawaits) (by simp) (by simp)
      (by simp) (by simp)
  | redirect t number target =>
    dsimp only [PoolState.step] at hstep
    refine h.move hstep fun thread core' thread' _ hf => ?_
    obtain ⟨hidle, c, job, -, -, rfl, rfl⟩ := PoolThread.redirect_cases hf
    refine .of_idle hidle rfl rfl rfl ?_ rfl (fun _ => rfl) rfl rfl
    intro id k hawaits
    apply hawaits.updateClient
    intro job hjob _ _
    refine ⟨_, PoolClient.mem_jobs_map.mpr ⟨job, hjob, rfl⟩, ?_⟩
    split_ifs <;> exact ⟨rfl, rfl⟩
  | dispatch t id events =>
    dsimp only [PoolState.step] at hstep
    refine h.move hstep fun thread core' thread' _ hf => ?_
    obtain ⟨new, hdispatch, heq⟩ := Option.map_eq_some_iff.mp hf
    cases heq
    obtain ⟨-, hidle, rfl⟩ := PoolThread.dispatch_cases hdispatch
    exact .of_idle hidle rfl rfl rfl (fun _ _ hawaits => hawaits) (by simp) (by simp)
      (by simp) (by simp)
  | start k =>
    dsimp only [PoolState.step] at hstep
    split_ifs at hstep
    cases hstep
    refine h.shared [{ role := .worker k }] ?_ rfl rfl rfl ?_
    · simp
    · intro id x hawaits
      refine PoolCore.Awaits.updateClient (c := k)
        (f := fun client => { client with workerStart := true }) hawaits ?_
      exact fun job hjob _ _ => ⟨job, hjob, rfl, rfl⟩
  | connection k change =>
    dsimp only [PoolState.step] at hstep
    split_ifs at hstep
    cases hstep
    have hnext : Intact ⟨s.shared.updateClient k (·.change change), s.parties ++ []⟩ := by
      refine h.shared [] (by simp) rfl rfl rfl fun id x hawaits => ?_
      apply hawaits.updateClient
      intro job hjob _ hopen
      apply PoolClient.exists_mem_change hjob
      rintro number rfl hnumber
      rw [hspares job hjob hnumber] at hopen
      cases hopen
    rwa [List.append_nil] at hnext

/-- Only a lookup takes a client out of the pool. -/
theorem removed_cases (hstep : step admission s i = some s') {k : ℕ} (howns : s.shared.Owns k)
    (hgone : ¬s'.shared.Owns k) :
    ∃ t outcome thread origin, i = .advance t outcome ∧ s.parties[t]? = some thread ∧
      thread.looksUp outcome = some origin ∧
      k ∈ s.shared.discards (Execution.poolKey admission origin) := by
  cases i with
  | advance t outcome =>
    dsimp only [PoolState.step] at hstep
    obtain ⟨thread, core', thread', hthread, hf, rfl⟩ := System.move_eq_some.mp hstep
    by_contra hnone
    apply hgone
    have hkept : ∀ origin, thread.looksUp outcome = some origin →
        k ∉ s.shared.discards (Execution.poolKey admission origin) :=
      fun origin hlooks hmem => hnone ⟨t, outcome, thread, origin, rfl, hthread, hlooks, hmem⟩
    rcases PoolThread.advance_cases hf with ⟨call, rest, after, hcalls, hadvance, rfl⟩ |
      ⟨task, after, hcalls, htask, hadvance, rfl⟩
    · refine hadvance.owns (fun origin hlooks => hkept origin ?_) howns
      rwa [PoolThread.looksUp, hcalls]
    · refine hadvance.owns (fun origin hlooks => hkept origin ?_) howns
      rw [PoolThread.looksUp, hcalls, htask]
      exact hlooks
  | execute | cancel | callback | dispatch =>
    dsimp only [PoolState.step] at hstep
    obtain ⟨thread, core', thread', hthread, hf, rfl⟩ := System.move_eq_some.mp hstep
    obtain ⟨new, -, heq⟩ := Option.map_eq_some_iff.mp hf
    cases heq
    exact absurd howns hgone
  | redirect t number target =>
    dsimp only [PoolState.step] at hstep
    obtain ⟨thread, core', thread', hthread, hf, rfl⟩ := System.move_eq_some.mp hstep
    obtain ⟨-, c, job, -, -, rfl, rfl⟩ := PoolThread.redirect_cases hf
    exact absurd howns hgone
  | start | connection =>
    dsimp only [PoolState.step] at hstep
    split_ifs at hstep
    cases hstep
    exact absurd howns hgone

/-- The thread that takes a step. -/
def actor (s : PoolState) : PoolStep → Option ThreadRole
  | .advance t _ => s.parties[t]?.map PoolThread.role
  | _ => none

/-- A run that throws only unused clients out of the pool and drops only jobs of requests
that have ended has every client of the registry in the pool; no client with an unfinished
job is removed, and none by its own worker. -/
theorem run_integral {threads : ℕ} {steps : List PoolStep}
    (hrun : run (step admission) (initial threads) steps = some s)
    (hok : Meets (step admission) (Spares admission) (initial threads) steps) :
    s.Integral ∧ ∀ u i u' k, Taken (step admission) (initial threads) steps u i →
      step admission u i = some u' → u.shared.Owns k → ¬u'.shared.Owns k →
      (∀ job ∈ (u.shared.clients k).jobs, job.settled = true) ∧
        u.actor i ≠ some (.worker k) := by
  constructor
  · have hintact : s.Intact := run_invariant (fun _ _ _ h hspares hstep => h.step hspares hstep)
      hrun hok (intact_initial threads)
    exact fun id k hrecords => hintact.owned k (.inl ⟨id, hrecords⟩)
  · intro u i u' k htaken hstep howns hgone
    obtain ⟨t, outcome, thread, origin, rfl, hthread, hlooks, hmem⟩ :=
      removed_cases hstep howns hgone
    have hspares := Transition.Meets.of_taken hok htaken
    unfold Spares at hspares
    dsimp only at hspares
    rw [hthread] at hspares
    dsimp only at hspares
    rw [hlooks] at hspares
    obtain ⟨hsettled, -, hrole⟩ := hspares k hmem
    refine ⟨hsettled, ?_⟩
    rw [actor, hthread]
    exact fun heq => hrole (Option.some.inj heq)

/-! ### Two requests to one origin -/

def plainOrigin : Url :=
  { scheme := "https".toList, host := "a.test".toList, port := 443, path := "/".toList }

/-- A request is on a stream of the first connection. -/
def openedSteps : List PoolStep :=
  .execute 1 7 plainOrigin :: List.replicate 4 (.advance 1 .done) ++
    [.start 0, .connection 0 (.submitted 0)]

/-- Another request to the same origin. -/
def secondSteps : List PoolStep :=
  .execute 2 8 plainOrigin :: List.replicate 4 (.advance 2 .done)

/-- The first request completes before the connection drains and the second one comes. -/
def replacedSteps : List PoolStep :=
  openedSteps ++ .callback 3 0 [.complete] :: List.replicate 5 (.advance 3 .done) ++
    [.connection 0 (.dropped 0), .connection 0 (.entered .draining)] ++ secondSteps

theorem run_integral_replaced :
    ∃ s, run (step {}) (initial 2) replacedSteps = some s ∧
      s.shared.pool.map Prod.snd = [1] ∧ s.Integral := by
  obtain ⟨s, hrun, hpool⟩ := Option.map_eq_some_iff.mp
    (show (run (step {}) (initial 2) replacedSteps).map (fun s => s.shared.pool.map Prod.snd) =
      some [1] by decide +kernel)
  exact ⟨s, hrun, hpool, (run_integral hrun (by decide +kernel)).1⟩

/-- A GOAWAY comes while the first request is on its way. The lookup of the second one
destroys its client, which the registry still refers to. -/
def drainedSteps : List PoolStep :=
  openedSteps ++ .connection 0 (.entered .draining) :: secondSteps

theorem run_dangling :
    ∃ s, run (step {}) (initial 2) drainedSteps = some s ∧ s.shared.Records 7 0 ∧
      ¬s.shared.Owns 0 ∧ ¬s.Integral := by
  obtain ⟨s, hrun, hseen⟩ := Option.map_eq_some_iff.mp
    (show (run (step {}) (initial 2) drainedSteps).map
        (fun s => (s.shared.registry 7, s.shared.pool.map Prod.snd)) =
      some (some { client := some 0 }, [1]) by decide +kernel)
  obtain ⟨hregistry, hpool⟩ := Prod.mk.inj hseen
  have hrecords : s.shared.Records 7 0 := ⟨_, hregistry, rfl⟩
  have howns : ¬s.shared.Owns 0 := by
    rw [PoolCore.Owns, hpool]
    decide
  exact ⟨s, hrun, hrecords, howns, fun h => howns (h 7 0 hrecords)⟩

end PoolState

end

end KatHttp3
