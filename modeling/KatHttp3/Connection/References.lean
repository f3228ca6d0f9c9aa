import KatHttp3.Connection.Worker

/-!
# References to jobs

Until the worker returns, every job that its HTTP/3 session refers to is an
active one with the stream that the session has it under, so that no callback
is about a job that was destroyed.
-/

namespace KatHttp3

/-! ### Sessions -/

/-- The jobs that a session refers to are among the active ones. -/
structure Http3Session.Live (session : Http3Session) (active : List ClientJob) : Prop where
  idle : session.ready = false → session.userData = []
  known : ∀ entry ∈ session.streams, entry ∈ session.userData
  live : ∀ entry ∈ session.userData, ∃ job ∈ active, job.handle = entry.2 ∧ job.streamId = entry.1

namespace Http3Session.Live

variable {session : Http3Session} {active : List ClientJob}

theorem fresh (active : List ClientJob) : Live {} active :=
  ⟨fun _ => rfl, nofun, nofun⟩

theorem setupCodec (h : session.Live active) : Live { session with ready := true } active :=
  ⟨nofun, h.known, h.live⟩

theorem progress {after : List ClientJob} (h : session.Live active)
    (hjobs : List.Forall₂ ClientJob.Progress active after) : session.Live after := by
  refine ⟨h.idle, h.known, ?_⟩
  intro entry hentry
  obtain ⟨job, hjob, heq, hid⟩ := h.live entry hentry
  obtain ⟨job', hjob', hp⟩ := exists_of_mem_left hjobs hjob
  exact ⟨job', hjob', hp.handle.trans heq, hp.streamId.trans hid⟩

theorem submitRequest (h : session.Live active) (hready : session.ready = true) (job : ClientJob) :
    (session.submitRequest job.streamId job.handle).Live (active ++ [job]) := by
  refine ⟨?_, ?_, ?_⟩
  · intro hidle
    exact absurd hidle (by simp [Http3Session.submitRequest, hready])
  · intro entry hentry
    rcases List.mem_cons.mp hentry with rfl | hold
    · exact List.mem_cons_self
    · exact List.mem_cons_of_mem _ (h.known entry (List.mem_of_mem_filter hold))
  · intro entry hentry
    rcases List.mem_cons.mp hentry with rfl | hold
    · exact ⟨job, List.mem_append_right _ List.mem_cons_self, rfl, rfl⟩
    · obtain ⟨other, hother, heq⟩ := h.live entry hold
      exact ⟨other, List.mem_append_left _ hother, heq⟩

/-- A closed stream takes its entries and the first job with it. -/
theorem onStreamClose (h : session.Live active) (streamId : ℤ) :
    (session.onStreamClose streamId).Live (active.eraseP fun job => job.streamId == streamId) := by
  have hkept : ∀ entry ∈ session.userData, entry.1 ≠ streamId →
      ∃ job ∈ active.eraseP fun job => job.streamId == streamId,
        job.handle = entry.2 ∧ job.streamId = entry.1 := by
    intro entry hentry hne
    obtain ⟨job, hjob, heq, hid⟩ := h.live entry hentry
    refine ⟨job, ?_, heq, hid⟩
    rw [List.mem_eraseP_of_neg]
    · exact hjob
    · simpa [hid] using hne
  unfold Http3Session.onStreamClose
  split_ifs with hclosed
  · refine ⟨?_, ?_, ?_⟩
    · intro hidle
      simp [h.idle hidle]
    · intro entry hentry
      obtain ⟨hmem, hne⟩ := List.mem_filter.mp hentry
      exact List.mem_filter.mpr ⟨h.known entry hmem, hne⟩
    · intro entry hentry
      obtain ⟨hmem, hne⟩ := List.mem_filter.mp hentry
      exact hkept entry hmem (by simpa using hne)
  · refine ⟨h.idle, h.known, ?_⟩
    intro entry hentry
    apply hkept entry hentry
    rintro rfl
    apply hclosed
    have hready : session.ready = true := by
      by_contra hidle
      rw [h.idle (by simpa using hidle)] at hentry
      cases hentry
    simp only [hready, Bool.true_and, List.any_eq_true]
    exact ⟨entry, hentry, by simp⟩

end Http3Session.Live

/-! ### The client -/

namespace Client

/-- The current session refers to active jobs only. -/
def Linked (client : Client) : Prop := ∀ session ∈ client.session, session.Live client.active

variable {client : Client}

theorem Linked.of_session_none (h : client.session = none) : client.Linked := by
  intro session hsession
  rw [h] at hsession
  cases hsession

theorem Linked.of_fresh (h : client.session = some {}) : client.Linked := by
  intro session hsession
  rw [h] at hsession
  obtain rfl := Option.some.inj hsession
  exact .fresh _

theorem Linked.setupCodec (h : client.Linked) : client.setupCodec.Linked := by
  intro session hsession
  obtain ⟨before, hbefore, rfl⟩ := Option.map_eq_some_iff.mp hsession
  exact (h before hbefore).setupCodec

theorem Linked.progress {after : Client} (h : client.Linked) (hp : client.Progress after) :
    after.Linked := by
  intro session hsession
  rw [hp.kept] at hsession
  exact (h session hsession).progress hp.active

theorem Linked.accept (h : client.Linked) (hready : client.sessionReady = true) (job : ClientJob) :
    (client.accept job).Linked := by
  intro session hsession
  obtain ⟨before, hbefore, rfl⟩ := Option.map_eq_some_iff.mp hsession
  have hbeforeReady : before.ready = true := by
    simpa [sessionReady, hbefore] using hready
  exact (h before hbefore).submitRequest hbeforeReady
    { job with
      streamId := client.nextStreamId
      nativeRequestCommitted := true
      openedOn := client.connection.number }

theorem linked_keptByLoop : KeptByLoop fun client => client.Linked ∧ client.sessionReady = true where
  skip _ _ _ h := h
  refuse _ _ _ h := h
  accept client job rest _ _ h := by
    refine ⟨Linked.accept h.1 h.2 job, ?_⟩
    have hready : client.sessionReady = true := h.2
    cases hsession : client.session with
    | none => simp [sessionReady, hsession] at hready
    | some session =>
      simpa [sessionReady, hsession, Client.accept, openBidiStream, Http3Session.submitRequest]
        using hready

theorem Linked.trySubmitPending (h : client.Linked) (answers : List SubmitAnswer) :
    (client.trySubmitPending answers).Linked := by
  unfold Client.trySubmitPending
  split_ifs with hguard
  · exact h
  · have hready : client.sessionReady = true := by
      by_contra hnot
      simp [hnot] at hguard
    exact (linked_keptByLoop.submitLoop client.pending answers client ⟨h, hready⟩).1

theorem Linked.submitOutsideWindow (h : client.Linked) (answers : List SubmitAnswer) :
    (client.submitOutsideWindow answers).Linked := by
  unfold Client.submitOutsideWindow
  split_ifs
  · exact h
  · exact h.trySubmitPending answers

theorem Linked.onHandshakeCompleted (h : client.Linked) (codec : Bool)
    (answers : List SubmitAnswer) : (client.onHandshakeCompleted codec answers).1.Linked := by
  unfold Client.onHandshakeCompleted
  split_ifs
  · exact h
  · exact h.setupCodec.submitOutsideWindow answers
  · exact h

theorem Linked.onHandshakeConfirmed (h : client.Linked) (answers : List SubmitAnswer) :
    (client.onHandshakeConfirmed answers).Linked := by
  unfold Client.onHandshakeConfirmed
  dsimp only
  split_ifs
  · apply Linked.trySubmitPending
    exact h
  · exact h

theorem Linked.onStreamClose (h : client.Linked) (streamId : ℤ) :
    (client.onStreamClose streamId).Linked := by
  intro session hsession
  obtain ⟨before, hbefore, rfl⟩ := Option.map_eq_some_iff.mp hsession
  exact (h before hbefore).onStreamClose streamId

theorem Linked.onEarlyDataRejected (h : client.Linked) : client.onEarlyDataRejected.Linked := by
  unfold Client.onEarlyDataRejected
  split_ifs
  · exact .of_fresh rfl
  · exact h

theorem Linked.setupConnection (h : client.Linked) (result : SetupResult) :
    (client.setupConnection result).1.Linked := by
  cases result with
  | unreachable => exact h
  | failed early => exact h
  | ready early codec answers =>
    have hopened : (client.openSession early).Linked := .of_fresh rfl
    have hstarted : (if (early && codec) = true then
        (client.openSession early).setupCodec.submitOutsideWindow answers
        else client.openSession early).Linked := by
      split_ifs
      · exact hopened.setupCodec.submitOutsideWindow answers
      · exact hopened
    exact hstarted

theorem Linked.adoptHandshakeWinner (adoption : Adoption) :
    (client.adoptHandshakeWinner adoption).1.Linked := by
  have hbegun : (client.beginAdoption adoption.winner adoption.attempted).Linked := .of_fresh rfl
  have hcompleted := hbegun.onHandshakeCompleted adoption.codec []
  unfold Client.adoptHandshakeWinner
  split
  · exact .of_session_none rfl
  · next after hafter =>
    rw [hafter] at hcompleted
    have hgoaway : (adoption.goaway.elim after after.onGoaway).Linked := by
      cases adoption.goaway with
      | none => exact hcompleted
      | some streamId => exact hcompleted.progress (after.onGoaway_progress streamId)
    dsimp only
    split_ifs
    · exact .of_session_none rfl
    · apply Linked.onHandshakeConfirmed
      exact hgoaway
    · exact hgoaway

end Client

namespace Worker

variable {worker after : Worker}

theorem EventEffect.linked {client after : Client} {event : LoopEvent} (h : client.Linked)
    (effect : EventEffect client event after) : after.Linked := by
  cases effect with
  | unchanged event => exact h
  | completed codec answers => exact h.onHandshakeCompleted codec answers
  | recorded answers => exact h
  | confirmed answers =>
    apply Client.Linked.onHandshakeConfirmed
    exact h
  | extended answers => exact h.trySubmitPending answers
  | iterated answers => exact h.trySubmitPending answers
  | closed streamId => exact h.onStreamClose streamId
  | rejected early =>
    apply Client.Linked.onEarlyDataRejected
    exact h
  | progressed event progress => exact h.progress progress

/-- Until the worker returns. -/
def Linked (worker : Worker) : Prop := worker.control ≠ .done → worker.client.Linked

theorem Linked.step {i : WorkerStep} (h : worker.Linked) (hstep : worker.step i = some after) :
    after.Linked := by
  cases step_effect hstep with
  | submitted id request => exact h
  | cancelled id progress => exact fun hcontrol => (h hcontrol).progress progress
  | stopped => exact h
  | exited i exits => exact fun hcontrol => absurd exits.control hcontrol
  | moved i endpoints error control target =>
    have hlinked := h (by rcases control with hc | hc | hc <;> simp [hc])
    exact fun _ => hlinked
  | adopted adoption control target => exact fun _ => Client.Linked.adoptHandshakeWinner adoption
  | attempted result idx control may target =>
    have hlinked := h (by simp [control])
    exact fun _ => hlinked.setupConnection result
  | restarted result rest control target =>
    have hdiscarded : (Client.discardCurrentConnection
        { worker.client with precommitFallbackEndpoints := rest }).Linked := .of_session_none rfl
    exact fun _ => hdiscarded.setupConnection result
  | looped path event control effect =>
    have hlinked := h (by simp [control])
    exact fun _ => EventEffect.linked hlinked effect
  | failedOver i path error control can =>
    have hlinked := h (by simp [control])
    exact fun _ => hlinked
  | continued i idx error control =>
    have hlinked := h (by simp [control])
    exact fun _ => hlinked

/-- In every reachable state, until the worker returns, every stream that its
session knows belongs to an active job with that stream; after that, no event
of the loop happens any more. -/
theorem run_linked {steps : List WorkerStep} (hrun : Transition.run step {} steps = some worker) :
    (worker.control ≠ .done → ∀ session ∈ worker.client.session, ∀ entry,
      entry ∈ session.streams ∨ entry ∈ session.userData →
        ∃ job ∈ worker.client.active, job.handle = entry.2 ∧ job.streamId = entry.1) ∧
      (worker.control = .done → ∀ event, worker.step (.event event) = none) := by
  have hstart : Linked {} := fun _ => .of_session_none rfl
  have h : worker.Linked :=
    Transition.run_invariant_of_step (fun _ _ _ hs hstep => hs.step hstep) hrun hstart
  constructor
  · rintro hcontrol session hsession entry hentry
    have hlive := h hcontrol session hsession
    exact hlive.live entry (hentry.elim (hlive.known entry) fun hdata => hdata)
  · intro hcontrol event
    simp [step, hcontrol]

theorem run_linked_accepted :
    ∃ worker, Transition.run step {} (sequentialRun {} [⟨[], 443, .inet⟩]) = some worker ∧
      ∃ job ∈ worker.client.active, job.handle = 0 ∧ job.streamId = 0 := by
  obtain ⟨worker, hrun, hcontrol, hsession⟩ : ∃ worker,
      Transition.run step {} (sequentialRun {} [⟨[], 443, .inet⟩]) = some worker ∧
        worker.control = .looping .sequential ∧
          worker.client.session = some { ready := true, streams := [(0, 0)], userData := [(0, 0)] } :=
    ⟨_, rfl, by decide +kernel, by decide +kernel⟩
  exact ⟨worker, hrun, (run_linked hrun).1 (by simp [hcontrol]) _ hsession (0, 0)
    (.inl List.mem_cons_self)⟩

/-- A lost network destroys the job, and the session still has its stream. -/
theorem run_unlinked_done :
    ¬∀ (steps : List WorkerStep) (worker : Worker), Transition.run step {} steps = some worker →
      ∀ session ∈ worker.client.session, ∀ entry,
        entry ∈ session.streams ∨ entry ∈ session.userData →
          ∃ job ∈ worker.client.active, job.handle = entry.2 ∧ job.streamId = entry.1 := by
  intro h
  obtain ⟨worker, hrun, hactive, hsession⟩ : ∃ worker,
      Transition.run step {}
          (sequentialRun {} [⟨[], 443, .inet⟩] ++ [.fatal (some .networkLost) none]) = some worker ∧
        worker.client.active = [] ∧
          worker.client.session = some { ready := true, streams := [(0, 0)], userData := [(0, 0)] } :=
    ⟨_, rfl, by decide +kernel, by decide +kernel⟩
  obtain ⟨job, hjob, _⟩ := h _ worker hrun _ hsession (0, 0) (.inl List.mem_cons_self)
  rw [hactive] at hjob
  cases hjob

end Worker

end KatHttp3
