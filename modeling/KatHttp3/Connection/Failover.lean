import KatHttp3.Connection.Worker

/-!
# The failover window

From the adoption of the race's winner until its handshake is confirmed no
request should be committed, so that a connection that fails in the window can be
replaced while there is another endpoint. Two calls of `try_submit_pending` are
not gated by the window: the one of each iteration of the event loop and the one
after a change of the stream limit.
-/

namespace KatHttp3

namespace Client

/-- Nothing was handed to nghttp3. -/
structure Uncommitted (client : Client) : Prop where
  active : client.active = []
  pending : ∀ job ∈ client.pending, job.nativeRequestCommitted = false

/-- The jobs that `try_submit_pending` reaches: those that are not cancelled, up to the first
one that has to wait for the handshake. -/
def reachable (client : Client) (jobs : List ClientJob) : List ClientJob :=
  (jobs.filter fun job => !job.cancelled).takeWhile fun job => !client.holdsBack job

/-- The client is not ready, or of the jobs that are reached, before a stream may not be
opened any more, none is one that nghttp3 takes. -/
def SubmitsNothing (client : Client) (answers : List SubmitAnswer) : Prop :=
  client.isDraining = true ∨ client.http3Ready = false ∨ client.sessionReady = false ∨
    .accepted ∉
      (answers.takeWhile (· != .blocked)).take (client.reachable client.pending).length

instance (client : Client) (answers : List SubmitAnswer) :
    Decidable (client.SubmitsNothing answers) := by
  unfold SubmitsNothing
  infer_instance

variable {client : Client}

theorem Uncommitted.of_sublist {after : Client} (h : client.Uncommitted)
    (hactive : after.active = client.active) (hpending : after.pending.Sublist client.pending) :
    after.Uncommitted :=
  ⟨hactive.trans h.active, fun job hjob => h.pending job (hpending.subset hjob)⟩

theorem Uncommitted.progress {after : Client} (h : client.Uncommitted)
    (hp : client.Progress after) : after.Uncommitted := by
  constructor
  · have hactive := hp.active
    rw [h.active] at hactive
    exact List.forall₂_nil_left_iff.mp hactive
  · intro job hjob
    obtain ⟨before, hbefore, hsame⟩ := exists_of_mem_right hp.pending hjob
    rw [hsame.committed]
    exact h.pending before hbefore

/-! ### The window -/

theorem window_keptByLoop (window : Bool) :
    KeptByLoop fun client => client.precommitFailoverWindow = window where
  skip _ _ _ h := h
  refuse _ _ _ h := h
  accept _ _ _ _ _ h := h

theorem reachable_cons_cancelled {job : ClientJob} (rest : List ClientJob)
    (h : job.cancelled = true) : client.reachable (job :: rest) = client.reachable rest := by
  unfold reachable
  rw [List.filter_cons_of_neg (by simp [h])]

theorem reachable_cons_held {job : ClientJob} (rest : List ClientJob) (h : job.cancelled = false)
    (hheld : client.holdsBack job = true) : client.reachable (job :: rest) = [] := by
  unfold reachable
  rw [List.filter_cons_of_pos (by simp [h]), List.takeWhile_cons_of_neg (by simp [hheld])]

theorem reachable_cons {job : ClientJob} (rest : List ClientJob) (h : job.cancelled = false)
    (hheld : client.holdsBack job = false) :
    client.reachable (job :: rest) = job :: client.reachable rest := by
  unfold reachable
  rw [List.filter_cons_of_pos (by simp [h]), List.takeWhile_cons_of_pos (by simp [hheld])]

theorem active_keptByLoop : KeptByLoop fun client => client.active ≠ [] where
  skip _ _ _ h := h
  refuse _ _ _ h := h
  accept _ _ _ _ _ _ := by simp [accept]

/-- What the loop does with its jobs depends on the answers to those that it reaches. -/
theorem submitLoop_active (jobs : List ClientJob) (answers : List SubmitAnswer) (client : Client) :
    if .accepted ∈ (answers.takeWhile (· != .blocked)).take (client.reachable jobs).length then
      (submitLoop jobs answers client).active ≠ []
    else
      (submitLoop jobs answers client).active = client.active ∧
        (submitLoop jobs answers client).pending.Sublist jobs := by
  induction jobs generalizing answers client with
  | nil =>
    rw [if_neg (by simp [reachable])]
    exact ⟨rfl, List.Sublist.refl _⟩
  | cons job rest ih =>
    unfold submitLoop
    by_cases hcancelled : job.cancelled = true
    · rw [if_pos hcancelled, reachable_cons_cancelled rest hcancelled]
      have hrest := ih answers client
      split_ifs at hrest ⊢
      · exact hrest
      · exact ⟨hrest.1, hrest.2.cons job⟩
    rw [if_neg hcancelled]
    rw [Bool.not_eq_true] at hcancelled
    by_cases hheld : client.holdsBack job = true
    · rw [if_pos hheld, reachable_cons_held rest hcancelled hheld, if_neg (by simp)]
      exact ⟨rfl, List.Sublist.refl _⟩
    rw [if_neg hheld]
    rw [Bool.not_eq_true] at hheld
    rw [reachable_cons rest hcancelled hheld, List.length_cons]
    cases answers with
    | nil =>
      rw [if_neg (by simp)]
      exact ⟨rfl, List.Sublist.refl _⟩
    | cons answer answers =>
      cases answer with
      | blocked =>
        rw [if_neg (by simp)]
        exact ⟨rfl, List.Sublist.refl _⟩
      | failed =>
        rw [List.takeWhile_cons_of_pos (by decide), List.take_succ_cons]
        have hrest := ih answers client
        simp only [List.mem_cons, reduceCtorEq, false_or]
        split_ifs at hrest ⊢
        · exact hrest
        · exact ⟨hrest.1, hrest.2.cons job⟩
      | refused =>
        rw [List.takeWhile_cons_of_pos (by decide), List.take_succ_cons]
        have hsame : client.openBidiStream.reachable rest = client.reachable rest := rfl
        have hrest := ih answers client.openBidiStream
        rw [hsame] at hrest
        simp only [List.mem_cons, reduceCtorEq, false_or]
        split_ifs at hrest ⊢
        · exact hrest
        · exact ⟨hrest.1, hrest.2.cons job⟩
      | accepted =>
        rw [List.takeWhile_cons_of_pos (by decide), List.take_succ_cons,
          if_pos List.mem_cons_self]
        exact active_keptByLoop.submitLoop rest answers (client.accept job) (by simp [accept])

theorem Uncommitted.trySubmitPending (h : client.Uncommitted) {answers : List SubmitAnswer}
    (hnothing : client.SubmitsNothing answers) : (client.trySubmitPending answers).Uncommitted := by
  unfold Client.trySubmitPending
  split_ifs with hguard
  · exact h
  · simp only [Bool.or_eq_true, Bool.not_eq_true', not_or, Bool.not_eq_false,
      Bool.not_eq_true] at hguard
    obtain ⟨⟨hdraining, hready⟩, hsession⟩ := hguard
    rcases hnothing with hd | hr | hs | hanswers
    · exact absurd hd (by simp [hdraining])
    · exact absurd hr (by simp [hready])
    · exact absurd hs (by simp [hsession])
    · have hloop := submitLoop_active client.pending answers client
      rw [if_neg hanswers] at hloop
      exact h.of_sublist hloop.1 hloop.2

/-- Nothing is committed nor confirmed while the window is open. -/
structure Windowed (client : Client) : Prop where
  uncommitted : client.precommitFailoverWindow = true → client.Uncommitted
  unconfirmed : client.precommitFailoverWindow = true → client.handshakeConfirmed = false

theorem Windowed.of_closed (h : client.precommitFailoverWindow = false) : client.Windowed :=
  ⟨fun hopen => absurd hopen (by simp [h]), fun hopen => absurd hopen (by simp [h])⟩

theorem Windowed.progress {after : Client} (h : client.Windowed) (hp : client.Progress after) :
    after.Windowed := by
  have hkept := hp.kept
  have hwindow : after.precommitFailoverWindow = client.precommitFailoverWindow := by rw [hkept]
  constructor
  · intro hopen
    exact (h.uncommitted (hwindow ▸ hopen)).progress hp
  · intro hopen
    rw [hkept]
    exact h.unconfirmed (hwindow ▸ hopen)

theorem trySubmitPending_window (answers : List SubmitAnswer) :
    (client.trySubmitPending answers).precommitFailoverWindow = client.precommitFailoverWindow :=
  (window_keptByLoop client.precommitFailoverWindow).trySubmitPending answers rfl

theorem confirmed_keptByLoop (confirmed : Bool) :
    KeptByLoop fun client => client.handshakeConfirmed = confirmed where
  skip _ _ _ h := h
  refuse _ _ _ h := h
  accept _ _ _ _ _ h := h

theorem Windowed.trySubmitPending (h : client.Windowed) {answers : List SubmitAnswer}
    (hnothing : client.precommitFailoverWindow = true → client.SubmitsNothing answers) :
    (client.trySubmitPending answers).Windowed := by
  constructor
  · intro hopen
    rw [trySubmitPending_window] at hopen
    exact (h.uncommitted hopen).trySubmitPending (hnothing hopen)
  · intro hopen
    rw [trySubmitPending_window] at hopen
    exact (confirmed_keptByLoop false).trySubmitPending answers (h.unconfirmed hopen)

theorem Windowed.submitOutsideWindow (h : client.Windowed) (answers : List SubmitAnswer) :
    (client.submitOutsideWindow answers).Windowed := by
  unfold Client.submitOutsideWindow
  split_ifs with hopen
  · exact h
  · exact h.trySubmitPending fun hwindow => absurd hwindow hopen

theorem Windowed.setupCodec (h : client.Windowed) : client.setupCodec.Windowed :=
  ⟨fun hopen => ⟨(h.uncommitted hopen).active, (h.uncommitted hopen).pending⟩, h.unconfirmed⟩

theorem Windowed.onHandshakeCompleted (h : client.Windowed) (codec : Bool)
    (answers : List SubmitAnswer) : (client.onHandshakeCompleted codec answers).1.Windowed := by
  unfold Client.onHandshakeCompleted
  split_ifs
  · exact h
  · exact h.setupCodec.submitOutsideWindow answers
  · exact h

/-- Confirmation closes the window before anything is submitted. -/
theorem onHandshakeConfirmed_window (answers : List SubmitAnswer) :
    (client.onHandshakeConfirmed answers).precommitFailoverWindow = false := by
  unfold onHandshakeConfirmed
  dsimp only
  split_ifs with hopen
  · exact trySubmitPending_window answers
  · simpa using hopen

theorem Windowed.onStreamClose (h : client.Windowed) (streamId : ℤ) :
    (client.onStreamClose streamId).Windowed := by
  refine ⟨fun hopen => ⟨?_, (h.uncommitted hopen).pending⟩, h.unconfirmed⟩
  simp [Client.onStreamClose, (h.uncommitted hopen).active]

theorem Windowed.onEarlyDataRejected (h : client.Windowed) :
    client.forgetStreams.onEarlyDataRejected.Windowed := by
  unfold Client.onEarlyDataRejected
  split_ifs
  · refine ⟨fun hopen => ⟨rfl, ?_⟩, h.unconfirmed⟩
    have huncommitted := h.uncommitted hopen
    intro job hjob
    rcases List.mem_append.mp hjob with hold | hmoved
    · exact huncommitted.pending job hold
    · have hactive : client.active.map ClientJob.withdraw = [] := by rw [huncommitted.active]; rfl
      exact absurd hmoved (hactive ▸ List.not_mem_nil)
  · exact ⟨fun hopen => ⟨(h.uncommitted hopen).active, (h.uncommitted hopen).pending⟩,
      h.unconfirmed⟩

/-- A change of other fields. -/
theorem Windowed.of_same {after : Client} (h : client.Windowed)
    (hwindow : after.precommitFailoverWindow = client.precommitFailoverWindow)
    (hpending : after.pending = client.pending) (hactive : after.active = client.active)
    (hconfirmed : after.handshakeConfirmed = true → client.handshakeConfirmed = true) :
    after.Windowed := by
  constructor
  · intro hopen
    rw [hwindow] at hopen
    exact (h.uncommitted hopen).of_sublist hactive (hpending ▸ List.Sublist.refl _)
  · intro hopen
    rw [hwindow] at hopen
    by_contra hnot
    have := hconfirmed (by simpa using hnot)
    rw [h.unconfirmed hopen] at this
    cases this

theorem Windowed.setupConnection (h : client.Windowed) (result : SetupResult) :
    (client.setupConnection result).1.Windowed := by
  cases result with
  | unreachable => exact h
  | failed early => exact h.of_same rfl rfl rfl id
  | ready early codec answers =>
    have hopened : (client.openSession early).Windowed := h.of_same rfl rfl rfl id
    have hstarted : (if (early && codec) = true then
        (client.openSession early).setupCodec.submitOutsideWindow answers
        else client.openSession early).Windowed := by
      split_ifs
      · exact hopened.setupCodec.submitOutsideWindow answers
      · exact hopened
    exact hstarted.of_same rfl rfl rfl nofun

theorem Uncommitted.adoptHandshakeWinner (h : client.Uncommitted) (adoption : Adoption) :
    (client.adoptHandshakeWinner adoption).1.Windowed := by
  have hbegun : (client.beginAdoption adoption.winner adoption.attempted).Windowed :=
    ⟨fun _ => ⟨h.active, h.pending⟩, fun _ => rfl⟩
  have hcodec : (client.adoptedCodec adoption).Windowed := by
    unfold Client.adoptedCodec
    cases adoption.goaway with
    | none => exact hbegun.setupCodec
    | some streamId => exact hbegun.setupCodec.progress (onGoaway_progress _ streamId)
  rw [adoptHandshakeWinner_eq]
  split_ifs
  · exact hbegun.of_same rfl rfl rfl id
  · exact hcodec.of_same rfl rfl rfl id
  · exact .of_closed (onHandshakeConfirmed_window adoption.answers)
  · exact hcodec

end Client

namespace Worker

variable {worker after : Worker}

/-- Another endpoint is left for the path. -/
def hasUntried (client : Client) : LoopPath → Bool
  | .sequential => client.endpointIdx + 1 < client.endpoints.length
  | _ => client.precommitFallbackEndpoints != []

/-- The errors after which the path goes on. -/
def isRetryable (error : ErrorCode) (tls : Option ErrorCode) : LoopPath → Bool
  | .raced => error != .networkLost
  | .fallback => true
  | .sequential => error != .networkLost && !isCertificateFailure tls

/-- The call of `event_loop` that runs. -/
def loopPath (worker : Worker) : Option LoopPath :=
  match worker.control with
  | .looping path => some path
  | _ => none

/-- The answers to a call of `try_submit_pending` that the window does not gate. -/
def ungatedAnswers : WorkerStep → Option (List Client.SubmitAnswer)
  | .event (.iterate answers) | .event (.extendMaxStreams answers) => some answers
  | _ => none

/-- The errors, its own and the one of TLS, with which `event_loop` returns -1. -/
def loopError (worker : Worker) : WorkerStep → Option (ErrorCode × Option ErrorCode)
  | .fatal error tls => some (error.getD worker.client.terminalError, tls)
  | .event event =>
    if (onEvent worker.client event).2 then none else some (worker.client.terminalError, none)
  | _ => none

/-- The window is open, a request waits to be carried out, and another endpoint is left. -/
def CanFailOver (client : Client) (path : LoopPath) : Prop :=
  client.precommitFailoverWindow = true ∧ client.hasLivePendingJob = true ∧
    hasUntried client path = true

instance (client : Client) (path : LoopPath) : Decidable (CanFailOver client path) := by
  unfold CanFailOver
  infer_instance

/-- In the window a call of `try_submit_pending` that it does not gate finds nothing to submit, and
a fatal error is one after which the path goes on. -/
def HoldsWindow (worker : Worker) (i : WorkerStep) : Prop :=
  (∀ answers ∈ ungatedAnswers i, worker.client.precommitFailoverWindow = true →
    worker.client.SubmitsNothing answers) ∧
    ∀ path ∈ worker.loopPath, ∀ error ∈ worker.loopError i, CanFailOver worker.client path →
      worker.client.stop = false ∧ isRetryable error.1 error.2 path = true

instance (worker : Worker) (i : WorkerStep) : Decidable (worker.HoldsWindow i) := by
  unfold HoldsWindow
  infer_instance

/-- Before the first connection and in the window nothing is committed. -/
structure Precommit (worker : Worker) : Prop where
  windowed : worker.client.Windowed
  before : worker.control = .idle ∨ worker.control = .resolving ∨ worker.control = .racing →
    worker.client.Uncommitted

theorem EventEffect.windowed {client after : Client} {event : LoopEvent} (h : client.Windowed)
    (hok : ∀ answers, event = .iterate answers ∨ event = .extendMaxStreams answers →
      client.precommitFailoverWindow = true → client.SubmitsNothing answers)
    (effect : EventEffect client event after) : after.Windowed := by
  cases effect with
  | unchanged event => exact h
  | completed codec answers => exact h.onHandshakeCompleted codec answers
  | recorded answers => exact h.of_same rfl rfl rfl id
  | confirmed answers => exact .of_closed (Client.onHandshakeConfirmed_window answers)
  | extended answers => exact h.trySubmitPending (hok answers (.inr rfl))
  | iterated answers => exact h.trySubmitPending (hok answers (.inl rfl))
  | closed streamId => exact h.onStreamClose streamId
  | rejected early => exact h.onEarlyDataRejected
  | progressed event progress => exact h.progress progress

theorem Exits.windowed {client : Client} (h : client.Windowed) (exits : Exits client after) :
    after.client.Windowed := by
  cases exits with
  | kept error => exact h.of_same rfl rfl rfl id
  | failed error => exact ⟨fun _ => ⟨rfl, fun _ hjob => absurd hjob List.not_mem_nil⟩, h.unconfirmed⟩

theorem Precommit.step {i : WorkerStep} (h : worker.Precommit) (hok : worker.HoldsWindow i)
    (hstep : worker.step i = some after) : after.Precommit := by
  have hwindowed := h.windowed
  cases step_effect hstep with
  | submitted id request =>
    have hsubmitted : worker.client.Uncommitted →
        (worker.client.submitJob id request).Uncommitted := by
      intro huncommitted
      refine ⟨huncommitted.active, fun job hjob => ?_⟩
      rcases List.mem_append.mp hjob with hold | hnew
      · exact huncommitted.pending job hold
      · obtain rfl := List.mem_singleton.mp hnew
        rfl
    exact ⟨⟨fun hopen => hsubmitted (hwindowed.uncommitted hopen), hwindowed.unconfirmed⟩,
      fun hcontrol => hsubmitted (h.before hcontrol)⟩
  | cancelled id progress =>
    exact ⟨hwindowed.progress progress, fun hcontrol => (h.before hcontrol).progress progress⟩
  | stopped =>
    exact ⟨hwindowed.of_same rfl rfl rfl id,
      fun hcontrol => (h.before hcontrol).of_sublist rfl (List.Sublist.refl _)⟩
  | exited i exits => exact ⟨exits.windowed hwindowed, by simp [exits.control]⟩
  | moved i endpoints error control target =>
    exact ⟨hwindowed.of_same rfl rfl rfl id,
      fun _ => (h.before control).of_sublist rfl (List.Sublist.refl _)⟩
  | adopted adoption control target =>
    have huncommitted := h.before (.inr (.inr control))
    refine ⟨huncommitted.adoptHandshakeWinner adoption, ?_⟩
    rcases target with rfl | rfl <;> simp
  | attempted result idx control may target =>
    refine ⟨(hwindowed.setupConnection result).of_same rfl rfl rfl id, ?_⟩
    rcases target with rfl | rfl <;> simp
  | restarted result rest control target =>
    have hdiscarded : (Client.discardCurrentConnection
        { worker.client with precommitFallbackEndpoints := rest }).Windowed :=
      hwindowed.of_same rfl rfl rfl nofun
    refine ⟨hdiscarded.setupConnection result, ?_⟩
    rcases target with rfl | ⟨rfl, _⟩ <;> simp
  | looped path event control effect =>
    refine ⟨EventEffect.windowed hwindowed ?_ effect, by simp [control]⟩
    rintro answers (rfl | rfl)
    · exact hok.1 answers rfl
    · exact hok.1 answers rfl
  | failedOver i path error control can => exact ⟨hwindowed.of_same rfl rfl rfl id, by simp⟩
  | continued i idx error control => exact ⟨hwindowed.of_same rfl rfl rfl id, by simp⟩

/-! ### Fatal errors -/

end Worker

end KatHttp3
