import KatHttp3.Connection.Worker

/-!
# Connection attempts

What a client believes about its current connection: that requests can be
submitted, and on which streams the active ones are. It stays true over any
sequence of attempts in which nothing of an abandoned connection is left over.
-/

namespace KatHttp3

namespace Client

/-- The client's view fits its current session and connection. -/
structure Current (client : Client) : Prop where
  ready : client.http3Ready = true → client.sessionReady = true
  opened : ∀ job ∈ client.active, job.openedOn = client.connection.number ∧
    ∃ n < client.connection.streams, job.streamId = 4 * n
  distinct : (client.active.map ClientJob.streamId).Nodup
  early : client.connection.early = true → client.earlyDataEnabled = true

variable {client : Client}

theorem Current.of_active_nil (hready : client.http3Ready = true → client.sessionReady = true)
    (hearly : client.connection.early = true → client.earlyDataEnabled = true)
    (hactive : client.active = []) : client.Current := by
  refine ⟨hready, ?_, ?_, hearly⟩
  · intro job hjob
    rw [hactive] at hjob
    cases hjob
  · rw [hactive]
    exact List.nodup_nil

theorem Current.progress {after : Client} (h : client.Current) (hp : client.Progress after) :
    after.Current := by
  have hkept := hp.kept
  refine ⟨?_, ?_, ?_, ?_⟩
  · rw [hkept]
    exact h.ready
  · intro job hjob
    obtain ⟨before, hbefore, hsame⟩ := exists_of_mem_right hp.active hjob
    rw [hsame.openedOn, hsame.streamId, hkept]
    exact h.opened before hbefore
  · rw [map_eq_of_forall₂ hp.active fun _ _ hsame => hsame.streamId]
    exact h.distinct
  · rw [hkept]
    exact h.early

theorem Current.openBidiStream (h : client.Current) : client.openBidiStream.Current := by
  refine ⟨h.ready, ?_, h.distinct, h.early⟩
  intro job hjob
  obtain ⟨hopened, n, hn, hid⟩ := h.opened job hjob
  exact ⟨hopened, n, Nat.lt_succ_of_lt hn, hid⟩

/-- A new stream has an id that no active job has. -/
theorem Current.accept (h : client.Current) (job : ClientJob) : (client.accept job).Current := by
  refine ⟨?_, ?_, ?_, h.early⟩
  · intro hready
    have hsession : client.sessionReady = true := h.ready hready
    cases hs : client.session with
    | none => simp [sessionReady, hs] at hsession
    | some session =>
      simpa [sessionReady, hs, Client.accept, Client.openBidiStream, Http3Session.submitRequest]
        using hsession
  · intro other hother
    rcases List.mem_append.mp hother with hold | hnew
    · exact h.openBidiStream.opened other hold
    · obtain rfl := List.mem_singleton.mp hnew
      exact ⟨rfl, client.connection.streams, Nat.lt_succ_self _, rfl⟩
  · have hfresh : client.nextStreamId ∉ client.active.map ClientJob.streamId := by
      intro hmem
      obtain ⟨other, hother, heq⟩ := List.mem_map.mp hmem
      obtain ⟨_, n, hn, hid⟩ := h.opened other hother
      have : (4 : ℤ) * n = 4 * client.connection.streams := hid.symm.trans heq
      omega
    rw [Client.accept, List.map_append, List.map_singleton]
    exact h.distinct.append (List.nodup_singleton _) (by simpa using hfresh)

theorem current_keptByLoop : KeptByLoop Current where
  skip _ _ _ h := ⟨h.ready, h.opened, h.distinct, h.early⟩
  refuse client job rest h := by
    have hrest : Current { client with pending := rest } := ⟨h.ready, h.opened, h.distinct, h.early⟩
    exact hrest.openBidiStream
  accept client job rest _ _ h := by
    have hrest : Current { client with pending := rest } := ⟨h.ready, h.opened, h.distinct, h.early⟩
    have haccepted := hrest.accept job
    exact ⟨haccepted.ready, haccepted.opened, haccepted.distinct, haccepted.early⟩

theorem Current.submitOutsideWindow (h : client.Current) (answers : List SubmitAnswer) :
    (client.submitOutsideWindow answers).Current := by
  unfold Client.submitOutsideWindow
  split_ifs
  · exact h
  · exact current_keptByLoop.trySubmitPending answers h

theorem Current.setupCodec (h : client.Current) (hsession : client.session.isSome = true) :
    client.setupCodec.Current := by
  refine ⟨fun _ => ?_, h.opened, h.distinct, h.early⟩
  obtain ⟨session, hs⟩ := Option.isSome_iff_exists.mp hsession
  simp [sessionReady, Client.setupCodec, hs]

theorem Current.onHandshakeCompleted (h : client.Current) (codec : Bool)
    (answers : List SubmitAnswer) : (client.onHandshakeCompleted codec answers).1.Current := by
  unfold Client.onHandshakeCompleted
  split_ifs with hskip
  · exact h
  · have hsession : client.session.isSome = true := by
      cases hs : client.session with
      | none => simp [hs] at hskip
      | some session => rfl
    exact (h.setupCodec hsession).submitOutsideWindow answers
  · exact h

theorem Current.onHandshakeConfirmed (h : client.Current) (answers : List SubmitAnswer) :
    (client.onHandshakeConfirmed answers).Current := by
  unfold Client.onHandshakeConfirmed
  dsimp only
  split_ifs
  · apply current_keptByLoop.trySubmitPending
    exact ⟨h.ready, h.opened, h.distinct, h.early⟩
  · exact ⟨h.ready, h.opened, h.distinct, h.early⟩

theorem Current.onStreamClose (h : client.Current) (streamId : ℤ) :
    (client.onStreamClose streamId).Current := by
  refine ⟨?_, ?_, ?_, h.early⟩
  · intro hready
    have hsession : client.sessionReady = true := h.ready hready
    cases hs : client.session with
    | none => simp [sessionReady, hs] at hsession
    | some session =>
      have : (session.onStreamClose streamId).ready = session.ready := by
        unfold Http3Session.onStreamClose
        split_ifs <;> rfl
      simpa [sessionReady, hs, Client.onStreamClose, this] using hsession
  · intro job hjob
    exact h.opened job (List.mem_of_mem_eraseP hjob)
  · exact h.distinct.sublist (List.eraseP_sublist.map _)

theorem Current.onEarlyDataRejected (h : client.Current) (early : client.connection.early = true) :
    client.forgetStreams.onEarlyDataRejected.Current := by
  have henabled : client.forgetStreams.earlyDataEnabled = true := h.early early
  unfold Client.onEarlyDataRejected
  rw [if_pos henabled]
  exact .of_active_nil nofun nofun rfl

/-! ### New connections -/

/-- What an attempt needs so that nothing of the connection before is left over. -/
def StartsClean (client : Client) : SetupResult → Prop
  | .unreachable => True
  | .failed _ => client.active = []
  | .ready early codec _ =>
    client.active = [] ∧ (client.http3Ready = true → early = true ∧ codec = true)

instance (client : Client) (result : SetupResult) : Decidable (client.StartsClean result) := by
  cases result <;> unfold StartsClean <;> infer_instance

theorem Current.setupConnection (h : client.Current) {result : SetupResult}
    (hclean : client.StartsClean result) : (client.setupConnection result).1.Current := by
  cases result with
  | unreachable => exact h
  | failed early =>
    refine .of_active_nil h.ready ?_ hclean
    intro hearly
    cases early with
    | none => cases hearly
    | some value => exact hearly
  | ready early codec answers =>
    obtain ⟨hactive, hready⟩ := hclean
    have hstarted : (if (early && codec) = true then
        (client.openSession early).setupCodec.submitOutsideWindow answers
        else client.openSession early).Current := by
      split_ifs with hboth
      · have hcodec : (client.openSession early).setupCodec.Current :=
          .of_active_nil (fun _ => rfl) (fun hearly => hearly) hactive
        exact hcodec.submitOutsideWindow answers
      · refine .of_active_nil ?_ (fun hearly => hearly) hactive
        intro hflag
        obtain ⟨rfl, rfl⟩ := hready hflag
        exact absurd rfl hboth
    exact ⟨hstarted.ready, hstarted.opened, hstarted.distinct, hstarted.early⟩

theorem active_eq_nil_of_canFailOver (h : client.canFailOverBeforeRequestCommit = true) :
    client.active = [] := by
  simp only [canFailOverBeforeRequestCommit, Bool.and_eq_true] at h
  simpa using h.1.2

theorem current_adoptHandshakeWinner (hactive : client.active = []) (adoption : Adoption)
    (hbuffered : adoption.codec = true → adoption.buffered = true) :
    (client.adoptHandshakeWinner adoption).1.Current := by
  have hcodec : (client.adoptedCodec adoption).Current := by
    have hset : (client.beginAdoption adoption.winner adoption.attempted).setupCodec.Current :=
      .of_active_nil (fun _ => rfl) nofun hactive
    unfold Client.adoptedCodec
    cases adoption.goaway with
    | none => exact hset
    | some streamId => exact hset.progress (onGoaway_progress _ streamId)
  rw [adoptHandshakeWinner_eq]
  split_ifs with hfailed hlost
  · exact .of_active_nil nofun nofun hactive
  · exact absurd (hbuffered (by simpa using hfailed)) (by simp [hlost])
  · apply Current.onHandshakeConfirmed
    exact ⟨hcodec.ready, hcodec.opened, hcodec.distinct, nofun⟩
  · exact hcodec

end Client

namespace Worker

variable {worker after : Worker}

/-- Nothing of an abandoned connection is left when the next one is set up. -/
def ResetsAttempts (worker : Worker) : WorkerStep → Prop
  | .adopt adoption => adoption.codec = true → adoption.buffered = true
  | .attempt result => worker.client.StartsClean result
  | _ => True

instance (worker : Worker) (i : WorkerStep) : Decidable (worker.ResetsAttempts i) := by
  unfold ResetsAttempts
  split <;> infer_instance

/-- The client's view is current, and no job is active between connections of
the raced path or before the first one. -/
structure Attempted (worker : Worker) : Prop where
  current : worker.client.Current
  quiet : worker.control = .idle ∨ worker.control = .resolving ∨ worker.control = .racing ∨
    worker.control = .retrying → worker.client.active = []

theorem EventEffect.current {client after : Client} {event : LoopEvent} (h : client.Current)
    (effect : EventEffect client event after) : after.Current := by
  cases effect with
  | unchanged event => exact h
  | completed codec answers => exact h.onHandshakeCompleted codec answers
  | recorded answers => exact ⟨h.ready, h.opened, h.distinct, nofun⟩
  | confirmed answers =>
    apply Client.Current.onHandshakeConfirmed
    exact ⟨h.ready, h.opened, h.distinct, nofun⟩
  | extended answers => exact Client.current_keptByLoop.trySubmitPending answers h
  | iterated answers => exact Client.current_keptByLoop.trySubmitPending answers h
  | closed streamId => exact h.onStreamClose streamId
  | rejected early => exact h.onEarlyDataRejected early
  | progressed event progress => exact h.progress progress

theorem Exits.current {client : Client} (h : client.Current) (exits : Exits client after) :
    after.client.Current := by
  cases exits with
  | kept error => exact ⟨h.ready, h.opened, h.distinct, h.early⟩
  | failed error => exact .of_active_nil h.ready h.early rfl

theorem Attempted.step {i : WorkerStep} (h : worker.Attempted) (hok : worker.ResetsAttempts i)
    (hstep : worker.step i = some after) : after.Attempted := by
  have hcurrent := h.current
  cases step_effect hstep with
  | submitted id request =>
    exact ⟨⟨hcurrent.ready, hcurrent.opened, hcurrent.distinct, hcurrent.early⟩, h.quiet⟩
  | cancelled id progress =>
    refine ⟨hcurrent.progress progress, fun hcontrol => ?_⟩
    have hactive := progress.active
    rw [h.quiet hcontrol] at hactive
    exact List.forall₂_nil_left_iff.mp hactive
  | stopped => exact ⟨⟨hcurrent.ready, hcurrent.opened, hcurrent.distinct, hcurrent.early⟩, h.quiet⟩
  | exited i exits => exact ⟨exits.current hcurrent, by simp [exits.control]⟩
  | moved i endpoints error control target =>
    refine ⟨⟨hcurrent.ready, hcurrent.opened, hcurrent.distinct, hcurrent.early⟩, fun _ => ?_⟩
    apply h.quiet
    tauto
  | adopted adoption control target =>
    have hactive := h.quiet (by simp [control])
    refine ⟨Client.current_adoptHandshakeWinner hactive adoption hok, ?_⟩
    rcases target with rfl | rfl <;> simp
  | attempted result idx control may target =>
    have hclean : worker.client.StartsClean result := hok
    have hset := hcurrent.setupConnection hclean
    refine ⟨⟨hset.ready, hset.opened, hset.distinct, hset.early⟩, ?_⟩
    rcases target with rfl | rfl <;> simp
  | restarted result rest control target =>
    have hactive := h.quiet (by simp [control])
    have hdiscarded : (Client.discardCurrentConnection
        { worker.client with precommitFallbackEndpoints := rest }).Current :=
      .of_active_nil nofun nofun hactive
    have hclean : (Client.discardCurrentConnection
        { worker.client with precommitFallbackEndpoints := rest }).StartsClean result := by
      cases result with
      | unreachable => trivial
      | failed early => exact hactive
      | ready early codec answers => exact ⟨hactive, nofun⟩
    refine ⟨hdiscarded.setupConnection hclean, fun hcontrol => ?_⟩
    rcases target with rfl | ⟨rfl, hfailed⟩
    · simp at hcontrol
    · exact (Client.setupConnection_active _ result hfailed).trans hactive
  | looped path event control effect =>
    refine ⟨EventEffect.current hcurrent effect, ?_⟩
    simp [control]
  | failedOver i path error control can =>
    refine ⟨⟨hcurrent.ready, hcurrent.opened, hcurrent.distinct, hcurrent.early⟩, fun _ => ?_⟩
    exact Client.active_eq_nil_of_canFailOver can
  | continued i idx error control =>
    exact ⟨⟨hcurrent.ready, hcurrent.opened, hcurrent.distinct, hcurrent.early⟩, by simp⟩

/-- In every reachable state of a run that resets between attempts, a client
that takes itself to be ready has a session with a codec, and its active jobs are
on different streams of the current connection. -/
theorem run_current {steps : List WorkerStep} (hrun : Transition.run step {} steps = some worker)
    (hok : Transition.Meets step ResetsAttempts {} steps) :
    (worker.client.http3Ready = true → worker.client.sessionReady = true) ∧
      (worker.client.active.map ClientJob.streamId).Nodup ∧
        ∀ job ∈ worker.client.active, job.openedOn = worker.client.connection.number ∧
          ∃ n < worker.client.connection.streams, job.streamId = 4 * n := by
  have hstart : Attempted {} := ⟨.of_active_nil nofun nofun rfl, fun _ => rfl⟩
  have h := Transition.run_invariant (fun _ _ _ hs hmeets hstep => hs.step hmeets hstep) hrun hok
    hstart
  exact ⟨h.current.ready, h.current.distinct, h.current.opened⟩

/-- No stream may be opened on the first connection, which is abandoned with its codec set up; the
second one has early data too, and the request is accepted on it. -/
def abandonedRun : List WorkerStep :=
  [.submit 1 bareGet, .start, .resolved [⟨[], 443, .inet⟩, ⟨[], 443, .inet6⟩] false .dns,
    .attempt (.ready true true [.blocked]), .fatal none none,
    .attempt (.ready true true [.accepted]), .event (.handshakeCompleted true [])]

theorem run_current_accepted :
    ∃ worker, Transition.run step {} abandonedRun = some worker ∧
      worker.client.connection.number = 2 ∧ worker.client.sessionReady = true ∧
      (∀ job ∈ worker.client.active, job.openedOn = 2) ∧
      (worker.client.active.map ClientJob.streamId).Nodup := by
  obtain ⟨worker, hrun, hnumber, hready⟩ : ∃ worker,
      Transition.run step {} abandonedRun = some worker ∧ worker.client.connection.number = 2 ∧
        worker.client.http3Ready = true := ⟨_, rfl, by decide +kernel, by decide +kernel⟩
  have h := run_current hrun (by decide +kernel)
  refine ⟨worker, hrun, hnumber, h.1 hready, fun job hjob => ?_, h.2.1⟩
  rw [← hnumber]
  exact (h.2.2 job hjob).1

/-- The second connection has no codec, and the job is on a stream of the first. -/
theorem run_stale_attempt :
    (¬∀ (steps : List WorkerStep) (worker : Worker), Transition.run step {} steps = some worker →
      worker.client.http3Ready = true → worker.client.sessionReady = true) ∧
      ¬∀ (steps : List WorkerStep) (worker : Worker), Transition.run step {} steps = some worker →
        ∀ job ∈ worker.client.active, job.openedOn = worker.client.connection.number := by
  obtain ⟨worker, hrun, hflag, hready, job, hjob, hopened⟩ : ∃ worker,
      Transition.run step {}
          (sequentialRun {} [⟨[], 443, .inet⟩, ⟨[], 443, .inet6⟩] ++
            [.fatal none none, .attempt (.ready false true [])]) = some worker ∧
        worker.client.http3Ready = true ∧ worker.client.sessionReady = false ∧
          ∃ job ∈ worker.client.active, job.openedOn ≠ worker.client.connection.number :=
    ⟨_, rfl, by decide +kernel, by decide +kernel, by decide +kernel⟩
  constructor
  · intro h
    exact absurd (h _ worker hrun hflag) (by simp [hready])
  · intro h
    exact hopened (h _ worker hrun job hjob)

end Worker

end KatHttp3
