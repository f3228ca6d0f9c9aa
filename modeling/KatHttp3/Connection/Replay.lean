import KatHttp3.Connection.Worker

/-!
# Requests that may not be replayed

A request that is not safe to replay waits for the handshake, and nghttp3
accepts it once in its lifetime, as long as a rejection of early data finds none
of them among the active jobs.
-/

namespace KatHttp3

namespace Client

/-- No two of the accepted submissions are of one job, unless both are of a
request that is safe to replay. -/
def SubmittedOnce (client : Client) : Prop :=
  client.accepted.Pairwise fun a b =>
    a.replaySafe = false ∨ b.replaySafe = false → a.handle ≠ b.handle

/-- What the jobs and the record of submissions have to do with each other. -/
structure Unrepeated (client : Client) : Prop where
  distinct : ((client.pending ++ client.active).map ClientJob.handle).Nodup
  handles : ∀ job ∈ client.pending ++ client.active, job.handle < client.jobs
  recorded : ∀ entry ∈ client.accepted, entry.handle < client.jobs
  kind : ∀ job ∈ client.pending ++ client.active, ∀ entry ∈ client.accepted,
    entry.handle = job.handle → entry.replaySafe = is0rttReplaySafe job.request
  waiting : ∀ job ∈ client.pending, job.cancelled = false →
    is0rttReplaySafe job.request = false → ∀ entry ∈ client.accepted, entry.handle ≠ job.handle
  once : client.SubmittedOnce
  held : ∀ entry ∈ client.accepted,
    entry.replaySafe = false → entry.earlyDataEnabled = true → entry.confirmed = true
  confirmed : client.handshakeConfirmed = true → client.connection.confirmed = true

variable {client : Client}

theorem Unrepeated.start : Unrepeated {} where
  distinct := List.nodup_nil
  handles _ hjob := absurd hjob List.not_mem_nil
  recorded _ hentry := absurd hentry List.not_mem_nil
  kind _ hjob := absurd hjob List.not_mem_nil
  waiting _ hjob := absurd hjob List.not_mem_nil
  once := List.Pairwise.nil
  held _ hentry := absurd hentry List.not_mem_nil
  confirmed hflag := absurd hflag Bool.false_ne_true

/-- Jobs may be dropped. -/
theorem Unrepeated.of_sublist {pending active : List ClientJob} (h : client.Unrepeated)
    (hpending : pending.Sublist client.pending) (hactive : active.Sublist client.active) :
    Unrepeated { client with pending := pending, active := active } := by
  have hsub : (pending ++ active).Sublist (client.pending ++ client.active) :=
    hpending.append hactive
  refine ⟨h.distinct.sublist (hsub.map _), ?_, h.recorded, ?_, ?_, h.once, h.held, h.confirmed⟩
  · exact fun job hjob => h.handles job (hsub.subset hjob)
  · exact fun job hjob => h.kind job (hsub.subset hjob)
  · exact fun job hjob => h.waiting job (hpending.subset hjob)

/-- Only the jobs, the record and what is confirmed matter. -/
theorem Unrepeated.of_same {after : Client} (h : client.Unrepeated)
    (hpending : after.pending = client.pending) (hactive : after.active = client.active)
    (hjobs : after.jobs = client.jobs) (haccepted : after.accepted = client.accepted)
    (hconfirmed : after.handshakeConfirmed = true → after.connection.confirmed = true) :
    after.Unrepeated := by
  refine ⟨?_, ?_, ?_, ?_, ?_, ?_, ?_, hconfirmed⟩
  · rw [hpending, hactive]
    exact h.distinct
  · rw [hpending, hactive, hjobs]
    exact h.handles
  · rw [hjobs, haccepted]
    exact h.recorded
  · rw [hpending, hactive, haccepted]
    exact h.kind
  · rw [hpending, haccepted]
    exact h.waiting
  · rw [SubmittedOnce, haccepted]
    exact h.once
  · rw [haccepted]
    exact h.held

theorem Unrepeated.progress {after : Client} (h : client.Unrepeated)
    (hp : client.Progress after) : after.Unrepeated := by
  have hkept := hp.kept
  have hall : List.Forall₂ ClientJob.Progress (client.pending ++ client.active)
      (after.pending ++ after.active) := List.rel_append hp.pending hp.active
  have haccepted : after.accepted = client.accepted := by rw [hkept]
  refine ⟨?_, ?_, ?_, ?_, ?_, ?_, ?_, ?_⟩
  · rw [map_eq_of_forall₂ hall fun _ _ hsame => hsame.handle]
    exact h.distinct
  · intro job hjob
    obtain ⟨before, hbefore, hsame⟩ := exists_of_mem_right hall hjob
    rw [hsame.handle, hkept]
    exact h.handles before hbefore
  · rw [hkept]
    exact h.recorded
  · intro job hjob
    obtain ⟨before, hbefore, hsame⟩ := exists_of_mem_right hall hjob
    rw [hsame.handle, hsame.request, haccepted]
    exact h.kind before hbefore
  · intro job hjob hlive
    obtain ⟨before, hbefore, hsame⟩ := exists_of_mem_right hp.pending hjob
    rw [hsame.handle, hsame.request, haccepted]
    apply h.waiting before hbefore
    by_contra hcancelled
    rw [hsame.cancelled (by simpa using hcancelled)] at hlive
    cases hlive
  · rw [hkept]
    exact h.once
  · rw [hkept]
    exact h.held
  · rw [hkept]
    exact h.confirmed

/-- Accepting the first pending job adds one entry to the record. -/
theorem Unrepeated.accept {job : ClientJob} {rest : List ClientJob}
    (hlive : job.cancelled = false) (hheld : client.holdsBack job = false)
    (h : Unrepeated { client with pending := job :: rest }) :
    Unrepeated { client.accept job with pending := rest } := by
  have hmem : job ∈ (job :: rest) ++ client.active := List.mem_append_left _ List.mem_cons_self
  have hperm : ((rest ++ (client.accept job).active).map ClientJob.handle).Perm
      (((job :: rest) ++ client.active).map ClientJob.handle) := by
    rw [Client.accept, List.map_append, List.map_append]
    simp only [List.cons_append, List.map_cons, List.map_append, List.map_nil]
    rw [← List.append_assoc]
    exact List.perm_append_comm
  have hdistinct : (job.handle :: (rest ++ client.active).map ClientJob.handle).Nodup := h.distinct
  have hnotin := (List.nodup_cons.mp hdistinct).1
  have hback : ∀ other ∈ rest ++ (client.accept job).active,
      ∃ before ∈ (job :: rest) ++ client.active,
        other.handle = before.handle ∧ other.request = before.request := by
    intro other hother
    rcases List.mem_append.mp hother with hrest | hactive
    · exact ⟨other, List.mem_append_left _ (List.mem_cons_of_mem _ hrest), rfl, rfl⟩
    · rcases List.mem_append.mp hactive with hold | hnew
      · exact ⟨other, List.mem_append_right _ hold, rfl, rfl⟩
      · obtain rfl := List.mem_singleton.mp hnew
        exact ⟨job, hmem, rfl, rfl⟩
  have hnew : ∀ entry ∈ client.accepted,
      entry.replaySafe = false ∨ is0rttReplaySafe job.request = false →
        entry.handle ≠ job.handle := by
    intro entry hentry hnotSafe heq
    have hkind := h.kind job hmem entry hentry heq
    have hjob : is0rttReplaySafe job.request = false := hnotSafe.elim (hkind ▸ ·) id
    exact h.waiting job List.mem_cons_self hlive hjob entry hentry heq
  refine ⟨hperm.nodup_iff.mpr h.distinct, ?_, ?_, ?_, ?_, ?_, ?_, h.confirmed⟩
  · intro other hother
    obtain ⟨before, hbefore, hhandle, _⟩ := hback other hother
    rw [hhandle]
    exact h.handles before hbefore
  · intro entry hentry
    rcases List.mem_append.mp hentry with hold | hadded
    · exact h.recorded entry hold
    · obtain rfl := List.mem_singleton.mp hadded
      exact h.handles job hmem
  · intro other hother entry hentry heq
    obtain ⟨before, hbefore, hhandle, hrequest⟩ := hback other hother
    rw [hhandle] at heq
    rw [hrequest]
    rcases List.mem_append.mp hentry with hold | hadded
    · exact h.kind before hbefore entry hold heq
    · obtain rfl := List.mem_singleton.mp hadded
      rw [List.inj_on_of_nodup_map h.distinct hmem hbefore heq]
  · intro other hother hcancelled hnotSafe entry hentry
    rcases List.mem_append.mp hentry with hold | hadded
    · exact h.waiting other (List.mem_cons_of_mem _ hother) hcancelled hnotSafe entry hold
    · obtain rfl := List.mem_singleton.mp hadded
      intro heq
      apply hnotin
      have hhandle : job.handle = other.handle := heq
      rw [hhandle]
      exact List.mem_map_of_mem (List.mem_append_left _ hother)
  · refine List.pairwise_append.mpr ⟨h.once, List.pairwise_singleton _ _, ?_⟩
    intro entry hentry added hadded
    obtain rfl := List.mem_singleton.mp hadded
    exact hnew entry hentry
  · intro entry hentry hnotSafe hearly
    rcases List.mem_append.mp hentry with hold | hadded
    · exact h.held entry hold hnotSafe hearly
    · obtain rfl := List.mem_singleton.mp hadded
      dsimp only at hnotSafe hearly
      simp only [holdsBack, hearly, hnotSafe, Bool.true_and, Bool.not_false, Bool.and_true,
        Bool.not_eq_false'] at hheld
      exact h.confirmed hheld

theorem unrepeated_keptByLoop : KeptByLoop Unrepeated where
  skip _ _ _ h := h.of_sublist (List.sublist_cons_self _ _) (List.Sublist.refl _)
  refuse _ _ _ h :=
    Unrepeated.of_same (h.of_sublist (List.sublist_cons_self _ _) (List.Sublist.refl _)) rfl rfl rfl
      rfl h.confirmed
  accept _ _ _ hlive hheld h := h.accept hlive hheld

theorem Unrepeated.submitOutsideWindow (h : client.Unrepeated) (answers : List SubmitAnswer) :
    (client.submitOutsideWindow answers).Unrepeated := by
  unfold Client.submitOutsideWindow
  split_ifs
  · exact h
  · exact unrepeated_keptByLoop.trySubmitPending answers h

theorem Unrepeated.setupCodec (h : client.Unrepeated) : client.setupCodec.Unrepeated :=
  h.of_same rfl rfl rfl rfl h.confirmed

theorem Unrepeated.onHandshakeCompleted (h : client.Unrepeated) (codec : Bool)
    (answers : List SubmitAnswer) : (client.onHandshakeCompleted codec answers).1.Unrepeated := by
  unfold Client.onHandshakeCompleted
  split_ifs
  · exact h
  · exact h.setupCodec.submitOutsideWindow answers
  · exact h

theorem Unrepeated.confirmConnection (h : client.Unrepeated) :
    client.confirmConnection.Unrepeated :=
  h.of_same rfl rfl rfl rfl fun _ => rfl

theorem Unrepeated.onHandshakeConfirmed (h : client.Unrepeated) (answers : List SubmitAnswer) :
    (client.confirmConnection.onHandshakeConfirmed answers).Unrepeated := by
  unfold Client.onHandshakeConfirmed
  dsimp only
  split_ifs
  · apply unrepeated_keptByLoop.trySubmitPending
    exact h.of_same rfl rfl rfl rfl fun _ => rfl
  · exact h.of_same rfl rfl rfl rfl fun _ => rfl

theorem Unrepeated.onStreamClose (h : client.Unrepeated) (streamId : ℤ) :
    (client.onStreamClose streamId).Unrepeated := by
  have herased := h.of_sublist (List.Sublist.refl client.pending)
    (List.eraseP_sublist (p := fun job => job.streamId == streamId))
  exact herased.of_same rfl rfl rfl rfl h.confirmed

/-- Early data is rejected with no job active that may not be replayed. -/
theorem Unrepeated.onEarlyDataRejected (h : client.Unrepeated)
    (hactive : client.earlyDataEnabled = true → ∀ job ∈ client.active,
      job.cancelled = true ∨ is0rttReplaySafe job.request = true) :
    client.forgetStreams.onEarlyDataRejected.Unrepeated := by
  unfold Client.onEarlyDataRejected
  split_ifs with henabled
  · have hmap : (client.pending ++ client.active.map ClientJob.withdraw).map ClientJob.handle =
        (client.pending ++ client.active).map ClientJob.handle := by
      rw [List.map_append, List.map_append, List.map_map]
      rfl
    have hback : ∀ job ∈ client.pending ++ client.active.map ClientJob.withdraw,
        ∃ before ∈ client.pending ++ client.active,
          job.handle = before.handle ∧ job.request = before.request := by
      intro job hjob
      rcases List.mem_append.mp hjob with hold | hmoved
      · exact ⟨job, List.mem_append_left _ hold, rfl, rfl⟩
      · obtain ⟨before, hbefore, rfl⟩ := List.mem_map.mp hmoved
        exact ⟨before, List.mem_append_right _ hbefore, rfl, rfl⟩
    refine ⟨?_, ?_, h.recorded, ?_, ?_, h.once, h.held, h.confirmed⟩
    · have hdistinct := h.distinct
      rw [← hmap] at hdistinct
      rw [List.append_nil]
      exact hdistinct
    · intro job hjob
      rw [List.append_nil] at hjob
      obtain ⟨before, hbefore, hhandle, _⟩ := hback job hjob
      rw [hhandle]
      exact h.handles before hbefore
    · intro job hjob
      rw [List.append_nil] at hjob
      obtain ⟨before, hbefore, hhandle, hrequest⟩ := hback job hjob
      rw [hhandle, hrequest]
      exact h.kind before hbefore
    · intro job hjob hlive hnotSafe
      rcases List.mem_append.mp hjob with hold | hmoved
      · exact h.waiting job hold hlive hnotSafe
      · obtain ⟨before, hbefore, rfl⟩ := List.mem_map.mp hmoved
        have hlive : before.cancelled = false := hlive
        have hnotSafe : is0rttReplaySafe before.request = false := hnotSafe
        rcases hactive henabled before hbefore with hcancelled | hsafe
        · exact absurd hcancelled (by simp [hlive])
        · exact absurd hsafe (by simp [hnotSafe])
  · exact h.of_same rfl rfl rfl rfl h.confirmed

theorem Unrepeated.setupConnection (h : client.Unrepeated)
    (hunconfirmed : client.handshakeConfirmed = false) (result : SetupResult) :
    (client.setupConnection result).1.Unrepeated := by
  cases result with
  | unreachable => exact h
  | failed early =>
    refine h.of_same rfl rfl rfl rfl ?_
    intro hconfirmed
    have hflag : client.handshakeConfirmed = true := hconfirmed
    exact absurd hflag (by simp [hunconfirmed])
  | ready early codec answers =>
    have hopened : (client.openSession early).Unrepeated := by
      refine h.of_same rfl rfl rfl rfl ?_
      intro hconfirmed
      have hflag : client.handshakeConfirmed = true := hconfirmed
      exact absurd hflag (by simp [hunconfirmed])
    have hstarted : (if (early && codec) = true then
        (client.openSession early).setupCodec.submitOutsideWindow answers
        else client.openSession early).Unrepeated := by
      split_ifs
      · exact hopened.setupCodec.submitOutsideWindow answers
      · exact hopened
    exact hstarted.of_same rfl rfl rfl rfl nofun

theorem Unrepeated.adoptHandshakeWinner (h : client.Unrepeated) (adoption : Adoption) :
    (client.adoptHandshakeWinner adoption).1.Unrepeated := by
  have hbegun : (client.beginAdoption adoption.winner adoption.attempted).Unrepeated :=
    h.of_same rfl rfl rfl rfl nofun
  have hcodec : (client.adoptedCodec adoption).Unrepeated := by
    unfold Client.adoptedCodec
    cases adoption.goaway with
    | none => exact hbegun.setupCodec
    | some streamId => exact hbegun.setupCodec.progress (onGoaway_progress _ streamId)
  rw [adoptHandshakeWinner_eq]
  split_ifs
  · exact hbegun.of_same rfl rfl rfl rfl hbegun.confirmed
  · exact hcodec.of_same rfl rfl rfl rfl hcodec.confirmed
  · exact hcodec.onHandshakeConfirmed adoption.answers
  · exact hcodec

theorem Unrepeated.submitJob (h : client.Unrepeated) (id : ℤ) (request : Request) :
    (client.submitJob id request).Unrepeated := by
  have hmem : ∀ job ∈ (client.submitJob id request).pending ++ client.active,
      job ∈ client.pending ++ client.active ∨ job.handle = client.jobs := by
    intro job hjob
    rcases List.mem_append.mp hjob with hpending | hactive
    · rcases List.mem_append.mp hpending with hold | hnew
      · exact .inl (List.mem_append_left _ hold)
      · obtain rfl := List.mem_singleton.mp hnew
        exact .inr rfl
    · exact .inl (List.mem_append_right _ hactive)
  refine ⟨?_, ?_, ?_, ?_, ?_, h.once, h.held, h.confirmed⟩
  · have hperm : (((client.submitJob id request).pending ++ client.active).map
        ClientJob.handle).Perm (client.jobs :: (client.pending ++ client.active).map
          ClientJob.handle) := by
      simp only [Client.submitJob, List.map_append, List.map_cons, List.append_assoc,
        List.cons_append, List.nil_append]
      exact List.perm_middle
    refine hperm.nodup_iff.mpr (List.nodup_cons.mpr ⟨?_, h.distinct⟩)
    intro hin
    obtain ⟨job, hjob, heq⟩ := List.mem_map.mp hin
    exact absurd (h.handles job hjob) (by omega)
  · intro job hjob
    rcases hmem job hjob with hold | hnew
    · exact Nat.lt_succ_of_lt (h.handles job hold)
    · exact hnew ▸ Nat.lt_succ_self _
  · exact fun entry hentry => Nat.lt_succ_of_lt (h.recorded entry hentry)
  · intro job hjob entry hentry heq
    rcases hmem job hjob with hold | hnew
    · exact h.kind job hold entry hentry heq
    · exact absurd (h.recorded entry hentry) (by omega)
  · intro job hjob hlive hnotSafe entry hentry
    rcases List.mem_append.mp hjob with hold | hnew
    · exact h.waiting job hold hlive hnotSafe entry hentry
    · obtain rfl := List.mem_singleton.mp hnew
      have := h.recorded entry hentry
      dsimp only
      omega

end Client

namespace Worker

variable {worker after : Worker}

/-- When early data is rejected, every active job is cancelled or safe to replay. -/
def RejectsReplayable (worker : Worker) : WorkerStep → Prop
  | .event .earlyDataRejected =>
    worker.client.connection.early = true → worker.client.earlyDataEnabled = true →
      ∀ job ∈ worker.client.active, job.cancelled = true ∨ is0rttReplaySafe job.request = true
  | _ => True

instance (worker : Worker) (i : WorkerStep) : Decidable (worker.RejectsReplayable i) := by
  unfold RejectsReplayable
  split <;> infer_instance

theorem EventEffect.unrepeated {client after : Client} {event : LoopEvent} (h : client.Unrepeated)
    (hok : event = .earlyDataRejected → client.connection.early = true →
      client.earlyDataEnabled = true → ∀ job ∈ client.active,
        job.cancelled = true ∨ is0rttReplaySafe job.request = true)
    (effect : EventEffect client event after) : after.Unrepeated := by
  cases effect with
  | unchanged event => exact h
  | completed codec answers => exact h.onHandshakeCompleted codec answers
  | recorded answers => exact h.confirmConnection
  | confirmed answers => exact h.onHandshakeConfirmed answers
  | extended answers => exact Client.unrepeated_keptByLoop.trySubmitPending answers h
  | iterated answers => exact Client.unrepeated_keptByLoop.trySubmitPending answers h
  | closed streamId => exact h.onStreamClose streamId
  | rejected early => exact h.onEarlyDataRejected (hok rfl early)
  | progressed event progress => exact h.progress progress

theorem Exits.unrepeated {client : Client} (h : client.Unrepeated) (exits : Exits client after) :
    after.client.Unrepeated := by
  cases exits with
  | kept error => exact h.of_same rfl rfl rfl rfl h.confirmed
  | failed error =>
    exact (h.of_sublist (List.nil_sublist _) (List.nil_sublist _)).of_same rfl rfl rfl rfl h.confirmed

theorem unrepeated_step {i : WorkerStep} (h : worker.client.Unrepeated)
    (hok : worker.RejectsReplayable i) (hstep : worker.step i = some after) :
    after.client.Unrepeated := by
  cases step_effect hstep with
  | submitted id request => exact h.submitJob id request
  | cancelled id progress => exact h.progress progress
  | stopped => exact h.of_same rfl rfl rfl rfl h.confirmed
  | exited i exits => exact exits.unrepeated h
  | moved i endpoints error control target => exact h.of_same rfl rfl rfl rfl h.confirmed
  | adopted adoption control target => exact h.adoptHandshakeWinner adoption
  | attempted result idx control may target =>
    have hunconfirmed : worker.client.handshakeConfirmed = false := by
      simp only [mayAttempt, Bool.and_eq_true, Bool.not_eq_true'] at may
      exact may.2
    have hset := h.setupConnection hunconfirmed result
    exact hset.of_same rfl rfl rfl rfl hset.confirmed
  | restarted result rest control target =>
    have hdiscarded : (Client.discardCurrentConnection
        { worker.client with precommitFallbackEndpoints := rest }).Unrepeated :=
      h.of_same rfl rfl rfl rfl nofun
    exact hdiscarded.setupConnection rfl result
  | looped path event control effect =>
    refine EventEffect.unrepeated h ?_ effect
    rintro rfl
    exact hok
  | failedOver i path error control can => exact h.of_same rfl rfl rfl rfl h.confirmed
  | continued i idx error control => exact h.of_same rfl rfl rfl rfl h.confirmed

/-- In every run in which early data is rejected only while all active jobs may
be replayed, no request that may not is accepted twice, nor before the handshake
is confirmed while early data is enabled. -/
theorem run_submittedOnce {steps : List WorkerStep}
    (hrun : Transition.run step {} steps = some worker)
    (hok : Transition.Meets step RejectsReplayable {} steps) :
    worker.client.SubmittedOnce ∧
      ∀ entry ∈ worker.client.accepted, entry.replaySafe = false →
        ¬(entry.earlyDataEnabled = true ∧ entry.confirmed = false) := by
  have h : worker.client.Unrepeated :=
    Transition.run_invariant (fun _ _ _ hs hmeets hstep => unrepeated_step hs hmeets hstep) hrun hok
      Client.Unrepeated.start
  refine ⟨h.once, ?_⟩
  rintro entry hentry hnotSafe ⟨hearly, hunconfirmed⟩
  rw [h.held entry hentry hnotSafe hearly] at hunconfirmed
  cases hunconfirmed

/-- A GET is accepted as early data of the first attempt, which fails, and a POST has to wait; the
second attempt rejects early data, and its handshake lets both through. -/
def rejectedRun : List WorkerStep :=
  [.submit 1 bareGet, .submit 2 { method := "POST".toList }, .start,
    .resolved [⟨[], 443, .inet⟩, ⟨[], 443, .inet6⟩] false .dns,
    .attempt (.ready true true [.accepted, .accepted]), .fatal none none,
    .attempt (.ready true true [.accepted]), .event .earlyDataRejected,
    .event (.handshakeCompleted true [.accepted, .accepted])]

theorem run_submittedOnce_accepted :
    ∃ worker, Transition.run step {} rejectedRun = some worker ∧
      worker.client.accepted =
        [⟨0, true, true, false⟩, ⟨1, false, false, false⟩, ⟨0, true, false, false⟩] ∧
      worker.client.SubmittedOnce := by
  obtain ⟨worker, hrun, haccepted⟩ : ∃ worker, Transition.run step {} rejectedRun = some worker ∧
      worker.client.accepted =
        [⟨0, true, true, false⟩, ⟨1, false, false, false⟩, ⟨0, true, false, false⟩] :=
    ⟨_, rfl, by decide +kernel⟩
  exact ⟨worker, hrun, haccepted, (run_submittedOnce hrun (by decide +kernel)).1⟩

/-- A POST is accepted on the first endpoint, which fails; the second one rejects
early data, and the POST is accepted again. -/
theorem run_submitted_twice :
    ¬∀ (steps : List WorkerStep) (worker : Worker), Transition.run step {} steps = some worker →
      worker.client.SubmittedOnce := by
  intro h
  obtain ⟨worker, hrun, haccepted⟩ : ∃ worker,
      Transition.run step {}
          (sequentialRun { method := "POST".toList } [⟨[], 443, .inet⟩, ⟨[], 443, .inet6⟩] ++
            [.fatal none none, .attempt (.ready true true []), .event .earlyDataRejected,
              .event (.handshakeCompleted true [.accepted])]) = some worker ∧
        worker.client.accepted = [⟨0, false, false, false⟩, ⟨0, false, false, false⟩] :=
    ⟨_, rfl, by decide +kernel⟩
  have honce := h _ worker hrun
  rw [Client.SubmittedOnce, haccepted] at honce
  exact absurd honce (by decide)

end Worker

end KatHttp3
