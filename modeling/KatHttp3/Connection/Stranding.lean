import KatHttp3.Connection.Notices

/-!
# Stranded requests

No request is forgotten when its worker returns or its client is destroyed, as
long as jobs come before the worker begins to end, a worker that returns without
`fail_all_pending` has only requests that are over, and a closed stream takes the
job with it that its session knows.
-/

namespace KatHttp3

/-- Every job is told or still held, and the held ones that are over are told. -/
structure Client.Accounted (client : Client) (told : ℕ → Prop) : Prop where
  bound : ∀ job ∈ client.held, job.handle < client.jobs
  kept : ∀ handle < client.jobs, told handle ∨ ∃ job ∈ client.held, job.handle = handle
  ended : ∀ job ∈ client.held, job.isOver = true → told job.handle

namespace Client

variable {client after : Client} {told told' : ℕ → Prop}

theorem accounted_initial (told : ℕ → Prop) : ({} : Client).Accounted told := by
  refine ⟨?_, ?_, ?_⟩
  · exact fun job hjob => absurd hjob List.not_mem_nil
  · exact fun handle hlt => absurd hlt (Nat.not_lt_zero handle)
  · exact fun job hjob => absurd hjob List.not_mem_nil

theorem Accounted.mono (h : client.Accounted told) (himp : ∀ handle, told handle → told' handle) :
    client.Accounted told' :=
  ⟨h.bound, fun handle hlt => (h.kept handle hlt).imp_left (himp handle),
    fun job hjob hover => himp _ (h.ended job hjob hover)⟩

/-- Every job of which nothing is told stays, perhaps changed, and a change that makes a
job be over is told. -/
theorem Accounted.change (h : client.Accounted told) (hjobs : after.jobs = client.jobs)
    (hstay : ∀ job ∈ client.held, told job.handle ∨ ∃ job' ∈ after.held, job'.handle = job.handle)
    (hchange : ∀ job' ∈ after.held, ∃ job ∈ client.held, job.handle = job'.handle ∧
      (job'.isOver = true → job.isOver = true ∨ told job.handle)) : after.Accounted told := by
  refine ⟨?_, ?_, ?_⟩
  · intro job' hjob'
    obtain ⟨job, hjob, heq, -⟩ := hchange job' hjob'
    rw [hjobs, ← heq]
    exact h.bound job hjob
  · intro handle hlt
    rw [hjobs] at hlt
    rcases h.kept handle hlt with htold | ⟨job, hjob, rfl⟩
    · exact Or.inl htold
    · exact hstay job hjob
  · intro job' hjob' hover
    obtain ⟨job, hjob, heq, himp⟩ := hchange job' hjob'
    rw [← heq]
    exact (himp hover).elim (h.ended job hjob) id

/-- A job leaves that is told. -/
theorem Accounted.drop (h : client.Accounted told) (hjobs : after.jobs = client.jobs)
    (hsub : ∀ job ∈ after.held, job ∈ client.held)
    (hgone : ∀ job ∈ client.held, job ∈ after.held ∨ told job.handle) : after.Accounted told := by
  apply h.change hjobs
  · intro job hjob
    exact (hgone job hjob).symm.imp_right fun hmem => ⟨job, hmem, rfl⟩
  · exact fun job hjob => ⟨job, hsub job hjob, rfl, Or.inl⟩

/-- A job is changed in its place. -/
theorem Accounted.map (h : client.Accounted told) (hjobs : after.jobs = client.jobs)
    {f g : ClientJob → ClientJob} (hpending : after.pending = client.pending.map f)
    (hactive : after.active = client.active.map g)
    (hf : ∀ job ∈ client.pending, (f job).handle = job.handle ∧
      ((f job).isOver = true → job.isOver = true ∨ told job.handle))
    (hg : ∀ job ∈ client.active, (g job).handle = job.handle ∧
      ((g job).isOver = true → job.isOver = true ∨ told job.handle)) : after.Accounted told := by
  have hheld : after.held = client.pending.map f ++ client.active.map g := by
    rw [held, hpending, hactive]
  apply h.change hjobs
  · intro job hjob
    right
    rw [hheld]
    rcases List.mem_append.mp hjob with hmem | hmem
    · exact ⟨f job, List.mem_append_left _ (List.mem_map_of_mem hmem), (hf job hmem).1⟩
    · exact ⟨g job, List.mem_append_right _ (List.mem_map_of_mem hmem), (hg job hmem).1⟩
  · intro job' hjob'
    rw [hheld] at hjob'
    rcases List.mem_append.mp hjob' with hmem | hmem
    · obtain ⟨job, hjob, rfl⟩ := List.mem_map.mp hmem
      exact ⟨job, List.mem_append_left _ hjob, (hf job hjob).1.symm, (hf job hjob).2⟩
    · obtain ⟨job, hjob, rfl⟩ := List.mem_map.mp hmem
      exact ⟨job, List.mem_append_right _ hjob, (hg job hjob).1.symm, (hg job hjob).2⟩

/-! ### The submission loop -/

theorem Accounted.submitLoop {jobs : List ClientJob} {answers : List SubmitAnswer}
    (h : Accounted { client with pending := jobs } told)
    (hreports : ∀ handle ∈ submitReports jobs answers client, told handle) :
    (submitLoop jobs answers client).Accounted told := by
  induction jobs generalizing answers client with
  | nil => exact h
  | cons job rest ih =>
    have hskip : told job.handle → Accounted { client with pending := rest } told := by
      intro htold
      apply h.drop
      · rfl
      · exact fun other hother => List.mem_cons_of_mem job hother
      · intro other hother
        rcases List.mem_cons.mp hother with rfl | hmem
        · exact Or.inr htold
        · exact Or.inl hmem
    unfold Client.submitLoop
    unfold submitReports at hreports
    split_ifs at hreports ⊢ with hcancelled hheld
    · apply ih (hskip _) hreports
      apply h.ended job List.mem_cons_self
      simp [ClientJob.isOver, hcancelled]
    · exact h
    · split
      · exact h
      · exact h
      · apply ih (hskip (hreports _ List.mem_cons_self))
        exact fun handle hhandle => hreports handle (List.mem_cons_of_mem _ hhandle)
      · have hrest := hskip (hreports _ List.mem_cons_self)
        have hopened : Accounted { client.openBidiStream with pending := rest } told :=
          ⟨hrest.bound, hrest.kept, hrest.ended⟩
        apply ih hopened
        exact fun handle hhandle => hreports handle (List.mem_cons_of_mem _ hhandle)
      · apply ih _ hreports
        apply h.change
        · rfl
        · intro other hother
          right
          rcases List.mem_cons.mp hother with rfl | hmem
          · refine ⟨_, List.mem_append_right _ (List.mem_append_right _ (List.mem_singleton_self _)), ?_⟩
            rfl
          · rcases List.mem_append.mp hmem with hmem | hmem
            · exact ⟨other, List.mem_append_left _ hmem, rfl⟩
            · exact ⟨other, List.mem_append_right _ (List.mem_append_left _ hmem), rfl⟩
        · intro other hother
          rcases List.mem_append.mp hother with hmem | hmem
          · exact ⟨other, List.mem_cons_of_mem _ (List.mem_append_left _ hmem), rfl, Or.inl⟩
          · rcases List.mem_append.mp hmem with hmem | hmem
            · exact ⟨other, List.mem_cons_of_mem _ (List.mem_append_right _ hmem), rfl, Or.inl⟩
            · obtain rfl := List.mem_singleton.mp hmem
              exact ⟨job, List.mem_cons_self, rfl, Or.inl⟩

theorem Accounted.trySubmitPending (h : client.Accounted told) {answers : List SubmitAnswer}
    (hreports : ∀ handle ∈ client.trySubmitReports answers, told handle) :
    (client.trySubmitPending answers).Accounted told := by
  unfold Client.trySubmitPending
  unfold trySubmitReports at hreports
  split_ifs at hreports ⊢
  · exact h
  · exact Accounted.submitLoop h hreports

theorem Accounted.submitOutsideWindow (h : client.Accounted told) {answers : List SubmitAnswer}
    (hreports : ∀ handle ∈ client.submitOutsideWindowReports answers, told handle) :
    (client.submitOutsideWindow answers).Accounted told := by
  unfold Client.submitOutsideWindow
  unfold submitOutsideWindowReports at hreports
  split_ifs at hreports ⊢
  · exact h
  · exact h.trySubmitPending hreports

/-! ### Callbacks -/

theorem Accounted.onHandshakeCompleted (h : client.Accounted told) {codec : Bool}
    {answers : List SubmitAnswer}
    (hreports : ∀ handle ∈ client.handshakeCompletedReports codec answers, told handle) :
    (client.onHandshakeCompleted codec answers).1.Accounted told := by
  unfold Client.onHandshakeCompleted
  unfold handshakeCompletedReports at hreports
  split_ifs at hreports ⊢
  · exact h
  · apply Accounted.submitOutsideWindow _ hreports
    exact ⟨h.bound, h.kept, h.ended⟩
  · exact h

theorem Accounted.onHandshakeConfirmed (h : client.Accounted told) {answers : List SubmitAnswer}
    (hreports : ∀ handle ∈ client.handshakeConfirmedReports answers, told handle) :
    (client.onHandshakeConfirmed answers).Accounted told := by
  unfold Client.onHandshakeConfirmed
  unfold handshakeConfirmedReports at hreports
  dsimp only at hreports ⊢
  split_ifs at hreports ⊢
  · apply Accounted.trySubmitPending _ hreports
    exact ⟨h.bound, h.kept, h.ended⟩
  · exact ⟨h.bound, h.kept, h.ended⟩

theorem find?_of_mem_of_notMem_eraseP {α : Type*} {p : α → Bool} {a : α} {l : List α}
    (hmem : a ∈ l) (hnot : a ∉ l.eraseP p) : l.find? p = some a := by
  induction l with
  | nil => cases hmem
  | cons b l ih =>
    by_cases hb : p b = true
    · rw [List.eraseP_cons_of_pos hb] at hnot
      rw [List.find?_cons_of_pos hb]
      rcases List.mem_cons.mp hmem with rfl | hmem
      · rfl
      · exact absurd hmem hnot
    · rw [List.eraseP_cons_of_neg hb] at hnot
      rw [List.find?_cons_of_neg hb]
      rcases List.mem_cons.mp hmem with rfl | hmem
      · exact absurd List.mem_cons_self hnot
      · exact ih hmem fun h => hnot (List.mem_cons_of_mem b h)

/-- The job that leaves with its stream is over, or the one that the session knows. -/
theorem Accounted.onStreamClose (h : client.Accounted told) {streamId : ℤ}
    (hfound : ∀ job, client.active.find? (fun job => job.streamId == streamId) = some job →
      job.isOver = true ∨ client.closes streamId = some job.handle)
    (hreports : ∀ handle ∈ client.streamCloseReports streamId, told handle) :
    (client.onStreamClose streamId).Accounted told := by
  apply h.drop
  · rfl
  · intro job hjob
    rcases List.mem_append.mp hjob with hmem | hmem
    · exact List.mem_append_left _ hmem
    · exact List.mem_append_right _ (List.mem_of_mem_eraseP hmem)
  · intro job hjob
    rcases List.mem_append.mp hjob with hmem | hmem
    · exact Or.inl (List.mem_append_left _ hmem)
    by_cases hclosed : job ∈ client.active.eraseP fun job => job.streamId == streamId
    · exact Or.inl (List.mem_append_right _ hclosed)
    right
    rcases hfound job (find?_of_mem_of_notMem_eraseP hmem hclosed) with hover | hknown
    · exact h.ended job hjob hover
    · by_cases hcompleted : (client.held.any fun other =>
          other.handle == job.handle && other.completed) = true
      · obtain ⟨other, hother, hboth⟩ := List.any_eq_true.mp hcompleted
        simp only [Bool.and_eq_true, beq_iff_eq] at hboth
        rw [← hboth.1]
        exact h.ended other hother (by simp [ClientJob.isOver, hboth.2])
      · apply hreports
        simp [streamCloseReports, hknown, hcompleted]

theorem Accounted.onGoaway (h : client.Accounted told) {streamId : Option ℤ}
    (hreports : ∀ handle ∈ client.goawayReports streamId, told handle) :
    (client.onGoaway streamId).Accounted told := by
  refine h.map rfl (List.map_id _).symm rfl (fun job _ => ⟨rfl, Or.inl⟩) fun job hjob => ?_
  split_ifs with hrejected
  · refine ⟨rfl, fun _ => Or.inr (hreports _ ?_)⟩
    exact List.mem_map_of_mem (List.mem_filter.mpr ⟨hjob, hrejected⟩)
  · exact ⟨rfl, Or.inl⟩

theorem Accounted.onEarlyDataRejected (h : client.Accounted told) :
    client.onEarlyDataRejected.Accounted told := by
  unfold Client.onEarlyDataRejected
  split_ifs
  · apply h.change
    · rfl
    · intro job hjob
      right
      rcases List.mem_append.mp hjob with hmem | hmem
      · exact ⟨job, List.mem_append_left _ (List.mem_append_left _ hmem), rfl⟩
      · exact ⟨job.withdraw, List.mem_append_left _ (List.mem_append_right _
          (List.mem_map_of_mem hmem)), rfl⟩
    · intro job' hjob'
      rcases List.mem_append.mp hjob' with hmem | hmem
      · rcases List.mem_append.mp hmem with hmem | hmem
        · exact ⟨job', List.mem_append_left _ hmem, rfl, Or.inl⟩
        · obtain ⟨job, hjob, rfl⟩ := List.mem_map.mp hmem
          exact ⟨job, List.mem_append_right _ hjob, rfl, Or.inl⟩
      · cases hmem
  · exact h

theorem Accounted.update (h : client.Accounted told) {handle : ℕ} {f : ClientJob → ClientJob}
    (hf : ∀ job, job.handle = handle → (f job).handle = job.handle ∧
      ((f job).isOver = true → job.isOver = true ∨ told job.handle)) :
    (client.update handle f).Accounted told := by
  have hchange : ∀ job : ClientJob, (if job.handle = handle then f job else job).handle = job.handle ∧
      ((if job.handle = handle then f job else job).isOver = true →
        job.isOver = true ∨ told job.handle) := by
    intro job
    split_ifs with heq
    · exact hf job heq
    · exact ⟨rfl, Or.inl⟩
  exact h.map rfl rfl rfl (fun job _ => hchange job) fun job _ => hchange job

theorem Accounted.onEndStream (h : client.Accounted told) {streamId : ℤ}
    (hreports : ∀ handle ∈ client.endStreamReports streamId, told handle) :
    (client.onEndStream streamId).Accounted told := by
  unfold Client.onEndStream
  split
  · exact h
  · next handle hfound =>
    apply h.update
    intro job heq
    refine ⟨rfl, fun _ => Or.inr ?_⟩
    rw [heq]
    apply hreports
    simp [endStreamReports, hfound]

theorem Accounted.onDataRead (h : client.Accounted told) (streamId : ℤ) (offered : ℕ) :
    (client.onDataRead streamId offered).Accounted told := by
  unfold Client.onDataRead
  split
  · exact h
  · exact h.update fun job _ => ⟨rfl, Or.inl⟩

theorem Accounted.expireRequests (h : client.Accounted told) {expired : List ℕ}
    (hreports : ∀ handle ∈ client.expireReports expired, told handle) (draining : Bool) :
    (client.expireRequests expired draining).Accounted told := by
  have hexpire : ∀ job ∈ client.held,
      (if job.handle ∈ expired then { job with cancelled := true } else job).handle = job.handle ∧
        ((if job.handle ∈ expired then { job with cancelled := true } else job).isOver = true →
          job.isOver = true ∨ told job.handle) := by
    intro job hjob
    split_ifs with hmem
    · refine ⟨rfl, fun _ => ?_⟩
      by_cases hcancelled : job.cancelled = true
      · exact Or.inl (by simp [ClientJob.isOver, hcancelled])
      · right
        apply hreports
        apply List.mem_map_of_mem
        exact List.mem_filter.mpr ⟨hjob, by simp [hmem, hcancelled]⟩
    · exact ⟨rfl, Or.inl⟩
  exact h.map rfl rfl rfl (fun job hjob => hexpire job (List.mem_append_left _ hjob))
    fun job hjob => hexpire job (List.mem_append_right _ hjob)

/-! ### Calls from other threads -/

theorem Accounted.submitJob (h : client.Accounted told) (id : ℤ) (request : Request) :
    (client.submitJob id request).Accounted told := by
  refine ⟨?_, ?_, ?_⟩
  · intro job hjob
    rcases List.mem_append.mp hjob with hmem | hmem
    · rcases List.mem_append.mp hmem with hmem | hmem
      · exact Nat.lt_succ_of_lt (h.bound job (List.mem_append_left _ hmem))
      · obtain rfl := List.mem_singleton.mp hmem
        exact Nat.lt_succ_self _
    · exact Nat.lt_succ_of_lt (h.bound job (List.mem_append_right _ hmem))
  · intro handle hlt
    rcases Nat.lt_succ_iff_lt_or_eq.mp hlt with hold | rfl
    · apply (h.kept handle hold).imp_right
      rintro ⟨job, hjob, heq⟩
      refine ⟨job, ?_, heq⟩
      rcases List.mem_append.mp hjob with hmem | hmem
      · exact List.mem_append_left _ (List.mem_append_left _ hmem)
      · exact List.mem_append_right _ hmem
    · right
      exact ⟨_, List.mem_append_left _ (List.mem_append_right _ (List.mem_singleton_self _)), rfl⟩
  · intro job hjob hover
    rcases List.mem_append.mp hjob with hmem | hmem
    · rcases List.mem_append.mp hmem with hmem | hmem
      · exact h.ended job (List.mem_append_left _ hmem) hover
      · obtain rfl := List.mem_singleton.mp hmem
        cases hover
    · exact h.ended job (List.mem_append_right _ hmem) hover

theorem mem_cancelFirst {id : ℤ} {jobs : List ClientJob} {job : ClientJob}
    (h : job ∈ cancelFirst id jobs) :
    job ∈ jobs ∨ ∃ first, jobs.find? (·.id == id) = some first ∧ first.handle = job.handle := by
  induction jobs with
  | nil => cases h
  | cons first rest ih =>
    unfold cancelFirst at h
    split_ifs at h with hid
    · rcases List.mem_cons.mp h with rfl | hmem
      · exact Or.inr ⟨first, by simp [hid], rfl⟩
      · exact Or.inl (List.mem_cons_of_mem _ hmem)
    · rcases List.mem_cons.mp h with rfl | hmem
      · exact Or.inl List.mem_cons_self
      · have hfind : (first :: rest).find? (·.id == id) = rest.find? (·.id == id) :=
          List.find?_cons_of_neg (by simpa using hid)
        rw [hfind]
        exact (ih hmem).imp_left (List.mem_cons_of_mem _)

theorem Accounted.cancelJob (h : client.Accounted told) {id : ℤ}
    (htold : ∀ handle ∈ client.cancelTarget id, told handle) :
    (client.cancelJob id).Accounted told := by
  have hprogress := client.cancelJob_progress id
  apply h.change
  · rw [hprogress.kept]
  · intro job hjob
    right
    rcases List.mem_append.mp hjob with hmem | hmem
    · obtain ⟨job', hmem', hp⟩ := exists_of_mem_left hprogress.pending hmem
      exact ⟨job', List.mem_append_left _ hmem', hp.handle⟩
    · obtain ⟨job', hmem', hp⟩ := exists_of_mem_left hprogress.active hmem
      exact ⟨job', List.mem_append_right _ hmem', hp.handle⟩
  · intro job' hjob'
    suffices hfrom : job' ∈ client.held ∨
        ∃ first ∈ client.held, client.cancelTarget id = some first.handle ∧
          first.handle = job'.handle by
      rcases hfrom with hsame | ⟨first, hmem, htarget, heq⟩
      · exact ⟨job', hsame, rfl, Or.inl⟩
      · exact ⟨first, hmem, heq, fun _ => Or.inr (htold _ htarget)⟩
    unfold Client.cancelJob at hjob'
    split_ifs at hjob' with hpending
    · rcases List.mem_append.mp hjob' with hmem | hmem
      · rcases mem_cancelFirst hmem with hold | ⟨first, hfind, heq⟩
        · exact Or.inl (List.mem_append_left _ hold)
        · exact Or.inr ⟨first, List.mem_append_left _ (List.mem_of_find?_eq_some hfind),
            by simp [cancelTarget, hfind], heq⟩
      · exact Or.inl (List.mem_append_right _ hmem)
    · have hnone : client.pending.find? (·.id == id) = none := by
        simpa using hpending
      rcases List.mem_append.mp hjob' with hmem | hmem
      · exact Or.inl (List.mem_append_left _ hmem)
      · rcases mem_cancelFirst hmem with hold | ⟨first, hfind, heq⟩
        · exact Or.inl (List.mem_append_right _ hold)
        · exact Or.inr ⟨first, List.mem_append_right _ (List.mem_of_find?_eq_some hfind),
            by simp [cancelTarget, hnone, hfind], heq⟩

/-! ### Connections -/

theorem failAllPending_eq_self (client : Client) (h : client.held = []) :
    client.failAllPending = client := by
  obtain ⟨hpending, hactive⟩ := List.append_eq_nil_iff.mp h
  unfold failAllPending
  cases client
  cases hpending
  cases hactive
  rfl

theorem Accounted.setupConnection (h : client.Accounted told) {result : SetupResult}
    (hreports : ∀ handle ∈ client.setupConnectionReports result, told handle) :
    (client.setupConnection result).1.Accounted told := by
  cases result with
  | unreachable => exact h
  | failed early => exact ⟨h.bound, h.kept, h.ended⟩
  | ready early codec answers =>
    have hstarted : (if (early && codec) = true then
        (client.openSession early).setupCodec.submitOutsideWindow answers
        else client.openSession early).Accounted told := by
      unfold setupConnectionReports at hreports
      dsimp only at hreports
      split_ifs at hreports ⊢
      · apply Accounted.submitOutsideWindow _ hreports
        exact ⟨h.bound, h.kept, h.ended⟩
      · exact ⟨h.bound, h.kept, h.ended⟩
    exact ⟨hstarted.bound, hstarted.kept, hstarted.ended⟩

theorem Accounted.adoptHandshakeWinner (h : client.Accounted told) {adoption : Adoption}
    (hreports : ∀ handle ∈ client.adoptReports adoption, told handle) :
    (client.adoptHandshakeWinner adoption).1.Accounted told := by
  have hbegun : (client.beginAdoption adoption.winner adoption.attempted).Accounted told :=
    ⟨h.bound, h.kept, h.ended⟩
  have hcompleted : ((client.beginAdoption adoption.winner
      adoption.attempted).onHandshakeCompleted adoption.codec []).1.Accounted told := by
    apply hbegun.onHandshakeCompleted
    -- the window is open, so nothing is submitted
    simp [handshakeCompletedReports, submitOutsideWindowReports, beginAdoption, Client.setupCodec]
  unfold Client.adoptHandshakeWinner
  unfold adoptReports at hreports
  obtain ⟨⟨completed, ready⟩, heq⟩ : ∃ result, (client.beginAdoption adoption.winner
    adoption.attempted).onHandshakeCompleted adoption.codec [] = result := ⟨_, rfl⟩
  rw [heq] at hcompleted hreports ⊢
  cases ready with
  | false => exact ⟨hcompleted.bound, hcompleted.kept, hcompleted.ended⟩
  | true =>
    have hgoaway : (adoption.goaway.elim completed completed.onGoaway).Accounted told := by
      cases hg : adoption.goaway with
      | none => exact hcompleted
      | some streamId =>
        apply hcompleted.onGoaway
        intro handle hhandle
        apply hreports
        rw [hg]
        exact List.mem_append_left _ hhandle
    dsimp only
    split_ifs with hbuffered hconfirmed
    · exact ⟨hgoaway.bound, hgoaway.kept, hgoaway.ended⟩
    · have hconfirm :
          (adoption.goaway.elim completed completed.onGoaway).confirmConnection.Accounted told :=
        ⟨hgoaway.bound, hgoaway.kept, hgoaway.ended⟩
      apply hconfirm.onHandshakeConfirmed
      intro handle hhandle
      apply hreports
      apply List.mem_append_right
      rwa [if_pos (by simp [hbuffered, hconfirmed])]
    · exact hgoaway

end Client

namespace Worker

variable {worker after : Worker} {told : ℕ → Prop}

/-- A closed stream takes a job with it that is over, or the one that the session knows. -/
def closesKnown (client : Client) : WorkerStep → Bool
  | .event (.streamClose streamId) =>
    (client.active.find? fun job => job.streamId == streamId).all fun job =>
      job.isOver || client.closes streamId == some job.handle
  | _ => true

theorem onEvent_accounted {client : Client} {event : LoopEvent} (h : client.Accounted told)
    (hknown : closesKnown client (.event event) = true)
    (hreports : ∀ handle ∈ eventReports client event, told handle) :
    (onEvent client event).1.Accounted told := by
  cases event with
  | handshakeCompleted codec answers =>
    unfold onEvent
    unfold eventReports at hreports
    dsimp only at hreports ⊢
    split_ifs at hreports ⊢
    · exact h
    · exact h.onHandshakeCompleted hreports
  | handshakeConfirmed answers =>
    have hconfirm : client.confirmConnection.Accounted told := ⟨h.bound, h.kept, h.ended⟩
    unfold onEvent
    unfold eventReports at hreports
    dsimp only at hreports ⊢
    split_ifs at hreports ⊢
    · exact hconfirm
    · exact hconfirm.onHandshakeConfirmed hreports
  | extendMaxStreams answers => exact h.trySubmitPending hreports
  | streamClose streamId =>
    apply h.onStreamClose _ hreports
    intro job hfind
    simpa [closesKnown, hfind] using hknown
  | goaway streamId => exact h.onGoaway hreports
  | earlyDataRejected =>
    unfold onEvent
    dsimp only
    split_ifs
    · have hforgot : client.forgetStreams.Accounted told := ⟨h.bound, h.kept, h.ended⟩
      exact hforgot.onEarlyDataRejected
    · exact h
  | endStream streamId => exact h.onEndStream hreports
  | dataRead streamId offered => exact h.onDataRead streamId offered
  | expire expired draining => exact h.expireRequests hreports draining
  | iterate answers => exact h.trySubmitPending hreports

/-! ### The end of `run()` -/

/-- What a step leaves of the jobs, by whether it is the last one of the worker. -/
def Ends (worker after : Worker) : Ending → Prop
  | .goesOn => after.control = .done → worker.control = .done
  | .failsAll => after.control = .done ∧ after.client.held = [] ∧
      after.client.jobs = worker.client.jobs
  | .returns => after.control = .done ∧ after.client.held = worker.client.held ∧
      after.client.jobs = worker.client.jobs

theorem ends_finishRaced (worker : Worker) (client : Client) (hheld : client.held = worker.client.held)
    (hjobs : client.jobs = worker.client.jobs) :
    worker.Ends (finishRaced client) (raceEnding client) := by
  unfold finishRaced raceEnding
  split_ifs
  · exact ⟨rfl, rfl, hjobs⟩
  · exact ⟨rfl, hheld, hjobs⟩

theorem ends_finishSequential (worker : Worker) (client : Client) (hheld : client.held = worker.client.held)
    (hjobs : client.jobs = worker.client.jobs) (connectionFailed : Bool) :
    worker.Ends (finishSequential client connectionFailed)
      (sequentialEnding client connectionFailed) := by
  unfold finishSequential sequentialEnding
  split_ifs
  · exact ⟨rfl, rfl, hjobs⟩
  · exact ⟨rfl, hheld, hjobs⟩

theorem ends_fail (worker : Worker) (path : LoopPath) (client : Client)
    (hheld : client.held = worker.client.held) (hjobs : client.jobs = worker.client.jobs) (tls : Option ErrorCode) :
    worker.Ends (fail path client tls) (failEnding path client tls) := by
  cases path with
  | raced =>
    unfold fail failEnding
    dsimp only
    split_ifs
    · exact nofun
    · exact ends_finishRaced worker client hheld hjobs
  | fallback =>
    unfold fail failEnding
    dsimp only
    split_ifs
    · exact nofun
    · exact ends_finishRaced worker client hheld hjobs
  | sequential =>
    unfold fail failEnding
    dsimp only
    split_ifs
    · exact ends_finishSequential worker client hheld hjobs true
    · exact nofun

theorem step_ends {i : WorkerStep} (h : worker.step i = some after) :
    worker.Ends after (worker.ending i) := by
  cases i with
  | submit id request =>
    cases h
    exact fun hdone => hdone
  | cancel id =>
    cases h
    exact fun hdone => hdone
  | close =>
    cases h
    exact fun hdone => hdone
  | start =>
    dsimp only [step, ending] at h ⊢
    split_ifs at h ⊢ with hidle hlive
    · cases h
      exact nofun
    · cases h
      exact ⟨rfl, rfl, rfl⟩
  | resolved endpoints race error =>
    dsimp only [step, ending] at h ⊢
    split_ifs at h ⊢ with hresolving hempty hrace
    · cases h
      exact ⟨rfl, rfl, rfl⟩
    · cases h
      exact nofun
    · cases h
      exact nofun
  | adopt adoption =>
    dsimp only [step] at h
    split_ifs at h
    split at h <;> cases h <;> exact nofun
  | raceFailed error =>
    dsimp only [step, ending] at h ⊢
    split_ifs at h ⊢ with hracing hlost
    · cases h
      exact ⟨rfl, rfl, rfl⟩
    · cases h
      exact nofun
  | attempt result =>
    dsimp only [step] at h
    split_ifs at h
    split at h <;> cases h <;> exact nofun
  | connectTimeout =>
    dsimp only [step] at h
    split_ifs at h
    cases h
    exact ends_finishSequential worker { worker.client with terminalError := .connectTimeout }
      rfl rfl false
  | leave =>
    dsimp only [step] at h
    split_ifs at h
    cases h
    exact ends_finishSequential worker worker.client rfl rfl false
  | restart result =>
    dsimp only [step] at h
    split_ifs at h
    split at h
    · cases h
    · split at h <;> cases h <;> exact nofun
  | exhausted =>
    dsimp only [step] at h
    split_ifs at h
    cases h
    exact ends_finishRaced worker worker.client rfl rfl
  | event event =>
    dsimp only [step, ending] at h ⊢
    obtain ⟨control, hcontrol⟩ : ∃ control, worker.control = control := ⟨_, rfl⟩
    obtain ⟨⟨client, ok⟩, hevent⟩ : ∃ result, onEvent worker.client event = result := ⟨_, rfl⟩
    rw [hcontrol] at h ⊢
    cases control with
    | looping path =>
      dsimp only at h ⊢
      rw [hevent] at h ⊢
      cases ok with
      | true =>
        cases h
        exact fun hdone => hcontrol.trans hdone
      | false =>
        obtain rfl := onEvent_failed hevent
        cases h
        exact ends_fail worker path _ rfl rfl none
    | _ => cases h
  | fatal error tls =>
    dsimp only [step, ending] at h ⊢
    obtain ⟨control, hcontrol⟩ : ∃ control, worker.control = control := ⟨_, rfl⟩
    rw [hcontrol] at h ⊢
    cases control with
    | looping path =>
      cases h
      exact ends_fail worker path
        { worker.client with terminalError := error.getD worker.client.terminalError } rfl rfl tls
    | _ => cases h
  | quit =>
    dsimp only [step, ending] at h ⊢
    obtain ⟨control, hcontrol⟩ : ∃ control, worker.control = control := ⟨_, rfl⟩
    rw [hcontrol] at h ⊢
    cases control with
    | looping path =>
      cases path with
      | sequential =>
        cases h
        exact ends_finishSequential worker worker.client rfl rfl false
      | raced =>
        cases h
        exact ⟨rfl, rfl, rfl⟩
      | fallback =>
        cases h
        exact ⟨rfl, rfl, rfl⟩
    | _ => cases h

theorem fail_accounted {path : LoopPath} {client : Client} {tls : Option ErrorCode}
    (h : client.Accounted told) (hgoes : failEnding path client tls = .goesOn) :
    (fail path client tls).client.Accounted told := by
  cases path with
  | raced =>
    unfold fail
    unfold failEnding at hgoes
    dsimp only [raceEnding] at hgoes ⊢
    split_ifs at hgoes ⊢
    exact h
  | fallback =>
    unfold fail
    unfold failEnding at hgoes
    dsimp only [raceEnding] at hgoes ⊢
    split_ifs at hgoes ⊢
    exact h
  | sequential =>
    unfold fail
    unfold failEnding at hgoes
    dsimp only [sequentialEnding] at hgoes ⊢
    split_ifs at hgoes ⊢
    exact ⟨h.bound, h.kept, h.ended⟩

/-- A step after which the worker goes on loses no job. -/
theorem step_accounted {i : WorkerStep} (h : worker.client.Accounted told)
    (hstep : worker.step i = some after) (hgoes : worker.ending i = .goesOn)
    (hknown : closesKnown worker.client i = true)
    (hreports : ∀ handle ∈ worker.reports i, told handle)
    (hcancel : ∀ id, i = .cancel id → ∀ handle ∈ worker.client.cancelTarget id, told handle) :
    after.client.Accounted told := by
  have hstepped : ∀ handle ∈ worker.stepReports i, told handle :=
    fun handle hhandle => hreports handle (List.mem_append_left _ hhandle)
  cases i with
  | submit id request =>
    cases hstep
    exact h.submitJob id request
  | cancel id =>
    cases hstep
    exact h.cancelJob (hcancel id rfl)
  | close =>
    cases hstep
    exact ⟨h.bound, h.kept, h.ended⟩
  | start =>
    dsimp only [step, ending] at hstep hgoes
    split_ifs at hstep hgoes
    cases hstep
    exact h
  | resolved endpoints race error =>
    dsimp only [step, ending] at hstep hgoes
    split_ifs at hstep hgoes <;> cases hstep <;> exact ⟨h.bound, h.kept, h.ended⟩
  | adopt adoption =>
    have hadopted := h.adoptHandshakeWinner hstepped
    dsimp only [step] at hstep
    split_ifs at hstep
    split at hstep
    · next client heq =>
      rw [heq] at hadopted
      cases hstep
      exact hadopted
    · next client heq =>
      rw [heq] at hadopted
      cases hstep
      exact hadopted
  | raceFailed error =>
    dsimp only [step, ending] at hstep hgoes
    split_ifs at hstep hgoes
    cases hstep
    exact ⟨h.bound, h.kept, h.ended⟩
  | attempt result =>
    have hset := h.setupConnection hstepped
    dsimp only [step] at hstep
    split_ifs at hstep
    split at hstep
    · next client heq =>
      rw [heq] at hset
      cases hstep
      exact hset
    · next client heq =>
      rw [heq] at hset
      cases hstep
      exact ⟨hset.bound, hset.kept, hset.ended⟩
  | connectTimeout =>
    dsimp only [ending, sequentialEnding] at hgoes
    split_ifs at hgoes
  | leave =>
    dsimp only [ending, sequentialEnding] at hgoes
    split_ifs at hgoes
  | restart result =>
    dsimp only [step] at hstep
    split_ifs at hstep
    split at hstep
    · cases hstep
    · next rest hrest =>
      have hdiscarded : (Client.discardCurrentConnection
          { worker.client with precommitFallbackEndpoints := rest }).Accounted told :=
        ⟨h.bound, h.kept, h.ended⟩
      have hset := @Client.Accounted.setupConnection _ _ hdiscarded result (by
        simpa only [stepReports, hrest] using hstepped)
      split at hstep
      · next client heq =>
        rw [heq] at hset
        cases hstep
        exact hset
      · next client heq =>
        rw [heq] at hset
        cases hstep
        exact hset
  | exhausted =>
    dsimp only [ending, raceEnding] at hgoes
    split_ifs at hgoes
  | event event =>
    have hevent := onEvent_accounted h hknown hstepped
    dsimp only [step, ending] at hstep hgoes
    split at hstep
    · next path hcontrol =>
      rw [hcontrol] at hgoes
      split at hstep
      · next client heq =>
        rw [heq] at hevent
        cases hstep
        exact hevent
      · next client heq =>
        dsimp only at hgoes
        rw [heq, if_neg Bool.false_ne_true] at hgoes
        obtain rfl := onEvent_failed heq
        cases hstep
        exact fail_accounted h hgoes
    · cases hstep
  | fatal error tls =>
    dsimp only [step, ending] at hstep hgoes
    split at hstep
    · next path hcontrol =>
      rw [hcontrol] at hgoes
      cases hstep
      exact fail_accounted ⟨h.bound, h.kept, h.ended⟩ hgoes
    · cases hstep
  | quit =>
    dsimp only [step, ending, sequentialEnding] at hstep hgoes
    split at hgoes
    · split_ifs at hgoes
    · cases hgoes

/-- A worker that has returned only gets jobs. -/
theorem step_done {i : WorkerStep} (hdone : worker.control = .done)
    (hstep : worker.step i = some after) (hsubmit : ∀ id request, i ≠ .submit id request) :
    after.client.jobs = worker.client.jobs := by
  cases i with
  | submit id request => exact absurd rfl (hsubmit id request)
  | cancel id =>
    cases hstep
    rw [(worker.client.cancelJob_progress id).kept]
  | close =>
    cases hstep
    rfl
  | _ => simp [step, hdone] at hstep

end Worker

/-! ### Runs -/

namespace Service

variable {service after : Service}

/-- Jobs come before the worker begins to end, a worker that returns without
`fail_all_pending` has only jobs that are over, and a closed stream takes the job with it
that its session knows, or one that is over. -/
def Serves (service : Service) : ServiceStep → Prop
  | .work (.submit _ _) => service.worker.control ≠ .done
  | .work i =>
    Worker.closesKnown service.worker.client i = true ∧
      (service.worker.ending i = .returns →
        ∀ job ∈ service.worker.client.held, job.isOver = true)
  | .overtaken _ late => late = []
  | .destroy => True

instance (service : Service) (i : ServiceStep) : Decidable (service.Serves i) := by
  unfold Serves
  split <;> infer_instance

structure Inv (service : Service) : Prop where
  accounted : service.worker.client.Accounted service.Told
  settled : service.worker.control = .done ∨ service.destroyed = true →
    ∀ handle < service.worker.client.jobs, service.Told handle

theorem Inv.work (h : service.Inv) {i : WorkerStep} (hok : service.Serves (.work i))
    (hstep : service.step (.work i) = some after) : after.Inv := by
  simp only [step] at hstep
  split_ifs at hstep with hdestroyed
  obtain ⟨worker, hworker, rfl⟩ := Option.map_eq_some_iff.mp hstep
  have hgrow : ∀ handle, service.Told handle → Told { service with
      worker := worker
      reported := service.reported ++ service.worker.reports i
      withdrawn := service.withdrawn ++ withdraws service.worker.client i } handle := by
    rintro handle (hreported | hwithdrawn)
    · exact Or.inl (List.mem_append_left _ hreported)
    · exact Or.inr (List.mem_append_left _ hwithdrawn)
  have haccounted := h.accounted.mono hgrow
  have hends := Worker.step_ends hworker
  have hconditions : (∀ id request, i ≠ .submit id request) →
      Worker.closesKnown service.worker.client i = true ∧
        (service.worker.ending i = .returns →
          ∀ job ∈ service.worker.client.held, job.isOver = true) := by
    intro hsubmit
    cases i with
    | submit id request => exact absurd rfl (hsubmit id request)
    | _ => exact hok
  cases hending : service.worker.ending i with
  | goesOn =>
    rw [hending] at hends
    constructor
    case accounted =>
      apply Worker.step_accounted haccounted hworker hending
      · cases i with
        | submit id request => rfl
        | _ => exact hok.1
      · exact fun handle hhandle => Or.inl (List.mem_append_right _ hhandle)
      · rintro id rfl handle hhandle
        exact Or.inr (List.mem_append_right _ (Option.mem_toList.mpr hhandle))
    case settled =>
      rintro (hdone | hdead)
      · have hbefore := hends hdone
        have hsubmit : ∀ id request, i ≠ .submit id request := by
          rintro id request rfl
          exact hok hbefore
        intro handle hlt
        dsimp only at hlt
        rw [Worker.step_done hbefore hworker hsubmit] at hlt
        exact hgrow handle (h.settled (Or.inl hbefore) handle hlt)
      · exact absurd hdead hdestroyed
  | failsAll =>
    rw [hending] at hends
    obtain ⟨-, hheld, hjobs⟩ := hends
    have hall : ∀ handle < worker.client.jobs, Told { service with
        worker := worker
        reported := service.reported ++ service.worker.reports i
        withdrawn := service.withdrawn ++ withdraws service.worker.client i } handle := by
      intro handle hlt
      rw [hjobs] at hlt
      rcases haccounted.kept handle hlt with htold | ⟨job, hjob, rfl⟩
      · exact htold
      · left
        apply List.mem_append_right
        rw [Worker.reports, if_pos hending]
        exact List.mem_append_right _ (List.mem_map_of_mem hjob)
    refine ⟨⟨?_, fun handle hlt => Or.inl (hall handle hlt), ?_⟩, fun _ => hall⟩
    · intro job hjob
      rw [hheld] at hjob
      cases hjob
    · intro job hjob
      rw [hheld] at hjob
      cases hjob
  | returns =>
    rw [hending] at hends
    obtain ⟨-, hheld, hjobs⟩ := hends
    have hover := (hconditions (by rintro id request rfl; cases hending)).2 hending
    refine ⟨⟨?_, ?_, ?_⟩, fun _ => ?_⟩
    · rw [hheld, hjobs]
      exact haccounted.bound
    · rw [hheld, hjobs]
      exact haccounted.kept
    · rw [hheld]
      exact haccounted.ended
    · intro handle hlt
      dsimp only at hlt
      rw [hjobs] at hlt
      rcases haccounted.kept handle hlt with htold | ⟨job, hjob, rfl⟩
      · exact htold
      · exact haccounted.ended job hjob (hover job hjob)

/-- Without late jobs, `fail_all_pending` is as if nothing could come in between. -/
theorem step_overtaken {i : WorkerStep} (hstep : service.step (.overtaken i []) = some after) :
    service.Serves (.work i) ∧ service.step (.work i) = some after := by
  simp only [step] at hstep
  split_ifs at hstep with hguard
  simp only [not_or, not_not, Bool.not_eq_true] at hguard
  obtain ⟨hlives, hfails⟩ := hguard
  obtain ⟨worker, hworker, rfl⟩ := Option.map_eq_some_iff.mp hstep
  have hends := Worker.step_ends hworker
  rw [hfails] at hends
  have hcleared : overtake worker.client [] = worker.client :=
    worker.client.failAllPending_eq_self hends.2.1
  have hquiet : withdraws service.worker.client i = [] := by
    cases i with
    | cancel id => cases hfails
    | _ => rfl
  constructor
  · have hreturns : service.worker.ending i = .returns →
        ∀ job ∈ service.worker.client.held, job.isOver = true := by
      intro hreturns
      cases hfails.symm.trans hreturns
    cases i with
    | submit id request => cases hfails
    | event event =>
      refine ⟨?_, hreturns⟩
      cases event with
      | streamClose streamId =>
        dsimp only [Worker.ending, Worker.onEvent] at hfails
        split at hfails <;> cases hfails
      | _ => rfl
    | _ => exact ⟨rfl, hreturns⟩
  · simp only [step, hlives, hworker, Option.map_some, hcleared, hquiet, List.append_nil]
    rfl

theorem Inv.step (h : service.Inv) {i : ServiceStep} (hok : service.Serves i)
    (hstep : service.step i = some after) : after.Inv := by
  cases i with
  | work i => exact h.work hok hstep
  | overtaken i late =>
    obtain rfl : late = [] := hok
    obtain ⟨hserves, hwork⟩ := step_overtaken hstep
    exact h.work hserves hwork
  | destroy =>
    simp only [Service.step] at hstep
    split_ifs at hstep with hguard
    cases hstep
    have hsettled : ∀ handle < service.worker.client.jobs, service.Told handle := by
      rcases hguard.2 with hdone | hnone
      · exact h.settled (Or.inl hdone)
      · intro handle hlt
        rw [hnone] at hlt
        cases hlt
    refine ⟨⟨?_, fun handle hlt => Or.inl (hsettled handle hlt), ?_⟩, fun _ => hsettled⟩
    · exact fun job hjob => absurd hjob List.not_mem_nil
    · exact fun job hjob => absurd hjob List.not_mem_nil

/-- In every run in which jobs come before the worker begins to end, a worker that
returns without `fail_all_pending` has only jobs that are over, and a closed stream takes
such a job or the one that its session knows, every job that the client ever got has been
reported or cancelled by the application once `run()` has returned or the client is
destroyed; in particular no other job is in its queues then. -/
theorem run_answered {steps : List ServiceStep}
    (hrun : Transition.run step {} steps = some service)
    (hok : Transition.Meets step Serves {} steps)
    (hended : service.worker.control = .done ∨ service.destroyed = true) :
    (∀ handle < service.worker.client.jobs,
      handle ∈ service.reported ∨ handle ∈ service.withdrawn) ∧
      ∀ job ∈ service.worker.client.pending ++ service.worker.client.active,
        job.handle ∈ service.reported ∨ job.handle ∈ service.withdrawn := by
  have hstart : Inv {} := by
    refine ⟨Client.accounted_initial _, ?_⟩
    rintro (hdone | hdead)
    · cases hdone
    · cases hdead
  have h := Transition.run_invariant (fun _ _ _ hs hmeets hstep => hs.step hmeets hstep) hrun hok
    hstart
  have hsettled := h.settled hended
  exact ⟨hsettled, fun job hjob => hsettled job.handle (h.accounted.bound job hjob)⟩

/-- One request is answered; one that waits for a stream is cancelled before the server's
GOAWAY, or else is not. -/
def drainedRun (cancelled : List WorkerStep) : List ServiceStep :=
  let waits : List WorkerStep :=
    [.event (.handshakeConfirmed []), .submit 2 {}, .event (.iterate [.blocked])]
  let drains : List WorkerStep :=
    [.event (.goaway (some 4)), .event (.endStream 0), .event (.streamClose 0), .quit]
  (Worker.sequentialRun {} [⟨[], 443, .inet⟩] ++ waits ++ cancelled ++ drains).map .work

theorem run_answered_drained :
    ∃ service, Transition.run step {} (drainedRun [.cancel 2] ++ [.destroy]) = some service ∧
      ∀ handle < 2, handle ∈ service.reported ∨ handle ∈ service.withdrawn := by
  obtain ⟨service, hrun, hdestroyed, hjobs⟩ : ∃ service,
      Transition.run step {} (drainedRun [.cancel 2] ++ [.destroy]) = some service ∧
        service.destroyed = true ∧ service.worker.client.jobs = 2 :=
    ⟨_, rfl, by decide +kernel, by decide +kernel⟩
  refine ⟨service, hrun, ?_⟩
  rw [← hjobs]
  exact (run_answered hrun (by decide +kernel) (Or.inr hdestroyed)).1

/-- A request that waits for a stream when the server sends GOAWAY is left behind. -/
theorem run_stranded :
    ¬∀ (steps : List ServiceStep) (service : Service),
      Transition.run step {} steps = some service →
        (service.worker.control = .done ∨ service.destroyed = true) →
          ∀ handle < service.worker.client.jobs,
            handle ∈ service.reported ∨ handle ∈ service.withdrawn := by
  intro h
  obtain ⟨service, hrun, hdone, hjobs, hreported, hwithdrawn⟩ : ∃ service,
      Transition.run step {} (drainedRun []) = some service ∧
        service.worker.control = .done ∧ service.worker.client.jobs = 2 ∧
          service.reported = [0] ∧ service.withdrawn = [] :=
    ⟨_, rfl, by decide +kernel, by decide +kernel, by decide +kernel, by decide +kernel⟩
  have htold := h _ service hrun (Or.inl hdone) 1 (by simp [hjobs])
  simp [hreported, hwithdrawn] at htold

end Service

end KatHttp3
