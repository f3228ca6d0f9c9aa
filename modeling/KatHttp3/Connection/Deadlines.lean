import KatHttp3.Connection.Client

/-!
# Deadlines of requests

The event loop of a connection looks for requests that have taken too long. A peer
that is too slow takes the connection down with it. An application that does not consume
its response in time is only told so, and its peer is not to blame for the silence.
-/

namespace KatHttp3

/-- The timeouts that `expire_requests` reads, in milliseconds; a zero is no timeout. -/
structure QuicTimeouts where
  responseHeadersMs : ℕ := 0
  readMs : ℕ := 0
  writeMs : ℕ := 0
  callMs : ℕ := 0
  consumerStallMs : ℕ := 0

/-- Monotonic elapsed time, saturated. -/
def elapsedNs (now startedAt : ℕ) : ℕ := now - startedAt

def deadlineElapsedNs (now startedAt timeoutNs : ℕ) : Bool :=
  startedAt ≠ 0 && timeoutNs ≠ 0 && timeoutNs ≤ elapsedNs now startedAt

def millisecondsToNsSaturated (milliseconds : ℕ) : ℕ :=
  if (2 ^ 64 - 1) / 1000000 < milliseconds then 2 ^ 64 - 1 else milliseconds * 1000000

def kReceiveBufferPerStreamHighWatermark : ℕ := 1024 * 1024

def kReceiveBufferPerConnectionLimit : ℕ := 8 * 1024 * 1024

def receiveCreditBlockedByConsumer (streamUnconsumed connectionUnconsumed : ℕ) : Bool :=
  kReceiveBufferPerStreamHighWatermark ≤ streamUnconsumed ||
    kReceiveBufferPerConnectionLimit ≤ connectionUnconsumed

/-- The fields of `Job` that `expire_requests` uses. Of the request, the size of its body. -/
structure TimedJob where
  handle : ℕ := 0
  streamId : ℤ := -1
  request : Option ℕ := none
  streaming : Bool := false
  cancelled : Bool := false
  sawHeaders : Bool := false
  bodySent : ℕ := 0
  submittedAt : ℕ := 0
  lastReadProgressAt : ℕ := 0
  lastWriteProgressAt : ℕ := 0
  deliveredUnconsumedBytes : ℕ := 0
  consumerBlockedSince : ℕ := 0
  deriving DecidableEq

namespace TimedJob

variable (timeouts : QuicTimeouts) (now connectionUnconsumed : ℕ) (job : TimedJob)

def consumerBlocked : Bool :=
  job.streaming && receiveCreditBlockedByConsumer job.deliveredUnconsumedBytes connectionUnconsumed

def callElapsed : Bool :=
  deadlineElapsedNs now job.submittedAt (millisecondsToNsSaturated timeouts.callMs)

def responseHeadersElapsed : Bool :=
  0 ≤ job.streamId && !job.sawHeaders && timeouts.responseHeadersMs ≠ 0 &&
    deadlineElapsedNs now job.submittedAt (millisecondsToNsSaturated timeouts.responseHeadersMs)

def readElapsed : Bool :=
  job.sawHeaders && job.lastReadProgressAt ≠ 0 && timeouts.readMs ≠ 0 &&
    deadlineElapsedNs now job.lastReadProgressAt (millisecondsToNsSaturated timeouts.readMs)

def writeElapsed : Bool :=
  (job.request.any fun size => job.bodySent < size) && job.lastWriteProgressAt ≠ 0 &&
    timeouts.writeMs ≠ 0 &&
      deadlineElapsedNs now job.lastWriteProgressAt (millisecondsToNsSaturated timeouts.writeMs)

/-- Since when the consumer has been blocking the peer. -/
def blockedSince : ℕ :=
  if job.consumerBlocked connectionUnconsumed then
    if job.consumerBlockedSince = 0 then now else job.consumerBlockedSince
  else 0

def stallElapsed : Bool :=
  job.consumerBlocked connectionUnconsumed &&
    deadlineElapsedNs now (job.blockedSince now connectionUnconsumed)
      (millisecondsToNsSaturated timeouts.consumerStallMs)

/-- The error that a job ends with, if it has taken too long. -/
def timeoutError : Option ErrorCode :=
  let stall : Option ErrorCode :=
    if job.stallElapsed timeouts now connectionUnconsumed then some .consumerStall else none
  if job.callElapsed timeouts now then some .callTimeout
  else if job.responseHeadersElapsed timeouts now then some .responseHeadersTimeout
  else if stall = none ∧ job.readElapsed timeouts now = true ∧
      job.consumerBlocked connectionUnconsumed = false then
    some .readTimeout
  else if job.writeElapsed timeouts now then some .writeTimeout
  else stall

def expireJob : TimedJob :=
  { job with
    consumerBlockedSince := job.blockedSince now connectionUnconsumed
    cancelled := job.cancelled || (job.timeoutError timeouts now connectionUnconsumed).isSome }

end TimedJob

/-- The timeouts that end the whole connection. -/
def ErrorCode.endsConnection : ErrorCode → Bool
  | .responseHeadersTimeout | .readTimeout | .writeTimeout => true
  | _ => false

theorem ErrorCode.eq_of_endsConnection {error : ErrorCode} (h : error.endsConnection = true) :
    error = .readTimeout ∨ error = .responseHeadersTimeout ∨ error = .writeTimeout := by
  unfold endsConnection at h
  split at h
  · exact .inr (.inl rfl)
  · exact .inl rfl
  · exact .inr (.inr rfl)
  · cases h

/-- The jobs that a pass over a queue leaves, those that it reports, and whether the
connection is to end. -/
structure Collected where
  triggered : Bool
  jobs : List TimedJob
  expired : List (TimedJob × ErrorCode)

section

variable (timeouts : QuicTimeouts) (now connectionUnconsumed : ℕ)

/-- The lambda `collect_expired`. -/
def collectExpired : Bool → List TimedJob → Collected
  | triggered, [] => ⟨triggered, [], []⟩
  | triggered, job :: jobs =>
    if job.cancelled = true ∨ job.submittedAt = 0 ∨ triggered = true then
      let rest := collectExpired triggered jobs
      { rest with jobs := job :: rest.jobs }
    else
      let next := job.expireJob timeouts now connectionUnconsumed
      match job.timeoutError timeouts now connectionUnconsumed with
      | none =>
        let rest := collectExpired triggered jobs
        { rest with jobs := next :: rest.jobs }
      | some error =>
        let rest := collectExpired error.endsConnection jobs
        { rest with jobs := next :: rest.jobs, expired := (next, error) :: rest.expired }

end

def TimedJob.cancel (job : TimedJob) : TimedJob := { job with cancelled := true }

/-- What the lambda `fail_remaining` reports. -/
def failRemaining (jobs : List TimedJob) : List (TimedJob × ErrorCode) :=
  (jobs.filter fun job => !job.cancelled).map fun job => (job.cancel, .quic)

/-- The jobs of a connection, and its state. -/
structure TimedClient where
  timeouts : QuicTimeouts := {}
  pendingJobs : List TimedJob := []
  activeJobs : List TimedJob := []
  state : ConnectionState

namespace TimedClient

variable (client : TimedClient)

/-- What the streaming consumers have not consumed yet. These bytes are in memory, so that
their number does not wrap around. -/
def connectionUnconsumed : ℕ :=
  ((client.activeJobs.filter TimedJob.streaming).map TimedJob.deliveredUnconsumedBytes).sum

/-- The connection afterwards, and the jobs that are reported with their errors. -/
def expireRequests (now : ℕ) : TimedClient × List (TimedJob × ErrorCode) :=
  let unconsumed := client.connectionUnconsumed
  let pending := collectExpired client.timeouts now unconsumed false client.pendingJobs
  let active := collectExpired client.timeouts now unconsumed pending.triggered client.activeJobs
  if active.triggered then
    ({ client with
        pendingJobs := pending.jobs.map TimedJob.cancel
        activeJobs := active.jobs.map TimedJob.cancel
        state := .draining },
      pending.expired ++ active.expired ++ failRemaining pending.jobs ++ failRemaining active.jobs)
  else
    ({ client with pendingJobs := pending.jobs, activeJobs := active.jobs },
      pending.expired ++ active.expired)

end TimedClient

/-! ### Which timeout a job is reported with -/

namespace TimedJob

variable {timeouts : QuicTimeouts} {now connectionUnconsumed : ℕ} {job : TimedJob}

theorem responseHeadersElapsed_of_readElapsed (h : job.readElapsed timeouts now = true) :
    job.responseHeadersElapsed timeouts now = false := by
  have hsaw : job.sawHeaders = true := by
    simp only [readElapsed, Bool.and_eq_true] at h
    exact h.1.1.1
  simp [responseHeadersElapsed, hsaw]

/-- Whether the peer has been silent for too long and could have sent something. -/
def readDue (timeouts : QuicTimeouts) (now connectionUnconsumed : ℕ) (job : TimedJob) : Bool :=
  job.readElapsed timeouts now && !job.consumerBlocked connectionUnconsumed

/-- Why a job is reported, or is not. -/
inductive Outcome (timeouts : QuicTimeouts) (now connectionUnconsumed : ℕ) (job : TimedJob) :
    Option ErrorCode → Prop
  | call (elapsed : job.callElapsed timeouts now = true) :
      Outcome timeouts now connectionUnconsumed job (some .callTimeout)
  | responseHeaders (call : job.callElapsed timeouts now = false)
      (elapsed : job.responseHeadersElapsed timeouts now = true) :
      Outcome timeouts now connectionUnconsumed job (some .responseHeadersTimeout)
  | read (call : job.callElapsed timeouts now = false)
      (elapsed : job.readDue timeouts now connectionUnconsumed = true) :
      Outcome timeouts now connectionUnconsumed job (some .readTimeout)
  | write (call : job.callElapsed timeouts now = false)
      (read : job.readDue timeouts now connectionUnconsumed = false)
      (elapsed : job.writeElapsed timeouts now = true) :
      Outcome timeouts now connectionUnconsumed job (some .writeTimeout)
  | other (error : Option ErrorCode) (stall : error = none ∨ error = some .consumerStall)
      (responseHeaders : job.responseHeadersElapsed timeouts now = false)
      (read : job.readDue timeouts now connectionUnconsumed = false)
      (write : job.writeElapsed timeouts now = false) :
      Outcome timeouts now connectionUnconsumed job error

theorem timeoutError_cases (timeouts : QuicTimeouts) (now connectionUnconsumed : ℕ) (job : TimedJob) :
    job.Outcome timeouts now connectionUnconsumed
      (job.timeoutError timeouts now connectionUnconsumed) := by
  unfold timeoutError
  cases hblocked : job.consumerBlocked connectionUnconsumed with
  | true =>
    have hread : job.readDue timeouts now connectionUnconsumed = false := by simp [readDue, hblocked]
    simp only [Bool.true_eq_false, and_false, if_false]
    split_ifs with hcall hheaders hwrite hstall
    · exact .call hcall
    · exact .responseHeaders (by simpa using hcall) hheaders
    · exact .write (by simpa using hcall) hread hwrite
    · exact .other _ (.inr rfl) (by simpa using hheaders) hread (by simpa using hwrite)
    · exact .other _ (.inl rfl) (by simpa using hheaders) hread (by simpa using hwrite)
  | false =>
    have hstall : job.stallElapsed timeouts now connectionUnconsumed = false := by
      simp [stallElapsed, hblocked]
    have hdue : job.readDue timeouts now connectionUnconsumed = job.readElapsed timeouts now := by
      simp [readDue, hblocked]
    simp only [hstall, Bool.false_eq_true, if_false, true_and, and_true]
    split_ifs with hcall hheaders hread hwrite
    · exact .call hcall
    · exact .responseHeaders (by simpa using hcall) hheaders
    · exact .read (by simpa using hcall) (hdue.trans hread)
    · exact .write (by simpa using hcall) (hdue.trans (by simpa using hread)) hwrite
    · exact .other _ (.inl rfl) (by simpa using hheaders) (hdue.trans (by simpa using hread))
        (by simpa using hwrite)

theorem timeoutError_eq_readTimeout_iff :
    job.timeoutError timeouts now connectionUnconsumed = some .readTimeout ↔
      job.callElapsed timeouts now = false ∧ job.readDue timeouts now connectionUnconsumed = true := by
  have hcases := timeoutError_cases timeouts now connectionUnconsumed job
  generalize job.timeoutError timeouts now connectionUnconsumed = error at hcases ⊢
  cases hcases with
  | call elapsed => simp [elapsed]
  | responseHeaders call elapsed =>
    have hread : job.readElapsed timeouts now = false := by
      by_contra hread
      rw [responseHeadersElapsed_of_readElapsed (by simpa using hread)] at elapsed
      cases elapsed
    simp [readDue, hread]
  | read call elapsed => simp [call, elapsed]
  | write call read elapsed => simp [read]
  | other error stall responseHeaders read write => rcases stall with rfl | rfl <;> simp [read]

theorem timeoutError_ne_quic :
    job.timeoutError timeouts now connectionUnconsumed ≠ some .quic := by
  have hcases := timeoutError_cases timeouts now connectionUnconsumed job
  generalize job.timeoutError timeouts now connectionUnconsumed = error at hcases ⊢
  rintro rfl
  cases hcases with
  | other error stall responseHeaders read write => rcases stall with h | h <;> cases h

/-- Whether a job is reported with a timeout that ends the connection. -/
def endsConnection (timeouts : QuicTimeouts) (now connectionUnconsumed : ℕ) (job : TimedJob) : Bool :=
  (job.timeoutError timeouts now connectionUnconsumed).any ErrorCode.endsConnection

theorem endsConnection_eq (timeouts : QuicTimeouts) (now connectionUnconsumed : ℕ) (job : TimedJob) :
    job.endsConnection timeouts now connectionUnconsumed =
      (!job.callElapsed timeouts now &&
        (job.responseHeadersElapsed timeouts now || job.readDue timeouts now connectionUnconsumed ||
          job.writeElapsed timeouts now)) := by
  have hcases := timeoutError_cases timeouts now connectionUnconsumed job
  unfold endsConnection
  generalize job.timeoutError timeouts now connectionUnconsumed = error at hcases ⊢
  cases hcases with
  | call elapsed => simp [elapsed, ErrorCode.endsConnection]
  | responseHeaders call elapsed => simp [call, elapsed, ErrorCode.endsConnection]
  | read call elapsed => simp [call, elapsed, ErrorCode.endsConnection]
  | write call read elapsed => simp [call, elapsed, ErrorCode.endsConnection]
  | other error stall responseHeaders read write =>
    rcases stall with rfl | rfl <;> simp [responseHeaders, read, write, ErrorCode.endsConnection]

/-- The jobs that a pass looks at. -/
def live (job : TimedJob) : Bool := !job.cancelled && job.submittedAt ≠ 0

/-- A job that ends the connection if it is looked at first. -/
def ending (timeouts : QuicTimeouts) (now connectionUnconsumed : ℕ) (job : TimedJob) : Bool :=
  job.live && job.endsConnection timeouts now connectionUnconsumed

end TimedJob

/-! ### Which jobs a pass reports -/

section

variable {timeouts : QuicTimeouts} {now connectionUnconsumed : ℕ} {job : TimedJob} {triggered : Bool}

variable (timeouts now connectionUnconsumed) in
theorem not_ending_of_skipped (hskip : job.cancelled = true ∨ job.submittedAt = 0 ∨ triggered = true)
    (h : triggered = false) : job.ending timeouts now connectionUnconsumed = false := by
  rcases hskip with hcancelled | hsubmitted | htriggered
  · simp [TimedJob.ending, TimedJob.live, hcancelled]
  · simp [TimedJob.ending, TimedJob.live, hsubmitted]
  · rw [h] at htriggered
    cases htriggered

variable (timeouts now connectionUnconsumed) in
theorem ending_of_looked_at
    (hlook : ¬(job.cancelled = true ∨ job.submittedAt = 0 ∨ triggered = true)) :
    triggered = false ∧ job.ending timeouts now connectionUnconsumed =
      (job.timeoutError timeouts now connectionUnconsumed).any ErrorCode.endsConnection := by
  simp only [not_or, Bool.not_eq_true] at hlook
  obtain ⟨hcancelled, hsubmitted, htriggered⟩ := hlook
  simp [TimedJob.ending, TimedJob.live, TimedJob.endsConnection, hcancelled, hsubmitted, htriggered]

theorem collectExpired_triggered (triggered : Bool) (jobs : List TimedJob) :
    (collectExpired timeouts now connectionUnconsumed triggered jobs).triggered =
      (triggered || jobs.any (TimedJob.ending timeouts now connectionUnconsumed)) := by
  fun_induction collectExpired timeouts now connectionUnconsumed triggered jobs with
  | case1 triggered => simp
  | case2 triggered job jobs hskip rest ih =>
    rw [List.any_cons]
    cases htriggered : triggered with
    | true => exact ih.trans (by rw [htriggered, Bool.true_or, Bool.true_or])
    | false =>
      rw [not_ending_of_skipped timeouts now connectionUnconsumed hskip htriggered, Bool.false_or,
        ← htriggered]
      exact ih
  | case3 triggered job jobs hlook next herror rest ih =>
    have hending := (ending_of_looked_at timeouts now connectionUnconsumed hlook).2
    rw [herror, Option.any_none] at hending
    rw [List.any_cons, hending, Bool.false_or]
    exact ih
  | case4 triggered job jobs hlook next error herror rest ih =>
    obtain ⟨htriggered, hending⟩ := ending_of_looked_at timeouts now connectionUnconsumed hlook
    rw [herror, Option.any_some] at hending
    rw [List.any_cons, hending, htriggered, Bool.false_or]
    exact ih

/-- A pass reports a read timeout only for the first job that ends the connection. -/
theorem collectExpired_read (triggered : Bool) (jobs : List TimedJob) :
    (∃ e ∈ (collectExpired timeouts now connectionUnconsumed triggered jobs).expired,
        e.2 = .readTimeout) ↔
      triggered = false ∧ ∃ job,
        jobs.find? (TimedJob.ending timeouts now connectionUnconsumed) = some job ∧
          job.timeoutError timeouts now connectionUnconsumed = some .readTimeout := by
  fun_induction collectExpired timeouts now connectionUnconsumed triggered jobs with
  | case1 triggered => simp
  | case2 triggered job jobs hskip rest ih =>
    apply ih.trans
    apply and_congr_right
    intro htriggered
    rw [List.find?_cons_of_neg]
    simp [not_ending_of_skipped timeouts now connectionUnconsumed hskip htriggered]
  | case3 triggered job jobs hlook next herror rest ih =>
    have hending := (ending_of_looked_at timeouts now connectionUnconsumed hlook).2
    rw [herror, Option.any_none] at hending
    apply ih.trans
    rw [List.find?_cons_of_neg]
    simp [hending]
  | case4 triggered job jobs hlook next error herror rest ih =>
    obtain ⟨htriggered, hending⟩ := ending_of_looked_at timeouts now connectionUnconsumed hlook
    rw [herror, Option.any_some] at hending
    cases hends : error.endsConnection with
    | true =>
      rw [hends] at hending
      have hrest : ¬∃ e ∈ rest.expired, e.2 = .readTimeout := by
        intro hread
        have hnot := (ih.mp hread).1
        rw [hends] at hnot
        cases hnot
      rw [List.find?_cons_of_pos hending]
      simp only [List.mem_cons, exists_eq_or_imp, hrest, or_false, htriggered, true_and]
      simp [herror]
    | false =>
      rw [hends] at hending
      have hother : error ≠ .readTimeout := by
        rintro rfl
        cases hends
      rw [List.find?_cons_of_neg (by simp [hending])]
      simp only [List.mem_cons, exists_eq_or_imp, hother, false_or]
      apply ih.trans
      rw [hends, htriggered]

/-- A pass ends the connection only with a job that it reports. -/
theorem exists_endsConnection {jobs : List TimedJob}
    (h : (collectExpired timeouts now connectionUnconsumed triggered jobs).triggered = true) :
    triggered = true ∨
      ∃ e ∈ (collectExpired timeouts now connectionUnconsumed triggered jobs).expired,
        e.2.endsConnection = true := by
  fun_induction collectExpired timeouts now connectionUnconsumed triggered jobs with
  | case1 triggered => exact .inl h
  | case2 triggered job jobs hskip rest ih => exact ih h
  | case3 triggered job jobs hlook next herror rest ih => exact ih h
  | case4 triggered job jobs hlook next error herror rest ih =>
    right
    rcases ih h with hends | ⟨e, he, hends⟩
    · exact ⟨_, List.mem_cons_self, hends⟩
    · exact ⟨e, List.mem_cons_of_mem _ he, hends⟩

/-- What a pass reports of a job. -/
theorem mem_collectExpired {jobs : List TimedJob} {e : TimedJob × ErrorCode}
    (h : e ∈ (collectExpired timeouts now connectionUnconsumed triggered jobs).expired) :
    ∃ job ∈ jobs, e.1 = job.expireJob timeouts now connectionUnconsumed ∧
      job.timeoutError timeouts now connectionUnconsumed = some e.2 := by
  fun_induction collectExpired timeouts now connectionUnconsumed triggered jobs with
  | case1 triggered => cases h
  | case2 triggered job jobs hskip rest ih =>
    obtain ⟨other, hmem, hother⟩ := ih h
    exact ⟨other, List.mem_cons_of_mem _ hmem, hother⟩
  | case3 triggered job jobs hlook next herror rest ih =>
    obtain ⟨other, hmem, hother⟩ := ih h
    exact ⟨other, List.mem_cons_of_mem _ hmem, hother⟩
  | case4 triggered job jobs hlook next error herror rest ih =>
    rcases List.mem_cons.mp h with rfl | hrest
    · exact ⟨job, List.mem_cons_self, rfl, herror⟩
    · obtain ⟨other, hmem, hother⟩ := ih hrest
      exact ⟨other, List.mem_cons_of_mem _ hmem, hother⟩

theorem ne_quic_of_mem {jobs : List TimedJob} {e : TimedJob × ErrorCode}
    (h : e ∈ (collectExpired timeouts now connectionUnconsumed triggered jobs).expired) :
    e.2 ≠ .quic := by
  obtain ⟨job, -, -, herror⟩ := mem_collectExpired h
  intro hquic
  rw [hquic] at herror
  exact TimedJob.timeoutError_ne_quic herror

theorem mem_failRemaining {jobs : List TimedJob} {e : TimedJob × ErrorCode}
    (h : e ∈ failRemaining jobs) : e.2 = .quic := by
  obtain ⟨job, -, rfl⟩ := List.mem_map.mp h
  rfl

end

/-! ### Which jobs a connection reports -/

namespace TimedClient

variable {client : TimedClient} {now : ℕ}

/-- The passes over the two queues. -/
def pendingPass (client : TimedClient) (now : ℕ) : Collected :=
  collectExpired client.timeouts now client.connectionUnconsumed false client.pendingJobs

def activePass (client : TimedClient) (now : ℕ) : Collected :=
  collectExpired client.timeouts now client.connectionUnconsumed (client.pendingPass now).triggered
    client.activeJobs

/-- What is reported comes from a pass, or the connection ends and takes the job along. -/
theorem mem_expireRequests {e : TimedJob × ErrorCode} (h : e ∈ (client.expireRequests now).2) :
    (e ∈ (client.pendingPass now).expired ∨ e ∈ (client.activePass now).expired) ∨
      ((client.activePass now).triggered = true ∧ e.2 = .quic) := by
  unfold expireRequests at h
  dsimp only at h
  split_ifs at h with htriggered
  · rcases List.mem_append.mp h with h | hactive
    · rcases List.mem_append.mp h with h | hpending
      · exact .inl (List.mem_append.mp h)
      · exact .inr ⟨htriggered, mem_failRemaining hpending⟩
    · exact .inr ⟨htriggered, mem_failRemaining hactive⟩
  · exact .inl (List.mem_append.mp h)

theorem expired_of_pass {e : TimedJob × ErrorCode}
    (h : e ∈ (client.pendingPass now).expired ∨ e ∈ (client.activePass now).expired) :
    e ∈ (client.expireRequests now).2 := by
  have hmem := List.mem_append.mpr h
  unfold expireRequests
  dsimp only
  split_ifs with htriggered
  · exact List.mem_append_left _ (List.mem_append_left _ hmem)
  · exact hmem

theorem state_of_not_triggered (h : (client.activePass now).triggered = false) :
    (client.expireRequests now).1.state = client.state := by
  unfold expireRequests
  dsimp only
  rw [if_neg]
  exact Bool.eq_false_iff.mp h

theorem exists_read_iff_pass :
    (∃ e ∈ (client.expireRequests now).2, e.2 = .readTimeout) ↔
      (∃ e ∈ (client.pendingPass now).expired, e.2 = .readTimeout) ∨
        ∃ e ∈ (client.activePass now).expired, e.2 = .readTimeout := by
  constructor
  · rintro ⟨e, he, hread⟩
    rcases mem_expireRequests he with (hpending | hactive) | ⟨-, hquic⟩
    · exact .inl ⟨e, hpending, hread⟩
    · exact .inr ⟨e, hactive, hread⟩
    · rw [hread] at hquic
      cases hquic
  · rintro (⟨e, he, hread⟩ | ⟨e, he, hread⟩)
    · exact ⟨e, expired_of_pass (.inl he), hread⟩
    · exact ⟨e, expired_of_pass (.inr he), hread⟩

theorem exists_read_iff :
    (∃ e ∈ (client.expireRequests now).2, e.2 = .readTimeout) ↔
      ∃ job, (client.pendingJobs ++ client.activeJobs).find?
          (TimedJob.ending client.timeouts now client.connectionUnconsumed) = some job ∧
        job.timeoutError client.timeouts now client.connectionUnconsumed = some .readTimeout := by
  have htriggered : (client.pendingPass now).triggered = false ↔
      client.pendingJobs.find?
        (TimedJob.ending client.timeouts now client.connectionUnconsumed) = none := by
    unfold pendingPass
    rw [collectExpired_triggered, Bool.false_or, List.any_eq_false, List.find?_eq_none]
  rw [exists_read_iff_pass, pendingPass, activePass, collectExpired_read, collectExpired_read,
    htriggered, List.find?_append]
  cases client.pendingJobs.find?
    (TimedJob.ending client.timeouts now client.connectionUnconsumed) with
  | none => simp
  | some job => simp

/-- A connection that ends does so with a job that a pass reports. -/
theorem exists_endsConnection_of_triggered (h : (client.activePass now).triggered = true) :
    ∃ e ∈ (client.expireRequests now).2, e.2.endsConnection = true := by
  rcases exists_endsConnection h with hpending | ⟨e, he, hends⟩
  · rcases exists_endsConnection hpending with hfalse | ⟨e, he, hends⟩
    · cases hfalse
    · exact ⟨e, expired_of_pass (.inl he), hends⟩
  · exact ⟨e, expired_of_pass (.inr he), hends⟩

/-- The peer is blamed for no missing data: there is no read timeout, and what ends the
connection is another timeout. -/
structure BlamesNoReader (client : TimedClient) (now : ℕ) : Prop where
  read : ∀ e ∈ (client.expireRequests now).2, e.2 ≠ .readTimeout
  drained : (client.expireRequests now).1.state ≠ client.state ∨
      (∃ e ∈ (client.expireRequests now).2, e.2 = .quic) →
    ∃ e ∈ (client.expireRequests now).2, e.2 = .responseHeadersTimeout ∨ e.2 = .writeTimeout

theorem blamesNoReader_iff :
    client.BlamesNoReader now ↔ ¬∃ e ∈ (client.expireRequests now).2, e.2 = .readTimeout := by
  constructor
  · rintro h ⟨e, he, hread⟩
    exact h.read e he hread
  · intro h
    have hread : ∀ e ∈ (client.expireRequests now).2, e.2 ≠ .readTimeout := by
      intro e he heq
      exact h ⟨e, he, heq⟩
    refine ⟨hread, ?_⟩
    intro hdrained
    have htriggered : (client.activePass now).triggered = true := by
      rcases hdrained with hstate | ⟨e, he, hquic⟩
      · by_contra hnot
        exact hstate (state_of_not_triggered (by simpa using hnot))
      · rcases mem_expireRequests he with (hpass | hpass) | ⟨htriggered, -⟩
        · exact absurd hquic (ne_quic_of_mem hpass)
        · exact absurd hquic (ne_quic_of_mem hpass)
        · exact htriggered
    obtain ⟨e, he, hends⟩ := exists_endsConnection_of_triggered htriggered
    refine ⟨e, he, ?_⟩
    exact (ErrorCode.eq_of_endsConnection hends).resolve_left (hread e he)

/-! ### Local backpressure -/

/-- A job whose response does not come through a callback, whose application does not
hold the peer back, and whose read deadline has elapsed. -/
def bufferedReadDue (timeouts : QuicTimeouts) (now : ℕ) (job : TimedJob) : Bool :=
  job.live && !job.callElapsed timeouts now && job.readElapsed timeouts now && !job.streaming

/-- A job with an elapsed deadline of its peer. -/
def peerDue (timeouts : QuicTimeouts) (now : ℕ) (job : TimedJob) : Bool :=
  job.live && !job.callElapsed timeouts now &&
    (job.responseHeadersElapsed timeouts now || (job.readElapsed timeouts now && !job.streaming) ||
      job.writeElapsed timeouts now)

/-- Once the connection limit is reached, every streaming consumer blocks its job. -/
theorem consumerBlocked_of_limit {connectionUnconsumed : ℕ}
    (h : kReceiveBufferPerConnectionLimit ≤ connectionUnconsumed) (job : TimedJob) :
    job.consumerBlocked connectionUnconsumed = job.streaming := by
  simp [TimedJob.consumerBlocked, receiveCreditBlockedByConsumer, h]

theorem ending_eq_peerDue {timeouts : QuicTimeouts} {connectionUnconsumed : ℕ}
    (h : kReceiveBufferPerConnectionLimit ≤ connectionUnconsumed) :
    TimedJob.ending timeouts now connectionUnconsumed = peerDue timeouts now := by
  funext job
  simp [TimedJob.ending, TimedJob.endsConnection_eq, peerDue, TimedJob.readDue,
    consumerBlocked_of_limit h, Bool.and_assoc]

theorem timeoutError_iff_bufferedReadDue {timeouts : QuicTimeouts} {connectionUnconsumed : ℕ}
    {job : TimedJob} (h : kReceiveBufferPerConnectionLimit ≤ connectionUnconsumed)
    (hlive : job.live = true) :
    job.timeoutError timeouts now connectionUnconsumed = some .readTimeout ↔
      bufferedReadDue timeouts now job = true := by
  rw [TimedJob.timeoutError_eq_readTimeout_iff]
  simp [bufferedReadDue, TimedJob.readDue, consumerBlocked_of_limit h, hlive, and_assoc]

/-- A streaming job that has reached its stream limit is not reported with a read timeout. -/
theorem streamLimit_no_read {e : TimedJob × ErrorCode} (h : e ∈ (client.expireRequests now).2)
    (hstreaming : e.1.streaming = true)
    (hlimit : kReceiveBufferPerStreamHighWatermark ≤ e.1.deliveredUnconsumedBytes) :
    e.2 ≠ .readTimeout := by
  have hpass : ∀ {triggered : Bool} {jobs : List TimedJob},
      e ∈ (collectExpired client.timeouts now client.connectionUnconsumed triggered jobs).expired →
        e.2 ≠ .readTimeout := by
    intro triggered jobs hmem hread
    obtain ⟨job, -, hjob, herror⟩ := mem_collectExpired hmem
    rw [hread] at herror
    have hdue := (TimedJob.timeoutError_eq_readTimeout_iff.mp herror).2
    rw [hjob] at hstreaming hlimit
    have hblocked : job.consumerBlocked client.connectionUnconsumed = true := by
      simp only [TimedJob.expireJob] at hstreaming hlimit
      simp [TimedJob.consumerBlocked, receiveCreditBlockedByConsumer, hstreaming, hlimit]
    simp [TimedJob.readDue, hblocked] at hdue
  rcases mem_expireRequests h with (hpending | hactive) | ⟨-, hquic⟩
  · exact hpass hpending
  · exact hpass hactive
  · rw [hquic]
    decide

/-- For all jobs and every clock reading, a streaming job that has reached its stream limit
gets no read timeout; and while the connection limit is reached, no peer is blamed for
missing data if and only if the first job with an elapsed deadline of its peer is not a
buffered one whose read deadline has elapsed. -/
theorem expireRequests_blamesNoReader_iff (client : TimedClient) (now : ℕ) :
    (∀ e ∈ (client.expireRequests now).2, e.1.streaming = true →
        kReceiveBufferPerStreamHighWatermark ≤ e.1.deliveredUnconsumedBytes → e.2 ≠ .readTimeout) ∧
      ((kReceiveBufferPerConnectionLimit ≤ client.connectionUnconsumed → client.BlamesNoReader now) ↔
        (kReceiveBufferPerConnectionLimit ≤ client.connectionUnconsumed →
          ∀ job, (client.pendingJobs ++ client.activeJobs).find? (peerDue client.timeouts now) =
              some job →
            bufferedReadDue client.timeouts now job = false)) := by
  refine ⟨fun e he => streamLimit_no_read he, ?_⟩
  apply forall_congr'
  intro hlimit
  rw [blamesNoReader_iff, exists_read_iff, ending_eq_peerDue hlimit, not_exists]
  apply forall_congr'
  intro job
  rw [not_and]
  apply forall_congr'
  intro hfirst
  have hdue := List.find?_some hfirst
  have hlive : job.live = true := by
    simp only [peerDue, Bool.and_eq_true] at hdue
    exact hdue.1.1
  rw [timeoutError_iff_bufferedReadDue hlimit hlive, Bool.not_eq_true]

/-- Eight streams that the application does not read, and a buffered response beside them. -/
def backpressured : TimedClient where
  timeouts := { readMs := 30 }
  activeJobs :=
    { handle := 1, streamId := 0, sawHeaders := true, submittedAt := 1, lastReadProgressAt := 1 } ::
      List.replicate 8
        { streamId := 4
          streaming := true
          sawHeaders := true
          submittedAt := 1
          lastReadProgressAt := 1
          deliveredUnconsumedBytes := kReceiveBufferPerStreamHighWatermark }
  state := .active

/-- The buffered response is reported with a read timeout, and all streams are failed. -/
theorem expireRequests_blames_backpressured :
    kReceiveBufferPerConnectionLimit ≤ backpressured.connectionUnconsumed ∧
      (backpressured.expireRequests 30000001).1.state = .draining ∧
        (backpressured.expireRequests 30000001).2.map (fun e => (e.1.handle, e.2)) =
          (1, .readTimeout) :: List.replicate 8 (0, .quic) ∧
        ¬backpressured.BlamesNoReader 30000001 := by
  refine ⟨by decide, by decide, by decide, ?_⟩
  rw [blamesNoReader_iff, not_not]
  decide

end TimedClient

end KatHttp3
