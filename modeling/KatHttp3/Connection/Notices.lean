import KatHttp3.Connection.Worker

/-!
# What a client tells the engine

The jobs for which the functions of `quic_client.cc` call `notify_job_complete`,
`notify_job_error` or, in `fail_all_pending`, `on_job_error`, and a worker with the
record of these calls. A client that `get_or_create_client` removes is stopped like
one that is closed, and destroyed once its worker has returned.
-/

namespace KatHttp3

/-- The request is cancelled or answered. -/
def ClientJob.isOver (job : ClientJob) : Bool := job.cancelled || job.completed

namespace Client

variable (client : Client)

def held : List ClientJob := client.pending ++ client.active

def handles : List ℕ := client.held.map ClientJob.handle

/-! ### Notifications -/

/-- The requests that the submission loop fails. -/
def submitReports : List ClientJob → List SubmitAnswer → Client → List ℕ
  | [], _, _ => []
  | job :: rest, answers, client =>
    if job.cancelled then submitReports rest answers client
    else if client.holdsBack job then []
    else
      match answers with
      | [] | .blocked :: _ => []
      | .failed :: answers => job.handle :: submitReports rest answers client
      | .refused :: answers => job.handle :: submitReports rest answers client.openBidiStream
      | .accepted :: answers => submitReports rest answers (client.accept job)

def trySubmitReports (answers : List SubmitAnswer) : List ℕ :=
  if client.isDraining || !client.http3Ready || !client.sessionReady then []
  else submitReports client.pending answers client

def submitOutsideWindowReports (answers : List SubmitAnswer) : List ℕ :=
  if client.precommitFailoverWindow then [] else client.trySubmitReports answers

def handshakeCompletedReports (codec : Bool) (answers : List SubmitAnswer) : List ℕ :=
  if client.http3Ready || client.session.isNone then []
  else if codec then client.setupCodec.submitOutsideWindowReports answers
  else []

def handshakeConfirmedReports (answers : List SubmitAnswer) : List ℕ :=
  let client := { client with handshakeConfirmed := true, state := .active }
  if client.precommitFailoverWindow then client.closeWindow.trySubmitReports answers else []

/-- The job about which nghttp3 reports the close of a stream. -/
def closes (streamId : ℤ) : Option ℕ :=
  client.session.bind fun session =>
    if session.ready && session.userData.any (·.1 == streamId) then session.findJob streamId
    else none

/-- `stream_close_cb`: an error, unless the response is complete. -/
def streamCloseReports (streamId : ℤ) : List ℕ :=
  match client.closes streamId with
  | none => []
  | some handle =>
    if client.held.any fun job => job.handle == handle && job.completed then [] else [handle]

def goawayReports (streamId : Option ℤ) : List ℕ :=
  (client.active.filter fun job => streamId.any (· ≤ job.streamId)).map ClientJob.handle

def endStreamReports (streamId : ℤ) : List ℕ :=
  (client.session.bind (·.findJob streamId)).toList

def expireReports (expired : List ℕ) : List ℕ :=
  (client.held.filter fun job => decide (job.handle ∈ expired) && !job.cancelled).map
    ClientJob.handle

def setupConnectionReports : SetupResult → List ℕ
  | .ready early codec answers =>
    if early && codec then (client.openSession early).setupCodec.submitOutsideWindowReports answers
    else []
  | _ => []

def adoptReports (adoption : Adoption) : List ℕ :=
  match (client.beginAdoption adoption.winner adoption.attempted).onHandshakeCompleted
    adoption.codec [] with
  | (_, false) => []
  | (client, true) =>
    adoption.goaway.elim [] client.goawayReports ++
      if adoption.buffered && adoption.confirmed then
        ((adoption.goaway.elim client client.onGoaway).confirmConnection).handshakeConfirmedReports
          adoption.answers
      else []

/-- The job that `cancel_job` marks. -/
def cancelTarget (id : ℤ) : Option ℕ :=
  ((client.pending.find? (·.id == id)).or (client.active.find? (·.id == id))).map ClientJob.handle

end Client

namespace Worker

def eventReports (client : Client) : LoopEvent → List ℕ
  | .handshakeCompleted codec answers =>
    if client.connection.adopted then [] else client.handshakeCompletedReports codec answers
  | .handshakeConfirmed answers =>
    let client := client.confirmConnection
    if client.connection.adopted then [] else client.handshakeConfirmedReports answers
  | .extendMaxStreams answers => client.trySubmitReports answers
  | .streamClose streamId => client.streamCloseReports streamId
  | .goaway streamId => client.goawayReports streamId
  | .endStream streamId => client.endStreamReports streamId
  | .expire expired _ => client.expireReports expired
  | .iterate answers => client.trySubmitReports answers
  | .earlyDataRejected | .dataRead _ _ => []

/-! ### The end of `run()` -/

/-- Whether a step is the last one of the worker, and then whether it goes through
`fail_all_pending`. -/
inductive Ending
  | goesOn
  | failsAll
  | returns
  deriving DecidableEq

def raceEnding (client : Client) : Ending :=
  if client.stop = false ∧
      (client.terminalError = .networkLost ∨ client.canFailOverBeforeRequestCommit = false) then
    .failsAll
  else .returns

def sequentialEnding (client : Client) (connectionFailed : Bool) : Ending :=
  if connectionFailed ∨ client.handshakeConfirmed = false then .failsAll else .returns

def failEnding (path : LoopPath) (client : Client) (tls : Option ErrorCode) : Ending :=
  match path with
  | .raced =>
    if client.stop = false ∧ client.terminalError ≠ .networkLost ∧
        client.canFailOverBeforeRequestCommit = true then .goesOn
    else raceEnding client
  | .fallback =>
    if client.stop = false ∧ client.canFailOverBeforeRequestCommit = true then .goesOn
    else raceEnding client
  | .sequential =>
    if client.terminalError = .networkLost ∨ isCertificateFailure tls then
      sequentialEnding client true
    else .goesOn

def ending (worker : Worker) : WorkerStep → Ending
  | .start => if worker.client.hasLivePendingJob then .goesOn else .returns
  | .resolved endpoints _ _ => if endpoints = [] then .failsAll else .goesOn
  | .raceFailed error =>
    if error.getD worker.client.terminalError = .networkLost then .failsAll else .goesOn
  | .connectTimeout | .leave => sequentialEnding worker.client false
  | .exhausted => raceEnding worker.client
  | .event event =>
    match worker.control with
    | .looping path =>
      if (onEvent worker.client event).2 then .goesOn else failEnding path worker.client none
    | _ => .goesOn
  | .fatal error tls =>
    match worker.control with
    | .looping path =>
      failEnding path
        { worker.client with terminalError := error.getD worker.client.terminalError } tls
    | _ => .goesOn
  | .quit =>
    match worker.control with
    | .looping .sequential => sequentialEnding worker.client false
    | _ => .returns
  | _ => .goesOn

/-- The jobs about which the engine is told in a step, before the worker ends. -/
def stepReports (worker : Worker) : WorkerStep → List ℕ
  | .adopt adoption => worker.client.adoptReports adoption
  | .attempt result => worker.client.setupConnectionReports result
  | .restart result =>
    match worker.client.precommitFallbackEndpoints with
    | [] => []
    | _ :: rest =>
      let client := { worker.client with precommitFallbackEndpoints := rest }
      client.discardCurrentConnection.setupConnectionReports result
  | .event event => eventReports worker.client event
  | _ => []

def reports (worker : Worker) (i : WorkerStep) : List ℕ :=
  worker.stepReports i ++ if worker.ending i = .failsAll then worker.client.handles else []

end Worker

/-! ### A client from its first job to its end -/

/-- A worker, the jobs about which it told the engine, the jobs that the application
cancelled, and whether the client has been destroyed. -/
structure Service where
  worker : Worker := {}
  reported : List ℕ := []
  withdrawn : List ℕ := []
  destroyed : Bool := false
  deriving DecidableEq

inductive ServiceStep
  | work (i : WorkerStep)
  /-- `fail_all_pending` is called, and jobs arrive between the critical section that
  collects the jobs and the one that clears the queues. -/
  | overtaken (i : WorkerStep) (late : List (ℤ × Request))
  | destroy
  deriving DecidableEq

namespace Service

def withdraws (client : Client) : WorkerStep → List ℕ
  | .cancel id => (client.cancelTarget id).toList
  | _ => []

/-- Jobs that arrive are cleared with the others. -/
def overtake (client : Client) (late : List (ℤ × Request)) : Client :=
  (late.foldl (fun client job => client.submitJob job.1 job.2) client).failAllPending

def step (service : Service) : ServiceStep → Option Service
  | .work i =>
    if service.destroyed then none
    else
      (service.worker.step i).map fun worker =>
        { service with
          worker := worker
          reported := service.reported ++ service.worker.reports i
          withdrawn := service.withdrawn ++ withdraws service.worker.client i }
  | .overtaken i late =>
    if service.destroyed ∨ service.worker.ending i ≠ .failsAll then none
    else
      (service.worker.step i).map fun worker =>
        { service with
          worker := { worker with client := overtake worker.client late }
          reported := service.reported ++ service.worker.reports i }
  | .destroy =>
    if service.destroyed = false ∧
        (service.worker.control = .done ∨ service.worker.client.jobs = 0) then
      some { service with
        worker := { service.worker with client := service.worker.client.failAllPending }
        destroyed := true }
    else none

/-- The engine has been told of the job, or the application has cancelled it. -/
def Told (service : Service) (handle : ℕ) : Prop :=
  handle ∈ service.reported ∨ handle ∈ service.withdrawn

end Service

end KatHttp3
