import KatHttp3.Connection.Client
import KatHttp3.Library.Transition

/-!
# The connection worker

`run()`, its handshake race and its event loop as a transition system. A step is
a callback of ngtcp2 or nghttp3, a part of an iteration of the event loop, an
attempt to connect, or a call from another thread. Time, sockets and packets
appear only as the choice of the next step.
-/

namespace KatHttp3

/-- Which call of `event_loop` runs. -/
inductive LoopPath
  /-- On the winner of the handshake race. -/
  | raced
  /-- On an endpoint that `restart_precommit_fallback` connected to. -/
  | fallback
  /-- On an endpoint of the sequential loop. -/
  | sequential
  deriving DecidableEq

/-- Where the worker is. -/
inductive Control
  | idle
  | resolving
  | racing
  | looping (path : LoopPath)
  /-- In `restart_precommit_fallback`. -/
  | retrying
  /-- At the head of the sequential loop. -/
  | attempting
  | done
  deriving DecidableEq

structure Worker where
  client : Client := {}
  control : Control := .idle
  deriving DecidableEq

/-- What happens in the event loop. -/
inductive LoopEvent
  | handshakeCompleted (codec : Bool) (answers : List Client.SubmitAnswer)
  | handshakeConfirmed (answers : List Client.SubmitAnswer)
  | extendMaxStreams (answers : List Client.SubmitAnswer)
  | streamClose (streamId : ℤ)
  | goaway (streamId : Option ℤ)
  | earlyDataRejected
  | endStream (streamId : ℤ)
  | dataRead (streamId : ℤ) (offered : ℕ)
  | expire (expired : List ℕ) (draining : Bool)
  /-- `try_submit_pending` at the end of an iteration. -/
  | iterate (answers : List Client.SubmitAnswer)
  deriving DecidableEq

inductive WorkerStep
  | submit (id : ℤ) (request : Request)
  | cancel (id : ℤ)
  | close
  | start
  /-- `prepare_endpoints` returns; a handshake race may follow. -/
  | resolved (endpoints : List ResolvedEndpoint) (race : Bool) (error : ErrorCode)
  | adopt (adoption : Client.Adoption)
  | raceFailed (error : Option ErrorCode)
  /-- One more endpoint of the sequential loop. -/
  | attempt (result : Client.SetupResult)
  | connectTimeout
  /-- The sequential loop ends because its condition fails. -/
  | leave
  /-- One more endpoint of `restart_precommit_fallback`. -/
  | restart (result : Client.SetupResult)
  /-- `restart_precommit_fallback` finds nothing more to try. -/
  | exhausted
  | event (event : LoopEvent)
  /-- `event_loop` returns -1, with errors of its own or of TLS. -/
  | fatal (error : Option ErrorCode) (tls : Option ErrorCode)
  /-- `event_loop` returns 0. -/
  | quit
  deriving DecidableEq

namespace Worker

/-- The TLS failures after which no other endpoint is tried. -/
def isCertificateFailure (code : Option ErrorCode) : Bool :=
  code == some .certificateVerify || code == some .hostnameMismatch ||
    code == some .noTrustProvider

/-- The worker returns. -/
def exit (client : Client) : Worker :=
  { client := { client with connected := false, state := .closed }, control := .done }

/-- The end of `run()` after the race was won and `event_loop` failed. -/
def finishRaced (client : Client) : Worker :=
  if client.stop = false ∧
      (client.terminalError = .networkLost ∨ client.canFailOverBeforeRequestCommit = false) then
    exit client.failAllPending
  else exit client

/-- The end of `run()` after the sequential loop. -/
def finishSequential (client : Client) (connectionFailed : Bool) : Worker :=
  if connectionFailed ∨ client.handshakeConfirmed = false then exit client.failAllPending
  else exit client

/-- The condition of the sequential loop. -/
def mayAttempt (client : Client) : Bool :=
  client.endpointIdx < client.endpoints.length && !client.stop && !client.handshakeConfirmed

/-- A fatal error of the event loop. -/
def fail (path : LoopPath) (client : Client) (tls : Option ErrorCode) : Worker :=
  match path with
  | .raced =>
    if client.stop = false ∧ client.terminalError ≠ .networkLost ∧
        client.canFailOverBeforeRequestCommit = true then
      { client := client, control := .retrying }
    else finishRaced client
  | .fallback =>
    if client.stop = false ∧ client.canFailOverBeforeRequestCommit = true then
      { client := client, control := .retrying }
    else finishRaced client
  | .sequential =>
    if client.terminalError = .networkLost ∨ isCertificateFailure tls then
      finishSequential client true
    else
      { client := { client with endpointIdx := client.endpointIdx + 1, connected := false }
        control := .attempting }

/-- What an event does to the client; false where its callback fails. -/
def onEvent (client : Client) : LoopEvent → Client × Bool
  | .handshakeCompleted codec answers =>
    if client.connection.adopted then (client, true)
    else client.onHandshakeCompleted codec answers
  | .handshakeConfirmed answers =>
    let client := client.confirmConnection
    -- the callback of an adopted candidate only sets a field of the candidate
    (if client.connection.adopted then client else client.onHandshakeConfirmed answers, true)
  | .extendMaxStreams answers => (client.trySubmitPending answers, true)
  | .streamClose streamId => (client.onStreamClose streamId, true)
  | .goaway streamId => (client.onGoaway streamId, true)
  | .earlyDataRejected =>
    -- ngtcp2 reports it at most once, before the handshake is confirmed, and
    -- forgets the streams of the connection
    (if client.connection.early then client.forgetStreams.onEarlyDataRejected else client, true)
  | .endStream streamId => (client.onEndStream streamId, true)
  | .dataRead streamId offered => (client.onDataRead streamId offered, true)
  | .expire expired draining => (client.expireRequests expired draining, true)
  | .iterate answers => (client.trySubmitPending answers, true)

def step (worker : Worker) : WorkerStep → Option Worker
  | .submit id request => some { worker with client := worker.client.submitJob id request }
  | .cancel id => some { worker with client := worker.client.cancelJob id }
  | .close => some { worker with client := { worker.client with stop := true } }
  | .start =>
    if worker.control = .idle then
      some
        (if worker.client.hasLivePendingJob then { worker with control := .resolving }
        else exit worker.client)
    else none
  | .resolved endpoints race error =>
    if worker.control = .resolving then
      some
        (if endpoints = [] then
          exit { worker.client.failAllPending with terminalError := error }
        else
          { client := { worker.client with endpoints := endpoints }
            control := if race then .racing else .attempting })
    else none
  | .adopt adoption =>
    if worker.control = .racing then
      match worker.client.adoptHandshakeWinner adoption with
      | (client, true) => some { client := client, control := .looping .raced }
      | (client, false) => some { client := client, control := .attempting }
    else none
  | .raceFailed error =>
    if worker.control = .racing then
      let client := { worker.client with terminalError := error.getD worker.client.terminalError }
      some
        (if client.terminalError = .networkLost then exit client.failAllPending
        else { client := client, control := .attempting })
    else none
  | .attempt result =>
    if worker.control = .attempting ∧ mayAttempt worker.client then
      match worker.client.setupConnection result with
      | (client, true) => some { client := client, control := .looping .sequential }
      | (client, false) =>
        some
          { client := { client with endpointIdx := client.endpointIdx + 1 }
            control := .attempting }
    else none
  | .connectTimeout =>
    if worker.control = .attempting ∧ mayAttempt worker.client then
      some (finishSequential { worker.client with terminalError := .connectTimeout } false)
    else none
  | .leave =>
    if worker.control = .attempting ∧ mayAttempt worker.client = false then
      some (finishSequential worker.client false)
    else none
  | .restart result =>
    if worker.control = .retrying ∧ worker.client.stop = false then
      match worker.client.precommitFallbackEndpoints with
      | [] => none
      | _ :: rest =>
        let client := { worker.client with precommitFallbackEndpoints := rest }
        match client.discardCurrentConnection.setupConnection result with
        | (client, true) => some { client := client, control := .looping .fallback }
        | (client, false) => some { client := client, control := .retrying }
    else none
  | .exhausted =>
    if worker.control = .retrying ∧
        (worker.client.precommitFallbackEndpoints = [] ∨ worker.client.stop) then
      some (finishRaced worker.client)
    else none
  | .event event =>
    match worker.control with
    | .looping path =>
      match onEvent worker.client event with
      | (client, true) => some { worker with client := client }
      | (client, false) => some (fail path client none)
    | _ => none
  | .fatal error tls =>
    match worker.control with
    | .looping path =>
      some
        (fail path
          { worker.client with terminalError := error.getD worker.client.terminalError } tls)
    | _ => none
  | .quit =>
    match worker.control with
    | .looping .sequential => some (finishSequential worker.client false)
    | .looping _ => some (exit worker.client)
    | _ => none

/-! ### What a step can do -/

/-- What an event of the loop can do to the client. -/
inductive EventEffect (client : Client) : LoopEvent → Client → Prop
  | unchanged (event : LoopEvent) : EventEffect client event client
  | completed (codec : Bool) (answers : List Client.SubmitAnswer) :
      EventEffect client (.handshakeCompleted codec answers)
        (client.onHandshakeCompleted codec answers).1
  | recorded (answers : List Client.SubmitAnswer) :
      EventEffect client (.handshakeConfirmed answers) client.confirmConnection
  | confirmed (answers : List Client.SubmitAnswer) :
      EventEffect client (.handshakeConfirmed answers)
        (client.confirmConnection.onHandshakeConfirmed answers)
  | extended (answers : List Client.SubmitAnswer) :
      EventEffect client (.extendMaxStreams answers) (client.trySubmitPending answers)
  | iterated (answers : List Client.SubmitAnswer) :
      EventEffect client (.iterate answers) (client.trySubmitPending answers)
  | closed (streamId : ℤ) :
      EventEffect client (.streamClose streamId) (client.onStreamClose streamId)
  | rejected (early : client.connection.early = true) :
      EventEffect client .earlyDataRejected client.forgetStreams.onEarlyDataRejected
  | progressed (event : LoopEvent) {after : Client} (progress : client.Progress after) :
      EventEffect client event after

theorem onEvent_effect (client : Client) (event : LoopEvent) :
    EventEffect client event (onEvent client event).1 := by
  cases event with
  | handshakeCompleted codec answers =>
    by_cases hadopted : client.connection.adopted = true
    · simp only [onEvent, hadopted, if_true]
      exact .unchanged _
    · simp only [onEvent, hadopted]
      exact .completed codec answers
  | handshakeConfirmed answers =>
    by_cases hadopted : client.confirmConnection.connection.adopted = true
    · simp only [onEvent, hadopted, if_true]
      exact .recorded answers
    · simp only [onEvent, hadopted]
      exact .confirmed answers
  | extendMaxStreams answers => exact .extended answers
  | streamClose streamId => exact .closed streamId
  | goaway streamId => exact .progressed _ (client.onGoaway_progress streamId)
  | earlyDataRejected =>
    by_cases hearly : client.connection.early = true
    · simp only [onEvent, hearly, if_true]
      exact .rejected hearly
    · simp only [onEvent, hearly]
      exact .unchanged _
  | endStream streamId => exact .progressed _ (client.onEndStream_progress streamId)
  | dataRead streamId offered => exact .progressed _ (client.onDataRead_progress streamId offered)
  | expire expired draining => exact .progressed _ (client.expireRequests_progress expired draining)
  | iterate answers => exact .iterated answers

/-- A callback that fails has changed nothing. -/
theorem onEvent_failed {client after : Client} {event : LoopEvent}
    (h : onEvent client event = (after, false)) : after = client := by
  cases event with
  | handshakeCompleted codec answers =>
    simp only [onEvent, Client.onHandshakeCompleted] at h
    split_ifs at h <;> cases h
    rfl
  | _ => cases h

/-- The worker returns, and may fail every job first. -/
inductive Exits (client : Client) : Worker → Prop
  | kept (error : ErrorCode) : Exits client (exit { client with terminalError := error })
  | failed (error : ErrorCode) :
      Exits client (exit (Client.failAllPending { client with terminalError := error }))

theorem Exits.control {client : Client} {after : Worker} (h : Exits client after) :
    after.control = .done := by
  cases h <;> rfl

theorem finishRaced_exits (client : Client) (error : ErrorCode) :
    Exits client (finishRaced { client with terminalError := error }) := by
  unfold finishRaced
  split_ifs
  · exact .failed error
  · exact .kept error

theorem finishSequential_exits (client : Client) (error : ErrorCode) (connectionFailed : Bool) :
    Exits client (finishSequential { client with terminalError := error } connectionFailed) := by
  unfold finishSequential
  split_ifs
  · exact .failed error
  · exact .kept error

/-- What a step can do. -/
inductive StepEffect (worker : Worker) : WorkerStep → Worker → Prop
  | submitted (id : ℤ) (request : Request) :
      StepEffect worker (.submit id request)
        { worker with client := worker.client.submitJob id request }
  | cancelled (id : ℤ) {client : Client} (progress : worker.client.Progress client) :
      StepEffect worker (.cancel id) { worker with client := client }
  | stopped : StepEffect worker .close { worker with client := { worker.client with stop := true } }
  | exited (i : WorkerStep) {after : Worker} (exits : Exits worker.client after) :
      StepEffect worker i after
  | moved (i : WorkerStep) (endpoints : List ResolvedEndpoint) (error : ErrorCode) {dest : Control}
      (control : worker.control = .idle ∨ worker.control = .resolving ∨ worker.control = .racing)
      (target : dest = .resolving ∨ dest = .racing ∨ dest = .attempting) :
      StepEffect worker i
        { client := { worker.client with endpoints := endpoints, terminalError := error }
          control := dest }
  | adopted (adoption : Client.Adoption) {dest : Control} (control : worker.control = .racing)
      (target : dest = .looping .raced ∨ dest = .attempting) :
      StepEffect worker (.adopt adoption)
        { client := (worker.client.adoptHandshakeWinner adoption).1, control := dest }
  | attempted (result : Client.SetupResult) (idx : ℕ) {dest : Control}
      (control : worker.control = .attempting) (may : mayAttempt worker.client = true)
      (target : dest = .looping .sequential ∨ dest = .attempting) :
      StepEffect worker (.attempt result)
        { client := { (worker.client.setupConnection result).1 with endpointIdx := idx }
          control := dest }
  | restarted (result : Client.SetupResult) (rest : List ResolvedEndpoint) {dest : Control}
      (control : worker.control = .retrying)
      (target : dest = .looping .fallback ∨ dest = .retrying ∧ result.succeeds = false) :
      StepEffect worker (.restart result)
        { client :=
            ((Client.discardCurrentConnection
              { worker.client with precommitFallbackEndpoints := rest }).setupConnection result).1
          control := dest }
  | looped (path : LoopPath) (event : LoopEvent) {client : Client}
      (control : worker.control = .looping path) (effect : EventEffect worker.client event client) :
      StepEffect worker (.event event) { worker with client := client }
  | failedOver (i : WorkerStep) (path : LoopPath) (error : ErrorCode)
      (control : worker.control = .looping path)
      (can : worker.client.canFailOverBeforeRequestCommit = true) :
      StepEffect worker i
        { client := { worker.client with terminalError := error }, control := .retrying }
  | continued (i : WorkerStep) (idx : ℕ) (error : ErrorCode)
      (control : worker.control = .looping .sequential) :
      StepEffect worker i
        { client := { worker.client with
            terminalError := error, endpointIdx := idx, connected := false }
          control := .attempting }

theorem fail_effect {worker : Worker} (i : WorkerStep) {path : LoopPath} (error : ErrorCode)
    (tls : Option ErrorCode) (control : worker.control = .looping path) :
    StepEffect worker i (fail path { worker.client with terminalError := error } tls) := by
  cases path with
  | raced =>
    unfold fail
    dsimp only
    split_ifs with hretry
    · exact .failedOver i .raced error control hretry.2.2
    · exact .exited i (finishRaced_exits worker.client error)
  | fallback =>
    unfold fail
    dsimp only
    split_ifs with hretry
    · exact .failedOver i .fallback error control hretry.2
    · exact .exited i (finishRaced_exits worker.client error)
  | sequential =>
    unfold fail
    dsimp only
    split_ifs
    · exact .exited i (finishSequential_exits worker.client error true)
    · exact .continued i _ error control

theorem step_effect {worker after : Worker} {i : WorkerStep} (h : worker.step i = some after) :
    StepEffect worker i after := by
  cases i with
  | submit id request =>
    obtain rfl := Option.some.inj h
    exact .submitted id request
  | cancel id =>
    obtain rfl := Option.some.inj h
    exact .cancelled id (worker.client.cancelJob_progress id)
  | close =>
    obtain rfl := Option.some.inj h
    exact .stopped
  | start =>
    dsimp only [step] at h
    split_ifs at h with hcontrol hlive <;> obtain rfl := Option.some.inj h
    · exact .moved .start worker.client.endpoints worker.client.terminalError (.inl hcontrol)
        (.inl rfl)
    · exact .exited .start (.kept worker.client.terminalError)
  | resolved endpoints race error =>
    dsimp only [step] at h
    split_ifs at h with hcontrol hempty hrace <;> obtain rfl := Option.some.inj h
    · exact .exited _ (.failed error)
    · exact .moved _ endpoints worker.client.terminalError (.inr (.inl hcontrol)) (.inr (.inl rfl))
    · exact .moved _ endpoints worker.client.terminalError (.inr (.inl hcontrol)) (.inr (.inr rfl))
  | adopt adoption =>
    dsimp only [step] at h
    split_ifs at h with hcontrol
    split at h
    · next client hadopt =>
      obtain rfl := Option.some.inj h
      have := StepEffect.adopted adoption hcontrol (.inl rfl)
      rwa [hadopt] at this
    · next client hadopt =>
      obtain rfl := Option.some.inj h
      have := StepEffect.adopted adoption hcontrol (.inr rfl)
      rwa [hadopt] at this
  | raceFailed error =>
    dsimp only [step] at h
    split_ifs at h with hcontrol hlost <;> obtain rfl := Option.some.inj h
    · exact .exited _ (.failed _)
    · exact .moved _ worker.client.endpoints _ (.inr (.inr hcontrol)) (.inr (.inr rfl))
  | attempt result =>
    dsimp only [step] at h
    split_ifs at h with hcontrol
    split at h
    · next client hsetup =>
      obtain rfl := Option.some.inj h
      have := StepEffect.attempted result client.endpointIdx hcontrol.1 hcontrol.2 (.inl rfl)
      rwa [hsetup] at this
    · next client hsetup =>
      obtain rfl := Option.some.inj h
      have := StepEffect.attempted result (client.endpointIdx + 1) hcontrol.1 hcontrol.2 (.inr rfl)
      rwa [hsetup] at this
  | connectTimeout =>
    dsimp only [step] at h
    split_ifs at h
    obtain rfl := Option.some.inj h
    exact .exited _ (finishSequential_exits worker.client .connectTimeout false)
  | leave =>
    dsimp only [step] at h
    split_ifs at h
    obtain rfl := Option.some.inj h
    exact .exited _ (finishSequential_exits worker.client worker.client.terminalError false)
  | restart result =>
    dsimp only [step] at h
    split_ifs at h with hcontrol
    split at h
    · cases h
    · next rest hrest =>
      split at h
      · next client hsetup =>
        obtain rfl := Option.some.inj h
        have := StepEffect.restarted result rest hcontrol.1 (.inl rfl)
        rwa [hsetup] at this
      · next client hsetup =>
        obtain rfl := Option.some.inj h
        have hfailed : result.succeeds = false := by
          rw [← Client.setupConnection_snd, hsetup]
        have := StepEffect.restarted result rest hcontrol.1 (.inr ⟨rfl, hfailed⟩)
        rwa [hsetup] at this
  | exhausted =>
    dsimp only [step] at h
    split_ifs at h
    obtain rfl := Option.some.inj h
    exact .exited _ (finishRaced_exits worker.client worker.client.terminalError)
  | event event =>
    dsimp only [step] at h
    split at h
    · next path hcontrol =>
      split at h
      · next client hevent =>
        obtain rfl := Option.some.inj h
        have heffect := onEvent_effect worker.client event
        rw [hevent] at heffect
        exact .looped path event hcontrol heffect
      · next client hevent =>
        obtain rfl := Option.some.inj h
        obtain rfl := onEvent_failed hevent
        exact fail_effect _ worker.client.terminalError none hcontrol
    · cases h
  | fatal error tls =>
    dsimp only [step] at h
    split at h
    · next path hcontrol =>
      obtain rfl := Option.some.inj h
      exact fail_effect _ _ tls hcontrol
    · cases h
  | quit =>
    dsimp only [step] at h
    split at h
    · obtain rfl := Option.some.inj h
      exact .exited _ (finishSequential_exits worker.client worker.client.terminalError false)
    · obtain rfl := Option.some.inj h
      exact .exited _ (.kept worker.client.terminalError)
    · cases h

/-! ### Starts of runs -/

def bareGet : Request := { method := "GET".toList }

/-- A request is accepted on the first of some endpoints, without a race. -/
def sequentialRun (request : Request) (endpoints : List ResolvedEndpoint) : List WorkerStep :=
  [.submit 1 request, .start, .resolved endpoints false .dns, .attempt (.ready false true []),
    .event (.handshakeCompleted true [.accepted])]

end Worker

end KatHttp3
