import KatHttp3.Engine.Job

/-!
# The connection worker's client

The fields of a `QuicClient` that decide which requests are on which connection,
and the functions that change them. What ngtcp2, nghttp3 and the network answer
is an argument. A job is named by the number of its object, a connection by the
order of its creation; `openedOn`, `confirmed` and `accepted` only record.
-/

namespace KatHttp3

/-! ### Data -/

inductive Family
  | inet
  | inet6
  deriving DecidableEq

structure ResolvedEndpoint where
  ip : Str
  port : ℕ
  family : Family
  deriving DecidableEq

inductive ConnectionState
  | none
  | connecting
  | active
  | draining
  | closing
  | closed
  deriving DecidableEq

/-- The fields of `Job` that its client uses, and the connection that its
stream was opened on. -/
structure ClientJob where
  handle : ℕ
  id : ℤ
  request : Request
  streamId : ℤ := -1
  nativeRequestCommitted : Bool := false
  cancelled : Bool := false
  completed : Bool := false
  bodySent : ℕ := 0
  openedOn : ℕ := 0
  deriving DecidableEq

/-- The job off its stream. -/
def ClientJob.withdraw (job : ClientJob) : ClientJob := { job with streamId := -1 }

def is0rttReplaySafe (request : Request) : Bool :=
  request.body == [] && !request.streamingBody &&
    (request.method == "GET".toList || request.method == "HEAD".toList) &&
    request.headers.all fun header =>
      header.name != "authorization".toList && header.name != "proxy-authorization".toList &&
        header.name != "cookie".toList

/-- An `ngtcp2_conn`: how many request streams are open or were, whether early
data may still be rejected, and whether the callbacks are a candidate's. -/
structure Connection where
  number : ℕ := 0
  streams : ℕ := 0
  early : Bool := false
  adopted : Bool := false
  confirmed : Bool := false
  deriving DecidableEq

/-- An `Http3Session`: whether its codec is set up, `streams_`, and the user
data of the request streams that nghttp3 has not closed. -/
structure Http3Session where
  ready : Bool := false
  streams : List (ℤ × ℕ) := []
  userData : List (ℤ × ℕ) := []
  deriving DecidableEq

/-- A request that nghttp3 accepted. -/
structure Submission where
  handle : ℕ
  replaySafe : Bool
  earlyDataEnabled : Bool
  confirmed : Bool
  deriving DecidableEq

structure Client where
  pending : List ClientJob := []
  active : List ClientJob := []
  jobs : ℕ := 0
  connection : Connection := {}
  connected : Bool := false
  session : Option Http3Session := none
  http3Ready : Bool := false
  earlyDataEnabled : Bool := false
  handshakeConfirmed : Bool := false
  precommitFailoverWindow : Bool := false
  precommitFallbackEndpoints : List ResolvedEndpoint := []
  endpoints : List ResolvedEndpoint := []
  endpointIdx : ℕ := 0
  state : ConnectionState := .none
  stop : Bool := false
  terminalError : ErrorCode := .quic
  accepted : List Submission := []
  deriving DecidableEq

namespace Http3Session

def findJob (session : Http3Session) (streamId : ℤ) : Option ℕ :=
  (session.streams.find? fun entry => entry.1 == streamId).map Prod.snd

/-- `submit_request`, once nghttp3 accepts. -/
def submitRequest (session : Http3Session) (streamId : ℤ) (handle : ℕ) : Http3Session :=
  { session with
    streams := (streamId, handle) :: session.streams.filter (·.1 != streamId)
    userData := (streamId, handle) :: session.userData }

/-- nghttp3 reports the close of a stream that it knows, and forgets it. -/
def onStreamClose (session : Http3Session) (streamId : ℤ) : Http3Session :=
  if session.ready && session.userData.any (·.1 == streamId) then
    { session with
      streams := session.streams.filter (·.1 != streamId)
      userData := session.userData.filter (·.1 != streamId) }
  else session

end Http3Session

namespace Client

variable (client : Client)

def isDraining : Bool := client.state == .draining

def hasLivePendingJob : Bool := client.pending.any fun job => !job.cancelled

/-! ### Submission -/

/-- How ngtcp2 and nghttp3 answer to one more request. -/
inductive SubmitAnswer
  /-- No stream may be opened now. -/
  | blocked
  /-- Opening a stream fails. -/
  | failed
  /-- A stream is opened, and nghttp3 refuses the request. -/
  | refused
  | accepted
  deriving DecidableEq

def openBidiStream : Client :=
  { client with connection := { client.connection with streams := client.connection.streams + 1 } }

/-- The request streams of a client are 0, 4, 8 and so on. -/
def nextStreamId : ℤ := 4 * client.connection.streams

/-- Requests that wait for the handshake. -/
def holdsBack (job : ClientJob) : Bool :=
  client.earlyDataEnabled && !client.handshakeConfirmed && !is0rttReplaySafe job.request

def accept (job : ClientJob) : Client :=
  { client.openBidiStream with
    session := client.session.map (·.submitRequest client.nextStreamId job.handle)
    active := client.active ++
      [{ job with
          streamId := client.nextStreamId
          nativeRequestCommitted := true
          openedOn := client.connection.number }]
    accepted := client.accepted ++
      [{ handle := job.handle
         replaySafe := is0rttReplaySafe job.request
         earlyDataEnabled := client.earlyDataEnabled
         confirmed := client.connection.confirmed }] }

/-- The loop over the pending jobs. -/
def submitLoop : List ClientJob → List SubmitAnswer → Client → Client
  | [], _, client => { client with pending := [] }
  | job :: rest, answers, client =>
    if job.cancelled then submitLoop rest answers client
    else if client.holdsBack job then { client with pending := job :: rest }
    else
      match answers with
      | [] | .blocked :: _ => { client with pending := job :: rest }
      | .failed :: answers => submitLoop rest answers client
      | .refused :: answers => submitLoop rest answers client.openBidiStream
      | .accepted :: answers => submitLoop rest answers (client.accept job)

def sessionReady : Bool := client.session.any (·.ready)

def trySubmitPending (answers : List SubmitAnswer) : Client :=
  if client.isDraining || !client.http3Ready || !client.sessionReady then client
  else submitLoop client.pending answers client

/-! ### Callbacks -/

/-- A codec is set up, and announced by the client's flag. -/
def setupCodec : Client :=
  { client with
    session := client.session.map fun session => { session with ready := true }
    http3Ready := true }

/-- The gate of the failover window. -/
def submitOutsideWindow (answers : List SubmitAnswer) : Client :=
  if client.precommitFailoverWindow then client else client.trySubmitPending answers

/-- False where setting up the codec fails. -/
def onHandshakeCompleted (codec : Bool) (answers : List SubmitAnswer) : Client × Bool :=
  if client.http3Ready || client.session.isNone then (client, true)
  else if codec then (client.setupCodec.submitOutsideWindow answers, true)
  else (client, false)

def closeWindow : Client :=
  { client with precommitFailoverWindow := false, precommitFallbackEndpoints := [] }

def onHandshakeConfirmed (answers : List SubmitAnswer) : Client :=
  let client := { client with handshakeConfirmed := true, state := .active }
  if client.precommitFailoverWindow then client.closeWindow.trySubmitPending answers else client

def onStreamClose (streamId : ℤ) : Client :=
  let active := client.active.eraseP fun job => job.streamId == streamId
  { client with
    session := client.session.map (·.onStreamClose streamId)
    active := active
    stop := client.stop || client.isDraining && active == [] }

/-- The argument is `none` for a shutdown notice. -/
def onGoaway (streamId : Option ℤ) : Client :=
  { client with
    state := .draining
    active := client.active.map fun job =>
      if streamId.any (· ≤ job.streamId) then { job with cancelled := true } else job }

/-- ngtcp2 forgets the streams that were opened for early data. -/
def forgetStreams : Client :=
  { client with connection := { client.connection with early := false, streams := 0 } }

def onEarlyDataRejected : Client :=
  if client.earlyDataEnabled then
    { client with
      earlyDataEnabled := false
      pending := client.pending ++ client.active.map ClientJob.withdraw
      active := []
      session := some {}
      http3Ready := false }
  else client

/-- Changes the object of one job. -/
def update (handle : ℕ) (f : ClientJob → ClientJob) : Client :=
  let change := fun job : ClientJob => if job.handle = handle then f job else job
  { client with pending := client.pending.map change, active := client.active.map change }

/-- `end_stream_cb`. -/
def onEndStream (streamId : ℤ) : Client :=
  match client.session.bind (·.findJob streamId) with
  | none => client
  | some handle => client.update handle fun job => { job with completed := true }

/-- `data_read_cb` offers so many bytes. -/
def onDataRead (streamId : ℤ) (offered : ℕ) : Client :=
  match client.session.bind fun session => session.userData.find? (·.1 == streamId) with
  | none => client
  | some (_, handle) =>
    client.update handle fun job => { job with bodySent := job.bodySent + offered }

/-- Some jobs time out; some timeouts drain the connection. -/
def expireRequests (expired : List ℕ) (draining : Bool) : Client :=
  let expire := fun job : ClientJob =>
    if job.handle ∈ expired then { job with cancelled := true } else job
  { client with
    pending := client.pending.map expire
    active := client.active.map expire
    state := if draining then .draining else client.state }

/-! ### Calls from other threads -/

def submitJob (id : ℤ) (request : Request) : Client :=
  { client with
    pending := client.pending ++ [{ handle := client.jobs, id := id, request := request }]
    jobs := client.jobs + 1 }

/-- Cancels the first job with an id. -/
def cancelFirst (id : ℤ) : List ClientJob → List ClientJob
  | [] => []
  | job :: rest =>
    if job.id = id then { job with cancelled := true } :: rest else job :: cancelFirst id rest

def cancelJob (id : ℤ) : Client :=
  if client.pending.any (·.id == id) then { client with pending := cancelFirst id client.pending }
  else { client with active := cancelFirst id client.active }

/-! ### Connections -/

/-- What becomes of an attempt to connect to an endpoint. -/
inductive SetupResult
  /-- It ends before there is a connection. -/
  | unreachable
  /-- It ends with a connection, and perhaps with early data decided. -/
  | failed (early : Option Bool)
  | ready (early codec : Bool) (answers : List SubmitAnswer)
  deriving DecidableEq

/-- A connection after the current one, without streams. -/
def newConnection (early adopted : Bool) : Client :=
  { client with
    connection := { number := client.connection.number + 1, early := early, adopted := adopted }
    connected := true }

/-- A new connection with a session whose codec is not set up. -/
def openSession (early : Bool) : Client :=
  { client.newConnection early false with earlyDataEnabled := early, session := some {} }

/-- `connect_to_endpoint` and `setup_connection`, with whether they succeed. -/
def setupConnection : SetupResult → Client × Bool
  | .unreachable => (client, false)
  | .failed early =>
    ({ client.newConnection (early.getD false) false with
        earlyDataEnabled := early.getD client.earlyDataEnabled }, false)
  | .ready early codec answers =>
    let client := client.openSession early
    let client :=
      if early && codec then client.setupCodec.submitOutsideWindow answers else client
    ({ client with handshakeConfirmed := false, state := .connecting }, true)

def rememberPrecommitFallbacks (winner : ResolvedEndpoint) (attempted : List ResolvedEndpoint) :
    Client :=
  { client with
    precommitFallbackEndpoints :=
      (attempted ++ client.endpoints).foldl
        (fun known endpoint =>
          if endpoint = winner ∨ endpoint ∈ known then known else known ++ [endpoint])
        [] }

/-- How the adoption of a candidate goes: whether the codec is set up and takes
the buffered stream data, a GOAWAY among it, and whether the handshake was
confirmed during the race. -/
structure Adoption where
  winner : ResolvedEndpoint
  attempted : List ResolvedEndpoint
  codec : Bool
  buffered : Bool
  goaway : Option (Option ℤ)
  confirmed : Bool
  answers : List SubmitAnswer
  deriving DecidableEq

/-- The candidate's connection with a session, inside the failover window. -/
def beginAdoption (winner : ResolvedEndpoint) (attempted : List ResolvedEndpoint) : Client :=
  { (client.newConnection false true).rememberPrecommitFallbacks winner attempted with
    precommitFailoverWindow := true
    session := some {}
    http3Ready := false
    handshakeConfirmed := false
    state := .connecting }

/-- What a failed adoption resets. -/
def abandonAdoption : Client :=
  { client with session := none, connected := false, terminalError := .http3 }

/-- The handshake of the current connection is confirmed. -/
def confirmConnection : Client :=
  { client with connection := { client.connection with early := false, confirmed := true } }

def adoptHandshakeWinner (adoption : Adoption) : Client × Bool :=
  match (client.beginAdoption adoption.winner adoption.attempted).onHandshakeCompleted
    adoption.codec [] with
  | (client, false) => (client.abandonAdoption, false)
  | (client, true) =>
    let client := adoption.goaway.elim client client.onGoaway
    if adoption.buffered = false then (client.abandonAdoption, false)
    else if adoption.confirmed then (client.confirmConnection.onHandshakeConfirmed adoption.answers, true)
    else (client, true)

def discardCurrentConnection : Client :=
  { client with
    connection := { client.connection with early := false }
    session := none
    http3Ready := false
    connected := false
    handshakeConfirmed := false
    state := .connecting
    earlyDataEnabled := false }

/-- The pure test of `precommit_failover.h`. -/
def failoverAllowed (failoverWindowOpen stopping requestCommitted hasLivePendingRequest : Bool) :
    Bool :=
  failoverWindowOpen && !stopping && !requestCommitted && hasLivePendingRequest

def canFailOverBeforeRequestCommit : Bool :=
  failoverAllowed client.precommitFailoverWindow client.stop false client.hasLivePendingJob &&
    !(client.active.any fun job => job.nativeRequestCommitted || job.bodySent != 0) &&
    client.active == [] && client.precommitFallbackEndpoints != []

/-- Every job is told of the error and destroyed. -/
def failAllPending : Client := { client with pending := [], active := [] }

/-! ### The submission loop -/

/-- What each iteration of the submission loop keeps. -/
structure KeptByLoop (P : Client → Prop) : Prop where
  skip : ∀ (client : Client) (job : ClientJob) (rest : List ClientJob),
    P { client with pending := job :: rest } → P { client with pending := rest }
  refuse : ∀ (client : Client) (job : ClientJob) (rest : List ClientJob),
    P { client with pending := job :: rest } → P { client.openBidiStream with pending := rest }
  accept : ∀ (client : Client) (job : ClientJob) (rest : List ClientJob),
    job.cancelled = false → client.holdsBack job = false →
      P { client with pending := job :: rest } → P { client.accept job with pending := rest }

theorem KeptByLoop.submitLoop {P : Client → Prop} (kept : KeptByLoop P) (jobs : List ClientJob)
    (answers : List SubmitAnswer) (client : Client) (h : P { client with pending := jobs }) :
    P (submitLoop jobs answers client) := by
  induction jobs generalizing answers client with
  | nil => exact h
  | cons job rest ih =>
    unfold Client.submitLoop
    split_ifs with hcancelled hheld
    · exact ih answers client (kept.skip client job rest h)
    · exact h
    · split
      · exact h
      · exact h
      · exact ih _ client (kept.skip client job rest h)
      · exact ih _ client.openBidiStream (kept.refuse client job rest h)
      · exact ih _ (client.accept job)
          (kept.accept client job rest (by simpa using hcancelled) (by simpa using hheld) h)

theorem KeptByLoop.trySubmitPending {P : Client → Prop} (kept : KeptByLoop P) {client : Client}
    (answers : List SubmitAnswer) (h : P client) : P (client.trySubmitPending answers) := by
  unfold Client.trySubmitPending
  split_ifs
  · exact h
  · exact kept.submitLoop client.pending answers client h

end Client

/-! ### Changes to jobs that stay where they are -/

/-- The same request on the same stream, which may have made progress or been
cancelled. -/
structure ClientJob.Progress (job after : ClientJob) : Prop where
  handle : after.handle = job.handle
  request : after.request = job.request
  streamId : after.streamId = job.streamId
  committed : after.nativeRequestCommitted = job.nativeRequestCommitted
  openedOn : after.openedOn = job.openedOn
  cancelled : job.cancelled = true → after.cancelled = true

section Forall₂

variable {α β : Type*} {R : α → β → Prop} {as : List α} {bs : List β}

theorem exists_of_mem_left (h : List.Forall₂ R as bs) {a : α} (ha : a ∈ as) : ∃ b ∈ bs, R a b := by
  induction h with
  | nil => cases ha
  | cons hab _ ih =>
    rcases List.mem_cons.mp ha with rfl | hmem
    · exact ⟨_, List.mem_cons_self, hab⟩
    · obtain ⟨b, hb, hr⟩ := ih hmem
      exact ⟨b, List.mem_cons_of_mem _ hb, hr⟩

theorem exists_of_mem_right (h : List.Forall₂ R as bs) {b : β} (hb : b ∈ bs) :
    ∃ a ∈ as, R a b := by
  obtain ⟨a, ha, hr⟩ := exists_of_mem_left h.flip hb
  exact ⟨a, ha, hr⟩

theorem map_eq_of_forall₂ {γ : Type*} {f : α → γ} {g : β → γ} (h : List.Forall₂ R as bs)
    (heq : ∀ a b, R a b → g b = f a) : bs.map g = as.map f := by
  induction h with
  | nil => rfl
  | cons hab _ ih => rw [List.map_cons, List.map_cons, heq _ _ hab, ih]

end Forall₂

theorem ClientJob.Progress.refl (job : ClientJob) : job.Progress job :=
  ⟨rfl, rfl, rfl, rfl, rfl, fun h => h⟩

theorem ClientJob.Progress.cancel (job : ClientJob) :
    job.Progress { job with cancelled := true } :=
  ⟨rfl, rfl, rfl, rfl, rfl, fun _ => rfl⟩

namespace Client

/-- Every job stays in its place, and nothing else changes but the state. -/
structure Progress (client after : Client) : Prop where
  pending : List.Forall₂ ClientJob.Progress client.pending after.pending
  active : List.Forall₂ ClientJob.Progress client.active after.active
  kept : after = { client with
    pending := after.pending
    active := after.active
    state := after.state }

theorem forall₂_progress_map {f : ClientJob → ClientJob} (hf : ∀ job, ClientJob.Progress job (f job))
    (jobs : List ClientJob) : List.Forall₂ ClientJob.Progress jobs (jobs.map f) :=
  List.forall₂_map_right_iff.mpr (List.forall₂_same.mpr fun job _ => hf job)

theorem forall₂_progress_refl (jobs : List ClientJob) :
    List.Forall₂ ClientJob.Progress jobs jobs :=
  List.forall₂_same.mpr fun job _ => .refl job

theorem forall₂_progress_cancelFirst (id : ℤ) (jobs : List ClientJob) :
    List.Forall₂ ClientJob.Progress jobs (cancelFirst id jobs) := by
  induction jobs with
  | nil => exact .nil
  | cons job rest ih =>
    unfold cancelFirst
    split_ifs
    · exact .cons (.cancel job) (forall₂_progress_refl rest)
    · exact .cons (.refl job) ih

variable (client : Client)

theorem onGoaway_progress (streamId : Option ℤ) : client.Progress (client.onGoaway streamId) := by
  refine ⟨forall₂_progress_refl _, forall₂_progress_map (fun job => ?_) _, rfl⟩
  split_ifs
  · exact .cancel job
  · exact .refl job

theorem update_progress (handle : ℕ) {f : ClientJob → ClientJob}
    (hf : ∀ job, ClientJob.Progress job (f job)) : client.Progress (client.update handle f) := by
  have hchange : ∀ job : ClientJob,
      job.Progress (if job.handle = handle then f job else job) := by
    intro job
    split_ifs
    · exact hf job
    · exact .refl job
  exact ⟨forall₂_progress_map hchange _, forall₂_progress_map hchange _, rfl⟩

theorem Progress.refl : client.Progress client :=
  ⟨forall₂_progress_refl _, forall₂_progress_refl _, rfl⟩

theorem onEndStream_progress (streamId : ℤ) : client.Progress (client.onEndStream streamId) := by
  unfold onEndStream
  split
  · exact .refl client
  · exact client.update_progress _ fun job => ⟨rfl, rfl, rfl, rfl, rfl, fun h => h⟩

theorem onDataRead_progress (streamId : ℤ) (offered : ℕ) :
    client.Progress (client.onDataRead streamId offered) := by
  unfold onDataRead
  split
  · exact .refl client
  · exact client.update_progress _ fun job => ⟨rfl, rfl, rfl, rfl, rfl, fun h => h⟩

theorem expireRequests_progress (expired : List ℕ) (draining : Bool) :
    client.Progress (client.expireRequests expired draining) := by
  have hexpire : ∀ job : ClientJob,
      job.Progress (if job.handle ∈ expired then { job with cancelled := true } else job) := by
    intro job
    split_ifs
    · exact .cancel job
    · exact .refl job
  exact ⟨forall₂_progress_map hexpire _, forall₂_progress_map hexpire _, rfl⟩

theorem cancelJob_progress (id : ℤ) : client.Progress (client.cancelJob id) := by
  unfold cancelJob
  split_ifs
  · exact ⟨forall₂_progress_cancelFirst id _, forall₂_progress_refl _, rfl⟩
  · exact ⟨forall₂_progress_refl _, forall₂_progress_cancelFirst id _, rfl⟩

/-! ### Attempts -/

def SetupResult.succeeds : SetupResult → Bool
  | .ready _ _ _ => true
  | _ => false

theorem setupConnection_snd (result : SetupResult) :
    (client.setupConnection result).2 = result.succeeds := by
  cases result <;> rfl

theorem setupConnection_active (result : SetupResult) (h : result.succeeds = false) :
    (client.setupConnection result).1.active = client.active := by
  cases result with
  | unreachable => rfl
  | failed early => rfl
  | ready early codec answers => cases h

/-- The client once the winner's codec is set up and a buffered GOAWAY is read. -/
def adoptedCodec (adoption : Adoption) : Client :=
  let client := (client.beginAdoption adoption.winner adoption.attempted).setupCodec
  adoption.goaway.elim client client.onGoaway

theorem adoptHandshakeWinner_eq (adoption : Adoption) :
    client.adoptHandshakeWinner adoption =
      if adoption.codec = false then
        ((client.beginAdoption adoption.winner adoption.attempted).abandonAdoption, false)
      else if adoption.buffered = false then ((client.adoptedCodec adoption).abandonAdoption, false)
      else if adoption.confirmed then
        ((client.adoptedCodec adoption).confirmConnection.onHandshakeConfirmed adoption.answers, true)
      else (client.adoptedCodec adoption, true) := by
  unfold adoptHandshakeWinner
  cases adoption.codec <;> rfl

end Client

end KatHttp3
