import KatHttp3.Connection.SendQueue
import KatHttp3.Engine.Job
import KatHttp3.Library.WeightedList

/-!
# The write pump

`write_pending` and `pump_write`: what nghttp3 has queued for its streams goes to ngtcp2,
which puts it into packets for the socket. What nghttp3, ngtcp2 and the kernel answer is an
input of every round, and the calls that the answers lead to are recorded. `Documented`
says what the two libraries promise of their answers after these calls.
-/

namespace KatHttp3

open WeightedList

/-! ### The libraries -/

/-- How `nghttp3_conn_writev_stream` returns. -/
inductive WritevAnswer
  | failed
  /-- No vector, and no stream. -/
  | idle
  /-- Bytes of a stream, and whether they are its last ones. -/
  | stream (id : ℤ) (data : List UInt8) (fin : Bool)

/-- How `ngtcp2_conn_writev_stream` returns. -/
inductive WriteAnswer
  /-- There is room in the packet; so many bytes are in it, if any. -/
  | more (ndatalen : Option ℕ)
  | streamDataBlocked
  | streamShutWr
  | failed
  /-- A packet, empty if none may be sent now, and the bytes of the stream in it. -/
  | packet (payload : List UInt8) (ndatalen : Option ℕ)

/-- The answers in one round of `pump_write`. -/
structure PumpAnswer where
  http : WritevAnswer
  quic : WriteAnswer
  /-- `nghttp3_conn_add_write_offset` returns zero. -/
  added : Bool := true
  kernel : SendmsgResult

/-- The calls of nghttp3 that are about what is written. -/
inductive Nghttp3Call
  | addWriteOffset (id : ℤ) (ndatalen : ℕ)
  | blockStream (id : ℤ)
  | unblockStream (id : ℤ)
  | shutdownStreamWrite (id : ℤ)
  | resumeStream (id : ℤ)
  deriving DecidableEq

namespace Nghttp3Call

/-- What a call adds to the write offset of a stream. -/
def offset (id : ℤ) : Nghttp3Call → ℕ
  | addWriteOffset other ndatalen => if other = id then ndatalen else 0
  | blockStream _ | unblockStream _ | shutdownStreamWrite _ | resumeStream _ => 0

/-- Whether a stream is blocked after a call. -/
def leavesBlocked (id : ℤ) (blocked : Bool) : Nghttp3Call → Bool
  | blockStream other => blocked || other == id
  | unblockStream other => blocked && other != id
  | addWriteOffset _ _ | shutdownStreamWrite _ | resumeStream _ => blocked

end Nghttp3Call

/-- What `ngtcp2_conn_writev_stream` says that it has put into packets. It takes the end of a
stream with the last of the bytes only. -/
structure StreamFrame where
  id : ℤ
  data : List UInt8
  fin : Bool
  deriving DecidableEq

namespace WriteAnswer

/-- ngtcp2 takes no more bytes than it is given. -/
def Takes (length : ℕ) : WriteAnswer → Prop
  | more (some n) | packet _ (some n) => n ≤ length
  | more none | packet _ none | streamDataBlocked | streamShutWr | failed => True

instance (length : ℕ) : ∀ answer : WriteAnswer, Decidable (answer.Takes length)
  | more (some n) | packet _ (some n) => inferInstanceAs (Decidable (n ≤ length))
  | more none | packet _ none | streamDataBlocked | streamShutWr | failed =>
    inferInstanceAs (Decidable True)

end WriteAnswer

/-- How `ngtcp2_conn_write_pkt` returns, with the answer of the kernel. -/
inductive PacketAnswer
  | more
  | failed
  | packet (payload : List UInt8) (ecn : UInt8) (kernel : SendmsgResult)

/-! ### The connection -/

structure WritePump where
  /-- The calls of nghttp3 that returned zero, or return nothing. -/
  calls : List Nghttp3Call := []
  frames : List StreamFrame := []
  socket : UdpSocket
  /-- What the kernel has taken. -/
  handed : List QueuedPacket := []
  terminalError : ErrorCode := .quic
  socketFailed : Bool := false
  bytesSentInQuantum : ℕ := 0
  sendQuantumBytes : ℕ := 0
  sentPacketInQuantum : Bool := false
  /-- The streams of `note_write_progress`. -/
  progress : List ℤ := []
  /-- The calls of `ngtcp2_conn_update_pkt_tx_time`. -/
  txTimes : ℕ := 0

/-- ENETDOWN, ENETUNREACH, ECONNRESET and EHOSTUNREACH by their numbers on Linux. -/
def udpErrorIsNetworkLost : Errno → Bool
  | .other code => code == 101 || code == 113 || code == 100 || code == 104
  | _ => false

namespace WritePump

variable (maxPktlen : ℕ) (pump : WritePump)

def call (call : Nghttp3Call) : WritePump := { pump with calls := pump.calls ++ [call] }

def recordSocketError (error : Errno) : WritePump :=
  if udpErrorIsTemporary error then pump
  else
    { pump with
      terminalError := if udpErrorIsNetworkLost error then .networkLost else .quic
      socketFailed := true }

/-- `sock_.send`, which returns the size of the datagram or fails. -/
def sendDatagram (payload : List UInt8) (ecn : UInt8) (kernel : SendmsgResult) :
    WritePump × Bool :=
  match pump.socket.send ⟨payload, ecn⟩ kernel with
  | (.ok _, socket, taken) =>
    ({ pump with
        socket := socket
        handed := pump.handed ++ taken
        bytesSentInQuantum := pump.bytesSentInQuantum + payload.length
        sentPacketInQuantum := true }, true)
  | (.error error, socket, taken) =>
    ({ pump with
        socket := socket
        handed := pump.handed ++ taken }.recordSocketError error, false)

def sendPacket (payload : List UInt8) (kernel : SendmsgResult) : WritePump :=
  (pump.sendDatagram payload 0 kernel).1

/-- `kMinimumSendQuantum` is the size of the greatest packet. -/
def beginSendQuantum (quantum : ℕ) : WritePump :=
  { pump with
    bytesSentInQuantum := 0
    sentPacketInQuantum := false
    sendQuantumBytes := max maxPktlen quantum }

def sendQuantumExhausted : Bool :=
  pump.sendQuantumBytes ≤ pump.bytesSentInQuantum || !pump.socket.sendQueue.isEmpty

def finishSendQuantum : WritePump :=
  if pump.sentPacketInQuantum then { pump with txTimes := pump.txTimes + 1 } else pump

def noteWriteProgress (id : ℤ) : WritePump := { pump with progress := pump.progress ++ [id] }

/-- ngtcp2 has put bytes of a stream into the packet, and nghttp3 is told. -/
def advance (id : ℤ) (data : List UInt8) (fin : Bool) (ndatalen : ℕ) (added : Bool) :
    WritePump × Bool :=
  let frame : StreamFrame := ⟨id, data.take ndatalen, fin && data.length == ndatalen⟩
  let pump := { pump with frames := pump.frames ++ [frame] }
  if added then (pump.call (.addWriteOffset id ndatalen), true) else (pump, false)

/-- The end of a round that has a packet, unless it is empty. -/
def emit (payload : List UInt8) (kernel : SendmsgResult) : WritePump × Bool :=
  if payload.isEmpty then (pump, false)
  else
    let pump := pump.sendPacket (payload.take maxPktlen) kernel
    (pump, !pump.sendQuantumExhausted)

/-- A round of `pump_write` with the bytes of a stream, and whether there is another one. -/
def relay (id : ℤ) (data : List UInt8) (fin : Bool) (answer : PumpAnswer) : WritePump × Bool :=
  match answer.quic with
  | .more none => (pump, true)
  | .more (some n) => pump.advance id data fin n answer.added
  | .streamDataBlocked => (pump.call (.blockStream id), true)
  | .streamShutWr => (pump.call (.shutdownStreamWrite id), true)
  | .failed => (pump, false)
  | .packet payload none => pump.emit maxPktlen payload answer.kernel
  | .packet payload (some n) =>
    match pump.advance id data fin n answer.added with
    | (pump, false) => (pump, false)
    | (pump, true) =>
      let pump := if 0 < n then pump.noteWriteProgress id else pump
      pump.emit maxPktlen payload answer.kernel

/-- A round of `pump_write`. -/
def pumpRound (answer : PumpAnswer) : WritePump × Bool :=
  match answer.http with
  | .failed | .idle => (pump, false)
  | .stream id data fin => pump.relay maxPktlen id data fin answer

/-- `pump_write`, with as many answers as it has rounds. -/
def pumpWrite : List PumpAnswer → WritePump → Option WritePump
  | [], _ => none
  | answer :: answers, pump =>
    match pump.pumpRound maxPktlen answer with
    | (pump, false) => some pump
    | (pump, true) => pumpWrite answers pump

/-- The loop of `write_pending`, with as many answers as it has rounds. -/
def writePackets : List PacketAnswer → WritePump → Option WritePump
  | [], _ => none
  | .more :: answers, pump => writePackets answers pump
  -- the time of the last packet is not updated here
  | .failed :: _, pump => some pump
  | .packet payload ecn kernel :: answers, pump =>
    if payload.isEmpty then some pump.finishSendQuantum
    else
      match pump.sendDatagram (payload.take maxPktlen) ecn kernel with
      | (pump, false) => some pump.finishSendQuantum
      | (pump, true) =>
        if pump.sendQuantumExhausted then some pump.finishSendQuantum
        else writePackets answers pump

/-- `write_pending`, with the send quantum of ngtcp2. -/
def writePending (ready : Bool) (quantum : ℕ) (answers : List PumpAnswer)
    (packets : List PacketAnswer) : Option WritePump :=
  let pump := pump.beginSendQuantum maxPktlen quantum
  match if ready then pumpWrite maxPktlen answers pump else some pump with
  | none => none
  | some pump =>
    if pump.sendQuantumExhausted then some pump.finishSendQuantum
    else writePackets maxPktlen packets pump

/-- `Http3Session::extend_max_stream_data`, the answer to new credit for a stream. It
returns true and leaves nghttp3 alone. -/
def extendMaxStreamData (_ : ℤ) : WritePump := pump

/-- `resume_stream`. -/
def resumeStream (id : ℤ) : WritePump := pump.call (.resumeStream id)

/-- `on_stream_stop_sending`, and the part of `reset_stream` that shuts the stream. -/
def shutdownStreamWrite (id : ℤ) : WritePump := pump.call (.shutdownStreamWrite id)

end WritePump

inductive PumpStep
  | extend (id : ℤ)
  | resume (id : ℤ)
  | shutdown (id : ℤ)
  | write (ready : Bool) (quantum : ℕ) (answers : List PumpAnswer) (packets : List PacketAnswer)
  | flush (kernel : ℕ → SendmsgResult)
  /-- The connection migrates to a new socket. -/
  | migrate (fd : ℤ)

namespace WritePump

variable (maxPktlen : ℕ)

def initial (fd : ℤ) : WritePump := { socket := { fd := fd } }

/-- The event loop ends when its socket has failed. -/
def step (pump : WritePump) : PumpStep → Option WritePump
  | .extend id => some (pump.extendMaxStreamData id)
  | .resume id => some (pump.resumeStream id)
  | .shutdown id => some (pump.shutdownStreamWrite id)
  | .write ready quantum answers packets =>
    if pump.socketFailed then none else pump.writePending maxPktlen ready quantum answers packets
  | .flush kernel =>
    -- the loop also ends when a flush fails
    (pump.socket.flushSendQueue kernel).map fun (ok, socket, taken) =>
      { pump with
        socket := socket
        handed := pump.handed ++ taken
        socketFailed := pump.socketFailed || !ok }
  | .migrate fd =>
    if pump.socketFailed then none
    else some { pump with socket := { fd := fd }, socketFailed := false }

/-! ### What the libraries promise -/

variable (pump : WritePump)

/-- The write offset of a stream, as nghttp3 has been told. -/
def writeOffset (id : ℤ) : ℕ := total (Nghttp3Call.offset id) pump.calls

/-- The stream was blocked, and not unblocked again. -/
def blocked (id : ℤ) : Bool := pump.calls.foldl (Nghttp3Call.leavesBlocked id) false

/-- Nothing more of the stream may be written. -/
def stopped (id : ℤ) : Bool := pump.blocked id || pump.calls.contains (.shutdownStreamWrite id)

/-- What nghttp3 promises of the bytes that it returns, where `content` is all that it ever has to
write to its streams: they begin at the write offset of the stream, and a stream that is
blocked or shut down is not returned. -/
structure Offers (content : ℤ → List UInt8) (pump : WritePump) (id : ℤ) (data : List UInt8)
    (fin : Bool) : Prop where
  going : pump.stopped id = false
  next : data <+: (content id).drop (pump.writeOffset id)
  fin : fin = true → (content id).length ≤ pump.writeOffset id + data.length

instance (content : ℤ → List UInt8) (id : ℤ) (data : List UInt8) (fin : Bool) :
    Decidable (Offers content pump id data fin) :=
  decidable_of_iff
    (pump.stopped id = false ∧ data <+: (content id).drop (pump.writeOffset id) ∧
      (fin = true → (content id).length ≤ pump.writeOffset id + data.length))
    ⟨fun h => ⟨h.1, h.2.1, h.2.2⟩, fun h => ⟨h.going, h.next, h.fin⟩⟩

/-- The answers of a round are as the libraries promise, and nghttp3 takes the write offset. -/
def DocumentedRound (content : ℤ → List UInt8) (answer : PumpAnswer) : Prop :=
  match answer.http with
  | .failed | .idle => True
  | .stream id data fin =>
    Offers content pump id data fin ∧ answer.quic.Takes data.length ∧ answer.added = true

instance (content : ℤ → List UInt8) (answer : PumpAnswer) :
    Decidable (pump.DocumentedRound content answer) := by
  unfold DocumentedRound
  split <;> infer_instance

/-- So are those of all rounds, up to the last one. -/
def DocumentedRounds (content : ℤ → List UInt8) : List PumpAnswer → WritePump → Prop
  | [], _ => True
  | answer :: answers, pump =>
    pump.DocumentedRound content answer ∧
      ((pump.pumpRound maxPktlen answer).2 = true →
        DocumentedRounds content answers (pump.pumpRound maxPktlen answer).1)

instance decidableRounds (content : ℤ → List UInt8) :
    ∀ (answers : List PumpAnswer) (pump : WritePump),
      Decidable (DocumentedRounds maxPktlen content answers pump)
  | [], _ => inferInstanceAs (Decidable True)
  | answer :: answers, pump =>
    have := decidableRounds content answers (pump.pumpRound maxPktlen answer).1
    inferInstanceAs (Decidable (pump.DocumentedRound content answer ∧ (_ → _)))

/-- The condition of a step. -/
def Documented (content : ℤ → List UInt8) (pump : WritePump) : PumpStep → Prop
  | .write ready quantum answers _ =>
    ready = true →
      DocumentedRounds maxPktlen content answers (pump.beginSendQuantum maxPktlen quantum)
  | .extend _ | .resume _ | .shutdown _ | .flush _ | .migrate _ => True

instance (content : ℤ → List UInt8) :
    ∀ (pump : WritePump) (step : PumpStep), Decidable (Documented maxPktlen content pump step)
  | _, .write _ _ _ _ => inferInstanceAs (Decidable (_ → _))
  | _, .extend _ | _, .resume _ | _, .shutdown _ | _, .flush _ | _, .migrate _ =>
    inferInstanceAs (Decidable True)

end WritePump

end KatHttp3
