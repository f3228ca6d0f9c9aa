import KatHttp3.Library.Slices
import KatHttp3.Library.Transition
import KatHttp3.Library.WeightedList

/-!
# The send queue of a UDP socket

What `UdpSocket::send` and `flush_send_queue` hand to the kernel. Each call of
`sendmsg` has an answer of the kernel as its input, so that a run covers every
behaviour of the kernel. Datagrams keep their order as long as none is taken
directly by the kernel while others still wait in the queue.
-/

namespace KatHttp3

open WeightedList

/-- The errors on which the socket branches. -/
inductive Errno
  | eagain
  | ewouldblock
  | enobufs
  | eintr
  | einval
  | enoprotoopt
  | enotsup
  | eio
  | other (code : ℕ)
  deriving DecidableEq

def udpErrorIsTemporary (error : Errno) : Bool :=
  error == .eagain || error == .ewouldblock || error == .enobufs || error == .eintr

/-- The kernel has no room for the datagram now. -/
def Errno.isFull (error : Errno) : Bool :=
  error == .eagain || error == .ewouldblock || error == .enobufs

/-- The kernel does not know segmentation offload. -/
def Errno.isUnsupported (error : Errno) : Bool :=
  error == .einval || error == .enoprotoopt || error == .enotsup

/-- What a call returns, none for -1, and errno after it. -/
structure SendmsgResult where
  n : Option ℕ
  errno : Errno
  deriving DecidableEq

/-- A datagram with its ECN byte, in the queue or on the wire. -/
structure QueuedPacket where
  data : List UInt8
  ecn : UInt8
  deriving DecidableEq

def QueuedPacket.size (packet : QueuedPacket) : ℕ := packet.data.length

structure UdpSocket where
  fd : ℤ
  sendQueue : List QueuedPacket := []
  queuedBytes : ℕ := 0
  gsoSupported : Bool := true
  deriving DecidableEq

def kMaxQueuedPackets : ℕ := 1024

def kMaxQueuedBytes : ℕ := 4 * 1024 * 1024

def uint16Max : ℕ := 65535

/-- One round of the loop of `flush_send_queue`: what it returns, if it does, and
what the kernel took in it. -/
structure FlushRound where
  returned : Option Bool
  socket : UdpSocket
  taken : List QueuedPacket
  deriving DecidableEq

namespace UdpSocket

variable (s : UdpSocket)

/-- `send_now`, and what the kernel takes of the datagram. -/
def sendNow (packet : QueuedPacket) (answer : SendmsgResult) : SendmsgResult × List QueuedPacket :=
  if s.fd = -1 then ({ answer with n := none }, [])
  else (answer, answer.n.elim [] fun n => [⟨packet.data.take n, packet.ecn⟩])

/-- `send_now_gso`: the kernel cuts what it takes into segments. -/
def sendNowGso (data : List UInt8) (segmentSize : ℕ) (ecn : UInt8) (answer : SendmsgResult) :
    SendmsgResult × List QueuedPacket :=
  if s.fd = -1 ∨ segmentSize = 0 then ({ answer with n := none }, [])
  else (answer, answer.n.elim [] fun n => (Slices.cut segmentSize (data.take n)).map (⟨·, ecn⟩))

def send (datagram : QueuedPacket) (answer : SendmsgResult) :
    Except Errno ℕ × UdpSocket × List QueuedPacket :=
  if datagram.size = 0 then (.error .einval, s, [])
  else
    let (r, taken) := s.sendNow datagram answer
    if r.n = some datagram.size then (.ok datagram.size, s, taken)
    else if r.n ≠ none then (.error .eio, s, taken)
    else if r.errno.isFull = false then (.error r.errno, s, taken)
    -- a datagram in memory is far below 2^63 bytes, so that the sum does not wrap
    else if kMaxQueuedPackets ≤ s.sendQueue.length ∨
        kMaxQueuedBytes < s.queuedBytes + datagram.size then
      (.error .enobufs, s, taken)
    else
      (.ok datagram.size,
        { s with
          sendQueue := s.sendQueue ++ [datagram]
          queuedBytes := s.queuedBytes + datagram.size },
        taken)

/-- How many datagrams from the front go out together: those of the size and ECN byte
of the first one, sixteen at most. -/
def gsoRun (packet : QueuedPacket) : ℕ → List QueuedPacket → ℕ
  | count, [] => count
  | count, next :: rest =>
    if count < 16 then
      if next.ecn ≠ packet.ecn ∨ next.size ≠ packet.size then count
      else gsoRun packet (count + 1) rest
    else count

/-- The loop that removes what has been sent. -/
def popPackets : ℕ → UdpSocket → UdpSocket
  | 0, s => s
  | n + 1, s =>
    match s.sendQueue with
    | [] => s
    | packet :: rest =>
      popPackets n { s with sendQueue := rest, queuedBytes := s.queuedBytes - packet.size }

/-- A round that sends a run of datagrams with one call. -/
def gsoRound (packet : QueuedPacket) (count : ℕ) (answer : SendmsgResult) : FlushRound :=
  let aggregate := (s.sendQueue.take count).flatMap QueuedPacket.data
  let (r, taken) := s.sendNowGso aggregate packet.size packet.ecn answer
  if r.n = none ∧ r.errno.isFull = true then ⟨some true, s, taken⟩
  else if r.n = none ∧ r.errno.isUnsupported = true then
    ⟨none, { s with gsoSupported := false }, taken⟩
  else if r.n ≠ some aggregate.length then ⟨some false, s, taken⟩
  else ⟨none, popPackets count s, taken⟩

/-- A round that sends the first datagram. -/
def singleRound (packet : QueuedPacket) (answer : SendmsgResult) : FlushRound :=
  let (r, taken) := s.sendNow packet answer
  if r.n = none ∧ r.errno.isFull = true then ⟨some true, s, taken⟩
  else if r.n ≠ some packet.size then ⟨some false, s, taken⟩
  else ⟨none, popPackets 1 s, taken⟩

def flushRound (packet : QueuedPacket) (answer : SendmsgResult) : FlushRound :=
  let count := gsoRun packet 1 s.sendQueue.tail
  if s.gsoSupported = true ∧ packet.size ≤ uint16Max ∧ 1 < s.sendQueue.length ∧ 1 < count then
    s.gsoRound packet count answer
  else s.singleRound packet answer

/-- The loop of `flush_send_queue`, for so many rounds at most, with one answer of the
kernel for each of them. -/
def flushLoop (kernel : ℕ → SendmsgResult) :
    ℕ → ℕ → UdpSocket → List QueuedPacket → Option (Bool × UdpSocket × List QueuedPacket)
  | 0, _, _, _ => none
  | fuel + 1, calls, s, taken =>
    match s.sendQueue with
    | [] => some (true, s, taken)
    | packet :: _ =>
      let round := s.flushRound packet (kernel calls)
      match round.returned with
      | some ok => some (ok, round.socket, taken ++ round.taken)
      | none => flushLoop kernel fuel (calls + 1) round.socket (taken ++ round.taken)

/-- Every round but one removes a datagram. -/
def flushSendQueue (kernel : ℕ → SendmsgResult) : Option (Bool × UdpSocket × List QueuedPacket) :=
  flushLoop kernel (s.sendQueue.length + 2) 0 s []

/-! ### The queue and its accounts -/

/-- What the send queue satisfies. -/
structure Accounted : Prop where
  bytes : s.queuedBytes = total QueuedPacket.size s.sendQueue
  bytesLimit : s.queuedBytes ≤ kMaxQueuedBytes
  packets : s.sendQueue.length ≤ kMaxQueuedPackets
  nonempty : ∀ packet ∈ s.sendQueue, 0 < packet.size

variable {s}

theorem popPackets_sendQueue (count : ℕ) (s : UdpSocket) :
    (popPackets count s).sendQueue = s.sendQueue.drop count := by
  induction count generalizing s with
  | zero => simp [popPackets]
  | succ count ih =>
    cases hqueue : s.sendQueue with
    | nil => simp [popPackets, hqueue]
    | cons packet rest => simp [popPackets, hqueue, ih]

theorem popPackets_gsoSupported (count : ℕ) (s : UdpSocket) :
    (popPackets count s).gsoSupported = s.gsoSupported := by
  induction count generalizing s with
  | zero => simp [popPackets]
  | succ count ih =>
    cases hqueue : s.sendQueue with
    | nil => simp [popPackets, hqueue]
    | cons packet rest => simp [popPackets, hqueue, ih]

theorem popPackets_queuedBytes (count : ℕ) {s : UdpSocket}
    (h : s.queuedBytes = total QueuedPacket.size s.sendQueue) :
    (popPackets count s).queuedBytes = total QueuedPacket.size (popPackets count s).sendQueue := by
  induction count generalizing s with
  | zero => exact h
  | succ count ih =>
    cases hqueue : s.sendQueue with
    | nil => simpa [popPackets, hqueue] using h
    | cons packet rest =>
      simp only [popPackets, hqueue]
      apply ih
      rw [hqueue, total_cons] at h
      dsimp only
      omega

theorem Accounted.popPackets (h : s.Accounted) (count : ℕ) : (popPackets count s).Accounted := by
  have hqueue := popPackets_sendQueue count s
  have hbytes := popPackets_queuedBytes count h.bytes
  have hdrop : ((UdpSocket.popPackets count s).sendQueue).Sublist s.sendQueue := by
    rw [hqueue]
    exact List.drop_sublist count s.sendQueue
  constructor
  · exact hbytes
  · have hle : total QueuedPacket.size _ ≤ total QueuedPacket.size _ := total_le_of_sublist hdrop
    have hlimit := h.bytesLimit
    have hold := h.bytes
    omega
  · exact hdrop.length_le.trans h.packets
  · intro packet hpacket
    exact h.nonempty packet (hdrop.subset hpacket)

/-! ### One round of a flush -/

theorem le_gsoRun (packet : QueuedPacket) (count : ℕ) (rest : List QueuedPacket) :
    count ≤ gsoRun packet count rest := by
  induction rest generalizing count with
  | nil => apply le_refl
  | cons next rest ih =>
    unfold gsoRun
    split_ifs
    · apply le_refl
    · exact (Nat.le_succ count).trans (ih (count + 1))
    · apply le_refl

/-- The datagrams that a run adds have the size and the ECN byte of the first one. -/
theorem mem_take_gsoRun {packet : QueuedPacket} (count : ℕ) {rest : List QueuedPacket}
    {other : QueuedPacket} (h : other ∈ rest.take (gsoRun packet count rest - count)) :
    other.ecn = packet.ecn ∧ other.size = packet.size := by
  induction rest generalizing count with
  | nil => simp at h
  | cons next rest ih =>
    unfold gsoRun at h
    split_ifs at h with hlimit hother
    · simp at h
    · have hle := le_gsoRun packet (count + 1) rest
      obtain ⟨more, hmore⟩ : ∃ more, gsoRun packet (count + 1) rest - count = more + 1 :=
        ⟨gsoRun packet (count + 1) rest - (count + 1), by omega⟩
      rw [hmore, List.take_succ_cons] at h
      rcases List.mem_cons.mp h with rfl | hrest
      · simpa using hother
      · apply ih (count + 1)
        have : gsoRun packet (count + 1) rest - (count + 1) = more := by omega
        rwa [this]
    · simp at h

theorem gsoRun_le (packet : QueuedPacket) (count : ℕ) (rest : List QueuedPacket) :
    gsoRun packet count rest ≤ count + rest.length := by
  induction rest generalizing count with
  | nil => apply le_refl
  | cons next rest ih =>
    have hrest := ih (count + 1)
    unfold gsoRun
    rw [List.length_cons]
    split_ifs <;> omega

/-- What a round of the loop can do. -/
inductive Rounded (s : UdpSocket) : FlushRound → Prop
  /-- The kernel is full: the queue stays as it is. -/
  | blocked : Rounded s ⟨some true, s, []⟩
  | failed (taken : List QueuedPacket) : Rounded s ⟨some false, s, taken⟩
  | fallback (supported : s.gsoSupported = true) :
      Rounded s ⟨none, { s with gsoSupported := false }, []⟩
  /-- Datagrams from the front go out as they are. -/
  | delivered (count : ℕ) (pos : 0 < count) (le : count ≤ s.sendQueue.length) :
      Rounded s ⟨none, popPackets count s, s.sendQueue.take count⟩

theorem sendNow_none (packet : QueuedPacket) (answer : SendmsgResult)
    (h : (s.sendNow packet answer).1.n = none) : (s.sendNow packet answer).2 = [] := by
  unfold sendNow at h ⊢
  by_cases hfd : s.fd = -1
  · simp [hfd]
  · simp only [if_neg hfd] at h ⊢
    rw [h]
    rfl

theorem sendNow_size (packet : QueuedPacket) (answer : SendmsgResult)
    (h : (s.sendNow packet answer).1.n = some packet.size) :
    (s.sendNow packet answer).2 = [packet] := by
  unfold sendNow at h ⊢
  by_cases hfd : s.fd = -1
  · simp [hfd] at h
  · simp only [if_neg hfd] at h ⊢
    rw [h]
    simp [QueuedPacket.size]

theorem sendNowGso_none (data : List UInt8) (size : ℕ) (ecn : UInt8) (answer : SendmsgResult)
    (h : (s.sendNowGso data size ecn answer).1.n = none) :
    (s.sendNowGso data size ecn answer).2 = [] := by
  unfold sendNowGso at h ⊢
  by_cases hfd : s.fd = -1 ∨ size = 0
  · simp [hfd]
  · simp only [if_neg hfd] at h ⊢
    rw [h]
    rfl

/-- The segments of a run are its datagrams. -/
theorem sendNowGso_run {packet : QueuedPacket} {batch : List QueuedPacket} (answer : SendmsgResult)
    (hbatch : ∀ other ∈ batch, other.ecn = packet.ecn ∧ other.size = packet.size)
    (h : (s.sendNowGso (batch.flatMap QueuedPacket.data) packet.size packet.ecn answer).1.n =
      some (batch.flatMap QueuedPacket.data).length) :
    (s.sendNowGso (batch.flatMap QueuedPacket.data) packet.size packet.ecn answer).2 = batch := by
  unfold sendNowGso at h ⊢
  by_cases hfd : s.fd = -1 ∨ packet.size = 0
  · simp [hfd] at h
  simp only [if_neg hfd] at h ⊢
  rw [h]
  dsimp only [Option.elim_some]
  have hpos : 0 < packet.size := by omega
  have hsize : ∀ piece ∈ batch.map QueuedPacket.data, piece.length = packet.size := by
    intro piece hpiece
    obtain ⟨other, hother, rfl⟩ := List.mem_map.mp hpiece
    exact (hbatch other hother).2
  rw [List.take_length, List.flatMap_def, Slices.cut_flatten hsize hpos, List.map_map]
  conv_rhs => rw [← List.map_id batch]
  apply List.map_congr_left
  intro other hother
  obtain ⟨data, ecn⟩ := other
  exact congrArg (QueuedPacket.mk data) (hbatch _ hother).1.symm

theorem singleRound_cases {packet : QueuedPacket} {rest : List QueuedPacket}
    (hqueue : s.sendQueue = packet :: rest) (answer : SendmsgResult) :
    Rounded s (s.singleRound packet answer) := by
  unfold singleRound
  dsimp only
  split_ifs with hfull hshort
  · rw [sendNow_none packet answer hfull.1]
    exact .blocked
  · apply Rounded.failed
  · rw [sendNow_size packet answer (not_not.mp hshort)]
    have hone := Rounded.delivered (s := s) 1 Nat.one_pos (by simp [hqueue])
    rwa [hqueue, List.take_succ_cons, List.take_zero] at hone

theorem gsoRound_cases {packet : QueuedPacket} {count : ℕ}
    (hsupported : s.gsoSupported = true) (hpos : 0 < count) (hcount : count ≤ s.sendQueue.length)
    (hrun : ∀ other ∈ s.sendQueue.take count, other.ecn = packet.ecn ∧ other.size = packet.size)
    (answer : SendmsgResult) : Rounded s (s.gsoRound packet count answer) := by
  unfold gsoRound
  dsimp only
  split_ifs with hfull hunsupported hshort
  · rw [sendNowGso_none _ _ _ answer hfull.1]
    exact .blocked
  · rw [sendNowGso_none _ _ _ answer hunsupported.1]
    exact .fallback hsupported
  · apply Rounded.failed
  · rw [sendNowGso_run answer hrun (not_not.mp hshort)]
    exact .delivered count hpos hcount

theorem flushRound_cases {packet : QueuedPacket} {rest : List QueuedPacket}
    (hqueue : s.sendQueue = packet :: rest) (answer : SendmsgResult) :
    Rounded s (s.flushRound packet answer) := by
  unfold flushRound
  dsimp only
  split_ifs with hgso
  · obtain ⟨hsupported, -, -, hcount⟩ := hgso
    rw [hqueue, List.tail_cons] at hcount ⊢
    apply gsoRound_cases hsupported (by omega)
    · have hle := gsoRun_le packet 1 rest
      rw [hqueue, List.length_cons]
      omega
    · intro other hother
      obtain ⟨more, hmore⟩ : ∃ more, gsoRun packet 1 rest = more + 1 :=
        ⟨gsoRun packet 1 rest - 1, by omega⟩
      rw [hqueue, hmore, List.take_succ_cons] at hother
      rcases List.mem_cons.mp hother with rfl | hlater
      · exact ⟨rfl, rfl⟩
      · apply mem_take_gsoRun 1
        rwa [hmore, Nat.add_sub_cancel]
  · exact singleRound_cases hqueue answer

/-! ### A whole flush -/

/-- A flush hands over the front of the queue, unless it fails. -/
structure Flushed (s : UdpSocket) (ok : Bool) (s' : UdpSocket) (taken : List QueuedPacket) : Prop where
  accounted : s'.Accounted
  order : ok = true → taken ++ s'.sendQueue = s.sendQueue

theorem flushLoop_eq_some {kernel : ℕ → SendmsgResult} {fuel : ℕ} {s : UdpSocket} (calls : ℕ)
    (before : List QueuedPacket) (h : s.Accounted)
    (hfuel : s.sendQueue.length + (if s.gsoSupported then 1 else 0) < fuel) :
    ∃ ok s' taken, flushLoop kernel fuel calls s before = some (ok, s', before ++ taken) ∧
      Flushed s ok s' taken := by
  induction fuel generalizing s calls before with
  | zero => omega
  | succ fuel ih =>
    unfold flushLoop
    cases hqueue : s.sendQueue with
    | nil =>
      refine ⟨true, s, [], by simp, h, ?_⟩
      intro _
      rfl
    | cons packet rest =>
      dsimp only
      have hround := flushRound_cases hqueue (kernel calls)
      generalize s.flushRound packet (kernel calls) = round at hround
      cases hround with
      | blocked =>
        refine ⟨true, s, [], rfl, h, ?_⟩
        intro _
        rfl
      | failed taken => exact ⟨false, s, taken, rfl, h, nofun⟩
      | fallback supported =>
        rw [if_pos supported] at hfuel
        have hnext : ({ s with gsoSupported := false } : UdpSocket).Accounted :=
          ⟨h.bytes, h.bytesLimit, h.packets, h.nonempty⟩
        obtain ⟨ok, s', taken, hloop, hflushed⟩ := ih (s := { s with gsoSupported := false })
          (calls + 1) (before ++ []) hnext (by simpa using hfuel)
        refine ⟨ok, s', taken, ?_, hflushed.accounted, hflushed.order⟩
        simpa using hloop
      | delivered count pos le =>
        have hleft := popPackets_sendQueue count s
        have hfewer : (popPackets count s).sendQueue.length +
            (if (popPackets count s).gsoSupported then 1 else 0) < fuel := by
          rw [hleft, popPackets_gsoSupported, List.length_drop]
          omega
        obtain ⟨ok, s', taken, hloop, hflushed⟩ :=
          ih (calls + 1) (before ++ s.sendQueue.take count) (h.popPackets count) hfewer
        refine ⟨ok, s', s.sendQueue.take count ++ taken, ?_, hflushed.accounted, ?_⟩
        · rw [← List.append_assoc]
          exact hloop
        · intro hok
          rw [List.append_assoc, hflushed.order hok, hleft]
          apply List.take_append_drop

/-- A flush ends, whatever the kernel answers. -/
theorem flushSendQueue_eq_some (kernel : ℕ → SendmsgResult) {s : UdpSocket} (h : s.Accounted) :
    ∃ ok s' taken, s.flushSendQueue kernel = some (ok, s', taken) ∧ Flushed s ok s' taken := by
  apply flushLoop_eq_some 0 [] h
  split_ifs <;> omega

/-! ### One send -/

/-- The kernel takes the datagram at once. -/
def TakesDirectly (s : UdpSocket) (datagram : QueuedPacket) (answer : SendmsgResult) : Prop :=
  0 < datagram.size ∧ (s.sendNow datagram answer).1.n = some datagram.size

/-- What a send can do. -/
inductive Sent (s : UdpSocket) (datagram : QueuedPacket) (answer : SendmsgResult) :
    Except Errno ℕ × UdpSocket × List QueuedPacket → Prop
  | refused (error : Errno) (taken : List QueuedPacket) (not : ¬s.TakesDirectly datagram answer)
      (order : udpErrorIsTemporary error = true → taken = []) :
      Sent s datagram answer (.error error, s, taken)
  | direct (takes : s.TakesDirectly datagram answer) :
      Sent s datagram answer (.ok datagram.size, s, [datagram])
  | queued (not : ¬s.TakesDirectly datagram answer) (pos : 0 < datagram.size)
      (packets : s.sendQueue.length < kMaxQueuedPackets)
      (bytes : s.queuedBytes + datagram.size ≤ kMaxQueuedBytes) :
      Sent s datagram answer
        (.ok datagram.size,
          { s with
            sendQueue := s.sendQueue ++ [datagram]
            queuedBytes := s.queuedBytes + datagram.size },
          [])

theorem send_cases (s : UdpSocket) (datagram : QueuedPacket) (answer : SendmsgResult) :
    Sent s datagram answer (s.send datagram answer) := by
  unfold send
  dsimp only
  by_cases hempty : datagram.size = 0
  · rw [if_pos hempty]
    exact .refused .einval [] (fun h => by have := h.1; omega) nofun
  have hpos := Nat.pos_of_ne_zero hempty
  rw [if_neg hempty]
  by_cases hsent : (s.sendNow datagram answer).1.n = some datagram.size
  · rw [if_pos hsent, sendNow_size datagram answer hsent]
    exact .direct ⟨hpos, hsent⟩
  have hnot : ¬s.TakesDirectly datagram answer := fun h => hsent h.2
  rw [if_neg hsent]
  split_ifs with hshort hother hroom
  · exact .refused .eio _ hnot nofun
  · apply Sent.refused _ _ hnot
    intro _
    exact sendNow_none datagram answer (not_not.mp hshort)
  · apply Sent.refused _ _ hnot
    intro _
    exact sendNow_none datagram answer (not_not.mp hshort)
  · rw [sendNow_none datagram answer (not_not.mp hshort)]
    exact .queued hnot hpos (by omega) (by omega)

theorem Accounted.push {datagram : QueuedPacket} (h : s.Accounted) (hpos : 0 < datagram.size)
    (hpackets : s.sendQueue.length < kMaxQueuedPackets)
    (hbytes : s.queuedBytes + datagram.size ≤ kMaxQueuedBytes) :
    ({ s with
        sendQueue := s.sendQueue ++ [datagram]
        queuedBytes := s.queuedBytes + datagram.size } : UdpSocket).Accounted := by
  constructor
  · have hold := h.bytes
    simp only [total_append, total_cons, total_nil]
    omega
  · exact hbytes
  · rw [List.length_append, List.length_singleton]
    omega
  · intro packet hpacket
    rcases List.mem_append.mp hpacket with hold | hnew
    · exact h.nonempty packet hold
    · obtain rfl := List.mem_singleton.mp hnew
      exact hpos

end UdpSocket

/-! ### Runs -/

/-- A socket with what has become of its datagrams. -/
structure SendRun where
  socket : UdpSocket
  /-- What the kernel has taken. -/
  handed : List QueuedPacket := []
  /-- The datagrams for which `send` returned their size. -/
  accepted : List QueuedPacket := []
  /-- A call has returned an error that ends the connection. -/
  fatal : Bool := false
  deriving DecidableEq

inductive SendStep
  | send (datagram : QueuedPacket) (answer : SendmsgResult)
  | flush (kernel : ℕ → SendmsgResult)

namespace SendRun

def start (fd : ℤ) : SendRun := { socket := { fd := fd } }

/-- The run after a send of the datagram that gave this result. -/
def afterSend (run : SendRun) (datagram : QueuedPacket) :
    Except Errno ℕ × UdpSocket × List QueuedPacket → SendRun
  | (.ok _, socket, taken) =>
    { run with
      socket := socket
      handed := run.handed ++ taken
      accepted := run.accepted ++ [datagram] }
  | (.error error, socket, taken) =>
    { run with
      socket := socket
      handed := run.handed ++ taken
      fatal := run.fatal || !udpErrorIsTemporary error }

def afterFlush (run : SendRun) : Bool × UdpSocket × List QueuedPacket → SendRun
  | (ok, socket, taken) =>
    { run with
      socket := socket
      handed := run.handed ++ taken
      fatal := run.fatal || !ok }

def step (run : SendRun) : SendStep → Option SendRun
  | .send datagram answer => some (run.afterSend datagram (run.socket.send datagram answer))
  | .flush kernel => (run.socket.flushSendQueue kernel).map run.afterFlush

/-- Nothing is lost, duplicated, merged or out of order. -/
def InOrder (run : SendRun) : Prop :=
  run.fatal = false → run.handed ++ run.socket.sendQueue = run.accepted

/-- A datagram that the kernel takes directly finds no other one waiting in the queue. -/
def NoneOvertaken (run : SendRun) : SendStep → Prop
  | .send datagram answer =>
    run.fatal = false → run.socket.TakesDirectly datagram answer →
      ∀ waiting ∈ run.socket.sendQueue, waiting = datagram
  | .flush _ => True

variable {run : SendRun}

/-- A list that may go in front of an element or behind it repeats that element. -/
theorem cons_eq_append_iff {α : Type*} {a : α} {l : List α} :
    a :: l = l ++ [a] ↔ ∀ b ∈ l, b = a := by
  induction l with
  | nil => simp
  | cons b l ih =>
    rw [List.cons_append, List.cons.injEq, List.forall_mem_cons]
    constructor
    · rintro ⟨rfl, hrest⟩
      exact ⟨rfl, ih.mp hrest⟩
    · rintro ⟨rfl, hrest⟩
      exact ⟨rfl, ih.mpr hrest⟩

/-- A send keeps the order exactly if it overtakes no other datagram. -/
theorem afterSend_inOrder (datagram : QueuedPacket) (answer : SendmsgResult) (horder : run.InOrder) :
    (run.afterSend datagram (run.socket.send datagram answer)).InOrder ↔
      run.NoneOvertaken (.send datagram answer) := by
  have hsent := UdpSocket.send_cases run.socket datagram answer
  unfold NoneOvertaken
  generalize run.socket.send datagram answer = result at hsent
  cases hsent with
  | refused error taken not order =>
    constructor
    · intro _ _ htakes
      exact absurd htakes not
    · intro _ hfatal
      simp only [afterSend, Bool.or_eq_false_iff, Bool.not_eq_false'] at hfatal
      simp only [afterSend, order hfatal.2, List.append_nil]
      exact horder hfatal.1
  | direct takes =>
    apply forall_congr'
    intro hfatal
    have hbefore := horder hfatal
    simp only [afterSend, ← hbefore, List.append_assoc, List.append_right_inj,
      List.singleton_append, cons_eq_append_iff]
    exact ⟨fun h _ => h, fun h => h takes⟩
  | queued not pos packets bytes =>
    constructor
    · intro _ _ htakes
      exact absurd htakes not
    · intro _ hfatal
      simp only [afterSend, ← horder hfatal, List.append_nil, List.append_assoc]

theorem afterSend_accounted (datagram : QueuedPacket) (answer : SendmsgResult)
    (h : run.socket.Accounted) :
    (run.afterSend datagram (run.socket.send datagram answer)).socket.Accounted := by
  have hsent := UdpSocket.send_cases run.socket datagram answer
  generalize run.socket.send datagram answer = result at hsent
  cases hsent with
  | refused error taken not order => exact h
  | direct takes => exact h
  | queued not pos packets bytes => exact h.push pos packets bytes

theorem afterFlush_inOrder {ok : Bool} {socket : UdpSocket} {taken : List QueuedPacket}
    (h : run.socket.Flushed ok socket taken) (horder : run.InOrder) :
    (run.afterFlush (ok, socket, taken)).InOrder := by
  intro hfatal
  simp only [afterFlush, Bool.or_eq_false_iff, Bool.not_eq_false'] at hfatal
  simp only [afterFlush, List.append_assoc, h.order hfatal.2]
  exact horder hfatal.1

/-- Every call returns and keeps the accounts. -/
theorem step_accounted (h : run.socket.Accounted) (call : SendStep) :
    ∃ run', run.step call = some run' ∧ run'.socket.Accounted := by
  cases call with
  | send datagram answer => exact ⟨_, rfl, afterSend_accounted datagram answer h⟩
  | flush kernel =>
    obtain ⟨ok, socket, taken, hflush, hflushed⟩ := UdpSocket.flushSendQueue_eq_some kernel h
    exact ⟨_, congrArg (Option.map run.afterFlush) hflush, hflushed.accounted⟩

theorem run_accounted (h : run.socket.Accounted) (calls : List SendStep) :
    ∃ run', Transition.run step run calls = some run' ∧ run'.socket.Accounted := by
  induction calls generalizing run with
  | nil => exact ⟨run, rfl, h⟩
  | cons call calls ih =>
    obtain ⟨next, hstep, hnext⟩ := step_accounted h call
    obtain ⟨run', hrun, hend⟩ := ih hnext
    exact ⟨run', Transition.run_cons.mpr ⟨next, hstep, hrun⟩, hend⟩

/-- What a run whose sends overtake nothing keeps. -/
structure Ordered (run : SendRun) : Prop where
  accounted : run.socket.Accounted
  order : run.InOrder

theorem step_ordered {run' : SendRun} {call : SendStep} (h : run.Ordered)
    (hstep : run.step call = some run') : run'.socket.Accounted ∧
      (run'.InOrder ↔ run.NoneOvertaken call) := by
  cases call with
  | send datagram answer =>
    obtain rfl := Option.some.inj hstep
    exact ⟨afterSend_accounted datagram answer h.accounted, afterSend_inOrder datagram answer h.order⟩
  | flush kernel =>
    obtain ⟨ok, socket, taken, hflush, hflushed⟩ :=
      UdpSocket.flushSendQueue_eq_some kernel h.accounted
    obtain rfl : run.afterFlush (ok, socket, taken) = run' := by
      simpa [step, hflush] using hstep
    exact ⟨hflushed.accounted, iff_of_true (afterFlush_inOrder hflushed h.order) trivial⟩

theorem start_accounted (fd : ℤ) : (start fd).socket.Accounted :=
  ⟨rfl, Nat.zero_le _, Nat.zero_le _, nofun⟩

/-- For every run of calls and every behaviour of the kernel, the calls return and the queue
is accounted for; all datagrams are in order in every state reached if and only if no
send overtakes a different datagram that waits in the queue. -/
theorem sendQueue_inOrder_iff (fd : ℤ) (calls : List SendStep) :
    (∃ run', Transition.run step (start fd) calls = some run' ∧ run'.socket.Accounted) ∧
      (Transition.Meets step NoneOvertaken (start fd) calls ↔
        ∀ before after run, calls = before ++ after →
          Transition.run step (start fd) before = some run → run.InOrder) := by
  obtain ⟨run', hrun, hend⟩ := run_accounted (start_accounted fd) calls
  refine ⟨⟨run', hrun, hend⟩, ?_⟩
  apply Transition.meets_iff (fun _ (h : Ordered _) => h.order) _ _ hrun
  · exact ⟨start_accounted fd, fun _ => rfl⟩
  · intro run call next h hok hstep
    obtain ⟨haccounted, horder⟩ := step_ordered h hstep
    exact ⟨haccounted, horder.mpr hok⟩
  · intro run call next h hstep horder
    exact (step_ordered h hstep).2.mp horder

/-- The kernel refuses one datagram and takes the next one, which overtakes it. -/
theorem sendQueue_overtakes :
    ∃ run, Transition.run step (start 3)
        [.send ⟨[1], 0⟩ ⟨none, .eagain⟩, .send ⟨[2], 0⟩ ⟨some 1, .eagain⟩] = some run ∧
      run.fatal = false ∧ run.accepted = [⟨[1], 0⟩, ⟨[2], 0⟩] ∧
        run.handed ++ run.socket.sendQueue = [⟨[2], 0⟩, ⟨[1], 0⟩] ∧ ¬run.InOrder := by
  refine ⟨_, rfl, rfl, rfl, rfl, ?_⟩
  intro horder
  exact absurd (horder rfl) (by decide)

end SendRun

end KatHttp3
